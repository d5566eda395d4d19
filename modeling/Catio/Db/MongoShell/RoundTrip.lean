import Catio.Db.MongoShell.Brackets
import Catio.Db.MongoShell.Loose
import Catio.Lib.JavaScript

/-!
# Commands and their texts

The canonical text of a command names its collection bare if it can and between brackets otherwise,
and has the compact texts of its arguments.  It is parsed as the command if and only if the
collection is not written bare with `getCollection` in front of its name, which is taken for the
call of that name (`parse_render`).
-/

namespace Db.MongoShell

open Scan Text Json

variable {u : Unicode} {fromStr : Reader}

/-! ### Commands -/

/-- A call behind `find`. -/
inductive Call where
  | sort (order : Value)
  | skip (n : UInt64)
  | limit (n : Int64)
  | pretty
  | toArray

/-- What a method is called on a collection for. -/
inductive Operation where
  | find (filter : Value) (chain : List Call)
  | count (filter : Value)
  | aggregate (pipeline : List Value)
  | getIndexes
  | insertOne (doc : Value)
  | insertMany (docs : List Value)
  | updateOne (filter update : Value)
  | updateMany (filter update : Value)
  | deleteOne (filter : Value)
  | deleteMany (filter : Value)

structure ShellCommand where
  collection : Text
  operation : Operation

def Call.apply (c : Chain) : Call → Chain
  | .sort order => { c with sort := some order }
  | .skip n => { c with skip := some n }
  | .limit n => { c with limit := some n }
  | .pretty => c
  | .toArray => c

def Operation.command (collection : Text) : Operation → MongoCommand
  | .find filter chain =>
      let c := chain.foldl Call.apply ⟨none, none, none⟩
      .find collection filter c.sort c.skip c.limit
  | .count filter => .count collection filter
  | .aggregate pipeline => .aggregate collection (.array pipeline)
  | .getIndexes => .getIndexes collection
  | .insertOne doc => .insertOne collection doc
  | .insertMany docs => .insertMany collection (.array docs)
  | .updateOne filter update => .updateOne collection filter update
  | .updateMany filter update => .updateMany collection filter update
  | .deleteOne filter => .deleteOne collection filter
  | .deleteMany filter => .deleteMany collection filter

def ShellCommand.command (c : ShellCommand) : MongoCommand :=
  c.operation.command c.collection

/-! ### Texts -/

def int64Text (n : Int64) : Text :=
  if n.toInt < 0 then '-' :: ofNat n.toInt.natAbs else ofNat n.toInt.natAbs

def Call.name : Call → Text
  | .sort _ => "sort"
  | .skip _ => "skip"
  | .limit _ => "limit"
  | .pretty => "pretty"
  | .toArray => "toArray"

def Call.argument : Call → Text
  | .sort order => order.toText
  | .skip n => ofNat n.toNat
  | .limit n => int64Text n
  | .pretty => []
  | .toArray => []

def Call.text (call : Call) : Text :=
  '.' :: (call.name ++ '(' :: (call.argument ++ [')']))

def Operation.method : Operation → Text
  | .find _ _ => "find"
  | .count _ => "countDocuments"
  | .aggregate _ => "aggregate"
  | .getIndexes => "getIndexes"
  | .insertOne _ => "insertOne"
  | .insertMany _ => "insertMany"
  | .updateOne _ _ => "updateOne"
  | .updateMany _ _ => "updateMany"
  | .deleteOne _ => "deleteOne"
  | .deleteMany _ => "deleteMany"

def Operation.arguments : Operation → List Value
  | .find filter _ => [filter]
  | .count filter => [filter]
  | .aggregate pipeline => [.array pipeline]
  | .getIndexes => []
  | .insertOne doc => [doc]
  | .insertMany docs => [.array docs]
  | .updateOne filter update => [filter, update]
  | .updateMany filter update => [filter, update]
  | .deleteOne filter => [filter]
  | .deleteMany filter => [filter]

def Operation.chain : Operation → List Call
  | .find _ chain => chain
  | _ => []

/-- The arguments between the parentheses. -/
def Operation.argumentText (o : Operation) : Text :=
  join [','] (o.arguments.map Value.toText)

/-- The name of a collection can be written without quotes. -/
def Bare (u : Unicode) (collection : Text) : Prop :=
  collection.all (isNameChar u)

instance (u : Unicode) (collection : Text) : Decidable (Bare u collection) :=
  inferInstanceAs (Decidable (_ = true))

def address (u : Unicode) (collection : Text) : Text :=
  if Bare u collection then '.' :: collection else '[' :: '"' :: (collection ++ ['"', ']'])

def ShellCommand.render (u : Unicode) (c : ShellCommand) : Text :=
  "db" ++ (address u c.collection ++ '.' :: (c.operation.method ++ '(' ::
    (c.operation.argumentText ++ ')' :: c.operation.chain.flatMap Call.text)))

def Call.values : Call → List Value
  | .sort order => [order]
  | _ => []

def Operation.values (o : Operation) : List Value :=
  o.arguments ++ o.chain.flatMap Call.values

/-- A text that has the constructor of an object identifier. -/
def Mentions (t : Text) : Prop :=
  ∃ blank : Text, (∀ c ∈ blank, isWhitespace c) ∧ ("ObjectId" : Text) ++ blank ++ ['('] <:+: t

/-- A value as JSON has it that has no constructor in its strings. -/
def Clean (v : Value) : Prop :=
  v.proper ∧ ∀ s ∈ v.strings, ¬Mentions s

/-- A command with a collection that has no quotes and brackets in its name, and with clean values.
-/
structure ShellCommand.Supported (c : ShellCommand) : Prop where
  named : c.collection ≠ []
  unquoted : ∀ x ∈ c.collection, x ∉ ['"', '\'', '[', ']']
  clean : ∀ v ∈ c.operation.values, Clean v

/-- The collection is written bare, and its name begins like the call that names a collection. -/
def ShellCommand.Clashes (u : Unicode) (c : ShellCommand) : Prop :=
  Bare u c.collection ∧ ("getCollection" : Text) <+: c.collection

/-! ### Values -/

theorem looseString_quote (s : Text) :
  LooseString s (quote s) (quote s)
  := by
  obtain ⟨-, b, hbody, hquote⟩ := exact_quote s
  rw [hquote]
  exact .double hbody

variable {c : ShellCommand} {name : Text} {v : Value} {call : Call}

theorem loose_toText (h : v.proper) :
  Loose u v v.toText v.toText
  := renders_toText (fun s => .string (looseString_quote s)) looseString_quote v h

theorem not_hasConstructor (h : ∀ s ∈ v.strings, ¬Mentions s) :
  ¬HasConstructor u v.toText
  := by
  rintro ⟨before, blank, -, hblank, hstarts⟩
  have hname : ∀ d ∈ ("ObjectId" : Text), d ∉ ['"', '\\', '[', ']', '{', '}', ',', ':'] :=
    List.all_iff_forall_prop.mp (by decide)
  have hlike : Stringlike 'O' (("bjectId" : Text) ++ blank ++ ['(']) := by
    constructor
    · decide
    · intro d hd
      rw [← List.cons_append, ← List.cons_append, List.mem_append, List.mem_append] at hd
      rcases hd with (hd | hd) | hd
      · exact hname d hd
      · intro hmark
        have hspace := hblank d hd
        have hvisible : ∀ c ∈ ['"', '\\', '[', ']', '{', '}', ',', ':'],
            isWhitespace c = false := List.all_iff_forall_prop.mp (by decide)
        rw [hvisible d hmark] at hspace
        cases hspace
      · rw [List.mem_singleton.mp hd]
        decide
  have hlies : ("ObjectId" : Text) ++ blank ++ ['('] <:+: v.toText := by
    rw [List.append_assoc, List.append_assoc, ← List.append_assoc _ blank] at hstarts
    exact (List.suffix_append before _).isInfix.trans hstarts.isInfix
  obtain ⟨s, hs, hmention⟩ := hlike.infix_toText v hlies
  exact h s hs ⟨blank, hblank, hmention⟩

theorem normalizeLooseJson_toText (h : Clean v) (hread : fromStr v.toText = .ok v) :
  normalizeLooseJson u fromStr v.toText = .ok v
  := by
  have hnone : Blank [] := by rintro c ⟨⟩
  have heq := normalizeLooseJson_eq (u := u) (loose_toText h.1) hnone hnone
    (not_hasConstructor h.2) hread
  rwa [List.nil_append, List.append_nil] at heq

theorem walk_toText (h : v.proper) {base depth : ℕ} (hle : base ≤ depth) :
  Walk base (.at depth) v.toText (.at depth)
  := walk_renders (denotes_toText h) hle

/-! ### Numbers -/

theorem parseDigits_ofNat (n : ℕ) :
  parseDigits (ofNat n) = some n
  := by
  rw [parseDigits, if_pos ⟨Nat.toDigits_ne_nil, JavaScript.all_isDigit_ofNat n⟩, ofNat,
    Nat.ofDigitChars_toDigits (by decide) (by decide)]

theorem stripPrefix_ofNat {c : Char} (hc : c.isDigit = false) (n : ℕ) :
  stripPrefix [c] (ofNat n) = none
  := by
  rw [stripPrefix, if_neg]
  intro hstarts
  obtain ⟨t, ht⟩ := List.isPrefixOf_iff_prefix.mp hstarts
  have hall := JavaScript.all_isDigit_ofNat n
  rw [← ht, List.singleton_append, List.all_cons, hc] at hall
  cases hall

theorem digit_neutral {c : Char} (h : c.isDigit) :
  isWhitespace c = false ∧ isNeutral c
  := by
  simp only [Char.isDigit, Bool.and_eq_true, decide_eq_true_eq] at h
  have hlow : 48 ≤ c.toNat := h.1
  have hhigh : c.toNat ≤ 57 := h.2
  have hall : ∀ n < 10, isWhitespace (Char.ofNat (48 + n)) = false
      ∧ isNeutral (Char.ofNat (48 + n)) = true := by
    decide
  have hc := hall (c.toNat - 48) (by omega)
  rwa [Nat.add_sub_cancel' hlow, Char.ofNat_toNat] at hc

theorem ofNat_neutral (n : ℕ) :
  (∀ c ∈ ofNat n, isWhitespace c = false) ∧ (ofNat n).all isNeutral
  := by
  have hdigit := List.all_eq_true.mp (JavaScript.all_isDigit_ofNat n)
  refine ⟨fun c hc => (digit_neutral (hdigit c hc)).1, ?_⟩
  rw [List.all_eq_true]
  exact fun c hc => (digit_neutral (hdigit c hc)).2

theorem parseU64_ofNat (n : UInt64) :
  parseU64 (trim (ofNat n.toNat)) = some n
  := by
  have hplus : stripPrefix "+" (ofNat n.toNat) = none := stripPrefix_ofNat (by decide) n.toNat
  rw [trim_of_visible (ofNat_neutral n.toNat).1, parseU64, hplus, Option.getD_none,
    parseDigits_ofNat, Option.bind_some, if_pos n.toNat_lt, UInt64.ofNat_toNat]

theorem int64Text_neutral (n : Int64) :
  (∀ c ∈ int64Text n, isWhitespace c = false) ∧ (int64Text n).all isNeutral
  := by
  obtain ⟨hvisible, hneutral⟩ := ofNat_neutral n.toInt.natAbs
  unfold int64Text
  split_ifs
  · refine ⟨?_, ?_⟩
    · intro c hc
      rcases List.mem_cons.mp hc with rfl | hc
      · rfl
      · exact hvisible c hc
    · rw [List.all_cons, hneutral]
      rfl
  · exact ⟨hvisible, hneutral⟩

theorem parseI64_int64Text (n : Int64) :
  parseI64 (trim (int64Text n)) = some n
  := by
  have hlow := n.le_toInt
  have hhigh := n.toInt_lt
  rw [trim_of_visible (int64Text_neutral n).1, int64Text, parseI64]
  split_ifs with hnegative
  · have hminus : stripPrefix "-" ('-' :: ofNat n.toInt.natAbs) = some (ofNat n.toInt.natAbs) :=
      stripPrefix_append "-" (ofNat n.toInt.natAbs)
    have hback : -(n.toInt.natAbs : ℤ) = n.toInt := by omega
    rw [hminus]
    dsimp only
    rw [parseDigits_ofNat, Option.bind_some, if_pos (by omega), hback, Int64.ofInt_toInt]
  · have hminus : stripPrefix "-" (ofNat n.toInt.natAbs) = none :=
      stripPrefix_ofNat (by decide) n.toInt.natAbs
    have hplus : stripPrefix "+" (ofNat n.toInt.natAbs) = none :=
      stripPrefix_ofNat (by decide) n.toInt.natAbs
    have hback : (n.toInt.natAbs : ℤ) = n.toInt := by omega
    rw [hminus]
    dsimp only
    rw [hplus, Option.getD_none, parseDigits_ofNat, Option.bind_some, if_pos (by omega), hback,
      Int64.ofInt_toInt]

/-! ### Calls -/

theorem letters_facts {t : Text} (h : t.all Char.isAlpha) :
  '(' ∉ t ∧ '.' ∉ t ∧ trim t = t
  := by
  rw [List.all_eq_true] at h
  refine ⟨fun hmem => absurd (h '(' hmem) (by decide), fun hmem => absurd (h '.' hmem) (by decide),
    ?_⟩
  apply trim_of_visible
  intro c hc
  have hletter := h c hc
  rw [isAlpha_iff] at hletter
  have hrange : 65 ≤ c.toNat ∧ c.toNat ≤ 122 := by omega
  have hall : ∀ n < 58, isWhitespace (Char.ofNat (65 + n)) = false := by decide
  have hback := hall (c.toNat - 65) (by omega)
  rwa [Nat.add_sub_cancel' hrange.1, Char.ofNat_toNat] at hback

theorem parseCall_eq {name t : Text} (hname : '(' ∉ name) (htrim : trim name = name) (rest : Text)
    (h : Reads extractTurn (.at 1) (t ++ ')' :: rest) (')' :: rest) (.at 1) t) :
  parseCall (name ++ '(' :: (t ++ ')' :: rest)) = .ok (name, t, rest)
  := by
  rw [parseCall, splitOnce_append hname]
  dsimp only
  rw [extractBalanced_eq rest h, htrim]

theorem Call.reads_argument (h : ∀ v ∈ call.values, Clean v) (rest : Text) :
  Reads extractTurn (.at 1) (call.argument ++ rest) rest (.at 1) call.argument
  := by
  apply Walk.reads_extract
  cases call with
  | sort order =>
    have hclean : Clean order := h order (List.mem_singleton_self order)
    exact walk_toText hclean.1 (le_refl 1)
  | skip n => exact walk_neutral (ofNat_neutral n.toNat).2
  | limit n => exact walk_neutral (int64Text_neutral n).2
  | pretty => apply Walk.nil
  | toArray => apply Walk.nil

theorem Call.parseCall_text (h : ∀ v ∈ call.values, Clean v) (rest : Text) :
  parseCall (call.name ++ '(' :: (call.argument ++ ')' :: rest))
    = .ok (call.name, call.argument, rest)
  := by
  have hletters : call.name.all Char.isAlpha := by
    cases call with
    | _ => rfl
  obtain ⟨hparenthesis, -, htrim⟩ := letters_facts hletters
  exact parseCall_eq hparenthesis htrim rest (Call.reads_argument h _)

theorem Call.chainCall_apply (h : ∀ v ∈ call.values, Clean v)
    (hread : ∀ v ∈ call.values, fromStr v.toText = .ok v) (c : Chain) :
  chainCall u fromStr call.name call.argument c = .ok (call.apply c)
  := by
  cases call with
  | sort order =>
    have hmem : order ∈ (Call.sort order).values := List.mem_singleton_self order
    have hvalue := normalizeLooseJson_toText (u := u) (h order hmem) (hread order hmem)
    change chainCall u fromStr "sort" order.toText c = _
    rw [chainCall, if_pos rfl, hvalue]
    rfl
  | skip n =>
    change chainCall u fromStr "skip" (ofNat n.toNat) c = _
    rw [chainCall, if_neg (by decide), if_pos rfl, parseU64_ofNat]
    rfl
  | limit n =>
    change chainCall u fromStr "limit" (int64Text n) c = _
    rw [chainCall, if_neg (by decide), if_neg (by decide), if_pos rfl, parseI64_int64Text]
    rfl
  | pretty => rfl
  | toArray => rfl

theorem chainLoop_dot (n : ℕ) (rest : Text) (c : Chain) :
  chainLoop u fromStr (n + 1) ('.' :: rest) c
    = parseCall rest >>= fun r => chainCall u fromStr r.1 r.2.1 c >>= chainLoop u fromStr n r.2.2
  := rfl

theorem chainLoop_calls {calls : List Call} (h : ∀ v ∈ calls.flatMap Call.values, Clean v)
    (hread : ∀ v ∈ calls.flatMap Call.values, fromStr v.toText = .ok v) {n : ℕ}
    (hn : calls.length < n) (c : Chain) :
  chainLoop u fromStr n (calls.flatMap Call.text) c = .ok (calls.foldl Call.apply c)
  := by
  induction calls generalizing n c with
  | nil =>
    obtain ⟨n, rfl⟩ := Nat.exists_eq_add_one_of_ne_zero (Nat.ne_of_gt hn)
    rfl
  | cons call calls ih =>
    obtain ⟨n, rfl⟩ := Nat.exists_eq_add_one_of_ne_zero (Nat.ne_of_gt (Nat.zero_lt_of_lt hn))
    simp only [List.flatMap_cons, List.mem_append] at h hread
    have hcall := Call.parseCall_text (fun v hv => h v (.inl hv)) (calls.flatMap Call.text)
    have happly := Call.chainCall_apply (u := u) (fun v hv => h v (.inl hv))
      (fun v hv => hread v (.inl hv)) c
    have hmore := ih (fun v hv => h v (.inr hv)) (fun v hv => hread v (.inr hv))
      (Nat.lt_of_succ_lt_succ hn) (call.apply c)
    have htext : (call :: calls).flatMap Call.text
        = '.' :: (call.name ++ '(' :: (call.argument ++ ')' :: calls.flatMap Call.text)) := by
      simp [Call.text]
    rw [htext, chainLoop_dot, hcall]
    change (chainCall u fromStr call.name call.argument c >>= chainLoop u fromStr n _) = _
    rw [happly]
    exact hmore

theorem parseFindChain_calls {calls : List Call} (h : ∀ v ∈ calls.flatMap Call.values, Clean v)
    (hread : ∀ v ∈ calls.flatMap Call.values, fromStr v.toText = .ok v) :
  parseFindChain u fromStr (calls.flatMap Call.text)
    = .ok (calls.foldl Call.apply ⟨none, none, none⟩)
  := by
  apply chainLoop_calls h hread
  have hlength : calls.length ≤ (calls.flatMap Call.text).length := by
    induction calls with
    | nil => apply Nat.zero_le
    | cons call calls ih =>
      simp only [List.flatMap_cons, List.mem_append] at h hread
      have hmore := ih (fun v hv => h v (.inr hv)) (fun v hv => hread v (.inr hv))
      simp only [List.flatMap_cons, List.length_append, List.length_cons, Call.text]
      omega
  omega

/-! ### Arguments -/

section

variable {o : Operation} (hclean : ∀ v ∈ o.values, Clean v)

include hclean

theorem clean_arguments {v : Value} (hv : v ∈ o.arguments) :
  Clean v
  := hclean v (List.mem_append_left _ hv)

theorem reads_argumentText (rest : Text) :
  Reads extractTurn (.at 1) (o.argumentText ++ rest) rest (.at 1) o.argumentText
  := by
  apply reads_arguments
  intro t ht
  obtain ⟨v, hv, rfl⟩ := List.mem_map.mp ht
  exact walk_toText (clean_arguments hclean hv).1 (le_refl 1)

theorem splitTopLevel_argumentText :
  splitTopLevel o.argumentText = o.arguments.map Value.toText
  := by
  apply splitTopLevel_arguments
  · intro t ht
    obtain ⟨v, hv, rfl⟩ := List.mem_map.mp ht
    exact walk_toText (clean_arguments hclean hv).1 (le_refl 0)
  · intro t ht
    obtain ⟨v, hv, rfl⟩ := List.mem_map.mp ht
    exact trim_loose (u := ascii) (loose_toText (clean_arguments hclean hv).1)

end

theorem arrayArgument_toText {items : List Value} (h : Clean (.array items))
    (hread : fromStr (Value.array items).toText = .ok (.array items)) (args : List Text) :
  arrayArgument u fromStr (Value.array items).toText args = .ok (.array items)
  := by
  have htrim := (trim_loose (u := u) (loose_toText h.1)).1
  have hhead : (Value.array items).toText.head? = some '[' := by
    rw [Value.toText]
    rfl
  rw [arrayArgument, htrim, if_pos hhead, normalizeLooseJson_toText h hread]
  rfl

/-! ### Methods -/

section

variable {raw a b : Text} {args : List Text} (collection : Text)

theorem parseMethod_find (hsplit : splitTopLevel raw = [a]) (chain : Text) :
  parseMethod u fromStr collection "find" raw chain
    = parseFindChain u fromStr chain >>= fun c => normalizeLooseJson u fromStr a >>= fun filter =>
      .ok (.find collection filter c.sort c.skip c.limit)
  := by
  rw [parseMethod, hsplit, if_neg (by simp), if_pos rfl, if_neg (by simp)]
  rfl

theorem parseMethod_countDocuments (hsplit : splitTopLevel raw = [a]) :
  parseMethod u fromStr collection "countDocuments" raw []
    = (normalizeLooseJson u fromStr a).map (.count collection)
  := by
  rw [parseMethod, hsplit, if_neg (by decide), if_neg (by decide), if_pos (by decide)]
  rfl

theorem parseMethod_aggregate (hsplit : splitTopLevel raw = args) :
  parseMethod u fromStr collection "aggregate" raw []
    = (arrayArgument u fromStr raw args).map (.aggregate collection)
  := by
  rw [parseMethod, hsplit]
  rfl

theorem parseMethod_insertOne (hsplit : splitTopLevel raw = [a]) :
  parseMethod u fromStr collection "insertOne" raw []
    = (normalizeLooseJson u fromStr a).map (.insertOne collection)
  := by
  rw [parseMethod, hsplit]
  rfl

theorem parseMethod_insertMany (hsplit : splitTopLevel raw = args) :
  parseMethod u fromStr collection "insertMany" raw []
    = (arrayArgument u fromStr raw args).map (.insertMany collection)
  := by
  rw [parseMethod, hsplit]
  rfl

theorem parseMethod_updateOne (hsplit : splitTopLevel raw = [a, b]) :
  parseMethod u fromStr collection "updateOne" raw []
    = normalizeLooseJson u fromStr a >>= fun filter => normalizeLooseJson u fromStr b >>=
      fun update => .ok (.updateOne collection filter update)
  := by
  rw [parseMethod, hsplit]
  rfl

theorem parseMethod_updateMany (hsplit : splitTopLevel raw = [a, b]) :
  parseMethod u fromStr collection "updateMany" raw []
    = normalizeLooseJson u fromStr a >>= fun filter => normalizeLooseJson u fromStr b >>=
      fun update => .ok (.updateMany collection filter update)
  := by
  rw [parseMethod, hsplit]
  rfl

theorem parseMethod_deleteOne (hsplit : splitTopLevel raw = [a]) :
  parseMethod u fromStr collection "deleteOne" raw []
    = (normalizeLooseJson u fromStr a).map (.deleteOne collection)
  := by
  rw [parseMethod, hsplit]
  rfl

theorem parseMethod_deleteMany (hsplit : splitTopLevel raw = [a]) :
  parseMethod u fromStr collection "deleteMany" raw []
    = (normalizeLooseJson u fromStr a).map (.deleteMany collection)
  := by
  rw [parseMethod, hsplit]
  rfl

end

section

variable {collection : Text} {o : Operation} (hclean : ∀ v ∈ o.values, Clean v)
  (hread : ∀ v ∈ o.values, fromStr v.toText = .ok v)

include hclean hread

theorem normalize_argument {v : Value} (hv : v ∈ o.arguments) :
  normalizeLooseJson u fromStr v.toText = .ok v
  := normalizeLooseJson_toText (clean_arguments hclean hv) (hread v (List.mem_append_left _ hv))

theorem array_argument {items : List Value} (h : o.arguments = [.array items]) (args : List Text) :
  arrayArgument u fromStr o.argumentText args = .ok (.array items)
  := by
  have hmem : Value.array items ∈ o.arguments := by
    rw [h]
    exact List.mem_singleton_self _
  have htext : o.argumentText = (Value.array items).toText := by
    rw [Operation.argumentText, h, List.map_singleton, join_singleton]
  rw [htext]
  exact arrayArgument_toText (clean_arguments hclean hmem)
    (hread _ (List.mem_append_left _ hmem)) args

theorem parseMethod_eq :
  parseMethod u fromStr collection o.method o.argumentText (o.chain.flatMap Call.text)
    = .ok (o.command collection)
  := by
  have hsplit := splitTopLevel_argumentText hclean
  have hvalue {v : Value} (hv : v ∈ o.arguments) := normalize_argument (u := u) hclean hread hv
  cases o with
  | find filter chain =>
    have hchain := @parseFindChain_calls u fromStr chain
      (fun v hv => hclean v (List.mem_append_right _ hv))
      (fun v hv => hread v (List.mem_append_right _ hv))
    apply (parseMethod_find collection hsplit _).trans
    change (parseFindChain u fromStr (chain.flatMap Call.text) >>= _) = _
    rw [hchain]
    change (normalizeLooseJson u fromStr filter.toText >>= _) = _
    rw [hvalue List.mem_cons_self]
    rfl
  | count filter =>
    apply (parseMethod_countDocuments collection hsplit).trans
    rw [hvalue List.mem_cons_self]
    rfl
  | aggregate pipeline =>
    apply (parseMethod_aggregate collection hsplit).trans
    rw [array_argument hclean hread rfl]
    rfl
  | getIndexes => rfl
  | insertOne doc =>
    apply (parseMethod_insertOne collection hsplit).trans
    rw [hvalue List.mem_cons_self]
    rfl
  | insertMany docs =>
    apply (parseMethod_insertMany collection hsplit).trans
    rw [array_argument hclean hread rfl]
    rfl
  | updateOne filter update =>
    apply (parseMethod_updateOne collection hsplit).trans
    rw [hvalue List.mem_cons_self, hvalue (List.mem_cons_of_mem _ List.mem_cons_self)]
    rfl
  | updateMany filter update =>
    apply (parseMethod_updateMany collection hsplit).trans
    rw [hvalue List.mem_cons_self, hvalue (List.mem_cons_of_mem _ List.mem_cons_self)]
    rfl
  | deleteOne filter =>
    apply (parseMethod_deleteOne collection hsplit).trans
    rw [hvalue List.mem_cons_self]
    rfl
  | deleteMany filter =>
    apply (parseMethod_deleteMany collection hsplit).trans
    rw [hvalue List.mem_cons_self]
    rfl

end

/-! ### Collections -/

theorem trimQuotes_quoted (hname : ∀ x ∈ name, isQuote x = false) (hne : name ≠ []) :
  trimQuotes ('"' :: (name ++ ['"'])) = name
  := by
  have hdrop : ('"' :: (name ++ ['"'])).dropWhile isQuote = name ++ ['"'] := by
    obtain ⟨c, name, rfl⟩ := List.exists_cons_of_ne_nil hne
    have hc := hname c List.mem_cons_self
    rw [List.dropWhile_cons_of_pos rfl, List.cons_append, List.dropWhile_cons_of_neg]
    rw [hc]
    exact Bool.false_ne_true
  rw [trimQuotes, hdrop, List.rdropWhile_concat_pos _ _ _ rfl, List.rdropWhile_eq_self_iff]
  intro hnil
  rw [hname _ (List.getLast_mem hnil)]
  exact Bool.false_ne_true

theorem parseCollection_bracket (r : Text) :
  parseCollection u ('[' :: r)
    = match splitOnce ']' r with
      | none => .error hint
      | some (inner, after) => quotedCollection inner after
  := rfl

theorem parseCollection_dot (rest : Text) :
  parseCollection u ('.' :: rest)
    = match stripPrefix "getCollection" rest with
      | some r =>
          match extractBalanced r with
          | .error _ => .error hint
          | .ok (inner, after) => quotedCollection inner after
      | none => bareCollection u rest
  := rfl

theorem parseCollection_brackets (hne : name ≠ []) (hname : ∀ x ∈ name, x ∉ ['"', '\'', '[', ']'])
    (rest : Text) :
  parseCollection u ('[' :: '"' :: (name ++ ['"', ']']) ++ '.' :: rest) = .ok (name, rest)
  := by
  have hquote : ∀ x ∈ name, isQuote x = false := by
    intro x hx
    have hnot := hname x hx
    simp only [List.mem_cons, List.not_mem_nil, or_false, not_or] at hnot
    simp [isQuote, hnot.1, hnot.2.1]
  have hclosing : ']' ∉ '"' :: (name ++ ['"']) := by
    simp only [List.mem_cons, List.mem_append, List.not_mem_nil, or_false, not_or]
    refine ⟨by decide, ?_, by decide⟩
    exact fun hmem => hname ']' hmem (by decide)
  have htext : '[' :: '"' :: (name ++ ['"', ']']) ++ '.' :: rest
      = '[' :: ('"' :: (name ++ ['"']) ++ ']' :: '.' :: rest) := by
    simp
  rw [htext, parseCollection_bracket, splitOnce_append hclosing]
  dsimp only
  rw [quotedCollection, trim_of_ends rfl rfl, trimQuotes_quoted hquote hne, if_neg hne]
  rfl

theorem Bare.not_mem (h : Bare u name) :
  '(' ∉ name
  := by
  intro hmem
  have hchar := List.all_eq_true.mp h '(' hmem
  rw [isNameChar, Unicode.alphanumeric, u.alphabetic_ascii '(' (by decide),
    u.numeric_ascii '(' (by decide)] at hchar
  exact absurd hchar (by decide)

theorem parseCollection_bare {name method : Text} (hne : name ≠ []) (hbare : Bare u name)
    (hfree : ¬("getCollection" : Text) <+: name) (hmethod : '(' ∉ method ∧ '.' ∉ method)
    (rest : Text) :
  parseCollection u ('.' :: name ++ '.' :: (method ++ '(' :: rest))
    = .ok (name, method ++ '(' :: rest)
  := by
  have hstrip : stripPrefix "getCollection" (name ++ '.' :: (method ++ '(' :: rest)) = none := by
    rw [stripPrefix, if_neg]
    intro hstarts
    have hdot : '.' ∉ ("getCollection" : Text) := by decide
    exact hfree (prefix_of_append_cons hdot (List.isPrefixOf_iff_prefix.mp hstarts))
  have hfront : '(' ∉ name ++ '.' :: method := by
    simp only [List.mem_append, List.mem_cons, not_or]
    exact ⟨hbare.not_mem, by decide, hmethod.1⟩
  have htext : name ++ '.' :: (method ++ '(' :: rest) = name ++ '.' :: method ++ '(' :: rest := by
    simp
  rw [List.cons_append, parseCollection_dot, hstrip]
  dsimp only
  rw [bareCollection, htext, splitOnce_append hfront]
  dsimp only
  rw [rsplitOnce_append hmethod.2]
  dsimp only
  rw [if_pos ⟨hne, hbare⟩]

theorem parseCollection_clash (hbare : Bare u name) (hstarts : ("getCollection" : Text) <+: name)
    (rest : Text) :
  parseCollection u ('.' :: name ++ '.' :: rest) = .error hint
  := by
  obtain ⟨more, rfl⟩ := hstarts
  have herror : ∃ e, extractBalanced (more ++ '.' :: rest) = .error e := by
    match hresult : extractBalanced (more ++ '.' :: rest) with
    | .error e => exact ⟨e, rfl⟩
    | .ok r =>
      exfalso
      obtain ⟨blank, behind, hblank, hparts⟩ := extractBalanced_ok hresult
      rcases List.append_eq_append_iff.mp hparts with ⟨t, rfl, ht⟩ | ⟨t, rfl, ht⟩
      · cases t with
        | nil => cases ht
        | cons c t =>
          cases ht
          have hdot := hblank '.' (List.mem_append_right _ List.mem_cons_self)
          exact absurd hdot (by decide)
      · cases t with
        | nil => cases ht
        | cons c t =>
          cases ht
          apply hbare.not_mem
          simp
  obtain ⟨e, he⟩ := herror
  rw [List.cons_append, List.append_assoc, parseCollection_dot, stripPrefix_append]
  dsimp only
  rw [he]

/-! ### Parsing -/

theorem exists_chain_end (calls : List Call) :
  ∃ t, ')' :: calls.flatMap Call.text = t ++ [')']
  := by
  rcases List.eq_nil_or_concat calls with rfl | ⟨front, last, rfl⟩
  · exact ⟨[], rfl⟩
  · refine ⟨')' :: (front.flatMap Call.text ++ '.' :: (last.name ++ '(' :: last.argument)), ?_⟩
    simp [Call.text]

theorem trim_render (c : ShellCommand) :
  trim ((trim (c.render u)).rdropWhile (· = ';')) = c.render u
  := by
  obtain ⟨t, ht⟩ := exists_chain_end c.operation.chain
  have hends : ∃ s, c.render u = 'd' :: (s ++ [')']) := by
    refine ⟨'b' :: (address u c.collection ++ '.' :: (c.operation.method ++ '(' ::
      (c.operation.argumentText ++ t))), ?_⟩
    rw [ShellCommand.render, ht]
    simp
  obtain ⟨s, hs⟩ := hends
  rw [hs, trim_of_ends rfl rfl, ← List.cons_append, List.rdropWhile_concat_neg _ _ _ (by decide),
    List.cons_append, trim_of_ends rfl rfl]

theorem parse_eq (c : ShellCommand) :
  parse u fromStr (c.render u)
    = parseCollection u (address u c.collection ++ '.' :: (c.operation.method ++ '(' ::
        (c.operation.argumentText ++ ')' :: c.operation.chain.flatMap Call.text)))
      >>= fun r => parseCall r.2 >>= fun s => parseMethod u fromStr r.1 s.1 s.2.1 s.2.2
  := by
  rw [parse, trim_render, ShellCommand.render, stripPrefix_append]

theorem Operation.method_facts (o : Operation) :
  '(' ∉ o.method ∧ '.' ∉ o.method ∧ trim o.method = o.method
  := by
  apply letters_facts
  cases o with
  | _ => rfl

theorem parseCollection_address (h : c.Supported) (hfree : ¬c.Clashes u) (rest : Text) :
  parseCollection u (address u c.collection ++ '.' :: (c.operation.method ++ '(' :: rest))
    = .ok (c.collection, c.operation.method ++ '(' :: rest)
  := by
  obtain ⟨hparenthesis, hdot, -⟩ := c.operation.method_facts
  unfold address
  split_ifs with hbare
  · exact parseCollection_bare h.named hbare (fun hstarts => hfree ⟨hbare, hstarts⟩)
      ⟨hparenthesis, hdot⟩ rest
  · exact parseCollection_brackets h.named h.unquoted _

theorem parse_of_not_clashes (h : c.Supported)
    (hread : ∀ v ∈ c.operation.values, fromStr v.toText = .ok v) (hfree : ¬c.Clashes u) :
  parse u fromStr (c.render u) = .ok c.command
  := by
  obtain ⟨hparenthesis, -, htrim⟩ := c.operation.method_facts
  have hcall := parseCall_eq hparenthesis htrim (c.operation.chain.flatMap Call.text)
    (reads_argumentText h.clean _)
  rw [parse_eq, parseCollection_address h hfree]
  change (parseCall _ >>= _) = _
  rw [hcall]
  exact parseMethod_eq h.clean hread

theorem parse_of_clashes (h : c.Clashes u) :
  parse u fromStr (c.render u) = .error hint
  := by
  rw [parse_eq, address, if_pos h.1, parseCollection_clash h.1 h.2]
  rfl

/-- The canonical text of a command is parsed as the command, whatever its strings hold, if and only
if the collection is not written bare with `getCollection` in front. -/
theorem parse_render (u : Unicode) {fromStr : Reader} {c : ShellCommand} (h : c.Supported)
    (hread : ∀ v ∈ c.operation.values, fromStr v.toText = .ok v) :
  parse u fromStr (c.render u) = .ok c.command ↔ ¬c.Clashes u
  := by
  constructor
  · intro hparse hclash
    rw [parse_of_clashes hclash] at hparse
    cases hparse
  · exact parse_of_not_clashes h hread

/-- A filter with brackets, commas and quotes in its string. -/
def brackets : Value :=
  .object [("say", .array [.string "\"), (x']\x7d", .null])]

/-- A reader of two texts. -/
def smallReader : Reader := fun t =>
  if t = brackets.toText then .ok brackets
  else if t = ("\x7b\x7d" : Text) then .ok (.object [])
  else .error "?"

def findBrackets : ShellCommand :=
  ⟨"user list", .find brackets [.skip 10, .limit (-5), .pretty]⟩

theorem parse_render_brackets :
  parse ascii smallReader (findBrackets.render ascii) = .ok findBrackets.command
  := by
  have hnone {s : Text} (h : 'O' ∉ s) : ¬Mentions s := by
    rintro ⟨blank, -, hlies⟩
    exact h (hlies.subset (by simp))
  have hsupported : findBrackets.Supported := by
    refine ⟨by decide, List.all_iff_forall_prop.mp (by decide), ?_⟩
    intro v hv
    rw [List.mem_singleton.mp (show v ∈ [brackets] from hv)]
    refine ⟨rfl, ?_⟩
    intro s hs
    rcases List.mem_cons.mp hs with rfl | hs
    · exact hnone (by decide)
    · rw [List.mem_singleton.mp hs]
      exact hnone (by decide)
  apply (parse_render ascii hsupported _).mpr
  · rintro ⟨hbare, -⟩
    exact absurd hbare (by decide)
  · intro v hv
    rw [List.mem_singleton.mp (show v ∈ [brackets] from hv), smallReader, if_pos rfl]

/-- A collection whose name begins like a call. -/
def stats : ShellCommand :=
  ⟨"getCollectionStats", .find (.object []) []⟩

theorem stats_rejected :
  stats.Supported ∧ smallReader (Value.object []).toText = .ok (.object [])
    ∧ stats.render ascii = "db.getCollectionStats.find(\x7b\x7d)"
    ∧ parse ascii smallReader (stats.render ascii) = .error hint
  := by
  refine ⟨⟨by decide, List.all_iff_forall_prop.mp (by decide), ?_⟩, ?_, by decide, ?_⟩
  · intro v hv
    rw [List.mem_singleton.mp (show v ∈ [Value.object []] from hv)]
    refine ⟨rfl, ?_⟩
    rintro s ⟨⟩
  · rfl
  · exact parse_of_clashes ⟨by decide, by decide⟩

end Db.MongoShell
