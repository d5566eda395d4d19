import Catio.Lib.Base64
import Catio.Lib.JavaScript.Literals
import Catio.Lib.Json.Grammar
import Mathlib.Logic.Function.Basic

/-!
# Configuration bundles

The model of `services/configSync.ts`: the settings in the storage of a browser become an encrypted
bundle, and a bundle is written back to the storage, entry by entry.  Each write may fail, and
nothing is taken back then.  The ciphers, Base64 and the reader of JSON are parameters.
-/

namespace Workbench.ConfigSync

open Json Text

/-! ### Bundles -/

/-- The keys that are carried from one device to another. -/
def EXPORT_KEYS : List Text :=
  ["catio-connections", "catio-db-connections", "catio-tunnel-connections", "catio-groups",
    "catio-connection-favorites", "catio-sftp-favorites", "catio-sftp-favorites-v2",
    "catio-snippets", "catio-prefs", "catio-theme", "catio-lang", "catio-hidden-schemas"]

def BACKUP_KEY : Text :=
  "catio-config-backup"

def MAGIC : Text :=
  "CATIOCFG1"

def MIN_PASSPHRASE : ℕ :=
  8

/-- The values of the keys. -/
abbrev Storage := Text → Option Text

/-- What the browser does, with the keys of its ciphers. -/
structure Browser (κ : Type) where
  base64 : Base64.Codec
  deriveKey : Text → Bytes → κ
  encrypt : κ → Bytes → Bytes → Bytes
  decrypt : κ → Bytes → Bytes → Option Bytes
  parse : Json.Reader

/-- The entries of the keys in the storage. -/
def exported (storage : Storage) : List (Text × Text) :=
  EXPORT_KEYS.filterMap fun k => (storage k).map fun v => (k, v)

def dataValue (data : List (Text × Text)) : Value :=
  .object (data.map fun e => (e.1, .string e.2))

/-- What is encrypted at a time. -/
def payload (storage : Storage) (now : Number) : Value :=
  .object [("v", .number ⟨false, [1], Json.one_ne_nil, [], none⟩), ("ts", .number now),
    ("data", dataValue (exported storage))]

variable {κ : Type} (browser : Browser κ)

/-- The bundle with a random salt and a random initialisation vector. -/
def exportConfig (storage : Storage) (now : Number) (salt iv : Bytes) (passphrase : Text) :
    Except Text Text :=
  if passphrase = [] then .error "passphrase required"
  else if (passphrase.flatMap JavaScript.utf16Units).length < MIN_PASSPHRASE then
    .error ("passphrase must be at least " ++ ofNat MIN_PASSPHRASE ++ " characters")
  else
    let plaintext := Utf8.encode (payload storage now).toText
    let key := browser.deriveKey passphrase salt
    let ct := browser.encrypt key iv plaintext
    .ok (browser.base64.encode (Utf8.encode MAGIC ++ salt ++ iv ++ ct))

/-- The text of bytes, without a byte order mark. -/
def textDecode (bytes : Bytes) : Text :=
  match Utf8.fromUtf8Lossy bytes with
  | '\uFEFF' :: t => t
  | t => t

/-- What `importConfig` reads of a bundle before it looks at the storage. -/
def readBundle (bundle passphrase : Text) : Except Text Value :=
  if passphrase = [] then .error "passphrase required"
  else
    match browser.base64.decode (JavaScript.trim bundle) with
    | .error _ => .error "invalid bundle encoding"
    | .ok raw =>
      if raw.length < MAGIC.length + 16 + 12 + 16 ∨ textDecode (raw.take MAGIC.length) ≠ MAGIC then
        .error "not a catio config bundle"
      else
        let salt := (raw.drop MAGIC.length).take 16
        let iv := (raw.drop (MAGIC.length + 16)).take 12
        let ct := raw.drop (MAGIC.length + 28)
        match browser.decrypt (browser.deriveKey passphrase salt) iv ct with
        | none => .error "wrong passphrase or corrupted bundle"
        | some plaintext =>
          match browser.parse (textDecode plaintext) with
          | .error _ => .error "corrupted bundle payload"
          | .ok .null => .error "Cannot read properties of null (reading 'data')"
          | .ok parsed => .ok parsed

/-! ### Import -/

/-- The entries of the data.  Those of arrays and strings have indices for keys, which are none of
the exported ones. -/
def entries (parsed : Value) : List (Text × Value) :=
  match parsed.get "data" with
  | some (.object fields) => fields
  | _ => []

/-- The entries that are written, one after the other; `n` writes have succeeded before. -/
def restore (fails : ℕ → Bool) : List (Text × Value) → ℕ → Storage → Except Text ℕ × Storage
  | [], n, storage => (.ok n, storage)
  | (k, .string v) :: data, n, storage =>
      if k ∈ EXPORT_KEYS then
        if fails n then (.error "QuotaExceededError", storage)
        else restore fails data (n + 1) (Function.update storage k (some v))
      else restore fails data n storage
  | _ :: data, n, storage => restore fails data n storage

structure ImportResult where
  keys : ℕ
  ts : Value

/-- The time of the bundle, `parsed.ts ?? 0`. -/
def timestamp (parsed : Value) : Value :=
  match parsed.get "ts" with
  | none | some .null => .number ⟨false, [0], Json.zero_ne_nil, [], none⟩
  | some ts => ts

def backup (prior : List (Text × Text)) (now : Number) : Value :=
  .object [("ts", .number now), ("data", dataValue prior)]

/-- The result and the storage; `fails` tells which writes fail.  A failure of the last write, that
of the backup, is passed over. -/
def importConfig (fails : ℕ → Bool) (now : Number) (storage : Storage) (bundle passphrase : Text) :
    Except Text ImportResult × Storage :=
  match readBundle browser bundle passphrase with
  | .error e => (.error e, storage)
  | .ok parsed =>
    let prior := exported storage
    match restore fails (entries parsed) 0 storage with
    | (.error e, storage) => (.error e, storage)
    | (.ok n, storage) =>
      (.ok ⟨n, timestamp parsed⟩,
        if 0 < n ∧ fails n = false then
          Function.update storage BACKUP_KEY (some (backup prior now).toText)
        else storage)

/-! ### What is written -/

/-- The string entries whose keys are exported ones. -/
def allowed (data : List (Text × Value)) : List (Text × Text) :=
  data.filterMap fun e => if e.1 ∈ EXPORT_KEYS then e.2.asStr.map fun v => (e.1, v) else none

def setAll (storage : Storage) (es : List (Text × Text)) : Storage :=
  es.foldl (fun s e => Function.update s e.1 (some e.2)) storage

theorem setAll_apply (storage : Storage) (es : List (Text × Text)) (k : Text) :
  setAll storage es k = (es.reverse.lookup k).or (storage k)
  := by
  induction es using List.reverseRecOn with
  | nil => rfl
  | append_singleton es e ih =>
    have hset : setAll storage (es ++ [e]) = Function.update (setAll storage es) e.1 (some e.2) := by
      rw [setAll, List.foldl_append]
      rfl
    rw [hset, List.reverse_append, List.reverse_singleton, List.singleton_append, List.lookup_cons]
    by_cases hk : k = e.1
    · rw [hk, Function.update_self, beq_self_eq_true]
      rfl
    · rw [Function.update_of_ne hk, ih, beq_false_of_ne hk]

theorem restore_cases (fails : ℕ → Bool) (data : List (Text × Value)) (n : ℕ) (storage : Storage) :
  (∃ k < (allowed data).length, fails (n + k) ∧ restore fails data n storage
      = (.error "QuotaExceededError", setAll storage ((allowed data).take k)))
    ∨ (∀ k < (allowed data).length, fails (n + k) = false) ∧ restore fails data n storage
      = (.ok (n + (allowed data).length), setAll storage (allowed data))
  := by
  induction data generalizing n storage with
  | nil => exact .inr ⟨nofun, rfl⟩
  | cons e data ih =>
    obtain ⟨key, value⟩ := e
    have hskip (hallowed : allowed ((key, value) :: data) = allowed data)
        (hrestore : restore fails ((key, value) :: data) n storage = restore fails data n storage) := by
      have h := ih n storage
      rw [← hallowed, ← hrestore] at h
      exact h
    cases value with
    | string v =>
      by_cases hkey : key ∈ EXPORT_KEYS
      · have hallowed : allowed ((key, .string v) :: data) = (key, v) :: allowed data := by
          simp [allowed, hkey, Value.asStr]
        rw [hallowed, restore, if_pos hkey]
        cases hfails : fails n with
        | true => exact .inl ⟨0, Nat.succ_pos _, hfails, rfl⟩
        | false =>
          rw [if_neg Bool.false_ne_true]
          obtain ⟨k, hk, hfail, heq⟩ | ⟨hnone, heq⟩ :=
            ih (n + 1) (Function.update storage key (some v))
          · refine .inl ⟨k + 1, Nat.succ_lt_succ hk, ?_, heq⟩
            rw [Nat.add_comm k 1, ← Nat.add_assoc]
            exact hfail
          · refine .inr ⟨?_, ?_⟩
            · intro k hk
              cases k with
              | zero => exact hfails
              | succ k =>
                rw [Nat.add_comm k 1, ← Nat.add_assoc]
                exact hnone k (Nat.lt_of_succ_lt_succ hk)
            · rw [heq, List.length_cons, Nat.add_right_comm]
              rfl
      · exact hskip (by simp [allowed, hkey]) (by rw [restore, if_neg hkey])
    | null => exact hskip (by simp [allowed, Value.asStr]) rfl
    | bool b => exact hskip (by simp [allowed, Value.asStr]) rfl
    | number m => exact hskip (by simp [allowed, Value.asStr]) rfl
    | array items => exact hskip (by simp [allowed, Value.asStr]) rfl
    | object fields => exact hskip (by simp [allowed, Value.asStr]) rfl

/-- What an import does, whichever writes fail. -/
structure Imports (fails : ℕ → Bool) (now : Number) (storage : Storage) (bundle passphrase : Text)
    (result : Except Text ImportResult × Storage) : Prop where
  refused : ∀ e, readBundle browser bundle passphrase = .error e → result = (.error e, storage)
  thrown : ∀ e parsed, readBundle browser bundle passphrase = .ok parsed → result.1 = .error e →
    ∃ k < (allowed (entries parsed)).length,
      fails k ∧ result.2 = setAll storage ((allowed (entries parsed)).take k)
  returned : ∀ r, result.1 = .ok r → ∃ parsed, readBundle browser bundle passphrase = .ok parsed
    ∧ r.keys = (allowed (entries parsed)).length
    ∧ (∀ k ≠ BACKUP_KEY, result.2 k = ((allowed (entries parsed)).reverse.lookup k).or (storage k))
    ∧ result.2 BACKUP_KEY
      = if allowed (entries parsed) ≠ [] ∧ fails (allowed (entries parsed)).length = false then
          some (backup (exported storage) now).toText
        else storage BACKUP_KEY

theorem lookup_allowed {data : List (Text × Value)} {k : Text} (hk : k ∉ EXPORT_KEYS) :
  (allowed data).reverse.lookup k = none
  := by
  apply List.lookup_eq_none_iff.mpr
  intro e he
  obtain ⟨⟨key, value⟩, -, heq⟩ := List.mem_filterMap.mp (List.mem_reverse.mp he)
  dsimp only at heq
  split at heq
  · rename_i hkey
    obtain ⟨v, -, rfl⟩ := Option.map_eq_some_iff.mp heq
    apply bne_iff_ne.mpr
    rintro rfl
    exact hk hkey
  · cases heq

theorem imports (fails : ℕ → Bool) (now : Number) (storage : Storage) (bundle passphrase : Text) :
  Imports browser fails now storage bundle passphrase
    (importConfig browser fails now storage bundle passphrase)
  := by
  unfold importConfig
  cases hread : readBundle browser bundle passphrase with
  | error e =>
    constructor
    · intro e' he
      cases hread.symm.trans he
      rfl
    · intro _ parsed hparsed
      cases hread.symm.trans hparsed
    · nofun
  | ok parsed =>
    dsimp only
    obtain ⟨k, hk, hfails, heq⟩ | ⟨-, heq⟩ := restore_cases fails (entries parsed) 0 storage
    · rw [heq]
      rw [Nat.zero_add] at hfails
      constructor
      · intro e he
        cases hread.symm.trans he
      · intro e parsed' hparsed _
        cases hread.symm.trans hparsed
        exact ⟨k, hk, hfails, rfl⟩
      · nofun
    · rw [heq, Nat.zero_add]
      constructor
      · intro e he
        cases hread.symm.trans he
      · nofun
      · rintro r ⟨⟩
        refine ⟨parsed, hread, rfl, ?_, ?_⟩
        · intro k hk
          dsimp only
          split
          · rw [Function.update_of_ne hk, setAll_apply]
          · rw [setAll_apply]
        · have hbackup : (allowed (entries parsed)).reverse.lookup BACKUP_KEY = none :=
            lookup_allowed (by decide)
          dsimp only
          simp only [List.length_pos_iff]
          split
          · rw [Function.update_self]
          · rw [setAll_apply, hbackup]
            rfl

/-! ### Round trip -/

/-- An import returns, and each exported value is there. -/
def Restores (storage : Storage) (result : Except Text ImportResult × Storage) : Prop :=
  ∃ r, result.1 = .ok r ∧ ∀ k ∈ EXPORT_KEYS, ∀ v, storage k = some v → result.2 k = some v

/-- What is relied on of the browser at an export: what is encrypted, behind whose end there is a
tag, is decrypted under the same key, and the payload is read back. -/
structure Reads (storage : Storage) (now : Number) : Prop where
  tag : ∀ key iv plaintext, 16 ≤ (browser.encrypt key iv plaintext).length
  decrypt_encrypt : ∀ key iv plaintext,
    browser.decrypt key iv (browser.encrypt key iv plaintext) = some plaintext
  parse_toText : browser.parse (payload storage now).toText = .ok (payload storage now)

theorem textDecode_encode {c : Char} {t : Text} (hc : c ≠ '\uFEFF') :
  textDecode (Utf8.encode (c :: t)) = c :: t
  := by
  unfold textDecode
  rw [Utf8.fromUtf8Lossy_encode]
  split
  · rename_i heq
    exact absurd (List.cons.inj heq).1 hc
  · rfl

theorem trim_of_visible {t : Text} (h : ∀ c ∈ t, c.toNat < 0x80 ∧ isWhitespace c = false) :
  JavaScript.trim t = t
  := by
  have hblank : ∀ c ∈ t, JavaScript.isBlank c = false := by
    intro c hc
    obtain ⟨hascii, hvisible⟩ := h c hc
    simp only [JavaScript.isBlank, hvisible, Bool.false_and, Bool.false_or, beq_eq_false_iff_ne]
    omega
  have hfront : t.dropWhile JavaScript.isBlank = t := by
    rw [List.dropWhile_eq_self_iff]
    intro hpos
    simp [hblank _ (List.getElem_mem hpos)]
  rw [JavaScript.trim, hfront, List.rdropWhile_eq_self_iff]
  intro hne
  simp [hblank _ (List.getLast_mem hne)]

variable {browser} {storage : Storage} {now : Number} {salt iv : Bytes} {bundle passphrase : Text}

theorem readBundle_exportConfig (h : Reads browser storage now) (hsalt : salt.length = 16)
    (hiv : iv.length = 12)
    (hexport : exportConfig browser storage now salt iv passphrase = .ok bundle) :
  readBundle browser bundle passphrase = .ok (payload storage now)
  := by
  unfold exportConfig at hexport
  split at hexport
  · cases hexport
  rename_i hpassphrase
  split at hexport
  · cases hexport
  cases hexport
  have hmagic : (Utf8.encode MAGIC).length = MAGIC.length := by decide +kernel
  have htag := h.tag (browser.deriveKey passphrase salt) iv
    (Utf8.encode (payload storage now).toText)
  unfold readBundle
  rw [if_neg hpassphrase, trim_of_visible (browser.base64.visible _), browser.base64.decode_encode]
  dsimp only
  rw [List.append_assoc, List.append_assoc, List.take_left' hmagic, List.drop_left' hmagic,
    List.take_left' hsalt, ← List.drop_drop, List.drop_left' hmagic, List.drop_left' hsalt,
    List.take_left' hiv, show MAGIC.length + 28 = MAGIC.length + 16 + 12 from rfl,
    ← List.drop_drop, ← List.drop_drop, List.drop_left' hmagic, List.drop_left' hsalt,
    List.drop_left' hiv, h.decrypt_encrypt, if_neg]
  · dsimp only
    have htext : textDecode (Utf8.encode (payload storage now).toText) = (payload storage now).toText :=
      textDecode_encode (by decide)
    rw [htext, h.parse_toText]
    rfl
  · rintro (hshort | hne)
    · rw [List.length_append, List.length_append, List.length_append, hmagic, hsalt, hiv] at hshort
      omega
    · exact hne (textDecode_encode (by decide))

theorem allowed_payload :
  allowed (entries (payload storage now)) = exported storage
  := by
  have hentries : entries (payload storage now)
      = (exported storage).map fun e => (e.1, Value.string e.2) := rfl
  rw [hentries, allowed, List.filterMap_map]
  conv_rhs => rw [← List.filterMap_some (l := exported storage)]
  apply List.filterMap_congr
  intro e he
  obtain ⟨k, hk, heq⟩ := List.mem_filterMap.mp he
  obtain ⟨v, -, rfl⟩ := Option.map_eq_some_iff.mp heq
  exact if_pos hk

theorem lookup_filterMap (f : Text → Option Text) (ks : List Text) (k : Text) :
  (ks.filterMap fun k => (f k).map fun v => (k, v)).lookup k = if k ∈ ks then f k else none
  := by
  induction ks with
  | nil => rfl
  | cons k' ks ih =>
    cases hv : f k' with
    | none =>
      rw [List.filterMap_cons_none (by rw [hv]; rfl), ih]
      by_cases hk : k = k'
      · subst hk
        rw [hv, ite_self, ite_self]
      · simp [hk]
    | some v =>
      rw [List.filterMap_cons_some (by rw [hv]; rfl), List.lookup_cons]
      by_cases hk : k = k'
      · subst hk
        rw [beq_self_eq_true, if_pos List.mem_cons_self, hv]
      · rw [beq_false_of_ne hk, ih]
        simp [hk]

theorem lookup_exported {k : Text} (hk : k ∈ EXPORT_KEYS) :
  (exported storage).reverse.lookup k = storage k
  := by
  rw [exported, ← List.filterMap_reverse, lookup_filterMap, if_pos (List.mem_reverse.mpr hk)]

theorem importConfig_exportConfig (h : Reads browser storage now) (hsalt : salt.length = 16)
    (hiv : iv.length = 12)
    (hexport : exportConfig browser storage now salt iv passphrase = .ok bundle)
    (fails : ℕ → Bool) (now' : Number) (storage' : Storage)
    (hwrites : ∀ k < (exported storage).length, fails k = false) :
  Restores storage (importConfig browser fails now' storage' bundle passphrase)
  := by
  have hread := readBundle_exportConfig h hsalt hiv hexport
  have himports := imports browser fails now' storage' bundle passphrase
  cases hresult : (importConfig browser fails now' storage' bundle passphrase).1 with
  | error e =>
    obtain ⟨k, hk, hfails, -⟩ := himports.thrown e _ hread hresult
    rw [allowed_payload] at hk
    exact absurd (hwrites k hk) (by rw [hfails]; exact Bool.noConfusion)
  | ok r =>
    refine ⟨r, hresult, fun k hk v hv => ?_⟩
    obtain ⟨parsed, hparsed, -, hset, -⟩ := himports.returned r hresult
    cases hread.symm.trans hparsed
    have hne : k ≠ BACKUP_KEY := by
      rintro rfl
      exact absurd hk (by decide)
    rw [hset k hne, allowed_payload, lookup_exported hk, hv]
    rfl

variable (browser)

def tag (key : Bytes) : Bytes :=
  (key ++ List.replicate 16 0).take 16

/-- A browser whose ciphertext is the plaintext and a tag of the key, and which reads one text. -/
def tagging (value : Value) : Browser Bytes where
  base64 := Base64.standard
  deriveKey passphrase salt := Utf8.encode passphrase ++ salt
  encrypt key _ plaintext := plaintext ++ tag key
  decrypt key _ ct :=
    if ct.drop (ct.length - 16) = tag key then some (ct.take (ct.length - 16)) else none
  parse t := if t = value.toText then .ok value else .error "Unexpected token"

def darkStorage : Storage :=
  fun k => ([("catio-theme", "dark"), ("catio-lang", "de")] : List (Text × Text)).lookup k

def lightStorage : Storage :=
  fun k => ([("catio-theme", "light")] : List (Text × Text)).lookup k

def epoch : Number :=
  ⟨false, [0], Json.zero_ne_nil, [], none⟩

theorem reads_tagging (storage : Storage) (now : Number) :
  Reads (tagging (payload storage now)) storage now
  := by
  have htag (key : Bytes) : (tag key).length = 16 := by
    rw [tag, List.length_take, List.length_append, List.length_replicate]
    omega
  constructor
  · intro key iv plaintext
    rw [tagging, List.length_append, htag]
    exact Nat.le_add_left 16 _
  · intro key iv plaintext
    have hlength : (plaintext ++ tag key).length - 16 = plaintext.length := by
      rw [List.length_append, htag, Nat.add_sub_cancel]
    change (if (plaintext ++ tag key).drop ((plaintext ++ tag key).length - 16) = tag key then
      some ((plaintext ++ tag key).take ((plaintext ++ tag key).length - 16)) else none)
      = some plaintext
    rw [hlength, List.drop_left, List.take_left, if_pos rfl]
  · exact if_pos rfl

def darkBrowser : Browser Bytes :=
  tagging (payload darkStorage epoch)

def secret : Text :=
  "correct horse"

def darkBundle : Except Text Text :=
  exportConfig darkBrowser darkStorage epoch (List.replicate 16 0) (List.replicate 12 0) secret

section

variable {κ : Type} (browser : Browser κ) (bundle passphrase : Text)

/-- The storage after attempts to import a bundle, each with the writes that fail and its time. -/
def attempted (attempts : List ((ℕ → Bool) × Number)) (storage : Storage) : Storage :=
  attempts.foldl (fun s a => (importConfig browser a.1 a.2 s bundle passphrase).2) storage

/-- Whatever fails in the attempts before: no other settings change, and an import that returns
leaves what it would have left at once, but for the backup. -/
structure Heals (attempts : List ((ℕ → Bool) × Number)) (fails : ℕ → Bool) (now : Number)
    (storage : Storage) : Prop where
  foreign : ∀ k ≠ BACKUP_KEY, k ∉ EXPORT_KEYS →
    attempted browser bundle passphrase attempts storage k = storage k
  healed : ∀ r, (importConfig browser fails now
      (attempted browser bundle passphrase attempts storage) bundle passphrase).1 = .ok r →
    ∀ k ≠ BACKUP_KEY, (importConfig browser fails now
        (attempted browser bundle passphrase attempts storage) bundle passphrase).2 k
      = (importConfig browser (fun _ => false) now storage bundle passphrase).2 k

variable {browser bundle passphrase} {parsed : Value} {k : Text}

/-- An attempt changes nothing but the entries of the bundle and the backup. -/
theorem importConfig_kept (hread : readBundle browser bundle passphrase = .ok parsed)
    (hk : k ≠ BACKUP_KEY) (hnone : (allowed (entries parsed)).reverse.lookup k = none)
    (fails : ℕ → Bool) (now : Number) (storage : Storage) :
  (importConfig browser fails now storage bundle passphrase).2 k = storage k
  := by
  have himports := imports browser fails now storage bundle passphrase
  cases hresult : (importConfig browser fails now storage bundle passphrase).1 with
  | error e =>
    obtain ⟨n, -, -, heq⟩ := himports.thrown e parsed hread hresult
    have htake : ((allowed (entries parsed)).take n).reverse.lookup k = none := by
      rw [List.lookup_eq_none_iff] at hnone ⊢
      intro e he
      exact hnone e (List.mem_reverse.mpr (List.mem_of_mem_take (List.mem_reverse.mp he)))
    rw [heq, setAll_apply, htake]
    rfl
  | ok r =>
    obtain ⟨parsed', hread', -, hkeys, -⟩ := himports.returned r hresult
    cases hread.symm.trans hread'
    rw [hkeys k hk, hnone]
    rfl

theorem attempted_kept (hread : readBundle browser bundle passphrase = .ok parsed)
    (hk : k ≠ BACKUP_KEY) (hnone : (allowed (entries parsed)).reverse.lookup k = none)
    (attempts : List ((ℕ → Bool) × Number)) (storage : Storage) :
  attempted browser bundle passphrase attempts storage k = storage k
  := by
  induction attempts generalizing storage with
  | nil => rfl
  | cons a attempts ih => exact (ih _).trans (importConfig_kept hread hk hnone a.1 a.2 storage)

theorem attempted_refused {e : Text} (hread : readBundle browser bundle passphrase = .error e)
    (attempts : List ((ℕ → Bool) × Number)) (storage : Storage) :
  attempted browser bundle passphrase attempts storage = storage
  := by
  induction attempts generalizing storage with
  | nil => rfl
  | cons a attempts ih =>
    have hsame : (importConfig browser a.1 a.2 storage bundle passphrase).2 = storage := by
      rw [(imports browser a.1 a.2 storage bundle passphrase).refused e hread]
    exact (ih _).trans hsame

theorem import_heals (attempts : List ((ℕ → Bool) × Number)) (fails : ℕ → Bool) (now : Number)
    (storage : Storage) :
  Heals browser bundle passphrase attempts fails now storage
  := by
  cases hread : readBundle browser bundle passphrase with
  | error e =>
    constructor
    · intro k _ _
      rw [attempted_refused hread]
    · intro r hr
      rw [(imports browser fails now _ bundle passphrase).refused e hread] at hr
      cases hr
  | ok parsed =>
    constructor
    · intro k hk hforeign
      exact attempted_kept hread hk (lookup_allowed hforeign) attempts storage
    · intro r hr k hk
      have hnow := imports browser (fun _ => false) now storage bundle passphrase
      obtain ⟨r', hr'⟩ : ∃ r',
          (importConfig browser (fun _ => false) now storage bundle passphrase).1 = .ok r' := by
        cases hresult : (importConfig browser (fun _ => false) now storage bundle passphrase).1 with
        | error e =>
          obtain ⟨_, -, hfails, -⟩ := hnow.thrown e parsed hread hresult
          cases hfails
        | ok r' => exact ⟨r', rfl⟩
      obtain ⟨parsed', hparsed', -, hkeys', -⟩ := hnow.returned r' hr'
      cases hread.symm.trans hparsed'
      obtain ⟨parsed', hparsed', -, hkeys, -⟩ :=
        (imports browser fails now _ bundle passphrase).returned r hr
      cases hread.symm.trans hparsed'
      rw [hkeys k hk, hkeys' k hk]
      cases hlookup : (allowed (entries parsed)).reverse.lookup k with
      | none => rw [attempted_kept hread hk hlookup]
      | some v => rfl

end

end Workbench.ConfigSync
