import Catio.Lib.Ip
import Catio.Lib.Utf8

/-!
# SOCKS5 handshakes

`socks5_handshake` of `ssh/tunnel.rs`, and what `open_dynamic_forward` does with an inbound
connection.  The bytes of a greeting that offers no authentication and of a request to connect are
read exactly, and the host names the address of the request; every other stream is refused, and
gets no success reply (`socks5Handshake_exact`).
-/

namespace Ssh.Socks5

open Ip Text Utf8

/-! ### Streams -/

inductive IoErrorKind where
  | unexpectedEof
  | invalidData
  | connectionRefused
  | unsupported
  deriving DecidableEq

structure IoError where
  kind : IoErrorKind
  message : Text
  deriving DecidableEq

/-- The bytes still to be read, after which it ends, those written, and whether its writing half was
shut down. -/
structure Stream where
  input : Bytes
  output : Bytes
  closed : Bool
  deriving DecidableEq

/-- What is done with a stream, and may fail. -/
abbrev Handshake := ExceptT IoError (StateM Stream)

/-- Read so many bytes. -/
def readExact (n : ℕ) : Handshake (Vector UInt8 n) :=
  fun s =>
    if h : n ≤ s.input.length then
      (.ok ⟨(s.input.take n).toArray, by simpa using h⟩, { s with input := s.input.drop n })
    else (.error ⟨.unexpectedEof, "early eof"⟩, { s with input := [] })

def writeAll (bytes : Bytes) : Handshake Unit :=
  fun s => (.ok (), { s with output := s.output ++ bytes })

def shutdown : Handshake Unit :=
  fun s => (.ok (), { s with closed := true })

/-- The number of two bytes, the high one first. -/
def fromBeBytes (bytes : Vector UInt8 2) : UInt16 :=
  UInt16.ofNat (256 * bytes[0].toNat + bytes[1].toNat)

/-! ### The handshake -/

/-- The first stage: the methods of the client. -/
def greeting : Handshake Unit := do
  let hdr ← readExact 2
  let ver := hdr[0]
  let nmethods := hdr[1].toNat
  if ver ≠ 5 then throw ⟨.invalidData, "SOCKS: expected VER=5"⟩
  else if nmethods = 0 then throw ⟨.invalidData, "SOCKS: NMETHODS=0"⟩
  else
    let methods ← readExact nmethods
    if 0 ∉ methods.toList then
      writeAll [0x05, 0xFF]
      shutdown
      throw ⟨.connectionRefused, "SOCKS: no acceptable auth method"⟩
    else writeAll [0x05, 0x00]

/-- The host of a request that is a name. -/
def readDomain : Handshake Text := do
  let lenBuf ← readExact 1
  have _ := Nat.one_pos
  let len := lenBuf[0].toNat
  if len = 0 then throw ⟨.invalidData, "SOCKS: domain length=0"⟩
  else
    let name ← readExact len
    match fromUtf8 name.toList with
    | (name, none) => pure name
    | (_, some _) => throw ⟨.invalidData, "SOCKS: domain not UTF-8"⟩

/-- The host of a request, by the type of its address. -/
def readHost (atyp : UInt8) : Handshake Text :=
  if atyp = 0x01 then do
    let addr ← readExact 4
    pure (ipv4 addr[0] addr[1] addr[2] addr[3])
  else if atyp = 0x03 then readDomain
  else if atyp = 0x04 then do
    let addr ← readExact 16
    pure (ipv6 addr.toList)
  else throw ⟨.invalidData, "SOCKS: unknown ATYP"⟩

/-- The second stage: the target of the client. -/
def request : Handshake (Text × UInt16) := do
  let reqHdr ← readExact 4
  if reqHdr[0] ≠ 5 then throw ⟨.invalidData, "SOCKS: request VER != 5"⟩
  else
    let cmd := reqHdr[1]
    let atyp := reqHdr[3]
    if cmd ≠ 0x01 then
      writeAll [0x05, 0x07, 0x00, 0x01, 0, 0, 0, 0, 0, 0]
      shutdown
      throw ⟨.unsupported, "SOCKS: CMD not supported"⟩
    else
      let host ← readHost atyp
      let portBuf ← readExact 2
      pure (host, fromBeBytes portBuf)

def socks5Handshake : Handshake (Text × UInt16) := do
  greeting
  request

/-- An inbound connection, if a channel to a target can be opened as said: the reply, and the target
that it is bridged to. -/
def serveInbound (channelOpens : Text → UInt16 → Bool) :
    Handshake (Option (Text × UInt16)) := do
  let (host, port) ← socks5Handshake
  if channelOpens host port then
    writeAll [0x05, 0x00, 0x00, 0x01, 0, 0, 0, 0, 0, 0]
    pure (some (host, port))
  else
    writeAll [0x05, 0x01, 0x00, 0x01, 0, 0, 0, 0, 0, 0]
    pure none

/-! ### What clients send -/

/-- A greeting that offers no authentication. -/
structure Hello where
  methods : Bytes
  short : methods.length < 256
  noAuth : 0 ∈ methods

def Hello.bytes (hello : Hello) : Bytes :=
  0x05 :: UInt8.ofNat hello.methods.length :: hello.methods

/-- An address: four bytes, a name of at most 255 bytes that is not empty, or sixteen bytes. -/
inductive Address where
  | ipv4 (octets : Vector UInt8 4)
  | domain (name : Text) (ne : name ≠ []) (short : (encode name).length < 256)
  | ipv6 (octets : Vector UInt8 16)

namespace Address

def atyp : Address → UInt8
  | .ipv4 _ => 0x01
  | .domain _ _ _ => 0x03
  | .ipv6 _ => 0x04

/-- The bytes behind the type. -/
def body : Address → Bytes
  | .ipv4 octets => octets.toList
  | .domain name _ _ => UInt8.ofNat (encode name).length :: encode name
  | .ipv6 octets => octets.toList

/-- A text names an address: it denotes its bytes, or it is its name. -/
def NamedBy (host : Text) : Address → Prop
  | .ipv4 octets => readIpv4 host = some octets.toList
  | .domain name _ _ => host = name
  | .ipv6 octets => readIpv6 host = some octets.toList

def host : Address → Text
  | .ipv4 octets => Ip.ipv4 octets[0] octets[1] octets[2] octets[3]
  | .domain name _ _ => name
  | .ipv6 octets => Ip.ipv6 octets.toList

end Address

structure Connect where
  reserved : UInt8
  address : Address
  port : Vector UInt8 2

def Connect.bytes (connect : Connect) : Bytes :=
  [0x05, 0x01, connect.reserved, connect.address.atyp] ++ connect.address.body
    ++ connect.port.toList

/-- The answer to a greeting that offers no authentication. -/
def methodReply : Bytes :=
  [0x05, 0x00]

def successReply : Bytes :=
  [0x05, 0x00, 0x00, 0x01, 0, 0, 0, 0, 0, 0]

def failureReply : Bytes :=
  [0x05, 0x01, 0x00, 0x01, 0, 0, 0, 0, 0, 0]

/-- What is written to a stream that is refused. -/
def refusals : List Bytes :=
  [[], [0x05, 0xFF], methodReply, methodReply ++ [0x05, 0x07, 0x00, 0x01, 0, 0, 0, 0, 0, 0]]

/-- No refusal has the success reply in it. -/
example : ∀ output ∈ refusals, ¬ successReply <:+: output := by decide

/-! ### Steps -/

section

variable {α β : Type} {x : Handshake α} {f : α → Handshake β} {s s' : Stream}

theorem bind_ok {a : α} (h : x s = (.ok a, s')) :
  (x >>= f) s = f a s'
  := by
  simp [bind, ExceptT.bind, ExceptT.mk, ExceptT.bindCont, StateT.bind, h]

theorem bind_error {e : IoError} (h : x s = (.error e, s')) :
  (x >>= f) s = (.error e, s')
  := by
  simp only [bind, ExceptT.bind, ExceptT.mk, StateT.bind, h]
  rfl

end

theorem readExact_append {n : ℕ} {bytes : Bytes} (hlength : bytes.length = n) (rest output : Bytes)
    (closed : Bool) :
  ∃ v : Vector UInt8 n, v.toList = bytes
    ∧ readExact n ⟨bytes ++ rest, output, closed⟩ = (.ok v, ⟨rest, output, closed⟩)
  := by
  use ⟨bytes.toArray, by simpa using hlength⟩, rfl
  rw [readExact, dif_pos (by simp [← hlength])]
  congr 2
  · apply Vector.toList_inj.mp
    exact List.take_left' hlength
  · exact List.drop_left' hlength

theorem readExact_cases (n : ℕ) (input output : Bytes) (closed : Bool) :
  (∃ (v : Vector UInt8 n) (rest : Bytes), input = v.toList ++ rest
      ∧ readExact n ⟨input, output, closed⟩ = (.ok v, ⟨rest, output, closed⟩))
    ∨ ∃ e, readExact n ⟨input, output, closed⟩ = (.error e, ⟨[], output, closed⟩)
  := by
  by_cases h : n ≤ input.length
  · left
    obtain ⟨v, hv, hread⟩ := readExact_append (List.length_take_of_le h) (input.drop n) output
      closed
    rw [List.take_append_drop] at hread
    refine ⟨v, input.drop n, ?_, hread⟩
    rw [hv, List.take_append_drop]
  · right
    use ⟨.unexpectedEof, "early eof"⟩
    rw [readExact, dif_neg h]

theorem toList_one (v : Vector UInt8 1) (one : 0 < 1) :
  v.toList = [v[0]]
  := by
  obtain ⟨⟨bytes⟩, h⟩ := v
  match bytes, h with
  | [_], _ => rfl

theorem toList_two (v : Vector UInt8 2) :
  v.toList = [v[0], v[1]]
  := by
  obtain ⟨⟨bytes⟩, h⟩ := v
  match bytes, h with
  | [_, _], _ => rfl

theorem toList_four (v : Vector UInt8 4) :
  v.toList = [v[0], v[1], v[2], v[3]]
  := by
  obtain ⟨⟨bytes⟩, h⟩ := v
  match bytes, h with
  | [_, _, _, _], _ => rfl

theorem toNat_ofNat_length {bytes : Bytes} (h : bytes.length < 256) :
  (UInt8.ofNat bytes.length).toNat = bytes.length
  := by
  simpa using Nat.mod_eq_of_lt h

theorem Address.namedBy_host (address : Address) :
  address.NamedBy address.host
  := by
  cases address with
  | ipv4 octets =>
    change readIpv4 (Ip.ipv4 octets[0] octets[1] octets[2] octets[3]) = some octets.toList
    rw [readIpv4_ipv4, toList_four]
  | domain name ne short => rfl
  | ipv6 octets => exact readIpv6_ipv6 octets.length_toList

/-! ### The stages -/

theorem greeting_hello (hello : Hello) (rest : Bytes) :
  greeting ⟨hello.bytes ++ rest, [], false⟩ = (.ok (), ⟨rest, [0x05, 0x00], false⟩)
  := by
  obtain ⟨hdr, hhdr, hreadHdr⟩ := @readExact_append 2
    [0x05, UInt8.ofNat hello.methods.length] rfl (hello.methods ++ rest) [] false
  rw [toList_two] at hhdr
  obtain ⟨hver, hcount⟩ : hdr[0] = 0x05 ∧ hdr[1] = UInt8.ofNat hello.methods.length := by
    simpa using hhdr
  have hlength : hello.methods.length = hdr[1].toNat := by
    rw [hcount, toNat_ofNat_length hello.short]
  obtain ⟨methods, hmethods, hreadMethods⟩ := readExact_append hlength rest [] false
  have hpos : hdr[1].toNat ≠ 0 := by
    rw [← hlength]
    exact (List.length_pos_of_mem hello.noAuth).ne'
  rw [greeting, Hello.bytes]
  refine (bind_ok hreadHdr).trans ?_
  rw [if_neg (by simp [hver]), if_neg hpos]
  refine (bind_ok hreadMethods).trans ?_
  rw [hmethods, if_neg (by simp [hello.noAuth])]
  rfl

theorem greeting_cases (input : Bytes) :
  (∃ (hello : Hello) (rest : Bytes), input = hello.bytes ++ rest)
    ∨ ∃ e s, greeting ⟨input, [], false⟩ = (.error e, s)
      ∧ (s.output = [] ∨ s.output = [0x05, 0xFF])
  := by
  rcases readExact_cases 2 input [] false with ⟨hdr, rest, rfl, hhdr⟩ | ⟨e, hhdr⟩
  · by_cases hver : hdr[0] = 5
    · by_cases hcount : hdr[1].toNat = 0
      · right
        refine ⟨⟨.invalidData, "SOCKS: NMETHODS=0"⟩, ⟨rest, [], false⟩, ?_, .inl rfl⟩
        refine (bind_ok hhdr).trans ?_
        rw [if_neg (by simp [hver]), if_pos hcount]
        rfl
      · rcases readExact_cases hdr[1].toNat rest [] false with
          ⟨methods, rest, rfl, hmethods⟩ | ⟨e, hmethods⟩
        · have hlength : methods.toList.length = hdr[1].toNat := methods.length_toList
          by_cases hnoAuth : 0 ∈ methods.toList
          · left
            use ⟨methods.toList, by rw [hlength]; exact hdr[1].toNat_lt, hnoAuth⟩, rest
            have hbyte : UInt8.ofNat methods.toList.length = hdr[1] := by
              rw [hlength, UInt8.ofNat_toNat]
            dsimp only [Hello.bytes]
            rw [toList_two, hver, hbyte]
            rfl
          · right
            refine ⟨⟨.connectionRefused, "SOCKS: no acceptable auth method"⟩,
              ⟨rest, [0x05, 0xFF], true⟩, ?_, .inr rfl⟩
            refine (bind_ok hhdr).trans ?_
            rw [if_neg (by simp [hver]), if_neg hcount]
            refine (bind_ok hmethods).trans ?_
            rw [if_pos hnoAuth]
            rfl
        · right
          refine ⟨e, ⟨[], [], false⟩, ?_, .inl rfl⟩
          refine (bind_ok hhdr).trans ?_
          rw [if_neg (by simp [hver]), if_neg hcount]
          exact bind_error hmethods
    · right
      refine ⟨⟨.invalidData, "SOCKS: expected VER=5"⟩, ⟨rest, [], false⟩, ?_, .inl rfl⟩
      refine (bind_ok hhdr).trans ?_
      rw [if_pos hver]
      rfl
  · right
    exact ⟨e, ⟨[], [], false⟩, bind_error hhdr, .inl rfl⟩

theorem readDomain_body {name : Text} (ne : name ≠ []) (short : (encode name).length < 256)
    (rest output : Bytes) (closed : Bool) :
  readDomain ⟨UInt8.ofNat (encode name).length :: (encode name ++ rest), output, closed⟩
    = (.ok name, ⟨rest, output, closed⟩)
  := by
  obtain ⟨lenBuf, hlenBuf, hreadLen⟩ := @readExact_append 1
    [UInt8.ofNat (encode name).length] rfl (encode name ++ rest) output closed
  have hlen : lenBuf[0] = UInt8.ofNat (encode name).length := by
    rw [toList_one _ Nat.one_pos] at hlenBuf
    exact List.head_eq_of_cons_eq hlenBuf
  have hlength : (encode name).length = lenBuf[0].toNat := by
    rw [hlen, toNat_ofNat_length short]
  obtain ⟨bytes, hbytes, hreadName⟩ := readExact_append hlength rest output closed
  have hpos : lenBuf[0].toNat ≠ 0 := by
    rw [← hlength]
    intro hzero
    have hdecode := fromUtf8_encode name
    rw [List.length_eq_zero_iff.mp hzero] at hdecode
    exact ne (congrArg Prod.fst hdecode).symm
  refine (bind_ok hreadLen).trans ?_
  rw [if_neg hpos]
  refine (bind_ok hreadName).trans ?_
  rw [hbytes, fromUtf8_encode]
  rfl

theorem readDomain_cases (input output : Bytes) (closed : Bool) :
  (∃ (name : Text) (rest : Bytes), name ≠ [] ∧ (encode name).length < 256
      ∧ input = UInt8.ofNat (encode name).length :: (encode name ++ rest))
    ∨ ∃ e rest, readDomain ⟨input, output, closed⟩ = (.error e, ⟨rest, output, closed⟩)
  := by
  rcases readExact_cases 1 input output closed with ⟨lenBuf, rest, rfl, hlenBuf⟩ | ⟨e, hlenBuf⟩
  · by_cases hzero : lenBuf[0].toNat = 0
    · right
      refine ⟨⟨.invalidData, "SOCKS: domain length=0"⟩, rest, (bind_ok hlenBuf).trans ?_⟩
      rw [if_pos hzero]
      rfl
    · rcases readExact_cases lenBuf[0].toNat rest output closed with
        ⟨bytes, rest, rfl, hname⟩ | ⟨e, hname⟩
      · cases hdecode : fromUtf8 bytes.toList with
        | mk name failure =>
          cases failure with
          | none =>
            left
            have hencode := encode_of_fromUtf8 hdecode
            have hlength : (encode name).length = lenBuf[0].toNat := by
              rw [hencode, bytes.length_toList]
            refine ⟨name, rest, ?_, ?_, ?_⟩
            · rintro rfl
              exact hzero hlength.symm
            · rw [hlength]
              exact lenBuf[0].toNat_lt
            · rw [hlength, UInt8.ofNat_toNat, hencode, toList_one _ Nat.one_pos]
              rfl
          | some failure =>
            right
            refine ⟨⟨.invalidData, "SOCKS: domain not UTF-8"⟩, rest,
              (bind_ok hlenBuf).trans ?_⟩
            rw [if_neg hzero]
            refine (bind_ok hname).trans ?_
            rw [hdecode]
            rfl
      · right
        refine ⟨e, [], (bind_ok hlenBuf).trans ?_⟩
        rw [if_neg hzero]
        exact bind_error hname
  · exact .inr ⟨e, [], bind_error hlenBuf⟩

theorem readHost_body (address : Address) (rest output : Bytes) (closed : Bool) :
  readHost address.atyp ⟨address.body ++ rest, output, closed⟩
    = (.ok address.host, ⟨rest, output, closed⟩)
  := by
  cases address with
  | ipv4 octets =>
    obtain ⟨addr, haddr, hread⟩ := readExact_append octets.length_toList rest output closed
    obtain rfl : addr = octets := Vector.toList_inj.mp haddr
    exact bind_ok hread
  | domain name ne short => exact readDomain_body ne short rest output closed
  | ipv6 octets =>
    obtain ⟨addr, haddr, hread⟩ := readExact_append octets.length_toList rest output closed
    obtain rfl : addr = octets := Vector.toList_inj.mp haddr
    exact bind_ok hread

theorem readHost_cases (atyp : UInt8) (input output : Bytes) (closed : Bool) :
  (∃ (address : Address) (rest : Bytes), address.atyp = atyp ∧ input = address.body ++ rest)
    ∨ ∃ e rest, readHost atyp ⟨input, output, closed⟩ = (.error e, ⟨rest, output, closed⟩)
  := by
  by_cases hfour : atyp = 0x01
  · rcases readExact_cases 4 input output closed with ⟨addr, rest, rfl, -⟩ | ⟨e, haddr⟩
    · exact .inl ⟨.ipv4 addr, rest, hfour.symm, rfl⟩
    · right
      use e, []
      rw [readHost, if_pos hfour]
      exact bind_error haddr
  by_cases hname : atyp = 0x03
  · rcases readDomain_cases input output closed with ⟨name, rest, ne, short, rfl⟩ | ⟨e, rest, h⟩
    · exact .inl ⟨.domain name ne short, rest, hname.symm, rfl⟩
    · right
      use e, rest
      rw [readHost, if_neg hfour, if_pos hname]
      exact h
  by_cases hsixteen : atyp = 0x04
  · rcases readExact_cases 16 input output closed with ⟨addr, rest, rfl, -⟩ | ⟨e, haddr⟩
    · exact .inl ⟨.ipv6 addr, rest, hsixteen.symm, rfl⟩
    · right
      use e, []
      rw [readHost, if_neg hfour, if_neg hname, if_pos hsixteen]
      exact bind_error haddr
  · right
    use ⟨.invalidData, "SOCKS: unknown ATYP"⟩, input
    rw [readHost, if_neg hfour, if_neg hname, if_neg hsixteen]
    rfl

theorem request_connect (connect : Connect) (rest output : Bytes) (closed : Bool) :
  request ⟨connect.bytes ++ rest, output, closed⟩
    = (.ok (connect.address.host, fromBeBytes connect.port), ⟨rest, output, closed⟩)
  := by
  obtain ⟨hdr, hhdr, hreadHdr⟩ := @readExact_append 4
    [0x05, 0x01, connect.reserved, connect.address.atyp] rfl
    (connect.address.body ++ (connect.port.toList ++ rest)) output closed
  rw [toList_four] at hhdr
  obtain ⟨hver, hcmd, -, hatyp⟩ : hdr[0] = 0x05 ∧ hdr[1] = 0x01 ∧ hdr[2] = connect.reserved
      ∧ hdr[3] = connect.address.atyp := by
    simpa using hhdr
  have hhost := readHost_body connect.address (connect.port.toList ++ rest) output closed
  obtain ⟨port, hport, hreadPort⟩ :=
    readExact_append connect.port.length_toList rest output closed
  obtain rfl : port = connect.port := Vector.toList_inj.mp hport
  have hbytes : connect.bytes ++ rest = [0x05, 0x01, connect.reserved, connect.address.atyp]
      ++ (connect.address.body ++ (connect.port.toList ++ rest)) := by
    rw [Connect.bytes, List.append_assoc, List.append_assoc]
  rw [hbytes]
  refine (bind_ok hreadHdr).trans ?_
  rw [if_neg (by simp [hver]), hcmd, if_neg (by simp), hatyp]
  refine (bind_ok hhost).trans ?_
  exact bind_ok hreadPort

theorem request_cases (input output : Bytes) :
  (∃ (connect : Connect) (rest : Bytes), input = connect.bytes ++ rest)
    ∨ ∃ e s, request ⟨input, output, false⟩ = (.error e, s)
      ∧ (s.output = output ∨ s.output = output ++ [0x05, 0x07, 0x00, 0x01, 0, 0, 0, 0, 0, 0])
  := by
  rcases readExact_cases 4 input output false with ⟨hdr, rest, rfl, hhdr⟩ | ⟨e, hhdr⟩
  · by_cases hver : hdr[0] = 5
    · by_cases hcmd : hdr[1] = 0x01
      · rcases readHost_cases hdr[3] rest output false with
          ⟨address, rest, hatyp, rfl⟩ | ⟨e, rest', hhost⟩
        · have hhost := readHost_body address rest output false
          rcases readExact_cases 2 rest output false with ⟨port, rest, rfl, -⟩ | ⟨e, hport⟩
          · left
            use ⟨hdr[2], address, port⟩, rest
            rw [toList_four, hver, hcmd, ← hatyp, Connect.bytes, List.append_assoc,
              List.append_assoc]
          · right
            refine ⟨e, ⟨[], output, false⟩, ?_, .inl rfl⟩
            refine (bind_ok hhdr).trans ?_
            rw [if_neg (by simp [hver]), if_neg (by simp [hcmd]), ← hatyp]
            refine (bind_ok hhost).trans ?_
            exact bind_error hport
        · right
          refine ⟨e, ⟨rest', output, false⟩, ?_, .inl rfl⟩
          refine (bind_ok hhdr).trans ?_
          rw [if_neg (by simp [hver]), if_neg (by simp [hcmd])]
          exact bind_error hhost
      · right
        refine ⟨⟨.unsupported, "SOCKS: CMD not supported"⟩,
          ⟨rest, output ++ [0x05, 0x07, 0x00, 0x01, 0, 0, 0, 0, 0, 0], true⟩, ?_, .inr rfl⟩
        refine (bind_ok hhdr).trans ?_
        rw [if_neg (by simp [hver]), if_pos hcmd]
        rfl
    · right
      refine ⟨⟨.invalidData, "SOCKS: request VER != 5"⟩, ⟨rest, output, false⟩, ?_, .inl rfl⟩
      refine (bind_ok hhdr).trans ?_
      rw [if_pos hver]
      rfl
  · exact .inr ⟨e, ⟨[], output, false⟩, bind_error hhdr, .inl rfl⟩

/-! ### Whole handshakes -/

theorem socks5Handshake_connect (hello : Hello) (connect : Connect) (rest : Bytes) :
  socks5Handshake ⟨hello.bytes ++ connect.bytes ++ rest, [], false⟩
    = (.ok (connect.address.host, fromBeBytes connect.port), ⟨rest, methodReply, false⟩)
  := by
  rw [List.append_assoc]
  refine (bind_ok (greeting_hello hello (connect.bytes ++ rest))).trans ?_
  apply request_connect

theorem socks5Handshake_cases (input : Bytes) :
  (∃ (hello : Hello) (connect : Connect) (rest : Bytes),
      input = hello.bytes ++ connect.bytes ++ rest)
    ∨ ∃ e s, socks5Handshake ⟨input, [], false⟩ = (.error e, s) ∧ s.output ∈ refusals
  := by
  rcases greeting_cases input with ⟨hello, rest, rfl⟩ | ⟨e, s, hgreeting, houtput⟩
  · rcases request_cases rest methodReply with ⟨connect, rest, rfl⟩ | ⟨e, s, hrequest, houtput⟩
    · left
      use hello, connect, rest
      rw [List.append_assoc]
    · right
      refine ⟨e, s, (bind_ok (greeting_hello hello rest)).trans hrequest, ?_⟩
      rcases houtput with h | h <;> simp [refusals, h]
  · right
    refine ⟨e, s, bind_error hgreeting, ?_⟩
    rcases houtput with h | h <;> simp [refusals, h]

/-- Streams that start with a greeting without authentication and a request to connect give its host
and port, and nothing else is read; the method is answered, and then whether a channel could be
opened. All others are refused. -/
theorem socks5Handshake_exact :
  (∀ (hello : Hello) (connect : Connect) (rest : Bytes), ∃ host, connect.address.NamedBy host
      ∧ socks5Handshake ⟨hello.bytes ++ connect.bytes ++ rest, [], false⟩
        = (.ok (host, fromBeBytes connect.port), ⟨rest, methodReply, false⟩)
      ∧ ∀ channelOpens : Text → UInt16 → Bool,
        serveInbound channelOpens ⟨hello.bytes ++ connect.bytes ++ rest, [], false⟩
          = if channelOpens host (fromBeBytes connect.port) then
              (.ok (some (host, fromBeBytes connect.port)),
                ⟨rest, methodReply ++ successReply, false⟩)
            else (.ok none, ⟨rest, methodReply ++ failureReply, false⟩))
    ∧ ∀ input : Bytes,
      (∀ (hello : Hello) (connect : Connect) (rest : Bytes),
        input ≠ hello.bytes ++ connect.bytes ++ rest) →
      ∃ e s, socks5Handshake ⟨input, [], false⟩ = (.error e, s)
        ∧ (∀ channelOpens : Text → UInt16 → Bool,
          serveInbound channelOpens ⟨input, [], false⟩ = (.error e, s))
        ∧ s.output ∈ refusals
  := by
  constructor
  · intro hello connect rest
    have hconnect := socks5Handshake_connect hello connect rest
    refine ⟨connect.address.host, connect.address.namedBy_host, hconnect, ?_⟩
    intro channelOpens
    refine (bind_ok hconnect).trans ?_
    dsimp only
    split
    · rfl
    · rfl
  · intro input hnot
    rcases socks5Handshake_cases input with ⟨hello, connect, rest, h⟩ | ⟨e, s, h, houtput⟩
    · exact absurd h (hnot hello connect rest)
    · exact ⟨e, s, h, fun channelOpens => bind_error h, houtput⟩

/-- A greeting of another version is refused. -/
theorem socks5Handshake_exact_version_four :
  ∃ e s, socks5Handshake ⟨[0x04, 1, 0x00], [], false⟩ = (.error e, s) ∧ s.output ∈ refusals
  := by
  obtain ⟨e, s, h, -, houtput⟩ := socks5Handshake_exact.2 [0x04, 1, 0x00] (by
    intro hello connect rest h
    have hver : (0x04 : UInt8) = 0x05 := List.head_eq_of_cons_eq h
    revert hver
    decide)
  exact ⟨e, s, h, houtput⟩

/-- A greeting without authentication, and a request for port 80 of the client's host, with a
reserved byte. -/
def localWeb (reserved : UInt8) : Bytes :=
  [0x05, 1, 0x00] ++ [0x05, 0x01, reserved, 0x01, 127, 0, 0, 1, 0, 80]

/-- The handshake does not write the success reply, and it does not look at the reserved byte. -/
theorem socks5Handshake_no_success_reply :
  socks5Handshake ⟨localWeb 0, [], false⟩ = (.ok ("127.0.0.1", 80), ⟨[], methodReply, false⟩)
    ∧ socks5Handshake ⟨localWeb 7, [], false⟩ = (.ok ("127.0.0.1", 80), ⟨[], methodReply, false⟩)
    ∧ methodReply ≠ methodReply ++ successReply
  := by
  refine ⟨rfl, rfl, ?_⟩
  decide

end Ssh.Socks5
