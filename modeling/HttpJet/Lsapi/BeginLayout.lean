import HttpJet.H2.Message
import HttpJet.Lsapi.BeginVerdicts

/-!
# Building BEGIN_REQUEST packets

The builder appends to one buffer and fills in the fixed header and the tables when the offsets they
hold are known.  `layout` writes the same octets from front to back: the fixed header, the tables of
the environment, the index of the well-known headers, the table of the others and the header block.
-/

namespace HttpJet.Lsapi

open Library List
open Hpack.StaticTable (ascii)
open H2 (eqIgnoreCase isUpper toLower)

def headerIndexLen : Nat := 152

def headerOffsetLen : Nat := 16

def knownHeaderCount : Nat := 25

def knownHeaderNames : List String :=
  ["accept", "accept-charset", "accept-encoding", "accept-language", "authorization", "connection",
    "content-type", "content-length", "cookie", "cookie2", "host", "pragma", "referer",
      "user-agent",
    "cache-control", "if-modified-since", "if-match", "if-none-match", "if-range",
      "if-unmodified-since",
    "keep-alive", "range", "x-forwarded-for", "via", "transfer-encoding"]

/-- The slot of a well-known header. -/
def knownHeaderIndex (name : Octets) : Option (Fin knownHeaderCount) :=
  (knownHeaderNames.findFinIdx? fun known => eqIgnoreCase (ascii known) name).map fun slot =>
    ⟨slot.1, slot.2⟩

inductive SpecialEnvType where
  | user
  | admin
  deriving DecidableEq

def SpecialEnvType.octet : SpecialEnvType → UInt8
  | .user => 0x02
  | .admin => 0x04

/-- An override of the PHP configuration. -/
structure SpecialEnv where
  type : SpecialEnvType
  name : Octets
  value : Octets
  deriving DecidableEq

/-- What a `WireHeader` says of itself. -/
structure WireHeader where
  name : Octets
  value : Octets
  knownIndex : Option (Fin knownHeaderCount)
  titleCase : Bool
  deriving DecidableEq

/-- A pair of strings as a header. -/
def WireHeader.ofPair (name value : Octets) : WireHeader :=
  ⟨name, value, knownHeaderIndex name, false⟩

def isLower (b : UInt8) : Bool := 97 ≤ b && b ≤ 122

def toUpper (b : UInt8) : UInt8 := if isLower b then b - 32 else b

/-- `put_title_case`: each letter that begins the name or follows a `-` is upper case. -/
def titleCaseFrom : Bool → Octets → Octets
  | _, [] => []
  | start, b :: rest => (if start then toUpper b else toLower b) :: titleCaseFrom (b == 45) rest

/-- The name as it is written. -/
def WireHeader.written (header : WireHeader) : Octets :=
  if header.titleCase then titleCaseFrom true header.name else header.name

/-- The variables whose place the fixed header gives. -/
inductive ScriptVar where
  | scriptFilename
  | scriptName
  | queryString
  | requestMethod
  deriving DecidableEq

def ScriptVar.name : ScriptVar → Octets
  | .scriptFilename => ascii "SCRIPT_FILENAME"
  | .scriptName => ascii "SCRIPT_NAME"
  | .queryString => ascii "QUERY_STRING"
  | .requestMethod => ascii "REQUEST_METHOD"

def ScriptVar.ofKey (key : Octets) : Option ScriptVar :=
  [ScriptVar.scriptFilename, .scriptName, .queryString, .requestMethod].find? fun var =>
    var.name == key

/-- The offsets of the script variables. -/
abbrev ScriptOffsets := ScriptVar → Nat

/-- Two octets, the more significant first. -/
def be2 (n : Nat) : Octets := (le 2 n).reverse

def putSpecial (out : Octets) (special : SpecialEnv) : Octets :=
  out ++ (be2 (2 + special.name.length + 1) ++ be2 (special.value.length + 1) ++
    [0x01, special.type.octet] ++ special.name ++ [0] ++ special.value ++ [0])

/-- Append a pair; a script variable leaves the offset of its value. -/
def putEnv (bodyStart : Nat) (state : Octets × ScriptOffsets) (pair : Octets × Octets) :
    Octets × ScriptOffsets :=
  let out := state.1 ++ (be2 (pair.1.length + 1) ++ be2 (pair.2.length + 1) ++ pair.1 ++ [0])
  let valuePos := out.length
  (out ++ (pair.2 ++ [0]), match ScriptVar.ofKey pair.1 with
    | some var => fun other =>
      if other = var then packetHeaderLen + valuePos - bodyStart else state.2 other
    | none => state.2)

/-- Where the header block is being written. -/
structure BlockState where
  out : Octets
  /-- The length and the offset of each well-known header. -/
  known : List (Nat × Nat)
  blockRel : Nat
  unknownWpos : Nat

/-- Append a header to the block and enter it in the index or in the table. -/
def putHeader (state : BlockState) (header : WireHeader) : BlockState :=
  let nameOff := state.blockRel
  let valueOff := nameOff + (header.name.length + 2)
  let out := state.out ++ (header.written ++ ascii ": " ++ header.value ++ [13, 10])
  let blockRel := valueOff + (header.value.length + 2)
  match header.knownIndex with
  | some slot =>
    { state with out, blockRel, known :=
      state.known.set slot.1 (header.value.length % 2 ^ 16, valueOff) }
  | none =>
    let (out, wpos) := copyItems (le 4) 4 out state.unknownWpos
      [nameOff, header.name.length, valueOff, header.value.length]
    { state with out, blockRel, unknownWpos := wpos }

/-- Append the body of the packet; offsets count from eight octets before it. -/
def buildBeginRequestInto (out : Octets) (env : List (Octets × Octets))
    (specialEnv : List SpecialEnv)
    (headers : List WireHeader) (reqBodyLen : Int32) : Octets :=
  let bodyStart := out.length
  let out := out ++ List.replicate (reqHeaderLen - packetHeaderLen) 0
  let out := specialEnv.foldl putSpecial out ++ List.replicate 4 0
  let (out, offsets) := env.foldl (putEnv bodyStart) (out, fun _ => 0)
  let out := out ++ List.replicate 4 0
  let curAbs := packetHeaderLen + out.length - bodyStart
  let out := out ++ List.replicate ((8 - curAbs % 8) % 8) 0
  let unknownCnt := (headers.filter fun header => header.knownIndex.isNone).length
  let indexStart := out.length
  let out := out ++ List.replicate (headerIndexLen + unknownCnt * headerOffsetLen) 0
  let block := headers.foldl putHeader
    ⟨out, List.replicate knownHeaderCount (0, 0), 0, indexStart + headerIndexLen⟩
  let (out, w) := copyItems (fun slot => le 2 slot.1) 2 block.out indexStart block.known
  let (out, _) := copyItems (fun slot => le 4 slot.2) 4 out (w + 2) block.known
  (copyItems (le 4) 4 out bodyStart
    [block.blockRel, reqBodyLen.toUInt32.toNat, offsets .scriptFilename, offsets .scriptName,
      offsets .queryString, offsets .requestMethod, unknownCnt, env.length, specialEnv.length]).1

def buildBeginRequest (env : List (Octets × Octets)) (specialEnv : List SpecialEnv)
    (headers : List WireHeader) (reqBodyLen : Int32) : Octets :=
  buildBeginRequestInto [] env specialEnv headers reqBodyLen

/-- The packet with its header; `hostEndian` is the flag of the machine. -/
def buildBeginRequestFramed (hostEndian : UInt8) (env : List (Octets × Octets))
    (specialEnv : List SpecialEnv)
    (headers : List WireHeader) (reqBodyLen : Int32) : Octets :=
  let out :=
    buildBeginRequestInto (List.replicate packetHeaderLen 0) env specialEnv headers reqBodyLen
  let out := copyAt out 0 [76, 83, 1, hostEndian]
  copyAt out 4 (le 4 out.length)

variable (header : WireHeader) (out : Octets) (headers : List WireHeader) (known : List (Nat × Nat))
  (offset : Nat)
variable (env : List (Octets × Octets)) (specialEnv : List SpecialEnv)

/-! ## The environment -/

def specialEntry (special : SpecialEnv) : Octets :=
  be2 (2 + special.name.length + 1) ++ be2 (special.value.length + 1) ++
    [0x01, special.type.octet] ++
    special.name ++ [0] ++ special.value ++ [0]

def envEntry (pair : Octets × Octets) : Octets :=
  be2 (pair.1.length + 1) ++ be2 (pair.2.length + 1) ++ pair.1 ++ [0] ++ (pair.2 ++ [0])

/-- The offset of the value in an entry. -/
def valueAt (pair : Octets × Octets) : Nat := 4 + pair.1.length + 1

/-- The offsets of the script variables in a table that begins at `start`. -/
def offsetsFrom (start : Nat) (offsets : ScriptOffsets) : List (Octets × Octets) → ScriptOffsets
  | [] => offsets
  | pair :: env =>
    offsetsFrom (start + (envEntry pair).length)
      (match ScriptVar.ofKey pair.1 with
      | some var => fun other => if other = var then start + valueAt pair else offsets other
      | none => offsets) env

theorem length_be2 (n : Nat) : (be2 n).length = 2 := by rw [be2, length_reverse, length_le]

theorem foldl_putSpecial (out : Octets) :
    specialEnv.foldl putSpecial out = out ++ specialEnv.flatMap specialEntry := by
  induction specialEnv generalizing out with
  | nil => rw [flatMap_nil, append_nil, foldl_nil]
  | cons _ _ ih =>
    rw [foldl_cons, ih, flatMap_cons, ← append_assoc]
    rfl

theorem putEnv_eq (bodyStart : Nat) (out : Octets) (offsets : ScriptOffsets)
    (pair : Octets × Octets)
    (within : bodyStart ≤ out.length) :
    putEnv bodyStart (out, offsets) pair = (out ++ envEntry pair,
        match ScriptVar.ofKey pair.1 with
        | some var => fun other =>
          if other = var then packetHeaderLen + out.length - bodyStart + valueAt pair
          else offsets other
        | none => offsets) := by
  have place :
      packetHeaderLen + (out ++ (be2 (pair.1.length + 1) ++ be2 (pair.2.length + 1) ++ pair.1 ++
      [0])).length - bodyStart = packetHeaderLen + out.length - bodyStart + valueAt pair := by
    simp only [length_append, length_be2, length_singleton, valueAt]
    omega
  rw [putEnv]
  rw [place, envEntry]
  cases ScriptVar.ofKey pair.1 with
  | none | some => simp

theorem foldl_putEnv (bodyStart : Nat) (env : List (Octets × Octets)) (out : Octets)
    (offsets : ScriptOffsets) (within : bodyStart ≤ out.length) :
    env.foldl (putEnv bodyStart) (out, offsets) =
      (out ++ env.flatMap envEntry,
        offsetsFrom (packetHeaderLen + out.length - bodyStart) offsets env) := by
  induction env generalizing out offsets with
  | nil => rw [flatMap_nil, append_nil, foldl_nil, offsetsFrom]
  | cons pair _ ih =>
    have later : packetHeaderLen + (out ++ envEntry pair).length - bodyStart =
        packetHeaderLen + out.length - bodyStart + (envEntry pair).length := by
      rw [length_append]
      omega
    rw [foldl_cons, putEnv_eq bodyStart out offsets pair within,
      ih _ _ (by rw [length_append]; omega), flatMap_cons, append_assoc, later, offsetsFrom]

/-! ## The headers -/

def headerLine (header : WireHeader) : Octets :=
  header.written ++ ascii ": " ++ header.value ++ [13, 10]

/-- The offset of the value in a line. -/
def WireHeader.valueAt (header : WireHeader) : Nat := header.name.length + 2

/-- The entry of a header in the table, for a line at an offset. -/
def unknownEntry (offset : Nat) (header : WireHeader) : List Nat :=
  [offset, header.name.length, offset + header.valueAt, header.value.length]

/-- The table of the headers that are not well-known, in a block that goes on at an offset. -/
def unknownTable : Nat → List WireHeader → Octets
  | _, [] => []
  | offset, header :: headers =>
    (if header.knownIndex.isNone then (unknownEntry offset header).flatMap (le 4) else []) ++
      unknownTable (offset + (headerLine header).length) headers

/-- The slots of the well-known headers, in a block that goes on at an offset. -/
def knownSlots (known : List (Nat × Nat)) : Nat → List WireHeader → List (Nat × Nat)
  | _, [] => known
  | offset, header :: headers =>
    knownSlots
      (match header.knownIndex with
      | some slot => known.set slot.1 (header.value.length % 2 ^ 16, offset + header.valueAt)
      | none => known)
      (offset + (headerLine header).length) headers

def unknownCount : Nat :=
  (headers.filter fun header => header.knownIndex.isNone).length

theorem length_titleCaseFrom (start : Bool) (name : Octets) :
    (titleCaseFrom start name).length = name.length := by
  induction name generalizing start with
  | nil => rfl
  | cons _ _ ih => rw [titleCaseFrom, length_cons, ih, length_cons]

theorem length_written : header.written.length = header.name.length := by
  rw [WireHeader.written]
  split_ifs
  · exact length_titleCaseFrom true header.name
  · rfl

theorem length_headerLine :
    (headerLine header).length = header.valueAt + (header.value.length + 2) := by
  simp only [headerLine, length_append, length_written, WireHeader.valueAt, length_cons, length_nil]
  rw [show (ascii ": ").length = 2 from rfl]
  omega

theorem unknownCount_cons :
    unknownCount (header :: headers) = (if header.knownIndex.isNone then 1 else 0) +
      unknownCount headers := by
  rw [unknownCount, filter_cons]
  split_ifs
  · rw [length_cons, Nat.add_comm]
    rfl
  · rw [Nat.zero_add]
    rfl

theorem putHeader_unknown {header : WireHeader} (isUnknown : header.knownIndex = none)
    {front room block : Octets} (enough : headerOffsetLen ≤ room.length) (known : List (Nat × Nat))
    (offset : Nat) : putHeader ⟨front ++ (room ++ block), known, offset, front.length⟩ header =
      ⟨front ++ (unknownEntry offset header).flatMap (le 4) ++
          (room.drop headerOffsetLen ++ (block ++ headerLine header)), known,
        offset + (headerLine header).length,
        (front ++ (unknownEntry offset header).flatMap (le 4)).length⟩ := by
  have split : front ++ (room ++ block) ++ headerLine header =
      front ++
        (room.take headerOffsetLen ++
          (room.drop headerOffsetLen ++ (block ++ headerLine header))) := by
    rw [← append_assoc (room.take _), take_append_drop]
    simp
  have taken : (room.take headerOffsetLen).length = (unknownEntry offset header).length * 4 := by
    rw [length_take, Nat.min_eq_left enough]
    rfl
  have copied : copyItems (le 4) 4 (front ++ (room.take headerOffsetLen ++
      (room.drop headerOffsetLen ++ (block ++ headerLine header)))) front.length
        (unknownEntry offset header) = _ :=
    copyItems_append (fun item _ => length_le 4 item) rfl taken
  have written : putHeader ⟨front ++ (room ++ block), known, offset, front.length⟩ header =
      ⟨(copyItems (le 4) 4 (front ++ (room ++ block) ++ headerLine header) front.length
          (unknownEntry offset header)).1, known,
        offset + (header.name.length + 2) + (header.value.length + 2),
        (copyItems (le 4) 4 (front ++ (room ++ block) ++ headerLine header) front.length
          (unknownEntry offset header)).2⟩ := by
    rw [putHeader, isUnknown]
    rfl
  rw [written, split, copied, length_headerLine, WireHeader.valueAt, length_append,
    Nat.add_assoc offset, append_assoc]
  rfl

theorem foldl_putHeader {front room block : Octets}
    (fills : room.length = unknownCount headers * headerOffsetLen) :
    headers.foldl putHeader ⟨front ++ (room ++ block), known, offset, front.length⟩ =
      ⟨front ++ (unknownTable offset headers ++ (block ++ headers.flatMap headerLine)),
        knownSlots known offset headers, offset + (headers.flatMap headerLine).length,
        front.length + unknownCount headers * headerOffsetLen⟩ := by
  induction headers generalizing front room block known offset with
  | nil =>
    rw [unknownCount, filter_nil, length_nil, Nat.zero_mul, length_eq_zero_iff] at fills
    rw [fills, foldl_nil, flatMap_nil, append_nil, unknownCount, filter_nil]
    rfl
  | cons header headers ih =>
    rw [foldl_cons, flatMap_cons, length_append, unknownTable, knownSlots]
    rw [unknownCount_cons] at fills ⊢
    cases index : header.knownIndex with
    | some slot =>
      rw [index, Option.isNone_some, if_neg Bool.false_ne_true, Nat.zero_add] at fills
      have put : putHeader ⟨front ++ (room ++ block), known, offset, front.length⟩ header =
          ⟨front ++ (room ++ (block ++ headerLine header)),
            known.set slot.1 (header.value.length % 2 ^ 16, offset + header.valueAt),
            offset + (headerLine header).length, front.length⟩ := by
        rw [putHeader, index, length_headerLine, headerLine]
        simp [WireHeader.valueAt, Nat.add_assoc]
      rw [put, ih _ _ fills, Option.isNone_some, if_neg Bool.false_ne_true,
        if_neg Bool.false_ne_true, Nat.zero_add, nil_append, append_assoc, Nat.add_assoc]
    | none =>
      rw [index, Option.isNone_none, if_pos rfl, Nat.add_mul, Nat.one_mul] at fills
      have enough : headerOffsetLen ≤ room.length := by omega
      have rest : (room.drop headerOffsetLen).length = unknownCount headers * headerOffsetLen := by
        rw [length_drop]
        omega
      rw [putHeader_unknown index enough, ih _ _ rest, Option.isNone_none, if_pos rfl, if_pos rfl]
      simp only [append_assoc, length_append, Nat.add_assoc, Nat.add_mul, Nat.one_mul]
      rfl

theorem length_knownSlots (headers : List WireHeader) :
    (knownSlots known offset headers).length = known.length := by
  induction headers generalizing known offset with
  | nil => rfl
  | cons header _ ih =>
    rw [knownSlots, ih]
    cases header.knownIndex with
    | none => rfl
    | some => exact length_set

/-! ## The body -/

/-- The tables of the environment, each with its end mark. -/
def envTables (env : List (Octets × Octets)) (specialEnv : List SpecialEnv) : Octets :=
  specialEnv.flatMap specialEntry ++ List.replicate 4 0 ++ env.flatMap envEntry ++
    List.replicate 4 0

/-- Padding to a multiple of eight. -/
def padding (length : Nat) : Octets := List.replicate ((8 - length % 8) % 8) 0

/-- The index of the well-known headers. -/
def headerIndex (slots : List (Nat × Nat)) : Octets :=
  slots.flatMap (fun slot => le 2 slot.1) ++ [0, 0] ++ slots.flatMap fun slot => le 4 slot.2

/-- Where the table of the environment begins in the packet. -/
def envStart (specialEnv : List SpecialEnv) : Nat :=
  reqHeaderLen + (specialEnv.flatMap specialEntry).length + 4

/-- The numbers of the fixed header. -/
def headerFields (env : List (Octets × Octets)) (specialEnv : List SpecialEnv)
    (headers : List WireHeader)
    (reqBodyLen : Int32) : List Nat :=
  let offsets := offsetsFrom (envStart specialEnv) (fun _ => 0) env
  [(headers.flatMap headerLine).length, reqBodyLen.toUInt32.toNat, offsets .scriptFilename,
    offsets .scriptName, offsets .queryString, offsets .requestMethod,
      unknownCount headers, env.length,
    specialEnv.length]

/-- All slots when no header has come. -/
def noSlots : List (Nat × Nat) := List.replicate knownHeaderCount (0, 0)

theorem length_slots : (knownSlots noSlots 0 headers).length = knownHeaderCount :=
  (length_knownSlots noSlots 0 headers).trans length_replicate

/-- What follows the fixed header up to the header index. -/
def envPart (env : List (Octets × Octets)) (specialEnv : List SpecialEnv) : Octets :=
  envTables env specialEnv ++ padding (reqHeaderLen + (envTables env specialEnv).length)

/-- The header index, the table of the other headers and the header block. -/
def headerPart : Octets :=
  headerIndex (knownSlots noSlots 0 headers) ++ unknownTable 0 headers ++ headers.flatMap headerLine

def layout (env : List (Octets × Octets)) (specialEnv : List SpecialEnv) (headers : List WireHeader)
    (reqBodyLen : Int32) : Octets :=
  (headerFields env specialEnv headers reqBodyLen).flatMap (le 4) ++
    (envPart env specialEnv ++ headerPart headers)

theorem fill_index {slots : List (Nat × Nat)} (count : slots.length = knownHeaderCount)
    (front back : Octets) :
    (copyItems (fun slot => le 4 slot.2) 4
      (copyItems (fun slot => le 2 slot.1) 2 (front ++ (replicate headerIndexLen 0 ++ back))
        front.length
        slots).1
      ((copyItems (fun slot => le 2 slot.1) 2 (front ++ (replicate headerIndexLen 0 ++ back))
        front.length
        slots).2 + 2) slots).1 =
      front ++ (headerIndex slots ++ back) := by
  have room :
      replicate headerIndexLen (0 : UInt8) = replicate 50 0 ++ ([0, 0] ++ replicate 100 0) := by
    rw [show [(0 : UInt8), 0] = replicate 2 0 from rfl, replicate_append_replicate,
      replicate_append_replicate, headerIndexLen]
  have lengths : copyItems (fun slot : Nat × Nat => le 2 slot.1) 2
      (front ++ (replicate 50 0 ++ ([0, 0] ++ replicate 100 0 ++ back))) front.length slots = _ :=
    copyItems_append (fun slot _ => length_le 2 slot.1) rfl (by rw [count]; rfl)
  rw [room, append_assoc, lengths]
  have before : (front ++ (slots.flatMap (fun slot : Nat × Nat => le 2 slot.1) ++ [0, 0])).length =
      front.length + slots.length * 2 + 2 := by
    rw [length_append, length_append, length_flatMap_of_width fun slot _ => length_le 2 slot.1]
    rfl
  have offsets : copyItems (fun slot : Nat × Nat => le 4 slot.2) 4
      (front ++ (slots.flatMap (fun slot : Nat × Nat => le 2 slot.1) ++ [0, 0]) ++
        (replicate 100 0 ++ back)) (front.length + slots.length * 2 + 2) slots = _ :=
    copyItems_append (fun slot _ => length_le 4 slot.2) before (by rw [count]; rfl)
  have regrouped : front ++ (slots.flatMap (fun slot : Nat × Nat => le 2 slot.1) ++
      ([0, 0] ++ replicate 100 0 ++ back)) =
      front ++ (slots.flatMap (fun slot : Nat × Nat => le 2 slot.1) ++ [0, 0]) ++
        (replicate 100 0 ++ back) := by
    simp
  rw [regrouped, offsets, headerIndex]
  simp

theorem put_envTables : env.foldl (putEnv out.length)
        (specialEnv.foldl putSpecial (out ++ replicate (reqHeaderLen - packetHeaderLen) 0) ++
          replicate 4 0, fun _ => 0) =
      (out ++ (replicate 36 0 ++ (specialEnv.flatMap specialEntry ++ replicate 4 0 ++
        env.flatMap envEntry)), offsetsFrom (envStart specialEnv) (fun _ => 0) env) := by
  have start : packetHeaderLen + (out ++ replicate 36 0 ++ specialEnv.flatMap specialEntry ++
      replicate 4 0).length - out.length = envStart specialEnv := by
    simp only [length_append, length_replicate, envStart, packetHeaderLen, reqHeaderLen]
    omega
  rw [foldl_putSpecial, show reqHeaderLen - packetHeaderLen = 36 from rfl, foldl_putEnv, start]
  · simp
  · simp only [length_append]
    omega

theorem put_headers (front : Octets) (headers : List WireHeader) : headers.foldl putHeader
        ⟨front ++ replicate (headerIndexLen +
            (headers.filter fun header => header.knownIndex.isNone).length * headerOffsetLen) 0,
          replicate knownHeaderCount (0, 0), 0, front.length + headerIndexLen⟩ =
      ⟨front ++
        (replicate headerIndexLen 0 ++ (unknownTable 0 headers ++ headers.flatMap headerLine)),
        knownSlots noSlots 0 headers, (headers.flatMap headerLine).length,
        front.length + headerIndexLen + unknownCount headers * headerOffsetLen⟩ := by
  have start :
      (front ++ replicate headerIndexLen (0 : UInt8)).length = front.length + headerIndexLen := by
    rw [length_append, length_replicate]
  have room : front ++ replicate (headerIndexLen +
      (headers.filter fun header => header.knownIndex.isNone).length * headerOffsetLen) 0 =
      front ++ replicate headerIndexLen 0 ++
        (replicate (unknownCount headers * headerOffsetLen) 0 ++ []) := by
    rw [append_nil, append_assoc, replicate_append_replicate]
    rfl
  rw [room, ← start, foldl_putHeader headers _ _ length_replicate, nil_append, Nat.zero_add,
    append_assoc]
  rfl

theorem buildBeginRequestInto_eq (headers : List WireHeader) (reqBodyLen : Int32) :
    buildBeginRequestInto out env specialEnv headers reqBodyLen =
      out ++ layout env specialEnv headers reqBodyLen := by
  have aligned : packetHeaderLen + (out ++ (replicate 36 0 ++ (specialEnv.flatMap specialEntry ++
      replicate 4 0 ++ env.flatMap envEntry)) ++ replicate 4 0).length - out.length =
      reqHeaderLen + (envTables env specialEnv).length := by
    simp only [envTables, length_append, length_replicate, packetHeaderLen, reqHeaderLen]
    omega
  have ahead : out ++ (replicate 36 0 ++ (specialEnv.flatMap specialEntry ++ replicate 4 0 ++
      env.flatMap envEntry)) ++ replicate 4 0 ++
      replicate ((8 - (reqHeaderLen + (envTables env specialEnv).length) % 8) % 8) 0 =
      out ++ (replicate 36 0 ++ envPart env specialEnv) := by
    simp [envPart, envTables, padding]
  have fields :
      copyItems (le 4) 4 (out ++ (replicate 36 0 ++ (envPart env specialEnv ++ headerPart headers)))
      out.length (headerFields env specialEnv headers reqBodyLen) = _ :=
    copyItems_append (fun field _ => length_le 4 field) rfl (by rfl)
  have regrouped : out ++ (replicate 36 0 ++ envPart env specialEnv) ++
      (headerIndex (knownSlots noSlots 0 headers) ++
        (unknownTable 0 headers ++ headers.flatMap headerLine)) =
      out ++ (replicate 36 0 ++ (envPart env specialEnv ++ headerPart headers)) := by
    simp [headerPart]
  rw [buildBeginRequestInto]
  simp only [put_envTables, aligned, ahead, put_headers]
  rw [fill_index (length_slots headers), regrouped]
  exact congrArg Prod.fst fields

/-- The header of a packet. -/
def packetHeader (hostEndian : UInt8) (length : Nat) : Octets :=
  [76, 83, 1, hostEndian] ++ le 4 length

theorem buildBeginRequestFramed_eq (hostEndian : UInt8) (env : List (Octets × Octets))
    (specialEnv : List SpecialEnv) (headers : List WireHeader) (reqBodyLen : Int32) :
    buildBeginRequestFramed hostEndian env specialEnv headers reqBodyLen =
      packetHeader hostEndian
        (packetHeaderLen + (layout env specialEnv headers reqBodyLen).length) ++
        layout env specialEnv headers reqBodyLen := by
  rw [buildBeginRequestFramed, buildBeginRequestInto_eq]
  generalize layout env specialEnv headers reqBodyLen = body
  have room : replicate packetHeaderLen (0 : UInt8) ++ body =
      [] ++ ([0, 0, 0, 0] ++ ([0, 0, 0, 0] ++ body)) := rfl
  have marked :
      copyAt ([] ++ ([0, 0, 0, 0] ++ ([0, 0, 0, 0] ++ body))) 0 [76, 83, 1, hostEndian] = _ :=
    copyAt_append rfl rfl
  have measured (length : Nat) :
      copyAt ([76, 83, 1, hostEndian] ++ ([0, 0, 0, 0] ++ body)) 4 (le 4 length) = _ :=
    copyAt_append rfl (length_le 4 length).symm
  rw [room, marked, nil_append, measured, packetHeader, append_assoc, length_append, length_append,
    ← Nat.add_assoc]
  rfl

end HttpJet.Lsapi
