import HttpJet.Lsapi.BeginLayout

/-!
# Reading BEGIN_REQUEST packets

The octets of a framed packet are found where `Laid` says, so reading it by its layout gives the
request back.
-/

namespace HttpJet.Lsapi

open Library List
open Hpack.StaticTable (ascii)

variable (offset : Nat) (headers : List WireHeader)

/-! ## The layout, read -/

/-- A pair of a table: two lengths, which count a NUL each, and the two texts. -/
def readPair : Reader Unit (Octets × Octets) := do
  let keyLength ← Reader.take () 2
  let valueLength ← Reader.take () 2
  let key ← Reader.take () (fromLe keyLength.reverse)
  let value ← Reader.take () (fromLe valueLength.reverse)
  Reader.check () (if key = [] ∨ value = [] then none else some (key.dropLast, value.dropLast))

/-- A table of as many pairs and its end mark. -/
def readTable (count : Nat) : Reader Unit (List (Octets × Octets)) := do
  let pairs ← Reader.many readPair count
  let mark ← Reader.take () 4
  Reader.check () (if mark = [0, 0, 0, 0] then some pairs else none)

/-- An offset or a length. -/
def readNumber : Reader Unit Nat := do
  let octets ← Reader.take () 4
  pure (fromLe octets)

structure ParsedPacket where
  packetLen : Nat
  reqBodyLen : Nat
  offsets : ScriptOffsets
  specialEnv : List (Octets × Octets)
  env : List (Octets × Octets)
  /-- The length and the offset in each slot of the index. -/
  slots : List (Nat × Nat)
  /-- The offset and the length of the name and of the value. -/
  unknown : List (List Nat)
  blockStart : Nat
  blockLen : Nat
  block : Octets

/-- A number of the fixed header. -/
def fieldAt (packet : Octets) (index : Nat) : Nat :=
  fromLe (slice (packetHeaderLen + index * 4) 4 packet)

/-- The offsets of the script variables, in the order of the fixed header. -/
def scriptOffsets (packet : Octets) : ScriptOffsets
  | .scriptFilename => fieldAt packet 2
  | .scriptName => fieldAt packet 3
  | .queryString => fieldAt packet 4
  | .requestMethod => fieldAt packet 5

def slotAt (packet : Octets) (indexStart slot : Nat) : Nat × Nat :=
  (fromLe (slice (indexStart + slot * 2) 2 packet),
    fromLe (slice (indexStart + (knownHeaderCount * 2 + 2) + slot * 4) 4 packet))

def parsePacket (packet : Octets) : Except Unit ParsedPacket := do
  let (specialEnv, rest) ← readTable (fieldAt packet 8) (packet.drop reqHeaderLen)
  let (env, rest) ← readTable (fieldAt packet 7) rest
  let indexStart := (packet.length - rest.length + 7) / 8 * 8
  let tableStart := indexStart + headerIndexLen
  let (unknown, _) ← Reader.many (Reader.many readNumber 4) (fieldAt packet 6)
      (packet.drop tableStart)
  let blockStart := tableStart + fieldAt packet 6 * headerOffsetLen
  if packet.take 3 ≠ [76, 83, 1] then throw ()
  return {
    packetLen := fromLe (slice 4 4 packet)
    reqBodyLen := fieldAt packet 1
    offsets := scriptOffsets packet
    specialEnv := specialEnv
    env := env
    slots := (List.range knownHeaderCount).map (slotAt packet indexStart)
    unknown := unknown
    blockStart := blockStart
    blockLen := fieldAt packet 0
    block := slice blockStart (fieldAt packet 0) packet }

namespace ParsedPacket

/-- The value of a well-known header; an offset of zero says that it is absent. -/
def headerValue (parsed : ParsedPacket) (slot : Fin knownHeaderCount) : Option Octets :=
  match parsed.slots[slot.1]? with
  | some (length, offset) => if offset = 0 then none else some (slice offset length parsed.block)
  | none => none

/-- The name and the value that an entry of the table gives. -/
def resolve (block : Octets) : List Nat → Octets × Octets
  | [nameOff, nameLen, valueOff, valueLen] =>
    (slice nameOff nameLen block, slice valueOff valueLen block)
  | _ => ([], [])

def unknownHeaders (parsed : ParsedPacket) : List (Octets × Octets) :=
  parsed.unknown.map (resolve parsed.block)

end ParsedPacket

/-! ## The tables of the environment -/

theorem fromLe_be2 {n : Nat} (small : n < 2 ^ 16) : fromLe (be2 n).reverse = n := by
  rw [be2, reverse_reverse, fromLe_le]
  exact Nat.mod_eq_of_lt small

theorem fromLe_le4 {n : Nat} (small : n < 2 ^ 32) : fromLe (le 4 n) = n := by
  rw [fromLe_le]
  exact Nat.mod_eq_of_lt small

/-- The lengths of a pair fit. -/
def PairFits (pair : Octets × Octets) : Prop :=
  pair.1.length + 1 < 2 ^ 16 ∧ pair.2.length + 1 < 2 ^ 16
  deriving Decidable

theorem reads_pair {pair : Octets × Octets} (fits : PairFits pair) :
    Reads readPair (envEntry pair) pair := by
  have key : (pair.1 ++ [0]).length = fromLe (be2 (pair.1.length + 1)).reverse := by
    rw [fromLe_be2 fits.1, length_append, length_singleton]
  have value : (pair.2 ++ [0]).length = fromLe (be2 (pair.2.length + 1)).reverse := by
    rw [fromLe_be2 fits.2, length_append, length_singleton]
  have entry : envEntry pair = be2 (pair.1.length + 1) ++ (be2 (pair.2.length + 1) ++
      ((pair.1 ++ [0]) ++ (pair.2 ++ [0]))) := by
    simp [envEntry]
  refine (Reads.take () (length_be2 _)).bind ((Reads.take () (length_be2 _)).bind
    ((Reads.take () key).bind ((Reads.take () value).bind_nil (Reads.check () ?_))))
  rw [if_neg (by simp), dropLast_concat, dropLast_concat]

theorem reads_table {env : List (Octets × Octets)} (fits : ∀ pair ∈ env, PairFits pair) :
    Reads (readTable env.length) (env.flatMap envEntry ++ replicate 4 0) env := by
  refine (Reads.many fun pair listed => reads_pair (fits pair listed)).bind ?_
  exact (Reads.take () length_replicate).bind_nil (Reads.check () rfl)

/-- A special variable as a pair: its key begins with two control octets. -/
def SpecialEnv.pair (special : SpecialEnv) : Octets × Octets :=
  ([0x01, special.type.octet] ++ special.name, special.value)

theorem specialEntry_eq (special : SpecialEnv) : specialEntry special = envEntry special.pair := by
  have length : special.pair.1.length = 2 + special.name.length := length_append
  rw [envEntry, length, specialEntry, SpecialEnv.pair]
  simp

theorem flatMap_specialEntry (specialEnv : List SpecialEnv) :
    specialEnv.flatMap specialEntry = (specialEnv.map SpecialEnv.pair).flatMap envEntry := by
  rw [flatMap_map]
  exact congrArg specialEnv.flatMap (funext specialEntry_eq)

/-! ## The places of the values -/

theorem offsetsFrom_cons (start : Nat) (offsets : ScriptOffsets) (pair : Octets × Octets)
    (env : List (Octets × Octets)) : offsetsFrom start offsets (pair :: env) =
      offsetsFrom (start + (envEntry pair).length)
        (fun var => if ScriptVar.ofKey pair.1 = some var then start + valueAt pair else offsets var)
          env := by
  rw [offsetsFrom]
  cases ScriptVar.ofKey pair.1 with
  | none => rfl
  | some => simp [eq_comm]

theorem offsetsFrom_spec (var : ScriptVar) (env : List (Octets × Octets)) (start : Nat)
    (offsets : ScriptOffsets) :
    (∀ pair ∈ env, ScriptVar.ofKey pair.1 ≠ some var) ∧
      offsetsFrom start offsets env var = offsets var ∨
      ∃ before pair after, env = before ++ pair :: after ∧ ScriptVar.ofKey pair.1 = some var ∧
        (∀ other ∈ after, ScriptVar.ofKey other.1 ≠ some var) ∧
        offsetsFrom start offsets env var = start + (before.flatMap envEntry).length +
          valueAt pair := by
  induction env generalizing start offsets with
  | nil => exact .inl ⟨fun _ listed => (nomatch listed), rfl⟩
  | cons pair env ih =>
    rw [offsetsFrom_cons]
    rcases ih (start + (envEntry pair).length)
      (fun var => if ScriptVar.ofKey pair.1 = some var then start + valueAt pair
      else offsets var) with
      ⟨absent, same⟩ | ⟨before, last, after, rfl, isVar, later, place⟩
    · by_cases here : ScriptVar.ofKey pair.1 = some var
      · refine .inr ⟨[], pair, env, rfl, here, absent, ?_⟩
        rw [same, if_pos here]
        rfl
      · refine .inl ⟨forall_mem_cons.mpr ⟨here, absent⟩, ?_⟩
        rw [same, if_neg here]
    · refine .inr ⟨pair :: before, last, after, rfl, isVar, later, ?_⟩
      rw [place, flatMap_cons, length_append, ← Nat.add_assoc start]

theorem knownSlots_cons (known : List (Nat × Nat)) (offset : Nat) (header : WireHeader)
    (headers : List WireHeader) : ∃ next, knownSlots known offset (header :: headers) =
        knownSlots next (offset + (headerLine header).length) headers ∧ next.length = known.length ∧
      ∀ slot : Fin knownHeaderCount, slot.1 < known.length → next[slot.1]? =
        if header.knownIndex =
          some slot then some (header.value.length % 2 ^ 16, offset + header.valueAt)
        else known[slot.1]? := by
  refine ⟨_, rfl, ?_⟩
  cases header.knownIndex with
  | none => exact ⟨rfl, fun _ _ => rfl⟩
  | some =>
    refine ⟨length_set, fun slot room => ?_⟩
    split_ifs with here
    · rw [Option.some.inj here]
      exact getElem?_set_self room
    · exact getElem?_set_ne fun equal => here (congrArg some (Fin.ext equal))

theorem knownSlots_spec (slot : Fin knownHeaderCount) (headers : List WireHeader)
    (known : List (Nat × Nat))
    (room : slot.1 < known.length) (offset : Nat) :
    (∀ header ∈ headers, header.knownIndex ≠ some slot) ∧
        (knownSlots known offset headers)[slot.1]? = known[slot.1]? ∨
      ∃ before header after, headers = before ++ header :: after ∧ header.knownIndex = some slot ∧
        (∀ other ∈ after, other.knownIndex ≠ some slot) ∧
        (knownSlots known offset headers)[slot.1]? = some (header.value.length % 2 ^ 16,
          offset + (before.flatMap headerLine).length + header.valueAt) := by
  induction headers generalizing known offset with
  | nil => exact .inl ⟨fun _ listed => (nomatch listed), rfl⟩
  | cons header headers ih =>
    obtain ⟨next, step, length, found⟩ := knownSlots_cons known offset header headers
    rw [step]
    rcases ih next (length.symm ▸ room) (offset + (headerLine header).length) with
      ⟨absent, same⟩ | ⟨before, last, after, rfl, isKnown, later, place⟩
    · by_cases here : header.knownIndex = some slot
      · refine .inr ⟨[], header, headers, rfl, here, absent, ?_⟩
        rw [same, found slot room, if_pos here]
        rfl
      · refine .inl ⟨forall_mem_cons.mpr ⟨here, absent⟩, ?_⟩
        rw [same, found slot room, if_neg here]
    · refine .inr ⟨header :: before, last, after, rfl, isKnown, later, ?_⟩
      rw [place, flatMap_cons, length_append, ← Nat.add_assoc offset]

/-- The entries of the table, as numbers. -/
def unknownEntries : Nat → List WireHeader → List (List Nat)
  | _, [] => []
  | offset, header :: headers =>
    (if header.knownIndex.isNone then [unknownEntry offset header] else []) ++
      unknownEntries (offset + (headerLine header).length) headers

theorem unknownTable_eq : unknownTable offset headers =
      (unknownEntries offset headers).flatMap fun entry => entry.flatMap (le 4) := by
  induction headers generalizing offset with
  | nil => rfl
  | cons _ _ ih =>
    rw [unknownTable, unknownEntries, flatMap_append, ih]
    split_ifs
    · rw [flatMap_singleton]
    · rfl

theorem length_unknownEntries : (unknownEntries offset headers).length = unknownCount headers := by
  induction headers generalizing offset with
  | nil => rfl
  | cons _ _ ih =>
    rw [unknownEntries, unknownCount_cons, length_append, ih]
    split_ifs <;> rfl

theorem unknownEntries_bounded : ∀ entry ∈ unknownEntries offset headers, entry.length = 4 ∧
      ∀ number ∈ entry, number ≤ offset + (headers.flatMap headerLine).length := by
  induction headers generalizing offset with
  | nil => simp [unknownEntries]
  | cons header _ ih =>
    intro entry listed
    rw [flatMap_cons, length_append]
    rcases mem_append.mp listed with here | later
    · split_ifs at here
      · rw [mem_singleton.mp here]
        refine ⟨rfl, fun number member => ?_⟩
        have line := length_headerLine header
        rw [WireHeader.valueAt] at line
        simp only [unknownEntry, WireHeader.valueAt, mem_cons, not_mem_nil, or_false] at member
        omega
      · cases here
    · obtain ⟨four, small⟩ := ih _ entry later
      refine ⟨four, fun number member => ?_⟩
      have bound := small number member
      omega

theorem slice_line (front back : Octets) (header : WireHeader) :
    slice front.length header.name.length (front ++ (headerLine header ++ back)) = header.written ∧
      slice (front.length + header.valueAt) header.value.length
        (front ++ (headerLine header ++ back)) =
        header.value := by
  constructor
  · have line : front ++ (headerLine header ++ back) =
        front ++ (header.written ++ (ascii ": " ++ header.value ++ [13, 10] ++ back)) := by
      simp [headerLine]
    rw [line]
    exact slice_append rfl (length_written header)
  · have line : front ++ (headerLine header ++ back) =
        front ++ (header.written ++ ascii ": ") ++ (header.value ++ ([13, 10] ++ back)) := by
      simp [headerLine]
    rw [line]
    refine slice_append ?_ rfl
    rw [length_append, length_append, length_written]
    rfl

theorem resolve_unknownEntries (front : Octets) (headers : List WireHeader) :
    (unknownEntries front.length headers).map
        (ParsedPacket.resolve (front ++ headers.flatMap headerLine)) =
      (headers.filter fun header => header.knownIndex.isNone).map fun header =>
        (header.written, header.value) := by
  induction headers generalizing front with
  | nil => rfl
  | cons header headers ih =>
    have later := ih (front ++ headerLine header)
    rw [length_append, append_assoc] at later
    obtain ⟨name, value⟩ := slice_line front (headers.flatMap headerLine) header
    rw [unknownEntries, map_append, flatMap_cons, later, filter_cons]
    split_ifs
    · rw [map_singleton, unknownEntry, ParsedPacket.resolve, name, value]
      rfl
    · rfl

/-! ## The packet -/

theorem ScriptVar.ofKey_eq_some_iff {key : Octets} {var : ScriptVar} :
    ScriptVar.ofKey key = some var ↔ key = var.name := by
  constructor
  · intro found
    exact (beq_iff_eq.mp (find?_some found :)).symm
  · rintro rfl
    cases var <;> decide

theorem readNumber_reads {n : Nat} (small : n < 2 ^ 32) : Reads readNumber (le 4 n) n := by
  refine (Reads.take () (length_le 4 n)).bind_nil ?_
  rw [fromLe_le4 small]
  exact Reads.pure n

theorem reads_unknownTable (headers : List WireHeader)
    (small : (headers.flatMap headerLine).length < 2 ^ 32) :
    Reads (Reader.many (Reader.many readNumber 4) (unknownCount headers)) (unknownTable 0 headers)
      (unknownEntries 0 headers) := by
  rw [unknownTable_eq, ← length_unknownEntries 0 headers]
  refine Reads.many fun entry listed => ?_
  obtain ⟨four, bounded⟩ := unknownEntries_bounded 0 headers entry listed
  have numbers : Reads (Reader.many readNumber entry.length) (entry.flatMap (le 4)) entry := by
    refine Reads.many fun number member => readNumber_reads ?_
    have bound := bounded number member
    omega
  rwa [four] at numbers

theorem length_unknownTable (headers : List WireHeader) :
    (unknownTable 0 headers).length = unknownCount headers * headerOffsetLen := by
  rw [unknownTable_eq, ← length_unknownEntries 0 headers]
  refine length_flatMap_of_width fun entry listed => ?_
  rw [length_flatMap_of_width fun number _ => length_le 4 number,
    (unknownEntries_bounded 0 headers entry listed).1]
  rfl

theorem slotAt_headerIndex {slots : List (Nat × Nat)} (count : slots.length = knownHeaderCount)
    {slot : Nat}
    {place : Nat × Nat} (found : slots[slot]? = some place) (length : place.1 < 2 ^ 16)
    (offset : place.2 < 2 ^ 32) (front back : Octets) :
    slotAt (front ++ (headerIndex slots ++ back)) front.length slot = place := by
  obtain ⟨ahead, behind, lengths, lengthAt⟩ :=
    flatMap_split (fun slot (_ : slot ∈ slots) => length_le 2 slot.1) found
  obtain ⟨before, after, offsets, offsetAt⟩ :=
    flatMap_split (fun slot (_ : slot ∈ slots) => length_le 4 slot.2) found
  have all : (slots.flatMap fun slot => le 2 slot.1).length = knownHeaderCount * 2 :=
    count ▸ length_flatMap_of_width fun slot _ => length_le 2 slot.1
  have first : front ++ (headerIndex slots ++ back) = front ++ ahead ++ (le 2 place.1 ++
      (behind ++ [0, 0] ++ (slots.flatMap fun slot => le 4 slot.2) ++ back)) := by
    simp [headerIndex, lengths]
  have second : front ++ (headerIndex slots ++ back) =
      front ++ ((slots.flatMap fun slot => le 2 slot.1) ++ [0, 0] ++ before) ++
        (le 4 place.2 ++ (after ++ back)) := by
    simp [headerIndex, offsets]
  have lengthRead :
      slice (front.length + slot * 2) 2 (front ++ (headerIndex slots ++ back)) = le 2 place.1 := by
    rw [first]
    exact slice_append (by rw [length_append, lengthAt]) (length_le 2 place.1)
  have offsetRead : slice (front.length + (knownHeaderCount * 2 + 2) + slot * 4) 4
      (front ++ (headerIndex slots ++ back)) = le 4 place.2 := by
    rw [second]
    refine slice_append ?_ (length_le 4 place.2)
    rw [length_append, length_append, length_append, all, offsetAt, ← Nat.add_assoc]
    rfl
  rw [slotAt, lengthRead, offsetRead, fromLe_le4 offset, fromLe_le]
  exact Prod.ext (Nat.mod_eq_of_lt length) rfl

section Packet

variable {hostEndian : UInt8} {env : List (Octets × Octets)} {specialEnv : List SpecialEnv}
  {headers : List WireHeader} {reqBodyLen : Int32}

theorem length_headerIndex (headers : List WireHeader) :
    (headerIndex (knownSlots noSlots 0 headers)).length = headerIndexLen := by
  rw [headerIndex, length_append, length_append,
    length_flatMap_of_width fun slot _ => length_le 2 slot.1,
    length_flatMap_of_width fun slot _ => length_le 4 slot.2, length_slots]
  rfl

theorem length_layout : (layout env specialEnv headers reqBodyLen).length =
      36 + ((specialEnv.flatMap specialEntry).length + 4 + (env.flatMap envEntry).length + 4 +
        (padding (reqHeaderLen + (envTables env specialEnv).length)).length) +
        (headerIndexLen + unknownCount headers * headerOffsetLen +
          (headers.flatMap headerLine).length) := by
  have fields : ((headerFields env specialEnv headers reqBodyLen).flatMap (le 4)).length = 36 :=
    length_flatMap_of_width fun field _ => length_le 4 field
  rw [layout, length_append, length_append, fields, envPart, length_append, headerPart,
    length_append, length_append, length_headerIndex, length_unknownTable, envTables]
  simp only [length_append, length_replicate]
  omega

theorem length_env_le (env : List (Octets × Octets)) :
    env.length ≤ (env.flatMap envEntry).length := by
  rw [length_flatMap, ← length_map (f := fun pair => (envEntry pair).length)]
  refine length_le_sum_of_one_le _ fun length listed => ?_
  obtain ⟨_, -, rfl⟩ := mem_map.mp listed
  rw [envEntry, length_append, length_append, length_singleton]
  omega

theorem offsetsFrom_bound (env : List (Octets × Octets)) (var : ScriptVar) (start : Nat) :
    offsetsFrom start (fun _ => 0) env var ≤ start + (env.flatMap envEntry).length := by
  rcases offsetsFrom_spec var env start (fun _ => 0) with ⟨-, zero⟩ | ⟨_, _, _, rfl, -, -, place⟩
  · rw [zero]
    exact Nat.zero_le _
  · rw [place, flatMap_append, flatMap_cons, length_append, length_append, envEntry, valueAt]
    simp only [length_append, length_be2, length_singleton]
    omega

theorem headerFields_small
      (total : packetHeaderLen + (layout env specialEnv headers reqBodyLen).length < 2 ^ 31) :
    ∀ field ∈ headerFields env specialEnv headers reqBodyLen, field < 2 ^ 32 := by
  rw [length_layout] at total
  have special : specialEnv.length ≤ (specialEnv.flatMap specialEntry).length := by
    rw [flatMap_specialEntry, ← length_map (f := SpecialEnv.pair)]
    exact length_env_le _
  have offset (var : ScriptVar) :
      offsetsFrom (envStart specialEnv) (fun _ => 0) env var < 2 ^ 32 := by
    have bound := offsetsFrom_bound env var (envStart specialEnv)
    simp only [envStart, reqHeaderLen, packetHeaderLen] at bound total ⊢
    omega
  have pairs := length_env_le env
  have body := reqBodyLen.toUInt32.toNat_lt
  intro field listed
  simp only [headerFields, mem_cons, not_mem_nil, or_false] at listed
  simp only [packetHeaderLen, headerIndexLen, headerOffsetLen] at total
  rcases listed with rfl | rfl | rfl | rfl | rfl | rfl | rfl | rfl | rfl
  · omega
  · exact body
  · exact offset _
  · exact offset _
  · exact offset _
  · exact offset _
  · omega
  · omega
  · omega

end Packet

theorem length_packetHeader (hostEndian : UInt8) (length : Nat) :
    (packetHeader hostEndian length).length = 8 := rfl

/-- Where everything is in a packet. -/
structure Laid (packet : Octets) (env : List (Octets × Octets)) (specialEnv : List SpecialEnv)
    (headers : List WireHeader) (reqBodyLen : Int32) : Prop where
  magic : packet.take 3 = [76, 83, 1]
  measured : slice 4 4 packet = le 4 packet.length
  fields : ∀ {index field}, (headerFields env specialEnv headers reqBodyLen)[index]? = some field →
    fieldAt packet index = field
  tables : ∃ fixed, packet = fixed ++ (envPart env specialEnv ++ headerPart headers) ∧
    fixed.length = reqHeaderLen

theorem laid_layout (hostEndian : UInt8) {env : List (Octets × Octets)}
    {specialEnv : List SpecialEnv}
    {headers : List WireHeader} {reqBodyLen : Int32}
    (total : packetHeaderLen + (layout env specialEnv headers reqBodyLen).length < 2 ^ 31) :
    Laid
      (packetHeader hostEndian
        (packetHeaderLen + (layout env specialEnv headers reqBodyLen).length) ++
      layout env specialEnv headers reqBodyLen) env specialEnv headers reqBodyLen where
  magic := rfl
  measured := by
    rw [length_append, length_packetHeader, packetHeader, append_assoc]
    exact slice_append rfl (length_le 4 _)
  fields := by
    intro index field found
    obtain ⟨front, back, fields, starts⟩ := flatMap_split (fun field _ => length_le 4 field) found
    have small := headerFields_small total field (mem_of_getElem? found)
    generalize packetHeaderLen + (layout env specialEnv headers reqBodyLen).length = length
    have split : packetHeader hostEndian length ++ layout env specialEnv headers reqBodyLen =
        packetHeader hostEndian length ++ front ++
          (le 4 field ++ (back ++ (envPart env specialEnv ++
          headerPart headers))) := by
      rw [layout, fields]
      simp
    have place :
        (packetHeader hostEndian length ++ front).length = packetHeaderLen + index * 4 := by
      rw [length_append, starts, length_packetHeader]
      rfl
    rw [fieldAt, split, slice_append place (length_le 4 field), fromLe_le4 small]
  tables := by
    refine ⟨_, (append_assoc ..).symm, ?_⟩
    rfl

theorem read_envTables {env : List (Octets × Octets)} {specialEnv : List SpecialEnv}
    (specials : ∀ special ∈ specialEnv, PairFits special.pair) (pairs : ∀ pair ∈ env, PairFits pair)
    (rest : Octets) : readTable specialEnv.length (envTables env specialEnv ++ rest) =
        .ok (specialEnv.map SpecialEnv.pair, env.flatMap envEntry ++ replicate 4 0 ++ rest) ∧
      readTable env.length (env.flatMap envEntry ++ replicate 4 0 ++ rest) = .ok (env, rest) := by
  constructor
  · have reads := reads_table (forall_mem_map.mpr specials)
    rw [length_map, ← flatMap_specialEntry] at reads
    have tables :
        envTables env specialEnv ++ rest = specialEnv.flatMap specialEntry ++ replicate 4 0 ++
        (env.flatMap envEntry ++ replicate 4 0 ++ rest) := by
      simp [envTables]
    rw [tables]
    exact reads _
  · exact reads_table pairs rest

namespace Laid

variable {packet : Octets} {env : List (Octets × Octets)} {specialEnv : List SpecialEnv}
  {headers : List WireHeader} {reqBodyLen : Int32}

/-- What is read from the packet, given where its index begins. -/
def reading (packet : Octets) (indexStart : Nat) (env : List (Octets × Octets))
    (specialEnv : List SpecialEnv)
    (headers : List WireHeader) (reqBodyLen : Int32) : ParsedPacket where
  packetLen := packet.length
  reqBodyLen := reqBodyLen.toUInt32.toNat
  offsets := offsetsFrom (envStart specialEnv) (fun _ => 0) env
  specialEnv := specialEnv.map SpecialEnv.pair
  env := env
  slots := (List.range knownHeaderCount).map (slotAt packet indexStart)
  unknown := unknownEntries 0 headers
  blockStart := indexStart + headerIndexLen + unknownCount headers * headerOffsetLen
  blockLen := (headers.flatMap headerLine).length
  block := headers.flatMap headerLine

section

variable (laid : Laid packet env specialEnv headers reqBodyLen)
include laid

theorem scriptOffsets_eq :
    scriptOffsets packet = offsetsFrom (envStart specialEnv) (fun _ => 0) env := by
  funext var
  cases var with
  | scriptFilename | scriptName | queryString | requestMethod => exact laid.fields rfl

theorem aligned : ∃ front, packet = front ++ headerPart headers ∧
      front.length = reqHeaderLen + (envTables env specialEnv).length +
        (padding (reqHeaderLen + (envTables env specialEnv).length)).length ∧
      front.length = (reqHeaderLen + (envTables env specialEnv).length + 7) / 8 * 8 := by
  obtain ⟨fixed, rfl, length⟩ := laid.tables
  refine ⟨fixed ++ envPart env specialEnv, (append_assoc ..).symm, ?_, ?_⟩
  · rw [length_append, length, envPart, length_append, Nat.add_assoc]
  · rw [length_append, length, envPart, length_append, padding, length_replicate, reqHeaderLen]
    omega

theorem parsePacket_eq (specials : ∀ special ∈ specialEnv, PairFits special.pair)
    (pairs : ∀ pair ∈ env, PairFits pair) (total : packet.length < 2 ^ 31) :
    ∃ front, packet = front ++ headerPart headers ∧
      parsePacket packet = .ok (reading packet front.length env specialEnv headers reqBodyLen) := by
  obtain ⟨front, split, padded, aligned⟩ := laid.aligned
  refine ⟨front, split, ?_⟩
  have count : fieldAt packet 6 = unknownCount headers := laid.fields rfl
  have blockLen : fieldAt packet 0 = (headers.flatMap headerLine).length := laid.fields rfl
  have envCount : fieldAt packet 7 = env.length := laid.fields rfl
  have specialCount : fieldAt packet 8 = specialEnv.length := laid.fields rfl
  have bodyLen : fieldAt packet 1 = reqBodyLen.toUInt32.toNat := laid.fields rfl
  obtain ⟨specialsRead, pairsRead⟩ := read_envTables specials pairs
    (padding (reqHeaderLen + (envTables env specialEnv).length) ++ headerPart headers)
  have afterFixed : packet.drop reqHeaderLen = envTables env specialEnv ++
      (padding (reqHeaderLen + (envTables env specialEnv).length) ++ headerPart headers) := by
    obtain ⟨_, rfl, length⟩ := laid.tables
    rw [← length, drop_left, envPart, append_assoc, length]
  have index : (front ++ headerIndex (knownSlots noSlots 0 headers)).length = front.length +
      headerIndexLen := by
    rw [length_append, length_headerIndex]
  have afterIndex : packet.drop (front.length + headerIndexLen) =
      unknownTable 0 headers ++ headers.flatMap headerLine := by
    rw [split, ← index, headerPart, append_assoc, ← append_assoc front, drop_left]
  have block : slice (front.length + headerIndexLen + unknownCount headers * headerOffsetLen)
      (headers.flatMap headerLine).length packet = headers.flatMap headerLine := by
    rw [slice, ← drop_drop, afterIndex, ← length_unknownTable, drop_left, take_length]
  have blockSmall : (headers.flatMap headerLine).length < 2 ^ 32 := by
    rw [split, headerPart] at total
    simp only [length_append] at total
    omega
  have unknown := reads_unknownTable headers blockSmall (headers.flatMap headerLine)
  have indexStart : (packet.length - (padding (reqHeaderLen + (envTables env specialEnv).length) ++
      headerPart headers).length + 7) / 8 * 8 = front.length := by
    rw [aligned, split]
    congr 3
    simp only [length_append]
    omega
  rw [parsePacket, specialCount, envCount, count, blockLen, bodyLen, laid.measured, laid.magic,
    fromLe_le4 (by omega), laid.scriptOffsets_eq, afterFixed, specialsRead]
  dsimp only [bind, Except.bind]
  rw [pairsRead]
  dsimp only
  rw [indexStart, afterIndex, unknown]
  rw [block]
  rfl

end

end Laid

/-! ## The request, recovered -/

/-- The lengths that the packet has room for. -/
structure Fits (hostEndian : UInt8) (env : List (Octets × Octets)) (specialEnv : List SpecialEnv)
    (headers : List WireHeader) (reqBodyLen : Int32) : Prop where
  specials : ∀ special ∈ specialEnv, PairFits special.pair
  pairs : ∀ pair ∈ env, PairFits pair
  known : ∀ header ∈ headers, header.knownIndex ≠ none → header.value.length < 2 ^ 16
  total : (buildBeginRequestFramed hostEndian env specialEnv headers reqBodyLen).length < 2 ^ 31

/-- The last item that satisfies a predicate, with what is before and after it. -/
def LastWith {α : Type} (p : α → Prop) (items before : List α) (item : α) : Prop :=
  p item ∧ ∃ after, items = before ++ item :: after ∧ ∀ other ∈ after, ¬p other

/-- The packet read gives the request. -/
structure Recovered (packet : Octets) (env : List (Octets × Octets)) (specialEnv : List SpecialEnv)
    (headers : List WireHeader) (parsed : ParsedPacket) : Prop where
  packetLen : parsed.packetLen = packet.length
  blockEnd : parsed.blockStart + parsed.blockLen = packet.length
  specials : parsed.specialEnv = specialEnv.map SpecialEnv.pair
  pairs : parsed.env = env
  /-- The slot of a well-known header holds the value of its last line, or nothing. -/
  known : ∀ slot : Fin knownHeaderCount,
    (∀ header ∈ headers, header.knownIndex ≠ some slot) ∧ parsed.headerValue slot = none ∨
      ∃ before header, LastWith (·.knownIndex = some slot) headers before header ∧
        parsed.headerValue slot = some header.value
  unknown : parsed.unknownHeaders =
    (headers.filter fun header => header.knownIndex.isNone).map fun header =>
      (header.written, header.value)
  /-- The offset of a script variable is that of the value of its last pair, or zero. -/
  offsets : ∀ var : ScriptVar,
    (∀ pair ∈ env, pair.1 ≠ var.name) ∧ parsed.offsets var = 0 ∨
      ∃ before pair, LastWith (·.1 = var.name) env before pair ∧
        parsed.offsets var = envStart specialEnv + (before.flatMap envEntry).length + valueAt pair ∧
        slice (parsed.offsets var) (pair.2.length + 1) packet = pair.2 ++ [0]

namespace Laid

variable {packet : Octets} {env : List (Octets × Octets)} {specialEnv : List SpecialEnv}
  {headers : List WireHeader} {reqBodyLen : Int32}

/-- The value that an offset of a script variable points at. -/
theorem slice_value (laid : Laid packet env specialEnv headers reqBodyLen)
    {before after : List (Octets × Octets)} {pair : Octets × Octets}
    (last : env = before ++ pair :: after) :
    slice (envStart specialEnv + (before.flatMap envEntry).length + valueAt pair)
      (pair.2.length + 1) packet =
      pair.2 ++ [0] := by
  obtain ⟨fixed, rfl, length⟩ := laid.tables
  have split : fixed ++ (envPart env specialEnv ++ headerPart headers) =
      fixed ++ (specialEnv.flatMap specialEntry ++ replicate 4 0 ++ before.flatMap envEntry ++
        (be2 (pair.1.length + 1) ++ be2 (pair.2.length + 1) ++ pair.1 ++ [0])) ++
      ((pair.2 ++ [0]) ++ (after.flatMap envEntry ++ (replicate 4 0 ++
        (padding (reqHeaderLen + (envTables env specialEnv).length) ++ headerPart headers)))) := by
    have entries : env.flatMap envEntry = before.flatMap envEntry ++
        (envEntry pair ++ after.flatMap envEntry) := by
      rw [last, flatMap_append, flatMap_cons]
    rw [envPart]
    nth_rewrite 1 [envTables]
    rw [entries, envEntry]
    simp
  rw [split]
  refine slice_append ?_ (by rw [length_append, length_singleton])
  simp only [length_append, length, length_be2, length_replicate, length_singleton,
    envStart, valueAt]
  omega

theorem offsets_spec (laid : Laid packet env specialEnv headers reqBodyLen) (var : ScriptVar) :
    (∀ pair ∈ env, pair.1 ≠ var.name) ∧ offsetsFrom (envStart specialEnv) (fun _ => 0) env var = 0 ∨
      ∃ before pair, LastWith (·.1 = var.name) env before pair ∧
        offsetsFrom (envStart specialEnv) (fun _ => 0) env var =
          envStart specialEnv + (before.flatMap envEntry).length + valueAt pair ∧
        slice (offsetsFrom (envStart specialEnv) (fun _ => 0) env var) (pair.2.length + 1) packet =
          pair.2 ++ [0] := by
  rcases offsetsFrom_spec var env (envStart specialEnv) (fun _ => 0) with
    ⟨absent, zero⟩ | ⟨before, pair, after, last, isVar, later, place⟩
  · exact .inl
      ⟨fun pair listed named => absent pair listed (ScriptVar.ofKey_eq_some_iff.mpr named), zero⟩
  · refine .inr ⟨before, pair, ⟨ScriptVar.ofKey_eq_some_iff.mp isVar, after, last, ?_⟩, place, ?_⟩
    · exact fun other listed named => later other listed (ScriptVar.ofKey_eq_some_iff.mpr named)
    · rw [place, laid.slice_value last]

theorem headerValue_spec {front : Octets} (split : packet = front ++ headerPart headers)
    (small : (headers.flatMap headerLine).length < 2 ^ 32)
    (fits : ∀ header ∈ headers, header.knownIndex ≠ none → header.value.length < 2 ^ 16)
    (slot : Fin knownHeaderCount) : (∀ header ∈ headers, header.knownIndex ≠ some slot) ∧
        (reading packet front.length env specialEnv headers reqBodyLen).headerValue slot = none ∨
      ∃ before header, LastWith (·.knownIndex = some slot) headers before header ∧
        (reading packet front.length env specialEnv headers reqBodyLen).headerValue slot =
          some header.value := by
  have entered : (reading packet front.length env specialEnv headers reqBodyLen).slots[slot.1]? =
      some (slotAt packet front.length slot.1) := by
    rw [reading, getElem?_map, getElem?_range slot.2]
    rfl
  have place {length offset : Nat}
      (found : (knownSlots noSlots 0 headers)[slot.1]? = some (length, offset))
      (lengthFits : length < 2 ^ 16) (offsetFits : offset < 2 ^ 32) :
      slotAt packet front.length slot.1 = (length, offset) := by
    rw [split, headerPart, append_assoc]
    exact slotAt_headerIndex (length_slots headers) found lengthFits offsetFits front _
  have room : slot.1 < noSlots.length := slot.2.trans_eq length_replicate.symm
  rcases knownSlots_spec slot headers noSlots room 0 with
    ⟨absent, same⟩ | ⟨before, header, after, last, isKnown, later, found⟩
  · refine .inl ⟨absent, ?_⟩
    rw [noSlots, getElem?_replicate_of_lt slot.2] at same
    rw [ParsedPacket.headerValue, entered, place same (by decide) (by decide)]
    rfl
  · refine .inr ⟨before, header, ⟨isKnown, after, last, later⟩, ?_⟩
    have listed : header ∈ headers := last ▸ mem_append_right _ mem_cons_self
    have lengthFits := fits header listed (by rw [isKnown]; exact Option.some_ne_none slot)
    have lines : headers.flatMap headerLine =
        before.flatMap headerLine ++ (headerLine header ++ after.flatMap headerLine) := by
      rw [last, flatMap_append, flatMap_cons]
    have inside : (before.flatMap headerLine).length + header.valueAt < 2 ^ 32 := by
      rw [lines, length_append, length_append, length_headerLine] at small
      omega
    rw [Nat.mod_eq_of_lt lengthFits, Nat.zero_add] at found
    rw [ParsedPacket.headerValue, entered, place found lengthFits inside]
    dsimp only
    rw [if_neg (by rw [WireHeader.valueAt]; omega), reading]
    rw [lines, (slice_line (before.flatMap headerLine) (after.flatMap headerLine) header).2]

end Laid

end HttpJet.Lsapi
