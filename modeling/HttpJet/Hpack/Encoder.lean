import HttpJet.Hpack.HuffmanDecode
import HttpJet.Hpack.StaticTable
import HttpJet.Library.FittingPrefix
import HttpJet.Library.HashMap

/-!
# The HPACK encoder and its string literals (RFC 7541 §5.2)

A literal is a 7-bit-prefixed length with the Huffman flag on top, then the octets.  The thread
remembers long literals with their encoded form, for all its connections.

The encoder keeps its dynamic table newest first, numbers its insertions, and indexes the live
numbers by header name.  `Encoder.Indexed` says that numbers, index and byte size are those of the
table; an eviction then keeps the longest prefix that fits.
-/

namespace HttpJet.Hpack.Literal

open Hpack Hpack.Integer Hpack.StaticTable

/-- HPACK decode error. -/
inductive Error where
  | truncated
  | badIndex
  | badString
  | invalidSizeUpdate
  | headerListTooLarge
  deriving DecidableEq

/-- Huffman-encode when that is strictly smaller than the raw octets. -/
def encodeStringLiteral (raw : Octets) : Octets :=
  let hlen := Huffman.encodedLen raw
  if hlen < raw.length then Integer.encode hlen 7 0x80 ++ Huffman.encodeSized raw hlen
  else Integer.encode raw.length 7 0x00 ++ raw

def longLiteralMin : Nat := 257
def longLiteralSlots : Nat := 8

/-- The last few long literals of the thread with their encoded forms. -/
structure LongLiterals where
  next : Nat
  slots : List (Octets × Octets)
  sound : ∀ entry ∈ slots, entry.2 = encodeStringLiteral entry.1

def LongLiterals.empty : LongLiterals := ⟨0, [], fun _ member => nomatch member⟩

def LongLiterals.remember (memo : LongLiterals) (raw : Octets) : LongLiterals where
  next := (memo.next + 1) % longLiteralSlots
  slots :=
    if memo.next < memo.slots.length then
      memo.slots.set memo.next (raw, encodeStringLiteral raw)
    else memo.slots ++ [(raw, encodeStringLiteral raw)]
  sound := by
    intro entry member
    split at member
    · rcases List.mem_or_eq_of_mem_set member with old | rfl
      · exact memo.sound entry old
      · rfl
    · rcases List.mem_append.mp member with old | new
      · exact memo.sound entry old
      · rw [List.mem_singleton.mp new]

/-- A literal through the memory of long ones. -/
def encodeStringBytes (memo : LongLiterals) (raw : Octets) : LongLiterals × Octets :=
  if raw.length < longLiteralMin then (memo, encodeStringLiteral raw)
  else
    match memo.slots.find? fun entry => entry.1 == raw with
    | some entry => (memo, entry.2)
    | none => (memo.remember raw, encodeStringLiteral raw)

/-- The values that are never remembered. -/
def valueIsSecret (name : Octets) : Bool :=
  [ascii "authorization", ascii "cookie", ascii "proxy-authorization",
    ascii "set-cookie"].contains name

/-- Read a literal and return the suffix behind it.  A length beyond the buffer is
truncation, whether or not the end position overflows. -/
def decodeString (buf : Octets) : Except Error (Octets × Octets) :=
  match buf with
  | [] => .error .truncated
  | b :: _ =>
    let huff := b &&& 0x80 ≠ 0
    match Integer.decode buf 7 with
    | none => .error .truncated
    | some (len, rest) =>
      if rest.length < len then .error .truncated
      else if huff then
        match Huffman.decode (rest.take len) with
        | none => .error .badString
        | some decoded => .ok (decoded, rest.drop len)
      else .ok (rest.take len, rest.drop len)

/-! ## Round trip -/

/-- The memory never changes what is written. -/
theorem encodeStringBytes_eq (memo : LongLiterals) (raw : Octets) :
    (encodeStringBytes memo raw).2 = encodeStringLiteral raw := by
  rw [encodeStringBytes]
  split
  · rfl
  · split
    · next entry found =>
        have same : entry.1 = raw := by simpa using List.find?_some found
        rw [memo.sound entry (List.mem_of_find?_eq_some found), same]
    · rfl

theorem huffman_flag_iff {flag : UInt8} (clear : Clear 7 flag) {low : Nat} (small : low < 2 ^ 7) :
    (flag ||| UInt8.ofNat low) &&& 0x80 = 0 ↔ flag &&& 0x80 = 0 := by
  obtain ⟨_, _⟩ := clear.2
  rw [high_eq_zero_iff, high_eq_zero_iff, first_toNat clear small]
  omega

/-- Reading a length-prefixed payload, decoded when the flag says so. -/
theorem decodeString_prefixed {flag : UInt8} (clear : Clear 7 flag) {payload : Octets}
    (bound : payload.length < 2 ^ 63) (rest : Octets) :
    decodeString (Integer.encode payload.length 7 flag ++ (payload ++ rest)) = if flag &&&
      0x80 ≠ 0 then
        match Huffman.decode payload with
        | none => .error .badString
        | some decoded => .ok (decoded, rest)
      else .ok (payload, rest) := by
  have read := decode_encode clear bound (payload ++ rest)
  obtain ⟨_, _, small, head⟩ := encode_head payload.length 7 flag
  rw [head, List.cons_append] at read ⊢
  rw [decodeString, read]
  simp only [ne_eq, huffman_flag_iff clear small, List.take_left, List.drop_left]
  rw [if_neg (by simp)]

theorem decodeString_encode {raw : Octets} (bound : raw.length < 2 ^ 63) (rest : Octets) :
    decodeString (encodeStringLiteral raw ++ rest) = .ok (raw, rest) := by
  rw [encodeStringLiteral]
  by_cases smaller : Huffman.encodedLen raw < raw.length
  · have written : Huffman.encodeSized raw (Huffman.encodedLen raw) = Huffman.encode raw := rfl
    have back : Huffman.decode (Huffman.encode raw) = some raw :=
      Huffman.decodeLimited_encode raw (by omega)
    have length := Huffman.length_encode raw
    rw [if_pos smaller, List.append_assoc, written, ← length,
      decodeString_prefixed (by decide) (by omega), if_pos (by decide), back]
  · rw [if_neg smaller, List.append_assoc, decodeString_prefixed (by decide) bound,
      if_neg (by decide)]

theorem decodeString_length {buf : Octets} {result : Octets × Octets}
    (ok : decodeString buf = .ok result) : result.2.length < buf.length := by
  cases buf with
  | nil => cases ok
  | cons b tail =>
    rw [decodeString] at ok
    cases read : Integer.decode (b :: tail) 7 with
    | none => simp [read] at ok
    | some found =>
      obtain ⟨len, rest⟩ := found
      have shorter := decode_length read
      have dropped : (rest.drop len).length ≤ rest.length := by simp
      simp only [read] at ok
      split at ok
      · cases ok
      · split at ok
        · split at ok
          · cases ok
          · cases ok
            exact Nat.lt_of_le_of_lt dropped shorter
        · cases ok
          exact Nat.lt_of_le_of_lt dropped shorter

end HttpJet.Hpack.Literal

namespace HttpJet.Hpack

open Hpack.Integer Hpack.StaticTable Hpack.Literal List
open Library Library.FittingPrefix

variable (count length : Nat)

def entryOverhead : Nat := 32
def staticLen : Nat := 61

/-- The size of an entry (RFC 7541 §4.1). -/
def entrySize (entry : Field) : Nat := entry.1.length + entry.2.length + entryOverhead

structure Encoder where
  dynamic : List Field
  seqnos : List Nat
  insCount : Nat
  nameIndex : HashMap Octets (List Nat)
  size : Nat
  maxSize : Nat
  preferredMax : Nat
  pendingSizeUpdate : Option Nat
  pendingMinSize : Option Nat

namespace Encoder

variable {name : Octets}

def new : Encoder where
  dynamic := []
  seqnos := []
  insCount := 0
  nameIndex := ∅
  size := 0
  maxSize := 4096
  preferredMax := 4096
  pendingSizeUpdate := none
  pendingMinSize := none

/-- Adopt the peer's SETTINGS_HEADER_TABLE_SIZE; the change is announced by the next block. -/
def setPeerMaxSize (e : Encoder) (peerMax : Nat) : Encoder :=
  let target := min peerMax e.preferredMax
  let lowest := e.pendingMinSize.elim target fun previous => min previous target
  if target = e.maxSize ∧ target ≤ lowest then
    { e with pendingSizeUpdate := none, pendingMinSize := none }
  else { e with pendingSizeUpdate := some target, pendingMinSize := some lowest }

/-- The 1-based index of a live entry. -/
def hpackIndex (e : Encoder) (seqno : Nat) : Nat := staticLen + 1 + (e.insCount - 1 - seqno)

/-- The newest entry equal to `(name, value)`. -/
def findDynamic (e : Encoder) (name value : Octets) : Option Nat := do
  let list ← e.nameIndex.get name
  list.reverse.findSome? fun seqno => do
    let entry ← e.dynamic[e.insCount - 1 - seqno]?
    if entry.2 = value then some (e.hpackIndex seqno) else none

/-- The newest entry with this name. -/
def findDynamicName (e : Encoder) (name : Octets) : Option Nat := do
  let list ← e.nameIndex.get name
  let seqno ← list.getLast?
  some (e.hpackIndex seqno)

/-- Take one number out of a name's list, and the name when none is left. -/
def unindex (index : HashMap Octets (List Nat)) (name : Octets) (seqno : Nat) :
    HashMap Octets (List Nat) :=
  match index.get name with
  | none => index
  | some list =>
    if (list.erase seqno).isEmpty then index.del name else index.put name (list.erase seqno)

/-- Evict the oldest entry; `false` when there is none. -/
def evictBack (e : Encoder) : Bool × Encoder :=
  let popped := { e with dynamic := e.dynamic.dropLast, seqnos := e.seqnos.dropLast }
  match e.dynamic.getLast?, e.seqnos.getLast? with
  | some entry, some seqno =>
    (true, { popped with
      size := e.size - entrySize entry
      nameIndex := unindex e.nameIndex entry.1 seqno })
  | _, _ => (false, popped)

/-- `while over size { if !evict_back() { break } }`. -/
def evictWhile (beyond : Nat → Bool) : Nat → Encoder → Encoder
  | 0, e => e
  | fuel + 1, e =>
    if beyond e.size then
      match e.evictBack with
      | (true, e) => evictWhile beyond fuel e
      | (false, e) => e
    else e

/-- Add one number to a name's list. -/
def index (index : HashMap Octets (List Nat)) (name : Octets) (seqno : Nat) :
    HashMap Octets (List Nat) :=
  match index.get name with
  | some list => index.put name (list ++ [seqno])
  | none => index.put name [seqno]

/-- Insert at the front, evicting from the back to stay within `maxSize`. -/
def insert (e : Encoder) (name value : Octets) : Encoder :=
  let size := entrySize (name, value)
  let e := evictWhile (fun held => e.maxSize < held + size) (e.dynamic.length + 1) e
  if size ≤ e.maxSize then
    { e with
      size := e.size + size
      insCount := e.insCount + 1
      dynamic := (name, value) :: e.dynamic
      seqnos := e.insCount :: e.seqnos
      nameIndex := index e.nameIndex name e.insCount }
  else e

/-- Whether a header is worth adding to the dynamic table. -/
def indexable (name value : Octets) : Bool :=
  value.length ≤ 256 &&
    !([ascii ":path", ascii "age", ascii "content-range", ascii "date", ascii "expires",
      ascii "if-modified-since", ascii "if-none-match", ascii "set-cookie",
      ascii "x-wf-shell-age"].contains name)

/-- Adopt a table size and evict to it. -/
def resize (e : Encoder) (newMax : Nat) : Encoder :=
  evictWhile (fun held => newMax < held) (e.dynamic.length + 1) { e with maxSize := newMax }

/-- Step 0 of `encode_header_inner`: lead the block with the pending size updates. -/
def announceSize (e : Encoder) : Encoder × Octets :=
  match e.pendingSizeUpdate with
  | none => ({ e with pendingMinSize := none }, [])
  | some newMax =>
    let minSize := e.pendingMinSize.getD newMax
    let e := { e with pendingSizeUpdate := none, pendingMinSize := none }
    if minSize < newMax then
      ((e.resize minSize).resize newMax,
        Integer.encode minSize 5 0x20 ++ Integer.encode newMax 5 0x20)
    else (e.resize newMax, Integer.encode newMax 5 0x20)

/-- An indexed name of a literal representation: the static table first. -/
def nameReference (e : Encoder) (name : Octets) : Option Nat :=
  (findName name).or (e.findDynamicName name)

/-- The name part of a literal: an index under the flag, or the flag and a string. -/
def encodeName (e : Encoder) (memo : LongLiterals) (name : Octets) (prefixBits : Nat)
    (flag : UInt8) : LongLiterals × Octets :=
  match e.nameReference name with
  | some i => (memo, Integer.encode i prefixBits flag)
  | none =>
    let (memo, string) := encodeStringBytes memo name
    (memo, flag :: string)

/-- Steps 1 to 3 of `encode_header_inner`. -/
def encodeField (e : Encoder) (memo : LongLiterals) (name value : Octets) :
    Encoder × LongLiterals × Octets :=
  let indexable := indexable name value
  match (findNameValue name value).or (if indexable then e.findDynamic name value else none) with
  | some i => (e, memo, Integer.encode i 7 0x80)
  | none =>
    if indexable then
      let (memo, named) := e.encodeName memo name 6 0x40
      let (memo, string) := encodeStringBytes memo value
      (e.insert name value, memo, named ++ string)
    else
      let (memo, named) := e.encodeName memo name 4 0x00
      if valueIsSecret name then (e, memo, named ++ encodeStringLiteral value)
      else
        let (memo, string) := encodeStringBytes memo value
        (e, memo, named ++ string)

/-- Encode one header field. -/
def encodeHeader (e : Encoder) (memo : LongLiterals) (name value : Octets) :
    Encoder × LongLiterals × Octets :=
  let (e, updates) := e.announceSize
  let (e, memo, octets) := e.encodeField memo name value
  (e, memo, updates ++ octets)

/-- A header block: successive `encode_header` calls into one buffer. -/
def encodeBlock (e : Encoder) (memo : LongLiterals) : List Field → Encoder × LongLiterals × Octets
  | [] => (e, memo, [])
  | field :: fields =>
    let (e, memo, octets) := e.encodeHeader memo field.1 field.2
    let (e, memo, rest) := e.encodeBlock memo fields
    (e, memo, octets ++ rest)

/-! ## Sequence numbers and the name index -/

/-- The numbers of `length` entries, newest first, after `count` insertions. -/
def countdown (count length : Nat) : List Nat :=
  (List.range length).map fun i => count - 1 - i

theorem countdown_cons : countdown (count + 1) (length + 1) = count :: countdown count length := by
  rw [countdown, range_succ_eq_map, map_cons, map_map, countdown]
  congr 1
  apply map_congr_left
  simp only [Function.comp_apply]
  omega

theorem countdown_concat :
    countdown count (length + 1) = countdown count length ++ [count - 1 - length] := by
  rw [countdown, range_succ, map_append]
  rfl

theorem length_countdown : (countdown count length).length = length := by
  rw [countdown, length_map, length_range]

/-- The numbers of the entries with a given name, oldest first. -/
def live (seqnos : List Nat) (dynamic : List Field) (name : Octets) : List Nat :=
  ((seqnos.zip dynamic).reverse.filter fun numbered => numbered.2.1 == name).map Prod.fst

theorem live_cons (seqno : Nat) (seqnos : List Nat) (entry : Field) (dynamic : List Field)
    (name : Octets) : live (seqno :: seqnos) (entry :: dynamic) name =
      live seqnos dynamic name ++ if entry.1 = name then [seqno] else [] := by
  rw [live, zip_cons_cons, reverse_cons, filter_append, map_append, live]
  by_cases same : entry.1 = name <;> simp [same]

theorem live_concat {seqnos : List Nat} {dynamic : List Field}
    (lengths : seqnos.length = dynamic.length)
    (seqno : Nat) (entry : Field) (name : Octets) :
    live (seqnos ++ [seqno]) (dynamic ++ [entry]) name =
      (if entry.1 = name then [seqno] else []) ++ live seqnos dynamic name := by
  rw [live, zip_append lengths, zip_cons_cons, zip_nil_left, reverse_append,
    filter_append, map_append, live]
  by_cases same : entry.1 = name <;> simp [same]

theorem mem_live {count : Nat} {dynamic : List Field} (counted : dynamic.length ≤ count)
    {seqno : Nat} (member : seqno ∈ live (countdown count dynamic.length) dynamic name) :
    ∃ value, dynamic[count - 1 - seqno]? = some (name, value) := by
  obtain ⟨⟨_, entry⟩, kept, rfl⟩ := mem_map.mp member
  obtain ⟨listed, named⟩ := mem_filter.mp kept
  obtain ⟨i, inside, at_i⟩ := getElem_of_mem (mem_reverse.mp listed)
  have short : i < dynamic.length := by
    rw [length_zip] at inside
    omega
  rw [getElem_zip, Prod.mk.injEq] at at_i
  obtain ⟨number, found⟩ := at_i
  simp only [countdown, getElem_map, getElem_range] at number
  have position : count - 1 - (count - 1 - i) = i := by omega
  refine ⟨entry.2, ?_⟩
  rw [← number, position, getElem?_eq_getElem short, found]
  simp only [beq_iff_eq] at named
  rw [← named]

/-- Numbers, name index and size are those of the table. -/
structure Indexed (e : Encoder) : Prop where
  seqnos : e.seqnos = countdown e.insCount e.dynamic.length
  counted : e.dynamic.length ≤ e.insCount
  names : ∀ name, (e.nameIndex.get name).getD [] = live e.seqnos e.dynamic name
  size : e.size = total entrySize e.dynamic

theorem entrySize_pos (entry : Field) : 0 < entrySize entry := Nat.succ_pos _

/-- The settings an eviction leaves alone. -/
structure SameSettings (before after : Encoder) : Prop where
  maxSize : after.maxSize = before.maxSize
  preferredMax : after.preferredMax = before.preferredMax
  pendingSizeUpdate : after.pendingSizeUpdate = before.pendingSizeUpdate
  pendingMinSize : after.pendingMinSize = before.pendingMinSize

theorem SameSettings.refl (e : Encoder) : SameSettings e e := ⟨rfl, rfl, rfl, rfl⟩

theorem SameSettings.trans {first second third : Encoder} (left : SameSettings first second)
    (right : SameSettings second third) : SameSettings first third :=
  ⟨right.maxSize.trans left.maxSize, right.preferredMax.trans left.preferredMax,
    right.pendingSizeUpdate.trans left.pendingSizeUpdate,
    right.pendingMinSize.trans left.pendingMinSize⟩

theorem getD_unindex (map : HashMap Octets (List Nat)) (name other : Octets) (seqno : Nat)
    {rest : List Nat} (front : (map.get name).getD [] = seqno :: rest) :
    ((unindex map name seqno).get other).getD [] =
      if other = name then rest else (map.get other).getD [] := by
  rw [unindex]
  cases found : map.get name with
  | none => simp [found] at front
  | some =>
    rw [found, Option.getD_some] at front
    simp only [front, erase_cons_head]
    split
    · next none_left =>
        rw [HashMap.get_del]
        split
        · rw [isEmpty_iff.mp none_left]
          rfl
        · rfl
    · rw [HashMap.get_put]
      split <;> rfl

theorem getD_index (map : HashMap Octets (List Nat)) (name other : Octets) (seqno : Nat) :
    ((index map name seqno).get other).getD [] =
      (map.get other).getD [] ++ if name = other then [seqno] else [] := by
  rw [index]
  cases found : map.get name with
  | none | some =>
    simp only [HashMap.get_put]
    by_cases same : other = name
    · rw [if_pos same, if_pos same.symm, same, found]
      rfl
    · rw [if_neg same, if_neg (Ne.symm same), append_nil]

variable {e : Encoder}

theorem evictBack_concat (ok : e.Indexed) {entries : List Field} {last : Field}
    (shape : e.dynamic = entries ++ [last]) :
    ∃ after, e.evictBack = (true, after) ∧ after.Indexed ∧ after.dynamic = entries ∧
      SameSettings e after := by
  have numbers : e.seqnos =
      countdown e.insCount entries.length ++ [e.insCount - 1 - entries.length] := by
    rw [ok.seqnos, shape, length_append, length_singleton, countdown_concat]
  have lengths : (countdown e.insCount entries.length).length = entries.length :=
    length_countdown ..
  have names := ok.names
  simp only [numbers, shape, live_concat lengths] at names
  have front := names last.1
  rw [if_pos rfl, singleton_append] at front
  have evicted : e.evictBack = (true, { e with
      dynamic := entries
      seqnos := countdown e.insCount entries.length
      size := e.size - entrySize last
      nameIndex := unindex e.nameIndex last.1 (e.insCount - 1 - entries.length) }) := by
    rw [evictBack, shape, numbers]
    simp
  refine ⟨_, evicted, ⟨rfl, ?_, ?_, ?_⟩, rfl, ⟨rfl, rfl, rfl, rfl⟩⟩
  · have counted := ok.counted
    rw [shape, length_append] at counted
    exact Nat.le_of_succ_le counted
  · intro name
    rw [getD_unindex _ _ _ _ front, names name]
    by_cases same : name = last.1
    · rw [if_pos same, same]
    · rw [if_neg same, if_neg (Ne.symm same), nil_append]
  · have size := ok.size
    rw [shape, total_append, total_cons, total_nil] at size
    simp only
    omega

theorem evictBack_nil (ok : e.Indexed) (empty : e.dynamic = []) : e.evictBack = (false, e) := by
  have numbers : e.seqnos = [] := by rw [ok.seqnos, empty]; rfl
  rw [evictBack, empty, numbers]
  simp only [getLast?_nil, dropLast_nil]
  rw [← empty, ← numbers]

/-- The eviction loop keeps the longest prefix that fits.  The guard need only agree with
the limit on sizes that leave something to evict. -/
theorem evictWhile_spec {beyond : Nat → Bool} {limit : Nat}
    (agrees : ∀ held, 0 < held → (beyond held = true ↔ limit < held)) (fuel : Nat) (e : Encoder)
    (ok : e.Indexed) (enough : e.dynamic.length < fuel) : (evictWhile beyond fuel e).Indexed ∧
      (evictWhile beyond fuel e).dynamic = fit entrySize limit e.dynamic ∧
      SameSettings e (evictWhile beyond fuel e) := by
  induction fuel generalizing e with
  | zero => exact absurd enough (Nat.not_lt_zero _)
  | succ fuel ih =>
    rw [evictWhile]
    split_ifs with guard
    · rcases eq_nil_or_concat e.dynamic with empty | ⟨entries, last, shape⟩
      · rw [evictBack_nil ok empty]
        exact ⟨ok, by rw [empty, fit_nil], .refl e⟩
      · rw [concat_eq_append] at shape
        obtain ⟨after, evicted, okAfter, dynamic, same⟩ := evictBack_concat ok shape
        have heavy : limit < total entrySize (entries ++ [last]) := by
          have positive := entrySize_pos last
          have size := ok.size
          rw [shape] at size
          rw [← size]
          refine (agrees _ ?_).mp guard
          rw [size, total_append, total_cons]
          omega
        have shorter : after.dynamic.length < fuel := by
          rw [shape, length_append, length_singleton] at enough
          rw [dynamic]
          omega
        obtain ⟨okEnd, dynamicEnd, sameEnd⟩ := ih after okAfter shorter
        rw [evicted]
        exact ⟨okEnd, by rw [dynamicEnd, dynamic, shape, fit_concat _ heavy], same.trans sameEnd⟩
    · refine ⟨ok, (fit_eq_self _ ?_).symm, .refl e⟩
      rw [← ok.size]
      by_contra heavy
      exact guard ((agrees _ (by omega)).mpr (by omega))

theorem resize_spec (ok : e.Indexed) (newMax : Nat) :
    (e.resize newMax).Indexed ∧ (e.resize newMax).dynamic = fit entrySize newMax e.dynamic ∧
      SameSettings { e with maxSize := newMax } (e.resize newMax) := by
  have moved : Indexed { e with maxSize := newMax } := ⟨ok.seqnos, ok.counted, ok.names, ok.size⟩
  exact evictWhile_spec (by simp) _ _ moved (Nat.lt_succ_self _)

theorem insert_spec (ok : e.Indexed) (name value : Octets) : (e.insert name value).Indexed ∧
      (e.insert name value).dynamic = fit entrySize e.maxSize ((name, value) :: e.dynamic) ∧
      SameSettings e (e.insert name value) := by
  have agrees : ∀ held, 0 < held → (decide (e.maxSize < held + entrySize (name, value)) = true ↔
      e.maxSize - entrySize (name, value) < held) := by
    intro held positive
    rw [decide_eq_true_eq]
    omega
  obtain ⟨okEvicted, dynamic, same⟩ :=
    evictWhile_spec agrees _ e ok (Nat.lt_succ_self e.dynamic.length)
  rw [insert]
  rw [same.maxSize]
  split_ifs with fits
  · rw [fit_cons_of_le _ fits, ← dynamic]
    refine ⟨⟨?_, Nat.succ_le_succ okEvicted.counted, ?_, ?_⟩, rfl,
      ⟨rfl, same.preferredMax, same.pendingSizeUpdate, same.pendingMinSize⟩⟩
    · simp only [length_cons]
      rw [countdown_cons, okEvicted.seqnos]
    · intro other
      rw [getD_index, okEvicted.names, live_cons]
    · simp only
      rw [total_cons, okEvicted.size, Nat.add_comm]
  · rw [fit_cons_of_lt _ (Nat.not_le.mp fits)]
    refine ⟨okEvicted, ?_, same⟩
    rw [dynamic, Nat.sub_eq_zero_of_le (by omega)]
    have light := total_fit_le entrySize 0 e.dynamic
    exact total_eq_zero entrySize entrySize_pos (Nat.le_zero.mp light)

/-! ## The lookups -/

theorem mem_names (ok : e.Indexed) {list : List Nat} (found : e.nameIndex.get name = some list)
    {seqno : Nat} (member : seqno ∈ list) :
    ∃ value, e.dynamic[e.insCount - 1 - seqno]? = some (name, value) := by
  have names := ok.names name
  rw [found, Option.getD_some, ok.seqnos] at names
  exact mem_live ok.counted (names ▸ member)

theorem findDynamic_sound (ok : e.Indexed) {value : Octets} {i : Nat}
    (found : e.findDynamic name value = some i) :
    ∃ position, i = staticLen + 1 + position ∧ e.dynamic[position]? = some (name, value) := by
  rw [findDynamic, Option.bind_eq_bind, Option.bind_eq_some_iff] at found
  obtain ⟨_, listed, search⟩ := found
  obtain ⟨_, member, hit⟩ := exists_of_findSome?_eq_some search
  obtain ⟨_, entry⟩ := mem_names ok listed (mem_reverse.mp member)
  rw [entry] at hit
  simp only [Option.bind_eq_bind, Option.bind_some, Option.ite_none_right_eq_some,
    Option.some.injEq] at hit
  obtain ⟨same, rfl⟩ := hit
  exact ⟨_, rfl, by rw [entry, same]⟩

theorem findDynamicName_sound (ok : e.Indexed) {i : Nat} (found : e.findDynamicName name = some i) :
    ∃ position value, i = staticLen + 1 + position ∧ e.dynamic[position]? = some (name, value) := by
  simp only [findDynamicName, Option.bind_eq_bind, Option.bind_eq_some_iff, Option.some.injEq]
    at found
  obtain ⟨_, listed, _, last, rfl⟩ := found
  obtain ⟨value, entry⟩ := mem_names ok listed (mem_of_getLast? last)
  exact ⟨_, value, rfl, entry⟩

end Encoder

end HttpJet.Hpack
