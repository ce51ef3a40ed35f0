import HttpJet.Hpack.Decoder

/-!
# One connection's encoder and decoder in step

An encoder and the decoder at the other end start with empty tables, possibly of different
capacities.  `Sync` relates them between representations: the encoder's table is the longest prefix
of the decoder's that fits the encoder's limit.
-/

namespace HttpJet.Hpack

open Hpack.Integer Hpack.StaticTable Hpack.Literal List
open Library Library.FittingPrefix

variable {hardMax : Nat} {seenField : Bool}

/-- A header field whose name and value are slices of a 64-bit address space. -/
structure HeaderField where
  name : Octets
  value : Octets
  nameFits : name.length < 2 ^ 63
  valueFits : value.length < 2 ^ 63

def HeaderField.pair (field : HeaderField) : Field := (field.name, field.value)

/-! ## What the encoder writes, as instructions -/

namespace Encoder

variable (e : Encoder)

def nameRef (name : Octets) : NameRef :=
  (e.nameReference name).elim (.literal name) .indexed

/-- The representation chosen for a field. -/
def choose (name value : Octets) : Instruction :=
  match (findNameValue name value).or
      (if indexable name value then e.findDynamic name value else none) with
  | some i => .indexed i
  | none =>
    if indexable name value then .incremental (e.nameRef name) value
    else .plain (e.nameRef name) value

/-- The encoder behind a field: only incremental indexing changes it. -/
def follow (name value : Octets) : Encoder :=
  match e.choose name value with
  | .incremental _ _ => e.insert name value
  | _ => e

/-- The size updates that lead the next block. -/
def updates : List Nat :=
  match e.pendingSizeUpdate with
  | none => []
  | some newMax =>
    if e.pendingMinSize.getD newMax < newMax then [e.pendingMinSize.getD newMax, newMax]
    else [newMax]

theorem encodeName_octets (memo : LongLiterals) (name : Octets) (prefixBits : Nat) (flag : UInt8) :
    (e.encodeName memo name prefixBits flag).2 = (e.nameRef name).octets prefixBits flag := by
  rw [encodeName, nameRef]
  cases e.nameReference name with
  | some => rfl
  | none => exact congrArg (flag :: ·) (encodeStringBytes_eq memo name)

theorem encodeField_eq (memo : LongLiterals) (name value : Octets) :
    (e.encodeField memo name value).1 = e.follow name value ∧
      (e.encodeField memo name value).2.2 = (e.choose name value).octets := by
  rw [encodeField, follow, choose]
  cases found : (findNameValue name value).or
      (if indexable name value then e.findDynamic name value else none) with
  | some i => simp [Instruction.octets]
  | none =>
    by_cases worth : indexable name value = true
    · simp [if_pos worth, Instruction.octets, ← encodeName_octets e memo, encodeStringBytes_eq]
    · simp only [if_neg worth, Instruction.octets, ← encodeName_octets e memo]
      split <;> simp [encodeStringBytes_eq]

theorem announceSize_octets :
    e.announceSize.2 = e.updates.flatMap fun newMax => (Instruction.sizeUpdate newMax).octets := by
  rw [announceSize, updates]
  cases e.pendingSizeUpdate with
  | none => rfl
  | some =>
    simp only
    split
    · simp [Instruction.octets]
    · simp [Instruction.octets]

theorem announceSize_encoder : e.announceSize.1 =
      e.updates.foldl resize { e with pendingSizeUpdate := none, pendingMinSize := none } := by
  rw [announceSize, updates]
  cases pending : e.pendingSizeUpdate with
  | none => simp [← pending]
  | some =>
    simp only
    split <;> rfl

end Encoder

/-! ## The relation -/

/-- The encoder's table is the prefix of the decoder's that fits the encoder's limit. -/
structure Sync (e : Encoder) (d : Decoder) : Prop where
  indexed : e.Indexed
  sized : d.Sized
  fitted : e.dynamic = fit entrySize e.maxSize d.dynamic
  limits : e.maxSize ≤ d.maxSize
  level : e.maxSize = d.maxSize ∨ e.maxSize = e.preferredMax
  preferred : e.preferredMax = 4096
  capped : e.maxSize ≤ e.preferredMax
  pending : ∀ target, e.pendingSizeUpdate = some target → target ≤ e.preferredMax
  hard : e.preferredMax ≤ d.hardMax

theorem sync_new (roomy : 4096 ≤ hardMax) (maxListSize : Nat) :
    Sync Encoder.new (Decoder.new hardMax maxListSize) where
  indexed := ⟨rfl, Nat.le_refl _, fun _ => rfl, rfl⟩
  sized := ⟨rfl, Nat.zero_le _⟩
  fitted := rfl
  limits := roomy
  level := .inr rfl
  preferred := rfl
  capped := Nat.le_refl _
  pending := fun _ none => nomatch none
  hard := roomy

namespace Sync

variable {e : Encoder} {d : Decoder}

theorem tables_eq (sync : Sync e d) (limits : e.maxSize = d.maxSize) :
    d.dynamic = e.dynamic ∧ d.size = e.size := by
  have whole : e.dynamic = d.dynamic := by
    rw [sync.fitted, limits, fit_eq_self]
    rw [← sync.sized.size]
    exact sync.sized.fits
  exact ⟨whole.symm, by rw [sync.sized.size, sync.indexed.size, whole]⟩

theorem entry_at (sync : Sync e d) {position : Nat} {entry : Field}
    (found : e.dynamic[position]? = some entry) :
    d.entryRef (staticLen + 1 + position) = some entry ∧
      staticLen + 1 + position < 2 ^ 63 := by
  obtain ⟨inside, _⟩ := List.getElem?_eq_some_iff.mp found
  have heavy :=
    length_mul_le_total entrySize (fun x => Nat.le_add_left 32 (x.1.length + x.2.length))
    e.dynamic
  have light : total entrySize e.dynamic ≤ e.maxSize := by
    rw [sync.fitted]
    exact total_fit_le ..
  have preferred := sync.preferred
  have capped := sync.capped
  obtain ⟨_, split⟩ := fit_prefix entrySize e.maxSize d.dynamic
  rw [← sync.fitted] at split
  constructor
  · rw [Decoder.entryRef, get_eq_none (by rw [staticLen]; omega), if_neg (by omega),
      Nat.add_sub_cancel_left, ← split]
    exact getElem?_append_left inside ▸ found
  · rw [staticLen]
    omega

theorem entryRef_static (d : Decoder) {i : Nat} {entry : Field}
    (found : StaticTable.get i = some entry) : d.entryRef i = some entry ∧ 0 < i ∧ i < 2 ^ 63 := by
  have bounds := get_bounds found
  exact ⟨by rw [Decoder.entryRef, found], bounds.1, by omega⟩

section

variable (sync : Sync e d)
include sync

theorem resolve_nameRef {name : Octets} (short : name.length < 2 ^ 63) :
    d.resolve (e.nameRef name) = .ok name ∧ (e.nameRef name).Fits := by
  rw [Encoder.nameRef, Encoder.nameReference]
  cases static : findName name with
  | some =>
    obtain ⟨value, entry⟩ := findName_sound static
    obtain ⟨found, bounds⟩ := entryRef_static d entry
    exact ⟨by simp [Decoder.resolve, found], bounds⟩
  | none =>
    cases dynamic : e.findDynamicName name with
    | some =>
      obtain ⟨_, _, rfl, entry⟩ :=
        Encoder.findDynamicName_sound sync.indexed dynamic
      obtain ⟨found, bound⟩ := sync.entry_at entry
      exact ⟨by simp [Decoder.resolve, found], by rw [staticLen]; omega, bound⟩
    | none => exact ⟨rfl, short⟩

theorem entryRef_exact {name value : Octets} {i : Nat}
    (found : (findNameValue name value).or
      (if Encoder.indexable name value then e.findDynamic name value else none) = some i) :
    d.entryRef i = some (name, value) ∧ i < 2 ^ 63 := by
  rcases Option.or_eq_some_iff.mp found with static | ⟨_, dynamic⟩
  · obtain ⟨entry, _, bound⟩ := entryRef_static d (findNameValue_sound static)
    exact ⟨entry, bound⟩
  · split at dynamic
    · obtain ⟨_, rfl, entry⟩ := Encoder.findDynamic_sound sync.indexed dynamic
      exact sync.entry_at entry
    · cases dynamic

theorem insert (name value : Octets) : Sync (e.insert name value) (d.insert (name, value)) := by
  obtain ⟨indexed, table, same⟩ := Encoder.insert_spec sync.indexed name value
  obtain ⟨sized, tableD, sameD⟩ := Decoder.insert_spec sync.sized (name, value)
  constructor
  case fitted =>
    rw [table, tableD, same.maxSize, sync.fitted, fit_fit _ sync.limits,
      fit_cons_fit _ (Nat.le_refl _)]
  case level => rw [same.maxSize, sameD.maxSize, same.preferredMax]; exact sync.level
  case limits => rw [same.maxSize, sameD.maxSize]; exact sync.limits
  case preferred => rw [same.preferredMax]; exact sync.preferred
  case capped => rw [same.maxSize, same.preferredMax]; exact sync.capped
  case pending => rw [same.pendingSizeUpdate, same.preferredMax]; exact sync.pending
  case hard => rw [same.preferredMax, sameD.hardMax]; exact sync.hard
  case indexed => exact indexed
  case sized => exact sized

theorem resize {newMax : Nat} (small : newMax ≤ e.preferredMax) :
    ∃ after, d.setMaxSize newMax = .ok after ∧ Sync (e.resize newMax) after ∧
      (e.resize newMax).maxSize = after.maxSize ∧ after.maxListSize = d.maxListSize ∧
      (e.resize newMax).pendingSizeUpdate = e.pendingSizeUpdate ∧
      (e.resize newMax).preferredMax = e.preferredMax := by
  obtain ⟨indexed, table, same⟩ := Encoder.resize_spec sync.indexed newMax
  obtain ⟨after, accepted, sized, tableD, maxD, hardD, listD⟩ :=
    Decoder.setMaxSize_spec sync.sized (Nat.le_trans small sync.hard)
  have maxE : (e.resize newMax).maxSize = newMax := same.maxSize
  have preferredE : (e.resize newMax).preferredMax = e.preferredMax := same.preferredMax
  refine ⟨after, accepted, ?_, by rw [maxE, maxD], listD, same.pendingSizeUpdate, preferredE⟩
  constructor
  case fitted =>
    rw [table, tableD, maxE]
    rcases sync.level with equal | _
    · rw [(sync.tables_eq equal).1, fit_fit _ (Nat.le_refl _)]
    · rw [sync.fitted, fit_fit _ (by omega), fit_fit _ (Nat.le_refl _)]
  case level => exact .inl (by rw [maxE, maxD])
  case limits => rw [maxE, maxD]
  case preferred => rw [preferredE]; exact sync.preferred
  case capped => rw [maxE, preferredE]; exact small
  case pending =>
    rw [show (e.resize newMax).pendingSizeUpdate = e.pendingSizeUpdate from same.pendingSizeUpdate,
      preferredE]
    exact sync.pending
  case hard => rw [preferredE, hardD]; exact sync.hard
  case indexed => exact indexed
  case sized => exact sized

theorem clearPending : Sync { e with pendingSizeUpdate := none, pendingMinSize := none } d where
  indexed := ⟨sync.indexed.seqnos, sync.indexed.counted, sync.indexed.names, sync.indexed.size⟩
  sized := sync.sized
  fitted := sync.fitted
  limits := sync.limits
  level := sync.level
  preferred := sync.preferred
  capped := sync.capped
  pending := fun _ none => nomatch none
  hard := sync.hard

theorem setPeerMaxSize (peerMax : Nat) : Sync (e.setPeerMaxSize peerMax) d := by
  rw [Encoder.setPeerMaxSize]
  split
  · exact sync.clearPending
  · refine { sync.clearPending with pending := ?_, indexed := ?_ }
    · exact ⟨sync.indexed.seqnos, sync.indexed.counted, sync.indexed.names, sync.indexed.size⟩
    · intro target same
      cases same
      exact Nat.min_le_right ..

/-- The decoder executes the chosen representation of a field and emits that field. -/
theorem execute_choose (field : HeaderField) (seenField : Bool) :
    (e.choose field.name field.value).Fits ∧
      ∃ after,
        d.execute seenField (e.choose field.name field.value) = .ok (after, some field.pair) ∧
        Sync (e.follow field.name field.value) after ∧
        after.maxListSize = d.maxListSize ∧ after.maxSize = d.maxSize ∧
        (e.follow field.name field.value).maxSize = e.maxSize ∧
        (e.follow field.name field.value).pendingSizeUpdate = e.pendingSizeUpdate := by
  rw [Encoder.follow, Encoder.choose]
  cases found : (findNameValue field.name field.value).or
      (if Encoder.indexable field.name field.value then e.findDynamic field.name field.value
      else none) with
  | some i =>
    obtain ⟨entry, bound⟩ := sync.entryRef_exact found
    exact ⟨bound, d, by simp [Decoder.execute, entry, HeaderField.pair], sync, rfl, rfl, rfl, rfl⟩
  | none =>
    obtain ⟨named, fits⟩ := sync.resolve_nameRef field.nameFits
    by_cases worth : Encoder.indexable field.name field.value = true
    · simp only [if_pos worth]
      have same := (Encoder.insert_spec sync.indexed field.name field.value).2.2
      have sameD := (Decoder.insert_spec sync.sized (field.name, field.value)).2.2
      refine ⟨⟨fits, field.valueFits⟩, d.insert field.pair, ?_, sync.insert .., sameD.maxListSize,
        sameD.maxSize, same.maxSize, same.pendingSizeUpdate⟩
      rw [Decoder.execute, named]
      rfl
    · simp only [if_neg worth]
      refine ⟨⟨fits, field.valueFits⟩, d, ?_, sync, rfl, rfl, trivial, trivial⟩
      rw [Decoder.execute, named]
      rfl

end

end Sync

/-! ## Decoding a block instruction by instruction -/

theorem Instruction.octets_head (instruction : Instruction) :
    ∃ b tail, instruction.octets = b :: tail ∧
      (b &&& 0xe0 = 0x20 ↔ ∃ newMax, instruction = .sizeUpdate newMax) := by
  have flags : ∀ low, (low < 2 ^ 7 → (0x80 ||| UInt8.ofNat low) &&& 0xe0 ≠ 0x20) ∧
      (low < 2 ^ 6 → (0x40 ||| UInt8.ofNat low) &&& 0xe0 ≠ 0x20) ∧
      (low < 2 ^ 5 → (0x20 ||| UInt8.ofNat low) &&& 0xe0 = 0x20) ∧
      (low < 2 ^ 4 → (0x00 ||| UInt8.ofNat low) &&& 0xe0 ≠ 0x20) := by
    intro low
    refine ⟨?_, ?_, ?_, ?_⟩ <;> (revert low; decide +kernel)
  cases instruction with
  | indexed i =>
    obtain ⟨low, tail, small, head⟩ := encode_head i 7 0x80
    exact ⟨_, tail, head, iff_of_false ((flags low).1 small) (by simp)⟩
  | incremental name =>
    obtain ⟨low, tail, small, head⟩ := Decoder.nameOctets_head name 6 0x40
    exact ⟨_, _, by rw [octets, head, cons_append],
      iff_of_false ((flags low).2.1 small) (by simp)⟩
  | sizeUpdate newMax =>
    obtain ⟨low, tail, small, head⟩ := encode_head newMax 5 0x20
    exact ⟨_, tail, head, iff_of_true ((flags low).2.2.1 small) ⟨newMax, rfl⟩⟩
  | plain name =>
    obtain ⟨low, _, small, head⟩ := Decoder.nameOctets_head name 4 0x00
    exact ⟨_, _, by rw [octets, head, cons_append],
      iff_of_false ((flags low).2.2.2 small) (by simp)⟩

/-- Whether a block leads with a dynamic table size update. -/
def leadsWithUpdate : Octets → Bool
  | [] => false
  | b :: _ => b &&& 0xe0 == 0x20

theorem leadsWithUpdate_octets (instruction : Instruction) (rest : Octets) :
    leadsWithUpdate (instruction.octets ++ rest) = true ↔
      ∃ newMax, instruction = .sizeUpdate newMax := by
  obtain ⟨b, _, head, update⟩ := instruction.octets_head
  rw [head, cons_append, leadsWithUpdate, beq_iff_eq, update]

namespace Decoder

/-- The loop with exactly the fuel it needs. -/
def decodeFrom (d : Decoder) (seenField : Bool) (listed : Nat) (buf : Octets)
    (emitted : List Field) : Decoded :=
  decodeLoop buf.length d seenField listed buf emitted

theorem decodeFrom_instruction {d after : Decoder} {instruction : Instruction}
    {field : Option Field}
    (fits : instruction.Fits) (done : d.execute seenField instruction = .ok (after, field))
    (listed : Nat) (rest : Octets) (emitted : List Field) :
    d.decodeFrom seenField listed (instruction.octets ++ rest) emitted = match field with
      | none => after.decodeFrom seenField listed rest emitted
      | some entry =>
        after.decodeFrom true (saturatingAdd listed (entrySize entry)) rest
          (if saturatingAdd listed (entrySize entry) ≤ d.maxListSize then emitted ++ [entry]
          else emitted) := by
  obtain ⟨b, tail, head, _⟩ := instruction.octets_head
  have read := d.representation_octets seenField fits rest
  rw [done, head, cons_append] at read
  rw [decodeFrom, head, cons_append, length_cons, decodeLoop, read]
  have enough : rest.length ≤ (tail ++ rest).length := by simp
  cases field with
  | none | some => exact decodeLoop_fuel enough ..

end Decoder

namespace Sync

variable {e : Encoder} {d : Decoder}

theorem decodeFrom_updates (sizes : List Nat) (sync : Sync e d)
    (small : ∀ newMax ∈ sizes, newMax ≤ e.preferredMax) (quiet : seenField = true → sizes = [])
    (listed : Nat) (rest : Octets) (emitted : List Field) : ∃ after, d.decodeFrom seenField listed
        ((sizes.flatMap fun newMax => (Instruction.sizeUpdate newMax).octets) ++ rest) emitted =
          after.decodeFrom seenField listed rest emitted ∧
      Sync (sizes.foldl Encoder.resize e) after ∧ after.maxListSize = d.maxListSize ∧
      ((sizes.foldl Encoder.resize e).maxSize = after.maxSize ↔ e.maxSize = d.maxSize ∨
        sizes ≠ []) ∧
      (sizes.foldl Encoder.resize e).pendingSizeUpdate = e.pendingSizeUpdate := by
  induction sizes generalizing e d with
  | nil => exact ⟨d, rfl, sync, rfl, by simp, rfl⟩
  | cons newMax _ ih =>
    obtain ⟨first, others⟩ := forall_mem_cons.mp small
    obtain ⟨middle, accepted, synced, equal, list, pending, preferred⟩ := sync.resize first
    have fits : (Instruction.sizeUpdate newMax).Fits := by
      have := sync.preferred
      change newMax < 2 ^ 63
      omega
    have early : seenField = false := by
      cases seenField with
      | false => rfl
      | true => exact absurd (quiet rfl) (cons_ne_nil _ _)
    subst early
    have done : d.execute false (.sizeUpdate newMax) = .ok (middle, none) := by
      rw [Decoder.execute, accepted]
      rfl
    obtain ⟨after, decoded, syncedEnd, listEnd, equalEnd, pendingEnd⟩ :=
      ih synced (by rw [preferred]; exact others) (by simp)
    refine ⟨after, ?_, syncedEnd, by rw [listEnd, list], ?_,
      by rw [foldl_cons, pendingEnd, pending]⟩
    · rw [flatMap_cons, append_assoc, Decoder.decodeFrom_instruction fits done]
      exact decoded
    · simp [equalEnd, equal]

theorem updates_small (sync : Sync e d) : ∀ newMax ∈ e.updates, newMax ≤ e.preferredMax := by
  intro newMax member
  rw [Encoder.updates] at member
  cases pending : e.pendingSizeUpdate with
  | none => simp [pending] at member
  | some target =>
    have bound := sync.pending target pending
    simp only [pending] at member
    split at member
    · simp only [mem_cons, not_mem_nil, or_false] at member
      omega
    · simp only [mem_singleton] at member
      omega

theorem choose_ne_sizeUpdate (e : Encoder) (name value : Octets) :
    ¬ ∃ newMax, e.choose name value = .sizeUpdate newMax := by
  rintro ⟨_, same⟩
  rw [Encoder.choose] at same
  split at same
  · cases same
  · split at same <;> cases same

theorem encodeHeader_octets (e : Encoder) (memo : LongLiterals) (name value : Octets) :
    (e.encodeHeader memo name value).2.2 =
      (e.updates.flatMap fun newMax => (Instruction.sizeUpdate newMax).octets) ++
        (e.announceSize.1.choose name value).octets := by
  rw [← Encoder.announceSize_octets, ← (Encoder.encodeField_eq e.announceSize.1 memo name value).2]
  rfl

theorem encodeBlock_length (e : Encoder) (memo : LongLiterals) (fields : List Field) :
    fields.length ≤ (e.encodeBlock memo fields).2.2.length := by
  induction fields generalizing e memo with
  | nil => exact Nat.zero_le _
  | cons field _ ih =>
    have rest :=
      ih (e.encodeHeader memo field.1 field.2).1 (e.encodeHeader memo field.1 field.2).2.1
    have octets : 1 ≤ (e.encodeHeader memo field.1 field.2).2.2.length := by
      obtain ⟨b, _, head, _⟩ := (e.announceSize.1.choose field.1 field.2).octets_head
      rw [encodeHeader_octets, head, length_append, length_cons]
      omega
    rw [Encoder.encodeBlock, length_append, length_cons, Nat.add_comm]
    exact Nat.add_le_add octets rest

theorem leadsWithUpdate_encodeBlock (e : Encoder) (memo : LongLiterals) (fields : List Field) :
    leadsWithUpdate (e.encodeBlock memo fields).2.2 = true ↔ e.updates ≠ [] ∧ fields ≠ [] := by
  cases fields with
  | nil => exact iff_of_false (by simp [Encoder.encodeBlock, leadsWithUpdate]) (by simp)
  | cons =>
    simp only [Encoder.encodeBlock, encodeHeader_octets]
    cases e.updates with
    | nil =>
      rw [flatMap_nil, nil_append, leadsWithUpdate_octets]
      exact iff_of_false (choose_ne_sizeUpdate _ _ _) (by simp)
    | cons newMax =>
      rw [flatMap_cons, append_assoc, append_assoc, leadsWithUpdate_octets]
      exact iff_of_true ⟨newMax, rfl⟩ (by simp)

/-- One header: the decoder passes the size updates, then emits the field. -/
theorem decodeFrom_header (sync : Sync e d) (quiet : seenField = true → e.updates = [])
    (memo : LongLiterals) (field : HeaderField) (listed : Nat) (rest : Octets)
    (emitted : List Field) :
    let sent := e.encodeHeader memo field.name field.value
    let counted := Decoder.saturatingAdd listed (entrySize field.pair)
    ∃ after, d.decodeFrom seenField listed (sent.2.2 ++ rest) emitted =
        after.decodeFrom true counted rest
          (if counted ≤ d.maxListSize then emitted ++ [field.pair] else emitted) ∧
      Sync sent.1 after ∧ after.maxListSize = d.maxListSize ∧
      (sent.1.maxSize = after.maxSize ↔ e.maxSize = d.maxSize ∨ e.updates ≠ []) ∧
      sent.1.updates = [] := by
  intro sent counted
  have sentEncoder : sent.1 = e.announceSize.1.follow field.name field.value :=
    (Encoder.encodeField_eq e.announceSize.1 memo field.name field.value).1
  have sentOctets := encodeHeader_octets e memo field.name field.value
  obtain ⟨_, decoded, synced, list, equal, pending⟩ :=
    decodeFrom_updates e.updates sync.clearPending sync.updates_small quiet listed
      ((e.announceSize.1.choose field.name field.value).octets ++ rest) emitted
  rw [← Encoder.announceSize_encoder] at synced equal pending
  obtain ⟨fits, after, done, syncedEnd, listEnd, maxD, maxE, pendingEnd⟩ :=
    synced.execute_choose field seenField
  refine ⟨after, ?_, by rw [sentEncoder]; exact syncedEnd, by rw [listEnd, list], ?_, ?_⟩
  · rw [sentOctets, append_assoc, decoded, Decoder.decodeFrom_instruction fits done, list]
  · rw [sentEncoder, maxE, maxD, equal]
  · rw [sentEncoder, Encoder.updates, pendingEnd, pending]

/-- One block: the decoder stays in step and, within the list limit, emits the fields. -/
theorem decodeFrom_block (fields : List HeaderField) (sync : Sync e d)
    (quiet : seenField = true → e.updates = []) (memo : LongLiterals) (listed : Nat)
    (emitted : List Field) : let sent := e.encodeBlock memo (fields.map HeaderField.pair)
    let got := d.decodeFrom seenField listed sent.2.2 emitted
    Sync sent.1 got.decoder ∧ got.decoder.maxListSize = d.maxListSize ∧
      (sent.1.maxSize = got.decoder.maxSize ↔ e.maxSize = d.maxSize ∨ e.updates ≠ [] ∧
        fields ≠ []) ∧
      (listed + total entrySize (fields.map HeaderField.pair) ≤ d.maxListSize →
        got.emitted = emitted ++ fields.map HeaderField.pair ∧ got.result = .ok ()) := by
  induction fields generalizing e d seenField memo listed emitted with
  | nil =>
    refine ⟨sync, rfl, by simp [Encoder.encodeBlock, Decoder.decodeFrom, Decoder.decodeLoop], ?_⟩
    intro within
    rw [map_nil, total_nil, Nat.add_zero] at within
    simp [Encoder.encodeBlock, Decoder.decodeFrom, Decoder.decodeLoop,
      if_neg (Nat.not_lt.mpr within)]
  | cons field fields ih =>
    intro sent got
    have counted : Decoder.saturatingAdd listed (entrySize field.pair) ≤
        listed + entrySize field.pair := Nat.min_le_left ..
    obtain ⟨middle, decoded, synced, list, equal, spent⟩ :=
      sync.decodeFrom_header quiet memo field listed
        ((e.encodeHeader memo field.name field.value).1.encodeBlock
          (e.encodeHeader memo field.name field.value).2.1 (fields.map HeaderField.pair)).2.2
        emitted
    obtain ⟨syncedEnd, listEnd, equalEnd, emits⟩ :=
      ih synced (fun _ => spent) (e.encodeHeader memo field.name field.value).2.1
        (Decoder.saturatingAdd listed (entrySize field.pair))
        (if Decoder.saturatingAdd listed (entrySize field.pair) ≤ d.maxListSize then
          emitted ++ [field.pair] else emitted)
    have gotEq : got = middle.decodeFrom true _ _ _ := decoded
    rw [← gotEq] at syncedEnd listEnd equalEnd emits
    refine ⟨syncedEnd, by rw [listEnd, list], ?_, ?_⟩
    · refine equalEnd.trans ?_
      simp [equal, spent]
    · intro within
      rw [map_cons, total_cons] at within
      rw [if_pos (by omega), list] at emits
      obtain ⟨all, verdict⟩ := emits (by omega)
      exact ⟨by rw [all, append_assoc]; rfl, verdict⟩

theorem decodeOctets_block (fields : List HeaderField) (sync : Sync e d) (memo : LongLiterals) :
    let sent := e.encodeBlock memo (fields.map HeaderField.pair)
    let got := d.decodeOctets sent.2.2
    Sync sent.1 got.decoder ∧ got.decoder.maxListSize = d.maxListSize ∧
      (sent.1.maxSize = got.decoder.maxSize ↔ e.maxSize = d.maxSize ∨ e.updates ≠ [] ∧
        fields ≠ []) ∧
      (total entrySize (fields.map HeaderField.pair) ≤ d.maxListSize →
        got.emitted = fields.map HeaderField.pair ∧ got.result = .ok ()) := by
  have fresh : false = true → e.updates = [] := nofun
  have block := sync.decodeFrom_block fields fresh memo 0 []
  simp only [Nat.zero_add, nil_append] at block
  exact block

end Sync

/-! ## A connection -/

/-- What happens on a connection.  The memory of long literals belongs to the thread, so a
block may find it in any state. -/
inductive Action where
  | setPeerMaxSize (peerMax : Nat)
  | block (memo : LongLiterals) (fields : List HeaderField)

/-- Both ends of a connection and the blocks sent so far. -/
structure Link where
  encoder : Encoder
  decoder : Decoder
  wires : List Octets

namespace Link

def fresh (hardMax maxListSize : Nat) : Link :=
  ⟨Encoder.new, Decoder.new hardMax maxListSize, []⟩

def act (link : Link) : Action → Link
  | .setPeerMaxSize peerMax => { link with encoder := link.encoder.setPeerMaxSize peerMax }
  | .block memo fields =>
    let sent := link.encoder.encodeBlock memo (fields.map HeaderField.pair)
    ⟨sent.1, (link.decoder.decodeOctets sent.2.2).decoder, link.wires ++ [sent.2.2]⟩

def run (link : Link) (history : List Action) : Link := history.foldl act link

/-- The ends are in step, and their limits agree from the first size update on. -/
structure InStep (hardMax maxListSize : Nat) (link : Link) : Prop where
  sync : Sync link.encoder link.decoder
  listLimit : link.decoder.maxListSize = maxListSize
  limits : link.encoder.maxSize = link.decoder.maxSize ↔
    hardMax = 4096 ∨ link.wires.any leadsWithUpdate = true

theorem fresh_inStep (roomy : 4096 ≤ hardMax) (maxListSize : Nat) :
    InStep hardMax maxListSize (fresh hardMax maxListSize) :=
  ⟨sync_new roomy maxListSize, rfl, by simp [fresh, Encoder.new, Decoder.new, eq_comm]⟩

theorem act_inStep {maxListSize : Nat} {link : Link} (inStep : InStep hardMax maxListSize link)
    (action : Action) : InStep hardMax maxListSize (link.act action) := by
  cases action with
  | setPeerMaxSize peerMax =>
    refine ⟨inStep.sync.setPeerMaxSize peerMax, inStep.listLimit, ?_⟩
    rw [act, Encoder.setPeerMaxSize]
    split <;> exact inStep.limits
  | block memo fields =>
    obtain ⟨synced, list, equal, _⟩ :=
      inStep.sync.decodeOctets_block fields memo
    refine ⟨synced, by rw [← inStep.listLimit]; exact list, equal.trans ?_⟩
    have leads := Sync.leadsWithUpdate_encodeBlock link.encoder memo (fields.map HeaderField.pair)
    rw [act]
    simp [leads, inStep.limits, or_assoc]

end Link

/-- Whatever a connection did before, the next block decodes to the fields that were encoded.  The
encoder's table is then the prefix of the decoder's that fits its limit, and the tables coincide
exactly when the decoder started with the default limit or some block led with a size update. -/
theorem decode_block_of_connection {hardMax maxListSize : Nat} (roomy : 4096 ≤ hardMax)
    (history : List Action) (memo : LongLiterals) (fields : List HeaderField)
    (within : total entrySize (fields.map HeaderField.pair) ≤ maxListSize) :
    let before := (Link.fresh hardMax maxListSize).run history
    let sent := before.encoder.encodeBlock memo (fields.map HeaderField.pair)
    let got := before.decoder.decodeOctets sent.2.2
    got.result = .ok () ∧ got.emitted = fields.map HeaderField.pair ∧
      sent.1.dynamic = fit entrySize sent.1.maxSize got.decoder.dynamic ∧
      ((got.decoder.dynamic = sent.1.dynamic ∧ got.decoder.size = sent.1.size ∧
          got.decoder.maxSize = sent.1.maxSize) ↔
        hardMax = 4096 ∨ (before.wires ++ [sent.2.2]).any leadsWithUpdate = true) := by
  intro before sent got
  have inStep : before.InStep hardMax maxListSize :=
    foldlRecOn history Link.act (Link.fresh_inStep roomy maxListSize) fun _ inStep action _ =>
      Link.act_inStep inStep action
  have after := Link.act_inStep inStep (.block memo fields)
  obtain ⟨_, _, _, emits⟩ := inStep.sync.decodeOctets_block fields memo
  rw [inStep.listLimit] at emits
  obtain ⟨emitted, verdict⟩ := emits within
  refine ⟨verdict, emitted, after.sync.fitted, Iff.trans ?_ after.limits⟩
  constructor
  · rintro ⟨_, _, limits⟩
    exact limits.symm
  · intro limits
    obtain ⟨tables, sizes⟩ := after.sync.tables_eq limits
    exact ⟨tables, sizes, limits.symm⟩

def sampleFields : List HeaderField :=
  [⟨ascii ":status", ascii "200", by decide, by decide⟩,
    ⟨ascii "x-cache", ascii "hit", by decide, by decide⟩]

theorem decode_block_after_shrink :
    4096 ≤ 8192 ∧ total entrySize (sampleFields.map HeaderField.pair) ≤ 65536 ∧
      let before := (Link.fresh 8192 65536).run
        [.block .empty sampleFields, .setPeerMaxSize 64, .setPeerMaxSize 1024]
      (before.decoder.decodeOctets
        (before.encoder.encodeBlock .empty (sampleFields.map HeaderField.pair)).2.2).emitted =
        sampleFields.map HeaderField.pair :=
  ⟨by decide, by decide,
    (decode_block_of_connection (by decide) _ .empty sampleFields (by decide)).2.1⟩

/-- A decoder that advertised more than the default keeps its larger limit after a block
that announces no size. -/
theorem limits_differ_without_update :
    let link := (Link.fresh 8192 65536).run [.block .empty (sampleFields.take 1)]
    link.decoder.maxSize = 8192 ∧ link.encoder.maxSize = 4096 := by
  decide +kernel

end HttpJet.Hpack
