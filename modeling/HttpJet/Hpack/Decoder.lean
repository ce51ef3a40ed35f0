import HttpJet.Hpack.Encoder

/-!
# The HPACK decoder

The decoder reads one representation after another; one that fails leaves the decoder as it was.
`Instruction` is one representation, `octets` its wire form and `execute` what it does to the
decoder.  The limit
decides how much of a block's list is shown and whether the block is refused; the fields beyond it
are decoded all the same, so the table stays in step with the peer's.
-/

namespace HttpJet.Hpack

open Hpack.Integer Hpack.StaticTable Hpack.Literal List
open Library Library.FittingPrefix

structure Decoder where
  dynamic : List Field
  size : Nat
  maxSize : Nat
  hardMax : Nat
  maxListSize : Nat
  deriving DecidableEq

/-- What a block left behind: the decoder, the emitted fields and the verdict. -/
structure Decoded where
  decoder : Decoder
  emitted : List Field
  result : Except Error Unit

variable {d : Decoder}

namespace Decoder

def new (maxSize maxListSize : Nat) : Decoder where
  dynamic := []
  size := 0
  maxSize := maxSize
  hardMax := maxSize
  maxListSize := maxListSize

/-- An entry of the static or dynamic table. -/
def entryRef (d : Decoder) (i : Nat) : Option Field :=
  match StaticTable.get i with
  | some entry => some entry
  | none => if i < staticLen + 1 then none else d.dynamic[i - (staticLen + 1)]?

/-- `while size > target { pop_back }`. -/
def evictLoop (target : Nat) : Nat → Decoder → Decoder
  | 0, d => d
  | fuel + 1, d =>
    if target < d.size then
      match d.dynamic.getLast? with
      | some entry =>
        evictLoop target fuel
          { d with dynamic := d.dynamic.dropLast, size := d.size - entrySize entry }
      | none => d
    else d

def evictTo (d : Decoder) (target : Nat) : Decoder := evictLoop target (d.dynamic.length + 1) d

def insert (d : Decoder) (entry : Field) : Decoder :=
  let d := d.evictTo (d.maxSize - entrySize entry)
  if entrySize entry ≤ d.maxSize then
    { d with size := d.size + entrySize entry, dynamic := entry :: d.dynamic }
  else d

def setMaxSize (d : Decoder) (newMax : Nat) : Except Error Decoder :=
  if d.hardMax < newMax then .error .invalidSizeUpdate
  else .ok (evictTo { d with maxSize := newMax } newMax)

/-- A literal field whose name is an index or, for index 0, a string. -/
def readLiteral (d : Decoder) (buf : Octets) (prefixBits : Nat) : Except Error (Field × Octets) :=
  match Integer.decode buf prefixBits with
  | none => .error .truncated
  | some (nameIdx, rest) => do
      let (name, rest) ←
        if nameIdx = 0 then decodeString rest
        else
          match d.entryRef nameIdx with
          | some entry => .ok (entry.1, rest)
          | none => .error .badIndex
      let (value, rest) ← decodeString rest
      .ok ((name, value), rest)

/-- One pass of the loop of `decode_octets`: the decoder, the field to emit and the suffix.
A literal without indexing takes the steps of `read_literal` with scratch buffers. -/
def representation (d : Decoder) (seenField : Bool) (buf : Octets) :
    Except Error (Decoder × Option Field × Octets) :=
  match buf with
  | [] => .error .truncated
  | b :: _ =>
    if b &&& 0x80 ≠ 0 then
      match Integer.decode buf 7 with
      | none => .error .truncated
      | some (i, rest) =>
        match d.entryRef i with
        | none => .error .badIndex
        | some entry => .ok (d, some entry, rest)
    else if b &&& 0x40 ≠ 0 then do
      let (entry, rest) ← d.readLiteral buf 6
      .ok (d.insert entry, some entry, rest)
    else if b &&& 0x20 ≠ 0 then
      if seenField then .error .invalidSizeUpdate
      else
        match Integer.decode buf 5 with
        | none => .error .truncated
        | some (newMax, rest) => do
            let d ← d.setMaxSize newMax
            .ok (d, none, rest)
    else do
      let (entry, rest) ← d.readLiteral buf 4
      .ok (d, some entry, rest)

/-- `usize::saturating_add`. -/
def saturatingAdd (a b : Nat) : Nat := min (a + b) (2 ^ 64 - 1)

/-- The loop of `decode_octets`.  Past the list limit fields are decoded but not emitted. -/
def decodeLoop : Nat → Decoder → Bool → Nat → Octets → List Field → Decoded
  | _, d, _, listed, [], emitted =>
    ⟨d, emitted, if d.maxListSize < listed then .error .headerListTooLarge else .ok ()⟩
  | 0, d, _, _, _ :: _, emitted => ⟨d, emitted, .error .truncated⟩
  | fuel + 1, d, seenField, listed, b :: tail, emitted =>
    match d.representation seenField (b :: tail) with
    | .error error => ⟨d, emitted, .error error⟩
    | .ok (after, none, rest) => decodeLoop fuel after seenField listed rest emitted
    | .ok (after, some entry, rest) =>
      let listed := saturatingAdd listed (entrySize entry)
      decodeLoop fuel after true listed rest
        (if listed ≤ d.maxListSize then emitted ++ [entry] else emitted)

/-- Decode a complete header block. -/
def decodeOctets (d : Decoder) (buf : Octets) : Decoded :=
  decodeLoop buf.length d false 0 buf []

/-! ## The dynamic table -/

/-- The size is that of the table and within its limit. -/
structure Sized (d : Decoder) : Prop where
  size : d.size = total entrySize d.dynamic
  fits : d.size ≤ d.maxSize

/-- The settings an eviction leaves alone. -/
structure SameSettings (before after : Decoder) : Prop where
  maxSize : after.maxSize = before.maxSize
  hardMax : after.hardMax = before.hardMax
  maxListSize : after.maxListSize = before.maxListSize

theorem evictLoop_spec (target fuel : Nat) (d : Decoder) (size : d.size = total entrySize d.dynamic)
    (enough : d.dynamic.length < fuel) :
    (evictLoop target fuel d).dynamic = fit entrySize target d.dynamic ∧
      (evictLoop target fuel d).size = total entrySize (fit entrySize target d.dynamic) ∧
      SameSettings d (evictLoop target fuel d) := by
  induction fuel generalizing d with
  | zero => exact absurd enough (Nat.not_lt_zero _)
  | succ _ ih =>
    rw [evictLoop]
    by_cases guard : target < d.size
    · rw [if_pos guard]
      rcases eq_nil_or_concat d.dynamic with empty | ⟨entries, last, shape⟩
      · rw [empty] at size
        rw [size] at guard
        exact absurd guard (Nat.not_lt_zero _)
      · rw [concat_eq_append] at shape
        rw [shape] at size
        have heavy : target < total entrySize (entries ++ [last]) := by rw [← size]; exact guard
        rw [total_append, total_cons, total_nil] at size
        rw [shape, length_append, length_singleton] at enough
        simp only [shape, getLast?_concat, dropLast_concat]
        rw [fit_concat _ heavy]
        obtain ⟨dynamic, sizeEnd, same⟩ :=
          ih { d with dynamic := entries, size := d.size - entrySize last }
            (by simp only; omega) (by simp only; omega)
        exact ⟨dynamic, sizeEnd, same.1, same.2, same.3⟩
    · have whole : fit entrySize target d.dynamic = d.dynamic :=
        fit_eq_self _ (by omega)
      rw [if_neg guard, whole]
      exact ⟨rfl, size, rfl, rfl, rfl⟩

theorem evictTo_spec (size : d.size = total entrySize d.dynamic) (target : Nat) :
    (d.evictTo target).dynamic = fit entrySize target d.dynamic ∧
      (d.evictTo target).size = total entrySize (fit entrySize target d.dynamic) ∧
      SameSettings d (d.evictTo target) :=
  evictLoop_spec target _ d size (Nat.lt_succ_self _)

theorem insert_spec (ok : d.Sized) (entry : Field) : (d.insert entry).Sized ∧
      (d.insert entry).dynamic = fit entrySize d.maxSize (entry :: d.dynamic) ∧
      SameSettings d (d.insert entry) := by
  obtain ⟨dynamic, size, same⟩ := evictTo_spec ok.size (d.maxSize - entrySize entry)
  have light := total_fit_le entrySize (d.maxSize - entrySize entry) d.dynamic
  rw [insert]
  rw [same.maxSize]
  by_cases fits : entrySize entry ≤ d.maxSize
  · rw [if_pos fits, fit_cons_of_le _ fits, ← dynamic]
    refine ⟨⟨?_, ?_⟩, rfl, rfl, same.hardMax, same.maxListSize⟩
    · rw [total_cons, size, dynamic, Nat.add_comm]
    · simp only
      rw [size]
      omega
  · have zero : d.maxSize - entrySize entry = 0 := by omega
    rw [zero] at dynamic size light ⊢
    have empty := total_eq_zero entrySize Encoder.entrySize_pos (Nat.le_zero.mp light)
    rw [empty] at dynamic size
    rw [if_neg fits, fit_cons_of_lt _ (Nat.not_le.mp fits)]
    refine ⟨⟨by rw [size, dynamic], by rw [size]; exact Nat.zero_le _⟩, dynamic, ?_⟩
    rw [zero] at same
    exact same

theorem setMaxSize_spec (ok : d.Sized) {newMax : Nat} (legal : newMax ≤ d.hardMax) :
    ∃ after, d.setMaxSize newMax = .ok after ∧ after.Sized ∧
      after.dynamic = fit entrySize newMax d.dynamic ∧ after.maxSize = newMax ∧
      after.hardMax = d.hardMax ∧ after.maxListSize = d.maxListSize := by
  obtain ⟨dynamic, size, same⟩ :=
    @evictTo_spec { d with maxSize := newMax } ok.size newMax
  refine ⟨_, by rw [setMaxSize, if_neg (by omega)], ⟨by rw [size, dynamic], ?_⟩, dynamic,
    same.maxSize, same.hardMax, same.maxListSize⟩
  rw [size, same.maxSize]
  exact total_fit_le ..

end Decoder

/-! ## Instructions -/

/-- The name of a literal: a table index, or the octets themselves. -/
inductive NameRef where
  | indexed (i : Nat)
  | literal (name : Octets)
  deriving DecidableEq

/-- One representation of a header block. -/
inductive Instruction where
  | sizeUpdate (newMax : Nat)
  | indexed (i : Nat)
  | incremental (name : NameRef) (value : Octets)
  | plain (name : NameRef) (value : Octets)
  deriving DecidableEq

/-- Lengths and indices that a 64-bit machine can hold. -/
def NameRef.Fits : NameRef → Prop
  | .indexed i => 0 < i ∧ i < 2 ^ 63
  | .literal name => name.length < 2 ^ 63

def Instruction.Fits : Instruction → Prop
  | .sizeUpdate newMax => newMax < 2 ^ 63
  | .indexed i => i < 2 ^ 63
  | .incremental name value => name.Fits ∧ value.length < 2 ^ 63
  | .plain name value => name.Fits ∧ value.length < 2 ^ 63

def NameRef.octets (prefixBits : Nat) (flag : UInt8) : NameRef → Octets
  | .indexed i => Integer.encode i prefixBits flag
  | .literal name => flag :: encodeStringLiteral name

/-- The wire form of a representation. -/
def Instruction.octets : Instruction → Octets
  | .sizeUpdate newMax => Integer.encode newMax 5 0x20
  | .indexed i => Integer.encode i 7 0x80
  | .incremental name value => name.octets 6 0x40 ++ encodeStringLiteral value
  | .plain name value => name.octets 4 0x00 ++ encodeStringLiteral value

namespace Decoder

variable {buf : Octets}

def resolve (d : Decoder) : NameRef → Except Error Octets
  | .literal name => .ok name
  | .indexed i =>
    match d.entryRef i with
    | some entry => .ok entry.1
    | none => .error .badIndex

/-- The effect of a representation: the decoder and the field to emit. -/
def execute (d : Decoder) (seenField : Bool) : Instruction → Except Error (Decoder × Option Field)
  | .indexed i =>
    match d.entryRef i with
    | some entry => .ok (d, some entry)
    | none => .error .badIndex
  | .incremental name value => do
      let name ← d.resolve name
      .ok (d.insert (name, value), some (name, value))
  | .sizeUpdate newMax =>
    if seenField then .error .invalidSizeUpdate
    else do
      let d ← d.setMaxSize newMax
      .ok (d, none)
  | .plain name value => do
      let name ← d.resolve name
      .ok (d, some (name, value))

theorem readLiteral_octets {prefixBits : Nat} {flag : UInt8} (clear : Clear prefixBits flag)
    (wide : 0 < prefixBits) {name : NameRef} (fits : name.Fits) {value : Octets}
    (short : value.length < 2 ^ 63) (rest : Octets) :
    d.readLiteral (name.octets prefixBits flag ++ encodeStringLiteral value ++ rest) prefixBits =
      (d.resolve name).map fun name => ((name, value), rest) := by
  rw [append_assoc]
  cases name with
  | indexed i =>
    rw [readLiteral, NameRef.octets, decode_encode clear fits.2]
    simp only [if_neg (Nat.ne_of_gt fits.1), resolve]
    cases d.entryRef i with
    | none => rfl
    | some =>
      simp only [bind, Except.bind, decodeString_encode short]
      rfl
  | literal name =>
    -- A bare flag octet is the encoding of index zero.
    have zero : flag :: encodeStringLiteral name = Integer.encode 0 prefixBits flag ++
        encodeStringLiteral name := by
      have large : 2 ^ 1 ≤ 2 ^ prefixBits := Nat.pow_le_pow_right (by decide) wide
      rw [Integer.encode, Nat.one_shiftLeft, if_pos (by omega)]
      simp
    rw [readLiteral, NameRef.octets, zero, append_assoc, decode_encode clear (Nat.two_pow_pos 63)]
    simp only [if_pos, resolve, bind, Except.bind, decodeString_encode fits,
      decodeString_encode short]
    rfl

theorem flag_bits {low : Nat} : (low < 2 ^ 7 → (0x80 ||| UInt8.ofNat low) &&& 0x80 ≠ 0) ∧
    (low < 2 ^ 6 → (0x40 ||| UInt8.ofNat low) &&& 0x80 = 0 ∧
      (0x40 ||| UInt8.ofNat low) &&& 0x40 ≠ 0) ∧
    (low < 2 ^ 5 → (0x20 ||| UInt8.ofNat low) &&& 0x80 = 0 ∧
      (0x20 ||| UInt8.ofNat low) &&& 0x40 = 0 ∧ (0x20 ||| UInt8.ofNat low) &&& 0x20 ≠ 0) ∧
    (low < 2 ^ 4 → (0x00 ||| UInt8.ofNat low) &&& 0x80 = 0 ∧
      (0x00 ||| UInt8.ofNat low) &&& 0x40 = 0 ∧ (0x00 ||| UInt8.ofNat low) &&& 0x20 = 0) := by
  refine ⟨?_, ?_, ?_, ?_⟩ <;> (revert low; decide +kernel)

theorem nameOctets_head (name : NameRef) (prefixBits : Nat) (flag : UInt8) :
    ∃ low tail, low < 2 ^ prefixBits ∧
      name.octets prefixBits flag = (flag ||| UInt8.ofNat low) :: tail := by
  cases name with
  | indexed i => exact encode_head i prefixBits flag
  | literal name => exact ⟨0, encodeStringLiteral name, Nat.two_pow_pos _, by simp [NameRef.octets]⟩

theorem representation_octets (d : Decoder) (seenField : Bool) {instruction : Instruction}
    (fits : instruction.Fits) (rest : Octets) :
    d.representation seenField (instruction.octets ++ rest) =
      (d.execute seenField instruction).map fun done => (done.1, done.2, rest) := by
  cases instruction with
  | indexed i =>
    have read := @decode_encode 7 0x80 (by decide) _ fits rest
    obtain ⟨low, tail, small, head⟩ := encode_head i 7 0x80
    rw [Instruction.octets]
    rw [head, cons_append] at read ⊢
    rw [representation, if_pos (flag_bits.1 small), read, execute]
    simp only
    cases d.entryRef i <;> rfl
  | incremental name =>
    have read := @readLiteral_octets d 6 0x40 (by decide) (by decide) _ fits.1 _ fits.2 rest
    obtain ⟨low, tail, small, head⟩ := nameOctets_head name 6 0x40
    obtain ⟨indexed, incremental⟩ := flag_bits.2.1 small
    rw [Instruction.octets]
    rw [head, cons_append, cons_append] at read ⊢
    rw [representation, if_neg (not_not.mpr indexed), if_pos incremental, read, execute]
    cases d.resolve name <;> rfl
  | sizeUpdate newMax =>
    have read := @decode_encode 5 0x20 (by decide) _ fits rest
    obtain ⟨low, tail, small, head⟩ := encode_head newMax 5 0x20
    obtain ⟨indexed, incremental, update⟩ := flag_bits.2.2.1 small
    rw [Instruction.octets]
    rw [head, cons_append] at read ⊢
    rw [representation, if_neg (not_not.mpr indexed), if_neg (not_not.mpr incremental),
      if_pos update, read, execute]
    cases seenField with
    | true => rfl
    | false =>
      simp only [Bool.false_eq_true, if_false]
      cases d.setMaxSize newMax <;> rfl
  | plain name =>
    have read := @readLiteral_octets d 4 0x00 (by decide) (by decide) _ fits.1 _ fits.2 rest
    obtain ⟨_, _, small, head⟩ := nameOctets_head name 4 0x00
    obtain ⟨indexed, incremental, update⟩ := flag_bits.2.2.2 small
    rw [Instruction.octets]
    rw [head, cons_append, cons_append] at read ⊢
    rw [representation, if_neg (not_not.mpr indexed), if_neg (not_not.mpr incremental),
      if_neg (not_not.mpr update), read, execute]
    cases d.resolve name <;> rfl

/-! ## The loop ends -/

theorem readLiteral_length {prefixBits : Nat} {result : Field × Octets}
    (ok : d.readLiteral buf prefixBits = .ok result) : result.2.length < buf.length := by
  rw [readLiteral] at ok
  cases read : Integer.decode buf prefixBits with
  | none => simp [read] at ok
  | some found =>
    have shorter := decode_length read
    have named {name : Octets} {rest : Octets}
        (ok : (do let (value, rest) ← decodeString rest; .ok ((name, value), rest)) =
          Except.ok result) : result.2.length < rest.length := by
      cases string : decodeString rest with
      | error => simp [string, bind, Except.bind] at ok
      | ok =>
        rw [string] at ok
        cases ok
        exact decodeString_length string
    simp only [read] at ok
    split at ok
    · cases string : decodeString found.2 with
      | error => simp [string, bind, Except.bind] at ok
      | ok =>
        rw [string] at ok
        exact Nat.lt_trans (named ok) (Nat.lt_trans (decodeString_length string) shorter)
    · split at ok
      · exact Nat.lt_trans (named ok) shorter
      · cases ok

theorem representation_length {seenField : Bool} {result : Decoder × Option Field × Octets}
    (ok : d.representation seenField buf = .ok result) : result.2.2.length < buf.length := by
  cases buf with
  | nil => cases ok
  | cons b tail =>
    have literal {prefixBits : Nat} {finish : Field → Decoder × Option Field}
        (ok : (do
          let (entry, rest) ← d.readLiteral (b :: tail) prefixBits
          Except.ok ((finish entry).1, (finish entry).2, rest)) = Except.ok result) :
        result.2.2.length < (b :: tail).length := by
      cases read : d.readLiteral (b :: tail) prefixBits with
      | error => simp [read, bind, Except.bind] at ok
      | ok =>
        rw [read] at ok
        cases ok
        exact readLiteral_length read
    rw [representation] at ok
    split at ok
    · cases read : Integer.decode (b :: tail) 7 with
      | none => simp [read] at ok
      | some =>
        simp only [read] at ok
        split at ok
        · cases ok
        · cases ok
          exact decode_length read
    · split at ok
      · exact @literal 6 (fun entry => (d.insert entry, some entry)) ok
      · split at ok
        · split at ok
          · cases ok
          · cases read : Integer.decode (b :: tail) 5 with
            | none => simp [read] at ok
            | some found =>
              simp only [read] at ok
              cases update : d.setMaxSize found.1 with
              | error => simp [update, bind, Except.bind] at ok
              | ok =>
                rw [update] at ok
                cases ok
                exact decode_length read
        · exact @literal 4 (fun entry => (d, some entry)) ok

/-- Fuel beyond the length of the block changes nothing. -/
theorem decodeLoop_fuel {fuel : Nat} (enough : buf.length ≤ fuel) (d : Decoder) (seenField : Bool)
    (listed : Nat) (emitted : List Field) : decodeLoop fuel d seenField listed buf emitted =
      decodeLoop buf.length d seenField listed buf emitted := by
  induction fuel using Nat.strong_induction_on generalizing buf d seenField listed emitted with
  | _ fuel ih =>
    cases buf with
    | nil => rw [decodeLoop, decodeLoop]
    | cons b tail =>
      cases fuel with
      | zero => exact absurd enough (by simp)
      | succ fuel =>
        rw [length_cons] at enough ⊢
        rw [decodeLoop, decodeLoop]
        cases read : d.representation seenField (b :: tail) with
        | error => rfl
        | ok done =>
          have shorter : done.2.2.length < tail.length + 1 := representation_length read
          obtain ⟨after, field, rest⟩ := done
          simp only at shorter
          have left (seenField : Bool) (listed : Nat) (emitted : List Field) :
              decodeLoop fuel after seenField listed rest emitted =
                decodeLoop tail.length after seenField listed rest emitted := by
            rw [ih fuel (Nat.lt_succ_self _) (by omega)]
            by_cases less : tail.length < fuel + 1
            · rw [ih tail.length less (by omega)]
            · omega
          cases field with
          | none | some => exact left ..

end Decoder

end HttpJet.Hpack

namespace HttpJet.Hpack.Decoder

open Hpack.Integer Hpack.StaticTable Hpack.Literal List
open Library Library.FittingPrefix

/-- `usize::MAX`, where the count of the list saturates. -/
def unlimited : Nat := 2 ^ 64 - 1

def withLimit (d : Decoder) (limit : Nat) : Decoder := { d with maxListSize := limit }

variable (d : Decoder) (limit : Nat)

/-! ## A representation does not depend on the limit -/

theorem evictLoop_withLimit (target fuel : Nat) :
    evictLoop target fuel (d.withLimit limit) = (evictLoop target fuel d).withLimit limit := by
  induction fuel generalizing d with
  | zero => rfl
  | succ _ ih =>
    have sameSize : (d.withLimit limit).size = d.size := rfl
    have sameTable : (d.withLimit limit).dynamic = d.dynamic := rfl
    rw [evictLoop, evictLoop, sameSize, sameTable]
    split_ifs
    · cases d.dynamic.getLast? with
      | none => rfl
      | some last =>
        exact ih { d with dynamic := d.dynamic.dropLast, size := d.size - entrySize last }
    · rfl

theorem evictTo_withLimit (target : Nat) :
    (d.withLimit limit).evictTo target = (d.evictTo target).withLimit limit :=
  evictLoop_withLimit d limit target _

variable (seenField : Bool) (buf : Octets) (entry : Field)

theorem insert_withLimit : (d.withLimit limit).insert entry = (d.insert entry).withLimit limit := by
  rw [insert, insert, evictTo_withLimit]
  change (if entrySize entry ≤ (d.evictTo (d.maxSize - entrySize entry)).maxSize then _ else _) = _
  split_ifs <;> rfl

theorem setMaxSize_withLimit (newMax : Nat) :
    (d.withLimit limit).setMaxSize newMax = (d.setMaxSize newMax).map (·.withLimit limit) := by
  rw [setMaxSize, setMaxSize]
  change (if d.hardMax < newMax then _ else _) = _
  split_ifs
  · rfl
  · exact congrArg Except.ok (evictTo_withLimit { d with maxSize := newMax } limit newMax)

theorem representation_withLimit : (d.withLimit limit).representation seenField buf =
      (d.representation seenField buf).map fun done => (done.1.withLimit limit, done.2) := by
  have entryRef (i : Nat) : (d.withLimit limit).entryRef i = d.entryRef i := rfl
  have readLiteral (buf : Octets) (bits : Nat) :
      (d.withLimit limit).readLiteral buf bits = d.readLiteral buf bits := rfl
  cases buf with
  | nil => rfl
  | cons b tail =>
    simp only [representation, entryRef, readLiteral, setMaxSize_withLimit]
    split_ifs
    · cases Integer.decode (b :: tail) 7 with
      | none => rfl
      | some found =>
        dsimp only
        cases d.entryRef found.1 <;> rfl
    · cases d.readLiteral (b :: tail) 6 with
      | error => rfl
      | ok read =>
        exact congrArg (fun after => Except.ok (after, _)) (insert_withLimit d limit read.1)
    · rfl
    · cases Integer.decode (b :: tail) 5 with
      | none => rfl
      | some found =>
        dsimp only
        cases d.setMaxSize found.1 <;> rfl
    · cases d.readLiteral (b :: tail) 4 <;> rfl

theorem decodeString_ne_tooLarge : decodeString buf ≠ .error .headerListTooLarge := by
  intro failed
  rw [decodeString.eq_def] at failed
  grind

/-- The size of the list is judged at the end of the block only. -/
theorem representation_ne_tooLarge :
    d.representation seenField buf ≠ .error .headerListTooLarge := by
  intro failed
  simp only [representation.eq_def, readLiteral, setMaxSize, bind, Except.bind] at failed
  grind [decodeString_ne_tooLarge]

/-! ## What the limit leaves of a list -/

/-- What the loop has counted after some fields. -/
def counted (fields : List Field) : Nat := min (total entrySize fields) unlimited

variable (fields : List Field)

theorem counted_le : counted fields ≤ unlimited :=
  Nat.min_le_right ..

def shown (limit : Nat) (fields : List Field) : List Field :=
  if limit < unlimited then fit entrySize limit fields else fields

def Exceeds (limit : Nat) (fields : List Field) : Prop :=
  limit < unlimited ∧ limit < total entrySize fields

theorem counted_concat :
    saturatingAdd (counted fields) (entrySize entry) = counted (fields ++ [entry]) := by
  rw [saturatingAdd, counted, counted, unlimited, total_append, total_cons, total_nil]
  omega

theorem shown_concat :
    (if counted (fields ++ [entry]) ≤ limit then shown limit fields ++
      [entry] else shown limit fields) =
      shown limit (fields ++ [entry]) := by
  rw [shown, shown, counted]
  by_cases limited : limit < unlimited
  · rw [if_pos limited, if_pos limited]
    by_cases fits : total entrySize (fields ++ [entry]) ≤ limit
    · have before : total entrySize fields ≤ limit := by
        rw [total_append] at fits
        omega
      rw [if_pos (by omega), fit_eq_self _ fits, fit_eq_self _ before]
    · rw [if_neg (by omega), fit_concat _ (Nat.not_le.mp fits)]
  · rw [if_neg limited, if_neg limited, if_pos (by omega)]

/-- What a limit leaves of a block: its table, the longest part of its list within the limit,
and an error of its own when a valid block has a longer list. -/
structure Limited (limit : Nat) (whole got : Decoded) : Prop where
  decoder : got.decoder = whole.decoder.withLimit limit
  emitted : got.emitted = shown limit whole.emitted
  tooLarge : got.result = .error .headerListTooLarge ↔
    whole.result = .ok () ∧ Exceeds limit whole.emitted
  otherwise : got.result ≠ .error .headerListTooLarge → got.result = whole.result

theorem maxListSize_withLimit : (d.withLimit limit).maxListSize = limit := rfl

theorem decodeLoop_nil_limited (fuel : Nat) (seenField : Bool) (fields : List Field) :
    Limited limit (decodeLoop fuel (d.withLimit unlimited) seenField (counted fields) [] fields)
      (decodeLoop fuel (d.withLimit limit) seenField (counted fields) [] (shown limit fields)) := by
  have whole : ¬unlimited < counted fields := Nat.not_lt.mpr (counted_le fields)
  have exceeds : limit < counted fields ↔ Exceeds limit fields := by
    rw [Exceeds, counted]
    omega
  rw [decodeLoop, decodeLoop, maxListSize_withLimit, maxListSize_withLimit, if_neg whole]
  by_cases more : Exceeds limit fields
  · rw [if_pos (exceeds.mpr more)]
    exact ⟨rfl, rfl, ⟨fun _ => ⟨rfl, more⟩, fun _ => rfl⟩, absurd rfl⟩
  · rw [if_neg (mt exceeds.mp more)]
    exact ⟨rfl, rfl, ⟨by simp, fun both => absurd both.2 more⟩, fun _ => rfl⟩

theorem decodeLoop_limited (fuel : Nat) (seenField : Bool) (buf : Octets) (fields : List Field) :
    Limited limit (decodeLoop fuel (d.withLimit unlimited) seenField (counted fields) buf fields)
      (decodeLoop fuel (d.withLimit limit) seenField (counted fields) buf
        (shown limit fields)) := by
  induction fuel generalizing d seenField buf fields with
  | zero =>
    cases buf with
    | nil => exact decodeLoop_nil_limited ..
    | cons =>
      exact ⟨rfl, rfl, ⟨fun same => (by cases same), fun both => by cases both.1⟩, fun _ => rfl⟩
  | succ _ ih =>
    cases buf with
    | nil => exact decodeLoop_nil_limited ..
    | cons b tail =>
      simp only [decodeLoop, representation_withLimit]
      cases read : d.representation seenField (b :: tail) with
      | error =>
        refine ⟨rfl, rfl, ⟨fun same => ?_, fun both => by cases both.1⟩, fun _ => rfl⟩
        cases same
        exact absurd read (representation_ne_tooLarge d seenField _)
      | ok done =>
        obtain ⟨after, field, rest⟩ := done
        cases field with
        | none => exact ih after seenField rest fields
        | some entry =>
          have further := ih after true rest (fields ++ [entry])
          rw [← shown_concat] at further
          dsimp only [Except.map]
          rw [counted_concat, maxListSize_withLimit, maxListSize_withLimit, if_pos (counted_le _)]
          exact further

/-- Under every limit a block shows the longest part of its list within the limit, is refused
for it exactly when it is valid and its list is longer, and leaves the same table. -/
theorem decodeOctets_limited (d : Decoder) (buf : Octets) :
    Limited d.maxListSize ((d.withLimit unlimited).decodeOctets buf) (d.decodeOctets buf) := by
  have limited := decodeLoop_limited d d.maxListSize buf.length false buf []
  have empty : shown d.maxListSize [] = [] := by
    rw [shown, fit_nil, ite_self]
  rw [empty] at limited
  exact limited

end HttpJet.Hpack.Decoder
