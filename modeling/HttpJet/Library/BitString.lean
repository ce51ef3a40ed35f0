import Mathlib.Data.Nat.Bitwise
import Mathlib.Data.List.Basic
import Mathlib.Data.List.Induction

/-!
# Bit strings of machine words

A word is read as the list of its bits, most significant first.  Shifting left and filling the low
bits is concatenation, and truncation is invisible as long as the string is no longer than the
width. A bitmap holds up to 64 flags: the flag at `i` is the bit `i`.
-/

namespace HttpJet.Library.BitString

open List

variable (bits : List Bool) (width n : Nat)

/-- The low `width` bits of `n`, most significant bit first. -/
def bitsOf : Nat → Nat → List Bool
  | 0, _ => []
  | width + 1, n => n.testBit width :: bitsOf width n

@[simp]
theorem bitsOf_zero : bitsOf 0 n = [] := rfl

theorem bitsOf_succ : bitsOf (width + 1) n = n.testBit width :: bitsOf width n := rfl

@[simp]
theorem length_bitsOf : (bitsOf width n).length = width := by
  induction width with
  | zero => rfl
  | succ _ ih => simp [bitsOf, ih]

theorem bitsOf_congr {width a b : Nat}
    (agree : ∀ i < width, a.testBit i = b.testBit i) : bitsOf width a = bitsOf width b := by
  induction width with
  | zero => rfl
  | succ width ih =>
    rw [bitsOf_succ, bitsOf_succ, agree width (Nat.lt_succ_self width),
      ih (fun i small => agree i (Nat.lt_succ_of_lt small))]

/-- Truncating to a machine width at least as wide as the string changes nothing. -/
theorem bitsOf_mod {width machine : Nat} (fits : width ≤ machine) (n : Nat) :
    bitsOf width (n % 2 ^ machine) = bitsOf width n := by
  apply bitsOf_congr
  intro i small
  rw [Nat.testBit_mod_two_pow, decide_eq_true (Nat.lt_of_lt_of_le small fits), Bool.true_and]

/-- The high part of a string comes from the shifted word. -/
theorem bitsOf_add (high low n : Nat) :
    bitsOf (high + low) n = bitsOf high (n >>> low) ++ bitsOf low n := by
  induction high with
  | zero => simp
  | succ high ih =>
    rw [Nat.succ_add, bitsOf_succ, ih, bitsOf_succ, Nat.testBit_shiftRight,
      Nat.add_comm low high, cons_append]

/-- Splitting a string at `low` bits from its end. -/
theorem bitsOf_split {width low : Nat} (fits : low ≤ width) (n : Nat) :
    bitsOf width n = bitsOf (width - low) (n >>> low) ++ bitsOf low n := by
  have total := bitsOf_add (width - low) low n
  rwa [Nat.sub_add_cancel fits] at total

/-- Pushing `low` fresh bits into a word appends them to its string. -/
theorem bitsOf_shiftLeft_or (high low n fresh : Nat) (small : fresh < 2 ^ low) :
    bitsOf (high + low) (n <<< low ||| fresh) = bitsOf high n ++ bitsOf low fresh := by
  rw [bitsOf_add]
  congr 1
  · apply bitsOf_congr
    intro i _
    have above : fresh.testBit (low + i) = false :=
      Nat.testBit_lt_two_pow (Nat.lt_of_lt_of_le small (Nat.pow_le_pow_right (by decide)
        (Nat.le_add_right low i)))
    simp [Nat.testBit_shiftRight, Nat.testBit_or, Nat.testBit_shiftLeft, above]
  · apply bitsOf_congr
    intro i below
    simp [Nat.testBit_or, Nat.testBit_shiftLeft, Nat.not_le.mpr below]

/-- Pushing fresh bits into a machine word wide enough to hold the longer string. -/
theorem bitsOf_push {high low machine : Nat} (fits : high + low ≤ machine) (n fresh : Nat)
    (small : fresh < 2 ^ low) : bitsOf (high + low) ((n <<< low) % 2 ^ machine ||| fresh) =
      bitsOf high n ++ bitsOf low fresh := by
  rw [← bitsOf_shiftLeft_or high low n fresh small]
  apply bitsOf_congr
  intro i below
  simp [Nat.testBit_or, Nat.testBit_mod_two_pow, Nat.lt_of_lt_of_le below fits]

theorem bitsOf_ones : bitsOf width (2 ^ width - 1) = replicate width true := by
  have prefixOnes : ∀ low ≤ width, bitsOf low (2 ^ width - 1) = replicate low true := by
    intro low
    induction low with
    | zero => intro _; rfl
    | succ _ ih =>
      intro fits
      rw [bitsOf_succ, ih (Nat.le_of_succ_le fits), Nat.testBit_two_pow_sub_one,
        decide_eq_true (Nat.lt_of_succ_le fits), replicate_succ]
  exact prefixOnes width (Nat.le_refl width)

/-- Two words have the same string exactly when they agree modulo the width. -/
theorem bitsOf_eq_iff (a b : Nat) :
    bitsOf width a = bitsOf width b ↔ a % 2 ^ width = b % 2 ^ width := by
  constructor
  · intro same
    induction width with
    | zero => simp [Nat.mod_one]
    | succ width ih =>
      rw [bitsOf_succ, bitsOf_succ, cons.injEq] at same
      have lower := ih same.2
      apply Nat.eq_of_testBit_eq
      intro i
      rw [Nat.testBit_mod_two_pow, Nat.testBit_mod_two_pow]
      rcases Nat.lt_trichotomy i width with below | rfl | above
      · have bit := congrArg (fun n => n.testBit i) lower
        simp only [Nat.testBit_mod_two_pow, below, decide_true, Bool.true_and] at bit
        rw [bit]
      · rw [same.1]
      · simp [Nat.not_lt.mpr above]
  · intro same
    rw [← bitsOf_mod (Nat.le_refl width) a, same, bitsOf_mod (Nat.le_refl width)]

theorem bitsOf_inj {width a b : Nat} (ha : a < 2 ^ width) (hb : b < 2 ^ width) :
    bitsOf width a = bitsOf width b ↔ a = b := by
  rw [bitsOf_eq_iff, Nat.mod_eq_of_lt ha, Nat.mod_eq_of_lt hb]

theorem take_bitsOf {width count : Nat} (fits : count ≤ width) (n : Nat) :
    (bitsOf width n).take count = bitsOf count (n >>> (width - count)) := by
  have split := bitsOf_split (Nat.sub_le width count) n
  rw [Nat.sub_sub_self fits] at split
  rw [split, take_append_of_le_length (by simp), take_of_length_le (by simp)]

theorem drop_bitsOf {width count : Nat} (fits : count ≤ width) (n : Nat) :
    (bitsOf width n).drop count = bitsOf (width - count) n := by
  have split := bitsOf_split (Nat.sub_le width count) n
  rw [Nat.sub_sub_self fits] at split
  rw [split, drop_append_of_le_length (by simp), drop_of_length_le (by simp),
    nil_append]

/-- A word whose string is all ones is the all-ones word. -/
theorem bitsOf_all_iff {width n : Nat} :
    (bitsOf width n).all id = true ↔ n % 2 ^ width = 2 ^ width - 1 := by
  have ones : (bitsOf width n).all id = true ↔ bitsOf width n = replicate width true := by
    rw [eq_replicate_iff]
    simp
  rw [ones, ← bitsOf_ones, bitsOf_eq_iff,
    Nat.mod_eq_of_lt (Nat.sub_lt (Nat.two_pow_pos width) (by decide))]

/-! ## The word of a bit string -/

/-- The word whose string is `bits`. -/
def valueOf (bits : List Bool) : Nat := bits.foldl (fun n bit => 2 * n + bit.toNat) 0

@[simp]
theorem valueOf_nil : valueOf [] = 0 := rfl

theorem valueOf_snoc (bit : Bool) : valueOf (bits ++ [bit]) = 2 * valueOf bits + bit.toNat := by
  simp [valueOf]

theorem valueOf_lt : valueOf bits < 2 ^ bits.length := by
  induction bits using reverseRecOn with
  | nil => simp
  | append_singleton _ bit =>
    rw [valueOf_snoc, length_append, length_singleton, Nat.pow_succ]
    have small : bit.toNat ≤ 1 := Bool.toNat_le bit
    omega

theorem shiftLeft_one_or (bit : Bool) : n <<< 1 ||| bit.toNat = 2 * n + bit.toNat := by
  have small : bit.toNat < 2 ^ 1 := Nat.lt_succ_of_le (Bool.toNat_le bit)
  rw [Nat.shiftLeft_eq, Nat.mul_comm, ← Nat.two_pow_add_eq_or_of_lt small]

/-- Reading the word of a string gives the string back. -/
theorem bitsOf_valueOf : bitsOf bits.length (valueOf bits) = bits := by
  induction bits using reverseRecOn with
  | nil => rfl
  | append_singleton _ bit ih =>
    have small : bit.toNat < 2 ^ 1 := Nat.lt_succ_of_le (Bool.toNat_le bit)
    rw [length_append, length_singleton, valueOf_snoc, ← shiftLeft_one_or,
      bitsOf_shiftLeft_or _ _ _ _ small, ih]
    cases bit <;> rfl

/-! ## Octet strings -/

/-- The bits of one octet. -/
def octetBits (octet : UInt8) : List Bool := bitsOf 8 octet.toNat

/-- The bits of an octet string in transmission order. -/
def octetsBits (octets : List UInt8) : List Bool := octets.flatMap octetBits

@[simp]
theorem length_octetBits (octet : UInt8) : (octetBits octet).length = 8 := length_bitsOf 8 _

@[simp]
theorem octetsBits_nil : octetsBits [] = [] := rfl

@[simp]
theorem octetsBits_cons (octet : UInt8) (octets : List UInt8) :
    octetsBits (octet :: octets) = octetBits octet ++ octetsBits octets := rfl

@[simp]
theorem octetsBits_append (first second : List UInt8) :
    octetsBits (first ++ second) = octetsBits first ++ octetsBits second := by
  simp [octetsBits]

@[simp]
theorem length_octetsBits (octets : List UInt8) :
    (octetsBits octets).length = 8 * octets.length := by
  induction octets with
  | nil => rfl
  | cons _ _ ih => simp [ih]; omega

/-- Reading an octet back from a word keeps the low eight bits. -/
theorem octetBits_ofNat : octetBits (UInt8.ofNat n) = bitsOf 8 n := by
  rw [octetBits, UInt8.toNat_ofNat', bitsOf_mod (Nat.le_refl 8)]

end HttpJet.Library.BitString

namespace HttpJet.Library

/-- Sets the bit of each flag that holds, from a bit on. -/
def setBits : Nat → List Bool → BitVec 64 → BitVec 64
  | _, [], word => word
  | bit, flag :: rest, word => setBits (bit + 1) rest (if flag then word ||| 1#64 <<< bit else word)

def bitmap (flags : List Bool) : BitVec 64 := setBits 0 flags 0#64

theorem getLsbD_setBits (flags : List Bool) (bit : Nat) (word : BitVec 64) (i : Nat)
    (inside : i < 64) :
    (setBits bit flags word).getLsbD i =
      (word.getLsbD i || (decide (bit ≤ i) && (flags[i - bit]?.getD false))) := by
  induction flags generalizing bit word with
  | nil => simp [setBits]
  | cons flag _ ih =>
    rw [setBits, ih]
    rcases Nat.lt_trichotomy i bit with less | same | _
    · cases flag <;> simp [show ¬bit ≤ i by omega, show ¬bit + 1 ≤ i by omega, less, inside]
    · subst same
      cases flag <;> simp [inside, show ¬i + 1 ≤ i by omega]
    · have later : i - bit = (i - (bit + 1)) + 1 := by omega
      cases flag <;> simp [show bit ≤ i by omega, show bit + 1 ≤ i by omega, later, inside]

theorem bitmap_inj {first second : List Bool} (same : first.length = second.length)
    (fits : first.length ≤ 64)
    (equal : bitmap first = bitmap second) : first = second := by
  refine List.ext_getElem? fun i => ?_
  by_cases inside : i < first.length
  · have bits := congrArg (fun word => word.getLsbD i) equal
    rw [bitmap, bitmap, getLsbD_setBits _ _ _ _ (by omega),
      getLsbD_setBits _ _ _ _ (by omega)] at bits
    have second' : i < second.length := same ▸ inside
    simpa [inside, second'] using bits
  · rw [List.getElem?_eq_none (by omega), List.getElem?_eq_none (by omega)]

end HttpJet.Library
