import Mathlib.Data.List.Basic
import Mathlib.Data.List.TakeWhile
import Mathlib.Algebra.Order.Ring.Nat

/-!
# Variable-length integers

The first two bits give the size, one, two, four or eight octets; the others are the number, most
significant first.  `read` takes one from the front of a text.  A reader that gets the octets one at
a time holds `Held` octets of it until it is complete.
-/

namespace HttpJet.Library.VarInt

open List

/-- The size that the first octet announces. -/
def size (first : UInt8) : Nat := 2 ^ (first.toNat / 64)

def value : List UInt8 → Nat
  | [] => 0
  | first :: rest => rest.foldl (fun total octet => total * 256 + octet.toNat) (first.toNat % 64)

/-- The octets are a beginning of a number: not all of those that the first one announces. -/
def Held : List UInt8 → Prop
  | [] => True
  | first :: rest => (first :: rest).length < size first

/-- The octets are a number. -/
def Whole : List UInt8 → Prop
  | [] => False
  | first :: rest => (first :: rest).length = size first

def read : List UInt8 → Option (Nat × List UInt8)
  | [] => none
  | first :: rest =>
    if (first :: rest).length < size first then none
    else some (value ((first :: rest).take (size first)), (first :: rest).drop (size first))

theorem size_pos (first : UInt8) : 0 < size first := Nat.two_pow_pos _

variable {text : List UInt8}

theorem Whole.ne_nil (whole : Whole text) : text ≠ [] := by
  rintro rfl
  exact whole

theorem read_append (whole : Whole text) (rest : List UInt8) :
    read (text ++ rest) = some (value text, rest) := by
  cases text with
  | nil => exact whole.elim
  | cons first others =>
    have same : (first :: others).length = size first := whole
    rw [cons_append, read, if_neg, ← cons_append, ← same, take_left, drop_left]
    rw [← same, ← cons_append, length_append]
    exact Nat.not_lt.mpr (Nat.le_add_right ..)

theorem read_held (held : Held text) : read text = none := by
  cases text with
  | nil => rfl
  | cons first rest =>
    have short : (first :: rest).length < size first := held
    rw [read, if_pos short]

/-- A text begins with a number, or is a beginning of one. -/
theorem whole_or_held (text : List UInt8) :
    (∃ number rest, text = number ++ rest ∧ Whole number) ∨ Held text := by
  cases text with
  | nil => exact .inr trivial
  | cons first rest =>
    by_cases short : (first :: rest).length < size first
    · exact .inr short
    · refine .inl ⟨(first :: rest).take (size first), (first :: rest).drop (size first),
        (take_append_drop ..).symm, ?_⟩
      obtain ⟨others, same⟩ : ∃ others, (first :: rest).take (size first) = first :: others := by
        obtain ⟨n, sized⟩ :=
          Nat.exists_eq_add_one_of_ne_zero (Nat.pos_iff_ne_zero.mp (size_pos first))
        rw [sized]
        exact ⟨_, rfl⟩
      have filled : ((first :: rest).take (size first)).length = size first := by
        rw [length_take, Nat.min_eq_left (Nat.not_lt.mp short)]
      rw [same] at filled ⊢
      exact filled

/-- Octets before the last of a number are held. -/
theorem Whole.held {front : List UInt8} {octet : UInt8} {back : List UInt8}
    (whole : Whole (front ++ octet :: back)) : Held front := by
  cases front with
  | nil => trivial
  | cons first rest =>
    have same : (first :: rest ++ octet :: back).length = size first := whole
    have more : 0 < (octet :: back).length := Nat.succ_pos _
    rw [length_append] at same
    show (first :: rest).length < size first
    omega

theorem Held.of_append {front back : List UInt8} (held : Held (front ++ back)) : Held front := by
  cases front with
  | nil => trivial
  | cons first rest =>
    have short : (first :: rest ++ back).length < size first := held
    rw [length_append] at short
    exact Nat.lt_of_le_of_lt (Nat.le_add_right ..) short

end HttpJet.Library.VarInt
