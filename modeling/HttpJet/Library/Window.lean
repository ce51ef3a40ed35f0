import Mathlib.Data.List.Infix
import Mathlib.Data.List.DropRight

/-!
# Windows of a text that arrives in chunks

A property of windows that looks at a bounded number of symbols is searched for at every offset. 
When the text arrives in chunks it is enough to keep the last symbols: `occurs_append` says at which
offsets a new chunk has to be searched.  `findIter` finds the occurrences of a fixed needle.
-/

namespace HttpJet.Library

open List

variable {α : Type}

/-- The property holds of the window at some offset. -/
def Occurs (P : List α → Prop) (text : List α) : Prop := ∃ offset, P (text.drop offset)

/-- A property decided by the first `size` symbols of a window, that more symbols do
not revoke. -/
structure Windowed (size : Nat) (P : List α → Prop) : Prop where
  nil : ¬P []
  take : ∀ window, P (window.take size) ↔ P window
  append : ∀ window more, P window → P (window ++ more)

section windowed

variable {size : Nat} {P : List α → Prop}

section

variable (windowed : Windowed size P)
include windowed

theorem not_occurs_nil : ¬Occurs P [] := by
  rintro ⟨_, holds⟩
  rw [drop_nil] at holds
  exact windowed.nil holds

theorem Occurs.append {text : List α} (occurs : Occurs P text) (more : List α) :
    Occurs P (text ++ more) := by
  obtain ⟨offset, holds⟩ := occurs
  refine ⟨offset, ?_⟩
  rw [drop_append]
  exact windowed.append _ _ holds

theorem Occurs.of_beginning {front text : List α} (within : front <+: text)
    (occurs : Occurs P front) : Occurs P text := by
  obtain ⟨more, rfl⟩ := within
  exact occurs.append windowed more

/-- A window that begins before the last `size - 1` symbols is complete. -/
theorem Windowed.complete {window more : List α} (long : size ≤ window.length)
    (holds : P (window ++ more)) : P window := by
  rw [← windowed.take, take_append_of_le_length long, windowed.take] at holds
  exact holds

theorem Windowed.append_take (window more : List α) :
    P (window ++ more.take size) ↔ P (window ++ more) := by
  rw [← windowed.take (window ++ more.take size), ← windowed.take (window ++ more), take_append,
    take_append, take_take, Nat.min_eq_left (Nat.sub_le ..)]

/-- In a longer text the property occurs where it did, across the seam, or in the chunk. -/
theorem occurs_append (text chunk : List α) : Occurs P (text ++ chunk) ↔ Occurs P text ∨
      (∃ offset < (text.rtake (size - 1)).length,
        P ((text.rtake (size - 1) ++ chunk.take size).drop offset)) ∨
      Occurs P chunk := by
  constructor
  · rintro ⟨offset, holds⟩
    by_cases later : text.length ≤ offset
    · rw [drop_append, drop_of_length_le later, nil_append] at holds
      exact .inr (.inr ⟨_, holds⟩)
    · rw [drop_append_of_le_length (by omega)] at holds
      by_cases whole : size ≤ (text.drop offset).length
      · exact .inl ⟨offset, windowed.complete whole holds⟩
      · rw [length_drop] at whole
        have inCarry : offset - (text.length - (size - 1)) < (text.rtake (size - 1)).length := by
          rw [rtake, length_drop]
          omega
        refine .inr (.inl ⟨offset - (text.length - (size - 1)), inCarry, ?_⟩)
        rw [drop_append_of_le_length (Nat.le_of_lt inCarry), windowed.append_take, rtake,
          drop_drop, Nat.add_sub_cancel' (by omega)]
        exact holds
  · rintro (before | ⟨offset, inCarry, holds⟩ | ⟨offset, holds⟩)
    · exact before.append windowed chunk
    · refine ⟨text.length - (size - 1) + offset, ?_⟩
      rw [drop_append_of_le_length (Nat.le_of_lt inCarry), windowed.append_take, rtake,
        drop_drop] at holds
      rw [rtake, length_drop] at inCarry
      rwa [drop_append_of_le_length (by omega)]
    · refine ⟨text.length + offset, ?_⟩
      rwa [drop_length_add_append]

end

end windowed

/-! ## The last symbols -/

theorem rtake_append_of_le_length {count : Nat} (text : List α) {chunk : List α}
    (long : count ≤ chunk.length) : (text ++ chunk).rtake count = chunk.rtake count := by
  rw [rtake, rtake, length_append, Nat.add_sub_assoc long, drop_length_add_append]

/-- The last symbols of a text need only the last symbols of its beginning. -/
theorem rtake_rtake_append (count : Nat) (text chunk : List α) :
    (text.rtake count ++ chunk).rtake count = (text ++ chunk).rtake count := by
  conv_rhs => rw [← take_append_drop (text.length - count) text, append_assoc]
  by_cases short : count ≤ (text.rtake count ++ chunk).length
  · exact (rtake_append_of_le_length _ short).symm
  · rw [rtake, length_append, length_drop] at short
    have all : text.length - count = 0 := by omega
    have whole : text.rtake count = text := by rw [rtake, all, drop_zero]
    rw [whole, all, take_zero, nil_append, drop_zero]

/-! ## Needles -/

section needles

variable [DecidableEq α]

/-- `memmem::find_iter`: the offsets of a needle, each search starting after the last
match; the next `skip` symbols belong to it. -/
def findIter (needle : List α) (skip offset : Nat) : List α → List Nat
  | [] => []
  | symbol :: rest =>
    match skip with
    | skip + 1 => findIter needle skip (offset + 1) rest
    | 0 =>
      if needle.isPrefixOf (symbol :: rest) then
        offset :: findIter needle (needle.length - 1) (offset + 1) rest
      else findIter needle 0 (offset + 1) rest

/-- A needle whose first symbol does not come again has no overlapping matches: all of
them are found. -/
theorem mem_findIter {first : α} {others : List α} (fresh : first ∉ others)
    {skip offset place : Nat}
    {text : List α} (quiet : ∀ i < skip, text[i]? ≠ some first)
    (found : first :: others <+: text.drop place) :
    offset + place ∈ findIter (first :: others) skip offset text := by
  induction text generalizing skip offset place with
  | nil =>
    rw [drop_nil] at found
    exact absurd (prefix_nil.mp found) (cons_ne_nil _ _)
  | cons symbol _ ih =>
    cases skip with
    | succ skip =>
      cases place with
      | zero =>
        have same : first = symbol := (cons_prefix_cons.mp found).1
        exact absurd (congrArg some same.symm) (quiet 0 (Nat.succ_pos skip))
      | succ =>
        rw [← Nat.add_assoc, Nat.add_right_comm]
        exact ih (fun i small => quiet (i + 1) (Nat.succ_lt_succ small)) found
    | zero =>
      rw [findIter]
      split_ifs with here
      · rw [List.isPrefixOf_iff_prefix, cons_prefix_cons] at here
        cases place with
        | zero => exact mem_cons_self ..
        | succ =>
          rw [← Nat.add_assoc, Nat.add_right_comm]
          refine mem_cons_of_mem _ (ih (fun i small same => fresh ?_) found)
          obtain ⟨_, rfl⟩ := here.2
          rw [getElem?_append_left small] at same
          exact mem_of_getElem? same
      · cases place with
        | zero => exact absurd (List.isPrefixOf_iff_prefix.mpr found) here
        | succ =>
          rw [← Nat.add_assoc, Nat.add_right_comm]
          exact ih (fun i small => absurd small (Nat.not_lt_zero i)) found

end needles

end HttpJet.Library
