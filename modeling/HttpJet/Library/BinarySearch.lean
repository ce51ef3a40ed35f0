import Mathlib.Data.List.Sort

/-!
# Binary search in a slice sorted by a key

The loop halves a window `[base, base + size)`; the element at the final `base` is compared once
more.  On a sorted slice the search succeeds whenever some element has the wanted key.
-/

namespace HttpJet.Library.BinarySearch

variable {α β : Type} [LinearOrder α]

/-- `while size > 1`: halve the window.  The fuel is the initial size. -/
def searchLoop (list : List β) (key : β → α) (target : α) : Nat → Nat → Nat → Nat
  | 0, base, _ => base
  | fuel + 1, base, size =>
    if 1 < size then
      let half := size / 2
      let mid := base + half
      let base :=
        match list[mid]? with
        | some element => if target < key element then base else mid
        | none => base
      searchLoop list key target fuel base (size - half)
    else base

/-- The index of an element whose key is `target`. -/
def binarySearchByKey (list : List β) (key : β → α) (target : α) : Option Nat :=
  let base := searchLoop list key target list.length 0 list.length
  match list[base]? with
  | some element => if key element = target then some base else none
  | none => none

theorem binarySearchByKey_sound {list : List β} {key : β → α} {target : α} {index : Nat}
    (found : binarySearchByKey list key target = some index) :
    ∃ element, list[index]? = some element ∧ key element = target := by
  unfold binarySearchByKey at found
  generalize searchLoop list key target list.length 0 list.length = base at found
  cases here : list[base]? with
  | none => simp [here] at found
  | some element =>
    simp only [here, Option.ite_none_right_eq_some, Option.some.injEq] at found
    obtain ⟨same, rfl⟩ := found
    exact ⟨element, here, same⟩

section Complete

variable {list : List β} {key : β → α} {target : α}

/-- The window keeps an element with the wanted key. -/
theorem searchLoop_spec (sorted : list.Pairwise fun first second => key first ≤ key second)
    (fuel base size : Nat) (enough : size ≤ fuel + 1) (inside : base + size ≤ list.length)
    (present : ∃ index element, base ≤ index ∧ index < base + size ∧
      list[index]? = some element ∧ key element = target) :
    ∃ element, list[searchLoop list key target fuel base size]? = some element ∧
      key element = target := by
  induction fuel generalizing base size with
  | zero =>
    obtain ⟨index, element, low, high, here, same⟩ := present
    have only : index = base := by omega
    exact ⟨element, by rw [searchLoop, ← only]; exact here, same⟩
  | succ _ ih =>
    by_cases wide : 1 < size
    · obtain ⟨index, element, low, high, here, same⟩ := present
      have midLt : base + size / 2 < list.length := by omega
      rw [searchLoop, if_pos wide]
      simp only [List.getElem?_eq_getElem midLt]
      obtain ⟨indexLt, rfl⟩ := List.getElem?_eq_some_iff.mp here
      have ordered := List.pairwise_iff_getElem.mp sorted
      split_ifs with above
      · refine ih base (size - size / 2) (by omega) (by omega)
          ⟨index, list[index], low, ?_, here, same⟩
        by_contra far
        have upper : base + size / 2 ≤ index := by omega
        rcases Nat.lt_or_eq_of_le upper with less | equal
        · exact absurd (same ▸ ordered _ _ midLt indexLt less) (not_le.mpr above)
        · simp only [equal, same, lt_self_iff_false] at above
      · refine ih (base + size / 2) (size - size / 2) (by omega) (by omega) ?_
        by_cases upper : base + size / 2 ≤ index
        · exact ⟨index, list[index], upper, by omega, here, same⟩
        · refine ⟨base + size / 2, list[base + size / 2], Nat.le_refl _, by omega,
            List.getElem?_eq_getElem midLt, le_antisymm (not_lt.mp above) ?_⟩
          rw [← same]
          exact ordered _ _ indexLt midLt (Nat.not_le.mp upper)
    · obtain ⟨index, element, _, _, here, same⟩ := present
      have only : index = base := by omega
      exact ⟨element, by rw [searchLoop, if_neg wide, ← only]; exact here, same⟩

/-- A sorted slice that holds the key is searched successfully. -/
theorem binarySearchByKey_complete
      (sorted : list.Pairwise fun first second => key first ≤ key second)
    {element : β} (member : element ∈ list) (same : key element = target) :
    ∃ index, binarySearchByKey list key target = some index := by
  obtain ⟨index, here⟩ := List.mem_iff_getElem?.mp member
  obtain ⟨_, _⟩ := List.getElem?_eq_some_iff.mp here
  obtain ⟨_, found, hitKey⟩ := searchLoop_spec sorted list.length 0
    list.length (Nat.le_succ _) (Nat.le_of_eq (Nat.zero_add _))
    ⟨index, element, Nat.zero_le _, by omega, here, same⟩
  exact ⟨searchLoop list key target list.length 0 list.length, by
    unfold binarySearchByKey
    simp only [found, hitKey, if_true]⟩

end Complete

end HttpJet.Library.BinarySearch
