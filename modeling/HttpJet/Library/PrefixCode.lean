import Mathlib.Data.List.Basic
import Mathlib.Data.List.Pairwise

/-!
# Prefix-free codes

A code is a list of codewords over bits; the symbol of a word is its position.  `scan` emits a
symbol as soon as the bits since the last one form a codeword.  For a prefix-free code this is the
only reading: a codeword in front of the input is taken, and an input that begins with none is left.
-/

namespace HttpJet.Library.PrefixCode

open List

/-- No codeword is a prefix of a codeword at another position. -/
def PrefixFree (words : List (List Bool)) : Prop :=
  words.Pairwise fun first second => ¬ first <+: second ∧ ¬ second <+: first

theorem PrefixFree.index_eq {words : List (List Bool)} (free : PrefixFree words)
    {i j : Nat} {first second : List Bool} (hi : words[i]? = some first)
    (hj : words[j]? = some second) (below : first <+: second) : i = j := by
  obtain ⟨hiLt, rfl⟩ := List.getElem?_eq_some_iff.mp hi
  obtain ⟨hjLt, rfl⟩ := List.getElem?_eq_some_iff.mp hj
  have apart := pairwise_iff_getElem.mp free
  rcases Nat.lt_trichotomy i j with less | same | more
  · exact absurd below (apart i j hiLt hjLt less).1
  · exact same
  · exact absurd below (apart j i hjLt hiLt more).2

/-! ## A decision procedure linear in the size of the code -/

/-- The words that start with `bit`, without that bit. -/
def branch (bit : Bool) (words : List (List Bool)) : List (List Bool) :=
  words.filterMap fun word =>
    match word with
    | [] => none
    | first :: rest => if first = bit then some rest else none

/-- Split on the first bit until every class holds at most one word. -/
def separated : Nat → List (List Bool) → Bool
  | _, [] => true
  | _, [_] => true
  | 0, _ :: _ :: _ => false
  | depth + 1, words@(_ :: _ :: _) =>
    words.all (fun word => !word.isEmpty) &&
      separated depth (branch false words) && separated depth (branch true words)

theorem prefixFree_of_branches {words : List (List Bool)} (nonempty : ∀ word ∈ words, word ≠ [])
    (free : ∀ bit, PrefixFree (branch bit words)) : PrefixFree words := by
  have zeros := pairwise_filterMap.mp (free false)
  have ones := pairwise_filterMap.mp (free true)
  have both := (zeros.and ones).and (pairwise_of_forall_mem_list
    (r := fun first second => first ≠ [] ∧ second ≠ [])
    (fun first hfirst second hsecond => ⟨nonempty first hfirst, nonempty second hsecond⟩))
  refine both.imp ?_
  rintro first second ⟨⟨_, _⟩, hfirst, hsecond⟩
  cases first with
  | nil => exact absurd rfl hfirst
  | cons a =>
    cases second with
    | nil => exact absurd rfl hsecond
    | cons b =>
      cases a <;> cases b <;> simp_all

theorem prefixFree_of_separated (depth : Nat) (words : List (List Bool))
    (accepted : separated depth words = true) : PrefixFree words := by
  induction depth, words using separated.induct with
  | case1 => exact List.Pairwise.nil
  | case2 => exact pairwise_singleton ..
  | case3 => simp [separated] at accepted
  | case4 _ _ _ _ zeros ones =>
    simp only [separated, Bool.and_eq_true, all_eq_true] at accepted
    obtain ⟨⟨nonempty, hzero⟩, hone⟩ := accepted
    apply prefixFree_of_branches
    · intro word member empty
      simpa [empty] using nonempty word member
    · intro bit
      cases bit
      · exact zeros hzero
      · exact ones hone

/-! ## Reading one bit at a time -/

/-- The symbols read from `bits` after the unfinished word `pending`, and the
unfinished word left at the end. -/
def scan (words : List (List Bool)) : List Bool → List Bool → List Nat × List Bool
  | pending, [] => ([], pending)
  | pending, bit :: bits =>
    match words.findIdx? (· == pending ++ [bit]) with
    | some symbol =>
      let inner := scan words [] bits
      (symbol :: inner.1, inner.2)
    | none => scan words (pending ++ [bit]) bits

section Reading

variable {words : List (List Bool)}

theorem findIdx?_eq_none_of_not_mem {word : List Bool} (absent : word ∉ words) :
    words.findIdx? (· == word) = none := by
  rw [findIdx?_eq_none_iff]
  intro other member
  rw [beq_eq_false_iff_ne]
  rintro rfl
  exact absent member

theorem findIdx?_word (free : PrefixFree words) {symbol : Nat} {word : List Bool}
    (here : words[symbol]? = some word) : words.findIdx? (· == word) = some symbol := by
  have member : word ∈ words := mem_of_getElem? here
  cases found : words.findIdx? (· == word) with
  | none =>
    rw [findIdx?_eq_none_iff] at found
    simpa using found word member
  | some other =>
    obtain ⟨small, same, _⟩ := findIdx?_eq_some_iff_getElem.mp found
    have there : words[other]? = some word := by
      rw [getElem?_eq_getElem small, beq_iff_eq.mp same]
    rw [free.index_eq there here (prefix_refl word)]

/-- Bits that do not complete a codeword are only accumulated. -/
theorem scan_append_of_no_word (pending bits rest : List Bool)
    (incomplete : ∀ taken, taken <+: bits → taken ≠ [] → pending ++ taken ∉ words) :
    scan words pending (bits ++ rest) = scan words (pending ++ bits) rest := by
  induction bits generalizing pending with
  | nil => simp
  | cons bit _ ih =>
    have absent : pending ++ [bit] ∉ words :=
      incomplete [bit] (by simp) (by simp)
    rw [cons_append, scan, findIdx?_eq_none_of_not_mem absent]
    rw [ih (pending ++ [bit]), append_assoc, singleton_append]
    intro taken below nonempty
    rw [append_assoc, singleton_append]
    exact incomplete (bit :: taken) (by simpa using below) (by simp)

theorem scan_word (free : PrefixFree words) {symbol : Nat} {word : List Bool}
    (here : words[symbol]? = some word) (nonempty : word ≠ []) (rest : List Bool) :
    scan words [] (word ++ rest) = (symbol :: (scan words [] rest).1, (scan words [] rest).2) := by
  obtain ⟨front, last, rfl⟩ : ∃ front last, word = front ++ [last] :=
    ⟨word.dropLast, word.getLast nonempty, (dropLast_append_getLast nonempty).symm⟩
  rw [append_assoc, scan_append_of_no_word [] front]
  · rw [nil_append, singleton_append, scan, findIdx?_word free here]
  · intro taken below _ member
    obtain ⟨_, there⟩ := mem_iff_getElem?.mp member
    rw [nil_append] at there
    have longer : taken <+: front ++ [last] := below.trans (prefix_append front [last])
    have same := free.index_eq there here longer
    subst same
    rw [here, Option.some.injEq] at there
    have lengths := below.length_le
    rw [← there, length_append, length_singleton] at lengths
    omega

/-- An input in front of which no codeword stands stays unread. -/
theorem scan_of_no_word {bits : List Bool}
    (incomplete : ∀ word ∈ words, ¬ word <+: bits) : scan words [] bits = ([], bits) := by
  have whole : scan words [] (bits ++ []) = scan words ([] ++ bits) [] :=
    scan_append_of_no_word [] bits []
    (fun taken below _ member => incomplete taken (by simpa using member) below)
  simpa [scan] using whole

/-- Reading a concatenation of codewords gives back their symbols. -/
theorem scan_flatMap (free : PrefixFree words) (nonempty : ∀ word ∈ words, word ≠ [])
    {symbols : List Nat} (known : ∀ symbol ∈ symbols, symbol < words.length) (rest : List Bool) :
    scan words [] (symbols.flatMap (fun symbol => words.getD symbol []) ++ rest) =
      (symbols ++ (scan words [] rest).1, (scan words [] rest).2) := by
  induction symbols with
  | nil => simp
  | cons symbol _ ih =>
    have small := known symbol (by simp)
    have here : words[symbol]? = some (words.getD symbol []) := by
      simp [getElem?_eq_getElem small, getD_eq_getElem?_getD]
    rw [flatMap_cons, append_assoc, scan_word free here (nonempty _ (mem_of_getElem? here)),
      ih (fun other member => known other (by simp [member]))]
    simp

end Reading

end HttpJet.Library.PrefixCode
