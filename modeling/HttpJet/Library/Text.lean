import Mathlib.Algebra.Order.Group.Nat
import Mathlib.Data.List.Infix
import Mathlib.Data.List.Forall2

/-!
# Delimited text and hexadecimal numbers

Fields are separated by a symbol that does not occur in them: `splitOnce` cuts at the first
separator, `List.splitOn` at all of them, `List.intercalate` puts the fields together again, and
`rfind` finds the last occurrence of a marker.

`hex width n` is the text of `n` in lower-case hexadecimal digits, padded with zeros, and `fromHex`
reads digits of either case.
-/

namespace HttpJet.Library

open List

def hexDigit (n : Nat) : UInt8 := if n < 10 then UInt8.ofNat (48 + n) else UInt8.ofNat (87 + n)

def hexValue (digit : UInt8) : Option Nat :=
  if 48 ≤ digit ∧ digit ≤ 57 then some (digit.toNat - 48)
  else if 97 ≤ digit ∧ digit ≤ 102 then some (digit.toNat - 87)
  else if 65 ≤ digit ∧ digit ≤ 70 then some (digit.toNat - 55)
  else none

def hex : Nat → Nat → List UInt8
  | 0, _ => []
  | width + 1, n => hex width (n / 16) ++ [hexDigit (n % 16)]

/-- The number a run of digits continues. -/
def readHex : Nat → List UInt8 → Option Nat
  | n, [] => some n
  | n, digit :: rest =>
    match hexValue digit with
    | some value => readHex (16 * n + value) rest
    | none => none

def fromHex (text : List UInt8) : Option Nat := readHex 0 text

theorem hexValue_hexDigit {n : Nat} (small : n < 16) : hexValue (hexDigit n) = some n := by
  have all : ∀ m : Fin 16, hexValue (hexDigit m) = some m.val := by decide
  exact all ⟨n, small⟩

@[simp]
theorem readHex_append (n : Nat) (first second : List UInt8) :
    readHex n (first ++ second) = (readHex n first).bind fun m => readHex m second := by
  induction first generalizing n with
  | nil => rfl
  | cons digit _ ih =>
    rw [List.cons_append, readHex, readHex]
    cases hexValue digit with
    | none => rfl
    | some => exact ih _

theorem fromHex_hex {width n : Nat} (small : n < 16 ^ width) : fromHex (hex width n) = some n := by
  induction width generalizing n with
  | zero =>
    rw [pow_zero, Nat.lt_one_iff] at small
    rw [small]
    rfl
  | succ width ih =>
    have high : n / 16 < 16 ^ width := by
      rw [Nat.div_lt_iff_lt_mul (by decide)]
      rwa [pow_succ] at small
    have low : n % 16 < 16 := Nat.mod_lt _ (by decide)
    have front : readHex 0 (hex width (n / 16)) = some (n / 16) := ih high
    rw [fromHex, hex, readHex_append, front, Option.bind_some, readHex, hexValue_hexDigit low]
    exact congrArg some (Nat.div_add_mod n 16)

theorem hex_inj {width n m : Nat} (nSmall : n < 16 ^ width) (mSmall : m < 16 ^ width)
    (same : hex width n = hex width m) : n = m := by
  have both := fromHex_hex nSmall
  rw [same, fromHex_hex mSmall] at both
  exact (Option.some.inj both).symm

theorem mem_hex {width n : Nat} {digit : UInt8} (member : digit ∈ hex width n) :
    ∃ value, value < 16 ∧ digit = hexDigit value := by
  induction width generalizing n with
  | zero => cases member
  | succ _ ih =>
    rw [hex, List.mem_append, List.mem_singleton] at member
    rcases member with member | rfl
    · exact ih member
    · exact ⟨n % 16, Nat.mod_lt _ (by decide), rfl⟩

theorem not_mem_hex {symbol : UInt8} (foreign : ∀ value : Fin 16, symbol ≠ hexDigit value)
    (width n : Nat) : symbol ∉ hex width n := by
  intro member
  obtain ⟨value, small, equal⟩ := mem_hex member
  exact foreign ⟨value, small⟩ equal

variable {α : Type} {separator : α} {text piece : List α}

/-- The octets of a text literal of the source (all of them are ASCII). -/
def octetsOf (text : String) : List UInt8 := text.toList.map fun c => UInt8.ofNat c.toNat

def isContinuation (b : UInt8) : Bool := 0x80 ≤ b && b ≤ 0xbf

/-- The characters of a UTF-8 text. -/
def chars : List UInt8 → List (List UInt8)
  | [] => []
  | b :: rest =>
    match chars rest with
    | [] => [[b]]
    | c :: later =>
      if (c.head?.map isContinuation).getD false then (b :: c) :: later else [b] :: c :: later

/-- The characters that Unicode counts as white space. -/
def whiteSpace : List (List UInt8) :=
  [[9], [10], [11], [12], [13], [32], [0xc2, 0x85], [0xc2, 0xa0], [0xe1, 0x9a, 0x80]] ++
    (range 11).map (fun n => [0xe2, 0x80, 0x80 + UInt8.ofNat n]) ++
    [[0xe2, 0x80, 0xa8], [0xe2, 0x80, 0xa9], [0xe2, 0x80, 0xaf], [0xe2, 0x81, 0x9f],
      [0xe3, 0x80, 0x80]]

/-- The text between white space. -/
def trimText (text : List UInt8) : List UInt8 :=
  (((chars text).dropWhile whiteSpace.contains).reverse.dropWhile
    whiteSpace.contains).reverse.flatten

/-- A property of octets is checked octet by octet. -/
theorem forall_octet {P : UInt8 → Prop} (all : ∀ n : Fin 256, P (UInt8.ofNat n))
    (b : UInt8) : P b := by
  have here := all ⟨b.toNat, b.toNat_lt⟩
  rwa [UInt8.ofNat_toNat] at here

theorem not_mem_of_mem_splitOnP {p : α → Bool} (member : piece ∈ text.splitOnP p) :
    ∀ symbol ∈ piece, p symbol = false := by
  induction text generalizing piece with
  | nil =>
    rw [splitOnP_nil, mem_singleton] at member
    rw [member]
    exact fun _ inside => nomatch inside
  | cons first rest ih =>
    rw [splitOnP_cons_eq_if_modifyHead] at member
    split_ifs at member with cut
    · rw [mem_cons] at member
      rcases member with rfl | member
      · exact fun _ inside => nomatch inside
      · exact ih member
    · cases pieces : rest.splitOnP p with
      | nil => exact absurd pieces (splitOnP_ne_nil _ _)
      | cons =>
        rw [pieces, modifyHead_cons, mem_cons] at member
        rcases member with rfl | member
        · intro symbol inside
          rcases mem_cons.mp inside with rfl | inside
          · exact Bool.not_eq_true _ ▸ cut
          · exact ih (pieces ▸ mem_cons_self) symbol inside
        · exact ih (pieces ▸ mem_cons_of_mem _ member)

theorem subset_intercalate {separator field : List α} {fields : List (List α)}
    (member : field ∈ fields) : field ⊆ separator.intercalate fields := by
  induction fields with
  | nil => cases member
  | cons first rest ih =>
    cases rest with
    | nil =>
      rw [mem_singleton] at member
      rw [member, intercalate_singleton]
      exact List.Subset.refl first
    | cons =>
      rw [intercalate_cons_cons]
      intro symbol inside
      rcases mem_cons.mp member with rfl | member
      · exact mem_append_left _ (mem_append_left _ inside)
      · exact mem_append_right _ (ih member inside)

theorem mem_of_mem_intercalate {separator : List α} {fields : List (List α)} {symbol : α}
    (inside : symbol ∈ separator.intercalate fields) :
    symbol ∈ separator ∨ ∃ field ∈ fields, symbol ∈ field := by
  induction fields with
  | nil => cases inside
  | cons first rest ih =>
    cases rest with
    | nil =>
      rw [intercalate_singleton] at inside
      exact .inr ⟨first, mem_cons_self, inside⟩
    | cons =>
      rw [intercalate_cons_cons, mem_append, mem_append] at inside
      rcases inside with (inside | inside) | inside
      · exact .inr ⟨first, mem_cons_self, inside⟩
      · exact .inl inside
      · rcases ih inside with inside | ⟨field, member, inside⟩
        · exact .inl inside
        · exact .inr ⟨field, mem_cons_of_mem _ member, inside⟩

variable [DecidableEq α]

/-- The two sides of the first separator. -/
def splitOnce (separator : α) : List α → Option (List α × List α)
  | [] => none
  | symbol :: rest =>
    if symbol = separator then some ([], rest)
    else (splitOnce separator rest).map fun sides => (symbol :: sides.1, sides.2)

theorem splitOnce_append {left : List α} (free : separator ∉ left) (right : List α) :
    splitOnce separator (left ++ separator :: right) = some (left, right) := by
  induction left with
  | nil => simp [splitOnce]
  | cons _ _ ih =>
    rw [mem_cons, not_or] at free
    rw [cons_append, splitOnce, if_neg (Ne.symm free.1), ih free.2]
    rfl

theorem splitOnce_eq_some {left right : List α}
    (found : splitOnce separator text = some (left, right)) :
    text = left ++ separator :: right ∧ separator ∉ left := by
  induction text generalizing left with
  | nil => cases found
  | cons symbol _ ih =>
    rw [splitOnce] at found
    split_ifs at found with same
    · cases found
      exact ⟨by rw [same, nil_append], not_mem_nil⟩
    · rw [Option.map_eq_some_iff] at found
      obtain ⟨⟨_, _⟩, cut, equal⟩ := found
      cases equal
      obtain ⟨whole, free⟩ := ih cut
      refine ⟨by rw [whole, cons_append], ?_⟩
      rw [mem_cons, not_or]
      exact ⟨Ne.symm same, free⟩

theorem not_mem_of_mem_splitOn (member : piece ∈ text.splitOn separator) : separator ∉ piece := by
  intro inside
  have differs := not_mem_of_mem_splitOnP member separator inside
  rw [beq_self_eq_true] at differs
  cases differs

theorem subset_of_mem_splitOn (member : piece ∈ text.splitOn separator) : piece ⊆ text := by
  intro symbol inside
  have whole : [separator].intercalate (text.splitOn separator) = text :=
    intercalate_splitOn separator
  exact whole ▸ subset_intercalate member inside

theorem mapM_eq_some_iff {β γ : Type} {read : β → Option γ} {items : List β} {results : List γ} :
    items.mapM read = some results ↔
      List.Forall₂ (fun item result => read item = some result) items results := by
  induction items generalizing results with
  | nil =>
    rw [mapM_nil, forall₂_nil_left_iff]
    exact ⟨fun same => (Option.some.inj same).symm, fun same => congrArg some same.symm⟩
  | cons _ _ ih =>
    rw [mapM_cons, forall₂_cons_left_iff]
    simp only [Option.bind_eq_bind, Option.bind_eq_some_iff, Option.pure_def, Option.some.injEq, ih]
    constructor
    · rintro ⟨first, found, others, all, rfl⟩
      exact ⟨first, others, found, all, rfl⟩
    · rintro ⟨first, others, found, all, rfl⟩
      exact ⟨first, found, others, all, rfl⟩

/-! ## The last occurrence of a marker -/

/-- The position of the last occurrence of `marker`. -/
def rfind (marker : List α) : List α → Option Nat
  | [] => if marker = [] then some 0 else none
  | symbol :: rest =>
    match rfind marker rest with
    | some position => some (position + 1)
    | none => if marker <+: symbol :: rest then some 0 else none

theorem rfind_eq_none {marker : List α} (absent : ¬marker <:+: text) :
    rfind marker text = none := by
  induction text with
  | nil =>
    rw [rfind, if_neg]
    rintro rfl
    exact absent (infix_refl [])
  | cons symbol rest ih =>
    rw [rfind, ih fun occurs => absent (occurs.trans (suffix_cons symbol rest).isInfix)]
    exact if_neg fun occurs => absent occurs.isInfix

/-- A marker whose first symbol occurs nowhere after its start is found there. -/
theorem rfind_append {symbol : α} {rest tail : List α} (free : symbol ∉ rest ++ tail)
    (front : List α) :
    rfind (symbol :: rest) (front ++ ((symbol :: rest) ++ tail)) = some front.length := by
  have absent : ¬(symbol :: rest) <:+: rest ++ tail := fun occurs =>
    free (occurs.subset mem_cons_self)
  induction front with
  | nil =>
    rw [nil_append, cons_append, rfind, rfind_eq_none absent]
    exact if_pos (prefix_append (symbol :: rest) tail)
  | cons _ _ ih =>
    rw [cons_append, rfind, ih]
    rfl

end HttpJet.Library
