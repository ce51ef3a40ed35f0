import HttpJet.Library.BitString

/-!
# HPACK integers (RFC 7541 §5.1)

An integer starts in the low `prefixBits` bits of an octet; what does not fit continues in octets of
seven bits, least significant first.  The cursor of the source is the remaining buffer.
-/

namespace HttpJet.Hpack.Integer

abbrev Octets := List UInt8

/-- `while v >= 128`.  Ten passes cover every 64-bit value. -/
def continuation : Nat → Nat → Octets
  | 0, v => [UInt8.ofNat v]
  | fuel + 1, v =>
    if 128 ≤ v then ((UInt8.ofNat v &&& 0x7f) ||| 0x80) :: continuation fuel (v >>> 7)
    else [UInt8.ofNat v]

/-- Encode `value` with a `prefixBits`-bit prefix under the representation `flag`. -/
def encode (value prefixBits : Nat) (flag : UInt8) : Octets :=
  let max := (1 <<< prefixBits) - 1
  if value < max then [flag ||| UInt8.ofNat value]
  else (flag ||| UInt8.ofNat max) :: continuation 10 (value - max)

/-- `u64::checked_add`. -/
def checkedAdd (a b : Nat) : Option Nat := if a + b < 2 ^ 64 then some (a + b) else none

/-- The continuation octets, from bit position `shift` on. -/
def decodeRest : Octets → Nat → Nat → Option (Nat × Octets)
  | [], _, _ => none
  | b :: rest, value, shift =>
    if 56 < shift ∧ b &&& 0x7f ≠ 0 then none
    else
      match checkedAdd value (((b &&& 0x7f).toNat <<< shift) % 2 ^ 64) with
      | none => none
      | some value =>
        if b &&& 0x80 = 0 then some (value, rest)
        else if 56 < shift + 7 then none
        else decodeRest rest value (shift + 7)

/-- Decode an integer and return the suffix after it. -/
def decode (buf : Octets) (prefixBits : Nat) : Option (Nat × Octets) :=
  match buf with
  | [] => none
  | b :: rest =>
    let max := (1 <<< prefixBits) - 1
    let first := b.toNat &&& max
    if first < max then some (first, rest) else decodeRest rest max 0

/-! ## Decoding undoes encoding -/

theorem low_toNat (b : UInt8) : (b &&& 0x7f).toNat = b.toNat % 128 := by
  rw [UInt8.toNat_and, show (0x7f : UInt8).toNat = 2 ^ 7 - 1 from rfl,
    Nat.and_two_pow_sub_one_eq_mod]

theorem high_eq_zero_iff (b : UInt8) : b &&& 0x80 = 0 ↔ b.toNat < 128 := by
  have octets : ∀ n < 256, UInt8.ofNat n &&& 0x80 = 0 ↔ n < 128 := by decide +kernel
  simpa only [UInt8.ofNat_toNat] using octets b.toNat b.toNat_lt

theorem continued_toNat (v : Nat) : ((UInt8.ofNat v &&& 0x7f) ||| 0x80).toNat = v % 128 + 128 := by
  have small : (UInt8.ofNat v &&& 0x7f).toNat < 2 ^ 7 := by
    rw [low_toNat]
    exact Nat.mod_lt _ (by decide)
  rw [UInt8.toNat_or, show (0x80 : UInt8).toNat = 2 ^ 7 * 1 from rfl, Nat.or_comm,
    ← Nat.two_pow_add_eq_or_of_lt small, low_toNat, UInt8.toNat_ofNat']
  omega

theorem decodeRest_cons {b : UInt8} {rest : Octets} {value index : Nat} (early : index ≤ 8)
    (fits : value + b.toNat % 128 * 2 ^ (7 * index) < 2 ^ 64) :
    decodeRest (b :: rest) value (7 * index) =
      if b.toNat < 128 then some (value + b.toNat % 128 * 2 ^ (7 * index), rest)
      else if 56 < 7 * index + 7 then none
      else decodeRest rest (value + b.toNat % 128 * 2 ^ (7 * index)) (7 * (index + 1)) := by
  have small : b.toNat % 128 * 2 ^ (7 * index) < 2 ^ 64 :=
    Nat.lt_of_le_of_lt (Nat.le_add_left ..) fits
  rw [decodeRest, if_neg (by omega), low_toNat, Nat.shiftLeft_eq, Nat.mod_eq_of_lt small,
    checkedAdd, if_pos fits]
  simp only [high_eq_zero_iff]
  rfl

theorem decodeRest_continuation (fuel v value index : Nat) (rest : Octets)
    (enough : v < 2 ^ (7 * fuel + 7)) (early : index ≤ 8) (bound : v < 2 ^ (63 - 7 * index))
    (fits : value + v * 2 ^ (7 * index) < 2 ^ 64) :
    decodeRest (continuation fuel v ++ rest) value (7 * index) =
      some (value + v * 2 ^ (7 * index), rest) := by
  induction fuel generalizing v value index with
  | zero =>
    have octet : (UInt8.ofNat v).toNat = v := by
      rw [UInt8.toNat_ofNat', Nat.mod_eq_of_lt (by omega)]
    rw [continuation, List.singleton_append, decodeRest_cons early, octet,
      if_pos (by omega), Nat.mod_eq_of_lt (by omega)]
    rw [octet, Nat.mod_eq_of_lt (by omega)]
    exact fits
  | succ fuel ih =>
    by_cases more : 128 ≤ v
    · -- Seven bits remain above this octet, so the position is below the last one.
      have before : index < 8 := by
        by_contra late
        have last : index = 8 := by omega
        subst last
        omega
      have shifted : v >>> 7 = v / 128 := by rw [Nat.shiftRight_eq_div_pow]
      have split : v * 2 ^ (7 * index) =
          v % 128 * 2 ^ (7 * index) + v / 128 * 2 ^ (7 * (index + 1)) := by
        rw [show 7 * (index + 1) = 7 + 7 * index by omega, Nat.pow_add, ← Nat.mul_assoc,
          ← Nat.add_mul]
        congr 1
        omega
      rw [continuation, if_pos more, List.cons_append, decodeRest_cons early, continued_toNat,
        if_neg (by omega), if_neg (by omega), Nat.add_mod_right, Nat.mod_mod, shifted,
        ih (v / 128) _ (index + 1)]
      · rw [split, Nat.add_assoc]
      · rw [show 7 * (fuel + 1) + 7 = 7 * fuel + 7 + 7 by omega, Nat.pow_add] at enough
        exact (Nat.div_lt_iff_lt_mul (by decide)).mpr enough
      · omega
      · rw [Nat.div_lt_iff_lt_mul (by decide), show (128 : Nat) = 2 ^ 7 from rfl, ← Nat.pow_add,
          show 63 - 7 * (index + 1) + 7 = 63 - 7 * index by omega]
        exact bound
      · omega
      · rw [continued_toNat, Nat.add_mod_right, Nat.mod_mod]
        omega
    · have octet : (UInt8.ofNat v).toNat = v := by
        rw [UInt8.toNat_ofNat', Nat.mod_eq_of_lt (by omega)]
      rw [continuation, if_neg more, List.singleton_append, decodeRest_cons early, octet,
        if_pos (by omega), Nat.mod_eq_of_lt (by omega)]
      rw [octet, Nat.mod_eq_of_lt (by omega)]
      exact fits

/-- The flags and prefix widths the codec uses: the flag leaves the prefix free. -/
def Clear (prefixBits : Nat) (flag : UInt8) : Prop :=
  prefixBits ≤ 7 ∧ 2 ^ prefixBits ∣ flag.toNat

instance (prefixBits : Nat) (flag : UInt8) : Decidable (Clear prefixBits flag) :=
  inferInstanceAs (Decidable (_ ∧ _))

/-- The first octet is the flag plus a value below `2 ^ prefixBits`. -/
theorem first_toNat {prefixBits low : Nat} {flag : UInt8} (clear : Clear prefixBits flag)
    (small : low < 2 ^ prefixBits) : (flag ||| UInt8.ofNat low).toNat = flag.toNat + low := by
  obtain ⟨narrow, _, same⟩ := clear
  have octet : 2 ^ prefixBits ≤ 2 ^ 7 := Nat.pow_le_pow_right (by decide) narrow
  rw [UInt8.toNat_or, UInt8.toNat_ofNat', Nat.mod_eq_of_lt (by omega), same,
    ← Nat.two_pow_add_eq_or_of_lt small]

theorem encode_head (value prefixBits : Nat) (flag : UInt8) : ∃ low rest, low < 2 ^ prefixBits ∧
      encode value prefixBits flag = (flag ||| UInt8.ofNat low) :: rest := by
  have positive := Nat.two_pow_pos prefixBits
  rw [encode, Nat.one_shiftLeft]
  split
  · next small => exact ⟨value, [], by omega, rfl⟩
  · exact ⟨2 ^ prefixBits - 1, _, by omega, rfl⟩

theorem decode_encode {prefixBits : Nat} {flag : UInt8} (clear : Clear prefixBits flag)
    {value : Nat} (bound : value < 2 ^ 63) (rest : Octets) :
    decode (encode value prefixBits flag ++ rest) prefixBits = some (value, rest) := by
  have positive := Nat.two_pow_pos prefixBits
  have narrow : 2 ^ prefixBits ≤ 2 ^ 7 := Nat.pow_le_pow_right (by decide) clear.1
  have masked {low : Nat} (small : low < 2 ^ prefixBits) :
      (flag ||| UInt8.ofNat low).toNat &&& 2 ^ prefixBits - 1 = low := by
    obtain ⟨_, _, same⟩ := id clear
    rw [first_toNat clear small, Nat.and_two_pow_sub_one_eq_mod, same, Nat.mul_add_mod,
      Nat.mod_eq_of_lt small]
  rw [encode, Nat.one_shiftLeft]
  by_cases short : value < 2 ^ prefixBits - 1
  · rw [if_pos short, List.singleton_append, decode, Nat.one_shiftLeft]
    rw [masked (by omega), if_pos short]
  · have tail :=
      decodeRest_continuation 10 (value - (2 ^ prefixBits - 1)) (2 ^ prefixBits - 1) 0 rest
      (by omega) (by omega) (by omega) (by omega)
    rw [if_neg short, List.cons_append, decode, Nat.one_shiftLeft]
    rw [masked (by omega), if_neg (by omega)]
    simp only [Nat.mul_zero, Nat.pow_zero, Nat.mul_one] at tail
    rw [tail, Nat.add_sub_cancel' (by omega)]

theorem decodeRest_length {buf : Octets} {value shift : Nat} {result : Nat × Octets}
    (ok : decodeRest buf value shift = some result) : result.2.length < buf.length := by
  induction buf generalizing value shift with
  | nil => cases ok
  | cons _ _ ih =>
    rw [decodeRest] at ok
    split at ok
    · cases ok
    · split at ok
      · cases ok
      · split at ok
        · cases ok
          exact Nat.lt_succ_self _
        · split at ok
          · cases ok
          · exact Nat.lt_succ_of_lt (ih ok)

theorem decode_length {buf : Octets} {prefixBits : Nat} {result : Nat × Octets}
    (ok : decode buf prefixBits = some result) : result.2.length < buf.length := by
  cases buf with
  | nil => cases ok
  | cons =>
    rw [decode] at ok
    split at ok
    · cases ok
      exact Nat.lt_succ_self _
    · exact Nat.lt_succ_of_lt (decodeRest_length ok)

end HttpJet.Hpack.Integer
