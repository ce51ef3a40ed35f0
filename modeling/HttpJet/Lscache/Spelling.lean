import HttpJet.Acl.Access
import HttpJet.Paths.RequestPath

/-!
# The spelling of a cached URL

Entries are keyed by the decoded path and the normalized host, but a backend renders the raw ones. 
So only one spelling of each may read or fill an entry.
-/

namespace HttpJet.Lscache

open Library H2 Paths
open Hpack.Integer (Octets)
open Hpack.StaticTable (ascii)

def isUnreservedUriByte (b : UInt8) : Bool := isAlphanumeric b || (ascii "-._~").contains b

def isCanonicalPathLiteral (b : UInt8) : Bool :=
  isUnreservedUriByte b || (ascii "/!$&'()*+,;=:@").contains b

/-- The octet an escape in front of the text stands for. -/
def escapedByteAt : Octets → Option UInt8
  | 37 :: hi :: lo :: _ => do
      let high ← hexVal hi
      let low ← hexVal lo
      pure (high <<< 4 ||| low)
  | _ => none

def rawPathIsCacheCanonical (raw : Octets) : Octets → Bool
  | [] => raw.isEmpty
  | b :: normalized =>
    match raw with
    | [] => false
    | r :: rest =>
      if isCanonicalPathLiteral b && r == b then rawPathIsCacheCanonical rest normalized
      else if !isCanonicalPathLiteral b && escapedByteAt raw == some b then
        rawPathIsCacheCanonical (raw.drop 3) normalized
      else false

/-- The `Host` of a request, or else the authority of its target. -/
structure HostSource where
  host : Option Octets
  authority : Option Octets

def HostSource.raw (source : HostSource) : Option Octets := source.host.or source.authority

def defaultPort (isTls : Bool) : Octets := if isTls then ascii ":443" else ascii ":80"

def rawHostIsCacheCanonical (source : HostSource) (isTls : Bool) : Bool :=
  source.host.all (fun line => line.all Acl.isVisible) && source.raw.all fun raw =>
    let canonical := hostWithoutPort raw
    canonical.isPrefixOf raw &&
      (raw.drop canonical.length == [] || raw.drop canonical.length == defaultPort isTls)

/-- The text with the digits of its escapes in upper case. -/
def upperEscapes : Octets → Octets
  | 37 :: hi :: lo :: rest =>
    match hexVal hi, hexVal lo with
    | some high, some low => 37 :: upperHexDigit high :: upperHexDigit low :: upperEscapes rest
    | _, _ => 37 :: upperEscapes (hi :: lo :: rest)
  | b :: rest => b :: upperEscapes rest
  | [] => []

theorem isCanonicalPathLiteral_eq (b : UInt8) : isCanonicalPathLiteral b = isPlain b := by
  revert b
  exact forall_octet (by decide +kernel)

/-- An octet is escaped by its two digits. -/
theorem encodeOctet_escape {hi lo high low : UInt8} (isHigh : hexVal hi = some high)
    (isLow : hexVal lo = some low) (other : isPlain (high <<< 4 ||| low) = false) :
    encodeOctet (high <<< 4 ||| low) = [37, upperHexDigit high, upperHexDigit low] := by
  have digit : ∀ b, ∀ v ∈ hexVal b, ∃ n : Fin 16, v = UInt8.ofNat n :=
    forall_octet (by decide +kernel)
  have nibbles : ∀ h l : Fin 16, (UInt8.ofNat h <<< 4 ||| UInt8.ofNat l) >>> 4 = UInt8.ofNat h ∧
      (UInt8.ofNat h <<< 4 ||| UInt8.ofNat l) &&& 0xf = UInt8.ofNat l := by decide +kernel
  obtain ⟨h, rfl⟩ := digit hi high isHigh
  obtain ⟨l, rfl⟩ := digit lo low isLow
  rw [encodeOctet, if_neg (by simp [other]), (nibbles h l).1, (nibbles h l).2]

theorem spelling_of_accepted {raw normalized : Octets}
    (accepted : rawPathIsCacheCanonical raw normalized = true) :
    upperEscapes raw = percentEncodePath normalized ∧ percentDecode raw = some normalized := by
  induction normalized generalizing raw with
  | nil =>
    rw [List.isEmpty_iff.mp accepted]
    exact ⟨rfl, rfl⟩
  | cons b normalized ih =>
    cases raw with
    | nil => cases accepted
    | cons r rest =>
      rw [rawPathIsCacheCanonical] at accepted
      simp only [isCanonicalPathLiteral_eq, Bool.and_eq_true, beq_iff_eq,
        Bool.not_eq_true'] at accepted
      rw [percentEncodePath, List.flatMap_cons]
      split_ifs at accepted with literal escape
      · obtain ⟨plain, rfl⟩ := literal
        have other : r ≠ 37 := fun same => absurd (same ▸ plain) (by decide)
        obtain ⟨spelled, decoded⟩ := ih accepted
        refine ⟨?_, by rw [percentDecode_cons_of_ne other, decoded, Option.map_some]⟩
        rw [upperEscapes, spelled, encodeOctet, if_pos plain]
        · rfl
        · simp [other]
      · obtain ⟨plain, value⟩ := escape
        unfold escapedByteAt at value
        split at value
        · rename_i hi lo after same
          cases same
          obtain ⟨high, isHigh, value⟩ := Option.bind_eq_some_iff.mp value
          obtain ⟨low, isLow, value⟩ := Option.bind_eq_some_iff.mp value
          obtain rfl := Option.some.inj value
          have later : upperEscapes after = _ ∧ percentDecode after = _ := ih accepted
          simp [upperEscapes, percentDecode, isHigh, isLow,
            encodeOctet_escape isHigh isLow plain, later,
            percentEncodePath]
        · contradiction

theorem accepted_of_encode (normalized : Octets) :
    rawPathIsCacheCanonical (percentEncodePath normalized) normalized = true := by
  induction normalized with
  | nil => rfl
  | cons b normalized ih =>
    have escapes : ∀ b : UInt8,
        escapedByteAt [37, upperHexDigit (b >>> 4), upperHexDigit (b &&& 0xf)] = some b :=
      forall_octet (by decide +kernel)
    have escape (rest : Octets) :
        escapedByteAt
          (37 :: upperHexDigit (b >>> 4) :: upperHexDigit (b &&& 0xf) :: rest) = some b :=
      escapes b
    rw [percentEncodePath] at ih ⊢
    rw [List.flatMap_cons, encodeOctet]
    split_ifs with plain <;>
      simpa [rawPathIsCacheCanonical, isCanonicalPathLiteral_eq, plain, escape] using ih

theorem host_of_accepted {source : HostSource} {isTls : Bool} {raw : Octets}
    (accepted : rawHostIsCacheCanonical source isTls = true) (given : source.raw = some raw) :
    raw = hostWithoutPort raw ∨ raw = hostWithoutPort raw ++ defaultPort isTls := by
  simp only [rawHostIsCacheCanonical, given, Option.all_some, Bool.and_eq_true, Bool.or_eq_true,
    beq_iff_eq, List.isPrefixOf_iff_prefix, List.prefix_iff_eq_append] at accepted
  obtain ⟨-, whole, ending⟩ := accepted
  obtain none | port := ending
  · rw [none, List.append_nil] at whole
    exact .inl whole.symm
  · rw [port] at whole
    exact .inr whole.symm

/-- One spelling of a URL reads and fills a cache entry. -/
theorem one_spelling :
    (∀ raw normalized, rawPathIsCacheCanonical raw normalized = true →
      percentDecode raw = some normalized) ∧
    (∀ raw raw' normalized, rawPathIsCacheCanonical raw normalized = true →
      rawPathIsCacheCanonical raw' normalized = true → upperEscapes raw = upperEscapes raw') ∧
    (∀ normalized, 0 ∉ normalized →
      rawPathIsCacheCanonical (percentEncodePath normalized) normalized = true) ∧
    ∀ isTls source source' raw raw', rawHostIsCacheCanonical source isTls = true →
      rawHostIsCacheCanonical source' isTls = true →
      source.raw = some raw → source'.raw = some raw' → hostWithoutPort raw = hostWithoutPort raw' →
      ∃ host, (raw = host ∨ raw = host ++ defaultPort isTls) ∧
        (raw' = host ∨ raw' = host ++ defaultPort isTls) := by
  refine ⟨fun _ _ accepted => (spelling_of_accepted accepted).2, ?_,
    fun normalized _ => accepted_of_encode normalized, ?_⟩
  · intro raw raw' normalized accepted accepted'
    rw [(spelling_of_accepted accepted).1, (spelling_of_accepted accepted').1]
  · intro isTls source source' raw raw' accepted accepted' given given' same
    refine ⟨hostWithoutPort raw, host_of_accepted accepted given, ?_⟩
    rw [same]
    exact host_of_accepted accepted' given'

end HttpJet.Lscache
