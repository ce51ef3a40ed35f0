import Mathlib.Data.List.MinMax
import HttpJet.Cache.Store
import HttpJet.PageCache.UrlVary

/-!
# The map of per-URL vary specs

A filter is an array of 64-bit words with one bit for each hash.  A spec records, for one base key,
the cookie names its URL varies on and the variants stored under them.  Operations return the hashes
of the page entries they invalidate, in the order of a walk of the maps; their clock readings are
arguments, and `baseCheck` is the standard hasher's fingerprint of a base key.
-/

namespace HttpJet.PageCache

open Library Cache List

/-- `path_filter_hash`: the FNV-1a hash of a virtual host and a path. -/
def pathFilterHash (vhostId : UInt32) (path : Str) : UInt64 :=
  let vhost := (List.range 4).map fun i => (vhostId >>> UInt32.ofNat (8 * i)).toUInt8
  (vhost ++ path).foldl (fun h b => (h ^^^ b.toUInt64) * 0x00000100000001b3) 0xcbf29ce484222325

/-- A filter of `2 ^ log2Bits` bits; the code clamps `log2Bits` between 6 and 40. -/
structure BitFilter where
  log2Bits : Nat
  atLeast : 6 ≤ log2Bits
  atMost : log2Bits ≤ 40
  words : List UInt64
  sized : words.length = 2 ^ (log2Bits - 6)

variable (f : BitFilter)

namespace BitFilter

variable {log2Bits : Nat} {words hashes : List UInt64} {hash : UInt64}

/-- The index of the bit of a hash. -/
def bit (log2Bits : Nat) (hash : UInt64) : UInt64 :=
  ((hash ^^^ (hash >>> 29)) * 0x9e3779b97f4a7c15) >>> UInt64.ofNat (64 - log2Bits)

/-- The word and the mask of a hash. -/
def slot (log2Bits : Nat) (hash : UInt64) : Nat × UInt64 :=
  ((bit log2Bits hash >>> 6).toNat, 1 <<< (bit log2Bits hash &&& 63))

/-- Set the bit of a hash in an array of words. -/
def markWords (log2Bits : Nat) (words : List UInt64) (hash : UInt64) : List UInt64 :=
  let place := slot log2Bits hash
  words.modify place.1 fun word => word ||| place.2

/-- Whether the bit of a hash is set in an array of words. -/
def testWords (log2Bits : Nat) (words : List UInt64) (hash : UInt64) : Bool :=
  let place := slot log2Bits hash
  (words[place.1]?).any fun word => word &&& place.2 != 0

def withLog2Bits (log2Bits : Nat) : BitFilter where
  log2Bits := max 6 (min log2Bits 40)
  atLeast := Nat.le_max_left ..
  atMost := Nat.max_le.mpr ⟨by decide, Nat.min_le_right ..⟩
  words := List.replicate (2 ^ (max 6 (min log2Bits 40) - 6)) 0
  sized := List.length_replicate

theorem length_markWords (log2Bits : Nat) (words : List UInt64) (hash : UInt64) :
    (markWords log2Bits words hash).length = words.length := length_modify ..

theorem length_foldl_markWords (log2Bits : Nat) (words : List UInt64) (hashes : List UInt64) :
    (hashes.foldl (markWords log2Bits) words).length = words.length := by
  induction hashes generalizing words with
  | nil => rfl
  | cons _ _ ih => rw [foldl_cons, ih, length_markWords]

def set (f : BitFilter) (hash : UInt64) : BitFilter :=
  { f with
    words := markWords f.log2Bits f.words hash
    sized := (length_markWords ..).trans f.sized }

def test (f : BitFilter) (hash : UInt64) : Bool := testWords f.log2Bits f.words hash

def clear (f : BitFilter) : BitFilter :=
  { f with
    words := List.replicate f.words.length 0
    sized := List.length_replicate.trans f.sized }

/-- `words_for`: the words that hold exactly `hashes`. -/
def wordsFor (f : BitFilter) (hashes : List UInt64) : List UInt64 :=
  hashes.foldl (markWords f.log2Bits) (List.replicate f.words.length 0)

/-- The words `install` stores: `words` and the bits of `extra`. -/
def installWords (f : BitFilter) (words extra : List UInt64) : List UInt64 :=
  extra.foldl (markWords f.log2Bits) words

/-- One word of the filter is stored. -/
def storeWord (f : BitFilter) (index : Nat) (word : UInt64) : BitFilter :=
  { f with
    words := f.words.set index word
    sized := (List.length_set ..).trans f.sized }

/-- The stores of `install` from `index` on. -/
def storeFrom (f : BitFilter) : Nat → List UInt64 → BitFilter
  | _, [] => f
  | index, word :: rest => storeFrom (f.storeWord index word) (index + 1) rest

def install (f : BitFilter) (words extra : List UInt64) : BitFilter :=
  f.storeFrom 0 (f.installWords words extra)

def rebuild (f : BitFilter) (hashes : List UInt64) : BitFilter := f.install (f.wordsFor hashes) []

/-! ## Bits -/

theorem bit_lt (atLeast : 6 ≤ log2Bits) (atMost : log2Bits ≤ 40) (hash : UInt64) :
    (bit log2Bits hash).toNat < 2 ^ log2Bits := by
  have shift : (UInt64.ofNat (64 - log2Bits)).toNat % 64 = 64 - log2Bits := by
    rw [UInt64.toNat_ofNat']
    omega
  have small := ((hash ^^^ (hash >>> 29)) * 0x9e3779b97f4a7c15).toNat_lt
  rw [bit, UInt64.toNat_shiftRight, shift, Nat.shiftRight_eq_div_pow,
    Nat.div_lt_iff_lt_mul (Nat.two_pow_pos _), ← pow_add]
  rwa [show log2Bits + (64 - log2Bits) = 64 by omega]

theorem mask_ne_zero (log2Bits : Nat) (hash : UInt64) : (slot log2Bits hash).2 ≠ 0 := by
  intro zero
  have value := congrArg UInt64.toNat zero
  have low : (bit log2Bits hash &&& 63).toNat % 64 < 64 := Nat.mod_lt _ (by decide)
  rw [slot, UInt64.toNat_shiftLeft] at value
  have fits : 2 ^ ((bit log2Bits hash &&& 63).toNat % 64) < 2 ^ 64 :=
    Nat.pow_lt_pow_right (by decide) low
  rw [show (1 : UInt64).toNat = 1 from rfl, Nat.one_shiftLeft, Nat.mod_eq_of_lt fits] at value
  exact absurd value (Nat.two_pow_pos _).ne'

theorem testWords_eq_true : testWords log2Bits words hash = true ↔
      ∃ word, words[(slot log2Bits hash).1]? = some word ∧ word &&& (slot log2Bits hash).2 ≠ 0 := by
  simp [testWords, Option.any_eq_true]

theorem or_and_ne_zero {word other mask : UInt64} (held : word &&& mask ≠ 0 ∨ other &&& mask ≠ 0) :
    (word ||| other) &&& mask ≠ 0 := by
  intro zero
  have value := congrArg UInt64.toNat zero
  rw [UInt64.toNat_and, UInt64.toNat_or, Nat.and_or_distrib_right, UInt64.toNat_zero,
    Nat.or_eq_zero_iff, ← UInt64.toNat_and, ← UInt64.toNat_and, ← UInt64.toNat_zero] at value
  rcases held with held | held
  · exact held (UInt64.toNat_inj.mp value.1)
  · exact held (UInt64.toNat_inj.mp value.2)

theorem testWords_markWords_self (inRange : (slot log2Bits hash).1 < words.length) :
    testWords log2Bits (markWords log2Bits words hash) hash = true := by
  refine testWords_eq_true.mpr ⟨words[(slot log2Bits hash).1] ||| (slot log2Bits hash).2, ?_, ?_⟩
  · rw [markWords, getElem?_modify, getElem?_eq_getElem inRange]
    exact congrArg some (if_pos rfl)
  · refine or_and_ne_zero (.inr ?_)
    rw [UInt64.and_self]
    exact mask_ne_zero log2Bits hash

theorem testWords_markWords (held : testWords log2Bits words hash = true) (other : UInt64) :
    testWords log2Bits (markWords log2Bits words other) hash = true := by
  obtain ⟨word, found, set⟩ := testWords_eq_true.mp held
  refine testWords_eq_true.mpr
    ⟨if (slot log2Bits other).1 = (slot log2Bits hash).1
      then word ||| (slot log2Bits other).2 else word, ?_, ?_⟩
  · rw [markWords, getElem?_modify, found]
    rfl
  · split_ifs
    · exact or_and_ne_zero (.inl set)
    · exact set

theorem testWords_foldl_of_test (held : testWords log2Bits words hash = true)
    (hashes : List UInt64) :
    testWords log2Bits (hashes.foldl (markWords log2Bits) words) hash = true := by
  induction hashes generalizing words with
  | nil => exact held
  | cons other _ ih => exact ih (testWords_markWords held other)

theorem testWords_foldl_of_mem (inRange : (slot log2Bits hash).1 < words.length)
    (member : hash ∈ hashes) :
    testWords log2Bits (hashes.foldl (markWords log2Bits) words) hash = true := by
  induction hashes generalizing words with
  | nil => cases member
  | cons _ rest ih =>
    rcases mem_cons.mp member with rfl | member
    · exact testWords_foldl_of_test (testWords_markWords_self inRange) rest
    · exact ih (by rwa [length_markWords]) member

theorem slot_inRange (hash : UInt64) : (slot f.log2Bits hash).1 < f.words.length := by
  have atLeast := f.atLeast
  have small := bit_lt atLeast f.atMost hash
  rw [show f.log2Bits = (f.log2Bits - 6) + 6 by omega, pow_add] at small
  rw [f.sized, slot, UInt64.toNat_shiftRight, Nat.shiftRight_eq_div_pow]
  refine (Nat.div_lt_iff_lt_mul (Nat.two_pow_pos _)).mpr ?_
  rwa [show f.log2Bits - 6 + 6 = f.log2Bits by omega] at small

theorem words_set (hash : UInt64) : (f.set hash).words = markWords f.log2Bits f.words hash := by
  rw [set]

theorem log2Bits_set (hash : UInt64) : (f.set hash).log2Bits = f.log2Bits := by
  rw [set]

theorem words_storeWord (index : Nat) (word : UInt64) :
    (f.storeWord index word).words = f.words.set index word := rfl

theorem test_set_self (hash : UInt64) : (f.set hash).test hash = true := by
  rw [test, words_set, log2Bits_set]
  exact testWords_markWords_self (f.slot_inRange hash)

theorem test_set {f : BitFilter} (held : f.test hash = true) (other : UInt64) :
    (f.set other).test hash = true := by
  rw [test, words_set, log2Bits_set]
  exact testWords_markWords held other

theorem log2Bits_storeFrom (index : Nat) (words : List UInt64) :
    (f.storeFrom index words).log2Bits = f.log2Bits := by
  induction words generalizing f index with
  | nil => rfl
  | cons _ _ ih => exact ih ..

theorem words_storeFrom (front words back : List UInt64) (whole : f.words = front ++ back)
    (fits : back.length = words.length) :
    (f.storeFrom front.length words).words = front ++ words := by
  induction words generalizing f front back with
  | nil =>
    rw [length_eq_zero_iff.mp fits] at whole
    exact whole
  | cons word _ ih =>
    cases back with
    | nil => cases fits
    | cons _ back =>
      have stored : (f.storeWord front.length word).words = (front ++ [word]) ++ back := by
        rw [words_storeWord, whole]
        simp
      have next := ih _ (front ++ [word]) back stored (Nat.succ.inj fits)
      rw [length_append, length_singleton] at next
      rw [storeFrom, next, append_assoc, singleton_append]

theorem test_rebuild (member : hash ∈ hashes) : (f.rebuild hashes).test hash = true := by
  have stored : (f.rebuild hashes).words = f.installWords (f.wordsFor hashes) [] := by
    refine (words_storeFrom f [] _ f.words rfl ?_).trans (nil_append _)
    rw [installWords, foldl_nil, wordsFor, length_foldl_markWords, length_replicate]
  rw [test, stored, rebuild, install, log2Bits_storeFrom]
  refine testWords_foldl_of_test (testWords_foldl_of_mem ?_ member) []
  rw [length_replicate]
  exact f.slot_inRange hash

end BitFilter

/-! ## The specs -/

def maxVariants : Nat := 64
def maxSpecs : Nat := 16384
def maxSpecBytes : Nat := 16 * 1024 * 1024
def specIdleMs : Nat := 600 * 1000
def specBytes : Nat := 160
def variantBytes : Nat := 48
def touchGranularityMs : Nat := 1000

structure Spec where
  names : List Str
  check : UInt64
  pathHash : UInt64
  /-- Variant key hash → last use. -/
  variants : HashMap UInt64 Nat
  newest : Instant
  touched : Nat
  /-- Bytes this spec is charged. -/
  charged : Nat

def namesCost (names : List Str) : Nat := (names.map fun name => name.length + 24).sum

namespace Spec

variable (spec : Spec)

def cost : Nat :=
  specBytes + namesCost spec.names + spec.variants.size * variantBytes

/-- The names of a spec are set; other names start with no variant. -/
def rename (names : List Str) : Spec :=
  if spec.names = names then spec else { spec with names := names, variants := ∅ }

/-- The variants a change of names invalidates. -/
def superseded (names : List Str) : List UInt64 :=
  if spec.names = names then [] else spec.variants.keys

def retain (resident : UInt64 → Bool) : Spec :=
  { spec with variants := HashMap.filter (fun hash _ => resident hash) spec.variants }

def note (variantHash : UInt64) (nowMs : Nat) (newest : Instant) : Spec :=
  { spec with
    variants := spec.variants.put variantHash nowMs
    newest := newest
    touched := nowMs }

/-- The least recently used variant. -/
def leastUsed (walk : Walk UInt64) : Option UInt64 :=
  (walk.arrange spec.variants.keys).argmin fun hash => (spec.variants.get hash).getD 0

/-- The hashes `retire` invalidates. -/
def retired (baseHash : UInt64) : List UInt64 := spec.variants.keys ++ [baseHash]

/-- A spec for a first variant. -/
def first (names : List Str) (check pathHash variantHash : UInt64) (nowMs : Nat)
    (newest : Instant) :
    Spec where
  names := names
  check := check
  pathHash := pathHash
  variants := HashMap.put ∅ variantHash nowMs
  newest := newest
  touched := nowMs
  charged := 0

end Spec

structure UrlVarySpecs where
  map : HashMap UInt64 Spec
  len : Nat
  bytes : Nat
  bases : BitFilter
  paths : BitFilter

inductive ScanVerdict where
  | keep
  | drop
  deriving DecidableEq

namespace UrlVarySpecs

/-- `default` -/
def new : UrlVarySpecs where
  map := ∅
  len := 0
  bytes := 0
  bases := BitFilter.withLog2Bits 16
  paths := BitFilter.withLog2Bits 16

variable (s : UrlVarySpecs)

def isEmpty : Bool := s.len == 0

def mayHave (baseHash : UInt64) : Bool := !s.isEmpty && s.bases.test baseHash

def mayVaryPath (vhostId : UInt32) (path : Str) : Bool :=
  !s.isEmpty && s.paths.test (pathFilterHash vhostId path)

def mark (baseHash : UInt64) (spec : Spec) : UrlVarySpecs :=
  { s with bases := s.bases.set baseHash, paths := s.paths.set spec.pathHash }

/-- The bytes charged after a mutation of `spec`. -/
def rechargedBytes (bytes : Nat) (spec : Spec) : Nat :=
  if spec.cost > spec.charged then bytes + (spec.cost - spec.charged)
  else bytes - (spec.charged - spec.cost)

def recharge (spec : Spec) : UrlVarySpecs × Spec :=
  ({ s with bytes := rechargedBytes s.bytes spec }, { spec with charged := spec.cost })

def uncharge (spec : Spec) : UrlVarySpecs :=
  { s with len := s.len - 1, bytes := s.bytes - spec.charged }

def chargeNew (spec : Spec) : UrlVarySpecs × Spec :=
  ({ s with len := s.len + 1, bytes := s.bytes + spec.cost }, { spec with charged := spec.cost })

def remove (baseHash : UInt64) (spec : Spec) : UrlVarySpecs :=
  { s.uncharge spec with map := s.map.del baseHash }

/-- A spec enters the map under its marks. -/
def insert (baseHash : UInt64) (spec : Spec) : UrlVarySpecs :=
  { s.mark baseHash spec with map := s.map.put baseHash spec }

section

variable (baseCheck : PageCacheKey → UInt64)

def names (s : UrlVarySpecs) (baseHash : UInt64) (base : PageCacheKey) : Option (List Str) :=
  if s.mayHave baseHash then
    ((s.map.get baseHash).filter fun spec => spec.check == baseCheck base).map Spec.names
  else none

def stale (nowMs stamp : Nat) : Bool := touchGranularityMs ≤ nowMs - stamp

variable (s : UrlVarySpecs)

/-- A served hit on `variantHash`. -/
def touch (nowMs : Nat) (baseHash variantHash : UInt64) : UrlVarySpecs :=
  if s.mayHave baseHash then
    { s with
      map := s.map.modify baseHash fun spec =>
        { spec with
          touched := if stale nowMs spec.touched then nowMs else spec.touched
          variants := spec.variants.modify variantHash fun used =>
            if stale nowMs used then nowMs else used } }
  else s

def dropSpec (base : PageCacheKey) (baseHash : UInt64) : UrlVarySpecs × List UInt64 :=
  if s.mayHave baseHash then
    match s.map.get baseHash with
    | none => (s, [])
    | some spec =>
      if spec.check = baseCheck base then (s.remove baseHash spec, spec.retired baseHash)
      else (s, [])
  else (s, [])

/-- The least recently touched spec other than `keep`. -/
def oldest (walk : Walk UInt64) (keep : UInt64) : Option UInt64 :=
  ((walk.arrange s.map.keys).filter fun hash => hash ≠ keep).argmin fun hash =>
    (s.map.get hash).elim 0 Spec.touched

/-- `evict_oldest`, or `none` when there is no spec to evict. -/
def evictOldest (walk : Walk UInt64) (keep : UInt64) : Option (UrlVarySpecs × List UInt64) :=
  (s.oldest walk keep).map fun victim =>
    match s.map.get victim with
    | none => (s, [])
    | some spec => (s.remove victim spec, spec.retired victim)

def newCost (names : List Str) : Nat := specBytes + variantBytes + namesCost names

def noRoom (cost : Nat) : Bool :=
  maxSpecs ≤ s.len || maxSpecBytes < s.bytes + cost

/-- The loop of `prepare` that makes room for a new spec; each round removes a
spec, so `fuel` is bounded by their number. -/
def makeRoom (walk : Walk UInt64) (keep : UInt64) (cost : Nat) :
    Nat → UrlVarySpecs → UrlVarySpecs × List UInt64
  | 0, s => (s, [])
  | fuel + 1, s =>
    if s.noRoom cost then
      match s.evictOldest walk keep with
      | none => (s, [])
      | some (s', invalidated) =>
        let rest := makeRoom walk keep cost fuel s'
        (rest.1, invalidated ++ rest.2)
    else (s, [])

/-- No further variant of `spec` may be added to the map. -/
def full (spec : Spec) : Bool :=
  maxVariants ≤ spec.variants.size || maxSpecBytes < s.bytes + variantBytes

/-- Room for one more variant of a spec: forget those that are not resident, then
the least recently used. -/
def makeVariantRoom (walk : Walk UInt64) (resident : UInt64 → Bool) (spec : Spec) :
    UrlVarySpecs × Spec × List UInt64 :=
  let (s, spec) := s.recharge (spec.retain resident)
  if s.full spec then
    match spec.leastUsed walk with
    | none => (s, spec, [])
    | some hash => (s, { spec with variants := spec.variants.del hash }, [hash])
  else (s, spec, [])

/-- `spec` takes a variant and returns to its slot. -/
def enter (baseHash : UInt64) (spec : Spec) (variantHash : UInt64) (nowMs : Nat)
    (newest : Instant) : UrlVarySpecs :=
  let (s, spec) := s.recharge (spec.note variantHash nowMs newest)
  s.insert baseHash spec

def admitNew (baseHash : UInt64) (spec : Spec) : UrlVarySpecs :=
  let (s, spec) := s.chargeNew spec
  s.insert baseHash spec

/-- The arguments of `prepare`, with the clock readings and the order in which it
walks the maps. -/
structure Prepare where
  base : PageCacheKey
  baseHash : UInt64
  names : List Str
  variantHash : UInt64
  resident : UInt64 → Bool
  nowMs : Nat
  now : Instant
  walk : Walk UInt64

def prepareOccupied (p : Prepare) (spec : Spec) : UrlVarySpecs × Bool × List UInt64 :=
  if spec.check = baseCheck p.base then
    let renamed := spec.rename p.names
    if !renamed.variants.contains p.variantHash && s.full renamed then
      let (s, roomy, evicted) := s.makeVariantRoom p.walk p.resident renamed
      (s.enter p.baseHash roomy p.variantHash p.nowMs p.now, true,
        spec.superseded p.names ++ evicted)
    else
      (s.enter p.baseHash renamed p.variantHash p.nowMs p.now, true, spec.superseded p.names)
  else (s, false, [])

def prepareVacant (p : Prepare) : UrlVarySpecs × Bool × List UInt64 :=
  let (s, evicted) := makeRoom p.walk p.baseHash (newCost p.names) (s.map.size + 1) s
  if s.noRoom (newCost p.names) then (s, false, evicted)
  else
    (s.admitNew p.baseHash
      (Spec.first p.names (baseCheck p.base) (pathFilterHash p.base.vhostId p.base.path)
        p.variantHash p.nowMs p.now), true, evicted)

/-- Record an admitted variant of a varying URL just before it is stored. -/
def prepare (p : Prepare) : UrlVarySpecs × Bool × List UInt64 :=
  match s.map.get p.baseHash with
  | some spec => s.prepareOccupied baseCheck p spec
  | none => s.prepareVacant baseCheck p

/-- Whether a stored entry is still the one the map routes to. -/
def confirm (base : PageCacheKey) (baseHash : UInt64) (names : List Str)
    (storedHash : UInt64) : Bool :=
  if s.mayHave baseHash then
    match (s.map.get baseHash).filter fun spec => spec.check == baseCheck base with
    | none => names.isEmpty
    | some spec => spec.names == names && spec.variants.contains storedHash
  else names.isEmpty

/-- The arguments of `register_scanned`. -/
structure Scan where
  key : PageCacheKey
  keyHash : UInt64
  storedAt : Instant
  hashOf : PageCacheKey → UInt64
  baseStoredAt : UInt64 → Option Instant
  nowMs : Nat

/-- A scanned entry that varies on nothing loses to a newer spec of its key. -/
def scanPlain (r : Scan) : UrlVarySpecs × ScanVerdict × List UInt64 :=
  if s.isEmpty then (s, .keep, [])
  else
    match s.map.get r.keyHash with
    | none => (s, .keep, [])
    | some spec =>
      if spec.check = baseCheck r.key then
        if spec.newest < r.storedAt then
          (s.remove r.keyHash spec, .keep, spec.variants.keys)
        else (s, .drop, [])
      else (s, .keep, [])

def scanOccupied (r : Scan) (base : PageCacheKey) (baseHash : UInt64)
    (names : List Str) (spec : Spec) : UrlVarySpecs × ScanVerdict × List UInt64 :=
  if spec.check = baseCheck base then
    if spec.names ≠ names ∧ r.storedAt ≤ spec.newest then (s, .drop, [])
    else
      let renamed := spec.rename names
      if !renamed.variants.contains r.keyHash && s.full renamed then
        -- The new names are already in the slot, which is not charged again.
        ({ s with map := s.map.put baseHash renamed }, .drop, spec.superseded names)
      else
        (s.enter baseHash renamed r.keyHash r.nowMs (max spec.newest r.storedAt), .keep,
          spec.superseded names)
  else (s, .drop, [])

def scanVacant (r : Scan) (base : PageCacheKey) (baseHash : UInt64)
    (names : List Str) : UrlVarySpecs × ScanVerdict × List UInt64 :=
  if (r.baseStoredAt baseHash).any fun storedAt => r.storedAt ≤ storedAt then (s, .drop, [])
  else if s.noRoom (newCost names) then (s, .drop, [])
  else
    (s.admitNew baseHash
      (Spec.first names (baseCheck base) (pathFilterHash base.vhostId base.path) r.keyHash r.nowMs
        r.storedAt), .keep, [baseHash])

/-- Fold one boot-restored entry into the map. -/
def registerScanned (r : Scan) : UrlVarySpecs × ScanVerdict × List UInt64 :=
  match UrlVary.split r.key with
  | none => s.scanPlain baseCheck r
  | some (base, names) =>
    match s.map.get (r.hashOf base) with
    | some spec => s.scanOccupied baseCheck r base (r.hashOf base) names spec
    | none => s.scanVacant baseCheck r base (r.hashOf base) names

/-- Drop every spec. -/
def clear (s : UrlVarySpecs) : UrlVarySpecs :=
  { s.map.entries.foldl (fun s entry => s.uncharge entry.2) s with
    map := ∅
    bases := s.bases.clear
    paths := s.paths.clear }

/-- Whether `prune` keeps a spec whose variants it has filtered. -/
def keeps (nowMs : Nat) (spec : Spec) : Bool :=
  spec.variants.size != 0 || nowMs - spec.touched < specIdleMs

/-- One round of the walk of `prune`, on the counters. -/
def pruneStep (nowMs : Nat) (resident : UInt64 → Bool) (s : UrlVarySpecs)
    (entry : Sigma fun _ : UInt64 => Spec) : UrlVarySpecs :=
  let spec := entry.2.retain resident
  if keeps nowMs spec then (s.recharge spec).1 else s.uncharge spec

/-- What the walk of `prune` leaves of a spec. -/
def pruned (nowMs : Nat) (resident : UInt64 → Bool) (spec : Spec) : Option Spec :=
  let spec := spec.retain resident
  if keeps nowMs spec then some { spec with charged := spec.cost } else none

/-- Forget the variants that are not resident and drop idle specs with none left. -/
def prune (nowMs : Nat) (resident : UInt64 → Bool) : UrlVarySpecs × List UInt64 :=
  if s.isEmpty then (s, [])
  else
    let walked := s.map.entries.foldl (pruneStep nowMs resident) s
    let map := HashMap.filterMap (fun _ spec => pruned nowMs resident spec) s.map
    ({ walked with
        map := map
        bases := s.bases.rebuild map.keys
        paths := s.paths.rebuild (map.entries.map fun entry => entry.2.pathHash) },
      s.map.keys.filter fun hash => !map.contains hash)

/-- A call of the page cache. -/
inductive Call where
  | prepare (p : Prepare)
  | touch (nowMs : Nat) (baseHash variantHash : UInt64)
  | confirm (base : PageCacheKey) (baseHash : UInt64) (names : List Str) (storedHash : UInt64)
  | dropSpec (base : PageCacheKey) (baseHash : UInt64)
  | registerScanned (r : Scan)
  | prune (nowMs : Nat) (resident : UInt64 → Bool)
  | clear

def step : Call → UrlVarySpecs
  | .prepare p => (s.prepare baseCheck p).1
  | .touch nowMs baseHash variantHash => s.touch nowMs baseHash variantHash
  | .confirm .. => s
  | .dropSpec base baseHash => (s.dropSpec baseCheck base baseHash).1
  | .registerScanned r => (s.registerScanned baseCheck r).1
  | .prune nowMs resident => (s.prune nowMs resident).1
  | .clear => s.clear

def run (calls : List Call) : UrlVarySpecs := calls.foldl (step baseCheck) new

end

end UrlVarySpecs

end HttpJet.PageCache
