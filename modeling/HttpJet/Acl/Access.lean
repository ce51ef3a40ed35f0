import HttpJet.Library.Text
import HttpJet.H2.Message

/-!
# Addresses and access rules

The address parser of the standard library, the addresses as proxies write them, and the rules that
say which addresses are trusted.

Behind a trusted proxy the client is read from the entries of `X-Forwarded-For`, the last one first.
The first rule of the sorted list that contains an address decides on it.
-/

namespace HttpJet.Acl

open Library List
open Hpack.Integer (Octets)
open Hpack.StaticTable (ascii)
open H2 (Headers eqIgnoreCase isDigit trim)

inductive IpAddr where
  | v4 (bits : BitVec 32)
  | v6 (bits : BitVec 128)
  deriving DecidableEq

/-- `to_canonical`: an IPv4-mapped address is the IPv4 address. -/
def IpAddr.toCanonical : IpAddr → IpAddr
  | .v4 bits => .v4 bits
  | .v6 bits => if bits.toNat / 2 ^ 32 = 0xffff then .v4 (bits.setWidth 32) else .v6 bits

/-! ## The parser of the standard library -/

/-- A parser leaves what it has not read; a failing one has read nothing. -/
abbrev Parse (α : Type) := Octets → Option (α × Octets)

def digitValue (radix : Nat) (b : UInt8) : Option Nat :=
  if isDigit b then some (b.toNat - 48)
  else if radix = 16 ∧ 97 ≤ b ∧ b ≤ 102 then some (b.toNat - 87)
  else if radix = 16 ∧ 65 ≤ b ∧ b ≤ 70 then some (b.toNat - 55)
  else none

def readNumber (radix maxDigits bound : Nat) (allowLeadingZero : Bool) : Parse Nat := fun text =>
  let digits := (text.takeWhile fun b => (digitValue radix b).isSome).filterMap (digitValue radix)
  let value := digits.foldl (fun value digit => value * radix + digit) 0
  if maxDigits < digits.length ∨ digits.length = 0 then none
  else if !allowLeadingZero ∧ text.head? = some 48 ∧ 1 < digits.length then none
  else if value < bound then some (value, text.drop digits.length)
  else none

def readGivenChar (char : UInt8) : Parse Unit
  | [] => none
  | b :: rest => if b = char then some ((), rest) else none

def readSeparator {α : Type} (separator : UInt8) (index : Nat) (inner : Parse α) :
    Parse α := fun text =>
  if 0 < index then (readGivenChar separator text).bind fun read => inner read.2
  else inner text

def readIpv4Groups : Nat → Parse (List Nat)
  | 0, text => some ([], text)
  | left + 1, text => do
      let (group, text) ← readSeparator 46 (4 - (left + 1)) (readNumber 10 3 256 false) text
      let (groups, text) ← readIpv4Groups left text
      pure (group :: groups, text)

/-- The number that groups of one width write. -/
def ofGroups (width : Nat) (groups : List Nat) : Nat :=
  groups.foldl (fun value group => value * 2 ^ width + group) 0

def readIpv4Addr : Parse (BitVec 32) := fun text => do
  let (groups, text) ← readIpv4Groups 4 text
  pure (BitVec.ofNat 32 (ofGroups 8 groups), text)

/-- The groups read, and whether the last two were an embedded IPv4 address. -/
def readGroups (limit : Nat) : Nat → Octets → List Nat × Bool × Octets
  | 0, text => ([], false, text)
  | left + 1, text =>
    let index := limit - (left + 1)
    match if index < limit - 1 then readSeparator 58 index readIpv4Addr text else none with
    | some (v4, text) => ([v4.toNat / 2 ^ 16, v4.toNat % 2 ^ 16], true, text)
    | none =>
      match readSeparator 58 index (readNumber 16 4 (2 ^ 16) true) text with
      | some (group, text) =>
        let (groups, embedded, text) := readGroups limit left text
        (group :: groups, embedded, text)
      | none => ([], false, text)

def readIpv6Addr : Parse (BitVec 128) := fun text =>
  let (head, headIpv4, text) := readGroups 8 8 text
  if head.length = 8 then some (BitVec.ofNat 128 (ofGroups 16 head), text)
  else if headIpv4 then none
  else do
    let (_, text) ← readGivenChar 58 text
    let (_, text) ← readGivenChar 58 text
    let limit := 8 - (head.length + 1)
    let (tail, _, text) := readGroups limit limit text
    let groups := head ++ List.replicate (8 - head.length - tail.length) 0 ++ tail
    pure (BitVec.ofNat 128 (ofGroups 16 groups), text)

/-- `parse_with`: nothing may be left. -/
def parseWith {α : Type} (inner : Parse α) (text : Octets) : Option α :=
  match inner text with
  | some (value, []) => some value
  | _ => none

def parseIpv4 (text : Octets) : Option IpAddr :=
  if 15 < text.length then none else (parseWith readIpv4Addr text).map .v4

def parseIpAddr (text : Octets) : Option IpAddr :=
  parseWith (fun text =>
    match readIpv4Addr text with
    | some (bits, text) => some (.v4 bits, text)
    | none => (readIpv6Addr text).map fun read => (.v6 read.1, read.2)) text

/-! ## Addresses as proxies write them -/

/-- `is_port_suffix`: a colon and digits. -/
def isPortSuffix : Octets → Bool
  | 58 :: port => !port.isEmpty && port.all isDigit
  | _ => false

/-- What precedes the zone of an address. -/
def withoutZone (text : Octets) : Octets := text.takeWhile fun b => b != 37

/-- `parse_ip`: brackets, a port and a zone are allowed. -/
def parseIp (text : Octets) : Option IpAddr :=
  match trim text with
  | [] => none
  | 91 :: rest => do
      let (inner, after) ← splitOnce 93 rest
      if !after.isEmpty && !isPortSuffix after then none
      else parseIpAddr (withoutZone inner)
  | text =>
    match splitOnce 58 text with
    | some (host, port) =>
      if port.contains 58 then parseIpAddr (withoutZone text)
      else if isPortSuffix (58 :: port) then parseIpv4 host
      else none
    | none => parseIpAddr (withoutZone text)

/-! ## Access rules -/

/-- An IPv4 or an IPv6 network. -/
inductive IpNet where
  | v4 (bits : BitVec 32) (prefixLen : Fin 33)
  | v6 (bits : BitVec 128) (prefixLen : Fin 129)
  deriving DecidableEq

def IpNet.prefixLen : IpNet → Nat
  | .v4 _ length => length
  | .v6 _ length => length

/-- A network contains the addresses of its family that begin as it does. -/
def IpNet.contains : IpNet → IpAddr → Bool
  | .v4 net length, .v4 bits => net >>> (32 - length.1) == bits >>> (32 - length.1)
  | .v6 net length, .v6 bits => net >>> (128 - length.1) == bits >>> (128 - length.1)
  | _, _ => false

/-- The network of the octets written out before a `*` or a final period. -/
def partialIpv4 (spec : Octets) : Option IpNet := do
  let stripped (text : Octets) := if text.getLast? = some 46 then some text.dropLast else none
  let tail := spec.dropWhile (· != 42)
  let written ←
    if tail = [] then some ((stripped spec).getD spec)
    else if tail.all fun b => b == 42 || b == 46 then stripped (spec.takeWhile (· != 42))
    else none
  if written = [] then none
  else
    let octets ← (written.splitOn 46).mapM (parseWith (readNumber 10 3 256 false))
    if short : octets.length ≤ 4 then
      let bits := BitVec.ofNat 32 (ofGroups 8 (octets ++ replicate (4 - octets.length) 0))
      some (.v4 bits ⟨8 * octets.length, by omega⟩)
    else none

/-- `fold_mapped_v4`: IPv4-mapped networks are matched as IPv4 networks. -/
def foldMappedV4 : IpNet → Option IpNet
  | .v4 bits length => some (.v4 bits length)
  | .v6 bits length =>
    if bits.toNat / 2 ^ 32 = 0xffff then
      if 96 ≤ length.1 then
        let host := 128 - length.1
        some (.v4 ((bits >>> host <<< host).setWidth 32) ⟨length.1 - 96, by omega⟩)
      else none
    else some (.v6 bits length)

/-- `parse_cidr`; `parseNet` is the parser of `IpNet`. -/
def parseCidr (parseNet : Octets → Option IpNet) (spec : Octets) : Option IpNet := do
  let spec ←
    match spec with
    | 91 :: rest => do
        let (addr, tail) ← splitOnce 93 rest
        if (tail = [] ∨ tail.head? = some 47) ∧ (parseWith readIpv6Addr addr).isSome then
          some (addr ++ tail)
        else none
    | spec => some spec
  let net ←
    match parseNet spec, splitOnce 47 spec, parseIpAddr spec with
    | some net, _, _ => some net
    | none, some (addr, mask), _ =>
      match parseIpv4 addr, parseIpv4 mask with
      | some (.v4 bits), some (.v4 mask) =>
        if contiguous : (~~~mask).clz.toNat + mask.ctz.toNat = 32 then
          some (.v4 bits ⟨(~~~mask).clz.toNat, by omega⟩)
        else none
      | _, _ => none
    | none, none, some (.v4 bits) => some (.v4 bits 32)
    | none, none, some (.v6 bits) => some (.v6 bits 128)
    | none, none, none => partialIpv4 spec
  if net = .v6 0 128 then some (.v6 0 0) else foldMappedV4 net

/-- A rule for a network, or for all addresses. -/
structure Rule where
  net : Option IpNet
  allow : Bool
  trusted : Bool
  deriving DecidableEq

namespace Rule

def prefixLen (rule : Rule) : Nat :=
  match rule.net with
  | none => 0
  | some net => net.prefixLen

def Matches (rule : Rule) (ip : IpAddr) : Bool :=
  match rule.net with
  | none => true
  | some net => net.contains ip

/-- The order of the keys: longer networks first, and a denial before an equal allowance. -/
def precedes (first second : Rule) : Bool :=
  second.prefixLen < first.prefixLen ||
    (first.prefixLen == second.prefixLen && (!first.allow || second.allow))

end Rule

structure AccessControl where
  rules : List Rule
  allTrusted : Bool

namespace AccessControl

/-- The rules of a configuration, whose addresses have been read. -/
def fromSecurity (configured : List Rule) : AccessControl :=
  let rules :=
    (configured.map fun rule =>
      { rule with trusted := rule.trusted && rule.allow }).reverse.mergeSort
    Rule.precedes
  ⟨rules, rules.any (fun rule => rule.net.isNone) && rules.all Rule.trusted⟩

/-- The most specific rule for the address is a trusted one. -/
def isTrusted (acl : AccessControl) (ip : IpAddr) : Bool :=
  acl.allTrusted || ((acl.rules.find? fun rule => rule.Matches ip.toCanonical).any Rule.trusted)

end AccessControl

/-! ## The header -/

/-- The octets that `to_str` accepts. -/
def isVisible (b : UInt8) : Bool := (32 ≤ b && b < 127) || b == 9

/-- A line that can be read as a string. -/
def Readable (line : Octets) : Prop := line.all isVisible = true

instance (line : Octets) : Decidable (Readable line) := inferInstanceAs (Decidable (_ = true))

/-- The entries that a line separates by commas, without the empty ones. -/
def pieces (line : Octets) : List Octets :=
  ((line.splitOn 44).map trim).filter fun piece => !piece.isEmpty

/-- The entries of a line; one that cannot be read is one entry that does not parse. -/
def lineEntries (line : Octets) : List (Option IpAddr) :=
  if Readable line then (pieces line).map parseIp else [none]

def xffName : Octets := ascii "x-forwarded-for"

def xffEntries (headers : Headers) : List (Option IpAddr) :=
  (headers.getAll xffName).flatMap lineEntries

def firstValidIp (headers : Headers) (name : Octets) : Option IpAddr := do
  let value ← headers.get name
  if Readable value then parseIp value else none

namespace AccessControl

/-- `for entry in entries.iter().rev()`: the outer option is empty when the walk ends. -/
def walk (acl : AccessControl) : List (Option IpAddr) → Option (Option IpAddr)
  | [] => none
  | none :: _ => some none
  | some ip :: rest => if acl.isTrusted ip then walk acl rest else some (some ip)

variable (acl : AccessControl)

def rightmostUntrustedXff (headers : Headers) : Option IpAddr :=
  let entries := xffEntries headers
  match acl.walk entries.reverse with
  | some found => found
  | none => entries.head?.join

def rightmostValidXff (headers : Headers) : Option IpAddr := (xffEntries headers).getLast?.join

/-- The addresses that parse, in order. -/
def parsedXff (headers : Headers) : List IpAddr :=
  ((headers.getAll xffName).filter fun line => Readable line).flatMap fun line =>
    (line.splitOn 44).filterMap fun part => parseIp (trim part)

def leftmostUntrustedXff (headers : Headers) : Option IpAddr :=
  let parsed := parsedXff headers
  if acl.allTrusted then parsed.head?
  else
    match headers.getAll xffName, parsed with
    | [_], [only] => some only
    | _, _ => (parsed.find? fun ip => !acl.isTrusted ip).or parsed.head?

def resolveClientIp (peer : IpAddr) (headers : Headers) (useIpInProxyHeader : UInt8)
    (isTlsMtlsOk : Bool) : IpAddr :=
  let peer := peer.toCanonical
  if useIpInProxyHeader = 4 then (rightmostValidXff headers).getD peer
  else if useIpInProxyHeader = 1 then (acl.leftmostUntrustedXff headers).getD peer
  else
    let honor := useIpInProxyHeader != 0 && (acl.isTrusted peer && isTlsMtlsOk)
    if !honor then peer
    else
      match firstValidIp headers (ascii "cf-connecting-ip") with
      | some ip => ip
      | none => (acl.rightmostUntrustedXff headers).getD peer

end AccessControl

/-! ## Lines put together -/

theorem readable_append {first second : Octets} :
    Readable (first ++ 44 :: second) ↔ Readable first ∧ Readable second := by
  have comma : isVisible 44 = true := rfl
  simp [Readable, comma]

theorem lineEntries_append {first : Octets} (second : Octets) (readable : Readable first) :
    ∃ front, lineEntries (first ++ 44 :: second) = front ++ lineEntries second := by
  by_cases both : Readable second
  · refine ⟨(pieces first).map parseIp, ?_⟩
    rw [lineEntries, if_pos (readable_append.mpr ⟨readable, both⟩), lineEntries,
      if_pos both, pieces,
      splitOn_append_cons_self, map_append, filter_append, map_append]
    rfl
  · refine ⟨[], ?_⟩
    rw [lineEntries, if_neg fun whole => both (readable_append.mp whole).2, lineEntries,
      if_neg both,
      nil_append]

/-- The entries of a list of texts without commas. -/
def entriesOf (texts : List Octets) : List (Option IpAddr) :=
  ((texts.map trim).filter fun piece => !piece.isEmpty).map parseIp

theorem entriesOf_append (first second : List Octets) :
    entriesOf (first ++ second) = entriesOf first ++ entriesOf second := by
  simp [entriesOf]

theorem readable_intercalate {texts : List Octets} (readable : ∀ text ∈ texts, Readable text) :
    Readable ([44].intercalate texts) := by
  rw [Readable, all_eq_true]
  intro b inside
  rcases mem_of_mem_intercalate inside with comma | ⟨text, listed, within⟩
  · rw [mem_singleton.mp comma]
    rfl
  · exact all_eq_true.mp (readable text listed) b within

theorem lineEntries_intercalate {texts : List Octets} (some : texts ≠ [])
    (readable : ∀ text ∈ texts, Readable text) (free : ∀ text ∈ texts, 44 ∉ text) :
    lineEntries ([44].intercalate texts) = entriesOf texts := by
  rw [lineEntries, if_pos (readable_intercalate readable), pieces, splitOn_intercalate 44 free some]
  rfl

theorem flatMap_lineEntries {lines : List (List Octets)} (some : [] ∉ lines)
    (readable : ∀ text ∈ lines.flatten, Readable text) (free : ∀ text ∈ lines.flatten, 44 ∉ text) :
    (lines.map fun texts => [44].intercalate texts).flatMap lineEntries =
      entriesOf lines.flatten := by
  induction lines with
  | nil => rfl
  | cons _ _ ih =>
    rw [mem_cons, not_or] at some
    rw [flatten_cons, forall_mem_append] at readable free
    rw [map_cons, flatMap_cons, lineEntries_intercalate (Ne.symm some.1) readable.1 free.1,
      ih some.2 readable.2 free.2, flatten_cons, entriesOf_append]

/-! ## The walk -/

namespace AccessControl

variable (acl : AccessControl)

/-- An entry that the walk passes. -/
def passes (entry : Option IpAddr) : Bool :=
  match entry with
  | some ip => acl.isTrusted ip
  | none => false

/-- The walk stops at the first entry that it does not pass. -/
theorem walk_eq (entries : List (Option IpAddr)) :
    acl.walk entries = entries.find? fun entry => !acl.passes entry := by
  induction entries with
  | nil => rfl
  | cons entry _ ih =>
    cases entry with
    | none => rfl
    | some ip =>
      rw [walk, find?_cons, passes, ih]
      cases acl.isTrusted ip <;> rfl

/-- The last entry that is not trusted. -/
def lastUntrusted (entries : List (Option IpAddr)) : Option (Option IpAddr) :=
  entries.reverse.find? fun entry => !acl.passes entry

theorem lastUntrusted_append (front : List (Option IpAddr)) {entries : List (Option IpAddr)}
    (untrusted : ∃ entry ∈ entries, acl.passes entry = false) :
    acl.lastUntrusted (front ++ entries) = acl.lastUntrusted entries ∧
      ∃ entry, acl.lastUntrusted entries = some entry := by
  obtain ⟨entry, listed, stops⟩ := untrusted
  have found : (acl.lastUntrusted entries).isSome = true := by
    rw [lastUntrusted, find?_isSome]
    exact ⟨entry, mem_reverse.mpr listed, by rw [stops]; rfl⟩
  obtain ⟨last, isLast⟩ := Option.isSome_iff_exists.mp found
  refine ⟨?_, last, isLast⟩
  rw [lastUntrusted, reverse_append, find?_append]
  rw [lastUntrusted] at isLast
  rw [isLast, lastUntrusted, isLast]
  rfl

theorem resolveClientIp_eq {peer : IpAddr} {headers : Headers}
    (trusted : acl.isTrusted peer.toCanonical = true)
    (noCf : firstValidIp headers (ascii "cf-connecting-ip") = none) (front : List (Option IpAddr))
    {entries : List (Option IpAddr)}
    (written : xffEntries headers = front ++ entries)
    (untrusted : ∃ entry ∈ entries, acl.passes entry = false) :
    ∃ entry, acl.lastUntrusted entries = some entry ∧
      acl.resolveClientIp peer headers 2 true = entry.getD peer.toCanonical := by
  obtain ⟨same, entry, last⟩ := acl.lastUntrusted_append front untrusted
  refine ⟨entry, last, ?_⟩
  have walked : acl.walk (xffEntries headers).reverse = some entry := by
    rw [walk_eq, written]
    exact same.trans last
  rw [resolveClientIp, if_neg (by decide), if_neg (by decide)]
  rw [trusted, noCf, rightmostUntrustedXff]
  rw [walked]
  rfl

end AccessControl

/-! ## What the client writes -/

/-- The lines that arrive: lines of the client, then those of the proxies, the first of
which may continue a line of the client. -/
def arriving (earlier : List Octets) (shared : Option Octets) : List Octets → List Octets
  | [] => earlier
  | line :: lines =>
    earlier ++ (match shared with
      | some text => text ++ 44 :: line
      | none => line) :: lines

theorem flatMap_arriving (earlier : List Octets) {shared : Option Octets}
    (readable : ∀ text, shared = some text → Readable text) (lines : List Octets) :
    ∃ front,
      (arriving earlier shared lines).flatMap lineEntries = front ++ lines.flatMap lineEntries := by
  cases lines with
  | nil => exact ⟨earlier.flatMap lineEntries, by rw [arriving, flatMap_nil, append_nil]⟩
  | cons line =>
    cases shared with
    | none =>
      refine ⟨earlier.flatMap lineEntries, ?_⟩
      rw [arriving, flatMap_append]
    | some text =>
      obtain ⟨front, joined⟩ := lineEntries_append line (readable text rfl)
      refine ⟨earlier.flatMap lineEntries ++ front, ?_⟩
      rw [arriving, flatMap_append, flatMap_cons, flatMap_cons, joined]
      simp

/-- The lines after the first of the proxies stand as they were sent. -/
theorem flatMap_arriving_tail (earlier : List Octets) (shared : Option Octets)
    (lines : List Octets) :
    ∃ front, (arriving earlier shared lines).flatMap lineEntries =
      front ++ lines.tail.flatMap lineEntries := by
  cases lines with
  | nil => exact ⟨earlier.flatMap lineEntries, by rw [arriving, tail_nil, flatMap_nil, append_nil]⟩
  | cons line lines =>
    simp only [arriving.eq_def]
    rw [append_cons, flatMap_append]
    exact ⟨_, rfl⟩

/-- A line that cannot be read is one entry that does not parse, whatever the proxies added. -/
theorem flatMap_arriving_unreadable (earlier : List Octets) {text line : Octets}
    (unreadable : ¬Readable text) (lines : List Octets) :
    (arriving earlier (some text) (line :: lines)).flatMap lineEntries =
      earlier.flatMap lineEntries ++ none :: lines.flatMap lineEntries := by
  have hidden : lineEntries (text ++ 44 :: line) = [none] :=
    if_neg fun whole => unreadable (readable_append.mp whole).1
  rw [arriving, flatMap_append, flatMap_cons, hidden]
  rfl

/-- Behind a trusted peer the address is the last entry of the proxies that is not trusted,
whatever the client wrote before it, just when the line that the proxies continued is readable, or
the entry stands in a later line or does not parse; and it is the same however the proxies divided
their entries into lines. -/
theorem resolveClientIp_ignores_client (acl : AccessControl) (peer : IpAddr)
    (trusted : acl.isTrusted peer.toCanonical = true) :
    (∀ (headers alone : Headers) (earlier : List Octets) (shared : Option Octets)
      (lines : List Octets),
      firstValidIp headers (ascii "cf-connecting-ip") = none →
      firstValidIp alone (ascii "cf-connecting-ip") = none →
      headers.getAll xffName = arriving earlier shared lines → alone.getAll xffName = lines →
      (∃ entry ∈ lines.flatMap lineEntries, acl.passes entry = false) →
      ∃ entry, acl.lastUntrusted (lines.flatMap lineEntries) = some entry ∧
        acl.resolveClientIp peer alone 2 true = entry.getD peer.toCanonical ∧
        (acl.resolveClientIp peer headers 2 true = acl.resolveClientIp peer alone 2 true ↔
          (∀ text, shared = some text → Readable text) ∨
            (∃ later ∈ lines.tail.flatMap lineEntries, acl.passes later = false) ∨ entry = none)) ∧
    ∀ (headers other : Headers) (lines divided : List (List Octets)),
      firstValidIp headers (ascii "cf-connecting-ip") = none →
      firstValidIp other (ascii "cf-connecting-ip") = none →
      [] ∉ lines → [] ∉ divided → lines.flatten = divided.flatten →
      (∀ text ∈ lines.flatten, Readable text ∧ 44 ∉ text) →
      headers.getAll xffName = lines.map (fun texts => [44].intercalate texts) →
      other.getAll xffName = divided.map (fun texts => [44].intercalate texts) →
      (∃ entry ∈ entriesOf lines.flatten, acl.passes entry = false) →
      acl.resolveClientIp peer headers 2 true = acl.resolveClientIp peer other 2 true := by
  constructor
  · intro headers alone earlier shared lines noCf noCfAlone arrived sent untrusted
    obtain ⟨entry, last, resolvedAlone⟩ := acl.resolveClientIp_eq trusted noCfAlone []
      (by rw [xffEntries, sent, nil_append]) untrusted
    refine ⟨entry, last, resolvedAlone, ?_⟩
    rw [resolvedAlone]
    by_cases readable : ∀ text, shared = some text → Readable text
    · obtain ⟨front, entries⟩ := flatMap_arriving earlier readable lines
      obtain ⟨_, same, resolved⟩ := acl.resolveClientIp_eq trusted noCf front
        (by rw [xffEntries, arrived, entries]) untrusted
      rw [last] at same
      exact iff_of_true (by rw [resolved, Option.some.inj same]) (.inl readable)
    by_cases later : ∃ later ∈ lines.tail.flatMap lineEntries, acl.passes later = false
    · obtain ⟨front, entries⟩ := flatMap_arriving_tail earlier shared lines
      obtain ⟨_, same, resolved⟩ := acl.resolveClientIp_eq trusted noCf front
        (by rw [xffEntries, arrived, entries]) later
      obtain ⟨front, split⟩ := flatMap_arriving_tail [] none lines
      rw [show arriving [] none lines = lines by cases lines <;> rfl] at split
      rw [split, (acl.lastUntrusted_append front later).1, same] at last
      exact iff_of_true (by rw [resolved, Option.some.inj last]) (.inr (.inl later))
    -- The unreadable line is the last entry that stops the walk, so the address is the peer's.
    rw [not_forall] at readable
    obtain ⟨text, readable⟩ := readable
    obtain ⟨rfl, unreadable⟩ := Classical.not_imp.mp readable
    cases lines with
    | nil => simp at untrusted
    | cons line lines =>
      obtain ⟨hidden, same, resolved⟩ := acl.resolveClientIp_eq trusted noCf
        (earlier.flatMap lineEntries)
        (by rw [xffEntries, arrived, flatMap_arriving_unreadable earlier unreadable])
        ⟨none, mem_cons_self, rfl⟩
      have passed :
          (lines.flatMap lineEntries).reverse.find? (fun entry => !acl.passes entry) = none := by
        simpa using later
      rw [AccessControl.lastUntrusted, reverse_cons, find?_append, passed] at same
      obtain rfl : none = hidden := Option.some.inj same
      rw [resolved]
      refine ⟨fun equal => .inr (.inr ?_), fun which => ?_⟩
      · cases entry with
        | none => rfl
        | some ip =>
          have stops := find?_some last
          rw [AccessControl.passes, ← show peer.toCanonical = ip from equal, trusted] at stops
          nomatch stops
      · obtain rfl :=
          (which.resolve_left fun readable => unreadable (readable text rfl)).resolve_left later
        rfl
  · intro headers other lines divided noCf noCfOther some someDivided same proper arrived
      arrivedOther untrusted
    have readable : ∀ text ∈ lines.flatten, Readable text :=
      fun text listed => (proper text listed).1
    have free : ∀ text ∈ lines.flatten, 44 ∉ text := fun text listed => (proper text listed).2
    have entries := flatMap_lineEntries some readable free
    have entriesOther := flatMap_lineEntries someDivided (same ▸ readable) (same ▸ free)
    rw [← same] at entriesOther
    obtain ⟨_, last, resolved⟩ := acl.resolveClientIp_eq trusted noCf []
      (by rw [xffEntries, arrived, entries, nil_append]) untrusted
    obtain ⟨_, lastOther, resolvedOther⟩ := acl.resolveClientIp_eq trusted noCfOther []
      (by rw [xffEntries, arrivedOther, entriesOther, nil_append]) untrusted
    rw [last] at lastOther
    rw [resolved, resolvedOther, Option.some.inj lastOther]

/-- One trusted network. -/
def privateAcl : AccessControl := .fromSecurity [⟨some (.v4 0x0a000000 8), true, true⟩]

/-- A client that claims another address, behind two proxies. -/
theorem resolveClientIp_behindProxies :
    privateAcl.resolveClientIp (.v4 0x0a000001)
      [(xffName, ascii "6.6.6.6"), (xffName, ascii "7.7.7.7,1.2.3.4:80, 10.0.0.2")] 2 true =
      privateAcl.resolveClientIp (.v4 0x0a000001)
        [(xffName, ascii "1.2.3.4:80, 10.0.0.2")] 2 true := by
  obtain ⟨_, -, -, same⟩ :=
    (resolveClientIp_ignores_client privateAcl (.v4 0x0a000001) (by decide +kernel)).1
      [(xffName, ascii "6.6.6.6"), (xffName, ascii "7.7.7.7,1.2.3.4:80, 10.0.0.2")]
      [(xffName, ascii "1.2.3.4:80, 10.0.0.2")] [ascii "6.6.6.6"] (some (ascii "7.7.7.7"))
      [ascii "1.2.3.4:80, 10.0.0.2"] (by decide +kernel) (by decide +kernel) (by decide +kernel)
      (by decide +kernel) (by decide +kernel)
  refine same.mpr (.inl ?_)
  rintro _ ⟨⟩
  decide +kernel

/-- A letter outside ASCII hides what the proxy wrote in the same line. -/
theorem resolveClientIp_unreadable :
    privateAcl.isTrusted (.v4 0x0a000001) = true ∧
    privateAcl.resolveClientIp (.v4 0x0a000001)
      [(xffName, ascii "1.2.3.4")] 2 true = .v4 0x01020304 ∧
    privateAcl.resolveClientIp (.v4 0x0a000001)
      [(xffName, 0xc3 :: 0xa9 :: 44 :: ascii " 1.2.3.4")] 2 true =
      .v4 0x0a000001 := by
  decide +kernel

/-! ## Longest prefix match -/

inductive AclDecision where
  | allow
  | deny
  deriving DecidableEq

/-- A rule as it is configured. -/
structure AccessRule where
  spec : Octets
  allow : Bool
  trusted : Bool

/-- Only an allowance is trusted. -/
def AccessRule.read (parseNet : Octets → Option IpNet) (rule : AccessRule) : Option Rule :=
  let spec := trimText rule.spec
  let trusted := rule.trusted && rule.allow
  if spec = ascii "*" ∨ eqIgnoreCase spec (ascii "ALL") then some ⟨none, rule.allow, trusted⟩
  else (parseCidr parseNet spec).map fun net => ⟨some net, rule.allow, trusted⟩

namespace AccessControl

/-- `from_security`, or the first address that cannot be read. -/
def ofConfigured (parseNet : Octets → Option IpNet) (configured : List AccessRule) :
    Except Octets AccessControl :=
  match configured.find? fun rule => (rule.read parseNet).isNone with
  | some rule => .error rule.spec
  | none => .ok (fromSecurity (configured.filterMap (AccessRule.read parseNet)))

def checkPeer (acl : AccessControl) (ip : IpAddr) : AclDecision :=
  match acl.rules.find? fun rule => rule.Matches ip.toCanonical with
  | some rule => if rule.allow then .allow else .deny
  | none => .allow

end AccessControl

/-- No network around the address is longer. -/
def Specific (rules : List Rule) (ip : IpAddr) (rule : Rule) : Prop :=
  rule.Matches ip = true ∧ ∀ other ∈ rules,
    other.Matches ip = true → other.prefixLen ≤ rule.prefixLen

instance (rules : List Rule) (ip : IpAddr) (rule : Rule) : Decidable (Specific rules ip rule) :=
  inferInstanceAs (Decidable (_ ∧ _))

/-- The rules with the longest network around the address, as they are listed. -/
def mostSpecific (rules : List Rule) (ip : IpAddr) : List Rule :=
  rules.filter fun rule => Specific rules ip rule

variable {rules : List Rule} {ip : IpAddr} {rule : Rule}

theorem mem_mostSpecific :
    rule ∈ mostSpecific rules ip ↔ rule ∈ rules ∧ Specific rules ip rule := by
  simp [mostSpecific]

theorem precedes_iff {first second : Rule} :
    first.precedes second = true ↔ second.prefixLen < first.prefixLen ∨
      first.prefixLen = second.prefixLen ∧ (first.allow = true → second.allow = true) := by
  simp [Rule.precedes, ← Bool.not_eq_true, imp_iff_not_or]

theorem precedes_trans (first second third : Rule) (left : first.precedes second = true)
    (right : second.precedes third = true) : first.precedes third = true := by
  rw [precedes_iff] at *
  grind

theorem precedes_total (first second : Rule) :
    (first.precedes second || second.precedes first) = true := by
  rw [Bool.or_eq_true, precedes_iff, precedes_iff]
  grind

/-- The first rule of the sorted list that contains the address. -/
theorem find?_sorted
    (found : (rules.reverse.mergeSort Rule.precedes).find? (fun rule => rule.Matches ip) =
      some rule) :
    rule ∈ mostSpecific rules ip ∧ (rule.allow = true →
      (∀ other ∈ mostSpecific rules ip, other.allow = true) ∧
        (mostSpecific rules ip).getLast? = some rule) := by
  have perm : (rules.reverse.mergeSort Rule.precedes).Perm rules :=
    (mergeSort_perm ..).trans (reverse_perm rules)
  have sorted := pairwise_mergeSort precedes_trans precedes_total rules.reverse
  obtain ⟨hit, front, back, split, misses⟩ := find?_eq_some_iff_append.mp found
  have first : ∀ other ∈ rules, other.Matches ip = true → rule.precedes other = true := by
    intro other listed matched
    rw [← perm.mem_iff, split] at listed
    rw [split, pairwise_append, pairwise_cons] at sorted
    rcases mem_append.mp listed with before | after
    · simpa [matched] using misses other before
    · rcases mem_cons.mp after with rfl | after
      · simp [precedes_iff]
      · exact sorted.2.1.1 other after
  have member : rule ∈ mostSpecific rules ip := by
    refine mem_mostSpecific.mpr
      ⟨perm.mem_iff.mp (by simp [split]), hit, fun other listed matched => ?_⟩
    have ordered := precedes_iff.mp (first other listed matched)
    omega
  refine ⟨member, fun allowed => ?_⟩
  have alike : ∀ other ∈ mostSpecific rules ip,
      other.prefixLen = rule.prefixLen ∧ other.allow = true := by
    intro other specific
    obtain ⟨listed, matched, longest⟩ := mem_mostSpecific.mp specific
    have ordered := precedes_iff.mp (first other listed matched)
    have longer := longest rule (mem_mostSpecific.mp member).1 hit
    grind
  -- The sort is stable: rules that are alike stay in their order, the last one first.
  have kept : (mostSpecific rules ip).reverse =
      (rules.reverse.mergeSort Rule.precedes).filter fun rule => Specific rules ip rule := by
    have within : (mostSpecific rules ip).reverse <+ rules.reverse.mergeSort Rule.precedes := by
      refine sublist_mergeSort precedes_trans precedes_total ?_ filter_sublist.reverse
      refine pairwise_of_forall_mem_list fun one listed other listed' => ?_
      simp [precedes_iff, alike one (mem_reverse.mp listed), alike other (mem_reverse.mp listed')]
    refine Sublist.eq_of_length ?_ (by simp [mostSpecific, (perm.filter _).length_eq])
    simpa [mostSpecific, filter_reverse] using within.filter fun rule => Specific rules ip rule
  refine ⟨fun other specific => (alike other specific).2, ?_⟩
  rw [← head?_reverse, kept, head?_filter, find?_eq_some_iff_append]
  refine ⟨by simpa using (mem_mostSpecific.mp member).2, front, back, split, fun other before => ?_⟩
  simp_all [Specific]

theorem find?_sorted_eq_none
    (missed : (rules.reverse.mergeSort Rule.precedes).find? (fun rule => rule.Matches ip) = none) :
    mostSpecific rules ip = [] := by
  simp_all [mostSpecific, Specific]

namespace AccessControl

variable {parseNet : Octets → Option IpNet} {configured : List AccessRule} {acl : AccessControl}

/-- The configured rules that decide on the address. -/
def decisive (parseNet : Octets → Option IpNet) (configured : List AccessRule) (ip : IpAddr) :
    List Rule :=
  mostSpecific (configured.filterMap (AccessRule.read parseNet)) ip.toCanonical

theorem trusted_allows {ar : AccessRule} (read : ar.read parseNet = some rule)
    (trusted : rule.trusted = true) : rule.allow = true := by
  rw [AccessRule.read] at read
  split_ifs at read
  · cases read
    simp_all
  · obtain ⟨net, -, rfl⟩ := Option.map_eq_some_iff.mp read
    simp_all

/-- A configuration is accepted when every address of it can be read. -/
theorem ofConfigured_ok_iff (configured : List AccessRule) :
    (∃ acl, ofConfigured parseNet configured = .ok acl) ↔
      ∀ rule ∈ configured, rule.read parseNet ≠ none := by
  rw [ofConfigured]
  split
  · rename_i rule found
    refine iff_of_false (fun accepted => nomatch accepted.choose_spec) fun all => ?_
    have unread := find?_some found
    exact all rule (mem_of_find?_eq_some found) (Option.isNone_iff_eq_none.mp unread)
  · rename_i missed
    simpa using missed

section

variable (accepted : ofConfigured parseNet configured = .ok acl)
include accepted

theorem rules_of_accepted :
    acl.rules = (configured.filterMap (AccessRule.read parseNet)).reverse.mergeSort Rule.precedes ∧
      acl.allTrusted =
        (acl.rules.any (fun rule => rule.net.isNone) && acl.rules.all Rule.trusted) := by
  have kept : (configured.filterMap (AccessRule.read parseNet)).map
      (fun rule => { rule with trusted := rule.trusted && rule.allow }) =
      configured.filterMap (AccessRule.read parseNet) := by
    refine (map_congr_left fun rule listed => ?_).trans (map_id _)
    obtain ⟨ar, -, read⟩ := mem_filterMap.mp listed
    cases rule
    simpa using trusted_allows read
  rw [ofConfigured] at accepted
  split at accepted <;> cases accepted
  exact ⟨by rw [fromSecurity, kept], rfl⟩

theorem checkPeer_eq_deny :
    acl.checkPeer ip = .deny ↔ ∃ rule ∈ decisive parseNet configured ip, rule.allow = false := by
  rw [checkPeer, (rules_of_accepted accepted).1, decisive]
  split
  · rename_i rule found
    obtain ⟨member, allowed⟩ := find?_sorted found
    cases allow : rule.allow with
    | true => simpa using (allowed allow).1
    | false => simpa using ⟨rule, member, allow⟩
  · rename_i missed
    simp [find?_sorted_eq_none missed]

/-- With the shortcut, a rule for all addresses is the first to match if no other is. -/
theorem isTrusted_eq :
    acl.isTrusted ip =
      (acl.rules.find? fun rule => rule.Matches ip.toCanonical).any Rule.trusted := by
  rw [isTrusted, (rules_of_accepted accepted).2, Bool.or_eq_right_iff_imp]
  intro all
  rw [Bool.and_eq_true, any_eq_true, all_eq_true] at all
  obtain ⟨⟨rule, listed, isAll⟩, trusted⟩ := all
  cases found : acl.rules.find? fun rule => rule.Matches ip.toCanonical with
  | none =>
    have missed := find?_eq_none.mp found rule listed
    simp_all [Rule.Matches]
  | some first => exact trusted first (mem_of_find?_eq_some found)

end

/-- The verdict is that of the most specific rules, among which a denial wins, in whatever order
they are listed; and the address is trusted if none of them is a denial and the last is trusted. -/
theorem longestPrefix_decides (accepted : ofConfigured parseNet configured = .ok acl)
    (ip : IpAddr) :
    (acl.checkPeer ip = .deny ↔ ∃ rule ∈ decisive parseNet configured ip, rule.allow = false) ∧
      (∀ other : List AccessRule, other.Perm configured →
        ∃ acl', ofConfigured parseNet other = .ok acl' ∧ acl'.checkPeer ip = acl.checkPeer ip) ∧
      (acl.isTrusted ip = true ↔
        (∀ rule ∈ decisive parseNet configured ip, rule.allow = true) ∧
          ∃ rule, (decisive parseNet configured ip).getLast? = some rule ∧
            rule.trusted = true) := by
  refine ⟨checkPeer_eq_deny accepted, fun other perm => ?_, ?_⟩
  · have readable := (ofConfigured_ok_iff other).mpr fun rule listed =>
      (ofConfigured_ok_iff configured).mp ⟨acl, accepted⟩ rule (perm.mem_iff.mp listed)
    obtain ⟨acl', accepted'⟩ := readable
    have alike : acl'.checkPeer ip = .deny ↔ acl.checkPeer ip = .deny := by
      rw [checkPeer_eq_deny accepted, checkPeer_eq_deny accepted']
      simp [decisive, mem_mostSpecific, Specific, (perm.filterMap _).mem_iff]
    cases verdict : acl.checkPeer ip <;> cases verdict' : acl'.checkPeer ip <;> simp_all
  · rw [isTrusted_eq accepted, (rules_of_accepted accepted).1, decisive]
    cases found : find? _ _ with
    | none => simp [find?_sorted_eq_none found]
    | some rule =>
      obtain ⟨member, allowed⟩ := find?_sorted found
      obtain ⟨ar, -, read⟩ := mem_filterMap.mp (mem_mostSpecific.mp member).1
      constructor
      · intro trusted
        obtain ⟨all, last⟩ := allowed (trusted_allows read trusted)
        exact ⟨all, rule, last, trusted⟩
      · rintro ⟨all, final, last, trusted⟩
        rw [(allowed (all rule member)).2, Option.some.injEq] at last
        exact last ▸ trusted

/-- A trusted network within a denied world, and an address of each. -/
theorem trustedNetwork_decided :
    let rules : List AccessRule :=
      [⟨ascii "ALL", false, false⟩, ⟨ascii "\t10.0.0.0/255.0.0.0\n", true, true⟩]
    ∃ acl, ofConfigured (fun _ => none) rules = .ok acl ∧ acl.isTrusted (.v4 0x0a000001) = true ∧
      acl.checkPeer (.v4 0x0b000001) = .deny := by
  intro rules
  obtain ⟨acl, accepted⟩ :=
    (@ofConfigured_ok_iff (fun _ => none) rules).mpr (by decide +kernel)
  have decides := longestPrefix_decides accepted
  exact ⟨acl, accepted,
    (decides _).2.2.mpr ⟨by decide +kernel, ⟨some (.v4 0x0a000000 8), true, true⟩,
    by decide +kernel, rfl⟩, (decides _).1.mpr ⟨⟨none, false, false⟩, by decide +kernel, rfl⟩⟩

end AccessControl

end HttpJet.Acl
