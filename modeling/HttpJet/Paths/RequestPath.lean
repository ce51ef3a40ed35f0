import HttpJet.Library.Text
import HttpJet.H2.Message

/-!
# Percent escapes and canonical request paths

Decoding reads `%XX` as one octet and refuses any other `%`; encoding writes every octet outside a
set of plain ones as `%XX`.  A decoded path is brought to one form before anything is checked: no
empty segments, no `.`, and `..` taken together with the segment before it.  The file that is served
is found from the same segments.
-/

namespace HttpJet.Paths

open Library List
open Hpack.Integer (Octets)
open Hpack.StaticTable (ascii)
open H2 (isAlphanumeric)

section

open Option

/-! ## UTF-8 -/

/-- What may follow the first octet of a sequence, and how many octets come after that. -/
def utf8Second (b : UInt8) : Option (UInt8 × UInt8 × Nat) :=
  if 0xc2 ≤ b ∧ b ≤ 0xdf then some (0x80, 0xbf, 0)
  else if b = 0xe0 then some (0xa0, 0xbf, 1)
  else if b = 0xed then some (0x80, 0x9f, 1)
  else if 0xe1 ≤ b ∧ b ≤ 0xef then some (0x80, 0xbf, 1)
  else if b = 0xf0 then some (0x90, 0xbf, 2)
  else if b = 0xf4 then some (0x80, 0x8f, 2)
  else if 0xf1 ≤ b ∧ b ≤ 0xf3 then some (0x80, 0xbf, 2)
  else none

/-- `from_utf8`: the text is well-formed UTF-8. -/
def isUtf8 : Octets → Bool
  | [] => true
  | b :: rest =>
    if b < 0x80 then isUtf8 rest
    else
      match utf8Second b, rest with
      | some (low, high, 0), second :: rest => low ≤ second && second ≤ high && isUtf8 rest
      | some (low, high, 1), second :: third :: rest =>
        low ≤ second && second ≤ high && isContinuation third && isUtf8 rest
      | some (low, high, 2), second :: third :: fourth :: rest =>
        low ≤ second && second ≤ high && isContinuation third &&
          isContinuation fourth && isUtf8 rest
      | _, _ => false

/-! ## Decoding -/

def hexVal (b : UInt8) : Option UInt8 := (hexValue b).map UInt8.ofNat

def percentDecode : Octets → Option Octets
  | [] => some []
  | b :: rest =>
    if b = 37 then
      match rest with
      | first :: second :: rest => do
          let hi ← hexVal first
          let lo ← hexVal second
          let out ← percentDecode rest
          pure ((hi <<< 4 ||| lo) :: out)
      | _ => none
    else (percentDecode rest).map fun out => b :: out

/-- Decoding for paths: the result has no NUL and is a string. -/
def percentDecodeCow (input : Octets) : Option Octets :=
  if 37 ∉ input then some input
  else do
    let octets ← percentDecode input
    if 0 ∈ octets then none
    else if isUtf8 octets then some octets
    else none

theorem percentDecode_cons_of_ne {b : UInt8} (other : b ≠ 37) (rest : Octets) :
    percentDecode (b :: rest) = (percentDecode rest).map fun out => b :: out := by
  rw [percentDecode.eq_def]
  exact if_neg other

theorem percentDecode_plain {text : Octets} (plain : 37 ∉ text) :
    percentDecode text = some text := by
  induction text with
  | nil => rfl
  | cons _ _ ih =>
    rw [mem_cons, not_or] at plain
    rw [percentDecode_cons_of_ne (Ne.symm plain.1), ih plain.2]
    rfl

theorem percentDecode_escape {hi lo : UInt8} {rest out : Octets}
    (decoded : percentDecode (37 :: hi :: lo :: rest) = some out) :
    ∃ high low after, hexVal hi = some high ∧ hexVal lo = some low ∧
      percentDecode rest = some after ∧ (high <<< 4 ||| low) :: after = out := by
  obtain ⟨high, isHigh, decoded⟩ := bind_eq_some_iff.mp decoded
  obtain ⟨low, isLow, decoded⟩ := bind_eq_some_iff.mp decoded
  obtain ⟨after, isAfter, whole⟩ := bind_eq_some_iff.mp decoded
  exact ⟨high, low, after, isHigh, isLow, isAfter, some.inj whole⟩

/-- A text that decodes is followed by what decodes after it. -/
theorem percentDecode_append {first out : Octets} (decoded : percentDecode first = some out)
    (second : Octets) :
    percentDecode (first ++ second) = (percentDecode second).map (out ++ ·) := by
  induction first using percentDecode.induct generalizing out with
  | case1 =>
    cases decoded
    rw [nil_append]
    cases percentDecode second <;> rfl
  | case2 _ _ _ ih =>
    obtain ⟨_, _, _, isHi, isLo, isOut, rfl⟩ := percentDecode_escape decoded
    rw [cons_append, cons_append, cons_append, percentDecode, if_pos rfl]
    dsimp only [bind_eq_bind]
    rw [isHi, isLo, bind_some, bind_some, ih isOut]
    cases percentDecode second <;> rfl
  | case3 _ short =>
    rw [percentDecode, if_pos rfl] at decoded
    · cases decoded
    · exact short
  | case4 _ _ other ih =>
    rw [percentDecode_cons_of_ne other, map_eq_some_iff] at decoded
    obtain ⟨_, isOut, rfl⟩ := decoded
    rw [cons_append, percentDecode_cons_of_ne other, ih isOut]
    cases percentDecode second <;> rfl

theorem nul_percentDecode {text out : Octets} (decoded : percentDecode text = some out)
    (nul : 0 ∈ text) :
    0 ∈ out := by
  have notDigit : hexVal 0 = none := by decide
  induction text using percentDecode.induct generalizing out with
  | case1 => cases nul
  | case2 _ _ _ ih =>
    obtain ⟨_, _, _, isHi, isLo, isRest, rfl⟩ := percentDecode_escape decoded
    simp only [mem_cons, show (0 : UInt8) ≠ 37 by decide, false_or] at nul
    rcases nul with rfl | rfl | later
    · cases isHi
    · cases isLo
    · exact mem_cons_of_mem _ (ih isRest later)
  | case3 _ short =>
    rw [percentDecode, if_pos rfl] at decoded
    · cases decoded
    · exact short
  | case4 _ _ other ih =>
    rw [percentDecode_cons_of_ne other, map_eq_some_iff] at decoded
    obtain ⟨_, isRest, rfl⟩ := decoded
    rcases mem_cons.mp nul with rfl | later
    · exact mem_cons_self
    · exact mem_cons_of_mem _ (ih isRest later)

/-! ## Encoding -/

/-- The octets that are written as they are. -/
def isPlain (b : UInt8) : Bool :=
  b == 47 || isAlphanumeric b || (ascii "-_.~!$&'()*+,;=:@").contains b

def upperHexDigit (n : UInt8) : UInt8 := if n < 10 then 48 + n else 55 + n

def encodeOctet (b : UInt8) : Octets :=
  if isPlain b then [b] else [37, upperHexDigit (b >>> 4), upperHexDigit (b &&& 0xf)]

def percentEncodePath (path : Octets) : Octets := path.flatMap encodeOctet

theorem percentDecode_encodeOctet (b : UInt8) : percentDecode (encodeOctet b) = some [b] := by
  revert b
  exact forall_octet (by decide +kernel)

theorem percentDecode_encode (path : Octets) :
    percentDecode (percentEncodePath path) = some path := by
  induction path with
  | nil => rfl
  | cons b _ ih =>
    rw [percentEncodePath] at ih
    rw [percentEncodePath, flatMap_cons, percentDecode_append (percentDecode_encodeOctet b), ih]
    rfl

theorem percentDecodeCow_encode {path : Octets} (text : isUtf8 path = true) (noNul : 0 ∉ path) :
    percentDecodeCow (percentEncodePath path) = some path := by
  have whole := percentDecode_encode path
  rw [percentDecodeCow]
  split
  · rename_i plain
    rwa [percentDecode_plain plain] at whole
  · rw [whole, bind_eq_bind, bind_some, if_neg noNul, if_pos text]

end

variable {segment raw decoded : Octets} {segments : List Octets} {spare : Nat}
variable (path : Octets)

/-! ## The functions of the source -/

def decodeRequestPath (raw : Octets) : Option Octets := percentDecodeCow raw

/-- A segment that is not kept and takes nothing away. -/
def isVoid (segment : Octets) : Bool := segment == [] || segment == [46]

def isParent (segment : Octets) : Bool := segment == [46, 46]

/-- One pass of the collapse; the last segment of the result is the last one pushed. -/
def collapseStep (out : List Octets) (segment : Octets) : List Octets :=
  if isVoid segment then out else if isParent segment then out.dropLast else out ++ [segment]

def collapse (segments : List Octets) : List Octets := segments.foldl collapseStep []

/-- Each segment after a slash. -/
def slashed (segments : List Octets) : Octets := segments.flatMap fun segment => 47 :: segment

def isCanonicalAbs (path : Octets) : Bool :=
  match path.splitOn 47 with
  | [] => false
  | first :: rest =>
    first == [] && !rest.isEmpty && rest.all fun segment => !isVoid segment && !isParent segment

/-- The collapse of `resolved_rel_path` without its fast path. -/
def collapsedPath (path : Octets) : Octets :=
  let out := slashed (collapse (path.splitOn 47))
  if out = [] then [47] else out

def resolvedRelPath (path : Octets) : Octets :=
  if isCanonicalAbs path then path else collapsedPath path

def endsInSlash (path : Octets) : Bool := path.getLast? == some 47

def normalizedRequestPath (path : Octets) : Octets :=
  let norm := resolvedRelPath path
  if endsInSlash path && !endsInSlash norm then norm ++ [47] else norm

/-- `PathBuf::push`. -/
def pushPath (path segment : Octets) : Octets :=
  if segment.head? = some 47 then segment
  else if path = [] ∨ endsInSlash path then path ++ segment
  else path ++ 47 :: segment

def pushSegments (path : Octets) : List Octets → Option Octets
  | [] => some path
  | segment :: segments =>
    if isVoid segment then pushSegments path segments
    else if isParent segment || segment.contains 0 then none
    else pushSegments (pushPath path segment) segments

def cleanRel (path : Octets) : Option Octets :=
  if isCanonicalAbs path && !path.contains 0 then some (path.drop 1)
  else pushSegments [] (path.splitOn 47)

/-- The segments of the static handler, which refuses a `..` above the top. -/
def cleanSegments (out : List Octets) : List Octets → Option (List Octets)
  | [] => some out
  | segment :: segments =>
    if isVoid segment then cleanSegments out segments
    else if isParent segment then if out = [] then none else cleanSegments out.dropLast segments
    else cleanSegments (out ++ [segment]) segments

def cleanRequestPath (uriPath : Octets) : Option Octets := do
  let decoded ← percentDecode uriPath
  if 0 ∈ decoded then none
  else if isUtf8 decoded then
    let out ← cleanSegments [] (decoded.splitOn 47)
    pure (out.foldl pushPath [])
  else none

/-! ## Segments -/

/-- A segment of a canonical path. -/
structure Proper (segment : Octets) : Prop where
  kept : isVoid segment = false
  named : isParent segment = false
  whole : 47 ∉ segment

theorem Proper.ne_nil (proper : Proper segment) : segment ≠ [] := by
  rintro rfl
  exact absurd proper.kept (by decide)

theorem foldl_collapseStep_proper (free : ∀ segment ∈ segments, 47 ∉ segment) {out : List Octets}
    (proper : ∀ segment ∈ out, Proper segment) :
    ∀ segment ∈ segments.foldl collapseStep out, Proper segment := by
  induction segments generalizing out with
  | nil => exact proper
  | cons _ _ ih =>
    rw [forall_mem_cons] at free
    refine ih free.2 ?_
    rw [collapseStep]
    split_ifs with isVoid isParent
    · exact proper
    · exact fun other listed => proper other (mem_of_mem_dropLast listed)
    · intro other listed
      rcases mem_append.mp listed with before | here
      · exact proper other before
      · rw [mem_singleton.mp here]
        exact ⟨Bool.not_eq_true _ ▸ isVoid, Bool.not_eq_true _ ▸ isParent, free.1⟩

theorem collapse_proper : ∀ segment ∈ collapse (path.splitOn 47), Proper segment :=
  foldl_collapseStep_proper (fun _ listed => not_mem_of_mem_splitOn listed)
    (fun _ listed => (nomatch listed))

theorem foldl_collapseStep_of_proper (proper : ∀ segment ∈ segments, Proper segment)
    (out : List Octets) : segments.foldl collapseStep out = out ++ segments := by
  induction segments generalizing out with
  | nil => exact (append_nil out).symm
  | cons _ _ ih =>
    rw [forall_mem_cons] at proper
    rw [foldl_cons, collapseStep, proper.1.kept, proper.1.named, ih proper.2]
    simp

theorem slashed_eq_intercalate (some : segments ≠ []) :
    slashed segments = 47 :: [47].intercalate segments := by
  induction segments with
  | nil => exact absurd rfl some
  | cons _ segments ih =>
    cases segments with
    | nil => simp [slashed]
    | cons =>
      have later := ih (cons_ne_nil _ _)
      rw [slashed] at later ⊢
      rw [flatMap_cons, later, intercalate_cons_cons]
      simp

theorem splitOn_slashed (some : segments ≠ []) (free : ∀ segment ∈ segments, 47 ∉ segment) :
    (slashed segments).splitOn 47 = [] :: segments := by
  rw [slashed_eq_intercalate some, ← nil_append (47 :: _), splitOn_append_cons_self,
    splitOn_intercalate 47 free some]
  rfl

theorem isCanonicalAbs_iff {path : Octets} : isCanonicalAbs path = true ↔
      ∃ segments, segments ≠ [] ∧ (∀ segment ∈ segments, Proper segment) ∧
        path = slashed segments := by
  constructor
  · intro canonical
    rw [isCanonicalAbs] at canonical
    cases split : path.splitOn 47 with
    | nil => exact absurd split (splitOn_ne_nil 47 path)
    | cons _ rest =>
      rw [split] at canonical
      simp only [Bool.and_eq_true, beq_iff_eq, Bool.not_eq_true', isEmpty_eq_false_iff, all_eq_true]
        at canonical
      obtain ⟨⟨rfl, some⟩, proper⟩ := canonical
      refine ⟨rest, some, fun segment listed => ?_, ?_⟩
      · obtain ⟨kept, named⟩ := proper segment listed
        have piece : segment ∈ path.splitOn 47 := by
          rw [split]
          exact mem_cons_of_mem _ listed
        exact ⟨kept, named, not_mem_of_mem_splitOn piece⟩
      · have whole : [47].intercalate (path.splitOn 47) = path := intercalate_splitOn 47
        rw [← whole, split, slashed_eq_intercalate some]
        cases rest with
        | nil => exact absurd rfl some
        | cons => simp
  · rintro ⟨_, some, proper, rfl⟩
    rw [isCanonicalAbs, splitOn_slashed some fun segment listed => (proper segment listed).whole]
    simp only [beq_self_eq_true, Bool.true_and, Bool.and_eq_true, Bool.not_eq_true',
      isEmpty_eq_false_iff,
      all_eq_true]
    exact ⟨some, fun segment listed =>
      ⟨(proper segment listed).kept, (proper segment listed).named⟩⟩

/-! ## The canonical form -/

/-- A canonical path: its segments, and the slash it keeps. -/
def canonicalPath (segments : List Octets) (slash : Bool) : Octets :=
  if segments = [] then [47] else slashed segments ++ if slash then [47] else []

theorem slashed_ne_nil (some : segments ≠ []) : slashed segments ≠ [] := by
  rw [slashed_eq_intercalate some]
  exact cons_ne_nil _ _

theorem endsInSlash_slashed (some : segments ≠ []) (proper : ∀ segment ∈ segments, Proper segment) :
    endsInSlash (slashed segments) = false := by
  have last := proper _ (getLast_mem some)
  rw [← dropLast_append_getLast some, slashed, flatMap_append, flatMap_singleton, endsInSlash,
    getLast?_append, getLast?_cons]
  simp only [Option.getD_eq_iff, Option.some_or, beq_eq_false_iff_ne, ne_eq, Option.some.injEq]
  rintro (found | ⟨empty, -⟩)
  · exact last.whole (mem_of_getLast? found)
  · exact last.ne_nil (getLast?_eq_none_iff.mp empty)

theorem splitOn_canonicalPath (proper : ∀ segment ∈ segments, Proper segment) (full : segments ≠ [])
    (slash : Bool) :
    (canonicalPath segments slash).splitOn 47 = [] :: segments ++ if slash then [[]] else [] := by
  have free : ∀ segment ∈ segments, 47 ∉ segment :=
    fun segment listed => (proper segment listed).whole
  rw [canonicalPath, if_neg full]
  cases slash with
  | false =>
    rw [if_neg Bool.false_ne_true, if_neg Bool.false_ne_true, append_nil, append_nil,
      splitOn_slashed full free]
  | true =>
    rw [if_pos rfl, if_pos rfl, splitOn_append_cons_self, splitOn_slashed full free, splitOn_nil]

theorem collapse_canonical (proper : ∀ segment ∈ segments, Proper segment) (slash : Bool) :
    collapse ((canonicalPath segments slash).splitOn 47) = segments := by
  have pushed : collapse ([] :: segments) = segments := by
    exact foldl_collapseStep_of_proper proper []
  by_cases empty : segments = []
  · rw [canonicalPath, if_pos empty, empty]
    decide
  · rw [collapse] at pushed
    rw [splitOn_canonicalPath proper empty, collapse, foldl_append, pushed]
    cases slash <;> rfl

/-- The fast path for canonical paths agrees with the collapse. -/
theorem resolvedRelPath_eq_collapsedPath : resolvedRelPath path = collapsedPath path := by
  rw [resolvedRelPath]
  split_ifs with canonical
  · obtain ⟨_, some, proper, rfl⟩ := isCanonicalAbs_iff.mp canonical
    have collapsed := collapse_canonical proper false
    rw [canonicalPath, if_neg some, if_neg Bool.false_ne_true, append_nil] at collapsed
    rw [collapsedPath, collapsed, if_neg (slashed_ne_nil some)]
  · rfl

theorem normalizedRequestPath_eq :
    normalizedRequestPath path = canonicalPath (collapse (path.splitOn 47)) (endsInSlash path) := by
  have proper := collapse_proper path
  rw [normalizedRequestPath, resolvedRelPath_eq_collapsedPath, collapsedPath, canonicalPath]
  by_cases empty : collapse (path.splitOn 47) = []
  · rw [if_pos empty, empty, if_pos (show slashed [] = [] from rfl)]
    rw [show endsInSlash [47] = true from rfl, Bool.not_true, Bool.and_false,
      if_neg Bool.false_ne_true]
  · rw [if_neg empty, if_neg (slashed_ne_nil empty), endsInSlash_slashed empty proper,
      Bool.not_false,
      Bool.and_true]
    cases endsInSlash path with
    | false => exact (append_nil _).symm
    | true => rfl

/-- A canonical path is its own canonical form. -/
theorem normalizedRequestPath_canonical (proper : ∀ segment ∈ segments, Proper segment)
    (slash : Bool) :
    normalizedRequestPath (canonicalPath segments slash) = canonicalPath segments slash := by
  rw [normalizedRequestPath_eq, collapse_canonical proper]
  by_cases empty : segments = []
  · rw [canonicalPath, if_pos empty, canonicalPath, if_pos empty]
  · have ends : endsInSlash (canonicalPath segments slash) = slash := by
      rw [canonicalPath, if_neg empty]
      cases slash with
      | false => rw [if_neg Bool.false_ne_true, append_nil, endsInSlash_slashed empty proper]
      | true =>
        rw [if_pos rfl, endsInSlash, getLast?_concat]
        rfl
    rw [ends]

/-! ## The file -/

/-- A relative path of segments. -/
def relativePath (segments : List Octets) : Octets := [47].intercalate segments

theorem pushPath_relativePath (proper : ∀ other ∈ segments, Proper other) (here : Proper segment) :
    pushPath (relativePath segments) segment = relativePath (segments ++ [segment]) := by
  have relative : segment.head? ≠ some 47 := fun first => here.whole (mem_of_head? first)
  rw [pushPath, if_neg relative]
  by_cases empty : segments = []
  · rw [if_pos (.inl (by rw [empty]; rfl)), empty]
    simp [relativePath]
  · have joined : slashed segments = 47 :: relativePath segments := slashed_eq_intercalate empty
    have some : relativePath segments ≠ [] := by
      intro none
      obtain ⟨first, rest, rfl⟩ := exists_cons_of_ne_nil empty
      have inside : first ⊆ relativePath (first :: rest) := subset_intercalate mem_cons_self
      rw [none] at inside
      exact (proper first mem_cons_self).ne_nil (eq_nil_of_subset_nil inside)
    have ends : endsInSlash (relativePath segments) = false := by
      have ends := endsInSlash_slashed empty proper
      rw [joined, endsInSlash, getLast?_cons_of_ne_nil some] at ends
      exact ends
    rw [if_neg (by rw [ends]; simp [some])]
    have longer : slashed (segments ++ [segment]) = 47 :: relativePath (segments ++ [segment]) :=
      slashed_eq_intercalate (by simp)
    rw [slashed, flatMap_append, ← slashed, joined, flatMap_singleton] at longer
    exact tail_eq_of_cons_eq longer

theorem pushSegments_append_void (segments : List Octets) :
    pushSegments path (segments ++ [[]]) = pushSegments path segments := by
  induction segments generalizing path with
  | nil => rfl
  | cons _ _ ih => rw [cons_append, pushSegments, pushSegments, ih, ih]

theorem zero_mem_slashed : 0 ∈ slashed segments ↔ ∃ segment ∈ segments, 0 ∈ segment := by
  rw [slashed, mem_flatMap]
  simp

section

variable (proper : ∀ segment ∈ segments, Proper segment)
include proper

theorem foldl_pushPath : segments.foldl pushPath [] = relativePath segments := by
  have after (before : List Octets) (all : ∀ segment ∈ before ++ segments, Proper segment) :
      segments.foldl pushPath (relativePath before) = relativePath (before ++ segments) := by
    induction segments generalizing before with
    | nil => rw [foldl_nil, append_nil]
    | cons segment _ ih =>
      rw [forall_mem_cons] at proper
      rw [foldl_cons,
        pushPath_relativePath (fun other listed => all other (mem_append_left _ listed))
        proper.1, ih proper.2 (before ++ [segment]) (by simpa using all), append_assoc,
          singleton_append]
  exact after [] proper

theorem pushSegments_proper (path : Octets) : pushSegments path segments =
      if ∃ segment ∈ segments, 0 ∈ segment then none else some (segments.foldl pushPath path) := by
  induction segments generalizing path with
  | nil => simp [pushSegments]
  | cons segment _ ih =>
    rw [forall_mem_cons] at proper
    rw [pushSegments, proper.1.kept, proper.1.named, if_neg Bool.false_ne_true, Bool.false_or,
      ih proper.2]
    by_cases nul : 0 ∈ segment
    · rw [if_pos (contains_iff_mem.mpr nul), if_pos ⟨segment, mem_cons_self, nul⟩]
    · simp [nul]

theorem pushSegments_cons_void : pushSegments [] ([] :: segments) =
      if ∃ segment ∈ segments, 0 ∈ segment then none else some (relativePath segments) := by
  rw [← foldl_pushPath proper]
  exact pushSegments_proper proper []

end

/-- The fast path for canonical paths agrees with the general one. -/
theorem cleanRel_eq_pushSegments : cleanRel path = pushSegments [] (path.splitOn 47) := by
  rw [cleanRel]
  split_ifs with fast
  · rw [Bool.and_eq_true, Bool.not_eq_true'] at fast
    obtain ⟨segments, some, proper, rfl⟩ := isCanonicalAbs_iff.mp fast.1
    have noNul : ¬∃ segment ∈ segments, 0 ∈ segment := by
      intro nul
      rw [contains_iff_mem.mpr (zero_mem_slashed.mpr nul)] at fast
      cases fast.2
    rw [splitOn_slashed some fun segment listed => (proper segment listed).whole,
      pushSegments_cons_void proper,
      if_neg noNul, slashed_eq_intercalate some]
    rfl
  · rfl

theorem cleanRel_canonical (proper : ∀ segment ∈ segments, Proper segment) (slash : Bool) :
    cleanRel (canonicalPath segments slash) =
      if ∃ segment ∈ segments, 0 ∈ segment then none else some (relativePath segments) := by
  rw [cleanRel_eq_pushSegments, ← pushSegments_cons_void proper]
  by_cases empty : segments = []
  · rw [canonicalPath, if_pos empty, empty]
    rfl
  · rw [splitOn_canonicalPath proper empty]
    cases slash with
    | false => rw [if_neg Bool.false_ne_true, append_nil]
    | true => rw [if_pos rfl, pushSegments_append_void]

theorem cleanSegments_eq {out result : List Octets}
    (clean : cleanSegments out segments = some result) :
    result = segments.foldl collapseStep out := by
  induction segments generalizing out with
  | nil => exact (Option.some.inj clean).symm
  | cons _ _ ih =>
    rw [cleanSegments] at clean
    rw [foldl_cons, collapseStep]
    split_ifs at clean ⊢
    · exact ih clean
    · exact ih clean
    · exact ih clean

theorem percentDecode_of_decodeRequestPath (accepted : decodeRequestPath raw = some decoded) :
    percentDecode raw = some decoded ∧ (0 ∈ decoded → decoded = raw) := by
  rw [decodeRequestPath, percentDecodeCow] at accepted
  split at accepted
  · rename_i plain
    cases accepted
    exact ⟨percentDecode_plain plain, fun _ => rfl⟩
  · rw [Option.bind_eq_bind, Option.bind_eq_some_iff] at accepted
    obtain ⟨_, read, accepted⟩ := accepted
    split_ifs at accepted with nul
    cases accepted
    exact ⟨read, fun found => absurd found nul⟩

theorem cleanRequestPath_eq {relative : Octets} (accepted : decodeRequestPath raw = some decoded)
    (served : cleanRequestPath raw = some relative) :
    relative = relativePath (collapse (decoded.splitOn 47)) := by
  rw [cleanRequestPath, (percentDecode_of_decodeRequestPath accepted).1, Option.bind_eq_bind,
    Option.bind_some]
    at served
  split_ifs at served
  obtain ⟨out, clean, joined⟩ := Option.bind_eq_some_iff.mp served
  cases joined
  have same : out = collapse (decoded.splitOn 47) := cleanSegments_eq clean
  rw [same, foldl_pushPath (collapse_proper decoded)]

/-! ## The segments that are kept -/

def isName (segment : Octets) : Bool := !isVoid segment && !isParent segment

/-- No stretch at the beginning has more than `spare` parents beyond its names. -/
def Bounded (spare : Nat) (segments : List Octets) : Prop :=
  ∀ count, (segments.take count).countP isParent ≤ (segments.take count).countP isName + spare

/-- The segments that follow take the one before them away. -/
def TakenAway (after : List Octets) : Prop :=
  ∃ count, (after.take count).countP isName < (after.take count).countP isParent

theorem not_takenAway {after : List Octets} : ¬TakenAway after ↔ Bounded 0 after := by
  simp only [TakenAway, Bounded, not_exists, not_lt, Nat.add_zero]

theorem bounded_nil (spare : Nat) : Bounded spare [] := by
  intro count
  rw [take_nil]
  exact Nat.zero_le _

theorem bounded_cons : Bounded spare (segment :: segments) ↔
      ∀ count, (segments.take count).countP isParent + (if isParent segment then 1 else 0) ≤
        (segments.take count).countP isName + (if isName segment then 1 else 0) + spare := by
  constructor
  · intro bounded count
    have here := bounded (count + 1)
    rwa [take_succ_cons, countP_cons, countP_cons] at here
  · rintro bounded (_ | count)
    · exact Nat.zero_le _
    · rw [take_succ_cons, countP_cons, countP_cons]
      exact bounded count

theorem bounded_cons_name (name : isName segment = true) :
    Bounded spare (segment :: segments) ↔ Bounded (spare + 1) segments := by
  have notParent : isParent segment = false := by
    rw [isName, Bool.and_eq_true, Bool.not_eq_true'] at name
    exact Bool.not_eq_true' _ ▸ name.2
  rw [bounded_cons, name, notParent]
  simp only [if_true, Bool.false_eq_true, if_false, Nat.add_zero, Bounded]
  exact forall_congr' fun count => by rw [Nat.add_assoc, Nat.add_comm 1]

theorem bounded_cons_void (void : isVoid segment = true) :
    Bounded spare (segment :: segments) ↔ Bounded spare segments := by
  have notParent : isParent segment = false := by
    rw [isVoid, Bool.or_eq_true, beq_iff_eq, beq_iff_eq] at void
    rcases void with rfl | rfl <;> rfl
  have notName : isName segment = false := by
    rw [isName, void]
    rfl
  rw [bounded_cons, notParent, notName]
  simp only [Bool.false_eq_true, if_false, Nat.add_zero, Bounded]

theorem bounded_cons_parent (parent : isParent segment = true) :
    Bounded spare (segment :: segments) ↔ 0 < spare ∧ Bounded (spare - 1) segments := by
  have notName : isName segment = false := by
    rw [isName, parent, Bool.not_true, Bool.and_false]
  rw [bounded_cons, parent, notName]
  simp only [if_true, Bool.false_eq_true, if_false, Nat.add_zero, Bounded]
  constructor
  · intro bounded
    have first := bounded 0
    rw [take_zero, countP_nil, countP_nil] at first
    refine ⟨by omega, fun count => ?_⟩
    have here := bounded count
    omega
  · rintro ⟨_, bounded⟩ count
    have here := bounded count
    omega

theorem dropLast_split {α : Type} {items : List α} {item : α} (P : Nat → Prop) :
    (∃ front back, items.dropLast = front ++ item :: back ∧ P back.length) ↔
      ∃ front back, items = front ++ item :: back ∧ 0 < back.length ∧ P (back.length - 1) := by
  constructor
  · rintro ⟨front, back, split, holds⟩
    rcases eq_nil_or_concat items with rfl | ⟨start, last, rfl⟩
    · cases front <;> cases split
    · rw [concat_eq_append, dropLast_concat] at split
      refine ⟨front, back ++ [last], ?_, ?_, ?_⟩
      · rw [concat_eq_append, split, append_assoc, cons_append]
      · rw [length_append, length_singleton]
        omega
      · rwa [length_append, length_singleton, Nat.add_sub_cancel]
  · rintro ⟨front, back, rfl, positive, holds⟩
    rcases eq_nil_or_concat back with rfl | ⟨start, _, rfl⟩
    · exact absurd positive (Nat.lt_irrefl 0)
    · rw [concat_eq_append, length_append, length_singleton, Nat.add_sub_cancel] at holds
      refine ⟨front, start, ?_, holds⟩
      rw [concat_eq_append, ← cons_append, ← append_assoc, dropLast_concat]

theorem concat_split {α : Type} {items : List α} {item last : α} (P : Nat → Prop) :
    (∃ front back, items ++ [last] = front ++ item :: back ∧ P back.length) ↔
      (∃ front back, items = front ++ item :: back ∧ P (back.length + 1)) ∨ item = last ∧ P 0 := by
  constructor
  · rintro ⟨front, back, split, holds⟩
    rcases eq_nil_or_concat back with rfl | ⟨start, _, rfl⟩
    · obtain ⟨-, same⟩ := append_inj' split rfl
      exact .inr ⟨(cons.inj same).1.symm, holds⟩
    · rw [concat_eq_append, ← cons_append, ← append_assoc] at split
      rw [concat_eq_append, length_append, length_singleton] at holds
      exact .inl ⟨front, start, (append_inj' split rfl).1, holds⟩
  · rintro (⟨front, back, rfl, holds⟩ | ⟨rfl, holds⟩)
    · refine ⟨front, back ++ [last], by rw [append_assoc, cons_append], ?_⟩
      rwa [length_append, length_singleton]
    · exact ⟨items, [], rfl, holds⟩

/-- A kept segment is one that came before and has enough above it, or one of the path that
is not taken away. -/
theorem mem_foldl_collapseStep {kept : Octets} (segments out : List Octets) :
    kept ∈ segments.foldl collapseStep out ↔
      (∃ front back, out = front ++ kept :: back ∧ Bounded back.length segments) ∨
        ∃ before after, segments = before ++ kept :: after ∧ isName kept = true ∧
          Bounded 0 after := by
  induction segments generalizing out with
  | nil =>
    rw [foldl_nil, mem_iff_append]
    constructor
    · rintro ⟨front, back, split⟩
      exact .inl ⟨front, back, split, bounded_nil _⟩
    · rintro (⟨front, back, split, -⟩ | ⟨before, after, split, -⟩)
      · exact ⟨front, back, split⟩
      · cases before <;> cases split
  | cons segment segments ih =>
    rw [foldl_cons, ih, collapseStep]
    have later :
        (∃ before after, segment :: segments = before ++ kept :: after ∧ isName kept = true ∧
        Bounded 0 after) ↔ (kept = segment ∧ isName segment = true ∧ Bounded 0 segments) ∨
        ∃ before after, segments = before ++ kept :: after ∧ isName kept = true ∧
          Bounded 0 after := by
      constructor
      · rintro ⟨_ | ⟨_, before⟩, after, split, name, bounded⟩
        · cases split
          exact .inl ⟨rfl, name, bounded⟩
        · cases split
          exact .inr ⟨before, after, rfl, name, bounded⟩
      · rintro (⟨rfl, name, bounded⟩ | ⟨before, after, rfl, name, bounded⟩)
        · exact ⟨[], segments, rfl, name, bounded⟩
        · exact ⟨segment :: before, after, rfl, name, bounded⟩
    rw [later, ← or_assoc]
    refine or_congr ?_ Iff.rfl
    by_cases void : isVoid segment = true
    · have notName : isName segment = false := by
        rw [isName, void]
        rfl
      simp only [void, if_true, bounded_cons_void void, notName, Bool.false_eq_true,
        false_and, and_false,
        or_false]
    by_cases parent : isParent segment = true
    · have notName : isName segment = false := by
        rw [isName, parent, Bool.not_true, Bool.and_false]
      simp only [void, parent, if_true, if_false, bounded_cons_parent parent, notName,
        Bool.false_eq_true,
        false_and, and_false, or_false]
      exact dropLast_split fun length => Bounded length segments
    · have name : isName segment = true := by
        rw [isName, Bool.and_eq_true, Bool.not_eq_true', Bool.not_eq_true']
        exact ⟨Bool.not_eq_true _ ▸ void, Bool.not_eq_true _ ▸ parent⟩
      simp only [void, parent, Bool.false_eq_true, if_false, bounded_cons_name name, name, true_and]
      exact concat_split fun length => Bounded length segments

theorem mem_collapse {kept : Octets} : kept ∈ collapse segments ↔
      ∃ before after, segments = before ++ kept :: after ∧ isName kept = true ∧
        ¬TakenAway after := by
  rw [collapse, mem_foldl_collapseStep]
  simp only [not_takenAway]
  constructor
  · rintro (⟨front, _, none, -⟩ | found)
    · cases front <;> cases none
    · exact found
  · exact .inr

/-! ## Request paths -/

/-- What holds of a raw path and what it decodes to: the canonical path has proper segments
and is its own canonical form; the relative path has the same segments, and so has the file
that is served. -/
structure Canonical (raw decoded : Octets) : Prop where
  segments : ∃ segments, (∀ segment ∈ segments, Proper segment) ∧
    normalizedRequestPath decoded = canonicalPath segments (endsInSlash decoded) ∧
    cleanRel (normalizedRequestPath decoded) = some (relativePath segments) ∧
    ∀ relative, cleanRequestPath raw = some relative → relative = relativePath segments
  leading : (normalizedRequestPath decoded).head? = some 47
  stable : normalizedRequestPath (normalizedRequestPath decoded) = normalizedRequestPath decoded

/-- No segment with a NUL is kept. -/
def NulTakenAway (raw : Octets) : Prop :=
  ∀ before segment after, raw.splitOn 47 = before ++ segment :: after → 0 ∈ segment →
    TakenAway after

theorem head?_canonicalPath (segments : List Octets) (slash : Bool) :
    (canonicalPath segments slash).head? = some 47 := by
  rw [canonicalPath]
  split_ifs with empty
  · rfl
  all_goals
    rw [slashed_eq_intercalate empty]
    rfl

theorem isName_of_mem_nul (nul : 0 ∈ segment) : isName segment = true := by
  rw [isName, Bool.and_eq_true, Bool.not_eq_true', Bool.not_eq_true', isVoid, isParent]
  refine ⟨?_, ?_⟩
  · rw [Bool.or_eq_false_iff, beq_eq_false_iff_ne, beq_eq_false_iff_ne]
    constructor <;> rintro rfl <;> exact absurd nul (by decide)
  · rw [beq_eq_false_iff_ne]
    rintro rfl
    exact absurd nul (by decide)

theorem nul_of_mem_segment {path : Octets} (listed : segment ∈ path.splitOn 47)
    (nul : 0 ∈ segment) :
    0 ∈ path := subset_of_mem_splitOn listed nul

theorem nul_collapse (accepted : decodeRequestPath raw = some decoded) :
    (¬∃ segment ∈ collapse (decoded.splitOn 47), 0 ∈ segment) ↔ NulTakenAway raw := by
  obtain ⟨read, same⟩ := percentDecode_of_decodeRequestPath accepted
  constructor
  · intro none before segment after split nul
    have listed : segment ∈ raw.splitOn 47 := split ▸ mem_append_right _ mem_cons_self
    rw [same (nul_percentDecode read (nul_of_mem_segment listed nul))] at none
    by_contra stays
    exact none ⟨segment, mem_collapse.mpr ⟨before, after, split, isName_of_mem_nul nul, stays⟩, nul⟩
  · rintro taken ⟨segment, kept, nul⟩
    obtain ⟨before, after, split, -, stays⟩ := mem_collapse.mp kept
    have listed : segment ∈ decoded.splitOn 47 := split ▸ mem_append_right _ mem_cons_self
    rw [same (nul_of_mem_segment listed nul)] at split
    exact stays (taken before segment after split nul)

/-- Every raw path that is accepted has a canonical form exactly when no segment with a NUL
is kept; the fast paths agree with the general collapse; and a string without NUL is what
its encoding decodes to. -/
theorem requestPaths_canonical (raw path : Octets) :
    (∀ decoded, decodeRequestPath raw = some decoded → (Canonical raw decoded ↔ NulTakenAway raw)) ∧
    (isCanonicalAbs path = true → path = collapsedPath path) ∧
    (isUtf8 path = true → 0 ∉ path → decodeRequestPath (percentEncodePath path) = some path) := by
  refine ⟨fun decoded accepted => ?_, fun canonical => ?_, fun text noNul =>
    percentDecodeCow_encode text noNul⟩
  · have proper := collapse_proper decoded
    have form := normalizedRequestPath_eq decoded
    rw [← nul_collapse accepted]
    constructor
    · rintro ⟨⟨_, -, -, relative, -⟩, -, -⟩ nul
      rw [form, cleanRel_canonical proper, if_pos nul] at relative
      cases relative
    · intro noNul
      refine ⟨⟨_, proper, form, ?_, fun relative served => cleanRequestPath_eq accepted served⟩, ?_,
        ?_⟩
      · rw [form, cleanRel_canonical proper, if_neg noNul]
      · rw [form, head?_canonicalPath]
      · rw [form, normalizedRequestPath_canonical proper]
  · have same := resolvedRelPath_eq_collapsedPath path
    rwa [resolvedRelPath, if_pos canonical] at same

/-- A path with an escape, a `..` and a slash at its end. -/
theorem requestPaths_canonical_escaped :
    Canonical (ascii "/a/../b%20c//") (ascii "/a/../b c//") ∧
      normalizedRequestPath (ascii "/a/../b c//") = ascii "/b c/" := by
  refine ⟨((requestPaths_canonical _ []).1 _ (by decide +kernel)).mpr ?_, by decide +kernel⟩
  intro before segment after split nul
  have listed : segment ∈ (ascii "/a/../b%20c//").splitOn 47 :=
    split ▸ mem_append_right _ mem_cons_self
  exact absurd (nul_of_mem_segment listed nul) (by decide +kernel)

/-- A NUL that is not escaped is accepted, and then there is no relative path. -/
theorem decodeRequestPath_nul :
    decodeRequestPath [47, 97, 0, 98] = some [47, 97, 0, 98] ∧
      cleanRel (normalizedRequestPath [47, 97, 0, 98]) = none := by
  decide +kernel

end HttpJet.Paths
