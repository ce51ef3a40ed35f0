import HttpJet.Library.Text
import HttpJet.H2.Message

/-!
# The head of an HTTP/1 request

`materialize_head` turns the parsed lines into a header map and decides how the body is framed.
The flags of the decision describe all lines of the head; the map keeps fewer, and has no line that
a backend could frame the body by in another way.
-/

namespace HttpJet.H1

open Hpack.Integer (Octets)
open Hpack.StaticTable (ascii)
open H2 (Headers Parsers Uri eqIgnoreCase getAll_coalesceCookieCrumbs isDigit toLower trim
  validHttpAuthority)
open H2.Headers (getAll_concat getAll_insert getAll_insert_of_ne)
open List

/-! ## Framing -/

inductive BodyFraming where
  | length (n : Nat)
  | chunked
  | reject
  deriving DecidableEq

def teIsChunked (value : Octets) : Bool := eqIgnoreCase (trim value) (ascii "chunked")

/-- The number that decimal digits denote. -/
def decimal (digits : Octets) : Nat := digits.foldl (fun value b => value * 10 + (b.toNat - 48)) 0

/-- One `Content-Length` value: digits between blanks, a machine word. -/
def contentLength (parsers : Parsers) (value : Octets) : Option Nat :=
  if parsers.utf8 value && !(trim value).isEmpty && (trim value).all isDigit then
    if decimal (trim value) < 2 ^ 64 then some (decimal (trim value)) else none
  else none

/-- `resolve_content_length`: the length that all values agree on. -/
def resolveContentLength (parsers : Parsers) (out : Option Nat) :
    List Octets → Except Unit (Option Nat)
  | [] => .ok out
  | value :: values =>
    match contentLength parsers value with
    | none => .error ()
    | some parsed =>
      if out.any (· != parsed) then .error ()
      else resolveContentLength parsers (some parsed) values

def classifyFraming (parsers : Parsers) (clValues : List Octets) (chunked teOther : Bool) :
    BodyFraming :=
  match resolveContentLength parsers none clValues with
  | .error () => .reject
  | .ok cl =>
    if teOther || (chunked && cl.isSome) then .reject
    else if chunked then .chunked
    else .length (cl.getD 0)

/-! ## Targets -/

def uriPath (uri : Uri) : Octets := (uri.pathAndQuery.getD []).takeWhile (· != 63)

def uriQuery (uri : Uri) : Option Octets :=
  uri.pathAndQuery.bind fun text => (H2.splitOnce 63 text).map Prod.snd

/-- `request_target`: the origin-form target, and the authority of an absolute-form one. -/
def requestTarget (parsers : Parsers) (method raw : Octets) (uri : Uri) :
    Option (Uri × Option Octets) :=
  if raw = ascii "*" then
    if method = ascii "OPTIONS" then some (uri, none) else none
  else if raw.head? = some 47 then
    if uri.scheme.isNone && uri.authority.isNone then some (uri, none) else none
  else do
    let scheme ← uri.scheme
    if !eqIgnoreCase scheme (ascii "http") && !eqIgnoreCase scheme (ascii "https") then none
    else
      let authority ← uri.authority
      if !validHttpAuthority parsers authority then none
      else
        let front := if (uriPath uri).isEmpty then ascii "/" else uriPath uri
        let origin := match uriQuery uri with
          | some text => front ++ 63 :: text
          | none => front
        let uri ← parsers.uri origin
        some (uri, some authority)

/-! ## Materializing a head -/

/-- A complete head as the parser returns it. -/
structure Head where
  method : Option Octets
  path : Option Octets
  version : Option Nat
  headers : List (Octets × Octets)
  complete : version = some 0 ∨ version = some 1

/-- What has been collected from the lines so far. -/
structure Intake where
  hostValue : Option Octets
  headers : Headers
  clValues : List Octets
  chunked : Bool
  teOther : Bool
  hostCount : Nat
  connClose : Bool
  closeOption : Bool
  expectContinue : Bool

def isAsciiWhitespace (b : UInt8) : Bool := b == 32 || b == 9 || b == 10 || b == 12 || b == 13

def trimAscii (text : Octets) : Octets :=
  ((text.dropWhile isAsciiWhitespace).reverse.dropWhile isAsciiWhitespace).reverse

def expectIs100Continue (value : Octets) : Bool :=
  eqIgnoreCase (trimAscii value) (ascii "100-continue")

/-- One token of a `Connection` line; `close` wins over `keep-alive`. -/
def Intake.connectionToken (intake : Intake) (token : Octets) : Intake :=
  if eqIgnoreCase (trimAscii token) (ascii "close") then
    { intake with closeOption := true, connClose := true }
  else if eqIgnoreCase (trimAscii token) (ascii "keep-alive") && !intake.closeOption then
    { intake with connClose := false }
  else intake

/-- Forward a line, a repeated `Content-Length` once. -/
def Intake.forward (parsers : Parsers) (intake : Intake) (name value : Octets) : Intake :=
  if parsers.headerName name && parsers.headerValue value then
    if name.map toLower = ascii "content-length" ∧
        (intake.headers.getAll (ascii "content-length")).isEmpty = false then intake
    else { intake with headers := intake.headers ++ [(name.map toLower, value)] }
  else intake

/-- A line of the head. -/
def Intake.line (parsers : Parsers) (http11 : Bool) (intake : Intake)
    (line : Octets × Octets) : Intake :=
  let intake :=
    if eqIgnoreCase line.1 (ascii "expect") then
      { intake with expectContinue := http11 && expectIs100Continue line.2 }
    else intake
  if eqIgnoreCase line.1 (ascii "content-length") then
    { intake with clValues := intake.clValues ++ [line.2] }.forward parsers line.1 line.2
  else if eqIgnoreCase line.1 (ascii "transfer-encoding") then
    if teIsChunked line.2 then { intake with chunked := true } else { intake with teOther := true }
  else if eqIgnoreCase line.1 (ascii "host") then
    { intake with
      hostCount := intake.hostCount + 1
      hostValue := some (intake.hostValue.getD line.2) }.forward parsers line.1 line.2
  else if eqIgnoreCase line.1 (ascii "connection") then
    ((line.2.splitOn 44).foldl Intake.connectionToken intake).forward parsers line.1 line.2
  else intake.forward parsers line.1 line.2

def Intake.start (http10 : Bool) : Intake where
  hostValue := none
  headers := []
  clValues := []
  chunked := false
  teOther := false
  hostCount := 0
  connClose := http10
  closeOption := false
  expectContinue := false

structure Materialized where
  method : Octets
  uri : Uri
  headers : Headers
  headLen : Nat
  framing : BodyFraming
  keepAlive : Bool
  expectContinue : Bool
  http10 : Bool

inductive ParsedReq where
  | done (request : Materialized)
  | bad
  | methodNotAllowed

/-- The header map under the one authority, or nothing when the authority is not acceptable. -/
def settleHost (parsers : Parsers) (version : Option Nat) (authority hostValue : Option Octets)
    (headers : Headers) : Option Headers :=
  match authority with
  | some authority =>
    if parsers.headerValue authority then some (headers.insert (ascii "host") authority) else none
  | none =>
    match hostValue with
    | some value =>
      if parsers.utf8 value && validHttpAuthority parsers value then some headers else none
    | none => if version = some 1 then none else some headers

def materializeHead (parsers : Parsers) (head : Head) (headLen : Nat) : ParsedReq :=
  let method := head.method.getD (ascii "GET")
  if !parsers.method method then .bad
  else if method = ascii "CONNECT" then .methodNotAllowed
  else
    let raw := head.path.getD (ascii "/")
    if raw.contains 35 then .bad
    else
      match (parsers.uri raw).bind (requestTarget parsers method raw) with
      | none => .bad
      | some (uri, authority) =>
        let intake := head.headers.foldl (Intake.line parsers (head.version == some 1))
          (Intake.start (head.version == some 0))
        let headers := H2.coalesceCookieCrumbs intake.headers
        match settleHost parsers head.version authority intake.hostValue headers with
        | none => .bad
        | some headers =>
          let framing :=
            if 1 < intake.hostCount then .reject
            else if head.version = some 0 ∧ (intake.chunked || intake.teOther) = true then .reject
            else classifyFraming parsers intake.clValues intake.chunked intake.teOther
          .done {
            method, uri, headers, headLen, framing
            keepAlive := !intake.connClose
            expectContinue := intake.expectContinue
            http10 := head.version == some 0 }

variable {name key : Octets} {values : List Octets}

/-! ## Lines by name -/

/-- The values of the lines of a name, in any letter case. -/
def linesNamed (name : Octets) (lines : List (Octets × Octets)) : List Octets :=
  (lines.filter fun line => eqIgnoreCase line.1 name).map Prod.snd

theorem linesNamed_concat {line : Octets × Octets} (lines : List (Octets × Octets))
    (same : eqIgnoreCase line.1 name = true) :
    linesNamed name (lines ++ [line]) = linesNamed name lines ++ [line.2] := by
  simp only [linesNamed, filter_append, filter_cons, same, if_true, filter_nil,
    map_append, map_cons, map_nil]

theorem linesNamed_concat_other {line : Octets × Octets} (lines : List (Octets × Octets))
    (other : ¬eqIgnoreCase line.1 name = true) :
    linesNamed name (lines ++ [line]) = linesNamed name lines := by
  simp only [linesNamed, filter_append, filter_cons, other, if_false, filter_nil,
    append_nil, Bool.false_eq_true]

theorem eqIgnoreCase_iff (lower : key.map toLower = key) :
    eqIgnoreCase name key = true ↔ name.map toLower = key := by
  rw [eqIgnoreCase, beq_iff_eq, lower]

theorem eqIgnoreCase_other {other : Octets} (lower : key.map toLower = key)
    (lowerOther : other.map toLower = other) (different : key ≠ other)
    (same : eqIgnoreCase name key = true) : ¬eqIgnoreCase name other = true := by
  rw [eqIgnoreCase_iff lower] at same
  rw [eqIgnoreCase_iff lowerOther, same]
  exact different

/-! ## The lines collected -/

/-- What the intake says about the lines seen, by the values of the three names that
frame a request. -/
structure Summary (lengths encodings hosts : List Octets) (intake : Intake) : Prop where
  clValues : intake.clValues = lengths
  chunked : intake.chunked = encodings.any teIsChunked
  teOther : intake.teOther = encodings.any (!teIsChunked ·)
  hostCount : intake.hostCount = hosts.length
  hostValue : intake.hostValue = hosts.head?
  noEncoding : intake.headers.getAll (ascii "transfer-encoding") = []
  oneLength : (intake.headers.getAll (ascii "content-length")).length ≤ 1
  forwarded : (intake.headers.getAll (ascii "host")).Sublist hosts

section lines

variable {parsers : Parsers} {lengths encodings hosts : List Octets} {intake : Intake}

theorem Summary.start (http10 : Bool) : Summary [] [] [] (Intake.start http10) where
  clValues := rfl
  chunked := rfl
  teOther := rfl
  hostCount := rfl
  hostValue := rfl
  noEncoding := rfl
  oneLength := Nat.zero_le 1
  forwarded := List.Sublist.refl []

theorem forward_eq (parsers : Parsers) (intake : Intake) (name value : Octets) :
    intake.forward parsers name value = intake ∨ (name.map toLower = ascii "content-length" →
        intake.headers.getAll (ascii "content-length") = []) ∧
      intake.forward parsers name value =
        { intake with headers := intake.headers ++ [(name.map toLower, value)] } := by
  rw [Intake.forward]
  split_ifs with valid repeated
  · exact .inl rfl
  · refine .inr ⟨fun isLength => ?_, rfl⟩
    rw [not_and, Bool.not_eq_false, List.isEmpty_iff] at repeated
    exact repeated isLength
  · exact .inl rfl

section

variable (summary : Summary lengths encodings hosts intake)
include summary

/-- A line that is forwarded is no encoding, and a host only if it is accounted for. -/
theorem Summary.forward (value : Octets) (encoding : name.map toLower ≠ ascii "transfer-encoding")
    (host : name.map toLower = ascii "host" →
      (intake.headers.getAll (ascii "host") ++ [value]).Sublist hosts) :
    Summary lengths encodings hosts (intake.forward parsers name value) := by
  rcases forward_eq parsers intake name value with same | ⟨first, same⟩
  · rwa [same]
  · rw [same]
    exact {
      summary with
      noEncoding := by
        rw [getAll_concat, summary.noEncoding, if_neg encoding]
        rfl
      oneLength := by
        rw [getAll_concat]
        split_ifs with isLength
        · rw [first isLength]
          exact Nat.le_refl 1
        · rw [append_nil]
          exact summary.oneLength
      forwarded := by
        rw [getAll_concat]
        split_ifs with isHost
        · exact host isHost
        · rw [append_nil]
          exact summary.forwarded }

theorem Summary.forward_of_ne (value : Octets)
    (encoding : name.map toLower ≠ ascii "transfer-encoding")
    (host : name.map toLower ≠ ascii "host") :
    Summary lengths encodings hosts (intake.forward parsers name value) :=
  summary.forward value encoding fun isHost => absurd isHost host

theorem Summary.connectionToken (token : Octets) :
    Summary lengths encodings hosts (intake.connectionToken token) := by
  rw [Intake.connectionToken]
  split_ifs
  · exact { summary with }
  · exact { summary with }
  · exact summary

end

theorem any_concat (p : Octets → Bool) (values : List Octets) (value : Octets) :
    (values ++ [value]).any p = (values.any p || p value) := by
  rw [any_append, any_cons, any_nil, Bool.or_false]

section

variable (summary : Summary lengths encodings hosts intake) (value : Octets)
include summary value

theorem Summary.length :
    Summary (lengths ++ [value]) encodings hosts
      { intake with clValues := intake.clValues ++ [value] } :=
  { summary with clValues := congrArg (· ++ [value]) summary.clValues }

theorem Summary.encoding : Summary lengths (encodings ++ [value]) hosts
      (if teIsChunked value then { intake with chunked := true } else
        { intake with teOther := true }) := by
  split_ifs with isChunked
  · exact {
      summary with
      chunked := by rw [any_concat, isChunked, Bool.or_true]
      teOther := by
        rw [any_concat, isChunked, Bool.not_true, Bool.or_false]
        exact summary.teOther }
  · rw [Bool.not_eq_true] at isChunked
    exact {
      summary with
      chunked := by
        rw [any_concat, isChunked, Bool.or_false]
        exact summary.chunked
      teOther := by rw [any_concat, isChunked, Bool.not_false, Bool.or_true] }

theorem Summary.host : Summary lengths encodings (hosts ++ [value])
      { intake with
        hostCount := intake.hostCount + 1
        hostValue := some (intake.hostValue.getD value) } :=
  { summary with
    hostCount := by
      rw [length_append, length_singleton, ← summary.hostCount]
    hostValue := by
      rw [summary.hostValue]
      cases hosts with
      | nil => rfl
      | cons => rfl
    forwarded := summary.forwarded.trans (sublist_append_left ..) }

end

theorem Summary.line (http11 : Bool) (lines : List (Octets × Octets))
    (summary : Summary (linesNamed (ascii "content-length") lines)
      (linesNamed (ascii "transfer-encoding") lines) (linesNamed (ascii "host") lines) intake)
    (line : Octets × Octets) : Summary (linesNamed (ascii "content-length") (lines ++ [line]))
      (linesNamed (ascii "transfer-encoding") (lines ++ [line]))
      (linesNamed (ascii "host") (lines ++ [line])) (intake.line parsers http11 line) := by
  have lowerLength : (ascii "content-length").map toLower = ascii "content-length" := by decide
  have lowerEncoding :
      (ascii "transfer-encoding").map toLower = ascii "transfer-encoding" := by decide
  have lowerHost : (ascii "host").map toLower = ascii "host" := by decide
  have expected : Summary (linesNamed (ascii "content-length") lines)
      (linesNamed (ascii "transfer-encoding") lines) (linesNamed (ascii "host") lines)
      (if eqIgnoreCase line.1 (ascii "expect") then
        { intake with expectContinue := http11 && expectIs100Continue line.2 }
      else intake) := by
    split_ifs
    · exact { summary with }
    · exact summary
  rw [Intake.line]
  revert expected
  intro expected
  split
  · rename_i isLength
    have noEncoding := eqIgnoreCase_other lowerLength lowerEncoding (by decide) isLength
    have noHost := eqIgnoreCase_other lowerLength lowerHost (by decide) isLength
    rw [linesNamed_concat lines isLength, linesNamed_concat_other lines noEncoding,
      linesNamed_concat_other lines noHost]
    rw [eqIgnoreCase_iff lowerEncoding] at noEncoding
    rw [eqIgnoreCase_iff lowerHost] at noHost
    exact (expected.length line.2).forward_of_ne line.2 noEncoding noHost
  rename_i noLength
  rw [linesNamed_concat_other lines noLength]
  split
  · rename_i isEncoding
    have noHost := eqIgnoreCase_other lowerEncoding lowerHost (by decide) isEncoding
    rw [linesNamed_concat lines isEncoding, linesNamed_concat_other lines noHost]
    exact expected.encoding line.2
  rename_i noEncoding
  rw [linesNamed_concat_other lines noEncoding]
  rw [eqIgnoreCase_iff lowerEncoding] at noEncoding
  split
  · rename_i isHost
    rw [linesNamed_concat lines isHost]
    exact (expected.host line.2).forward line.2 noEncoding fun _ =>
      expected.forwarded.append (List.Sublist.refl _)
  rename_i noHost
  rw [linesNamed_concat_other lines noHost]
  rw [eqIgnoreCase_iff lowerHost] at noHost
  split
  · have noted : Summary _ _ _ ((line.2.splitOn 44).foldl Intake.connectionToken _) :=
      foldlRecOn _ _ expected fun _ summary token _ => summary.connectionToken token
    exact noted.forward_of_ne line.2 noEncoding noHost
  · exact expected.forward_of_ne line.2 noEncoding noHost

/-- The flags after all lines describe the head. -/
theorem summary_lines (parsers : Parsers) (http11 http10 : Bool) (lines : List (Octets × Octets)) :
    Summary (linesNamed (ascii "content-length") lines)
      (linesNamed (ascii "transfer-encoding") lines)
      (linesNamed (ascii "host") lines)
      (lines.foldl (Intake.line parsers http11) (Intake.start http10)) := by
  induction lines using reverseRecOn with
  | nil => exact Summary.start http10
  | append_singleton lines line ih =>
    rw [foldl_append]
    exact Summary.line http11 lines ih line

end lines

/-! ## The framing decided -/

/-- A decimal number of one or more digits, between blanks. -/
def Denotes (value : Octets) (n : Nat) : Prop :=
  trim value ≠ [] ∧ (trim value).all isDigit = true ∧ decimal (trim value) = n

variable {parsers : Parsers}

theorem contentLength_denotes {value : Octets} {n : Nat}
    (parsed : contentLength parsers value = some n) : Denotes value n := by
  rw [contentLength] at parsed
  split_ifs at parsed with digits small
  rw [Bool.and_eq_true, Bool.and_eq_true, Bool.not_eq_true'] at digits
  refine ⟨?_, digits.2, Option.some.inj parsed⟩
  rw [← isEmpty_eq_false_iff]
  exact digits.1.2

theorem resolveContentLength_ok {out cl : Option Nat}
    (resolved : resolveContentLength parsers out values = .ok cl) :
    (∀ n, out = some n → cl = some n) ∧ (values = [] → cl = out) ∧
      ∀ value ∈ values, ∃ n, cl = some n ∧ Denotes value n := by
  induction values generalizing out with
  | nil =>
    cases resolved
    exact ⟨fun n same => same, fun _ => rfl, fun value member => nomatch member⟩
  | cons value _ ih =>
    rw [resolveContentLength] at resolved
    cases parsed : contentLength parsers value with
    | none => simp only [parsed, reduceCtorEq] at resolved
    | some n =>
      simp only [parsed] at resolved
      split_ifs at resolved with agrees
      obtain ⟨kept, -, rest⟩ := ih resolved
      refine ⟨fun previous same => ?_, nofun, fun other member => ?_⟩
      · rw [same, Option.any_some, bne_iff_ne, not_not] at agrees
        rw [kept n rfl, agrees]
      · rcases mem_cons.mp member with rfl | later
        · exact ⟨n, kept n rfl, contentLength_denotes parsed⟩
        · exact rest other later

/-- A length is decided on without an encoding, by lines that all denote it. -/
theorem classifyFraming_length {chunked teOther : Bool} {n : Nat}
    (decided : classifyFraming parsers values chunked teOther = .length n) :
    chunked = false ∧ teOther = false ∧ (∀ value ∈ values, Denotes value n) ∧
      (values = [] → n = 0) := by
  rw [classifyFraming] at decided
  cases resolved : resolveContentLength parsers none values with
  | error => simp only [resolved, reduceCtorEq] at decided
  | ok cl =>
    simp only [resolved] at decided
    split_ifs at decided with refused isChunked
    obtain ⟨-, empty, all⟩ := resolveContentLength_ok resolved
    rw [Bool.or_eq_true, not_or, Bool.not_eq_true] at refused
    have same : cl.getD 0 = n := BodyFraming.length.inj decided
    refine ⟨Bool.not_eq_true _ ▸ isChunked, refused.1, fun value member => ?_, fun none => ?_⟩
    · obtain ⟨m, found, _⟩ := all value member
      rw [found, Option.getD_some] at same
      rwa [← same]
    · rw [empty none] at same
      exact same.symm

theorem classifyFraming_chunked {chunked teOther : Bool}
    (decided : classifyFraming parsers values chunked teOther = .chunked) :
    chunked = true ∧ teOther = false ∧ values = [] := by
  rw [classifyFraming] at decided
  cases resolved : resolveContentLength parsers none values with
  | error => simp only [resolved, reduceCtorEq] at decided
  | ok =>
    simp only [resolved] at decided
    split_ifs at decided with refused isChunked
    rw [Bool.or_eq_true, not_or, Bool.not_eq_true, isChunked, Bool.true_and] at refused
    refine ⟨isChunked, refused.1, ?_⟩
    cases values with
    | nil => rfl
    | cons value =>
      obtain ⟨n, found, -⟩ := (resolveContentLength_ok resolved).2.2 value (mem_cons_self ..)
      rw [found] at refused
      exact absurd rfl refused.2

/-! ## Heads that are accepted -/

/-- The target that the head names. -/
def Head.target (head : Head) : Octets := head.path.getD (ascii "/")

/-- The lines of the head, collected. -/
def Head.intake (parsers : Parsers) (head : Head) : Intake :=
  head.headers.foldl (Intake.line parsers (head.version == some 1))
    (Intake.start (head.version == some 0))

theorem materializeHead_done {head : Head} {headLen : Nat} {request : Materialized}
    (done : materializeHead parsers head headLen = .done request) : ∃ uri authority,
      (parsers.uri head.target).bind
        (requestTarget parsers (head.method.getD (ascii "GET")) head.target) =
          some (uri, authority) ∧
      settleHost parsers head.version authority (head.intake parsers).hostValue
        (H2.coalesceCookieCrumbs (head.intake parsers).headers) = some request.headers ∧
      request.framing = if 1 < (head.intake parsers).hostCount then .reject
        else if head.version = some 0 ∧
            ((head.intake parsers).chunked || (head.intake parsers).teOther) = true then .reject
        else classifyFraming parsers (head.intake parsers).clValues (head.intake parsers).chunked
          (head.intake parsers).teOther := by
  rw [materializeHead] at done
  dsimp only at done
  split at done
  · nomatch done
  split at done
  · nomatch done
  split at done
  · nomatch done
  split at done
  · nomatch done
  · rename_i uri authority target
    split at done
    · nomatch done
    · rename_i headers settled
      cases done
      exact ⟨uri, authority, target, settled, rfl⟩

/-- An authority is taken from the target just when it is neither a path nor `*`. -/
theorem requestTarget_authority {method raw : Octets} {uri origin : Uri}
    {authority : Option Octets}
    (found : requestTarget parsers method raw uri = some (origin, authority)) :
    if raw = ascii "*" ∨ raw.head? = some 47 then authority = none
    else ∃ text, authority = some text ∧ uri.authority = some text ∧
      validHttpAuthority parsers text = true := by
  rw [requestTarget] at found
  split at found
  · rename_i star
    rw [if_pos (.inl star)]
    split_ifs at found
    exact (congrArg Prod.snd (Option.some.inj found)).symm
  · rename_i star
    split at found
    · rename_i path
      rw [if_pos (.inr path)]
      split_ifs at found
      exact (congrArg Prod.snd (Option.some.inj found)).symm
    · rename_i path
      rw [if_neg (not_or.mpr ⟨star, path⟩)]
      obtain ⟨scheme, -, found⟩ := Option.bind_eq_some_iff.mp found
      split at found
      · nomatch found
      obtain ⟨text, named, found⟩ := Option.bind_eq_some_iff.mp found
      split at found
      · nomatch found
      rename_i valid
      obtain ⟨_, -, found⟩ := Option.bind_eq_some_iff.mp found
      refine ⟨text, (congrArg Prod.snd (Option.some.inj found)).symm, named, ?_⟩
      rwa [Bool.not_eq_true, Bool.not_eq_false'] at valid

/-- What framing a request means for whoever reads the head after this server. -/
structure Framed (parsers : Parsers) (head : Head) (request : Materialized) : Prop where
  length : ∀ n, request.framing = .length n →
    linesNamed (ascii "transfer-encoding") head.headers = [] ∧
      (∀ value ∈ linesNamed (ascii "content-length") head.headers, Denotes value n) ∧
      (linesNamed (ascii "content-length") head.headers = [] → n = 0)
  chunked : request.framing = .chunked →
    head.version = some 1 ∧
      (∃ value, linesNamed (ascii "transfer-encoding") head.headers = [value] ∧
        eqIgnoreCase (trim value) (ascii "chunked") = true) ∧
      linesNamed (ascii "content-length") head.headers = []
  oneHost : request.framing ≠ .reject → (linesNamed (ascii "host") head.headers).length ≤ 1
  noEncoding : request.framing ≠ .reject → request.headers.getAll (ascii "transfer-encoding") = []
  oneLength : request.framing ≠ .reject →
    (request.headers.getAll (ascii "content-length")).length ≤ 1
  oneAuthority : request.framing ≠ .reject → (request.headers.getAll (ascii "host")).length ≤ 1
  validAuthority : request.framing ≠ .reject →
    ∀ value ∈ request.headers.getAll (ascii "host"), validHttpAuthority parsers value = true
  /-- A target in absolute form gives the host. -/
  targetAuthority : request.framing ≠ .reject → head.target ≠ ascii "*" →
    head.target.head? ≠ some 47 →
    ∃ uri authority, parsers.uri head.target = some uri ∧ uri.authority = some authority ∧
      request.headers.getAll (ascii "host") = [authority]

section accepted

variable {parsers : Parsers} {head : Head} {headLen : Nat} {request : Materialized}

theorem Head.summary (parsers : Parsers) (head : Head) :
    Summary (linesNamed (ascii "content-length") head.headers)
      (linesNamed (ascii "transfer-encoding") head.headers) (linesNamed (ascii "host") head.headers)
      (head.intake parsers) :=
  summary_lines parsers _ _ head.headers

section

variable (done : materializeHead parsers head headLen = .done request)
include done

/-- A framing other than a refusal is that of the lines, of a head with one host. -/
theorem framing_decided (accepted : request.framing ≠ .reject) :
    (linesNamed (ascii "host") head.headers).length ≤ 1 ∧ ¬(head.version = some 0 ∧
        ((head.intake parsers).chunked || (head.intake parsers).teOther) = true) ∧
      request.framing = classifyFraming parsers (linesNamed (ascii "content-length") head.headers)
        (head.intake parsers).chunked (head.intake parsers).teOther := by
  obtain ⟨-, -, -, -, decided⟩ := materializeHead_done done
  rw [(head.summary parsers).clValues, (head.summary parsers).hostCount] at decided
  split_ifs at decided with hosts old
  · exact absurd decided accepted
  · exact absurd decided accepted
  · exact ⟨Nat.not_lt.mp hosts, old, decided⟩

/-- The lines that frame a body as chunks. -/
theorem framing_chunked_iff : request.framing = .chunked ↔
    head.version = some 1 ∧ (linesNamed (ascii "host") head.headers).length ≤ 1 ∧
      linesNamed (ascii "content-length") head.headers = [] ∧
      linesNamed (ascii "transfer-encoding") head.headers ≠ [] ∧
      ∀ value ∈ linesNamed (ascii "transfer-encoding") head.headers,
        eqIgnoreCase (trim value) (ascii "chunked") = true := by
  have summary := head.summary parsers
  constructor
  · intro isChunked
    have accepted : request.framing ≠ .reject := fun refused => nomatch isChunked.symm.trans refused
    obtain ⟨hosts, recent, decided⟩ := framing_decided done accepted
    obtain ⟨coded, plain, empty⟩ := classifyFraming_chunked (decided.symm.trans isChunked)
    refine ⟨head.complete.resolve_left fun old => recent ⟨old, by rw [coded, Bool.true_or]⟩, hosts,
      empty, fun none => ?_, fun value member => ?_⟩
    · rw [summary.chunked, none] at coded
      nomatch coded
    · rw [summary.teOther, any_eq_false] at plain
      have coding := plain value member
      rw [Bool.not_eq_true, Bool.not_eq_false'] at coding
      exact coding
  · rintro ⟨recent, hosts, empty, named, coded⟩
    obtain ⟨value, member⟩ := exists_mem_of_ne_nil _ named
    have chunked : (head.intake parsers).chunked = true := by
      rw [summary.chunked, any_eq_true]
      exact ⟨value, member, coded value member⟩
    have plain : (head.intake parsers).teOther = false := by
      rw [summary.teOther, any_eq_false]
      exact fun other isOther => by rw [teIsChunked, coded other isOther]; decide
    obtain ⟨-, -, -, -, decided⟩ := materializeHead_done done
    rw [summary.clValues, summary.hostCount, if_neg (Nat.not_lt.mpr hosts), recent, empty, chunked,
      plain, if_neg fun old => nomatch old.1] at decided
    exact decided

/-- The settled host is the target's, or the one of the lines. -/
theorem hosts_settled (accepted : request.framing ≠ .reject) :
    if head.target = ascii "*" ∨ head.target.head? = some 47 then
      request.headers.getAll (ascii "host") = [] ∨
        ∃ value, request.headers.getAll (ascii "host") = [value] ∧
          validHttpAuthority parsers value = true
    else ∃ uri authority, parsers.uri head.target = some uri ∧ uri.authority = some authority ∧
      request.headers.getAll (ascii "host") = [authority] ∧
        validHttpAuthority parsers authority = true := by
  obtain ⟨_, _, target, settled, -⟩ := materializeHead_done done
  obtain ⟨uri, parsed, target⟩ := Option.bind_eq_some_iff.mp target
  have named := requestTarget_authority target
  have summary := head.summary parsers
  have forwarded := summary.forwarded
  rw [← getAll_coalesceCookieCrumbs (by decide : ascii "cookie" ≠ ascii "host")] at forwarded
  split_ifs at named ⊢ with form
  · rw [named, settleHost.eq_def, summary.hostValue] at settled
    have few := (framing_decided done accepted).1
    cases hosts : linesNamed (ascii "host") head.headers with
    | nil =>
      rw [hosts] at settled forwarded
      simp only [head?_nil] at settled
      split_ifs at settled
      rw [← Option.some.inj settled]
      exact .inl (sublist_nil.mp forwarded)
    | cons value rest =>
      rw [hosts, length_cons] at few
      have alone : rest = [] := length_eq_zero_iff.mp (by omega)
      subst alone
      rw [hosts] at settled forwarded
      simp only [head?_cons] at settled
      split_ifs at settled with valid
      rw [← Option.some.inj settled]
      rcases sublist_singleton.mp forwarded with none | one
      · exact .inl none
      · exact .inr ⟨value, one, (Bool.and_eq_true _ _ ▸ valid).2⟩
  · obtain ⟨text, rfl, isAuthority, valid⟩ := named
    rw [settleHost] at settled
    split_ifs at settled
    refine ⟨uri, text, parsed, isAuthority, ?_, valid⟩
    rw [← Option.some.inj settled, getAll_insert]

/-- A key other than `host` and `cookie` reads the lines as forwarded. -/
theorem getAll_settled (host : ascii "host" ≠ key) (cookie : ascii "cookie" ≠ key) :
    request.headers.getAll key = (head.intake parsers).headers.getAll key := by
  obtain ⟨-, _, -, settled, -⟩ := materializeHead_done done
  rw [settleHost.eq_def] at settled
  split at settled
  · split_ifs at settled
    rw [← Option.some.inj settled, getAll_insert_of_ne host, getAll_coalesceCookieCrumbs cookie]
  · split at settled <;>
    · split_ifs at settled
      rw [← Option.some.inj settled, getAll_coalesceCookieCrumbs cookie]

end

/-- A request is framed by lines that leave nobody another reading, unless the `chunked` coding is
named by several lines. -/
theorem materializeHead_framed_iff (done : materializeHead parsers head headLen = .done request) :
    Framed parsers head request ↔
      ¬(head.version = some 1 ∧ (linesNamed (ascii "host") head.headers).length ≤ 1 ∧
        linesNamed (ascii "content-length") head.headers = [] ∧
        2 ≤ (linesNamed (ascii "transfer-encoding") head.headers).length ∧
        ∀ value ∈ linesNamed (ascii "transfer-encoding") head.headers,
          eqIgnoreCase (trim value) (ascii "chunked") = true) := by
  have summary := head.summary parsers
  have decides := framing_chunked_iff done
  constructor
  · rintro framed ⟨recent, hosts, empty, several, coded⟩
    have isChunked := decides.mpr ⟨recent, hosts, empty, fun none => ?_, coded⟩
    · obtain ⟨-, ⟨value, one, -⟩, -⟩ := framed.chunked isChunked
      rw [one] at several
      exact absurd several (by simp)
    · rw [none] at several
      exact absurd several (by simp)
  · intro lone
    refine ⟨fun n isLength => ?_, fun isChunked => ?_, fun accepted =>
      (framing_decided done accepted).1,
      fun _ => ?_, fun _ => ?_, fun accepted => ?_, fun accepted value member => ?_,
      fun accepted star path => ?_⟩
    · have accepted : request.framing ≠ .reject :=
        fun refused => nomatch isLength.symm.trans refused
      obtain ⟨-, -, decided⟩ := framing_decided done accepted
      obtain ⟨notChunked, notOther, denote, zero⟩ :=
        classifyFraming_length (decided.symm.trans isLength)
      refine ⟨?_, denote, zero⟩
      rw [summary.chunked, any_eq_false] at notChunked
      rw [summary.teOther, any_eq_false] at notOther
      refine eq_nil_iff_forall_not_mem.mpr fun value member => ?_
      exact notOther value member
        (by rw [Bool.not_eq_true', ← Bool.not_eq_true]; exact notChunked value member)
    · obtain ⟨recent, hosts, empty, named, coded⟩ := decides.mp isChunked
      refine ⟨recent, ?_, empty⟩
      have one : (linesNamed (ascii "transfer-encoding") head.headers).length = 1 :=
        Nat.le_antisymm (Nat.not_lt.mp fun several => lone ⟨recent, hosts, empty, several, coded⟩)
          (length_pos_iff.mpr named)
      obtain ⟨value, same⟩ := length_eq_one_iff.mp one
      exact ⟨value, same, coded value (by rw [same]; exact mem_singleton_self value)⟩
    · rw [getAll_settled done (by decide) (by decide)]
      exact summary.noEncoding
    · rw [getAll_settled done (by decide) (by decide)]
      exact summary.oneLength
    · have settled := hosts_settled done accepted
      split_ifs at settled
      · rcases settled with none | ⟨_, one, -⟩
        · rw [none]
          exact Nat.zero_le 1
        · rw [one]
          exact Nat.le_refl 1
      · obtain ⟨uri, authority, -, -, one, -⟩ := settled
        rw [one]
        exact Nat.le_refl 1
    · have settled := hosts_settled done accepted
      split_ifs at settled
      · rcases settled with none | ⟨_, one, valid⟩
        · rw [none] at member
          nomatch member
        · rw [one, mem_singleton] at member
          rwa [member]
      · obtain ⟨uri, authority, -, -, one, _⟩ := settled
        rw [one, mem_singleton] at member
        rwa [member]
    · have settled := hosts_settled done accepted
      rw [if_neg (not_or.mpr ⟨star, path⟩)] at settled
      obtain ⟨uri, authority, parsed, named, one, -⟩ := settled
      exact ⟨uri, authority, parsed, named, one⟩

end accepted

/-- A request with a host and further lines. -/
def post (lines : List (Octets × Octets)) : Head where
  method := some (ascii "POST")
  path := some (ascii "/")
  version := some 1
  headers := (ascii "Host", ascii "a") :: lines
  complete := .inr rfl

/-- The request it becomes, with the lines that are forwarded. -/
def posted (framing : BodyFraming) (kept : Headers) : Materialized where
  method := ascii "POST"
  uri := ⟨none, none, some (ascii "/")⟩
  headers := (ascii "host", ascii "a") :: kept
  headLen := 0
  framing := framing
  keepAlive := true
  expectContinue := false
  http10 := false

/-- Equal lengths in two letter cases are one length. -/
theorem repeatedLength_framed :
    materializeHead H2.plainParsers
        (post [(ascii "Content-Length", ascii "3"), (ascii "content-length", ascii " 03")]) 0 =
      .done (posted (.length 3) [(ascii "content-length", ascii "3")]) ∧
    Framed H2.plainParsers
      (post [(ascii "Content-Length", ascii "3"), (ascii "content-length", ascii " 03")])
      (posted (.length 3) [(ascii "content-length", ascii "3")]) := by
  have done : materializeHead H2.plainParsers
      (post [(ascii "Content-Length", ascii "3"), (ascii "content-length", ascii " 03")]) 0 =
    .done (posted (.length 3) [(ascii "content-length", ascii "3")]) := rfl
  exact ⟨done, (materializeHead_framed_iff done).mpr fun recoded => nomatch recoded.2.2.1⟩

/-- Two lines that each name the coding are accepted, though not one line. -/
theorem repeatedCoding_accepted :
    materializeHead H2.plainParsers
        (post [(ascii "Transfer-Encoding", ascii "chunked"),
          (ascii "Transfer-Encoding", ascii "chunked")]) 0 =
      .done (posted .chunked []) ∧
    ¬Framed H2.plainParsers
      (post [(ascii "Transfer-Encoding", ascii "chunked"),
        (ascii "Transfer-Encoding", ascii "chunked")])
      (posted .chunked []) := by
  refine ⟨rfl, fun framed => ?_⟩
  obtain ⟨-, ⟨_, one, -⟩, -⟩ := framed.chunked rfl
  have two :
      (linesNamed (ascii "transfer-encoding") (post [(ascii "Transfer-Encoding", ascii "chunked"),
    (ascii "Transfer-Encoding", ascii "chunked")]).headers).length = 2 := by decide
  rw [one] at two
  nomatch two

end HttpJet.H1
