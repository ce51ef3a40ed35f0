import HttpJet.H2.Serve

/-!
# Request header blocks

`FieldScan.Accepts` says which fields leave a request block well formed and what is noted of each;
`WellFormed` reads a request off the list of its fields.  A block comes in one HEADERS frame, or in
CONTINUATION frames too.  The connection ends up in the same state but for the frames counted: what
is decoded is the block they make up.
-/

namespace HttpJet.H2

open Hpack Hpack.Integer Hpack.StaticTable Library List Option
open HashMap

variable {name : Octets}

/-- A pseudo-header's name begins with a colon. -/
def IsPseudo (field : Field) : Prop := field.1.head? = some 58

/-- A regular field of a request. -/
structure RegularField (parsers : Parsers) (field : Field) : Prop where
  regular : ¬IsPseudo field
  token : parsers.headerName field.1 = true
  lower : field.1.any isUpper = false
  value : parsers.headerValue field.2 = true
  edges : FieldScan.edgeBlank field.2 = false
  endToEnd : isConnectionSpecificRequestHeader field.1 = false
  te : field.1 = ascii "te" → eqIgnoreCase field.2 (ascii "trailers") = true

variable {parsers : Parsers}

theorem RegularField.name_ne {field : Field}
    (lawful : RegularField parsers field) (colon : name.head? = some 58) : field.1 ≠ name := by
  intro same
  refine lawful.regular ?_
  rw [IsPseudo, same]
  exact colon

namespace FieldScan

variable {value : Octets} {values : List Octets} {P : Octets → Prop}

/-- The fields that leave a request block well formed, and what is noted of each. -/
inductive Accepts (parsers : Parsers) (scan : FieldScan) : Field → FieldScan → Prop
  | method {value : Octets} (first : scan.seenRegular = false) (fresh : scan.seenMethod = false)
      (valid : parsers.method value = true) :
      Accepts parsers scan (ascii ":method", value)
        { scan with seenMethod := true, st := { scan.st with method := some value } }
  | scheme {value : Octets} (first : scan.seenRegular = false) (fresh : scan.seenScheme = false)
      (valid : validUriScheme value = true) :
      Accepts parsers scan (ascii ":scheme", value)
        { scan with
          seenScheme := true
          schemeIsHttp := eqIgnoreCase value (ascii "http") || eqIgnoreCase value (ascii "https") }
  | path {value : Octets} {uri : Uri} (first : scan.seenRegular = false)
      (fresh : scan.seenPath = false)
      (form : value = ascii "*" ∨ value.head? = some 47) (parsed : parsers.uri value = some uri) :
      Accepts parsers scan (ascii ":path", value)
        { scan with
          seenPath := true
          pathIsAsterisk := value == ascii "*"
          st := { scan.st with path := some uri } }
  | authority {value : Octets} (first : scan.seenRegular = false)
      (fresh : scan.seenAuthority = false)
      (valid : validUriAuthority parsers value = true) :
      Accepts parsers scan (ascii ":authority", value)
        { scan with seenAuthority := true, st := { scan.st with authority := some value } }
  | length {value : Octets} {n : Nat}
      (regular : RegularField parsers (ascii "content-length", value))
      (nonempty : value ≠ []) (digits : value.all isDigit = true) (parsed : parseU64 value = some n)
      (agrees : scan.st.contentLength.all (· == n) = true) :
      Accepts parsers scan (ascii "content-length", value)
        ({ scan with seenRegular := true, st := { scan.st with contentLength := some n } }.append
          (ascii "content-length") value)
  | host {value : Octets} (regular : RegularField parsers (ascii "host", value))
      (fresh : scan.hostValue = none) :
      Accepts parsers scan (ascii "host", value)
        ({ scan with seenRegular := true, hostValue := some value }.append (ascii "host") value)
  | other {field : Field} (regular : RegularField parsers field)
      (notLength : field.1 ≠ ascii "content-length") (notHost : field.1 ≠ ascii "host") :
      Accepts parsers scan field ({ scan with seenRegular := true }.append field.1 field.2)

section field

variable {parsers : Parsers} {scan : FieldScan} {field : Field}

theorem pseudoField_accepts
      (sound : (scan.pseudoField parsers false name value).malformed = false) :
    Accepts parsers scan (name, value) (scan.pseudoField parsers false name value) := by
  rw [pseudoField] at sound ⊢
  split_ifs at sound ⊢ with late notText isMethod isScheme isPath isAuthority
  · nomatch sound
  · nomatch sound
  all_goals
    rw [Bool.false_or, Bool.not_eq_true] at late
  · subst isMethod
    rw [methodField] at sound ⊢
    split_ifs at sound ⊢ with seen valid
    · nomatch sound
    · exact .method late (Bool.not_eq_true _ ▸ seen) valid
    · nomatch sound
  · subst isScheme
    rw [schemeField] at sound ⊢
    split_ifs at sound ⊢ with seen valid
    · nomatch sound
    · exact .scheme late (Bool.not_eq_true _ ▸ seen) valid
    · nomatch sound
  · subst isPath
    rw [pathField] at sound ⊢
    split_ifs at sound ⊢ with seen form
    · nomatch sound
    · nomatch sound
    · split at sound
      · rename_i uri parsed
        split_ifs at sound ⊢
        · refine .path late (Bool.not_eq_true _ ▸ seen) ?_ parsed
          rw [Bool.or_eq_true, not_or, Bool.and_eq_true, not_and_or, bne_iff_ne,
            bne_iff_ne, not_not,
            not_not] at form
          exact form.2
        · nomatch sound
      · nomatch sound
  · subst isAuthority
    rw [authorityField] at sound ⊢
    split_ifs at sound ⊢ with seen valid
    · nomatch sound
    · exact .authority late (Bool.not_eq_true _ ▸ seen) (Bool.and_eq_true _ _ ▸ valid).1
    · nomatch sound
  · nomatch sound

theorem passes {bad : Prop} [Decidable bad] {rest : FieldScan}
    (sound : (if bad then scan.reject else rest).malformed = false) : ¬bad := by
  rintro holds
  rw [if_pos holds] at sound
  nomatch sound

/-- What is left of `regularField` once the syntax of the field has been checked. -/
theorem regularField_eq (regular : ¬IsPseudo (name, value))
    (sound : (scan.regularField parsers false name value).malformed = false) :
    RegularField parsers (name, value) ∧ scan.regularField parsers false name value =
        let scan := { scan with seenRegular := true }
        let scan := if name = ascii "content-length" then scan.contentLengthField value else scan
        if scan.malformed then scan
        else
          let scan := if name = ascii "host" then scan.hostField value else scan
          if scan.malformed then scan else scan.append name value := by
  rw [regularField] at sound ⊢
  have text := passes sound
  rw [if_neg text] at sound ⊢
  have upper := passes sound
  rw [if_neg upper] at sound ⊢
  have hopByHop := passes sound
  rw [if_neg hopByHop] at sound ⊢
  have te := passes sound
  rw [if_neg te] at sound ⊢
  have invalid := passes sound
  rw [if_neg invalid] at sound ⊢
  simp only [Bool.or_eq_true, Bool.not_eq_true', not_or, Bool.not_eq_false,
    Bool.not_eq_true] at invalid
  refine ⟨⟨regular, invalid.1.1, Bool.not_eq_true _ ▸ upper, invalid.1.2, invalid.2,
    Bool.not_eq_true _ ▸ hopByHop, fun isTe => ?_⟩, rfl⟩
  rw [decide_eq_true isTe, Bool.true_and, Bool.not_eq_true', Bool.not_eq_false] at te
  exact te

theorem contentLengthField_eq (sound : (scan.contentLengthField value).malformed = false) :
    value ≠ [] ∧ value.all isDigit = true ∧ ∃ n, parseU64 value = some n ∧
      scan.st.contentLength.all (· == n) = true ∧
      scan.contentLengthField value =
        { scan with st := { scan.st with contentLength := some n } } := by
  rw [contentLengthField] at sound ⊢
  have digits := passes sound
  rw [if_neg digits] at sound ⊢
  rw [Bool.or_eq_true, not_or, List.isEmpty_iff, Bool.not_eq_true', Bool.not_eq_false] at digits
  refine ⟨digits.1, digits.2, ?_⟩
  cases parsed : parseU64 value with
  | none =>
    rw [parsed] at sound
    nomatch sound
  | some n =>
    rw [parsed] at sound
    dsimp only at sound ⊢
    split_ifs at sound with agrees
    · exact ⟨n, rfl, agrees, if_pos agrees⟩
    · nomatch sound

theorem regularField_accepts (sane : scan.malformed = false) (regular : ¬IsPseudo (name, value))
    (sound : (scan.regularField parsers false name value).malformed = false) :
    Accepts parsers scan (name, value) (scan.regularField parsers false name value) := by
  obtain ⟨syntactic, same⟩ := regularField_eq regular sound
  rw [same] at sound ⊢
  have unmarked : ¬scan.malformed = true := by rw [sane]; exact Bool.false_ne_true
  by_cases isLength : name = ascii "content-length"
  · subst isLength
    have notHost : ascii "content-length" ≠ ascii "host" := by decide
    simp only [if_true, if_neg notHost] at sound ⊢
    split_ifs at sound ⊢ with bad
    · nomatch bad.symm.trans sound
    · obtain ⟨nonempty, digits, n, parsed, agrees, noted⟩ :=
        contentLengthField_eq (Bool.not_eq_true _ ▸ bad)
      rw [noted]
      exact .length syntactic nonempty digits parsed agrees
  · simp only [if_neg isLength, if_neg unmarked] at sound ⊢
    by_cases isHost : name = ascii "host"
    · subst isHost
      simp only [if_true, hostField] at sound ⊢
      by_cases seen : scan.hostValue.isSome = true
      · simp only [if_pos seen, reject, if_true, Bool.true_eq_false] at sound
      · simp only [if_neg seen, if_neg unmarked]
        exact .host syntactic (not_isSome_iff_eq_none.mp seen)
    · simp only [if_neg isHost, if_neg unmarked]
      exact .other syntactic isLength isHost

/-- A field that does not spoil the block is accepted. -/
theorem field_accepts (sound : (scan.field parsers false field).malformed = false) :
    scan.malformed = false ∧ Accepts parsers scan field (scan.field parsers false field) := by
  rw [FieldScan.field] at sound ⊢
  by_cases spoiled : scan.malformed = true
  · rw [if_pos spoiled, spoiled] at sound
    nomatch sound
  · have sane := Bool.not_eq_true _ ▸ spoiled
    split_ifs at sound ⊢ with pseudo
    · exact ⟨sane, pseudoField_accepts sound⟩
    · exact ⟨sane, regularField_accepts sane pseudo sound⟩

end field

/-- A pseudo-header seen once with a value that satisfies `P`, or not seen. -/
def Once (seen : Bool) (values : List Octets) (P : Octets → Prop) : Prop :=
  if seen then ∃ value, values = [value] ∧ P value else values = []

section

variable {met : Bool} (once : Once met values P)
include once

theorem Once.seen (here : met = true) : ∃ value, values = [value] ∧ P value := by
  rwa [here] at once

theorem Once.first {Q : Octets → Prop} (fresh : met = false) (holds : Q value) :
    Once true (values ++ [value]) Q := by
  rw [fresh] at once
  obtain rfl : values = [] := once
  exact ⟨value, rfl, holds⟩

theorem Once.toList : ∃ only : Option Octets, values = only.toList ∧ ∀ value ∈ only, P value := by
  cases met with
  | false => exact ⟨none, once, fun _ member => nomatch member⟩
  | true =>
    obtain ⟨value, rfl, holds⟩ := once
    exact ⟨some value, rfl, fun _ member => some.inj member ▸ holds⟩

end

/-- What a scan without objection says about the fields it has seen, by their values. -/
structure Scanned (parsers : Parsers) (before : Headers) (pseudo regular : List Field)
    (methods schemes paths authorities lengths hosts : List Octets) (scan : FieldScan) : Prop where
  named : ∀ field ∈ pseudo, IsPseudo field ∧
    field.1 ∈ [ascii ":method", ascii ":scheme", ascii ":path", ascii ":authority"]
  lawful : ∀ field ∈ regular, RegularField parsers field
  order : scan.seenRegular = false → regular = []
  headers : scan.st.headers = before ++ regular
  method : Once scan.seenMethod methods fun value =>
    parsers.method value = true ∧ scan.st.method = some value
  scheme : Once scan.seenScheme schemes fun value => validUriScheme value = true
  path : Once scan.seenPath paths fun value =>
    (value = ascii "*" ∨ value.head? = some 47) ∧ scan.pathIsAsterisk = (value == ascii "*") ∧
      ∃ uri, parsers.uri value = some uri ∧ scan.st.path = some uri
  authority : Once scan.seenAuthority authorities fun value => scan.st.authority = some value
  lengths : ∀ value ∈ lengths, value ≠ [] ∧ value.all isDigit = true ∧
    parseU64 value = scan.st.contentLength ∧ scan.st.contentLength.isSome = true
  hosts : hosts = scan.hostValue.toList

/-- A scan of `fields`: pseudo-headers, then regular fields. -/
def Seen (parsers : Parsers) (before : Headers) (fields : List Field) (scan : FieldScan) : Prop :=
  ∃ pseudo regular, fields = pseudo ++ regular ∧
    Scanned parsers before pseudo regular (Headers.getAll fields (ascii ":method"))
      (Headers.getAll fields (ascii ":scheme")) (Headers.getAll fields (ascii ":path"))
      (Headers.getAll fields (ascii ":authority")) (Headers.getAll fields (ascii "content-length"))
      (Headers.getAll fields (ascii "host")) scan

section seen

variable {parsers : Parsers} {before : Headers} {fields pseudo regular : List Field}
  {methods schemes paths authorities lengths hosts : List Octets} {scan : FieldScan}

section

variable
  (scanned : Scanned parsers before pseudo regular methods schemes paths authorities
    lengths hosts scan)
include scanned

theorem Scanned.named_concat {field : Field} (isPseudo : IsPseudo field)
    (known : field.1 ∈ [ascii ":method", ascii ":scheme", ascii ":path", ascii ":authority"]) :
    ∀ other ∈ pseudo ++ [field], IsPseudo other ∧
      other.1 ∈ [ascii ":method", ascii ":scheme", ascii ":path", ascii ":authority"] := by
  intro other member
  rcases mem_append.mp member with earlier | here
  · exact scanned.named other earlier
  · rw [mem_singleton.mp here]
    exact ⟨isPseudo, known⟩

theorem Scanned.lawful_concat {field : Field} (lawful : RegularField parsers field) :
    ∀ other ∈ regular ++ [field], RegularField parsers other := by
  intro other member
  rcases mem_append.mp member with earlier | here
  · exact scanned.lawful other earlier
  · rwa [mem_singleton.mp here]

theorem Scanned.headers_concat (field : Field) :
    scan.st.headers ++ [field] = before ++ (regular ++ [field]) := by
  rw [scanned.headers, append_assoc]

end

theorem Seen.accepts (seen : Seen parsers before fields scan) {field : Field} {scan' : FieldScan}
    (accepts : Accepts parsers scan field scan') :
    Seen parsers before (fields ++ [field]) scan' := by
  obtain ⟨pseudo, regular, rfl, scanned⟩ := seen
  cases accepts
  -- No regular field has been seen before a pseudo-header.
  case' method first fresh valid | scheme first fresh valid | path first fresh form parsed
      | authority first fresh _ =>
    obtain rfl := scanned.order first
    rw [append_nil] at scanned ⊢
    refine ⟨pseudo ++ [_], [], (append_nil _).symm, ?_⟩
    simp (disch := decide) only [Headers.getAll_concat_self, Headers.getAll_concat_of_ne]
  case' length lawful nonempty digits parsed agrees | host lawful fresh =>
    refine ⟨pseudo, regular ++ [_], append_assoc .., ?_⟩
    simp (disch := decide) only [Headers.getAll_concat_self, Headers.getAll_concat_of_ne]
  case method =>
    exact {
      scanned with
      named := scanned.named_concat rfl (by simp)
      method := scanned.method.first fresh ⟨valid, rfl⟩ }
  case scheme =>
    exact {
      scanned with
      named := scanned.named_concat rfl (by simp)
      scheme := scanned.scheme.first fresh valid }
  case path =>
    exact {
      scanned with
      named := scanned.named_concat rfl (by simp)
      path := scanned.path.first fresh ⟨form, rfl, _, parsed, rfl⟩ }
  case authority =>
    exact {
      scanned with
      named := scanned.named_concat rfl (by simp)
      authority := scanned.authority.first fresh rfl }
  case length =>
    exact {
      scanned with
      lawful := scanned.lawful_concat lawful
      order := nofun
      headers := scanned.headers_concat _
      lengths := by
        intro value member
        rcases mem_append.mp member with earlier | here
        · obtain ⟨some, digits, same, present⟩ := scanned.lengths value earlier
          refine ⟨some, digits, ?_, rfl⟩
          obtain ⟨m, found⟩ := isSome_iff_exists.mp present
          rw [found, all_some, beq_iff_eq] at agrees
          rw [same, found, agrees]
          rfl
        · rw [mem_singleton.mp here]
          exact ⟨nonempty, digits, parsed, rfl⟩ }
  case host =>
    exact {
      scanned with
      lawful := scanned.lawful_concat lawful
      order := nofun
      headers := scanned.headers_concat _
      hosts := by
        rw [scanned.hosts, fresh]
        rfl }
  case other lawful notLength notHost =>
    obtain ⟨_, _⟩ := field
    refine ⟨pseudo, regular ++ [_], append_assoc .., ?_⟩
    rw [Headers.getAll_concat_of_ne (ascii ":method") (lawful.name_ne rfl),
      Headers.getAll_concat_of_ne (ascii ":scheme") (lawful.name_ne rfl),
      Headers.getAll_concat_of_ne (ascii ":path") (lawful.name_ne rfl),
      Headers.getAll_concat_of_ne (ascii ":authority") (lawful.name_ne rfl),
      Headers.getAll_concat_of_ne (ascii "content-length") notLength,
      Headers.getAll_concat_of_ne (ascii "host") notHost]
    exact {
      scanned with
      lawful := scanned.lawful_concat lawful
      order := nofun
      headers := scanned.headers_concat _ }

/-- A block is scanned field by field; an objection stays. -/
theorem seen_fields {st : StreamState} (sound :
    (fields.foldl (FieldScan.field parsers false) { st := st }).malformed = false) :
    Seen parsers st.headers fields (fields.foldl (FieldScan.field parsers false) { st := st }) := by
  induction fields using reverseRecOn with
  | nil =>
    refine ⟨[], [], rfl, ?_⟩
    exact {
      named := fun field member => nomatch member
      lawful := fun field member => nomatch member
      order := fun _ => rfl
      headers := (append_nil _).symm
      method := rfl
      scheme := rfl
      path := rfl
      authority := rfl
      lengths := fun value member => nomatch member
      hosts := rfl }
  | append_singleton _ _ ih =>
    rw [foldl_append] at sound ⊢
    obtain ⟨sane, accepts⟩ := field_accepts sound
    exact (ih sane).accepts accepts

end seen

end FieldScan

/-! ## Requests -/

/-- A request read off the fields of its block. -/
structure WellFormed (parsers : Parsers) (before : Headers) (fields : List Field)
    (st : StreamState) :
    Prop where
  order : ∃ pseudo regular, fields = pseudo ++ regular ∧ (∀ field ∈ pseudo, IsPseudo field) ∧
    (∀ field ∈ regular, ¬IsPseudo field) ∧ st.headers = before ++ regular
  known : ∀ field ∈ fields, IsPseudo field →
    field.1 ∈ [ascii ":method", ascii ":scheme", ascii ":path", ascii ":authority"]
  method : ∃ value, Headers.getAll fields (ascii ":method") = [value] ∧ value ≠ ascii "CONNECT" ∧
    st.method = some value
  scheme : ∃ value, Headers.getAll fields (ascii ":scheme") = [value]
  path : ∃ value uri, Headers.getAll fields (ascii ":path") = [value] ∧
    (value.head? = some 47 ∨ value = ascii "*" ∧ st.method = some (ascii "OPTIONS")) ∧
    parsers.uri value = some uri ∧ st.path = some uri
  authority : (Headers.getAll fields (ascii ":authority")).length ≤ 1
  regular : ∀ field ∈ fields, ¬IsPseudo field → RegularField parsers field
  lengths : ∀ value ∈ Headers.getAll fields (ascii "content-length"), value ≠ [] ∧
    value.all isDigit = true ∧ parseU64 value = st.contentLength ∧ st.contentLength.isSome = true
  host : (Headers.getAll fields (ascii "host")).length ≤ 1
  agree : ∀ authority ∈ Headers.getAll fields (ascii ":authority"),
    ∀ host ∈ Headers.getAll fields (ascii "host"), authority = host

open FieldScan in
/-- The last checks turn a scan without objection into a request. -/
theorem FieldScan.Seen.wellFormed {before : Headers} {fields : List Field}
    {scan : FieldScan} (seen : Seen parsers before fields scan)
    (ok : scan.requestOk parsers = true) :
    WellFormed parsers before fields { scan.st with headersDone := true } := by
  obtain ⟨pseudo, regular, split, scanned⟩ := seen
  simp only [requestOk, Bool.and_eq_true] at ok
  obtain ⟨⟨⟨⟨⟨⟨⟨hasMethod, hasScheme⟩, hasPath⟩, notConnect⟩, asterisk⟩, -⟩, -⟩, agrees⟩ := ok
  obtain ⟨verb, oneMethod, -, isVerb⟩ := scanned.method.seen hasMethod
  obtain ⟨schemeText, oneScheme, -⟩ := scanned.scheme.seen hasScheme
  obtain ⟨target, onePath, form, isAsterisk, uri, parsed, isPath⟩ := scanned.path.seen hasPath
  obtain ⟨authority, oneAuthority, isAuthority⟩ := scanned.authority.toList
  refine ⟨⟨pseudo, regular, split, fun field member => (scanned.named field member).1,
      fun field member => (scanned.lawful field member).regular, scanned.headers⟩, ?_,
    ⟨verb, oneMethod, ?_, isVerb⟩, ⟨schemeText, oneScheme⟩,
      ⟨target, uri, onePath, ?_, parsed, isPath⟩,
    ?_, ?_, scanned.lengths, ?_, ?_⟩
  · intro field member isPseudo
    rw [split] at member
    rcases mem_append.mp member with early | late
    · exact (scanned.named field early).2
    · exact absurd isPseudo (scanned.lawful field late).regular
  · rintro rfl
    rw [isVerb, bne_self_eq_false] at notConnect
    nomatch notConnect
  · rcases form with star | slash
    · refine .inr ⟨star, ?_⟩
      rw [isAsterisk, beq_iff_eq.mpr star, Bool.true_and, Bool.not_eq_true',
        bne_eq_false_iff_eq] at asterisk
      exact asterisk
    · exact .inl slash
  · rw [oneAuthority]
    exact length_toList_le
  · intro field member isRegular
    rw [split] at member
    rcases mem_append.mp member with early | late
    · exact absurd (scanned.named field early).1 isRegular
    · exact scanned.lawful field late
  · rw [scanned.hosts]
    exact length_toList_le
  · intro name named host hosted
    rw [oneAuthority, mem_toList] at named
    rw [scanned.hosts, mem_toList] at hosted
    rw [isAuthority name named, all_some, hosted, all_some, beq_iff_eq] at agrees
    exact agrees

theorem decodeBlockFrom_wellFormed {dec dec' : Decoder} {st st' : StreamState}
    {block : Octets} (request : st.headersDone = false)
    (decoded : decodeBlockFrom parsers dec st block = (dec', st', .ok)) :
    WellFormed parsers st.headers (dec.decodeOctets block).emitted st' := by
  rw [decodeBlockFrom] at decoded
  rw [request] at decoded
  split at decoded
  · nomatch decoded
  · nomatch decoded
  · split_ifs at decoded with malformed no ok
    · nomatch decoded
    · nomatch no
    · have scanned := FieldScan.seen_fields (Bool.not_eq_true _ ▸ malformed)
      have same : { (foldl (FieldScan.field parsers false) { st := st }
        (dec.decodeOctets block).emitted).st with headersDone := true } = st' :=
        congrArg (fun result => result.2.1) decoded
      rw [← same]
      exact scanned.wellFormed ok
    · nomatch decoded

/-! ## Fragments -/

/-- CONTINUATION frames of a stream, the last of which ends the block. -/
inductive Continues (sid : StreamId) : List Frame → Octets → Prop
  | last {f : Frame} (kind : f.kind = Kind.continuation) (stream : f.streamId = sid)
      (ends : f.has Flag.endHeaders = true) : Continues sid [f] f.payload
  | more {f : Frame} {frames : List Frame} {rest : Octets} (kind : f.kind = Kind.continuation)
      (stream : f.streamId = sid) (goesOn : f.has Flag.endHeaders = false)
      (continues : Continues sid frames rest) : Continues sid (f :: frames) (f.payload ++ rest)

/-- A HEADERS frame and CONTINUATION frames that carry the block of one HEADERS frame. -/
structure Fragmented (whole head : Frame) (frames : List Frame) (block : Octets) : Prop where
  wholeKind : whole.kind = Kind.headers
  headKind : head.kind = Kind.headers
  stream : head.streamId = whole.streamId
  ends : whole.has Flag.endHeaders = true
  goesOn : head.has Flag.endHeaders = false
  endStream : head.has Flag.endStream = whole.has Flag.endStream
  dependency : priorityDependency head true = priorityDependency whole true
  carried : headersBlock whole = some block
  split : ∃ front rest, headersBlock head = some front ∧ Continues whole.streamId frames rest ∧
    block = front ++ rest

namespace Session

/-- Frames in order, as long as each is followed by the next. -/
def processFrames (env : Ambient) (outstreamsLen : Nat) (accepting : Bool) (s : Session) :
    List Frame → Session × FrameOutcome
  | [] => (s, .proceed)
  | f :: frames =>
    match s.processFrame env outstreamsLen accepting f with
    | (s, .proceed) => s.processFrames env outstreamsLen accepting frames
    | stopped => stopped

/-- The session after `n` more frames have been counted. -/
def counted (s : Session) (n : Nat) : Session :=
  { s with recv := { s.recv with noProgressFrames := s.recv.noProgressFrames + n } }

/-- Decode the block of a stream and settle what follows. -/
def finishBlock (env : Ambient) (s : Session) (sid : StreamId) (st : StreamState) (block : Octets) :
    Session × FrameOutcome :=
  let s := { s with recv := { s.recv with openHeaderBlock := none } }
  let (s, verdict) := s.decodeInto env sid { st with headerBlock := [] } block
  s.endOfBlock env sid verdict

section frames

variable {env : Ambient} {outstreamsLen : Nat} {accepting : Bool} {s : Session} {sid : StreamId}
variable {f : Frame} {frames : List Frame} {block : Octets}

/-- A session that waits for the rest of a request block. -/
structure Awaits (s : Session) (sid : StreamId) (st : StreamState) : Prop where
  settings : s.recv.seenSettings = true
  current : s.recv.openHeaderBlock = some sid
  kept : s.recv.discardingHeaderBlock = false
  found : s.streams.get sid = some st

theorem countFrame_eq (settings : s.recv.seenSettings = true) : s.countFrame = s.counted 1 := by
  rw [countFrame, counted, ← settings]

theorem processFrame_eq (settings : s.recv.seenSettings = true)
    (budget : s.recv.noProgressFrames + 1 ≤ noProgressBudget)
    (continuity : (s.counted 1).badContinuity f = false) (association : badAssociation f = false)
    (length : badLength f = false) : s.processFrame env outstreamsLen accepting f =
      (s.counted 1).dispatchKind env outstreamsLen accepting f := by
  have started : ¬(!s.recv.seenSettings && (f.kind != Kind.settings || f.has Flag.ack)) = true := by
    rw [settings, Bool.not_true, Bool.false_and]
    exact Bool.false_ne_true
  have within : ¬noProgressBudget < (s.counted 1).recv.noProgressFrames := Nat.not_lt.mpr budget
  rw [processFrame, if_neg started, countFrame_eq settings]
  rw [if_neg within, continuity, association, length]
  rfl

theorem processFrame_continuation {st : StreamState} (awaits : Awaits s sid st) (nonzero : sid ≠ 0)
    (kind : f.kind = Kind.continuation) (stream : f.streamId = sid)
    (budget : s.recv.noProgressFrames + 1 ≤ noProgressBudget) :
    s.processFrame env outstreamsLen accepting f =
      if maxHeaderBlock <
        (st.headerBlock ++ f.payload).length then (s.counted 1).goaway .compressionError
      else if f.has Flag.endHeaders then
        (s.counted 1).finishBlock env sid st (st.headerBlock ++ f.payload)
      else
        ({ s.counted 1 with
          streams := s.streams.put sid { st with headerBlock := st.headerBlock ++ f.payload } },
            .proceed) := by
  have continuity : (s.counted 1).badContinuity f = false := by
    have current : (s.counted 1).recv.openHeaderBlock = some sid := awaits.current
    rw [badContinuity, current]
    simp [kind, stream]
  have association : badAssociation f = false := by
    rw [badAssociation, kind, stream, if_pos (by decide), beq_eq_false_iff_ne]
    exact nonzero
  have length : badLength f = false := by
    rw [badLength, kind]
    rfl
  rw [processFrame_eq awaits.settings budget continuity association length, dispatchKind, kind]
  have kept : ¬(s.counted 1).recv.discardingHeaderBlock = true := by
    rw [counted, awaits.kept]
    exact Bool.false_ne_true
  have found : (s.counted 1).streams.get f.streamId = some st := stream ▸ awaits.found
  subst stream
  rw [onContinuation, if_neg kept, found]
  rfl

theorem processFrames_singleton (s : Session) (f : Frame) :
    s.processFrames env outstreamsLen accepting [f] =
      s.processFrame env outstreamsLen accepting f := by
  rw [processFrames]
  rcases s.processFrame env outstreamsLen accepting f with ⟨_, outcome⟩
  cases outcome <;> rfl

theorem processFrames_cons {next : Session}
    (proceeds : s.processFrame env outstreamsLen accepting f = (next, .proceed))
    (frames : List Frame) :
    s.processFrames env outstreamsLen accepting (f :: frames) =
      next.processFrames env outstreamsLen accepting frames := by
  rw [processFrames, proceeds]

theorem processFrames_stops {next : Session} {outcome : FrameOutcome}
    (stops : s.processFrame env outstreamsLen accepting f = (next, outcome))
    (final : outcome ≠ .proceed) (frames : List Frame) :
    s.processFrames env outstreamsLen accepting (f :: frames) = (next, outcome) := by
  rw [processFrames, stops]
  cases outcome with
  | proceed => exact absurd rfl final
  | stopReading | peerGoaway | windowUpdate | resetStream | initialWindowDelta => rfl

theorem counted_counted (s : Session) (m n : Nat) :
    (s.counted m).counted n = s.counted (n + m) := by
  rw [counted, counted, counted]
  simp [Nat.add_assoc, Nat.add_comm n m]

theorem finishBlock_put (s : Session) (old st : StreamState) (block : Octets) :
    { s with streams := s.streams.put sid old }.finishBlock env sid st block =
      s.finishBlock env sid st block := by
  simp [finishBlock, decodeInto]

/-- The rest of a block is gathered and decoded at its end, unless the block gets too long. -/
theorem processFrames_continues {rest : Octets} (continues : Continues sid frames rest)
    (nonzero : sid ≠ 0) : ∀ {s : Session} {st : StreamState}, Awaits s sid st →
      s.recv.noProgressFrames + frames.length ≤ noProgressBudget →
      ((st.headerBlock ++ rest).length ≤ maxHeaderBlock →
        s.processFrames env outstreamsLen accepting frames =
          (s.counted frames.length).finishBlock env sid st (st.headerBlock ++ rest)) ∧
      (maxHeaderBlock < (st.headerBlock ++ rest).length →
        (s.processFrames env outstreamsLen accepting frames).2 = .stopReading ∧
          (s.processFrames env outstreamsLen accepting frames).1.dec = s.dec) := by
  induction continues with
  | @last _ kind stream ends =>
    intro s st awaits budget
    rw [processFrames_singleton, processFrame_continuation awaits nonzero kind stream budget]
    refine ⟨fun fits => ?_, fun overlong => ?_⟩
    · rw [if_neg (Nat.not_lt.mpr fits), if_pos ends]
      rfl
    · rw [if_pos overlong]
      exact ⟨rfl, rfl⟩
  | @more f frames rest kind stream goesOn _ ih =>
    intro s st awaits budget
    rw [length_cons] at budget
    rw [← append_assoc]
    have step : s.processFrame env outstreamsLen accepting f = _ :=
      processFrame_continuation awaits nonzero kind stream (by omega)
    rw [goesOn, if_neg Bool.false_ne_true] at step
    split_ifs at step with already
    · rw [processFrames_stops step (by decide)]
      refine ⟨fun fits => absurd already (Nat.not_lt.mpr ?_), fun _ => ⟨rfl, rfl⟩⟩
      exact (prefix_append _ rest).length_le.trans fits
    · have next : Awaits { s.counted 1 with
          streams := s.streams.put sid { st with headerBlock := st.headerBlock ++ f.payload } } sid
          { st with headerBlock := st.headerBlock ++ f.payload } :=
        ⟨awaits.settings, awaits.current, awaits.kept, get_put_self ..⟩
      have counts : (s.counted 1).recv.noProgressFrames = s.recv.noProgressFrames + 1 := rfl
      obtain ⟨gathered, overlong⟩ := ih next (by rw [counts]; omega)
      rw [processFrames_cons step]
      refine ⟨fun fits => ?_, overlong⟩
      rw [gathered fits, length_cons, ← counted_counted]
      exact finishBlock_put ((s.counted 1).counted frames.length) _ ..

/-- A connection on which a client may open the stream. -/
structure Opens (s : Session) (sid : StreamId) : Prop where
  settings : s.recv.seenSettings = true
  between : s.recv.openHeaderBlock = none
  kept : s.recv.discardingHeaderBlock = false
  odd : isEven sid = false
  above : s.recv.lastClientStream < sid
  absent : s.streams.get sid = none

/-- Whether the next stream exceeds the cap. -/
def refuses (outstreamsLen : Nat) (accepting : Bool) (s : Session) : Bool :=
  !accepting || decide (s.recv.maxConcurrent ≤ s.streams.size + s.inflight.length + outstreamsLen)

/-- The session in which a stream is the last one opened. -/
def opened (s : Session) (sid : StreamId) : Session :=
  { s with recv := { s.recv with lastClientStream := sid } }

/-- The entry of a stream that a HEADERS frame opens. -/
def newStream (s : Session) (refused ended : Bool) : StreamState :=
  { recvWindow := s.recv.ourInitialWindow, refused := refused, endStream := ended }

def entered (s : Session) (sid : StreamId) (st : StreamState) : Session :=
  { s with streams := s.streams.put sid st }

/-- The session that waits for the rest of a stream's block. -/
def awaiting (s : Session) (sid : StreamId) (st : StreamState) : Session :=
  { s with
    streams := s.streams.put sid st
    recv := { s.recv with openHeaderBlock := some sid } }

theorem onHeaders_new (odd : isEven f.streamId = false)
    (above : s.recv.lastClientStream < f.streamId)
    (absent : s.streams.get f.streamId = none)
    (dependency : priorityDependency f true ≠ some f.streamId) :
    s.onHeaders env outstreamsLen accepting f =
      Session.headersAccepted env
        { s with recv := { s.recv with lastClientStream := f.streamId } } f
        (!accepting ||
          decide (s.recv.maxConcurrent ≤ s.streams.size + s.inflight.length + outstreamsLen)) := by
  have even : ¬(!s.streams.contains f.streamId && isEven f.streamId) = true := by
    rw [odd, Bool.and_false]
    exact Bool.false_ne_true
  have reused :
      ¬(!s.streams.contains f.streamId && decide (f.streamId ≤ s.recv.lastClientStream)) =
        true := by
    rw [decide_eq_false (Nat.not_le.mpr above), Bool.and_false]
    exact Bool.false_ne_true
  rw [onHeaders]
  rw [if_neg even, if_neg reused, advance, contains_eq_false.mpr absent,
    if_neg Bool.false_ne_true, if_neg]
  · rw [Bool.not_false, Bool.true_and]
  · rw [not_or, absent]
    exact ⟨dependency, Bool.false_ne_true⟩

theorem processFrame_headers (opens : Opens s f.streamId) (kind : f.kind = Kind.headers)
    (carried : headersBlock f = some block)
    (dependency : priorityDependency f true ≠ some f.streamId)
    (budget : s.recv.noProgressFrames + 1 ≤ noProgressBudget) :
    s.processFrame env outstreamsLen accepting f = if maxHeaderBlock < block.length then
        (((s.counted 1).opened f.streamId).entered f.streamId
          (s.newStream (s.refuses outstreamsLen accepting) false)).goaway .compressionError
      else if f.has Flag.endHeaders then
        ((s.counted 1).opened f.streamId).finishBlock env f.streamId
          (s.newStream (s.refuses outstreamsLen accepting) (f.has Flag.endStream)) block
      else
        (((s.counted 1).opened f.streamId).awaiting f.streamId
          { s.newStream (s.refuses outstreamsLen accepting)
            (f.has Flag.endStream) with headerBlock := block },
          .proceed) := by
  have continuity : (s.counted 1).badContinuity f = false := by
    have current : (s.counted 1).recv.openHeaderBlock = none := opens.between
    rw [badContinuity, current, kind]
    rfl
  have association : badAssociation f = false := by
    rw [badAssociation, kind, if_pos (by decide), beq_eq_false_iff_ne]
    exact Nat.pos_iff_ne_zero.mp (Nat.zero_lt_of_lt opens.above)
  have length : badLength f = false := by
    rw [badLength, kind]
    rfl
  have absent : ((s.counted 1).opened f.streamId).streams.get f.streamId = none := opens.absent
  have handled : (s.counted 1).onHeaders env outstreamsLen accepting f =
      ((s.counted 1).opened f.streamId).headersAccepted env f (s.refuses outstreamsLen accepting) :=
    onHeaders_new opens.odd opens.above opens.absent dependency
  rw [processFrame_eq opens.settings budget continuity association length, dispatchKind, kind]
  rw [handled, headersAccepted, carried]
  simp only [entry, absent, length_nil, Nat.zero_add, Bool.false_or, nil_append, put_put,
    finishBlock, decodeInto]
  rfl

/-- A HEADERS frame that leaves its block open is waited on. -/
theorem Opens.awaits (opens : Opens s sid) (st : StreamState) :
    Awaits (((s.counted 1).opened sid).awaiting sid st) sid st :=
  ⟨opens.settings, rfl, opens.kept, get_put_self ..⟩

theorem finishBlock_awaiting (s : Session) (n : Nat) (old st : StreamState) (block : Octets) :
    ((s.awaiting sid old).counted n).finishBlock env sid st block =
      (s.counted n).finishBlock env sid st block :=
  finishBlock_put (s.counted n) old st block

end frames

end Session

open Session in
/-- A request block is decoded into a well-formed request or not at all, however it was cut into
frames: the session is the same but for the count of frames, and a block that is too long is
decoded neither way. -/
theorem request_blocks :
    (∀ (parsers : Parsers) (dec dec' : Decoder) (st st' : StreamState) (block : Octets),
      st.headersDone = false → decodeBlockFrom parsers dec st block = (dec', st', .ok) →
      WellFormed parsers st.headers (dec.decodeOctets block).emitted st') ∧
    ∀ (env : Ambient) (outstreamsLen : Nat) (accepting : Bool) (s : Session) (whole head : Frame)
      (frames : List Frame) (block : Octets), Fragmented whole head frames block →
      s.Opens whole.streamId → priorityDependency whole true ≠ some whole.streamId →
      s.recv.noProgressFrames + (head :: frames).length ≤ noProgressBudget →
      (block.length ≤ maxHeaderBlock →
        s.processFrames env outstreamsLen accepting (head :: frames) =
          (s.counted frames.length).processFrame env outstreamsLen accepting whole) ∧
      (maxHeaderBlock < block.length →
        (s.processFrames env outstreamsLen accepting (head :: frames)).2 = .stopReading ∧
        (s.processFrames env outstreamsLen accepting (head :: frames)).1.dec = s.dec ∧
        (s.processFrame env outstreamsLen accepting whole).2 = .stopReading ∧
        (s.processFrame env outstreamsLen accepting whole).1.dec = s.dec) := by
  refine ⟨fun parsers dec dec' st st' block request decoded =>
    decodeBlockFrom_wellFormed request decoded, ?_⟩
  intro env outstreamsLen accepting s whole head frames block fragmented opens dependency budget
  obtain ⟨front, rest, carried, continues, rfl⟩ := fragmented.split
  rw [length_cons] at budget
  have stream := fragmented.stream
  have nonzero : whole.streamId ≠ 0 := Nat.pos_iff_ne_zero.mp (Nat.zero_lt_of_lt opens.above)
  have first : s.processFrame env outstreamsLen accepting head = _ :=
    processFrame_headers (by rwa [stream]) fragmented.headKind carried
      (by rw [fragmented.dependency, stream]; exact dependency) (by omega)
  rw [fragmented.goesOn, if_neg Bool.false_ne_true, stream, fragmented.endStream] at first
  have later : Opens (s.counted frames.length) whole.streamId := { opens with }
  have total : (s.counted frames.length).recv.noProgressFrames =
    s.recv.noProgressFrames + frames.length := rfl
  rw [processFrame_headers opens fragmented.wholeKind fragmented.carried dependency (by omega),
    processFrame_headers later fragmented.wholeKind fragmented.carried dependency
      (by rw [total]; omega)]
  split_ifs at first with already
  · rw [processFrames_stops first (by decide)]
    refine ⟨fun fits => absurd already (Nat.not_lt.mpr ?_), fun overlong => ?_⟩
    · exact (prefix_append front rest).length_le.trans fits
    · rw [if_pos overlong]
      exact ⟨rfl, rfl, rfl, rfl⟩
  · obtain ⟨gathered, stopped⟩ := processFrames_continues continues nonzero
      (opens.awaits
        { s.newStream (s.refuses outstreamsLen accepting) (whole.has Flag.endStream) with
        headerBlock := front }) (by change s.recv.noProgressFrames + 1 + _ ≤ _; omega)
    rw [processFrames_cons first]
    refine ⟨fun fits => ?_, fun overlong => ?_⟩
    · rw [gathered fits, finishBlock_awaiting, if_neg (Nat.not_lt.mpr fits), if_pos fragmented.ends,
        counted_counted, Nat.add_comm, ← counted_counted]
      rfl
    · rw [if_pos overlong]
      exact and_assoc.mp ⟨stopped overlong, rfl, rfl⟩

def rootFrame (kind flags : UInt8) (payload : Octets) : Frame :=
  ⟨kind, flags, 1, payload, by decide⟩

/-- A request for the root path, in one frame and in three. -/
theorem rootRequest_fragmented :
    (∃ dec' st', decodeBlockFrom plainParsers (Decoder.new 4096 65536) {} [0x82, 0x84, 0x87] =
        (dec', st', .ok) ∧
      WellFormed plainParsers []
        ((Decoder.new 4096 65536).decodeOctets [0x82, 0x84, 0x87]).emitted st') ∧
    (Conn.run smallConfig [inbound Kind.settings 0 0 []]).session.processFrames
      ⟨plainParsers, 400, 0, 0⟩ 0 true
        [rootFrame Kind.headers 0 [0x82], rootFrame Kind.continuation 0 [0x84],
          rootFrame Kind.continuation Flag.endHeaders [0x87]] =
      ((Conn.run smallConfig [inbound Kind.settings 0 0 []]).session.counted 2).processFrame
        ⟨plainParsers, 400, 0, 0⟩ 0 true
          (rootFrame Kind.headers Flag.endHeaders [0x82, 0x84, 0x87]) := by
  have ok :
      (decodeBlockFrom plainParsers (Decoder.new 4096 65536) {} [0x82, 0x84, 0x87]).2.2 = .ok := by
    decide +kernel
  have decoded : decodeBlockFrom plainParsers (Decoder.new 4096 65536) {} [0x82, 0x84, 0x87] =
      ((decodeBlockFrom plainParsers (Decoder.new 4096 65536) {} [0x82, 0x84, 0x87]).1,
        (decodeBlockFrom plainParsers (Decoder.new 4096 65536) {} [0x82, 0x84, 0x87]).2.1, .ok) :=
    Prod.ext rfl (Prod.ext rfl ok)
  refine ⟨⟨_, _, decoded, request_blocks.1 _ _ _ _ _ _ rfl decoded⟩, ?_⟩
  have fragmented : Fragmented (rootFrame Kind.headers Flag.endHeaders [0x82, 0x84, 0x87])
      (rootFrame Kind.headers 0 [0x82])
      [rootFrame Kind.continuation 0 [0x84], rootFrame Kind.continuation Flag.endHeaders [0x87]]
      [0x82, 0x84, 0x87] :=
    ⟨rfl, rfl, rfl, by decide, by decide, by decide, by decide, by decide,
      [0x82], [0x84, 0x87], by decide, .more rfl rfl (by decide) (.last rfl rfl (by decide)), rfl⟩
  refine (request_blocks.2 _ _ _ _ _ _ _ _ fragmented ?_ (by decide) (by decide +kernel)).1
    (by decide)
  exact ⟨by decide +kernel, by decide +kernel, by decide +kernel, by decide, by decide +kernel, by
    decide +kernel⟩

end HttpJet.H2
