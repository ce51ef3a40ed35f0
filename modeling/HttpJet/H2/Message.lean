import HttpJet.Hpack.Decoder

/-!
# HTTP/2 frames (RFC 7540 §4.1 and §6) and messages

The frame header codec, the fixed-shape payloads the server reads, and the output queue.  A queued
segment is the writer call that produced it; `Seg.headers` and `Seg.octets` are what it puts on
the wire.

The header rules are shared by the transports.  Header text is octets.  What the `http` crate and
the address parser of the standard library accept is a parameter, `Parsers`; the rules the server
adds are definitions.
-/

namespace HttpJet.H2

open Hpack.Integer Hpack.StaticTable List

abbrev StreamId := Nat

namespace Kind

def data : UInt8 := 0x0
def headers : UInt8 := 0x1
def priority : UInt8 := 0x2
def rstStream : UInt8 := 0x3
def settings : UInt8 := 0x4
def pushPromise : UInt8 := 0x5
def ping : UInt8 := 0x6
def goaway : UInt8 := 0x7
def windowUpdate : UInt8 := 0x8
def continuation : UInt8 := 0x9

end Kind

namespace Flag

def ack : UInt8 := 0x1
def endStream : UInt8 := 0x1
def endHeaders : UInt8 := 0x4
def padded : UInt8 := 0x8
def priority : UInt8 := 0x20

end Flag

namespace Setting

def headerTableSize : Nat := 0x1
def enablePush : Nat := 0x2
def maxConcurrentStreams : Nat := 0x3
def initialWindowSize : Nat := 0x4
def maxFrameSize : Nat := 0x5
def maxHeaderListSize : Nat := 0x6

end Setting

/-- Error codes (RFC 7540 §7) the server sends. -/
inductive ErrorCode where
  | noError
  | protocolError
  | internalError
  | flowControlError
  | streamClosed
  | frameSizeError
  | refusedStream
  | cancel
  | compressionError
  | enhanceYourCalm
  deriving DecidableEq

def ErrorCode.code : ErrorCode → Nat
  | .noError => 0x0
  | .protocolError => 0x1
  | .internalError => 0x2
  | .flowControlError => 0x3
  | .streamClosed => 0x5
  | .frameSizeError => 0x6
  | .refusedStream => 0x7
  | .cancel => 0x8
  | .compressionError => 0x9
  | .enhanceYourCalm => 0xb

/-! ## The frame header -/

structure FrameHeader where
  length : Nat
  kind : UInt8
  flags : UInt8
  streamId : StreamId
  deriving DecidableEq

/-- Big-endian octets of a 32-bit value. -/
def be32 (value : Nat) : Octets :=
  [UInt8.ofNat (value >>> 24), UInt8.ofNat (value >>> 16), UInt8.ofNat (value >>> 8),
    UInt8.ofNat value]

/-- The value of big-endian octets. -/
def fromBe (octets : Octets) : Nat := octets.foldl (fun value b => value * 256 + b.toNat) 0

/-- The reserved bit of a stream id is masked off. -/
def mask31 (value : Nat) : Nat := value % 2 ^ 31

namespace FrameHeader

def parse (buf : Octets) : Option FrameHeader :=
  match buf with
  | l0 :: l1 :: l2 :: kind :: flags :: s0 :: s1 :: s2 :: s3 :: _ =>
    some ⟨fromBe [l0, l1, l2], kind, flags, mask31 (fromBe [s0, s1, s2, s3])⟩
  | _ => none

def write (header : FrameHeader) : Octets :=
  [UInt8.ofNat (header.length >>> 16), UInt8.ofNat (header.length >>> 8),
    UInt8.ofNat header.length, header.kind, header.flags] ++ be32 (mask31 header.streamId)

end FrameHeader

theorem fromBe_be32 {value : Nat} (bound : value < 2 ^ 32) : fromBe (be32 value) = value := by
  simp only [be32, fromBe, List.foldl_cons, List.foldl_nil, UInt8.toNat_ofNat',
    Nat.shiftRight_eq_div_pow]
  omega

theorem FrameHeader.parse_write {header : FrameHeader} (short : header.length < 2 ^ 24)
    (bound : header.streamId < 2 ^ 31) (rest : Octets) :
    FrameHeader.parse (header.write ++ rest) = some header := by
  have same : mask31 header.streamId = header.streamId := Nat.mod_eq_of_lt bound
  have length : fromBe [UInt8.ofNat (header.length >>> 16), UInt8.ofNat (header.length >>> 8),
      UInt8.ofNat header.length] = header.length := by
    simp only [fromBe, List.foldl_cons, List.foldl_nil, UInt8.toNat_ofNat',
      Nat.shiftRight_eq_div_pow]
    omega
  have streamId : fromBe (be32 header.streamId) = header.streamId :=
    fromBe_be32 (Nat.lt_trans bound (by decide))
  rw [be32] at streamId
  simp [FrameHeader.write, be32, same, FrameHeader.parse, length, streamId]

/-! ## Inbound frames -/

/-- A complete inbound frame, as the header parser delivers it. -/
structure Frame where
  kind : UInt8
  flags : UInt8
  streamId : StreamId
  payload : Octets
  bounded : streamId < 2 ^ 31
  deriving DecidableEq

def Frame.length (frame : Frame) : Nat := frame.payload.length

def Frame.has (frame : Frame) (flag : UInt8) : Bool := frame.flags &&& flag != 0

/-- The parameters of a SETTINGS payload. -/
def parseSettings (payload : Octets) : Option (List (Nat × Nat)) :=
  if payload.length % 6 ≠ 0 then none
  else some (params payload)
where
  params : Octets → List (Nat × Nat)
    | i0 :: i1 :: v0 :: v1 :: v2 :: v3 :: rest =>
      (fromBe [i0, i1], fromBe [v0, v1, v2, v3]) :: params rest
    | _ => []

/-- The 31-bit increment of a WINDOW_UPDATE payload. -/
def parseWindowUpdate (payload : Octets) : Option Nat :=
  if payload.length = 4 then some (mask31 (fromBe payload)) else none

/-- Strip the padding framing: the pad length octet and the padding. -/
def unpad (padded : Bool) (payload : Octets) : Option (Nat × Octets) :=
  if padded then
    match payload with
    | [] => none
    | pad :: rest => some (pad.toNat, rest)
  else some (0, payload)

def dropPadding (pad : Nat) (p : Octets) : Option Octets :=
  if p.length < pad then none else some (p.take (p.length - pad))

/-- Strip PADDED/PRIORITY framing from a HEADERS payload, yielding the header block. -/
def headersBlock (frame : Frame) : Option Octets := do
  let (pad, p) ← unpad (frame.has Flag.padded) frame.payload
  if frame.has Flag.priority then
    if p.length < 5 then none else dropPadding pad (p.drop 5)
  else dropPadding pad p

/-- Strip PADDED framing from a DATA payload. -/
def dataBlock (frame : Frame) : Option Octets := do
  let (pad, p) ← unpad (frame.has Flag.padded) frame.payload
  dropPadding pad p

/-- The stream dependency of a priority field. -/
def priorityDependency (frame : Frame) (isHeaders : Bool) : Option StreamId :=
  if isHeaders && !frame.has Flag.priority then none
  else
    let p :=
      if isHeaders && frame.has Flag.padded then
        if frame.payload.isEmpty then none else some (frame.payload.drop 1)
      else some frame.payload
    match p with
    | none => none
    | some p => if p.length < 4 then none else some (mask31 (fromBe (p.take 4)))

/-! ## The output queue -/

/-- One ordered output segment, kept as the call that queued it. -/
inductive Seg where
  | settings (params : List (Nat × Nat))
  | settingsAck
  | pingAck (echo : Octets)
  | windowUpdate (streamId : StreamId) (increment : Nat)
  | rstStream (streamId : StreamId) (error : ErrorCode)
  | goaway (lastStreamId : StreamId) (error : ErrorCode)
  /-- A field block: a HEADERS frame with its first fragment, then CONTINUATION frames. -/
  | fields (streamId : StreamId) (interim endStream : Bool) (first : Octets) (rest : List Octets)
  /-- The header of a DATA frame; its payload is the body segment behind it. -/
  | data (streamId : StreamId) (length : Nat) (endStream : Bool)
  /-- A body chunk, held by reference. -/
  | body (chunk : Octets)
  deriving DecidableEq

namespace Seg

def endStreamFlag (endStream : Bool) : UInt8 := if endStream then Flag.endStream else 0

/-- The CONTINUATION frames of a block; the last one carries END_HEADERS. -/
def continuations (streamId : StreamId) : List Octets → List (FrameHeader × Octets)
  | [] => []
  | [last] => [(⟨last.length, Kind.continuation, Flag.endHeaders, streamId⟩, last)]
  | chunk :: rest =>
    (⟨chunk.length, Kind.continuation, 0, streamId⟩, chunk) :: continuations streamId rest

def settingsPayload (params : List (Nat × Nat)) : Octets :=
  params.flatMap fun param =>
    [UInt8.ofNat (param.1 >>> 8), UInt8.ofNat param.1] ++ be32 param.2

/-- The frames of a segment: header and payload.  A DATA header carries its payload in the
segment behind it, so the two are written out separately. -/
def frames : Seg → List (FrameHeader × Octets)
  | .settings params =>
    [(⟨(settingsPayload params).length, Kind.settings, 0, 0⟩, settingsPayload params)]
  | .settingsAck => [(⟨0, Kind.settings, Flag.ack, 0⟩, [])]
  | .pingAck echo => [(⟨echo.length, Kind.ping, Flag.ack, 0⟩, echo)]
  | .windowUpdate streamId increment =>
    [(⟨4, Kind.windowUpdate, 0, streamId⟩, be32 (mask31 increment))]
  | .rstStream streamId error => [(⟨4, Kind.rstStream, 0, streamId⟩, be32 error.code)]
  | .goaway lastStreamId error =>
    [(⟨8, Kind.goaway, 0, 0⟩, be32 (mask31 lastStreamId) ++ be32 error.code)]
  | .fields streamId _ endStream first rest =>
    let lead := endStreamFlag endStream ||| (if rest.isEmpty then Flag.endHeaders else 0)
    (⟨first.length, Kind.headers, lead, streamId⟩, first) :: continuations streamId rest
  | .data streamId length endStream =>
    [(⟨length, Kind.data, endStreamFlag endStream, streamId⟩, [])]
  | .body _ => []

/-- The frame headers a segment puts on the wire. -/
def headers (seg : Seg) : List FrameHeader := seg.frames.map Prod.fst

def octets : Seg → Octets
  | .body chunk => chunk
  | seg => seg.frames.flatMap fun frame => frame.1.write ++ frame.2

end Seg

/-- `OutQueue::body`: an empty chunk queues nothing. -/
def queueBody (out : List Seg) (chunk : Octets) : List Seg :=
  if chunk.isEmpty then out else out ++ [.body chunk]

/-- Split a block into pieces of at most `max` octets, the last one not empty. -/
def splitBlock (max : Nat) : Nat → Octets → List Octets
  | 0, rest => [rest]
  | fuel + 1, rest =>
    if max < rest.length then rest.take max :: splitBlock max fuel (rest.drop max) else [rest]

/-- `write_field_block`: a HEADERS frame plus any CONTINUATION frames, none of them longer
than the peer's maximum. -/
def writeFieldBlock (streamId : StreamId) (interim endStream : Bool) (block : Octets)
    (maxFrame : Nat) : Seg :=
  let max := max maxFrame 1
  if block.length ≤ max then .fields streamId interim endStream block []
  else
    .fields streamId interim endStream (block.take max)
      (splitBlock max block.length (block.drop max))

/-! ## Messages -/

/-- A parsed request target. -/
structure Uri where
  scheme : Option Octets
  authority : Option Octets
  pathAndQuery : Option Octets
  deriving DecidableEq

/-- The parsers outside this repository. -/
structure Parsers where
  /-- `Method::from_bytes` -/
  method : Octets → Bool
  /-- `Uri::try_from` -/
  uri : Octets → Option Uri
  /-- `HeaderName::from_bytes` -/
  headerName : Octets → Bool
  /-- `HeaderValue::from_bytes` and `HeaderValue::from_str` -/
  headerValue : Octets → Bool
  /-- `HeaderValue::to_str` -/
  visible : Octets → Bool
  /-- `str::from_utf8` -/
  utf8 : Octets → Bool
  /-- `str::parse::<Ipv6Addr>` -/
  ipv6Addr : Octets → Bool

/-- Parsers with nothing to reject: the target is taken as a path. -/
def plainParsers : Parsers where
  method _ := true
  uri target := some ⟨none, none, some target⟩
  headerName _ := true
  headerValue _ := true
  visible _ := true
  utf8 _ := true
  ipv6Addr _ := false

/-! ## Header maps -/

/-- A header map as its field lines. -/
abbrev Headers := List Field

variable (headers : Headers) (name value : Octets)

namespace Headers

def getAll (headers : Headers) (name : Octets) : List Octets :=
  (headers.filter fun field => field.1 == name).map Prod.snd

def get (headers : Headers) (name : Octets) : Option Octets := (headers.getAll name).head?

def remove (headers : Headers) (name : Octets) : Headers :=
  headers.filter fun field => field.1 != name

def insert (headers : Headers) (name value : Octets) : Headers :=
  headers.remove name ++ [(name, value)]

theorem getAll_concat (key value : Octets) : getAll (headers ++ [(name, value)]) key =
      headers.getAll key ++ if name = key then [value] else [] := by
  rw [getAll, filter_append, map_append]
  split_ifs with same
  · simp only [filter_cons, beq_iff_eq, same, if_true, filter_nil, map_cons, map_nil, getAll]
  · simp only [filter_cons, beq_iff_eq, same, if_false, filter_nil, map_nil, getAll]

theorem getAll_concat_self :
    getAll (headers ++ [(name, value)]) name = headers.getAll name ++ [value] := by
  rw [getAll_concat, if_pos rfl]

theorem getAll_concat_of_ne {headers : Headers} {name value : Octets} (key : Octets)
    (other : name ≠ key) : getAll (headers ++ [(name, value)]) key = headers.getAll key := by
  rw [getAll_concat, if_neg other, append_nil]

theorem getAll_remove_of_ne {headers : Headers} {name key : Octets} (other : name ≠ key) :
    (headers.remove name).getAll key = headers.getAll key := by
  rw [getAll, getAll, remove, filter_filter]
  congr 2
  funext field
  by_cases same : field.1 = key
  · have different : field.1 ≠ name := fun equal => other (equal.symm.trans same)
    simp [same, same ▸ different]
  · simp [same]

theorem getAll_remove : (headers.remove name).getAll name = [] := by
  rw [getAll, remove, filter_filter, map_eq_nil_iff, filter_eq_nil_iff]
  intro field _
  by_cases same : field.1 = name <;> simp [same]

theorem getAll_insert : (headers.insert name value).getAll name = [value] := by
  rw [insert, getAll_concat, getAll_remove, if_pos rfl]
  rfl

theorem getAll_insert_of_ne {headers : Headers} {name key : Octets} (other : name ≠ key)
    (value : Octets) : (headers.insert name value).getAll key = headers.getAll key := by
  rw [insert, getAll_concat, getAll_remove_of_ne other, if_neg other, append_nil]

end Headers

/-! ## Octet classes -/

def isUpper (b : UInt8) : Bool := 65 ≤ b && b ≤ 90
def isLower (b : UInt8) : Bool := 97 ≤ b && b ≤ 122
def isDigit (b : UInt8) : Bool := 48 ≤ b && b ≤ 57
def isAlphanumeric (b : UInt8) : Bool := isUpper b || isLower b || isDigit b
def isHexDigit (b : UInt8) : Bool := isDigit b || (65 ≤ b && b ≤ 70) || (97 ≤ b && b ≤ 102)
def toLower (b : UInt8) : UInt8 := if isUpper b then b + 32 else b
def isBlank (b : UInt8) : Bool := b == 32 || b == 9

def eqIgnoreCase (a b : Octets) : Bool := a.map toLower == b.map toLower

def trim (text : Octets) : Octets :=
  ((text.dropWhile isBlank).reverse.dropWhile isBlank).reverse

/-- `split_once`: around the first separator. -/
def splitOnce (separator : UInt8) : Octets → Option (Octets × Octets)
  | [] => none
  | b :: rest =>
    if b = separator then some ([], rest)
    else (splitOnce separator rest).map fun parts => (b :: parts.1, parts.2)

/-- `rsplit_once`: around the last separator. -/
def rsplitOnce (separator : UInt8) (text : Octets) : Option (Octets × Octets) :=
  (splitOnce separator text.reverse).map fun parts => (parts.2.reverse, parts.1.reverse)

/-- `str::parse::<u64>`: decimal digits, a leading plus sign allowed. -/
def parseU64 (text : Octets) : Option Nat :=
  let digits := if text.head? = some 43 then text.drop 1 else text
  if digits.isEmpty || !digits.all isDigit then none
  else
    let value := digits.foldl (fun value b => value * 10 + (b.toNat - 48)) 0
    if value < 2 ^ 64 then some value else none

/-! ## URI syntax (RFC 3986) -/

def validUriScheme (value : Octets) : Bool :=
  match value with
  | [] => false
  | first :: rest =>
    (isUpper first || isLower first) &&
      rest.all fun b => isAlphanumeric b || (ascii "+-.").contains b

def uriSubDelim (b : UInt8) : Bool := (ascii "!$&'()*+,;=").contains b

def uriUnreserved (b : UInt8) : Bool := isAlphanumeric b || (ascii "-._~").contains b

def validUriComponent (allowColon : Bool) : Octets → Bool
  | [] => true
  | b :: rest =>
    if uriUnreserved b || uriSubDelim b || (allowColon && b == 58) then
      validUriComponent allowColon rest
    else if b == 37 then
      match rest with
      | high :: low :: rest =>
        isHexDigit high && isHexDigit low && validUriComponent allowColon rest
      | _ => false
    else false

def validIpLiteral (parsers : Parsers) (value : Octets) : Bool :=
  if parsers.ipv6Addr value then true
  else
    match value with
    | v :: rest =>
      if toLower v == 118 then
        match splitOnce 46 rest with
        | none => false
        | some (version, address) =>
          !version.isEmpty && version.all isHexDigit && !address.isEmpty &&
            address.all fun b => uriUnreserved b || b == 58 || uriSubDelim b
      else false
    | [] => false

def validPort (port : Octets) : Bool := port.all isDigit

/-- What follows the userinfo of an authority. -/
def validHostPort (parsers : Parsers) (hostPort : Octets) : Bool :=
  match hostPort with
  | 91 :: literal =>
    match splitOnce 93 literal with
    | none => false
    | some (address, suffix) =>
      validIpLiteral parsers address &&
        match suffix with
        | [] => true
        | colon :: port => colon == 58 && validPort port
  | _ =>
    match rsplitOnce 58 hostPort with
    | some (host, port) => !host.contains 58 && validUriComponent false host && validPort port
    | none => validUriComponent false hostPort

def validUriAuthority (parsers : Parsers) (value : Octets) : Bool :=
  match rsplitOnce 64 value with
  | some (userinfo, hostPort) =>
    !hostPort.contains 64 && validUriComponent true userinfo && validHostPort parsers hostPort
  | none => validHostPort parsers value

def hostWithoutPort (authority : Octets) : Octets :=
  let a := trim authority
  let host :=
    match a with
    | 91 :: rest => rest.takeWhile (· != 93)
    | _ => if 1 < a.count 58 then a else a.takeWhile (· != 58)
  (host.reverse.dropWhile (· == 46)).reverse.map toLower

def validHttpAuthority (parsers : Parsers) (value : Octets) : Bool :=
  !value.contains 64 && validUriAuthority parsers value && !(hostWithoutPort value).isEmpty

/-! ## Header hygiene -/

def isConnectionSpecificRequestHeader (name : Octets) : Bool :=
  [ascii "connection", ascii "keep-alive", ascii "proxy-connection", ascii "transfer-encoding",
    ascii "upgrade"].contains name

/-- The field names called out by `Connection` tokens. -/
def connectionNamed (parsers : Parsers) (headers : Headers) : List Octets :=
  (headers.getAll (ascii "connection")).flatMap fun value =>
    if parsers.visible value then
      ((value.splitOn 44).map trim).filterMap fun token =>
        if token.isEmpty || !parsers.headerName token then none else some (token.map toLower)
    else []

def stripHopByHopResponse (parsers : Parsers) (headers : Headers) : Headers :=
  let named := connectionNamed parsers headers
  let headers := named.foldl Headers.remove headers
  [ascii "connection", ascii "transfer-encoding", ascii "upgrade", ascii "te",
    ascii "keep-alive", ascii "proxy-connection"].foldl Headers.remove headers

def bodyForbiddenStatus (status : Nat) : Bool :=
  (100 ≤ status && status < 200) || status == 204 || status == 205 || status == 304

def responseBodyForbidden (isHead : Bool) (status : Nat) : Bool :=
  isHead || bodyForbiddenStatus status

def sanitizeBodyHeaders (isHead : Bool) (status : Nat) (streamingUnknownLen : Bool) : Headers :=
  let contentLength := ascii "content-length"
  if bodyForbiddenStatus status || (!isHead && streamingUnknownLen) then
    headers.remove contentLength
  else
    match headers.getAll contentLength with
    | first :: second :: others =>
      if (second :: others).all fun v => trim v == trim first then
        headers.insert contentLength first
      else headers.remove contentLength
    | _ => headers

/-- Rejoin split `cookie` lines with a semicolon and a space. -/
def coalesceCookieCrumbs : Headers :=
  match headers.getAll (ascii "cookie") with
  | first :: second :: others =>
    headers.insert (ascii "cookie")
      ((second :: others).foldl (fun joined v => joined ++ ascii "; " ++ v) first)
  | _ => headers

theorem getAll_coalesceCookieCrumbs {headers : Headers} {key : Octets}
    (other : ascii "cookie" ≠ key) :
    (coalesceCookieCrumbs headers).getAll key = headers.getAll key := by
  rw [coalesceCookieCrumbs]
  split
  · exact Headers.getAll_insert_of_ne other _
  · rfl

/-- Whether a `Link` value is a preload or preconnect hint. -/
def isEarlyHintLink (value : Octets) : Bool :=
  value.tails.any fun rest =>
    eqIgnoreCase (rest.take 4) (ascii "rel=") && relAt (rest.drop 4)
where
  relAt (rest : Octets) : Bool :=
    [ascii "preload", ascii "preconnect"].any fun rel =>
      eqIgnoreCase (rest.take rel.length) rel ||
        (rest.head? == some 34 && eqIgnoreCase ((rest.drop 1).take rel.length) rel &&
          rest[rel.length + 1]? == some 34)

/-! ## Messages -/

/-- A request handed to the service; `lease` is what its body still holds of the budget. -/
structure Request where
  method : Octets
  uri : Uri
  headers : Headers
  body : Octets
  lease : Option Nat
  deriving DecidableEq

structure FileBody where
  len : Nat
  range : Option (Nat × Nat)
  cached : Option Octets
  deriving DecidableEq

/-- The cached file sliced to its range, clamped to the cached length. -/
def FileBody.cachedRanged (file : FileBody) : Option Octets :=
  file.cached.map fun cached =>
    match file.range with
    | none => cached
    | some (first, last) =>
      let first := min first cached.length
      let last := min (last + 1) cached.length
      (cached.take (max last first)).drop first

inductive Body where
  | empty
  | full (bytes : Octets)
  /-- A stream with the exact length its size hint gives, if it does. -/
  | stream (exactLen : Option Nat)
  | file (file : FileBody)
  deriving DecidableEq

structure Response where
  status : Nat
  headers : Headers
  body : Body
  deriving DecidableEq

/-- The decimal text of a status code. -/
def statusText (status : Nat) : Octets := ascii (toString status)

end HttpJet.H2
