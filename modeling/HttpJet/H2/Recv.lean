import HttpJet.H2.Message

/-!
# Server state and inbound frame processing

The receive-side bookkeeping, the peer's settings and the state that frame processing works on.
The counters of resident bytes never reach the machine bound, so their saturating additions are
plain ones.

One frame at a time: assemble HEADERS, CONTINUATION and DATA into a request, enforce stream state,
frame sizes, header-block continuity and flow control, and validate the request headers.  Every
early return of the source is the value of its branch.
-/

namespace HttpJet.H2

open Hpack Hpack.Integer Hpack.Literal Hpack.StaticTable
open Library

/-- Peer SETTINGS we act on. -/
structure PeerSettings where
  maxFrameSize : Nat := 16384
  initialWindow : Int := 65535
  deriving DecidableEq

/-- The most recently recorded stream ids, oldest first. -/
structure RecentIds where
  order : List StreamId := []
  deriving DecidableEq

namespace RecentIds

def contains (recent : RecentIds) (sid : StreamId) : Bool := recent.order.contains sid

/-- Record an id; at the cap the oldest ids leave. -/
def insert (recent : RecentIds) (sid : StreamId) (cap : Nat) : RecentIds :=
  if cap = 0 ∨ recent.contains sid then recent
  else ⟨recent.order.drop (recent.order.length + 1 - cap) ++ [sid]⟩

end RecentIds

/-- Per-stream accumulation until the request is complete. -/
structure StreamState where
  headerBlock : Octets := []
  method : Option Octets := none
  path : Option Uri := none
  authority : Option Octets := none
  headers : Headers := []
  headersDone : Bool := false
  endStream : Bool := false
  /-- Refused for exceeding the stream cap; the reset waits for END_HEADERS. -/
  refused : Bool := false
  headerCharge : Nat := 0
  body : Octets := []
  /-- The bytes its lease holds of the server-wide budget, if it has one. -/
  bodyLease : Option Nat := none
  contentLength : Option Nat := none
  recvWindow : Int := 0
  deriving DecidableEq

/-- The head of a request whose body is still to come. -/
structure RequestHead where
  method : Octets
  uri : Uri
  authority : Option Octets
  headers : Headers

/-- Receive-side connection state. -/
structure Recv where
  seenSettings : Bool
  lastClientStream : StreamId
  goawayLast : Option StreamId
  openHeaderBlock : Option StreamId
  discardingHeaderBlock : Bool
  discardHeaderBlock : Octets
  discardRstCode : ErrorCode
  resetIds : RecentIds
  sentResetIds : RecentIds
  maxConcurrent : Nat
  connRecvWindow : Int
  ourInitialWindow : Int
  /-- Debt of the rapid-reset budget, in milliseconds of the connection's clock. -/
  resetDebtUntil : Option Nat
  totalBuffered : Nat
  maxRequestBody : Nat
  perConnRequestBody : Nat
  pendingHeaderBytes : Nat
  pendingHeaderMem : Nat
  /-- The capacity of the server-wide budget, if there is one; 0 never refuses. -/
  bodyBudget : Option Nat
  noProgressFrames : Nat
  earlyReject : Option (RequestHead → Option (Nat × Headers))

/-- `BodyBufferLease::reserve` when the server-wide counter reads `inFlight`. -/
def reserve (capacity inFlight held n : Nat) : Option Nat :=
  if capacity = 0 ∨ inFlight + n ≤ capacity then some (held + n) else none

/-- A handler future in flight. -/
structure Task where
  sid : StreamId
  isHead : Bool
  aborted : Bool
  deriving DecidableEq

/-- A call of `release_stream`: the counters it found and the stream it released. -/
structure Release where
  totalBuffered : Nat
  pendingHeaderBytes : Nat
  st : StreamState

/-- What `process_frame` reads and writes, and the calls it makes. -/
structure Session where
  streams : HashMap StreamId StreamState
  dec : Decoder
  enc : Encoder
  memo : LongLiterals
  out : List Seg
  peer : PeerSettings
  recv : Recv
  inflight : List Task
  cancelled : List StreamId
  inflightSids : List StreamId
  /-- The calls made to the service. -/
  dispatched : List (StreamId × Request)
  released : List Release

namespace Recv

variable (recv : Recv)

/-- The last-stream-id for a GOAWAY being sent now, never above an earlier one. -/
def goawayLastStreamId : StreamId :=
  match recv.goawayLast with
  | none => recv.lastClientStream
  | some previous => min previous recv.lastClientStream

def noteReset (sid : StreamId) : Recv :=
  { recv with resetIds := recv.resetIds.insert sid (recv.maxConcurrent * 2) }

/-- Stop counting a stream's buffered body and decoded headers. -/
def releaseStream (st : StreamState) : Recv :=
  { recv with
    totalBuffered := recv.totalBuffered - st.body.length
    pendingHeaderBytes := recv.pendingHeaderBytes - st.headerCharge }

/-- Charge the decoded headers of a stream that now waits for its body. -/
def admitPendingHeaders (inFlight : Nat) (st : StreamState) (charge : Nat) :
    Option (Recv × StreamState) :=
  let total := recv.pendingHeaderBytes + charge
  if recv.pendingHeaderBytes ≠ 0 ∧ recv.pendingHeaderMem < total then none
  else
    let admitted := { recv with pendingHeaderBytes := total }
    match recv.bodyBudget with
    | none => some (admitted, { st with headerCharge := charge })
    | some capacity =>
      match reserve capacity inFlight (st.bodyLease.getD 0) charge with
      | none => none
      | some held => some (admitted, { st with headerCharge := charge, bodyLease := some held })

def rapidResetBurst : Nat := 200

/-- A tenth of a second, in nanoseconds. -/
def rapidResetRefill : Nat := 100 * 1000000

/-- Push the reset debt one refill interval out; whether it is now exhausted. -/
def chargeInflightResetAt (now : Nat) : Recv × Bool :=
  let debt := (recv.resetDebtUntil.filter fun t => now < t).getD now
  let till := debt + rapidResetRefill
  ({ recv with resetDebtUntil := some till },
    decide (rapidResetRefill * rapidResetBurst < till - now))

end Recv

namespace Session

variable (s : Session)

def push (seg : Seg) : Session := { s with out := s.out ++ [seg] }

/-- Stop counting a stream that has left the map. -/
def release (st : StreamState) : Session :=
  { s with
    recv := s.recv.releaseStream st
    released := s.released ++ [⟨s.recv.totalBuffered, s.recv.pendingHeaderBytes, st⟩] }

/-- Drop a half-received request, if any, and its accounting. -/
def dropReceiving (sid : StreamId) : Session :=
  match s.streams.get sid with
  | none => s
  | some st => { s with streams := s.streams.del sid }.release st

/-- Receive-side teardown after we reset a stream. -/
def teardownReceiving (sid : StreamId) : Session :=
  let s := s.dropReceiving sid
  let recv := s.recv.noteReset sid
  { s with
    recv := { recv with sentResetIds := recv.sentResetIds.insert sid (recv.maxConcurrent * 2) } }

/-- Body-deadline teardown.  The flag tells whether to emit RST_STREAM now: a trailer block
still open on the stream goes on being decoded in discard mode and resets at its end. -/
def expireReceiving (sid : StreamId) : Session × Bool :=
  let openBlock := s.recv.openHeaderBlock = some sid ∧ s.recv.discardingHeaderBlock = false
  let s' :=
    match s.streams.get sid with
    | none => s
    | some st =>
      if openBlock then
        { s with recv := { s.recv with
            discardHeaderBlock := st.headerBlock
            discardingHeaderBlock := true
            discardRstCode := .cancel } }
      else s
  (s'.teardownReceiving sid, !decide openBlock)

/-- Write a GOAWAY with the last stream processed. -/
def writeGoaway (error : ErrorCode) : Session :=
  let last := s.recv.goawayLastStreamId
  { s.push (.goaway last error) with recv := { s.recv with goawayLast := some last } }

/-- Abort the handler of a stream and remember it, up to the cap. -/
def abort (sid : StreamId) : Session :=
  { s with
    inflightSids := s.inflightSids.erase sid
    inflight := s.inflight.map fun task =>
      if task.sid = sid then { task with aborted := true } else task
    cancelled :=
      if s.cancelled.length < s.recv.maxConcurrent * 2 then s.cancelled.insert sid
      else s.cancelled }

/-- One header through the shared encoder. -/
def encodeHeaders (fields : List Field) : Session × Octets :=
  let (enc, memo, block) := s.enc.encodeBlock s.memo fields
  ({ s with enc := enc, memo := memo }, block)

end Session

/-! ## Frames -/

def maxHeaderBlock : Nat := 64 * 1024
def noProgressBudget : Nat := 10000
def decodedFieldOverhead : Nat := 192

/-- Outcome of handling one frame. -/
inductive FrameOutcome where
  | proceed
  | stopReading
  | peerGoaway
  | windowUpdate (streamId : StreamId) (increment : Nat)
  | resetStream (streamId : StreamId)
  | initialWindowDelta (delta : Int)
  deriving DecidableEq

/-- What a frame is handled under: the parsers, the size of a stream entry, the clock and the
reading of the server-wide body counter. -/
structure Ambient where
  parsers : Parsers
  streamStateSize : Nat
  now : Nat
  inFlight : Nat

/-! ## Decoding a request header block -/

/-- Outcome of decoding a header block. -/
inductive DecodedBlock where
  | ok
  | compression
  | tooLarge
  | malformed
  deriving DecidableEq

/-- What the field callback of `decode_block_from` captures. -/
structure FieldScan where
  st : StreamState
  seenRegular : Bool := false
  malformed : Bool := false
  hostValue : Option Octets := none
  schemeIsHttp : Bool := false
  pathIsAsterisk : Bool := false
  seenMethod : Bool := false
  seenScheme : Bool := false
  seenPath : Bool := false
  seenAuthority : Bool := false

namespace FieldScan

variable (scan : FieldScan)

def reject : FieldScan := { scan with malformed := true }

def methodField (parsers : Parsers) (scan : FieldScan) (value : Octets) : FieldScan :=
  if scan.seenMethod then scan.reject
  else
    let scan := { scan with seenMethod := true }
    if parsers.method value then { scan with st := { scan.st with method := some value } }
    else scan.reject

/-- `:path` is origin-form or an asterisk, without a fragment, scheme or authority. -/
def pathField (parsers : Parsers) (scan : FieldScan) (value : Octets) : FieldScan :=
  if scan.seenPath then scan.reject
  else
    let scan := { scan with seenPath := true }
    if value.contains 35 || (value != ascii "*" && value.head? != some 47) then scan.reject
    else
      match parsers.uri value with
      | some uri =>
        if uri.scheme.isNone && uri.authority.isNone then
          { scan with
            pathIsAsterisk := value == ascii "*"
            st := { scan.st with path := some uri } }
        else scan.reject
      | none => scan.reject

def authorityField (parsers : Parsers) (scan : FieldScan) (value : Octets) : FieldScan :=
  if scan.seenAuthority then scan.reject
  else
    let scan := { scan with seenAuthority := true }
    if validUriAuthority parsers value && parsers.headerValue value then
      { scan with st := { scan.st with authority := some value } }
    else scan.reject

def schemeField (value : Octets) : FieldScan :=
  if scan.seenScheme then scan.reject
  else
    let scan := { scan with seenScheme := true }
    if validUriScheme value then
      { scan with
        schemeIsHttp := eqIgnoreCase value (ascii "http") || eqIgnoreCase value (ascii "https") }
    else scan.reject

def pseudoField (parsers : Parsers) (isTrailers : Bool) (scan : FieldScan) (name value : Octets) :
    FieldScan :=
  if isTrailers || scan.seenRegular then scan.reject
  else if !parsers.utf8 name || !parsers.utf8 value then scan.reject
  else if name = ascii ":method" then scan.methodField parsers value
  else if name = ascii ":scheme" then scan.schemeField value
  else if name = ascii ":path" then scan.pathField parsers value
  else if name = ascii ":authority" then scan.authorityField parsers value
  else scan.reject

/-- `content-length` is digits only and does not contradict an earlier one. -/
def contentLengthField (value : Octets) : FieldScan :=
  if value.isEmpty || !value.all isDigit then scan.reject
  else
    match parseU64 value with
    | some length =>
      if scan.st.contentLength.all (· == length) then
        { scan with st := { scan.st with contentLength := some length } }
      else scan.reject
    | none => scan.reject

/-- A second `host` line is malformed. -/
def hostField (value : Octets) : FieldScan :=
  if scan.hostValue.isSome then scan.reject else { scan with hostValue := some value }

def append (name value : Octets) : FieldScan :=
  { scan with st := { scan.st with headers := scan.st.headers ++ [(name, value)] } }

def edgeBlank (value : Octets) : Bool := value.head?.any isBlank || value.getLast?.any isBlank

def regularField (parsers : Parsers) (isTrailers : Bool) (scan : FieldScan)
    (name value : Octets) : FieldScan :=
  let scan := { scan with seenRegular := true }
  if !parsers.utf8 name then scan.reject
  else if name.any isUpper then scan.reject
  else if isConnectionSpecificRequestHeader name then scan.reject
  else if name = ascii "te" && !eqIgnoreCase value (ascii "trailers") then scan.reject
  else if !parsers.headerName name || !parsers.headerValue value || edgeBlank value then scan.reject
  else if isTrailers then scan
  else
    let scan := if name = ascii "content-length" then scan.contentLengthField value else scan
    if scan.malformed then scan
    else
      let scan := if name = ascii "host" then scan.hostField value else scan
      if scan.malformed then scan else scan.append name value

/-- The field callback; nothing is looked at once the block is malformed. -/
def field (parsers : Parsers) (isTrailers : Bool) (scan : FieldScan) (field : Field) : FieldScan :=
  if scan.malformed then scan
  else if field.1.head? = some 58 then scan.pseudoField parsers isTrailers field.1 field.2
  else scan.regularField parsers isTrailers field.1 field.2

/-- The checks on a complete request header section. -/
def requestOk (parsers : Parsers) (scan : FieldScan) : Bool :=
  scan.seenMethod && scan.seenScheme && scan.seenPath &&
    scan.st.method != some (ascii "CONNECT") &&
    !(scan.pathIsAsterisk && scan.st.method != some (ascii "OPTIONS")) &&
    (scan.st.authority.all fun authority =>
      parsers.visible authority && validUriAuthority parsers authority &&
        (!scan.schemeIsHttp || validHttpAuthority parsers authority)) &&
    (scan.hostValue.all fun host => parsers.visible host && validHttpAuthority parsers host) &&
    (scan.st.authority.all fun authority => scan.hostValue.all fun host => authority == host)

end FieldScan

/-- Decode a complete header block into a stream. -/
def decodeBlockFrom (parsers : Parsers) (dec : Decoder) (st : StreamState) (block : Octets) :
    Decoder × StreamState × DecodedBlock :=
  let isTrailers := st.headersDone
  let decoded := dec.decodeOctets block
  let scan := decoded.emitted.foldl (FieldScan.field parsers isTrailers) { st := st }
  match decoded.result with
  | .error .headerListTooLarge => (decoded.decoder, scan.st, .tooLarge)
  | .error _ => (decoded.decoder, scan.st, .compression)
  | .ok () =>
    if scan.malformed then (decoded.decoder, scan.st, .malformed)
    else if isTrailers then (decoded.decoder, scan.st, .ok)
    else if scan.requestOk parsers then
      (decoded.decoder, { scan.st with headersDone := true }, .ok)
    else (decoded.decoder, scan.st, .malformed)

/-- Decode a block only to keep the dynamic table in step; `none` on a decode error. -/
def decodeDiscardHeaderBlock (dec : Decoder) (block : Octets) : Decoder × Bool :=
  let decoded := dec.decodeOctets block
  match decoded.result with
  | .ok () => (decoded.decoder, true)
  | .error .headerListTooLarge => (decoded.decoder, true)
  | .error _ => (decoded.decoder, false)

/-! ## Charges and requests -/

/-- What a stream's decoded headers cost while they wait for the request body. -/
def pendingHeaderCharge (streamStateSize : Nat) (st : StreamState) : Nat :=
  let fields := (st.headers.map fun field =>
    field.1.length + field.2.length + decodedFieldOverhead).sum
  let path := ((st.path.bind Uri.pathAndQuery).map List.length).getD 0
  let authority := (st.authority.map List.length).getD 0
  min (fields + (path + authority + 4 * decodedFieldOverhead) + streamStateSize) (2 ^ 32 - 1)

def declaredBodyTooLarge (st : Option StreamState) (maxRequestBody : Nat) : Bool :=
  st.any fun st => !st.endStream && st.contentLength.any fun length => maxRequestBody < length

def earlyRejectResponse (recv : Recv) (st : StreamState) : Option (Nat × Headers) := do
  let hook ← recv.earlyReject
  let method ← st.method
  let uri ← st.path
  hook ⟨method, uri, st.authority, st.headers⟩

/-- Translate the captured pseudo-headers, headers and body into a request. -/
def buildRequest (st : StreamState) : Option Request := do
  let method ← st.method
  let uri ← st.path
  let headers :=
    match st.authority with
    | some authority => st.headers.insert (ascii "host") authority
    | none => st.headers
  let lease :=
    if st.body.isEmpty then none
    else st.bodyLease.map fun held => held - min st.headerCharge held
  some ⟨method, uri, coalesceCookieCrumbs headers, st.body, lease⟩

def wantsContinue (parsers : Parsers) (st : StreamState) : Bool :=
  !st.endStream && (st.headers.get (ascii "expect")).any fun value =>
    parsers.visible value && eqIgnoreCase value (ascii "100-continue")

namespace Session

/-! ## The early returns -/

variable (env : Ambient) (s : Session)

def goaway (error : ErrorCode) : Session × FrameOutcome :=
  (s.writeGoaway error, .stopReading)

/-- The charge for a reset stream is stored, and ends the connection when it exhausts the budget. -/
def afterCharge (sid : StreamId) (charge : Recv × Bool) : Session × FrameOutcome :=
  let s := { s with recv := charge.1 }
  if charge.2 then s.goaway .enhanceYourCalm else (s, .resetStream sid)

/-- Abort the handler of a reset stream, which draws on the rapid-reset budget. -/
def cancelInflight (now : Nat) (s : Session) (sid : StreamId) : Session × FrameOutcome :=
  if s.inflightSids.contains sid then
    (s.abort sid).afterCharge sid ((s.abort sid).recv.chargeInflightResetAt now)
  else (s, .resetStream sid)

/-- Reset a stream on both sides. -/
def rst (sid : StreamId) (error : ErrorCode) : Session × FrameOutcome :=
  ((s.push (.rstStream sid error)).teardownReceiving sid).cancelInflight env.now sid

/-- Answer a request that is too large with a bodiless response. -/
def rejectTooLarge (sid : StreamId) (status : String) (clientOpen : Bool) :
    Session × FrameOutcome :=
  let (s, block) := s.encodeHeaders [field ":status" status, field "content-length" "0"]
  let s := s.push (.fields sid false true block [])
  if clientOpen then s.rst env sid .noError else (s.dropReceiving sid, .resetStream sid)

/-- The response the early-reject hook gives for a stream with a body to come. -/
def earlyRejection (sid : StreamId) : Option (Nat × Headers) := do
  let st ← s.streams.get sid
  if st.endStream then none else earlyRejectResponse s.recv st

def rejectEarly (sid : StreamId) (status : Nat) (headers : Headers) : Session × FrameOutcome :=
  let headers := (stripHopByHopResponse env.parsers headers).remove (ascii "content-length")
  let (s, block) := s.encodeHeaders
    ((ascii ":status", statusText status) :: headers ++ [field "content-length" "0"])
  let s := s.push (writeFieldBlock sid false true block s.peer.maxFrameSize)
  s.rst env sid .noError

/-- Take a complete stream off the map, which is progress. -/
def finish (sid : StreamId) (st : StreamState) : Session :=
  let s := { s with streams := s.streams.del sid }.release st
  { s with recv := { s.recv with noProgressFrames := 0 } }

/-- Build the request of a completed stream and start its handler. -/
def complete (sid : StreamId) : Session × FrameOutcome :=
  match s.streams.get sid with
  | none => (s, .proceed)
  | some st =>
    let s := s.finish sid st
    if st.contentLength.any fun length => length != st.body.length then
      s.rst env sid .protocolError
    else
      match buildRequest st with
      | some request =>
        ({ s with
          inflight := s.inflight ++ [⟨sid, st.method == some (ascii "HEAD"), false⟩]
          inflightSids := s.inflightSids.insert sid
          dispatched := s.dispatched ++ [(sid, request)] }, .proceed)
      | none => s.rst env sid .protocolError

/-- The go-ahead for a client that withholds its body. -/
def maybeSend100Continue (parsers : Parsers) (s : Session) (sid : StreamId) (st : StreamState) :
    Session :=
  if wantsContinue parsers st then
    let (s, block) := s.encodeHeaders [field ":status" "100"]
    s.push (.fields sid true false block [])
  else s

/-- A stream whose headers completed: charge and keep it, or dispatch it. -/
def admitOrComplete (sid : StreamId) : Session × FrameOutcome :=
  match s.streams.get sid with
  | none => (s, .proceed)
  | some st =>
    if st.endStream then s.complete env sid
    else
      match s.recv.admitPendingHeaders env.inFlight st
          (pendingHeaderCharge env.streamStateSize st) with
      | none => s.rst env sid .refusedStream
      | some (recv, st) =>
        let s := { s with recv := recv, streams := s.streams.put sid st }
        (s.maybeSend100Continue env.parsers sid st, .proceed)

/-- A stream marked `refused` leaves without accounting and is reset. -/
def refuse (sid : StreamId) : Session × FrameOutcome :=
  { s with streams := s.streams.del sid }.rst env sid .refusedStream

def isRefused (sid : StreamId) : Bool := (s.streams.get sid).any StreamState.refused

/-- What follows END_HEADERS, after the block of a stream has been decoded. -/
def endOfBlock (sid : StreamId) : DecodedBlock → Session × FrameOutcome
  | .ok =>
    if s.isRefused sid then s.refuse env sid
    else if declaredBodyTooLarge (s.streams.get sid) s.recv.maxRequestBody then
      s.rejectTooLarge env sid "413" true
    else
      match s.earlyRejection sid with
      | some (status, headers) => s.rejectEarly env sid status headers
      | none => s.admitOrComplete env sid
  | .compression => s.goaway .compressionError
  | .tooLarge =>
    if s.isRefused sid then s.refuse env sid
    else s.rejectTooLarge env sid "431" ((s.streams.get sid).any fun st => !st.endStream)
  | .malformed => (s.dropReceiving sid).rst env sid .protocolError

/-- Decode the block of a stream in place. -/
def decodeInto (sid : StreamId) (st : StreamState) (block : Octets) : Session × DecodedBlock :=
  let (dec, st, verdict) := decodeBlockFrom env.parsers s.dec st block
  ({ s with dec := dec, streams := s.streams.put sid st }, verdict)

/-! ## The frame arms -/

/-- One SETTINGS parameter; `none` where the source answers with GOAWAY. -/
def settingsParam (param : Nat × Nat) : Session ⊕ ErrorCode :=
  if param.1 = Setting.enablePush then
    if 1 < param.2 then .inr .protocolError else .inl s
  else if param.1 = Setting.headerTableSize then
    .inl { s with enc := s.enc.setPeerMaxSize param.2 }
  else if param.1 = Setting.maxFrameSize then
    if param.2 < 16384 ∨ 2 ^ 24 - 1 < param.2 then .inr .protocolError
    else .inl { s with peer := { s.peer with maxFrameSize := param.2 } }
  else if param.1 = Setting.initialWindowSize then
    if 2 ^ 31 - 1 < param.2 then .inr .flowControlError
    else .inl { s with peer := { s.peer with initialWindow := param.2 } }
  else .inl s

/-- The parameters in order.  What a bad parameter's predecessors changed stays changed. -/
def settingsParams : List (Nat × Nat) → Session → Session × Option ErrorCode
  | [], s => (s, none)
  | param :: params, s =>
    match s.settingsParam param with
    | .inl s => settingsParams params s
    | .inr error => (s, some error)

/-- The deltas of the initial window sum up to its whole change. -/
def onSettings (f : Frame) : Session × FrameOutcome :=
  if f.has Flag.ack then
    if f.length ≠ 0 then s.goaway .frameSizeError else (s, .proceed)
  else
    match parseSettings f.payload with
    | none => s.goaway .frameSizeError
    | some params =>
      match settingsParams params s with
      | (s, some error) => s.goaway error
      | (s', none) =>
        let delta := s'.peer.initialWindow - s.peer.initialWindow
        (s'.push .settingsAck, if delta ≠ 0 then .initialWindowDelta delta else .proceed)

def onPing (f : Frame) : Session × FrameOutcome :=
  (if f.has Flag.ack then s else s.push (.pingAck f.payload), .proceed)

def isEven (sid : StreamId) : Bool := sid % 2 == 0

/-- An id the client may not have opened: even, or above the last one it opened. -/
def notOpened (sid : StreamId) : Bool :=
  isEven sid || s.recv.lastClientStream < sid

def onWindowUpdate (f : Frame) : Session × FrameOutcome :=
  if f.streamId ≠ 0 ∧ s.notOpened f.streamId = true then s.goaway .protocolError
  else
    match parseWindowUpdate f.payload with
    | none => s.goaway .frameSizeError
    | some increment =>
      if increment = 0 then
        if f.streamId = 0 then s.goaway .protocolError
        else s.rst env f.streamId .protocolError
      else (s, .windowUpdate f.streamId increment)

def onGoaway (f : Frame) : Session × FrameOutcome :=
  if f.length < 8 then s.goaway .frameSizeError else (s, .peerGoaway)

/-- A block that is decoded only for the dynamic table, then answered with a reset. -/
def discardBlock (f : Frame) (block : Octets) (error : ErrorCode) : Session × FrameOutcome :=
  if f.has Flag.endHeaders then
    let (dec, ok) := decodeDiscardHeaderBlock s.dec block
    let s := { s with dec := dec }
    if ok then s.rst env f.streamId error else s.goaway .compressionError
  else
    ({ s with recv := { s.recv with
        discardHeaderBlock := block
        discardingHeaderBlock := true
        discardRstCode := error
        openHeaderBlock := some f.streamId } }, .proceed)

/-- HEADERS on an id below the last one opened: the close race of a reset stream, or reuse. -/
def headersOnClosed (f : Frame) : Session × FrameOutcome :=
  if !s.recv.resetIds.contains f.streamId then s.goaway .protocolError
  else
    match headersBlock f with
    | none => s.goaway .protocolError
    | some block =>
      if maxHeaderBlock < block.length then s.goaway .compressionError
      else s.discardBlock env f block .streamClosed

/-- A self-dependent stream or trailers that do not end the stream. -/
def headersMalformed (f : Frame) : Session × FrameOutcome :=
  match headersBlock f with
  | none => s.goaway .protocolError
  | some block =>
    if maxHeaderBlock < block.length then s.goaway .compressionError
    else (s.dropReceiving f.streamId).discardBlock env f block .protocolError

/-- The stream a HEADERS frame belongs to, opened when it is new. -/
def entry (sid : StreamId) (refused : Bool) : StreamState :=
  match s.streams.get sid with
  | some st => st
  | none => { recvWindow := s.recv.ourInitialWindow, refused := refused }

/-- A HEADERS frame that opens a stream or carries its trailers. -/
def headersAccepted (f : Frame) (refused : Bool) : Session × FrameOutcome :=
  let sid := f.streamId
  match headersBlock f with
  | none => s.goaway .protocolError
  | some block =>
    let st := s.entry sid refused
    let s := { s with streams := s.streams.put sid st }
    if maxHeaderBlock < st.headerBlock.length + block.length then s.goaway .compressionError
    else
      let st := { st with endStream := st.endStream || f.has Flag.endStream }
      if f.has Flag.endHeaders then
        let s := { s with recv := { s.recv with openHeaderBlock := none } }
        let (s, verdict) :=
          s.decodeInto env sid { st with headerBlock := [] } (st.headerBlock ++ block)
        s.endOfBlock env sid verdict
      else
        ({ s with
          streams := s.streams.put sid { st with headerBlock := st.headerBlock ++ block }
          recv := { s.recv with openHeaderBlock := some sid } }, .proceed)

/-- A stream that is not in the map becomes the last one the client opened. -/
def advance (sid : StreamId) : Session :=
  if s.streams.contains sid then s
  else { s with recv := { s.recv with lastClientStream := sid } }

def onHeaders (env : Ambient) (outstreamsLen : Nat) (accepting : Bool) (s : Session) (f : Frame) :
    Session × FrameOutcome :=
  let sid := f.streamId
  let opensNew := !s.streams.contains sid
  if opensNew && isEven sid then s.goaway .protocolError
  else if opensNew && sid ≤ s.recv.lastClientStream then s.headersOnClosed env f
  else
    let s := s.advance sid
    let selfPriority := priorityDependency f true = some sid
    let unterminated :=
      (s.streams.get sid).any StreamState.headersDone && !f.has Flag.endStream
    if selfPriority ∨ unterminated = true then s.headersMalformed env f
    else
      -- The cap counts every active state: receiving, running a handler, sending.
      let refused := opensNew &&
        (!accepting ||
          decide (s.recv.maxConcurrent ≤ s.streams.size + s.inflight.length + outstreamsLen))
      s.headersAccepted env f refused

def continueDiscard (f : Frame) : Session × FrameOutcome :=
  let block := s.recv.discardHeaderBlock ++ f.payload
  if maxHeaderBlock < block.length then s.goaway .compressionError
  else if f.has Flag.endHeaders then
    let (dec, ok) := decodeDiscardHeaderBlock s.dec block
    let s := { s with
      dec := dec
      recv := { s.recv with
        openHeaderBlock := none
        discardingHeaderBlock := false
        discardHeaderBlock := [] } }
    if ok then
      let error := s.recv.discardRstCode
      { s with recv := { s.recv with discardRstCode := .streamClosed } }.rst env f.streamId error
    else s.goaway .compressionError
  else ({ s with recv := { s.recv with discardHeaderBlock := block } }, .proceed)

def onContinuation (f : Frame) : Session × FrameOutcome :=
  let sid := f.streamId
  if s.recv.discardingHeaderBlock then s.continueDiscard env f
  else
    match s.streams.get sid with
    | none => s.goaway .protocolError
    | some st =>
      let block := st.headerBlock ++ f.payload
      if maxHeaderBlock < block.length then s.goaway .compressionError
      else if f.has Flag.endHeaders then
        let s := { s with recv := { s.recv with openHeaderBlock := none } }
        let (s, verdict) := s.decodeInto env sid { st with headerBlock := [] } block
        s.endOfBlock env sid verdict
      else ({ s with streams := s.streams.put sid { st with headerBlock := block } }, .proceed)

/-- Padding and framing octets count too. -/
def chargeConn (n : Nat) : Session :=
  { s with recv := { s.recv with connRecvWindow := s.recv.connRecvWindow - n } }

/-- The connection window after a DATA frame, with the WINDOW_UPDATE that restores it once
half of it is used. -/
def replenishConn : Session :=
  let target := max s.recv.ourInitialWindow 65535
  if s.recv.connRecvWindow ≤ target / 2 then
    { s.push (.windowUpdate 0 (target - s.recv.connRecvWindow).toNat) with
      recv := { s.recv with connRecvWindow := target } }
  else s

/-- DATA on a stream that is not receiving. -/
def dataOnClosed (f : Frame) : Session × FrameOutcome :=
  if s.notOpened f.streamId then s.goaway .protocolError
  else if s.recv.sentResetIds.contains f.streamId then (s, .proceed)
  else s.rst env f.streamId .streamClosed

/-- The bytes a lease holds after buffering `n` more; `none` when the budget is exhausted. -/
def reserveBody (recv : Recv) (inFlight : Nat) (st : StreamState) (n : Nat) : Option (Option Nat) :=
  match recv.bodyBudget with
  | none => some st.bodyLease
  | some capacity => (reserve capacity inFlight (st.bodyLease.getD 0) n).map some

/-- Buffer the data of a stream and refresh its window once half of it is used. -/
def buffer (sid : StreamId) (st : StreamState) (data : Octets) (ended : Bool) : Session :=
  let st : StreamState := { st with body := st.body ++ data }
  let recv : Recv := { s.recv with totalBuffered := s.recv.totalBuffered + data.length }
  let s : Session := { s with recv := recv }
  if !ended && decide (st.recvWindow ≤ recv.ourInitialWindow / 2) then
    { s.push (.windowUpdate sid (recv.ourInitialWindow - st.recvWindow).toNat) with
      streams := s.streams.put sid { st with recvWindow := recv.ourInitialWindow } }
  else { s with streams := s.streams.put sid st }

/-- Body octets are progress. -/
def noteProgress (data : Octets) : Session :=
  if data.isEmpty then s else { s with recv := { s.recv with noProgressFrames := 0 } }

/-- DATA that has been charged to the windows: the limits, the budget, the buffer, and the
request that END_STREAM completes. -/
def receiveData (f : Frame) (st : StreamState) (data : Octets) : Session × FrameOutcome :=
  let sid := f.streamId
  if st.recvWindow < 0 then (s.dropReceiving sid).rst env sid .flowControlError
  else
    let bodyLen := st.body.length + data.length
    if st.contentLength.any fun length => length < bodyLen then s.rst env sid .protocolError
    else if s.recv.maxRequestBody < bodyLen then
      s.rejectTooLarge env sid "413" (!f.has Flag.endStream)
    else if s.recv.perConnRequestBody < s.recv.totalBuffered + data.length then
      s.goaway .enhanceYourCalm
    else
      let s := s.noteProgress data
      match reserveBody s.recv env.inFlight st data.length with
      | none => s.rst env sid .refusedStream
      | some lease =>
        let s := s.buffer sid { st with bodyLease := lease } data (f.has Flag.endStream)
        if f.has Flag.endStream && st.headersDone then s.complete env sid else (s, .proceed)

/-- DATA on a receiving stream. -/
def dataOnStream (f : Frame) (st : StreamState) (data : Octets) : Session × FrameOutcome :=
  let st : StreamState := { st with recvWindow := st.recvWindow - f.length }
  { s with streams := s.streams.put f.streamId st }.receiveData env f st data

def onData (f : Frame) : Session × FrameOutcome :=
  match dataBlock f with
  | none => s.goaway .protocolError
  | some data =>
    let s := s.chargeConn f.length
    if s.recv.connRecvWindow < 0 then s.goaway .flowControlError
    else
      let s := s.replenishConn
      match s.streams.get f.streamId with
      | none => s.dataOnClosed env f
      | some st => s.dataOnStream env f st data

def onRstStream (f : Frame) : Session × FrameOutcome :=
  let sid := f.streamId
  if s.notOpened sid then s.goaway .protocolError
  else
    let s := s.dropReceiving sid
    let s := { s with recv := s.recv.noteReset sid }
    s.cancelInflight env.now sid

def onPriority (f : Frame) : Session × FrameOutcome :=
  if priorityDependency f false = some f.streamId then s.rst env f.streamId .protocolError
  else (s, .proceed)

/-- The frames that must carry a stream id, and those that must not. -/
def badAssociation (f : Frame) : Bool :=
  if [Kind.data, Kind.headers, Kind.priority, Kind.rstStream,
    Kind.continuation].contains f.kind then
    f.streamId == 0
  else if [Kind.settings, Kind.ping, Kind.goaway].contains f.kind then f.streamId != 0
  else f.kind == Kind.pushPromise

/-- The fixed-size frames. -/
def badLength (f : Frame) : Bool :=
  if f.kind = Kind.rstStream ∨ f.kind = Kind.windowUpdate then f.length != 4
  else if f.kind = Kind.priority then f.length != 5
  else if f.kind = Kind.ping then f.length != 8
  else false

/-- While a header block is open only its CONTINUATION may follow, and only then. -/
def badContinuity (f : Frame) : Bool :=
  match s.recv.openHeaderBlock with
  | some sid => f.kind != Kind.continuation || f.streamId != sid
  | none => f.kind == Kind.continuation

def dispatchKind (env : Ambient) (outstreamsLen : Nat) (accepting : Bool) (s : Session)
    (f : Frame) : Session × FrameOutcome :=
  if f.kind = Kind.settings then s.onSettings f
  else if f.kind = Kind.ping then s.onPing f
  else if f.kind = Kind.windowUpdate then s.onWindowUpdate env f
  else if f.kind = Kind.goaway then s.onGoaway f
  else if f.kind = Kind.headers then s.onHeaders env outstreamsLen accepting f
  else if f.kind = Kind.continuation then s.onContinuation env f
  else if f.kind = Kind.data then s.onData env f
  else if f.kind = Kind.rstStream then s.onRstStream env f
  else if f.kind = Kind.priority then s.onPriority env f
  else (s, .proceed)

/-- A frame counts against the no-progress budget until one makes progress. -/
def countFrame : Session :=
  { s with
    recv := { s.recv with
      seenSettings := true
      noProgressFrames := s.recv.noProgressFrames + 1 } }

/-- Handle one complete frame. -/
def processFrame (env : Ambient) (outstreamsLen : Nat) (accepting : Bool) (s : Session)
    (f : Frame) : Session × FrameOutcome :=
  -- The preface is followed by a SETTINGS frame that is not an acknowledgement.
  if !s.recv.seenSettings && (f.kind != Kind.settings || f.has Flag.ack) then
    s.goaway .protocolError
  else
    let s := s.countFrame
    if noProgressBudget < s.recv.noProgressFrames then s.goaway .enhanceYourCalm
    else if s.badContinuity f || badAssociation f then s.goaway .protocolError
    else if badLength f then s.goaway .frameSizeError
    else s.dispatchKind env outstreamsLen accepting f

end Session

end HttpJet.H2
