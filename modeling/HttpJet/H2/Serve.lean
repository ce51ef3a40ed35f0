import HttpJet.H2.Recv

/-!
# The connection loop

The loop selects between inbound frames, handler and pull completions, timers and the shutdown
signal.  Each arm is an event, in any order, and a timer may fire whenever its arm is enabled, so
every schedule of the loop is a run.  Of `out`, the flushes write a prefix.
-/

namespace HttpJet.H2

open Hpack Hpack.Integer Hpack.Literal Hpack.StaticTable Library

/-- A response body being written out. -/
structure OutStream where
  /-- Bytes pulled but not yet sent. -/
  pending : Octets
  /-- The streaming source is at home: not in memory and not being pulled. -/
  body : Bool
  pulling : Bool
  eof : Bool
  /-- END_STREAM has been written, or the stream was reset. -/
  done : Bool
  window : Int
  deriving DecidableEq

/-- The connection loop's state. -/
structure Conn where
  session : Session
  outstreams : HashMap StreamId OutStream
  sendSchedule : List StreamId
  /-- The streams whose body has a pull in flight. -/
  pulls : List StreamId
  sendConn : Int
  /-- Send-window credit that arrived before its response. -/
  pendingWindow : HashMap StreamId Int
  reading : Bool
  accepting : Bool
  draining : Bool
  shutdownDrain : Bool

def maxWindow : Int := 2 ^ 31 - 1

/-- How a response goes on after its header block. -/
inductive Opening where
  /-- END_STREAM on the header block. -/
  | headersOnly
  /-- A registered body: what is in memory, and whether a source remains. -/
  | register (pending : Octets) (source : Bool)
  deriving DecidableEq

/-- `body_to_bytes` of the bodies that are in memory. -/
def inMemory : Body → Octets
  | .empty => []
  | .full bytes => bytes
  | .stream _ => []
  | .file file => file.cachedRanged.getD []

def opening (isHead : Bool) (response : Response) : Opening :=
  if responseBodyForbidden isHead response.status then .headersOnly
  else
    match response.body with
    | .empty => .headersOnly
    | .stream _ => .register [] true
    | .file ⟨len, _, none⟩ =>
      if len = 0 then .headersOnly else .register [] true
    | body => if (inMemory body).isEmpty then .headersOnly else .register (inMemory body) false

/-- Whether a stream's content-length is not confirmed by its size hint. -/
def streamingUnknownLen (parsers : Parsers) (response : Response) (headers : Headers) : Bool :=
  match response.body with
  | .stream (some exact) =>
    ((headers.get (ascii "content-length")).bind fun value =>
      if parsers.visible value then parseU64 value else none) != some exact
  | .stream none => true
  | _ => false

/-- The header lines of a response as they go on the wire. -/
def responseHeaders (parsers : Parsers) (isHead : Bool) (response : Response) : Headers :=
  let headers := stripHopByHopResponse parsers response.headers
  sanitizeBodyHeaders headers isHead response.status (streamingUnknownLen parsers response headers)

namespace Conn

def push (c : Conn) (seg : Seg) : Conn := { c with session := c.session.push seg }

variable (c : Conn)

/-- Encode a field block and queue it. -/
def writeHead (sid : StreamId) (interim endStream : Bool) (fields : List Field) : Conn :=
  let (session, block) := c.session.encodeHeaders fields
  { c with
    session := session.push
      (writeFieldBlock sid interim endStream block (max session.peer.maxFrameSize 1)) }

/-- The interim 103 that announces the preload hints of a successful response. -/
def earlyHints (sid : StreamId) (status : Nat) (headers : Headers) : Conn :=
  let hints := (headers.getAll (ascii "link")).filter isEarlyHintLink
  if 200 ≤ status ∧ status < 300 ∧ hints ≠ [] then
    c.writeHead sid true false (field ":status" "103" :: hints.map fun v => (ascii "link", v))
  else c

/-- Put a response body on the send schedule. -/
def register (sid : StreamId) (pending : Octets) (source : Bool) (window : Int) : Conn :=
  { c with
    outstreams := c.outstreams.put sid
      { pending := pending, body := source, pulling := false, eof := !source, done := false,
        window := window }
    sendSchedule := c.sendSchedule ++ [sid] }

/-- The window a response starts with: the peer's initial window and its early credit. -/
def openingWindow (sid : StreamId) : Int :=
  min (c.session.peer.initialWindow + (c.pendingWindow.get sid).getD 0) maxWindow

/-- Early credit is used up once its response begins. -/
def takeCredit (sid : StreamId) : Conn :=
  { c with pendingWindow := c.pendingWindow.del sid }

/-- Encode the response head and register its body. -/
def beginResponse (parsers : Parsers) (c : Conn) (sid : StreamId) (isHead : Bool)
    (response : Response) : Conn :=
  let headers := responseHeaders parsers isHead response
  let c := c.earlyHints sid response.status headers
  let fields := (ascii ":status", statusText response.status) :: headers
  let window := c.openingWindow sid
  let c := c.takeCredit sid
  match opening isHead response with
  | .headersOnly => c.writeHead sid false true fields
  | .register pending source =>
    (c.writeHead sid false false fields).register sid pending source window

end Conn

/-- Write at most one DATA frame: the stream, what is queued, the connection window, and
whether anything was written. -/
def pumpOneFrame (sid : StreamId) (st : OutStream) (sendConn : Int) (maxFrame : Nat) :
    OutStream × List Seg × Int × Bool :=
  if !st.pending.isEmpty then
    let allow := min (min sendConn st.window) maxFrame
    if allow ≤ 0 then (st, [], sendConn, false)
    else
      let n := min allow.toNat st.pending.length
      let chunk := st.pending.take n
      let rest := st.pending.drop n
      let last := st.eof && rest.isEmpty
      ({ st with pending := rest, window := st.window - n, done := st.done || last },
        queueBody [.data sid n last] chunk, sendConn - n, true)
  else if st.eof && !st.done then
    ({ st with done := true }, [.data sid 0 true], sendConn, true)
  else (st, [], sendConn, false)

namespace Conn

variable (c : Conn)

/-- Start a pull for a drained stream that has more to come. -/
def queuePull (sid : StreamId) (st : OutStream) : Conn × OutStream :=
  if !st.done && st.pending.isEmpty && !st.eof && !st.pulling && st.body then
    ({ c with pulls := c.pulls ++ [sid] }, { st with body := false, pulling := true })
  else (c, st)

/-- Let a stream write a frame; it goes to the back of the schedule unless it is done.
The flag tells whether anything was written. -/
def pumpStream (sid : StreamId) (st : OutStream) : Conn × Bool :=
  let (st, segs, sendConn, wrote) :=
    pumpOneFrame sid st c.sendConn (max c.session.peer.maxFrameSize 1)
  let c := { c with
    sendConn := sendConn
    session := { c.session with out := c.session.out ++ segs } }
  let (c, st) := c.queuePull sid st
  if st.done then ({ c with outstreams := c.outstreams.del sid }, wrote)
  else
    ({ c with
      outstreams := c.outstreams.put sid st
      sendSchedule := c.sendSchedule ++ [sid] }, wrote)

/-- One visit of the send schedule. -/
def pumpVisit : Conn × Bool :=
  match c.sendSchedule with
  | [] => (c, false)
  | sid :: schedule =>
    let c := { c with sendSchedule := schedule }
    match c.outstreams.get sid with
    | none => (c, false)
    | some st =>
      if st.done then ({ c with outstreams := c.outstreams.del sid }, false)
      else c.pumpStream sid st

/-- Visit the schedule until nobody on it can write. -/
def pumpLoop : Nat → Nat → Conn → Conn
  | 0, _, c => c
  | _ + 1, 0, c => c
  | fuel + 1, visits + 1, c =>
    if c.sendSchedule.isEmpty then c
    else
      let (c, wrote) := c.pumpVisit
      pumpLoop fuel (if wrote then c.sendSchedule.length else visits) c

/-- Enough visits: each write takes a pending byte or an unfinished stream away. -/
def pumpFuel : Nat :=
  (HashMap.total (fun _ st => st.pending.length + 1) c.outstreams + 1) *
    (c.sendSchedule.length + 1)

/-- Drive every outgoing body as far as the windows allow. -/
def pumpStreams : Conn := pumpLoop c.pumpFuel c.sendSchedule.length c

def cancelOutstream (sid : StreamId) : Conn :=
  { c with outstreams := c.outstreams.del sid }

def resetOutstream (sid : StreamId) : Conn :=
  (c.push (.rstStream sid .cancel)).cancelOutstream sid

/-- Reset a response that stalled, or that idles through a shutdown drain. -/
def resetSending (sid : StreamId) : Conn :=
  if c.outstreams.contains sid then c.resetOutstream sid else c

end Conn

/-- What a pull came back with. -/
inductive PullResult where
  | chunk (data : Octets)
  | finished
  | failed
  deriving DecidableEq

/-- Apply a completed chunk pull to its stream. -/
def Conn.applyPull (c : Conn) (sid : StreamId) (result : PullResult) : Conn :=
  match c.outstreams.get sid with
  | none => c
  | some st =>
    let st := { st with pulling := false }
    match result with
    | .chunk data =>
      { c with
        outstreams := c.outstreams.put sid
          { st with body := true, pending := st.pending ++ data } }
    | .finished => { c with outstreams := c.outstreams.put sid { st with eof := true } }
    | .failed =>
      { c.push (.rstStream sid .internalError) with
        outstreams := c.outstreams.put sid { st with done := true } }

/-! ## Events -/

/-- The connection parameters advertised and enforced, with what the loop runs on. -/
structure Config where
  headerTableSize : Nat
  maxConcurrentStreams : Nat
  initialWindowSize : Nat
  maxFrameSize : Nat
  headerListSize : Nat
  maxRequestBody : Nat
  bodyBudget : Option Nat
  pendingHeaderMem : Nat
  earlyReject : Option (RequestHead → Option (Nat × Headers))
  parsers : Parsers
  streamStateSize : Nat

/-- What the loop can select. -/
inductive Event where
  /-- One complete frame, with the clock and the server-wide body counter as they read. -/
  | frame (f : Frame) (now inFlight : Nat)
  /-- The partial-frame or header-block deadline. -/
  | frameTimer
  /-- The body deadline of a receiving stream. -/
  | expire (sid : StreamId)
  /-- A handler resolves with a response. -/
  | handler (position : Nat) (response : Response)
  /-- A body pull resolves. -/
  | pull (sid : StreamId) (result : PullResult)
  | pump
  /-- The send-stall deadline of a response. -/
  | stalled (sid : StreamId)
  /-- The shutdown grace of an idle response. -/
  | drainIdle (sid : StreamId)
  | shutdown
  | peerClosed
  | idle
  /-- The drain bound. -/
  | drainElapsed

namespace Conn

/-- The first segments: our SETTINGS, and the growth of the connection window. -/
def preamble (config : Config) : List Seg :=
  .settings [(Setting.headerTableSize, config.headerTableSize),
    (Setting.maxConcurrentStreams, config.maxConcurrentStreams),
    (Setting.initialWindowSize, config.initialWindowSize),
    (Setting.maxFrameSize, config.maxFrameSize),
    (Setting.maxHeaderListSize, config.headerListSize)] ::
  if 65535 < config.initialWindowSize then
    [.windowUpdate 0 (config.initialWindowSize - 65535)]
  else []

def freshRecv (config : Config) : Recv where
  seenSettings := false
  lastClientStream := 0
  goawayLast := none
  openHeaderBlock := none
  discardingHeaderBlock := false
  discardHeaderBlock := []
  discardRstCode := .streamClosed
  resetIds := {}
  sentResetIds := {}
  maxConcurrent := config.maxConcurrentStreams
  connRecvWindow := max config.initialWindowSize 65535
  ourInitialWindow := config.initialWindowSize
  resetDebtUntil := none
  totalBuffered := 0
  maxRequestBody := config.maxRequestBody
  perConnRequestBody := config.maxRequestBody * 4
  pendingHeaderBytes := 0
  pendingHeaderMem := config.pendingHeaderMem
  bodyBudget := config.bodyBudget
  noProgressFrames := 0
  earlyReject := config.earlyReject

/-- The state before the first frame. -/
def fresh (config : Config) : Conn where
  session := {
    streams := ∅
    dec := Decoder.new config.headerTableSize config.headerListSize
    enc := Encoder.new
    memo := LongLiterals.empty
    out := preamble config
    peer := {}
    recv := freshRecv config
    inflight := []
    cancelled := []
    inflightSids := []
    dispatched := []
    released := [] }
  outstreams := ∅
  sendSchedule := []
  pulls := []
  sendConn := 65535
  pendingWindow := ∅
  reading := true
  accepting := true
  draining := false
  shutdownDrain := false

variable (c : Conn)

/-- Stop reading: what is in flight may finish, nothing new comes in. -/
def stop : Conn := { c with reading := false, accepting := false, draining := false }

def goaway (error : ErrorCode) : Conn :=
  { c with session := c.session.writeGoaway error }

def clearNoProgress : Conn :=
  { c with session := { c.session with
      recv := { c.session.recv with noProgressFrames := 0 } } }

/-! ## Send-window grants -/

def grantConn (increment : Nat) : Conn :=
  let granted := { c with sendConn := c.sendConn + increment }
  if maxWindow < granted.sendConn then (granted.goaway .flowControlError).stop
  else if c.sendConn ≤ 0 ∧ 0 < granted.sendConn then granted.clearNoProgress
  else granted

def grantSending (sid : StreamId) (st : OutStream) (increment : Nat) : Conn :=
  let window := st.window + increment
  if maxWindow < window then
    { c.push (.rstStream sid .flowControlError) with
      outstreams := c.outstreams.put sid { st with window := window, done := true } }
  else
    let granted := { c with outstreams := c.outstreams.put sid { st with window := window } }
    if st.window ≤ 0 ∧ 0 < window then granted.clearNoProgress else granted

/-- A stream whose early credit overflows the window is reset on both sides. -/
def overflowPending (sid : StreamId) (now : Nat) : Conn :=
  let session := (c.session.push (.rstStream sid .flowControlError)).teardownReceiving sid
  let (session, outcome) := session.cancelInflight now sid
  let c := { c with session := session }.takeCredit sid
  if outcome = .stopReading then c.stop else c

def parkCredit (sid : StreamId) (credit : Int) : Conn :=
  { c with pendingWindow := c.pendingWindow.put sid credit }

def maxPendingWindows : Nat := 4096

/-- Credit for a stream that has no response yet. -/
def grantPending (sid : StreamId) (increment now : Nat) : Conn :=
  let awaiting := c.session.streams.contains sid || c.session.inflightSids.contains sid
  if awaiting && (decide (c.pendingWindow.size < maxPendingWindows) || c.pendingWindow.contains sid)
  then
    let credit := (c.pendingWindow.get sid).getD 0 + increment
    let c := c.parkCredit sid credit
    if maxWindow < c.session.peer.initialWindow + credit then c.overflowPending sid now else c
  else c

def grantStream (sid : StreamId) (increment now : Nat) : Conn :=
  match c.outstreams.get sid with
  | some st => c.grantSending sid st increment
  | none => c.grantPending sid increment now

/-- Shift every window being sent under by the change of the initial window. -/
def shiftWindows (delta : Int) : Conn :=
  let shifted := { c with
    outstreams := c.outstreams.mapValues fun st => { st with window := st.window + delta } }
  if shifted.outstreams.entries.any fun entry => decide (maxWindow < entry.2.window) then
    (shifted.goaway .flowControlError).stop
  else shifted

/-! ## The arms -/

def onOutcome (now : Nat) : FrameOutcome → Conn
  | .proceed => c
  | .stopReading => c.stop
  | .peerGoaway => { c with draining := true, accepting := false }
  | .resetStream sid => (c.cancelOutstream sid).takeCredit sid
  | .windowUpdate sid increment =>
    if sid = 0 then c.grantConn increment else c.grantStream sid increment now
  | .initialWindowDelta delta => c.shiftWindows delta

def onFrame (config : Config) (c : Conn) (f : Frame) (now inFlight : Nat) : Conn :=
  if min config.maxFrameSize (2 ^ 24) < f.length then (c.goaway .frameSizeError).stop
  else
    let env : Ambient := ⟨config.parsers, config.streamStateSize, now, inFlight⟩
    let (session, outcome) :=
      c.session.processFrame env c.outstreams.size c.accepting f
    { c with session := session }.onOutcome now outcome

/-- Tear a receiving stream down at its deadline, resetting it now or at the end of its block. -/
def expireReceiving (c : Conn) (sid : StreamId) : Conn :=
  let (session, reset) := c.session.expireReceiving sid
  let c := { c with session := session }
  if reset then c.push (.rstStream sid .cancel) else c

def onExpire (sid : StreamId) : Conn := (c.expireReceiving sid).takeCredit sid

/-- A handler left the flight; an aborted or cancelled one answers nothing. -/
def onHandler (parsers : Parsers) (c : Conn) (position : Nat) (response : Response) : Conn :=
  match c.session.inflight[position]? with
  | none => c
  | some task =>
    let session := { c.session with
      inflight := c.session.inflight.eraseIdx position
      inflightSids := c.session.inflightSids.erase task.sid
      cancelled := c.session.cancelled.erase task.sid }
    let suppressed := task.aborted || c.session.cancelled.contains task.sid
    let c := { c with session := session }
    if suppressed then c else c.beginResponse parsers task.sid task.isHead response

def onPull (sid : StreamId) (result : PullResult) : Conn :=
  if c.pulls.contains sid then { c with pulls := c.pulls.erase sid }.applyPull sid result else c

def onShutdown : Conn :=
  let c' := { c with shutdownDrain := true }
  if c.reading && c.accepting then
    { c'.goaway .noError with accepting := false, draining := true }
  else c'

def abandonReceiving : Conn := c.session.streams.keys.foldl expireReceiving c

def abandonTask (sid : StreamId) : Conn :=
  { c with session := (c.session.abort sid).push (.rstStream sid .cancel) }

def abandonInflight : Conn := c.session.inflightSids.foldl abandonTask c

def abandonSending : Conn := c.outstreams.keys.foldl resetOutstream c

/-- The drain bound elapsed: reset whatever is pending and say so. -/
def abandonDrain : Conn :=
  let c := c.abandonReceiving.abandonInflight.abandonSending
  { c with pendingWindow := ∅ }.goaway .noError

/-- One step of the loop. -/
def step (config : Config) (c : Conn) : Event → Conn
  | .frame f now inFlight => if c.reading then c.onFrame config f now inFlight else c
  | .frameTimer => if c.reading then (c.goaway .protocolError).stop else c
  | .expire sid => if c.session.streams.contains sid then c.onExpire sid else c
  | .handler position response => c.onHandler config.parsers position response
  | .pull sid result => c.onPull sid result
  | .pump => c.pumpStreams
  | .stalled sid => c.resetSending sid
  | .drainIdle sid => if c.shutdownDrain then c.resetSending sid else c
  | .shutdown => if c.shutdownDrain then c else c.onShutdown
  | .peerClosed => if c.reading then c.stop else c
  | .idle => if c.reading then (c.goaway .noError).stop else c
  | .drainElapsed => if c.reading && c.draining then c.abandonDrain.stop else c

def run (config : Config) (events : List Event) : Conn := events.foldl (step config) (fresh config)

end Conn

/-! ## A small connection -/

def smallConfig : Config where
  headerTableSize := 4096
  maxConcurrentStreams := 2
  initialWindowSize := 65535
  maxFrameSize := 16384
  headerListSize := 65536
  maxRequestBody := 1000
  bodyBudget := some 100000
  pendingHeaderMem := 100000
  earlyReject := none
  parsers := plainParsers
  streamStateSize := 400

/-- A frame as it comes off the wire, whose stream id has 31 bits. -/
def inbound (kind flags : UInt8) (streamId : Nat) (payload : Octets) : Event :=
  .frame ⟨kind, flags, mask31 streamId, payload, Nat.mod_lt _ (by decide)⟩ 0 0

/-- The client's SETTINGS, and a request for the root path whose body is to come. -/
def openRequest : List Event :=
  [inbound Kind.settings 0 0 [], inbound Kind.headers Flag.endHeaders 1 [0x82, 0x84, 0x87]]

end HttpJet.H2
