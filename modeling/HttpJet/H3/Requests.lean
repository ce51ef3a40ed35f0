import HttpJet.Library.VarInt
import HttpJet.H1.HeadFraming

/-!
# The request streams of a connection

`H3FrameCounter` reads a request stream as it arrives: the type and the length of each frame, octet
by octet, and then its payload into the place chosen when the length was known.  For every stream
that is not dispatched a connection keeps a buffer, a counter, a lease on the body budget, the
configuration it was accepted under and a deadline.
-/

namespace HttpJet.H3

open Hpack.Integer (Octets)
open Hpack.StaticTable (Field ascii)
open H2 (Parsers)
open Library

structure RequestLimits where
  maxHeaderBytes : Nat
  maxBodyBytes : Nat
  maxRequestWireBytes : Nat
  maxConnectionBytes : Nat

def saturate (n : Nat) : Nat := min n (2 ^ 64 - 1)

def RequestLimits.new (maxHeaderBytes maxBodyBytes : Nat) : RequestLimits :=
  let maxRequestWireBytes := saturate (saturate (maxHeaderBytes + maxBodyBytes) + 64 * 1024)
  { maxHeaderBytes, maxBodyBytes, maxRequestWireBytes
    maxConnectionBytes := max (saturate (maxBodyBytes * 4)) maxRequestWireBytes }

/-- What the parser uses of the field coding: the decoder, the memory that decoded fields
take, and the parsers of the values. -/
structure Qpack where
  /-- `qpack_decode_limited` -/
  decodeLimited : Octets → Nat → Option (List Field × Nat)
  /-- `decoded_head_footprint` -/
  footprint : List Field → Nat
  parsers : Parsers

/-- A decoder that takes no field section. -/
def refusingQpack : Qpack where
  decodeLimited _ _ := none
  footprint _ := 0
  parsers := H2.plainParsers

inductive RequestHead where
  | pending
  | undecodable
  | decoded (fields : List Field × Nat) (contentLength : Option Nat)

inductive PayloadSink where
  | field
  | trailers
  | body
  | discard
  deriving DecidableEq

inductive FramePhase where
  | type
  | length
  | payload (remaining : Nat) (sink : PayloadSink)
  deriving DecidableEq

inductive RequestFrameError where
  | limit
  | unexpected
  | headersTooLarge
  | tooLarge
  | malformed
  | excessiveLoad
  deriving DecidableEq

def noProgressLimit : Nat := 10000

structure FrameCounter where
  phase : FramePhase := .type
  varint : Octets := []
  varintNeed : Nat := 0
  frameType : Nat := 0
  headerBytes : Nat := 0
  bodyBytes : Nat := 0
  wireBytes : Nat := 0
  charged : Nat := 0
  headFootprint : Nat := 0
  noProgressFrames : Nat := 0
  field : Option Octets := none
  trailers : Option Octets := none
  malformed : Bool := false
  head : RequestHead := .pending

def requestFrameForbidden (frameType : Nat) : Bool :=
  [0x02, 0x03, 0x04, 0x05, 0x06, 0x07, 0x08, 0x09, 0x0d].contains frameType

/-- The head of a field section, with the length that its `content-length` lines agree on. -/
def decodeRequestHead (qpack : Qpack) (field : Octets) (maxHeaderBytes : Nat) : RequestHead :=
  match qpack.decodeLimited field maxHeaderBytes with
  | none => .undecodable
  | some fields =>
    let lengths := (fields.1.filter fun line => line.1 == ascii "content-length").map Prod.snd
    .decoded fields (H1.resolveContentLength qpack.parsers none lengths).toOption.join

namespace FrameCounter

/-- The octets of a number, until it is complete. -/
def consumeVarint (counter : FrameCounter) : Octets → FrameCounter × Octets × Option Nat
  | [] => (counter, [], none)
  | octet :: rest =>
    let need := if counter.varint.isEmpty then 1 <<< (octet.toNat >>> 6) else counter.varintNeed
    let varint := counter.varint ++ [octet]
    if varint.length = need then
      ({ counter with varint := [], varintNeed := 0 }, rest, some (VarInt.value varint))
    else { counter with varint := varint, varintNeed := need }.consumeVarint rest

/-- The head is decoded once, when the first DATA frame after it begins. -/
def decodeHead (qpack : Qpack) (limits : RequestLimits) (counter : FrameCounter) : FrameCounter :=
  match counter.head, counter.field with
  | .pending, some field =>
    let head := decodeRequestHead qpack field limits.maxHeaderBytes
    { counter with
      head := head
      headFootprint := match head with
        | .decoded fields _ => qpack.footprint fields.1
        | _ => counter.headFootprint }
  | _, _ => counter

variable (counter : FrameCounter)

/-- The length that a decoded head declares. -/
def declared : Option (Option Nat) :=
  match counter.head with
  | .decoded _ contentLength => some contentLength
  | _ => none

/-- Admit the declared length of a DATA frame. -/
def dataFrame (qpack : Qpack) (limits : RequestLimits) (counter : FrameCounter) (length : Nat) :
    FrameCounter × Except RequestFrameError Unit :=
  let counter := counter.decodeHead qpack limits
  let total := counter.bodyBytes + length
  if 2 ^ 64 ≤ total then (counter, .error .limit)
  else
    match counter.declared with
    | some (some contentLength) =>
      if limits.maxBodyBytes < contentLength then (counter, .error .tooLarge)
      else if contentLength < total then (counter, .error .malformed)
      else if limits.maxBodyBytes < total then (counter, .error .tooLarge)
      else ({ counter with bodyBytes := total }, .ok ())
    | some none =>
      if limits.maxBodyBytes < total then (counter, .error .tooLarge)
      else ({ counter with bodyBytes := total }, .ok ())
    | none =>
      if limits.maxBodyBytes < total then (counter, .error .limit)
      else ({ counter with bodyBytes := total }, .ok ())

/-- Where the payload of a HEADERS frame goes. -/
def headersFrame (limits : RequestLimits) (counter : FrameCounter) (length : Nat) :
    FrameCounter × Except RequestFrameError PayloadSink :=
  let total := counter.headerBytes + length
  if 2 ^ 64 ≤ total ∨ limits.maxHeaderBytes < total then (counter, .error .headersTooLarge)
  else
    let counter := { counter with headerBytes := total }
    if counter.field.isNone then ({ counter with field := some [] }, .ok .field)
    else if counter.trailers.isNone then ({ counter with trailers := some [] }, .ok .trailers)
    else ({ counter with malformed := true }, .ok .discard)

/-- Where the payload of a DATA frame goes; one that is misplaced is not kept. -/
def bodyFrame (qpack : Qpack) (limits : RequestLimits) (counter : FrameCounter) (length : Nat) :
    FrameCounter × Except RequestFrameError PayloadSink :=
  match counter.dataFrame qpack limits length with
  | (counter, .error e) => (counter, .error e)
  | (counter, .ok ()) =>
    let counter :=
      if counter.field.isNone || counter.trailers.isSome then { counter with malformed := true }
      else counter
    (counter, .ok (if counter.malformed then .discard else .body))

/-- A frame that advances neither the head nor the body. -/
def idle (length : Nat) : Bool :=
  length == 0 || (counter.frameType != 0 && counter.frameType != 1)

def countIdle (length : Nat) : FrameCounter :=
  if counter.idle length then { counter with noProgressFrames := counter.noProgressFrames + 1 }
  else counter

/-- Where the payload of a frame goes. -/
def placePayload (qpack : Qpack) (limits : RequestLimits) (counter : FrameCounter) (length : Nat) :
    FrameCounter × Except RequestFrameError PayloadSink :=
  if counter.frameType = 1 then counter.headersFrame limits length
  else if counter.frameType = 0 then counter.bodyFrame qpack limits length
  else (counter, .ok .discard)

/-- The length of a frame has arrived. -/
def frameLength (qpack : Qpack) (limits : RequestLimits) (counter : FrameCounter) (length : Nat) :
    FrameCounter × Except RequestFrameError Unit :=
  if requestFrameForbidden counter.frameType then (counter, .error .unexpected)
  else if counter.idle length ∧ noProgressLimit < (counter.countIdle length).noProgressFrames then
    (counter.countIdle length, .error .excessiveLoad)
  else
    match (counter.countIdle length).placePayload qpack limits length with
    | (counter, .error e) => (counter, .error e)
    | (counter, .ok sink) =>
      ({ counter with phase := if length = 0 then .type else .payload length sink }, .ok ())

/-- Keep octets of a payload. -/
def deposit (body : Octets) (sink : PayloadSink) (payload : Octets) : FrameCounter × Octets :=
  match sink with
  | .field => ({ counter with field := some (counter.field.getD [] ++ payload) }, body)
  | .trailers => ({ counter with trailers := some (counter.trailers.getD [] ++ payload) }, body)
  | .body => (counter, body ++ payload)
  | .discard => (counter, body)

/-- The loop of `consume`; every turn takes an octet at least. -/
def consumeLoop (qpack : Qpack) (limits : RequestLimits) :
    Nat → FrameCounter → Octets → Octets → FrameCounter × Octets × Except RequestFrameError Unit
  | 0, counter, body, _ => (counter, body, .ok ())
  | fuel + 1, counter, body, input =>
    if input.isEmpty then (counter, body, .ok ())
    else
      match counter.phase with
      | .type =>
        match counter.consumeVarint input with
        | (counter, _, none) => (counter, body, .ok ())
        | (counter, rest, some frameType) =>
          consumeLoop qpack limits fuel { counter with frameType := frameType, phase := .length }
            body rest
      | .length =>
        match counter.consumeVarint input with
        | (counter, _, none) => (counter, body, .ok ())
        | (counter, rest, some length) =>
          match counter.frameLength qpack limits length with
          | (counter, .error e) => (counter, body, .error e)
          | (counter, .ok ()) => consumeLoop qpack limits fuel counter body rest
      | .payload remaining sink =>
        let consumed := min remaining input.length
        let (counter, body) := counter.deposit body sink (input.take consumed)
        consumeLoop qpack limits fuel
          { counter with
            phase := if consumed = remaining then .type else .payload (remaining - consumed) sink }
          body (input.drop consumed)

def consume (qpack : Qpack) (limits : RequestLimits) (counter : FrameCounter)
    (body input : Octets) :
    FrameCounter × Octets × Except RequestFrameError Unit :=
  consumeLoop qpack limits input.length counter body input

end FrameCounter

structure ParsedRequest where
  field : Octets
  body : Octets
  trailers : Option Octets
  /-- What the lease of the body still holds. -/
  lease : Option Nat

/-- The stream ends between two frames. -/
def FrameCounter.atFrameBoundary (counter : FrameCounter) : Bool :=
  counter.phase == .type && counter.varint.isEmpty

/-- The request received through FIN, and its head if that was decoded. -/
def FrameCounter.finish (counter : FrameCounter) (body : Octets) (lease : Option Nat) :
    Option (ParsedRequest × Option (List Field × Nat)) :=
  if counter.malformed || !counter.atFrameBoundary then none
  else
    counter.field.map fun field =>
      let lease := if body.isEmpty then none else lease.map fun held => held - counter.headFootprint
      let head := match counter.head with
        | .decoded fields _ => some fields
        | _ => none
      (⟨field, body, counter.trailers, lease⟩, head)

/-! ## Deadlines -/

structure DeadlineKey where
  when : Nat
  sequence : Nat
  stream : Nat
  deriving DecidableEq

namespace DeadlineKey

/-- Keys are compared by their time and their sequence number alone. -/
def same (key other : DeadlineKey) : Bool :=
  key.when == other.when && key.sequence == other.sequence

def before (key other : DeadlineKey) : Bool :=
  key.when < other.when || (key.when == other.when && key.sequence < other.sequence)

/-- Insert into the ordered set; a key that is there already stays. -/
def insert (key : DeadlineKey) : List DeadlineKey → List DeadlineKey
  | [] => [key]
  | first :: rest =>
    if key.same first then first :: rest
    else if key.before first then key :: first :: rest
    else first :: key.insert rest

def remove (key : DeadlineKey) (keys : List DeadlineKey) : List DeadlineKey :=
  keys.filter fun other => !key.same other

end DeadlineKey

def bodyMinProgress : Nat := 16 * 1024

structure BodyProgress where
  ceiling : Nat
  mark : Nat

namespace BodyProgress

def new (start ceiling received : Nat) : BodyProgress := ⟨start + ceiling, received⟩

def due (progress : BodyProgress) (received : Nat) : Bool :=
  bodyMinProgress ≤ received - progress.mark

/-- The deadline after more octets, if it moves. -/
def extend (progress : BodyProgress) (deadline received timeout now : Nat) :
    BodyProgress × Option Nat :=
  if !progress.due received then (progress, none)
  else
    let extended := min (now + timeout) progress.ceiling
    ({ progress with mark := received }, if extended ≤ deadline then none else some extended)

end BodyProgress

structure RequestConfig where
  limits : RequestLimits
  timeout : Option Nat
  bodyCeiling : Nat

structure RequestSnapshot where
  config : RequestConfig
  deadline : Option DeadlineKey
  progress : Option BodyProgress

/-! ## The state of a connection -/

structure State where
  requests : HashMap Nat Unit := ∅
  requestDeadlines : List DeadlineKey := []
  nextRequestDeadlineSequence : Nat := 0
  requestSnapshots : HashMap Nat RequestSnapshot := ∅
  reqBuf : HashMap Nat Octets := ∅
  reqFrames : HashMap Nat FrameCounter := ∅
  /-- The capacity of the server-wide budget, if one is installed; zero admits everything. -/
  bodyBudget : Option Nat := none
  /-- What each lease holds. -/
  bodyLeases : HashMap Nat Nat := ∅
  totalReqBytes : Nat := 0
  /-- The bytes of the guards that are alive. -/
  guards : List Nat := []
  /-- A subtraction has saturated; nothing reads this. -/
  saturated : Bool := false

/-- What a dispatched stream takes along. -/
structure TakenRequest where
  body : Octets
  frames : FrameCounter
  lease : Option Nat
  snapshot : Option RequestSnapshot

namespace State

variable (s : State)

/-- The deadline that an accepted stream is given, if its configuration has a timeout. -/
def arm (id acceptedAt : Nat) (config : RequestConfig) : State × RequestSnapshot :=
  match config.timeout with
  | none => (s, ⟨config, none, none⟩)
  | some timeout =>
    let key : DeadlineKey := ⟨acceptedAt + timeout, s.nextRequestDeadlineSequence, id⟩
    ({ s with
        requestDeadlines := key.insert s.requestDeadlines
        nextRequestDeadlineSequence := (s.nextRequestDeadlineSequence + 1) % 2 ^ 64 },
      ⟨config, some key, some (.new acceptedAt config.bodyCeiling 0)⟩)

def trackRequestStream (id acceptedAt : Nat) (config : RequestConfig) : State :=
  if s.requests.contains id then s
  else
    let s := { s with
      requests := s.requests.put id ()
      reqBuf := s.reqBuf.put id ((s.reqBuf.get id).getD []) }
    let (s, snapshot) := s.arm id acceptedAt config
    { s with requestSnapshots := s.requestSnapshots.put id snapshot }

def extendRequestDeadline (id buffered now : Nat) : State :=
  match s.requestSnapshots.get id with
  | none => s
  | some snapshot =>
    match snapshot.config.timeout, snapshot.deadline, snapshot.progress with
    | some timeout, some key, some progress =>
      match progress.extend key.when buffered timeout now with
      | (progress, none) =>
        { s with requestSnapshots :=
          s.requestSnapshots.put id { snapshot with progress := some progress } }
      | (progress, some when) =>
        let moved := { key with when := when }
        { s with
          requestDeadlines := moved.insert (key.remove s.requestDeadlines)
          requestSnapshots := s.requestSnapshots.put id
            { snapshot with progress := some progress, deadline := some moved } }
    | _, _, _ => s

def firstExpiredRequest (now : Nat) : Option Nat :=
  (s.requestDeadlines.head?.filter fun key => key.when ≤ now).map DeadlineKey.stream

def takeRequestForDispatch (id : Nat) : State × TakenRequest :=
  let snapshot := s.requestSnapshots.get id
  ({ s with
      requests := s.requests.del id
      requestSnapshots := s.requestSnapshots.del id
      requestDeadlines := match snapshot.bind RequestSnapshot.deadline with
        | some key => key.remove s.requestDeadlines
        | none => s.requestDeadlines
      reqBuf := s.reqBuf.del id
      reqFrames := s.reqFrames.del id
      bodyLeases := s.bodyLeases.del id },
    ⟨(s.reqBuf.get id).getD [], (s.reqFrames.get id).getD {}, s.bodyLeases.get id, snapshot⟩)

def releaseRequestCharge (bytes : Nat) : State :=
  { s with
    totalReqBytes := s.totalReqBytes - bytes
    saturated := s.saturated || s.totalReqBytes < bytes }

def reclaimRequest (id : Nat) : State :=
  let (s, taken) := s.takeRequestForDispatch id
  s.releaseRequestCharge taken.frames.charged

def reclaimBufferedRequests : State :=
  let bytes := s.reqFrames.total fun _ frames => frames.charged
  { s with
    requests := ∅
    requestDeadlines := []
    requestSnapshots := ∅
    reqFrames := ∅
    reqBuf := ∅
    bodyLeases := ∅ }.releaseRequestCharge bytes

/-- The loop of `reclaim_expired_requests`; each turn removes a deadline. -/
def reclaimExpiredLoop (now : Nat) : Nat → State → State × List Nat
  | 0, s => (s, [])
  | fuel + 1, s =>
    match s.firstExpiredRequest now with
    | none => (s, [])
    | some id =>
      let (s, expired) := reclaimExpiredLoop now fuel (s.reclaimRequest id)
      (s, id :: expired)

def reclaimExpiredRequests (now : Nat) : State × List Nat :=
  reclaimExpiredLoop now s.requestDeadlines.length s

/-- Reserve on the lease of a stream; `inFlight` is what the whole server has reserved. -/
def reserve (id charge inFlight : Nat) : State × Bool :=
  match s.bodyBudget with
  | none => (s, true)
  | some capacity =>
    let held := (s.bodyLeases.get id).getD 0
    if capacity = 0 ∨ saturate (inFlight + charge) ≤ capacity then
      ({ s with bodyLeases := s.bodyLeases.put id (held + charge) }, true)
    else ({ s with bodyLeases := s.bodyLeases.put id held }, false)

variable (qpack : Qpack)

def appendRequestBytes (s : State) (id : Nat) (bytes : Octets) (limits : RequestLimits)
    (inFlight : Nat) :
    State × Except RequestFrameError Nat :=
  let total := s.totalReqBytes + bytes.length
  if 2 ^ 64 ≤ total ∨ limits.maxConnectionBytes < total then (s, .error .limit)
  else
    let before := (s.reqFrames.get id).getD {}
    match before.consume qpack limits ((s.reqBuf.get id).getD []) bytes with
    | (frames, body, result) =>
      let s := { s with reqFrames := s.reqFrames.put id frames, reqBuf := s.reqBuf.put id body }
      match result with
      | .error e => (s, .error e)
      | .ok () =>
        let charge := bytes.length + (frames.headFootprint - before.headFootprint)
        let total := total + (charge - bytes.length)
        if 2 ^ 64 ≤ total ∨ limits.maxConnectionBytes < total then (s, .error .limit)
        else
          match s.reserve id charge inFlight with
          | (s, false) => (s, .error .limit)
          | (s, true) =>
            let charged := { frames with
              charged := frames.charged + charge
              wireBytes := frames.wireBytes + bytes.length }
            ({ s with reqFrames := s.reqFrames.put id charged, totalReqBytes := total },
              if limits.maxRequestWireBytes < charged.wireBytes then .error .limit
              else .ok charged.wireBytes)

end State

inductive ReadEnd where
  | opened
  | fin
  | gone
  deriving DecidableEq

namespace State

variable (qpack : Qpack)

/-- Append the chunks that can be read, until one is refused; what the server has reserved
is read before each. -/
def appendChunks (id : Nat) (limits : RequestLimits) :
    State → Option Nat → List (Octets × Nat) → State × Except RequestFrameError (Option Nat)
  | s, buffered, [] => (s, .ok buffered)
  | s, _, (bytes, inFlight) :: chunks =>
    match s.appendRequestBytes qpack id bytes limits inFlight with
    | (s, .error e) => (s, .error e)
    | (s, .ok length) => appendChunks id limits s (some length) chunks

variable (s : State)

/-- One stream's turn in `receive_request_streams`: true when it has been received whole. -/
def receiveRequestStream (id : Nat) (chunks : List (Octets × Nat)) (readEnd : ReadEnd)
    (now : Nat) : State × Bool :=
  match s.requestSnapshots.get id with
  | none => (if s.requests.contains id then s.reclaimRequest id else s, false)
  | some snapshot =>
    match s.appendChunks qpack id snapshot.config.limits none chunks with
    | (s, .error _) => (s.reclaimRequest id, false)
    | (s, .ok buffered) =>
      match readEnd with
      | .gone => (s.reclaimRequest id, false)
      | .fin => (s, true)
      | .opened =>
        match buffered, snapshot.progress with
        | some buffered, some progress =>
          (if progress.due buffered then s.extendRequestDeadline id buffered now else s, false)
        | _, _ => (s, false)

/-- A stream is taken for dispatch: it is shed, or a guard takes its charge over. -/
def dispatch (id : Nat) (shed : Bool) : State :=
  let (s, taken) := s.takeRequestForDispatch id
  if taken.snapshot.isNone || shed then s.releaseRequestCharge taken.frames.charged
  else { s with guards := taken.frames.charged :: s.guards }

/-- A guard is dropped. -/
def dropGuard (index : Nat) : State :=
  match s.guards[index]? with
  | none => s
  | some bytes => { s.releaseRequestCharge bytes with guards := s.guards.eraseIdx index }

/-- What can happen to the request streams of a connection. -/
inductive Event where
  | track (id acceptedAt : Nat) (config : RequestConfig)
  | append (id : Nat) (bytes : Octets) (inFlight : Nat)
  | receive (id : Nat) (chunks : List (Octets × Nat)) (readEnd : ReadEnd) (now : Nat)
  | extend (id buffered now : Nat)
  | reclaim (id : Nat)
  | expire (now : Nat)
  | reclaimBuffered
  | dispatch (id : Nat) (shed : Bool)
  | dropGuard (index : Nat)

/-- An octet string is appended to a stream that is tracked, under its own limits. -/
def append (id : Nat) (bytes : Octets) (inFlight : Nat) : State :=
  match s.requestSnapshots.get id with
  | none => s
  | some snapshot => (s.appendRequestBytes qpack id bytes snapshot.config.limits inFlight).1

def step : Event → State
  | .track id acceptedAt config => s.trackRequestStream id acceptedAt config
  | .append id bytes inFlight => s.append qpack id bytes inFlight
  | .receive id chunks readEnd now => (s.receiveRequestStream qpack id chunks readEnd now).1
  | .extend id buffered now => s.extendRequestDeadline id buffered now
  | .reclaim id => s.reclaimRequest id
  | .expire now => (s.reclaimExpiredRequests now).1
  | .reclaimBuffered => s.reclaimBufferedRequests
  | .dispatch id shed => s.dispatch id shed
  | .dropGuard index => s.dropGuard index

def run (events : List Event) : State := events.foldl (step qpack) s

end State

end HttpJet.H3
