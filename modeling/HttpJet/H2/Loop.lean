import HttpJet.H2.Link

/-!
# The connection loop refines the connection machine

Every function of the loop is a sequence of actions, and every event is one too,
after the frame it feeds to frame processing (`step_link`).
-/

namespace HttpJet.H2

open Hpack Hpack.Integer Hpack.StaticTable Library List
open HashMap
open HttpJet.H2.Core (Moves MovesTo)
open Link (Acts ActsTo Feeds)

variable (config : Config) (parsers : Parsers) (c : Conn) (sid : StreamId) (st : OutStream)
  (increment position : Nat) (result : PullResult) (response : Response)

namespace Session

theorem core_expireReceiving (s : Session) (sid : StreamId) :
    (s.expireReceiving sid).1.core = s.core.expire sid := by
  rw [expireReceiving, Core.expire]
  rw [core_teardownReceiving]
  cases found : s.streams.get sid with
  | none => simp [core, contains_eq_false.mpr found]
  | some st =>
    have known : s.streams.contains sid = true := HashMap.contains_iff.mpr ⟨st, found⟩
    dsimp only
    split
    · rename_i current
      rw [if_pos ⟨known, current⟩]
      simp [core, Core.held, found]
    · rename_i current
      rw [if_neg fun both => current both.2]

end Session

namespace Conn

/-- The loop takes `c` to `c'` by actions, noting what it takes in. -/
def Goes (c : Conn) (taken : List Note) (c' : Conn) : Prop :=
  ∀ notes, ActsTo (c.link notes) (c'.link (notes ++ taken))

namespace Goes

/-- Actions that take nothing in. -/
theorem quiet {c c' : Conn} (acts : ∀ notes, ActsTo (c.link notes) (c'.link notes)) :
    Goes c [] c' := by
  intro notes
  rw [append_nil]
  exact acts notes

theorem refl : Goes c [] c := quiet fun _ => .refl

theorem trans {c c' c'' : Conn} {taken taken' : List Note} (first : Goes c taken c')
    (second : Goes c' taken' c'') : Goes c (taken ++ taken') c'' := by
  intro notes
  rw [← append_assoc]
  exact (first notes).trans (second (notes ++ taken))

theorem andThen {c c' c'' : Conn} {taken : List Note} (first : Goes c taken c')
    (second : Goes c' [] c'') : Goes c taken c'' := by
  have both := first.trans second
  rwa [append_nil] at both

end Goes

/-! ## Sending -/

theorem writeHead_link (interim endStream : Bool) (fields : List Field) :
    ∃ first rest, ∀ notes, (c.writeHead sid interim endStream fields).link notes =
      (c.link notes).write [.fields sid interim endStream first rest] := by
  rw [writeHead]
  generalize encoded : c.session.encodeHeaders fields = result
  obtain ⟨session, block⟩ := result
  have same : session.core = c.session.core := by
    rw [← Session.core_encodeHeaders c.session fields, encoded]
  obtain ⟨first, rest, written⟩ := Session.writeFieldBlock_eq sid interim endStream block
    (max session.peer.maxFrameSize 1)
  refine ⟨first, rest, fun notes => ?_⟩
  dsimp only
  rw [written, link, Session.core_push, same]
  rfl

theorem earlyHints_link (status : Nat) (headers : Headers) :
    ∃ hints, (∀ seg ∈ hints, ∃ first rest, seg = .fields sid true false first rest) ∧
      ∀ notes, (c.earlyHints sid status headers).link notes = (c.link notes).write hints := by
  rw [earlyHints]
  split_ifs
  · obtain ⟨first, rest, written⟩ := c.writeHead_link sid true false _
    exact ⟨[.fields sid true false first rest],
      fun seg member => ⟨first, rest, mem_singleton.mp member⟩, written⟩
  · refine ⟨[], fun seg member => (nomatch member), fun notes => ?_⟩
    rw [Link.write, append_nil]

/-- A response begins: its interim and final heads go out, and its body is registered. -/
theorem beginResponse_link (isHead : Bool) (response : Response) :
    ∃ hints first rest, (∀ seg ∈ hints, ∃ first rest, seg = .fields sid true false first rest) ∧
      ∀ notes, (c.beginResponse parsers sid isHead response).link
          (notes ++ [.begins sid isHead response ((c.link notes).offered sid)]) =
        (c.link notes).respond sid
          (hints ++ [.fields sid false (opening isHead response).ended first rest]) isHead response
          (opening isHead response) := by
  obtain ⟨hints, interim, hinted⟩ := c.earlyHints_link sid response.status
    (responseHeaders parsers isHead response)
  rw [beginResponse]
  generalize c.earlyHints sid response.status (responseHeaders parsers isHead response) = c' at *
  obtain ⟨first, rest, written⟩ := (c'.takeCredit sid).writeHead_link sid false
    (opening isHead response).ended
    ((ascii ":status", statusText response.status) :: responseHeaders parsers isHead response)
  have window (notes : List Note) : c'.openingWindow sid =
      min ((c.link notes).offered sid) maxWindow := by
    change min ((c'.link notes).offered sid) maxWindow = _
    rw [hinted]
    rfl
  have begun (notes : List Note) (note : Note) : (((c'.takeCredit sid).link notes).write
        [.fields sid false (opening isHead response).ended first rest]).note note =
      (((c.link notes).write
        (hints ++ [.fields sid false (opening isHead response).ended first rest])).take sid).note
          note := by
    change (((c'.link notes).take sid).write _).note note = _
    rw [hinted]
    simp [Link.write, Link.take]
  refine ⟨hints, first, rest, interim, fun notes => ?_⟩
  have both := begun notes (.begins sid isHead response ((c.link notes).offered sid))
  rw [← written notes] at both
  generalize opening isHead response = shape at *
  cases shape with
  | headersOnly =>
    dsimp only [Opening.ended, Link.respond] at both ⊢
    generalize (c'.takeCredit sid).writeHead sid false true _ = c'' at *
    exact both
  | register =>
    dsimp only [Opening.ended, Link.respond] at both ⊢
    rw [← both, ← window notes]
    rfl

theorem goes_onHandler {task : Task} (found : c.session.inflight[position]? = some task)
    (running : task.aborted = false) (wanted : task.sid ∉ c.session.cancelled) :
    Goes c [.begins task.sid task.isHead response ((c.link []).offered task.sid)]
      (c.onHandler parsers position response) := by
  intro notes
  have unsuppressed : (task.aborted || c.session.cancelled.contains task.sid) = false := by
    rw [running, Bool.false_or, Bool.eq_false_iff, ne_eq, contains_iff_mem]
    exact wanted
  rw [onHandler, found]
  dsimp only
  rw [if_neg (Bool.eq_false_iff.mp unsuppressed)]
  obtain ⟨hints, first, rest, interim, begun⟩ := beginResponse_link parsers
    { c with session := { c.session with
        inflight := c.session.inflight.eraseIdx position
        inflightSids := c.session.inflightSids.erase task.sid
        cancelled := c.session.cancelled.erase task.sid } } task.sid task.isHead response
  have responds :=
    Acts.responds (l := c.link notes) position task found running wanted hints interim
    response _ rfl first rest
  exact .single ((begun notes).symm ▸ responds)

end Conn

/-- What a visit can write for a stream that is not done. -/
inductive Pumps (sid : StreamId) (st : OutStream) (sendConn : Int) (maxFrame : Nat) :
    OutStream × List Seg × Int × Bool → Prop
  | nothing : Pumps sid st sendConn maxFrame (st, [], sendConn, false)
  | payload (n : Nat) (positive : 0 < n) (held : n ≤ st.pending.length) (conn : n ≤ sendConn)
      (window : n ≤ st.window) (frame : n ≤ maxFrame) :
      Pumps sid st sendConn maxFrame
        ({ st with
            pending := st.pending.drop n
            window := st.window - n
            done := st.done || (st.eof && (st.pending.drop n).isEmpty) },
          [.data sid n (st.eof && (st.pending.drop n).isEmpty), .body (st.pending.take n)],
          sendConn - n, true)
  | last (empty : st.pending = []) (eof : st.eof = true) :
      Pumps sid st sendConn maxFrame ({ st with done := true }, [.data sid 0 true], sendConn, true)

theorem pumpOneFrame_pumps (sendConn : Int) (maxFrame : Nat) :
    Pumps sid st sendConn maxFrame (pumpOneFrame sid st sendConn maxFrame) := by
  rw [pumpOneFrame]
  dsimp only
  split_ifs with waiting blocked finished
  · exact .nothing
  · have positive : 0 < st.pending.length := by
      rw [length_pos_iff, ← isEmpty_eq_false_iff]
      exact Bool.not_eq_true' _ ▸ waiting
    generalize count : min (min (min sendConn st.window) maxFrame).toNat st.pending.length = n
    have sent : 0 < n := by omega
    have held : n ≤ st.pending.length := by omega
    have written : queueBody [.data sid n (st.eof && (st.pending.drop n).isEmpty)]
        (st.pending.take n) =
        [.data sid n (st.eof && (st.pending.drop n).isEmpty), .body (st.pending.take n)] := by
      rw [queueBody, if_neg]
      · rfl
      · rw [List.isEmpty_iff, take_eq_nil_iff, not_or]
        exact ⟨by omega, length_pos_iff.mp positive⟩
    rw [written]
    exact .payload n sent held (by omega) (by omega) (by omega)
  · rw [Bool.and_eq_true] at finished
    rw [Bool.not_eq_true', Bool.not_eq_false, List.isEmpty_iff] at waiting
    exact .last waiting finished.1
  · exact .nothing

namespace Conn

theorem queuePull_cases : c.queuePull sid st = (c, st) ∨
      (st.done = false ∧ st.pending = [] ∧ st.eof = false ∧ st.pulling = false ∧ st.body = true) ∧
        c.queuePull sid st =
          ({ c with pulls := c.pulls ++ [sid] }, { st with body := false, pulling := true }) := by
  rw [queuePull]
  split_ifs with pulls
  · simp only [Bool.and_eq_true, Bool.not_eq_true', List.isEmpty_iff] at pulls
    obtain ⟨⟨⟨⟨live, empty⟩, more⟩, idle⟩, source⟩ := pulls
    exact .inr ⟨⟨live, empty, more, idle, source⟩, rfl⟩
  · exact .inl rfl

theorem goes_pumpStream (found : c.outstreams.get sid = some st) (live : st.done = false) :
    Goes c [] (c.pumpStream sid st).1 := by
  have pumps := pumpOneFrame_pumps sid st c.sendConn (max c.session.peer.maxFrameSize 1)
  rw [pumpStream]
  generalize pumpOneFrame sid st c.sendConn (max c.session.peer.maxFrameSize 1) = result at *
  obtain ⟨st', segs, sendConn, _⟩ := result
  dsimp only
  generalize written : ({ c with
    sendConn := sendConn
    session := { c.session with out := c.session.out ++ segs } } : Conn) = c'
  have sent : Goes c [] { c' with outstreams := c'.outstreams.put sid st' } := by
    subst written
    refine .quiet fun notes => .single ?_
    cases pumps with
    | nothing =>
      have kept := Acts.keeps (l := c.link notes) sid st found
      rw [append_nil]
      exact kept
    | payload n positive held conn window frame =>
      exact .sends sid st n found live positive held conn window frame
    | last empty eof => exact .ends sid st found live empty eof
  have put_get : (c'.outstreams.put sid st').get sid = some st' := get_put_self ..
  obtain same | ⟨⟨ongoing, empty, more, idle, source⟩, same⟩ := c'.queuePull_cases sid st'
  · rw [same]
    split_ifs with done
    · refine sent.andThen (.quiet fun notes => .single ?_)
      have retired := Acts.retires (l := { c' with
        outstreams := c'.outstreams.put sid st' }.link notes) sid st' put_get done
      rw [Link.cancel] at retired
      dsimp only [link] at retired
      rw [del_put] at retired
      exact retired
    · exact sent
  · rw [same]
    rw [if_neg (Bool.eq_false_iff.mp ongoing)]
    refine sent.andThen (.quiet fun notes => .single ?_)
    have pulled := Acts.pulls (l := { c' with
      outstreams := c'.outstreams.put sid st' }.link notes) sid st' put_get ongoing empty more idle
      source
    rw [Link.put] at pulled
    dsimp only [link] at pulled
    rw [put_put] at pulled
    exact pulled

theorem goes_pumpVisit : Goes c [] c.pumpVisit.1 := by
  rw [pumpVisit]
  cases c.sendSchedule with
  | nil => exact .refl c
  | cons sid schedule =>
    have taken : Goes c [] { c with sendSchedule := schedule } := .quiet fun notes => .refl
    dsimp only
    cases found : c.outstreams.get sid with
    | none => exact taken
    | some st =>
      dsimp only
      split_ifs with done
      · exact .quiet fun notes => .single (.retires sid st found done)
      · exact taken.andThen (goes_pumpStream _ sid st found (Bool.eq_false_iff.mpr done))

theorem queuePull_session : (c.queuePull sid st).1.session = c.session := by
  rw [queuePull]
  split_ifs <;> rfl

/-- What a visit writes is what one response can write. -/
theorem pumpVisit_pumps : c.pumpVisit.1.session.out = c.session.out ∨
      ∃ sid st result, c.outstreams.get sid = some st ∧ st.done = false ∧
        Pumps sid st c.sendConn (max c.session.peer.maxFrameSize 1) result ∧
        c.pumpVisit.1.session.out = c.session.out ++ result.2.1 := by
  rw [pumpVisit]
  cases c.sendSchedule with
  | nil => exact .inl rfl
  | cons sid =>
    dsimp only
    cases found : c.outstreams.get sid with
    | none => exact .inl rfl
    | some st =>
      dsimp only
      split_ifs with done
      · exact .inl rfl
      · refine .inr ⟨sid, st, _, found, Bool.eq_false_iff.mpr done,
          pumpOneFrame_pumps sid st c.sendConn (max c.session.peer.maxFrameSize 1), ?_⟩
        rw [pumpStream]
        dsimp only
        split_ifs <;> exact congrArg Session.out (queuePull_session ..)

theorem goes_pumpLoop (fuel visits : Nat) (c : Conn) : Goes c [] (pumpLoop fuel visits c) := by
  induction fuel generalizing visits c with
  | zero => exact .refl c
  | succ _ ih =>
    cases visits with
    | zero => exact .refl c
    | succ =>
      rw [pumpLoop]
      split_ifs
      · exact .refl c
      · exact (goes_pumpVisit c).andThen (ih _ _)

theorem goes_resetOutstream {sid : StreamId} (known : c.outstreams.contains sid = true) :
    Goes c [] (c.resetOutstream sid) :=
  .quiet fun _ => .single (.cancels sid known)

theorem goes_resetSending : Goes c [] (c.resetSending sid) := by
  rw [resetSending]
  split_ifs with known
  · exact goes_resetOutstream c known
  · exact .refl c

/-- What a pull result puts on the notes. -/
def noteOfPull (sid : StreamId) : PullResult → List Note
  | .chunk data => [.chunk sid data]
  | .finished => [.finished sid]
  | .failed => []

theorem goes_onPull {st : OutStream} (waiting : sid ∈ c.pulls)
    (found : c.outstreams.get sid = some st) :
    Goes c (noteOfPull sid result) (c.onPull sid result) := by
  rw [onPull, if_pos (contains_iff_mem.mpr waiting), applyPull]
  rw [found]
  cases result with
  | chunk data => exact fun notes => .single (.delivers sid st data waiting found)
  | finished => exact fun notes => .single (.finishes sid st waiting found)
  | failed =>
    refine .quiet fun notes => (Relation.ReflTransGen.single (.fails sid st waiting found)).tail ?_
    have condemned := Acts.condemns (l := ({ c with pulls := c.pulls.erase sid }.link notes).put sid
      { st with pulling := false }) sid { st with pulling := false } .internalError
      (get_put_self ..)
    simp only [Link.put, Link.write, link, put_put] at condemned
    exact condemned

/-! ## Window grants -/

theorem goes_goaway_stop (error : ErrorCode) : Goes c [] (c.goaway error).stop := by
  refine .quiet fun notes => .single ?_
  have closes := Acts.closes (l := c.link notes) error false (nomatch ·)
  dsimp only [link] at closes
  exact closes

theorem goes_grantConn : Goes c [.connCredit increment] (c.grantConn increment) := by
  have granted : Goes c [.connCredit increment] { c with sendConn := c.sendConn + increment } :=
    fun notes => .single (.creditsConn increment)
  rw [grantConn]
  split_ifs
  · exact granted.andThen (goes_goaway_stop _ .flowControlError)
  · exact granted
  · exact granted

theorem goes_grantSending (found : c.outstreams.get sid = some st) :
    Goes c [.credit sid increment] (c.grantSending sid st increment) := by
  have granted : Goes c [.credit sid increment]
      { c with outstreams := c.outstreams.put sid { st with window := st.window + increment } } :=
    fun notes => .single (.credits sid st increment found)
  rw [grantSending]
  split_ifs
  · refine granted.andThen (.quiet fun notes => .single ?_)
    have condemned := Acts.condemns (l := { c with
      outstreams := c.outstreams.put sid { st with window := st.window + increment } }.link notes)
      sid { st with window := st.window + increment } .flowControlError (get_put_self ..)
    simp only [Link.put, Link.write, link, put_put] at condemned
    exact condemned
  · exact granted
  · exact granted

/-- WINDOW_UPDATE comes between header blocks, so the reset stream has none open. -/
theorem goes_overflowPending (now : Nat) (absent : c.outstreams.get sid = none)
    (awaiting : (c.link []).Awaiting sid) (closed : c.session.core.openHeaderBlock = none) :
    Goes c [] (c.overflowPending sid now) := by
  have torn : ((c.session.push (.rstStream sid .flowControlError)).teardownReceiving sid).core =
      (c.session.core.push (.rstStream sid .flowControlError)).drop sid := by
    rw [Session.core_teardownReceiving, Session.core_push]
  have left := Session.cancelInflight_core now
    ((c.session.push (.rstStream sid .flowControlError)).teardownReceiving sid) sid
  rw [torn] at left
  rw [overflowPending]
  generalize Session.cancelInflight now _ sid = result at *
  obtain ⟨_, _⟩ := result
  dsimp only at left ⊢
  have overflows (notes : List Note) :=
    Acts.overflows (l := c.link notes) sid absent awaiting closed
  rcases left with ⟨same, rfl⟩ | ⟨same, rfl, _⟩
  · rw [if_neg (nomatch ·)]
    refine .quiet fun notes => .single ?_
    simp only [takeCredit, link, same]
    exact overflows notes
  · rw [if_pos rfl]
    refine .quiet fun notes => (Relation.ReflTransGen.single (overflows notes)).tail ?_
    simp only [takeCredit, stop, link, same]
    exact .closes .enhanceYourCalm false (nomatch ·)

/-- Whether credit for a stream is recorded: a response is under way, or awaited with room for early
credit. -/
def records (c : Conn) (sid : StreamId) : Bool :=
  c.outstreams.contains sid ||
    ((c.session.streams.contains sid || c.session.inflightSids.contains sid) &&
      (decide (c.pendingWindow.size < maxPendingWindows) || c.pendingWindow.contains sid))

theorem goes_grantStream (now : Nat) (closed : c.session.core.openHeaderBlock = none) :
    Goes c [if c.records sid then .credit sid increment else .unrecorded sid increment]
      (c.grantStream sid increment now) := by
  rw [grantStream, records]
  cases found : c.outstreams.get sid with
  | some st =>
    rw [HashMap.contains_iff.mpr ⟨st, found⟩, Bool.true_or, if_pos rfl]
    exact goes_grantSending c sid st increment found
  | none =>
    rw [contains_eq_false.mpr found, Bool.false_or, grantPending]
    dsimp only
    split_ifs with recorded overflow
    all_goals try rw [Bool.and_eq_true, Bool.or_eq_true, contains_iff_mem] at recorded
    · have parked : Goes c [.credit sid increment]
          (c.parkCredit sid ((c.pendingWindow.get sid).getD 0 + increment)) :=
        fun notes => .single (.parks sid increment found recorded.1)
      exact parked.andThen (goes_overflowPending _ sid now found recorded.1 closed)
    · exact fun notes => .single (.parks sid increment found recorded.1)
    · exact fun notes => .single (.ignores sid increment)

/-- The notes of granted credit. -/
def noteOfCredit (c : Conn) (sid : StreamId) (increment : Nat) : List Note :=
  if sid = 0 then [.connCredit increment]
  else [if c.records sid then .credit sid increment else .unrecorded sid increment]

/-- The notes of a frame with the given outcome. -/
def noteOfOutcome (c : Conn) (k : Core) : FrameOutcome → List Note
  | .windowUpdate sid increment => c.noteOfCredit sid increment
  | outcome => Link.rejection c.session.core k outcome

/-- The loop acts on a frame's outcome. -/
theorem onOutcome_acts (session : Session) (now : Nat) (outcome : FrameOutcome) (notes : List Note)
    (same : ∀ sid increment, outcome = .windowUpdate sid increment → session.core = c.session.core ∧
      c.session.core.openHeaderBlock = none) :
    ActsTo ({ c.link notes with
        core := session.core
        notes := notes ++ Link.rejection c.session.core session.core outcome }.settle outcome)
      (({ c with session := session }.onOutcome now outcome).link
        (notes ++ c.noteOfOutcome session.core outcome)) := by
  have quiet (told : outcome ≠ .stopReading) :
      Link.rejection c.session.core session.core outcome = [] := if_neg fun both => told both.1
  cases outcome with
  | proceed | stopReading | peerGoaway | resetStream => exact .refl
  | windowUpdate sid increment =>
    obtain ⟨kept, closed⟩ := same sid increment rfl
    have records : ({ c with session := session } : Conn).records sid = c.records sid := by
      change (_ || ((session.core.streams.contains sid || session.core.inflightSids.contains sid)
        && _)) = _
      rw [kept]
      rfl
    rw [quiet (nomatch ·), append_nil, onOutcome, noteOfOutcome, noteOfCredit]
    by_cases conn : sid = 0
    · rw [if_pos conn, if_pos conn]
      exact goes_grantConn { c with session := session } increment notes
    · rw [if_neg conn, if_neg conn, ← records]
      exact goes_grantStream { c with session := session } sid increment now
        (kept.symm ▸ closed) notes
  | initialWindowDelta delta =>
    dsimp only [noteOfOutcome]
    rw [quiet (nomatch ·), append_nil]
    have closes := goes_goaway_stop { c with
      session := session
      outstreams := c.outstreams.mapValues fun st => { st with window := st.window + delta } }
      .flowControlError notes
    rw [append_nil] at closes
    change Relation.ReflTransGen _ _ ((shiftWindows { c with session := session } delta).link notes)
    rw [shiftWindows]
    split_ifs
    · exact closes
    · exact .refl

/-! ## The other arms -/

theorem expireReceiving_link (notes : List Note) :
    (c.expireReceiving sid).link notes = (c.link notes).expire sid := by
  have expired := Session.core_expireReceiving c.session sid
  have told : (c.session.expireReceiving sid).2 =
      !decide ((c.link notes).core.openHeaderBlock = some sid ∧
        (c.link notes).core.discarding = false) := rfl
  rw [expireReceiving]
  generalize c.session.expireReceiving sid = result at *
  dsimp only at expired told ⊢
  by_cases current : (c.link notes).core.openHeaderBlock = some sid ∧
      (c.link notes).core.discarding = false
  · rw [decide_eq_true current, Bool.not_true] at told
    rw [told, if_neg Bool.false_ne_true, Link.expire, if_pos current]
    simp [link, expired]
  · rw [decide_eq_false current, Bool.not_false] at told
    rw [told, if_pos rfl, Link.expire, if_neg current]
    simp [push, link, Session.core_push, expired]

theorem goes_expireReceiving {sid : StreamId} (known : c.session.streams.contains sid = true) :
    Goes c [] (c.expireReceiving sid) := by
  refine .quiet fun notes => .single ?_
  have expires := Acts.expires (l := c.link notes) sid known false
  have same : { (c.link notes).expire sid with pendingWindow := (c.link notes).pendingWindow } =
      (c.link notes).expire sid := by
    rw [Link.expire]
    split_ifs <;> rfl
  rw [if_neg Bool.false_ne_true, same] at expires
  rw [expireReceiving_link]
  exact expires

theorem goes_onExpire {sid : StreamId} (known : c.session.streams.contains sid = true) :
    Goes c [] (c.onExpire sid) := by
  refine .quiet fun notes => .single ?_
  have expires := Acts.expires (l := c.link notes) sid known true
  have same : (c.onExpire sid).link notes = ((c.link notes).expire sid).take sid := by
    rw [onExpire, ← expireReceiving_link]
    rfl
  have kept : ((c.link notes).expire sid).pendingWindow = c.pendingWindow := by
    rw [Link.expire]
    split_ifs <;> rfl
  rw [same, Link.take, kept]
  exact expires

theorem goes_abandonTask {sid : StreamId} (running : sid ∈ c.session.inflightSids) :
    Goes c [] (c.abandonTask sid) := by
  refine .quiet fun notes => .single ?_
  have aborts := Acts.aborts (l := c.link notes) sid running
  have same : (c.session.abort sid).core = c.session.core.abort sid :=
    Session.core_abort (contains_iff_mem.mpr running)
  simp only [abandonTask, link, Session.core_push, same]
  exact aborts

theorem expireReceiving_core : (c.expireReceiving sid).session.streams = c.session.streams.del sid ∧
      (c.expireReceiving sid).session.inflightSids = c.session.inflightSids := by
  have linked := c.expireReceiving_link sid []
  have core : (c.expireReceiving sid).session.core = ((c.link []).expire sid).core :=
    congrArg Link.core linked
  change (c.expireReceiving sid).session.core.streams = _ ∧
    (c.expireReceiving sid).session.core.inflightSids = _
  rw [core, Link.expire, Core.expire]
  split_ifs <;> exact ⟨rfl, rfl⟩

variable {sids : List StreamId}

theorem known_del {ν : Type} {map : HashMap StreamId ν} {sid : StreamId}
    (new : sid ∉ sids) (known : ∀ other ∈ sid :: sids, map.contains other = true) :
    ∀ other ∈ sids, (map.del sid).contains other = true := by
  intro other member
  obtain ⟨st, found⟩ := HashMap.contains_iff.mp (known other (mem_cons_of_mem _ member))
  have ne : other ≠ sid := fun same => new (same ▸ member)
  exact HashMap.contains_iff.mpr ⟨st, (get_del_of_ne _ ne).trans found⟩

/-- Expiring streams one after the other takes each of them off the map. -/
theorem goes_expireAll (distinct : sids.Nodup) (c : Conn)
    (known : ∀ sid ∈ sids, c.session.streams.contains sid = true) :
    Goes c [] (sids.foldl expireReceiving c) ∧
      (sids.foldl expireReceiving c).session.inflightSids = c.session.inflightSids ∧
      ∀ sid, (sids.foldl expireReceiving c).session.streams.get sid =
        if sid ∈ sids then none else c.session.streams.get sid := by
  induction sids generalizing c with
  | nil => exact ⟨.refl c, rfl, fun sid => (if_neg not_mem_nil).symm⟩
  | cons sid _ ih =>
    obtain ⟨new, distinct⟩ := nodup_cons.mp distinct
    obtain ⟨streams, flight⟩ := c.expireReceiving_core sid
    obtain ⟨goes, flights, gone⟩ := ih distinct (c.expireReceiving sid) (by
      rw [streams]
      exact known_del new known)
    refine ⟨(goes_expireReceiving c (known sid mem_cons_self)).andThen goes,
      flights.trans flight, fun other => ?_⟩
    rw [foldl_cons, gone, streams, get_del]
    by_cases same : other = sid
    · simp only [mem_cons, same, if_true, ite_self, true_or]
    · simp only [mem_cons, same, if_false, false_or]

theorem goes_abandonAll (sids : List StreamId) (c : Conn)
    (running : c.session.inflightSids = sids) :
    Goes c [] (sids.foldl abandonTask c) ∧ (sids.foldl abandonTask c).session.inflightSids = [] ∧
      (sids.foldl abandonTask c).session.streams = c.session.streams := by
  induction sids generalizing c with
  | nil => exact ⟨.refl c, running, rfl⟩
  | cons sid sids ih =>
    obtain ⟨goes, none, streams⟩ := ih (c.abandonTask sid) (by
      change c.session.inflightSids.erase sid = sids
      rw [running, erase_cons_head])
    exact ⟨(goes_abandonTask c (running ▸ mem_cons_self)).andThen goes, none, streams⟩

theorem goes_resetAll (distinct : sids.Nodup) (c : Conn)
    (known : ∀ sid ∈ sids, c.outstreams.contains sid = true) :
    Goes c [] (sids.foldl resetOutstream c) ∧
      (sids.foldl resetOutstream c).session.inflightSids = c.session.inflightSids ∧
      (sids.foldl resetOutstream c).session.streams = c.session.streams := by
  induction sids generalizing c with
  | nil => exact ⟨.refl c, rfl, rfl⟩
  | cons sid _ ih =>
    obtain ⟨new, distinct⟩ := nodup_cons.mp distinct
    obtain ⟨goes, flight, streams⟩ := ih distinct (c.resetOutstream sid) (known_del new known)
    exact ⟨(goes_resetOutstream c (known sid mem_cons_self)).andThen goes, flight, streams⟩

/-- The drain bound: every receiving stream, handler and response is given up. -/
theorem goes_abandonDrain : Goes c [] c.abandonDrain.stop := by
  obtain ⟨receiving, _, gone⟩ := goes_expireAll c.session.streams.keys_nodup c
    fun sid member => HashMap.mem_keys.mp member
  have unreceived (sid : StreamId) : c.abandonReceiving.session.streams.get sid = none := by
    rw [abandonReceiving, gone]
    split_ifs with member
    · rfl
    · rw [← contains_eq_false, Bool.eq_false_iff, ne_eq, ← HashMap.mem_keys]
      exact member
  obtain ⟨inflight, idle, streams⟩ := goes_abandonAll _ c.abandonReceiving rfl
  obtain ⟨sending, flight', streams'⟩ := goes_resetAll
    c.abandonReceiving.abandonInflight.outstreams.keys_nodup c.abandonReceiving.abandonInflight
    fun sid member => HashMap.mem_keys.mp member
  have all := (receiving.andThen inflight).andThen sending
  refine all.andThen (Goes.andThen (.quiet fun notes => .single (.clears ?_))
    (goes_goaway_stop { c.abandonReceiving.abandonInflight.abandonSending with
      pendingWindow := ∅ } .noError))
  rintro sid (received | running)
  · change c.abandonReceiving.abandonInflight.abandonSending.session.streams.contains sid = true
      at received
    rw [abandonSending, streams', abandonInflight, streams,
      contains_eq_false.mpr (unreceived sid)] at received
    exact Bool.false_ne_true received
  · change sid ∈ c.abandonReceiving.abandonInflight.abandonSending.session.inflightSids at running
    rw [abandonSending, flight', abandonInflight, idle] at running
    exact not_mem_nil running

theorem goes_onShutdown : Goes c [] c.onShutdown := by
  refine .quiet fun notes => ?_
  have closes := Acts.closes (l := c.link notes) .noError c.reading id
  dsimp only [link] at closes
  rw [onShutdown]
  split_ifs
  · exact .single closes
  · exact .refl

/-! ## Steps -/

/-- The frame an event feeds to frame processing. -/
def fed (config : Config) (c : Conn) : Event → Option Frame
  | .frame f _ _ =>
    if c.reading = true ∧ f.length ≤ min config.maxFrameSize (2 ^ 24) then some f else none
  | _ => none

/-- What an event brings in that the send side answers to. -/
def observe (config : Config) (c : Conn) : Event → List Note
  | .frame f now inFlight =>
    if c.reading = true ∧ f.length ≤ min config.maxFrameSize (2 ^ 24) then
      let (session, outcome) := c.session.processFrame
        ⟨config.parsers, config.streamStateSize, now, inFlight⟩ c.outstreams.size c.accepting f
      c.noteOfOutcome session.core outcome
    else []
  | .handler position response =>
    match c.session.inflight[position]? with
    | none => []
    | some task =>
      if task.aborted || c.session.cancelled.contains task.sid then []
      else [.begins task.sid task.isHead response ((c.link []).offered task.sid)]
  | .pull sid result =>
    if c.pulls.contains sid && c.outstreams.contains sid then noteOfPull sid result else []
  | _ => []

theorem onFrame_feeds {config : Config} {c : Conn} {f : Frame} (now inFlight : Nat)
    (reads : c.reading = true) (fits : f.length ≤ min config.maxFrameSize (2 ^ 24))
    (notes : List Note) :
    ∃ l, l.core = (c.session.processFrame ⟨config.parsers, config.streamStateSize, now, inFlight⟩
        c.outstreams.size c.accepting f).1.core ∧
      Feeds f (c.link notes) l ∧ ActsTo l ((c.onFrame config f now inFlight).link
        (notes ++ observe config c (.frame f now inFlight))) := by
  rw [onFrame, if_neg (Nat.not_lt.mpr fits), observe, if_pos ⟨reads, fits⟩]
  have handles := processFrame_handles ⟨config.parsers, config.streamStateSize, now, inFlight⟩
    c.outstreams.size c.accepting c.session f
  dsimp only
  generalize Session.processFrame _ c.outstreams.size c.accepting c.session f = result at *
  obtain ⟨session, outcome⟩ := result
  refine ⟨_, Link.settle_core .., .handled (l := c.link notes) reads handles,
    onOutcome_acts c session now outcome notes ?_⟩
  rintro _ _ rfl
  cases handles.tells with
  | own isLocal => exact absurd isLocal id
  | credit _ same control => exact ⟨same, control.closed⟩

theorem goes_handler : Goes c (observe config c (.handler position response))
      (c.onHandler config.parsers position response) := by
  rw [observe]
  cases found : c.session.inflight[position]? with
  | none =>
    rw [onHandler, found]
    exact .refl c
  | some task =>
    dsimp only
    split_ifs with suppressed
    · have unwanted := suppressed
      rw [Bool.or_eq_true, contains_iff_mem] at unwanted
      refine .quiet fun notes => ?_
      rw [onHandler, found]
      dsimp only
      rw [if_pos suppressed]
      exact .single (.leaves position task found unwanted)
    · rw [Bool.or_eq_true, contains_iff_mem, not_or, Bool.not_eq_true] at suppressed
      exact goes_onHandler config.parsers c position response found suppressed.1 suppressed.2

theorem goes_pull : Goes c (observe config c (.pull sid result)) (c.onPull sid result) := by
  rw [observe]
  by_cases waiting : sid ∈ c.pulls
  · rw [contains_iff_mem.mpr waiting, Bool.true_and]
    cases found : c.outstreams.get sid with
    | none =>
      rw [contains_eq_false.mpr found, if_neg Bool.false_ne_true]
      rw [onPull, if_pos (contains_iff_mem.mpr waiting), applyPull]
      rw [found]
      exact .quiet fun notes => .single (.loses sid found)
    | some st =>
      rw [HashMap.contains_iff.mpr ⟨st, found⟩, if_pos rfl]
      exact goes_onPull c sid result waiting found
  · have missing : c.pulls.contains sid = false := by
      rw [Bool.eq_false_iff, ne_eq, contains_iff_mem]
      exact waiting
    rw [missing, Bool.false_and, if_neg Bool.false_ne_true, onPull, missing,
      if_neg Bool.false_ne_true]
    exact .refl c

/-- What an event does to the link: actions, after the frame it feeds to frame processing. -/
theorem step_link (e : Event) (notes : List Note) : (fed config c e = none ∧
      ActsTo (c.link notes) ((step config c e).link (notes ++ observe config c e))) ∨
    ∃ f l, fed config c e = some f ∧ Feeds f (c.link notes) l ∧
      ActsTo l ((step config c e).link (notes ++ observe config c e)) := by
  have guarded {condition : Prop} [Decidable condition] {c' : Conn}
      (goes : condition → Goes c [] c') : Goes c [] (if condition then c' else c) := by
    split_ifs with holds
    · exact goes holds
    · exact .refl c
  cases e with
  | frame f now inFlight =>
    rw [step, fed]
    by_cases reads : c.reading = true
    · by_cases fits : f.length ≤ min config.maxFrameSize (2 ^ 24)
      · rw [if_pos reads, if_pos ⟨reads, fits⟩]
        obtain ⟨l, _, feeds, acts⟩ := onFrame_feeds now inFlight reads fits notes
        exact .inr ⟨f, l, rfl, feeds, acts⟩
      · rw [if_pos reads, observe, if_neg fun both => fits both.2, if_neg fun both => fits both.2,
          onFrame, if_pos (Nat.lt_of_not_le fits)]
        exact .inl ⟨rfl, goes_goaway_stop c .frameSizeError notes⟩
    · rw [if_neg reads, observe, if_neg fun both => reads both.1, if_neg fun both => reads both.1]
      exact .inl ⟨rfl, Goes.refl c notes⟩
  | frameTimer => exact .inl ⟨rfl, guarded (fun _ => goes_goaway_stop c .protocolError) notes⟩
  | expire => exact .inl ⟨rfl, guarded (goes_onExpire c) notes⟩
  | handler position response => exact .inl ⟨rfl, goes_handler config c position response notes⟩
  | pull sid result => exact .inl ⟨rfl, goes_pull config c sid result notes⟩
  | pump => exact .inl ⟨rfl, goes_pumpLoop _ _ c notes⟩
  | stalled sid => exact .inl ⟨rfl, goes_resetSending c sid notes⟩
  | drainIdle sid => exact .inl ⟨rfl, guarded (fun _ => goes_resetSending c sid) notes⟩
  | shutdown =>
    refine .inl ⟨rfl, ?_⟩
    rw [step]
    split_ifs
    · exact Goes.refl c notes
    · exact goes_onShutdown c notes
  | peerClosed =>
    exact .inl ⟨rfl, guarded (fun _ => .quiet fun notes => .single .stops) notes⟩
  | idle => exact .inl ⟨rfl, guarded (fun _ => goes_goaway_stop c .noError) notes⟩
  | drainElapsed => exact .inl ⟨rfl, guarded (fun _ => goes_abandonDrain c) notes⟩

end Conn

end HttpJet.H2
