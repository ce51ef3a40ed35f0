import HttpJet.H2.Core

/-!
# Frame processing refines the protocol machine

Each function of frame processing is one of the machine's actions, and each
early return one of its cases; `processFrame_handles` puts them together.
-/

namespace HttpJet.H2

open Hpack Hpack.Integer Hpack.Literal Hpack.StaticTable
open Library
open HashMap

variable {st : StreamState}

/-! ## Decoding a block into a stream -/

namespace Core.Redecoded

theorem head (st : StreamState) (method authority : Option Octets) (path : Option Uri)
    (headers : Headers) (contentLength : Option Nat) : Redecoded st { st with
      method := method, path := path, authority := authority, headers := headers,
      contentLength := contentLength } := ⟨rfl, rfl, rfl, rfl, rfl, rfl, rfl, id⟩

theorem refl (st : StreamState) : Redecoded st st := head st ..

theorem trans {first second third : StreamState} (left : Redecoded first second)
    (right : Redecoded second third) : Redecoded first third where
  headerBlock := right.headerBlock.trans left.headerBlock
  endStream := right.endStream.trans left.endStream
  refused := right.refused.trans left.refused
  headerCharge := right.headerCharge.trans left.headerCharge
  body := right.body.trans left.body
  bodyLease := right.bodyLease.trans left.bodyLease
  recvWindow := right.recvWindow.trans left.recvWindow
  headersDone := right.headersDone ∘ left.headersDone

end Core.Redecoded

namespace FieldScan

open HttpJet.H2.Core (Redecoded)

theorem pseudoField_keeps (parsers : Parsers) (isTrailers : Bool) (scan : FieldScan)
    (name value : Octets) :
    Redecoded scan.st (scan.pseudoField parsers isTrailers name value).st := by
  have path : Redecoded scan.st (scan.pathField parsers value).st := by
    unfold pathField
    cases parsers.uri value <;> dsimp only <;> split_ifs <;> exact .head ..
  unfold pseudoField methodField schemeField authorityField
  split_ifs
  all_goals first
    | exact path
    | exact .head ..

theorem contentLengthField_keeps (scan : FieldScan) (value : Octets) :
    Redecoded scan.st (scan.contentLengthField value).st := by
  unfold contentLengthField
  cases parseU64 value <;> dsimp only <;> split_ifs <;> exact .head ..

/-- The optional checks of a regular field before it is appended. -/
theorem checked_keeps {check : FieldScan → FieldScan}
    (kept : ∀ scan, Redecoded scan.st (check scan).st)
    (scan : FieldScan) (applies : Prop) [Decidable applies] :
    Redecoded scan.st (if applies then check scan else scan).st := by
  split_ifs
  · exact kept scan
  · exact .refl _

section

variable (parsers : Parsers) (isTrailers : Bool)
include parsers isTrailers

theorem regularField_keeps (scan : FieldScan) (name value : Octets) :
    Redecoded scan.st (scan.regularField parsers isTrailers name value).st := by
  unfold regularField
  dsimp only
  have marked : Redecoded scan.st ({ scan with seenRegular := true } : FieldScan).st := .refl _
  generalize ({ scan with seenRegular := true } : FieldScan) = marked_scan at *
  have lengthKept := marked.trans (checked_keeps (fun scan => scan.contentLengthField_keeps value)
    marked_scan (name = ascii "content-length"))
  generalize (if name = ascii "content-length" then marked_scan.contentLengthField value
    else marked_scan) = sized at *
  have host (scan : FieldScan) : Redecoded scan.st (scan.hostField value).st := by
    unfold hostField
    split_ifs <;> exact .refl _
  have hostKept := lengthKept.trans (checked_keeps host sized (name = ascii "host"))
  generalize (if name = ascii "host" then sized.hostField value else sized) = hosted at *
  split_ifs
  all_goals first
    | exact marked
    | exact lengthKept
    | exact hostKept
    | exact hostKept.trans (.head ..)

theorem field_keeps (scan : FieldScan) (line : Field) :
    Redecoded scan.st (scan.field parsers isTrailers line).st := by
  unfold field
  split_ifs
  · exact .refl _
  · exact scan.pseudoField_keeps parsers isTrailers line.1 line.2
  · exact scan.regularField_keeps parsers isTrailers line.1 line.2

theorem foldl_field_keeps (lines : List Field) (scan : FieldScan) :
    Redecoded scan.st (lines.foldl (FieldScan.field parsers isTrailers) scan).st := by
  induction lines generalizing scan with
  | nil => exact .refl _
  | cons line _ ih => exact (scan.field_keeps parsers isTrailers line).trans (ih _)

end

end FieldScan

/-- Decoding a block runs the connection's decoder over it once, whatever the verdict. -/
theorem decodeBlockFrom_decoder (parsers : Parsers) (dec : Decoder) (st : StreamState)
    (block : Octets) :
    (decodeBlockFrom parsers dec st block).1 = (dec.decodeOctets block).decoder := by
  unfold decodeBlockFrom
  dsimp only
  split <;> try rfl
  split_ifs <;> rfl

theorem decodeBlockFrom_keeps (parsers : Parsers) (dec : Decoder) (st : StreamState)
    (block : Octets) : Core.Redecoded st (decodeBlockFrom parsers dec st block).2.1 := by
  unfold decodeBlockFrom
  dsimp only
  have kept := FieldScan.foldl_field_keeps parsers st.headersDone
    (dec.decodeOctets block).emitted { st := st }
  split <;> try exact kept
  split_ifs
  · exact kept
  · exact kept
  · exact kept.trans ⟨rfl, rfl, rfl, rfl, rfl, rfl, rfl, fun _ => rfl⟩
  · exact kept

theorem decodeBlockFrom_done {parsers : Parsers} {dec : Decoder} {block : Octets}
    (ok : (decodeBlockFrom parsers dec st block).2.2 = .ok) :
    (decodeBlockFrom parsers dec st block).2.1.headersDone = true := by
  have kept := FieldScan.foldl_field_keeps parsers st.headersDone
    (dec.decodeOctets block).emitted { st := st }
  unfold decodeBlockFrom at ok ⊢
  dsimp only at ok ⊢
  split at ok <;> try cases ok
  split_ifs at ok with malformed trailers request
  · rw [if_neg malformed, if_pos trailers]
    exact kept.headersDone trailers
  · rw [if_neg malformed, if_neg trailers, if_pos request]

/-! ## The actions -/

namespace Session

variable {s : Session} {sid : StreamId} {k : Core} {env : Ambient}

theorem core_push (s : Session) (seg : Seg) : (s.push seg).core = s.core.push seg := rfl

theorem core_writeGoaway (s : Session) (error : ErrorCode) :
    (s.writeGoaway error).core = s.core.goaway error := rfl

theorem core_dropReceiving (s : Session) (sid : StreamId) :
    (s.dropReceiving sid).core = s.core.drop sid := by
  rw [dropReceiving]
  cases found : s.streams.get sid with
  | none => simp [Core.drop, Core.held, core, found, del_of_none found]
  | some => simp [Core.drop, Core.held, core, found, release, Recv.releaseStream]

theorem core_teardownReceiving (s : Session) (sid : StreamId) :
    (s.teardownReceiving sid).core = s.core.drop sid := by
  rw [← core_dropReceiving]
  rfl

theorem core_encodeHeaders (s : Session) (fields : List Field) :
    (s.encodeHeaders fields).1.core = s.core := rfl

theorem core_abort (running : s.inflightSids.contains sid = true) :
    (s.abort sid).core = s.core.abort sid := by
  have member : sid ∈ s.inflightSids := by simpa using running
  simp [Session.abort, Core.abort, core, member]

theorem core_abort_idle (idle : k.inflightSids.contains sid = false) : k.abort sid = k := by
  have missing : sid ∉ k.inflightSids := by simpa using idle
  simp [Core.abort, missing, List.erase_of_not_mem missing]

theorem core_charge (s : Session) (now : Nat) :
    ({ s with recv := (s.recv.chargeInflightResetAt now).1 } : Session).core = s.core := by
  rfl

/-! ## The early returns -/

open HttpJet.H2.Core (Resets Completes Settles Discards Entry Receives Control Handles Redecoded)

/-- Aborting the handler is the machine's abort, with a GOAWAY when the budget is exhausted. -/
theorem cancelInflight_core (now : Nat) (s : Session) (sid : StreamId) :
    (s.cancelInflight now sid).1.core = s.core.abort sid ∧
        (s.cancelInflight now sid).2 = .resetStream sid ∨
      (s.cancelInflight now sid).1.core = (s.core.abort sid).goaway .enhanceYourCalm ∧
        (s.cancelInflight now sid).2 = .stopReading ∧ sid ∈ s.core.inflightSids := by
  rw [cancelInflight]
  split_ifs with running
  · have charge := core_charge (s.abort sid) now
    rw [core_abort running] at charge
    rw [afterCharge]
    split_ifs
    · exact .inr ⟨congrArg (·.goaway .enhanceYourCalm) charge, rfl,
        List.contains_iff_mem.mp running⟩
    · exact .inl ⟨charge, rfl⟩
  · exact .inl ⟨(core_abort_idle (Bool.eq_false_iff.mpr running)).symm, rfl⟩

theorem rst_resets (env : Ambient) (same : s.core = k) (sid : StreamId) (error : ErrorCode) :
    Resets sid error k (s.rst env sid error).1.core (s.rst env sid error).2 := by
  have torn : ((s.push (.rstStream sid error)).teardownReceiving sid).core =
      (k.push (.rstStream sid error)).drop sid := by
    rw [core_teardownReceiving, core_push, same]
  rw [rst]
  obtain ⟨left, told⟩ | ⟨left, told, running⟩ := cancelInflight_core env.now
    ((s.push (.rstStream sid error)).teardownReceiving sid) sid
  · rw [left, told, torn]
    exact .counted
  · rw [torn] at running
    rw [left, told, torn]
    exact .exhausted running

theorem rejectTooLarge_open (env : Ambient) (s : Session) (sid : StreamId) (status : String) :
    ∃ first, Resets sid .noError (s.core.push (.fields sid false true first []))
      (s.rejectTooLarge env sid status true).1.core (s.rejectTooLarge env sid status true).2 := by
  generalize encoded : s.encodeHeaders [field ":status" status, field "content-length" "0"] = result
  obtain ⟨session, block⟩ := result
  have same : session.core = s.core := by
    rw [← core_encodeHeaders s, encoded]
  refine ⟨block, ?_⟩
  rw [rejectTooLarge, encoded, ← same]
  exact rst_resets env (core_push session _) sid .noError

theorem rejectTooLarge_done (env : Ambient) (s : Session) (sid : StreamId) (status : String) :
    ∃ first, (s.rejectTooLarge env sid status false).1.core =
        (s.core.push (.fields sid false true first [])).drop sid ∧
      (s.rejectTooLarge env sid status false).2 = .resetStream sid := by
  refine ⟨(s.encodeHeaders [field ":status" status, field "content-length" "0"]).2, ?_, rfl⟩
  exact core_dropReceiving _ sid

/-- A field block is one segment, however many frames it takes. -/
theorem writeFieldBlock_eq (sid : StreamId) (interim endStream : Bool) (block : Octets)
    (maxFrame : Nat) :
    ∃ first rest, writeFieldBlock sid interim endStream block maxFrame =
      .fields sid interim endStream first rest := by
  rw [writeFieldBlock]
  split_ifs <;> exact ⟨_, _, rfl⟩

theorem rejectEarly_resets (env : Ambient) (s : Session) (sid : StreamId) (status : Nat)
    (headers : Headers) :
    ∃ first rest, Resets sid .noError (s.core.push (.fields sid false true first rest))
      (s.rejectEarly env sid status headers).1.core (s.rejectEarly env sid status headers).2 := by
  rw [rejectEarly]
  generalize encoded : s.encodeHeaders _ = result
  have same : result.1.core = s.core := by rw [← encoded, core_encodeHeaders]
  obtain ⟨session, block⟩ := result
  obtain ⟨first, rest, written⟩ :=
    writeFieldBlock_eq sid false true block session.peer.maxFrameSize
  refine ⟨first, rest, ?_⟩
  dsimp only
  rw [written, ← same]
  exact rst_resets env (core_push session _) sid .noError

/-- A stream in the map is dispatched, or reset when its length or head does not add up. -/
theorem complete_completes (env : Ambient) (found : s.streams.get sid = some st)
    (same : s.core = k) :
    Completes sid k (s.complete env sid).1.core (s.complete env sid).2 := by
  subst same
  have dropped : (s.finish sid st).core = s.core.drop sid := by
    rw [← core_dropReceiving, dropReceiving, found]
    rfl
  rw [complete, found]
  dsimp only
  split_ifs
  · exact .refuted (rst_resets env dropped sid .protocolError)
  · cases buildRequest st with
    | none => exact .refuted (rst_resets env dropped sid .protocolError)
    | some request =>
      have dispatched : Completes sid s.core
          (s.core.dispatch sid (st.method == some (ascii "HEAD")) request) .proceed :=
        .dispatched ..
      rw [Core.dispatch, ← dropped] at dispatched
      exact dispatched

theorem maybeSend100Continue_core (parsers : Parsers) (s : Session) (sid : StreamId)
    (st : StreamState) :
    ∃ interim, (s.maybeSend100Continue parsers sid st).core =
        { s.core with out := s.core.out ++ interim } ∧
      ∀ seg ∈ interim, ∃ first, seg = .fields sid true false first [] := by
  rw [maybeSend100Continue]
  split_ifs
  · exact ⟨[.fields sid true false (s.encodeHeaders [field ":status" "100"]).2 []], rfl,
      fun seg member => ⟨_, List.mem_singleton.mp member⟩⟩
  · refine ⟨[], ?_, fun seg member => nomatch member⟩
    rw [List.append_nil]

/-- A successful reservation leaves what the machine's lease holds. -/
theorem admitPendingHeaders_eq {recv admitted : Recv} {inFlight charge : Nat}
    {charged : StreamState}
    (ok : recv.admitPendingHeaders inFlight st charge = some (admitted, charged)) :
    admitted = { recv with pendingHeaderBytes := recv.pendingHeaderBytes + charge } ∧
      charged = { st with
        headerCharge := charge
        bodyLease := match recv.bodyBudget with
          | none => st.bodyLease
          | some _ => some (st.bodyLease.getD 0 + charge) } := by
  rw [Recv.admitPendingHeaders] at ok
  split_ifs at ok
  cases budget : recv.bodyBudget with
  | none =>
    rw [budget] at ok
    cases ok
    exact ⟨rfl, rfl⟩
  | some =>
    rw [budget] at ok
    dsimp only at ok
    rw [reserve] at ok
    split_ifs at ok
    cases ok
    exact ⟨rfl, rfl⟩

theorem admitOrComplete_settles (found : s.streams.get sid = some st) (done : st.headersDone = true)
    (admitted : st.refused = false) :
    Settles sid st s.core (s.admitOrComplete env sid).1.core (s.admitOrComplete env sid).2 := by
  rw [admitOrComplete, found]
  dsimp only
  split_ifs with ended
  · exact .completed admitted (complete_completes env found rfl)
  · cases reserved : s.recv.admitPendingHeaders env.inFlight st
        (pendingHeaderCharge env.streamStateSize st) with
    | none => exact .unaffordable (rst_resets env rfl sid .refusedStream)
    | some result =>
      obtain ⟨recv, charged⟩ := result
      obtain ⟨sameRecv, sameStream⟩ := admitPendingHeaders_eq reserved
      obtain ⟨interim, same, announced⟩ := maybeSend100Continue_core env.parsers
        { s with recv := recv, streams := s.streams.put sid charged } sid charged
      rw [same, sameRecv, sameStream]
      exact .admitted _ interim done (Bool.eq_false_iff.mpr ended) admitted announced

theorem isRefused_eq (found : s.streams.get sid = some st) : s.isRefused sid = st.refused := by
  rw [isRefused, found]
  rfl

theorem refuse_resets (env : Ambient) (s : Session) (sid : StreamId) :
    Resets sid .refusedStream { s.core with streams := s.core.streams.del sid }
      (s.refuse env sid).1.core (s.refuse env sid).2 := by
  exact rst_resets env (s := { s with streams := s.streams.del sid }) rfl sid .refusedStream

/-- What follows END_HEADERS on a stream whose block gave the verdict. -/
theorem endOfBlock_settles {verdict : DecodedBlock} (found : s.streams.get sid = some st)
    (done : verdict = .ok → st.headersDone = true) :
    Settles sid st s.core (s.endOfBlock env sid verdict).1.core
      (s.endOfBlock env sid verdict).2 := by
  cases verdict with
  | ok =>
    rw [endOfBlock, isRefused_eq found]
    split_ifs with marked large
    · exact .refused marked (refuse_resets env s sid)
    · obtain ⟨first, resets⟩ := rejectTooLarge_open env s sid "413"
      exact .rejected first [] resets
    · cases s.earlyRejection sid with
      | none =>
        exact admitOrComplete_settles found (done rfl) (Bool.eq_false_iff.mpr marked)
      | some response =>
        obtain ⟨first, rest, resets⟩ :=
          rejectEarly_resets env s sid response.1 response.2
        exact .rejected first rest resets
  | compression => exact .garbled
  | tooLarge =>
    rw [endOfBlock, isRefused_eq found]
    split_ifs with marked
    · exact .refused marked (refuse_resets env s sid)
    · rw [found, Option.any_some]
      cases ended : st.endStream with
      | true =>
        obtain ⟨first, same, told⟩ := rejectTooLarge_done env s sid "431"
        rw [Bool.not_true, same, told]
        exact .answered first ended
      | false =>
        obtain ⟨first, resets⟩ := rejectTooLarge_open env s sid "431"
        exact .rejected first [] resets
  | malformed =>
    exact .malformed (rst_resets env (core_dropReceiving s sid) sid .protocolError)

/-! ## The frame arms -/

theorem decodeDiscardHeaderBlock_decoder (dec : Decoder) (block : Octets) :
    (decodeDiscardHeaderBlock dec block).1 = (dec.decodeOctets block).decoder := by
  rw [decodeDiscardHeaderBlock]
  split <;> rfl

theorem discardBlock_discards (env : Ambient) (same : s.core = k) (f : Frame) (block : Octets)
    (error : ErrorCode) : Discards f block k (s.discardBlock env f block error).1.core
      (s.discardBlock env f block error).2 := by
  subst same
  have decoded := decodeDiscardHeaderBlock_decoder s.dec block
  rw [discardBlock]
  generalize decodeDiscardHeaderBlock s.dec block = result at *
  obtain ⟨dec, ok⟩ := result
  subst decoded
  split_ifs with ended
  · cases ok with
    | true =>
      exact .finished error ended
        (rst_resets env (s := { s with dec := (s.dec.decodeOctets block).decoder }) rfl
          f.streamId error)
    | false => exact .garbled ended
  · exact .continues (Bool.eq_false_iff.mpr ended)

theorem settingsParam_core {s' : Session} {param : Nat × Nat}
    (ok : s.settingsParam param = .inl s') :
    ∃ peer, s'.core = { s.core with peer := peer } ∧ (Core.Legal s.peer → Core.Legal peer) := by
  rw [settingsParam] at ok
  split_ifs at ok with push big table frame small window large
  all_goals cases ok
  · exact ⟨s.peer, rfl, id⟩
  · exact ⟨s.peer, rfl, id⟩
  · refine ⟨{ s.peer with maxFrameSize := param.2 }, rfl, fun legal =>
      ⟨?_, legal.nonneg, legal.window⟩⟩
    dsimp only
    omega
  · refine ⟨{ s.peer with initialWindow := param.2 }, rfl, fun legal => ⟨legal.frame, ?_, ?_⟩⟩
    · dsimp only
      omega
    · dsimp only
      omega
  · exact ⟨s.peer, rfl, id⟩

/-- SETTINGS parameters touch the peer's settings and the encoder only. -/
theorem settingsParams_core (params : List (Nat × Nat)) (s : Session) :
    ∃ peer, (settingsParams params s).1.core = { s.core with peer := peer } ∧
      (Core.Legal s.peer → Core.Legal peer) := by
  induction params generalizing s with
  | nil => exact ⟨s.peer, rfl, id⟩
  | cons param _ ih =>
    rw [settingsParams]
    cases taken : s.settingsParam param with
    | inl next =>
      obtain ⟨peer, same, legal⟩ := settingsParam_core taken
      obtain ⟨last, sameLast, legalLast⟩ := ih next
      have nextPeer : next.peer = peer := congrArg Core.peer same
      refine ⟨last, ?_, fun start => legalLast (nextPeer ▸ legal start)⟩
      rw [sameLast, same]
    | inr => exact ⟨s.peer, rfl, id⟩

variable {active : Nat} {accepting : Bool} {f : Frame}

theorem handles_idle (control : Control f k) : Handles active accepting f k k .proceed := by
  have idle : Handles active accepting f k { k with out := k.out ++ [] } .proceed :=
    .noted control [] (fun seg member => nomatch member)
  rwa [List.append_nil] at idle

theorem onSettings_handles (control : Control f s.core) (kind : f.kind = Kind.settings) :
    Handles active accepting f s.core (s.onSettings f).1.core (s.onSettings f).2 := by
  rw [onSettings]
  split_ifs
  · exact .broken .frameSizeError
  · exact handles_idle control
  · cases parseSettings f.payload with
    | none => exact .broken .frameSizeError
    | some params =>
      dsimp only
      obtain ⟨peer, same, legal⟩ := settingsParams_core params s
      generalize settingsParams params s = result at *
      obtain ⟨session, error⟩ := result
      cases error with
      | some error =>
        have broken : Handles active accepting f s.core
            ({ s.core with peer := peer }.goaway error) .stopReading :=
          .settingsBroken peer error legal kind
        rw [← same] at broken
        exact broken
      | none =>
        have samePeer : session.peer = peer := congrArg Core.peer same
        have pushed : (session.push .settingsAck).core =
            { s.core with peer := peer, out := s.core.out ++ [.settingsAck] } := by
          rw [core_push, same]
          rfl
        dsimp only
        rw [pushed, samePeer]
        exact .settings control peer _ legal rfl kind

theorem onPing_handles (control : Control f s.core) :
    Handles active accepting f s.core (s.onPing f).1.core (s.onPing f).2 := by
  rw [onPing]
  split_ifs
  · exact handles_idle control
  · exact .noted control [.pingAck f.payload] (fun seg member => List.mem_singleton.mp member)

theorem opened_of_notOpened (opened : s.notOpened sid = false) : s.core.Opened sid := by
  rw [notOpened, Bool.or_eq_false_iff, isEven, beq_eq_false_iff_ne,
    decide_eq_false_iff_not] at opened
  exact ⟨Nat.mod_two_ne_zero.mp opened.1, Nat.le_of_not_lt opened.2⟩

section

variable (control : Control f s.core)
include control

theorem onWindowUpdate_handles (kind : f.kind = Kind.windowUpdate) :
    Handles active accepting f s.core (s.onWindowUpdate env f).1.core
      (s.onWindowUpdate env f).2 := by
  have opened (idle : ¬(f.streamId ≠ 0 ∧ s.notOpened f.streamId = true)) (stream : f.streamId ≠ 0) :
      s.core.Opened f.streamId :=
    opened_of_notOpened (Bool.eq_false_iff.mpr fun closed => idle ⟨stream, closed⟩)
  rw [onWindowUpdate]
  split
  · exact .broken .protocolError
  · rename_i idle
    cases parseWindowUpdate f.payload with
    | none => exact .broken .frameSizeError
    | some increment =>
      dsimp only
      split_ifs with zero conn
      · exact .broken .protocolError
      · exact .resets control .protocolError (.inl (opened idle conn))
          (rst_resets env rfl f.streamId .protocolError)
      · exact .credit control increment zero (opened idle) kind

theorem onGoaway_handles :
    Handles active accepting f s.core (s.onGoaway f).1.core (s.onGoaway f).2 := by
  rw [onGoaway]
  split_ifs
  · exact .broken .frameSizeError
  · exact .peerGoaway control

theorem onRstStream_handles (kind : f.kind = Kind.rstStream) :
    Handles active accepting f s.core (s.onRstStream env f).1.core (s.onRstStream env f).2 := by
  rw [onRstStream]
  split_ifs with idle
  · exact .broken .protocolError
  · have opened := opened_of_notOpened (Bool.eq_false_iff.mpr idle)
    have torn : ({ s.dropReceiving f.streamId with
        recv := (s.dropReceiving f.streamId).recv.noteReset f.streamId } : Session).core =
        s.core.drop f.streamId := by
      rw [← core_dropReceiving]
      rfl
    obtain ⟨left, told⟩ | ⟨left, told, running⟩ := cancelInflight_core env.now
      { s.dropReceiving f.streamId with
        recv := (s.dropReceiving f.streamId).recv.noteReset f.streamId } f.streamId
    · rw [left, told, torn]
      exact .peerReset control opened kind
    · rw [torn] at running
      rw [left, told, torn]
      exact .peerResetExhausted control opened running

theorem onPriority_handles (kind : f.kind = Kind.priority) :
    Handles active accepting f s.core (s.onPriority env f).1.core (s.onPriority env f).2 := by
  rw [onPriority]
  split_ifs with itself
  · exact .resets control .protocolError (.inr ⟨kind, itself⟩)
      (rst_resets env rfl f.streamId .protocolError)
  · exact handles_idle control

end

/-- Decoding a block in place: the machine's decoder runs once and the stream keeps its books. -/
theorem decodeInto_settles (env : Ambient) (s : Session) (sid : StreamId) (st : StreamState)
    (block : Octets) : ∃ st', Redecoded st st' ∧ Settles sid st'
        { s.core.decoded block with streams := s.core.streams.put sid st' }
        ((s.decodeInto env sid st block).1.endOfBlock env sid
          (s.decodeInto env sid st block).2).1.core
        ((s.decodeInto env sid st block).1.endOfBlock env sid
          (s.decodeInto env sid st block).2).2 := by
  have decoder := decodeBlockFrom_decoder env.parsers s.dec st block
  have kept := decodeBlockFrom_keeps env.parsers s.dec st block
  have done := @decodeBlockFrom_done st env.parsers s.dec block
  rw [decodeInto]
  generalize decodeBlockFrom env.parsers s.dec st block = result at *
  obtain ⟨dec, st', _⟩ := result
  subst decoder
  refine ⟨st', kept, ?_⟩
  have found : ({ s with
      dec := (s.dec.decodeOctets block).decoder
      streams := s.streams.put sid st' } : Session).streams.get sid = some st' :=
    get_put_self ..
  exact endOfBlock_settles found done

/-- The stream a HEADERS frame gets past the checks with. -/
theorem entry_handles {refused : Bool} (same : s.core = k.advance f.streamId)
    (above : k.streams.get f.streamId = none → f.streamId % 2 = 1 ∧ k.lastClientStream < f.streamId)
    (terminated : ∀ st, k.streams.get f.streamId = some st → st.headersDone = true →
      f.has Flag.endStream = true)
    (room : k.streams.get f.streamId = none → refused = false → accepting = true ∧
      k.streams.size + k.inflight.length + active < k.maxConcurrent) :
    Entry active accepting f k (s.entry f.streamId refused) := by
  have streams : s.streams = k.streams := congrArg Core.streams same
  have window : s.recv.ourInitialWindow = k.ourInitialWindow := congrArg Core.ourInitialWindow same
  rw [entry, streams, window]
  cases found : k.streams.get f.streamId with
  | none => exact .opened refused found (above found).1 (above found).2 (room found)
  | some st => exact .trailers found (terminated st found)

section

variable (kind : f.kind = Kind.headers)
include kind

theorem headersOnClosed_handles (closed : s.core.openHeaderBlock = none)
    (absent : s.streams.get f.streamId = none) (opened : s.core.Opened f.streamId) :
    Handles active accepting f s.core (s.headersOnClosed env f).1.core
      (s.headersOnClosed env f).2 := by
  rw [headersOnClosed]
  split_ifs
  · exact .broken .protocolError
  · cases stripped : headersBlock f with
    | none => exact .broken .protocolError
    | some block =>
      dsimp only
      split_ifs
      · exact .broken .compressionError
      · exact .headersOnClosed block kind closed stripped absent opened
          (discardBlock_discards env rfl f block .streamClosed)

theorem headersMalformed_handles (closed : k.openHeaderBlock = none)
    (above : k.streams.get f.streamId = none → f.streamId % 2 = 1 ∧ k.lastClientStream < f.streamId)
    (same : s.core = k.advance f.streamId) :
    Handles active accepting f k (s.headersMalformed env f).1.core
      (s.headersMalformed env f).2 := by
  have broken (error : ErrorCode) :
      Handles active accepting f k (s.writeGoaway error).core .stopReading := by
    rw [core_writeGoaway, same]
    exact .headersBroken error above
  rw [headersMalformed]
  cases stripped : headersBlock f with
  | none => exact broken .protocolError
  | some block =>
    dsimp only
    split_ifs
    · exact broken .compressionError
    · have dropped :
          (s.dropReceiving f.streamId).core = (k.advance f.streamId).drop f.streamId := by
        rw [core_dropReceiving, same]
      exact .headersMalformed block kind closed stripped above
        (discardBlock_discards env dropped f block .protocolError)

theorem headersAccepted_handles {refused : Bool} (closed : k.openHeaderBlock = none)
    (above : k.streams.get f.streamId = none → f.streamId % 2 = 1 ∧ k.lastClientStream < f.streamId)
    (entry : Entry active accepting f k (s.entry f.streamId refused))
    (same : s.core = k.advance f.streamId) :
    Handles active accepting f k (s.headersAccepted env f refused).1.core
      (s.headersAccepted env f refused).2 := by
  have streams : s.streams = k.streams := congrArg Core.streams same
  rw [headersAccepted]
  cases stripped : headersBlock f with
  | none =>
    have broken : Handles active accepting f k ((k.advance f.streamId).goaway .protocolError)
      .stopReading := .headersBroken .protocolError above
    rw [← same] at broken
    exact broken
  | some block =>
    dsimp only
    generalize s.entry f.streamId refused = st at *
    split_ifs with long ended
    · change Handles active accepting f k
        ({ s.core with streams := s.streams.put f.streamId st }.goaway .compressionError) _
      rw [same, streams]
      exact .headersTooLong st entry
    · obtain ⟨st', kept, settles⟩ := decodeInto_settles env
        { s with
          streams := s.streams.put f.streamId st
          recv := { s.recv with openHeaderBlock := none } } f.streamId
        { st with headerBlock := [], endStream := st.endStream || f.has Flag.endStream }
        (st.headerBlock ++ block)
      refine .headersEnd block st st' kind closed stripped entry ended kept ?_
      have start : ({ s with
          streams := s.streams.put f.streamId st
          recv := { s.recv with openHeaderBlock := none } } : Session).core =
          { k.advance f.streamId with
            streams := k.streams.put f.streamId st
            openHeaderBlock := none } := by
        rw [← streams, ← same]
        rfl
      rw [start] at settles
      simp only [put_put] at settles
      exact settles
    · have opened : Handles active accepting f k _ .proceed :=
        .headersOpen block st kind closed stripped entry (Bool.eq_false_iff.mpr ended)
      rw [← streams, ← same] at opened
      simp only [put_put]
      exact opened

theorem onHeaders_handles (closed : s.core.openHeaderBlock = none) :
    Handles active accepting f s.core (s.onHeaders env active accepting f).1.core
      (s.onHeaders env active accepting f).2 := by
  have same : (s.advance f.streamId).core = s.core.advance f.streamId := by
    cases known : s.streams.contains f.streamId <;> simp [advance, Core.advance, core, known]
  have odd (unknown : s.streams.get f.streamId = none)
      (fits : ¬(!s.streams.contains f.streamId && isEven f.streamId) = true) : f.streamId
        % 2 = 1 := by
    rw [contains_eq_false.mpr unknown, Bool.not_false, Bool.true_and, isEven] at fits
    exact Nat.mod_two_ne_zero.mp (by simpa using fits)
  rw [onHeaders]
  dsimp only
  generalize s.advance f.streamId = next at *
  have streams : next.streams = s.streams := congrArg Core.streams same
  have flight : next.inflight = s.inflight := congrArg Core.inflight same
  have cap : next.recv.maxConcurrent = s.recv.maxConcurrent := congrArg Core.maxConcurrent same
  rw [streams, flight, cap]
  split_ifs with even reused malformed
  · exact .broken .protocolError
  · rw [Bool.and_eq_true, Bool.not_eq_true', contains_eq_false, decide_eq_true_eq] at reused
    exact headersOnClosed_handles kind closed reused.1 ⟨odd reused.1 even, reused.2⟩
  all_goals
    have above (unknown : s.core.streams.get f.streamId = none) :
        f.streamId % 2 = 1 ∧ s.core.lastClientStream < f.streamId := by
      have missing : s.streams.contains f.streamId = false := contains_eq_false.mpr unknown
      refine ⟨odd unknown even, ?_⟩
      rw [missing, Bool.not_false, Bool.true_and, decide_eq_true_eq] at reused
      exact Nat.lt_of_not_le reused
  · exact headersMalformed_handles kind closed above same
  · refine headersAccepted_handles kind closed above (entry_handles same above ?_ ?_) same
    · intro st found done
      by_contra unterminated
      refine malformed (.inr ?_)
      rw [show s.streams.get f.streamId = some st from found]
      simpa [done] using unterminated
    · intro unknown admitted
      have missing : s.streams.contains f.streamId = false := contains_eq_false.mpr unknown
      simp only [missing, Bool.not_false, Bool.true_and, Bool.or_eq_false_iff,
        Bool.not_eq_false', decide_eq_false_iff_not, Nat.not_le] at admitted
      exact admitted

end

theorem continueDiscard_handles (kind : f.kind = Kind.continuation)
    (current : s.core.openHeaderBlock = some f.streamId) (discarding : s.core.discarding = true) :
    Handles active accepting f s.core (s.continueDiscard env f).1.core
      (s.continueDiscard env f).2 := by
  have decoded := decodeDiscardHeaderBlock_decoder s.dec (s.recv.discardHeaderBlock ++ f.payload)
  rw [continueDiscard]
  generalize decodeDiscardHeaderBlock s.dec (s.recv.discardHeaderBlock ++ f.payload) = result at *
  obtain ⟨dec, ok⟩ := result
  subst decoded
  split
  · exact .broken .compressionError
  · refine .continueDiscard kind current discarding ?_
    cases ended : f.has Flag.endHeaders with
    | false =>
      have more : Discards f (s.core.discardBlock ++ f.payload) s.core _ .proceed :=
        .continues ended
      rw [← current, ← discarding] at more
      exact more
    | true =>
      cases ok with
      | true =>
        exact .finished s.recv.discardRstCode ended (rst_resets env (s := { s with
          dec := (s.dec.decodeOctets (s.recv.discardHeaderBlock ++ f.payload)).decoder
          recv := { s.recv with
            openHeaderBlock := none
            discardingHeaderBlock := false
            discardHeaderBlock := []
            discardRstCode := .streamClosed } }) rfl f.streamId s.recv.discardRstCode)
      | false => exact .garbled ended

theorem onContinuation_handles (kind : f.kind = Kind.continuation)
    (current : s.core.openHeaderBlock = some f.streamId) :
    Handles active accepting f s.core (s.onContinuation env f).1.core
      (s.onContinuation env f).2 := by
  rw [onContinuation]
  split
  · rename_i discarding
    exact continueDiscard_handles kind current discarding
  · rename_i discarding
    have kept : s.core.discarding = false := Bool.eq_false_iff.mpr discarding
    cases found : s.streams.get f.streamId with
    | none => exact .broken .protocolError
    | some st =>
      dsimp only
      split_ifs with long ended
      · exact .broken .compressionError
      · obtain ⟨st', redecoded, settles⟩ := decodeInto_settles env
          { s with recv := { s.recv with openHeaderBlock := none } } f.streamId
          { st with headerBlock := [] } (st.headerBlock ++ f.payload)
        exact .continuationEnd st st' kind current kept found ended redecoded settles
      · exact .continuationOpen st kind current kept found (Bool.eq_false_iff.mpr ended)

theorem dataOnClosed_handles (kind : f.kind = Kind.data) (closed : k.openHeaderBlock = none)
    (within : 0 ≤ k.connRecvWindow - f.length) (absent : k.streams.get f.streamId = none)
    (same : s.core = (k.spend f.length).replenish)
    (last : s.recv.lastClientStream = k.lastClientStream) :
    Handles active accepting f k (s.dataOnClosed env f).1.core (s.dataOnClosed env f).2 := by
  rw [dataOnClosed]
  split
  · rw [goaway, core_writeGoaway, same]
    exact .dataIdle .protocolError
  · rename_i idle
    have opened : k.Opened f.streamId := by
      have here := opened_of_notOpened (Bool.eq_false_iff.mpr idle)
      exact ⟨here.1, last ▸ here.2⟩
    split_ifs
    · rw [same]
      exact .dataIgnored kind closed within absent opened
    · exact .dataOnClosed kind closed within absent opened
        (rst_resets env same f.streamId .streamClosed)

theorem reserveBody_eq {inFlight n : Nat} {lease : Option Nat}
    (ok : reserveBody s.recv inFlight st n = some lease) :
    lease = s.core.leaseAfter st.bodyLease n := by
  rw [reserveBody] at ok
  rw [Core.leaseAfter, core]
  cases budget : s.recv.bodyBudget with
  | none =>
    rw [budget] at ok
    cases ok
    rfl
  | some =>
    rw [budget] at ok
    dsimp only at ok
    rw [reserve] at ok
    split_ifs at ok
    · cases ok
      rfl
    · cases ok

theorem core_buffer (s : Session) (sid : StreamId) (st : StreamState) (data : Octets)
    (lease : Option Nat) (ended : Bool) :
    (s.buffer sid { st with bodyLease := lease } data ended).core =
      s.core.buffer sid st data lease ended := by
  rw [buffer, Core.buffer]
  split_ifs <;> first | rfl | contradiction

theorem buffer_found (s : Session) (sid : StreamId) (st : StreamState) (data : Octets)
    (ended : Bool) : ∃ st', (s.buffer sid st data ended).streams.get sid = some st' := by
  rw [buffer]
  split_ifs
  · exact ⟨_, get_put_self ..⟩
  · exact ⟨_, get_put_self ..⟩

theorem receiveData_receives (env : Ambient) (same : s.core = k) (st : StreamState)
    (data : Octets) :
    Receives f data st k (s.receiveData env f st data).1.core
      (s.receiveData env f st data).2 := by
  subst same
  rw [receiveData]
  dsimp only
  by_cases overrun : st.recvWindow < 0
  · rw [if_pos overrun]
    exact .overrun (rst_resets env (core_dropReceiving s f.streamId) f.streamId .flowControlError)
  rw [if_neg overrun]
  split
  · exact .refuted .protocolError (rst_resets env rfl f.streamId .protocolError)
  split
  · cases ended : f.has Flag.endStream with
    | false =>
      obtain ⟨first, resets⟩ := rejectTooLarge_open env s f.streamId "413"
      exact .rejected first resets
    | true =>
      obtain ⟨first, same, told⟩ := rejectTooLarge_done env s f.streamId "413"
      rw [Bool.not_true, same, told]
      exact .answered first ended
  split
  · exact .exhausted
  have progress : (s.noteProgress data).core = s.core := by
    rw [noteProgress]
    split_ifs <;> rfl
  generalize s.noteProgress data = s' at *
  cases reserved : reserveBody s'.recv env.inFlight st data.length with
  | none => exact .refuted .refusedStream (rst_resets env progress f.streamId .refusedStream)
  | some lease =>
    have buffered := core_buffer s' f.streamId st data lease (f.has Flag.endStream)
    obtain ⟨_, found⟩ := buffer_found s' f.streamId { st with bodyLease := lease } data
      (f.has Flag.endStream)
    rw [progress, reserveBody_eq reserved, progress] at buffered
    split_ifs with complete
    · rw [Bool.and_eq_true] at complete
      rw [reserveBody_eq reserved, progress] at found ⊢
      exact .completed (Int.not_lt.mp overrun) complete.1 (complete_completes env found buffered)
    · rw [reserveBody_eq reserved, progress]
      rw [buffered]
      refine .buffered (Int.not_lt.mp overrun) fun ended => ?_
      simpa [ended] using complete

theorem onData_handles (kind : f.kind = Kind.data) (closed : s.core.openHeaderBlock = none) :
    Handles active accepting f s.core (s.onData env f).1.core (s.onData env f).2 := by
  rw [onData]
  cases stripped : dataBlock f with
  | none => exact .broken .protocolError
  | some data =>
    dsimp only
    split
    · exact .dataOverrun
    rename_i overrun
    have within : 0 ≤ s.core.connRecvWindow - f.length := Int.not_lt.mp overrun
    have restored :
        (s.chargeConn f.length).replenishConn.core = (s.core.spend f.length).replenish := by
      rw [replenishConn, Core.replenish]
      split_ifs <;> first | rfl | contradiction
    have last : (s.chargeConn f.length).replenishConn.recv.lastClientStream =
        s.recv.lastClientStream := by
      rw [replenishConn]
      split_ifs <;> rfl
    have streams : (s.chargeConn f.length).replenishConn.streams = s.streams := by
      rw [replenishConn]
      split_ifs <;> rfl
    generalize (s.chargeConn f.length).replenishConn = s' at *
    cases found : s'.streams.get f.streamId with
    | none =>
      rw [streams] at found
      exact dataOnClosed_handles kind closed within found restored last
    | some st =>
      have charged : ({ s' with
          streams := s'.streams.put f.streamId { st with recvWindow := st.recvWindow - f.length }
          } : Session).core =
          { (s.core.spend f.length).replenish with
            streams := s.core.streams.put f.streamId
              { st with recvWindow := st.recvWindow - f.length } } := by
        rw [← restored, streams]
        rfl
      rw [streams] at found
      exact .data st data kind closed within found stripped
        (receiveData_receives env charged _ data)

theorem dispatchKind_handles (continuity : s.badContinuity f = false) :
    Handles active accepting f s.core (s.dispatchKind env active accepting f).1.core
      (s.dispatchKind env active accepting f).2 := by
  have closed (other : f.kind ≠ Kind.continuation) : s.core.openHeaderBlock = none := by
    rw [badContinuity] at continuity
    cases current : s.recv.openHeaderBlock with
    | none => exact current
    | some => simp [current, other] at continuity
  have current (kind : f.kind = Kind.continuation) : s.core.openHeaderBlock = some f.streamId := by
    rw [badContinuity] at continuity
    cases current : s.recv.openHeaderBlock with
    | none => simp [current, kind] at continuity
    | some =>
      rw [core, current]
      simp only [current, kind, bne_self_eq_false, Bool.false_or, bne_eq_false_iff_eq] at continuity
      rw [continuity]
  have control {other : UInt8} (kind : f.kind = other)
      (apart : other ≠ Kind.headers ∧ other ≠ Kind.continuation ∧ other ≠ Kind.data) :
      Control f s.core :=
    ⟨kind ▸ apart.1, kind ▸ apart.2.1, kind ▸ apart.2.2, closed (kind ▸ apart.2.1)⟩
  rw [dispatchKind]
  split_ifs with settings ping window goaway headers continuation data reset priority
  · exact onSettings_handles (control settings (by decide)) settings
  · exact onPing_handles (control ping (by decide))
  · exact onWindowUpdate_handles (control window (by decide)) window
  · exact onGoaway_handles (control goaway (by decide))
  · exact onHeaders_handles headers (closed (by rw [headers]; decide))
  · exact onContinuation_handles continuation (current continuation)
  · exact onData_handles data (closed (by rw [data]; decide))
  · exact onRstStream_handles (control reset (by decide)) reset
  · exact onPriority_handles (control priority (by decide)) priority
  · exact handles_idle ⟨headers, continuation, data, closed continuation⟩

end Session

/-- One frame does to the core what the machine can do. -/
theorem processFrame_handles (env : Ambient) (active : Nat) (accepting : Bool) (s : Session)
    (f : Frame) :
    Core.Handles active accepting f s.core (s.processFrame env active accepting f).1.core
      (s.processFrame env active accepting f).2 := by
  rw [Session.processFrame]
  have counted : s.countFrame.core = s.core := rfl
  dsimp only
  split_ifs with preface budget shape size
  · exact .broken .protocolError
  · exact .broken .enhanceYourCalm
  · exact .broken .protocolError
  · exact .broken .frameSizeError
  · rw [Bool.or_eq_true, not_or, Bool.not_eq_true] at shape
    exact Session.dispatchKind_handles shape.1

end HttpJet.H2
