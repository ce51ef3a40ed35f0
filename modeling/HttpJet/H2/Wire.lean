import HttpJet.H2.Closing
import HttpJet.Hpack.RoundTrip

/-!
# Frames on the wire

What a client sees of one stream: the frame headers of everything queued, in order.  A field block
is a HEADERS frame and the CONTINUATION frames behind it.
-/

namespace HttpJet.H2

open Hpack Hpack.Integer Hpack.StaticTable Library List
open Place (Tame)

variable {sid : StreamId} {h : FrameHeader} {out : List Seg}

theorem flatMap_split {α β : Type} {f : α → List β} {l : List α} (earlier : List β)
    {later : List β} {b : β} (same : l.flatMap f = earlier ++ b :: later) :
    ∃ before a after front back, l = before ++ a :: after ∧ f a = front ++ b :: back ∧
      later = back ++ after.flatMap f := by
  induction l generalizing earlier with
  | nil => exact absurd same (by simp)
  | cons a l ih =>
    rw [flatMap_cons, append_eq_append_iff] at same
    rcases same with ⟨middle, rfl, rest⟩ | ⟨middle, whole, rest⟩
    · obtain ⟨before, a', after, front, back, rfl, inside, rfl⟩ := ih _ rest
      exact ⟨a :: before, a', after, front, back, rfl, inside, rfl⟩
    · cases middle with
      | nil =>
        obtain ⟨before, a', after, front, back, rfl, inside, rfl⟩ :=
          ih [] rest.symm
        exact ⟨a :: before, a', after, front, back, rfl, inside, rfl⟩
      | cons _ middle =>
        obtain ⟨rfl, rfl⟩ := cons_eq_cons.mp rest
        exact ⟨[], a, l, earlier, middle, rfl, whole, rfl⟩

/-- A test that no two places of a list pass. -/
theorem countP_le_one {α : Type} {test : α → Bool} {l : List α}
    (last : ∀ earlier {a later}, l = earlier ++ a :: later → test a = true →
      ∀ b ∈ later, ¬test b = true) : l.countP test ≤ 1 := by
  induction l with
  | nil => exact Nat.zero_le 1
  | cons a l ih =>
    by_cases holds : test a = true
    · have none : l.countP test = 0 :=
        countP_eq_zero.mpr fun b member => last [] rfl holds b member
      rw [countP_cons_of_pos holds, none]
    · rw [countP_cons_of_neg holds]
      refine ih fun earlier {_ _} split => last (a :: earlier) ?_
      rw [split, cons_append]

namespace FrameHeader

/-- HEADERS or DATA of the stream with END_STREAM. -/
def ends (sid : StreamId) (h : FrameHeader) : Bool :=
  h.streamId == sid && (h.kind == Kind.headers || h.kind == Kind.data) &&
    h.flags &&& Flag.endStream != 0

/-- RST_STREAM of the stream, or a frame of it with END_STREAM. -/
def closes (sid : StreamId) (h : FrameHeader) : Bool :=
  h.streamId == sid && h.kind == Kind.rstStream || h.ends sid

/-- CONTINUATION of the stream. -/
def continues (sid : StreamId) (h : FrameHeader) : Bool :=
  h.streamId == sid && h.kind == Kind.continuation

/-- HEADERS, CONTINUATION or DATA of the stream. -/
def speaks (sid : StreamId) (h : FrameHeader) : Bool :=
  h.streamId == sid &&
    (h.kind == Kind.headers || h.kind == Kind.continuation || h.kind == Kind.data)

theorem speaks_of_ends (ends : h.ends sid = true) : h.speaks sid = true := by
  simp only [FrameHeader.ends, Bool.and_eq_true, Bool.or_eq_true] at ends
  simp only [speaks, Bool.and_eq_true, Bool.or_eq_true]
  exact ⟨ends.1.1, ends.1.2.imp .inl id⟩

theorem not_ends_of_continues (continues : h.continues sid = true) : ¬h.ends sid = true := by
  simp only [FrameHeader.continues, Bool.and_eq_true, beq_iff_eq] at continues
  rw [ends, continues.2]
  simp [Kind.continuation, Kind.headers, Kind.data]

end FrameHeader

namespace Seg

variable {seg : Seg}

/-- The head of a final response, as a test. -/
def final (sid : StreamId) : Seg → Bool
  | .fields streamId interim _ _ _ => streamId == sid && !interim
  | _ => false

theorem final_iff : seg.final sid = true ↔ seg.Final sid := by
  cases seg with
  | fields =>
    simp only [final, Final, Bool.and_eq_true, beq_iff_eq, Bool.not_eq_true']
  | _ => exact iff_of_false Bool.false_ne_true id

theorem continuations_continue {rest : List Octets}
    (member : h ∈ (continuations sid rest).map Prod.fst) :
    h.streamId = sid ∧ h.kind = Kind.continuation := by
  induction rest with
  | nil => nomatch member
  | cons _ rest ih =>
    cases rest with
    | nil =>
      obtain rfl := mem_singleton.mp member
      exact ⟨rfl, rfl⟩
    | cons =>
      rcases mem_cons.mp member with rfl | later
      · exact ⟨rfl, rfl⟩
      · exact ih later

/-- Only the segments of a stream's response put HEADERS, CONTINUATION or DATA of it on the
wire. -/
theorem speaks_of_header (member : h ∈ seg.headers) (speaks : h.speaks sid = true) :
    seg.Speaks sid := by
  cases seg with
  | fields =>
    rcases mem_cons.mp member with rfl | later
    · exact beq_iff_eq.mp (Bool.and_eq_true_iff.mp speaks).1
    · have same := (continuations_continue later).1
      rw [Speaks, ← same]
      exact beq_iff_eq.mp (Bool.and_eq_true_iff.mp speaks).1
  | data =>
    obtain rfl := mem_singleton.mp member
    exact beq_iff_eq.mp (Bool.and_eq_true_iff.mp speaks).1
  | body => nomatch member
  | _ =>
    obtain rfl := mem_singleton.mp member
    nomatch (Bool.and_eq_true_iff.mp speaks).2

theorem endStreamFlag_set {endStream : Bool} {more : UInt8} (apart : more &&& Flag.endStream = 0)
    (set : ((endStreamFlag endStream ||| more) &&& Flag.endStream != 0) = true) :
    endStream = true := by
  cases endStream with
  | true => rfl
  | false =>
    have clear : (endStreamFlag false ||| more) &&& Flag.endStream = 0 := by
      rw [endStreamFlag, if_neg Bool.false_ne_true, UInt8.zero_or, apart]
    rw [clear] at set
    nomatch set

/-- A frame that closes the stream comes from a segment that does; only the CONTINUATION
frames of its own block stand behind it in the segment. -/
theorem closes_of_header {front back : List FrameHeader} (inside : seg.headers = front ++ h :: back)
    (closes : h.closes sid = true) :
    seg.Closes sid ∧ (∀ g ∈ back, g.continues sid = true) ∧
      (back ≠ [] → h.kind = Kind.headers) := by
  have single {g : FrameHeader} (only : seg.headers = [g]) : h = g ∧ back = [] := by
    rw [only] at inside
    obtain ⟨rfl, rest⟩ | ⟨front', _, rest⟩ := cons_eq_append_iff.mp inside
    · exact ⟨(cons_eq_cons.mp rest).1, (cons_eq_cons.mp rest).2⟩
    · exact absurd rest (by simp)
  have ends_of (kind : UInt8) (known : h.kind = kind) (other : kind ≠ Kind.rstStream) :
      h.streamId = sid ∧ (kind = Kind.headers ∨ kind = Kind.data) ∧
        (h.flags &&& Flag.endStream != 0) = true := by
    subst known
    simp only [FrameHeader.closes, FrameHeader.ends, Bool.or_eq_true, Bool.and_eq_true,
      beq_iff_eq] at closes
    rcases closes with ⟨_, reset⟩ | ⟨⟨same, carries⟩, set⟩
    · exact absurd reset other
    · exact ⟨same, carries, set⟩
  cases seg with
  | fields streamId _ _ _ rest =>
    obtain ⟨rfl, lead⟩ | ⟨_, rfl, later⟩ := cons_eq_append_iff.mp inside
    · obtain ⟨rfl, rfl⟩ := cons_eq_cons.mp lead
      obtain ⟨rfl, _, set⟩ := ends_of Kind.headers rfl (by decide)
      refine ⟨⟨rfl, endStreamFlag_set ?_ set⟩, ?_, fun _ => rfl⟩
      · cases rest.isEmpty <;> rfl
      · intro g member
        obtain ⟨same, kind⟩ := continuations_continue member
        rw [FrameHeader.continues, same, kind]
        exact Bool.and_eq_true_iff.mpr ⟨beq_self_eq_true _, rfl⟩
    · have member : h ∈ (continuations streamId rest).map Prod.fst := by
        rw [later]
        exact mem_append_right _ mem_cons_self
      obtain ⟨same, kind⟩ := continuations_continue member
      obtain ⟨_, carries, _⟩ := ends_of Kind.continuation kind (by decide)
      exact absurd carries (by decide)
  | data _ _ endStream =>
    obtain ⟨rfl, rfl⟩ := single rfl
    obtain ⟨rfl, _, _⟩ := ends_of Kind.data rfl (by decide)
    have set' : ((Seg.endStreamFlag endStream ||| 0) &&& Flag.endStream != 0) = true := by
      rwa [UInt8.or_zero]
    exact ⟨⟨rfl, endStreamFlag_set rfl set'⟩, fun _ member => (not_mem_nil member).elim,
      absurd rfl⟩
  | rstStream streamId =>
    obtain ⟨rfl, rfl⟩ := single rfl
    have same : streamId = sid := by
      simpa [FrameHeader.closes, FrameHeader.ends, Kind.rstStream, Kind.headers, Kind.data]
        using closes
    exact ⟨same, fun _ member => (not_mem_nil member).elim, absurd rfl⟩
  | body => exact absurd inside (by simp [headers, frames])
  | _ =>
    obtain ⟨rfl, _⟩ := single rfl
    exact absurd closes (by simp [FrameHeader.closes, FrameHeader.ends, Kind.headers, Kind.data,
      Kind.rstStream, Kind.settings, Kind.ping, Kind.windowUpdate, Kind.goaway])

end Seg

/-- The frame headers of a queue, in order. -/
def wire (out : List Seg) : List FrameHeader := out.flatMap Seg.headers

section

variable (orderly : out.Pairwise fun first second => first.Closes sid → ¬second.Speaks sid)
include orderly

/-- What is on the wire behind a frame that closes a stream: the rest of that frame's own
field block, and then no part of a response on that stream. -/
theorem after_close {earlier later : List FrameHeader}
    (split : wire out = earlier ++ h :: later) (closes : h.closes sid = true) :
    ∃ block rest, later = block ++ rest ∧ (∀ g ∈ block, g.continues sid = true) ∧
      (block ≠ [] → h.kind = Kind.headers) ∧ ∀ g ∈ rest, g.speaks sid = false := by
  obtain ⟨_, _, after, _, back, rfl, inside, rfl⟩ := flatMap_split earlier split
  obtain ⟨closed, block, only⟩ := Seg.closes_of_header inside closes
  refine ⟨back, after.flatMap Seg.headers, rfl, block, only, ?_⟩
  intro g member
  obtain ⟨_, behind, found⟩ := mem_flatMap.mp member
  rw [← Bool.not_eq_true]
  intro speaks
  have apart := (pairwise_append.mp orderly).2.1
  exact rel_of_pairwise_cons apart behind closed (Seg.speaks_of_header found speaks)

theorem ends_once : (wire out).countP (FrameHeader.ends sid) ≤ 1 := by
  refine countP_le_one fun _ {_ _} split ends g member again => ?_
  obtain ⟨_, _, rfl, continues, _, silent⟩ :=
    after_close orderly split (by rw [FrameHeader.closes, ends, Bool.or_true])
  rcases mem_append.mp member with inside | behind
  · exact FrameHeader.not_ends_of_continues (continues g inside) again
  · exact Bool.false_ne_true ((silent g behind).symm.trans (FrameHeader.speaks_of_ends again))

end

theorem final_once (once : out.Pairwise fun first second => first.Final sid → ¬second.Final sid) :
    out.countP (Seg.final sid) ≤ 1 := by
  refine countP_le_one fun _ {_ _} split final seg member again => ?_
  rw [split] at once
  have apart := (pairwise_append.mp once).2.1
  exact rel_of_pairwise_cons apart member (Seg.final_iff.mp final) (Seg.final_iff.mp again)

namespace Conn

theorem run_spoken (config : Config) (sid : StreamId) (events : List Event)
    (tame : Obeys config (fun f k => Tame sid f k.lastClientStream) events) :
    ((linkOf config events).place.strand sid).Spoken sid := by
  have silent {seg : Seg} (member : seg ∈ preamble config) : ¬seg.On sid := by
    obtain ⟨_, rfl⟩ | ⟨_, rfl⟩ := mem_preamble member <;> exact id
  have reached := place_invariant (fun p => p.Placed ∧ (p.strand sid).Spoken sid) (Tame sid)
    (fun tame raised dependent same => (tame dependent same).imp_left (le_trans · raised))
    ⟨PlacedAt.fresh, .of_none fun _ member closes => silent member closes.on,
      .of_none fun _ member final => silent member final.speaks.on⟩
    (fun holds tame trip => ⟨trip.placed holds.1, (trip.turn holds.1 sid).spoken (holds.1.sane sid)
      (fun stray => tame stray.1 stray.2) holds.2⟩)
    (fun holds acts => ⟨acts.placed holds.1, (acts.turn holds.1 sid).spoken (holds.1.sane sid)
      False.elim holds.2⟩) events tame 0
  exact reached.2

/-- In every run, behind RST_STREAM or a frame with END_STREAM of a stream the wire carries at most
the CONTINUATION frames that complete that frame's own field block, and then no HEADERS,
CONTINUATION or DATA of the stream; END_STREAM is sent at most once, and at most one final header
block.  The client does not make the stream depend on itself while it is idle. -/
theorem run_silent_after_close (config : Config) (events : List Event) (sid : StreamId)
    (tame : Obeys config (fun f k => Tame sid f k.lastClientStream) events) :
    (∀ earlier h later, wire (run config events).session.out = earlier ++ h :: later →
      h.closes sid = true →
      ∃ block rest, later = block ++ rest ∧ (∀ g ∈ block, g.continues sid = true) ∧
        (block ≠ [] → h.kind = Kind.headers) ∧ ∀ g ∈ rest, g.speaks sid = false) ∧
    (wire (run config events).session.out).countP (FrameHeader.ends sid) ≤ 1 ∧
    (run config events).session.out.countP (Seg.final sid) ≤ 1 := by
  have spoken := run_spoken config sid events tame
  exact ⟨fun _ _ _ => after_close spoken.closed.apart, ends_once spoken.closed.apart,
    final_once spoken.answered.apart⟩

/-- The client's SETTINGS, and a request for the root path without a body. -/
def askRequest : List Event :=
  [inbound Kind.settings 0 0 [],
    inbound Kind.headers (Flag.endHeaders ||| Flag.endStream) 1 [0x82, 0x84, 0x87]]

/-- A response to such a request, and a reset of the stream behind it. -/
theorem run_silent_after_response :
    (wire (run smallConfig (askRequest ++ [.handler 0 ⟨200, [], .empty⟩,
      inbound Kind.rstStream 0 1 [0, 0, 0, 8]])).session.out).countP (FrameHeader.ends 1) = 1 ∧
    (wire (run smallConfig (askRequest ++ [.handler 0 ⟨200, [], .empty⟩,
      inbound Kind.rstStream 0 1 [0, 0, 0, 8]])).session.out).countP (FrameHeader.ends 1) ≤ 1 := by
  refine ⟨by decide +kernel, (run_silent_after_close smallConfig _ 1 ?_).2.1⟩
  refine Obeys.of_frames fun {f now inFlight} member k dependent => ?_
  have plain : f.kind = Kind.settings ∨ f.kind = Kind.headers ∨ f.kind = Kind.rstStream := by
    rcases mem_append.mp member with asked | rest
    · simp only [askRequest, inbound, mem_cons, Event.frame.injEq, not_mem_nil, or_false] at asked
      rcases asked with ⟨rfl, _⟩ | ⟨rfl, _⟩
      · exact .inl rfl
      · exact .inr (.inl rfl)
    · simp only [inbound, mem_cons, Event.frame.injEq, not_mem_nil, or_false,
        reduceCtorEq, false_or] at rest
      obtain ⟨rfl, _⟩ := rest
      exact .inr (.inr rfl)
  rw [dependent.1] at plain
  exact absurd plain (by decide)

/-- An idle stream made to depend on itself is reset on the wire, and can still be opened and
answered. -/
theorem idle_stream_outlives_reset :
    ((wire
      (run smallConfig [inbound Kind.settings 0 0 [], inbound Kind.priority 0 1 [0, 0, 0, 1, 16],
      inbound Kind.headers (Flag.endHeaders ||| Flag.endStream) 1 [0x82, 0x84, 0x87],
      .handler 0 ⟨200, [], .empty⟩]).session.out).filter (·.streamId == 1)).map FrameHeader.kind =
    [Kind.rstStream, Kind.headers] := by
  decide +kernel

/-! ### A header block of several frames -/

/-- A response without a body whose field lines do not fit one frame. -/
def crowdedResponse : Response := ⟨200, List.replicate 16384 (ascii "x", []), .empty⟩

theorem getAll_crowded {name : Octets} (other : (ascii "x" == name) = false) :
    Headers.getAll crowdedResponse.headers name = [] := by
  rw [Headers.getAll, crowdedResponse, filter_replicate_of_neg (by simp [other])]
  rfl

theorem remove_crowded {name : Octets} (other : (ascii "x" == name) = false) :
    Headers.remove crowdedResponse.headers name = crowdedResponse.headers := by
  rw [Headers.remove, crowdedResponse, filter_replicate_of_pos (by simp [bne, other])]

theorem responseHeaders_crowded :
    responseHeaders smallConfig.parsers false crowdedResponse = crowdedResponse.headers := by
  have named : connectionNamed smallConfig.parsers crowdedResponse.headers = [] := by
    rw [connectionNamed, getAll_crowded (by decide)]
    rfl
  have stripped : stripHopByHopResponse smallConfig.parsers crowdedResponse.headers =
      crowdedResponse.headers := by
    rw [stripHopByHopResponse, named]
    simp only [foldl_nil, foldl_cons]
    rw [remove_crowded (by decide), remove_crowded (by decide), remove_crowded (by decide),
      remove_crowded (by decide), remove_crowded (by decide), remove_crowded (by decide)]
  rw [responseHeaders, stripped]
  have unchanged : sanitizeBodyHeaders crowdedResponse.headers false 200 false =
      crowdedResponse.headers := by
    rw [sanitizeBodyHeaders, if_neg (by decide), getAll_crowded (by decide)]
  exact unchanged

theorem splitBlock_cons (max fuel : Nat) (rest : Octets) :
    ∃ chunk chunks, splitBlock max fuel rest = chunk :: chunks := by
  cases fuel with
  | zero => exact ⟨_, _, rfl⟩
  | succ =>
    rw [splitBlock]
    split_ifs
    · exact ⟨_, _, rfl⟩
    · exact ⟨_, _, rfl⟩

theorem writeHead_long (c : Conn) (sid : StreamId) (interim endStream : Bool) (fields : List Field)
    (long : max c.session.peer.maxFrameSize 1 < fields.length) :
    ∃ first chunk chunks, (c.writeHead sid interim endStream fields).session.out =
      c.session.out ++ [.fields sid interim endStream first (chunk :: chunks)] := by
  have octets := Sync.encodeBlock_length c.session.enc c.session.memo fields
  have written : (c.writeHead sid interim endStream fields).session.out = c.session.out ++
      [writeFieldBlock sid interim endStream (c.session.enc.encodeBlock c.session.memo fields).2.2
        (max c.session.peer.maxFrameSize 1)] := rfl
  rw [written]
  generalize (c.session.enc.encodeBlock c.session.memo fields).2.2 = block at octets
  rw [writeFieldBlock, if_neg (by omega)]
  obtain ⟨chunk, chunks, split⟩ := splitBlock_cons (max (max c.session.peer.maxFrameSize 1) 1)
    block.length (block.drop (max (max c.session.peer.maxFrameSize 1) 1))
  rw [split]
  exact ⟨_, chunk, chunks, rfl⟩

theorem beginResponse_crowded {c : Conn} (limit : c.session.peer.maxFrameSize = 16384) :
    ∃ first chunk chunks,
      (c.beginResponse smallConfig.parsers 1 false crowdedResponse).session.out =
      c.session.out ++ [.fields 1 false true first (chunk :: chunks)] := by
  have unhinted : c.earlyHints 1 crowdedResponse.status crowdedResponse.headers = c := by
    rw [earlyHints, getAll_crowded (by decide)]
    exact if_neg fun hinted => hinted.2.2 rfl
  have length : crowdedResponse.headers.length = 16384 := length_replicate
  have headersOnly : opening false crowdedResponse = .headersOnly := rfl
  rw [beginResponse, responseHeaders_crowded, headersOnly, unhinted]
  generalize crowdedResponse.headers = headers at length
  refine (c.takeCredit 1).writeHead_long 1 false true _ ?_
  rw [length_cons, length]
  exact lt_of_le_of_lt (le_of_eq (congrArg (max · 1) limit)) (by decide)

/-- Behind its HEADERS frame with END_STREAM, the response goes on with a CONTINUATION
frame. -/
theorem end_stream_then_continuation :
    ∃ earlier h g later,
      wire (run smallConfig (askRequest ++ [.handler 0 crowdedResponse])).session.out =
        earlier ++ h :: g :: later ∧ h.ends 1 = true ∧ g.continues 1 = true := by
  have running : (run smallConfig askRequest).session.inflight = [⟨1, false, false⟩] ∧
      (run smallConfig askRequest).session.cancelled = [] ∧
      (run smallConfig askRequest).session.peer.maxFrameSize = 16384 := by decide +kernel
  obtain ⟨task, wanted, limit⟩ := running
  rw [run_concat, step, onHandler, task]
  dsimp only [getElem?_cons_zero]
  rw [wanted, if_neg (by decide)]
  obtain ⟨_, _, chunks, out⟩ := beginResponse_crowded (c := { run smallConfig askRequest with
    session := { (run smallConfig askRequest).session with
      inflight := [⟨1, false, false⟩].eraseIdx 0
      inflightSids := (run smallConfig askRequest).session.inflightSids.erase 1
      cancelled := [].erase 1 } }) limit
  have ends (n : Nat) :
      FrameHeader.ends 1 ⟨n, Kind.headers, Seg.endStreamFlag true ||| 0, 1⟩ = true := by
    simp [FrameHeader.ends, Seg.endStreamFlag, Flag.endStream]
  rw [out, wire, flatMap_append]
  cases chunks with
  | nil => exact ⟨_, _, _, [], rfl, ends _, rfl⟩
  | cons => exact ⟨_, _, _, _, rfl, ends _, rfl⟩

end Conn

end HttpJet.H2
