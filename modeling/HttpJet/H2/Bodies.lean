import HttpJet.H2.Delivery

/-!
# Bodies are delivered intact

END_STREAM goes out with the frame that completes the body, or behind it on an empty frame when
the end is found late, or on the header block where there is no body.
-/

namespace HttpJet.H2

open Hpack.Integer Library List
open Hpack.StaticTable (ascii)
open Strand (Turn)

variable {sid : StreamId}

/-- A header block with END_STREAM. -/
def Seg.EndedHead (sid : StreamId) : Seg → Prop
  | .fields streamId _ endStream _ _ => streamId = sid ∧ endStream = true
  | _ => False

theorem Seg.EndedHead.ends {seg : Seg} (head : seg.EndedHead sid) : seg.Ends sid := by
  cases seg with
  | fields => exact head
  | _ => exact head.elim

theorem Seg.Ends.speaks {seg : Seg} (ends : seg.Ends sid) : seg.Speaks sid := by
  cases seg with
  | fields | data => exact ends.1
  | _ => exact ends.elim

namespace Strand

variable {s s' : Strand} {stray peer : Prop}

/-! ## What END_STREAM says -/

/-- All of the body is out, and no more is to come. -/
structure Whole (sid : StreamId) (s : Strand) : Prop where
  dead : s.Dead sid
  sent : payloads sid s.out = bodyOf sid s.notes
  known : Begun sid s.notes → complete sid s.notes = true

structure Finished (sid : StreamId) (s : Strand) : Prop where
  ended : Seals (Seg.Ends sid) (Seg.Speaks sid) (Whole sid) s
  heads : Seals (Seg.EndedHead sid) (fun _ => False)
    (fun s => Whole sid s ∧ bodyOf sid s.notes = []) s

section

variable (turn : Turn sid stray peer s s') (sane : s.Sane) (delivered : s.Delivered sid)
include turn delivered

/-- Nothing more is told of a body that is whole: no pull of it is out. -/
theorem Turn.alike (whole : s.Whole sid) : Alike sid s.notes s'.notes := by
  have drawn {st : OutStream} (found : s.response = some st) : ¬0 < s.pulls := fun waiting => by
    have eof := (delivered.sending found).2.trans (whole.known (delivered.begun found))
    exact Bool.false_ne_true ((delivered.pulling found waiting).2.symm.trans eof)
  cases turn with
  | rests rests =>
    obtain ⟨taken, notes, foreign⟩ := rests.notes
    exact notes ▸ .of_foreign foreign
  | begins _ _ _ _ _ _ _ _ waited => exact absurd waited whole.dead.left
  | delivers _ _ found waiting | finishes _ found waiting => exact absurd waiting (drawn found)
  | credits | parks | unsettles => exact .of_quiet (forall_mem_singleton.mpr ⟨rfl, rfl, rfl⟩)
  | _ => exact .refl

include sane

theorem Turn.whole (whole : s.Whole sid) :
    s'.Whole sid ∧ bodyOf sid s'.notes = bodyOf sid s.notes := by
  obtain ⟨segs, wrote⟩ := turn.wrote sane
  have same : payloads sid s'.out = payloads sid s.out := by
    rw [wrote.out]
    exact wrote.writes.payloads_eq _ fun seg member carries =>
      (wrote.fits seg member).speaks carries.speaks whole.dead
  have alike := turn.alike delivered whole
  exact ⟨⟨turn.dead whole.dead, same.trans (whole.sent.trans alike.body.symm),
    fun begun => alike.known.trans (whole.known (alike.begun.mp begun))⟩, alike.body⟩

theorem Turn.finished (finished : s.Finished sid) : s'.Finished sid := by
  have delivered' := turn.delivered sane delivered
  obtain ⟨segs, wrote⟩ := turn.wrote sane
  -- A frame with END_STREAM is an answer without a body or drains the response.
  have ends (seg : Seg) (member : seg ∈ segs) (ends : seg.Ends sid) :
      s'.Whole sid ∧ (seg.EndedHead sid → bodyOf sid s'.notes = []) := by
    have dead := (wrote.fits seg member).closes ends.closes fun _ open_ => absurd ends open_
    have none (body : bodyOf sid s'.notes = []) : payloads sid s'.out = bodyOf sid s'.notes := by
      rw [body]
      exact prefix_nil.mp (body ▸ delivered'.intact)
    cases (wrote.fits seg member).ends ends with
    | unserved waited same =>
      have waits := delivered.waiting (.inr waited)
      have body : bodyOf sid s'.notes = [] := same ▸ (delivered.blank waits).1
      exact ⟨⟨dead, none body, fun begun => absurd (same ▸ begun) waits⟩, fun _ => body⟩
    | bodiless isHead answer offered waited opens noted =>
      obtain ⟨entity, pulled⟩ := Response.of_headersOnly opens
      have body : bodyOf sid s'.notes = [] := by
        rw [noted, bodyOf_concat, (delivered.blank (delivered.waiting (.inr waited))).1, Note.bytes,
          if_pos rfl, entity]
        rfl
      refine ⟨⟨dead, none body, fun _ => ?_⟩, fun _ => body⟩
      rw [noted, complete_concat, Note.completes, beq_self_eq_true, pulled]
      exact Bool.or_true _
    | drained st found empty eof =>
      obtain ⟨whole, known⟩ := delivered'.sending found
      rw [empty, append_nil] at whole
      exact ⟨⟨dead, whole, fun _ => known.symm.trans eof⟩, False.elim⟩
  constructor
  · exact finished.ended.write wrote.out (fun whole => (turn.whole sane delivered whole).1)
      (fun seg member end_ => (ends seg member end_).1)
      (fun whole seg member speaks => (wrote.fits seg member).speaks speaks whole.dead)
      (wrote.last.imp fun last ends speaks => last (.inl ends.closes) speaks.on)
  · exact finished.heads.write wrote.out
      (fun both => (turn.whole sane delivered both.1).imp_right fun same => same.trans both.2)
      (fun seg member head => (ends seg member head.ends).imp_right fun body => body head)
      (fun _ _ _ => id) (wrote.last.imp fun _ _ => id)

end

/-! ## Responses under way -/

/-- A response that began is ended or being sent, unless its stream was reset. -/
def Lives (sid : StreamId) (s : Strand) : Prop :=
  (∀ error, Seg.rstStream sid error ∉ s.out) → Begun sid s.notes →
    (∃ seg ∈ s.out, seg.Ends sid) ∨ ∃ st, s.response = some st ∧ st.done = false

theorem Lives.move {segs : List Seg} (lives : s.Lives sid) (out : s'.out = s.out ++ segs)
    (begun : Begun sid s'.notes → Begun sid s.notes)
    (alive : (∀ error, Seg.rstStream sid error ∉ segs) → ∀ {st}, s.response = some st →
      st.done = false → (∃ seg ∈ segs, seg.Ends sid) ∨
        ∃ st', s'.response = some st' ∧ st'.done = false) : s'.Lives sid := by
  intro unreset begun'
  rw [out] at unreset
  rw [out]
  rcases lives (fun error member => unreset error (mem_append_left _ member)) (begun begun') with
    ⟨seg, member, ends⟩ | ⟨st, found, live⟩
  · exact .inl ⟨seg, mem_append_left _ member, ends⟩
  · rcases alive (fun error member => unreset error (mem_append_right _ member)) found live with
      ⟨seg, member, ends⟩ | ongoing
    · exact .inl ⟨seg, mem_append_right _ member, ends⟩
    · exact .inr ongoing

theorem Turn.lives (turn : Turn sid stray peer s s') (sane : s.Sane) (kept : ¬peer)
    (lives : s.Lives sid) : s'.Lives sid := by
  have unopened {taken : List Note} (quiet : ∀ n ∈ taken, n.opensOn sid = false)
      (begun : Begun sid (s.notes ++ taken)) : Begun sid s.notes :=
    (begun_append.mp begun).resolve_right fun ⟨n, member, opens⟩ =>
      Bool.false_ne_true ((quiet n member).symm.trans opens)
  cases turn with
  | rests rests =>
    obtain ⟨segs, out, _⟩ := rests.out
    obtain ⟨taken, notes, foreign⟩ := rests.notes
    exact lives.move out (notes ▸ (Alike.of_foreign foreign).begun.mp)
      fun _ _ found live => .inr ⟨_, rests.response.trans found, live⟩
  | hints segs => exact lives.move rfl id fun _ _ found live => .inr ⟨_, found, live⟩
  | answers _ _ waited =>
    exact lives.move rfl id fun _ _ found => absurd waited (sane.sending found).2
  | resets error =>
    exact lives.move rfl id fun unreset => absurd (mem_singleton_self _) (unreset error)
  | gives why =>
    obtain ⟨st, found, done⟩ := why.resolve_left kept
    refine lives.move (append_nil _).symm id fun _ _ found' live => ?_
    cases found.symm.trans found'
    nomatch live.symm.trans done
  | begins _ _ shape _ hints _ first rest _ _ registered =>
    intro _ _
    cases shape with
    | headersOnly =>
      exact .inl ⟨.fields sid false true first rest, mem_append_right _
        (mem_append_right _ (mem_singleton_self _)), rfl, rfl⟩
    | register => exact .inr ⟨_, registered, rfl⟩
  | sends st n found live written sent =>
    refine lives.move written id fun _ _ _ _ => ?_
    by_cases last : (st.eof && (st.pending.drop n).isEmpty) = true
    · exact .inl ⟨_, mem_cons_self, rfl, last⟩
    · exact .inr ⟨_, sent, Bool.eq_false_iff.mpr last⟩
  | pulls st found _ _ changed =>
    refine lives.move (append_nil _).symm id fun _ _ found' live => ?_
    cases found.symm.trans found'
    exact .inr ⟨_, changed, live⟩
  | delivers st _ found _ changed | finishes st found _ changed | credits st _ found changed =>
    refine lives.move (append_nil _).symm (unopened (forall_mem_singleton.mpr rfl))
      fun _ _ found' live => ?_
    cases found.symm.trans found'
    exact .inr ⟨_, changed, live⟩
  | returns back | shifts _ back =>
    refine lives.move (append_nil _).symm id fun _ _ found live => ?_
    exact .inr ⟨_, back.trans (congrArg (Option.map _) found), live⟩
  | parks | unsettles =>
    exact lives.move (append_nil _).symm (unopened (forall_mem_singleton.mpr rfl))
      fun _ _ found live => .inr ⟨_, found, live⟩

end Strand

namespace Conn

/-! ## Runs -/

section

variable (config : Config) (sid : StreamId) (events : List Event) (visits : Nat)

theorem run_delivered :
    let p := ((visited config events visits).link (notes config events)).place
    (p.strand sid).Delivered sid ∧ (p.strand sid).Finished sid ∧ Paired p.out := by
  have silent (seg : Seg) (member : seg ∈ preamble config) : seg.Bare ∧ ¬seg.On sid := by
    obtain ⟨_, rfl⟩ | ⟨_, rfl⟩ := mem_preamble member <;> exact ⟨trivial, id⟩
  have empty (seg : Seg) (member : seg ∈ preamble config) : ¬seg.Carries sid :=
    fun carries => (silent seg member).2 carries.speaks.on
  have start : (((fresh config).link []).place.strand sid).Delivered sid := by
    refine ⟨fun _ begun => ?_, fun _ => ⟨rfl, rfl, empty⟩, fun _ => ⟨rfl, rfl⟩, ?_, (nomatch ·),
      Nat.zero_le 1, (nomatch ·)⟩
    · obtain ⟨_, member, _⟩ := begun
      nomatch member
    · exact ⟨[], (append_nil _).trans (payloads_of_empty empty)⟩
  have none : Paired [] := fun _ _ _ _ _ split => absurd split (by simp)
  have reached := place_invariant
    (fun p => p.Placed ∧ (p.strand sid).Delivered sid ∧ (p.strand sid).Finished sid ∧
      Paired (p.strand sid).out)
    (fun _ _ => True) (fun _ _ => trivial)
    ⟨PlacedAt.fresh, start, ⟨.of_none fun seg member ends => (silent seg member).2 ends.speaks.on,
      .of_none fun seg member head => (silent seg member).2 head.ends.speaks.on⟩,
      (Writes.bare fun seg member => (silent seg member).1).paired none⟩
    (fun {f p p'} holds _ trip => by
      obtain ⟨placed, delivered, finished, paired⟩ := holds
      have turn := trip.turn placed sid
      obtain ⟨_, wrote⟩ := turn.wrote (placed.sane sid)
      exact ⟨trip.placed placed, turn.delivered (placed.sane sid) delivered,
        turn.finished (placed.sane sid) delivered finished, wrote.out ▸ wrote.writes.paired paired⟩)
    (fun {l l'} holds acts => by
      obtain ⟨placed, delivered, finished, paired⟩ := holds
      have turn := acts.turn placed sid
      obtain ⟨_, wrote⟩ := turn.wrote (placed.sane sid)
      exact ⟨acts.placed placed, turn.delivered (placed.sane sid) delivered,
        turn.finished (placed.sane sid) delivered finished, wrote.out ▸ wrote.writes.paired paired⟩)
    events (Obeys.always events) visits
  exact reached.2

theorem run_lives
    (peer : ∀ f ∈ fedFrames config events, f.kind = Kind.rstStream → f.streamId ≠ sid) :
    (((visited config events visits).link (notes config events)).place.strand sid).Lives sid := by
  have start : (((fresh config).link []).place.strand sid).Lives sid := by
    rintro _ ⟨_, member, _⟩
    nomatch member
  have reached := place_invariant (fun p => p.Placed ∧ (p.strand sid).Lives sid)
    (fun f _ => f.kind = Kind.rstStream → f.streamId ≠ sid) (fun peer _ => peer)
    ⟨PlacedAt.fresh, start⟩
    (fun holds peer trip => ⟨trip.placed holds.1, (trip.turn holds.1 sid).lives (holds.1.sane sid)
      (fun resets => peer resets.1 resets.2) holds.2⟩)
    (fun holds acts => ⟨acts.placed holds.1, (acts.turn holds.1 sid).lives (holds.1.sane sid) id
      holds.2⟩) events (.of_fed fun f fed _ => peer f fed) visits
  exact reached.2

end

theorem end_stream_iff {c : Conn} {taken : List Note} {sid : StreamId}
    (delivered : ((c.link taken).place.strand sid).Delivered sid) {n : Nat} {last : Bool}
    {rest : List Seg}
    (written : c.pumpVisit.1.session.out = c.session.out ++ .data sid n last :: rest) :
    last = true ↔ complete sid taken = true ∧
      payloads sid c.pumpVisit.1.session.out = bodyOf sid taken := by
  rcases c.pumpVisit_pumps with silent | ⟨_, st, _, found, _, pumps, wrote⟩
  · exact absurd (silent.symm.trans written) (by simp)
  · rw [wrote] at written ⊢
    have headed : leadingBody (.data sid n last :: rest) = [] := rfl
    have same := append_cancel_left written
    rw [same, payloads_append headed]
    cases pumps with
    | nothing => nomatch same
    | payload =>
      obtain ⟨head, rfl⟩ := cons_eq_cons.mp same
      cases head
      obtain ⟨whole, known⟩ := delivered.sending found
      change payloads sid c.session.out ++ st.pending = bodyOf sid taken at whole
      change st.eof = complete sid taken at known
      have chunk : payloads sid [.data sid n (st.eof && (st.pending.drop n).isEmpty),
          .body (st.pending.take n)] = st.pending.take n := by
        rw [payloads, if_pos rfl]
        change st.pending.take n ++ [] ++ [] = st.pending.take n
        rw [append_nil, append_nil]
      rw [chunk, ← known, ← whole, Bool.and_eq_true, List.isEmpty_iff, append_right_inj,
        drop_eq_nil_iff, take_eq_self_iff]
    | last empty eof =>
      obtain ⟨head, rfl⟩ := cons_eq_cons.mp same
      cases head
      obtain ⟨whole, known⟩ := delivered.sending found
      rw [empty] at whole
      refine iff_of_true rfl ⟨known.symm.trans eof, ?_⟩
      rw [payloads, if_pos rfl]
      exact whole

/-- In every run, at every moment of it: every DATA header declares the payload behind it, and for
every stream at most one pull is out; the payloads are a prefix of the body of the response; a
frame with END_STREAM completes it, END_STREAM on a header block means that there is none, and no
DATA and no other END_STREAM follows; the next DATA frame has END_STREAM exactly if it completes
the body.  A response that began has had its END_STREAM or is still being sent, unless the peer
or the server reset its stream. -/
theorem run_bodies_intact (config : Config) (events : List Event) (visits : Nat) :
    Paired (visited config events visits).session.out ∧
    ∀ sid, (visited config events visits).pulls.count sid ≤ 1 ∧
      payloads sid (visited config events visits).session.out <+: bodyOf sid (notes config events) ∧
      (∀ before seg after, (visited config events visits).session.out = before ++ seg :: after →
        seg.Ends sid →
        payloads sid (visited config events visits).session.out = bodyOf sid (notes config events) ∧
          (Begun sid (notes config events) → complete sid (notes config events) = true) ∧
          ∀ later ∈ after, ¬later.Ends sid ∧ ¬later.Carries sid) ∧
      (∀ interim first rest,
        .fields sid interim true first rest ∈ (visited config events visits).session.out →
        bodyOf sid (notes config events) = []) ∧
      (∀ n last rest, (visited config events (visits + 1)).session.out =
          (visited config events visits).session.out ++ .data sid n last :: rest →
        (last = true ↔ complete sid (notes config events) = true ∧
          payloads sid (visited config events (visits + 1)).session.out =
            bodyOf sid (notes config events))) ∧
      ((∀ f ∈ fedFrames config events, f.kind = Kind.rstStream → f.streamId ≠ sid) →
        (∀ error, .rstStream sid error ∉ (visited config events visits).session.out) →
        Begun sid (notes config events) →
        (∃ seg ∈ (visited config events visits).session.out, seg.Ends sid) ∨
          ∃ st, (visited config events visits).outstreams.get sid = some st ∧ st.done = false) := by
  refine ⟨(run_delivered config 0 events visits).2.2, fun sid => ?_⟩
  obtain ⟨delivered, finished, _⟩ := run_delivered config sid events visits
  refine ⟨delivered.single, delivered.intact, ?_, fun _ _ _ member =>
    (finished.heads.sealed _ member ⟨rfl, rfl⟩).2, ?_, ?_⟩
  · intro before seg after split ends
    have member : seg ∈ (visited config events visits).session.out := by
      rw [split]
      exact mem_append_right _ mem_cons_self
    have whole := finished.ended.sealed seg member ends
    have apart := finished.ended.apart
    change (visited config events visits).session.out.Pairwise _ at apart
    rw [split] at apart
    have behind := (pairwise_append.mp apart).2.1
    refine ⟨whole.sent, whole.known, fun later member => ?_⟩
    have silent := rel_of_pairwise_cons behind member ends
    exact ⟨fun again => silent again.speaks, fun carries => silent carries.speaks⟩
  · have next : visited config events (visits + 1) = (visited config events visits).pumpVisit.1 :=
      Function.iterate_succ_apply' ..
    rw [next]
    exact fun n last rest written => end_stream_iff delivered written
  · exact fun peer => run_lives config sid events visits peer

/-- The client's SETTINGS with an initial window of two, and a request whose response has five
bytes: two are sent, and the others after a WINDOW_UPDATE. -/
def splitResponse : List Event :=
  [inbound Kind.settings 0 0 [0, 4, 0, 0, 0, 2],
    inbound Kind.headers (Flag.endHeaders ||| Flag.endStream) 1 [0x82, 0x84, 0x87],
    .handler 0 ⟨200, [], .full (ascii "hello")⟩, .pump, inbound Kind.windowUpdate 0 1 [0, 0, 0, 3],
    .pump]

/-- The five bytes go out in two DATA frames, and the second has END_STREAM. -/
theorem splitResponse_delivered : let out := (run smallConfig splitResponse).session.out
    out.drop 3 = [.data 1 2 false, .body (ascii "he"), .data 1 3 true, .body (ascii "llo")] ∧
    payloads 1 out = bodyOf 1 (notes smallConfig splitResponse) ∧
    bodyOf 1 (notes smallConfig splitResponse) = ascii "hello" := by
  have last : (run smallConfig splitResponse).session.out.drop 3 =
      [.data 1 2 false, .body (ascii "he"), .data 1 3 true, .body (ascii "llo")] := by
    decide +kernel
  have split : (run smallConfig splitResponse).session.out =
      (run smallConfig splitResponse).session.out.take 5 ++
        [.data 1 3 true, .body (ascii "llo")] := by
    decide +kernel
  exact ⟨last, (((run_bodies_intact smallConfig splitResponse 0).2 1).2.2.1 _ _ _ split
    ⟨rfl, rfl⟩).1, by decide +kernel⟩

end Conn

end HttpJet.H2
