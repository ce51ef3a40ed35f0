import HttpJet.H2.Strands

/-!
# Closed streams stay silent

Once RST_STREAM or END_STREAM is written for a stream, no response could be written from where it
is: it is not awaited, and the rest of its response is done.
-/

namespace HttpJet.H2

open Hpack.Integer Library List
open Strand (Turn)

variable {sid : StreamId} {seg : Seg} {segs : List Seg}

namespace Seg

/-- A frame with END_STREAM. -/
def Ends (sid : StreamId) : Seg → Prop
  | .fields streamId _ endStream _ _ => streamId = sid ∧ endStream = true
  | .data streamId _ endStream => streamId = sid ∧ endStream = true
  | _ => False

/-- RST_STREAM, or a frame with END_STREAM. -/
def Closes (sid : StreamId) : Seg → Prop
  | .rstStream streamId _ => streamId = sid
  | .fields streamId _ endStream _ _ => streamId = sid ∧ endStream = true
  | .data streamId _ endStream => streamId = sid ∧ endStream = true
  | _ => False

/-- A part of a response: HEADERS, CONTINUATION or DATA. -/
def Speaks (sid : StreamId) : Seg → Prop
  | .fields streamId .. => streamId = sid
  | .data streamId .. => streamId = sid
  | _ => False

/-- The head of a final response. -/
def Final (sid : StreamId) : Seg → Prop
  | .fields streamId interim _ _ _ => streamId = sid ∧ interim = false
  | _ => False

theorem Ends.closes (ends : seg.Ends sid) : seg.Closes sid := by
  cases seg with
  | fields | data => exact ends
  | _ => exact ends.elim

theorem Closes.on (closes : seg.Closes sid) : seg.On sid := by
  cases seg with
  | fields | data => exact closes.1
  | rstStream => exact closes
  | _ => exact closes.elim

theorem Speaks.on (speaks : seg.Speaks sid) : seg.On sid := by
  cases seg with
  | fields | data => exact speaks
  | _ => exact speaks.elim

theorem Final.speaks (final : seg.Final sid) : seg.Speaks sid := by
  cases seg with
  | fields => exact final.1
  | _ => exact final.elim

end Seg

/-- A frame that makes a stream depend on itself while the stream is idle is answered with a
reset that the stream may survive. -/
def Place.Tame (sid : StreamId) (f : Frame) (last : StreamId) : Prop :=
  Core.SelfDependent f → f.streamId = sid → sid ≤ last ∨ sid % 2 = 0

namespace Strand

variable {s s' : Strand} {stray peer : Prop}

/-- The final response is out: the client cannot open the stream again, and nothing will answer it
again.  The client opens odd streams only. -/
structure Heard (sid : StreamId) (s : Strand) : Prop where
  past : s.past ∨ sid % 2 = 0
  left : ¬s.waits

/-- The stream is closed: the rest of its response, if any, is done. -/
structure Dead (sid : StreamId) (s : Strand) : Prop extends Heard sid s where
  done : ∀ {st}, s.response = some st → st.done = true

theorem Turn.heard (turn : Turn sid stray peer s s') (heard : s.Heard sid) : s'.Heard sid := by
  cases turn with
  | rests rests =>
    refine ⟨heard.past.imp_left rests.past, fun waits => ?_⟩
    rcases rests.waits waits with before | ⟨idle, odd⟩
    · exact heard.left before
    · rcases heard.past with past | even
      · exact idle past
      · exact Nat.zero_ne_one (even.symm.trans odd)
  | answers _ _ _ left | resets _ _ left | gives _ left | begins _ _ _ _ _ _ _ _ _ left =>
    exact ⟨heard.past, left⟩
  | _ => exact ⟨heard.past, heard.left⟩

theorem Turn.dead (turn : Turn sid stray peer s s') (dead : s.Dead sid) : s'.Dead sid := by
  refine ⟨turn.heard dead.toHeard, fun {st'} found' => ?_⟩
  cases turn with
  | rests rests => exact dead.done (rests.response.symm.trans found')
  | answers _ _ waited | begins _ _ _ _ _ _ _ _ waited => exact absurd waited dead.left
  | resets _ _ _ gone =>
    rcases gone with rfl | ⟨_, _, rfl⟩
    · nomatch found'
    · cases found'
      rfl
  | gives _ _ gone => nomatch gone.symm.trans found'
  | sends _ _ found live => exact absurd (dead.done found) (Bool.eq_false_iff.mp live)
  | pulls _ found _ _ changed | delivers _ _ found _ changed | finishes _ found _ changed
  | credits _ _ found changed =>
    rw [← Option.some.inj (changed.symm.trans found')]
    exact (dead.done found :)
  | returns back | shifts _ back =>
    obtain ⟨_, found, rfl⟩ := Option.map_eq_some_iff.mp (back.symm.trans found')
    exact (dead.done found :)
  | _ => exact dead.done found'

/-! ## What a turn writes -/

/-- How a stream comes to its end: without a body, or with the last byte of it. -/
inductive Ending (sid : StreamId) (s s' : Strand) : Seg → Prop
  | unserved {seg : Seg} (waited : s.waits) (same : s'.notes = s.notes) : Ending sid s s' seg
  | bodiless {seg : Seg} (isHead : Bool) (answer : Response) (offered : Int) (waited : s.waits)
      (opens : opening isHead answer = .headersOnly)
      (noted : s'.notes = s.notes ++ [.begins sid isHead answer offered]) : Ending sid s s' seg
  | drained {n : Nat} {last : Bool} (st : OutStream) (found : s'.response = some st)
      (empty : st.pending = []) (eof : st.eof = true) : Ending sid s s' (.data sid n last)

/-- What it takes to write a segment, and where that leaves the stream. -/
structure Fits (sid : StreamId) (stray : Prop) (s s' : Strand) (seg : Seg) : Prop where
  answers : seg.Final sid → ¬s.Heard sid ∧ s'.Heard sid
  speaks : seg.Speaks sid → ¬s.Dead sid
  closes : seg.Closes sid → (stray → ¬seg.Ends sid → s.past ∨ sid % 2 = 0) → s'.Dead sid
  ends : seg.Ends sid → Ending sid s s' seg

theorem Fits.of_apart (apart : ¬seg.On sid) : Fits sid stray s s' seg where
  answers final := absurd final.speaks.on apart
  speaks speaks := absurd speaks.on apart
  closes closes := absurd closes.on apart
  ends ends := absurd ends.closes.on apart

/-- A part of the response to a request that waits. -/
theorem Fits.head {interim ended : Bool} {first : Octets} {rest : List Octets} (waited : s.waits)
    (heard : interim = false → s'.Heard sid)
    (dead : ended = true → s'.Dead sid ∧ Ending sid s s' (.fields sid interim ended first rest)) :
    Fits sid stray s s' (.fields sid interim ended first rest) where
  answers final := ⟨fun heard => heard.left waited, heard final.2⟩
  speaks _ dead := dead.left waited
  closes closes _ := (dead closes.2).1
  ends ends := (dead ends.2).2

structure Wrote (sid : StreamId) (stray : Prop) (s s' : Strand) (segs : List Seg) : Prop where
  out : s'.out = s.out ++ segs
  writes : Writes segs
  last : segs.Pairwise fun first second => first.Closes sid ∨ first.Final sid → ¬second.On sid
  fits : ∀ seg ∈ segs, Fits sid stray s s' seg

theorem Turn.wrote (turn : Turn sid stray peer s s') (sane : s.Sane) :
    ∃ segs, Wrote sid stray s s' segs := by
  have interim_last {hints : List Seg}
      (interim : ∀ seg ∈ hints, ∃ first rest, seg = .fields sid true false first rest) :
      ∀ seg ∈ hints, ¬(seg.Closes sid ∨ seg.Final sid) := by
    intro seg member
    obtain ⟨_, _, rfl⟩ := interim seg member
    rintro (⟨_, ended⟩ | ⟨_, final⟩)
    · cases ended
    · cases final
  cases turn with
  | rests rests =>
    obtain ⟨segs, out, writes, apart⟩ := rests.out
    exact ⟨segs, out, writes, pairwise_of_forall_mem_list fun _ _ second member _ =>
      apart second member, fun seg member => .of_apart (apart seg member)⟩
  | hints segs waits interim =>
    refine ⟨segs, rfl, .bare fun seg member => ?_,
      pairwise_of_forall_mem_list fun first member _ _ either =>
      absurd either (interim_last interim first member), fun seg member => ?_⟩
    all_goals obtain ⟨_, _, rfl⟩ := interim seg member
    · trivial
    · exact .head waits nofun nofun
  | answers first rest waited left silent =>
    have past := (sane.waiting waited).1
    exact ⟨_, rfl, .bare (forall_mem_singleton.mpr trivial), pairwise_singleton ..,
      forall_mem_singleton.mpr (.head waited (fun _ => ⟨.inl past, left⟩) fun _ =>
        ⟨⟨⟨.inl past, left⟩, fun found => nomatch silent.symm.trans found⟩, .unserved waited rfl⟩)⟩
  | resets error known left gone =>
    refine ⟨_, rfl, .bare (forall_mem_singleton.mpr trivial), pairwise_singleton ..,
      forall_mem_singleton.mpr ⟨False.elim, False.elim, fun _ tame => ?_, False.elim⟩⟩
    refine ⟨⟨known.elim .inl fun stray => tame stray id, left⟩, fun {st} found => ?_⟩
    rcases gone with rfl | ⟨_, _, rfl⟩
    · nomatch found
    · cases found
      rfl
  | begins isHead answer shape opens hints interim first rest waited left registered =>
    have past := (sane.waiting waited).1
    refine ⟨_, rfl, .bare (Link.forall_heads interim (fun _ _ => trivial) trivial), ?_,
      Link.forall_heads interim (fun _ _ => .head waited nofun nofun)
        (.head waited (fun _ => ⟨.inl past, left⟩) fun ended => ?_)⟩
    · exact pairwise_append.mpr ⟨pairwise_of_forall_mem_list fun first member _ _ either =>
        absurd either (interim_last interim first member), pairwise_singleton ..,
        fun first member _ _ either => absurd either (interim_last interim first member)⟩
    · cases shape with
      | headersOnly =>
        exact ⟨⟨⟨.inl past, left⟩, fun found => nomatch registered.symm.trans found⟩,
          .bodiless isHead answer _ waited opens rfl⟩
      | register => cases ended
  | sends st n found live written sent =>
    obtain ⟨past, left⟩ := sane.sending found
    refine ⟨_, written, .data .., ?_, forall_dataFrame ⟨False.elim, fun _ dead =>
      absurd (dead.done found) (Bool.eq_false_iff.mp live), fun closes _ =>
        ⟨⟨.inl past, left⟩, fun found' => ?_⟩, fun ends => ?_⟩ (.of_apart id)⟩
    · rw [dataFrame]
      split_ifs
      · exact pairwise_singleton ..
      · exact pairwise_pair.mpr fun _ => id
    · rw [← Option.some.inj (sent.symm.trans found')]
      exact closes.2
    · obtain ⟨eof, empty⟩ := Bool.and_eq_true_iff.mp ends.2
      exact .drained _ sent (isEmpty_iff.mp empty) eof
  | _ => exact ⟨[], (append_nil _).symm, .bare (forall_mem_nil _), .nil, forall_mem_nil _⟩

/-! ## Seals -/

/-- After a segment of one kind the stream is in a state in which none of another is written. -/
structure Seals (First Second : Seg → Prop) (State : Strand → Prop) (s : Strand) : Prop where
  sealed : ∀ seg ∈ s.out, First seg → State s
  apart : s.out.Pairwise fun first second => First first → ¬Second second

variable {First Second : Seg → Prop} {State : Strand → Prop}

theorem Seals.of_none (none : ∀ seg ∈ s.out, ¬First seg) : Seals First Second State s where
  sealed seg member first := absurd first (none seg member)
  apart := pairwise_of_forall_mem_list fun seg member _ _ first => absurd first (none seg member)

theorem Seals.write (seals : Seals First Second State s) (out : s'.out = s.out ++ segs)
    (kept : State s → State s') (now : ∀ seg ∈ segs, First seg → State s')
    (silent : State s → ∀ seg ∈ segs, ¬Second seg)
    (within : segs.Pairwise fun first second => First first → ¬Second second) :
    Seals First Second State s' where
  sealed seg member first := by
    rw [out] at member
    rcases mem_append.mp member with before | new
    · exact kept (seals.sealed seg before first)
    · exact now seg new first
  apart := by
    rw [out]
    exact pairwise_append.mpr ⟨seals.apart, within, fun first before second new holds =>
      silent (seals.sealed first before holds) second new⟩

/-- What was written for a stream, and where that leaves it. -/
structure Spoken (sid : StreamId) (s : Strand) : Prop where
  closed : Seals (Seg.Closes sid) (Seg.Speaks sid) (Dead sid) s
  answered : Seals (Seg.Final sid) (Seg.Final sid) (Heard sid) s

theorem Turn.spoken (turn : Turn sid stray peer s s') (sane : s.Sane)
    (tame : stray → s.past ∨ sid % 2 = 0) (spoken : s.Spoken sid) : s'.Spoken sid := by
  obtain ⟨segs, wrote⟩ := turn.wrote sane
  constructor
  · exact spoken.closed.write wrote.out turn.dead
      (fun seg member closes => (wrote.fits seg member).closes closes fun stray _ => tame stray)
      (fun dead seg member speaks => (wrote.fits seg member).speaks speaks dead)
      (wrote.last.imp fun last closes speaks => last (.inl closes) speaks.on)
  · exact spoken.answered.write wrote.out turn.heard
      (fun seg member final => ((wrote.fits seg member).answers final).2)
      (fun heard seg member final => ((wrote.fits seg member).answers final).1 heard)
      (wrote.last.imp fun last final again => last (.inr final) again.speaks.on)

end Strand

end HttpJet.H2
