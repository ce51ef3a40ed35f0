import HttpJet.H1.Chunked
import Mathlib.Data.List.TakeWhile

/-!
# The grammar of chunked bodies

A body is chunks, a size line of zero, trailer lines and an empty line.  A call on a part of a body
passes the states that a single call on the whole passes.
-/

namespace HttpJet.H1

open Library List
open Hpack.Integer (Octets)
open Hpack.StaticTable (ascii)
open H2 (isAlphanumeric isBlank isHexDigit)

namespace ChunkedDecoder

variable {buf : Octets} {next : ChunkedDecoder} {result : ChunkedDecoder × ChunkStep} {after : Nat}
  {cuts : List Nat}

/-! ## Calls -/

theorem ends_advance (fits : buf.length < 2 ^ 63) (dec : ChunkedDecoder) :
    Loop.Ends (turn buf) dec (dec.advance buf) := by
  have decreases : ∀ s next, turn buf s = .again next →
      buf.length - next.extent < buf.length - s.extent := by
    intro s next again
    have further := extent_lt fits again
    omega
  have enough : buf.length - dec.extent < buf.length + 1 := by omega
  obtain ⟨_, found⟩ := Option.isSome_iff_exists.mp (Loop.run_isSome decreases enough)
  rw [advance, found]
  exact Loop.ends_of_run found

/-- A turn that goes on keeps the budgets. -/
theorem again_keeps {dec : ChunkedDecoder} (again : turn buf dec = .again next) :
    next.start = dec.start ∧ next.maxBody = dec.maxBody ∧ next.maxRaw = dec.maxRaw ∧
      next.tooLarge = dec.tooLarge := by
  rw [turn] at again
  split at again
  · rw [takeData] at again
    split_ifs at again
    rw [← Turn.again.inj again]
    exact ⟨rfl, rfl, rfl, rfl⟩
  · rw [nextLineEnd] at again
    split at again
    · contradiction
    · rename_i found
      split at found
      · have same := (Prod.mk.inj found).1
        subst same
        rcases atLine_again again with ⟨_, _, same⟩ | ⟨_, _, same⟩ | ⟨_, _, same⟩
        all_goals
          rw [same]
          exact ⟨rfl, rfl, rfl, rfl⟩
      · cases (Prod.mk.inj found).2

variable {wire : Octets} {first dec : ChunkedDecoder} {cut : Nat}

/-- A state of a call on a part of the wire, reached from the first state. -/
structure Reached (wire : Octets) (first : ChunkedDecoder) (cut : Nat) (dec : ChunkedDecoder) :
    Prop where
  passes : Loop.Passes (turn wire) first dec.fresh
  sound : Sound wire dec
  extent_le : dec.extent ≤ max cut first.start
  start_eq : dec.start = first.start
  tooLarge_eq : dec.tooLarge = first.tooLarge

/-- A decoder that has read nothing. -/
structure Opening (wire : Octets) (first : ChunkedDecoder) : Prop where
  fresh_eq : first.fresh = first
  reached : Reached wire first 0 first
  tooLarge_eq : first.tooLarge = false

theorem Opening.new (wire : Octets) (start : Nat) (maxBody maxRaw : UInt64) :
    Opening wire (new start maxBody maxRaw) where
  fresh_eq := rfl
  reached := {
    passes := Loop.Passes.refl _
    sound := Sound.new wire start maxBody maxRaw
    extent_le := Nat.le_max_right ..
    start_eq := rfl
    tooLarge_eq := rfl }
  tooLarge_eq := rfl

theorem Reached.mono (reached : Reached wire first cut dec) {later : Nat} (le : cut ≤ later) :
    Reached wire first later dec :=
  { reached with extent_le := Nat.le_trans reached.extent_le (by omega) }

section

variable (fits : wire.length < 2 ^ 63)
include fits

theorem Reached.again (reached : Reached wire first cut dec)
    (again : turn (wire.take cut) dec = .again next) : Reached wire first cut next := by
  have short : (wire.take cut).length < 2 ^ 63 :=
    Nat.lt_of_le_of_lt (length_take_le' ..) fits
  obtain ⟨start, _, _, tooLarge⟩ := again_keeps again
  have held := (extent_lt short again).2
  rw [length_take] at held
  refine ⟨?_, reached.sound.again fits again, by omega, start.trans reached.start_eq,
    tooLarge.trans reached.tooLarge_eq⟩
  rcases reached.sound.turn_take fits cut with ⟨same, _⟩ | ⟨_, _, _, _, same⟩ | ⟨_, _, same⟩
  · rw [again] at same
    exact reached.passes.trans (Loop.Passes.single same.symm)
  · rw [again] at same
    contradiction
  · rw [again] at same
    contradiction

/-- Where a call on a part of the wire stops. -/
theorem Reached.call (reached : Reached wire first cut dec) : ∃ last, Reached wire first cut last ∧
      turn (wire.take cut) last = .stop (dec.advance (wire.take cut)) := by
  have short : (wire.take cut).length < 2 ^ 63 :=
    Nat.lt_of_le_of_lt (length_take_le' ..) fits
  obtain ⟨last, passes, stops⟩ := ends_advance short dec
  exact ⟨last, passes.invariant (fun s next again holds => holds.again fits again) reached, stops⟩

/-! ## The states of a single call -/

theorem extent_le_of_passes {last : ChunkedDecoder} (passes : Loop.Passes (turn wire) dec last) :
    dec.extent ≤ last.extent := by
  induction passes with
  | refl => exact Nat.le_refl _
  | tail _ again ih => exact Nat.le_trans ih (Nat.le_of_lt (extent_lt fits again).1)

/-- A single call remembers nothing of a search before its last turn. -/
theorem Opening.chain (opening : Opening wire first) (passes : Loop.Passes (turn wire) first dec) :
    Reached wire first wire.length dec ∧ dec.fresh = dec := by
  refine passes.invariant (P := fun d => Reached wire first wire.length d ∧ d.fresh = d) ?_
    ⟨opening.reached.mono (Nat.zero_le _), opening.fresh_eq⟩
  rintro s _ again ⟨reached, same⟩
  rw [← take_length (l := wire)] at again
  refine ⟨reached.again fits again, ?_⟩
  rcases reached.sound.turn_take fits wire.length with ⟨turns, _⟩ | ⟨_, _, _, _, stops⟩
    | ⟨_, _, stops⟩
  · rw [same, take_length] at turns
    rw [take_length] at again
    rw [again] at turns
    exact Turn.again.inj turns
  · rw [again] at stops
    contradiction
  · rw [again] at stops
    contradiction

/-- A turn of a single call that reads within a part of the wire is taken on the part. -/
theorem Sound.again_of_held (sound : Sound wire dec) (again : turn wire dec.fresh = .again next)
    (held : next.extent ≤ cut) : turn (wire.take cut) dec ≠ .stop result := by
  intro stops
  rcases sound.turn_take fits cut with
    ⟨same, _⟩ | ⟨dataStart, size, waits, short, _⟩ | ⟨idle, late, _⟩
  · rw [stops, again] at same
    contradiction
  · have turns := turn_data fits (show dec.fresh.pending = _ from waits) wire.length
    rw [take_length, again] at turns
    rcases turns with ⟨_, same⟩ | ⟨_, same⟩
    · rw [atData] at same
      split_ifs at same
      rw [Turn.again.inj same, extent_of_none rfl] at held
      rw [length_take] at short
      dsimp only at held
      omega
    · contradiction
  · cases found : findCrlfFrom wire dec.pos with
    | none =>
      have turns := sound.fresh.turn_line idle wire.length
      rw [take_length, again] at turns
      rcases turns with ⟨_, other, _⟩ | ⟨_, _⟩
      · rw [show findCrlfFrom wire dec.fresh.pos = none from found] at other
        contradiction
      · contradiction
    | some lineEnd =>
      have beyond := late lineEnd found
      have turns := sound.turn_whole_line idle found
      rw [again] at turns
      rw [extent_of_atLine turns.symm idle] at held
      omega

end

/-- A line of the wire that a single call passes, and where it ends. -/
structure LineOf (wire : Octets) (first dec : ChunkedDecoder) (lineEnd : Nat) : Prop where
  passes : Loop.Passes (turn wire) first dec
  idle : dec.pending = none
  ends : findCrlfFrom wire dec.pos = some lineEnd

/-- A cut inside a line of the wire, more than the bound of a line behind its start. -/
def Severs (wire : Octets) (first : ChunkedDecoder) (cut : Nat) : Prop :=
  ∃ dec lineEnd, LineOf wire first dec lineEnd ∧ dec.pos + maxChunkLine < cut ∧ cut < lineEnd + 2

/-- Every line that a single call passes ends within the part. -/
def Settled (wire : Octets) (first : ChunkedDecoder) (cut : Nat) : Prop :=
  ∀ dec lineEnd, LineOf wire first dec lineEnd → lineEnd + 2 ≤ cut

section

variable (fits : wire.length < 2 ^ 63)
include fits

/-- What a single call reads after a line comes after its end. -/
theorem LineOf.end_le (opening : Opening wire first) {lineEnd : Nat}
    (line : LineOf wire first dec lineEnd) {last : ChunkedDecoder}
    (passes : Loop.Passes (turn wire) dec last) : last = dec ∨ lineEnd + 2 ≤ last.extent := by
  obtain ⟨reached, same⟩ := opening.chain fits line.passes
  cases Relation.ReflTransGen.cases_head passes with
  | inl same => exact .inl same.symm
  | inr taken =>
    obtain ⟨_, again, rest⟩ := taken
    have here := reached.sound.turn_whole_line line.idle line.ends
    rw [same, again] at here
    rw [← extent_of_atLine here.symm line.idle]
    exact .inr (extent_le_of_passes fits rest)

/-- A call reaches the states of a single call that have read no further than its part. -/
theorem Reached.reaches (reached : Reached wire first cut dec)
    (stops : turn (wire.take cut) dec = .stop result) {state : ChunkedDecoder}
    (passes : Loop.Passes (turn wire) first state) (held : state.extent ≤ cut) :
    Loop.Passes (turn wire) state dec.fresh := by
  rcases reached.passes.total passes with before | behind
  · rcases Relation.ReflTransGen.cases_head before with same | ⟨_, again, rest⟩
    · rw [same]
      exact Loop.Passes.refl state
    · have reads := extent_le_of_passes fits rest
      exact absurd stops (reached.sound.again_of_held fits again (Nat.le_trans reads held))
  · exact behind

/-- A call that ends inside such a line rejects the body. -/
theorem Reached.severed (opening : Opening wire first)
    (reached : Reached wire first cut dec) (severs : Severs wire first cut) :
    ∃ result, dec.advance (wire.take cut) = (result, .bad) ∧ result.tooLarge = false := by
  obtain ⟨line, _, isLine, _, _⟩ := severs
  obtain ⟨last, lastReached, stops⟩ := reached.call fits
  obtain ⟨_, ends, _⟩ := findCrlfFrom_eq_some isLine.ends
  have whole := ends.lt
  have lineSound := (opening.chain fits isLine.passes).1.sound
  have lineStart := (opening.chain fits isLine.passes).1.start_eq
  have lineAfter := lineSound.start_le
  have extent := lastReached.extent_le
  -- The call stops at the line: it reaches it and cannot pass it.
  have here : last.fresh = line := by
    have behind := lastReached.reaches fits stops isLine.passes
      (by rw [extent_of_none isLine.idle]; omega)
    rcases isLine.end_le fits opening behind with same | further
    · exact same
    · rw [extent_fresh] at further
      omega
  have idle : last.pending = none := by
    have same := congrArg pending here
    exact same.trans isLine.idle
  have pos : last.pos = line.pos := congrArg (fun d => d.pos) here
  rcases lastReached.sound.turn_line idle cut with ⟨_, found, held, _⟩ | ⟨_, miss⟩
  · rw [pos, isLine.ends] at found
    rw [← Option.some.inj found] at held
    omega
  · rw [miss] at stops
    refine ⟨last.missed (wire.take cut), ?_, ?_⟩
    · rw [← Turn.stop.inj stops, unterminated, if_pos]
      left
      rw [length_take, pos]
      omega
    · exact lastReached.tooLarge_eq.trans opening.tooLarge_eq

/-- A call that stops where a single call stops has seen all of its lines. -/
theorem Reached.settled (opening : Opening wire first)
    (reached : Reached wire first cut dec) (stops : turn wire dec.fresh = .stop result)
    (held : ∀ lineEnd, dec.pending = none → findCrlfFrom wire dec.pos = some lineEnd →
      lineEnd + 2 ≤ cut) :
    Settled wire first cut := by
  intro line lineEnd isLine
  have before : Loop.Passes (turn wire) line dec.fresh := by
    rcases reached.passes.total isLine.passes with behind | before
    · rw [behind.eq_of_stop stops]
      exact Loop.Passes.refl _
    · exact before
  rcases isLine.end_le fits opening before with same | further
  · have idle : dec.pending = none := (congrArg pending same).trans isLine.idle
    have pos : dec.pos = line.pos := congrArg (fun d => d.pos) same
    refine held lineEnd idle ?_
    rw [pos]
    exact isLine.ends
  · have extent := reached.extent_le
    have lineReached := (opening.chain fits isLine.passes).1
    have start := lineReached.start_eq
    have startLe := lineReached.sound.start_le
    have after := (findCrlfFrom_eq_some isLine.ends).1
    rw [extent_fresh] at further
    omega

end

theorem atLine_of_raw {lineEnd : Nat} {line : Octets}
    (beyond : dec.maxRaw.toNat < lineEnd + 2 - dec.start) :
    dec.atLine lineEnd line = .stop (dec, .bad) := by
  rw [atLine, takeTrailer, takeSize, if_pos beyond, if_pos beyond, ite_self]

theorem raw_of_atLine {lineEnd : Nat} {line : Octets}
    (again : dec.atLine lineEnd line = .again next) :
    lineEnd + 2 - dec.start ≤ dec.maxRaw.toNat :=
  Nat.not_lt.mp fun beyond => nomatch (atLine_of_raw beyond).symm.trans again

/-- The turn of a single call at a line that never ends. -/
theorem Sound.turn_whole_missed (sound : Sound wire dec) (idle : dec.pending = none)
    (absent : findCrlfFrom wire dec.pos = none) : turn wire dec.fresh =
      .stop (dec.fresh.missed wire, dec.unterminated wire (wire.length - dec.pos)) := by
  have turns := sound.fresh.turn_line idle wire.length
  rw [take_length] at turns
  rcases turns with ⟨_, found, _⟩ | ⟨_, same⟩
  · rw [show findCrlfFrom wire dec.fresh.pos = none from absent] at found
    contradiction
  · exact same

theorem unterminated_eq_bad {lineLen : Nat} : dec.unterminated buf lineLen = .bad ↔
      maxChunkLine < lineLen ∨ dec.maxRaw.toNat < buf.length - dec.start := by
  rw [unterminated]
  split_ifs with beyond
  · exact ⟨fun _ => beyond, fun _ => rfl⟩
  · exact ⟨nofun, fun other => absurd other beyond⟩

/-- An incomplete line that breaks a bound breaks it in the wire too, unless it is severed. -/
theorem Reached.missed_bad (reached : Reached wire first cut dec)
    (unsevered : ¬Severs wire first cut)
    (idle : dec.pending = none)
    (late : ∀ lineEnd, findCrlfFrom wire dec.pos = some lineEnd → cut < lineEnd + 2)
    (bad : dec.unterminated (wire.take cut) ((wire.take cut).length - dec.pos) = .bad) :
    ∃ result, turn wire dec.fresh = .stop (result, .bad) ∧ result.tooLarge = dec.tooLarge := by
  rw [unterminated_eq_bad, length_take] at bad
  cases found : findCrlfFrom wire dec.pos with
  | none =>
    refine ⟨dec.fresh.missed wire, ?_, rfl⟩
    have beyond : dec.unterminated wire (wire.length - dec.pos) = .bad := by
      rw [unterminated_eq_bad]
      omega
    rw [reached.sound.turn_whole_missed idle found, beyond]
  | some lineEnd =>
    have beyond := late lineEnd found
    refine ⟨dec.fresh, ?_, rfl⟩
    rcases bad with _ | _
    · refine absurd ⟨dec.fresh, lineEnd, ⟨reached.passes, idle, found⟩, ?_, beyond⟩ unsevered
      change dec.pos + maxChunkLine < cut
      omega
    · rw [reached.sound.turn_whole_line idle found]
      refine atLine_of_raw ?_
      change dec.maxRaw.toNat < lineEnd + 2 - dec.start
      omega

section

variable (fits : wire.length < 2 ^ 63)
include fits

/-- What a call on a part of the wire says about a single call, when its end severs no line. -/
theorem Reached.unsevered (opening : Opening wire first) (reached : Reached wire first cut dec)
    (unsevered : ¬Severs wire first cut) :
    (∃ next, dec.advance (wire.take cut) = (next, .needMore) ∧ Reached wire first cut next) ∨
    (∃ next after, dec.advance (wire.take cut) = (next, .done after) ∧
      Loop.Ends (turn wire) first (next.fresh, .done after) ∧ Settled wire first cut) ∨
    ∃ next result, dec.advance (wire.take cut) = (next, .bad) ∧
      Loop.Ends (turn wire) first (result, .bad) ∧ result.tooLarge = next.tooLarge ∧
      (next.tooLarge = true → Settled wire first cut) := by
  obtain ⟨last, lastReached, stops⟩ := reached.call fits
  rcases lastReached.sound.turn_take fits cut with
    ⟨same, held, complete⟩ | ⟨_, _, _, _, same⟩ | ⟨idle, late, same⟩
  · rw [stops] at same
    cases result : dec.advance (wire.take cut) with
    | mk next step =>
      rw [result] at same stops
      have settled := lastReached.settled fits opening same.symm held
      have ends : Loop.Ends (turn wire) first (next.fresh, step) :=
        ⟨last.fresh, lastReached.passes, same.symm⟩
      cases step with
      | done after => exact .inr (.inl ⟨next, after, rfl, ends, settled⟩)
      | bad => exact .inr (.inr ⟨next, next.fresh, rfl, ends, rfl, fun _ => settled⟩)
      | needMore => exact absurd stops (complete next)
  · rw [stops] at same
    exact .inl ⟨last, Turn.stop.inj same, lastReached⟩
  · rw [same] at stops
    have result := Turn.stop.inj stops
    cases step : last.unterminated (wire.take cut) ((wire.take cut).length - last.pos) with
    | done =>
      rw [unterminated] at step
      split_ifs at step
    | needMore =>
      rw [step] at result
      exact .inl ⟨_, result.symm, {
        lastReached with
        sound := lastReached.sound.missed idle late }⟩
    | bad =>
      obtain ⟨other, whole, tooLarge⟩ :=
        lastReached.missed_bad unsevered idle late step
      rw [step] at result
      refine .inr (.inr ⟨_, other, result.symm, ⟨last.fresh, lastReached.passes, whole⟩, tooLarge,
        fun beyond => ?_⟩)
      rw [show (last.missed (wire.take cut)).tooLarge = last.tooLarge from rfl,
        lastReached.tooLarge_eq, opening.tooLarge_eq] at beyond
      contradiction

/-- A call on the whole wire ends as a single call does. -/
theorem Reached.whole (reached : Reached wire first wire.length dec) :
    ∃ result, Loop.Ends (turn wire) first (result, (dec.advance wire).2) ∧
      result.fresh = (dec.advance wire).1.fresh := by
  obtain ⟨last, lastReached, stops⟩ := reached.call fits
  rw [take_length] at stops
  cases advanced : dec.advance wire with
  | mk next =>
    rw [advanced] at stops
    have turns := lastReached.sound.turn_take fits wire.length
    rw [take_length, stops] at turns
    rcases turns with ⟨same, _⟩ | ⟨_, _, waits, _, same⟩ | ⟨idle, late, same⟩
    · exact ⟨next.fresh, ⟨last.fresh, lastReached.passes, same.symm⟩, rfl⟩
    · obtain ⟨sameNext, sameStep⟩ := Prod.mk.inj (Turn.stop.inj same)
      have whole := turn_data fits (show last.fresh.pending = _ from waits) wire.length
      rw [take_length] at whole
      rcases whole with ⟨held, _⟩ | ⟨_, whole⟩
      · omega
      · refine ⟨last.fresh, ⟨last.fresh, lastReached.passes, ?_⟩, ?_⟩
        · rw [sameStep, whole]
        · rw [sameNext]
          rfl
    · obtain ⟨sameNext, sameStep⟩ := Prod.mk.inj (Turn.stop.inj same)
      have absent : findCrlfFrom wire last.pos = none := by
        cases found : findCrlfFrom wire last.pos with
        | none => rfl
        | some lineEnd =>
          have held := (findCrlfFrom_eq_some found).2.1.lt
          have beyond := late lineEnd found
          omega
      have whole := lastReached.sound.turn_whole_missed idle absent
      refine ⟨last.fresh.missed wire, ⟨last.fresh, lastReached.passes, ?_⟩, ?_⟩
      · rw [sameStep, whole]
      · rw [sameNext]
        rfl

/-- A body ends with an empty line. -/
theorem Opening.done (opening : Opening wire first) {result : ChunkedDecoder}
    (ends : Loop.Ends (turn wire) first (result, .done after)) :
    ∃ last, LineOf wire first last last.pos ∧ after = last.pos + 2 ∧
      turn wire last = .stop (result, .done after) := by
  obtain ⟨last, passes, stops⟩ := ends
  obtain ⟨reached, fresh⟩ := opening.chain fits passes
  cases waits : last.pending with
  | some =>
    have whole := turn_data fits waits wire.length
    rw [take_length, stops] at whole
    rcases whole with ⟨_, same⟩ | ⟨_, same⟩
    · rw [atData] at same
      split_ifs at same
      cases same
    · cases same
  | none =>
    cases found : findCrlfFrom wire last.pos with
    | none =>
      have whole := reached.sound.turn_whole_missed waits found
      rw [fresh, stops, unterminated] at whole
      split_ifs at whole
      · cases whole
      · cases whole
    | some =>
      have whole := reached.sound.turn_whole_line waits found
      rw [fresh, stops] at whole
      rcases atLine_stop whole.symm with ⟨_, _⟩ | ⟨done, _, _, empty, _⟩
      · contradiction
      · rw [empty] at found done
        exact ⟨last, ⟨passes, waits, found⟩, ChunkStep.done.inj done, stops⟩

theorem Reached.accepts (opening : Opening wire first) (reached : Reached wire first cut dec)
    {result : ChunkedDecoder} (ends : Loop.Ends (turn wire) first (result, .done after))
    (held : after ≤ cut) : ∃ next, dec.advance (wire.take cut) = (next, .done after) := by
  obtain ⟨state, line, _, whole⟩ := opening.done fits ends
  obtain ⟨last, lastReached, stops⟩ := reached.call fits
  have behind := lastReached.reaches fits stops line.passes
    (by rw [extent_of_none line.idle]; omega)
  have here := behind.eq_of_stop whole
  have idle : last.pending = none := (congrArg pending here).trans line.idle
  have pos : last.pos = state.pos := congrArg (fun d => d.pos) here
  cases advanced : dec.advance (wire.take cut) with
  | mk next =>
    rw [advanced] at stops
    rcases lastReached.sound.turn_take fits cut with
      ⟨same, _⟩ | ⟨_, _, waits, _⟩ | ⟨_, late, _⟩
    · rw [stops, here, whole] at same
      rw [(Prod.mk.inj (Turn.stop.inj same)).2]
      exact ⟨next, rfl⟩
    · rw [idle] at waits
      contradiction
    · have beyond := late state.pos (by rw [pos]; exact line.ends)
      omega

end

/-! ## Verdicts -/

/-- What a caller learns from decoding a body. -/
inductive Verdict where
  | done (after : Nat) (body : Octets)
  | bad (tooLarge : Bool)
  | needMore
  deriving DecidableEq

def verdictOf : ChunkedDecoder × ChunkStep → Verdict
  | (dec, .done after) => .done after dec.body
  | (dec, .bad) => .bad dec.tooLarge
  | (_, .needMore) => .needMore

/-- Call the decoder on growing parts of the wire, up to the first that settles the body. -/
def decode (wire : Octets) : ChunkedDecoder → List Nat → Verdict
  | _, [] => .needMore
  | dec, cut :: cuts =>
    match dec.advance (wire.take cut) with
    | (dec, .needMore) => decode wire dec cuts
    | result => verdictOf result

theorem verdictOf_fresh (dec : ChunkedDecoder) (step : ChunkStep) :
    verdictOf (dec.fresh, step) = verdictOf (dec, step) := by
  cases step <;> rfl

theorem decode_cons_of_needMore (calls : dec.advance (wire.take cut) = (next, .needMore)) :
    decode wire dec (cut :: cuts) = decode wire next cuts := by
  rw [decode, calls]

theorem decode_cons_of_done (calls : dec.advance (wire.take cut) = (next, .done after)) :
    decode wire dec (cut :: cuts) = .done after next.body := by
  rw [decode, calls]
  rfl

theorem decode_cons_of_bad (calls : dec.advance (wire.take cut) = (next, .bad)) :
    decode wire dec (cut :: cuts) = .bad next.tooLarge := by
  rw [decode, calls]
  rfl

theorem decode_singleton (wire : Octets) (dec : ChunkedDecoder) (cut : Nat) :
    decode wire dec [cut] = verdictOf (dec.advance (wire.take cut)) := by
  cases calls : dec.advance (wire.take cut) with
  | mk _ step =>
    cases step with
    | done => exact decode_cons_of_done calls
    | needMore => exact decode_cons_of_needMore calls
    | bad => exact decode_cons_of_bad calls

section

variable (fits : wire.length < 2 ^ 63) (opening : Opening wire first)
include fits opening

/-- The verdict of a last call on the whole wire. -/
theorem Reached.decode_whole {single : ChunkedDecoder × ChunkStep}
    (ends : Loop.Ends (turn wire) first single) (reached : Reached wire first cut dec) :
    decode wire dec [wire.length] = verdictOf single := by
  have complete : Reached wire first wire.length dec :=
    { reached with extent_le := (opening.chain fits reached.passes).1.extent_le }
  obtain ⟨result, whole, same⟩ := complete.whole fits
  rw [decode_singleton, take_length, ends.unique whole, ← verdictOf_fresh result, same,
    verdictOf_fresh]

/-- A severed line rejects the body; otherwise the verdict is that of a single call. -/
theorem Reached.decode_eq {single : ChunkedDecoder × ChunkStep}
    (ends : Loop.Ends (turn wire) first single) (reached : Reached wire first cut dec)
    (grows : (cut :: cuts).Pairwise (· ≤ ·)) : ((∃ later ∈ cuts, Severs wire first later) →
      decode wire dec (cuts ++ [wire.length]) = .bad false) ∧
    ((¬∃ later ∈ cuts, Severs wire first later) →
      decode wire dec (cuts ++ [wire.length]) = verdictOf single) := by
  induction cuts generalizing cut dec with
  | nil => exact ⟨fun ⟨_, member, _⟩ => (nomatch member), fun _ =>
    reached.decode_whole fits opening ends⟩
  | cons later cuts ih =>
    obtain ⟨before, rest⟩ := pairwise_cons.mp grows
    have here := reached.mono (before later mem_cons_self)
    rw [cons_append]
    by_cases severs : Severs wire first later
    · obtain ⟨result, calls, tooLarge⟩ := here.severed fits opening severs
      rw [decode_cons_of_bad calls, tooLarge]
      exact ⟨fun _ => rfl, fun none_ => absurd ⟨later, mem_cons_self, severs⟩ none_⟩
    · have others : (∃ cut ∈ later :: cuts, Severs wire first cut) ↔
          ∃ cut ∈ cuts, Severs wire first cut := by
        rw [exists_mem_cons_iff, or_iff_right severs]
      have settles : Settled wire first later → ¬∃ cut ∈ cuts, Severs wire first cut := by
        rintro settled ⟨cut, member, dec, lineEnd, line, _, _⟩
        have held := settled dec lineEnd line
        have behind := (pairwise_cons.mp rest).1 cut member
        omega
      rw [others]
      rcases here.unsevered fits opening severs with
        ⟨next, calls, reachedNext⟩ | ⟨next, after, calls, whole, settled⟩ |
        ⟨next, result, calls, whole, tooLarge, settled⟩
      · rw [decode_cons_of_needMore calls]
        exact ih reachedNext rest
      · rw [decode_cons_of_done calls, ends.unique whole]
        exact ⟨fun some_ => absurd some_ (settles settled), fun _ => rfl⟩
      · rw [decode_cons_of_bad calls, ends.unique whole, verdictOf, tooLarge]
        refine ⟨fun some_ => ?_, fun _ => rfl⟩
        cases large : next.tooLarge with
        | false => rfl
        | true => exact absurd some_ (settles (settled large))

end

end ChunkedDecoder

/-- A buffer; no buffer is longer than half of the address space. -/
structure Wire where
  octets : Octets
  fits : octets.length < 2 ^ 63

/-! ## Lines -/

/-- A size line: digits between blanks, and an optional extension. -/
def SizeLine (line : Octets) (size : Nat) : Prop :=
  ∃ lead digits trail extension : Octets, line = lead ++ digits ++ trail ++ extension ∧
    (∀ b ∈ lead, isBlank b = true) ∧ digits ≠ [] ∧ fromHex digits = some size ∧
    (∀ b ∈ trail, isBlank b = true) ∧
    (extension = [] ∨ ∃ text, extension = 59 :: text ∧ framingLineClean text = true)

/-- A trailer line: a token, a colon and a value. -/
def TrailerLine (line : Octets) : Prop :=
  ∃ name value : Octets, line = name ++ 58 :: value ∧ name ≠ [] ∧
    (∀ b ∈ name, isTokenOctet b = true) ∧ framingLineClean value = true

theorem isHexDigit_iff : ∀ b : UInt8, isHexDigit b = true ↔ (hexValue b).isSome :=
  forall_octet (by decide +kernel)

/-- An octet that a framing line may hold. -/
def Clean (b : UInt8) : Prop := b = 9 ∨ 0x20 ≤ b ∧ b ≠ 0x7f

instance : DecidablePred Clean := fun b => inferInstanceAs (Decidable (b = 9 ∨ 0x20 ≤ b ∧ b ≠ 0x7f))

section

variable {line : Octets} {size : Nat}

theorem framingLineClean_iff : framingLineClean line = true ↔ ∀ b ∈ line, Clean b := by
  simp [framingLineClean, Clean]

theorem clean_of_isBlank : ∀ b, isBlank b = true → Clean b := forall_octet (by decide +kernel)

theorem clean_of_isHexDigit : ∀ b, isHexDigit b = true → Clean b := forall_octet (by decide +kernel)

theorem clean_of_isTokenOctet : ∀ b, isTokenOctet b = true → Clean b :=
  forall_octet (by decide +kernel)

theorem not_isBlank_of_isHexDigit : ∀ b, isHexDigit b = true → isBlank b = false :=
  forall_octet (by decide +kernel)

theorem exists_trim (text : Octets) : ∃ lead trail, text = lead ++ H2.trim text ++ trail ∧
    (∀ b ∈ lead, isBlank b = true) ∧ ∀ b ∈ trail, isBlank b = true := by
  have inner := takeWhile_append_dropWhile (p := isBlank) (l := (text.dropWhile isBlank).reverse)
  have back : text.dropWhile isBlank =
      H2.trim text ++ ((text.dropWhile isBlank).reverse.takeWhile isBlank).reverse := by
    rw [H2.trim, ← reverse_append, inner, reverse_reverse]
  refine ⟨text.takeWhile isBlank, ((text.dropWhile isBlank).reverse.takeWhile isBlank).reverse, ?_,
    fun b member => mem_takeWhile_imp member,
    fun b member => mem_takeWhile_imp (mem_reverse.mp member)⟩
  rw [append_assoc, ← back, takeWhile_append_dropWhile]

theorem dropWhile_append_of_blank {lead text : Octets} (blank : ∀ b ∈ lead, isBlank b = true)
    (solid : ∀ b ∈ text.head?, isBlank b = false) : (lead ++ text).dropWhile isBlank = text := by
  rw [dropWhile_append_of_pos blank]
  cases text with
  | nil => rfl
  | cons b =>
    rw [dropWhile_cons_of_neg]
    rw [solid b rfl]
    exact Bool.false_ne_true

theorem trim_append {lead text trail : Octets} (blankLead : ∀ b ∈ lead, isBlank b = true)
    (solid : ∀ b ∈ text, isBlank b = false) (nonempty : text ≠ [])
    (blankTrail : ∀ b ∈ trail, isBlank b = true) : H2.trim (lead ++ text ++ trail) = text := by
  have front : (lead ++ text ++ trail).dropWhile isBlank = text ++ trail := by
    rw [append_assoc]
    refine dropWhile_append_of_blank blankLead fun b first => ?_
    rw [head?_append_of_ne_nil _ nonempty] at first
    exact solid b (mem_of_mem_head? first)
  have back : (text ++ trail).reverse.dropWhile isBlank = text.reverse := by
    rw [reverse_append]
    refine dropWhile_append_of_blank (fun b member => blankTrail b (mem_reverse.mp member)) ?_
    intro b first
    exact solid b (mem_reverse.mp (mem_of_mem_head? first))
  rw [H2.trim, front, back, reverse_reverse]

theorem isHexDigit_of_readHex {n value : Nat} {digits : Octets}
    (read : readHex n digits = some value) :
    ∀ b ∈ digits, isHexDigit b = true := by
  induction digits generalizing n with
  | nil => exact fun b member => (nomatch member)
  | cons digit _ ih =>
    rw [readHex] at read
    cases known : hexValue digit with
    | none =>
      rw [known] at read
      contradiction
    | some =>
      rw [known] at read
      refine forall_mem_cons.mpr ⟨?_, ih read⟩
      rw [isHexDigit_iff, known]
      rfl

theorem SizeLine.clean (valid : SizeLine line size) : ∀ b ∈ line, Clean b := by
  obtain ⟨_, _, _, _, rfl, blankLead, _, read, blankTrail, extends_⟩ := valid
  intro b member
  rw [mem_append, mem_append, mem_append] at member
  rcases member with ((member | member) | member) | member
  · exact clean_of_isBlank b (blankLead b member)
  · exact clean_of_isHexDigit b (isHexDigit_of_readHex read b member)
  · exact clean_of_isBlank b (blankTrail b member)
  · rcases extends_ with rfl | ⟨_, rfl, clean⟩
    · nomatch member
    · rcases mem_cons.mp member with rfl | member
      · exact .inr ⟨by decide, by decide⟩
      · exact framingLineClean_iff.mp clean b member

theorem SizeLine.takeWhile {lead digits trail extension : Octets}
    (blankLead : ∀ b ∈ lead, isBlank b = true) (valid : ∀ b ∈ digits, isHexDigit b = true)
    (blankTrail : ∀ b ∈ trail, isBlank b = true)
    (extends_ : extension = [] ∨ ∃ text, extension = 59 :: text ∧ framingLineClean text = true) :
    (lead ++ digits ++ trail ++ extension).takeWhile (· != 59) = lead ++ digits ++ trail := by
  have before : ∀ b ∈ lead ++ digits ++ trail, (b != 59) = true := by
    intro b member
    rw [mem_append, mem_append] at member
    have foreign : ∀ b : UInt8, isBlank b = true ∨ isHexDigit b = true → (b != 59) = true :=
      forall_octet (by decide +kernel)
    refine foreign b ?_
    rcases member with (member | member) | member
    · exact .inl (blankLead b member)
    · exact .inr (valid b member)
    · exact .inl (blankTrail b member)
  rw [takeWhile_append_of_pos before]
  rcases extends_ with rfl | ⟨_, rfl, _⟩
  · rw [takeWhile_nil, append_nil]
  · rw [takeWhile_cons_of_neg (by decide), append_nil]

/-- `parse_chunk_size` accepts the size lines whose size is a machine word. -/
theorem parseChunkSize_eq_some :
    parseChunkSize line = some size ↔ SizeLine line size ∧ size < 2 ^ 64 := by
  constructor
  · intro parsed
    rw [parseChunkSize] at parsed
    dsimp only at parsed
    split_ifs at parsed with clean garbage
    obtain ⟨read, small⟩ := Option.filter_eq_some_iff.mp parsed
    rw [Bool.or_eq_true, not_or, Bool.not_eq_true, isEmpty_eq_false_iff] at garbage
    obtain ⟨lead, trail, whole, blankLead, blankTrail⟩ := exists_trim (line.takeWhile (· != 59))
    refine ⟨⟨lead, _, trail, line.dropWhile (· != 59), ?_, blankLead, garbage.1, read,
      blankTrail, ?_⟩,
      of_decide_eq_true small⟩
    · rw [← whole, takeWhile_append_dropWhile]
    · cases rest : line.dropWhile (· != 59) with
      | nil => exact .inl rfl
      | cons b text =>
        have marker := head?_dropWhile_not (· != (59 : UInt8)) line
        rw [rest, head?_cons] at marker
        have same : b = 59 := by simpa using marker
        refine .inr ⟨text, by rw [same], ?_⟩
        rw [framingLineClean_iff] at clean ⊢
        intro c member
        refine clean c ((dropWhile_suffix (· != 59)).subset ?_)
        rw [rest]
        exact mem_cons_of_mem b member
  · rintro ⟨valid, small⟩
    have clean := framingLineClean_iff.mpr valid.clean
    obtain ⟨_, digits, _, _, rfl, blankLead, nonempty, read, blankTrail, extends_⟩ := valid
    have digitsValid := isHexDigit_of_readHex read
    rw [parseChunkSize, if_pos clean, SizeLine.takeWhile blankLead digitsValid blankTrail extends_,
      trim_append blankLead
        (fun b member => not_isBlank_of_isHexDigit b (digitsValid b member)) nonempty
        blankTrail]
    have proper : ¬(digits.isEmpty || !digits.all isHexDigit) = true := by
      rw [Bool.or_eq_true, not_or, Bool.not_eq_true, isEmpty_eq_false_iff]
      refine ⟨nonempty, ?_⟩
      rw [Bool.not_eq_true', Bool.not_eq_false, all_eq_true]
      exact digitsValid
    rw [if_neg proper, read, Option.filter_some, if_pos (by simpa using small)]

theorem trailerLineValid_iff : trailerLineValid line = true ↔ TrailerLine line := by
  constructor
  · intro valid
    rw [trailerLineValid] at valid
    split at valid
    · contradiction
    · rename_i colon found
      rw [Bool.and_eq_true, Bool.and_eq_true] at valid
      obtain ⟨⟨nonempty, token⟩, clean⟩ := valid
      obtain ⟨_, isColon, _⟩ := findIdx?_eq_some_iff_getElem.mp found
      refine ⟨line.take colon, line.drop (colon + 1), ?_, ?_, all_eq_true.mp token, ?_⟩
      · have here : (line)[colon] = 58 := by simpa using isColon
        rw [← here, getElem_cons_drop, take_append_drop]
      · rwa [Bool.not_eq_true', isEmpty_eq_false_iff] at nonempty
      · rw [framingLineClean_iff] at clean ⊢
        exact fun b member => clean b (mem_of_mem_drop member)
  · rintro ⟨name, value, rfl, nonempty, token, clean⟩
    have foreign : ∀ b : UInt8, isTokenOctet b = true → (b == 58) = false :=
      forall_octet (by decide +kernel)
    have found : (name ++ 58 :: value).findIdx? (· == 58) = some name.length := by
      rw [findIdx?_eq_some_iff_getElem]
      refine ⟨by simp, by simp, fun j small => ?_⟩
      rw [getElem_append_left small, foreign _ (token _ (getElem_mem small))]
      exact Bool.false_ne_true
    rw [trailerLineValid, found]
    dsimp only
    rw [take_left, Bool.and_eq_true, Bool.and_eq_true]
    refine ⟨⟨?_, all_eq_true.mpr token⟩, ?_⟩
    · rw [Bool.not_eq_true', isEmpty_eq_false_iff]
      exact nonempty
    · rw [framingLineClean_iff] at clean ⊢
      intro b member
      rcases mem_append.mp member with member | member
      · exact clean_of_isTokenOctet b (token b member)
      · rcases mem_cons.mp member with rfl | member
        · exact .inr ⟨by decide, by decide⟩
        · exact clean b member

theorem TrailerLine.clean (valid : TrailerLine line) : ∀ b ∈ line, Clean b := by
  have checked := trailerLineValid_iff.mpr valid
  rw [trailerLineValid] at checked
  split at checked
  · contradiction
  · rw [Bool.and_eq_true] at checked
    exact framingLineClean_iff.mp checked.2

theorem TrailerLine.ne_nil (valid : TrailerLine line) : line ≠ [] := by
  obtain ⟨_, _, rfl, _⟩ := valid
  exact append_ne_nil_of_right_ne_nil _ (cons_ne_nil _ _)

end

/-! ## Bodies -/

structure Chunk where
  line : Octets
  data : Octets
  sizes : SizeLine line data.length
  nonempty : data ≠ []

structure Trailer where
  line : Octets
  valid : TrailerLine line

/-- What a chunked body is made of. -/
inductive Piece where
  | chunk (chunk : Chunk)
  | last (line : Octets) (zero : SizeLine line 0)
  | trailer (trailer : Trailer)

namespace Piece

def line : Piece → Octets
  | chunk c => c.line
  | last line _ => line
  | trailer t => t.line

def data : Piece → Octets
  | chunk c => c.data
  | last _ _ => []
  | trailer _ => []

def octets : Piece → Octets
  | chunk c => c.line ++ crlf ++ (c.data ++ crlf)
  | last line _ => line ++ crlf
  | trailer t => t.line ++ crlf

theorem clean : ∀ piece : Piece, ∀ b ∈ piece.line, Clean b
  | chunk c => c.sizes.clean
  | last _ zero => zero.clean
  | trailer t => t.valid.clean

end Piece

/-- One element of the grammar. -/
structure ChunkedBody where
  chunks : List Chunk
  last : Octets
  zero : SizeLine last 0
  trailers : List Trailer

namespace ChunkedBody

def pieces (body : ChunkedBody) : List Piece :=
  body.chunks.map .chunk ++ .last body.last body.zero :: body.trailers.map .trailer

def octets (body : ChunkedBody) : Octets := body.pieces.flatMap Piece.octets ++ crlf

def data (body : ChunkedBody) : Octets := body.pieces.flatMap Piece.data

/-- An offset inside a line, more than the bound of an unterminated line behind its start. -/
def Severed (body : ChunkedBody) (offset : Nat) : Prop :=
  ∃ before piece after, body.pieces = before ++ piece :: after ∧
    (before.flatMap Piece.octets).length + maxChunkLine < offset ∧
    offset < (before.flatMap Piece.octets).length + piece.line.length + 2

end ChunkedBody

/-- The pieces take a decoder from chunks or trailers (`true`) to chunks or trailers. -/
def Leads : Bool → List Piece → Bool → Prop
  | mode, [], final => mode = final
  | false, .chunk _ :: rest, final => Leads false rest final
  | false, .last _ _ :: rest, final => Leads true rest final
  | true, .trailer _ :: rest, final => Leads true rest final
  | _, _, _ => False

theorem leads_trailers (trailers : List Trailer) : Leads true (trailers.map .trailer) true := by
  induction trailers with
  | nil => rfl
  | cons _ _ ih => exact ih

theorem ChunkedBody.leads (body : ChunkedBody) : Leads false body.pieces true := by
  rw [pieces]
  induction body.chunks with
  | nil => exact leads_trailers body.trailers
  | cons _ _ ih => exact ih

theorem exists_trailers {pieces : List Piece} (leads : Leads true pieces true) :
    ∃ trailers : List Trailer, pieces = trailers.map .trailer := by
  induction pieces with
  | nil => exact ⟨[], rfl⟩
  | cons piece _ ih =>
    cases piece with
    | chunk | last => exact leads.elim
    | trailer t =>
      obtain ⟨trailers, same⟩ := ih leads
      exact ⟨t :: trailers, by rw [same, map_cons]⟩

theorem exists_body {pieces : List Piece} (leads : Leads false pieces true) :
    ∃ body : ChunkedBody, body.pieces = pieces := by
  induction pieces with
  | nil => nomatch leads
  | cons piece _ ih =>
    cases piece with
    | chunk c =>
      obtain ⟨body, same⟩ := ih leads
      exact ⟨{ body with chunks := c :: body.chunks }, by rw [← same]; rfl⟩
    | last line zero =>
      obtain ⟨trailers, same⟩ := exists_trailers leads
      exact ⟨⟨[], line, zero, trailers⟩, by rw [same]; rfl⟩
    | trailer => exact leads.elim

theorem Leads.append {mode middle final : Bool} {first second : List Piece}
    (one : Leads mode first middle) (two : Leads middle second final) :
    Leads mode (first ++ second) final := by
  induction first generalizing mode with
  | nil =>
    rw [show mode = middle from one]
    exact two
  | cons piece _ ih =>
    cases mode <;> cases piece
    · exact ih one
    · exact ih one
    · exact one.elim
    · exact one.elim
    · exact one.elim
    · exact ih one

end HttpJet.H1
