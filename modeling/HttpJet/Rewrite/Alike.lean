import HttpJet.Rewrite.Evaluate

/-!
# Rules that read the same

In two evaluations side by side, both miss a rule, both match or both end, and their states stay
related; or one of them ends in an outcome that is left out of the comparison.  Two inputs that give
the templates of a rule the same values pass or fail its conditions together, and it does the same
when it fires.  How much of the captures has to agree is a parameter: `%N` for the numbers in `K`,
`$N` for those in `J`.
-/

namespace HttpJet.Rewrite

open Hpack.Integer (Octets)
open Hpack.StaticTable (ascii)
open H2 (eqIgnoreCase)

/-- Two applications of a rule go the same way. -/
inductive Applied.Alike (R : EvalState → EvalState → Prop) (LeftOut : RewriteOutcome → Prop) :
    Applied → Applied → Prop where
  | missed {state1 state2 : EvalState} (related : R state1 state2) :
      Applied.Alike R LeftOut (.missed state1) (.missed state2)
  | terminal (outcome : RewriteOutcome) : Applied.Alike R LeftOut (.terminal outcome)
      (.terminal outcome)
  | matched (last stop : Bool) {state1 state2 : EvalState} (related : R state1 state2) :
      Applied.Alike R LeftOut (.matched last stop state1) (.matched last stop state2)
  | restart {state1 state2 : EvalState} (related : R state1 state2) :
      Applied.Alike R LeftOut (.restart state1) (.restart state2)
  | first {outcome : RewriteOutcome} (out : LeftOut outcome) (other : Applied) :
      Applied.Alike R LeftOut (.terminal outcome) other
  | second {outcome : RewriteOutcome} (out : LeftOut outcome) (other : Applied) :
      Applied.Alike R LeftOut other (.terminal outcome)

def OutcomeAlike (LeftOut : RewriteOutcome → Prop) (first second : RewriteOutcome) : Prop :=
  first = second ∨ LeftOut first ∨ LeftOut second

/-- A restart is counted. -/
def EvalState.bump (state : EvalState) : EvalState :=
  { state with nextLoops := state.nextLoops + 1 }

/-- What a relation of states needs for the passes to go on from it. -/
structure Lockstep (R : EvalState → EvalState → Prop) (LeftOut : RewriteOutcome → Prop)
    (input1 input2 : RewriteInput) : Prop where
  loops : ∀ {state1 state2}, R state1 state2 → state1.nextLoops = state2.nextLoops
  bump : ∀ {state1 state2}, R state1 state2 → R state1.bump state2.bump
  conclude : ∀ {state1 state2} (stop : Bool), R state1 state2 →
    OutcomeAlike LeftOut (conclude input1 stop state1) (conclude input2 stop state2)

inductive PassResult.Alike (R : EvalState → EvalState → Prop) (LeftOut : RewriteOutcome → Prop) :
    PassResult → PassResult → Prop where
  | terminal {outcome1 outcome2 : RewriteOutcome} (alike : OutcomeAlike LeftOut outcome1 outcome2) :
      PassResult.Alike R LeftOut (.terminal outcome1) (.terminal outcome2)
  | done (stop : Bool) {state1 state2 : EvalState} (related : R state1 state2) :
      PassResult.Alike R LeftOut (.done stop state1) (.done stop state2)
  | restart {state1 state2 : EvalState} (related : R state1 state2) :
      PassResult.Alike R LeftOut (.restart state1) (.restart state2)
  | first {outcome : RewriteOutcome} (out : LeftOut outcome) (other : PassResult) :
      PassResult.Alike R LeftOut (.terminal outcome) other
  | second {outcome : RewriteOutcome} (out : LeftOut outcome) (other : PassResult) :
      PassResult.Alike R LeftOut other (.terminal outcome)

section Passes

variable {ρ σ : Type} {flags1 : ρ → RuleFlags} {flags2 : σ → RuleFlags}
    {apply1 : ρ → EvalState → Applied}
  {apply2 : σ → EvalState → Applied} {R : EvalState → EvalState → Prop}
    {LeftOut : RewriteOutcome → Prop}
  {input1 input2 : RewriteInput}

/-- Two rules steer a pass the same way. -/
structure RulesAlike (flags1 : ρ → RuleFlags) (flags2 : σ → RuleFlags)
    (apply1 : ρ → EvalState → Applied)
    (apply2 : σ → EvalState → Applied) (R : EvalState → EvalState → Prop)
    (LeftOut : RewriteOutcome → Prop)
    (rule1 : ρ) (rule2 : σ) : Prop where
  chain : (flags1 rule1).chain = (flags2 rule2).chain
  skip : (flags1 rule1).skip = (flags2 rule2).skip
  apply : ∀ state1 state2,
    R state1 state2 → Applied.Alike R LeftOut (apply1 rule1 state1) (apply2 rule2 state2)

theorem runPass_alike (lockstep : Lockstep R LeftOut input1 input2) {rules1 : List ρ}
    {rules2 : List σ}
    (alike : List.Forall₂ (RulesAlike flags1 flags2 apply1 apply2 R LeftOut) rules1 rules2) :
    ∀ (skip : Nat) (chained : Bool) (state1 state2 : EvalState), R state1 state2 →
      PassResult.Alike R LeftOut (runPass flags1 apply1 skip chained rules1 state1)
        (runPass flags2 apply2 skip chained rules2 state2) := by
  induction alike with
  | nil =>
    intro skip chained state1 state2 related
    cases skip <;> cases chained <;> exact .done false related
  | @cons rule1 rule2 _ _ here _ ih =>
    intro skip chained state1 state2 related
    cases skip with
    | succ skip => exact ih skip false state1 state2 related
    | zero =>
      cases chained with
      | true =>
        rw [runPass, runPass, here.chain]
        exact ih 0 _ state1 state2 related
      | false =>
        rw [runPass, runPass]
        have both := here.apply state1 state2 related
        generalize apply1 rule1 state1 = applied1 at both
        generalize apply2 rule2 state2 = applied2 at both
        cases both with
        | missed related =>
          rw [here.chain]
          exact ih 0 _ _ _ related
        | terminal => exact .terminal (.inl rfl)
        | matched last stop related =>
          cases last with
          | true => exact .done stop related
          | false =>
            rw [here.skip]
            exact ih _ false _ _ related
        | restart related =>
          have bumped := lockstep.bump related
          dsimp only
          rw [lockstep.loops related]
          split
          · exact .done false
              (by rwa [EvalState.bump, EvalState.bump, lockstep.loops related] at bumped)
          · exact .restart
              (by rwa [EvalState.bump, EvalState.bump, lockstep.loops related] at bumped)
        | first out => exact .first out _
        | second out => exact .second out _

/-- Two evaluations that stay related give the same outcome, or one that is left out. -/
theorem passes_alike (lockstep : Lockstep R LeftOut input1 input2) {rules1 : List ρ}
    {rules2 : List σ}
    (alike : List.Forall₂ (RulesAlike flags1 flags2 apply1 apply2 R LeftOut) rules1 rules2)
    (fuel : Nat) {state1 state2 : EvalState} (related : R state1 state2) :
    OutcomeAlike LeftOut (passes flags1 apply1 input1 rules1 fuel state1)
      (passes flags2 apply2 input2 rules2 fuel state2) := by
  induction fuel generalizing state1 state2 with
  | zero => exact lockstep.conclude false related
  | succ _ ih =>
    rw [passes, passes]
    have both := runPass_alike lockstep alike 0 false state1 state2 related
    generalize runPass flags1 apply1 0 false rules1 state1 = result1 at both
    generalize runPass flags2 apply2 0 false rules2 state2 = result2 at both
    cases both with
    | terminal same => exact same
    | done stop related => exact lockstep.conclude stop related
    | restart related => exact ih related
    | first out => exact .inr (.inl out)
    | second out => exact .inr (.inr out)

end Passes

/-- What the frame of an evaluation reads of a request. -/
structure InputsAlike (input1 input2 : RewriteInput) : Prop where
  uri : input1.uri = input2.uri
  query : input1.query = input2.query
  docroot : input1.docroot = input2.docroot
  stat : input1.stat = input2.stat
  perDirectory : input1.perDirectoryPrefix = input2.perDirectoryPrefix

/-- The states of two evaluations between two rules. -/
structure StateAlike (input : RewriteInput) (state1 state2 : EvalState) : Prop where
  uri : state1.uri = state2.uri
  query : state1.query = state2.query
  env : state1.env = state2.env
  envOrder : state1.envOrder = state2.envOrder
  envUnset : state1.envUnset = state2.envUnset
  prefilterValid : state1.prefilterValid = state2.prefilterValid
  pendingAbsolute : state1.pendingAbsolute = state2.pendingAbsolute
  uriEscaped : state1.uriEscaped = state2.uriEscaped
  nextLoops : state1.nextLoops = state2.nextLoops
  memo : MemoAlike input state1.memo state2.memo

def EvalState.spansAt (state : EvalState) (k : Nat) : Spans :=
  (state.lastCondEscaped.map fun spans => spans k).getD []

/-- The captures of the conditions agree on some numbers. -/
def CondsAgree (K : Nat → Prop) (state1 state2 : EvalState) : Prop :=
  ∀ k, K k → state1.lastCondCaps k = state2.lastCondCaps k ∧ state1.spansAt k = state2.spansAt k

def CapsAgree (J : Nat → Prop) (caps1 caps2 : Caps) : Prop := ∀ k, J k → caps1 k = caps2 k

/-- A variable has the same value for two inputs. -/
def VarAlike (input1 input2 : RewriteInput) (var : Var) : Prop :=
  ∀ uri query env memo1 memo2, MemoAlike input1 memo1 memo2 →
    (resolveVar input1 uri query env memo1 var).1 = (resolveVar input2 uri query env memo2 var).1 ∧
      MemoAlike input1 (resolveVar input1 uri query env memo1 var).2
        (resolveVar input2 uri query env memo2 var).2

/-- A template reads only what agrees. -/
structure TemplateAlike (input1 input2 : RewriteInput) (K J : Nat → Prop)
    (template : Octets) : Prop where
  vars : ∀ name, .var name ∈ pieces template → VarAlike input1 input2 (Var.ofName name)
  condRefs : ∀ k, .condRef k ∈ pieces template → K k
  ruleRefs : ∀ k, .ruleRef k ∈ pieces template → J k

namespace StateAlike

variable {input : RewriteInput} {state1 state2 : EvalState} (alike : StateAlike input state1 state2)

include alike

theorem envVec : state1.envVec = state2.envVec := by
  rw [EvalState.envVec, EvalState.envVec, alike.envOrder, alike.envUnset, alike.env]

theorem withMemo {memo1 memo2 : FsMemo} (memos : MemoAlike input memo1 memo2) :
    StateAlike input { state1 with memo := memo1 } { state2 with memo := memo2 } :=
  { alike with memo := memos }

theorem withConds (caps1 caps2 : Caps) (escaped1 escaped2 : Option CondEscaped) :
    StateAlike input { state1 with lastCondCaps := caps1, lastCondEscaped := escaped1 }
      { state2 with lastCondCaps := caps2, lastCondEscaped := escaped2 } :=
  { alike with }

theorem recordEnv (key value : Octets) :
    StateAlike input (state1.recordEnv key value) (state2.recordEnv key value) := by
  rw [EvalState.recordEnv.eq_def, EvalState.recordEnv.eq_def]
  split
  · split
    · exact alike
    · exact { alike with
        env := by rw [alike.env]
        envOrder := by rw [alike.envOrder]
        envUnset := by rw [alike.envUnset] }
  · exact { alike with
      env := by rw [alike.env]
      envOrder := by rw [alike.envOrder]
      envUnset := by rw [alike.envUnset] }

theorem bump : StateAlike input state1.bump state2.bump :=
  { alike with nextLoops := congrArg (· + 1) alike.nextLoops }

end StateAlike

section Templates

variable {input1 input2 : RewriteInput} {K J : Nat → Prop} {state1 state2 : EvalState}
    {caps1 caps2 : Caps}

/-- A template has the same value in alike states. -/
theorem TemplateAlike.agree {template : Octets}
    (template' : TemplateAlike input1 input2 K J template)
    (states : StateAlike input1 state1 state2) (conds : CondsAgree K state1 state2)
    (caps : CapsAgree J caps1 caps2) :
    (state1.scope input1 caps1).Agree (state2.scope input2 caps2) template := by
  intro piece member
  cases piece with
  | literal => exact True.intro
  | var name =>
    intro memo1 memo2 alike
    dsimp only [EvalState.scope]
    rw [states.uri, states.query, states.env]
    exact template'.vars name member _ _ _ memo1 memo2 alike
  | condRef k => exact conds k (template'.condRefs k member)
  | ruleRef k => exact caps k (template'.ruleRefs k member)

end Templates

/-! ## Conditions -/

inductive Verdict.Alike (input : RewriteInput) : Option Verdict → Option Verdict → Prop where
  | failed : Verdict.Alike input none none
  | verdict (result : Bool) (caps : Option (Caps × Option CondEscaped)) {memo1 memo2 : FsMemo}
      (memos : MemoAlike input memo1 memo2) :
      Verdict.Alike input (some ⟨result, caps, memo1⟩) (some ⟨result, caps, memo2⟩)

/-- The results of one condition, or of all conditions of a rule. -/
inductive ResultsAlike (input : RewriteInput) (K : Nat → Prop) :
    Option (Bool × EvalState) → Option (Bool × EvalState) → Prop where
  | failed : ResultsAlike input K none none
  | verdict (passed : Bool) {state1 state2 : EvalState} (states : StateAlike input state1 state2)
      (conds : CondsAgree K state1 state2) : ResultsAlike input K (some (passed, state1))
        (some (passed, state2))

/-- A condition says the same in alike states. -/
def CondAlike (engine : Engine) (input1 input2 : RewriteInput) (K J : Nat → Prop)
    (cond : Cond) : Prop :=
  ∀ state1 state2 caps1 caps2, StateAlike input1 state1 state2 → CondsAgree K state1 state2 →
    CapsAgree J caps1 caps2 →
    ResultsAlike input1 K (evalOneCond engine input1 caps1 cond state1)
      (evalOneCond engine input2 caps2 cond state2)

section Conditions

variable {engine : Engine} {input1 input2 : RewriteInput} {K J : Nat → Prop}
    (inputs : InputsAlike input1 input2)

theorem CondsAgree.reset (K : Nat → Prop) (state1 state2 : EvalState) :
    CondsAgree K state1.resetConds state2.resetConds := fun _ _ => ⟨rfl, rfl⟩

include inputs in
theorem condResult_alike (engine : Engine) {cond : Cond} {scope1 scope2 : Scope}
    (isInput1 : scope1.input = input1)
    (isInput2 : scope2.input = input2) (agree : ∀ text ∈ cond.strings, scope1.Agree scope2 text)
    {test1 test2 : Expanded} (tests : test1.Alike input1 test2) :
    Verdict.Alike input1 (condResult engine cond scope1 test1)
      (condResult engine cond scope2 test2) := by
  subst isInput1 isInput2
  rw [condResult, condResult, tests.out, tests.escaped]
  cases pattern : cond.pattern with
  | regex source =>
    dsimp only
    cases engine.capturesChecked ⟨source, cond.nocase⟩ test2.out with
    | error => exact .failed
    | ok groups =>
      cases groups with
      | none | some => exact .verdict _ _ tests.memo
  | fileTest kind =>
    obtain ⟨result, memos⟩ := fileTest_alike inputs.stat tests.memo test2.out kind
    dsimp only
    rw [result]
    exact .verdict _ _ memos
  | urlAccess => exact .verdict _ _ tests.memo
  | lexical _ rhs | numeric _ rhs =>
    obtain ⟨value, memos⟩ := expand_alike (agree rhs (by simp [Cond.strings, pattern])) tests.memo
    dsimp only
    rw [value]
    exact .verdict _ _ memos

include inputs in
/-- A condition whose texts read the same says the same. -/
theorem condAlike_of_strings {cond : Cond}
    (strings : ∀ text ∈ cond.strings, TemplateAlike input1 input2 K J text) :
    CondAlike engine input1 input2 K J cond := by
  intro state1 state2 caps1 caps2 states conds caps
  have agree : ∀ text ∈ cond.strings,
    (state1.scope input1 caps1).Agree (state2.scope input2 caps2) text :=
    fun text member => (strings text member).agree states conds caps
  have mode : state1.testMode = state2.testMode := by
    rw [EvalState.testMode, EvalState.testMode, states.uriEscaped]
  rw [evalOneCond, evalOneCond, mode]
  have tests :=
    expandWith_alike (agree cond.testString List.mem_cons_self) state2.testMode states.memo
  have verdicts := condResult_alike inputs engine rfl rfl agree tests
  generalize condResult engine cond (state1.scope input1 caps1) _ = verdict1 at verdicts
  generalize condResult engine cond (state2.scope input2 caps2) _ = verdict2 at verdicts
  cases verdicts with
  | failed => exact .failed
  | verdict result found memos =>
    have moved := states.withMemo memos
    rw [Option.map_some, Option.map_some, commitVerdict, commitVerdict]
    cases result ^^ cond.negate with
    | false => exact .verdict false moved conds
    | true =>
      cases found with
      | none => exact .verdict true moved conds
      | some => exact .verdict true (moved.withConds ..) (fun _ _ => ⟨rfl, rfl⟩)

theorem evalConds_alike {conds : List Cond}
    (alike : ∀ cond ∈ conds, CondAlike engine input1 input2 K J cond)
    {caps1 caps2 : Caps} (caps : CapsAgree J caps1 caps2) (satisfied : Bool)
    {state1 state2 : EvalState}
    (states : StateAlike input1 state1 state2) (agree : CondsAgree K state1 state2) :
    ResultsAlike input1 K (evalConds engine input1 caps1 satisfied conds state1)
      (evalConds engine input2 caps2 satisfied conds state2) := by
  induction conds generalizing satisfied state1 state2 with
  | nil =>
    exact .verdict true states agree
  | cons cond rest ih =>
    have later : ∀ satisfied {state1 state2},
      StateAlike input1 state1 state2 → CondsAgree K state1 state2 →
        ResultsAlike input1 K (evalConds engine input1 caps1 satisfied rest state1)
          (evalConds engine input2 caps2 satisfied rest state2) :=
      fun satisfied _ _ states agree =>
        ih (fun other member => alike other (List.mem_cons_of_mem _ member)) satisfied states agree
    cases satisfied with
    | true => exact later cond.orNext states agree
    | false =>
      rw [evalConds, evalConds]
      have here := alike cond List.mem_cons_self state1 state2 caps1 caps2 states agree caps
      generalize evalOneCond engine input1 caps1 cond state1 = result1 at here
      generalize evalOneCond engine input2 caps2 cond state2 = result2 at here
      cases here with
      | failed => exact .failed
      | verdict passed states agree =>
        cases passed with
        | true => exact later cond.orNext states agree
        | false =>
          dsimp only
          split
          · exact later false states agree
          · exact .verdict false states agree

end Conditions

/-! ## Firing -/

/-- A redirect reads the same of both requests, or redirects are left out. -/
def RedirectsAlike (input1 input2 : RewriteInput) (LeftOut : RewriteOutcome → Prop) : Prop :=
  (∀ location, fullyQualifyRedirect location input1 = fullyQualifyRedirect location input2 ∧
      absoluteTargetIsCurrent location input1 = absoluteTargetIsCurrent location input2) ∨
    ∀ code location env, LeftOut (.redirect code location env)

section Fire

variable {input1 input2 : RewriteInput} {K J : Nat → Prop} {LeftOut : RewriteOutcome → Prop}
  {state1 state2 : EvalState} {caps1 caps2 : Caps}

theorem CondsAgree.congr {other1 other2 : EvalState} (agree : CondsAgree K state1 state2)
    (caps1 : other1.lastCondCaps = state1.lastCondCaps)
    (escaped1 : other1.lastCondEscaped = state1.lastCondEscaped)
    (caps2 : other2.lastCondCaps = state2.lastCondCaps)
    (escaped2 : other2.lastCondEscaped = state2.lastCondEscaped) :
    CondsAgree K other1 other2 := by
  intro k inside
  rw [EvalState.spansAt, EvalState.spansAt, caps1, caps2, escaped1, escaped2]
  exact agree k inside

theorem EvalState.recordEnv_conds (state : EvalState) (key value : Octets) :
    (state.recordEnv key value).lastCondCaps = state.lastCondCaps ∧
      (state.recordEnv key value).lastCondEscaped = state.lastCondEscaped := by
  rw [EvalState.recordEnv.eq_def]
  split
  · split
    · exact ⟨rfl, rfl⟩
    · exact ⟨rfl, rfl⟩
  · exact ⟨rfl, rfl⟩

theorem applyEnvSet_alike (flags : RuleFlags) {set : Octets × Octets}
    (key : TemplateAlike input1 input2 K J set.1) (value : TemplateAlike input1 input2 K J set.2)
    (caps : CapsAgree J caps1 caps2) (host : Option Octets)
    (states : StateAlike input1 state1 state2)
    (conds : CondsAgree K state1 state2) :
    ∃ out1 out2 host', applyEnvSet input1 flags caps1 (state1, host) set = (out1, host') ∧
      applyEnvSet input2 flags caps2 (state2, host) set = (out2, host') ∧
        StateAlike input1 out1 out2 ∧
      CondsAgree K out1 out2 := by
  obtain ⟨keys, memos⟩ := expand_alike (key.agree states conds caps) states.memo
  obtain ⟨values, memos⟩ := expand_alike (value.agree states conds caps) memos
  have moved := states.withMemo memos
  rw [applyEnvSet, applyEnvSet]
  dsimp only
  rw [keys, values]
  split
  · exact ⟨_, _, _, rfl, rfl, moved, conds⟩
  · refine ⟨_, _, _, rfl, rfl, moved.recordEnv .., conds.congr ?_ ?_ ?_ ?_⟩
    · exact (EvalState.recordEnv_conds ..).1
    · exact (EvalState.recordEnv_conds ..).2
    · exact (EvalState.recordEnv_conds ..).1
    · exact (EvalState.recordEnv_conds ..).2

theorem envSets_alike (flags : RuleFlags) {sets : List (Octets × Octets)}
    (strings : ∀ set ∈ sets, TemplateAlike input1 input2 K J set.1 ∧
      TemplateAlike input1 input2 K J set.2)
    (caps : CapsAgree J caps1 caps2) (host : Option Octets)
    (states : StateAlike input1 state1 state2)
    (conds : CondsAgree K state1 state2) :
    ∃ out1 out2 host', sets.foldl (applyEnvSet input1 flags caps1) (state1, host) = (out1, host') ∧
      sets.foldl (applyEnvSet input2 flags caps2) (state2, host) = (out2, host') ∧
        StateAlike input1 out1 out2 ∧
      CondsAgree K out1 out2 := by
  induction sets generalizing state1 state2 host with
  | nil => exact ⟨state1, state2, host, rfl, rfl, states, conds⟩
  | cons set _ ih =>
    obtain ⟨here1, here2⟩ := strings set List.mem_cons_self
    obtain ⟨_, _, host', set1, set2, states', conds'⟩ :=
      applyEnvSet_alike flags here1 here2 caps host states conds
    rw [List.foldl_cons, List.foldl_cons, set1, set2]
    exact ih (fun other member => strings other (List.mem_cons_of_mem _ member)) host'
      states' conds'

section Subst

variable (flags : RuleFlags) {subst : Octets} (strings : TemplateAlike input1 input2 K J subst)
  (caps : CapsAgree J caps1 caps2) (states : StateAlike input1 state1 state2)
    (conds : CondsAgree K state1 state2)

include strings caps states conds

theorem expandSubst_alike (escapePct : Bool) {memo1 memo2 : FsMemo}
    (memos : MemoAlike input1 memo1 memo2) :
    (expandSubst input1 subst flags caps1 state1 escapePct memo1).1 =
        (expandSubst input2 subst flags caps2 state2 escapePct memo2).1 ∧
      MemoAlike input1 (expandSubst input1 subst flags caps1 state1 escapePct memo1).2
        (expandSubst input2 subst flags caps2 state2 escapePct memo2).2 := by
  rw [expandSubst, expandSubst, states.uriEscaped]
  have both := expandWith_alike (strings.agree states conds caps)
    (.subst ⟨flags.backrefEscape, flags.allow3f, escapePct, state2.uriEscaped⟩) memos
  exact ⟨both.out, both.memo⟩

theorem expandTarget_alike :
    (expandTarget input1 subst flags caps1 state1).1 =
      (expandTarget input2 subst flags caps2 state2).1 ∧
      MemoAlike input1 (expandTarget input1 subst flags caps1 state1).2
        (expandTarget input2 subst flags caps2 state2).2 := by
  obtain ⟨same, memos⟩ := expandSubst_alike flags strings caps states conds
    (!(flags.noescape && (flags.redirect.isSome || flags.proxy))) states.memo
  rw [expandTarget, expandTarget]
  dsimp only
  rw [same]
  split
  · exact expandSubst_alike flags strings caps states conds false memos
  · exact ⟨rfl, memos⟩

end Subst

section Use

variable (inputs : InputsAlike input1 input2) (redirects : RedirectsAlike input1 input2 LeftOut)
  (base : Option Octets) (flags : RuleFlags)

include inputs

theorem resolveSubstPath_alike (path : Octets) :
    resolveSubstPath base input1 path = resolveSubstPath base input2 path := by
  unfold resolveSubstPath
  rw [inputs.perDirectory]

theorem redirectTarget_alike (target : Option Octets) (states : StateAlike input1 state1 state2) :
    redirectTarget input1 base flags target state1 =
      redirectTarget input2 base flags target state2 := by
  unfold redirectTarget
  rw [states.query]
  cases target with
  | some =>
    dsimp only
    rw [resolveSubstPath_alike inputs]
  | none =>
    rw [states.uri]

include redirects

theorem useTarget_alike (subst : Octets) (proxyHost target : Option Octets)
    (states : StateAlike input1 state1 state2) :
    Applied.Alike (StateAlike input1) LeftOut
      (useTarget input1 base subst flags proxyHost target state1)
      (useTarget input2 base subst flags proxyHost target state2) := by
  unfold useTarget
  rw [states.envVec]
  split
  · rw [states.uri, states.query]
    exact .terminal _
  · split
    · split
      · rw [redirectLocation, redirectLocation,
          redirectTarget_alike inputs base flags target states]
        cases redirects with
        | inl same =>
          rw [(same _).1]
          exact .terminal _
        | inr out => exact .first (out ..) _
      · exact .terminal _
    · have adopted (target : Octets) :
          StateAlike input1 (adoptTarget input1 base flags target state1)
          (adoptTarget input2 base flags target state2) := by
        rw [adoptTarget, adoptTarget]
        exact { states with
          uri := by dsimp only; rw [resolveSubstPath_alike inputs]
          query := by rw [states.query]
          env := by rw [states.env]
          prefilterValid := rfl
          pendingAbsolute := rfl
          uriEscaped := rfl }
      have kept : StateAlike input1 (if flags.qsd then { state1 with query := [] } else state1)
          (if flags.qsd then { state2 with query := [] } else state2) := by
        split
        · exact { states with query := rfl }
        · exact states
      cases target with
      | some target =>
        dsimp only
        split
        · exact .restart (adopted target)
        · exact .matched _ _ (adopted target)
      | none =>
        dsimp only
        split
        · exact .restart kept
        · exact .matched _ _ kept

/-- A rule whose texts read the same does the same when it fires. -/
theorem fire_alike {subst : Octets} (target : TemplateAlike input1 input2 K J subst)
    (sets : ∀ set ∈ flags.envSets, TemplateAlike input1 input2 K J set.1 ∧
      TemplateAlike input1 input2 K J set.2)
    (caps : CapsAgree J caps1 caps2) (states : StateAlike input1 state1 state2)
    (conds : CondsAgree K state1 state2) :
    Applied.Alike (StateAlike input1) LeftOut (fire input1 base subst flags caps1 state1)
      (fire input2 base subst flags caps2 state2) := by
  obtain ⟨_, _, host, sets1, sets2, states, conds⟩ :=
    envSets_alike flags sets caps none states conds
  rw [fire, fire, sets1, sets2]
  dsimp only
  rw [states.envVec]
  split
  · exact .terminal _
  · split
    · exact .terminal _
    · split
      · exact useTarget_alike inputs redirects base flags subst host none states
      · obtain ⟨same, memos⟩ := expandTarget_alike flags target caps states conds
        rw [substTarget, substTarget]
        dsimp only
        rw [same]
        exact useTarget_alike inputs redirects base flags subst host _ (states.withMemo memos)

end Use

theorem afterConditions_alike {engine : Engine} {conds : List Cond}
    {R : EvalState → EvalState → Prop}
    (alike : ∀ cond ∈ conds, CondAlike engine input1 input2 K J cond)
    (caps : CapsAgree J caps1 caps2)
    (weaker : ∀ {state1 state2}, StateAlike input1 state1 state2 → R state1 state2)
    (states : StateAlike input1 state1 state2) {go1 go2 : EvalState → Applied}
    (goes : ∀ state1 state2, StateAlike input1 state1 state2 → CondsAgree K state1 state2 →
      Applied.Alike R LeftOut (go1 state1) (go2 state2)) :
    Applied.Alike R LeftOut (afterConditions engine input1 caps1 conds state1 go1)
      (afterConditions engine input2 caps2 conds state2 go2) := by
  rw [afterConditions, afterConditions, evalConditions, evalConditions, states.envVec]
  have results := evalConds_alike alike caps false (states.withConds emptyCaps emptyCaps none none)
    (CondsAgree.reset K state1 state2)
  rw [EvalState.resetConds, EvalState.resetConds]
  generalize evalConds engine input1 caps1 false conds _ = result1 at results
  generalize evalConds engine input2 caps2 false conds _ = result2 at results
  cases results with
  | failed => exact .terminal _
  | verdict passed states agree =>
    cases passed with
    | false => exact .missed (weaker states)
    | true => exact goes _ _ states agree

end Fire

/-! ## Applying a rule -/

/-- Everything a rule reads is the same for two inputs. -/
structure RuleReads (engine : Engine) (input1 input2 : RewriteInput) (K : Nat → Prop)
    (rule : Rule) : Prop where
  conds : ∀ cond ∈ rule.conds, CondAlike engine input1 input2 K (fun _ => True) cond
  subst : TemplateAlike input1 input2 K (fun _ => True) rule.subst
  sets : ∀ set ∈ rule.flags.envSets,
    TemplateAlike input1 input2 K (fun _ => True) set.1 ∧
      TemplateAlike input1 input2 K (fun _ => True) set.2

section Apply

variable {engine : Engine} {input1 input2 : RewriteInput} {K : Nat → Prop}
    {LeftOut : RewriteOutcome → Prop}
  (inputs : InputsAlike input1 input2)

include inputs in
theorem selectMatchTarget_alike (source uri : Octets) :
    selectMatchTarget source input1 uri = selectMatchTarget source input2 uri := by
  rw [selectMatchTarget, selectMatchTarget, ruleMatchTarget, ruleMatchTarget, inputs.perDirectory]

include inputs in
theorem afterPattern_alike (rule : Rule) {state1 state2 : EvalState}
    (states : StateAlike input1 state1 state2)
    {go1 go2 : Caps → EvalState → Applied}
    (goes : ∀ caps, Applied.Alike (StateAlike input1) LeftOut (go1 caps state1) (go2 caps state2)) :
    Applied.Alike (StateAlike input1) LeftOut (afterPattern engine input1 rule state1 go1)
      (afterPattern engine input2 rule state2 go2) := by
  rw [afterPattern, afterPattern, selectMatchTarget_alike inputs, states.uri, states.envVec]
  cases matchPattern engine rule (selectMatchTarget rule.patternSrc input2 state2.uri) with
  | error => exact .terminal _
  | ok caps =>
    cases caps with
    | none => exact .missed states
    | some caps => exact goes caps

include inputs in
section

variable (redirects : RedirectsAlike input1 input2 LeftOut)
include redirects

/-- A rule that reads the same goes the same way. -/
theorem applyRule_alike (rs : RuleSet) (hits : Option (Nat → Bool)) {rule : Rule}
    (reads : RuleReads engine input1 input2 K rule) {state1 state2 : EvalState}
    (states : StateAlike input1 state1 state2) :
    Applied.Alike (StateAlike input1) LeftOut (applyRule engine rs input1 hits rule state1)
      (applyRule engine rs input2 hits rule state2) := by
  have fires : ∀ caps state1 state2, StateAlike input1 state1 state2 → CondsAgree K state1 state2 →
      Applied.Alike (StateAlike input1) LeftOut
        (fire input1 rs.base rule.subst rule.flags caps state1)
        (fire input2 rs.base rule.subst rule.flags caps state2) :=
    fun caps _ _ states agree =>
      fire_alike inputs redirects rs.base rule.flags reads.subst reads.sets (fun _ _ => rfl)
        states agree
  have rejects : prefilterRejects rule hits state1 = prefilterRejects rule hits state2 := by
    unfold prefilterRejects
    rw [states.prefilterValid]
  rw [applyRule, applyRule, rejects, selectMatchTarget_alike inputs, states.uri]
  split
  · exact .missed states
  · split
    · exact .missed states
    · split
      · refine afterConditions_alike reads.conds (fun _ _ => rfl) (fun states => states) states ?_
        intro state1 state2 states agree
        exact afterPattern_alike inputs rule states
          (fun caps => fires caps state1 state2 states agree)
      · refine afterPattern_alike inputs rule states (fun caps => ?_)
        exact afterConditions_alike reads.conds (fun _ _ => rfl) (fun states => states) states
          (fires caps)

include inputs in
theorem conclude_alike {state1 state2 : EvalState} (stop : Bool)
    (states : StateAlike input1 state1 state2) :
    OutcomeAlike LeftOut (conclude input1 stop state1) (conclude input2 stop state2) := by
  rw [conclude, conclude, states.pendingAbsolute, states.uri, states.query, states.envVec,
    inputs.uri, inputs.query]
  split
  · cases redirects with
    | inl same =>
      dsimp only
      rw [(same _).2]
      exact .inl rfl
    | inr out =>
      dsimp only
      generalize (state2.uri ++ if state2.query.isEmpty then [] else 63 :: state2.query) = location
      cases absoluteTargetIsCurrent location input1 with
      | false => exact .inr (.inl (out ..))
      | true =>
        cases absoluteTargetIsCurrent location input2 with
        | false => exact .inr (.inr (out ..))
        | true => exact .inl rfl
  · exact .inl rfl

include inputs in
/-- Two evaluations of a rule set, rule by rule. -/
theorem evaluateWithEngine_alike {rs : RuleSet}
    (rules : ∀ hits, ∀ rule ∈ rs.rules, ∀ state1 state2, StateAlike input1 state1 state2 →
      Applied.Alike (StateAlike input1) LeftOut (applyRule engine rs input1 hits rule state1)
        (applyRule engine rs input2 hits rule state2))
    (engineOn : Bool) : OutcomeAlike LeftOut (evaluateWithEngine engine rs input1 engineOn)
      (evaluateWithEngine engine rs input2 engineOn) := by
  have sameHits : prefilterHits engine rs input1 = prefilterHits engine rs input2 := by
    rw [prefilterHits, prefilterHits, ruleMatchTarget, ruleMatchTarget,
      inputs.perDirectory, inputs.uri]
  have both : List.Forall₂ (RulesAlike Rule.flags Rule.flags
      (applyRule engine rs input1 (prefilterHits engine rs input2))
      (applyRule engine rs input2 (prefilterHits engine rs input2)) (StateAlike input1) LeftOut)
        rs.rules rs.rules :=
    List.forall₂_same.mpr fun rule member => ⟨rfl, rfl, rules _ rule member⟩
  have start : StateAlike input1 (.start input1 true) (.start input2 true) :=
    ⟨inputs.uri, inputs.query, rfl, rfl, rfl, rfl, rfl, rfl, rfl,
      .of_valid (FsMemo.fresh_valid input1 true)⟩
  rw [evaluateWithEngine, evaluateWithEngine, sameHits]
  split
  · have lockstep : Lockstep (StateAlike input1) LeftOut input1 input2 :=
      ⟨fun states => states.nextLoops, fun states => states.bump, conclude_alike inputs redirects⟩
    exact passes_alike lockstep both (maxIterations + 1) start
  · exact .inl rfl

end

end Apply

end HttpJet.Rewrite
