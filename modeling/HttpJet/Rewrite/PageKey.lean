import HttpJet.Rewrite.KeyedReads

/-!
# The page-cache key

A rule set without an unkeyed read reads only what the key of the page cache holds, or the headers
it varies on.  Rules that end the request outside of the cache when they fire are exempt: one that
does not fire leaves only captures, which the next rule resets, and the memo of the file system.

The analysis looks for `%{…}` in the text, an expansion goes by the backslashes as well: a `\%{`
hides the variable that follows inside of its braces.
-/

namespace HttpJet.Rewrite

open List

open Hpack.Integer (Octets)
open Hpack.StaticTable (ascii)
open H2 (eqIgnoreCase toLower)

variable {rules : List Rule} {state state' : EvalState} {caps : Caps} {conds : List Cond}
  {name text : Octets}

/-- The outcomes that are rendered before the page cache is asked. -/
def Uncached : RewriteOutcome → Prop
  | .forbidden _ => True
  | .gone _ => True
  | .redirect _ _ _ => True
  | .status _ _ _ => True
  | .failed _ _ => True
  | _ => False

/-- What the key of the page cache and its vary hold of two requests is the same. -/
structure PageAlike (rules : List Rule) (input1 input2 : RewriteInput) :
    Prop extends SiteAlike input1 input2 where
  header : ∀ name ∈ headerReads rules, input1.header name = input2.header name
  status1 : input1.envBelow redirectStatus = none
  status2 : input2.envBelow redirectStatus = none

/-- The page cache keys a variable, and the header that it reads is one it varies on. -/
def Recorded (rules : List Rule) (name : Octets) : Prop :=
  pageCacheKeyed name = true ∧ ∀ field, headerRead name = some field → field ∈ headerReads rules

/-- An exempt rule asks a faithful file system.  In any other rule the analysis sees every
variable that is read, or the variable is recorded without it. -/
def ReadsKeyed (input : RewriteInput) (all : List Rule) : Bool → List Rule → Prop
  | _, [] => True
  | chained, rule :: rest =>
    (if terminalUncached rule chained then input.stat.Faithful
      else ∀ text ∈ rule.strings, ∀ name, Piece.var name ∈ pieces text →
        name ∈ textVars text ∨ Recorded all name) ∧
      ReadsKeyed input all rule.flags.chain rest

/-! ## Exempt rules -/

/-- Only captures and the memo of the file system differ. -/
structure SameFrame (state state' : EvalState) : Prop where
  uri : state'.uri = state.uri
  query : state'.query = state.query
  env : state'.env = state.env
  envOrder : state'.envOrder = state.envOrder
  envUnset : state'.envUnset = state.envUnset
  prefilterValid : state'.prefilterValid = state.prefilterValid
  pendingAbsolute : state'.pendingAbsolute = state.pendingAbsolute
  uriEscaped : state'.uriEscaped = state.uriEscaped
  nextLoops : state'.nextLoops = state.nextLoops

theorem SameFrame.refl (state : EvalState) : SameFrame state state :=
  ⟨rfl, rfl, rfl, rfl, rfl, rfl, rfl, rfl, rfl⟩

theorem SameFrame.trans {state'' : EvalState} (first : SameFrame state state')
    (second : SameFrame state' state'') : SameFrame state state'' where
  uri := second.uri.trans first.uri
  query := second.query.trans first.query
  env := second.env.trans first.env
  envOrder := second.envOrder.trans first.envOrder
  envUnset := second.envUnset.trans first.envUnset
  prefilterValid := second.prefilterValid.trans first.prefilterValid
  pendingAbsolute := second.pendingAbsolute.trans first.pendingAbsolute
  uriEscaped := second.uriEscaped.trans first.uriEscaped
  nextLoops := second.nextLoops.trans first.nextLoops

variable {input : RewriteInput}

theorem evalConds_frame {engine : Engine} {satisfied : Bool} {passed : Bool}
    (run : evalConds engine input caps satisfied conds state = some (passed, state')) :
    SameFrame state state' := by
  induction conds generalizing satisfied state with
  | nil =>
    cases run
    exact .refl _
  | cons cond _ ih =>
    cases satisfied with
    | true => exact ih run
    | false =>
      rw [evalConds] at run
      have here : ∀ result, evalOneCond engine input caps cond state = some result →
          SameFrame state result.2 := by
        intro result found
        rw [evalOneCond, Option.map_eq_some_iff] at found
        obtain ⟨verdict, -, rfl⟩ := found
        rw [commitVerdict.eq_def]
        split <;> exact ⟨rfl, rfl, rfl, rfl, rfl, rfl, rfl, rfl, rfl⟩
      generalize evalOneCond engine input caps cond state = result at run here
      rcases result with _ | ⟨_ | _, middle⟩
      · cases run
      · dsimp only at run
        split at run
        · exact (here _ rfl).trans (ih run)
        · cases run
          exact here _ rfl
      · exact (here _ rfl).trans (ih run)

theorem varAlike_refl (var : Var) : VarAlike input input var := by
  intro uri query env memo1 memo2 memos
  cases var with
  | requestFilename => exact requestFilename_alike rfl memos rfl uri
  | _ => exact ⟨rfl, memos⟩

theorem InputsAlike.refl (input : RewriteInput) : InputsAlike input input :=
  ⟨rfl, rfl, rfl, rfl, rfl⟩

theorem StateAlike.refl (valid : state.memo.Valid input) :
    StateAlike input state state := ⟨rfl, rfl, rfl, rfl, rfl, rfl, rfl, rfl, rfl, .of_valid valid⟩

theorem evalConds_valid {engine : Engine} (faithful : input.stat.Faithful)
    {passed : Bool} (valid : state.memo.Valid input)
    (run : evalConds engine input caps false conds state.resetConds = some (passed, state')) :
    state'.memo.Valid input := by
  have conds' : ∀ cond ∈ conds, CondAlike engine input input (fun _ => True) (fun _ => True) cond :=
    fun cond _ =>
    condAlike_of_strings (.refl input) (fun _ _ =>
      ⟨fun _ _ => varAlike_refl _, fun _ _ => True.intro, fun _ _ => True.intro⟩)
  have start : StateAlike input state.resetConds state.resetConds := StateAlike.refl valid
  have results :
      ResultsAlike input (fun _ => True) (evalConds engine input caps false conds state.resetConds)
      (evalConds engine input caps false conds state.resetConds) :=
    evalConds_alike conds' (fun _ _ => rfl) false start (fun _ _ => ⟨rfl, rfl⟩)
  rw [run] at results
  cases results with
  | verdict _ states =>
    rcases states.memo with ⟨unfaithful, -⟩ | ⟨-, kept, -⟩
    · exact absurd faithful unfaithful
    · exact kept

/-- What an exempt rule does: it misses and leaves nothing behind, or it ends the request. -/
inductive Harmless (input : RewriteInput) (state : EvalState) : Applied → Prop where
  | missed {state' : EvalState} (frame : SameFrame state state') (valid : state'.memo.Valid input) :
      Harmless input state (.missed state')
  | terminal {outcome : RewriteOutcome}
      (uncached : Uncached outcome) : Harmless input state (.terminal outcome)

theorem readsKeyed_of_all (all : List Rule) (chained : Bool) (faithful : input.stat.Faithful)
    (seen : ∀ rule ∈ rules, ∀ text ∈ rule.strings, ReadsSeen text) :
    ReadsKeyed input all chained rules := by
  induction rules generalizing chained with
  | nil => exact True.intro
  | cons rule _ ih =>
    refine ⟨?_, ih _ fun other member => seen other (mem_cons_of_mem _ member)⟩
    split_ifs with exempt
    · exact faithful
    · exact fun text inRule name read => .inl (seen rule mem_cons_self text inRule name read)

section Exempt

variable (engine : Engine) (rs : RuleSet) {input : RewriteInput} {rule : Rule} {chained : Bool}
  (faithful : input.stat.Faithful) (exempt : terminalUncached rule chained = true)

include exempt in
theorem fire_exempt (base : Option Octets) (caps : Caps) (state : EvalState) :
    ∃ outcome, fire input base rule.subst rule.flags caps state = .terminal outcome ∧
      Uncached outcome := by
  simp only [terminalUncached, Bool.and_eq_true, Bool.or_eq_true, Bool.not_eq_true'] at exempt
  obtain ⟨⟨⟨⟨⟨ends, noProxy⟩, -⟩, -⟩, -⟩, -⟩ := exempt
  rw [fire]
  generalize rule.flags.envSets.foldl (applyEnvSet input rule.flags caps) (state, none) = done
  obtain ⟨state', host⟩ := done
  dsimp only
  have uses : ∀ target state'', rule.flags.redirect.isSome = true →
      ∃ outcome,
        useTarget input base rule.subst rule.flags host target state'' = .terminal outcome ∧
        Uncached outcome := by
    intro target state'' redirects
    obtain ⟨code, isCode⟩ := Option.isSome_iff_exists.mp redirects
    unfold useTarget
    rw [noProxy, isCode]
    dsimp only
    rw [if_neg Bool.false_ne_true]
    split
    · exact ⟨_, rfl, True.intro⟩
    · exact ⟨_, rfl, True.intro⟩
  split
  · exact ⟨_, rfl, True.intro⟩
  · split
    · exact ⟨_, rfl, True.intro⟩
    · rename_i notForbidden notGone
      have redirects := ends.resolve_left (fun other => other.elim notForbidden notGone)
      split
      · exact uses _ _ redirects
      · exact uses _ _ redirects

theorem afterPattern_harmless (valid : state.memo.Valid input) {go : Caps → EvalState → Applied}
    (goes : ∀ caps, Harmless input state (go caps state)) :
    Harmless input state (afterPattern engine input rule state go) := by
  rw [afterPattern]
  split
  · exact .terminal True.intro
  · exact .missed (.refl state) valid
  · exact goes _

include faithful in
theorem afterConditions_harmless (valid : state.memo.Valid input) {go : EvalState → Applied}
    (goes : ∀ state', SameFrame state state' → state'.memo.Valid input →
      Harmless input state' (go state')) :
    Harmless input state (afterConditions engine input caps conds state go) := by
  have reset : SameFrame state state.resetConds := ⟨rfl, rfl, rfl, rfl, rfl, rfl, rfl, rfl, rfl⟩
  rw [afterConditions, evalConditions]
  split
  · exact .terminal True.intro
  · rename_i run
    exact .missed (reset.trans (evalConds_frame run)) (evalConds_valid faithful valid run)
  · rename_i run
    have frame := reset.trans (evalConds_frame run)
    have further := goes _ frame (evalConds_valid faithful valid run)
    generalize go _ = applied at further
    cases further with
    | missed later valid => exact .missed (frame.trans later) valid
    | terminal uncached => exact .terminal uncached

include faithful exempt in
theorem applyRule_exempt (hits : Option (Nat → Bool)) (valid : state.memo.Valid input) :
    Harmless input state (applyRule engine rs input hits rule state) := by
  have fires : ∀ caps state,
    Harmless input state (fire input rs.base rule.subst rule.flags caps state) := by
    intro caps state
    obtain ⟨_, same, uncached⟩ := fire_exempt exempt rs.base caps state
    rw [same]
    exact .terminal uncached
  rw [applyRule]
  split
  · exact .missed (.refl state) valid
  · split
    · exact .missed (.refl state) valid
    · split
      · refine afterConditions_harmless engine faithful valid (fun state' _ valid' => ?_)
        exact afterPattern_harmless engine valid' (fun caps => fires caps state')
      · refine afterPattern_harmless engine valid (fun caps => ?_)
        exact afterConditions_harmless engine faithful valid (fun state' _ _ => fires caps state')

end Exempt

/-! ## Keyed reads -/

/-- The header that a variable reads, in lower case. -/
def Var.headerName : Var → Option Octets
  | .header field => some (field.map toLower)
  | _ => none

/-- A single-word header in any spelling is recorded under its name in lower case. -/
theorem headerRead_word {word : Octets} (found : singleWordHeaderVar name = some word) :
    headerRead name = some (word.map toLower) := by
  have isWord := found
  rw [singleWordHeaderVar, Option.filter_eq_some_iff, Bool.and_eq_true, all_eq_true] at isWord
  obtain ⟨start, -, letters⟩ := isWord
  have whole := after_eq_some start
  have tail : ∀ text : Octets, eqIgnoreCase name (ascii "HTTP_" ++ text) = true →
      word.map toLower = text.map toLower := by
    intro text same
    have lower : name.map toLower = (ascii "HTTP_" ++ text).map toLower := eq_of_beq same
    rw [whole, map_append, map_append] at lower
    exact append_cancel_left lower
  have noField : after (ascii "HTTP:") name = none := by
    rw [after, if_neg]
    intro begins
    obtain ⟨rest, same⟩ := isPrefixOf_iff_prefix.mp begins
    have fifth : some (58 : UInt8) = some 95 := congrArg (fun text => text[4]?) (same.trans whole)
    cases fifth
  rw [headerRead, noField]
  dsimp only
  split
  · rename_i agent
    exact absurd (tail (ascii "USER_AGENT") agent ▸ by decide +kernel)
      (underscore_of_letters letters)
  · split
    · rename_i cookie
      rw [tail (ascii "COOKIE") cookie]
      decide +kernel
    · split
      · rename_i referer
        rw [tail (ascii "REFERER") referer]
        decide +kernel
      · split
        · rename_i accept
          rw [tail (ascii "ACCEPT") accept]
          decide +kernel
        · split
          · rename_i host
            rw [tail (ascii "HOST") host]
            decide +kernel
          · rw [found]
            rfl

/-- A keyed variable outside of the base key reads a header that is recorded. -/
theorem headerRead_of_keyed (keyed : pageCacheKeyed name = true)
    (notSafe : varIsCacheSafe name = false) (unassumed : (envVarAssumedEmpty name).isSome = false) :
    (Var.ofName name).headerName = headerRead name ∧ (headerRead name).isSome = true := by
  cases field : after (ascii "HTTP:") name with
  | some rest =>
    have nonempty : rest.isEmpty = false := by
      refine Bool.eq_false_iff.mpr (fun empty => ?_)
      have bare : pageCacheKeyed (ascii "HTTP:") = false := by decide +kernel
      rw [after_eq_some field, isEmpty_iff.mp empty, append_nil, bare] at keyed
      cases keyed
    rw [headerRead, field, Var.ofName, field]
    dsimp only
    rw [nonempty]
    exact ⟨rfl, rfl⟩
  | none =>
    cases found : serverVars.find? fun entry => ascii entry.1 == name with
    | some entry =>
      have all : ∀ entry ∈ serverVars, varIsCacheSafe (ascii entry.1) = false →
          pageCacheKeyed (ascii entry.1) = true →
          (Var.ofName (ascii entry.1)).headerName = headerRead (ascii entry.1) ∧
            (headerRead (ascii entry.1)).isSome = true := by decide +kernel
      have named := find?_some found
      rw [← eq_of_beq named] at keyed notSafe ⊢
      exact all entry (mem_of_find?_eq_some found) notSafe keyed
    | none =>
      have notNamed : ∀ text ∈ ["HTTP_USER_AGENT", "HTTP_COOKIE", "HTTP_REFERER", "HTTP_ACCEPT"],
          (ascii text == name) = false := by
        have all : ∀ text ∈ ["HTTP_USER_AGENT", "HTTP_COOKIE", "HTTP_REFERER", "HTTP_ACCEPT"],
            ∃ entry ∈ serverVars, entry.1 = text := by decide +kernel
        intro text member
        obtain ⟨entry, inside, same⟩ := all text member
        rw [← same]
        exact Bool.eq_false_iff.mpr (find?_eq_none.mp found entry inside)
      have isWord : (singleWordHeaderVar name).isSome = true := by
        rw [pageCacheKeyed, notSafe, unassumed, field, any_eq_false.mpr (fun text member => by
          rw [notNamed text member]; exact Bool.false_ne_true), Bool.or_false] at keyed
        exact keyed
      obtain ⟨_, isWord⟩ := Option.isSome_iff_exists.mp isWord
      have start := isWord
      rw [singleWordHeaderVar, Option.filter_eq_some_iff] at start
      have noEnv : after (ascii "ENV:") name = none := by
        rw [after, if_neg]
        intro begins
        obtain ⟨_, same⟩ := isPrefixOf_iff_prefix.mp begins
        have first : some (69 : UInt8) = some 72 :=
          congrArg (fun text => text[0]?) (same.trans (after_eq_some start.1))
        cases first
      rw [headerRead_word isWord, Var.ofName, field, noEnv]
      rw [found, isWord]
      exact ⟨rfl, rfl⟩

theorem firstPageCacheUnkeyed_eq_none (keyed : firstPageCacheUnkeyed text = none)
    (seen : name ∈ textVars text) : pageCacheKeyed name = true := by
  rw [firstPageCacheUnkeyed] at keyed
  split at keyed
  · cases keyed
  · rename_i found
    have here := find?_eq_none.mp found name seen
    simpa using here

section Page

variable {engine : Engine} {rs : RuleSet} {input1 input2 : RewriteInput}
    (alike : PageAlike rs.rules input1 input2)

include alike

theorem PageAlike.var (recorded : Recorded rs.rules name) :
    VarAlike input1 input2 (Var.ofName name) := by
  cases safe : varIsCacheSafe name with
  | true => exact alike.safeVar (ofName_of_cacheSafe safe).1
  | false =>
    cases assumed : (envVarAssumedEmpty name).isSome with
    | true =>
      rw [(ofName_of_assumedEmpty assumed).1]
      exact varAlike_env (alike.status1.trans alike.status2.symm)
    | false =>
      obtain ⟨isRead, isHeader⟩ := headerRead_of_keyed recorded.1 safe assumed
      obtain ⟨field, reads⟩ := Option.isSome_iff_exists.mp isHeader
      have agrees := alike.header field (recorded.2 field reads)
      rw [reads] at isRead
      cases var : Var.ofName name with
      | header =>
        rw [var] at isRead
        injection isRead with lower
        rw [← lower] at agrees
        exact varAlike_header agrees
      | _ =>
        rw [var] at isRead
        cases isRead

/-- Two runs of an exempt rule: both miss, or one ends the request outside of the cache. -/
theorem PageAlike.exempt (faithful : input1.stat.Faithful) {rule : Rule} {chained : Bool}
    (exempt : terminalUncached rule chained = true) (hits : Option (Nat → Bool))
    {state1 state2 : EvalState}
    (states : StateAlike input1 state1 state2) :
    Applied.Alike (StateAlike input1) Uncached (applyRule engine rs input1 hits rule state1)
      (applyRule engine rs input2 hits rule state2) := by
  obtain ⟨valid1, valid2⟩ : state1.memo.Valid input1 ∧ state2.memo.Valid input1 := by
    rcases states.memo with ⟨unfaithful, -⟩ | ⟨-, valid⟩
    · exact absurd faithful unfaithful
    · exact valid
  have first := applyRule_exempt engine rs faithful exempt hits valid1
  have second := applyRule_exempt engine rs (alike.inputs.stat ▸ faithful) exempt hits
    (valid2.congr alike.inputs.docroot alike.inputs.stat)
  generalize applyRule engine rs input1 hits rule state1 = applied1 at first
  generalize applyRule engine rs input2 hits rule state2 = applied2 at second
  cases first with
  | terminal uncached => exact .first uncached _
  | missed frame1 kept1 =>
    cases second with
    | terminal uncached => exact .second uncached _
    | missed frame2 kept2 =>
      have kept2 := kept2.congr alike.inputs.docroot.symm alike.inputs.stat.symm
      exact .missed {
        uri := frame1.uri.trans (states.uri.trans frame2.uri.symm)
        query := frame1.query.trans (states.query.trans frame2.query.symm)
        env := frame1.env.trans (states.env.trans frame2.env.symm)
        envOrder := frame1.envOrder.trans (states.envOrder.trans frame2.envOrder.symm)
        envUnset := frame1.envUnset.trans (states.envUnset.trans frame2.envUnset.symm)
        prefilterValid :=
          frame1.prefilterValid.trans (states.prefilterValid.trans frame2.prefilterValid.symm)
        pendingAbsolute :=
          frame1.pendingAbsolute.trans (states.pendingAbsolute.trans frame2.pendingAbsolute.symm)
        uriEscaped := frame1.uriEscaped.trans (states.uriEscaped.trans frame2.uriEscaped.symm)
        nextLoops := frame1.nextLoops.trans (states.nextLoops.trans frame2.nextLoops.symm)
        memo := .inr ⟨faithful, kept1, kept2⟩ }

end Page

theorem recorded_of_seen {rule : Rule} (inRules : rule ∈ rules) (inRule : text ∈ rule.strings)
    (keyed : firstPageCacheUnkeyed text = none) (seen : name ∈ textVars text) :
    Recorded rules name :=
  ⟨firstPageCacheUnkeyed_eq_none keyed seen, fun _ reads => mem_dedup.mpr (mem_flatMap.mpr
    ⟨rule, inRules, mem_flatMap.mpr ⟨text, inRule, mem_filterMap.mpr ⟨name, seen, reads⟩⟩⟩)⟩

/-- Every rule is exempt and asks a faithful file system, or its reads are recorded. -/
theorem exempt_or_recorded {all : List Rule} {chained : Bool} (inAll : ∀ rule ∈ rules, rule ∈ all)
    (keyed : rulesPageCacheUnkeyed chained rules = none)
    (reads : ReadsKeyed input all chained rules)
    {rule : Rule} (inRules : rule ∈ rules) :
    (∃ chained, terminalUncached rule chained = true) ∧ input.stat.Faithful ∨
      ∀ text ∈ rule.strings, ∀ name, Piece.var name ∈ pieces text → Recorded all name := by
  induction rules generalizing chained with
  | nil => cases inRules
  | cons first rest ih =>
    have restInAll : ∀ rule ∈ rest, rule ∈ all :=
      fun other member => inAll other (mem_cons_of_mem _ member)
    rw [ReadsKeyed] at reads
    rw [rulesPageCacheUnkeyed] at keyed
    split_ifs at keyed reads with exempt
    · rcases mem_cons.mp inRules with rfl | later
      · exact .inl ⟨⟨chained, exempt⟩, reads.1⟩
      · exact ih restInAll keyed reads.2 later
    · split at keyed
      · cases keyed
      · rename_i none'
        rcases mem_cons.mp inRules with rfl | later
        · refine .inr fun text inRule name read => (reads.1 text inRule name read).elim ?_ id
          exact recorded_of_seen (inAll _ mem_cons_self) inRule
            (findSome?_eq_none_iff.mp none' text inRule)
        · exact ih restInAll keyed reads.2 later

/-- Where the reads of all rules that are not exempt are seen or recorded, a response of a rule
set without an unkeyed read is determined by the key of the page cache and its headers. -/
theorem evaluate_pageKeyed (engine : Engine) (rs : RuleSet) (engineOn : Bool)
    (input1 input2 : RewriteInput) (keyed : pageCacheUnkeyed rs.rules = none)
    (reads : ReadsKeyed input1 rs.rules false rs.rules) (alike : PageAlike rs.rules input1 input2)
    (cached1 : ¬Uncached (evaluateWithEngine engine rs input1 engineOn))
    (cached2 : ¬Uncached (evaluateWithEngine engine rs input2 engineOn)) :
    evaluateWithEngine engine rs input1 engineOn =
      evaluateWithEngine engine rs input2 engineOn := by
  have redirects : RedirectsAlike input1 input2 Uncached := .inr (fun _ _ _ => True.intro)
  have rules : ∀ hits, ∀ rule ∈ rs.rules, ∀ state1 state2, StateAlike input1 state1 state2 →
      Applied.Alike (StateAlike input1) Uncached (applyRule engine rs input1 hits rule state1)
        (applyRule engine rs input2 hits rule state2) := by
    intro hits rule member state1 state2 states
    rcases exempt_or_recorded (fun _ inside => inside) keyed reads member with
      ⟨⟨_, exempt⟩, faithful⟩ | recorded
    · exact alike.exempt faithful exempt hits states
    · refine applyRule_alike alike.inputs redirects rs hits
        (.of_strings alike.inputs fun text inRule =>
        ⟨fun name read => alike.var (recorded text inRule name read), fun _ _ => True.intro,
          fun _ _ => True.intro⟩) states
  rcases evaluateWithEngine_alike alike.inputs redirects rules engineOn with same | out | out
  · exact same
  · exact absurd out cached1
  · exact absurd out cached2

def RewriteInput.from (uri remoteAddr : Octets) : RewriteInput :=
  { RewriteInput.new uri (ascii "/srv") with remoteAddr := remoteAddr }

theorem pageAlike_from (rules : List Rule) (uri first second : Octets) :
    PageAlike rules (.from uri first) (.from uri second) :=
  ⟨⟨⟨rfl, rfl, rfl, rfl, rfl⟩, rfl, rfl, rfl, rfl⟩, fun _ _ => rfl, rfl, rfl⟩

/-- `RewriteRule a /b` with one condition, after a rule that blocks an address. -/
def guardedRules (testString rhs : Octets) : RuleSet :=
  let cond (testString rhs : Octets) : Cond :=
    { testString := testString, pattern := .lexical .equal rhs, nocase := false, orNext := false,
      negate := false }
  RuleSet.parse literalEngine true true none
    [{ conds := [cond (ascii "%\x7bREMOTE_ADDR\x7d") (ascii "9.9.9.9")]
       patternSrc := ascii "a"
       negate := false
       subst := [45]
       flags := { RuleFlags.default with forbidden := true, last := true }
       rest := ascii "a - [F]" },
      { conds := [cond testString rhs]
        patternSrc := ascii "a"
        negate := false
        subst := ascii "/b"
        flags := RuleFlags.default
        rest := ascii "a /b" }]

/-- The address is read by an exempt rule only. -/
theorem evaluate_blocked_address :
    evaluateWithEngine literalEngine (guardedRules (ascii "%\x7bREQUEST_METHOD\x7d") (ascii "GET"))
        (.from (ascii "/a") (ascii "1.2.3.4")) true =
      evaluateWithEngine literalEngine
        (guardedRules (ascii "%\x7bREQUEST_METHOD\x7d") (ascii "GET"))
        (.from (ascii "/a") (ascii "5.6.7.8")) true := by
  have first : evaluateWithEngine literalEngine
      (guardedRules (ascii "%\x7bREQUEST_METHOD\x7d") (ascii "GET"))
      (.from (ascii "/a") (ascii "1.2.3.4")) true = .rewritten (ascii "/b") none [] false := by
        decide +kernel
  have second : evaluateWithEngine literalEngine
      (guardedRules (ascii "%\x7bREQUEST_METHOD\x7d") (ascii "GET"))
      (.from (ascii "/a") (ascii "5.6.7.8")) true = .rewritten (ascii "/b") none [] false := by
        decide +kernel
  refine evaluate_pageKeyed literalEngine _ true _ _ (by decide +kernel) ?_
    (pageAlike_from ..) (by rw [first]; exact id) (by rw [second]; exact id)
  have plain : ∀ rule ∈ (guardedRules (ascii "%\x7bREQUEST_METHOD\x7d") (ascii "GET")).rules,
    ∀ text ∈ rule.strings,
      bracesClosed text = true ∧ ∀ name ∈ textVars text, 37 ∉ name := by decide +kernel
  exact readsKeyed_of_all _ false (fun _ live => nomatch live) fun rule inRules text inRule =>
    readsSeen_of_plain (plain rule inRules text inRule).1 (plain rule inRules text inRule).2

/-- The escaped `%{` of the condition hides the address inside of its braces. -/
theorem evaluate_hidden_address :
    let rs :=
  guardedRules (ascii "\\%\x7bHTTP:%\x7bREMOTE_ADDR\x7d\x7d") (ascii "\\%\x7bHTTP:1.2.3.4\x7d")
    pageCacheUnkeyed rs.rules = none ∧
      PageAlike rs.rules (.from (ascii "/a") (ascii "1.2.3.4"))
        (.from (ascii "/a") (ascii "5.6.7.8")) ∧
      evaluateWithEngine literalEngine rs (.from (ascii "/a") (ascii "1.2.3.4")) true =
        .rewritten (ascii "/b") none [] false ∧
      evaluateWithEngine literalEngine rs (.from (ascii "/a") (ascii "5.6.7.8")) true =
        .unchanged [] false :=
  ⟨by decide +kernel, pageAlike_from .., by decide +kernel, by decide +kernel⟩

end HttpJet.Rewrite
