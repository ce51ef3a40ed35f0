import HttpJet.Rewrite.Alike

/-!
# Rule sets that read only what a key holds

In a rule set that is `path_cacheable`, every variable an expansion reads is one the classifier has
seen: no accepted name holds a `%`, so the two readings of a template agree.  Two requests that
agree on these variables evaluate alike.  Of the user agent it is enough that the same conditions
match it, where the rules use it in such conditions only.
-/

namespace HttpJet.Rewrite

open Library List
open Hpack.Integer (Octets)
open Hpack.StaticTable (ascii)
open H2 (eqIgnoreCase toLower)

variable {text name : Octets} {key : CacheKeyVar} {rule : Rule} {cond : Cond}

/-! ## The variables that are accepted -/

theorem after_eq_some {marker rest : Octets} (found : after marker text = some rest) :
    text = marker ++ rest := by
  rw [after] at found
  split at found
  · rename_i start
    obtain ⟨_, rfl⟩ := isPrefixOf_iff_prefix.mp start
    rw [drop_left] at found
    cases found
    rfl
  · cases found

theorem after_append (marker rest : Octets) : after marker (marker ++ rest) = some rest := by
  rw [after, if_pos (List.isPrefixOf_iff_prefix.mpr (prefix_append marker rest)), drop_left]

def safeVars : List Var :=
  [.requestUri, .requestFilename, .httpHost, .queryString, .requestMethod, .https, .requestScheme,
    .serverName,
    .documentRoot]

theorem ofName_of_cacheSafe (safe : varIsCacheSafe name = true) :
    Var.ofName name ∈ safeVars ∧ 37 ∉ name := by
  have all : ∀ text ∈ cacheSafeVars,
    Var.ofName (ascii text) ∈ safeVars ∧ 37 ∉ ascii text := by decide +kernel
  obtain ⟨text, member, same⟩ := any_eq_true.mp safe
  rw [← eq_of_beq same]
  exact all text member

theorem ofName_of_assumedEmpty (assumed : (envVarAssumedEmpty name).isSome = true) :
    Var.ofName name = .env redirectStatus ∧ 37 ∉ name := by
  rw [envVarAssumedEmpty, Option.isSome_filter] at assumed
  cases found : after (ascii "ENV:") name with
  | none =>
    rw [found] at assumed
    cases assumed
  | some rest =>
    rw [found] at assumed
    have isStatus : rest = redirectStatus := eq_of_beq assumed
    rw [after_eq_some found, isStatus]
    decide +kernel

/-- A header that can be put in the key, and its name in lower case. -/
def CacheKeyVar.field : CacheKeyVar → Octets
  | .userAgent => ascii "user-agent"
  | .origin => ascii "origin"
  | .accept => ascii "accept"

/-- The bare name of the user agent, or a header field that can be put in the key. -/
theorem keyableVar_cases (keyable : keyableVar name = some key) :
    key = .userAgent ∧ name.map toLower = (ascii "HTTP_USER_AGENT").map toLower ∨
      ∃ field, name = ascii "HTTP:" ++ field ∧ field.map toLower = key.field := by
  rw [keyableVar] at keyable
  split at keyable
  · rename_i agent
    cases keyable
    exact .inl ⟨rfl, eq_of_beq agent⟩
  · split at keyable
    · cases keyable
    · rename_i field found
      refine .inr ⟨field, after_eq_some found, ?_⟩
      split_ifs at keyable with same same same
      all_goals
        cases keyable
        exact (eq_of_beq same).trans (by decide +kernel)

theorem percent_of_keyable (keyable : keyableVar name = some key) : 37 ∉ name := by
  have raised (text : Octets) (inside : 37 ∈ text) : 37 ∈ text.map toLower :=
    mem_map_of_mem (f := toLower) inside
  intro inside
  rcases keyableVar_cases keyable with ⟨-, lower⟩ | ⟨field, rfl, lower⟩
  · have lowered := lower ▸ raised name inside
    revert lowered
    decide +kernel
  · rcases mem_append.mp inside with marker | inside
    · revert marker
      decide +kernel
    · have lowered := lower ▸ raised field inside
      cases key <;> revert lowered <;> decide +kernel

theorem underscore_of_letters {word : Octets}
    (letters : ∀ b ∈ word, HttpJet.H2.isAlphanumeric b = true) :
    95 ∉ word.map toLower := by
  have underscore : ∀ b : UInt8, toLower b = 95 → HttpJet.H2.isAlphanumeric b = false :=
    forall_octet (by decide +kernel)
  intro inside
  obtain ⟨b, member, isUnderscore⟩ := mem_map.mp inside
  nomatch ((underscore b isUnderscore).symm.trans (letters b member))

/-- The bare name of the user agent in another spelling is a name of the environment. -/
theorem ofName_of_misspelt (lower : name.map toLower = (ascii "HTTP_USER_AGENT").map toLower)
    (misspelt : name ≠ ascii "HTTP_USER_AGENT") : Var.ofName name = .env name := by
  have notAfter : ∀ marker : Octets,
    (marker.map toLower).isPrefixOf ((ascii "HTTP_USER_AGENT").map toLower) = false →
      after marker name = none := by
    intro marker other
    cases found : after marker name with
    | none => rfl
    | some =>
      rw [after_eq_some found, map_append] at lower
      rw [← lower, isPrefixOf_iff_prefix.mpr (prefix_append ..)] at other
      cases other
  have noServer : (serverVars.find? fun entry => ascii entry.1 == name) = none := by
    have all : ∀ entry ∈ serverVars,
      (ascii entry.1).map toLower = (ascii "HTTP_USER_AGENT").map toLower →
        ascii entry.1 = ascii "HTTP_USER_AGENT" := by decide +kernel
    rw [find?_eq_none]
    intro entry member same
    have same := eq_of_beq same
    exact misspelt (same.symm.trans (all entry member (by rw [same, lower])))
  have noWord : singleWordHeaderVar name = none := by
    rw [singleWordHeaderVar, Option.filter_eq_none_iff]
    intro word found allowed
    rw [after_eq_some found, map_append] at lower
    have tail : word.map toLower = ascii "user_agent" :=
      append_cancel_left
        (lower.trans (show _ = (ascii "HTTP_").map toLower ++ ascii "user_agent" by decide +kernel))
    rw [Bool.and_eq_true, all_eq_true] at allowed
    exact underscore_of_letters allowed.2 (tail ▸ by decide +kernel)
  rw [Var.ofName, notAfter (ascii "HTTP:") (by decide +kernel),
    notAfter (ascii "ENV:") (by decide +kernel), noServer,
    noWord]

/-- A variable that can be put in the key reads its header; spelled otherwise than
`HTTP_USER_AGENT`, the bare name of the user agent reads the environment. -/
theorem ofName_of_keyable (keyable : keyableVar name = some key) :
    (∃ field, Var.ofName name = .header field ∧ field.map toLower = key.field) ∨
      key = .userAgent ∧ Var.ofName name = .env name := by
  rcases keyableVar_cases keyable with ⟨rfl, lower⟩ | ⟨field, rfl, lower⟩
  · by_cases exact' : name = ascii "HTTP_USER_AGENT"
    · rw [exact']
      exact .inl ⟨ascii "User-Agent", by decide +kernel⟩
    · exact .inr ⟨rfl, ofName_of_misspelt lower exact'⟩
  · exact .inl ⟨field, by rw [Var.ofName, after_append], lower⟩

/-! ## Two requests with one key -/

variable (input : RewriteInput)

/-- The environment below what the rules assign. -/
def RewriteInput.envBelow (name : Octets) : Option Octets :=
  (input.env name).or (input.seedGet name)

theorem envGet_eq (overlay : Octets → Option Octets) (name : Octets) :
    envGet input overlay name = ((overlay name).or (input.envBelow name)).getD [] := by
  rw [envGet, RewriteInput.envBelow, Option.or_assoc]

/-- Two requests for the same resource of the same site. -/
structure SiteAlike (input1 input2 : RewriteInput) : Prop where
  inputs : InputsAlike input1 input2
  method : input1.method = input2.method
  host : input1.host = input2.host
  https : input1.https = input2.https
  serverName : input1.serverName = input2.serverName

/-- Two requests agree on what a rule set reads, the user agent apart. -/
structure KeyedAlike (rules : List Rule) (input1 input2 : RewriteInput) :
    Prop extends SiteAlike input1 input2 where
  env : ∀ rule ∈ rules, ∀ text ∈ rule.strings, ∀ name ∈ textVars text, ∀ key,
    Var.ofName name = .env key →
    input1.envBelow key = input2.envBelow key
  header : ∀ key ∈ cacheKeyVars rules,
    key ≠ .userAgent → input1.header key.field = input2.header key.field

variable {input1 input2 : RewriteInput}

theorem SiteAlike.safeVar (alike : SiteAlike input1 input2) {var : Var}
    (safe : var ∈ safeVars) : VarAlike input1 input2 var := by
  intro uri query env memo1 memo2 memos
  simp only [safeVars, mem_cons, not_mem_nil, or_false] at safe
  rcases safe with rfl | rfl | rfl | rfl | rfl | rfl | rfl | rfl | rfl
  · exact ⟨rfl, memos⟩
  · exact requestFilename_alike alike.inputs.stat memos alike.inputs.docroot uri
  · exact ⟨alike.host, memos⟩
  · exact ⟨rfl, memos⟩
  · exact ⟨alike.method, memos⟩
  · exact ⟨by rw [resolveVar, resolveVar, alike.https], memos⟩
  · exact ⟨by rw [resolveVar, resolveVar, alike.https], memos⟩
  · exact ⟨by rw [resolveVar, resolveVar, alike.serverName, alike.host], memos⟩
  · exact ⟨alike.inputs.docroot, memos⟩

section Keyed

variable {rules : List Rule} {input1 input2 : RewriteInput} (alike : KeyedAlike rules input1 input2)

theorem varAlike_env {key : Octets} (same : input1.envBelow key = input2.envBelow key) :
    VarAlike input1 input2 (.env key) := by
  intro uri query env memo1 memo2 memos
  exact ⟨by rw [resolveVar, resolveVar, envGet_eq, envGet_eq, same], memos⟩

theorem varAlike_header {field : Octets}
    (same : input1.header (field.map toLower) = input2.header (field.map toLower)) :
    VarAlike input1 input2 (.header field) := by
  intro uri query env memo1 memo2 memos
  exact ⟨by rw [resolveVar, resolveVar, RewriteInput.getHeader, RewriteInput.getHeader, same],
    memos⟩

theorem mem_cacheKeyVars (cacheable : pathCacheable rules = true) (inRules : rule ∈ rules)
    (inRule : text ∈ rule.strings) (inText : key ∈ stringKeyVars text) :
    key ∈ cacheKeyVars rules := by
  rw [cacheKeyVars, if_pos cacheable, mem_dedup, mem_flatMap]
  exact ⟨rule, inRules, mem_flatMap.mpr ⟨text, inRule, inText⟩⟩

theorem stringCacheClass_of_mem (cacheable : pathCacheable rules = true) (inRules : rule ∈ rules)
    (inRule : text ∈ rule.strings) : stringCacheClass text = true := by
  have here := all_eq_true.mp cacheable rule inRules
  rw [ruleCacheClass, Bool.and_eq_true] at here
  exact all_eq_true.mp here.1 text inRule

theorem mem_stringKeyVars (refs : stringRefsUa text = true) : .userAgent ∈ stringKeyVars text := by
  obtain ⟨name, seen, agent⟩ := any_eq_true.mp refs
  have keyable : keyableVar name = some .userAgent := eq_of_beq agent
  refine mem_filterMap.mpr ⟨name, seen, ?_⟩
  have notSafe : varIsCacheSafe name = false := by
    have all : ∀ text ∈ cacheSafeVars, keyableVar (ascii text) = none := by decide +kernel
    refine Bool.eq_false_iff.mpr (fun safe => ?_)
    obtain ⟨text, member, same⟩ := any_eq_true.mp safe
    rw [← eq_of_beq same, all text member] at keyable
    cases keyable
  have unassumed : (envVarAssumedEmpty name).isSome = false := by
    refine Bool.eq_false_iff.mpr (fun assumed => ?_)
    rcases ofName_of_keyable keyable with ⟨_, reads, -⟩ | ⟨-, reads⟩
    · rw [(ofName_of_assumedEmpty assumed).1] at reads
      cases reads
    · rw [(ofName_of_assumedEmpty assumed).1] at reads
      injection reads with isStatus
      rw [← isStatus] at keyable
      revert keyable
      decide +kernel
  rw [notSafe, unassumed]
  exact keyable

/-- No accepted name holds a `%`, so every name that is read has been classified. -/
theorem readsSeen_of_class (accepted : stringCacheClass text = true) : ReadsSeen text := by
  rw [stringCacheClass, Bool.and_eq_true, all_eq_true] at accepted
  refine readsSeen_of_plain accepted.1 (fun name member => ?_)
  have here := accepted.2 name member
  rw [Bool.or_eq_true, Bool.or_eq_true] at here
  rcases here with (safe | assumed) | keyable
  · exact (ofName_of_cacheSafe safe).2
  · exact (ofName_of_assumedEmpty assumed).2
  · obtain ⟨_, isKey⟩ := Option.isSome_iff_exists.mp keyable
    exact percent_of_keyable isKey

include alike in
/-- What the classifier accepts has the same value, the user agent apart. -/
theorem KeyedAlike.var (cacheable : pathCacheable rules = true) (inRules : rule ∈ rules)
    (inRule : text ∈ rule.strings) (seen : name ∈ textVars text)
    (agent : keyableVar name = some .userAgent →
      input1.header (ascii "user-agent") = input2.header (ascii "user-agent")) :
    VarAlike input1 input2 (Var.ofName name) := by
  have accepted := stringCacheClass_of_mem cacheable inRules inRule
  rw [stringCacheClass, Bool.and_eq_true, all_eq_true] at accepted
  have here := accepted.2 name seen
  cases safe : varIsCacheSafe name with
  | true => exact alike.safeVar (ofName_of_cacheSafe safe).1
  | false =>
    cases assumed : (envVarAssumedEmpty name).isSome with
    | true =>
      have reads := (ofName_of_assumedEmpty assumed).1
      rw [reads]
      exact varAlike_env (alike.env rule inRules text inRule name seen _ reads)
    | false =>
      rw [safe, assumed, Bool.false_or, Bool.false_or] at here
      obtain ⟨key, keyable⟩ := Option.isSome_iff_exists.mp here
      have inKeys : key ∈ cacheKeyVars rules := by
        refine mem_cacheKeyVars cacheable inRules inRule (mem_filterMap.mpr ⟨name, seen, ?_⟩)
        rw [safe, assumed]
        exact keyable
      rcases ofName_of_keyable keyable with ⟨_, reads, lower⟩ | ⟨-, reads⟩
      · rw [reads]
        refine varAlike_header ?_
        rw [lower]
        by_cases isAgent : key = .userAgent
        · rw [isAgent] at keyable ⊢
          exact agent keyable
        · exact alike.header key inKeys isAgent
      · rw [reads]
        exact varAlike_env (alike.env rule inRules text inRule name seen _ reads)

include alike in
theorem KeyedAlike.template (cacheable : pathCacheable rules = true) (inRules : rule ∈ rules)
    (inRule : text ∈ rule.strings) {K : Nat → Prop} (refs : ∀ k, .condRef k ∈ pieces text → K k)
    (agent : stringRefsUa text = true →
      input1.header (ascii "user-agent") = input2.header (ascii "user-agent")) :
    TemplateAlike input1 input2 K (fun _ => True) text where
  vars name read := by
    have seen := readsSeen_of_class (stringCacheClass_of_mem cacheable inRules inRule) name read
    refine alike.var cacheable inRules inRule seen (fun keyable => agent ?_)
    exact any_eq_true.mpr ⟨name, seen, by rw [keyable]; rfl⟩
  condRefs := refs
  ruleRefs _ _ := True.intro

end Keyed

/-! ## Conditions on the user agent -/

/-- The user agent as a condition sees it. -/
def RewriteInput.userAgent : Octets := (input.header (ascii "user-agent")).getD []

theorem exactUaVar_pieces (exact' : isExactUaVar text = true) :
    ∃ name, pieces text = [.var name] ∧ keyableVar name = some .userAgent := by
  rw [isExactUaVar.eq_def] at exact'
  split at exact'
  · split at exact'
    · rename_i name cut
      obtain ⟨whole, free⟩ := splitOnce_eq_some cut
      refine ⟨name, ?_, eq_of_beq exact'⟩
      rw [pieces, whole, scan_var free]
      rfl
    · cases exact'
  · cases exact'

theorem expandWith_var {scope : Scope} {mode : Expansion} {memo : FsMemo}
    (single : pieces text = [.var name]) (plain : mode = .plain ∨ mode = .testString)
    (other : varReadsWorkingUri name = false) :
    expandWith scope mode text memo =
      ⟨(scope.varValue name memo).1, [], (scope.varValue name memo).2⟩ := by
  rw [expandWith, single, foldl_cons, foldl_nil, pushPiece, pushVar]
  rcases plain with rfl | rfl
  · rfl
  · rw [other]
    rfl

theorem workingUri_of_keyable (keyable : keyableVar name = some key) :
    varReadsWorkingUri name = false := by
  have none' : ∀ text ∈ [ascii "REQUEST_URI", ascii "REQUEST_FILENAME", ascii "SCRIPT_FILENAME"],
      keyableVar text = none := by decide +kernel
  cases reads : varReadsWorkingUri name with
  | false => rfl
  | true =>
    rw [varReadsWorkingUri, Bool.or_eq_true, Bool.or_eq_true, beq_iff_eq, beq_iff_eq,
      beq_iff_eq] at reads
    rw [none' name (by simpa [or_assoc] using reads)] at keyable
    cases keyable

/-- Where no `%N` is read, only the verdict of a condition counts. -/
theorem commitVerdict_weak {input : RewriteInput} (cond : Cond) (result : Bool)
    (found1 found2 : Option (Caps × Option CondEscaped)) {state1 state2 : EvalState}
    (states : StateAlike input state1 state2) {memo1 memo2 : FsMemo}
    (memos : MemoAlike input memo1 memo2) :
    ResultsAlike input (fun _ => False) (some (commitVerdict cond state1 ⟨result, found1, memo1⟩))
      (some (commitVerdict cond state2 ⟨result, found2, memo2⟩)) := by
  have moved := states.withMemo memos
  have agree : ∀ other1 other2, CondsAgree (fun _ => False) other1 other2 :=
    fun _ _ _ outside => outside.elim
  rw [commitVerdict, commitVerdict]
  cases result ^^ cond.negate with
  | false => exact .verdict false moved (agree _ _)
  | true =>
    cases found1 with
    | none =>
      cases found2 with
      | none => exact .verdict true moved (agree _ _)
      | some => exact .verdict true (moved.withConds _ _ _ _) (agree _ _)
    | some =>
      cases found2 with
      | none | some => exact .verdict true (moved.withConds _ _ _ _) (agree _ _)

variable {engine : Engine}

/-- A condition on the user agent alone says the same of two that its pattern takes for one. -/
theorem condAlike_userAgent {J : Nat → Prop}
    {source : Octets} (single : pieces cond.testString = [.var name])
    (isRegex : cond.pattern = .regex source) (linear : engine.linear ⟨source, cond.nocase⟩ = true)
    (agent : keyableVar name = some .userAgent) {field : Octets}
    (reads : Var.ofName name = .header field) (lower : field.map toLower = ascii "user-agent")
    (same : (engine.fast ⟨source, cond.nocase⟩ input1.userAgent).isSome =
      (engine.fast ⟨source, cond.nocase⟩ input2.userAgent).isSome) :
    CondAlike engine input1 input2 (fun _ => False) J cond := by
  intro state1 state2 caps1 caps2 states _ _
  have result : ∀ (input : RewriteInput) (caps : Caps) (state : EvalState),
      ∃ found, evalOneCond engine input caps cond state = some (commitVerdict cond state
        ⟨(engine.fast ⟨source, cond.nocase⟩ input.userAgent).isSome, found, state.memo⟩) := by
    intro input caps state
    have mode : state.testMode = .plain ∨ state.testMode = .testString := by
      rw [EvalState.testMode]
      split
      · exact .inr rfl
      · exact .inl rfl
    have value :
        (state.scope input caps).varValue name state.memo = (input.userAgent, state.memo) := by
      rw [Scope.varValue, reads, resolveVar, RewriteInput.getHeader, lower]
      rfl
    rw [evalOneCond, expandWith_var single mode (workingUri_of_keyable agent), value,
      condResult, isRegex]
    dsimp only
    rw [Engine.capturesChecked, if_pos linear]
    cases engine.fast ⟨source, cond.nocase⟩ input.userAgent with
    | none | some => exact ⟨_, rfl⟩
  obtain ⟨found1, run1⟩ := result input1 caps1 state1
  obtain ⟨found2, run2⟩ := result input2 caps2 state2
  rw [run1, run2, same]
  exact commitVerdict_weak cond _ found1 found2 states states.memo

/-! ## Evaluation -/

theorem mem_strings_cond (inRule : cond ∈ rule.conds) (inCond : text ∈ cond.strings) :
    text ∈ rule.strings := by
  rw [Rule.strings, mem_append]
  exact .inr (mem_flatMap.mpr ⟨cond, inRule, inCond⟩)

theorem mem_strings_subst (rule : Rule) : rule.subst ∈ rule.strings := by
  rw [Rule.strings, mem_append]
  exact .inl mem_cons_self

theorem mem_strings_set {set : Octets × Octets} (inRule : set ∈ rule.flags.envSets) :
    set.1 ∈ rule.strings ∧ set.2 ∈ rule.strings := by
  have inSets : ∀ text ∈ [set.1, set.2], text ∈ rule.strings := by
    intro text member
    rw [Rule.strings, mem_append]
    exact .inl (mem_cons_of_mem _ (mem_flatMap.mpr ⟨set, inRule, member⟩))
  exact ⟨inSets _ mem_cons_self, inSets _ (mem_cons_of_mem _ mem_cons_self)⟩

theorem RuleReads.of_strings (inputs : InputsAlike input1 input2)
    (reads : ∀ text ∈ rule.strings,
      TemplateAlike input1 input2 (fun _ => True) (fun _ => True) text) :
    RuleReads engine input1 input2 (fun _ => True) rule where
  conds _ inRule :=
    condAlike_of_strings inputs fun text inCond => reads text (mem_strings_cond inRule inCond)
  subst := reads _ (mem_strings_subst rule)
  sets _ inRule := ⟨reads _ (mem_strings_set inRule).1, reads _ (mem_strings_set inRule).2⟩

/-- The user agents are the same, or the same conditions match them. -/
def AgentsAlike (engine : Engine) (rules : List Rule) (input1 input2 : RewriteInput) : Prop :=
  input1.header (ascii "user-agent") = input2.header (ascii "user-agent") ∨
    uaClassifyEligible engine rules = true ∧
      uaCondSignature engine rules input1.userAgent = uaCondSignature engine rules input2.userAgent

section Rules

variable {engine : Engine} {rules : List Rule} {input1 input2 : RewriteInput}
  (alike : KeyedAlike rules input1 input2) (cacheable : pathCacheable rules = true)

include alike cacheable

theorem ruleReads_of_agent
    (agent : .userAgent ∈ cacheKeyVars rules →
      input1.header (ascii "user-agent") = input2.header (ascii "user-agent"))
    (inRules : rule ∈ rules) : RuleReads engine input1 input2 (fun _ => True) rule :=
  .of_strings alike.inputs fun _ inRule =>
    alike.template cacheable inRules inRule (fun _ _ => True.intro)
    (fun refs => agent (mem_cacheKeyVars cacheable inRules inRule (mem_stringKeyVars refs)))

theorem template_of_free (inRules : rule ∈ rules) (inRule : text ∈ rule.strings)
    (noAgent : stringRefsUa text = false) (noRefs : usesPercentBackref text = false) :
    TemplateAlike input1 input2 (fun _ => False) (fun _ => True) text := by
  refine alike.template cacheable inRules inRule (fun k ref => ?_) (fun refs => ?_)
  · rw [usesPercentBackref_of_condRef ref] at noRefs
    cases noRefs
  · rw [noAgent] at refs
    cases refs

end Rules

section Matched

variable {engine : Engine} {rules : List Rule} {input1 input2 : RewriteInput}

/-- Each condition on the user agent matches both or none. -/
theorem fast_isSome_eq {ua1 ua2 : Octets} (few : (uaConds rules).length ≤ 64)
    (same : uaCondSignature engine rules ua1 = uaCondSignature engine rules ua2)
    (inRules : rule ∈ rules)
    (inRule : cond ∈ rule.conds) (refs : stringRefsUa cond.testString = true) {source : Octets}
    (isRegex : cond.pattern = .regex source) (linear : engine.linear ⟨source, cond.nocase⟩ = true) :
    (engine.fast ⟨source, cond.nocase⟩ ua1).isSome =
      (engine.fast ⟨source, cond.nocase⟩ ua2).isSome := by
  obtain ⟨ri, isRule⟩ := mem_iff_getElem?.mp inRules
  obtain ⟨ci, isCond⟩ := mem_iff_getElem?.mp inRule
  have flags := bitmap_inj (by rw [length_map, length_map]) (by rwa [length_map]) same
  have listed : (ri, ci) ∈ uaConds rules :=
    mem_flatMap.mpr ⟨(rule, ri), mk_mem_zipIdx_iff_getElem?.mpr isRule,
      mem_filterMap.mpr ⟨(cond, ci), mk_mem_zipIdx_iff_getElem?.mpr isCond, if_pos refs⟩⟩
  have bits := map_inj_left.mp flags _ listed
  have captures : ∀ ua,
    engine.captures ⟨source, cond.nocase⟩ ua = engine.fast ⟨source, cond.nocase⟩ ua := by
    intro ua
    rw [Engine.captures, Engine.capturesChecked, if_pos linear]
  have matches' : ∀ ua,
    uaCondMatches engine rules ua (ri, ci) = (engine.fast ⟨source, cond.nocase⟩ ua).isSome := by
    intro ua
    rw [uaCondMatches, isRule, Option.bind_some, isCond]
    dsimp only
    rw [isRegex]
    dsimp only
    rw [captures]
  rwa [matches', matches'] at bits

variable (alike : KeyedAlike rules input1 input2) (cacheable : pathCacheable rules = true)

include alike cacheable

theorem ruleReads_of_matched (eligible : uaClassifyEligible engine rules = true)
    (same : uaCondSignature engine rules input1.userAgent =
      uaCondSignature engine rules input2.userAgent)
    (inRules : rule ∈ rules) : RuleReads engine input1 input2 (fun _ => False) rule := by
  rw [uaClassifyEligible, Bool.and_eq_true, Bool.and_eq_true, Bool.and_eq_true, all_eq_true,
    decide_eq_true_eq] at eligible
  obtain ⟨⟨⟨-, allowed⟩, -⟩, few⟩ := eligible
  have here := allowed rule inRules
  simp only [uaRuleAllowed, Bool.and_eq_true, Bool.not_eq_true', all_eq_true] at here
  obtain ⟨⟨⟨substAgent, substRefs⟩, setsAllowed⟩, condsAllowed⟩ := here
  refine ⟨?_, ?_, ?_⟩
  · intro cond inRule
    have condAllowed := condsAllowed cond inRule
    simp only [uaCondAllowed, Bool.and_eq_true, Bool.or_eq_true, Bool.not_eq_true',
      all_eq_true] at condAllowed
    obtain ⟨⟨noRefs, rhs⟩, agentSafe⟩ := condAllowed
    cases refs : stringRefsUa cond.testString with
    | false =>
      refine condAlike_of_strings alike.inputs (fun text inCond => ?_)
      have inStrings := mem_strings_cond inRule inCond
      rcases mem_cons.mp inCond with isTest | isRhs
      · rw [isTest] at inStrings ⊢
        exact template_of_free alike cacheable inRules inStrings refs noRefs
      · exact template_of_free alike cacheable inRules inStrings (rhs text isRhs).1
          (rhs text isRhs).2
    | true =>
      have safe := agentSafe.resolve_left (by rw [refs]; exact Bool.noConfusion)
      rw [uaCondSafe, Bool.and_eq_true] at safe
      obtain ⟨exact', regexSafe⟩ := safe
      obtain ⟨name, single, keyable⟩ := exactUaVar_pieces exact'
      cases isRegex : cond.pattern with
      | regex source =>
        rw [isRegex] at regexSafe
        have linear : engine.linear ⟨source, cond.nocase⟩ = true := by
          simpa [Engine.canFailAtMatchTime] using regexSafe
        rcases ofName_of_keyable keyable with ⟨_, reads, lower⟩ | ⟨-, reads⟩
        · exact condAlike_userAgent single isRegex linear keyable reads lower
            (fast_isSome_eq few same inRules inRule refs isRegex linear)
        · -- the misspelt name reads the environment
          refine condAlike_of_strings alike.inputs (fun text inCond => ?_)
          have inStrings := mem_strings_cond inRule inCond
          rw [Cond.strings, isRegex, mem_singleton] at inCond
          have seen := readsSeen_of_class (stringCacheClass_of_mem cacheable inRules inStrings)
          rw [ReadsSeen] at seen
          rw [inCond] at seen inStrings ⊢
          rw [single] at seen
          refine ⟨fun other read => ?_, fun k ref => ?_, fun _ _ => True.intro⟩
          · rw [single, mem_singleton] at read
            cases read
            rw [reads]
            exact varAlike_env
              (alike.env rule inRules _ inStrings name (seen name mem_cons_self) _ reads)
          · rw [single, mem_singleton] at ref
            cases ref
      | _ =>
        rw [isRegex] at regexSafe
        cases regexSafe
  · exact template_of_free alike cacheable inRules (mem_strings_subst rule) substAgent substRefs
  · intro set inRule
    obtain ⟨⟨⟨keyAgent, valueAgent⟩, keyRefs⟩, valueRefs⟩ := setsAllowed set inRule
    exact ⟨template_of_free alike cacheable inRules (mem_strings_set inRule).1 keyAgent keyRefs,
      template_of_free alike cacheable inRules (mem_strings_set inRule).2 valueAgent valueRefs⟩

end Matched

/-- Two requests that agree on what a rule set reads have the same outcome. -/
theorem evaluate_keyed {rs : RuleSet}
    (alike : KeyedAlike rs.rules input1 input2) (cacheable : pathCacheable rs.rules = true)
    (agents : .userAgent ∈ cacheKeyVars rs.rules → AgentsAlike engine rs.rules input1 input2)
    (redirects : RedirectsAlike input1 input2 (fun _ => False)) (engineOn : Bool) :
    evaluateWithEngine engine rs input1 engineOn =
      evaluateWithEngine engine rs input2 engineOn := by
  have reads : ∃ K, ∀ rule ∈ rs.rules, RuleReads engine input1 input2 K rule := by
    by_cases reads : .userAgent ∈ cacheKeyVars rs.rules
    · rcases agents reads with same | ⟨eligible, same⟩
      · exact ⟨_, fun rule member => ruleReads_of_agent alike cacheable (fun _ => same) member⟩
      · exact ⟨_, fun rule member => ruleReads_of_matched alike cacheable eligible same member⟩
    · exact ⟨_, fun rule member =>
        ruleReads_of_agent alike cacheable (fun inside => absurd inside reads) member⟩
  obtain ⟨K, reads⟩ := reads
  have outcomes := evaluateWithEngine_alike alike.inputs redirects
    (fun _ rule member _ _ states =>
      applyRule_alike alike.inputs redirects rs _ (reads rule member) states) engineOn
  rcases outcomes with same | out | out
  · exact same
  · exact out.elim
  · exact out.elim

/-! ## Classes of user agents -/

variable (input : RewriteInput)

def RewriteInput.withUserAgent (ua : Octets) : RewriteInput :=
  { input with header := Function.update input.header (ascii "user-agent") (some ua) }

theorem header_withUserAgent (ua : Octets) :
    (input.withUserAgent ua).header = Function.update input.header (ascii "user-agent") (some ua) :=
  rfl

theorem userAgent_withUserAgent (ua : Octets) : (input.withUserAgent ua).userAgent = ua := by
  rfl

theorem keyedAlike_withUserAgent (rules : List Rule) (input : RewriteInput) (ua1 ua2 : Octets) :
    KeyedAlike rules (input.withUserAgent ua1) (input.withUserAgent ua2) where
  inputs := ⟨rfl, rfl, rfl, rfl, rfl⟩
  method := rfl
  host := rfl
  https := rfl
  serverName := rfl
  env _ _ _ _ _ _ _ _ := rfl
  header key _ other := by
    have apart : key.field ≠ ascii "user-agent" := by
      cases key with
      | userAgent => exact absurd rfl other
      | origin | accept => decide +kernel
    rw [header_withUserAgent, header_withUserAgent, Function.update_of_ne apart,
      Function.update_of_ne apart]

/-- User agents with the same signature have the same outcome. -/
theorem evaluate_userAgent_class (engine : Engine) (rs : RuleSet) (engineOn : Bool)
    (input : RewriteInput)
    (cacheable : pathCacheable rs.rules = true)
    (eligible : uaClassifyEligible engine rs.rules = true)
    (ua1 ua2 : Octets)
    (same : uaCondSignature engine rs.rules ua1 = uaCondSignature engine rs.rules ua2) :
    evaluateWithEngine engine rs (input.withUserAgent ua1) engineOn =
      evaluateWithEngine engine rs (input.withUserAgent ua2) engineOn := by
  have redirects :
      RedirectsAlike (input.withUserAgent ua1) (input.withUserAgent ua2) (fun _ => False) :=
    .inl fun _ => ⟨rfl, rfl⟩
  refine evaluate_keyed (keyedAlike_withUserAgent rs.rules input ua1 ua2) cacheable
    (fun _ => .inr ⟨eligible, ?_⟩)
    redirects engineOn
  exact same

/-! ## A rule set against crawlers -/

/-- `RewriteCond %{HTTP_USER_AGENT} Bot`, `RewriteRule /a - [F]`. -/
def crawlerRules : RuleSet :=
  RuleSet.parse literalEngine true true none
    [{ conds := [{ testString := ascii "%\x7bHTTP_USER_AGENT\x7d"
                   pattern := .regex (ascii "Bot")
                   nocase := false
                   orNext := false
                   negate := false }]
       patternSrc := ascii "a"
       negate := false
       subst := [45]
       flags := { RuleFlags.default with forbidden := true, last := true }
       rest := ascii "a - [F]" }]

theorem evaluate_crawlers :
    evaluateWithEngine literalEngine crawlerRules
      ((RewriteInput.new (ascii "/a") (ascii "/srv")).withUserAgent (ascii "ABot/1")) true =
        .forbidden [] ∧
      evaluateWithEngine literalEngine crawlerRules
        ((RewriteInput.new (ascii "/a") (ascii "/srv")).withUserAgent (ascii "Bot B")) true =
        .forbidden [] := by
  have first : evaluateWithEngine literalEngine crawlerRules
      ((RewriteInput.new (ascii "/a") (ascii "/srv")).withUserAgent (ascii "ABot/1")) true =
        .forbidden [] := by decide +kernel
  refine ⟨first, ?_⟩
  rw [← first]
  exact (evaluate_userAgent_class literalEngine crawlerRules true
    (RewriteInput.new (ascii "/a") (ascii "/srv")) (by decide +kernel)
    (by decide +kernel) (ascii "ABot/1") (ascii "Bot B") (by decide +kernel)).symm

end HttpJet.Rewrite
