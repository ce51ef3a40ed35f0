import HttpJet.Rewrite.Expansion

/-!
# Rules and their evaluation

The regular expressions are an engine given from outside.  Rules run in order over a working URI,
query and environment.  A rule first tries to be rejected cheaply, then its conditions and its
pattern are matched, and then it fires.  The pass over the rules is written once, for any way to
apply a rule.

The classifiers look at the texts of the rules once: for the variables that the key of the outcome
cache or of the page cache does not cover, for the headers read, and for conditions on the
`User-Agent` that a key may hold instead of the header.
-/

namespace HttpJet.Rewrite

open Library
open Hpack.Integer (Octets)
open Hpack.StaticTable (ascii)
open H2 (eqIgnoreCase isAlphanumeric isDigit toLower)

/-! ## The engine for regular expressions -/

/-- The spans of the groups of a match; the group 0 is the whole match. -/
abbrev Groups := Nat → Option (Nat × Nat)

structure Pattern where
  source : Octets
  nocase : Bool
  deriving DecidableEq

structure Engine where
  /-- The linear-time engine takes the pattern. -/
  linear : Pattern → Bool
  /-- Some engine takes it. -/
  compiles : Pattern → Bool
  fast : Pattern → Octets → Option Groups
  /-- The backtracking engine may fail at match time. -/
  fancy : Pattern → Octets → Except Unit (Option Groups)
  /-- The automaton for these patterns fits. -/
  dfaFits : List Pattern → Bool
  /-- Which of the patterns occur in a text. -/
  dfaMatches : List Pattern → Octets → Nat → Bool

variable (engine : Engine)

def Engine.canFailAtMatchTime (pattern : Pattern) : Bool := !engine.linear pattern

def Engine.capturesChecked (pattern : Pattern) (text : Octets) : Except Unit (Option Groups) :=
  if engine.linear pattern then .ok (engine.fast pattern text) else engine.fancy pattern text

/-- `captures`: a failure is no match. -/
def Engine.captures (pattern : Pattern) (text : Octets) : Option Groups :=
  match engine.capturesChecked pattern text with
  | .ok groups => groups
  | .error _ => none

/-- The text of a group. -/
def groupText (text : Octets) (span : Nat × Nat) : Octets :=
  (text.drop span.1).take (span.2 - span.1)

def groupTexts (text : Octets) (groups : Groups) : Caps := fun k => (groups k).map (groupText text)

/-- An engine for patterns that are plain texts. -/
def literalEngine : Engine where
  linear _ := true
  compiles _ := true
  fast pattern text := (splitAtMarker pattern.source text).map fun sides => fun k =>
    if k = 0 then some (sides.1.length, sides.1.length + pattern.source.length) else none
  fancy _ _ := .error ()
  dfaFits _ := true
  dfaMatches patterns text idx :=
    (patterns[idx]?.bind fun pattern => splitAtMarker pattern.source text).isSome

/-! ## Conditions and rules as they are written -/

inductive Comparison where
  | less
  | greater
  | equal
  | lessEqual
  | greaterEqual
  deriving DecidableEq

inductive NumOp where
  | eq
  | ne
  | gt
  | lt
  | ge
  | le
  deriving DecidableEq

inductive CondPattern where
  | regex (source : Octets)
  | fileTest (kind : FileTestKind)
  /-- `-U` always holds. -/
  | urlAccess
  | lexical (order : Comparison) (rhs : Octets)
  | numeric (op : NumOp) (rhs : Octets)
  deriving DecidableEq

structure Cond where
  testString : Octets
  pattern : CondPattern
  nocase : Bool
  orNext : Bool
  negate : Bool
  deriving DecidableEq

/-- The texts of a condition that are expanded. -/
def Cond.strings (cond : Cond) : List Octets :=
  cond.testString :: match cond.pattern with
    | .lexical _ rhs => [rhs]
    | .numeric _ rhs => [rhs]
    | _ => []

structure RuleFlags where
  last : Bool
  stop : Bool
  qsa : Bool
  qsd : Bool
  redirect : Option Nat
  forbidden : Bool
  gone : Bool
  nocase : Bool
  proxy : Bool
  noescape : Bool
  chain : Bool
  next : Bool
  skip : Nat
  envSets : List (Octets × Octets)
  backrefEscape : Option BackrefEscape
  allow3f : Bool
  deriving DecidableEq

def RuleFlags.default : RuleFlags where
  last := false
  stop := false
  qsa := false
  qsd := false
  redirect := none
  forbidden := false
  gone := false
  nocase := false
  proxy := false
  noescape := false
  chain := false
  next := false
  skip := 0
  envSets := []
  backrefEscape := none
  allow3f := false

/-- A `RewriteRule` line with the conditions before it. -/
structure RuleSource where
  conds : List Cond
  patternSrc : Octets
  negate : Bool
  subst : Octets
  flags : RuleFlags
  /-- The line after the directive. -/
  rest : Octets
  deriving DecidableEq

def RuleSource.pattern (rule : RuleSource) : Pattern := ⟨rule.patternSrc, rule.flags.nocase⟩

inductive TotalMatch where
  | noGroup
  | oneGroup
  deriving DecidableEq

structure Rule where
  matchTotal : Option TotalMatch
  conds : List Cond
  patternSrc : Octets
  negate : Bool
  subst : Octets
  flags : RuleFlags
  prefilterIdx : Option Nat
  needsRuleCaps : Bool
  condsNeedRuleCaps : Bool
  literalPrefix : Octets
  deriving DecidableEq

def Rule.pattern (rule : Rule) : Pattern := ⟨rule.patternSrc, rule.flags.nocase⟩

/-- The texts of a rule that are expanded. -/
def Rule.strings (rule : Rule) : List Octets :=
  rule.subst :: rule.flags.envSets.flatMap (fun set => [set.1, set.2]) ++
    rule.conds.flatMap Cond.strings

structure RuleSet where
  engineOn : Bool
  engineSet : Bool
  base : Option Octets
  rules : List Rule
  prefilter : Option (List Pattern)
  deriving DecidableEq

/-! ## Folding `[OR]` runs -/

/-- An unescaped `(`. -/
def regexHasParenGroup : Octets → Bool
  | [] => false
  | b :: rest =>
    if b = 92 then
      match rest with
      | [] => false
      | _ :: tail => regexHasParenGroup tail
    else b == 40 || regexHasParenGroup rest

def condOrFoldable (cond : Cond) : Bool :=
  !cond.negate &&
    match cond.pattern with
    | .regex source => !regexHasParenGroup source
    | _ => false

def condRefsZero (cond : Cond) : Bool := cond.strings.any mentionsZero

/-- The conditions up to the first without `[OR]`, and the ones after it. -/
def splitOrGroup : List Cond → List Cond × List Cond
  | [] => ([], [])
  | cond :: rest =>
    if cond.orNext then (cond :: (splitOrGroup rest).1, (splitOrGroup rest).2) else ([cond], rest)

def regexSource (cond : Cond) : Octets :=
  match cond.pattern with
  | .regex source => source
  | _ => []

/-- The alternation of group-free patterns. -/
def alternation (sources : List Octets) : Octets :=
  [124].intercalate (sources.map fun source => ascii "(?:" ++ source ++ [41])

/-- The one condition a group is folded into. -/
def foldGroup (engine : Engine) (group : List Cond) : List Cond :=
  match group with
  | first :: second :: rest =>
    let alt : Pattern := ⟨alternation (group.map regexSource), first.nocase⟩
    if group.all (fun cond =>
        condOrFoldable cond && cond.testString == first.testString && cond.nocase ==
          first.nocase) &&
        engine.compiles alt then
      [{ testString := first.testString
         pattern := .regex alt.source
         nocase := first.nocase
         orNext := ((second :: rest).getLast (List.cons_ne_nil second rest)).orNext
         negate := false }]
    else group
  | group => group

/-- `combine_or_conds`, over at most so many groups. -/
def combineGroups (engine : Engine) : Nat → List Cond → List Cond
  | 0, conds => conds
  | _ + 1, [] => []
  | count + 1, cond :: rest =>
    let (group, later) := splitOrGroup (cond :: rest)
    foldGroup engine group ++ combineGroups engine count later

def combineOrConds (engine : Engine) (conds : List Cond) : List Cond :=
  combineGroups engine conds.length conds

/-! ## What is known of a pattern -/

/-- A `|` outside of every class and group. -/
def hasTopAlternation : Nat → Bool → Octets → Bool
  | _, _, [] => false
  | depth, inClass, b :: rest =>
    if b = 92 then
      match rest with
      | [] => false
      | _ :: tail => hasTopAlternation depth inClass tail
    else if b = 91 && !inClass then hasTopAlternation depth true rest
    else if b = 93 && inClass then hasTopAlternation depth false rest
    else if b = 40 && !inClass then hasTopAlternation (depth + 1) inClass rest
    else if b = 41 && !inClass then hasTopAlternation (depth - 1) inClass rest
    else if b = 124 && !inClass && depth == 0 then true
    else hasTopAlternation depth inClass rest

/-- Drops the last character. -/
def popChar (out : Octets) : Octets :=
  ((out.reverse.dropWhile fun b => b &&& 0xc0 == 0x80).drop 1).reverse

/-- The literal run; `none` for a `|`. -/
def literalRun (out : Octets) : Octets → Option Octets
  | [] => some out
  | b :: rest =>
    if b = 63 || b = 42 || b = 123 then some (popChar out)
    else if b = 92 then
      match rest with
      | [] => some out
      | c :: tail => if isAlphanumeric c then some out else literalRun (out ++ [c]) tail
    else if b = 124 then none
    else if (ascii ".[]()\x7d+^$").contains b then some out
    else literalRun (out ++ [b]) rest

def extractLiteralPrefix (patternSrc : Octets) (negate nocase : Bool) : Octets :=
  match patternSrc with
  | 94 :: rest =>
    if negate || nocase || hasTopAlternation 0 false rest then [] else (literalRun [] rest).getD []
  | _ => []

def totalSources : List (String × TotalMatch) :=
  [(".*", .noGroup), ("^.*$", .noGroup), ("^.*", .noGroup),
    ("(.*)", .oneGroup), ("^(.*)$", .oneGroup), ("^(.*)", .oneGroup)]

def recognizeTotalMatch (source : Octets) (negate : Bool) : Option TotalMatch :=
  if negate then none else (totalSources.find? fun entry => ascii entry.1 == source).map Prod.snd

def patternExpectsLeadingSlash (source : Octets) : Bool :=
  let afterAnchor := match source with
    | 94 :: rest => rest
    | source => source
  afterAnchor.head? == some 47 || (ascii "\\/").isPrefixOf afterAnchor

/-! ## Building a rule set -/

/-- `parse_rule`, with the conditions folded as `RuleSet::parse` does. -/
def parseRule (engine : Engine) (source : RuleSource) : Rule :=
  let condsNeedRuleCaps := source.conds.any fun cond => cond.strings.any usesDollarBackref
  { matchTotal := recognizeTotalMatch source.patternSrc source.negate
    conds :=
      if mentionsZero source.rest || source.conds.any condRefsZero then source.conds
      else combineOrConds engine source.conds
    patternSrc := source.patternSrc
    negate := source.negate
    subst := source.subst
    flags := source.flags
    prefilterIdx := none
    needsRuleCaps :=
      usesDollarBackref source.subst ||
        source.flags.envSets.any (fun set => usesDollarBackref set.1 || usesDollarBackref set.2) ||
        condsNeedRuleCaps
    condsNeedRuleCaps := condsNeedRuleCaps
    literalPrefix := extractLiteralPrefix source.patternSrc source.negate source.flags.nocase }

/-- Numbers the simple patterns: the rules with their numbers, and the patterns. -/
def assignPrefilter (engine : Engine) : List Pattern → List Rule → List Rule × List Pattern
  | patterns, [] => ([], patterns)
  | patterns, rule :: rest =>
    if rule.negate || patternExpectsLeadingSlash rule.patternSrc || !engine.linear rule.pattern then
      (rule :: (assignPrefilter engine patterns rest).1, (assignPrefilter engine patterns rest).2)
    else
      ({ rule with prefilterIdx := some patterns.length } ::
          (assignPrefilter engine (patterns ++ [rule.pattern]) rest).1,
        (assignPrefilter engine (patterns ++ [rule.pattern]) rest).2)

/-- `RuleSet::parse`, from the directives on. -/
def RuleSet.parse (engine : Engine) (engineSet engineOn : Bool) (base : Option Octets)
    (sources : List RuleSource) : RuleSet :=
  let parsed := sources.map (parseRule engine)
  let (rules, patterns) := assignPrefilter engine [] parsed
  if !patterns.isEmpty && engine.dfaFits patterns then
    { engineOn := engineOn, engineSet := engineSet, base := base, rules := rules,
      prefilter := some patterns }
  else
    { engineOn := engineOn, engineSet := engineSet, base := base, rules := parsed,
      prefilter := none }

/-! ## Evaluation -/

inductive RewriteOutcome where
  | failed (env : List (Octets × Octets)) (reason : String)
  | unchanged (env : List (Octets × Octets)) (stop : Bool)
  | rewritten (newUri : Octets) (newQuery : Option Octets) (env : List (Octets × Octets))
      (stop : Bool)
  | redirect (code : Nat) (location : Octets) (env : List (Octets × Octets))
  | status (code : Nat) (suppressBody : Bool) (env : List (Octets × Octets))
  | forbidden (env : List (Octets × Octets))
  | gone (env : List (Octets × Octets))
  | proxy (targetUrl : Octets) (proxyHost : Option Octets) (env : List (Octets × Octets))
      (authoritySubstituted : Bool)
  deriving DecidableEq

structure EvalState where
  uri : Octets
  query : Octets
  env : Octets → Option Octets
  envOrder : List Octets
  envUnset : List Octets
  lastCondCaps : Caps
  lastCondEscaped : Option CondEscaped
  prefilterValid : Bool
  pendingAbsolute : Bool
  uriEscaped : Bool
  nextLoops : Nat
  memo : FsMemo

namespace EvalState

variable (state : EvalState)

def recordEnv (key value : Octets) : EvalState :=
  match key with
  | 33 :: name =>
    if name.isEmpty then state
    else
      { state with
        envUnset :=
          if state.envUnset.contains name then state.envUnset else state.envUnset ++ [name]
        envOrder :=
          if state.envOrder.contains name then state.envOrder else state.envOrder ++ [name]
        env := Function.update state.env name (some []) }
  | key =>
    { state with
      envUnset := state.envUnset.filter fun name => name != key
      envOrder := if state.envOrder.contains key then state.envOrder else state.envOrder ++ [key]
      env := Function.update state.env key (some value) }

def envVec : List (Octets × Octets) :=
  state.envOrder.filterMap fun key =>
    if state.envUnset.contains key then some (33 :: key, [])
    else (state.env key).map fun value => (key, value)

def scope (input : RewriteInput) (ruleCaps : Caps) : Scope where
  input := input
  uri := state.uri
  query := state.query
  env := state.env
  ruleCaps := ruleCaps
  condCaps := state.lastCondCaps
  condEscaped := state.lastCondEscaped

def resetConds : EvalState :=
  { state with lastCondCaps := emptyCaps, lastCondEscaped := none }

end EvalState

/-! ## Conditions -/

def compareOctets : Octets → Octets → Ordering
  | [], [] => .eq
  | [], _ :: _ => .lt
  | _ :: _, [] => .gt
  | a :: as, b :: bs => if a < b then .lt else if b < a then .gt else compareOctets as bs

def Comparison.holds (order : Comparison) (result : Ordering) : Bool :=
  match order with
  | .less => result == .lt
  | .greater => result == .gt
  | .equal => result == .eq
  | .lessEqual => result != .gt
  | .greaterEqual => result != .lt

def trimStart (text : Octets) : Octets := ((chars text).dropWhile whiteSpace.contains).flatten

def clampI64 (value : Int) : Int := max (-2 ^ 63) (min (2 ^ 63 - 1) value)

/-- `strtoll`: a leading number, or 0. -/
def parseLeadingI64 (text : Octets) : Int :=
  let number (digits : Octets) : Int :=
    (digits.takeWhile isDigit).foldl (fun n b => n * 10 + digitValue b) (0 : Nat)
  match trimStart text with
  | 45 :: rest => clampI64 (-number rest)
  | 43 :: rest => clampI64 (number rest)
  | text => clampI64 (number text)

def NumOp.holds (op : NumOp) (lhs rhs : Int) : Bool :=
  match op with
  | .eq => lhs == rhs
  | .ne => lhs != rhs
  | .gt => lhs > rhs
  | .lt => lhs < rhs
  | .ge => lhs ≥ rhs
  | .le => lhs ≤ rhs

/-- The part of a span inside a group, from the start of the group. -/
def clipSpan (group span : Nat × Nat) : Option (Nat × Nat) :=
  let start := max span.1 group.1
  let stop := min span.2 group.2
  if start < stop then some (start - group.1, stop - group.1) else none

/-- `capture_escaped_spans`. -/
def captureEscapedSpans (groups : Groups) (escaped : Spans) : Option CondEscaped :=
  let spans : CondEscaped := fun k =>
    match groups k with
    | some group => escaped.filterMap (clipSpan group)
    | none => []
  if (List.range 10).any fun k => !(spans k).isEmpty then some spans else none

/-- What a condition says of its test string, and the captures it would leave. -/
structure Verdict where
  result : Bool
  caps : Option (Caps × Option CondEscaped)
  memo : FsMemo

/-- The pattern of a condition, tried on its expanded test string. -/
def condResult (engine : Engine) (cond : Cond) (scope : Scope) (test : Expanded) : Option Verdict :=
  match cond.pattern with
  | .regex source =>
    match engine.capturesChecked ⟨source, cond.nocase⟩ test.out with
    | .ok (some groups) =>
      some ⟨true, some (groupTexts test.out groups,
        if test.escaped.isEmpty then none else captureEscapedSpans groups test.escaped), test.memo⟩
    | .ok none => some ⟨false, none, test.memo⟩
    | .error _ => none
  | .fileTest kind =>
    let (result, memo) := fileTest scope.input test.out kind test.memo
    some ⟨result, none, memo⟩
  | .urlAccess => some ⟨true, none, test.memo⟩
  | .lexical order rhs =>
    let (rhs, memo) := expand scope rhs test.memo
    let compared :=
      if cond.nocase then compareOctets (test.out.map toLower) (rhs.map toLower)
      else compareOctets test.out rhs
    some ⟨order.holds compared, none, memo⟩
  | .numeric op rhs =>
    let (rhs, memo) := expand scope rhs test.memo
    some ⟨op.holds (parseLeadingI64 test.out) (parseLeadingI64 rhs), none, memo⟩

/-- After a substitution, a test string records what came from the working URI. -/
def EvalState.testMode (state : EvalState) : Expansion :=
  if state.uriEscaped then .testString else .plain

/-- The captures of a condition are kept only when it passes. -/
def commitVerdict (cond : Cond) (state : EvalState) (verdict : Verdict) : Bool × EvalState :=
  let state := { state with memo := verdict.memo }
  match verdict.result ^^ cond.negate, verdict.caps with
  | true, some (caps, escaped) =>
    (true, { state with lastCondCaps := caps, lastCondEscaped := escaped })
  | passed, _ => (passed, state)

variable (engine : Engine) (input : RewriteInput)

/-- `eval_one_cond`; `none` when the regular expression fails at match time. -/
def evalOneCond (ruleCaps : Caps) (cond : Cond) (state : EvalState) : Option (Bool × EvalState) :=
  let scope := state.scope input ruleCaps
  let test := expandWith scope state.testMode cond.testString state.memo
  (condResult engine cond scope test).map (commitVerdict cond state)

/-- `eval_conditions`: with `satisfied`, the rest of an `[OR]` group is passed by. -/
def evalConds (engine : Engine) (input : RewriteInput) (ruleCaps : Caps) :
    Bool → List Cond → EvalState → Option (Bool × EvalState)
  | _, [], state => some (true, state)
  | true, cond :: rest, state => evalConds engine input ruleCaps cond.orNext rest state
  | false, cond :: rest, state =>
    match evalOneCond engine input ruleCaps cond state with
    | none => none
    | some (true, state) => evalConds engine input ruleCaps cond.orNext rest state
    | some (false, state) =>
      if cond.orNext && !rest.isEmpty then evalConds engine input ruleCaps false rest state
      else some (false, state)

def evalConditions (ruleCaps : Caps) (conds : List Cond) (state : EvalState) :
    Option (Bool × EvalState) :=
  evalConds engine input ruleCaps false conds state

/-! ## Matching a rule -/

def ruleMatchTarget (uri : Octets) : Octets :=
  match input.perDirectoryPrefix with
  | some directory => (after directory (trimStartSlashes uri)).getD (trimStartSlashes uri)
  | none => trimStartSlashes uri

def selectMatchTarget (patternSrc : Octets) (input : RewriteInput) (uri : Octets) : Octets :=
  if input.perDirectoryPrefix.isSome then ruleMatchTarget input uri
  else if patternExpectsLeadingSlash patternSrc then if uri.head? == some 47 then uri else 47 :: uri
  else ruleMatchTarget input uri

def captureVec (target : Octets) (groups : Option Groups) : Caps :=
  match groups with
  | some groups => fun k =>
    if k = 0 then some ((groupTexts target groups 0).getD target) else groupTexts target groups k
  | none => emptyCaps

def synthesizeTotalCaps (target : Octets) (total : TotalMatch) : Caps :=
  fun k => if k = 0 ∨ k = 1 ∧ total = .oneGroup then some target else none

/-! ## A rule fires -/

inductive Applied where
  | missed (state : EvalState)
  | terminal (outcome : RewriteOutcome)
  | matched (last stop : Bool) (state : EvalState)
  | restart (state : EvalState)

/-- The request can choose the upstream host. -/
def proxyAuthoritySubstituted (subst : Octets) : Bool :=
  if subst = [45] then false
  else
    match splitAtMarker (ascii "://") subst with
    | none => true
    | some (scheme, rest) =>
      hasPair (fun b c => (b == 36 || b == 37) && (isDigit c || c == 123))
        (scheme ++ ascii "://" ++ rest.takeWhile fun b => !(ascii "/?#").contains b)

/-- One `[E=…]`; on a `[P]` rule, `Proxy-Host` is not an environment variable. -/
def applyEnvSet (flags : RuleFlags) (ruleCaps : Caps) (done : EvalState × Option Octets)
    (set : Octets × Octets) : EvalState × Option Octets :=
  let scope := done.1.scope input ruleCaps
  let (key, memo) := expand scope set.1 done.1.memo
  let (value, memo) := expand scope set.2 memo
  let state := { done.1 with memo := memo }
  if flags.proxy && eqIgnoreCase key (ascii "Proxy-Host") then (state, some value)
  else (state.recordEnv key value, done.2)

def expandSubst (subst : Octets) (flags : RuleFlags) (ruleCaps : Caps) (state : EvalState)
    (escapePct : Bool) (memo : FsMemo) : Octets × FsMemo :=
  let escape : SubstEscape :=
    { backref := flags.backrefEscape
      allow3f := flags.allow3f
      escapePct := escapePct
      uriEscaped := state.uriEscaped }
  let done := expandWith (state.scope input ruleCaps) (.subst escape) subst memo
  (done.out, done.memo)

/-- An absolute target of a `[NE]` rule is expanded again, with its `%` as they are. -/
def expandTarget (subst : Octets) (flags : RuleFlags) (ruleCaps : Caps) (state : EvalState) :
    Octets × FsMemo :=
  let escapePct := !(flags.noescape && (flags.redirect.isSome || flags.proxy))
  let (expanded, memo) := expandSubst input subst flags ruleCaps state escapePct state.memo
  if escapePct && flags.noescape && isAbsoluteUri expanded then
    expandSubst input subst flags ruleCaps state false memo
  else (expanded, memo)

/-- The escaped target of a substitution. -/
def substTarget (subst : Octets) (flags : RuleFlags) (ruleCaps : Caps) (state : EvalState) :
    Octets × FsMemo :=
  let (expanded, memo) := expandTarget input subst flags ruleCaps state
  (if flags.noescape then expanded else escapeSubst expanded, memo)

/-- Where a rule redirects to, before it is qualified. -/
def redirectTarget (base : Option Octets) (flags : RuleFlags) (target : Option Octets)
    (state : EvalState) : Octets :=
  let location :=
    match target with
    | some target =>
      let (path, query) := splitSubst target
      let path := if isAbsoluteUri path then path else resolveSubstPath base input path
      match query with
      | some query => path ++ 63 :: query
      | none => path
    | none => state.uri
  applyQueryToLocation location (if flags.qsd then [] else state.query) flags.qsa

def redirectLocation (base : Option Octets) (flags : RuleFlags) (target : Option Octets)
    (state : EvalState) : Octets :=
  fullyQualifyRedirect (redirectTarget input base flags target state) input

/-- The working URI is replaced by a target. -/
def adoptTarget (base : Option Octets) (flags : RuleFlags) (target : Octets) (state : EvalState) :
    EvalState :=
  let (path, query) := splitSubst target
  let absolute := isAbsoluteUri path
  { state with
    pendingAbsolute := absolute
    uri := if absolute then path else resolveSubstPath base input path
    uriEscaped := true
    query := computeQuery query (if flags.qsd then [] else state.query) flags.qsa
    env := Function.update state.env (ascii "REDIRECT_STATUS") (some (ascii "200"))
    prefilterValid := false }

/-- The target, if there is one, is proxied to, redirected to or adopted. -/
def useTarget (base : Option Octets) (subst : Octets) (flags : RuleFlags)
    (proxyHost target : Option Octets) (state : EvalState) : Applied :=
  if flags.proxy then
    .terminal (.proxy
      (applyQueryToLocation (target.getD state.uri)
        (if flags.qsd then [] else state.query) flags.qsa)
      proxyHost state.envVec (target.isSome && proxyAuthoritySubstituted subst))
  else
    match flags.redirect with
    | some code =>
      if 300 ≤ code ∧ code < 400 then
        .terminal (.redirect code (redirectLocation input base flags target state) state.envVec)
      else .terminal (.status code true state.envVec)
    | none =>
      let state :=
        match target with
        | some target => adoptTarget input base flags target state
        | none => if flags.qsd then { state with query := [] } else state
      if flags.next then .restart state else .matched flags.last flags.stop state

/-- What a rule does once its pattern and its conditions have matched. -/
def fire (base : Option Octets) (subst : Octets) (flags : RuleFlags) (ruleCaps : Caps)
    (state : EvalState) : Applied :=
  let (state, proxyHost) := flags.envSets.foldl (applyEnvSet input flags ruleCaps) (state, none)
  if flags.forbidden then .terminal (.forbidden state.envVec)
  else if flags.gone then .terminal (.gone state.envVec)
  else if subst = [45] then useTarget input base subst flags proxyHost none state
  else
    let (target, memo) := substTarget input subst flags ruleCaps state
    useTarget input base subst flags proxyHost (some target) { state with memo := memo }

/-! ## Applying a rule -/

/-- The prefilter has found no occurrence of the pattern in the URI of the request. -/
def prefilterRejects (rule : Rule) (hits : Option (Nat → Bool)) (state : EvalState) : Bool :=
  state.prefilterValid && rule.matchTotal.isNone &&
    match rule.prefilterIdx, hits with
    | some idx, some hits => !hits idx
    | _, _ => false

def conditionFailed : String := "rewrite condition regex failed at match time"

def ruleFailed : String := "rewrite rule regex failed at match time"

/-- The pattern of a rule on its target: whether it matches, and the captures that are kept. -/
def matchPattern (engine : Engine) (rule : Rule) (target : Octets) : Except Unit (Option Caps) :=
  match rule.matchTotal.filter fun _ => !target.contains 10 with
  | some total =>
    .ok (some (if rule.needsRuleCaps then synthesizeTotalCaps target total else emptyCaps))
  | none =>
    match engine.capturesChecked rule.pattern target with
    | .error _ => .error ()
    | .ok groups =>
      if groups.isSome ^^ rule.negate then
        .ok (some (if rule.needsRuleCaps then captureVec target groups else emptyCaps))
      else .ok none

/-- Conditions from a clean slate: where they pass, what comes next. -/
def afterConditions (ruleCaps : Caps) (conds : List Cond) (state : EvalState)
    (go : EvalState → Applied) : Applied :=
  match evalConditions engine input ruleCaps conds state.resetConds with
  | none => .terminal (.failed state.envVec conditionFailed)
  | some (false, state) => .missed state
  | some (true, state) => go state

def afterPattern (rule : Rule) (state : EvalState) (go : Caps → EvalState → Applied) : Applied :=
  match matchPattern engine rule (selectMatchTarget rule.patternSrc input state.uri) with
  | .error _ => .terminal (.failed state.envVec ruleFailed)
  | .ok none => .missed state
  | .ok (some caps) => go caps state

def applyRule (engine : Engine) (rs : RuleSet) (input : RewriteInput) (hits : Option (Nat → Bool))
    (rule : Rule)
    (state : EvalState) : Applied :=
  if prefilterRejects rule hits state then .missed state
  else if !rule.literalPrefix.isPrefixOf (selectMatchTarget rule.patternSrc input state.uri) then
    .missed state
  else if !rule.condsNeedRuleCaps && !rule.conds.isEmpty then
    -- the conditions need no capture of the pattern and are tried before it
    afterConditions engine input emptyCaps rule.conds state fun state =>
      afterPattern engine input rule state fun caps state =>
        fire input rs.base rule.subst rule.flags caps state
  else
    afterPattern engine input rule state fun caps state =>
      afterConditions engine input caps rule.conds state fun state =>
        fire input rs.base rule.subst rule.flags caps state

/-! ## Passes -/

def maxIterations : Nat := 10

inductive PassResult where
  | terminal (outcome : RewriteOutcome)
  | done (stop : Bool) (state : EvalState)
  | restart (state : EvalState)

section Passes

variable {ρ : Type} (flags : ρ → RuleFlags) (apply : ρ → EvalState → Applied)

/-- `run_pass`: so many rules are skipped (`[S]`), or those chained to one that missed. -/
def runPass : Nat → Bool → List ρ → EvalState → PassResult
  | _, _, [], state => .done false state
  | skip + 1, _, _ :: rest, state => runPass skip false rest state
  | 0, true, rule :: rest, state => runPass 0 (flags rule).chain rest state
  | 0, false, rule :: rest, state =>
    match apply rule state with
    | .missed state => runPass 0 (flags rule).chain rest state
    | .terminal outcome => .terminal outcome
    | .matched last stop state =>
      if last then .done stop state else runPass (flags rule).skip false rest state
    | .restart state =>
      let state := { state with nextLoops := state.nextLoops + 1 }
      if state.nextLoops > maxIterations then .done false state else .restart state

/-- The outcome once the rules have run. -/
def conclude (input : RewriteInput) (stop : Bool) (state : EvalState) : RewriteOutcome :=
  if state.pendingAbsolute && isAbsoluteUri state.uri then
    let location := state.uri ++ if state.query.isEmpty then [] else 63 :: state.query
    if absoluteTargetIsCurrent location input then .unchanged state.envVec stop
    else .redirect 302 location state.envVec
  else if state.uri ≠ input.uri ∨ state.query ≠ input.query then
    .rewritten state.uri (if state.query.isEmpty then none else some state.query) state.envVec stop
  else .unchanged state.envVec stop

/-- Passes until one ends without `[N]`. -/
def passes (input : RewriteInput) (rules : List ρ) : Nat → EvalState → RewriteOutcome
  | 0, state => conclude input false state
  | fuel + 1, state =>
    match runPass flags apply 0 false rules state with
    | .terminal outcome => outcome
    | .done stop state => conclude input stop state
    | .restart state => passes input rules fuel state

end Passes

def EvalState.start (memoActive : Bool) : EvalState where
  uri := input.uri
  query := input.query
  env := fun _ => none
  envOrder := []
  envUnset := []
  lastCondCaps := emptyCaps
  lastCondEscaped := none
  prefilterValid := true
  pendingAbsolute := false
  uriEscaped := false
  nextLoops := 0
  memo := FsMemo.fresh memoActive

/-- What the prefilter finds in the URI of the request. -/
def prefilterHits (engine : Engine) (rs : RuleSet) (input : RewriteInput) : Option (Nat → Bool) :=
  rs.prefilter.map fun patterns => engine.dfaMatches patterns (ruleMatchTarget input input.uri)

def evaluateWithEngine (engine : Engine) (rs : RuleSet) (input : RewriteInput) (engineOn : Bool) :
    RewriteOutcome :=
  if engineOn then
    passes Rule.flags (applyRule engine rs input (prefilterHits engine rs input)) input rs.rules
      (maxIterations + 1)
      (.start input true)
  else .unchanged [] false

def evaluate (engine : Engine) (rs : RuleSet) (input : RewriteInput) : RewriteOutcome :=
  evaluateWithEngine engine rs input rs.engineOn

/-! ## Variables -/

inductive CacheKeyVar where
  | userAgent
  | origin
  | accept
  deriving DecidableEq

def cacheSafeVars : List String :=
  ["REQUEST_URI", "REQUEST_FILENAME", "SCRIPT_FILENAME", "HTTP_HOST", "QUERY_STRING",
    "REQUEST_METHOD", "HTTPS",
    "REQUEST_SCHEME", "SERVER_NAME", "DOCUMENT_ROOT"]

/-- The value is in the key, or the same for every request of a virtual host. -/
def varIsCacheSafe (var : Octets) : Bool := cacheSafeVars.any fun name => ascii name == var

def redirectStatus : Octets := ascii "REDIRECT_STATUS"

/-- `%{ENV:REDIRECT_STATUS}` is taken to be empty before the rules run. -/
def envVarAssumedEmpty (var : Octets) : Option Octets :=
  (after (ascii "ENV:") var).filter fun name => name == redirectStatus

def keyableVar (var : Octets) : Option CacheKeyVar :=
  if eqIgnoreCase var (ascii "HTTP_USER_AGENT") then some .userAgent
  else
    match after (ascii "HTTP:") var with
    | none => none
    | some field =>
      if eqIgnoreCase field (ascii "User-Agent") then some .userAgent
      else if eqIgnoreCase field (ascii "Origin") then some .origin
      else if eqIgnoreCase field (ascii "Accept") then some .accept
      else none

/-! ## The outcome cache -/

/-- `string_cache_class`: every variable is in the key, assumed empty, or can be put in the key. -/
def stringCacheClass (text : Octets) : Bool :=
  bracesClosed text &&
    (textVars text).all fun var =>
      varIsCacheSafe var || (envVarAssumedEmpty var).isSome || (keyableVar var).isSome

/-- What a text adds to the key. -/
def stringKeyVars (text : Octets) : List CacheKeyVar :=
  (textVars text).filterMap fun var =>
    if varIsCacheSafe var || (envVarAssumedEmpty var).isSome then none else keyableVar var

/-- An `[E=…]` whose name is known and not assumed to be empty. -/
def envNameKnown (key : Octets) : Bool :=
  let name := match key with
    | 33 :: name => name
    | key => key
  !(name.contains 37 || name.contains 36 || name == redirectStatus)

def ruleCacheClass (rule : Rule) : Bool :=
  rule.strings.all stringCacheClass && rule.flags.envSets.all fun set => envNameKnown set.1

variable (rules : List Rule)

def pathCacheable : Bool := rules.all ruleCacheClass

def cacheKeyVars : List CacheKeyVar :=
  if pathCacheable rules then
    (rules.flatMap fun rule => rule.strings.flatMap stringKeyVars).dedup else []

/-! ## The page cache -/

/-- The header that a variable reads, in lower case. -/
def headerRead (var : Octets) : Option Octets :=
  match after (ascii "HTTP:") var with
  | some field => if field.isEmpty then none else some (field.map toLower)
  | none =>
    if eqIgnoreCase var (ascii "HTTP_USER_AGENT") then some (ascii "user-agent")
    else if eqIgnoreCase var (ascii "HTTP_COOKIE") then some (ascii "cookie")
    else if eqIgnoreCase var (ascii "HTTP_REFERER") then some (ascii "referer")
    else if eqIgnoreCase var (ascii "HTTP_ACCEPT") then some (ascii "accept")
    else if eqIgnoreCase var (ascii "HTTP_HOST") then some (ascii "host")
    else (singleWordHeaderVar var).map fun word => word.map toLower

def headerReads : List Octets :=
  (rules.flatMap fun rule => rule.strings.flatMap fun text =>
    (textVars text).filterMap headerRead).dedup

/-- The page cache keys on the variable or varies on its header. -/
def pageCacheKeyed (var : Octets) : Bool :=
  varIsCacheSafe var || (envVarAssumedEmpty var).isSome ||
    ((after (ascii "HTTP:") var).any fun field => !field.isEmpty) ||
      (singleWordHeaderVar var).isSome ||
    ["HTTP_USER_AGENT", "HTTP_COOKIE", "HTTP_REFERER", "HTTP_ACCEPT"].any fun name =>
      ascii name == var

def firstPageCacheUnkeyed (text : Octets) : Option Octets :=
  match (textVars text).find? fun var => !pageCacheKeyed var with
  | some var => some var
  | none => if bracesClosed text then none else some [37, 123]

/-- A rule that ends the request outside of the cache when it fires, and steers nothing when not. -/
def terminalUncached (rule : Rule) (chained : Bool) : Bool :=
  (rule.flags.forbidden || rule.flags.gone || rule.flags.redirect.isSome) && !rule.flags.proxy &&
    !rule.flags.chain && !rule.flags.next && rule.flags.skip == 0 && !chained

def rulesPageCacheUnkeyed : Bool → List Rule → Option Octets
  | _, [] => none
  | chained, rule :: rest =>
    if terminalUncached rule chained then rulesPageCacheUnkeyed rule.flags.chain rest
    else
      match rule.strings.findSome? firstPageCacheUnkeyed with
      | some var => some var
      | none => rulesPageCacheUnkeyed rule.flags.chain rest

def pageCacheUnkeyed : Option Octets := rulesPageCacheUnkeyed false rules

/-! ## User agents -/

def stringRefsUa (text : Octets) : Bool :=
  (textVars text).any fun var => keyableVar var == some .userAgent

/-- The text is one variable for the user agent and nothing else. -/
def isExactUaVar (text : Octets) : Bool :=
  match text with
  | 37 :: 123 :: rest =>
    match splitOnce 125 rest with
    | some (name, []) => keyableVar name == some .userAgent
    | _ => false
  | _ => false

def rulesReadUa : Bool := rules.any fun rule => rule.strings.any stringRefsUa

/-- A regular expression on the user agent that cannot fail at match time. -/
def uaCondSafe (engine : Engine) (cond : Cond) : Bool :=
  isExactUaVar cond.testString &&
    match cond.pattern with
    | .regex source => !engine.canFailAtMatchTime ⟨source, cond.nocase⟩
    | _ => false

/-- The texts that are compared with or inserted, and no `%N` anywhere. -/
def uaCondAllowed (engine : Engine) (cond : Cond) : Bool :=
  !usesPercentBackref cond.testString &&
    cond.strings.tail.all (fun rhs => !stringRefsUa rhs && !usesPercentBackref rhs) &&
    (!stringRefsUa cond.testString || uaCondSafe engine cond)

def uaRuleAllowed (engine : Engine) (rule : Rule) : Bool :=
  !stringRefsUa rule.subst && !usesPercentBackref rule.subst &&
    rule.flags.envSets.all (fun set => !stringRefsUa set.1 && !stringRefsUa set.2 &&
      !usesPercentBackref set.1 && !usesPercentBackref set.2) &&
    rule.conds.all (uaCondAllowed engine)

/-- The conditions that read the user agent, by rule and condition. -/
def uaConds : List (Nat × Nat) :=
  rules.zipIdx.flatMap fun (rule, ri) =>
    rule.conds.zipIdx.filterMap fun (cond, ci) =>
      if stringRefsUa cond.testString then some (ri, ci) else none

/-- `ua_classify_eligible`. -/
def uaClassifyEligible (engine : Engine) (rules : List Rule) : Bool :=
  rulesReadUa rules && rules.all (uaRuleAllowed engine) && !(uaConds rules).isEmpty &&
    (uaConds rules).length ≤ 64

/-- Whether a condition's regular expression matches a user agent. -/
def uaCondMatches (engine : Engine) (rules : List Rule) (ua : Octets) (at' : Nat × Nat) : Bool :=
  match (rules[at'.1]?.bind fun rule => rule.conds[at'.2]?) with
  | some cond =>
    match cond.pattern with
    | .regex source => (engine.captures ⟨source, cond.nocase⟩ ua).isSome
    | _ => false
  | none => false

/-- `ua_cond_signature`: one bit for each condition on the user agent. -/
def uaCondSignature (engine : Engine) (rules : List Rule) (ua : Octets) : BitVec 64 :=
  bitmap ((uaConds rules).map (uaCondMatches engine rules ua))

end HttpJet.Rewrite
