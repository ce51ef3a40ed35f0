import HttpJet.Paths.RequestPath
import HttpJet.Rewrite.Input

/-!
# Templates and their expansion

The texts of a rule hold `%{VAR}`, `$N`, `%N` and `\x`.  `pieces` reads a text the way an
expansion does; `textVars` reads it the way the classifiers of rules do, which look for
`%{…}` only.  An expansion inserts the value of each piece.  In a substitution it escapes
what it inserts; in a test string it records what came from the working URI.
-/

namespace HttpJet.Rewrite

open Library List
open Paths (upperHexDigit)
open Hpack.Integer (Octets)
open Hpack.StaticTable (ascii)
open H2 (eqIgnoreCase isAlphanumeric isDigit isHexDigit rsplitOnce)

variable {left template : Octets} {k : Nat}

/-! ## Pieces -/

inductive Piece where
  | literal (b : UInt8)
  | var (name : Octets)
  | condRef (k : Nat)
  | ruleRef (k : Nat)
  deriving DecidableEq

def digitValue (b : UInt8) : Nat := (b - 48).toNat

/-- Reads a template; with a name (last octet first), inside the braces of a variable. -/
def scan : Option Octets → Octets → List Piece
  | _, [] => []
  | some name, b :: rest =>
    if b = 125 then .var name.reverse :: scan none rest else scan (some (b :: name)) rest
  | none, b :: rest =>
    if b = 37 then
      match rest with
      | [] => [.literal b]
      | c :: tail =>
        if c = 123 then
          -- a brace that is never closed opens no variable
          if 125 ∈ tail then scan (some []) tail else .literal b :: scan none (c :: tail)
        else if isDigit c then .condRef (digitValue c) :: scan none tail
        else .literal b :: scan none (c :: tail)
    else if b = 36 then
      match rest with
      | [] => [.literal b]
      | c :: tail =>
        if isDigit c then .ruleRef (digitValue c) :: scan none tail
        else .literal b :: scan none (c :: tail)
    else if b = 92 then
      match rest with
      | [] => [.literal b]
      | c :: tail => .literal c :: scan none tail
    else .literal b :: scan none rest

def pieces (template : Octets) : List Piece := scan none template

/-- Looks for `%{…}` only: the names found, and whether every brace is closed. -/
def textScan : Option Octets → Octets → List Octets × Bool
  | _, [] => ([], true)
  | some name, b :: rest =>
    if b = 125 then (name.reverse :: (textScan none rest).1, (textScan none rest).2)
    else textScan (some (b :: name)) rest
  | none, b :: rest =>
    if b = 37 then
      match rest with
      | [] => ([], true)
      | c :: tail =>
        if c = 123 then if 125 ∈ tail then textScan (some []) tail else ([], false)
        else textScan none (c :: tail)
    else textScan none rest

def textVars (template : Octets) : List Octets := (textScan none template).1

def bracesClosed (template : Octets) : Bool := (textScan none template).2

/-- Some two neighbouring octets. -/
def hasPair (p : UInt8 → UInt8 → Bool) : Octets → Bool
  | b :: c :: rest => p b c || hasPair p (c :: rest)
  | _ => false

def usesDollarBackref (text : Octets) : Bool := hasPair (fun b c => b == 36 && isDigit c) text

def usesPercentBackref (text : Octets) : Bool := hasPair (fun b c => b == 37 && isDigit c) text

/-- `contains("%0")`. -/
def mentionsZero (text : Octets) : Bool := hasPair (fun b c => b == 37 && c == 48) text

/-! ## What the two readings have in common -/

theorem scan_name (free : 125 ∉ left) (name right : Octets) :
    scan (some name) (left ++ 125 :: right) = .var (name.reverse ++ left) :: scan none right := by
  induction left generalizing name with
  | nil => simp [scan]
  | cons _ _ ih =>
    rw [mem_cons, not_or] at free
    rw [cons_append, scan, if_neg (Ne.symm free.1), ih free.2, reverse_cons, append_assoc,
      singleton_append]

theorem textScan_name (free : 125 ∉ left) (name right : Octets) :
    textScan (some name) (left ++ 125 :: right) =
      ((name.reverse ++ left) :: (textScan none right).1, (textScan none right).2) := by
  induction left generalizing name with
  | nil => simp [textScan]
  | cons _ _ ih =>
    rw [mem_cons, not_or] at free
    rw [cons_append, textScan, if_neg (Ne.symm free.1), ih free.2, reverse_cons, append_assoc,
      singleton_append]

theorem scan_var (free : 125 ∉ left) (right : Octets) :
    scan none (37 :: 123 :: (left ++ 125 :: right)) = .var left :: scan none right := by
  rw [scan, if_pos rfl]
  simp only [if_true, mem_append, mem_cons, true_or, or_true]
  exact scan_name free [] right

theorem textScan_var (free : 125 ∉ left) (right : Octets) :
    textScan none (37 :: 123 :: (left ++ 125 :: right)) =
      (left :: (textScan none right).1, (textScan none right).2) := by
  rw [textScan, if_pos rfl]
  simp only [if_true, mem_append, mem_cons, true_or, or_true]
  exact textScan_name free [] right

theorem textScan_cons_of_ne {b : UInt8} (other : b ≠ 37) (rest : Octets) :
    textScan none (b :: rest) = textScan none rest := by
  rw [textScan.eq_def]
  exact if_neg other

theorem ne_percent_of_isDigit {c : UInt8} (digit : isDigit c = true) : c ≠ 37 := by
  rintro rfl
  cases digit

/-- One step of an expansion: what it takes of the text, before `tail`, and the piece. -/
inductive Reads (tail : Octets) : Octets → Piece → Prop
  | name {left : Octets} (free : 125 ∉ left) : Reads tail (37 :: 123 :: (left ++ [125])) (.var left)
  | condRef {c : UInt8} (digit : isDigit c = true) : Reads tail [37, c] (.condRef (digitValue c))
  | ruleRef {c : UInt8} (digit : isDigit c = true) : Reads tail [36, c] (.ruleRef (digitValue c))
  | escaped (c : UInt8) : Reads tail [92, c] (.literal c)
  | octet (b : UInt8) (noName : b = 37 → ∀ left right, tail ≠ 123 :: (left ++ 125 :: right)) :
      Reads tail [b] (.literal b)

theorem scan_cons (b : UInt8) (rest : Octets) :
    ∃ used tail piece, Reads tail used piece ∧ b :: rest = used ++ tail ∧
      scan none (b :: rest) = piece :: scan none tail := by
  have octet (plain : b ≠ 37 ∨ ∀ left right, rest ≠ 123 :: (left ++ 125 :: right))
      (same : scan none (b :: rest) = .literal b :: scan none rest) : ∃ used tail piece,
        Reads tail used piece ∧
        b :: rest = used ++ tail ∧ scan none (b :: rest) = piece :: scan none tail :=
    ⟨[b], rest, _, .octet b fun isPercent =>
      plain.resolve_left (not_not_intro isPercent), rfl, same⟩
  by_cases percent : b = 37
  · subst percent
    cases rest with
    | nil => exact octet (.inr fun _ _ same => nomatch same) rfl
    | cons c tail =>
      by_cases brace : c = 123
      · subst brace
        by_cases closed : 125 ∈ tail
        · obtain ⟨left, right, rfl, free⟩ := eq_append_cons_of_mem closed
          exact ⟨_, right, _, .name free, by simp, scan_var free right⟩
        · refine octet (.inr fun left right same => closed ?_)
            (by rw [scan, if_pos rfl, if_pos rfl, if_neg closed])
          simp [(cons.inj same).2]
      · cases digit : isDigit c with
        | true =>
          exact ⟨[37, c], tail, _, .condRef digit,
            rfl, by rw [scan, if_pos rfl, if_neg brace, if_pos digit]⟩
        | false =>
          refine octet (.inr fun _ _ same => brace (cons.inj same).1) ?_
          rw [scan, if_pos rfl, if_neg brace, if_neg (by rw [digit]; exact Bool.false_ne_true)]
  · by_cases dollar : b = 36
    · subst dollar
      cases rest with
      | nil => exact octet (.inl percent) rfl
      | cons c tail =>
        cases digit : isDigit c with
        | true =>
          exact ⟨[36, c], tail, _, .ruleRef digit,
            rfl, by rw [scan, if_neg percent, if_pos rfl, if_pos digit]⟩
        | false => exact octet (.inl percent) (by rw [scan, if_neg percent, if_pos rfl, digit]; rfl)
    · by_cases backslash : b = 92
      · subst backslash
        cases rest with
        | nil => exact octet (.inl percent) rfl
        | cons c tail =>
          exact ⟨[92, c], tail, _, .escaped c,
            rfl, by rw [scan, if_neg percent, if_neg dollar, if_pos rfl]⟩
      · refine octet (.inl percent) ?_
        rw [scan.eq_def]
        dsimp only
        rw [if_neg percent, if_neg dollar, if_neg backslash]

/-- Every name that is read is one the classifiers see. -/
def ReadsSeen (template : Octets) : Prop :=
  ∀ name, Piece.var name ∈ pieces template → name ∈ textVars template

theorem mem_of_mem_scan {piece : Piece} {name tail : Octets}
    (read : Piece.var name ∈ piece :: scan none tail)
    (other : ∀ name, piece ≠ .var name) : Piece.var name ∈ scan none tail :=
  (mem_cons.mp read).resolve_left fun same => other name same.symm

/-- The classifiers are at the end of a name when the expansion, which took its `%` for an
escaped one, has read it as text. -/
theorem scan_inside {right : Octets} (plain : 37 ∉ left) {name : Octets}
    (read : Piece.var name ∈ scan none (left ++ 125 :: right)) :
    Piece.var name ∈ scan none right := by
  induction hlen : left.length using Nat.strongRecOn generalizing left with
  | _ _ ih =>
    subst hlen
    obtain ⟨b, rest, cut⟩ : ∃ b rest, left ++ 125 :: right = b :: rest := by cases left <;>
      exact ⟨_, _, rfl⟩
    have other : b ≠ 37 := by
      rintro rfl
      cases left <;> simp_all
    obtain ⟨used, tail, _, reads, whole, scans⟩ := scan_cons b rest
    rw [cut, scans] at read
    -- two octets are taken of the name and its brace, or only one
    have two {mark c : UInt8} (taken : used = [mark, c]) (mark' : mark ≠ 125)
        (later : Piece.var name ∈ scan none tail) : Piece.var name ∈ scan none right := by
      rw [whole, taken] at cut
      match left with
      | [] => exact absurd (cons.inj cut).1.symm mark'
      | [d] =>
        cases cut
        exact later
      | d :: e :: left =>
        cases cut
        simp only [mem_cons, not_or] at plain
        exact ih left.length (by simp only [length_cons]; omega) plain.2.2 later rfl
    cases reads with
    | name | condRef => exact absurd (cons.inj whole).1 other
    | ruleRef | escaped => exact two rfl (by decide) (mem_of_mem_scan read nofun)
    | octet =>
      have later := mem_of_mem_scan read nofun
      cases whole
      match left with
      | [] =>
        cases cut
        exact later
      | d :: left =>
        cases cut
        exact ih left.length (Nat.lt_succ_self _)
          (fun inside => plain (mem_cons_of_mem _ inside)) later rfl

/-- The classifiers at a `%`: a name, an open brace, or an octet to go past. -/
theorem textScan_percent (rest : Octets) : (∃ left right, rest = 123 :: (left ++ 125 :: right) ∧
        textScan none (37 :: rest) = (left :: (textScan none right).1, (textScan none right).2)) ∨
      (textScan none (37 :: rest)).2 = false ∨ textScan none (37 :: rest) = textScan none rest := by
  cases rest with
  | nil => exact .inr (.inr rfl)
  | cons =>
    rw [textScan, if_pos rfl]
    split_ifs with brace closed
    · obtain ⟨left, right, rfl, free⟩ := eq_append_cons_of_mem closed
      exact .inl ⟨left, right, brace ▸ rfl, textScan_name free [] right⟩
    · exact .inr (.inl rfl)
    · exact .inr (.inr rfl)

/-- Where no name holds a `%`, an expansion reads only names that the classifiers see. -/
theorem readsSeen_of_plain (closed : bracesClosed template = true)
    (plain : ∀ name ∈ textVars template, 37 ∉ name) : ReadsSeen template := by
  intro name read
  rw [bracesClosed] at closed
  rw [pieces] at read
  rw [textVars] at plain ⊢
  induction hlen : template.length using Nat.strongRecOn generalizing template with
  | _ _ ih =>
    subst hlen
    have next {text : Octets} (shorter : text.length < template.length)
        (closed : (textScan none text).2 = true)
        (plain : ∀ name ∈ (textScan none text).1, 37 ∉ name)
          (read : Piece.var name ∈ scan none text) :
        name ∈ (textScan none text).1 := ih _ shorter closed plain read rfl
    cases template with
    | nil => simp [scan] at read
    | cons b rest =>
      obtain ⟨used, tail, piece, reads, whole, scans⟩ := scan_cons b rest
      rw [scans] at read
      -- the classifiers go past the same octets
      have past (same : textScan none (b :: rest) = textScan none tail)
          (other : ∀ name, piece ≠ .var name) :
          name ∈ (textScan none (b :: rest)).1 := by
        rw [same] at closed plain ⊢
        refine next ?_ closed plain (mem_of_mem_scan read other)
        have long := congrArg length whole
        rw [length_append] at long
        have some : 0 < used.length := by cases reads <;> exact Nat.succ_pos _
        omega
      cases reads with
      | name free =>
        rw [whole, cons_append, cons_append, append_assoc, singleton_append, textScan_var free]
          at closed plain ⊢
        rcases mem_cons.mp read with same | later
        · cases same
          exact mem_cons_self
        · refine mem_cons_of_mem _
            (next ?_ closed (fun other member => plain other (mem_cons_of_mem _ member)) later)
          rw [whole]
          simp only [length_append, length_cons]
          omega
      | @condRef c digit =>
        change b :: rest = 37 :: c :: tail at whole
        cases whole
        refine past ?_ nofun
        rcases textScan_percent (c :: tail) with ⟨left, right, cut, -⟩ | opened | same
        · rw [(cons.inj cut).1] at digit
          cases digit
        · nomatch (opened.symm.trans closed)
        · rw [same, textScan_cons_of_ne (ne_percent_of_isDigit digit)]
      | ruleRef digit =>
        change b :: rest = 36 :: _ :: tail at whole
        cases whole
        exact past
          (by rw
            [textScan_cons_of_ne (by decide), textScan_cons_of_ne (ne_percent_of_isDigit digit)])
              nofun
      | octet b noName =>
        cases whole
        by_cases percent : b = 37
        · subst percent
          rcases textScan_percent tail with ⟨left, right, cut, -⟩ | opened | same
          · exact absurd cut (noName rfl left right)
          · nomatch (opened.symm.trans closed)
          · exact past same nofun
        · exact past (textScan_cons_of_ne percent _) nofun
      | escaped c =>
        change b :: rest = 92 :: c :: tail at whole
        cases whole
        rw [textScan_cons_of_ne (show (92 : UInt8) ≠ 37 by decide)] at closed plain past ⊢
        by_cases percent : c = 37
        · subst percent
          rcases textScan_percent tail with ⟨left, _, rfl, sees⟩ | opened | same
          · -- the escaped `%` is taken for the start of a name
            rw [sees] at closed plain ⊢
            have free : 37 ∉ 123 :: left := by
              simpa using plain left mem_cons_self
            have inside := scan_inside free (mem_of_mem_scan read nofun)
            refine mem_cons_of_mem _
              (next ?_ closed (fun other member => plain other (mem_cons_of_mem _ member)) inside)
            simp only [length_cons, length_append]
            omega
          · nomatch (opened.symm.trans closed)
          · exact past same nofun
        · exact past (textScan_cons_of_ne percent _) nofun

theorem hasPair_of_infix {p : UInt8 → UInt8 → Bool} {b c : UInt8} {text : Octets}
    (inside : [b, c] <:+: text)
    (holds : p b c = true) : hasPair p text = true := by
  induction text with
  | nil => simp at inside
  | cons _ rest ih =>
    rcases infix_cons_iff.mp inside with start | later
    · obtain ⟨tail, same⟩ := start
      cases same
      change hasPair p (b :: c :: tail) = true
      rw [hasPair, holds, Bool.true_or]
    · have here := ih later
      cases rest with
      | nil => cases here
      | cons => rw [hasPair, here, Bool.or_true]

/-- The mark and the number of a reference. -/
def Piece.mark : Piece → Option (UInt8 × Nat)
  | .ruleRef k => some (36, k)
  | .condRef k => some (37, k)
  | _ => none

/-- A reference comes from a mark and a digit next to each other. -/
theorem infix_of_mark {text : Octets} {piece : Piece} {mark : UInt8}
    (marked : piece.mark = some (mark, k)) (member : piece ∈ scan none text) :
    ∃ c, [mark, c] <:+: text ∧ isDigit c = true ∧ digitValue c = k := by
  induction hlen : text.length using Nat.strongRecOn generalizing text with
  | _ _ ih =>
    subst hlen
    cases text with
    | nil => simp [scan] at member
    | cons b rest =>
      obtain ⟨used, tail, _, reads, whole, scans⟩ := scan_cons b rest
      rw [scans] at member
      rw [whole]
      rcases mem_cons.mp member with rfl | later
      · cases reads with
        | condRef digit | ruleRef digit =>
          cases marked
          exact ⟨_, (prefix_append _ tail).isInfix, digit, rfl⟩
        | name | escaped | octet => cases marked
      · have shorter : tail.length < (b :: rest).length := by
          rw [whole, length_append]
          cases reads <;> simp only [length_cons] <;> omega
        obtain ⟨c, inside, digit⟩ := ih _ shorter later rfl
        exact ⟨c, inside.trans (suffix_append used tail).isInfix, digit⟩

theorem usesPercentBackref_of_condRef (member : .condRef k ∈ pieces template) :
    usesPercentBackref template = true := by
  obtain ⟨c, inside, digit, -⟩ := infix_of_mark rfl member
  exact hasPair_of_infix inside (by rw [digit]; rfl)

/-! ## What is inserted -/

abbrev Caps := Nat → Option Octets

def emptyCaps : Caps := fun _ => none

abbrev Spans := List (Nat × Nat)

/-- For each `%N`, the spans of the capture that came from the escaped working URI. -/
abbrev CondEscaped := Nat → Spans

structure BackrefEscape where
  noPlus : Bool
  ctlsOnly : Bool
  noEscape : Octets
  only : Option Octets
  deriving DecidableEq

structure SubstEscape where
  backref : Option BackrefEscape
  allow3f : Bool
  escapePct : Bool
  uriEscaped : Bool

inductive Expansion where
  | plain
  | subst (escape : SubstEscape)
  | testString

/-- Where the octets of an inserted value came from. -/
inductive Provenance where
  | literal
  | escaped
  | spans (list : Spans)

def Provenance.literalAt (from' : Provenance) (i : Nat) : Bool :=
  match from' with
  | .literal => true
  | .escaped => false
  | .spans list => !list.any fun span => span.1 ≤ i && i < span.2

/-- `char::is_control`. -/
def isControl (c : Octets) : Bool :=
  match c with
  | [b] => b < 32 || b == 127
  | [a, b] => a == 0xc2 && 0x80 ≤ b && b ≤ 0x9f
  | _ => false

def backrefEscapes (escape : BackrefEscape) (c : Octets) : Bool :=
  (match escape.only with
    | some only => (chars only).contains c
    | none =>
      if escape.ctlsOnly then isControl c || c == [32]
      else !(c.all isAlphanumeric || c == [95])) &&
    !(chars escape.noEscape).contains c

def escapeOctet (b : UInt8) : Octets := [37, upperHexDigit (b >>> 4), upperHexDigit (b &&& 0xf)]

def backrefEscaped (escape : BackrefEscape) (c : Octets) : Octets :=
  if c == [32] && !escape.noPlus then [43] else c.flatMap escapeOctet

/-- The loop of `push_backref`: the characters from an offset on, in the path part or not. -/
def pushChars (escape : SubstEscape) (escapePct : Bool) (from' : Provenance) :
    Bool → Nat → List Octets → Octets
  | _, _, [] => []
  | inPath, i, c :: later =>
    match escape.backref.filter fun backref => backrefEscapes backref c with
    | some backref =>
      backrefEscaped backref c ++ pushChars escape escapePct from' inPath (i + c.length) later
    | none =>
      if c = [63] then
        if inPath && !escape.allow3f then
          ascii "%3F" ++ pushChars escape escapePct from' inPath (i + 1) later
        else 63 :: pushChars escape escapePct from' false (i + 1) later
      else if c = [37] && inPath && escapePct && from'.literalAt i then
        ascii "%25" ++ pushChars escape escapePct from' inPath (i + 1) later
      else c ++ pushChars escape escapePct from' inPath (i + c.length) later

/-- `push_backref`: what is appended for a value. -/
def pushBackref (escape : SubstEscape) (from' : Provenance) (out value : Octets) : Octets :=
  let inPath := !out.contains 63
  let escapePct := escape.escapePct && (match from' with | .escaped => false | _ => true)
  if escape.backref.isNone &&
    (!inPath || !value.any fun b => b == 63 || escapePct && b == 37) then value
  else pushChars escape escapePct from' inPath 0 (chars value)

def escapePercents (value : Octets) : Octets :=
  value.flatMap fun b => if b = 37 then ascii "%25" else [b]

/-- `escape_var_value`: what is appended for the value of a variable. -/
def escapeVarValue (out value : Octets) : Octets :=
  if out.contains 63 then value
  else escapePercents (value.takeWhile fun b => b != 63) ++ value.dropWhile fun b => b != 63

/-! ## Expansion -/

/-- What an expansion reads. -/
structure Scope where
  input : RewriteInput
  uri : Octets
  query : Octets
  env : Octets → Option Octets
  ruleCaps : Caps
  condCaps : Caps
  condEscaped : Option CondEscaped

variable (scope : Scope)

def Scope.spansAt (k : Nat) : Spans := (scope.condEscaped.map fun spans => spans k).getD []

/-- What has been expanded so far. -/
structure Expanded where
  out : Octets
  escaped : Spans
  memo : FsMemo

def Expanded.append (done : Expanded) (text : Octets) (spans : Spans) : Expanded :=
  { done with out := done.out ++ text, escaped := done.escaped ++ spans }

def Scope.varValue (name : Octets) (memo : FsMemo) : Octets × FsMemo :=
  resolveVar scope.input scope.uri scope.query scope.env memo (Var.ofName name)

/-- `Some(&[])` and `None` of the source's spans both mean that the capture is literal. -/
def condProvenance (spans : Spans) : Provenance := if spans.isEmpty then .literal else .spans spans

def pushVar (mode : Expansion) (name : Octets) (done : Expanded) : Expanded :=
  let (value, memo) := scope.varValue name done.memo
  let done := { done with memo := memo }
  match mode with
  | .plain => done.append value []
  | .subst escape =>
    if escape.escapePct && !(escape.uriEscaped && varReadsWorkingUri name) then
      done.append (escapeVarValue done.out value) []
    else done.append value []
  | .testString =>
    done.append value
      (if varReadsWorkingUri name && !value.isEmpty then
        [(done.out.length, done.out.length + value.length)] else [])

def pushCondRef (mode : Expansion) (k : Nat) (done : Expanded) : Expanded :=
  match scope.condCaps k with
  | none => done
  | some value =>
    match mode with
    | .plain => done.append value []
    | .subst escape =>
      done.append (pushBackref escape (condProvenance (scope.spansAt k)) done.out value) []
    | .testString =>
      done.append value
        ((scope.spansAt k).map fun span => (done.out.length + span.1, done.out.length + span.2))

def pushRuleRef (mode : Expansion) (k : Nat) (done : Expanded) : Expanded :=
  match scope.ruleCaps k with
  | none => done
  | some value =>
    match mode with
    | .plain => done.append value []
    | .subst escape =>
      done.append
        (pushBackref escape (if escape.uriEscaped then .escaped else .literal) done.out value) []
    | .testString => done.append value [(done.out.length, done.out.length + value.length)]

def pushPiece (mode : Expansion) (done : Expanded) : Piece → Expanded
  | .literal b => done.append [b] []
  | .var name => pushVar scope mode name done
  | .condRef k => pushCondRef scope mode k done
  | .ruleRef k => pushRuleRef scope mode k done

def expandWith (mode : Expansion) (template : Octets) (memo : FsMemo) : Expanded :=
  (pieces template).foldl (pushPiece scope mode) ⟨[], [], memo⟩

/-- `expand` and `expand_into`. -/
def expand (template : Octets) (memo : FsMemo) : Octets × FsMemo :=
  let done := expandWith scope .plain template memo
  (done.out, done.memo)

/-! ## Two expansions side by side -/

/-- Two scopes give a piece the same value. -/
def Scope.AgreeAt (first second : Scope) : Piece → Prop
  | .literal _ => True
  | .var name => ∀ memo1 memo2, MemoAlike first.input memo1 memo2 →
      (first.varValue name memo1).1 = (second.varValue name memo2).1 ∧
        MemoAlike first.input (first.varValue name memo1).2 (second.varValue name memo2).2
  | .condRef k => first.condCaps k = second.condCaps k ∧ first.spansAt k = second.spansAt k
  | .ruleRef k => first.ruleCaps k = second.ruleCaps k

def Scope.Agree (first second : Scope) (template : Octets) : Prop :=
  ∀ piece ∈ pieces template, first.AgreeAt second piece

structure Expanded.Alike (input : RewriteInput) (first second : Expanded) : Prop where
  out : first.out = second.out
  escaped : first.escaped = second.escaped
  memo : MemoAlike input first.memo second.memo

theorem Expanded.Alike.append {input : RewriteInput} {first second : Expanded}
    (alike : first.Alike input second)
    (text : Octets) (spans : Spans) :
    (first.append text spans).Alike input (second.append text spans) where
  out := by rw [Expanded.append, Expanded.append, alike.out]
  escaped := by rw [Expanded.append, Expanded.append, alike.escaped]
  memo := alike.memo

variable {first second : Scope}

theorem pushPiece_alike {piece : Piece} (agree : first.AgreeAt second piece)
    (mode : Expansion) {done1 done2 : Expanded} (alike : done1.Alike first.input done2) :
    (pushPiece first mode done1 piece).Alike first.input (pushPiece second mode done2 piece) := by
  cases piece with
  | literal b => exact alike.append [b] []
  | var name =>
    obtain ⟨value, memo⟩ := agree done1.memo done2.memo alike.memo
    rw [pushPiece, pushPiece, pushVar, pushVar]
    have moved :
        Expanded.Alike first.input { done1 with memo := (first.varValue name done1.memo).2 }
        { done2 with memo := (second.varValue name done2.memo).2 } :=
          ⟨alike.out, alike.escaped, memo⟩
    cases mode with
    | plain =>
      dsimp only
      rw [value]
      exact moved.append ..
    | subst =>
      dsimp only
      rw [value, alike.out]
      rw [alike.out] at moved
      split
      · exact moved.append ..
      · exact moved.append ..
    | testString =>
      dsimp only
      rw [value, alike.out]
      rw [alike.out] at moved
      exact moved.append ..
  | condRef k =>
    obtain ⟨value, spans⟩ := agree
    rw [pushPiece, pushPiece, pushCondRef, pushCondRef, value, spans, alike.out]
    cases second.condCaps k with
    | none => exact alike
    | some =>
      cases mode with
      | plain | subst | testString => exact alike.append ..
  | ruleRef k =>
    have value : first.ruleCaps k = second.ruleCaps k := agree
    rw [pushPiece, pushPiece, pushRuleRef, pushRuleRef, value, alike.out]
    cases second.ruleCaps k with
    | none => exact alike
    | some =>
      cases mode with
      | plain | subst | testString => exact alike.append ..

theorem expandWith_alike {template : Octets} (agree : first.Agree second template)
    (mode : Expansion) {memo1 memo2 : FsMemo} (alike : MemoAlike first.input memo1 memo2) :
    (expandWith first mode template memo1).Alike first.input
      (expandWith second mode template memo2) := by
  have folds : ∀ (list : List Piece) (done1 done2 : Expanded),
    (∀ piece ∈ list, first.AgreeAt second piece) →
      done1.Alike first.input done2 →
      (list.foldl (pushPiece first mode) done1).Alike first.input
        (list.foldl (pushPiece second mode) done2) := by
    intro list
    induction list with
    | nil => exact fun _ _ _ alike => alike
    | cons piece _ ih =>
      intro done1 done2 agree alike
      exact ih _ _ (fun other member => agree other (List.mem_cons_of_mem _ member))
        (pushPiece_alike (agree piece List.mem_cons_self) mode alike)
  exact folds _ _ _ agree ⟨rfl, rfl, alike⟩

theorem expand_alike {template : Octets} (agree : first.Agree second template)
    {memo1 memo2 : FsMemo} (alike : MemoAlike first.input memo1 memo2) :
    (expand first template memo1).1 = (expand second template memo2).1 ∧
      MemoAlike first.input (expand first template memo1).2 (expand second template memo2).2 :=
  have both := expandWith_alike agree .plain alike
  ⟨both.out, both.memo⟩

/-! ## Parts of a target -/

/-- The two sides of the first occurrence of a marker. -/
def splitAtMarker (marker : Octets) : Octets → Option (Octets × Octets)
  | [] => none
  | b :: rest =>
    if marker.isPrefixOf (b :: rest) then some ([], (b :: rest).drop marker.length)
    else (splitAtMarker marker rest).map fun sides => (b :: sides.1, sides.2)

/-- The path, and the query after the first `?`. -/
def splitSubst (subst : Octets) : Octets × Option Octets :=
  match splitOnce 63 subst with
  | some (path, query) => (path, some query)
  | none => (subst, none)

def isSchemeOctet (b : UInt8) : Bool := isAlphanumeric b || b == 43 || b == 45 || b == 46

def hasScheme (text : Octets) : Bool :=
  match splitAtMarker (ascii "://") text with
  | some (scheme, _) => scheme.all isSchemeOctet && !scheme.isEmpty
  | none => false

def absoluteSchemes : List String :=
  ["http://", "https://", "ftp://", "gopher://", "mailto:", "news:", "nntp://", "ws://", "wss://"]

def isAbsoluteUri (text : Octets) : Bool :=
  absoluteSchemes.any fun scheme =>
    decide (scheme.length ≤ text.length) && eqIgnoreCase (text.take scheme.length) (ascii scheme)

/-! ## Escaping -/

/-- The octets of `is_path_safe`: the unreserved ones and the delimiters of a path. -/
def isPathSafe (b : UInt8) : Bool := isAlphanumeric b || (ascii "-_.~/:@&=+$,;!*'()").contains b

def isAuthoritySafe (b : UInt8) : Bool :=
  isAlphanumeric b || (ascii "-._~!$&'()*+,;=:@[]%").contains b

def isQuerySafe (b : UInt8) : Bool :=
  isAlphanumeric b || (ascii "-_.~&=+;,$:@/?!*'()%[]").contains b

def escapeUnless (safe : UInt8 → Bool) (text : Octets) : Octets :=
  text.flatMap fun b => if safe b then [b] else escapeOctet b

/-- The path: an existing escape is kept. -/
def escapePath : Octets → Octets
  | [] => []
  | b :: rest =>
    if b = 37 then
      match rest with
      | first :: second :: later =>
        if isHexDigit first && isHexDigit second then b :: first :: second :: escapePath later
        else escapeOctet b ++ escapePath (first :: second :: later)
      | rest => escapeOctet b ++ escapePath rest
    else (if isPathSafe b then [b] else escapeOctet b) ++ escapePath rest

/-- The scheme and the authority, escaped as an authority, and the path after them. -/
def splitAuthority (path : Octets) : Octets × Octets :=
  match splitAtMarker (ascii "://") path with
  | some (scheme, rest) =>
    if hasScheme path then
      (scheme ++ ascii "://" ++ escapeUnless isAuthoritySafe (rest.takeWhile fun b => b != 47),
        rest.dropWhile fun b => b != 47)
    else ([], path)
  | none => ([], path)

def escapeSubst (subst : Octets) : Octets :=
  let (path, query) := splitSubst subst
  let (authority, path) := splitAuthority path
  authority ++ escapePath path ++ match query with
    | some query => 63 :: escapeUnless isQuerySafe query
    | none => []

/-! ## Resolution -/

/-- A relative target is in the directory of its rules. -/
def resolveSubstPath (base : Option Octets) (input : RewriteInput) (path : Octets) : Octets :=
  if path.isEmpty then [47]
  else if path.head? == some 47 || hasScheme path then path
  else
    let directory :=
      match base, input.perDirectoryPrefix with
      | some base, _ => base
      | none, some directory => if directory.isEmpty then [47] else 47 :: directory
      | none, none => [47]
    trimEndSlashes directory ++ 47 :: path

def computeQuery (substQuery : Option Octets) (current : Octets) (qsa : Bool) : Octets :=
  match substQuery with
  | some query =>
    if qsa && !current.isEmpty then if query.isEmpty then current
    else query ++ 38 :: current else query
  | none => current

def applyQueryToLocation (location currentQuery : Octets) (qsa : Bool) : Octets :=
  let (path, query) := splitSubst location
  let final := computeQuery query currentQuery qsa
  if final.isEmpty then path else path ++ 63 :: final

def isDefaultPort (port : UInt16) (https : Bool) : Bool :=
  https && port == 443 || !https && port == 80

/-- `parse::<u16>`. -/
def parseU16 (text : Octets) : Option UInt16 :=
  let digits := match text with
    | 43 :: rest => rest
    | text => text
  if digits.isEmpty || !digits.all isDigit then none
  else
    let value := digits.foldl (fun n b => n * 10 + digitValue b) 0
    if value < 65536 then some (UInt16.ofNat value) else none

def fullyQualifyRedirect (location : Octets) (input : RewriteInput) : Octets :=
  if hasScheme location || (ascii "//").isPrefixOf location then location
  else if location.head? != some 47 then location
  else
    let scheme := ascii (if input.https then "https" else "http")
    let host := if input.serverName.isEmpty then input.host else input.serverName
    if host.isEmpty then location
    else
      let hostHasPort := ((rsplitOnce 58 host).bind fun sides => parseU16 sides.2).isSome
      match input.serverPort with
      | some port =>
        if port != 0 && !hostHasPort && !isDefaultPort port input.https then
          scheme ++ ascii "://" ++ host ++ 58 :: decimal port.toNat ++ location
        else scheme ++ ascii "://" ++ host ++ location
      | none => scheme ++ ascii "://" ++ host ++ location

/-! ## The guard against a redirect to the request itself -/

def hexDigitValue (b : UInt8) : Option UInt8 :=
  if isDigit b then some (b - 48)
  else if 65 ≤ b && b ≤ 70 then some (b - 55)
  else if 97 ≤ b && b ≤ 102 then some (b - 87)
  else none

/-- `percent_decoded`: whatever is not an escape is kept. -/
def percentDecoded : Octets → Octets
  | [] => []
  | b :: rest =>
    if b = 37 then
      match rest with
      | first :: second :: later =>
        match hexDigitValue first, hexDigitValue second with
        | some high, some low => (high <<< 4 ||| low) :: percentDecoded later
        | _, _ => b :: percentDecoded (first :: second :: later)
      | rest => b :: percentDecoded rest
    else b :: percentDecoded rest

/-- The host and the port of an authority. -/
def splitHostPort (authority : Octets) (defaultPort : UInt16) : Option (Octets × UInt16) :=
  match authority with
  | 91 :: address => do
      let (host, rest) ← splitOnce 93 address
      match rest with
      | [] => pure (host, defaultPort)
      | 58 :: port => do
          let port ← parseU16 port
          pure (host, port)
      | _ => none
  | _ =>
    match rsplitOnce 58 authority with
    | some (host, port) => (parseU16 port).map fun port => (host, port)
    | none => some (authority, defaultPort)

def absoluteTargetIsCurrent (location : Octets) (input : RewriteInput) : Bool :=
  let scheme := ascii (if input.https then "https://" else "http://")
  if scheme.length ≤ location.length && eqIgnoreCase (location.take scheme.length) scheme then
    let rest := location.drop scheme.length
    let defaultPort := if input.https then 443 else 80
    match splitHostPort (rest.takeWhile fun b => b != 47) defaultPort with
    | none => false
    | some (host, port) =>
      if !eqIgnoreCase host input.host || port != input.hostPort.getD defaultPort then false
      else
        let (path, query) := splitSubst (rest.dropWhile fun b => b != 47)
        query.getD [] == input.query &&
          percentDecoded (if path.isEmpty then [47] else path) == input.uri
  else false

end HttpJet.Rewrite
