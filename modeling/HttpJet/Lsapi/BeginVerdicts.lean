import Mathlib.Algebra.Order.Ring.Nat
import HttpJet.Library.Codec
import HttpJet.Library.Window

/-!
# Request starts in a body

lsphp parses what a script left unread of a body as its next request.  `classifyBeginRequest` judges
whether it could accept a request at the first octet of a window.  A field that has been seen keeps
its value, so a frame stays a frame and an invalid field stays invalid; but a negative count that
arrives later turns a clean window into one to be watched.
-/

namespace HttpJet.Lsapi

open Library List

abbrev Octets := List UInt8

def packetHeaderLen : Nat := 8

def reqHeaderLen : Nat := 44

def maxBeginRequestLen : Int := 256 * 1024

def maxEnvPairs : Int := 8192

/-- `m_scriptFileOff`, `m_scriptNameOff`, `m_queryStringOff`, `m_requestMethodOff`. -/
def offsetFields : List Nat := [16, 20, 24, 28]

/-- `m_cntEnv`, `m_cntSpecialEnv`. -/
def countFields : List Nat := [36, 40]

/-- `L`, `S` and the type of a `BEGIN_REQUEST`. -/
def magic : Octets := [76, 83, 1]

/-- What the octets known so far say about a request that starts at the first. -/
inductive BeginVerdict where
  | clean
  | needMore
  | frame
  deriving DecidableEq

def BeginVerdict.max : BeginVerdict → BeginVerdict → BeginVerdict
  | .frame, _ => .frame
  | _, .frame => .frame
  | .needMore, _ => .needMore
  | _, .needMore => .needMore
  | .clean, .clean => .clean

/-- A 32-bit number in two's complement. -/
def toI32 (n : Nat) : Int := if n < 2 ^ 31 then n else (n : Int) - 2 ^ 32

/-- `i32::from_le_bytes` -/
def i32FromLe (octets : Octets) : Int := toI32 (fromLe octets)

/-- `i32::from_be_bytes` -/
def i32FromBe (octets : Octets) : Int := toI32 (fromLe octets.reverse)

/-- The number at an offset, if the window reaches past it. -/
def field (decode : Octets → Int) (window : Octets) (offset : Nat) : Option Int :=
  if offset + 4 ≤ window.length then some (decode (slice offset 4 window)) else none

/-- The part of the header that lies inside a packet. -/
def checkedLen (packetLen : Int) : Nat := min packetLen.toNat reqHeaderLen

/-- A field inside the packet is unknown yet or valid. -/
def within (decode : Octets → Int) (window : Octets) (checked : Nat) (valid : Int → Bool)
    (offset : Nat) :
    Bool :=
  decide (checked < offset + 4) || (field decode window offset).all valid

def offsetsOk (decode : Octets → Int) (window : Octets) (packetLen : Int) : Bool :=
  offsetFields.all
    (within decode window (checkedLen packetLen) fun v => decide (0 ≤ v ∧ v < packetLen))

def countsOk (decode : Octets → Int) (window : Octets) (packetLen : Int) : Bool :=
  countFields.all
    (within decode window (checkedLen packetLen) fun v => decide (0 ≤ v ∧ v ≤ maxEnvPairs))

def negativeCount (decode : Octets → Int) (window : Octets) (packetLen : Int) : Bool :=
  countFields.any fun offset =>
    decide (offset + 4 ≤ checkedLen packetLen) && (field decode window offset).any (· < 0)

def classifyInOrder (window : Octets) (decode : Octets → Int) : BeginVerdict :=
  match field decode window 4 with
  | none => .needMore
  | some packetLen =>
    if ¬(1 ≤ packetLen ∧ packetLen ≤ maxBeginRequestLen) then .clean
    else if !(offsetsOk decode window packetLen && countsOk decode window packetLen) &&
        !negativeCount decode window packetLen then .clean
    else if checkedLen packetLen ≤ window.length then .frame
    else .needMore

def classifyBeginRequest (window : Octets) : BeginVerdict :=
  let window := window.take reqHeaderLen
  if (window.zip magic).any fun pair => pair.1 != pair.2 then .clean
  else if window.length < packetHeaderLen then .needMore
  else (classifyInOrder window i32FromLe).max (classifyInOrder window i32FromBe)

def magicOffsets (octets : Octets) : List Nat := findIter magic 0 0 octets

/-! ## Windows that are frames -/

section stable

variable {decode : Octets → Int} {window : Octets} (more : Octets)

theorem field_append {offset : Nat} (inside : offset + 4 ≤ window.length) :
    field decode (window ++ more) offset = field decode window offset := by
  rw [field, field, if_pos inside, if_pos (by rw [length_append]; omega), slice, slice,
    drop_append_of_le_length (by omega),
    take_append_of_le_length (by rw [length_drop]; omega)]

theorem within_append {checked : Nat} {valid : Int → Bool}
    (seen : checked ≤ window.length) (offset : Nat) :
    within decode (window ++ more) checked valid offset =
      within decode window checked valid offset := by
  rw [within, within]
  by_cases outside : checked < offset + 4
  · rw [decide_eq_true outside, Bool.true_or, Bool.true_or]
  · rw [field_append more (by omega)]

/-- Once the checked part has been seen, more octets change nothing. -/
theorem classifyInOrder_append (frame : classifyInOrder window decode = .frame) :
    classifyInOrder (window ++ more) decode = .frame := by
  rw [classifyInOrder] at frame ⊢
  by_cases long : 4 + 4 ≤ window.length
  · rw [field_append more long]
    cases found : field decode window 4 with
    | none =>
      rw [found] at frame
      nomatch frame
    | some packetLen =>
      rw [found] at frame
      dsimp only at frame ⊢
      split_ifs at frame with range refused seen
      have sameOffsets : offsetsOk decode (window ++ more) packetLen =
          offsetsOk decode window packetLen := by
        rw [offsetsOk, offsetsOk]
        congr 1
        exact funext (within_append more seen)
      have sameCounts : countsOk decode (window ++ more) packetLen =
          countsOk decode window packetLen := by
        rw [countsOk, countsOk]
        congr 1
        exact funext (within_append more seen)
      have sameNegative : negativeCount decode (window ++ more) packetLen =
          negativeCount decode window packetLen := by
        rw [negativeCount, negativeCount]
        congr 1
        funext offset
        by_cases inside : offset + 4 ≤ checkedLen packetLen
        · rw [field_append more (inside.trans seen)]
        · rw [decide_eq_false inside, Bool.false_and, Bool.false_and]
      rw [if_neg (not_not.mpr range), sameOffsets, sameCounts, sameNegative, if_neg refused,
        if_pos (by rw [length_append]; omega)]
  · rw [field, if_neg long] at frame
    nomatch frame

theorem BeginVerdict.max_eq_frame {first second : BeginVerdict} :
    first.max second = .frame ↔ first = .frame ∨ second = .frame := by
  cases first <;> cases second <;> decide

end stable

/-- Two lists differ nowhere as far as both go when one begins the other. -/
theorem zip_any_ne_eq_false_iff {α : Type} [DecidableEq α] (first second : List α) :
    ((first.zip second).any fun pair => pair.1 != pair.2) = false ↔
      first <+: second ∨ second <+: first := by
  induction first generalizing second with
  | nil => exact iff_of_true rfl (.inl nil_prefix)
  | cons a as ih =>
    cases second with
    | nil => exact iff_of_true rfl (.inr nil_prefix)
    | cons b bs =>
      rw [zip_cons_cons, any_cons, Bool.or_eq_false_iff, ih bs, cons_prefix_cons,
        cons_prefix_cons, bne_eq_false_iff_eq, eq_comm (a := b), ← and_or_left]

/-- A request that lsphp could take from the window alone. -/
def IsFrame (window : Octets) : Prop := classifyBeginRequest window = .frame

instance (window : Octets) : Decidable (IsFrame window) :=
  inferInstanceAs (Decidable (classifyBeginRequest window = .frame))

theorem magic_of_agrees {window : Octets} (eight : packetHeaderLen ≤ window.length)
    (agrees : window <+: magic ∨ magic <+: window) : magic <+: window := by
  refine agrees.resolve_left fun inside => ?_
  exact absurd (eight.trans inside.length_le) (by decide)

/-- Only a window that begins with the magic is a frame. -/
theorem IsFrame.magic {window : Octets} (frame : IsFrame window) : magic <+: window := by
  rw [IsFrame, classifyBeginRequest] at frame
  split_ifs at frame with differs short
  rw [Bool.not_eq_true, zip_any_ne_eq_false_iff] at differs
  exact (magic_of_agrees (Nat.not_lt.mp short) differs).trans (List.take_prefix ..)

theorem isFrame_windowed : Windowed reqHeaderLen IsFrame where
  nil := by decide
  take window := by
    rw [IsFrame, IsFrame, classifyBeginRequest, classifyBeginRequest, take_take, Nat.min_self]
  append window more frame := by
    rw [IsFrame, classifyBeginRequest] at frame ⊢
    rw [take_append]
    by_cases long : reqHeaderLen ≤ window.length
    · rw [Nat.sub_eq_zero_of_le long, take_zero, append_nil]
      exact frame
    · rw [take_of_length_le (by omega)] at frame ⊢
      generalize more.take (reqHeaderLen - window.length) = more
      split_ifs at frame with differs short
      rw [Bool.not_eq_true, zip_any_ne_eq_false_iff] at differs
      have begins := (magic_of_agrees (Nat.not_lt.mp short) differs).trans (prefix_append _ more)
      have same := (zip_any_ne_eq_false_iff (window ++ more) magic).mpr (.inr begins)
      rw [if_neg (Bool.eq_false_iff.mp same), if_neg (by rw [length_append]; omega)]
      rw [BeginVerdict.max_eq_frame] at frame ⊢
      exact frame.imp (classifyInOrder_append more) (classifyInOrder_append more)

/-- `i32::from_le_bytes` and `i32::from_be_bytes`, the orders lsphp may read in. -/
def byteOrders : List (Octets → Int) := [i32FromLe, i32FromBe]

variable {decode : Octets → Int} {window longer : Octets} {packetLen : Int}

/-- The packet length a window announces, when lsphp would read such a packet. -/
def Announces (decode : Octets → Int) (window : Octets) (packetLen : Int) : Prop :=
  field decode window 4 = some packetLen ∧ 1 ≤ packetLen ∧ packetLen ≤ maxBeginRequestLen

/-- A request start with a negative count inside its packet, in one of the byte orders. -/
def Walks (window : Octets) : Prop :=
  magic <+: window.take reqHeaderLen ∧ ∃ decode ∈ byteOrders, ∃ packetLen,
    Announces decode (window.take reqHeaderLen) packetLen ∧
      negativeCount decode (window.take reqHeaderLen) packetLen = true

/-- The checks of `readReq`, `verifyHeader` and `parseRequest` on the fixed header: a field
that is not wholly inside the packet is not checked. -/
structure Acceptable (decode : Octets → Int) (octets : Octets) : Prop where
  starts : magic <+: octets
  packet : ∃ packetLen, Announces decode octets packetLen ∧
    (∀ offset ∈ offsetFields, offset + 4 ≤ checkedLen packetLen →
      ∀ v, field decode octets offset = some v → 0 ≤ v ∧ v < packetLen) ∧
    ∀ offset ∈ countFields, offset + 4 ≤ checkedLen packetLen →
      ∀ v, field decode octets offset = some v → 0 ≤ v ∧ v ≤ maxEnvPairs

/-! ## Windows and their beginnings -/

/-- A field that has been seen keeps its value. -/
theorem field_of_isPrefix {offset : Nat} {v : Int} (begins : window <+: longer)
    (found : field decode window offset = some v) : field decode longer offset = some v := by
  obtain ⟨more, rfl⟩ := begins
  by_cases inside : offset + 4 ≤ window.length
  · exact (field_append more inside).trans found
  · rw [field, if_neg inside] at found
    cases found

theorem field_take {offset : Nat} (inside : offset + 4 ≤ reqHeaderLen) :
    field decode (window.take reqHeaderLen) offset = field decode window offset := by
  by_cases long : offset + 4 ≤ window.length
  · have seen : offset + 4 ≤ (window.take reqHeaderLen).length := by
      rw [length_take]
      omega
    rw [← field_append (window.drop reqHeaderLen) seen, take_append_drop]
  · rw [take_of_length_le (by omega)]

theorem within_of_isPrefix {checked offset : Nat} {valid : Int → Bool} (begins : window <+: longer)
    (holds : within decode longer checked valid offset = true) :
    within decode window checked valid offset = true := by
  rw [within, Bool.or_eq_true] at holds ⊢
  refine holds.imp_right fun all => ?_
  cases found : field decode window offset with
  | none => rfl
  | some v =>
    rw [field_of_isPrefix begins found] at all
    exact all

/-- Fields that are valid as far as they are known were so before. -/
theorem fieldsOk_of_isPrefix (begins : window <+: longer)
    (holds : (offsetsOk decode longer packetLen && countsOk decode longer packetLen) = true) :
    (offsetsOk decode window packetLen && countsOk decode window packetLen) = true := by
  rw [Bool.and_eq_true, offsetsOk, countsOk, all_eq_true, all_eq_true] at holds ⊢
  exact ⟨fun offset member => within_of_isPrefix begins (holds.1 offset member),
    fun offset member => within_of_isPrefix begins (holds.2 offset member)⟩

/-! ## One byte order -/

/-- An order is ruled out by the packet length, or by a field when no count is negative. -/
theorem classifyInOrder_eq_clean_iff {length : Int} (found : field decode window 4 = some length) :
    classifyInOrder window decode = .clean ↔ (1 ≤ length → length ≤ maxBeginRequestLen →
        (offsetsOk decode window length && countsOk decode window length) = false ∧
          negativeCount decode window length = false) := by
  rw [classifyInOrder, found]
  dsimp only
  by_cases range : 1 ≤ length ∧ length ≤ maxBeginRequestLen
  · split_ifs with refused seen
    · rw [Bool.and_eq_true, Bool.not_eq_true', Bool.not_eq_true'] at refused
      exact iff_of_true rfl fun _ _ => refused
    all_goals
      refine iff_of_false (by simp) fun both => refused ?_
      rw [(both range.1 range.2).1, (both range.1 range.2).2]
      rfl
  · rw [if_pos range]
    exact iff_of_true rfl fun low high => absurd ⟨low, high⟩ range

theorem classifyInOrder_eq_needMore (more : classifyInOrder window decode = .needMore) :
    field decode window 4 = none ∨
      ∃ length, Announces decode window length ∧ window.length < checkedLen length := by
  rw [classifyInOrder] at more
  cases found : field decode window 4 with
  | none => exact .inl rfl
  | some length =>
    rw [found] at more
    dsimp only at more
    split_ifs at more with range refused seen
    exact .inr ⟨length, ⟨found, range⟩, Nat.not_le.mp seen⟩

/-- With the packet length seen, a clean order stays clean unless a negative count arrives. -/
theorem classifyInOrder_clean_of_isPrefix (begins : window <+: longer)
    (eight : packetHeaderLen ≤ window.length) (clean : classifyInOrder window decode = .clean) :
    classifyInOrder longer decode = .clean ↔
      ∀ length, Announces decode longer length → negativeCount decode longer length = false := by
  obtain ⟨length, found⟩ : ∃ length, field decode window 4 = some length :=
    ⟨_, if_pos eight⟩
  have later := field_of_isPrefix begins found
  rw [classifyInOrder_eq_clean_iff found] at clean
  rw [classifyInOrder_eq_clean_iff later]
  constructor
  · rintro both _ ⟨same, low, high⟩
    obtain rfl := Option.some.inj (later.symm.trans same)
    exact (both low high).2
  · intro positive low high
    refine ⟨?_, positive length ⟨later, low, high⟩⟩
    rw [Bool.eq_false_iff]
    intro holds
    rw [fieldsOk_of_isPrefix begins holds] at clean
    exact Bool.false_ne_true (clean low high).1.symm

/-! ## Both byte orders -/

theorem BeginVerdict.max_eq_clean_iff {first second : BeginVerdict} :
    first.max second = .clean ↔ first = .clean ∧ second = .clean := by
  cases first <;> cases second <;> decide

theorem BeginVerdict.max_eq_needMore {first second : BeginVerdict}
    (more : first.max second = .needMore) : first = .needMore ∨ second = .needMore := by
  revert more
  cases first <;> cases second <;> decide

/-- A window that agrees with the magic is judged by the two orders. -/
theorem classifyBeginRequest_eq
    (agrees : window.take reqHeaderLen <+: magic ∨ magic <+: window.take reqHeaderLen) :
    classifyBeginRequest window = if (window.take reqHeaderLen).length <
      packetHeaderLen then .needMore
      else (classifyInOrder (window.take reqHeaderLen) i32FromLe).max
        (classifyInOrder (window.take reqHeaderLen) i32FromBe) := by
  rw [← zip_any_ne_eq_false_iff, Bool.eq_false_iff] at agrees
  exact if_neg agrees

/-- A clean window is clean for good, but for a negative count that arrives later. -/
theorem classifyBeginRequest_clean_iff (begins : window <+: longer)
    (clean : classifyBeginRequest window = .clean) :
    classifyBeginRequest longer = .clean ↔ ¬Walks longer := by
  have headers : window.take reqHeaderLen <+: longer.take reqHeaderLen := begins.take reqHeaderLen
  rw [Walks]
  by_cases agrees : window.take reqHeaderLen <+: magic ∨ magic <+: window.take reqHeaderLen
  · rw [classifyBeginRequest_eq agrees] at clean
    split_ifs at clean with short
    have eight : packetHeaderLen ≤ (window.take reqHeaderLen).length := Nat.not_lt.mp short
    have starts := magic_of_agrees eight agrees
    rw [BeginVerdict.max_eq_clean_iff] at clean
    rw [classifyBeginRequest_eq (.inr (starts.trans headers)),
      if_neg (Nat.not_lt.mpr (eight.trans headers.length_le)), BeginVerdict.max_eq_clean_iff,
        classifyInOrder_clean_of_isPrefix headers eight clean.1,
      classifyInOrder_clean_of_isPrefix headers eight clean.2]
    simp only [byteOrders, mem_cons, not_mem_nil, or_false, exists_eq_or_imp,
      exists_eq_left, not_and, not_or, not_exists, Bool.not_eq_true]
    exact ⟨fun both _ => both, fun both => both (starts.trans headers)⟩
  · -- the window differs from the magic, and so does whatever it begins
    have differs : ¬magic <+: longer.take reqHeaderLen := fun starts =>
      agrees (List.prefix_or_prefix_of_prefix headers starts)
    refine iff_of_true (if_pos ?_) fun both => differs both.1
    rw [← Bool.not_eq_false, zip_any_ne_eq_false_iff, not_or]
    exact ⟨fun inside => agrees (.inl (headers.trans inside)), differs⟩

/-- What is yet to be seen of a window that needs more. -/
theorem classifyBeginRequest_needMore (more : classifyBeginRequest window = .needMore) :
    window.length < packetHeaderLen ∨ ∃ decode ∈ byteOrders, ∃ packetLen,
      classifyInOrder (window.take reqHeaderLen) decode ≠ .clean ∧
        Announces decode window packetLen ∧ window.length < checkedLen packetLen := by
  rw [classifyBeginRequest] at more
  split_ifs at more with differs short
  · rw [length_take] at short
    exact .inl ((min_lt_iff.mp short).resolve_left (by decide))
  · obtain ⟨decode, member, more⟩ : ∃ decode ∈ byteOrders,
        classifyInOrder (window.take reqHeaderLen) decode = .needMore := by
      rcases BeginVerdict.max_eq_needMore more with little | big
      · exact ⟨_, mem_cons_self, little⟩
      · exact ⟨_, mem_cons_of_mem _ mem_cons_self, big⟩
    rcases classifyInOrder_eq_needMore more with unseen | ⟨packetLen, announced, cut⟩
    · have seen : field decode (window.take reqHeaderLen) 4 = some _ :=
        if_pos (Nat.not_lt.mp short)
      cases seen.symm.trans unseen
    · rw [Announces, field_take (by decide)] at announced
      refine .inr ⟨decode, member, packetLen, ?_, announced, ?_⟩
      · rw [more]
        decide
      · rw [length_take] at cut
        exact (min_lt_iff.mp cut).resolve_left (Nat.not_lt.mpr (Nat.min_le_right ..))

theorem within_of_valid {checked offset : Nat} {valid : Int → Bool}
    (holds : offset + 4 ≤ checked → ∀ v, field decode window offset = some v → valid v = true) :
    within decode window checked valid offset = true := by
  rw [within, Bool.or_eq_true, decide_eq_true_iff]
  refine (Nat.lt_or_ge checked (offset + 4)).imp_right fun inside => ?_
  cases found : field decode window offset with
  | none => rfl
  | some v => exact holds inside v found

/-- An order in which the checks hold is never ruled out. -/
theorem Acceptable.classifyInOrder_ne (accepted : Acceptable decode longer)
    (begins : window <+: longer) : classifyInOrder window decode ≠ .clean := by
  obtain ⟨_, ⟨announced, low, high⟩, offsets, counts⟩ := accepted.packet
  cases found : field decode window 4 with
  | none =>
    rw [classifyInOrder, found]
    simp
  | some length =>
    obtain rfl := Option.some.inj ((field_of_isPrefix begins found).symm.trans announced)
    rw [Ne, classifyInOrder_eq_clean_iff found]
    intro refused
    refine absurd (refused low high).1 ?_
    have holds : (offsetsOk decode longer length && countsOk decode longer length) = true := by
      rw [Bool.and_eq_true, offsetsOk, countsOk, all_eq_true, all_eq_true]
      exact ⟨fun offset member => within_of_valid fun inside v value =>
          decide_eq_true (offsets offset member inside v value),
        fun offset member => within_of_valid fun inside v value =>
          decide_eq_true (counts offset member inside v value)⟩
    rw [fieldsOk_of_isPrefix begins holds]
    decide

/-- No beginning of a request that passes the checks is taken for clean. -/
theorem Acceptable.classifyBeginRequest_ne (member : decode ∈ byteOrders)
    (accepted : Acceptable decode longer) (begins : window <+: longer) :
    classifyBeginRequest window ≠ .clean := by
  have inside : window.take reqHeaderLen <+: longer := (List.take_prefix ..).trans begins
  rw [classifyBeginRequest_eq (List.prefix_or_prefix_of_prefix inside accepted.starts)]
  split_ifs with short
  · nofun
  · rw [Ne, BeginVerdict.max_eq_clean_iff]
    rintro ⟨little, big⟩
    have possible := accepted.classifyInOrder_ne inside
    simp only [byteOrders, mem_cons, not_mem_nil, or_false] at member
    rcases member with rfl | rfl
    · exact possible little
    · exact possible big

/-- A frame is final, and so is a clean window unless a negative count inside the packet
arrives after it; more octets are asked for only while the fixed header is incomplete; and
nothing that lsphp would accept begins with a clean window. -/
theorem verdicts_final {window longer : Octets} (begins : window <+: longer) :
    (classifyBeginRequest window = .frame → classifyBeginRequest longer = .frame) ∧
    (classifyBeginRequest window = .clean →
      (classifyBeginRequest longer = .clean ↔ ¬Walks longer)) ∧
    (classifyBeginRequest window = .needMore →
      window.length < packetHeaderLen ∨ ∃ decode ∈ byteOrders, ∃ packetLen,
        classifyInOrder (window.take reqHeaderLen) decode ≠ .clean ∧
          Announces decode window packetLen ∧ window.length < checkedLen packetLen) ∧
    ∀ decode ∈ byteOrders, Acceptable decode longer → classifyBeginRequest window ≠ .clean := by
  refine ⟨fun frame => ?_, classifyBeginRequest_clean_iff begins, classifyBeginRequest_needMore,
    fun decode member accepted => accepted.classifyBeginRequest_ne member begins⟩
  obtain ⟨more, rfl⟩ := begins
  exact isFrame_windowed.append window more frame

theorem verdicts_final_nine : classifyBeginRequest [76, 83, 1, 0, 9, 0, 0, 0, 0, 255] = .frame :=
  (verdicts_final (prefix_append [76, 83, 1, 0, 9, 0, 0, 0, 0] [255])).1 (by decide)

/-- A bad offset makes the window clean, and a negative count after it a frame again. -/
theorem clean_revoked : ∃ window longer : Octets, window <+: longer ∧
    classifyBeginRequest window = .clean ∧ classifyBeginRequest longer = .frame :=
  ⟨[76, 83, 1, 0, 100, 0, 0, 0] ++ replicate 8 0 ++ replicate 4 255,
    [76, 83, 1, 0, 100, 0, 0, 0] ++ replicate 8 0 ++ replicate 4 255 ++
      (replicate 16 0 ++ replicate 8 255), prefix_append .., by decide, by decide⟩

end HttpJet.Lsapi
