import Mathlib.Data.List.Sort
import HttpJet.Library.Text

/-!
# The page-cache key and its cookie vary

A key must hold every input that can change the response.  Text is octets.  The standard hasher is a
parameter `digest`, a function of the strings written to it.

`exposes` says what PHP shows a page under a cookie name.  The lookup of the source sees the first
array-form pair, or else the first scalar, so the vary value determines the exposure up to the
array-form pairs after the first.

A response may make its own URL vary on further cookies.  Their values are appended to the vary
value of the base key behind a marker, and the boot scan recovers the base key and the names from
that text alone.
-/

namespace HttpJet.PageCache

open Library List

abbrev Str := List UInt8

/-- The full cache key of a stored response. -/
structure PageCacheKey where
  vhostId : UInt32
  secure : Bool
  host : Str
  path : Str
  normalizedQuery : Str
  varyValue : Str
  privateOwner : UInt64
  deriving DecidableEq

/-! ## Cookies as PHP reads them -/

/-- The `$_COOKIE` key PHP derives from a raw cookie name. -/
inductive PhpCookieName where
  | scalar (name : Str)
  | array (name : Str)
  deriving DecidableEq

namespace PhpCookieName

def name : PhpCookieName → Str
  | scalar name => name
  | array name => name

def isArray : PhpCookieName → Bool
  | scalar _ => false
  | array _ => true

end PhpCookieName

/-- `map`: what PHP writes for the octets it does not keep in a name. -/
def mapName (bracket : Bool) (s : Str) : Str :=
  s.map fun c =>
    if c = ' '.toUInt8 ∨ c = '.'.toUInt8 ∨ (bracket = true ∧ c = '['.toUInt8) then '_'.toUInt8
    else c

/-- `php_cookie_name`: a `[` opens an array index only when a `]` follows it. -/
def phpCookieName (rawName : Str) : Option PhpCookieName :=
  let s := rawName.dropWhile fun c => c = ' '.toUInt8
  let result : PhpCookieName :=
    match splitOnce '['.toUInt8 s with
    | some (front, rest) =>
      if ']'.toUInt8 ∈ rest then .array (mapName false front)
      else .scalar (mapName false front ++ '_'.toUInt8 :: mapName true rest)
    | none => .scalar (mapName false s)
  if result.name = [] then none else some result

/-- ASCII whitespace and vertical tab, all that PHP's cookie parser skips. -/
def isPhpSpace (c : UInt8) : Bool := c = 32 || (9 ≤ c && c ≤ 13)

/-- One pair of a header under the name PHP gives it. -/
structure Cookie where
  parsed : PhpCookieName
  rawName : Str
  value : Str
  deriving DecidableEq

/-- The pair in one piece of a header; a bare name has an empty value. -/
def cookiePair (piece : Str) : Option Cookie :=
  let pair := piece.dropWhile isPhpSpace
  let sides := (splitOnce '='.toUInt8 pair).getD (pair, [])
  (phpCookieName sides.1).map fun parsed => ⟨parsed, sides.1, sides.2⟩

def lookupLoop (canonical : Str) : Option Cookie → List Str → Option Cookie
  | scalar, [] => scalar
  | scalar, piece :: rest =>
    match cookiePair piece with
    | none => lookupLoop canonical scalar rest
    | some cookie =>
      if cookie.parsed.name = canonical then
        if cookie.parsed.isArray then some cookie
        else lookupLoop canonical (scalar.or (some cookie)) rest
      else lookupLoop canonical scalar rest

/-- `php_cookie_lookup`: scalars are first-wins, an array-form name replaces a
scalar in either order. -/
def phpCookieLookup (cookies canonical : Str) : Option Cookie :=
  lookupLoop canonical none (cookies.splitOn ';'.toUInt8)

/-! ## The vary value -/

section Vary

variable (digest : List Str → UInt64)

def hashToken (mark : Str) (writes : List Str) : Str := mark ++ hex 16 (digest writes).toNat

def boundedVaryValue (v : Str) : Str :=
  if v.length ≤ 62 then octetsOf "v:" ++ v else hashToken digest (octetsOf "h:") [v]

def cookieVaryToken (cookie : Cookie) : Str :=
  match cookie.parsed with
  | .scalar _ => boundedVaryValue digest cookie.value
  | .array _ => hashToken digest (octetsOf "a:") [cookie.rawName, cookie.value]

variable (defaults : List (Str × Str))

def isDefault (name : Str) (cookie : Cookie) : Bool :=
  !cookie.parsed.isArray && defaults.any fun entry => entry.1 == name && entry.2 == cookie.value

/-- The cookie that keys a configured name: one at its default keys nothing. -/
def varyCookie (cookies name : Str) : Option Cookie :=
  (phpCookieLookup cookies name).filter fun cookie => !isDefault defaults name cookie

/-- The loop that fills `found`. -/
def foundTokens (cookies : Str) (names : List Str) : List (Str × Str) :=
  names.filterMap fun name =>
    (varyCookie defaults cookies name).map fun cookie => (name, cookieVaryToken digest cookie)

def renderPair (pair : Str × Str) : Str := pair.1 ++ '='.toUInt8 :: pair.2

def computeVaryValueWithDefaults (cookieHeader : Option Str) (varyCookies : List Str) : Str :=
  match cookieHeader with
  | none => []
  | some cookies =>
    let found := foundTokens digest defaults cookies varyCookies
    if found.isEmpty then []
    else
      [';'.toUInt8].intercalate
        ((found.insertionSort fun a b => a.1 ≤ b.1).map renderPair)

end Vary

variable {cookies name : Str} {cookie : Cookie}

/-- The pairs of a header that PHP files under `name`, in order. -/
def cookiesNamed (cookies name : Str) : List Cookie :=
  ((cookies.splitOn ';'.toUInt8).filterMap cookiePair).filter fun cookie =>
    cookie.parsed.name = name

def arrayForms (cookies name : Str) : List Cookie :=
  (cookiesNamed cookies name).filter fun cookie => cookie.parsed.isArray

def scalarForms (cookies name : Str) : List Cookie :=
  (cookiesNamed cookies name).filter fun cookie => !cookie.parsed.isArray

/-- What a page can read under a cookie name. -/
inductive Exposure where
  | absent
  | scalar (value : Str)
  | array (pairs : List (Str × Str))
  deriving DecidableEq

/-- The array-form pairs of a header under a name, as raw names and values. -/
def arrayPairs (header : Option Str) (name : Str) : List (Str × Str) :=
  match header with
  | none => []
  | some cookies => (arrayForms cookies name).map fun cookie => (cookie.rawName, cookie.value)

def exposes (header : Option Str) (name : Str) : Exposure :=
  match header with
  | none => .absent
  | some cookies =>
    if arrayForms cookies name = [] then
      match scalarForms cookies name with
      | [] => .absent
      | first :: _ => .scalar first.value
    else .array (arrayPairs (some cookies) name)

/-- A scalar at its configured default counts as no cookie. -/
def Exposure.fold (defaults : List (Str × Str)) (name : Str) : Exposure → Exposure
  | .scalar value => if (name, value) ∈ defaults then .absent else .scalar value
  | other => other

/-! ## The lookup -/

theorem lookupLoop_eq (canonical : Str) (scalar : Option Cookie) (pieces : List Str) :
    lookupLoop canonical scalar pieces =
      let named := (pieces.filterMap cookiePair).filter fun cookie => cookie.parsed.name = canonical
      (named.filter fun cookie => cookie.parsed.isArray).head?.or
        (scalar.or (named.filter fun cookie => !cookie.parsed.isArray).head?) := by
  induction pieces generalizing scalar with
  | nil => cases scalar <;> rfl
  | cons piece _ ih =>
    rw [lookupLoop]
    cases parsed : cookiePair piece with
    | none => simp [ih, filterMap_cons_none parsed]
    | some cookie =>
      by_cases named : cookie.parsed.name = canonical
      · by_cases isArray : cookie.parsed.isArray = true
        · simp [parsed, named, isArray]
        · simp [ih, parsed, named, isArray]
      · simp [ih, parsed, named]

theorem phpCookieLookup_eq (cookies name : Str) : phpCookieLookup cookies name =
      (arrayForms cookies name).head?.or (scalarForms cookies name).head? := by
  rw [phpCookieLookup, lookupLoop_eq]
  rfl

theorem mem_cookiesNamed_of_lookup (found : phpCookieLookup cookies name = some cookie) :
    cookie ∈ cookiesNamed cookies name := by
  rw [phpCookieLookup_eq, Option.or_eq_some_iff] at found
  rcases found with isFirst | ⟨-, isFirst⟩
  · exact mem_of_mem_filter (mem_of_mem_head? isFirst)
  · exact mem_of_mem_filter (mem_of_mem_head? isFirst)

theorem sides_of_cookiePair {piece : Str} (parsed : cookiePair piece = some cookie) :
    cookie.rawName ⊆ piece ∧ cookie.value ⊆ piece := by
  rw [cookiePair, Option.map_eq_some_iff] at parsed
  obtain ⟨_, -, rfl⟩ := parsed
  have kept : piece.dropWhile isPhpSpace ⊆ piece := (dropWhile_suffix _).subset
  cases cut : splitOnce '='.toUInt8 (piece.dropWhile isPhpSpace) with
  | none => exact ⟨kept, nil_subset _⟩
  | some =>
    obtain ⟨whole, -⟩ := splitOnce_eq_some cut
    rw [whole] at kept
    exact ⟨fun c inside => kept (mem_append_left _ inside),
      fun c inside => kept (mem_append_right _ (mem_cons_of_mem _ inside))⟩

/-- The value of a cookie is text between two separators of its header. -/
theorem value_of_lookup (found : phpCookieLookup cookies name = some cookie) :
    cookie.value ⊆ cookies ∧ ';'.toUInt8 ∉ cookie.value := by
  have member := mem_of_mem_filter (mem_cookiesNamed_of_lookup found)
  obtain ⟨_, isPiece, parsed⟩ := mem_filterMap.mp member
  obtain ⟨-, within⟩ := sides_of_cookiePair parsed
  exact ⟨fun c inside => subset_of_mem_splitOn isPiece (within inside),
    fun inside => not_mem_of_mem_splitOn isPiece (within inside)⟩

/-! ## Tokens -/

section Separation

variable (digest : List Str → UInt64) (defaults : List (Str × Str))
variable {header : Option Str} {names : List Str} {first : Cookie} {rest : List Cookie}

/-- The strings written to the hasher for the token of a cookie. -/
def hashInput (cookie : Cookie) : Option (List Str) :=
  match cookie.parsed with
  | .scalar _ => if cookie.value.length ≤ 62 then none else some [cookie.value]
  | .array _ => some [cookie.rawName, cookie.value]

/-- The cookie of a request that keys a configured name. -/
def keyCookie (header : Option Str) (name : Str) : Option Cookie :=
  header.bind fun cookies => varyCookie defaults cookies name

/-- Everything hashed to compute the vary value of a header. -/
def hashed (header : Option Str) (names : List Str) : List (List Str) :=
  names.filterMap fun name => (keyCookie defaults header name).bind hashInput

/-- No two of the values hashed for the two headers have the same digest. -/
def CollisionFree (names : List Str) (first second : Option Str) : Prop :=
  ∀ a ∈ hashed defaults first names ++ hashed defaults second names,
    ∀ b ∈ hashed defaults first names ++ hashed defaults second names, digest a = digest b → a = b

instance (names : List Str) (first second : Option Str) :
    Decidable (CollisionFree digest defaults names first second) := by
  unfold CollisionFree
  infer_instance

theorem hashToken_inj {mark : Str} {a b : List Str}
    (same : hashToken digest mark a = hashToken digest mark b) : digest a = digest b := by
  have digits := append_cancel_left same
  have small : ∀ n : UInt64, n.toNat < 16 ^ 16 := fun n => n.toNat_lt
  exact UInt64.toNat_inj.mp (hex_inj (small _) (small _) digits)

/-- Equal tokens come from cookies that a page cannot tell apart. -/
theorem cookieVaryToken_inj {c d : Cookie}
    (free : ∀ a ∈ hashInput c, ∀ b ∈ hashInput d, digest a = digest b → a = b)
    (same : cookieVaryToken digest c = cookieVaryToken digest d) :
    c.parsed.isArray = d.parsed.isArray ∧ c.value = d.value ∧
      (c.parsed.isArray = true → c.rawName = d.rawName) := by
  obtain ⟨cName, cRaw, cValue⟩ := c
  obtain ⟨dName, dRaw, dValue⟩ := d
  cases cName with
  | scalar =>
    cases dName with
    | scalar =>
      refine ⟨rfl, ?_, nofun⟩
      simp only [cookieVaryToken, boundedVaryValue] at same
      simp only [hashInput] at free
      by_cases cShort : cValue.length ≤ 62 <;> by_cases dShort : dValue.length ≤ 62
      · rw [if_pos cShort, if_pos dShort] at same
        exact append_cancel_left same
      · rw [if_pos cShort, if_neg dShort] at same
        cases same
      · rw [if_neg cShort, if_pos dShort] at same
        cases same
      · rw [if_neg cShort, if_neg dShort] at same free
        have equal := free [cValue] rfl [dValue] rfl (hashToken_inj digest same)
        exact (cons.inj equal).1
    | array =>
      simp only [cookieVaryToken, boundedVaryValue] at same
      split at same <;> cases same
  | array =>
    cases dName with
    | scalar =>
      simp only [cookieVaryToken, boundedVaryValue] at same
      split at same <;> cases same
    | array =>
      have equal := free [cRaw, cValue] rfl [dRaw, dValue] rfl (hashToken_inj digest same)
      cases equal
      exact ⟨rfl, rfl, fun _ => rfl⟩

theorem semicolon_not_mem_hashToken {mark : Str} (free : ';'.toUInt8 ∉ mark) (writes : List Str) :
    ';'.toUInt8 ∉ hashToken digest mark writes := by
  rw [hashToken, mem_append, not_or]
  exact ⟨free, not_mem_hex (by decide) _ _⟩

theorem semicolon_not_mem_token (found : phpCookieLookup cookies name = some cookie) :
    ';'.toUInt8 ∉ cookieVaryToken digest cookie := by
  obtain ⟨-, free⟩ := value_of_lookup found
  rw [cookieVaryToken]
  cases cookie.parsed with
  | scalar =>
    simp only [boundedVaryValue]
    split_ifs with short
    · rw [mem_append, not_or]
      exact ⟨by decide, free⟩
    · exact semicolon_not_mem_hashToken digest (by decide) _
  | array => exact semicolon_not_mem_hashToken digest (by decide) _

/-! ## The rendered list -/

/-- The names and tokens found in a header. -/
def foundIn (header : Option Str) (names : List Str) : List (Str × Str) :=
  names.filterMap fun name =>
    (keyCookie defaults header name).map fun cookie => (name, cookieVaryToken digest cookie)

def render (found : List (Str × Str)) : Str :=
  if found.isEmpty then []
  else [';'.toUInt8].intercalate ((found.insertionSort fun a b => a.1 ≤ b.1).map renderPair)

theorem computeVaryValueWithDefaults_eq (header : Option Str) (names : List Str) :
    computeVaryValueWithDefaults digest defaults header names =
      render (foundIn digest defaults header names) := by
  cases header with
  | none =>
    have nothing : foundIn digest defaults none names = [] :=
      filterMap_eq_nil_iff.mpr fun _ _ => rfl
    rw [nothing]
    rfl
  | some => rfl

theorem mem_foundIn {token : Str} :
    (name, token) ∈ foundIn digest defaults header names ↔ name ∈ names ∧
        (keyCookie defaults header name).map (cookieVaryToken digest) = some token := by
  simp only [foundIn, mem_filterMap, Option.map_eq_some_iff, Prod.mk.injEq]
  constructor
  · rintro ⟨_, member, cookie, found, rfl, equal⟩
    exact ⟨member, cookie, found, equal⟩
  · rintro ⟨member, cookie, found, equal⟩
    exact ⟨name, member, cookie, found, rfl, equal⟩

theorem keyCookie_lookup (found : keyCookie defaults header name = some cookie) :
    ∃ cookies, header = some cookies ∧ phpCookieLookup cookies name = some cookie ∧
      isDefault defaults name cookie = false := by
  cases header with
  | none => cases found
  | some cookies =>
    obtain ⟨looked, kept⟩ := Option.filter_eq_some_iff.mp found
    exact ⟨cookies, rfl, looked, by simpa using kept⟩

/-- A configured name that can stand before `=` in a list separated by `;`. -/
def PlainName (name : Str) : Prop := ';'.toUInt8 ∉ name ∧ '='.toUInt8 ∉ name

/-- The pairs a vary value is rendered from are free of its separators. -/
def PlainPair (pair : Str × Str) : Prop := PlainName pair.1 ∧ ';'.toUInt8 ∉ pair.2

theorem foundIn_plain (plain : ∀ name ∈ names, PlainName name) :
    ∀ pair ∈ foundIn digest defaults header names, PlainPair pair := by
  rintro ⟨name, _⟩ member
  obtain ⟨inNames, keyed⟩ := (mem_foundIn digest defaults).mp member
  obtain ⟨_, found, rfl⟩ := Option.map_eq_some_iff.mp keyed
  obtain ⟨_, -, looked, -⟩ := keyCookie_lookup defaults found
  exact ⟨plain name inNames, semicolon_not_mem_token digest looked⟩

theorem renderPair_inj {a b : Str × Str} (aPlain : PlainPair a) (bPlain : PlainPair b)
    (same : renderPair a = renderPair b) : a = b := by
  have aCut := splitOnce_append aPlain.1.2 a.2
  have bCut := splitOnce_append bPlain.1.2 b.2
  rw [renderPair, renderPair] at same
  rw [same, bCut] at aCut
  exact (Option.some.inj aCut).symm

theorem semicolon_not_mem_renderPair {pair : Str × Str} (plain : PlainPair pair) :
    ';'.toUInt8 ∉ renderPair pair := by
  rw [renderPair, mem_append, mem_cons, not_or, not_or]
  exact ⟨plain.1.1, by decide, plain.2⟩

theorem map_renderPair_inj {first second : List (Str × Str)}
    (firstPlain : ∀ pair ∈ first, PlainPair pair) (secondPlain : ∀ pair ∈ second, PlainPair pair)
    (same : first.map renderPair = second.map renderPair) : first = second := by
  induction first generalizing second with
  | nil => exact (map_eq_nil_iff.mp same.symm).symm
  | cons a _ ih =>
    cases second with
    | nil => cases same
    | cons b =>
      obtain ⟨head, rest⟩ := cons.inj same
      rw [renderPair_inj (firstPlain a mem_cons_self) (secondPlain b mem_cons_self) head,
        ih (fun pair member => firstPlain pair (mem_cons_of_mem _ member))
          (fun pair member => secondPlain pair (mem_cons_of_mem _ member)) rest]

theorem splitOn_pairs {pairs : List (Str × Str)} (plain : ∀ pair ∈ pairs, PlainPair pair)
    (nonempty : pairs ≠ []) :
    ([';'.toUInt8].intercalate (pairs.map renderPair)).splitOn ';'.toUInt8 =
      pairs.map renderPair := by
  refine splitOn_intercalate _ ?_ (mt map_eq_nil_iff.mp nonempty)
  intro piece member
  obtain ⟨pair, inPairs, rfl⟩ := mem_map.mp member
  exact semicolon_not_mem_renderPair (plain pair inPairs)

theorem splitOn_render {found : List (Str × Str)} (plain : ∀ pair ∈ found, PlainPair pair)
    (nonempty : found ≠ []) : (render found).splitOn ';'.toUInt8 =
      (found.insertionSort fun a b => a.1 ≤ b.1).map renderPair := by
  rw [render, if_neg (by rwa [List.isEmpty_iff])]
  refine splitOn_pairs (fun pair member => plain pair ((mem_insertionSort _).mp member))
    fun empty => ?_
  have lengths := congrArg List.length empty
  rw [length_insertionSort] at lengths
  exact nonempty (length_eq_zero_iff.mp lengths)

theorem render_ne_nil {found : List (Str × Str)} (plain : ∀ pair ∈ found, PlainPair pair)
    (nonempty : found ≠ []) : render found ≠ [] := by
  intro empty
  have pieces := splitOn_render plain nonempty
  rw [empty, splitOn_nil] at pieces
  have member : ([] : Str) ∈ (found.insertionSort fun a b => a.1 ≤ b.1).map renderPair :=
    pieces ▸ mem_singleton_self []
  obtain ⟨_, -, equal⟩ := mem_map.mp member
  exact append_ne_nil_of_right_ne_nil _ (cons_ne_nil _ _) equal

theorem mem_of_render_eq {first second : List (Str × Str)}
    (firstPlain : ∀ pair ∈ first, PlainPair pair) (secondPlain : ∀ pair ∈ second, PlainPair pair)
    (same : render first = render second) (pair : Str × Str) : pair ∈ first ↔ pair ∈ second := by
  by_cases firstEmpty : first = []
  · by_cases secondEmpty : second = []
    · rw [firstEmpty, secondEmpty]
    · rw [firstEmpty] at same
      exact absurd same.symm (render_ne_nil secondPlain secondEmpty)
  · by_cases secondEmpty : second = []
    · rw [secondEmpty] at same
      exact absurd same (render_ne_nil firstPlain firstEmpty)
    · have pieces := splitOn_render firstPlain firstEmpty
      rw [same, splitOn_render secondPlain secondEmpty] at pieces
      have sorted := map_renderPair_inj
        (fun pair member => secondPlain pair ((mem_insertionSort _).mp member))
        (fun pair member => firstPlain pair ((mem_insertionSort _).mp member)) pieces
      rw [← mem_insertionSort (fun a b : Str × Str => a.1 ≤ b.1), ← sorted,
        mem_insertionSort]

/-- Equal vary values have the same token, or none, under every configured name. -/
theorem tokens_of_computeVaryValue_eq (plain : ∀ name ∈ names, PlainName name)
    {first second : Option Str}
    (same : computeVaryValueWithDefaults digest defaults first names =
      computeVaryValueWithDefaults digest defaults second names)
    (member : name ∈ names) : (keyCookie defaults first name).map (cookieVaryToken digest) =
      (keyCookie defaults second name).map (cookieVaryToken digest) := by
  rw [computeVaryValueWithDefaults_eq, computeVaryValueWithDefaults_eq] at same
  have pairs := mem_of_render_eq (foundIn_plain digest defaults plain)
    (foundIn_plain digest defaults plain) same
  refine Option.ext fun token => ?_
  have atName := pairs (name, token)
  rw [mem_foundIn, mem_foundIn] at atName
  simpa only [member, true_and] using atName

/-! ## What equal vary values say about the page -/

theorem isDefault_of_scalar (scalar : cookie.parsed.isArray = false) :
    isDefault defaults name cookie = decide ((name, cookie.value) ∈ defaults) := by
  rw [Bool.eq_iff_iff, decide_eq_true_iff]
  simp only [isDefault, scalar, Bool.not_false, Bool.true_and, any_eq_true,
    Bool.and_eq_true, beq_iff_eq]
  constructor
  · rintro ⟨⟨_, _⟩, member, rfl, rfl⟩
    exact member
  · exact fun member => ⟨_, member, rfl, rfl⟩

theorem isArray_of_arrayForms (arrays : arrayForms cookies name = first :: rest) :
    first.parsed.isArray = true := by
  have member : first ∈ arrayForms cookies name := arrays ▸ mem_cons_self
  exact (mem_filter.mp member).2

theorem keyCookie_of_arrays (arrays : arrayForms cookies name = first :: rest) :
    keyCookie defaults (some cookies) name = some first := by
  have isArray := isArray_of_arrayForms arrays
  rw [keyCookie, Option.bind_some, varyCookie, phpCookieLookup_eq, arrays, head?_cons,
    Option.some_or, Option.filter_some, if_pos]
  rw [isDefault, isArray]
  rfl

theorem keyCookie_of_scalars (arrays : arrayForms cookies name = [])
    (scalars : scalarForms cookies name = first :: rest) : first.parsed.isArray = false ∧
      keyCookie defaults (some cookies) name =
        if (name, first.value) ∈ defaults then none else some first := by
  have scalar : first.parsed.isArray = false := by
    have member : first ∈ scalarForms cookies name := scalars ▸ mem_cons_self
    simpa using (mem_filter.mp member).2
  refine ⟨scalar, ?_⟩
  rw [keyCookie, Option.bind_some, varyCookie, phpCookieLookup_eq, arrays, scalars,
    head?_nil, head?_cons, Option.none_or, Option.filter_some,
    isDefault_of_scalar defaults scalar]
  by_cases atDefault : (name, first.value) ∈ defaults
  · simp [atDefault]
  · simp [atDefault]

/-- What keys a name determines what the page reads, given the array-form pairs. -/
theorem fold_exposes (header : Option Str) (name : Str) : (exposes header name).fold defaults name =
      match keyCookie defaults header name with
      | none => .absent
      | some cookie =>
        if cookie.parsed.isArray then .array (arrayPairs header name)
        else .scalar cookie.value := by
  cases header with
  | none => rfl
  | some cookies =>
    rw [exposes]
    cases arrays : arrayForms cookies name with
    | cons =>
      rw [keyCookie_of_arrays defaults arrays, if_neg (cons_ne_nil _ _)]
      exact (if_pos (isArray_of_arrayForms arrays)).symm
    | nil =>
      cases scalars : scalarForms cookies name with
      | nil =>
        rw [keyCookie, Option.bind_some, varyCookie, phpCookieLookup_eq, arrays, scalars]
        rfl
      | cons first =>
        obtain ⟨scalar, keyed⟩ := keyCookie_of_scalars defaults arrays scalars
        rw [keyed]
        by_cases atDefault : (name, first.value) ∈ defaults
        · simp [Exposure.fold, atDefault]
        · simp [Exposure.fold, atDefault, scalar]

/-- The cookie that keys an array-form name is its first pair. -/
theorem arrayPairs_of_array (found : keyCookie defaults header name = some cookie)
    (isArray : cookie.parsed.isArray = true) :
    ∃ rest, arrayPairs header name = (cookie.rawName, cookie.value) :: rest := by
  obtain ⟨_, rfl, looked, -⟩ := keyCookie_lookup defaults found
  rw [phpCookieLookup_eq, Option.or_eq_some_iff] at looked
  rcases looked with isFirst | ⟨-, isFirst⟩
  · obtain ⟨_, arrays⟩ := head?_eq_some_iff.mp isFirst
    exact ⟨_, by rw [arrayPairs, arrays, map_cons]⟩
  · have member := (mem_filter.mp (mem_of_mem_head? isFirst)).2
    rw [isArray] at member
    cases member

theorem arrayPairs_of_not_array
    (notArray : ∀ cookie ∈ keyCookie defaults header name, cookie.parsed.isArray = false) :
    arrayPairs header name = [] := by
  cases header with
  | none => rfl
  | some cookies =>
    rw [arrayPairs, map_eq_nil_iff]
    cases arrays : arrayForms cookies name with
    | nil => rfl
    | cons first =>
      have impossible := notArray first (keyCookie_of_arrays defaults arrays)
      rw [isArray_of_arrayForms arrays] at impossible
      cases impossible

theorem hashInput_mem (member : name ∈ names) (found : keyCookie defaults header name = some cookie)
    {input : List Str} (isInput : hashInput cookie = some input) :
    input ∈ hashed defaults header names :=
  mem_filterMap.mpr ⟨name, member, by rw [found, Option.bind_some, isInput]⟩

/-- Headers with equal vary values show a page the same cookies exactly when the
array-form pairs after the first of each configured name are the same. -/
theorem computeVaryValueWithDefaults_separates_iff {names : List Str}
    (plain : ∀ name ∈ names, PlainName name) {first second : Option Str}
    (free : CollisionFree digest defaults names first second)
    (same : computeVaryValueWithDefaults digest defaults first names =
      computeVaryValueWithDefaults digest defaults second names) :
    (∀ name ∈ names,
        (exposes first name).fold defaults name = (exposes second name).fold defaults name) ↔
      ∀ name ∈ names, (arrayPairs first name).tail = (arrayPairs second name).tail := by
  refine forall₂_congr fun name member => ?_
  have tokens := tokens_of_computeVaryValue_eq digest defaults plain same member
  rw [fold_exposes, fold_exposes]
  cases firstKey : keyCookie defaults first name with
  | none =>
    rw [firstKey] at tokens
    have secondKey := Option.map_eq_none_iff.mp tokens.symm
    rw [secondKey, arrayPairs_of_not_array defaults (by simp [firstKey]),
      arrayPairs_of_not_array defaults (by simp [secondKey])]
    exact ⟨fun _ => rfl, fun _ => rfl⟩
  | some c =>
    rw [firstKey] at tokens
    obtain ⟨d, secondKey, token⟩ := Option.map_eq_some_iff.mp tokens.symm
    have alike := cookieVaryToken_inj digest
      (fun a isA b isB => free a (mem_append_left _ (hashInput_mem defaults member firstKey isA))
        b (mem_append_right _ (hashInput_mem defaults member secondKey isB))) token.symm
    obtain ⟨kind, value, raw⟩ := alike
    rw [secondKey]
    cases isArray : c.parsed.isArray with
    | false =>
      rw [isArray] at kind
      rw [arrayPairs_of_not_array defaults (by simpa [firstKey] using isArray),
        arrayPairs_of_not_array defaults (by simpa [secondKey] using kind.symm)]
      simp [isArray, ← kind, value]
    | true =>
      obtain ⟨_, firstPairs⟩ := arrayPairs_of_array defaults firstKey isArray
      obtain ⟨_, secondPairs⟩ :=
        arrayPairs_of_array defaults secondKey (kind ▸ isArray)
      rw [firstPairs, secondPairs, ← raw isArray, ← value]
      simp [isArray, ← kind]

end Separation

/-- Two array-form pairs under one name, of which the second differs: the vary
values are equal and a page reads different arrays. -/
theorem computeVaryValueWithDefaults_later_pairs :
    let first := some (octetsOf "x[a]=1; x[b]=2")
    let second := some (octetsOf "x[a]=1; x[b]=3")
    let names := [octetsOf "x"]
    PlainName (octetsOf "x") ∧ CollisionFree (fun _ => 0) [] names first second ∧
      computeVaryValueWithDefaults (fun _ => 0) [] first names =
        computeVaryValueWithDefaults (fun _ => 0) [] second names ∧
      (exposes first (octetsOf "x")).fold [] (octetsOf "x") ≠
        (exposes second (octetsOf "x")).fold [] (octetsOf "x") := by
  refine ⟨⟨by decide, by decide⟩, by decide, by decide, by decide⟩

/-- An array of two pairs that replaces a scalar of its name, and a name at its default in
one of the headers only. -/
theorem computeVaryValueWithDefaults_separates_array :
    let first := some (octetsOf "x=0; x[a]=1; style=5; x[b]=2")
    let second := some (octetsOf "x[a]=1; c=d; x[b]=2")
    ∀ name ∈ [octetsOf "x", octetsOf "style"],
      (exposes first name).fold [(octetsOf "style", octetsOf "5")] name =
        (exposes second name).fold [(octetsOf "style", octetsOf "5")] name :=
  (computeVaryValueWithDefaults_separates_iff (fun _ => 0) _
    (by unfold PlainName; decide) (by decide) (by decide)).mpr (by decide)

end HttpJet.PageCache

namespace HttpJet.PageCache.UrlVary

open Library List

variable {names : List Str} {name : Str} {cookie : Option Str} {pair : Str × Str}

def maxNames : Nat := 4
def maxNameLen : Nat := 64
def maxValueLen : Nat := 128

/-- Separates the base vary value from the extension of the URL. -/
def marker : Str := 0 :: octetsOf "lsvary:"

def isNameByte (b : UInt8) : Bool :=
  (48 ≤ b && b ≤ 57) || (65 ≤ b && b ≤ 90) || (97 ≤ b && b ≤ 122) || b = '_'.toUInt8 ||
    b = '-'.toUInt8

def validName (name : Str) : Bool :=
  !name.isEmpty && name.length ≤ maxNameLen && name.all isNameByte

/-- The loop of `normalize_names`: skip what every key varies on, refuse a
malformed name, keep the first of equal names. -/
def collectNames (global : List Str) : List Str → List Str → Option (List Str)
  | out, [] => some out
  | out, name :: rest =>
    if name ∈ global then collectNames global out rest
    else if !validName name then none
    else collectNames global (if name ∈ out then out else out ++ [name]) rest

def normalizeNames (names global : List Str) : Option (List Str) :=
  (collectNames global [] names).bind fun out =>
    if out.length > maxNames then none else some (out.insertionSort fun a b => a ≤ b)

/-- The token of one name, or `none` when its value cannot be keyed exactly. -/
def suffixToken (cookie : Option Str) (name : Str) : Option Str :=
  match cookie.bind fun cookies => phpCookieLookup cookies name with
  | none => some (octetsOf "-")
  | some found =>
    if !found.parsed.isArray && found.value.length ≤ maxValueLen then
      some (octetsOf "v:" ++ found.value)
    else none

def suffixPairs (cookie : Option Str) (names : List Str) : Option (List (Str × Str)) :=
  names.mapM fun name => (suffixToken cookie name).map fun token => (name, token)

def joinPairs (pairs : List (Str × Str)) : Str :=
  [';'.toUInt8].intercalate (pairs.map renderPair)

/-- The key extension for `names` from the request's `Cookie` header. -/
def suffix (cookie : Option Str) (names : List Str) : Option Str :=
  (suffixPairs cookie names).map fun pairs => marker ++ joinPairs pairs

def extend (base : PageCacheKey) (suffix : Str) : PageCacheKey :=
  { base with varyValue := base.varyValue ++ suffix }

def splitPart (part : Str) : Option Str :=
  (splitOnce '='.toUInt8 part).bind fun (name, token) =>
    if validName name && (token = octetsOf "-" || (octetsOf "v:").isPrefixOf token) then some name
    else none

/-- The base key of a variant key and the names it varies on. -/
def split (key : PageCacheKey) : Option (PageCacheKey × List Str) :=
  (rfind marker key.varyValue).bind fun position =>
    (((key.varyValue.drop (position + marker.length)).splitOn ';'.toUInt8).mapM splitPart).bind
        fun names =>
      if names.isEmpty || names.length > maxNames ||
          !(names.zip names.tail).all fun pair => pair.1 < pair.2 then none
      else some ({ key with varyValue := key.varyValue.take position }, names)

/-! ## Names -/

/-- What `normalize_names` returns. -/
structure Normal (names : List Str) : Prop where
  valid : ∀ name ∈ names, validName name = true
  few : names.length ≤ maxNames
  increasing : names.Pairwise fun a b => a < b

theorem collectNames_spec {global out result : List Str}
    (outValid : ∀ name ∈ out, validName name = true)
    (outNodup : out.Nodup) (collected : collectNames global out names = some result) :
    (∀ name ∈ result, validName name = true) ∧ result.Nodup := by
  induction names generalizing out with
  | nil =>
    cases collected
    exact ⟨outValid, outNodup⟩
  | cons name _ ih =>
    rw [collectNames] at collected
    split_ifs at collected with skipped invalid known
    · exact ih outValid outNodup collected
    · exact ih outValid outNodup collected
    · refine ih ?_ ?_ collected
      · intro other member
        rcases mem_append.mp member with member | member
        · exact outValid other member
        · rw [mem_singleton.mp member]
          simpa using invalid
      · exact outNodup.append (nodup_singleton name) (disjoint_singleton.mpr known)

theorem normal_of_normalizeNames {global result : List Str}
    (normalized : normalizeNames names global = some result) : Normal result := by
  rw [normalizeNames, Option.bind_eq_some_iff] at normalized
  obtain ⟨out, collected, sorted⟩ := normalized
  obtain ⟨valid, nodup⟩ := collectNames_spec (forall_mem_nil _) nodup_nil collected
  split_ifs at sorted with many
  cases sorted
  have ordered := pairwise_insertionSort (fun a b : Str => a ≤ b) out
  have distinct := (perm_insertionSort (fun a b : Str => a ≤ b) out).nodup_iff.mpr nodup
  refine ⟨fun name member => valid name ((mem_insertionSort _).mp member), ?_, ?_⟩
  · rw [length_insertionSort]
    exact Nat.le_of_not_lt many
  · exact (ordered.and distinct).imp fun both => Std.lt_of_le_of_ne both.1 both.2

theorem not_mem_validName (valid : validName name = true) {b : UInt8}
    (foreign : isNameByte b = false) : b ∉ name := by
  intro inside
  rw [validName, Bool.and_eq_true] at valid
  rw [all_eq_true.mp valid.2 b inside] at foreign
  cases foreign

/-! ## Tokens -/

/-- A token names what PHP exposes: no cookie, or a scalar. -/
theorem suffixToken_spec {token : Str} (keyed : suffixToken cookie name = some token) :
    (exposes cookie name = .absent ∧ token = octetsOf "-") ∨
      ∃ value, exposes cookie name = .scalar value ∧ token = octetsOf "v:" ++ value ∧
        ';'.toUInt8 ∉ value ∧ ∃ text ∈ cookie, value ⊆ text := by
  cases cookie with
  | none =>
    cases keyed
    exact .inl ⟨rfl, rfl⟩
  | some text =>
    rw [suffixToken, Option.bind_some] at keyed
    cases looked : phpCookieLookup text name with
    | none =>
      rw [looked] at keyed
      cases keyed
      rw [phpCookieLookup_eq, Option.or_eq_none_iff, head?_eq_none_iff, head?_eq_none_iff] at looked
      refine .inl ⟨?_, rfl⟩
      rw [exposes, if_pos looked.1, looked.2]
    | some found =>
      rw [looked] at keyed
      obtain ⟨within, free⟩ := value_of_lookup looked
      by_cases exact : (!found.parsed.isArray && found.value.length ≤ maxValueLen) = true
      · replace keyed := (if_pos exact).symm.trans keyed
        cases keyed
        rw [Bool.and_eq_true, Bool.not_eq_true'] at exact
        refine .inr ⟨found.value, ?_, rfl, free, text, rfl, within⟩
        rw [phpCookieLookup_eq, Option.or_eq_some_iff] at looked
        rcases looked with isFirst | ⟨noArray, isFirst⟩
        · have isArray := (mem_filter.mp (mem_of_mem_head? isFirst)).2
          rw [exact.1] at isArray
          cases isArray
        · obtain ⟨_, scalars⟩ := head?_eq_some_iff.mp isFirst
          rw [exposes, if_pos (head?_eq_none_iff.mp noArray), scalars]
      · replace keyed := (if_neg exact).symm.trans keyed
        cases keyed

/-- Both headers lack the cookie, or both expose the same scalar. -/
def Agree (first second : Option Str) (name : Str) : Prop :=
  (exposes first name = .absent ∧ exposes second name = .absent) ∨
    ∃ value, exposes first name = .scalar value ∧ exposes second name = .scalar value

theorem agree_of_suffixToken {first second : Option Str} {token : Str}
    (firstKeyed : suffixToken first name = some token)
    (secondKeyed : suffixToken second name = some token) : Agree first second name := by
  rcases suffixToken_spec firstKeyed with ⟨absent, rfl⟩ | ⟨value, scalar, rfl, -⟩
  · rcases suffixToken_spec secondKeyed with ⟨absent', -⟩ | ⟨_, -, impossible, -⟩
    · exact .inl ⟨absent, absent'⟩
    · cases impossible
  · rcases suffixToken_spec secondKeyed with ⟨-, impossible⟩ | ⟨_, scalar', same, -⟩
    · cases impossible
    · have equal := append_cancel_left same
      rw [← equal] at scalar'
      exact .inr ⟨value, scalar, scalar'⟩

theorem suffixPairs_spec {pairs : List (Str × Str)}
    (keyed : suffixPairs cookie names = some pairs) :
    pairs.map Prod.fst = names ∧ ∀ pair ∈ pairs, suffixToken cookie pair.1 = some pair.2 := by
  rw [suffixPairs, mapM_eq_some_iff] at keyed
  induction keyed with
  | nil => exact ⟨rfl, forall_mem_nil _⟩
  | cons read _ ih =>
    obtain ⟨_, found, rfl⟩ := Option.map_eq_some_iff.mp read
    refine ⟨by rw [map_cons, ih.1], ?_⟩
    intro pair member
    rcases mem_cons.mp member with rfl | member
    · exact found
    · exact ih.2 pair member

theorem splitPart_renderPair (valid : validName pair.1 = true)
    (keyed : suffixToken cookie pair.1 = some pair.2) :
    splitPart (renderPair pair) = some pair.1 := by
  have free : '='.toUInt8 ∉ pair.1 := not_mem_validName valid (by decide)
  rw [splitPart, renderPair, splitOnce_append free, Option.bind_some]
  refine if_pos ?_
  rw [valid, Bool.true_and, Bool.or_eq_true]
  rcases suffixToken_spec keyed with ⟨-, token⟩ | ⟨_, -, token, -⟩
  · exact .inl (by rw [token]; rfl)
  · exact .inr (by rw [token, isPrefixOf_iff_prefix]; exact prefix_append ..)

theorem plainPair_of_keyed (valid : validName pair.1 = true)
    (keyed : suffixToken cookie pair.1 = some pair.2) : PlainPair pair := by
  refine ⟨⟨not_mem_validName valid (by decide), not_mem_validName valid (by decide)⟩, ?_⟩
  rcases suffixToken_spec keyed with ⟨-, token⟩ | ⟨_, -, token, free, -⟩
  · rw [token]
    decide
  · rw [token, mem_append, not_or]
    exact ⟨by decide, free⟩

theorem nul_not_mem_renderPair (nulFree : ∀ text ∈ cookie, 0 ∉ text)
    (valid : validName pair.1 = true)
    (keyed : suffixToken cookie pair.1 = some pair.2) : 0 ∉ renderPair pair := by
  have token : 0 ∉ pair.2 := by
    rcases suffixToken_spec keyed with ⟨-, token⟩ | ⟨_, -, token, -, text, sent, within⟩
    · rw [token]
      decide
    · rw [token, mem_append, not_or]
      exact ⟨by decide, fun inside => nulFree text sent (within inside)⟩
  rw [renderPair, mem_append, mem_cons, not_or, not_or]
  exact ⟨not_mem_validName valid (by decide), by decide, token⟩

theorem increasing_zip_tail (increasing : names.Pairwise fun a b => a < b) :
    ((names.zip names.tail).all fun pair => pair.1 < pair.2) = true := by
  induction names with
  | nil => rfl
  | cons _ rest ih =>
    obtain ⟨below, later⟩ := pairwise_cons.mp increasing
    cases rest with
    | nil => rfl
    | cons second =>
      rw [tail_cons, zip_cons_cons, all_cons, Bool.and_eq_true]
      exact ⟨decide_eq_true (below second mem_cons_self), ih later⟩

/-! ## Variant keys -/

/-- A request under a URL that varies on cookies: the declared names and the
header from which its key is built. -/
structure Variant where
  base : PageCacheKey
  declared : List Str
  global : List Str
  names : List Str
  normalized : normalizeNames declared global = some names
  nonempty : names ≠ []
  cookie : Option Str
  nulFree : ∀ text ∈ cookie, 0 ∉ text
  suffix : Str
  keyed : UrlVary.suffix cookie names = some suffix

namespace Variant

def key (v : Variant) : PageCacheKey := extend v.base v.suffix

theorem pairs (v : Variant) :
    ∃ pairs, v.suffix = marker ++ joinPairs pairs ∧ pairs ≠ [] ∧ pairs.map Prod.fst = v.names ∧
      (∀ pair ∈ pairs, PlainPair pair) ∧ (∀ pair ∈ pairs, validName pair.1 = true) ∧
      ∀ pair ∈ pairs, suffixToken v.cookie pair.1 = some pair.2 := by
  obtain ⟨pairs, found, joined⟩ := Option.map_eq_some_iff.mp v.keyed
  obtain ⟨names, tokens⟩ := suffixPairs_spec found
  have normal := normal_of_normalizeNames v.normalized
  have valid : ∀ pair ∈ pairs, validName pair.1 = true := fun pair member =>
    normal.valid pair.1 (names ▸ mem_map_of_mem member)
  refine ⟨pairs, joined.symm, ?_, names, fun pair member => ?_, valid, tokens⟩
  · rintro rfl
    exact v.nonempty names.symm
  · exact plainPair_of_keyed (valid pair member) (tokens pair member)

theorem split_key (v : Variant) : split v.key = some (v.base, v.names) := by
  obtain ⟨pairs, suffix, nonempty, names, plain, valid, tokens⟩ := v.pairs
  have normal := normal_of_normalizeNames v.normalized
  have nulFree : 0 ∉ octetsOf "lsvary:" ++ joinPairs pairs := by
    rw [mem_append, not_or]
    refine ⟨by decide, fun inside => ?_⟩
    rcases mem_of_mem_intercalate inside with separator | ⟨_, member, inside⟩
    · exact absurd separator (by decide)
    · obtain ⟨pair, inPairs, rfl⟩ := mem_map.mp member
      exact nul_not_mem_renderPair v.nulFree (valid pair inPairs) (tokens pair inPairs) inside
  have position : rfind marker v.key.varyValue = some v.base.varyValue.length := by
    rw [key, extend, suffix]
    exact rfind_append nulFree v.base.varyValue
  have ext : v.key.varyValue.drop (v.base.varyValue.length + marker.length) = joinPairs pairs := by
    rw [key, extend, suffix, ← append_assoc, ← length_append, drop_left]
  have front : v.key.varyValue.take v.base.varyValue.length = v.base.varyValue := by
    rw [key, extend, take_left]
  have parts : (pairs.map renderPair).mapM splitPart = some v.names := by
    rw [mapM_eq_some_iff, ← names, forall₂_map_left_iff, forall₂_map_right_iff, forall₂_same]
    exact fun pair member => splitPart_renderPair (valid pair member) (tokens pair member)
  rw [split, position, Option.bind_some, ext, joinPairs, splitOn_pairs plain nonempty, parts,
    Option.bind_some, front, if_neg]
  · rfl
  · rw [increasing_zip_tail normal.increasing]
    simp [v.nonempty, normal.few]

/-- Variant keys are equal only for one base, one list of names and headers that
agree on every name. -/
theorem key_inj {v w : Variant} (same : v.key = w.key) :
    v.base = w.base ∧ v.names = w.names ∧ ∀ name ∈ v.names, Agree v.cookie w.cookie name := by
  have sides := v.split_key
  rw [same, w.split_key, Option.some.injEq, Prod.mk.injEq] at sides
  refine ⟨sides.1.symm, sides.2.symm, ?_⟩
  obtain ⟨_, vSuffix, vFilled, vNames, vPlain, -, vTokens⟩ := v.pairs
  obtain ⟨_, wSuffix, wFilled, _, wPlain, -, wTokens⟩ := w.pairs
  have varies : v.base.varyValue ++ v.suffix = w.base.varyValue ++ w.suffix :=
    congrArg PageCacheKey.varyValue same
  rw [sides.1] at varies
  have joined := append_cancel_left varies
  rw [vSuffix, wSuffix] at joined
  have vPieces := splitOn_pairs vPlain vFilled
  rw [← joinPairs, append_cancel_left joined, joinPairs, splitOn_pairs wPlain wFilled] at vPieces
  have pairs := map_renderPair_inj wPlain vPlain vPieces
  intro name member
  rw [← vNames, mem_map] at member
  obtain ⟨pair, inPairs, rfl⟩ := member
  exact agree_of_suffixToken (vTokens pair inPairs) (wTokens pair (pairs ▸ inPairs))

/-- A request for a page that varies on two cookies, one of them not sent. -/
def timeZone : Variant where
  base := ⟨1, true, octetsOf "h", octetsOf "/", [], octetsOf "xf_style_id=v:5", 0⟩
  declared := [octetsOf "tz_date", octetsOf "lang", octetsOf "tz_date"]
  global := [octetsOf "xf_style_id"]
  names := [octetsOf "lang", octetsOf "tz_date"]
  normalized := by decide
  nonempty := by decide
  cookie := some (octetsOf "tz_date=a=b; other=1")
  nulFree := by decide
  suffix := marker ++ octetsOf "lang=-;tz_date=v:a=b"
  keyed := by decide

end Variant

end HttpJet.PageCache.UrlVary
