import Mathlib.Data.List.TakeWhile
import HttpJet.Library.Text
import HttpJet.H2.Message

/-!
# What the rewrite engine reads

The request as the engine sees it, the variables `%{NAME}` of rules and conditions, and
the file system: the name of the requested file, and the memo that an evaluation keeps
of the last name and of the last file test.
-/

namespace HttpJet.Rewrite

open Library List
open Hpack.Integer (Octets)
open Hpack.StaticTable (ascii)
open H2 (isAlphanumeric isDigit toLower)

/-! ## The request -/

structure FileTests where
  isFile : Bool
  isDir : Bool
  isLink : Bool
  isNonempty : Bool
  present : Bool
  isExec : Bool
  deriving DecidableEq

/-- How the engine learns about the file system. -/
inductive StatSource where
  | live (stat : Octets → Option FileTests)
  | precomputed (tests : FileTests)
  | unavailable

structure RewriteInput where
  uri : Octets
  query : Octets
  method : Octets
  host : Octets
  https : Bool
  remoteAddr : Octets
  remotePort : Option UInt16
  serverAddr : Octets
  serverName : Octets
  serverPort : Option UInt16
  protocol : Octets
  /-- The last value of a header that decodes, by its name in lower case. -/
  header : Octets → Option Octets
  docroot : Octets
  stat : StatSource
  /-- What earlier rule sets have assigned. -/
  env : Octets → Option Octets
  envSeed : List (Octets × Octets)
  perDirectoryPrefix : Option Octets
  /-- The port of the `Host` header. -/
  hostPort : Option UInt16
  rawRequestTarget : Option Octets

namespace RewriteInput

def new (uri docroot : Octets) : RewriteInput where
  uri := uri
  query := []
  method := ascii "GET"
  host := []
  https := false
  remoteAddr := []
  remotePort := none
  serverAddr := []
  serverName := []
  serverPort := none
  protocol := ascii "HTTP/1.1"
  header _ := none
  docroot := docroot
  stat := .unavailable
  env _ := none
  envSeed := []
  perDirectoryPrefix := none
  hostPort := none
  rawRequestTarget := none

def getHeader (input : RewriteInput) (name : Octets) : Option Octets :=
  input.header (name.map toLower)

def seedGet (input : RewriteInput) (name : Octets) : Option Octets :=
  (input.envSeed.find? fun entry => entry.1 == name).map Prod.snd

end RewriteInput

/-! ## Variables -/

inductive Var where
  | header (name : Octets)
  | env (name : Octets)
  | requestUri
  | requestFilename
  | requestMethod
  | httpHost
  | queryString
  | https
  | serverPort
  | requestScheme
  | remoteAddr
  | remotePort
  | serverAddr
  | serverName
  | documentRoot
  | serverProtocol
  | theRequest
  deriving DecidableEq

/-- What follows a marker at the front of a text. -/
def after (marker text : Octets) : Option Octets :=
  if marker.isPrefixOf text then some (text.drop marker.length) else none

def serverVars : List (String × Var) :=
  [("REQUEST_URI", .requestUri), ("REQUEST_FILENAME", .requestFilename),
    ("SCRIPT_FILENAME", .requestFilename),
    ("REQUEST_METHOD", .requestMethod), ("HTTP_HOST", .httpHost),
    ("HTTP_USER_AGENT", .header (ascii "User-Agent")), ("HTTP_COOKIE", .header (ascii "Cookie")),
    ("HTTP_REFERER", .header (ascii "Referer")), ("HTTP_ACCEPT", .header (ascii "Accept")),
    ("QUERY_STRING", .queryString), ("HTTPS", .https), ("SERVER_PORT", .serverPort),
    ("REQUEST_SCHEME", .requestScheme), ("REMOTE_ADDR", .remoteAddr), ("REMOTE_HOST", .remoteAddr),
    ("REMOTE_PORT", .remotePort), ("SERVER_ADDR", .serverAddr), ("SERVER_NAME", .serverName),
    ("DOCUMENT_ROOT", .documentRoot), ("SERVER_PROTOCOL", .serverProtocol),
      ("THE_REQUEST", .theRequest)]

/-- `%{HTTP_WORD}` without a further underscore names the header. -/
def singleWordHeaderVar (name : Octets) : Option Octets :=
  (after (ascii "HTTP_") name).filter fun word => !word.isEmpty && word.all isAlphanumeric

/-- The variable of a name; an unknown name is read from the environment. -/
def Var.ofName (name : Octets) : Var :=
  match after (ascii "HTTP:") name with
  | some field => Var.header field
  | none =>
    match after (ascii "ENV:") name with
    | some key => Var.env key
    | none =>
      match serverVars.find? fun entry => ascii entry.1 == name with
      | some entry => entry.2
      | none =>
        match singleWordHeaderVar name with
        | some word => Var.header word
        | none => Var.env name

/-- The variables that read the working URI. -/
def varReadsWorkingUri (name : Octets) : Bool :=
  name == ascii "REQUEST_URI" || name == ascii "REQUEST_FILENAME" || name == ascii "SCRIPT_FILENAME"

/-! ## The file system -/

def trimEndSlashes (path : Octets) : Octets := (path.reverse.dropWhile fun b => b == 47).reverse

def trimStartSlashes (path : Octets) : Octets := path.dropWhile fun b => b == 47

/-- What precedes the last slash. -/
def beforeLastSlash (path : Octets) : Option Octets :=
  (splitOnce 47 path.reverse).map fun sides => sides.2.reverse

def maxPathInfoWalk : Nat := 32

/-- The regular file that a missing path goes on from, if there is one. -/
def pathInfoFile (stat : Octets → Option FileTests) (base : Nat) : Nat → Octets → Option Octets
  | 0, _ => none
  | count + 1, path => do
      let cut ← beforeLastSlash path
      let shorter := trimEndSlashes cut
      if shorter.length ≤ base then none
      else
        match stat shorter with
        | some tests => if tests.isFile then some shorter else none
        | none => pathInfoFile stat base count shorter

/-- The name of the requested file, and a path known to be absent. -/
def resolveRequestFilename (input : RewriteInput) (uri : Octets) : Octets × Option Octets :=
  let base := trimEndSlashes input.docroot
  let path := base ++ 47 :: trimStartSlashes uri
  match input.stat with
  | .live stat =>
    let whole := trimEndSlashes path
    if whole.length ≤ base.length then (path, none)
    else
      match stat whole with
      | some tests => (if tests.isFile then whole else path, none)
      | none =>
        ((pathInfoFile stat base.length maxPathInfoWalk whole).getD path,
          if whole.length < path.length then some path else none)
  | _ => (path, none)

/-- The last name of a file and the last file test of an evaluation. -/
structure FsMemo where
  active : Bool
  /-- A working URI and the name of its file. -/
  filename : Option (Octets × Octets)
  /-- A path and its file test. -/
  test : Option (Octets × Option FileTests)

def FsMemo.fresh (active : Bool) : FsMemo := ⟨active, none, none⟩

/-- `push_request_filename`. -/
def requestFilename (input : RewriteInput) (uri : Octets) (memo : FsMemo) : Octets × FsMemo :=
  match input.stat with
  | .live _ =>
    match memo.active, memo.filename with
    | false, _ => ((resolveRequestFilename input uri).1, memo)
    | true, known =>
      match known.filter fun entry => entry.1 == uri with
      | some entry => (entry.2, memo)
      | none =>
        let (name, absent) := resolveRequestFilename input uri
        (name, { memo with
          filename := some (uri, name)
          test := match absent with
            | some path => some (path, none)
            | none => memo.test })
  | _ => ((resolveRequestFilename input uri).1, memo)

/-- `memo_live_tests`. -/
def memoLiveTests (stat : Octets → Option FileTests) (path : Octets) (memo : FsMemo) :
    Option FileTests × FsMemo :=
  match memo.active with
  | false => (stat path, memo)
  | true =>
    match memo.test.filter fun entry => entry.1 == path with
    | some entry => (entry.2, memo)
    | none => (stat path, { memo with test := some (path, stat path) })

inductive FileTestKind where
  | file
  | dir
  | link
  | size
  | present
  | exec
  deriving DecidableEq

def FileTestKind.holds (kind : FileTestKind) (tests : FileTests) : Bool :=
  match kind with
  | .file => tests.isFile
  | .dir => tests.isDir
  | .link => tests.isLink
  | .size => tests.isNonempty
  | .present => tests.present || tests.isFile || tests.isDir
  | .exec => tests.isExec

def fileTest (input : RewriteInput) (path : Octets) (kind : FileTestKind) (memo : FsMemo) :
    Bool × FsMemo :=
  match input.stat with
  | .precomputed tests => (kind.holds tests, memo)
  | .live stat =>
    let (tests, memo) := memoLiveTests stat path memo
    (tests.any kind.holds, memo)
  | .unavailable => (false, memo)

/-! ## A memo changes no answer

A memo is valid when it holds what the file system says.  The memos of two evaluations are alike
when both are valid, where the file system has nothing below a missing path, and when they are the
same otherwise.
-/

def StatSource.Faithful (source : StatSource) : Prop :=
  ∀ stat, source = .live stat → ∀ path, stat path = none → stat (path ++ [47]) = none

structure FsMemo.Valid (input : RewriteInput) (memo : FsMemo) : Prop where
  filename : ∀ entry,
    memo.filename = some entry → entry.2 = (resolveRequestFilename input entry.1).1
  test : ∀ stat entry, input.stat = .live stat → memo.test = some entry → entry.2 = stat entry.1

def MemoAlike (input : RewriteInput) (first second : FsMemo) : Prop :=
  ¬input.stat.Faithful ∧ first = second ∨ input.stat.Faithful ∧ first.Valid input ∧
    second.Valid input

theorem FsMemo.fresh_valid (input : RewriteInput) (active : Bool) :
    (FsMemo.fresh active).Valid input where
  filename _ held := nomatch held
  test _ _ _ held := nomatch held

variable {input : RewriteInput} {memo : FsMemo}

theorem MemoAlike.of_valid (valid : memo.Valid input) : MemoAlike input memo memo := by
  by_cases faithful : input.stat.Faithful
  · exact .inr ⟨faithful, valid, valid⟩
  · exact .inl ⟨faithful, rfl⟩

theorem trimEndSlashes_append (path : Octets) :
    ∃ slashes, path = trimEndSlashes path ++ slashes ∧ ∀ b ∈ slashes, b = 47 := by
  refine ⟨(path.reverse.takeWhile fun b => b == 47).reverse, ?_, ?_⟩
  · rw [trimEndSlashes, ← reverse_append, takeWhile_append_dropWhile, reverse_reverse]
  · intro b member
    rw [mem_reverse] at member
    have slash := mem_takeWhile_imp member
    exact eq_of_beq slash

variable {stat : Octets → Option FileTests}

theorem StatSource.Faithful.absent_below {source : StatSource} (faithful : source.Faithful)
    (live : source = .live stat) {slashes path : Octets} (below : ∀ b ∈ slashes, b = 47)
    (absent : stat path = none) : stat (path ++ slashes) = none := by
  induction slashes generalizing path with
  | nil => rwa [append_nil]
  | cons b _ ih =>
    have slash : b = 47 := below b mem_cons_self
    have next :=
      ih (fun c member => below c (mem_cons_of_mem b member)) (faithful stat live path absent)
    rwa [append_assoc, singleton_append, ← slash] at next

/-- What a resolution reports as absent is absent. -/
theorem resolveRequestFilename_absent (faithful : input.stat.Faithful)
    (live : input.stat = .live stat) {uri path : Octets}
    (reported : (resolveRequestFilename input uri).2 = some path) : stat path = none := by
  rw [resolveRequestFilename, live] at reported
  dsimp only at reported
  generalize trimEndSlashes input.docroot ++ 47 :: trimStartSlashes uri = whole at reported
  split at reported
  · cases reported
  · split at reported
    · cases reported
    · rename_i missing
      split at reported
      · cases reported
        obtain ⟨_, cut, below⟩ := trimEndSlashes_append path
        have absent := faithful.absent_below live below missing
        rwa [← cut] at absent
      · cases reported

section Resolve

variable {first second : RewriteInput} (sameRoot : first.docroot = second.docroot)
  (sameStat : first.stat = second.stat)

include sameRoot sameStat

theorem resolveRequestFilename_congr (uri : Octets) :
    resolveRequestFilename first uri = resolveRequestFilename second uri := by
  rw [resolveRequestFilename, resolveRequestFilename, sameRoot, sameStat]

theorem requestFilename_congr (uri : Octets) (memo : FsMemo) :
    requestFilename first uri memo = requestFilename second uri memo := by
  rw [requestFilename, requestFilename, sameStat, resolveRequestFilename_congr sameRoot sameStat]

theorem FsMemo.Valid.congr (valid : memo.Valid first) : memo.Valid second where
  filename entry held := by
    rw [← resolveRequestFilename_congr sameRoot sameStat]
    exact valid.filename entry held
  test stat entry live held := valid.test stat entry (sameStat.trans live) held

end Resolve

/-- With a valid memo the name is the one the file system gives. -/
theorem FsMemo.Valid.requestFilename (valid : memo.Valid input) (faithful : input.stat.Faithful)
    (uri : Octets) : (requestFilename input uri memo).1 = (resolveRequestFilename input uri).1 ∧
      (requestFilename input uri memo).2.Valid input := by
  rw [Rewrite.requestFilename]
  split
  · split
    · exact ⟨rfl, valid⟩
    · split
      · rename_i held found
        rw [Option.filter_eq_some_iff] at found
        exact ⟨by rw [valid.filename _ found.1, eq_of_beq found.2], valid⟩
      · refine ⟨rfl, ⟨?_, ?_⟩⟩
        · intro entry held
          cases held
          rfl
        · intro stat' entry live' held
          dsimp only at held
          split at held
          · rename_i path reported
            cases held
            exact (resolveRequestFilename_absent faithful live' reported).symm
          · exact valid.test stat' entry live' held
  · exact ⟨rfl, valid⟩

theorem FsMemo.Valid.memoLiveTests (valid : memo.Valid input) (live : input.stat = .live stat)
    (path : Octets) :
    (memoLiveTests stat path memo).1 = stat path ∧
      (memoLiveTests stat path memo).2.Valid input := by
  rw [Rewrite.memoLiveTests]
  split
  · exact ⟨rfl, valid⟩
  · split
    · rename_i entry found
      rw [Option.filter_eq_some_iff] at found
      have equal := valid.test stat entry live found.1
      rw [eq_of_beq found.2] at equal
      exact ⟨equal, valid⟩
    · refine ⟨rfl, ⟨valid.filename, ?_⟩⟩
      intro stat' entry live' held
      cases held
      rw [live] at live'
      cases live'
      rfl

/-- What a test says when nothing is remembered. -/
def plainFileTest (input : RewriteInput) (path : Octets) (kind : FileTestKind) : Bool :=
  match input.stat with
  | .precomputed tests => kind.holds tests
  | .live stat => (stat path).any kind.holds
  | .unavailable => false

theorem FsMemo.Valid.fileTest (valid : memo.Valid input) (path : Octets) (kind : FileTestKind) :
    (fileTest input path kind memo).1 = plainFileTest input path kind ∧
      (fileTest input path kind memo).2.Valid input := by
  rw [Rewrite.fileTest, plainFileTest]
  split
  · exact ⟨rfl, valid⟩
  · rename_i stat live
    obtain ⟨tests, kept⟩ := valid.memoLiveTests live path
    exact ⟨by rw [← tests], kept⟩
  · exact ⟨rfl, valid⟩

section Alike

variable {first second : RewriteInput} {memo1 memo2 : FsMemo} (sameStat : first.stat = second.stat)
  (alike : MemoAlike first memo1 memo2)

include sameStat alike

theorem requestFilename_alike (sameRoot : first.docroot = second.docroot) (uri : Octets) :
    (requestFilename first uri memo1).1 = (requestFilename second uri memo2).1 ∧
      MemoAlike first (requestFilename first uri memo1).2 (requestFilename second uri memo2).2 := by
  rw [← requestFilename_congr sameRoot sameStat]
  cases alike with
  | inl both =>
    obtain ⟨unfaithful, same⟩ := both
    rw [same]
    exact ⟨rfl, .inl ⟨unfaithful, rfl⟩⟩
  | inr both =>
    obtain ⟨faithful, valid1, valid2⟩ := both
    obtain ⟨name1, kept1⟩ := valid1.requestFilename faithful uri
    obtain ⟨name2, kept2⟩ := valid2.requestFilename faithful uri
    exact ⟨name1.trans name2.symm, .inr ⟨faithful, kept1, kept2⟩⟩

theorem fileTest_alike (path : Octets) (kind : FileTestKind) :
    (fileTest first path kind memo1).1 = (fileTest second path kind memo2).1 ∧
      MemoAlike first (fileTest first path kind memo1).2 (fileTest second path kind memo2).2 := by
  have congr : ∀ memo, fileTest second path kind memo = fileTest first path kind memo := by
    intro memo
    rw [fileTest, fileTest, sameStat]
  rw [congr]
  cases alike with
  | inl both =>
    obtain ⟨unfaithful, same⟩ := both
    rw [same]
    exact ⟨rfl, .inl ⟨unfaithful, rfl⟩⟩
  | inr both =>
    obtain ⟨faithful, valid1, valid2⟩ := both
    obtain ⟨test1, kept1⟩ := valid1.fileTest path kind
    obtain ⟨test2, kept2⟩ := valid2.fileTest path kind
    exact ⟨test1.trans test2.symm, .inr ⟨faithful, kept1, kept2⟩⟩

end Alike

/-! ## Values -/

def decimal (n : Nat) : Octets := ascii (toString n)

/-- The environment: what the rules have assigned, then what was there before. -/
def envGet (input : RewriteInput) (overlay : Octets → Option Octets) (name : Octets) : Octets :=
  (((overlay name).or (input.env name)).or (input.seedGet name)).getD []

def resolveVar (input : RewriteInput) (uri query : Octets) (overlay : Octets → Option Octets)
    (memo : FsMemo) :
    Var → Octets × FsMemo
  | .header name => ((input.getHeader name).getD [], memo)
  | .env name => (envGet input overlay name, memo)
  | .requestUri => (uri, memo)
  | .requestFilename => requestFilename input uri memo
  | .requestMethod => (input.method, memo)
  | .httpHost => (input.host, memo)
  | .queryString => (query, memo)
  | .https => (ascii (if input.https then "on" else "off"), memo)
  | .serverPort =>
    (match input.serverPort with
      | some port => decimal port.toNat
      | none => ascii (if input.https then "443" else "80"), memo)
  | .requestScheme => (ascii (if input.https then "https" else "http"), memo)
  | .remoteAddr => (input.remoteAddr, memo)
  | .remotePort =>
    (match input.remotePort with
      | some port => decimal port.toNat
      | none => [], memo)
  | .serverAddr => (input.serverAddr, memo)
  | .serverName => (if input.serverName = [] then input.host else input.serverName, memo)
  | .documentRoot => (input.docroot, memo)
  | .serverProtocol => (input.protocol, memo)
  | .theRequest =>
    (input.method ++ 32 :: (match input.rawRequestTarget with
      | some raw => raw
      | none =>
        input.uri ++ if input.query = [] then [] else 63 :: input.query) ++ 32 ::
          input.protocol, memo)

end HttpJet.Rewrite
