import HttpJet.Library.Codec
import HttpJet.PageCache.UrlVary

/-!
# The on-disk page container

A published page is one immutable file: an 80-octet header, a metadata block and
the body.  The header is read at fixed offsets and the metadata by a cursor.  The
HTTP crate's header names and values and the keyed hash are parameters.  Every reader recovers
exactly what was written, and a file that is cut short or continued is rejected: its header declares
another size.
-/

namespace HttpJet.PageCache

open Library List

/-! ## Data -/

def validUtf8 (octets : Str) : Bool := (ByteArray.mk octets.toArray).validateUTF8

/-- A string of the source: octets that are UTF-8. -/
structure Text where
  octets : Str
  valid : validUtf8 octets = true
  deriving DecidableEq

def Text.fromUtf8 (octets : Str) : Option Text :=
  if valid : validUtf8 octets = true then some ⟨octets, valid⟩ else none

/-- A cache key whose fields are strings of the source. -/
structure TextKey extends PageCacheKey where
  host_valid : validUtf8 host = true
  path_valid : validUtf8 path = true
  query_valid : validUtf8 normalizedQuery = true
  vary_valid : validUtf8 varyValue = true

/-- The names and values of the HTTP crate, which reparses what it prints. -/
structure HttpCrate where
  HeaderName : Type
  HeaderValue : Type
  nameBytes : HeaderName → Str
  nameFromBytes : Str → Option HeaderName
  valueBytes : HeaderValue → Str
  valueFromBytes : Str → Option HeaderValue
  name_reparses : ∀ name, nameFromBytes (nameBytes name) = some name
  value_reparses : ∀ value, valueFromBytes (valueBytes value) = some value

/-- `HMAC-SHA256` as a function of its key and message. -/
structure Hmac where
  code : Str → Str → Str
  length_code : ∀ key message, (code key message).length = 32

/-- `std::time::Duration`. -/
structure Duration where
  secs : UInt64
  nanos : UInt32
  subsecond : nanos.toNat < 1000000000
  deriving DecidableEq

namespace Duration

theorem toNat_nanos (millis : Nat) :
    (UInt32.ofNat (millis % 1000 * 1000000)).toNat = millis % 1000 * 1000000 := by
  have below : millis % 1000 < 1000 := Nat.mod_lt _ (by decide)
  rw [UInt32.toNat_ofNat', Nat.mod_eq_of_lt (by omega)]

def fromMillis (millis : UInt64) : Duration where
  secs := millis / 1000
  nanos := UInt32.ofNat (millis.toNat % 1000 * 1000000)
  subsecond := by
    rw [toNat_nanos]
    omega

def asMillis (duration : Duration) : Nat :=
  duration.secs.toNat * 1000 + duration.nanos.toNat / 1000000

/-- Whole milliseconds that fit 64 bits. -/
def WholeMillis (duration : Duration) : Prop :=
  duration.nanos.toNat % 1000000 = 0 ∧ duration.asMillis < 2 ^ 64

end Duration

/-- `ms_u64`: whole milliseconds, saturating. -/
def msU64 (duration : Duration) : UInt64 :=
  if duration.asMillis < 2 ^ 64 then UInt64.ofNat duration.asMillis else UInt64.ofNat (2 ^ 64 - 1)

theorem fromMillis_msU64 {duration : Duration} (whole : duration.WholeMillis) :
    Duration.fromMillis (msU64 duration) = duration := by
  obtain ⟨secs, nanos, subsecond⟩ := duration
  obtain ⟨exact, small⟩ := whole
  rw [Duration.asMillis] at small
  dsimp only at exact small
  have millis :
      (msU64 ⟨secs, nanos, subsecond⟩).toNat = secs.toNat * 1000 + nanos.toNat / 1000000 := by
    rw [msU64, Duration.asMillis, if_pos small, UInt64.toNat_ofNat', Nat.mod_eq_of_lt small]
  have thousand : (1000 : UInt64).toNat = 1000 := rfl
  rw [Duration.fromMillis, Duration.mk.injEq]
  constructor
  · rw [← UInt64.toNat_inj, UInt64.toNat_div, millis, thousand]
    omega
  · rw [← UInt32.toNat_inj, Duration.toNat_nanos, millis]
    omega

inductive PageScope where
  | «public»
  | «private» (ownerHash : UInt64)
  deriving DecidableEq

/-- The fields of a `CachedResponse` that are written to its file. -/
structure CachedResponse (http : HttpCrate) where
  status : UInt16
  identity : Text
  headers : List (http.HeaderName × http.HeaderValue)
  tags : List Text
  varyCookieName : Text
  varyValue : Text
  scope : PageScope
  ttl : Duration
  swr : Duration
  sie : Duration

/-! ## Writing -/

def magic : Str := octetsOf "HJPC"

def version : UInt16 := 3

def headerLen : Nat := 80

def tagLen : Nat := 16

def mmapBodyMin : Nat := 16 * 1024

def flagPrivate : UInt16 := 1

def maxMetaLen : Nat := 4 * 2 ^ 20

def maxBodyLen : Nat := 256 * 2 ^ 20

/-- `eat` of `key_hash`: FNV-1a over a field and a separator. -/
def eat (h : UInt64) (octets : Str) : UInt64 :=
  (octets ++ [0xff]).foldl (fun h (b : UInt8) => (h ^^^ b.toUInt64) * 0x00000100000001b3) h

/-- `key_hash`; the value that terminates the store's lists is never returned. -/
def keyHash (key : PageCacheKey) : UInt64 :=
  let h := [le 4 key.vhostId.toNat, [if key.secure then 1 else 0], key.host, key.path,
    key.normalizedQuery, key.varyValue, le 8 key.privateOwner.toNat].foldl eat 0xcbf29ce484222325
  if h = 0xffffffffffffffff then 0 else h

def pushLp (octets : Str) : Str := le 4 octets.length ++ octets

section

variable {http : HttpCrate}

def pushHeader (header : http.HeaderName × http.HeaderValue) : Str :=
  pushLp (http.nameBytes header.1) ++ pushLp (http.valueBytes header.2)

/-- The fields of the metadata block in order. -/
def metaFields (key : PageCacheKey) (entry : CachedResponse http) : List Str :=
  [le 4 key.vhostId.toNat, [if key.secure then 1 else 0], pushLp key.host, pushLp key.path,
    pushLp key.normalizedQuery,
    pushLp key.varyValue,
    pushLp entry.identity.octets,
    pushLp entry.varyCookieName.octets,
    pushLp entry.varyValue.octets,
    le 2 entry.tags.length,
    entry.tags.flatMap fun tag => pushLp tag.octets,
    le 2 entry.headers.length,
    entry.headers.flatMap pushHeader]

def encodeMeta (key : PageCacheKey) (entry : CachedResponse http) : Except String Str :=
  if 65535 < entry.tags.length ∨ 65535 < entry.headers.length then
    .error "tag/header count over format bound"
  else if maxMetaLen < (metaFields key entry).flatten.length then
    .error "meta block over format bound"
  else .ok (metaFields key entry).flatten

def flagsOf : PageScope → UInt16
  | .public => 0
  | .private _ => flagPrivate

/-- `integrity_tag`: zeros without an installed key. -/
def integrityTag (hmac : Hmac) (integrityKey : Option Str) (front block : Str) : Str :=
  match integrityKey with
  | none => List.replicate tagLen 0
  | some key => (hmac.code key (front ++ block)).take tagLen

/-- The header up to the integrity tag, field by field. -/
def headerFields (key : PageCacheKey) (entry : CachedResponse http) (dictGen : UInt32)
    (metaLength bodyLength : Nat) (storedUnixMs : UInt64) : List Str :=
  [magic, le 2 version.toNat, le 2 (flagsOf entry.scope).toNat,
    le 4 (UInt32.ofNat metaLength).toNat,
    le 4 (UInt32.ofNat bodyLength).toNat,
    le 2 entry.status.toNat,
    [0, 0],
    le 4 dictGen.toNat,
    le 8 storedUnixMs.toNat,
    le 8 (msU64 entry.ttl).toNat,
    le 8 (msU64 entry.swr).toNat,
    le 8 (msU64 entry.sie).toNat,
    le 8 key.privateOwner.toNat]

/-- What `prepare_entry` writes: the stem of the file's name and its octets. -/
structure PreparedEntry where
  hex : Str
  octets : Str
  deriving DecidableEq

def prepareEntry (hmac : Hmac) (integrityKey : Option Str) (key : PageCacheKey)
    (entry : CachedResponse http) (dictGen : UInt32) (body : Str) (storedUnixMs : UInt64) :
    Except String PreparedEntry :=
  if maxBodyLen < body.length then .error "body over format bound"
  else do
    let block ← encodeMeta key entry
    let front := (headerFields key entry dictGen block.length body.length storedUnixMs).flatten
    pure {
      hex := hex 16 (keyHash key).toNat
      octets := front ++ integrityTag hmac integrityKey front block ++ block ++ body }

end

/-! ## Reading -/

inductive ReadError where
  | io
  | corrupt (reason : String)
  deriving DecidableEq

/-- An open file: its octets and the blocks the file system allocated to it. -/
structure File where
  octets : Str
  blocks : Nat

structure Locator where
  dir : Str
  fileName : Str
  deriving DecidableEq

def u16At (offset : Nat) (header : Str) : UInt16 := UInt16.ofNat (fromLe (slice offset 2 header))

def u32At (offset : Nat) (header : Str) : UInt32 := UInt32.ofNat (fromLe (slice offset 4 header))

def u64At (offset : Nat) (header : Str) : UInt64 := UInt64.ofNat (fromLe (slice offset 8 header))

/-- Magic, version, bounds, and a file size equal to what the header declares. -/
def validateHeader (header : Str) (hlen fileLen : Nat) : Except ReadError (UInt32 × UInt32) :=
  if slice 0 4 header ≠ magic then .error (.corrupt "bad magic")
  else if u16At 4 header ≠ version then .error (.corrupt "unknown version")
  else if maxMetaLen < (u32At 8 header).toNat ∨ maxBodyLen < (u32At 12 header).toNat then
    .error (.corrupt "length over format bound")
  else if fileLen ≠ hlen + (u32At 8 header).toNat + (u32At 12 header).toNat then
    .error (.corrupt "file size disagrees with header")
  else .ok (u32At 8 header, u32At 12 header)

/-- `verify_integrity`: a comparison without early exit; no key accepts anything. -/
def verifyIntegrity (hmac : Hmac) (integrityKey : Option Str) (tag front block : Str) : Bool :=
  match integrityKey with
  | none => true
  | some _ =>
    let expected := integrityTag hmac integrityKey front block
    tag.length == tagLen &&
      (tag.zip expected).foldl (fun acc (x : UInt8 × UInt8) => acc ||| (x.1 ^^^ x.2)) 0 == 0

namespace Cursor

def take (count : Nat) : Reader ReadError Str :=
  Reader.take (.corrupt "field past end of meta block") count

def u8 : Reader ReadError UInt8 := do
  let octets ← take 1
  pure (octets.headD 0)

def u16 : Reader ReadError UInt16 := do
  let octets ← take 2
  pure (UInt16.ofNat (fromLe octets))

def u32 : Reader ReadError UInt32 := do
  let octets ← take 4
  pure (UInt32.ofNat (fromLe octets))

/-- A field behind its length. -/
def lp : Reader ReadError Str := do
  let length ← u32
  take length.toNat

def string : Reader ReadError Text := do
  let octets ← lp
  Reader.check (.corrupt "non-utf8 string field") (Text.fromUtf8 octets)

end Cursor

section

variable {http : HttpCrate}

def Cursor.header : Reader ReadError (http.HeaderName × http.HeaderValue) := do
  let nameOctets ← lp
  let name ← Reader.check (.corrupt "bad header name") (http.nameFromBytes nameOctets)
  let valueOctets ← lp
  let value ← Reader.check (.corrupt "bad header value") (http.valueFromBytes valueOctets)
  pure (name, value)

/-- What the cursor reads from a metadata block. -/
structure MetaBlock (http : HttpCrate) where
  vhostId : UInt32
  secure : Bool
  host : Text
  path : Text
  normalizedQuery : Text
  keyVaryValue : Text
  identity : Text
  varyCookieName : Text
  varyValue : Text
  tags : List Text
  headers : List (http.HeaderName × http.HeaderValue)

def Cursor.metaBlock : Reader ReadError (MetaBlock http) := do
  let vhostId ← u32
  let secure ← u8
  let host ← string
  let path ← string
  let normalizedQuery ← string
  let keyVaryValue ← string
  let identity ← string
  let varyCookieName ← string
  let varyValue ← string
  let tagCount ← u16
  let tags ← Reader.many string tagCount.toNat
  let headerCount ← u16
  let headers ← Reader.many header headerCount.toNat
  pure {
    vhostId, secure := secure != 0, host, path, normalizedQuery, keyVaryValue, identity,
    varyCookieName, varyValue, tags, headers }

/-- Everything a scan recovers from a page file. -/
structure ScannedEntry (http : HttpCrate) where
  key : TextKey
  status : UInt16
  identity : Text
  headers : List (http.HeaderName × http.HeaderValue)
  dictGen : UInt32
  tags : List Text
  varyCookieName : Text
  varyValue : Text
  scope : PageScope
  storedUnixMs : UInt64
  ttl : Duration
  swr : Duration
  sie : Duration
  bodyLen : UInt32
  metaLen : UInt32
  diskTotal : Nat
  versionSeq : Nat
  path : Locator

/-- `u64::from_str`: decimal digits behind an optional plus sign. -/
def parseU64 (text : Str) : Option Nat :=
  let digits := if text.head? = some '+'.toUInt8 then text.tail else text
  if digits = [] ∨ ¬digits.all (fun digit => 48 ≤ digit && digit ≤ 57) then none
  else
    let value := digits.foldl (fun value digit => 10 * value + (digit.toNat - 48)) 0
    if value < 2 ^ 64 then some value else none

/-- `page_file_seq`: the version in the name of a page file. -/
def pageFileSeq (path : Locator) : Option Nat := do
  let text ← Text.fromUtf8 path.fileName
  let stem ← if octetsOf ".pc" <:+ text.octets then some (text.octets.take (text.octets.length - 3))
    else none
  let sides ← splitOnce '-'.toUInt8 stem
  parseU64 sides.2

/-- `allocated_bytes_from_metadata`, with the file's length as the fallback. -/
def allocatedBytes (file : File) : Nat :=
  min (max (min (file.blocks * 512) (2 ^ 64 - 1)) file.octets.length) (2 ^ 32 - 1)

def MetaBlock.key (block : MetaBlock http) (privateOwner : UInt64) : TextKey where
  vhostId := block.vhostId
  secure := block.secure
  host := block.host.octets
  path := block.path.octets
  normalizedQuery := block.normalizedQuery.octets
  varyValue := block.keyVaryValue.octets
  privateOwner := privateOwner
  host_valid := block.host.valid
  path_valid := block.path.valid
  query_valid := block.normalizedQuery.valid
  vary_valid := block.keyVaryValue.valid

/-- The entry behind a header and its metadata block. -/
def scanned (header : Str) (block : MetaBlock http) (file : File) (path : Locator) :
    ScannedEntry http where
  key := block.key (u64At 56 header)
  status := u16At 16 header
  identity := block.identity
  headers := block.headers
  dictGen := u32At 20 header
  tags := block.tags
  varyCookieName := block.varyCookieName
  varyValue := block.varyValue
  scope := if u16At 6 header &&& flagPrivate ≠ 0 then .private (u64At 56 header) else .public
  storedUnixMs := u64At 24 header
  ttl := Duration.fromMillis (u64At 32 header)
  swr := Duration.fromMillis (u64At 40 header)
  sie := Duration.fromMillis (u64At 48 header)
  bodyLen := u32At 12 header
  metaLen := u32At 8 header
  diskTotal := allocatedBytes file
  versionSeq := (pageFileSeq path).getD 0
  path := path

def readMetaFileWithMetadata (hmac : Hmac) (integrityKey : Option Str) (file : File)
    (path : Locator) : Except ReadError (ScannedEntry http) := do
  let (header, rest) ← Reader.take .io headerLen file.octets
  let (metaLen, _) ← validateHeader header headerLen file.octets.length
  let (octets, _) ← Reader.take .io metaLen.toNat rest
  if ¬verifyIntegrity hmac integrityKey (slice 64 16 header) (header.take 64) octets then
    throw (.corrupt "integrity tag mismatch")
  let (block, unread) ← Cursor.metaBlock octets
  if unread ≠ [] then throw (.corrupt "trailing bytes in meta block")
  pure (scanned header block file path)

end

/-- A range of a file that holds a body. -/
structure StoredBodyFile where
  path : Locator
  fileLen : Nat
  bodyStart : Nat
  bodyLen : UInt32
  deriving DecidableEq

/-- The range of the body, once the header agrees with the file and the index. -/
def bodyFile (file : File) (path : Locator) (expectedLen : UInt32) :
    Except ReadError StoredBodyFile := do
  let (header, _) ← Reader.take .io headerLen file.octets
  let (metaLen, bodyLen) ← validateHeader header headerLen file.octets.length
  if bodyLen ≠ expectedLen then throw (.corrupt "body length disagrees with index")
  pure {
    path, fileLen := file.octets.length, bodyStart := headerLen + metaLen.toNat, bodyLen }

/-- A large body is a view of the mapped file; a small one is read. -/
def readBody (file : File) (expectedLen : UInt32) : Except ReadError Str := do
  let (header, _) ← Reader.take .io headerLen file.octets
  let (metaLen, bodyLen) ← validateHeader header headerLen file.octets.length
  if bodyLen ≠ expectedLen then throw (.corrupt "body length disagrees with index")
  let start := headerLen + metaLen.toNat
  if mmapBodyMin ≤ bodyLen.toNat then
    return slice start bodyLen.toNat file.octets
  let body := (file.octets.drop start).take bodyLen.toNat
  if body.length ≠ bodyLen.toNat then throw (.corrupt "body shorter than header declared")
  return body

/-! ## The metadata block -/

namespace Cursor

theorem reads_take {octets : Str} {count : Nat} (fills : octets.length = count) :
    Reads (take count) octets octets := Reads.take _ fills

theorem reads_u8 (octet : UInt8) : Reads u8 [octet] octet := by
  have taken : Reads (take 1) [octet] [octet] := reads_take rfl
  exact taken.bind_nil (Reads.pure octet)

theorem reads_u16 (n : Nat) : Reads u16 (le 2 n) (UInt16.ofNat n) := by
  have read : UInt16.ofNat (fromLe (le 2 n)) = UInt16.ofNat n := by
    rw [fromLe_le]
    exact UInt16.ofNat_mod_size
  rw [← read]
  exact (reads_take (length_le 2 n)).bind_nil (Reads.pure _)

theorem reads_u32 (n : Nat) : Reads u32 (le 4 n) (UInt32.ofNat n) := by
  have read : UInt32.ofNat (fromLe (le 4 n)) = UInt32.ofNat n := by
    rw [fromLe_le]
    exact UInt32.ofNat_mod_size
  rw [← read]
  exact (reads_take (length_le 4 n)).bind_nil (Reads.pure _)

theorem reads_lp {octets : Str} (small : octets.length < 2 ^ 32) :
    Reads lp (pushLp octets) octets := by
  have length : octets.length = (UInt32.ofNat octets.length).toNat := by
    rw [UInt32.toNat_ofNat', Nat.mod_eq_of_lt small]
  exact (reads_u32 octets.length).bind (reads_take length)

theorem reads_string (text : Text) (small : text.octets.length < 2 ^ 32) :
    Reads string (pushLp text.octets) text :=
  (reads_lp small).bind_nil (Reads.check _ (dif_pos text.valid))

variable {http : HttpCrate}

theorem reads_header {header : http.HeaderName × http.HeaderValue}
    (small : (pushHeader header).length < 2 ^ 32) :
    Reads Cursor.header (pushHeader header) header := by
  rw [pushHeader, length_append, pushLp, pushLp, length_append, length_append] at small
  refine (reads_lp (by omega)).bind ?_
  refine (Reads.check _ (http.name_reparses header.1)).nil_bind ?_
  refine (reads_lp (by omega)).bind_nil ?_
  exact (Reads.check _ (http.value_reparses header.2)).bind_nil (Reads.pure header)

end Cursor

section

variable {http : HttpCrate}

/-- The block that is written for a key and an entry. -/
def blockOf (key : TextKey) (entry : CachedResponse http) : MetaBlock http where
  vhostId := key.vhostId
  secure := key.secure
  host := ⟨key.host, key.host_valid⟩
  path := ⟨key.path, key.path_valid⟩
  normalizedQuery := ⟨key.normalizedQuery, key.query_valid⟩
  keyVaryValue := ⟨key.varyValue, key.vary_valid⟩
  identity := entry.identity
  varyCookieName := entry.varyCookieName
  varyValue := entry.varyValue
  tags := entry.tags
  headers := entry.headers

theorem length_of_pushLp {octets : Str} (small : (pushLp octets).length < 2 ^ 32) :
    octets.length < 2 ^ 32 := by
  rw [pushLp, length_append] at small
  omega

theorem length_of_mem_flatMap {α : Type} {items : List α} {item : α} (encode : α → Str)
    (small : (items.flatMap encode).length < 2 ^ 32) (member : item ∈ items) :
    (encode item).length < 2 ^ 32 := by
  have within := (sublist_flatten_of_mem (mem_map_of_mem (f := encode) member)).length_le
  rw [flatMap_def] at small
  omega

theorem reads_metaBlock {key : TextKey} {entry : CachedResponse http}
    (tagCount : entry.tags.length ≤ 65535) (headerCount : entry.headers.length ≤ 65535)
    (bound : (metaFields key.toPageCacheKey entry).flatten.length ≤ maxMetaLen) :
    Reads Cursor.metaBlock (metaFields key.toPageCacheKey entry).flatten (blockOf key entry) := by
  have small : ∀ field ∈ metaFields key.toPageCacheKey entry, field.length < 2 ^ 32 := by
    intro field member
    have within := (sublist_flatten_of_mem member).length_le
    exact (within.trans bound).trans_lt (by decide)
  simp only [metaFields, forall_mem_cons] at small
  obtain ⟨-, -, host, path, query, vary, identity, cookie, value, -, tags, -, headers, -⟩ := small
  have tagTotal : (UInt16.ofNat entry.tags.length).toNat = entry.tags.length := by
    rw [UInt16.toNat_ofNat', Nat.mod_eq_of_lt (by omega)]
  have headerTotal : (UInt16.ofNat entry.headers.length).toNat = entry.headers.length := by
    rw [UInt16.toNat_ofNat', Nat.mod_eq_of_lt (by omega)]
  refine (Cursor.reads_u32 _).bind ?_
  refine (Cursor.reads_u8 _).bind ?_
  refine (Cursor.reads_string ⟨key.host, key.host_valid⟩ (length_of_pushLp host)).bind ?_
  refine (Cursor.reads_string ⟨key.path, key.path_valid⟩ (length_of_pushLp path)).bind ?_
  refine (Cursor.reads_string ⟨_, key.query_valid⟩ (length_of_pushLp query)).bind ?_
  refine (Cursor.reads_string ⟨_, key.vary_valid⟩ (length_of_pushLp vary)).bind ?_
  refine (Cursor.reads_string entry.identity (length_of_pushLp identity)).bind ?_
  refine (Cursor.reads_string entry.varyCookieName (length_of_pushLp cookie)).bind ?_
  refine (Cursor.reads_string entry.varyValue (length_of_pushLp value)).bind ?_
  refine (Cursor.reads_u16 _).bind ?_
  rw [tagTotal]
  have tagSmall : ∀ tag ∈ entry.tags, (pushLp tag.octets).length < 2 ^ 32 :=
    fun _ member => length_of_mem_flatMap (fun tag => pushLp tag.octets) tags member
  refine (Reads.many fun tag member =>
    Cursor.reads_string tag (length_of_pushLp (tagSmall tag member))).bind ?_
  refine (Cursor.reads_u16 _).bind ?_
  rw [headerTotal]
  refine (Reads.many fun header member =>
    Cursor.reads_header (length_of_mem_flatMap pushHeader headers member)).bind ?_
  have secure : ((if key.secure = true then 1 else 0 : UInt8) != 0) = key.secure := by
    cases key.secure <;> rfl
  rw [secure, UInt32.ofNat_toNat]
  exact Reads.pure (blockOf key entry)

/-! ## The header -/

theorem u16At_flatten {fields : List Str} {offset : Nat} {x : UInt16} (index : Nat)
    (found : fields[index]? = some (le 2 x.toNat))
    (starts : (fields.take index).flatten.length = offset) : u16At offset fields.flatten = x := by
  rw [u16At, slice_flatten index found starts (length_le 2 _), fromLe_le]
  exact UInt16.ofNat_mod_size.trans UInt16.ofNat_toNat

theorem u32At_flatten {fields : List Str} {offset : Nat} {x : UInt32} (index : Nat)
    (found : fields[index]? = some (le 4 x.toNat))
    (starts : (fields.take index).flatten.length = offset) : u32At offset fields.flatten = x := by
  rw [u32At, slice_flatten index found starts (length_le 4 _), fromLe_le]
  exact UInt32.ofNat_mod_size.trans UInt32.ofNat_toNat

theorem u64At_flatten {fields : List Str} {offset : Nat} {x : UInt64} (index : Nat)
    (found : fields[index]? = some (le 8 x.toNat))
    (starts : (fields.take index).flatten.length = offset) : u64At offset fields.flatten = x := by
  rw [u64At, slice_flatten index found starts (length_le 8 _), fromLe_le]
  exact UInt64.ofNat_mod_size.trans UInt64.ofNat_toNat

@[simp]
theorem length_integrityTag (hmac : Hmac) (integrityKey : Option Str) (front block : Str) :
    (integrityTag hmac integrityKey front block).length = 16 := by
  cases integrityKey with
  | none => rfl
  | some =>
    rw [integrityTag, length_take, hmac.length_code]
    rfl

/-- A comparison without early exit finds no difference between equal tags. -/
theorem foldl_xor_self (tag : Str) :
    (tag.zip tag).foldl (fun acc (x : UInt8 × UInt8) => acc ||| (x.1 ^^^ x.2)) 0 = 0 := by
  induction tag with
  | nil => rfl
  | cons _ _ ih =>
    rw [zip_cons_cons, foldl_cons, UInt8.xor_self, UInt8.or_self]
    exact ih

theorem verifyIntegrity_integrityTag (hmac : Hmac) (integrityKey : Option Str) (front block : Str) :
    verifyIntegrity hmac integrityKey (integrityTag hmac integrityKey front block) front block =
      true := by
  cases integrityKey with
  | none => rfl
  | some =>
    rw [verifyIntegrity, length_integrityTag, foldl_xor_self]
    rfl

/-- The inputs of `prepare_entry`. -/
structure Page (http : HttpCrate) where
  key : TextKey
  entry : CachedResponse http
  dictGen : UInt32
  body : Str
  storedUnixMs : UInt64

namespace Page

def block (page : Page http) : Str := (metaFields page.key.toPageCacheKey page.entry).flatten

def front (page : Page http) : Str :=
  (headerFields page.key.toPageCacheKey page.entry page.dictGen page.block.length page.body.length
    page.storedUnixMs).flatten

/-- All fields of the header. -/
def fields (hmac : Hmac) (integrityKey : Option Str) (page : Page http) : List Str :=
  headerFields page.key.toPageCacheKey page.entry page.dictGen page.block.length page.body.length
    page.storedUnixMs ++ [integrityTag hmac integrityKey page.front page.block]

variable (hmac : Hmac) (integrityKey : Option Str) (page : Page http)

theorem flatten_fields : (page.fields hmac integrityKey).flatten =
    page.front ++ integrityTag hmac integrityKey page.front page.block := by
  rw [fields, flatten_append, flatten_singleton, front]

theorem length_front : page.front.length = 64 := by
  simp [front, headerFields, magic, octetsOf]

theorem length_header : (page.fields hmac integrityKey).flatten.length = headerLen := by
  rw [flatten_fields, length_append, length_front, length_integrityTag]
  rfl

theorem slice_magic : slice 0 4 (page.fields hmac integrityKey).flatten = magic :=
  slice_flatten 0 rfl rfl rfl

theorem slice_tag : slice 64 16 (page.fields hmac integrityKey).flatten =
    integrityTag hmac integrityKey page.front page.block :=
  slice_flatten 13 rfl page.length_front (length_integrityTag ..)

theorem header_eq {header : Str} (same : (page.fields hmac integrityKey).flatten = header) :
    u16At 4 header = version ∧ u16At 6 header = flagsOf page.entry.scope ∧
      u32At 8 header = UInt32.ofNat page.block.length ∧
      u32At 12 header = UInt32.ofNat page.body.length ∧ u16At 16 header = page.entry.status ∧
      u32At 20 header = page.dictGen ∧ u64At 24 header = page.storedUnixMs ∧
      u64At 32 header = msU64 page.entry.ttl ∧ u64At 40 header = msU64 page.entry.swr ∧
      u64At 48 header = msU64 page.entry.sie ∧ u64At 56 header = page.key.privateOwner := by
  subst same
  exact ⟨u16At_flatten 1 rfl rfl, u16At_flatten 2 rfl rfl, u32At_flatten 3 rfl rfl,
    u32At_flatten 4 rfl rfl, u16At_flatten 5 rfl rfl, u32At_flatten 7 rfl rfl,
    u64At_flatten 8 rfl rfl, u64At_flatten 9 rfl rfl, u64At_flatten 10 rfl rfl,
    u64At_flatten 11 rfl rfl, u64At_flatten 12 rfl rfl⟩

/-- The bounds of the format that `prepare_entry` checks. -/
structure Fits : Prop where
  body : page.body.length ≤ maxBodyLen
  tags : page.entry.tags.length ≤ 65535
  headers : page.entry.headers.length ≤ 65535
  block : page.block.length ≤ maxMetaLen

/-- The octets of the file. -/
def octets : Str := (page.fields hmac integrityKey).flatten ++ (page.block ++ page.body)

def prepare : Except String PreparedEntry :=
  prepareEntry hmac integrityKey page.key.toPageCacheKey page.entry page.dictGen page.body
    page.storedUnixMs

variable {hmac integrityKey page}

theorem encodeMeta_eq {block : Str}
    (encodes : encodeMeta page.key.toPageCacheKey page.entry = .ok block) :
    page.entry.tags.length ≤ 65535 ∧ page.entry.headers.length ≤ 65535 ∧
      page.block.length ≤ maxMetaLen ∧ block = page.block := by
  rw [encodeMeta] at encodes
  split at encodes
  case isTrue => contradiction
  case isFalse counts =>
    split at encodes
    case isTrue => contradiction
    case isFalse short =>
      rw [not_or] at counts
      exact ⟨Nat.le_of_not_lt counts.1, Nat.le_of_not_lt counts.2, Nat.le_of_not_lt short,
        (Except.ok.inj encodes).symm⟩

theorem prepare_eq {prepared : PreparedEntry}
    (prepares : page.prepare hmac integrityKey = .ok prepared) :
    page.Fits ∧ prepared.octets = page.octets hmac integrityKey := by
  rw [prepare, prepareEntry] at prepares
  split at prepares
  case isTrue => contradiction
  case isFalse short =>
    cases encodes : encodeMeta page.key.toPageCacheKey page.entry with
    | error =>
      rw [encodes] at prepares
      contradiction
    | ok =>
      obtain ⟨tags, headers, bound, same⟩ := encodeMeta_eq encodes
      rw [encodes, same] at prepares
      refine ⟨⟨Nat.le_of_not_lt short, tags, headers, bound⟩, ?_⟩
      rw [← Except.ok.inj prepares, octets, flatten_fields, append_assoc, append_assoc]
      rfl

theorem Fits.toNat_metaLen (fits : page.Fits) :
    (UInt32.ofNat page.block.length).toNat = page.block.length := by
  have small : maxMetaLen < 2 ^ 32 := by decide
  rw [UInt32.toNat_ofNat', Nat.mod_eq_of_lt (Nat.lt_of_le_of_lt fits.block small)]

theorem Fits.toNat_bodyLen (fits : page.Fits) :
    (UInt32.ofNat page.body.length).toNat = page.body.length := by
  have small : maxBodyLen < 2 ^ 32 := by decide
  rw [UInt32.toNat_ofNat', Nat.mod_eq_of_lt (Nat.lt_of_le_of_lt fits.body small)]

/-- The header accepts a file of one length only. -/
theorem validateHeader_fields (fits : page.Fits) (fileLen : Nat) :
    validateHeader (page.fields hmac integrityKey).flatten headerLen fileLen =
      if fileLen ≠ headerLen + page.block.length + page.body.length then
        .error (.corrupt "file size disagrees with header")
      else .ok (UInt32.ofNat page.block.length, UInt32.ofNat page.body.length) := by
  have bounded : ¬(maxMetaLen < page.block.length ∨ maxBodyLen < page.body.length) := by
    rw [not_or]
    exact ⟨Nat.not_lt.mpr fits.block, Nat.not_lt.mpr fits.body⟩
  obtain ⟨version, -, metaLen, bodyLen, -⟩ := page.header_eq hmac integrityKey rfl
  rw [validateHeader, slice_magic, version, metaLen, bodyLen, fits.toNat_metaLen,
    fits.toNat_bodyLen, if_neg (not_not_intro rfl), if_neg (not_not_intro rfl), if_neg bounded]

/-! ## The round trip -/

/-- What a reader of a file sees first: a header, and the file's length. -/
theorem take_header {file : File} (rest : Str)
    (starts : file.octets = (page.fields hmac integrityKey).flatten ++ rest) :
    (Reader.take .io headerLen file.octets : Except ReadError (Str × Str)) =
      .ok ((page.fields hmac integrityKey).flatten, rest) := by
  rw [starts]
  exact Reads.take _ (page.length_header hmac integrityKey) rest

variable (hmac integrityKey page) in
theorem length_octets : (page.octets hmac integrityKey).length =
    headerLen + page.block.length + page.body.length := by
  rw [octets, length_append, length_append, length_header, Nat.add_assoc]

theorem readMeta_octets (fits : page.Fits) (blocks : Nat) (path : Locator) :
    readMetaFileWithMetadata hmac integrityKey ⟨page.octets hmac integrityKey, blocks⟩ path =
      .ok (scanned (page.fields hmac integrityKey).flatten (blockOf page.key page.entry)
        ⟨page.octets hmac integrityKey, blocks⟩ path) := by
  have header : (page.fields hmac integrityKey).flatten.take 64 = page.front := by
    rw [flatten_fields, ← page.length_front, take_left]
  have block : (Reader.take .io page.block.length (page.block ++ page.body) :
      Except ReadError (Str × Str)) = .ok (page.block, page.body) := Reads.take _ rfl _
  have fields : Cursor.metaBlock page.block = .ok (blockOf page.key page.entry, []) := by
    have reads := reads_metaBlock fits.tags fits.headers fits.block []
    rwa [append_nil] at reads
  rw [readMetaFileWithMetadata, take_header (page.block ++ page.body) rfl]
  dsimp only [bind, Except.bind]
  rw [validateHeader_fields fits, length_octets, if_neg (not_not_intro rfl)]
  dsimp only
  rw [fits.toNat_metaLen, block]
  dsimp only
  rw [slice_tag, header, verifyIntegrity_integrityTag, if_neg (not_not_intro rfl)]
  rw [fields]
  rfl

variable (hmac integrityKey page) in
theorem slice_body : slice (headerLen + page.block.length) page.body.length
    (page.octets hmac integrityKey) = page.body := by
  have starts : ((page.fields hmac integrityKey).flatten ++ page.block).length =
      headerLen + page.block.length := by
    rw [length_append, length_header]
  have split : slice (headerLen + page.block.length) page.body.length
      ((page.fields hmac integrityKey).flatten ++ page.block ++ (page.body ++ [])) = page.body :=
    slice_append starts rfl
  rwa [append_nil, append_assoc] at split

theorem bodyFile_octets (fits : page.Fits) (blocks : Nat) (path : Locator) :
    bodyFile ⟨page.octets hmac integrityKey, blocks⟩ path (UInt32.ofNat page.body.length) = .ok {
      path
      fileLen := (page.octets hmac integrityKey).length
      bodyStart := headerLen + page.block.length
      bodyLen := UInt32.ofNat page.body.length } := by
  rw [bodyFile, take_header (page.block ++ page.body) rfl]
  dsimp only [bind, Except.bind]
  rw [validateHeader_fields fits, length_octets, if_neg (not_not_intro rfl)]
  dsimp only
  rw [fits.toNat_metaLen, if_neg (not_not_intro rfl)]
  rfl

theorem readBody_octets (fits : page.Fits) (blocks : Nat) :
    readBody ⟨page.octets hmac integrityKey, blocks⟩ (UInt32.ofNat page.body.length) =
      .ok page.body := by
  rw [readBody, take_header (page.block ++ page.body) rfl]
  dsimp only [bind, Except.bind]
  rw [validateHeader_fields fits, length_octets, if_neg (not_not_intro rfl)]
  dsimp only
  rw [fits.toNat_metaLen, fits.toNat_bodyLen, if_neg (not_not_intro rfl)]
  dsimp only [pure, Except.pure]
  have body := page.slice_body hmac integrityKey
  by_cases large : mmapBodyMin ≤ page.body.length
  · rw [if_pos large, body]
  · rw [slice] at body
    rw [if_neg large, body, if_neg (not_not_intro rfl)]

variable (http hmac integrityKey) in
/-- Every reader fails. -/
def Rejected (file : File) (path : Locator) : Prop :=
  (∃ error, (readMetaFileWithMetadata hmac integrityKey file path :
      Except ReadError (ScannedEntry http)) = .error error) ∧
    (∀ expectedLen, ∃ error, readBody file expectedLen = .error error) ∧
    ∀ expectedLen, ∃ error, bodyFile file path expectedLen = .error error

/-- All readers begin with the header. -/
theorem rejected_of_header {file : File} (path : Locator) (error : ReadError)
    (fails : (Reader.take .io headerLen file.octets >>= fun read =>
      validateHeader read.1 headerLen file.octets.length) = .error error) :
    Rejected http hmac integrityKey file path := by
  rw [Rejected, readMetaFileWithMetadata]
  simp only [readBody, bodyFile]
  cases taken : (Reader.take .io headerLen file.octets : Except ReadError (Str × Str)) with
  | error => exact ⟨⟨_, rfl⟩, fun _ => ⟨_, rfl⟩, fun _ => ⟨_, rfl⟩⟩
  | ok read =>
    rw [taken] at fails
    change validateHeader read.1 headerLen file.octets.length = _ at fails
    simp only [bind, Except.bind, fails]
    exact ⟨⟨_, rfl⟩, fun _ => ⟨_, rfl⟩, fun _ => ⟨_, rfl⟩⟩

/-- A proper part or a proper continuation of a file is no container: it is shorter than a header,
or its header declares another length. -/
theorem rejected (fits : page.Fits) {file : File} (path : Locator)
    (other : file.octets ≠ page.octets hmac integrityKey)
    (comparable : file.octets <+: page.octets hmac integrityKey ∨
      page.octets hmac integrityKey <+: file.octets) : Rejected http hmac integrityKey
        file path := by
  have different : file.octets.length ≠ headerLen + page.block.length + page.body.length := by
    rw [← length_octets hmac integrityKey page]
    intro same
    exact other (comparable.elim (fun front => front.eq_of_length same)
      fun front => (front.eq_of_length same.symm).symm)
  by_cases short : file.octets.length < headerLen
  · refine rejected_of_header path .io ?_
    rw [Reader.take, if_pos short]
    rfl
  · have header : (page.fields hmac integrityKey).flatten <+: file.octets := by
      have whole : (page.fields hmac integrityKey).flatten <+: page.octets hmac integrityKey :=
        prefix_append ..
      cases comparable with
      | inl part =>
        refine prefix_of_prefix_length_le whole part ?_
        rw [length_header]
        exact Nat.le_of_not_lt short
      | inr continued => exact whole.trans continued
    obtain ⟨rest, starts⟩ := header
    refine rejected_of_header path (.corrupt "file size disagrees with header") ?_
    rw [take_header rest starts.symm]
    exact (validateHeader_fields fits _).trans (if_pos different)

/-- A scope is recovered from its flag and the key's owner. -/
theorem scope_eq
    (owned : ∀ ownerHash, page.entry.scope = .private ownerHash →
      ownerHash = page.key.privateOwner) :
    (if flagsOf page.entry.scope &&& flagPrivate ≠ 0 then PageScope.private page.key.privateOwner
      else .public) = page.entry.scope := by
  cases scope : page.entry.scope with
  | «public» => rfl
  | «private» ownerHash =>
    rw [owned ownerHash scope, flagsOf, if_pos (by decide)]

end Page

/-- Every page that can be prepared is read back exactly, and no part or
continuation of its file is accepted. -/
theorem prepareEntry_read_back (hmac : Hmac) (integrityKey : Option Str) (key : TextKey)
    (entry : CachedResponse http) (dictGen : UInt32) (body : Str) (storedUnixMs : UInt64)
    (ttl : entry.ttl.WholeMillis) (swr : entry.swr.WholeMillis) (sie : entry.sie.WholeMillis)
    (owned : ∀ ownerHash, entry.scope = .private ownerHash → ownerHash = key.privateOwner)
    (prepared : PreparedEntry)
    (prepares : prepareEntry hmac integrityKey key.toPageCacheKey entry dictGen body storedUnixMs =
      .ok prepared) (blocks : Nat) (path : Locator) :
    (∃ bodyLen metaLen : UInt32, bodyLen.toNat = body.length ∧
      readMetaFileWithMetadata hmac integrityKey ⟨prepared.octets, blocks⟩ path = .ok {
        key
        status := entry.status
        identity := entry.identity
        headers := entry.headers
        dictGen
        tags := entry.tags
        varyCookieName := entry.varyCookieName
        varyValue := entry.varyValue
        scope := entry.scope
        storedUnixMs
        ttl := entry.ttl
        swr := entry.swr
        sie := entry.sie
        bodyLen
        metaLen
        diskTotal := allocatedBytes ⟨prepared.octets, blocks⟩
        versionSeq := (pageFileSeq path).getD 0
        path } ∧
      readBody ⟨prepared.octets, blocks⟩ bodyLen = .ok body ∧
      ∃ range, bodyFile ⟨prepared.octets, blocks⟩ path bodyLen = .ok range ∧
        slice range.bodyStart range.bodyLen.toNat prepared.octets = body) ∧
    ∀ file : File, file.octets ≠ prepared.octets →
      (file.octets <+: prepared.octets ∨ prepared.octets <+: file.octets) →
      (∃ error, (readMetaFileWithMetadata hmac integrityKey file path :
        Except ReadError (ScannedEntry http)) = .error error) ∧
      (∀ expectedLen, ∃ error, readBody file expectedLen = .error error) ∧
      ∀ expectedLen, ∃ error, bodyFile file path expectedLen = .error error := by
  have facts : (Page.mk key entry dictGen body storedUnixMs).Fits ∧
      prepared.octets = (Page.mk key entry dictGen body storedUnixMs).octets hmac integrityKey :=
    Page.prepare_eq prepares
  obtain ⟨fits, written⟩ := facts
  rw [written]
  refine ⟨⟨UInt32.ofNat body.length,
    UInt32.ofNat (Page.mk key entry dictGen body storedUnixMs).block.length, fits.toNat_bodyLen, ?_,
      Page.readBody_octets fits blocks, _,
    Page.bodyFile_octets fits blocks path, ?_⟩, fun file other comparable =>
      Page.rejected fits path other comparable⟩
  · obtain ⟨-, flags, metaLen, bodyLen, status, dictGen, stored, isTtl, isSwr, isSie, owner⟩ :=
      Page.header_eq hmac integrityKey (Page.mk key entry dictGen body storedUnixMs) rfl
    rw [Page.readMeta_octets fits, scanned, flags, metaLen, bodyLen, status, dictGen, stored, isTtl,
      isSwr, isSie, owner, Page.scope_eq owned, fromMillis_msU64 ttl, fromMillis_msU64 swr,
      fromMillis_msU64 sie]
    rfl
  · rw [fits.toNat_bodyLen]
    exact Page.slice_body hmac integrityKey _

end

/-! ## A page of a private session -/

def octetCrate : HttpCrate where
  HeaderName := Str
  HeaderValue := Str
  nameBytes := id
  nameFromBytes := some
  valueBytes := id
  valueFromBytes := some
  name_reparses := fun _ => rfl
  value_reparses := fun _ => rfl

def lastOctets : Hmac where
  code := fun key message => (message.reverse ++ key ++ List.replicate 32 0).take 32
  length_code := by
    intro key message
    rw [List.length_take, List.length_append, List.length_replicate]
    omega

def sessionKey : TextKey where
  vhostId := 7
  secure := true
  host := octetsOf "forum.example"
  path := octetsOf "/t/1"
  normalizedQuery := []
  varyValue := []
  privateOwner := 42
  host_valid := by decide +kernel
  path_valid := by decide +kernel
  query_valid := by decide +kernel
  vary_valid := by decide +kernel

def sessionEntry : CachedResponse octetCrate where
  status := 200
  identity := ⟨octetsOf "forum.example/t/1", by decide +kernel⟩
  headers := [(octetsOf "content-type", octetsOf "text/html")]
  tags := [⟨octetsOf "thread-1", by decide +kernel⟩, ⟨octetsOf "home", by decide +kernel⟩]
  varyCookieName := ⟨[], by decide +kernel⟩
  varyValue := ⟨[], by decide +kernel⟩
  scope := .private 42
  ttl := .fromMillis 60000
  swr := .fromMillis 1500
  sie := .fromMillis 0

theorem sessionEntry_read_back :
    ∃ prepared, prepareEntry lastOctets (some [1, 2, 3]) sessionKey.toPageCacheKey sessionEntry 0
        (octetsOf "hello") 1700000000000 = .ok prepared ∧
      readBody ⟨prepared.octets, 8⟩ 5 = .ok (octetsOf "hello") ∧
      ∀ file : File, file.octets ≠ prepared.octets → file.octets <+: prepared.octets →
        ∃ error, readBody file 5 = .error error := by
  have succeeds : (prepareEntry lastOctets (some [1, 2, 3]) sessionKey.toPageCacheKey sessionEntry 0
      (octetsOf "hello") 1700000000000).isOk = true := by decide +kernel
  cases prepares : prepareEntry lastOctets (some [1, 2, 3]) sessionKey.toPageCacheKey sessionEntry 0
      (octetsOf "hello") 1700000000000 with
  | error reason =>
    rw [prepares] at succeeds
    contradiction
  | ok prepared =>
    obtain ⟨⟨bodyLen, _, same, _, reads, _⟩, rejects⟩ := prepareEntry_read_back lastOctets
      (some [1, 2, 3]) sessionKey sessionEntry 0 (octetsOf "hello") 1700000000000
      ⟨by decide, by decide⟩ ⟨by decide, by decide⟩ ⟨by decide, by decide⟩
      (fun _ scope => (PageScope.private.inj scope).symm) prepared prepares 8 ⟨[], []⟩
    have five : bodyLen = 5 := UInt32.toNat_inj.mp same
    rw [five] at reads
    exact ⟨prepared, rfl, reads, fun file other part => (rejects file other (.inl part)).2.1 5⟩

end HttpJet.PageCache
