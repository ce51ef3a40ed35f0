import HttpJet.Hpack.Integer

/-!
# The HPACK static table (RFC 7541 Appendix A)

The sixty-one entries and the two lookups of the encoder, whose `match` arms are kept as a list in
the order of the source: the first arm that matches answers.
-/

namespace HttpJet.Hpack.StaticTable

open Hpack.Integer

/-- The octets of a text literal of the source (all of them are ASCII). -/
def ascii (text : String) : Octets :=
  text.toList.map fun c => UInt8.ofNat c.toNat

/-- A header field as octets: name and value. -/
abbrev Field := Octets × Octets

def field (name value : String) : Field :=
  (ascii name, ascii value)

/-- `TABLE`: an empty value means the entry indexes the name only. -/
def table : List Field :=
  [field ":authority" "", field ":method" "GET", field ":method" "POST", field ":path" "/",
    field ":path" "/index.html", field ":scheme" "http", field ":scheme" "https",
    field ":status" "200", field ":status" "204", field ":status" "206",
    field ":status" "304", field ":status" "400", field ":status" "404",
    field ":status" "500", field "accept-charset" "",
    field "accept-encoding" "gzip, deflate", field "accept-language" "",
    field "accept-ranges" "", field "accept" "", field "access-control-allow-origin" "",
    field "age" "", field "allow" "", field "authorization" "", field "cache-control" "",
    field "content-disposition" "", field "content-encoding" "",
    field "content-language" "", field "content-length" "", field "content-location" "",
    field "content-range" "", field "content-type" "", field "cookie" "", field "date" "",
    field "etag" "", field "expect" "", field "expires" "", field "from" "",
    field "host" "", field "if-match" "", field "if-modified-since" "",
    field "if-none-match" "", field "if-range" "", field "if-unmodified-since" "",
    field "last-modified" "", field "link" "", field "location" "", field "max-forwards" "",
    field "proxy-authenticate" "", field "proxy-authorization" "", field "range" "",
    field "referer" "", field "refresh" "", field "retry-after" "", field "server" "",
    field "set-cookie" "", field "strict-transport-security" "",
    field "transfer-encoding" "", field "user-agent" "", field "vary" "", field "via" "",
    field "www-authenticate" ""]

/-- An entry by its 1-based index. -/
def get (index : Nat) : Option Field :=
  if index = 0 then none else table[index - 1]?

/-- The arms of `find_name_value`. -/
def nameValueArms : List (Field × Nat) :=
  [(field ":authority" "", 1), (field ":method" "GET", 2), (field ":method" "POST", 3),
    (field ":path" "/", 4), (field ":path" "/index.html", 5), (field ":scheme" "http", 6),
    (field ":scheme" "https", 7), (field ":status" "200", 8), (field ":status" "204", 9),
    (field ":status" "206", 10), (field ":status" "304", 11), (field ":status" "400", 12),
    (field ":status" "404", 13), (field ":status" "500", 14),
    (field "accept-charset" "", 15), (field "accept-encoding" "gzip, deflate", 16),
    (field "accept-language" "", 17), (field "accept-ranges" "", 18),
    (field "accept" "", 19), (field "access-control-allow-origin" "", 20),
    (field "age" "", 21), (field "allow" "", 22), (field "authorization" "", 23),
    (field "cache-control" "", 24), (field "content-disposition" "", 25),
    (field "content-encoding" "", 26), (field "content-language" "", 27),
    (field "content-length" "", 28), (field "content-location" "", 29),
    (field "content-range" "", 30), (field "content-type" "", 31), (field "cookie" "", 32),
    (field "date" "", 33), (field "etag" "", 34), (field "expect" "", 35),
    (field "expires" "", 36), (field "from" "", 37), (field "host" "", 38),
    (field "if-match" "", 39), (field "if-modified-since" "", 40),
    (field "if-none-match" "", 41), (field "if-range" "", 42),
    (field "if-unmodified-since" "", 43), (field "last-modified" "", 44),
    (field "link" "", 45), (field "location" "", 46), (field "max-forwards" "", 47),
    (field "proxy-authenticate" "", 48), (field "proxy-authorization" "", 49),
    (field "range" "", 50), (field "referer" "", 51), (field "refresh" "", 52),
    (field "retry-after" "", 53), (field "server" "", 54), (field "set-cookie" "", 55),
    (field "strict-transport-security" "", 56), (field "transfer-encoding" "", 57),
    (field "user-agent" "", 58), (field "vary" "", 59), (field "via" "", 60),
    (field "www-authenticate" "", 61)]

/-- The 1-based index of an exact match. -/
def findNameValue (name value : Octets) : Option Nat :=
  (nameValueArms.find? fun arm => arm.1 == (name, value)).map (·.2)

/-- The arms of `find_name`; a repeated name returns its first entry. -/
def nameArms : List (Octets × Nat) :=
  [(ascii ":authority", 1), (ascii ":method", 2), (ascii ":path", 4), (ascii ":scheme", 6),
    (ascii ":status", 8), (ascii "accept-charset", 15), (ascii "accept-encoding", 16),
    (ascii "accept-language", 17), (ascii "accept-ranges", 18), (ascii "accept", 19),
    (ascii "access-control-allow-origin", 20), (ascii "age", 21), (ascii "allow", 22),
    (ascii "authorization", 23), (ascii "cache-control", 24),
    (ascii "content-disposition", 25), (ascii "content-encoding", 26),
    (ascii "content-language", 27), (ascii "content-length", 28),
    (ascii "content-location", 29), (ascii "content-range", 30), (ascii "content-type", 31),
    (ascii "cookie", 32), (ascii "date", 33), (ascii "etag", 34), (ascii "expect", 35),
    (ascii "expires", 36), (ascii "from", 37), (ascii "host", 38), (ascii "if-match", 39),
    (ascii "if-modified-since", 40), (ascii "if-none-match", 41), (ascii "if-range", 42),
    (ascii "if-unmodified-since", 43), (ascii "last-modified", 44), (ascii "link", 45),
    (ascii "location", 46), (ascii "max-forwards", 47), (ascii "proxy-authenticate", 48),
    (ascii "proxy-authorization", 49), (ascii "range", 50), (ascii "referer", 51),
    (ascii "refresh", 52), (ascii "retry-after", 53), (ascii "server", 54),
    (ascii "set-cookie", 55), (ascii "strict-transport-security", 56),
    (ascii "transfer-encoding", 57), (ascii "user-agent", 58), (ascii "vary", 59),
    (ascii "via", 60), (ascii "www-authenticate", 61)]

/-- The 1-based index of the first entry with this name. -/
def findName (name : Octets) : Option Nat :=
  (nameArms.find? fun arm => arm.1 == name).map (·.2)

/-! ## The lookups agree with the table -/

theorem table_length : table.length = 61 := by
  decide +kernel

variable {index : Nat}

theorem get_bounds {entry : Field} (found : get index = some entry) : 0 < index ∧ index ≤ 61 := by
  rw [get] at found
  split at found
  · cases found
  · have inside := (List.getElem?_eq_some_iff.mp found).1
    rw [table_length] at inside
    omega

theorem get_eq_none (large : 61 < index) : get index = none := by
  rw [get, if_neg (by omega), List.getElem?_eq_none]
  rw [table_length]
  omega

theorem nameValueArms_ok : ∀ arm ∈ nameValueArms, get arm.2 = some arm.1 := by
  decide +kernel

theorem nameArms_ok : ∀ arm ∈ nameArms, (get arm.2).map Prod.fst = some arm.1 := by
  decide +kernel

/-- An exact match indexes the very field it was asked for. -/
theorem findNameValue_sound {name value : Octets}
    (found : findNameValue name value = some index) : get index = some (name, value) := by
  rw [findNameValue, Option.map_eq_some_iff] at found
  obtain ⟨arm, matched, rfl⟩ := found
  have same : arm.1 = (name, value) := by simpa using List.find?_some matched
  rw [← same]
  exact nameValueArms_ok arm (List.mem_of_find?_eq_some matched)

theorem findName_sound {name : Octets} (found : findName name = some index) :
    ∃ value, get index = some (name, value) := by
  rw [findName, Option.map_eq_some_iff] at found
  obtain ⟨arm, matched, rfl⟩ := found
  have same : arm.1 = name := by simpa using List.find?_some matched
  have listed := nameArms_ok arm (List.mem_of_find?_eq_some matched)
  rw [same, Option.map_eq_some_iff] at listed
  obtain ⟨⟨_, value⟩, entry, rfl⟩ := listed
  exact ⟨value, entry⟩

end HttpJet.Hpack.StaticTable
