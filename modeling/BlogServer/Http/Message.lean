/-
HTTP messages as the handlers see them (`include/request.h`, `include/response.h`, `include/header.h`), and the
character classes both parsers use (`request_parser::is_char` .. `response_parser::is_hex`; the two classes hold
identical copies). A C++ `char` from 128 on is negative as an `int`, so it is neither a char nor a control byte.
-/
import BlogServer.Core.Decimal
import BlogServer.Core.SortedMap

namespace BlogServer.Http

open BlogServer.Byte

/-! ## Character classes -/

/-- `is_char` -/
def isChar (c : UInt8) : Bool := c ≤ 127

/-- `is_ctl` -/
def isCtl (c : UInt8) : Bool := c ≤ 31 || c == 127

/-- `is_tspecial` -/
def isTspecial (c : UInt8) : Bool := List.contains (ascii "()<>@,;:\\\"/[]?=\x7b\x7d \t") c

/-- `is_hex` -/
def isHex (c : UInt8) : Bool := isDigit c || (65 ≤ c && c ≤ 70) || (97 ≤ c && c ≤ 102)

/-- the bytes of a method or of a header name -/
def isToken (c : UInt8) : Bool := isChar c && !isCtl c && !isTspecial c

theorem not_isToken (c : UInt8) : (!isChar c || isCtl c || isTspecial c) = !isToken c := by
  simp [isToken, Bool.or_assoc]

theorem isToken_ne {c d : UInt8} (hc : isToken c = true) (hd : isToken d = false) : c ≠ d := by
  rintro rfl; simp [hc] at hd

theorem isCtl_ne {c d : UInt8} (hc : isCtl c = false) (hd : isCtl d = true) : c ≠ d := by
  rintro rfl; simp [hc] at hd

theorem not_isCtl_of_isDigit {c : UInt8} (hc : isDigit c = true) : isCtl c = false := by
  rw [Decimal.isDigit_iff] at hc
  simp only [isCtl, Bool.or_eq_false_iff, decide_eq_false_iff_not, beq_eq_false_iff_ne, UInt8.le_iff_toNat_le, ne_eq,
    ← UInt8.toNat_inj]
  simp; omega

theorem isDigit_ne {c d : UInt8} (hc : isDigit c = true) (hd : isDigit d = false) : c ≠ d := by
  rintro rfl; simp [hc] at hd

/-! ## Messages -/

abbrev CRLF : Bytes := [CR, LF]

/-- `struct header` -/
@[ext] structure Header where
  name : Bytes
  value : Bytes
deriving DecidableEq, Repr

/-- `std::map<std::string, std::string>` -/
abbrev HeaderMap := SortedMap Bytes Bytes

/-- `req.headers_[h.name] = h.value` for each header, in order of arrival -/
def headerMap (hs : List Header) : HeaderMap := .ofAssignments (hs.map fun h => (h.name, h.value))

/-- the entries of a header map as headers, in its order -/
def HeaderMap.headers (m : HeaderMap) : List Header := m.entries.map fun e => ⟨e.1, e.2⟩

theorem headerMap_headers (m : HeaderMap) : headerMap m.headers = m := by
  rw [headerMap, HeaderMap.headers, List.map_map]
  exact (congrArg SortedMap.ofAssignments (List.map_id' _)).trans (SortedMap.ofAssignments_entries m)

/-- a header on the wire: name, separator, value, line end -/
def Header.line (h : Header) : Bytes := h.name ++ ascii ": " ++ h.value ++ CRLF

/-- a header that both parsers read as it is written -/
structure Header.Sendable (h : Header) : Prop where
  name_ne : h.name ≠ []
  name_token : ∀ c ∈ h.name, isToken c = true
  value_ok : ∀ c ∈ h.value, isCtl c = false

/-- `Request::MethodEnum` -/
inductive MethodEnum where
  | GET
  | HEAD
  | POST
  | PUT
  | DELETE
  | CONNECT
  | OPTIONS
  | TRACE
deriving DecidableEq, Repr

/-- `class Request` -/
structure Request where
  method : MethodEnum
  uri : Bytes
  version : Bytes
  headers : HeaderMap
  body : Bytes
deriving DecidableEq

/-- `class Response`; the status code is the value of the enumerator -/
structure Response where
  code : ℤ
  headers : HeaderMap
  body : Bytes
deriving DecidableEq

/-- the name of a method on the wire -/
def MethodEnum.name : MethodEnum → Bytes
  | .GET => ascii "GET"
  | .HEAD => ascii "HEAD"
  | .POST => ascii "POST"
  | .PUT => ascii "PUT"
  | .DELETE => ascii "DELETE"
  | .CONNECT => ascii "CONNECT"
  | .OPTIONS => ascii "OPTIONS"
  | .TRACE => ascii "TRACE"

theorem MethodEnum.name_token (m : MethodEnum) : m.name ≠ [] ∧ ∀ c ∈ m.name, isToken c = true := by
  cases m <;> decide +kernel

/-- `strcasecmp(name, "Content-Length") == 0` -/
def isContentLength (name : Bytes) : Bool := Bytes.strcasecmp name (ascii "Content-Length")

end BlogServer.Http
