import IspSession.Model.ComBstr

/-!
# The session id in the query string (`EnsureURLCookie`, Session.cpp)

A page without the current id in its query string sends the browser to its own address with the
id in front of the other parameters. `QueryServer` is what the web server does with query strings
and what the component relies on: names and values are decoded, names are looked up in any letter
case, the values of one name are a list in their order, and each name is enumerated once, as it is
written first.
-/

set_option autoImplicit false

namespace IspSession.Model

/-- The size of a text for decoding: each escape that is decoded makes it smaller. -/
def queryWeight (s : Bstr) : ℕ := 2 * s.length + s.count 0x2B

/-- The characters that end a name or a value in an address, or the address itself. -/
def isDelimiter (c : UInt16) : Bool := c == 0x26 || c == 0x3D || c == 0x23 || c == 0

/-- `Request.QueryString` and `Server.URLEncode`. -/
structure QueryServer where
  decode : Bstr → Bstr
  urlEncode : Bstr → Bstr
  /-- A name in any letter case. -/
  fold : Bstr → Bstr
  /-- The parameter that a part without `=` is, if any. -/
  bare : Bstr → Option (Bstr × Bstr)
  /-- Only the escapes are decoded. -/
  decode_plain : ∀ s, 0x2B ∉ s → 0x25 ∉ s → decode s = s
  decode_weight : ∀ s, decode s = s ∨ queryWeight (decode s) < queryWeight s
  bare_weight : ∀ s param, bare s = some param → queryWeight param.1 ≤ queryWeight s
  decode_urlEncode : ∀ value, decode (urlEncode value) = value
  urlEncode_plain : ∀ value, ∀ c ∈ urlEncode value, isDelimiter c = false
  /-- Letter case is about letters, and escapes are read in any case. -/
  fold_weight : ∀ a b, fold a = fold b → queryWeight a = queryWeight b
  fold_delimiter : ∀ a b, fold a = fold b → ∀ c ∈ b, isDelimiter c = true → c ∈ a
  fold_decode : ∀ a b, fold a = fold b → decode a = a → decode b = b

namespace QueryServer

variable (w : QueryServer)

/-- The name and the value in a part of the query string. -/
def param (part : Bstr) : Option (Bstr × Bstr) :=
  if 0x3D ∈ part then
    some (w.decode (part.takeWhile (· != 0x3D)), w.decode (part.dropWhile (· != 0x3D)).tail)
  else w.bare part

/-- The parameters of a query string. -/
def params (query : Bstr) : List (Bstr × Bstr) := (query.splitOn 0x26).filterMap w.param

/-- `get_Item`: the values under a name. -/
def values (params : List (Bstr × Bstr)) (name : Bstr) : List Bstr :=
  (params.filter fun param => w.fold param.1 == w.fold name).map Prod.snd

/-- `get__NewEnum`: the names. -/
def keys : List (Bstr × Bstr) → List Bstr
  | [] => []
  | param :: params => param.1 :: (keys params).filter fun key => w.fold key != w.fold param.1

end QueryServer

/-- The query string of a request for an address, which ends at a NUL and before a fragment. -/
def queryOf (location : Bstr) : Bstr :=
  ((location.takeWhile fun c => c != 0 && c != 0x23).dropWhile (· != 0x3F)).tail

namespace NWCSession

open CComBSTR2 (zeroTerminated)

variable (w : QueryServer) (m_bstrToken strGUID : Bstr)

/-- `strGUID.compare(varReturn.bstrVal)`, where there is one value. -/
def isCurrent : List Bstr → Bool
  | [value] => zeroTerminated value == strGUID
  | _ => false

/-- The parameters that are appended for one name. -/
def appendValues (params : List (Bstr × Bstr)) (key : Bstr) : Bstr :=
  (w.values params key).flatMap fun value => 0x26 :: key ++ 0x3D :: w.urlEncode value

/-- The address that the browser is sent to. -/
def urlWithCookie (url : Bstr) (params : List (Bstr × Bstr)) : Bstr :=
  url ++ 0x3F :: zeroTerminated m_bstrToken ++ 0x3D :: zeroTerminated strGUID ++
    ((w.keys params).filter fun key => m_bstrToken != zeroTerminated key).flatMap
      (appendValues w params)

/-- `EnsureURLCookie` (Session.cpp:1383-1493): where the browser is sent, if it is. -/
def ensureURLCookie (url query : Bstr) : Option Bstr :=
  let params := w.params query
  if isCurrent strGUID (w.values params (zeroTerminated m_bstrToken)) then none
  else some (urlWithCookie w m_bstrToken strGUID url params)

end NWCSession

end IspSession.Model
