import IspSession.Library.Decimal
import IspSession.Library.OrderedMap
import IspSession.Model.ComBstr
import IspSession.Model.NativeRecords

/-!
# The session cookie (ReadSessionCookie.cpp, WriteSessionCookie.cpp, CComBSTR2.h, Session.cpp)

`ReadSessionCookie` splits the lines of the `Cookie` header into cookies, each cookie into a name
and a value, and a value with `&` into pairs. `WriteSessionCookie` joins the attributes of the
cookie for `Set-Cookie`.
-/

set_option autoImplicit false

namespace IspSession.Model

open IspSession.Library

/-! ## Splitting and joining -/

namespace CComBSTR2

variable (loc : Collation)

/-- The first loop of `Split`: how often the expression is found. -/
def splitCount (m_str expression : Bstr) (caseInsensitive : Bool) : ℕ → ℕ → ℕ → Run ℕ
  | 0, _, _ => .error .fuel
  | fuel + 1, x, found =>
    match indexOf loc m_str expression x caseInsensitive with
    | none => .ok found
    | some x =>
      splitCount m_str expression caseInsensitive fuel (x + expression.length) (found + 1)

/-- The second loop of `Split`: the elements from `prevPos` on. A null pointer ends the process, as
the exception leaves a `noexcept` function. -/
def splitElements (m_str expression : Bstr) (caseInsensitive : Bool) : ℕ → ℕ → Run (List Bstr)
  | 0, _ => .ok []
  | curEl + 1, prevPos =>
    let x := indexOf loc m_str expression prevPos caseInsensitive
    let element :=
      match x with
      | none => substring prevPos (m_str.length - prevPos) m_str
      | some x => substring prevPos (x - prevPos) m_str
    let next :=
      match x with
      | none => expression.length - 1
      | some x => x + expression.length
    match element with
    | none => .error .fault
    | some element => do
      let elements ← splitElements m_str expression caseInsensitive curEl next
      .ok (element :: elements)

/-- `Split` (CComBSTR2.h:510-560), of a text that is no null pointer. -/
def split (m_str expression : Bstr) (caseInsensitive : Bool) : Run (List Bstr) :=
  if m_str = [] then .ok []
  else do
    let found ← splitCount loc m_str expression caseInsensitive (m_str.length + 1) 0 0
    splitElements loc m_str expression caseInsensitive (found + 1) 0

/-- `Format` (CComBSTR2.h:231-255) of a text that is no longer than a `BSTR` can be. -/
def format (text m_str : Bstr) : Bstr := if text.length < 2 ^ 31 then text else m_str

/-- `Insert` (CComBSTR2.h:258-279) in front of a text that is not empty. -/
def insertFront (value m_str : Bstr) : Bstr :=
  if value.length + m_str.length < 2 ^ 31 then value ++ m_str else m_str

/-- The first loop of `Join`, which goes from the last element to the first: the bytes of the elements
and of the delimiters between them. A null pointer is an element without text. -/
def joinLength (paBSTR : List (Option Bstr)) (delLen : ℕ) : ℕ → ℕ → ℕ
  | 0, totalLen => totalLen
  | els + 1, totalLen =>
    let totalLen : ℕ :=
      match paBSTR[els]? with
      | some (some s) => uint (totalLen + 2 * s.length)
      | _ => totalLen
    joinLength paBSTR delLen els (if els ≠ 0 then uint (totalLen + delLen) else totalLen)

/-- The second loop of `Join`: the elements are copied to the place `totalLen`, here in characters. -/
def joinCopy (delimiter : Bstr) : List (Option Bstr) → ℕ → Bstr → Run Bstr
  | [], _, retval => .ok retval
  | element :: rest, totalLen, retval => do
    let s := element.getD []
    let retval ← wmemcpyS totalLen s.length s retval
    let totalLen := totalLen + s.length
    if delimiter ≠ [] ∧ rest ≠ [] then do
      let retval ← wmemcpyS totalLen delimiter.length delimiter retval
      joinCopy delimiter rest (totalLen + delimiter.length) retval
    else joinCopy delimiter rest totalLen retval

/-- `Join` (CComBSTR2.h:582-645) of an array of strings with one dimension. New memory holds
anything. -/
def joinArray (memory : ℕ → UInt16) (paBSTR : List (Option Bstr)) (delimiter : Bstr) : Run Bstr :=
  let totalLen := joinLength paBSTR (2 * delimiter.length) paBSTR.length 0
  joinCopy delimiter paBSTR 0 ((List.range (totalLen / 2)).map memory)

/-- What `Join` gives. When the number of the bytes has no 32 bits the elements are written behind
the end of the text. -/
def join (elements : List Bstr) (delimiter : Bstr) : Run Bstr :=
  let text := delimiter.intercalate elements
  if text.length < 2 ^ 31 then .ok text else .error .fault

end CComBSTR2

open CComBSTR2

/-! ## Reading -/

/-- What `get_Item` tells apart in its `VARIANT`. -/
inductive CookieItem where
  | missing
  | i4 (intVal : ℤ)
  | bstr (bstrVal : Bstr)
  | other

/-- `ReadSessionCookie`. -/
structure ReadSessionCookie (loc : Collation) where
  dictionary : OrderedMap loc.compare Bstr
  m_CookieValue : Bstr

namespace ReadSessionCookie

variable {loc : Collation}

/-- The constructor. -/
def new : ReadSessionCookie loc := ⟨OrderedMap.empty, []⟩

/-- The loop over the parts of a value with `&` (ReadSessionCookie.cpp:55-64). -/
def readPairs : List Bstr → OrderedMap loc.compare Bstr → Run (OrderedMap loc.compare Bstr)
  | [], dictionary => .ok dictionary
  | line :: lines, dictionary => do
    let keyvaluePair2 ← CComBSTR2.split loc line [0x3D] true
    match keyvaluePair2 with
    | [key, value] => readPairs lines (dictionary.insert key value)
    | _ => readPairs lines dictionary

/-- The value of the cookie is found (ReadSessionCookie.cpp:49-66). -/
def readValue (value : Bstr) (cookie : ReadSessionCookie loc) : Run (ReadSessionCookie loc) :=
  match indexOf loc value [0x26] 0 true with
  | some (_ + 1) => do
    let lines ← CComBSTR2.split loc value [0x26] true
    let dictionary ← readPairs lines cookie.dictionary
    .ok ⟨dictionary, value⟩
  | _ => .ok { cookie with m_CookieValue := value }

/-- The loop over the cookies of one header line (ReadSessionCookie.cpp:40-69), none when the token
is not among them. -/
def readCookies (token : Bstr) :
    List Bstr → ReadSessionCookie loc → Run (Option (ReadSessionCookie loc))
  | [], _ => .ok none
  | line :: lines, cookie => do
    let keyvaluePair ← CComBSTR2.split loc line [0x3D] true
    match keyvaluePair with
    | [key, value] =>
      if zeroTerminated key = token then do
        let cookie ← readValue value cookie
        .ok (some cookie)
      else readCookies token lines cookie
    | _ => readCookies token lines cookie

/-- The loop over the header lines (ReadSessionCookie.cpp:28-70). -/
def readHeaders (token : Bstr) :
    List Bstr → ReadSessionCookie loc → Run (Option (ReadSessionCookie loc))
  | [], _ => .ok none
  | item :: items, cookie => do
    let cookies ← CComBSTR2.split loc item [0x3B, 0x20] true
    let found ← readCookies token cookies cookie
    match found with
    | some cookie => .ok (some cookie)
    | none => readHeaders token items cookie

/-- `Initialize` (ReadSessionCookie.cpp:4-74) of a request whose `HTTP_COOKIE` has these lines, none
if it cannot be had. -/
def initializeFrom (httpCookie : Option (List Bstr)) (token : Bstr) :
    Run (HResult × ReadSessionCookie loc) :=
  if token = [] then .ok (.eInvalidArg, new)
  else
    match httpCookie with
    | none => .ok (.sFalse, new)
    | some items => do
      let found ← readHeaders token items new
      match found with
      | some cookie => .ok (.sOk, cookie)
      | none => .ok (.sFalse, new)

/-- `get_Item` (ReadSessionCookie.cpp:76-106), none when the result is left as it was. -/
def getItem (item : CookieItem) (cookie : ReadSessionCookie loc) : HResult × Option Bstr :=
  match item with
  | .missing => (.sOk, some cookie.m_CookieValue)
  | .i4 intVal =>
    match if 1 ≤ intVal then cookie.dictionary.entries[(intVal - 1).toNat]? else none with
    | some entry => (.sOk, some entry.1)
    | none => (.sFalse, none)
  | .bstr bstrVal =>
    match cookie.dictionary.find bstrVal with
    | some value => (.sOk, some value)
    | none => (.sFalse, none)
  | .other => (.sFalse, none)

/-- `get_HasKeys` (ReadSessionCookie.cpp:108-113). -/
def getHasKeys (cookie : ReadSessionCookie loc) : Bool := 0 < cookie.dictionary.size

/-- `get_Count` (ReadSessionCookie.cpp:115-119). -/
def getCount (cookie : ReadSessionCookie loc) : ℤ :=
  (BitVec.ofNat 32 cookie.dictionary.size).toInt

end ReadSessionCookie

namespace NWCSession

/-- `ReadCookieFromQueryString` (Session.cpp:1519-1556) with the first value under the token in the
query string, if any: `blnFoundURLGuid` and `strGUID`. -/
def readCookieFromQueryString (vitem : Option Bstr) (blnFoundURLGuid : Bool) (strGUID : Bstr) :
    Bool × Bstr :=
  match vitem with
  | some bstrVal =>
    if isHexNotation (zeroTerminated bstrVal) then (true, zeroTerminated bstrVal)
    else (blnFoundURLGuid, strGUID)
  | none => (blnFoundURLGuid, strGUID)

/-- The text that `Initialize` asks the cookie for (Session.cpp:418-436). -/
def askCookie {loc : Collation} (pReadCookie : ReadSessionCookie loc) : Option Bstr :=
  if pReadCookie.getHasKeys then (pReadCookie.getItem (.i4 1)).2
  else (pReadCookie.getItem .missing).2

/-- The part of `Initialize` that finds the session id (Session.cpp:393-452): `blnFoundURLGuid` and
`strGUID`. -/
def initializeGuid (loc : Collation) (blnSnifQueryStringFirst : Bool) (vitem : Option Bstr)
    (httpCookie : Option (List Bstr)) (m_bstrToken : Bstr) (blnFoundURLGuid : Bool)
    (strGUID : Bstr) : Run (Bool × Bstr) := do
  let sniffed :=
    if blnSnifQueryStringFirst then readCookieFromQueryString vitem blnFoundURLGuid strGUID
    else (blnFoundURLGuid, strGUID)
  if sniffed.1 then .ok sniffed
  else do
    let read : HResult × ReadSessionCookie loc ←
      ReadSessionCookie.initializeFrom httpCookie m_bstrToken
    let ret := (askCookie read.2).getD []
    let strGUID := if 0 < ret.length then zeroTerminated ret else sniffed.2
    if isHexNotation strGUID then .ok (false, strGUID)
    else .ok (readCookieFromQueryString vitem false strGUID)

end NWCSession

/-! ## Writing -/

/-- `WriteSessionCookie`. -/
structure WriteSessionCookie where
  m_CookieKey : Bstr
  m_CookieValue : Bstr
  m_Expires : BitVec 32
  m_secure : Bool
  /-- `Strict`, `Lax` and `None` are 1, 2 and 3. -/
  m_sameSitePolicy : ℕ
  m_Domain : Bstr
  m_Path : Bstr

namespace WriteSessionCookie

/-- `%d`. -/
def intText (n : ℤ) : Bstr :=
  if n < 0 then 0x2D :: decimalText n.natAbs else decimalText n.natAbs

/-- One attribute: the text in `buf` and the array with it. -/
def addAttribute (present : Bool) (text : Bstr) (bufItems : Bstr × List Bstr) :
    Bstr × List Bstr :=
  if present then
    let buf := format text bufItems.1
    (buf, bufItems.2 ++ [buf])
  else bufItems

/-- The text of the policy, or what is in `buf`. -/
def sameSite (m_sameSitePolicy : ℕ) (buf : Bstr) : Bstr :=
  if m_sameSitePolicy = 3 then Bstr.ofString "None"
  else if m_sameSitePolicy = 1 then Bstr.ofString "Strict"
  else if m_sameSitePolicy = 2 then Bstr.ofString "Lax"
  else buf

/-- The attributes that `Flush` joins (WriteSessionCookie.cpp:47-113). -/
def attributes (cookie : WriteSessionCookie) : List Bstr :=
  let buf := format (zeroTerminated cookie.m_CookieKey ++ [0x3D] ++
    zeroTerminated cookie.m_CookieValue) []
  let bufItems := (buf, [buf])
  let bufItems := addAttribute (cookie.m_Path ≠ [])
    (Bstr.ofString "Path=" ++ zeroTerminated cookie.m_Path) bufItems
  let bufItems := addAttribute (cookie.m_Domain ≠ [])
    (Bstr.ofString "Domain=" ++ zeroTerminated cookie.m_Domain) bufItems
  let bufItems := addAttribute (0 < cookie.m_Expires.toInt)
    (Bstr.ofString "Max-Age=" ++ intText (cookie.m_Expires * 60).toInt) bufItems
  let bufItems := addAttribute (cookie.m_Expires.toInt < 0) (Bstr.ofString "Max-Age=0") bufItems
  let bufItems := addAttribute cookie.m_secure (Bstr.ofString "Secure") bufItems
  bufItems.2 ++
    [insertFront (Bstr.ofString "SameSite=") (sameSite cookie.m_sameSitePolicy bufItems.1)]

/-- `Flush` (WriteSessionCookie.cpp:47-119): the value of the header `Set-Cookie`. -/
def flush (cookie : WriteSessionCookie) : Run Bstr :=
  join cookie.attributes [0x3B, 0x20]

end WriteSessionCookie

end IspSession.Model
