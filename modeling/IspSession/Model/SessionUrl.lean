import IspSession.Model.ComBstr
import IspSession.Model.NativeRecords

/-!
# The session id in a URL (Session.cpp:661-733)

`get_URL` writes the session id into a text that the page will send as a link. The text of the
argument is a `BSTR`; as a `LPCOLESTR` it ends at its first NUL.
-/

set_option autoImplicit false

namespace IspSession.Model

namespace NWCSession

open CComBSTR2

/-- The id is appended under its name, behind `&amp;` or `?`. -/
def appendGUID (found : Bool) (m_bstrToken strGUID workbuf : Bstr) : Bstr :=
  let strPar : Bstr := if found then [0x26, 0x61, 0x6D, 0x70, 0x3B] else [0x3F]
  let workbuf := (append strPar workbuf).2
  let workbuf := (append (zeroTerminated m_bstrToken) workbuf).2
  let workbuf := (append [0x3D] workbuf).2
  (append (zeroTerminated strGUID) workbuf).2

/-- A value that is too short for an id is removed with its name, up to the next `&`, and with the
character before the name. -/
def removeGUID (loc : Collation) (foundGUID : ℕ) (workbuf : Bstr) : Run (HResult × Bstr) :=
  match indexOf loc workbuf [0x26] foundGUID true with
  | none => remove (uint (foundGUID - 1)) (uint (workbuf.length - foundGUID + 1)) workbuf
  | some nextToken => remove (uint (foundGUID - 1)) (uint (nextToken - foundGUID + 1)) workbuf

/-- `get_URL` (Session.cpp:661-733) for a text. -/
def getURL (loc : Collation) (m_bstrToken strGUID strCheckA : Bstr) : Run Bstr :=
  let workbuf := zeroTerminated strCheckA
  let found := (indexOf loc workbuf [0x3F] 0 false).isSome
  let findthis := (append [0x3D] (zeroTerminated m_bstrToken)).2
  match indexOf loc workbuf findthis 0 false with
  | none => .ok (appendGUID found m_bstrToken strGUID workbuf)
  | some foundGUID =>
    if (BitVec.ofNat 32 (foundGUID + 5 + 32)).toInt ≤ (workbuf.length : ℤ) then
      match substring (foundGUID + 5) 32 workbuf with
      | none => .error .fault
      | some tempGuid =>
        if (setstring (List.replicate 16 0) (zeroTerminated tempGuid)).1 then
          .ok (mergeString (foundGUID + 5) strGUID workbuf)
        else .ok (appendGUID found m_bstrToken strGUID workbuf)
    else do
      let (_, workbuf) ← removeGUID loc foundGUID workbuf
      .ok (appendGUID found m_bstrToken strGUID workbuf)

end NWCSession

end IspSession.Model
