import IspSession.Library.Decimal
import IspSession.Model.Application
import IspSession.Model.ConnectionString
import IspSession.Model.SessionStore

/-!
# Hashed session ids (tools.cpp, Session.cpp)

A page can be shown a hash in place of a session's id: four bytes, each led through a table by the
bytes of the text from the last to the first, as an `unsigned long`. The properties that return it
hand it to `_itow`, which takes an `int`, with room for ten characters.
-/

set_option autoImplicit false

namespace IspSession.Model

open IspSession.Library

set_option maxRecDepth 2000 in
/-- `HashDataLookup` (tools.cpp:526-546). -/
def hashDataLookup : List UInt8 := [
  0x01, 0x0E, 0x6E, 0x19, 0x61, 0xAE, 0x84, 0x77, 0x8A, 0xAA, 0x7D, 0x76, 0x1B, 0xE9, 0x8C,
  0x33, 0x57, 0xC5, 0xB1, 0x6B, 0xEA, 0xA9, 0x38, 0x44, 0x1E, 0x07, 0xAD, 0x49, 0xBC, 0x28,
  0x24, 0x41, 0x31, 0xD5, 0x68, 0xBE, 0x39, 0xD3, 0x94, 0xDF, 0x30, 0x73, 0x0F, 0x02, 0x43,
  0xBA, 0xD2, 0x1C, 0x0C, 0xB5, 0x67, 0x46, 0x16, 0x3A, 0x4B, 0x4E, 0xB7, 0xA7, 0xEE, 0x9D,
  0x7C, 0x93, 0xAC, 0x90, 0xB0, 0xA1, 0x8D, 0x56, 0x3C, 0x42, 0x80, 0x53, 0x9C, 0xF1, 0x4F,
  0x2E, 0xA8, 0xC6, 0x29, 0xFE, 0xB2, 0x55, 0xFD, 0xED, 0xFA, 0x9A, 0x85, 0x58, 0x23, 0xCE,
  0x5F, 0x74, 0xFC, 0xC0, 0x36, 0xDD, 0x66, 0xDA, 0xFF, 0xF0, 0x52, 0x6A, 0x9E, 0xC9, 0x3D,
  0x03, 0x59, 0x09, 0x2A, 0x9B, 0x9F, 0x5D, 0xA6, 0x50, 0x32, 0x22, 0xAF, 0xC3, 0x64, 0x63,
  0x1A, 0x96, 0x10, 0x91, 0x04, 0x21, 0x08, 0xBD, 0x79, 0x40, 0x4D, 0x48, 0xD0, 0xF5, 0x82,
  0x7A, 0x8F, 0x37, 0x69, 0x86, 0x1D, 0xA4, 0xB9, 0xC2, 0xC1, 0xEF, 0x65, 0xF2, 0x05, 0xAB,
  0x7E, 0x0B, 0x4A, 0x3B, 0x89, 0xE4, 0x6C, 0xBF, 0xE8, 0x8B, 0x06, 0x18, 0x51, 0x14, 0x7F,
  0x11, 0x5B, 0x5C, 0xFB, 0x97, 0xE1, 0xCF, 0x15, 0x62, 0x71, 0x70, 0x54, 0xE2, 0x12, 0xD6,
  0xC7, 0xBB, 0x0D, 0x20, 0x5E, 0xDC, 0xE0, 0xD4, 0xF7, 0xCC, 0xC4, 0x2B, 0xF9, 0xEC, 0x2D,
  0xF4, 0x6F, 0xB6, 0x99, 0x88, 0x81, 0x5A, 0xD9, 0xCA, 0x13, 0xA5, 0xE7, 0x47, 0xE6, 0x8E,
  0x60, 0xE3, 0x3E, 0xB3, 0xF6, 0x72, 0xA2, 0x35, 0xA0, 0xD7, 0xCD, 0xB4, 0x2F, 0x6D, 0x2C,
  0x26, 0x1F, 0x95, 0x87, 0x00, 0xD8, 0x34, 0x3F, 0x17, 0x25, 0x45, 0x27, 0x75, 0x92, 0xB8,
  0xA3, 0xC8, 0xDE, 0xEB, 0xF8, 0xF3, 0xDB, 0x0A, 0x98, 0x83, 0x7B, 0xE5, 0xCB, 0x4C, 0x78,
  0xD1]

set_option maxRecDepth 2000 in
/-- The table has an entry for every byte. -/
theorem length_hashDataLookup : hashDataLookup.length = 256 := rfl

/-- The entry of the table under a byte. -/
def hashDataEntry (b : UInt8) : UInt8 :=
  hashDataLookup.get ⟨b.toNat, by rw [length_hashDataLookup]; exact b.toNat_lt⟩

/-- `HashData2` (tools.cpp:548-570) of two buffers that are there. The counter of the source bytes
is an `INT`; every byte of the destination is replaced by itself alone. -/
def hashData2 (lpSrc : Bytes) (nSrcLen : BitVec 32) (nDestLen : ℕ) : Bytes :=
  let srcCount := nSrcLen - 1
  let read := if srcCount.slt 0 then [] else lpSrc.take (srcCount.toNat + 1)
  read.foldr (fun src dest => dest.map fun d => hashDataEntry (src ^^^ d))
    ((List.range nDestLen).map UInt8.ofNat)

/-- `get_hashcode` (tools.cpp:586-599). -/
def getHashcode (s : Bstr) : BitVec 32 :=
  if s = [] then 0
  else
    let lpza := ws2s s
    BitVec.ofNat 32 (ofLeBytes (hashData2 lpza (BitVec.ofNat 32 lpza.length) 4))

/-- `_itow` with radix ten: the text with its zero has to fit into the buffer. -/
def itow (value : BitVec 32) (bufferLen : ℕ) : Run Bstr :=
  let text :=
    if value.slt 0 then 45 :: decimalText value.toInt.natAbs else decimalText value.toNat
  if text.length + 1 ≤ bufferLen then pure text else .error .fault

/-- The fields of an `NWCSession` that hold its ids. -/
structure SessionIds where
  guid : Guid
  strGUID : Bstr
  m_OldSessionId : Bstr
  bHashsessionID : Bool

namespace SessionIds

/-- `get_SessionID` (Session.cpp:518-537). -/
def getSessionID (r : SessionIds) : Run (Option Bstr) :=
  if r.guid = 0 then pure none
  else if r.bHashsessionID then do
    let buffer ← itow (getHashcode r.strGUID) 10
    pure (some buffer)
  else pure (some (lpcolestr r.strGUID))

/-- `get_OldSessionID` (Session.cpp:1495-1518). -/
def getOldSessionID (r : SessionIds) : Run (Option Bstr) :=
  if r.m_OldSessionId = [] then pure (some (Bstr.ofString "0"))
  else if r.bHashsessionID then do
    let buffer ← itow (getHashcode r.m_OldSessionId) 10
    pure (some buffer)
  else pure (some (lpcolestr r.m_OldSessionId))

end SessionIds

end IspSession.Model
