import IspSession.Model.PersistUtil
import IspSession.Model.ApplicationStore
import IspSession.Model.SessionStore

/-!
# Session records in Redis, managed (Data.cs, CSessionDL.cs)

A record is a string under the application key, a colon and the session id: the metadata in 32
bytes and, behind them, the payload, which may be compressed. `ManagedHost` is what lies under
the managed session code and outside of it.
-/

set_option autoImplicit false

namespace IspSession.Model

open IspSession.Library

/-- `DeflateStream`. -/
structure Deflate where
  /-- What it has passed on while it is not closed yet. -/
  written : Bytes → Bytes
  /-- What it has passed on once it is closed. -/
  compress : Bytes → Bytes
  /-- What it reads, none for an `InvalidDataException`. -/
  decompress : Bytes → Option Bytes
  decompress_compress : ∀ bytes, decompress (compress bytes) = some bytes

/-- The runtime, the random numbers for new ids, and the web server under the session code. -/
structure ManagedHost where
  strings : NetStrings
  runtime : NetRuntime
  loaders : NetLoaders
  deflate : Deflate
  /-- The numbers that `RandomNumberGenerator` gives, one after the other. -/
  random : ℕ → Guid
  /-- `Response.OnStarting` throws when the response has started. -/
  lateCallbackThrows : Bool

/-- `SessionAppSettings` (SessionAppSettings.cs:34-98), of the core and of ASP.NET. The name of
the cookie is not kept: a request is given by the texts it carries under that name. -/
structure SessionAppSettings where
  AppKey : Bstr
  SnifQueryStringFirst : Bool
  SessionTimeout : Option (BitVec 32)
  Liquid : Option Bool
  ReEntrance : Option Bool
  Compress : Bool

/-! ## Commands on session records -/

namespace Keyspace

/-- `RENAME`: an error without effect when there is no such key. -/
def rename (s : Keyspace) (key newKey : Bytes) : Keyspace :=
  match s key with
  | none => s
  | some entry => Function.update (Function.update s key none) newKey (some entry)

/-- `SET … PX`: an error without effect when the time is not positive. -/
def setExpiring (s : Keyspace) (key bytes : Bytes) (ms : ℤ) : Keyspace :=
  if ms ≤ 0 then s
  else Function.update s key (some { value := .string bytes, ttl := some ms })

end Keyspace

/-! ## Session ids -/

namespace ISPSessionIDManager

/-- `GuidToHex` (ISPSessionIDManager.cs:181-190). -/
def guidToHex (bytes : Guid) : Bstr :=
  (hexStringFromMemory (leBytes 16 bytes.toNat)).map UInt8.toUInt16

/-- The test of one character: bit 5 is set in it first. -/
def validDigit (ch : UInt16) : Bool :=
  let ch := ch ||| 32
  (decide (97 ≤ ch) && decide (ch ≤ 102)) || (decide (48 ≤ ch) && decide (ch ≤ 57))

/-- `Validate` (ISPSessionIDManager.cs:191-207), `Validate2` in ASP.NET. -/
def validate (id : Bstr) : Bool := decide (id.length = 32) && id.all validDigit

end ISPSessionIDManager

namespace StreamManager

/-- `FromCharacterToByte` (StreamManager.cs:1238-1258). The cast to `byte` keeps the lower half of
the character; the index is only named in the message of the exception. -/
def fromCharacterToByte (character : UInt16) (shift : UInt8) : NetRun UInt8 :=
  let value := character.toUInt8
  if (0x40 < value ∧ value < 0x47) ∨ (0x60 < value ∧ value < 0x67) then
    if 0x40 &&& value = 0x40 then
      if 0x20 &&& value = 0x20 then .ok ((value + 0xA - 0x61) <<< shift)
      else .ok ((value + 0xA - 0x41) <<< shift)
    else .ok value
  else if 0x29 < value ∧ value < 0x40 then .ok ((value - 0x30) <<< shift)
  else .error .invalidOperation

/-- The loop of `HexToBytes`, two characters at a time. -/
def hexToBytesLoop : Bstr → NetRun Bytes
  | [] => .ok []
  | [_] => .error .indexOutOfRange
  | high :: low :: h => do
    let upper ← fromCharacterToByte high 4
    let lower ← fromCharacterToByte low 0
    let bytes ← hexToBytesLoop h
    .ok ((upper ||| lower) :: bytes)

/-- `HexToBytes` (StreamManager.cs:1210-1236). -/
def hexToBytes (h : Bstr) : NetRun Bytes :=
  if h = [] then .error .argumentNull
  else if h.length ≠ 32 then .error .argument
  else hexToBytesLoop h

end StreamManager

namespace CSessionDL

/-- `GetKey` (CSessionDL.cs:148-151). -/
def getKey (settings : SessionAppSettings) (SessionId : Bstr) : Bytes :=
  utf16ToUtf8 (settings.AppKey ++ Bstr.ofString ":" ++ SessionId)

/-! ## The metadata -/

/-- `PersistMetaData` (Data.cs:43-66). The time stamp is left out: it is written as zeros and
read by nobody. -/
structure PersistMetaData where
  SizeofMeta : BitVec 32 := 32
  Expires : BitVec 32
  ReEntrance : BitVec 16
  Liquid : BitVec 16
  ZLen : BitVec 32
  deriving DecidableEq

/-- `ToByteArray` (CSessionDL.cs:277-298). -/
def toByteArray (m : PersistMetaData) : Bytes :=
  leBytes 4 m.SizeofMeta.toNat ++ List.replicate 16 0 ++ leBytes 4 m.Expires.toNat ++
    leBytes 2 m.ReEntrance.toNat ++ leBytes 2 m.Liquid.toNat ++ leBytes 4 m.ZLen.toNat

/-- INTERNAL: the field of a number of bytes at a place. -/
def fieldAt (arr : Bytes) (pos n : ℕ) : ℕ := ofLeBytes ((arr.drop pos).take n)

/-- `FromByteArray` (CSessionDL.cs:305-334). -/
def fromByteArray (arr : Bytes) : NetRun PersistMetaData :=
  if arr.length < 32 then .error .argumentOutOfRange
  else
    .ok {
      SizeofMeta := BitVec.ofNat 32 (fieldAt arr 0 4)
      Expires := BitVec.ofNat 32 (fieldAt arr 20 4)
      ReEntrance := BitVec.ofNat 16 (fieldAt arr 24 2)
      Liquid := BitVec.ofNat 16 (fieldAt arr 26 2)
      ZLen := BitVec.ofNat 32 (fieldAt arr 28 4) }

/-- A Boolean of the settings in the metadata. -/
def variantBool (b : Bool) : BitVec 16 := if b then -1 else 0

/-! ## The payload -/

/-- The stream that `SessionGet` loads the items from (CSessionDL.cs:170-188): what cannot be
decompressed is taken as it is. -/
def payloadStream (deflate : Deflate) (settings : SessionAppSettings) (m : PersistMetaData)
    (blob : Bytes) : NetRun Bytes :=
  -- the capacity of the memory stream, and its bounds in the blob
  if settings.Compress ∧ m.ZLen.toInt < 0 then .error .argumentOutOfRange
  else if m.SizeofMeta.toInt < 0 ∨ (blob.length : ℤ) < m.SizeofMeta.toInt then
    .error .argumentOutOfRange
  else
    let bytes := blob.drop m.SizeofMeta.toNat
    if settings.Compress then .ok ((deflate.decompress bytes).getD bytes)
    else .ok bytes

/-- What `LocalContents` makes of the stream of the items (PersistUtil.cs:51-63): the
compressing stream is not closed. -/
def packed (deflate : Deflate) (settings : SessionAppSettings) (bytes : Bytes) : Bytes :=
  if settings.Compress then deflate.written bytes else bytes

/-- The minutes of a setting in milliseconds. -/
def milliseconds (minutes : BitVec 32) : ℤ := minutes.toInt * 60000

end CSessionDL

end IspSession.Model
