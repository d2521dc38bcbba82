import IspSession.Model.ManagedRecords

/-!
# Session records in Redis, as the COM component sends them (CSessionDL.h, tools.cpp)

`SessionStore` keeps the records of one application key by session id. Here are the texts and the
bytes under it: how the text of an id or of the application key becomes a `GUID` and a `GUID` part
of a Redis key, the 32 bytes of the metadata, and the commands of each function.
-/

set_option autoImplicit false

namespace IspSession.Model

open IspSession.Library

/-! ## Ids and keys -/

/-- The value of a digit in `setstring`. -/
def hexValue (btByte : UInt8) : Option UInt8 :=
  if 65 ≤ btByte ∧ btByte ≤ 70 then some (btByte - 55)
  else if 48 ≤ btByte ∧ btByte ≤ 57 then some (btByte ^^^ 48)
  else if 97 ≤ btByte ∧ btByte ≤ 102 then some (btByte - 87)
  else none

/-- The loop of `setstring`, from the last byte to the first. It looks at the lower byte of each
character only. -/
def setstringLoop (strCookiePtr : Bstr) : ℕ → Bytes → Bool × Bytes
  | 0, addrGUID => (true, addrGUID)
  | bx + 1, addrGUID =>
    match hexValue (strCookiePtr.getD (2 * bx) 0).toUInt8,
      hexValue (strCookiePtr.getD (2 * bx + 1) 0).toUInt8 with
    | some btByte, some btByte2 =>
      setstringLoop strCookiePtr bx (addrGUID.set bx (btByte * 16 ||| btByte2))
    | _, _ => (false, addrGUID)

/-- `setstring` (tools.cpp:422-470): whether the text is taken, and the bytes of the `GUID`. The
length is a `UINT`. -/
def setstring (addrGUID : Bytes) (strCookiePtr : Bstr) : Bool × Bytes :=
  if strCookiePtr.length % 2 ^ 32 = 32 then setstringLoop strCookiePtr 16 addrGUID
  else (false, addrGUID)

/-- `is_hex_notation` (tools.cpp:416-420). -/
def isHexNotation (s : Bstr) : Bool :=
  decide (s.length = 32) && s.all (Bstr.ofString "0123456789abcdefABCDEF").contains

/-- A digit of `sHexFromBt`, a `wchar_t`. -/
def wideHexDigit (n : UInt16) : UInt16 := if 9 < n then n + 55 else n ||| 48

/-- `sHexFromBt` (tools.cpp:386-413). -/
def sHexFromBt (psa : Bytes) : Bstr :=
  psa.flatMap fun btByte =>
    [wideHexDigit (btByte.toUInt16 / 16), wideHexDigit (btByte.toUInt16 &&& 15)]

/-- The sixteen bytes of a `GUID`. -/
def guidBytes (guid : Guid) : Bytes := leBytes 16 guid.toNat

/-- The `GUID` that `setstring` makes of a text that it takes. -/
def guidOfText (text : Bstr) : Option Guid :=
  let (valid, bytes) := setstring (List.replicate 16 0) text
  if valid then some (BitVec.ofNat 128 (ofLeBytes bytes)) else none

/-- The Redis key of a session. -/
def sessionKey (appKey guid : Guid) : Bytes :=
  hexStringFromMemory (guidBytes appKey) ++ [58] ++ hexStringFromMemory (guidBytes guid)

/-! ## The metadata -/

/-- A `DBTIMESTAMP`. -/
structure DBTimeStamp where
  bytes : Bytes
  length : bytes.length = 16

/-- `PersistMetaData` in memory (CSessionDL.h:38-57). -/
structure PersistMetaDataBytes where
  sizeofMeta : BitVec 32 := 32
  m_LastUpdated : DBTimeStamp
  m_Expires : BitVec 32
  m_ReEntrance : BitVec 16
  m_Liquid : BitVec 16
  m_zLen : BitVec 32

namespace PersistMetaDataBytes

/-- Its 32 bytes. -/
def toBytes (m : PersistMetaDataBytes) : Bytes :=
  leBytes 4 m.sizeofMeta.toNat ++ m.m_LastUpdated.bytes ++ leBytes 4 m.m_Expires.toNat ++
    leBytes 2 m.m_ReEntrance.toNat ++ leBytes 2 m.m_Liquid.toNat ++ leBytes 4 m.m_zLen.toNat

end PersistMetaDataBytes

/-- `VARIANT_TRUE` for `TRUE`. -/
def variantBoolOf (b : Bool) : BitVec 16 := if b then -1 else 0

/-! ## Commands -/

/-- The commands of `CSessionDL` and `CpSessionGet`. -/
inductive NativeCommand
  | get (key : Bytes)
  | rename (key newKey : Bytes)
  | expire (key : Bytes) (seconds : ℤ)
  | setEx (key bytes : Bytes) (seconds : ℤ)

namespace NativeCommand

/-- What a command does. -/
def run (database : Keyspace) : NativeCommand → Keyspace
  | .get _ => database
  | .rename key newKey => database.rename key newKey
  | .expire key seconds => database.execute (.pexpire key (seconds * 1000))
  | .setEx key bytes seconds => database.setExpiring key bytes (seconds * 1000)

/-- What several commands do. -/
def runAll (database : Keyspace) (commands : List NativeCommand) : Keyspace :=
  commands.foldl run database

/-- The keys of a command. -/
def keys : NativeCommand → List Bytes
  | .rename key newKey => [key, newKey]
  | .get key | .expire key _ | .setEx key _ _ => [key]

end NativeCommand

/-! ## `CSessionDL` -/

namespace SessionRedis

variable (appKey guid : Guid)

/-- `SessionSave` (CSessionDL.h:429-526). The bytes at `previousLastUpdated` are whatever lies
there: nobody reads them back. -/
def sessionSave (expiresPar : BitVec 32) (reEntrancePar liquidPar : Bool)
    (guidNewPar : Option Guid) (pStream : Option CStream) (zLenPar : BitVec 32)
    (previousLastUpdated : DBTimeStamp) : List NativeCommand :=
  let ansi := sessionKey appKey (guidNewPar.getD guid)
  (match guidNewPar with
    | some newKey => [.rename (sessionKey appKey guid) (sessionKey appKey newKey)]
    | none => []) ++
  match pStream with
  | none => [.expire ansi (SessionStore.seconds expiresPar)]
  | some stream =>
    if stream.buf = [] then []
    else
      let metaData : PersistMetaDataBytes :=
        { m_LastUpdated := previousLastUpdated
          m_Expires := expiresPar
          m_ReEntrance := variantBoolOf reEntrancePar
          m_Liquid := variantBoolOf liquidPar
          m_zLen := zLenPar }
      [.setEx ansi (metaData.toBytes ++ stream.rest) (SessionStore.seconds expiresPar)]

/-- `SessionDelete` (CSessionDL.h:528-544). -/
def sessionDelete : List NativeCommand := [.expire (sessionKey appKey guid) 0]

/-- `SessionInsert` (CSessionDL.h:545-580): the metadata alone. Its time stamp is not
initialised. -/
def sessionInsert (expires : BitVec 32) (reEntrance liquid : Bool) (lastUpdated : DBTimeStamp) :
    List NativeCommand :=
  let metaData : PersistMetaDataBytes :=
    { m_LastUpdated := lastUpdated
      m_Expires := expires
      m_ReEntrance := variantBoolOf reEntrance
      m_Liquid := variantBoolOf liquid
      m_zLen := 0 }
  [.setEx (sessionKey appKey guid) metaData.toBytes (SessionStore.seconds expires)]

/-- What `OpenRowset` asks. -/
def openCommands : List NativeCommand := [.get (sessionKey appKey guid)]

/-- What `CpSessionGet` has read. -/
structure NativeRowset where
  m_Expires : BitVec 32
  m_ReEntrance : BitVec 16
  m_Liquid : BitVec 16
  m_zLen : BitVec 32
  /-- The stream behind the metadata, unless there is none (`IsNULL`). -/
  m_pStream : Option CStream

/-- A `CpSessionGet` that has read nothing. -/
def NativeRowset.none : NativeRowset where
  m_Expires := 20
  m_ReEntrance := 0
  m_Liquid := 0
  m_zLen := 0
  m_pStream := Option.none

/-- What `OpenRowset` makes of the reply (CSessionDL.h:658-684). A record that is shorter than
the metadata is read past its end, and one with a negative size in front of its start. -/
def openRecord (str : Bytes) : Run NativeRowset :=
  if str.length < 32 then .error .fault
  else
    let sizeofMeta : BitVec 32 := BitVec.ofNat 32 (CSessionDL.fieldAt str 0 4)
    let IsNULL := decide ((str.length : ℤ) = sizeofMeta.toInt)
    if sizeofMeta.toInt < 0 ∧ ¬ IsNULL then .error .fault
    else
      .ok {
        m_Expires := BitVec.ofNat 32 (CSessionDL.fieldAt str 20 4)
        m_ReEntrance := BitVec.ofNat 16 (CSessionDL.fieldAt str 24 2)
        m_Liquid := BitVec.ofNat 16 (CSessionDL.fieldAt str 26 2)
        m_zLen := BitVec.ofNat 32 (CSessionDL.fieldAt str 28 4)
        m_pStream := if IsNULL then Option.none else some ⟨str.drop sizeofMeta.toNat, 0⟩ }

/-- `OpenRowset` (CSessionDL.h:619-690). -/
def openRowset (database : Keyspace) : Run (HResult × NativeRowset) :=
  match database (sessionKey appKey guid) with
  | none => .ok (.sFalse, .none)
  | some { value := .set _ _, ttl := _ } => .ok (.eFail, .none)
  | some { value := .string str, ttl := _ } => (openRecord str).map fun rowset => (.sOk, rowset)

end SessionRedis

end IspSession.Model
