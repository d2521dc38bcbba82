import IspSession.Model.CStream
import Mathlib.Logic.Function.Basic

/-!
# Session records in Redis (CSessionDL.h)

The records of one application key, by session id. A record is the metadata and, behind
it, the stream of the dictionary; it has a time to live in seconds, which Redis counts
down. The time stamp in the metadata is written but never used and is left out. Redis
answers: a connection that fails is not modelled.
-/

set_option autoImplicit false

namespace IspSession.Model

/-- A session id: the sixteen bytes of a `GUID`. -/
abbrev Guid := BitVec 128

/-- `PersistMetaData` (CSessionDL.h:38-57). -/
structure PersistMetaData where
  m_Expires : BitVec 32
  m_ReEntrance : Bool
  m_Liquid : Bool
  m_zLen : ℕ
  deriving DecidableEq

/-- A record: the metadata, the bytes behind it, and the seconds it has to live. -/
structure SessionRecord where
  metaData : PersistMetaData
  payload : List UInt8
  ttl : ℤ
  deriving DecidableEq

/-- The records by session id. -/
abbrev SessionStore := Guid → Option SessionRecord

namespace SessionStore

/-! ## Commands -/

/-- `RENAME`: an error without effect when there is no record. -/
def rename (store : SessionStore) (key newKey : Guid) : SessionStore :=
  match store key with
  | none => store
  | some record => Function.update (Function.update store key none) newKey (some record)

/-- `EXPIRE`: a record whose time is up is deleted. -/
def expire (store : SessionStore) (key : Guid) (seconds : ℤ) : SessionStore :=
  match store key with
  | none => store
  | some record =>
    Function.update store key (if seconds ≤ 0 then none else some { record with ttl := seconds })

/-- `SET … EX`: an error without effect when the time is not positive. -/
def set (store : SessionStore) (key : Guid) (metaData : PersistMetaData) (payload : List UInt8)
    (seconds : ℤ) : HResult × SessionStore :=
  if seconds ≤ 0 then (.eFail, store)
  else (.sOk, Function.update store key (some { metaData, payload, ttl := seconds }))

/-- The minutes of a setting in seconds, a product of two `LONG`s. -/
def seconds (expiresPar : BitVec 32) : ℤ := (expiresPar * 60).toInt

/-! ## `CSessionDL` -/

/-- `SessionSave` (CSessionDL.h:429-526). Without a stream only the time to live is set. -/
def sessionSave (store : SessionStore) (guid : Guid) (expiresPar : BitVec 32)
    (reEntrancePar liquidPar : Bool) (guidNewPar : Option Guid) (pStream : Option CStream)
    (zLenPar : ℕ) : HResult × SessionStore :=
  let (key, store) :=
    match guidNewPar with
    | some newKey => (newKey, store.rename guid newKey)
    | none => (guid, store)
  match pStream with
  | none => (.sOk, store.expire key (seconds expiresPar))
  | some stream =>
    if stream.buf = [] then (.sOk, store)
    else
      store.set key
        { m_Expires := expiresPar
          m_ReEntrance := reEntrancePar
          m_Liquid := liquidPar
          m_zLen := zLenPar } stream.rest (seconds expiresPar)

/-- `SessionDelete` (CSessionDL.h:528-544). -/
def sessionDelete (store : SessionStore) (guid : Guid) : HResult × SessionStore :=
  (if (store guid).isSome then .sOk else .eFail, store.expire guid 0)

/-- `SessionInsert` (CSessionDL.h:545-580): the metadata alone. -/
def sessionInsert (store : SessionStore) (guid : Guid) (expires : BitVec 32)
    (reEntrance liquid : Bool) : HResult × SessionStore :=
  store.set guid
    { m_Expires := expires, m_ReEntrance := reEntrance, m_Liquid := liquid, m_zLen := 0 } []
    (seconds expires)

/-- What `CpSessionGet` has read. -/
structure Rowset where
  m_Expires : BitVec 32
  m_ReEntrance : Bool
  m_Liquid : Bool
  m_zLen : ℕ
  /-- The stream behind the metadata, unless there is none (`IsNULL`). -/
  m_pStream : Option CStream

/-- `OpenRowset` (CSessionDL.h:619-690): `S_FALSE` when there is no record. -/
def openRowset (store : SessionStore) (guid : Guid) : HResult × Rowset :=
  match store guid with
  | none =>
    (.sFalse,
      { m_Expires := 20, m_ReEntrance := false, m_Liquid := false, m_zLen := 0
        m_pStream := none })
  | some record =>
    (.sOk,
      { m_Expires := record.metaData.m_Expires
        m_ReEntrance := record.metaData.m_ReEntrance
        m_Liquid := record.metaData.m_Liquid
        m_zLen := record.metaData.m_zLen
        m_pStream := if record.payload = [] then none else some ⟨record.payload, 0⟩ })

end SessionStore

end IspSession.Model
