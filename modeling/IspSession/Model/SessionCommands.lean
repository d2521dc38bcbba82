import IspSession.Model.NativeRecords
import IspSession.Model.VisitorClock

/-!
# The session functions on a Redis database (CSessionDL.h)

`SessionStore` answers the session functions from records. Here they are on the database itself:
each sends its commands and makes its result of the replies. Between two calls time may pass, and
the other clients of the database do whatever they do with keys that are not those of the sessions.
-/

set_option autoImplicit false

namespace IspSession.Model

open IspSession.Library

namespace Keyspace

/-- What some seconds leave of a key. -/
def aged (seconds : ℕ) (entry : RedisEntry) : Option RedisEntry :=
  match entry.ttl with
  | none => some entry
  | some ttl => if ttl ≤ seconds * 1000 then none else some { entry with ttl := some (ttl - seconds * 1000) }

/-- The database after some seconds. -/
def pass (database : Keyspace) (seconds : ℕ) : Keyspace :=
  fun key => (database key).bind (aged seconds)

end Keyspace

/-- What Redis replies. -/
inductive Reply
  | status
  | integer (n : ℤ)
  | string (bytes : Bytes)
  | nil
  | error
  deriving DecidableEq

/-- The reply to a command. -/
def NativeCommand.reply (database : Keyspace) : NativeCommand → Reply
  | .get key =>
    match database key with
    | none => .nil
    | some { value := .string bytes, ttl := _ } => .string bytes
    | some { value := .set _ _, ttl := _ } => .error
  | .rename key _ => if (database key).isSome then .status else .error
  | .expire key _ => .integer (if (database key).isSome then 1 else 0)
  | .setEx _ _ seconds => if seconds ≤ 0 then .error else .status

/-- The replies to several commands, and the database after them. -/
def NativeCommand.replies : List NativeCommand → Keyspace → List Reply × Keyspace
  | [], database => ([], database)
  | command :: commands, database =>
    let (replies, last) := replies commands (command.run database)
    (command.reply database :: replies, last)

namespace SessionRedis

variable (appKey : Guid)

/-- `SessionSave` (CSessionDL.h:429-526): only the reply to `SET` counts. -/
def save (database : Keyspace) (guid : Guid) (expiresPar : BitVec 32)
    (reEntrancePar liquidPar : Bool) (guidNewPar : Option Guid) (pStream : Option CStream)
    (zLenPar : BitVec 32) (previousLastUpdated : DBTimeStamp) : HResult × Keyspace :=
  let (replies, database) := NativeCommand.replies (sessionSave appKey guid expiresPar reEntrancePar
    liquidPar guidNewPar pStream zLenPar previousLastUpdated) database
  let writes := pStream.any fun stream => decide (stream.buf ≠ [])
  (if writes ∧ replies.getLast? = some .error then .eFail else .sOk, database)

/-- `SessionDelete` (CSessionDL.h:528-544). -/
def delete (database : Keyspace) (guid : Guid) : HResult × Keyspace :=
  let (replies, database) := NativeCommand.replies (sessionDelete appKey guid) database
  (if replies.getLast? = some (.integer 1) then .sOk else .eFail, database)

/-- `SessionInsert` (CSessionDL.h:545-580). -/
def insert (database : Keyspace) (guid : Guid) (expires : BitVec 32) (reEntrance liquid : Bool)
    (lastUpdated : DBTimeStamp) : HResult × Keyspace :=
  let (replies, database) := NativeCommand.replies
    (sessionInsert appKey guid expires reEntrance liquid lastUpdated) database
  (if replies.getLast? = some .status then .sOk else .eFail, database)

/-- What `dbInit` takes from a row (Session.cpp:1002-1025, 1051): a flag that is not `VARIANT_FALSE` is
set. -/
def NativeRowset.rowset (row : NativeRowset) : SessionStore.Rowset where
  m_Expires := row.m_Expires
  m_ReEntrance := decide (row.m_ReEntrance ≠ 0)
  m_Liquid := decide (row.m_Liquid ≠ 0)
  m_zLen := row.m_zLen.toNat
  m_pStream := row.m_pStream

end SessionRedis

/-- A call of a session function, or what happens between two calls. -/
inductive SessionOperation (appKey : Guid)
  | save (guid : Guid) (expiresPar : BitVec 32) (reEntrancePar liquidPar : Bool)
      (guidNewPar : Option Guid) (pStream : Option CStream) (zLenPar : BitVec 32)
      (previousLastUpdated : DBTimeStamp)
  | delete (guid : Guid)
  | insert (guid : Guid) (expires : BitVec 32) (reEntrance liquid : Bool)
      (lastUpdated : DBTimeStamp)
  | openRowset (guid : Guid)
  | pass (seconds : ℕ)
  /-- Another client. -/
  | others (effect : Keyspace → Keyspace)
      (leaves : ∀ database guid, effect database (sessionKey appKey guid) =
        database (sessionKey appKey guid))

namespace SessionOperation

variable {appKey : Guid}

/-- What the caller gets: a result, and from `OpenRowset` a row. -/
abbrev Answer := Option (HResult × Option SessionStore.Rowset)

/-- The operation on the database. -/
def onDatabase (database : Keyspace) : SessionOperation appKey → Run (Answer × Keyspace)
  | .save guid expiresPar reEntrancePar liquidPar guidNewPar pStream zLenPar previousLastUpdated =>
    let (hr, database) := SessionRedis.save appKey database guid expiresPar reEntrancePar liquidPar
      guidNewPar pStream zLenPar previousLastUpdated
    pure (some (hr, none), database)
  | .delete guid =>
    let (hr, database) := SessionRedis.delete appKey database guid
    pure (some (hr, none), database)
  | .insert guid expires reEntrance liquid lastUpdated =>
    let (hr, database) :=
      SessionRedis.insert appKey database guid expires reEntrance liquid lastUpdated
    pure (some (hr, none), database)
  | .openRowset guid => do
    let (hr, row) ← SessionRedis.openRowset appKey guid database
    pure (some (hr, some row.rowset), database)
  | .pass seconds => pure (none, database.pass seconds)
  | .others effect _ => pure (none, effect database)

/-- The operation on records. -/
def onRecords (store : SessionStore) : SessionOperation appKey → Answer × SessionStore
  | .save guid expiresPar reEntrancePar liquidPar guidNewPar pStream zLenPar _ =>
    let (hr, store) := store.sessionSave guid expiresPar reEntrancePar liquidPar guidNewPar pStream
      zLenPar.toNat
    (some (hr, none), store)
  | .delete guid =>
    let (hr, store) := store.sessionDelete guid
    (some (hr, none), store)
  | .insert guid expires reEntrance liquid _ =>
    let (hr, store) := store.sessionInsert guid expires reEntrance liquid
    (some (hr, none), store)
  | .openRowset guid =>
    let (hr, row) := store.openRowset guid
    (some (hr, some row), store)
  | .pass seconds => (none, store.pass seconds)
  | .others _ _ => (none, store)

end SessionOperation

end IspSession.Model
