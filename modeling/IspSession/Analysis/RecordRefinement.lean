import IspSession.Analysis.RecordEnvelopes
import IspSession.Model.SessionCommands

/-!
# Records stand for what is in Redis

The requests work on records by session id. Behind them are the commands that `CSessionDL` sends,
the texts of the keys, the bytes of the metadata in front of the stream, and times to live in
milliseconds. `StandsFor` says which bytes are which record; every operation keeps it and gets the
answer that the records give, so that a run on the database cannot be told from one on the records.
-/

set_option autoImplicit false

namespace IspSession.Analysis

open IspSession.Library IspSession.Model

/-! ## Keys -/

/-- **Different ids have different keys.** -/
theorem sessionKey_inj {appKey guid guid' : Guid}
    (h : sessionKey appKey guid = sessionKey appKey guid') : guid = guid' := by
  have hbytes := hexStringFromMemory_inj (List.append_cancel_left h)
  have hnumber := congrArg ofLeBytes hbytes
  rw [guidBytes, guidBytes, ofLeBytes_leBytes_of_lt (by have := guid.isLt; omega),
    ofLeBytes_leBytes_of_lt (by have := guid'.isLt; omega)] at hnumber
  exact BitVec.eq_of_toNat_eq hnumber

/-! ## Records and bytes -/

/-- What a record carries, as it is written. -/
def envelopeOf (record : SessionRecord) : Envelope where
  settings :=
    { Expires := record.metaData.m_Expires
      Liquid := record.metaData.m_Liquid
      ReEntrance := record.metaData.m_ReEntrance }
  payload := record.payload

/-- The bytes under a key stand for a record. -/
inductive StandsFor : Option RedisEntry → Option SessionRecord → Prop
  | none : StandsFor none none
  | record (record : SessionRecord) (stamp : DBTimeStamp) (zLen : BitVec 32)
      (hzLen : zLen.toNat = record.metaData.m_zLen) :
      StandsFor (some ⟨.string ((envelopeOf record).record stamp zLen), some (record.ttl * 1000)⟩)
        (some record)

/-- The database holds the records. -/
def HoldsRecords (appKey : Guid) (database : Keyspace) (store : SessionStore) : Prop :=
  ∀ guid, StandsFor (database (sessionKey appKey guid)) (store guid)

variable {appKey : Guid} {database : Keyspace} {store : SessionStore}

/-- INTERNAL: either there is nothing under an id, or a record and its bytes. -/
theorem HoldsRecords.entry (h : HoldsRecords appKey database store) (guid : Guid) :
    (database (sessionKey appKey guid) = none ∧ store guid = none) ∨
      ∃ (record : SessionRecord) (stamp : DBTimeStamp) (zLen : BitVec 32),
        zLen.toNat = record.metaData.m_zLen ∧
        database (sessionKey appKey guid) =
          some ⟨.string ((envelopeOf record).record stamp zLen), some (record.ttl * 1000)⟩ ∧
        store guid = some record := by
  have hentry := h guid
  generalize database (sessionKey appKey guid) = entry at hentry ⊢
  generalize store guid = record at hentry ⊢
  cases hentry with
  | none => exact .inl ⟨rfl, rfl⟩
  | record record stamp zLen hzLen => exact .inr ⟨record, stamp, zLen, hzLen, rfl, rfl⟩

/-- INTERNAL: the same change on both sides. -/
theorem HoldsRecords.update (h : HoldsRecords appKey database store) (guid : Guid)
    {entry : Option RedisEntry} {record : Option SessionRecord} (hnew : StandsFor entry record) :
    HoldsRecords appKey (Function.update database (sessionKey appKey guid) entry)
      (Function.update store guid record) := by
  intro id
  by_cases hid : id = guid
  · rw [hid, Function.update_self, Function.update_self]
    exact hnew
  · rw [Function.update_of_ne hid, Function.update_of_ne fun hkey => hid (sessionKey_inj hkey)]
    exact h id

/-! ## Commands -/

/-- INTERNAL: `RENAME`. -/
theorem HoldsRecords.rename (h : HoldsRecords appKey database store) (guid guid' : Guid) :
    HoldsRecords appKey
      ((NativeCommand.rename (sessionKey appKey guid) (sessionKey appKey guid')).run database)
      (store.rename guid guid') := by
  rcases h.entry guid with ⟨hkey, hrecord⟩ | ⟨record, stamp, zLen, hzLen, hkey, hrecord⟩
  · rw [NativeCommand.run, Keyspace.rename, hkey, SessionStore.rename, hrecord]
    exact h
  · rw [NativeCommand.run, Keyspace.rename, hkey, SessionStore.rename, hrecord]
    exact (h.update guid .none).update guid' (.record record stamp zLen hzLen)

/-- INTERNAL: `EXPIRE`. -/
theorem HoldsRecords.expire (h : HoldsRecords appKey database store) (guid : Guid) (seconds : ℤ) :
    HoldsRecords appKey ((NativeCommand.expire (sessionKey appKey guid) seconds).run database)
      (store.expire guid seconds) := by
  rcases h.entry guid with ⟨hkey, hrecord⟩ | ⟨record, stamp, zLen, hzLen, hkey, hrecord⟩
  · have hsame : Function.update database (sessionKey appKey guid) none = database := by
      rw [← hkey, Function.update_eq_self]
    rw [NativeCommand.run, Keyspace.execute, hkey, SessionStore.expire, hrecord]
    dsimp only [Keyspace.expireIn]
    rw [hsame]
    exact h
  · rw [NativeCommand.run, Keyspace.execute, hkey, SessionStore.expire, hrecord]
    refine h.update guid ?_
    dsimp only [Keyspace.expireIn]
    by_cases htime : seconds ≤ 0
    · rw [if_pos htime, if_pos (by omega)]
      exact .none
    · rw [if_neg htime, if_neg (by omega)]
      exact .record { record with ttl := seconds } stamp zLen hzLen

/-- INTERNAL: `SET` with `EX`. -/
theorem HoldsRecords.set (h : HoldsRecords appKey database store) (guid : Guid)
    (record : SessionRecord) (stamp : DBTimeStamp) {zLen : BitVec 32}
    (hzLen : zLen.toNat = record.metaData.m_zLen) :
    HoldsRecords appKey
      ((NativeCommand.setEx (sessionKey appKey guid) ((envelopeOf record).record stamp zLen)
        record.ttl).run database)
      (store.set guid record.metaData record.payload record.ttl).2 := by
  rw [NativeCommand.run, Keyspace.setExpiring, SessionStore.set]
  by_cases htime : record.ttl ≤ 0
  · rw [if_pos htime, if_pos (by omega)]
    exact h
  · rw [if_neg htime, if_neg (by omega)]
    exact h.update guid (.record record stamp zLen hzLen)

/-- INTERNAL: the clock. -/
theorem HoldsRecords.pass (h : HoldsRecords appKey database store) (seconds : ℕ) :
    HoldsRecords appKey (database.pass seconds) (store.pass seconds) := by
  intro guid
  rw [Keyspace.pass, SessionStore.pass]
  rcases h.entry guid with ⟨hkey, hrecord⟩ | ⟨record, stamp, zLen, hzLen, hkey, hrecord⟩
  · rw [hkey, hrecord]
    exact .none
  · rw [hkey, hrecord, Option.bind_some, Option.bind_some, Keyspace.aged, SessionStore.aged]
    dsimp only
    by_cases htime : record.ttl ≤ seconds
    · rw [if_pos htime, if_pos (by omega)]
      exact .none
    · rw [if_neg htime, if_neg (by omega), ← Int.sub_mul]
      exact .record { record with ttl := record.ttl - seconds } stamp zLen hzLen

/-! ## Operations -/

/-- INTERNAL: the reply to `SET` with `EX` says what the records say. -/
theorem reply_set (database : Keyspace) (store : SessionStore) (key bytes : Bytes) (guid : Guid)
    (metaData : PersistMetaData) (payload : Bytes) (seconds : ℤ) :
    (if (NativeCommand.setEx key bytes seconds).reply database = .error then HResult.eFail
      else .sOk) = (store.set guid metaData payload seconds).1 := by
  rw [NativeCommand.reply, SessionStore.set]
  by_cases htime : seconds ≤ 0
  · rw [if_pos htime, if_pos htime, if_pos rfl]
  · rw [if_neg htime, if_neg htime]
    exact if_neg Reply.noConfusion

section Save

variable (guid : Guid) (expiresPar : BitVec 32) (reEntrancePar liquidPar : Bool)
  (pStream : Option CStream) (zLenPar : BitVec 32) (stamp : DBTimeStamp)

/-- INTERNAL: `SessionSave` without a new id. -/
theorem save_refines_here (h : HoldsRecords appKey database store) :
    (SessionRedis.save appKey database guid expiresPar reEntrancePar liquidPar none pStream
        zLenPar stamp).1 =
      (store.sessionSave guid expiresPar reEntrancePar liquidPar none pStream zLenPar.toNat).1 ∧
    HoldsRecords appKey
      (SessionRedis.save appKey database guid expiresPar reEntrancePar liquidPar none pStream
        zLenPar stamp).2
      (store.sessionSave guid expiresPar reEntrancePar liquidPar none pStream zLenPar.toNat).2 := by
  cases pStream with
  | none => exact ⟨rfl, h.expire guid (SessionStore.seconds expiresPar)⟩
  | some stream =>
    by_cases hempty : stream.buf = []
    · simp only [SessionRedis.save, SessionRedis.sessionSave, SessionStore.sessionSave, hempty,
        if_true, List.append_nil, NativeCommand.replies]
      exact ⟨if_neg (by simp), h⟩
    · let record : SessionRecord :=
        ⟨⟨expiresPar, reEntrancePar, liquidPar, zLenPar.toNat⟩, stream.rest,
          SessionStore.seconds expiresPar⟩
      have hset := h.set guid record stamp (rfl : zLenPar.toNat = _)
      have hreply := reply_set database store (sessionKey appKey guid)
        ((envelopeOf record).record stamp zLenPar) guid record.metaData record.payload record.ttl
      simp only [SessionRedis.save, SessionRedis.sessionSave, SessionStore.sessionSave, hempty,
        if_false, List.nil_append, NativeCommand.replies, Option.any_some, ne_eq, not_false_eq_true,
        decide_true, true_and, List.getLast?_singleton, Option.some.injEq, Option.getD_none]
      exact ⟨hreply, hset⟩

/-- INTERNAL: with a new id it is the same behind the `RENAME`. -/
theorem save_rename (database : Keyspace) (newKey : Guid) :
    SessionRedis.save appKey database guid expiresPar reEntrancePar liquidPar (some newKey) pStream
        zLenPar stamp =
      SessionRedis.save appKey
        ((NativeCommand.rename (sessionKey appKey guid) (sessionKey appKey newKey)).run database)
        newKey expiresPar reEntrancePar liquidPar none pStream zLenPar stamp := by
  cases pStream with
  | none => rfl
  | some stream =>
    by_cases hempty : stream.buf = []
    · simp only [SessionRedis.save, SessionRedis.sessionSave, hempty, if_true, List.append_nil,
        NativeCommand.replies, Option.any_some, ne_eq, not_true_eq_false, decide_false,
        Bool.false_eq_true, false_and, if_false]
    · simp only [SessionRedis.save, SessionRedis.sessionSave, hempty, if_false, List.nil_append,
        List.cons_append, NativeCommand.replies, Option.getD_some, Option.getD_none,
        List.getLast?_cons_cons]

/-- **`SessionSave`** on the database is `SessionSave` on the records. -/
theorem save_refines (guidNewPar : Option Guid) (h : HoldsRecords appKey database store) :
    (SessionRedis.save appKey database guid expiresPar reEntrancePar liquidPar guidNewPar pStream
        zLenPar stamp).1 =
      (store.sessionSave guid expiresPar reEntrancePar liquidPar guidNewPar pStream
        zLenPar.toNat).1 ∧
    HoldsRecords appKey
      (SessionRedis.save appKey database guid expiresPar reEntrancePar liquidPar guidNewPar pStream
        zLenPar stamp).2
      (store.sessionSave guid expiresPar reEntrancePar liquidPar guidNewPar pStream
        zLenPar.toNat).2 := by
  cases guidNewPar with
  | none => exact save_refines_here guid expiresPar reEntrancePar liquidPar pStream zLenPar stamp h
  | some newKey =>
    rw [save_rename]
    exact save_refines_here newKey expiresPar reEntrancePar liquidPar pStream zLenPar stamp
      (h.rename guid newKey)

end Save

/-- **`SessionDelete`** on the database is `SessionDelete` on the records. -/
theorem delete_refines (h : HoldsRecords appKey database store) (guid : Guid) :
    (SessionRedis.delete appKey database guid).1 = (store.sessionDelete guid).1 ∧
    HoldsRecords appKey (SessionRedis.delete appKey database guid).2
      (store.sessionDelete guid).2 := by
  refine ⟨?_, h.expire guid 0⟩
  rw [SessionStore.sessionDelete]
  rcases h.entry guid with ⟨hkey, hrecord⟩ | ⟨record, stamp, zLen, hzLen, hkey, hrecord⟩
  · simp [SessionRedis.delete, SessionRedis.sessionDelete, NativeCommand.replies,
      NativeCommand.reply, hkey, hrecord]
  · simp [SessionRedis.delete, SessionRedis.sessionDelete, NativeCommand.replies,
      NativeCommand.reply, hkey, hrecord]

/-- **`SessionInsert`** on the database is `SessionInsert` on the records. -/
theorem insert_refines (h : HoldsRecords appKey database store) (guid : Guid) (expires : BitVec 32)
    (reEntrance liquid : Bool) (lastUpdated : DBTimeStamp) :
    (SessionRedis.insert appKey database guid expires reEntrance liquid lastUpdated).1 =
      (store.sessionInsert guid expires reEntrance liquid).1 ∧
    HoldsRecords appKey
      (SessionRedis.insert appKey database guid expires reEntrance liquid lastUpdated).2
      (store.sessionInsert guid expires reEntrance liquid).2 := by
  let record : SessionRecord :=
    ⟨⟨expires, reEntrance, liquid, 0⟩, [], SessionStore.seconds expires⟩
  have hset := h.set guid record lastUpdated (rfl : (0 : BitVec 32).toNat = _)
  rw [Envelope.record, show (envelopeOf record).payload = [] from rfl, List.append_nil] at hset
  refine ⟨?_, hset⟩
  simp only [SessionRedis.insert, SessionRedis.sessionInsert, NativeCommand.replies,
    NativeCommand.reply, SessionStore.sessionInsert, SessionStore.set, List.getLast?_singleton,
    Option.some.injEq]
  by_cases htime : SessionStore.seconds expires ≤ 0
  · simp [htime]
  · simp [htime]

/-- **`OpenRowset`** reads every record of the database, and reads what the records say. -/
theorem openRowset_refines (h : HoldsRecords appKey database store) (guid : Guid) :
    ∃ row, SessionRedis.openRowset appKey guid database = .ok ((store.openRowset guid).1, row) ∧
      row.rowset = (store.openRowset guid).2 := by
  have hflag : ∀ b : Bool, variantBoolOf b ≠ 0 ↔ b = true := by decide
  rcases h.entry guid with ⟨hkey, hrecord⟩ | ⟨record, stamp, zLen, hzLen, hkey, hrecord⟩
  · rw [SessionRedis.openRowset, hkey, SessionStore.openRowset, hrecord]
    exact ⟨.none, rfl, rfl⟩
  · rw [SessionRedis.openRowset, hkey, SessionStore.openRowset, hrecord]
    dsimp only
    rw [openRecord_record]
    refine ⟨_, rfl, ?_⟩
    simp only [SessionRedis.NativeRowset.rowset, envelopeOf, hflag, Bool.decide_eq_true, hzLen]
    rfl

/-! ## Whole runs -/

/-- **One operation** on the database gives the answer of the records. -/
theorem onDatabase_refines (h : HoldsRecords appKey database store)
    (operation : SessionOperation appKey) :
    ∃ database', operation.onDatabase database =
        .ok ((operation.onRecords store).1, database') ∧
      HoldsRecords appKey database' (operation.onRecords store).2 := by
  cases operation with
  | save guid expiresPar reEntrancePar liquidPar guidNewPar pStream zLenPar stamp =>
    obtain ⟨hresult, hholds⟩ :=
      save_refines guid expiresPar reEntrancePar liquidPar pStream zLenPar stamp guidNewPar h
    refine ⟨_, ?_, hholds⟩
    simp only [SessionOperation.onDatabase, SessionOperation.onRecords, hresult, Run.pure_eq]
  | delete guid =>
    obtain ⟨hresult, hholds⟩ := delete_refines h guid
    refine ⟨_, ?_, hholds⟩
    simp only [SessionOperation.onDatabase, SessionOperation.onRecords, hresult, Run.pure_eq]
  | insert guid expires reEntrance liquid lastUpdated =>
    obtain ⟨hresult, hholds⟩ := insert_refines h guid expires reEntrance liquid lastUpdated
    refine ⟨_, ?_, hholds⟩
    simp only [SessionOperation.onDatabase, SessionOperation.onRecords, hresult, Run.pure_eq]
  | openRowset guid =>
    obtain ⟨row, hrun, hrow⟩ := openRowset_refines h guid
    refine ⟨database, ?_, h⟩
    simp only [SessionOperation.onDatabase, SessionOperation.onRecords, hrun, Run.ok_bind, hrow,
      Run.pure_eq]
  | pass seconds => exact ⟨_, rfl, h.pass seconds⟩
  | others effect leaves => exact ⟨_, rfl, fun guid => leaves database guid ▸ h guid⟩

/-- **A run on the database cannot be told from a run on the records**: whatever is saved, deleted,
inserted and opened, whatever time passes and whatever other clients do with their own keys, no call
fails to answer, and each answers what the records say. -/
theorem database_answers (h : HoldsRecords appKey database store)
    (operations : List (SessionOperation appKey)) :
    Runs.observe (fun database operation => SessionOperation.onDatabase database operation)
        operations database =
      .ok (Runs.answers (fun store operation => SessionOperation.onRecords store operation)
        operations store) := by
  have hall : ∀ (operations : List (SessionOperation appKey)) (store : SessionStore),
      Runs.ReferenceMeets (fun store operation => SessionOperation.onRecords store operation)
        (fun _ _ => True) operations store := by
    intro operations
    induction operations with
    | nil => exact fun _ => trivial
    | cons operation operations ih => exact fun store => ⟨trivial, ih _⟩
  exact (Runs.observe_eq_iff (HoldsRecords appKey)
    (fun database store operation h _ => onDatabase_refines h operation)
    (fun _ _ _ _ _ _ => trivial) operations h).mpr (hall operations store)

/-- A session is inserted in an empty database, read, saved under another id, and read twice: in
time, and when its time is up. -/
def movedSession : List (SessionOperation 1) :=
  [.insert 7 20 false true noTime, .openRowset 7,
    .save 7 20 false true (some 8) (some ⟨[65], 0⟩) 1 noTime, .pass 1199, .openRowset 8, .pass 1,
    .openRowset 8]

/-- The database answers as the records do. -/
theorem movedSession_answers :
    Runs.observe (fun database operation => SessionOperation.onDatabase database operation)
        movedSession (fun _ => none) =
      .ok (Runs.answers (fun store operation => SessionOperation.onRecords store operation)
        movedSession fun _ => none) :=
  database_answers (fun _ => .none) movedSession

end IspSession.Analysis
