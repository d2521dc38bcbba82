import IspSession.Analysis.SessionRecords

/-!
# Saving a session

`PersistSession` either writes the dictionary (`persistSession_writes`) or, when nothing
says that it has changed, only renews the time of the record (`persistSession_touches`).
A liquid session is moved to its new id on the way. `persistSession_spec` puts the two
together for a dictionary that is exact.
-/

set_option autoImplicit false

namespace IspSession.Analysis

open IspSession.Library IspSession.Model

variable {loc : Collation} (p : Platform)

/-- `PersistSession` will write the dictionary. -/
def Unsaved (r : Request loc) : Prop :=
  r.m_piVarDict.blnDirty = true ∨ r.blnNew = true ∨ r.blnExpired = true

instance (r : Request loc) : Decidable (Unsaved r) := inferInstanceAs (Decidable (_ ∨ _))

/-- `PersistSession` gets to the record. -/
structure Persists (r : Request loc) : Prop where
  pending : r.blnPersistDoneByOnEndPage = false
  noError : r.bErrState = false
  kept : r.blnCancel = false
  writable : r.bReadonly = false

/-- The id the record is saved under. -/
def savedUnder (r : Request loc) : Guid := if r.blnLiquid then r.guid else r.oldGuid

/-- The records after a liquid session has been moved. -/
def movedStore (r : Request loc) : SessionStore :=
  if r.blnLiquid then r.store.rename r.oldGuid r.guid else r.store

/-- What is written of a request. -/
def savedRecord (r : Request loc) : SessionRecord where
  metaData :=
    { m_Expires := r.lngTimeout
      m_ReEntrance := r.blnReEntrance
      m_Liquid := r.blnLiquid
      m_zLen := (dictionaryBytes p.mem r.m_piVarDict).length }
  payload := dictionaryBytes p.mem r.m_piVarDict
  ttl := SessionStore.seconds r.lngTimeout

/-- INTERNAL: the key and the store of `SessionSave`. -/
theorem sessionSave_eq (r : Request loc) (pStream : Option CStream) (zLenPar : ℕ) :
    r.store.sessionSave r.oldGuid r.lngTimeout r.blnReEntrance r.blnLiquid
        (if r.blnLiquid then some r.guid else none) pStream zLenPar =
      match pStream with
      | none => (.sOk, (movedStore r).expire (savedUnder r) (SessionStore.seconds r.lngTimeout))
      | some stream =>
        if stream.buf = [] then (.sOk, movedStore r)
        else (movedStore r).set (savedUnder r)
          { m_Expires := r.lngTimeout
            m_ReEntrance := r.blnReEntrance
            m_Liquid := r.blnLiquid
            m_zLen := zLenPar } stream.rest (SessionStore.seconds r.lngTimeout) := by
  unfold SessionStore.sessionSave movedStore savedUnder
  cases r.blnLiquid <;> rfl

/-- **Nothing to write**: the record is moved if need be and its time is renewed. -/
theorem persistSession_touches {r : Request loc} (h : Persists r) (hsaved : ¬ Unsaved r) :
    r.persistSession p = .ok (.sOk,
      { r with
        store := (movedStore r).expire (savedUnder r) (SessionStore.seconds r.lngTimeout)
        blnPersistDoneByOnEndPage := true }) := by
  have hno : ¬ (r.m_piVarDict.blnDirty = true ∨ r.blnNew = true ∨ r.blnExpired = true) := hsaved
  rw [Request.persistSession, if_neg (by simp [h.pending]), if_neg (by simp [h.noError])]
  simp only [h.kept, h.writable, hno, if_false, Bool.false_eq_true, not_false_eq_true,
    and_self, if_true, Run.pure_eq, Run.ok_bind, sessionSave_eq, HResult.failed, Bool.or_false]

/-- **A dictionary that is exact** is written as a record which holds its contents. -/
theorem persistSession_writes {r : Request loc} (h : Persists r) (hexact : Exact r.m_piVarDict)
    (htime : 0 < SessionStore.seconds r.lngTimeout) (hunsaved : Unsaved r) :
    ∃ b, r.persistSession p = .ok (.sOk,
      { r with
        m_piVarDict := r.m_piVarDict.withBuffer b
        store := Function.update (movedStore r) (savedUnder r) (some (savedRecord p r))
        blnPersistDoneByOnEndPage := true }) := by
  have hyes : r.m_piVarDict.blnDirty = true ∨ r.blnNew = true ∨ r.blnExpired = true := hunsaved
  obtain ⟨⟨b, hb⟩, -⟩ := hexact.toLossless.reload p.mem p.mem r.m_piVarDict
  have hne : dictionaryBytes p.mem r.m_piVarDict ≠ [] :=
    List.ne_nil_of_length_pos (length_dictionaryBytes_pos p.mem r.m_piVarDict)
  refine ⟨b, ?_⟩
  rw [Request.persistSession, if_neg (by simp [h.pending]), if_neg (by simp [h.noError])]
  simp only [h.kept, h.writable, hyes, Bool.false_eq_true, not_false_eq_true, and_self, if_true,
    hb, Run.pure_eq, Run.ok_bind, sessionSave_eq, if_neg hne, set_eq _ _ _ _ htime,
    HResult.failed, Bool.or_false]
  rfl

/-- The written record holds the contents. -/
theorem holds_savedRecord {r : Request loc} (h : Exact r.m_piVarDict) :
    Holds (savedRecord p r) (contents r.m_piVarDict) :=
  .saved p.mem r.m_piVarDict h rfl rfl rfl

/-! ## The records afterwards -/

/-- INTERNAL: the record of the session is where it will be saved. -/
theorem movedStore_apply_saved {r : Request loc} {record : SessionRecord}
    (h : r.store r.oldGuid = some record) : movedStore r (savedUnder r) = some record := by
  unfold movedStore savedUnder
  split
  · exact rename_apply_new _ _ _ h
  · exact h

/-- INTERNAL: nothing is left where it was moved from. -/
theorem movedStore_apply_old {r : Request loc} {record : SessionRecord}
    (h : r.store r.oldGuid = some record) (hne : r.oldGuid ≠ savedUnder r) :
    movedStore r r.oldGuid = none := by
  unfold movedStore
  unfold savedUnder at hne
  split
  · rename_i hliquid
    rw [if_pos hliquid] at hne
    exact rename_apply_old _ _ _ h hne
  · rename_i hliquid
    rw [if_neg hliquid] at hne
    exact absurd rfl hne

/-- INTERNAL: the other records stay. -/
theorem movedStore_apply_other {r : Request loc} {id : Guid} (hold : id ≠ r.oldGuid)
    (hne : id ≠ savedUnder r) : movedStore r id = r.store id := by
  unfold movedStore
  unfold savedUnder at hne
  split
  · rename_i hliquid
    rw [if_pos hliquid] at hne
    exact rename_apply_other _ _ _ _ hold hne
  · rfl

/-- The records after `PersistSession`: `record` was that of the session, `record'` is. -/
structure Saved (r : Request loc) (record record' : SessionRecord) (store : SessionStore) :
    Prop where
  here : store (savedUnder r) = some record'
  holds : Holds record' (contents r.m_piVarDict)
  expires : record'.metaData.m_Expires =
    if Unsaved r then r.lngTimeout else record.metaData.m_Expires
  reEntrance : record'.metaData.m_ReEntrance =
    if Unsaved r then r.blnReEntrance else record.metaData.m_ReEntrance
  liquid : record'.metaData.m_Liquid =
    if Unsaved r then r.blnLiquid else record.metaData.m_Liquid
  moved : r.oldGuid ≠ savedUnder r → store r.oldGuid = none
  others : ∀ id, id ≠ r.oldGuid → id ≠ savedUnder r → store id = r.store id

/-- **`PersistSession` leaves a record that holds the dictionary's contents**, provided the
one there holds them when nothing says that the dictionary has changed. -/
theorem persistSession_spec {r : Request loc} {record : SessionRecord} (h : Persists r)
    (hexact : Exact r.m_piVarDict) (htime : 0 < SessionStore.seconds r.lngTimeout)
    (hrecord : r.store r.oldGuid = some record)
    (hholds : ¬ Unsaved r → Holds record (contents r.m_piVarDict)) :
    ∃ b store record', r.persistSession p = .ok (.sOk,
      { r with
        m_piVarDict := r.m_piVarDict.withBuffer b
        store := store
        blnPersistDoneByOnEndPage := true }) ∧ Saved r record record' store := by
  by_cases hunsaved : Unsaved r
  · obtain ⟨b, hb⟩ := persistSession_writes p h hexact htime hunsaved
    refine ⟨b, _, savedRecord p r, hb, Function.update_self _ _ _, holds_savedRecord p hexact,
      (if_pos hunsaved).symm, (if_pos hunsaved).symm, (if_pos hunsaved).symm, ?_, ?_⟩
    · intro hne
      rw [Function.update_of_ne hne, movedStore_apply_old hrecord hne]
    · intro id hold hne
      rw [Function.update_of_ne hne, movedStore_apply_other hold hne]
  · refine ⟨r.m_piVarDict.m_currentBufLen, _,
      { record with ttl := SessionStore.seconds r.lngTimeout },
      persistSession_touches p h hunsaved,
      expire_apply_self _ _ (movedStore_apply_saved hrecord) htime,
      (hholds hunsaved).congr rfl rfl, (if_neg hunsaved).symm, (if_neg hunsaved).symm,
      (if_neg hunsaved).symm, ?_, ?_⟩
    · intro hne
      rw [expire_apply_other _ _ _ hne, movedStore_apply_old hrecord hne]
    · intro id hold hne
      rw [expire_apply_other _ _ _ hne, movedStore_apply_other hold hne]

end IspSession.Analysis
