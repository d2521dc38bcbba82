import IspSession.Analysis.RequestFrames

/-!
# Visitors without a session id

A request that presents no valid id looks up the record under the id of zeros. When there
is none, a record is inserted under a new id and the visitor has a session of its own. A
record under the id of zeros, which the managed components may create, is loaded for every
such visitor.
-/

set_option autoImplicit false

namespace IspSession.Analysis

open IspSession.Library IspSession.Model

/-- What a request finds when it begins. -/
structure Visit where
  store : SessionStore
  drawn : ℕ
  lngTimeOutSetting : BitVec 32
  dtExpires : BitVec 32
  blnSnifQueryStringFirst : Bool

/-- The request that begins. -/
def Visit.request (loc : Collation) (visit : Visit) : Request loc :=
  .start visit.store visit.drawn visit.lngTimeOutSetting visit.dtExpires
    visit.blnSnifQueryStringFirst

/-- `Initialize` of a request with no valid id in its cookies or its query string. -/
def Visit.initialized (loc : Collation) (p : Platform) (visit : Visit) :
    Run (HResult × Request loc) :=
  (visit.request loc).initializeSession p none none

variable {loc : Collation} (p : Platform)

/-- The visitor has a session of its own. -/
structure OwnSession (visit : Visit) (r : Request loc) : Prop where
  empty : r.m_piVarDict.dictionary = .empty
  /-- The id is the next one drawn, and no record had it. -/
  generated : r.guid = p.random visit.drawn ∧ r.drawn = visit.drawn + 1 ∧
    visit.store r.guid = none
  record : ∃ record, r.store r.guid = some record ∧ record.payload = []
  cookie : ∃ cookie, r.cookies.head? = some cookie ∧ cookie.value = some r.guid
  /-- A visitor for whom another id is drawn uses other records, whatever it finds. -/
  apart : ∀ (other : Visit) (hr : HResult) (r' : Request loc),
    other.initialized loc p = .ok (hr, r') → p.random other.drawn ≠ p.random visit.drawn →
    r'.guid ≠ r.guid ∧ r'.oldGuid ≠ r.guid ∧ r'.store r.guid = other.store r.guid

/-! ## Initialize without an id -/

/-- INTERNAL: the request as `dbInit` gets it. -/
theorem identify_noId (visit : Visit) :
    (visit.request loc).identify none none = { visit.request loc with blnNew := true } := by
  obtain ⟨store, drawn, setting, expires, sniff⟩ := visit
  cases sniff <;> rfl

/-- INTERNAL: `Initialize` adds nothing to what `dbInit` has done but its error. -/
theorem exists_dbInit {visit : Visit} {hr : HResult} {r' : Request loc}
    (h : visit.initialized loc p = .ok (hr, r')) :
    ∃ r₁, Request.dbInit p { visit.request loc with blnNew := true } = .ok (hr, r₁) ∧
      r' = { r₁ with bErrState := r₁.bErrState || hr.failed } := by
  unfold Visit.initialized Request.initializeSession at h
  rw [identify_noId] at h
  obtain ⟨⟨hr₁, r₁⟩, hinit, h⟩ := Run.bind_eq_ok h
  cases h
  exact ⟨r₁, hinit, rfl⟩

/-- The ids of the request are those it had, or the next one drawn. -/
def IdsFrom (r r' : Request loc) : Prop :=
  (r'.guid = r.guid ∨ r'.guid = p.random r.drawn) ∧
  (r'.oldGuid = r.oldGuid ∨ r'.oldGuid = p.random r.drawn)

/-- INTERNAL: `NewID` draws the next one. -/
theorem idsFrom_newID (r : Request loc) : IdsFrom p r (r.newID p) := by
  unfold Request.newID
  dsimp only
  split
  · exact ⟨.inr rfl, .inl rfl⟩
  · exact ⟨.inl rfl, .inl rfl⟩

/-- INTERNAL: reading a record draws at most one id. -/
theorem idsFrom_loadRecord {rowset : SessionStore.Rowset} {hr hr' : HResult}
    {r r' : Request loc} (h : r.loadRecord p rowset hr = .ok (hr', r')) : IdsFrom p r r' := by
  have hrenew : ∀ (hr₁ : HResult) (r₁ : Request loc), r₁.guid = r.guid →
      r₁.oldGuid = r.oldGuid → r₁.drawn = r.drawn →
      (if r₁.blnLiquid = true then (pure (.sOk, r₁.newID p) : Run (HResult × Request loc))
        else pure (hr₁, r₁)) = .ok (hr', r') → IdsFrom p r r' := by
    intro hr₁ r₁ hguid hold hdrawn h
    have hnew := idsFrom_newID p r₁
    rw [IdsFrom, hguid, hold, hdrawn] at hnew
    split at h
    · cases h
      exact hnew
    · cases h
      exact ⟨.inl hguid, .inl hold⟩
  unfold Request.loadRecord at h
  dsimp only at h
  split at h
  · rw [Run.pure_eq, Run.ok_bind] at h
    exact hrenew hr { r with
      lngTimeout := rowset.m_Expires
      blnReEntrance := rowset.m_ReEntrance
      blnLiquid := rowset.m_Liquid } rfl rfl rfl h
  · obtain ⟨⟨hr₂, d, s⟩, -, h⟩ := Run.bind_eq_ok h
    exact hrenew hr₂ { r with
      lngTimeout := rowset.m_Expires
      blnReEntrance := rowset.m_ReEntrance
      blnLiquid := rowset.m_Liquid
      m_piVarDict := d } rfl rfl rfl h

/-- INTERNAL: a new request does not draw an id when it is tested. -/
theorem checkReEntrance_new (rowset : SessionStore.Rowset) {r : Request loc}
    (h : r.blnNew = true) : r.checkReEntrance p rowset = r := by
  rw [Request.checkReEntrance, if_neg]
  rintro ⟨hnew, -⟩
  exact hnew h

/-- **`dbInit` with a record there** inserts nothing and keeps the ids but for a new one. -/
theorem dbInit_found {r r' : Request loc} {hr : HResult} {record : SessionRecord}
    (hnew : r.blnNew = true) (hrecord : r.store r.guid = some record)
    (h : r.dbInit p = .ok (hr, r')) : r'.store = r.store ∧ IdsFrom p r r' := by
  have hopen := openOrInsert_found p hrecord
  unfold Request.dbInit at h
  split at h
  · cases h
    exact ⟨rfl, .inl rfl, .inl rfl⟩
  · simp only [hopen, HResult.failed, Bool.false_eq_true, if_false,
      checkReEntrance_new p _ hnew] at h
    obtain ⟨⟨hr₂, r₂⟩, hread, h⟩ := Run.bind_eq_ok h
    obtain ⟨-, d, cookies, locale, -, hend⟩ := endInit_frame p h
    have hids := idsFrom_loadRecord p hread
    refine ⟨((calm_loadRecord p hread).trans (calm_endInit p h)).store, ?_⟩
    rw [hend]
    exact hids

/-- INTERNAL: a failed insertion is reported. -/
theorem dbInit_notInserted {r : Request loc} (herr : r.bErrState = false)
    (hnone : r.store r.guid = none) (htime : ¬ 0 < SessionStore.seconds r.lngTimeOutSetting) :
    ∃ r', r.dbInit p = .ok (.eFail, r') ∧ r'.store = r.store ∧
      r'.guid = p.random r.drawn ∧ r'.oldGuid = p.random r.drawn := by
  have hid : Request.newID p { r with blnExpired := r.blnExpired || !r.blnNew, blnNew := true } =
      { r with
        blnExpired := r.blnExpired || !r.blnNew
        blnNew := true
        guid := p.random r.drawn
        strGUID := some (p.random r.drawn)
        drawn := r.drawn + 1 } := by
    simp [Request.newID]
  have hset : ∀ (store : SessionStore) (key : Guid) (metaData : PersistMetaData),
      store.set key metaData [] (SessionStore.seconds r.lngTimeOutSetting) = (.eFail, store) :=
    fun store key metaData => if_pos (not_lt.mp htime)
  rw [Request.dbInit, if_neg (by simp [herr]), Request.openOrInsert, SessionStore.openRowset,
    hnone]
  simp only [if_true, hid, SessionStore.sessionInsert, hset, HResult.failed]
  exact ⟨_, rfl, rfl, rfl, rfl⟩

/-- INTERNAL: what a request without an id may do to the records, and which ids it has. -/
theorem initialized_frame {visit : Visit} {hr : HResult} {r' : Request loc}
    (h : visit.initialized loc p = .ok (hr, r')) :
    (r'.guid = 0 ∨ r'.guid = p.random visit.drawn) ∧
    (r'.oldGuid = 0 ∨ r'.oldGuid = p.random visit.drawn) ∧
    ∀ id, id ≠ p.random visit.drawn → r'.store id = visit.store id := by
  obtain ⟨r₁, hinit, rfl⟩ := exists_dbInit p h
  obtain ⟨-, -, -, hstore⟩ := dbInit_frame p hinit
  refine and_assoc.mp ⟨?_, hstore⟩
  cases hrecord : visit.store 0 with
  | some record =>
    obtain ⟨-, hguid, hold⟩ :=
      dbInit_found p (r := { visit.request loc with blnNew := true }) rfl hrecord hinit
    exact ⟨hguid, hold⟩
  | none =>
    by_cases htime : 0 < SessionStore.seconds visit.lngTimeOutSetting
    · rw [dbInit_inserts p (r := { visit.request loc with blnNew := true }) rfl hrecord htime
        rfl] at hinit
      cases hinit
      exact ⟨.inr rfl, .inr rfl⟩
    · obtain ⟨r₂, hrun, -, hguid, hold⟩ := dbInit_notInserted p
        (r := { visit.request loc with blnNew := true }) rfl hrecord htime
      rw [hrun] at hinit
      cases hinit
      exact ⟨.inr hguid, .inr hold⟩

/-! ## Own sessions -/

/-- **A visitor without a valid id gets a session of its own** exactly when there is no
record under the id of zeros and the configured time is positive. The id drawn is a new
one: no record has it, and it is not that of zeros. -/
theorem ownSession_iff (visit : Visit) (hunused : visit.store (p.random visit.drawn) = none)
    (hproper : p.random visit.drawn ≠ 0) :
    (∃ r : Request loc, visit.initialized loc p = .ok (.sOk, r) ∧ OwnSession p visit r) ↔
      visit.store 0 = none ∧ 0 < SessionStore.seconds visit.lngTimeOutSetting := by
  constructor
  · rintro ⟨r, hrun, hown⟩
    obtain ⟨r₁, hinit, rfl⟩ := exists_dbInit p hrun
    obtain ⟨record, hrecord, -⟩ := hown.record
    have hguid : r₁.guid = p.random visit.drawn := hown.generated.1
    have hnone : visit.store 0 = none := by
      cases hzero : visit.store 0 with
      | none => rfl
      | some found =>
        -- the record found is loaded, and there is none under the id drawn
        obtain ⟨hstore, -⟩ :=
          dbInit_found p (r := { visit.request loc with blnNew := true }) rfl hzero hinit
        have hrecord' : r₁.store (p.random visit.drawn) = some record := hguid ▸ hrecord
        rw [hstore] at hrecord'
        exact absurd (hunused.symm.trans hrecord') (by simp)
    refine ⟨hnone, by_contra fun htime => ?_⟩
    obtain ⟨r₂, hfails, -⟩ := dbInit_notInserted p
      (r := { visit.request loc with blnNew := true }) rfl hnone htime
    rw [hfails] at hinit
    cases hinit
  · rintro ⟨hnone, htime⟩
    have hinit := dbInit_inserts p (r := { visit.request loc with blnNew := true }) rfl hnone
      htime rfl
    refine ⟨inserted p { visit.request loc with blnNew := true }, ?_, rfl, ⟨rfl, rfl, hunused⟩,
      ⟨_, Function.update_self _ _ _, rfl⟩, ⟨_, rfl, rfl⟩, ?_⟩
    · rw [Visit.initialized, Request.initializeSession, identify_noId, hinit, Run.ok_bind]
      rfl
    · intro other hr r' hother hne
      obtain ⟨hguid, hold, hstore⟩ := initialized_frame p hother
      refine ⟨?_, ?_, hstore _ hne.symm⟩
      · rcases hguid with hguid | hguid
        · exact fun h => hproper (h.symm.trans hguid)
        · exact fun h => hne (hguid.symm.trans h)
      · rcases hold with hold | hold
        · exact fun h => hproper (h.symm.trans hold)
        · exact fun h => hne (hold.symm.trans h)

/-- A visit when nothing is stored. -/
def firstVisit : Visit := ⟨fun _ => none, 0, 20, 0, false⟩

/-- The first visitor gets a session of its own. -/
theorem firstVisit_ownSession :
    ∃ r : Request .ordinal, firstVisit.initialized .ordinal .counting = .ok (.sOk, r) ∧
      OwnSession .counting firstVisit r :=
  (ownSession_iff .counting firstVisit rfl (by decide)).mpr ⟨rfl, by decide⟩

/-- A visit when there is a session under the id of zeros. -/
def zeroVisit : Visit :=
  ⟨fun id => if id = 0 then some (oneNumberRecord false false) else none, 0, 20, 0, false⟩

/-- A number that is found. -/
def numberOf : Option Variant → Option (BitVec (8 * ScalarType.i4.size))
  | some (.scalar .i4 n) => some n
  | _ => none

/-- That session is shown to a visitor without an id, who has none of its own. -/
theorem zeroVisit_not_ownSession :
    (∃ r : Request .ordinal, zeroVisit.initialized .ordinal .counting = .ok (.sOk, r) ∧
      r.m_piVarDict.dictionary.find (Bstr.ofString "a") = some (.scalar .i4 7)) ∧
    ¬ ∃ r : Request .ordinal, zeroVisit.initialized .ordinal .counting = .ok (.sOk, r) ∧
      OwnSession .counting zeroVisit r := by
  have hshown : ((zeroVisit.initialized .ordinal .counting).toOption.map fun res =>
      (res.1, numberOf (res.2.m_piVarDict.dictionary.find (Bstr.ofString "a")))) =
        some (.sOk, some 7) := by decide +kernel
  obtain ⟨⟨hr, r⟩, hrun, hshown⟩ := Option.map_eq_some_iff.mp hshown
  obtain ⟨rfl, hfound⟩ := Prod.mk.inj hshown
  have hrun' := Run.eq_ok_of_toOption hrun
  have hfind : r.m_piVarDict.dictionary.find (Bstr.ofString "a") = some (.scalar .i4 7) := by
    dsimp only [numberOf] at hfound
    split at hfound
    · rename_i n hn
      rw [hn, Option.some.inj hfound]
    · cases hfound
  refine ⟨⟨r, hrun', hfind⟩, ?_⟩
  rintro ⟨r', hrun'', hown⟩
  rw [hrun'] at hrun''
  cases hrun''
  rw [hown.empty] at hfind
  cases hfind

end IspSession.Analysis
