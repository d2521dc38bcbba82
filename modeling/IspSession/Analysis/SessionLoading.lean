import IspSession.Analysis.SessionRecords

/-!
# Loading a session

What `dbInit` does with a record that is there (`dbInit_spec`) and with an id without a
record (`dbInit_inserts`), and what a request is like at the end of `OnStartPage`.
-/

set_option autoImplicit false

namespace IspSession.Analysis

open IspSession.Library IspSession.Model

variable {loc : Collation} (p : Platform)

/-! ## Requests that have their id -/

/-- A request at the beginning of `dbInit`. -/
structure Fresh (r : Request loc) : Prop where
  pending : r.blnPersistDoneByOnEndPage = false
  noError : r.bErrState = false
  kept : r.blnCancel = false
  writable : r.bReadonly = false
  notLiquid : r.blnLiquid = false
  notExpired : r.blnExpired = false
  noOldId : r.m_OldSessionId = none
  dictionary : r.m_piVarDict = .new
  /-- The id presented, if there is one. -/
  presented : ∀ id, r.strGUID = some id → r.blnNew = false ∧ r.guid = id ∧ r.oldGuid = id
  url : r.blnFoundURLGuid = true → ∃ id, r.strGUID = some id

/-- **What `Initialize` does before `dbInit`.** -/
theorem fresh_identify (store : SessionStore) (drawn : ℕ)
    (lngTimeOutSetting dtExpires : BitVec 32) (blnSnifQueryStringFirst : Bool)
    (cookie query : Option Guid) :
    Fresh ((Request.start store drawn lngTimeOutSetting dtExpires
      blnSnifQueryStringFirst : Request loc).identify cookie query) := by
  cases blnSnifQueryStringFirst <;> cases cookie <;> cases query <;>
    exact ⟨rfl, rfl, rfl, rfl, rfl, rfl, rfl, rfl,
      fun id h => by cases h <;> exact ⟨rfl, rfl, rfl⟩,
      fun h => by cases h <;> exact ⟨_, rfl⟩⟩

/-- INTERNAL: the thread has its own locale then. -/
theorem threadLocale_identify (store : SessionStore) (drawn : ℕ)
    (lngTimeOutSetting dtExpires : BitVec 32) (blnSnifQueryStringFirst : Bool)
    (cookie query : Option Guid) :
    ((Request.start store drawn lngTimeOutSetting dtExpires
      blnSnifQueryStringFirst : Request loc).identify cookie query).threadLocale = none := by
  cases blnSnifQueryStringFirst <;> cases cookie <;> cases query <;> rfl

/-! ## The locale of a session -/

/-- The locale that a session with these contents stores. -/
def localeOf (c : Contents loc) : Option (BitVec 32) :=
  Request.storedLocale p ((c.find Request.lcidName).getD .empty)

variable (loc) in
/-- The locale, if there is one, orders names as the dictionary does. -/
def InOrder (locale : Option (BitVec 32)) : Prop :=
  ∀ lcid, locale = some lcid → (p.collation lcid).compare = loc.compare

/-- INTERNAL: a thread that was given no locale has the dictionary's order. -/
theorem inOrder_none : InOrder loc p none := by
  intro lcid hlcid
  cases hlcid

/-- INTERNAL: so does the one that takes its place. -/
theorem InOrder.or {locale locale' : Option (BitVec 32)} (h : InOrder loc p locale)
    (h' : InOrder loc p locale') : InOrder loc p (locale.or locale') := by
  cases locale with
  | none => exact h'
  | some lcid => exact h

/-- What is held can be read back, and used: every object is loaded from its stream, and the
locale that is stored orders names as the dictionary does. -/
structure Reloadable (c : Contents loc) : Prop where
  objects : ∀ key, Loadable p.oleLoad c key
  ordered : InOrder loc p (localeOf p c)

/-- INTERNAL: a session without variables stores no locale. -/
theorem reloadable_empty : Reloadable p (.empty : Contents loc) := by
  constructor
  · intro key e he
    cases he
  · exact inOrder_none p

/-- INTERNAL: an object is no locale, however it is held. -/
theorem storedLocale_persisted (v : Variant) :
    Request.storedLocale p (persisted v) = Request.storedLocale p v := by
  cases v with
  | dispatch o => rcases o with _ | ⟨_ | _, _ | _⟩ | _ <;> rfl
  | unknown o => rcases o with _ | ⟨_ | _, _ | _⟩ | _ <;> rfl
  | _ => rfl

/-! ## `dbInit` -/

/-- INTERNAL: a record that is there is opened. -/
theorem openOrInsert_found {r : Request loc} {record : SessionRecord}
    (hrecord : r.store r.guid = some record) :
    r.openOrInsert p = (.sOk, rowsetOf record, false, r) := by
  rw [Request.openOrInsert, openRowset_eq_some _ _ hrecord]
  rfl

/-- INTERNAL: an id that may come from where it comes from is not refused. -/
theorem checkReEntrance_admits {r : Request loc} {record : SessionRecord}
    (hadmitted : r.blnFoundURLGuid = true → record.metaData.m_ReEntrance = true) :
    r.checkReEntrance p (rowsetOf record) = r := by
  rw [Request.checkReEntrance, if_neg]
  rintro ⟨-, -, hurl, hforbids⟩
  exact hforbids (hadmitted hurl)

/-- INTERNAL: a session that is not liquid keeps its id. -/
theorem renewed_solid {r : Request loc} (h : r.blnLiquid = false) : renewed p r = r :=
  if_neg (by rw [Bool.not_eq_true]; exact h)

/-- INTERNAL: the end of `dbInit` sends a cookie or not, may load an object and gives the
thread the locale that is stored. -/
theorem endInit_spec {r : Request loc} (h : Exact r.m_piVarDict)
    (hload : Loadable p.oleLoad (contents r.m_piVarDict) Request.lcidName) (hr : HResult)
    (bDidInsert : Bool) :
    ∃ d cookies, Keeps r.m_piVarDict d ∧
      r.endInit p hr bDidInsert = .ok (hr,
        { r with
          m_piVarDict := d
          cookies := cookies
          threadLocale := (localeOf p (contents r.m_piVarDict)).or r.threadLocale
          bErrState := r.bErrState || hr.failed }) := by
  obtain ⟨v, d, hget, hkeeps, hheld⟩ := h.getItem hload
  have hlocale : Request.storedLocale p v = localeOf p (contents r.m_piVarDict) := by
    rw [← storedLocale_persisted, hheld]
    rfl
  unfold Request.endInit
  split
  · refine ⟨d, { value := r.strGUID, expires := r.dtExpires } :: r.cookies, hkeeps, ?_⟩
    simp only [Request.writeCookie, hget, Run.ok_bind, if_true, hlocale]
    rfl
  · refine ⟨d, r.cookies, hkeeps, ?_⟩
    simp only [hget, Run.ok_bind, if_true, hlocale]
    rfl

/-- INTERNAL: the test of an id leaves a dictionary without variables, and its flags. -/
theorem checkReEntrance_spec (rowset : SessionStore.Rowset) {r : Request loc}
    (hd : r.m_piVarDict.dictionary = .empty) :
    (r.checkReEntrance p rowset).m_piVarDict.dictionary = .empty ∧
    (r.checkReEntrance p rowset).m_piVarDict.blnDirty = r.m_piVarDict.blnDirty ∧
    (r.checkReEntrance p rowset).m_piVarDict.readOnly = r.m_piVarDict.readOnly ∧
    (r.checkReEntrance p rowset).bErrState = r.bErrState ∧
    (r.checkReEntrance p rowset).threadLocale = r.threadLocale := by
  unfold Request.checkReEntrance
  split
  · refine ⟨rfl, ?_, ?_, ?_, ?_⟩ <;> simp [Request.newID, VariantDictionary.removeAll]
  · exact ⟨hd, rfl, rfl, rfl, rfl⟩

/-- INTERNAL: a new id leaves the error state and the locale alone. -/
theorem bErrState_renewed (r : Request loc) :
    (renewed p r).bErrState = r.bErrState ∧ (renewed p r).threadLocale = r.threadLocale := by
  obtain ⟨_, _, _, _, h⟩ := renewed_frame p r
  rw [h]
  exact ⟨rfl, rfl⟩

/-- INTERNAL: another dictionary changes nothing about the ids. -/
theorem renewed_opened (r : Request loc) (record : SessionRecord) (d d' : VariantDictionary loc) :
    { renewed p (opened r record d) with m_piVarDict := d' } = renewed p (opened r record d') := by
  unfold renewed Request.newID opened
  dsimp only
  split
  · split <;> rfl
  · rfl

/-- **`dbInit` with a record** loads what the record holds, whatever the test of an id
from the query string says. -/
theorem dbInit_spec {r : Request loc} {record : SessionRecord} {c : Contents loc}
    (herr : r.bErrState = false) (hrecord : r.store r.guid = some record) (h : Holds record c)
    (hd : r.m_piVarDict.dictionary = .empty)
    (hload : Loadable p.oleLoad c Request.lcidName) :
    ∃ d cookies, Filled r.m_piVarDict d c ∧
      r.dbInit p = .ok (.sOk,
        { renewed p (opened (r.checkReEntrance p (rowsetOf record)) record d) with
          bErrState := false
          cookies := cookies
          threadLocale := (localeOf p c).or r.threadLocale }) := by
  have hopen := openOrInsert_found p hrecord
  obtain ⟨hdict, hdirty, hro, herr', hlocale⟩ := checkReEntrance_spec p (rowsetOf record) hd
  obtain ⟨d, hfilled, hloaded⟩ :=
    loadRecord_spec p h (r.checkReEntrance p (rowsetOf record)) hdict
  have hsame : (renewed p (opened (r.checkReEntrance p (rowsetOf record)) record d)).m_piVarDict
      = d := m_piVarDict_renewed p _
  obtain ⟨d', cookies, hkeeps, hend⟩ := endInit_spec p (hsame.symm ▸ hfilled.exact)
    (by rw [hsame, hfilled.contents]; exact hload) .sOk false
  rw [hsame] at hkeeps
  refine ⟨d', cookies, ⟨hkeeps.exact, hkeeps.contents.trans hfilled.contents,
    hkeeps.blnDirty.trans (hfilled.blnDirty.trans hdirty),
    hkeeps.readOnly.trans (hfilled.readOnly.trans hro)⟩, ?_⟩
  obtain ⟨herr₂, hlocale₂⟩ :=
    bErrState_renewed p (opened (r.checkReEntrance p (rowsetOf record)) record d)
  replace herr₂ := herr₂.trans (herr'.trans herr)
  replace hlocale₂ := hlocale₂.trans hlocale
  rw [Request.dbInit, if_neg (by simp [herr])]
  simp only [hopen, HResult.failed, Bool.false_eq_true, if_false, hloaded, Run.ok_bind, hend,
    herr₂, hlocale₂, hsame, hfilled.contents, Bool.or_false, ← renewed_opened p _ record d d']

/-- A request that goes on with a session it has inserted. -/
def inserted (r : Request loc) : Request loc :=
  { r with
    blnNew := true
    blnExpired := r.blnExpired || !r.blnNew
    guid := p.random r.drawn
    oldGuid := p.random r.drawn
    strGUID := some (p.random r.drawn)
    drawn := r.drawn + 1
    lngTimeout := r.lngTimeOutSetting
    store := Function.update r.store (p.random r.drawn) (some
      { metaData :=
          { m_Expires := r.lngTimeOutSetting
            m_ReEntrance := r.blnReEntrance
            m_Liquid := r.blnLiquid
            m_zLen := 0 }
        payload := []
        ttl := SessionStore.seconds r.lngTimeOutSetting })
    cookies := { value := some (p.random r.drawn), expires := r.dtExpires } :: r.cookies }

/-- **`dbInit` without a record** inserts one under a new id. -/
theorem dbInit_inserts {r : Request loc} (herr : r.bErrState = false)
    (hnone : r.store r.guid = none) (htime : 0 < SessionStore.seconds r.lngTimeOutSetting)
    (hd : r.m_piVarDict.dictionary = .empty) :
    r.dbInit p = .ok (.sOk, inserted p r) := by
  -- a new session gets a new id whether it is liquid or not
  have hid : Request.newID p { r with blnExpired := r.blnExpired || !r.blnNew, blnNew := true } =
      { r with
        blnExpired := r.blnExpired || !r.blnNew
        blnNew := true
        guid := p.random r.drawn
        strGUID := some (p.random r.drawn)
        drawn := r.drawn + 1 } := by
    simp [Request.newID]
  have hopen : ∃ rowset, r.openOrInsert p =
      (.sOk, rowset, true, { inserted p r with cookies := r.cookies }) := by
    rw [Request.openOrInsert, SessionStore.openRowset, hnone]
    simp only [if_true, hid, SessionStore.sessionInsert, set_eq _ _ _ _ htime, HResult.failed,
      Bool.false_eq_true, if_false]
    rw [openRowset_eq_some _ _ (Function.update_self _ _ _)]
    exact ⟨_, rfl⟩
  obtain ⟨rowset, hopen⟩ := hopen
  have hcheck : Request.checkReEntrance p rowset { inserted p r with cookies := r.cookies } =
      { inserted p r with cookies := r.cookies } := by
    rw [Request.checkReEntrance, if_neg fun h => h.1 rfl]
  have hget : r.m_piVarDict.getItem p.oleLoad Request.lcidName =
      .ok (.sOk, .empty, r.m_piVarDict) := by
    rw [VariantDictionary.getItem, VariantDictionary.getVariable, hd]
    rfl
  have hnoLocale : Request.storedLocale p .empty = none := rfl
  rw [Request.dbInit, if_neg (by simp [herr])]
  simp only [hopen, HResult.failed, Bool.false_eq_true, if_false, if_true, hcheck,
    Run.pure_eq, Run.ok_bind]
  rw [Request.endInit, if_pos (.inr (.inl rfl))]
  simp only [Request.writeCookie, inserted, hget, Run.ok_bind, HResult.failed, Bool.or_false,
    Run.pure_eq, if_true, hnoLocale, Option.none_or]

/-! ## `OnStartPage` -/

/-- INTERNAL: one object after the other is loaded, and the dictionary holds the same. -/
theorem invokeOnStartPage_spec {d : VariantDictionary loc} (h : Exact d)
    (hload : ∀ key, Loadable p.oleLoad (contents d) key) (keys : List Bstr) :
    ∃ d', Request.invokeOnStartPage p d keys = .ok d' ∧ Keeps d d' := by
  induction keys generalizing d with
  | nil => exact ⟨d, rfl, h, rfl, rfl, rfl⟩
  | cons key keys ih =>
    obtain ⟨v, d₁, hget, hkeeps, -⟩ := h.getItem (hload key)
    have hnext : ∃ d', Request.invokeOnStartPage p d₁ keys = .ok d' ∧ Keeps d d' := by
      obtain ⟨d', hrun, hkeeps'⟩ := ih hkeeps.exact fun key => hkeeps.contents.symm ▸ hload key
      exact ⟨d', hrun, hkeeps'.exact, hkeeps'.contents.trans hkeeps.contents,
        hkeeps'.readOnly.trans hkeeps.readOnly, hkeeps'.blnDirty.trans hkeeps.blnDirty⟩
    rw [Request.invokeOnStartPage]
    split
    · simpa [hget, HResult.failed] using hnext
    · simpa [hget, HResult.failed] using hnext
    · exact ih h hload

/-- **`OnStartPage`** after `dbInit` has succeeded leaves what was loaded as it was. -/
theorem onStartPage_spec {r r₁ : Request loc} {cookie query : Option Guid}
    (hinit : (r.identify cookie query).dbInit p = .ok (.sOk, r₁))
    (h : Exact r₁.m_piVarDict) (hload : ∀ key, Loadable p.oleLoad (contents r₁.m_piVarDict) key) :
    ∃ d, Keeps r₁.m_piVarDict d ∧
      r.onStartPage p cookie query = .ok (.sOk, { r₁ with m_piVarDict := d }) := by
  have hinit' : r.initializeSession p cookie query = .ok (.sOk, r₁) := by
    simp only [Request.initializeSession, hinit, Run.ok_bind, HResult.failed, Bool.or_false,
      Run.pure_eq]
  obtain ⟨d, hrun, hkeeps⟩ := invokeOnStartPage_spec p h hload r₁.m_piVarDict.dictionary.keys
  refine ⟨d, hkeeps, ?_⟩
  simp only [Request.onStartPage, hinit', Run.ok_bind, if_true, hrun, Run.pure_eq]

end IspSession.Analysis
