import IspSession.Analysis.SessionRuns
import IspSession.Analysis.RequestFrames
import IspSession.Analysis.WriterProgress

/-!
# The settings of a session

The timeout, re-entrance and liquid settings lie in front of the variables and are written
together with them, by a `PersistSession` that looks at the dictionary only. When it has
not changed, the record keeps its old settings; and what is set after an `Execute` or a
`Transfer` has saved the session is never written; and a page that they run reads, changes and
leaves the record, not what the request has set. `SettingsNoted` is the condition under which the
record gets the settings in force, in front of a page and at the end of the request.
-/

set_option autoImplicit false

namespace IspSession.Analysis

open IspSession.Library IspSession.Model

/-- The settings of a session. -/
structure Settings where
  timeout : BitVec 32
  reEntrance : Bool
  liquid : Bool
  deriving DecidableEq

/-- Those a record holds. -/
def storedSettings (record : SessionRecord) : Settings :=
  ⟨record.metaData.m_Expires, record.metaData.m_ReEntrance, record.metaData.m_Liquid⟩

variable {loc : Collation} (p : Platform)

/-- Those in force in a request. -/
def settingsOf (r : Request loc) : Settings := ⟨r.lngTimeout, r.blnReEntrance, r.blnLiquid⟩

/-- The settings with those that a page has changed in the record it has found; the liquid setting
is that of the request, which puts it back. -/
def Settings.withChanges (s found left : Settings) : Settings where
  timeout := if left.timeout = found.timeout then s.timeout else left.timeout
  reEntrance := if left.reEntrance = found.reEntrance then s.reEntrance else left.reEntrance
  liquid := s.liquid

/-- The records that a page finds and leaves. -/
def pageRecords (r : Request loc) (page : Page) : Option (SessionRecord × SessionRecord) := do
  let (_, saved) ← (Request.persistSession p { r with blnLiquid := false }).toOption
  let found ← saved.store r.guid
  let left ← (page saved.store).2 r.guid
  return (found, left)

/-- The settings after an action, as they have been set last: by the request, or by a page that
it runs. -/
def lastSet (r : Request loc) (s : Settings) : Request.Action → Settings
  | .call (.putTimeOut pVal) => { s with timeout := pVal }
  | .call (.putReEntrance newVal) => { s with reEntrance := newVal }
  | .call (.putLiquidCookie newVal) => { s with liquid := newVal }
  | .call (.execute (some page)) | .call (.transfer page) =>
    match pageRecords p r page with
    | some (found, left) => s.withChanges (storedSettings found) (storedSettings left)
    | none => s
  | _ => s

/-- The settings after the actions of a request that has begun with these. -/
def settingsLastSet : List Request.Action → Request loc → Settings → Settings
  | [], _, s => s
  | a :: actions, r, s =>
    match r.act p a with
    | .ok r' => settingsLastSet actions r' (lastSet p r s a)
    | .error _ => s

/-- **The settings survive**: those that have been set last, and else those the session had, are
in force at the end and in the record under the id the client has, and any next request with that
id that gets through `dbInit` has them. -/
def SettingsSurvive (wanted : Settings) (r : Request loc) : Prop :=
  settingsOf r = wanted ∧ ∃ id record, r.strGUID = some id ∧ r.store id = some record ∧
    storedSettings record = wanted ∧
    ∀ (drawn : ℕ) (lngTimeOutSetting dtExpires : BitVec 32) (blnSnifQueryStringFirst : Bool)
      (hr : HResult) (next : Request loc),
      ((Request.start r.store drawn lngTimeOutSetting dtExpires
        blnSnifQueryStringFirst).identify (some id) none).dbInit p = .ok (hr, next) →
      settingsOf next = wanted

/-! ## Reading the settings -/

/-- INTERNAL: reading a record takes over its settings, and renews the id of a liquid one. -/
theorem loadRecord_opens {r r' : Request loc} {record : SessionRecord} {hr hr' : HResult}
    (hrun : r.loadRecord p (rowsetOf record) hr = .ok (hr', r')) :
    ∃ d, r' = renewed p (opened r record d) := by
  have hrenew : ∀ (hr₁ : HResult) (d : VariantDictionary loc),
      (if (opened r record d).blnLiquid = true then
        (pure (.sOk, (opened r record d).newID p) : Run (HResult × Request loc))
        else pure (hr₁, opened r record d)) = .ok (hr', r') →
      ∃ d, r' = renewed p (opened r record d) := by
    intro hr₁ d h
    unfold renewed
    split at h
    · rename_i hliquid
      cases h
      exact ⟨d, (if_pos hliquid).symm⟩
    · rename_i hliquid
      cases h
      exact ⟨d, (if_neg hliquid).symm⟩
  unfold Request.loadRecord at hrun
  dsimp only at hrun
  split at hrun
  · rw [Run.pure_eq, Run.ok_bind] at hrun
    exact hrenew hr r.m_piVarDict hrun
  · obtain ⟨⟨hr₂, d, s⟩, -, hrun⟩ := Run.bind_eq_ok hrun
    exact hrenew hr₂ d hrun

/-- INTERNAL: `dbInit` with a record whose session is not refused. -/
theorem dbInit_opens {r r' : Request loc} {record : SessionRecord} {hr : HResult}
    (herr : r.bErrState = false) (hrecord : r.store r.guid = some record)
    (hadmitted : r.blnFoundURLGuid = true → record.metaData.m_ReEntrance = true)
    (hrun : r.dbInit p = .ok (hr, r')) :
    ∃ d cookies locale, r' =
      { renewed p (opened r record d) with
        cookies := cookies
        threadLocale := locale
        bErrState := hr.failed } := by
  have hopen := openOrInsert_found p hrecord
  have hcheck := checkReEntrance_admits p hadmitted
  rw [Request.dbInit, if_neg (by simp [herr])] at hrun
  simp only [hopen, HResult.failed, Bool.false_eq_true, if_false, hcheck] at hrun
  obtain ⟨⟨hr₂, r₂⟩, hread, hend⟩ := Run.bind_eq_ok hrun
  obtain ⟨d, rfl⟩ := loadRecord_opens p hread
  obtain ⟨rfl, d', cookies, locale, -, rfl⟩ := endInit_frame p hend
  refine ⟨d', cookies, locale, ?_⟩
  have herr' : (renewed p (opened r record d)).bErrState = false :=
    (bErrState_renewed p _).1.trans herr
  rw [← renewed_opened p r record d d']
  dsimp only
  rw [herr', Bool.false_or]

/-- INTERNAL: the settings of a session with a new id. -/
theorem settingsOf_renewed (r : Request loc) (record : SessionRecord) (d : VariantDictionary loc) :
    settingsOf (renewed p (opened r record d)) = storedSettings record := by
  obtain ⟨_, _, _, _, h⟩ := renewed_frame p (opened r record d)
  rw [h]
  rfl

/-- **The next request takes the settings over** from the record under its id. -/
theorem settings_of_next {store : SessionStore} {id : Guid} {record : SessionRecord}
    (hrecord : store id = some record) (drawn : ℕ) (lngTimeOutSetting dtExpires : BitVec 32)
    (blnSnifQueryStringFirst : Bool) {hr : HResult} {next : Request loc}
    (hrun : ((Request.start store drawn lngTimeOutSetting dtExpires
      blnSnifQueryStringFirst).identify (some id) none).dbInit p = .ok (hr, next)) :
    settingsOf next = storedSettings record := by
  cases blnSnifQueryStringFirst <;>
  · obtain ⟨d, cookies, locale, rfl⟩ := dbInit_opens p rfl hrecord (fun h => by cases h) hrun
    exact settingsOf_renewed p _ record d

/-! ## Where the record is -/

/-- The session has its record under `oldGuid`, and an id of its own that follows it. -/
structure Sited (r : Request loc) : Prop where
  live : r.blnPersistDoneByOnEndPage = false → r.bErrState = false
  kept : r.blnCancel = false
  writable : r.bReadonly = false
  notNew : r.blnNew = false
  sent : r.strGUID = some r.guid
  solid : r.blnLiquid = false → r.guid = r.oldGuid
  liquid : r.blnLiquid = true → r.m_OldSessionId = some r.oldGuid
  record : ∃ record, r.store r.oldGuid = some record ∧
    (r.blnPersistDoneByOnEndPage = true → record.metaData.m_Liquid = false)

/-- INTERNAL: it is saved under the id sent. -/
theorem Sited.savedUnder {r : Request loc} (h : Sited r) : savedUnder r = r.guid := by
  unfold Analysis.savedUnder
  cases hliquid : r.blnLiquid with
  | true => rfl
  | false => exact (h.solid hliquid).symm

/-- **`PersistSession` writes the settings with the variables**, or not at all. -/
theorem persistSession_settings {r r' : Request loc} {hr : HResult} {record : SessionRecord}
    (h : Persists r) (hrecord : r.store r.oldGuid = some record)
    (htime : 0 < SessionStore.seconds r.lngTimeout)
    (hrun : r.persistSession p = .ok (hr, r')) :
    hr = .sOk ∧ ∃ d store record', r' =
        { r with m_piVarDict := d, store := store, blnPersistDoneByOnEndPage := true } ∧
      store (savedUnder r) = some record' ∧
      storedSettings record' = if Unsaved r then settingsOf r else storedSettings record := by
  by_cases hunsaved : Unsaved r
  · have hyes : r.m_piVarDict.blnDirty = true ∨ r.blnNew = true ∨ r.blnExpired = true := hunsaved
    cases hwrite : r.m_piVarDict.localContents p.mem with
    | error e =>
      rw [Request.persistSession, if_neg (by simp [h.pending]), if_neg (by simp [h.noError])]
        at hrun
      simp only [h.kept, h.writable, hyes, Bool.false_eq_true, not_false_eq_true, and_self,
        if_true, hwrite, Run.error_bind] at hrun
      cases hrun
    | ok res =>
      obtain ⟨hr₁, lSize, stream, d⟩ := res
      have hsaved : r.persistSession p = .ok (.sOk,
          { r with
            m_piVarDict := d
            store := Function.update (movedStore r) (savedUnder r) (some
              { metaData :=
                  { m_Expires := r.lngTimeout
                    m_ReEntrance := r.blnReEntrance
                    m_Liquid := r.blnLiquid
                    m_zLen := lSize }
                payload := stream.rest
                ttl := SessionStore.seconds r.lngTimeout })
            blnPersistDoneByOnEndPage := true }) := by
        rw [Request.persistSession, if_neg (by simp [h.pending]), if_neg (by simp [h.noError])]
        simp only [h.kept, h.writable, hyes, Bool.false_eq_true, not_false_eq_true, and_self,
          if_true, hwrite, Run.pure_eq, Run.ok_bind, sessionSave_eq,
          if_neg (buf_localContents hwrite), set_eq _ _ _ _ htime, HResult.failed, Bool.or_false,
          h.noError]
      rw [hsaved] at hrun
      cases hrun
      refine ⟨rfl, d, _, _, rfl, Function.update_self _ _ _, ?_⟩
      rw [if_pos hunsaved]
      rfl
  · rw [persistSession_touches p h hunsaved] at hrun
    cases hrun
    refine ⟨rfl, r.m_piVarDict, _, _, rfl,
      expire_apply_self _ _ (movedStore_apply_saved hrecord) htime, ?_⟩
    rw [if_neg hunsaved]
    rfl

/-! ## One action -/

/-- The record has the settings in force, or gets them when the session is saved. -/
def SettingsNoted (r : Request loc) : Prop :=
  Saves r ∨ ∃ record, r.store r.oldGuid = some record ∧ storedSettings record = settingsOf r

/-- A page that leaves a solid session with a solid record, which still allows a URL, and with the
settings it had where they are not read again. -/
def PageKeeps (url : Bool) (unread : HResult → Bool) (id : Guid) (page : Page) : Prop :=
  ∀ (store : SessionStore) (record : SessionRecord), store id = some record →
    record.metaData.m_Liquid = false → (url = true → record.metaData.m_ReEntrance = true) →
    ∃ record', (page store).2 id = some record' ∧ record'.metaData.m_Liquid = false ∧
      (url = true → record'.metaData.m_ReEntrance = true) ∧
      (unread (page store).1 = true → storedSettings record' = storedSettings record)

/-- A session that can be saved for a page: it is solid, and its record gets its settings. -/
structure SavedForPage (r : Request loc) (unread : HResult → Bool) (page : Page) : Prop where
  notLiquid : r.blnLiquid = false
  settings : SettingsNoted r
  admitted : r.blnFoundURLGuid = true → r.blnReEntrance = true
  time : r.blnPersistDoneByOnEndPage = false → 0 < SessionStore.seconds r.lngTimeout
  keeps : PageKeeps r.blnFoundURLGuid unread r.guid page

/-- The condition on an action. A session in an error state is not read again, nor is one whose
page has failed in a `Transfer`. -/
def KeepsSettings (r : Request loc) : Request.Action → Prop
  | .call (.execute (some page)) => SavedForPage r (fun _ => r.bErrState) page
  | .call (.transfer page) => SavedForPage r (fun hr => r.bErrState || hr.failed) page
  | .call .abandon | .call (.putReadonly _) => False
  | _ => True

/-- INTERNAL: what is set last by a page. -/
theorem lastSet_page (r : Request loc) (page : Page) :
    lastSet p r (settingsOf r) (.call (.transfer page)) =
      (pageRecords p r page).elim (settingsOf r) fun e =>
        (settingsOf r).withChanges (storedSettings e.1) (storedSettings e.2) := by
  rw [lastSet]
  cases pageRecords p r page <;> rfl

/-- INTERNAL: the settings with the changes of a page that has found them. -/
theorem withChanges_self (s left : Settings) :
    s.withChanges s left = { left with liquid := s.liquid } := by
  unfold Settings.withChanges
  congr 1
  · split
    · rename_i hsame
      exact hsame.symm
    · rfl
  · split
    · rename_i hsame
      exact hsame.symm
    · rfl

/-- INTERNAL: the session saved for a page, and the records the page finds and leaves. -/
theorem Sited.saveForPage {r r' : Request loc} {hr : HResult} {unread : HResult → Bool}
    {page : Page} (h : Sited r) (hpage : SavedForPage r unread page)
    (hrun : Request.persistSession p { r with blnLiquid := false } = .ok (hr, r')) :
    hr = .sOk ∧ ∃ d store record, r' =
        { r with m_piVarDict := d, store := store, blnPersistDoneByOnEndPage := true } ∧
      (page store).2 r.guid = some record ∧ record.metaData.m_Liquid = false ∧
      (r.blnFoundURLGuid = true → record.metaData.m_ReEntrance = true) ∧
      (unread (page store).1 = true → storedSettings record = settingsOf r) ∧
      ((pageRecords p r page).elim (settingsOf r) fun e =>
        (settingsOf r).withChanges (storedSettings e.1) (storedSettings e.2)) =
          storedSettings record := by
  obtain ⟨d, store, found, hok, rfl, hfound, hsettings⟩ : ∃ d store found, hr = .sOk ∧ r' =
      { r with m_piVarDict := d, store := store, blnPersistDoneByOnEndPage := true } ∧
      store r.guid = some found ∧ storedSettings found = settingsOf r := by
    rw [eq_of_notLiquid hpage.notLiquid] at hrun
    obtain ⟨record, hrecord, -⟩ := h.record
    have hhere := h.solid hpage.notLiquid
    cases hdone : r.blnPersistDoneByOnEndPage with
    | true =>
      rw [Request.persistSession, if_pos hdone] at hrun
      cases hrun
      rcases hpage.settings with hs | ⟨record', hrecord', hsame⟩
      · exact absurd (hdone.symm.trans hs.1) (by simp)
      · exact ⟨r.m_piVarDict, r.store, record', rfl, by rw [← hdone], hhere ▸ hrecord', hsame⟩
    | false =>
      obtain ⟨hok, d, store, record', hr', hstored, hsettings⟩ := persistSession_settings p
        ⟨hdone, h.live hdone, h.kept, h.writable⟩ hrecord (hpage.time hdone) hrun
      rw [h.savedUnder] at hstored
      refine ⟨d, store, record', hok, hr', hstored, hsettings.trans ?_⟩
      split
      · rfl
      · rename_i hunsaved
        rcases hpage.settings with hs | ⟨record'', hrecord', hsame⟩
        · exact absurd hs.2 hunsaved
        · rw [hrecord] at hrecord'
          obtain rfl := Option.some.inj hrecord'
          exact hsame
  have hsolid : found.metaData.m_Liquid = false :=
    (congrArg Settings.liquid hsettings).trans hpage.notLiquid
  obtain ⟨record, hleft, hliquid, hadmitted, hunread⟩ := hpage.keeps store found hfound hsolid
    fun hurl => (congrArg Settings.reEntrance hsettings).trans (hpage.admitted hurl)
  refine ⟨hok, d, store, record, rfl, hleft, hliquid, hadmitted,
    fun hno => (hunread hno).trans hsettings, ?_⟩
  have hrecords : pageRecords p r page = some (found, record) := by
    rw [pageRecords, hrun]
    change ((store r.guid).bind fun found => ((page store).2 r.guid).bind fun left =>
      some (found, left)) = _
    rw [hfound, hleft]
    rfl
  rw [hrecords, Option.elim_some, hsettings, withChanges_self]
  rw [show (settingsOf r).liquid = false from hpage.notLiquid, ← hliquid]
  rfl

/-- INTERNAL: after the page the session is where it was, whether it is read again or not. -/
theorem Sited.afterPage {r r' : Request loc} (h : Sited r) (hliquid : r.blnLiquid = false)
    {record : SessionRecord} (hrecord : r'.store r.guid = some record)
    (hsolid : record.metaData.m_Liquid = false) (hdone : r'.blnPersistDoneByOnEndPage = true)
    (hsame : r'.blnCancel = r.blnCancel ∧ r'.bReadonly = r.bReadonly ∧ r'.blnNew = false ∧
      r'.strGUID = r.strGUID ∧ r'.guid = r.guid ∧ r'.oldGuid = r.oldGuid ∧
      r'.blnLiquid = false) : Sited r' := by
  obtain ⟨hcancel, hro, hnew, hsent, hguid, hold, hnotLiquid⟩ := hsame
  have hhere := h.solid hliquid
  refine ⟨fun hnot => absurd (hdone.symm.trans hnot) (by simp), hcancel.trans h.kept,
    hro.trans h.writable, hnew, ?_, fun _ => ?_, fun hl => ?_, record, ?_, fun _ => hsolid⟩
  · rw [hsent, hguid, h.sent]
  · rw [hguid, hold, hhere]
  · exact absurd (hnotLiquid.symm.trans hl) (by simp)
  · rw [hold, ← hhere, hrecord]

/-- INTERNAL: what the session is read from after a page. -/
def forPage (r : Request loc) (d : VariantDictionary loc) (store : SessionStore) : Request loc :=
  { r with
    m_piVarDict := d
    store := store
    blnPersistDoneByOnEndPage := true
    blnNew := false
    blnExpired := false }

/-- INTERNAL: reading the session again after a page. -/
theorem Sited.readAgain {r r' : Request loc} {hr : HResult} (h : Sited r)
    (hliquid : r.blnLiquid = false) {d : VariantDictionary loc} {store : SessionStore}
    {record : SessionRecord} (hrecord : store r.guid = some record)
    (hsolid : record.metaData.m_Liquid = false)
    (hadmitted : r.blnFoundURLGuid = true → record.metaData.m_ReEntrance = true)
    (hunread : r.bErrState = true → storedSettings record = settingsOf r)
    (hrun : (forPage r d store).dbInit p = .ok (hr, r')) :
    Sited { r' with blnLiquid := r.blnLiquid } ∧
      settingsOf { r' with blnLiquid := r.blnLiquid } = storedSettings record := by
  cases herr : r.bErrState with
  | true =>
    rw [Request.dbInit, if_pos (show (forPage r d store).bErrState = true from herr)] at hrun
    cases hrun
    exact ⟨h.afterPage hliquid hrecord hsolid rfl ⟨rfl, rfl, rfl, rfl, rfl, rfl, hliquid⟩,
      (hunread herr).symm⟩
  | false =>
    obtain ⟨d', cookies, locale, rfl⟩ :=
      dbInit_opens p (r := forPage r d store) herr hrecord hadmitted hrun
    have hsame : renewed p (opened (forPage r d store) record d') =
        opened (forPage r d store) record d' :=
      renewed_solid p hsolid
    rw [hsame]
    refine ⟨h.afterPage hliquid hrecord hsolid rfl ⟨rfl, rfl, rfl, rfl, rfl, rfl, hliquid⟩, ?_⟩
    rw [hliquid, ← hsolid]
    rfl

/-- INTERNAL: `Execute`. -/
theorem Sited.execute {r r' : Request loc} {hr : HResult} {page : Page} (h : Sited r)
    (hpage : SavedForPage r (fun _ => r.bErrState) page)
    (hrun : r.execute p (some page) = .ok (hr, r')) :
    Sited r' ∧ settingsOf r' = lastSet p r (settingsOf r) (.call (.execute (some page))) := by
  obtain ⟨⟨hr₁, r₁⟩, hsave, hrun⟩ := Run.bind_eq_ok hrun
  obtain ⟨rfl, d, store, record, rfl, hrecord, hsolid, hadmitted, hunread, hset⟩ :=
    h.saveForPage p hpage hsave
  obtain ⟨⟨hr₂, r₂⟩, hinit, hrun⟩ := Run.bind_eq_ok hrun
  cases hrun
  obtain ⟨hsited, hsettings⟩ :=
    h.readAgain p hpage.notLiquid hrecord hsolid hadmitted hunread hinit
  exact ⟨hsited, hsettings.trans (hset.symm.trans (lastSet_page p r page).symm)⟩

/-- INTERNAL: `Transfer`, whether the page succeeds or not. -/
theorem Sited.transfer {r r' : Request loc} {hr : HResult} {page : Page} (h : Sited r)
    (hpage : SavedForPage r (fun hr => r.bErrState || hr.failed) page)
    (hrun : r.transfer p page = .ok (hr, r')) :
    Sited r' ∧ settingsOf r' = lastSet p r (settingsOf r) (.call (.transfer page)) := by
  obtain ⟨⟨hr₁, r₁⟩, hsave, hrun⟩ := Run.bind_eq_ok hrun
  obtain ⟨rfl, d, store, record, rfl, hrecord, hsolid, hadmitted, hunread, hset⟩ :=
    h.saveForPage p hpage hsave
  have hlast := hset.symm.trans (lastSet_page p r page).symm
  dsimp only at hrun
  split at hrun
  · rename_i hfailed
    cases hfailed
  · split at hrun
    · rename_i hfailed
      cases hrun
      refine ⟨h.afterPage hpage.notLiquid hrecord hsolid rfl
        ⟨rfl, rfl, rfl, rfl, rfl, rfl, hpage.notLiquid⟩, Eq.trans ?_ hlast⟩
      have hkept := hunread (by rw [hfailed, Bool.or_true])
      exact hkept.symm
    · obtain ⟨⟨hr₂, r₂⟩, hinit, hrun⟩ := Run.bind_eq_ok hrun
      cases hrun
      obtain ⟨hsited, hsettings⟩ := h.readAgain p hpage.notLiquid hrecord hsolid hadmitted
        (fun herr => hunread (by rw [herr, Bool.true_or])) hinit
      exact ⟨hsited, hsettings.trans hlast⟩

/-- INTERNAL: `put_LiquidCookie`. -/
theorem Sited.putLiquidCookie {r : Request loc} (h : Sited r) (newVal : Bool) :
    Sited (r.putLiquidCookie p newVal).2 ∧
      settingsOf (r.putLiquidCookie p newVal).2 = { settingsOf r with liquid := newVal } := by
  unfold Request.putLiquidCookie
  rw [if_neg (by simp [h.writable])]
  obtain ⟨record, hrecord, hsolid⟩ := h.record
  cases hliquid : r.blnLiquid with
  | true =>
    cases newVal with
    | true => exact ⟨h, congrArg (Settings.mk r.lngTimeout r.blnReEntrance) hliquid⟩
    | false =>
      simp only [h.liquid hliquid, Bool.false_eq_true, if_false, if_true, Request.writeCookie]
      exact ⟨⟨h.live, h.kept, h.writable, h.notNew, rfl, fun _ => rfl, (fun hl => by cases hl),
        record, hrecord, hsolid⟩, rfl⟩
  | false =>
    cases newVal with
    | false => exact ⟨h, congrArg (Settings.mk r.lngTimeout r.blnReEntrance) hliquid⟩
    | true =>
      have hhere := h.solid hliquid
      have hnew : Request.newID p { r with blnLiquid := true, oldGuid := r.guid } =
          { r with
            blnLiquid := true
            oldGuid := r.guid
            m_OldSessionId := r.strGUID
            guid := p.random r.drawn
            drawn := r.drawn + 1
            strGUID := some (p.random r.drawn) } := by
        simp [Request.newID, h.notNew]
      simp only [Bool.false_eq_true, if_false, if_true, hnew, Request.writeCookie]
      exact ⟨⟨h.live, h.kept, h.writable, h.notNew, rfl, (fun hl => by cases hl), fun _ => h.sent,
        record, by rw [hhere, hrecord], hsolid⟩, rfl⟩

/-- **One action** keeps the record where it was, and leaves in force what has been set last. -/
theorem act_sited {r r' : Request loc} {a : Request.Action} (h : Sited r)
    (hkeeps : KeepsSettings r a) (hrun : r.act p a = .ok r') :
    Sited r' ∧ settingsOf r' = lastSet p r (settingsOf r) a := by
  have hdict : ∀ d : VariantDictionary loc, Sited { r with m_piVarDict := d } := fun d =>
    ⟨h.live, h.kept, h.writable, h.notNew, h.sent, h.solid, h.liquid, h.record⟩
  have hmutate : ∀ m, r.onDictionary m = .ok r' → Sited r' ∧ settingsOf r' = settingsOf r := by
    intro m hm
    obtain ⟨d, -, rfl⟩ := onDictionary_eq hm
    exact ⟨hdict d, rfl⟩
  cases a with
  | getValue vkey =>
    obtain ⟨⟨hr, v, r₁⟩, hget, hrun⟩ := Run.bind_eq_ok hrun
    obtain ⟨⟨hr₁, v₁, d⟩, -, hget⟩ := Run.bind_eq_ok hget
    cases hget
    cases hrun
    exact ⟨hdict d, rfl⟩
  | call c =>
    cases c with
    | putValue vkey newVal defaults =>
      rw [Request.act, Request.perform, if_neg (by simp [h.writable])] at hrun
      exact hmutate _ hrun
    | putrefValue vkey newVal =>
      rw [Request.act, Request.perform, if_neg (by simp [h.writable])] at hrun
      exact hmutate _ hrun
    | contentsRemove vkey => exact hmutate _ hrun
    | contentsRemoveAll => exact hmutate _ hrun
    | putLiquidCookie newVal =>
      cases hrun
      exact h.putLiquidCookie p newVal
    | execute toPage =>
      cases toPage with
      | none =>
        cases hrun
        exact ⟨h, rfl⟩
      | some page =>
        obtain ⟨⟨hr, r₁⟩, hexec, hrun⟩ := Run.bind_eq_ok hrun
        cases hrun
        exact h.execute p hkeeps hexec
    | transfer page =>
      obtain ⟨⟨hr, r₁⟩, htransfer, hrun⟩ := Run.bind_eq_ok hrun
      cases hrun
      exact h.transfer p hkeeps htransfer
    | abandon => cases hkeeps
    | putTimeOut pVal =>
      rw [Request.act, Request.perform, Request.putTimeOut, if_neg (by simp [h.writable])] at hrun
      cases hrun
      exact ⟨⟨h.live, h.kept, h.writable, h.notNew, h.sent, h.solid, h.liquid, h.record⟩, rfl⟩
    | putReEntrance newVal =>
      cases hrun
      exact ⟨⟨h.live, h.kept, h.writable, h.notNew, h.sent, h.solid, h.liquid, h.record⟩, rfl⟩
    | putReadonly newVal => cases hkeeps
    | putLCID newVal isValid =>
      rcases perform_putLCID p hrun with ⟨rfl, -⟩ | ⟨-, -, r₁, hput, rfl⟩
      · exact ⟨h, rfl⟩
      · obtain ⟨d, -, rfl⟩ := onDictionary_eq hput
        exact ⟨⟨h.live, h.kept, h.writable, h.notNew, h.sent, h.solid, h.liquid, h.record⟩, rfl⟩

/-- **All actions** of a request. -/
theorem run_sited {actions : List Request.Action} {r r' : Request loc} (h : Sited r)
    (hkeeps : Runs.Meets (Request.act p) KeepsSettings actions r)
    (hrun : Runs.run (Request.act p) actions r = .ok r') :
    Sited r' ∧ settingsOf r' = settingsLastSet p actions r (settingsOf r) := by
  induction actions generalizing r with
  | nil =>
    cases hrun
    exact ⟨h, rfl⟩
  | cons a actions ih =>
    obtain ⟨r₁, hact, hrest⟩ := Runs.run_cons_eq_ok hrun
    obtain ⟨hsited, hsettings⟩ := act_sited p h hkeeps.1 hact
    obtain ⟨hend, hlast⟩ := ih hsited (hkeeps.2 r₁ hact) hrest
    refine ⟨hend, hlast.trans ?_⟩
    rw [settingsLastSet, hact, hsettings]

/-! ## Whole requests -/

/-- INTERNAL: an existing session that has been loaded. -/
theorem sited_opened {r : Request loc} (h : Fresh r) {id : Guid} (hid : r.strGUID = some id)
    {record : SessionRecord} (hrecord : r.store r.guid = some record) (d : VariantDictionary loc)
    (cookies : List SessionCookie) :
    Sited { renewed p (opened r record d) with cookies := cookies, bErrState := false } := by
  obtain ⟨hnew, hguid, hold⟩ := h.presented id hid
  have hrecord' : r.store r.oldGuid = some record := by rw [hold, ← hguid, hrecord]
  have hpending : ∀ {P : Prop}, r.blnPersistDoneByOnEndPage = true → P := fun hdone =>
    absurd (h.pending.symm.trans hdone) (by simp)
  cases hliquid : record.metaData.m_Liquid with
  | false =>
    have hsame : renewed p (opened r record d) = opened r record d := renewed_solid p hliquid
    rw [hsame]
    exact ⟨fun _ => rfl, h.kept, h.writable, hnew, hid.trans (hguid ▸ rfl),
      fun _ => hguid.trans hold.symm, fun hl => absurd (hliquid.symm.trans hl) (by simp),
      record, hrecord', fun hdone => hpending hdone⟩
  | true =>
    have hnewId : renewed p (opened r record d) =
        { opened r record d with
          m_OldSessionId := r.strGUID
          guid := p.random r.drawn
          drawn := r.drawn + 1
          strGUID := some (p.random r.drawn) } := by
      simp [renewed, Request.newID, opened, hliquid, hnew]
    rw [hnewId]
    exact ⟨fun _ => rfl, h.kept, h.writable, hnew, rfl,
      fun hnot => absurd (hliquid.symm.trans hnot) (by simp), fun _ => hid.trans (hold ▸ rfl),
      record, hrecord', fun hdone => hpending hdone⟩

/-- The condition at the end: the settings will be written with the dictionary, or they are
those of the record; and the session has not run out of time. -/
structure Noted (r : Request loc) : Prop where
  settings : SettingsNoted r
  time : r.blnPersistDoneByOnEndPage = false → 0 < SessionStore.seconds r.lngTimeout

/-- INTERNAL: the record after the session has been saved. -/
theorem Sited.persisted {r r' : Request loc} {hr : HResult} (h : Sited r) (hnoted : Noted r)
    (hrun : r.persistSession p = .ok (hr, r')) :
    settingsOf r' = settingsOf r ∧ ∃ id record, r'.strGUID = some id ∧
      r'.store id = some record ∧ storedSettings record = settingsOf r := by
  obtain ⟨record, hrecord, hsolid⟩ := h.record
  cases hdone : r.blnPersistDoneByOnEndPage with
  | true =>
    rw [Request.persistSession, if_pos hdone] at hrun
    cases hrun
    rcases hnoted.settings with hs | ⟨record', hrecord', hsame⟩
    · exact absurd (hdone.symm.trans hs.1) (by simp)
    · rw [hrecord] at hrecord'
      obtain rfl := Option.some.inj hrecord'
      have hliquid : r.blnLiquid = false := (congrArg Settings.liquid hsame).symm.trans (hsolid hdone)
      exact ⟨rfl, r.guid, record, h.sent, by rw [h.solid hliquid, hrecord], hsame⟩
  | false =>
    obtain ⟨-, d, store, record', rfl, hstored, hsettings⟩ := persistSession_settings p
      ⟨hdone, h.live hdone, h.kept, h.writable⟩ hrecord (hnoted.time hdone) hrun
    refine ⟨rfl, r.guid, record', h.sent, h.savedUnder ▸ hstored, hsettings.trans ?_⟩
    split
    · rfl
    · rename_i hunsaved
      rcases hnoted.settings with hs | ⟨record'', hrecord', hsame⟩
      · exact absurd hs.2 hunsaved
      · rw [hrecord] at hrecord'
        obtain rfl := Option.some.inj hrecord'
        exact hsame

/-- **The settings survive** every request on an existing session that begins and ends
without an error, whose pages are all run on a session saved for them, and whose settings
are noted at the end: those that it has set last, and else those of the record. -/
theorem settingsSurvive_of_request (store : SessionStore) (drawn : ℕ)
    (lngTimeOutSetting dtExpires : BitVec 32) (blnSnifQueryStringFirst : Bool)
    (cookie query : Option Guid) (actions : List Request.Action) {r r₁ r₂ r' : Request loc}
    {id : Guid} {record : SessionRecord}
    (hr : r = .start store drawn lngTimeOutSetting dtExpires blnSnifQueryStringFirst)
    (hid : (r.identify cookie query).strGUID = some id) (hrecord : store id = some record)
    (hadmitted : (r.identify cookie query).blnFoundURLGuid = true →
      record.metaData.m_ReEntrance = true)
    (hstart : r.onStartPage p cookie query = .ok (.sOk, r₁))
    (hactions : Runs.run (Request.act p) actions r₁ = .ok r₂)
    (hend : r₂.onEndPage p = .ok (.sOk, r'))
    (hkeeps : Runs.Meets (Request.act p) KeepsSettings actions r₁) (hnoted : Noted r₂) :
    SettingsSurvive p (settingsLastSet p actions r₁ (storedSettings record)) r' := by
  subst hr
  have hfresh : Fresh ((Request.start store drawn lngTimeOutSetting dtExpires
      blnSnifQueryStringFirst : Request loc).identify cookie query) :=
    fresh_identify store drawn lngTimeOutSetting dtExpires blnSnifQueryStringFirst cookie query
  obtain ⟨hstore, -⟩ := identify_leaves store drawn lngTimeOutSetting dtExpires
    blnSnifQueryStringFirst cookie query _ (rfl : _ = (_ : Request loc))
  obtain ⟨-, hguid, -⟩ := hfresh.presented id hid
  have hrecord' := (congrFun hstore _).trans ((congrArg store hguid).trans hrecord)
  obtain ⟨hr₀, r₀, hinit, hok, hsame⟩ := onStartPage_frame p hstart
  obtain rfl := hok rfl
  obtain ⟨d, hr₁⟩ := hsame rfl
  obtain ⟨d₀, cookies, locale, rfl⟩ := dbInit_opens p hfresh.noError hrecord' hadmitted hinit
  have h := sited_opened p hfresh hid hrecord' d₀ cookies
  have hbegun : Sited r₁ := by
    rw [hr₁]
    exact ⟨h.live, h.kept, h.writable, h.notNew, h.sent, h.solid, h.liquid, h.record⟩
  have hsettings₁ : settingsOf r₁ = storedSettings record := by
    rw [hr₁]
    exact settingsOf_renewed p _ record d₀
  obtain ⟨hsited, hlast⟩ := run_sited p hbegun hkeeps hactions
  rw [hsettings₁] at hlast
  obtain ⟨hforce, id', record', hid', hstored, hsettings⟩ := hsited.persisted p hnoted hend
  rw [hlast] at hforce hsettings
  refine ⟨hforce, id', record', hid', hstored, hsettings,
    fun drawn setting expires sniff hr next hnext => ?_⟩
  exact (settings_of_next p hstored drawn setting expires sniff hnext).trans hsettings

/-- A request on a session with one number and a timeout of 20 minutes, under the id 7. -/
def longSession : Request .ordinal :=
  .start (fun id => if id = 7 then some (oneNumberRecord true false) else none) 0 20 0 false

/-- It sets the timeout, and a variable. -/
def setsBoth : List Request.Action :=
  [.call (.putTimeOut 30), .call (.putValue (Bstr.ofString "b") (.value (.scalar .i4 1)) [])]

/-- The timeout survives with the variable. -/
theorem setsBoth_survive :
    ∃ r₁ r₂ r', longSession.onStartPage .counting (some 7) none = .ok (.sOk, r₁) ∧
      Runs.run (Request.act .counting) setsBoth r₁ = .ok r₂ ∧
      r₂.onEndPage .counting = .ok (.sOk, r') ∧
      SettingsSurvive .counting (settingsLastSet .counting setsBoth r₁
        (storedSettings (oneNumberRecord true false))) r' := by
  have hruns : ((longSession.onStartPage .counting (some 7) none).toOption.bind fun res =>
      (Runs.run (Request.act .counting) setsBoth res.2).toOption.bind fun r₂ =>
        (r₂.onEndPage .counting).toOption.map fun res' =>
          (res.1, r₂.m_piVarDict.blnDirty, r₂.blnPersistDoneByOnEndPage, r₂.lngTimeout,
            res'.1)) = some (.sOk, true, false, 30, .sOk) := by decide +kernel
  obtain ⟨⟨hr, r₁⟩, hstart, hruns⟩ := Option.bind_eq_some_iff.mp hruns
  obtain ⟨r₂, hactions, hruns⟩ := Option.bind_eq_some_iff.mp hruns
  obtain ⟨⟨hr', r'⟩, hend, hruns⟩ := Option.map_eq_some_iff.mp hruns
  simp only [Prod.mk.injEq] at hruns
  obtain ⟨rfl, hdirty, hpending, htime, rfl⟩ := hruns
  refine ⟨r₁, r₂, r', Run.eq_ok_of_toOption hstart, Run.eq_ok_of_toOption hactions,
    Run.eq_ok_of_toOption hend, settingsSurvive_of_request .counting _ 0 20 0 false (some 7) none
      setsBoth rfl rfl rfl (fun h => by cases h) (Run.eq_ok_of_toOption hstart)
      (Run.eq_ok_of_toOption hactions) (Run.eq_ok_of_toOption hend) ?_ ⟨.inl ⟨hpending, .inl hdirty⟩,
        fun _ => ?_⟩⟩
  · exact ⟨trivial, fun _ _ => ⟨trivial, fun _ _ => trivial⟩⟩
  · rw [htime]
    decide

/-- Alone it does not: the record keeps the old one. -/
theorem setsTimeout_not_survive :
    ∃ r₁ r₂ r', longSession.onStartPage .counting (some 7) none = .ok (.sOk, r₁) ∧
      Runs.run (Request.act .counting) [.call (.putTimeOut 30)] r₁ = .ok r₂ ∧
      r₂.onEndPage .counting = .ok (.sOk, r') ∧
      ¬ SettingsSurvive .counting (settingsLastSet .counting [.call (.putTimeOut 30)] r₁
        (storedSettings (oneNumberRecord true false))) r' := by
  have hruns : ((longSession.onStartPage .counting (some 7) none).toOption.bind fun res =>
      (Runs.run (Request.act .counting) [.call (.putTimeOut 30)] res.2).toOption.bind fun r₂ =>
        (r₂.onEndPage .counting).toOption.map fun res' =>
          (res.1, res'.1, res'.2.strGUID, res'.2.lngTimeout,
            (res'.2.store 7).map fun record => record.metaData.m_Expires)) =
      some (.sOk, .sOk, some 7, 30, some 20) := by decide +kernel
  obtain ⟨⟨hr, r₁⟩, hstart, hruns⟩ := Option.bind_eq_some_iff.mp hruns
  obtain ⟨r₂, hactions, hruns⟩ := Option.bind_eq_some_iff.mp hruns
  obtain ⟨⟨hr', r'⟩, hend, hruns⟩ := Option.map_eq_some_iff.mp hruns
  simp only [Prod.mk.injEq] at hruns
  obtain ⟨rfl, rfl, hsent, htime, hstored⟩ := hruns
  refine ⟨r₁, r₂, r', Run.eq_ok_of_toOption hstart, Run.eq_ok_of_toOption hactions,
    Run.eq_ok_of_toOption hend, ?_⟩
  rintro ⟨hforce, id, record, hid, hrecord, hsettings, -⟩
  rw [hsent] at hid
  obtain rfl := Option.some.inj hid
  rw [hrecord] at hstored
  have htimeout := congrArg Settings.timeout (hsettings.trans hforce.symm)
  have hold : record.metaData.m_Expires = 20 := Option.some.inj hstored
  have hnew : (settingsOf r').timeout = 30 := htime
  rw [hnew] at htimeout
  exact absurd (hold.symm.trans htimeout) (by decide)

end IspSession.Analysis
