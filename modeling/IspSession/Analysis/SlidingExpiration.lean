import IspSession.Analysis.SettingsKept
import IspSession.Analysis.VisitorIsolation
import IspSession.Model.VisitorClock

/-!
# Sessions end when their time is up, and not before

A session lives for its timeout from the end of its last page on. `Stay` says what a visitor should
find on a site with a clock: the contents and the settings of its session, and how long the session
has to live. However the requests of all visitors are interleaved, and however long each takes, the
records in Redis are what the stays say.
-/

set_option autoImplicit false

namespace IspSession.Analysis

open IspSession.Library IspSession.Model

variable {loc : Collation} (p : Platform)

/-! ## Stays -/

/-- What a visitor has on a site. -/
inductive Stay (loc : Collation)
  /-- No session. -/
  | away
  /-- A session between two pages. -/
  | idle (c : Contents loc) (settings : Settings) (left : ℤ)
  /-- A page is at work on the session. -/
  | served (c : Contents loc) (settings : Settings) (left : ℤ)
  /-- The page has abandoned the session. -/
  | leaving

namespace Stay

/-- The contents of the session. -/
def contents : Stay loc → Contents loc
  | .idle c _ _ | .served c _ _ => c
  | .away | .leaving => .empty

/-- A page begins: without a session, with a new one. -/
def begins (site : Site) : Stay loc → Stay loc
  | .away => .served .empty ⟨site.lngTimeOutSetting, false, false⟩
      (SessionStore.seconds site.lngTimeOutSetting)
  | .idle c settings left => .served c settings left
  | t => t

/-- The settings after a call. -/
def settingsAfter (call : Request.Call) (settings : Settings) : Settings :=
  match call with
  | .putTimeOut pVal => { settings with timeout := pVal }
  | .putReEntrance newVal => { settings with reEntrance := newVal }
  | .putLiquidCookie newVal => { settings with liquid := newVal }
  | _ => settings

/-- The page makes a call. -/
def called (call : Request.Call) : Stay loc → Stay loc
  | .served c settings left =>
    match call with
    | .abandon => .leaving
    | call => .served (effectOf (fun _ c => c) call c) (settingsAfter call settings) left
  | t => t

/-- The page ends: from now on the session has its timeout to live. -/
def ends : Stay loc → Stay loc
  | .served c settings _ => .idle c settings (SessionStore.seconds settings.timeout)
  | .leaving => .away
  | t => t

/-- Some seconds pass. -/
def passes (seconds : ℕ) : Stay loc → Stay loc
  | .idle c settings left =>
    if left ≤ seconds then .away else .idle c settings (left - seconds)
  | .served c settings left => .served c settings (left - seconds)
  | t => t

variable {V : Type} [DecidableEq V]

/-- What an event of a visitor does to its stay. -/
def on (site : Site) (ev : VisitorEvent V) (t : Stay loc) : Stay loc :=
  match ev with
  | .startPage _ => t.begins site
  | .call _ call => t.called call
  | .endPage _ => t.ends
  | .dropCookie _ | .timeUp _ => .away

/-- What an event does to the stay of a visitor. -/
def step (site : Site) (v : V) (t : Stay loc) : TimedEvent V → Stay loc
  | .visitor ev => if ev.visitor = v then t.on site ev else t
  | .pass seconds => t.passes seconds

end Stay

/-! ## Records and stays -/

/-- The record and the request of a visitor have the settings and the time of its stay. -/
def Lasts (store : SessionStore) (q : Visitor loc) : Stay loc → Prop
  | .away => q.request = none ∧ ∀ id, q.cookie = some id → store id = none
  | .idle _ settings left => q.request = none ∧ ∃ id record, q.cookie = some id ∧
      store id = some record ∧ storedSettings record = settings ∧ record.ttl = left ∧ 0 < left
  | .served _ settings left => ∃ r, q.request = some r ∧ r.blnCancel = false ∧
      settingsOf r = settings ∧ ∃ record, store r.oldGuid = some record ∧ record.ttl = left ∧
        0 < left ∧ (¬ Unsaved r → storedSettings record = settings)
  | .leaving => ∃ r, q.request = some r ∧ r.blnCancel = true

/-- The visitor has the session that its stay says. -/
structure HasStay (store : SessionStore) (q : Visitor loc) (t : Stay loc) : Prop where
  session : HasSession p store q t.contents
  lasts : Lasts store q t

/-- INTERNAL: a stay depends on the records under the visitor's ids. -/
theorem local_hasStay : Shared.Local OwnsId (@HasStay loc p) := by
  rintro store store' q t hsame ⟨hsession, hlasts⟩
  refine ⟨local_hasSession p store store' q t.contents hsame hsession, ?_⟩
  cases t with
  | away =>
    obtain ⟨hidle, hnone⟩ := hlasts
    exact ⟨hidle, fun id hid => (hsame id (.inl hid)).trans (hnone id hid)⟩
  | idle c settings left =>
    obtain ⟨hidle, id, record, hid, hrecord, hrest⟩ := hlasts
    exact ⟨hidle, id, record, hid, (hsame id (.inl hid)).trans hrecord, hrest⟩
  | served c settings left =>
    obtain ⟨r, hr, hkept, hsettings, record, hrecord, hrest⟩ := hlasts
    exact ⟨r, hr, hkept, hsettings, record,
      (hsame _ (.inr ⟨r, hr, .inr rfl⟩)).trans hrecord, hrest⟩
  | leaving => exact hlasts

/-! ## Time passes -/

/-- INTERNAL: a record that has time left. -/
theorem pass_apply {store : SessionStore} {id : Guid} {record : SessionRecord} {seconds : ℕ}
    (hrecord : store id = some record) (htime : (seconds : ℤ) < record.ttl) :
    store.pass seconds id = some { record with ttl := record.ttl - seconds } := by
  rw [SessionStore.pass, hrecord, Option.bind_some, SessionStore.aged, if_neg (by omega)]

/-- INTERNAL: a record whose time is up. -/
theorem pass_apply_none {store : SessionStore} {id : Guid} {record : SessionRecord} {seconds : ℕ}
    (hrecord : store id = some record) (htime : record.ttl ≤ seconds) :
    store.pass seconds id = none := by
  rw [SessionStore.pass, hrecord, Option.bind_some, SessionStore.aged, if_pos htime]

/-- INTERNAL: no record comes up. -/
theorem pass_none {store : SessionStore} {id : Guid} {seconds : ℕ} (h : store id = none) :
    store.pass seconds id = none := by
  rw [SessionStore.pass, h, Option.bind_none]

/-- INTERNAL: a request that stands well while its record has time left. -/
theorem Ready.pass {presented : Option Guid} {r : Request loc} {c : Contents loc}
    (h : Ready p presented r c) {seconds : ℕ} {record : SessionRecord}
    (hrecord : r.store r.oldGuid = some record) (htime : (seconds : ℤ) < record.ttl) :
    Ready p presented { r with store := r.store.pass seconds } c := by
  obtain ⟨record₁, hrecord₁, hexpires, hholds⟩ := h.record
  obtain rfl : record₁ = record := Option.some.inj (hrecord₁.symm.trans hrecord)
  have hsaves : Saves { r with store := r.store.pass seconds } → Saves r := id
  exact ⟨h.noError, h.kept, h.writable, h.mutable, h.exact, h.contents, h.time, h.sent, h.here,
    h.old, h.done, ⟨_, pass_apply hrecord htime, hexpires,
      fun hnot => (hholds fun hs => hnot hs).congr rfl rfl⟩,
    fun id hid hne => pass_none (h.gone id hid hne), h.ordered⟩

/-- **Time passes**: a session that has time left stays, and one whose time is up is gone. -/
theorem hasStay_pass {store : SessionStore} {q : Visitor loc} {t : Stay loc} {seconds : ℕ}
    (h : HasStay p store q t)
    (hpunctual : ∀ r, q.request = some r → r.blnCancel = false →
      ∃ record, store r.oldGuid = some record ∧ (seconds : ℤ) < record.ttl) :
    HasStay p (store.pass seconds) q (t.passes seconds) := by
  obtain ⟨⟨hsession, hload⟩, hlasts⟩ := h
  unfold InSession at hsession
  cases t with
  | away =>
    obtain ⟨hidle, hnone⟩ := hlasts
    refine ⟨⟨?_, reloadable_empty p⟩, hidle, fun id hid => pass_none (hnone id hid)⟩
    unfold InSession
    rw [hidle]
    cases hcookie : q.cookie with
    | none => exact rfl
    | some id =>
      dsimp only
      rw [pass_none (hnone id hcookie)]
      exact rfl
  | idle c settings left =>
    obtain ⟨hidle, id, record, hid, hrecord, hsettings, rfl, hpos⟩ := hlasts
    rw [hidle, hid] at hsession
    dsimp only at hsession
    rw [hrecord] at hsession
    rw [Stay.passes]
    split
    · rename_i hup
      have hgone := pass_apply_none hrecord hup
      refine ⟨⟨?_, reloadable_empty p⟩, hidle, fun id' hid' => ?_⟩
      · unfold InSession
        rw [hidle, hid]
        dsimp only
        rw [hgone]
        exact rfl
      · rw [← Option.some.inj (hid.symm.trans hid')]
        exact hgone
    · rename_i hleft
      have haged := pass_apply hrecord (not_le.mp hleft)
      refine ⟨⟨?_, hload⟩, hidle, id, _, hid, haged, hsettings, rfl, by omega⟩
      unfold InSession
      rw [hidle, hid]
      dsimp only
      rw [haged]
      exact ⟨hsession.1.congr rfl rfl, hsession.2⟩
  | served c settings left =>
    obtain ⟨r, hr, hkept, hsettings, record, hrecord, rfl, hpos, hsaved⟩ := hlasts
    obtain ⟨record₁, hrecord₁, htime⟩ := hpunctual r hr hkept
    obtain rfl : record₁ = record := Option.some.inj (hrecord₁.symm.trans hrecord)
    rw [hr] at hsession
    have hwork : Serving p store q.cookie r c := by
      refine hsession.resolve_right ?_
      rintro ⟨habandoning, -⟩
      exact absurd (habandoning.cancel.symm.trans hkept) (by simp)
    refine ⟨⟨?_, hload⟩, r, hr, hkept, hsettings, _, pass_apply hrecord htime, rfl, by omega,
      hsaved⟩
    unfold InSession
    rw [hr]
    exact .inl ⟨hwork.ready.pass p hrecord htime, hwork.pending, hwork.sent, hwork.expires⟩
  | leaving =>
    obtain ⟨r, hr, hcancel⟩ := hlasts
    rw [hr] at hsession
    refine ⟨⟨?_, hload⟩, r, hr, hcancel⟩
    unfold InSession
    rw [hr]
    refine .inr (hsession.resolve_left fun hwork => ?_)
    exact absurd (hwork.ready.kept.symm.trans hcancel) (by simp)

/-! ## Calls -/

/-- **A call** changes the settings as it says. The record stays where it is, and a session that is
to be written stays one. -/
theorem settings_perform {presented : Option Guid} {r r' : Request loc} {c : Contents loc}
    {call : Request.Call} (h : Ready p presented r c) (hpage : RunsNoPage call)
    (hsafe : Safe p (fun _ c => c) r call) (hrun : r.perform p call = .ok r') :
    settingsOf r' = Stay.settingsAfter call (settingsOf r) ∧ r'.oldGuid = r.oldGuid ∧
      r'.blnCancel = false ∧ (Unsaved r → Unsaved r') := by
  have hdict : ∀ m r₁, r.onDictionary m = .ok r₁ → settingsOf r₁ = settingsOf r ∧
      r₁.oldGuid = r.oldGuid ∧ r₁.blnCancel = false ∧ (Unsaved r → Unsaved r₁) := by
    intro m r₁ hm
    obtain ⟨d, hd, rfl⟩ := onDictionary_eq hm
    refine ⟨rfl, rfl, h.kept, ?_⟩
    rintro (hu | hu)
    · exact .inl (by rw [blnDirty_mutate h.mutable hd, hu, Bool.or_true])
    · exact .inr hu
  cases call with
  | putValue vkey newVal defaults =>
    rw [Request.perform, if_neg (by simp [h.writable])] at hrun
    exact hdict _ _ hrun
  | putrefValue vkey newVal =>
    rw [Request.perform, if_neg (by simp [h.writable])] at hrun
    exact hdict _ _ hrun
  | contentsRemove vkey => exact hdict _ _ hrun
  | contentsRemoveAll => exact hdict _ _ hrun
  | putLiquidCookie newVal =>
    cases hrun
    cases newVal with
    | true =>
      cases hliquid : r.blnLiquid with
      | true => simpa [Request.putLiquidCookie, h.writable, hliquid, Stay.settingsAfter, settingsOf]
          using h.kept
      | false =>
        have hhere := (h.here hliquid).1
        simp [Request.putLiquidCookie, h.writable, hliquid, Request.newID, Request.writeCookie,
          Stay.settingsAfter, settingsOf, hhere, h.kept, Unsaved]
    | false =>
      cases hliquid : r.blnLiquid with
      | false => simpa [Request.putLiquidCookie, h.writable, hliquid, Stay.settingsAfter, settingsOf]
          using h.kept
      | true =>
        obtain ⟨id, hid⟩ := Option.ne_none_iff_exists'.mp
          (Or.resolve_left (show r.blnLiquid = false ∨ r.m_OldSessionId ≠ none from hsafe)
            (by simp [hliquid]))
        simp [Request.putLiquidCookie, h.writable, hliquid, hid, Request.writeCookie,
          Stay.settingsAfter, settingsOf, h.kept, Unsaved]
  | execute toPage =>
    cases toPage with
    | none =>
      cases hrun
      exact ⟨rfl, rfl, h.kept, id⟩
    | some page => cases hpage
  | transfer page => cases hpage
  | abandon => cases hsafe
  | putTimeOut pVal =>
    simp only [Request.perform, Request.putTimeOut, h.writable, Bool.false_eq_true, if_false,
      Run.pure_eq, Except.ok.injEq] at hrun
    subst hrun
    exact ⟨rfl, rfl, h.kept, id⟩
  | putReEntrance newVal =>
    cases hrun
    exact ⟨rfl, rfl, h.kept, id⟩
  | putReadonly newVal =>
    obtain rfl : newVal = false := hsafe
    simp only [Request.perform, Request.putReadonly, Bool.false_eq_true, and_false, if_false,
      Run.pure_eq, Except.ok.injEq] at hrun
    subst hrun
    exact ⟨rfl, rfl, h.kept, id⟩
  | putLCID newVal isValid =>
    rcases perform_putLCID p hrun with ⟨rfl, -⟩ | ⟨-, -, r₁, hput, rfl⟩
    · exact ⟨rfl, rfl, h.kept, id⟩
    · exact hdict _ r₁ hput

/-! ## The end of a page -/

/-- **A session that is saved** has its timeout to live, under the id the browser has. -/
theorem persistSession_lasts {presented : Option Guid} {r r' : Request loc} {c : Contents loc}
    {hr : HResult} {record : SessionRecord} (h : Ready p presented r c)
    (hpending : r.blnPersistDoneByOnEndPage = false) (hrecord : r.store r.oldGuid = some record)
    (hrun : r.persistSession p = .ok (hr, r')) :
    ∃ record', r'.store r.guid = some record' ∧ r'.cookies = r.cookies ∧
      record'.ttl = SessionStore.seconds r.lngTimeout ∧
      storedSettings record' = if Unsaved r then settingsOf r else storedSettings record := by
  have hpersists : Persists r := ⟨hpending, h.noError, h.kept, h.writable⟩
  have hunder : savedUnder r = r.guid := by
    unfold savedUnder
    cases hliquid : r.blnLiquid with
    | true => rfl
    | false => exact (h.here hliquid).1.symm
  by_cases hunsaved : Unsaved r
  · obtain ⟨b, hwrites⟩ := persistSession_writes p hpersists h.exact h.time hunsaved
    cases hrun.symm.trans hwrites
    exact ⟨savedRecord p r, by rw [← hunder]; exact Function.update_self _ _ _, rfl, rfl,
      (if_pos hunsaved).symm⟩
  · cases hrun.symm.trans (persistSession_touches p hpersists hunsaved)
    refine ⟨{ record with ttl := SessionStore.seconds r.lngTimeout }, ?_, rfl, rfl,
      (if_neg hunsaved).symm⟩
    rw [← hunder]
    exact expire_apply_self _ _ (movedStore_apply_saved hrecord) h.time

/-! ## Sites -/

section System

variable {V : Type} {p} {site : Site} {σ σ' : VisitorSystem V loc} {v : V} {t : Stay loc}

/-- INTERNAL: the settings a request begins with. -/
theorem settings_arrival (site : Site) (σ : VisitorSystem V loc) (cookie : Option Guid) :
    settingsOf ((VisitorSystem.arrival site σ).identify cookie none) =
      ⟨site.lngTimeOutSetting, false, false⟩ ∧
    ((VisitorSystem.arrival site σ).identify cookie none).lngTimeOutSetting =
      site.lngTimeOutSetting := by
  obtain ⟨lngTimeOutSetting, dtExpires, blnSnifQueryStringFirst⟩ := site
  cases blnSnifQueryStringFirst <;> cases cookie <;> exact ⟨rfl, rfl⟩

/-- **A page begins** with the settings of the session, or with a new one when there is none. -/
theorem lasts_startPage (hsite : ProperSite site) (hzero : σ.store 0 = none)
    (hidle : (σ.agent v).request = none) (h : Lasts σ.store (σ.agent v) t)
    {r : Request loc} {hr : HResult}
    (hrun : (VisitorSystem.arrival site σ).onStartPage p (σ.agent v).cookie none = .ok (hr, r))
    (hok : hr = .sOk) :
    Lasts r.store ⟨(σ.agent v).cookie, some r⟩ (t.begins site) ∧
      (r.blnNew = true ↔ t = .away) := by
  obtain ⟨hsettings, htime⟩ := settings_arrival site σ (σ.agent v).cookie
  obtain ⟨hid, hguid, hurl, -⟩ := identify_arrival site σ (σ.agent v).cookie
  obtain ⟨hstore, -⟩ := identify_leaves σ.store σ.drawn
    site.lngTimeOutSetting site.dtExpires site.blnSnifQueryStringFirst (σ.agent v).cookie none _
    (rfl : _ = (_ : Request loc))
  change ((VisitorSystem.arrival site σ).identify (σ.agent v).cookie none).store = _ at hstore
  have hfresh : Fresh ((VisitorSystem.arrival site σ).identify (σ.agent v).cookie none) :=
    fresh_identify _ _ _ _ _ _ _
  obtain ⟨hr₀, r₀, hinit, hok₀, hsame⟩ := onStartPage_frame p hrun
  obtain rfl := hok₀ hok
  obtain ⟨d, rfl⟩ := hsame rfl
  generalize (VisitorSystem.arrival site σ).identify (σ.agent v).cookie none = i at *
  cases t with
  | away =>
    obtain ⟨-, hnone⟩ := h
    have hrecord : i.store i.guid = none := by
      rw [hstore, hguid]
      cases hcookie : (σ.agent v).cookie with
      | none => exact hzero
      | some id => exact hnone id hcookie
    rw [dbInit_inserts p hfresh.noError hrecord (htime ▸ hsite.time)
      (by rw [hfresh.dictionary]; rfl)] at hinit
    cases hinit
    have hinserted : settingsOf (inserted p i) = ⟨site.lngTimeOutSetting, false, false⟩ := by
      rw [← hsettings, settingsOf, settingsOf, inserted, htime]
      simp only [Settings.mk.injEq, and_true]
      exact (congrArg Settings.timeout hsettings).symm
    refine ⟨⟨_, rfl, hfresh.kept, hinserted, _, Function.update_self _ _ _, ?_, ?_, ?_⟩, ?_⟩
    · exact congrArg SessionStore.seconds htime
    · exact hsite.time
    · exact fun hsaved => absurd (.inr (.inl rfl)) hsaved
    · exact ⟨fun _ => rfl, fun _ => rfl⟩
  | idle c settings left =>
    obtain ⟨-, id, record, hcookie, hrecord, hstored, hleft, hpos⟩ := h
    obtain ⟨hnew, hhere, hold⟩ := hfresh.presented id (hid.trans hcookie)
    obtain ⟨d', cookies, locale, rfl⟩ := dbInit_opens p hfresh.noError
      (show i.store i.guid = some record by rw [hstore, hhere]; exact hrecord)
      (fun hfound => by rw [hurl] at hfound; cases hfound) hinit
    obtain ⟨m_OldSessionId, guid, drawn, strGUID, hframe⟩ := renewed_frame p (opened i record d')
    rw [hframe]
    refine ⟨⟨_, rfl, hfresh.kept, hstored, record, ?_, hleft, hpos, fun _ => hstored⟩, ?_⟩
    · show i.store i.oldGuid = some record
      rw [hstore, hold]
      exact hrecord
    · exact ⟨fun h => absurd (hnew.symm.trans h) (by simp), fun h => by cases h⟩
  | served c settings left =>
    obtain ⟨r, hr, -⟩ := h
    rw [hidle] at hr
    cases hr
  | leaving =>
    obtain ⟨r, hr, -⟩ := h
    rw [hidle] at hr
    cases hr

variable [DecidableEq V]

/-- A change to the settings that changes nothing, or that will be written with the variables. -/
def NoticedSettings (r : Request loc) (call : Request.Call) : Prop :=
  Stay.settingsAfter call (settingsOf r) = settingsOf r ∨ Unsaved r

/-- An event that a site with a clock sees: a change to the settings is noticed, and a page ends
before the time of its session is up. -/
def Punctual (p : Platform) (σ : VisitorSystem V loc) : TimedEvent V → Prop
  | .visitor ev => Orderly p σ ev ∧ ∀ v call r, ev = .call v call →
      (σ.agent v).request = some r → NoticedSettings r call
  | .pass seconds => ∀ v r, (σ.agent v).request = some r → r.blnCancel = false →
      ∃ record, σ.store r.oldGuid = some record ∧ (seconds : ℤ) < record.ttl

/-- INTERNAL: the contents of a stay are those of its session. -/
theorem contents_on {ev : VisitorEvent V} (hlasts : Lasts σ.store (σ.agent ev.visitor) t)
    (hok : Orderly p σ ev) :
    (t.on site ev).contents = onSession ev ev.visitor t.contents := by
  cases ev with
  | startPage v => cases t <;> rfl
  | endPage v => cases t <;> rfl
  | dropCookie v => exact (if_pos rfl).symm
  | timeUp v => exact (if_pos rfl).symm
  | call v call =>
    obtain ⟨r, hrequest, hkept, -⟩ := hok
    change Lasts σ.store (σ.agent v) t at hlasts
    rw [onSession, VisitorEvent.visitor, if_pos rfl]
    cases t with
    | away => exact absurd (hrequest.symm.trans hlasts.1) (by simp)
    | idle c settings left => exact absurd (hrequest.symm.trans hlasts.1) (by simp)
    | served c settings left => cases call <;> rfl
    | leaving =>
      obtain ⟨r', hr', hcancel⟩ := hlasts
      cases hrequest.symm.trans hr'
      exact absurd (hkept.symm.trans hcancel) (by simp)

omit [DecidableEq V] in
/-- INTERNAL: a request that has not abandoned its session, as it goes on. -/
theorem serving_of_session {r : Request loc} {c : Contents loc}
    (h : HasSession p σ.store (σ.agent v) c) (hrequest : (σ.agent v).request = some r)
    (hkept : r.blnCancel = false) :
    Serving p (σ.resume r).store (σ.agent v).cookie (σ.resume r) c := by
  refine (inSession_resume hrequest h.1).resolve_right ?_
  rintro ⟨habandoning, -⟩
  exact absurd (habandoning.cancel.symm.trans hkept) (by simp)

/-- INTERNAL: a page makes a call. -/
theorem lasts_call {call : Request.Call} (h : HasStay p σ.store (σ.agent v) t)
    (hok : Orderly p σ (.call v call))
    (hnoticed : ∀ r, (σ.agent v).request = some r → NoticedSettings r call)
    (hstep : σ.step p site (.call v call) = .ok σ') :
    Lasts σ'.store (σ'.agent v) (t.called call) := by
  obtain ⟨r, hrequest, hkept, hsafe⟩ := hok
  rw [VisitorSystem.step, hrequest] at hstep
  obtain ⟨r', hrun, hstep⟩ := Run.bind_eq_ok hstep
  cases hstep
  have hagent : (σ.working v r').agent v = ⟨(σ.agent v).cookie, some r'⟩ :=
    Function.update_self _ _ _
  rw [hagent]
  obtain ⟨hsession, hlasts⟩ := h
  cases t with
  | away => exact absurd (hrequest.symm.trans hlasts.1) (by simp)
  | idle c settings left => exact absurd (hrequest.symm.trans hlasts.1) (by simp)
  | leaving =>
    obtain ⟨r₁, hr₁, hcancel⟩ := hlasts
    cases hrequest.symm.trans hr₁
    exact absurd (hkept.symm.trans hcancel) (by simp)
  | served c settings left =>
    obtain ⟨r₁, hr₁, -, hsettings, record, hrecord, hleft, hpos, hsaved⟩ := hlasts
    cases hrequest.symm.trans hr₁
    have hwork := serving_of_session hsession hrequest hkept
    by_cases habandon : call = .abandon
    · subst habandon
      cases hrun
      exact ⟨_, rfl, rfl⟩
    · obtain ⟨hpage, hcall, -⟩ := hsafe.resolve_left habandon
      obtain ⟨hafter, hold, hkept', hunsaved⟩ :=
        settings_perform p (r := σ.resume r) hwork.ready hpage hcall hrun
      have hstays := stays_perform p hpage habandon hrun
      have hcalled : (Stay.served c settings left).called call =
          .served (effectOf (fun _ c => c) call c) (Stay.settingsAfter call settings) left := by
        cases call with
        | abandon => exact absurd rfl habandon
        | _ => rfl
      rw [hcalled, ← hsettings]
      refine ⟨r', rfl, hkept', hafter, record, ?_, hleft, hpos, fun hnot => ?_⟩
      · show r'.store r'.oldGuid = some record
        rw [hold, hstays.store]
        exact hrecord
      · have hnot' : ¬ Unsaved r := fun hu => hnot (hunsaved hu)
        rw [hsaved hnot', ← hsettings]
        exact ((hnoticed r hrequest).resolve_right hnot').symm

/-- INTERNAL: a page ends. -/
theorem lasts_endPage (h : HasStay p σ.store (σ.agent v) t) {r : Request loc}
    (hrequest : (σ.agent v).request = some r) (hstep : σ.step p site (.endPage v) = .ok σ') :
    Lasts σ'.store (σ'.agent v) t.ends := by
  rw [VisitorSystem.step, hrequest] at hstep
  obtain ⟨⟨hr, r'⟩, hrun, hstep⟩ := Run.bind_eq_ok hstep
  cases hstep
  have hagent : (σ.ended v r').agent v = ⟨browserCookie (σ.agent v).cookie r'.cookies, none⟩ :=
    Function.update_self _ _ _
  rw [hagent]
  obtain ⟨hsession, hlasts⟩ := h
  cases t with
  | away => exact absurd (hrequest.symm.trans hlasts.1) (by simp)
  | idle c settings left => exact absurd (hrequest.symm.trans hlasts.1) (by simp)
  | served c settings left =>
    obtain ⟨r₁, hr₁, hkept, hsettings, record, hrecord, -, -, hsaved⟩ := hlasts
    cases hrequest.symm.trans hr₁
    have hwork := serving_of_session hsession hrequest hkept
    obtain ⟨record', hhere, hcookies, httl, hstored⟩ :=
      persistSession_lasts p (r := σ.resume r) hwork.ready hwork.pending hrecord hrun
    refine ⟨rfl, r.guid, record', ?_, hhere, ?_, ?_, ?_⟩
    · show browserCookie (σ.agent v).cookie r'.cookies = some r.guid
      rw [hcookies]
      exact hwork.sent.trans hwork.ready.sent
    · rw [hstored]
      split
      · exact hsettings
      · rename_i hnot
        exact hsaved hnot
    · rw [httl, ← hsettings]
      rfl
    · rw [← hsettings]
      exact hwork.ready.time
  | leaving =>
    obtain ⟨r₁, hr₁, hcancel⟩ := hlasts
    cases hrequest.symm.trans hr₁
    have hgone := hsession.1
    unfold InSession at hgone
    rw [hrequest] at hgone
    obtain ⟨habandoning, -⟩ := hgone.resolve_left fun hwork =>
      absurd (hwork.ready.kept.symm.trans hcancel) (by simp)
    obtain ⟨bErrState, store', rfl, -⟩ := persistSession_deletes p (r := σ.resume r)
      habandoning.cancel (fun _ => habandoning.noError)
      (fun hdone => absurd (habandoning.pending.symm.trans hdone) (by simp)) hrun
    refine ⟨rfl, fun id hid => ?_⟩
    exact absurd (habandoning.sent.symm.trans hid) (by simp)

/-- **One event** of a visitor does to the records what it does to its stay. -/
theorem hasStay_step (hsite : ProperSite site) (hzero : σ.store 0 = none) {ev : VisitorEvent V}
    (h : HasStay p σ.store (σ.agent ev.visitor) t) (hok : Punctual p σ (.visitor ev))
    (hstep : σ.step p site ev = .ok σ') :
    HasStay p σ'.store (σ'.agent ev.visitor) (t.on site ev) := by
  obtain ⟨hok, hnoticed⟩ := hok
  refine ⟨?_, ?_⟩
  · rw [contents_on h.lasts hok]
    exact (proceeds_step hsite hzero h.session hok hstep).session
  · cases ev with
    | startPage v =>
      change Lasts σ'.store (σ'.agent v) (t.begins site)
      cases hrequest : (σ.agent v).request with
      | none =>
        obtain ⟨r, hrun, -⟩ := startPage_spec hsite hzero hrequest h.session
        simp only [VisitorSystem.step, hrequest, hrun, Run.ok_bind] at hstep
        cases hstep
        have hagent : (σ.working v r).agent v = ⟨(σ.agent v).cookie, some r⟩ :=
          Function.update_self _ _ _
        rw [hagent]
        exact (lasts_startPage hsite hzero hrequest h.lasts hrun rfl).1
      | some r =>
        simp only [VisitorSystem.step, hrequest] at hstep
        cases hstep
        have hlasts := h.lasts
        cases t with
        | away => exact absurd (hrequest.symm.trans hlasts.1) (by simp)
        | idle c settings left => exact absurd (hrequest.symm.trans hlasts.1) (by simp)
        | served c settings left => exact hlasts
        | leaving => exact hlasts
    | call v call => exact lasts_call h hok (fun r hr => hnoticed v call r rfl hr) hstep
    | endPage v =>
      change Lasts σ'.store (σ'.agent v) t.ends
      cases hrequest : (σ.agent v).request with
      | some r => exact lasts_endPage h hrequest hstep
      | none =>
        simp only [VisitorSystem.step, hrequest] at hstep
        cases hstep
        have hlasts := h.lasts
        cases t with
        | away => exact hlasts
        | idle c settings left => exact hlasts
        | served c settings left =>
          obtain ⟨r, hr, -⟩ := hlasts
          cases hrequest.symm.trans hr
        | leaving =>
          obtain ⟨r, hr, -⟩ := hlasts
          cases hrequest.symm.trans hr
    | dropCookie v =>
      have hidle : (σ.agent v).request = none := hok
      simp only [VisitorSystem.step, hidle] at hstep
      cases hstep
      have hagent : Function.update σ.agent v ⟨none, none⟩ v = (⟨none, none⟩ : Visitor loc) :=
        Function.update_self _ _ _
      change Lasts σ.store (Function.update σ.agent v ⟨none, none⟩ v) .away
      rw [hagent]
      exact ⟨rfl, fun id hid => by cases hid⟩
    | timeUp v =>
      have hidle : (σ.agent v).request = none := hok
      change Lasts σ'.store (σ'.agent v) .away
      cases hcookie : (σ.agent v).cookie with
      | none =>
        simp only [VisitorSystem.step, hcookie] at hstep
        cases hstep
        exact ⟨hidle, fun id hid => absurd (hcookie.symm.trans hid) (by simp)⟩
      | some id =>
        simp only [VisitorSystem.step, hcookie] at hstep
        cases hstep
        refine ⟨hidle, fun id' hid' => ?_⟩
        obtain rfl := Option.some.inj (hcookie.symm.trans hid')
        exact Function.update_self _ _ _

/-! ## Whole runs -/

/-- What the events make of the stay of a visitor. -/
def stayOf (site : Site) (v : V) (events : List (TimedEvent V)) : Stay loc :=
  events.foldl (Stay.step site v) .away

/-- A request shows a stay: its contents and its settings. -/
def Displays (r : Request loc) : Stay loc → Prop
  | .served c settings _ =>
    r.blnCancel = false ∧ contents r.m_piVarDict = c ∧ settingsOf r = settings
  | .leaving => r.blnCancel = true ∧ contents r.m_piVarDict = .empty
  | .away | .idle _ _ _ => False

/-- What the visitor is shown: by the request at work, or by the next one, which says whether the
session is new. -/
def ShowsStay (p : Platform) (site : Site) (σ : VisitorSystem V loc) (v : V) (t : Stay loc) : Prop :=
  match (σ.agent v).request with
  | some r => Displays r t
  | none => ∃ r, (VisitorSystem.arrival site σ).onStartPage p (σ.agent v).cookie none =
      .ok (.sOk, r) ∧ Displays r (t.begins site) ∧ (r.blnNew = true ↔ t = .away)

/-- Every visitor has its stay. -/
abbrev AllHaveStay (p : Platform) (σ : VisitorSystem V loc) (a : V → Stay loc) : Prop :=
  Shared.Kept p.random OwnsId (HasStay p) σ a

/-- INTERNAL: the stays one by one. -/
theorem foldl_step (site : Site) (events : List (TimedEvent V)) (a : V → Stay loc) (v : V) :
    events.foldl (fun a ev => fun w => Stay.step site w (a w) ev) a v =
      events.foldl (Stay.step site v) (a v) := by
  induction events generalizing a with
  | nil => rfl
  | cons ev events ih => exact ih _

/-- INTERNAL: ids are drawn forwards, and none by the clock. -/
theorem drawn_timedStep {ev : TimedEvent V} (hstep : σ.timedStep p site ev = .ok σ') :
    σ.drawn ≤ σ'.drawn := by
  cases ev with
  | visitor ev => exact drawn_step hstep
  | pass seconds =>
    cases hstep
    exact Nat.le_refl _

/-- **One event**: every visitor has its stay afterwards. -/
theorem allHaveStay_step (hsite : ProperSite site)
    (hids : Set.InjOn p.random {k | k < σ'.drawn}) (hzero : ∀ k < σ.drawn, p.random k ≠ 0)
    {a : V → Stay loc} {ev : TimedEvent V} (h : AllHaveStay p σ a) (hok : Punctual p σ ev)
    (hstep : σ.timedStep p site ev = .ok σ') :
    AllHaveStay p σ' fun w => Stay.step site w (a w) ev := by
  cases ev with
  | visitor ev =>
    have hnone := store_zero h hzero
    have hupdate : (fun w => Stay.step site w (a w) (.visitor ev)) =
        Function.update a ev.visitor ((a ev.visitor).on site ev) := by
      funext w
      by_cases hw : w = ev.visitor
      · rw [hw, Function.update_self, Stay.step, if_pos rfl]
      · rw [Function.update_of_ne hw, Stay.step, if_neg (Ne.symm hw)]
    rw [hupdate]
    exact h.act (local_hasStay p) hids
      (proceeds_step hsite hnone (h.each ev.visitor).session hok.1 hstep).acts
      (hasStay_step hsite hnone (h.each ev.visitor) hok hstep)
  | pass seconds =>
    cases hstep
    exact h.sweep (fun id hid => pass_none hid)
      fun v => hasStay_pass p (h.each v) fun r hr hkept => hok v r hr hkept

omit [DecidableEq V] in
/-- INTERNAL: who has a stay is shown it. -/
theorem shows_of_hasStay (hsite : ProperSite site) (hzero : σ.store 0 = none)
    (h : HasStay p σ.store (σ.agent v) t) : ShowsStay p site σ v t := by
  unfold ShowsStay
  cases hrequest : (σ.agent v).request with
  | none =>
    obtain ⟨r, hrun, hserving, -⟩ := startPage_spec hsite hzero hrequest h.session
    obtain ⟨hbegins, hnew⟩ := lasts_startPage hsite hzero hrequest h.lasts hrun rfl
    refine ⟨r, hrun, ?_, hnew⟩
    cases t with
    | away =>
      obtain ⟨r', hr', hkept, hsettings, -⟩ := hbegins
      cases hr'
      exact ⟨hkept, hserving.ready.contents, hsettings⟩
    | idle c settings left =>
      obtain ⟨r', hr', hkept, hsettings, -⟩ := hbegins
      cases hr'
      exact ⟨hkept, hserving.ready.contents, hsettings⟩
    | served c settings left =>
      obtain ⟨r', hr', -⟩ := h.lasts
      cases hrequest.symm.trans hr'
    | leaving =>
      obtain ⟨r', hr', -⟩ := h.lasts
      cases hrequest.symm.trans hr'
  | some r =>
    cases t with
    | away => exact absurd (hrequest.symm.trans h.lasts.1) (by simp)
    | idle c settings left => exact absurd (hrequest.symm.trans h.lasts.1) (by simp)
    | served c settings left =>
      obtain ⟨r', hr', hkept, hsettings, -⟩ := h.lasts
      cases hrequest.symm.trans hr'
      exact ⟨hkept, (serving_of_session h.session hrequest hkept).ready.contents, hsettings⟩
    | leaving =>
      obtain ⟨r', hr', hcancel⟩ := h.lasts
      cases hrequest.symm.trans hr'
      have hsession := h.session.1
      unfold InSession at hsession
      rw [hrequest] at hsession
      obtain ⟨habandoning, -⟩ := hsession.resolve_left fun hwork =>
        absurd (hwork.ready.kept.symm.trans hcancel) (by simp)
      exact ⟨hcancel, habandoning.empty⟩

end System

example : (stayOf usualSite 0 [.visitor (.startPage 0), .visitor (.endPage 0), .pass 1199] :
    Stay .ordinal) = .idle .empty ⟨20, false, false⟩ 1 := rfl

example : (stayOf usualSite 0 [.visitor (.startPage 0), .visitor (.endPage 0), .pass 1200] :
    Stay .ordinal) = .away := rfl

/-- A visitor sets a timeout of half an hour while another one arrives, and ten minutes later both
pages end. -/
def slowVisits : List (TimedEvent Bool) :=
  [.visitor (.startPage false), .visitor (.call false (.putTimeOut 30)), .visitor (.startPage true),
    .pass 600, .visitor (.endPage true), .visitor (.endPage false)]

/-- INTERNAL: how many ids the two visitors draw. -/
theorem drawn_slowVisits : ((Runs.run (VisitorSystem.timedStep .counting usualSite) slowVisits
    (VisitorSystem.start : VisitorSystem Bool .ordinal)).toOption.map Shared.drawn) = some 2 := by
  decide +kernel

/-- INTERNAL: they come in time. -/
theorem punctual_slowVisits : Runs.Meets (VisitorSystem.timedStep .counting usualSite)
    (Punctual .counting) slowVisits (VisitorSystem.start : VisitorSystem Bool .ordinal) := by
  have hquiet : ∀ (σ : VisitorSystem Bool .ordinal) (v : Bool),
      Punctual .counting σ (.visitor (.startPage v)) ∧ Punctual .counting σ (.visitor (.endPage v)) :=
    fun σ v => ⟨⟨trivial, fun _ _ _ h => by cases h⟩, trivial, fun _ _ _ h => by cases h⟩
  refine ⟨(hquiet _ _).1, fun σ₁ hσ₁ => ⟨?_, fun σ₂ hσ₂ => ⟨(hquiet _ _).1, fun σ₃ hσ₃ =>
    ⟨?_, fun σ₄ _ => ⟨(hquiet _ _).2, fun σ₅ _ => ⟨(hquiet _ _).2, fun _ _ => trivial⟩⟩⟩⟩⟩⟩
  · cases hσ₁
    refine ⟨⟨_, rfl, rfl, .inr ⟨trivial, ?_, reloadable_empty .counting⟩⟩, ?_⟩
    · exact show 0 < SessionStore.seconds 30 by decide
    · intro v call r hcall hr
      cases hcall
      cases hr
      exact .inr (.inr (.inl rfl))
  · cases hσ₁
    cases hσ₂
    cases hσ₃
    intro v r hr _
    cases v
    · cases hr
      exact ⟨_, rfl, by decide⟩
    · cases hr
      exact ⟨_, rfl, by decide⟩

end IspSession.Analysis
