import IspSession.Analysis.SessionLoading
import IspSession.Analysis.SessionSaving

/-!
# Runs of a request

A request makes calls between `OnStartPage` and `OnEndPage`. `Ready r c` says that the
request stands well and that the session holds the contents `c`; `Safe` is the condition
on a call under which it keeps standing well. `perform_ready` is the step,
`ready_of_run` the run.
-/

set_option autoImplicit false

namespace IspSession.Analysis

open IspSession.Library IspSession.Model

variable {loc : Collation} (p : Platform)

/-! ## Requests that stand well -/

/-- The dictionary is still to be written. -/
def Saves (r : Request loc) : Prop := r.blnPersistDoneByOnEndPage = false ∧ Unsaved r

instance (r : Request loc) : Decidable (Saves r) := inferInstanceAs (Decidable (_ ∧ _))

/-- The request stands well, and its session holds the contents; `presented` is the id the
client has sent. -/
structure Ready (presented : Option Guid) (r : Request loc) (c : Contents loc) : Prop where
  noError : r.bErrState = false
  kept : r.blnCancel = false
  writable : r.bReadonly = false
  mutable : r.m_piVarDict.readOnly = false
  exact : Exact r.m_piVarDict
  contents : contents r.m_piVarDict = c
  time : 0 < SessionStore.seconds r.lngTimeout
  sent : r.strGUID = some r.guid
  here : r.blnLiquid = false → r.guid = r.oldGuid ∧ r.m_OldSessionId = none
  old : ∀ id, r.m_OldSessionId = some id → id = r.oldGuid
  done : r.blnPersistDoneByOnEndPage = true → r.blnLiquid = false
  record : ∃ record, r.store r.oldGuid = some record ∧
    0 < SessionStore.seconds record.metaData.m_Expires ∧ (¬ Saves r → Holds record c)
  gone : ∀ id, presented = some id → id ≠ r.oldGuid → r.store id = none
  /-- The thread orders names as the dictionary does. -/
  ordered : InOrder loc p r.threadLocale

/-! ## Saving -/

/-- Re-entrance as the record will say it. -/
def willReEnter (r : Request loc) : Bool :=
  if Saves r then r.blnReEntrance
  else (r.store r.oldGuid).any fun record => record.metaData.m_ReEntrance

/-- Liquidity as the record will say it. -/
def willBeLiquid (r : Request loc) : Bool :=
  if Saves r then r.blnLiquid else (r.store r.oldGuid).any fun record => record.metaData.m_Liquid

/-- The records after a request that stands well has been saved. -/
structure Persisted (r : Request loc) (c : Contents loc) (record : SessionRecord)
    (store : SessionStore) : Prop where
  here : store r.guid = some record
  holds : Holds record c
  expires : 0 < SessionStore.seconds record.metaData.m_Expires
  reEntrance : record.metaData.m_ReEntrance = willReEnter r
  liquid : record.metaData.m_Liquid = willBeLiquid r
  moved : r.oldGuid ≠ r.guid → store r.oldGuid = none
  others : ∀ id, id ≠ r.oldGuid → id ≠ r.guid → store id = r.store id

/-- **A request that stands well is saved** under the id it has sent, now or before. -/
theorem persistSession_ready {presented : Option Guid} {r : Request loc} {c : Contents loc}
    (h : Ready p presented r c) :
    ∃ b store record, r.persistSession p = .ok (.sOk,
      { r with
        m_piVarDict := r.m_piVarDict.withBuffer b
        store := store
        blnPersistDoneByOnEndPage := true }) ∧ Persisted r c record store := by
  obtain ⟨record, hrecord, hexpires, hholds⟩ := h.record
  have hunder : savedUnder r = r.guid := by
    unfold savedUnder
    cases hliquid : r.blnLiquid with
    | true => rfl
    | false => exact (h.here hliquid).1.symm
  cases hdone : r.blnPersistDoneByOnEndPage with
  | true =>
    have hhere := (h.here (h.done hdone)).1
    have hsaves : ¬ Saves r := fun hs => by simp [Saves, hdone] at hs
    refine ⟨r.m_piVarDict.m_currentBufLen, r.store, record, ?_, hhere ▸ hrecord, hholds hsaves,
      hexpires, ?_, ?_, fun hne => absurd hhere.symm hne, fun _ _ _ => rfl⟩
    · rw [Request.persistSession, if_pos hdone, ← hdone]
      rfl
    · rw [willReEnter, if_neg hsaves, hrecord]
      rfl
    · rw [willBeLiquid, if_neg hsaves, hrecord]
      rfl
  | false =>
    have hsaves : Saves r ↔ Unsaved r := by simp [Saves, hdone]
    obtain ⟨b, store, record', hrun, hsaved⟩ :=
      persistSession_spec p ⟨hdone, h.noError, h.kept, h.writable⟩ h.exact h.time hrecord
        fun hnot => h.contents.symm ▸ hholds (mt hsaves.mp hnot)
    refine ⟨b, store, record', hrun, hunder ▸ hsaved.here, h.contents ▸ hsaved.holds, ?_, ?_, ?_,
      hunder ▸ hsaved.moved, hunder ▸ hsaved.others⟩
    · rw [hsaved.expires]
      split
      · exact h.time
      · exact hexpires
    · rw [hsaved.reEntrance, willReEnter, hrecord]
      simp only [hsaves, Option.any_some]
    · rw [hsaved.liquid, willBeLiquid, hrecord]
      simp only [hsaves, Option.any_some]

/-! ## Safe calls -/

/-- A change to the variables that the codec keeps, and that is not lost: it changes
nothing, or it is made before the dictionary is written and noticed by then. -/
structure SafeChange (r : Request loc) (m : VariantDictionary.Mutation) : Prop where
  stored : SafeCall r.m_piVarDict m
  value : KeepsValue r.m_piVarDict m
  noticed : changed m (contents r.m_piVarDict) = contents r.m_piVarDict ∨
    (r.blnPersistDoneByOnEndPage = false ∧ (setsDirty m = true ∨ Unsaved r))

/-- A page that works on the session of an id and takes its contents from `c` to `c'`. -/
structure PageMakes (page : Page) (id : Guid) (c c' : Contents loc) : Prop where
  kept : ∀ (store : SessionStore) (record : SessionRecord), store id = some record →
    Holds record c → ∃ record', (page store).2 id = some record' ∧ Holds record' c' ∧
      0 < SessionStore.seconds record'.metaData.m_Expires ∧
      record'.metaData.m_ReEntrance = record.metaData.m_ReEntrance ∧
      record'.metaData.m_Liquid = record.metaData.m_Liquid
  absent : ∀ (store : SessionStore) (id' : Guid), store id' = none → (page store).2 id' = none

section Calls

variable (effect : Page → Contents loc → Contents loc)

/-- A page whose changes the request gets to see: the session is not liquid, and will not
be refused when it is read again, and a locale it stores orders names as before. -/
structure SafePage (r : Request loc) (page : Page) : Prop where
  notLiquid : r.blnLiquid = false
  staysSolid : willBeLiquid r = false
  admitted : r.blnFoundURLGuid = true → willReEnter r = true
  makes : PageMakes page r.guid (contents r.m_piVarDict) (effect page (contents r.m_piVarDict))
  loadable : Loadable p.oleLoad (effect page (contents r.m_piVarDict)) Request.lcidName
  ordered : InOrder loc p (localeOf p (effect page (contents r.m_piVarDict)))

/-- The condition on a call under which the request keeps standing well. -/
def Safe (r : Request loc) : Request.Call → Prop
  | .putValue vkey newVal defaults => SafeChange r (.putItem vkey newVal defaults)
  | .putrefValue vkey newVal => SafeChange r (.putrefItem vkey newVal)
  | .contentsRemove vkey => SafeChange r (.remove vkey)
  | .contentsRemoveAll => SafeChange r .removeAll
  | .putLiquidCookie true => r.blnLiquid = true ∨ r.blnPersistDoneByOnEndPage = false
  | .putLiquidCookie false => r.blnLiquid = false ∨ r.m_OldSessionId ≠ none
  | .execute none => True
  | .execute (some page) => SafePage p effect r page
  | .transfer page => SafePage p effect r page ∧ ∀ store, (page store).1.failed = false
  | .abandon => False
  | .putTimeOut pVal => 0 < SessionStore.seconds pVal
  | .putReEntrance _ => True
  | .putReadonly newVal => newVal = false
  | .putLCID newVal isValid =>
    isValid = true → SafeChange r (Request.lcidPut newVal) ∧ InOrder loc p (some newVal)

/-- What a call does to the contents of the session. -/
def effectOf (call : Request.Call) (c : Contents loc) : Contents loc :=
  match call with
  | .putValue vkey newVal defaults => changed (.putItem vkey newVal defaults) c
  | .putrefValue vkey newVal => changed (.putrefItem vkey newVal) c
  | .contentsRemove vkey => changed (.remove vkey) c
  | .contentsRemoveAll => changed .removeAll c
  | .putLCID newVal isValid => if isValid then changed (Request.lcidPut newVal) c else c
  | .execute (some page) | .transfer page => effect page c
  | _ => c

end Calls

/-- INTERNAL: a safe change. -/
theorem Ready.change {presented : Option Guid} {r r' : Request loc} {c : Contents loc}
    (h : Ready p presented r c) {m : VariantDictionary.Mutation} (hsafe : SafeChange r m)
    (hrun : r.onDictionary m = .ok r') : Ready p presented r' (changed m c) := by
  obtain ⟨d, hd, hr'⟩ := Run.bind_eq_ok hrun
  cases hr'
  obtain ⟨hexact, hcontents⟩ := h.exact.mutate h.mutable hsafe.stored hsafe.value hd
  have hdirty := blnDirty_mutate h.mutable hd
  obtain ⟨record, hrecord, hexpires, hholds⟩ := h.record
  refine ⟨h.noError, h.kept, h.writable, readOnly_mutate h.mutable hd, hexact,
    hcontents.trans (h.contents ▸ rfl), h.time, h.sent, h.here, h.old, h.done,
    ⟨record, hrecord, hexpires, ?_⟩, h.gone, h.ordered⟩
  intro hnot
  have hunsaved : Unsaved r → Unsaved { r with m_piVarDict := d } := by
    rintro (hu | hu | hu)
    · exact .inl (by rw [hdirty, hu, Bool.or_true])
    · exact .inr (.inl hu)
    · exact .inr (.inr hu)
  have hnot' : ¬ Saves r := fun hs => hnot ⟨hs.1, hunsaved hs.2⟩
  rcases hsafe.noticed with hsame | ⟨hpending, hset⟩
  · rw [h.contents] at hsame
    rw [hsame]
    exact hholds hnot'
  · refine absurd ⟨hpending, ?_⟩ hnot
    rcases hset with hset | hu
    · exact .inl (by rw [hdirty, hset, Bool.true_or])
    · exact hunsaved hu

/-- INTERNAL: `put_LiquidCookie` with `VARIANT_TRUE`. -/
theorem Ready.putLiquid {presented : Option Guid} {r : Request loc} {c : Contents loc}
    (h : Ready p presented r c)
    (hsafe : r.blnLiquid = true ∨ r.blnPersistDoneByOnEndPage = false) :
    Ready p presented (r.putLiquidCookie p true).2 c := by
  cases hliquid : r.blnLiquid with
  | true => simpa [Request.putLiquidCookie, h.writable, hliquid] using h
  | false =>
    obtain hpending : r.blnPersistDoneByOnEndPage = false := by simpa [hliquid] using hsafe
    obtain ⟨hhere, hnoOld⟩ := h.here hliquid
    -- the id becomes the old one, and a new one is drawn
    have hresult : (r.putLiquidCookie p true).2 =
        { r with
          blnLiquid := true
          m_OldSessionId := if r.blnNew then none else some r.oldGuid
          guid := p.random r.drawn
          strGUID := some (p.random r.drawn)
          drawn := r.drawn + 1
          cookies := { value := some (p.random r.drawn), expires := r.dtExpires } :: r.cookies } := by
      cases hnew : r.blnNew <;>
        simp [Request.putLiquidCookie, h.writable, hliquid, Request.newID, Request.writeCookie,
          hnew, hnoOld, hhere, h.sent]
    rw [hresult]
    refine ⟨h.noError, h.kept, h.writable, h.mutable, h.exact, h.contents, h.time, rfl, ?_, ?_, ?_,
      h.record, h.gone, h.ordered⟩
    · intro hnot
      cases hnot
    · intro id hid
      dsimp only at hid
      split at hid
      · cases hid
      · exact (Option.some.inj hid).symm
    · intro hdone
      exact absurd hdone (by simp [hpending])

/-- INTERNAL: `put_LiquidCookie` with `VARIANT_FALSE`. -/
theorem Ready.putSolid {presented : Option Guid} {r : Request loc} {c : Contents loc}
    (h : Ready p presented r c) (hsafe : r.blnLiquid = false ∨ r.m_OldSessionId ≠ none) :
    Ready p presented (r.putLiquidCookie p false).2 c := by
  cases hliquid : r.blnLiquid with
  | false => simpa [Request.putLiquidCookie, h.writable, hliquid] using h
  | true =>
    obtain ⟨id, hid⟩ := Option.ne_none_iff_exists'.mp (by simpa [hliquid] using hsafe)
    obtain rfl := h.old id hid
    have hresult : (r.putLiquidCookie p false).2 =
        { r with
          blnLiquid := false
          guid := r.oldGuid
          strGUID := some r.oldGuid
          m_OldSessionId := none
          cookies := { value := some r.oldGuid, expires := r.dtExpires } :: r.cookies } := by
      simp [Request.putLiquidCookie, h.writable, hliquid, hid, Request.writeCookie]
    rw [hresult]
    exact ⟨h.noError, h.kept, h.writable, h.mutable, h.exact, h.contents, h.time, rfl,
      fun _ => ⟨rfl, rfl⟩, (fun id hid => by cases hid), fun _ => rfl, h.record, h.gone, h.ordered⟩

/-- INTERNAL: a request that has cleared its dictionary for a page. -/
def cleared (r : Request loc) (b : ℕ) (store : SessionStore) : Request loc :=
  { r with
    m_piVarDict := (r.m_piVarDict.withBuffer b).removeAll
    blnNew := false
    blnExpired := false
    blnPersistDoneByOnEndPage := true
    store := store }

/-- INTERNAL: after the page the session is read again. -/
theorem Ready.reread {presented : Option Guid} {r : Request loc} {c : Contents loc}
    (h : Ready p presented r c) {effect : Page → Contents loc → Contents loc} {page : Page}
    (hsafe : SafePage p effect r page) {b : ℕ} {store : SessionStore} {record : SessionRecord}
    (hsaved : Persisted r c record store) :
    ∃ r', (cleared r b (page store).2).dbInit p = .ok (.sOk, r') ∧ r'.blnLiquid = false ∧
      Ready p presented r' (effect page c) := by
  obtain ⟨hmakes, hload, hordered⟩ :=
    h.contents ▸ And.intro hsafe.makes (And.intro hsafe.loadable hsafe.ordered)
  obtain ⟨record', hrecord', hholds', hexpires', hre', hliquid'⟩ :=
    hmakes.kept store record hsaved.here hsaved.holds
  obtain ⟨hhere, hnoOld⟩ := h.here hsafe.notLiquid
  rw [hsaved.liquid, hsafe.staysSolid] at hliquid'
  rw [hsaved.reEntrance] at hre'
  have hadmitted : (cleared r b (page store).2).checkReEntrance p (rowsetOf record') =
      cleared r b (page store).2 :=
    checkReEntrance_admits p fun hurl => hre'.trans (hsafe.admitted hurl)
  have herr : (cleared r b (page store).2).bErrState = false := h.noError
  obtain ⟨d, cookies, hd, hinit⟩ := dbInit_spec p herr hrecord' hholds' rfl hload
  rw [hadmitted] at hinit
  have hsame : renewed p (opened (cleared r b (page store).2) record' d) =
      opened (cleared r b (page store).2) record' d :=
    renewed_solid p hliquid'
  rw [hsame] at hinit
  refine ⟨_, hinit, hliquid', ⟨rfl, h.kept, h.writable, hd.readOnly.trans h.mutable, hd.exact,
    hd.contents, hexpires', h.sent, fun _ => ⟨hhere, hnoOld⟩, h.old, fun _ => hliquid',
    ⟨record', hhere ▸ hrecord', hexpires', fun _ => hholds'⟩, ?_, hordered.or p h.ordered⟩⟩
  intro id hid hne
  have hne' : id ≠ r.guid := fun heq => hne (heq.trans hhere)
  exact hmakes.absent store id ((hsaved.others id hne hne').trans (h.gone id hid hne))

/-- INTERNAL: a request that is not liquid is itself. -/
theorem eq_of_notLiquid {r : Request loc} (h : r.blnLiquid = false) :
    { r with blnLiquid := false } = r := by
  rw [← h]

/-- INTERNAL: `Execute`. -/
theorem Ready.execute {presented : Option Guid} {r : Request loc} {c : Contents loc}
    (h : Ready p presented r c) {effect : Page → Contents loc → Contents loc} {page : Page}
    (hsafe : SafePage p effect r page) :
    ∃ r', r.execute p (some page) = .ok (.sOk, r') ∧ Ready p presented r' (effect page c) := by
  obtain ⟨b, store, record, hrun, hsaved⟩ := persistSession_ready p h
  obtain ⟨r', hinit, hliquid, hready⟩ := h.reread p hsafe (b := b) hsaved
  refine ⟨r', ?_, hready⟩
  have hinit' := hinit
  rw [cleared, hsafe.notLiquid] at hinit'
  simp only [Request.execute, eq_of_notLiquid hsafe.notLiquid, hrun, Run.ok_bind, HResult.failed,
    Bool.false_eq_true, if_false, hinit', hsafe.notLiquid, eq_of_notLiquid hliquid, Run.pure_eq]

/-- INTERNAL: `Transfer` to a page that succeeds. -/
theorem Ready.transfer {presented : Option Guid} {r : Request loc} {c : Contents loc}
    (h : Ready p presented r c) {effect : Page → Contents loc → Contents loc} {page : Page}
    (hsafe : SafePage p effect r page) (hok : ∀ store, (page store).1.failed = false) :
    ∃ r', r.transfer p page = .ok (.sOk, r') ∧ Ready p presented r' (effect page c) := by
  obtain ⟨b, store, record, hrun, hsaved⟩ := persistSession_ready p h
  obtain ⟨r', hinit, hliquid, hready⟩ := h.reread p hsafe (b := b) hsaved
  refine ⟨r', ?_, hready⟩
  have hinit' := hinit
  rw [cleared, hsafe.notLiquid] at hinit'
  have hfailed : HResult.failed .sOk = false := rfl
  simp only [Request.transfer, eq_of_notLiquid hsafe.notLiquid, hrun, Run.ok_bind, hfailed, hok,
    Bool.false_eq_true, if_false, hinit', hsafe.notLiquid, eq_of_notLiquid hliquid, Run.pure_eq]

/-- **One call**: a safe call keeps the request standing well, and changes the contents of
the session as it should. -/
theorem perform_ready {presented : Option Guid} (effect : Page → Contents loc → Contents loc)
    {r r' : Request loc} {c : Contents loc} {call : Request.Call} (h : Ready p presented r c)
    (hsafe : Safe p effect r call) (hrun : r.perform p call = .ok r') :
    Ready p presented r' (effectOf effect call c) := by
  cases call with
  | putValue vkey newVal defaults =>
    rw [Request.perform, if_neg (by simp [h.writable])] at hrun
    exact h.change p hsafe hrun
  | putrefValue vkey newVal =>
    rw [Request.perform, if_neg (by simp [h.writable])] at hrun
    exact h.change p hsafe hrun
  | contentsRemove vkey => exact h.change p hsafe hrun
  | contentsRemoveAll => exact h.change p hsafe hrun
  | putLiquidCookie newVal =>
    cases hrun
    cases newVal with
    | true => exact h.putLiquid p hsafe
    | false => exact h.putSolid p hsafe
  | execute toPage =>
    cases toPage with
    | none =>
      cases hrun
      exact h
    | some page =>
      obtain ⟨r₁, hexec, hready⟩ := h.execute p hsafe
      simp only [Request.perform, hexec, Run.ok_bind, Run.pure_eq, Except.ok.injEq] at hrun
      exact hrun ▸ hready
  | transfer page =>
    obtain ⟨r₁, htransfer, hready⟩ := h.transfer p hsafe.1 hsafe.2
    simp only [Request.perform, htransfer, Run.ok_bind, Run.pure_eq, Except.ok.injEq] at hrun
    exact hrun ▸ hready
  | abandon => cases hsafe
  | putTimeOut pVal =>
    simp only [Request.perform, Request.putTimeOut, h.writable, Bool.false_eq_true, if_false,
      Run.pure_eq, Except.ok.injEq] at hrun
    subst hrun
    exact ⟨h.noError, h.kept, rfl, h.mutable, h.exact, h.contents, hsafe, h.sent, h.here, h.old,
      h.done, h.record, h.gone, h.ordered⟩
  | putReEntrance newVal =>
    cases hrun
    exact ⟨h.noError, h.kept, h.writable, h.mutable, h.exact, h.contents, h.time, h.sent, h.here,
      h.old, h.done, h.record, h.gone, h.ordered⟩
  | putReadonly newVal =>
    obtain rfl : newVal = false := hsafe
    simp only [Request.perform, Request.putReadonly, Bool.false_eq_true, and_false, if_false,
      Run.pure_eq, Except.ok.injEq] at hrun
    subst hrun
    exact ⟨h.noError, h.kept, rfl, rfl, h.exact.congr rfl rfl, h.contents, h.time, h.sent, h.here,
      h.old, h.done, h.record, h.gone, h.ordered⟩
  | putLCID newVal isValid =>
    rcases perform_putLCID p hrun with ⟨rfl, hrefused⟩ | ⟨-, rfl, r₁, hput, rfl⟩
    · obtain rfl : isValid = false := hrefused.resolve_left (by simp [h.writable])
      exact h
    · obtain ⟨hchange, hordered⟩ := hsafe rfl
      have h₁ := h.change p hchange hput
      exact ⟨h₁.noError, h₁.kept, h₁.writable, h₁.mutable, h₁.exact, h₁.contents, h₁.time, h₁.sent,
        h₁.here, h₁.old, h₁.done, h₁.record, h₁.gone, hordered⟩

/-! ## Whole requests -/

/-- The session a request begins with can be loaded and holds the contents: there is none
yet, or its record was written for them, and its locale orders names as the thread does. -/
structure StartsWell (r : Request loc) (c : Contents loc) : Prop where
  time : 0 < SessionStore.seconds r.lngTimeOutSetting
  session : match r.store r.guid with
    | none => c = .empty
    | some record =>
      (∃ id, r.strGUID = some id) ∧ Holds record c ∧
        0 < SessionStore.seconds record.metaData.m_Expires ∧
        (r.blnFoundURLGuid = true → record.metaData.m_ReEntrance = true) ∧ Reloadable p c

/-- INTERNAL: a request without a session stands well once one is inserted. -/
theorem ready_inserted {r : Request loc} (h : Fresh r)
    (hthread : InOrder loc p r.threadLocale)
    (htime : 0 < SessionStore.seconds r.lngTimeOutSetting) (hnone : r.store r.guid = none) :
    Ready p r.strGUID (inserted p r) (.empty : Contents loc) := by
  have hempty : (inserted p r).m_piVarDict.dictionary = .empty := by
    change r.m_piVarDict.dictionary = .empty
    rw [h.dictionary]
    rfl
  have hro : (inserted p r).m_piVarDict.readOnly = false := by
    change r.m_piVarDict.readOnly = false
    rw [h.dictionary]
    rfl
  have hcontents : contents (inserted p r).m_piVarDict = .empty := by
    rw [contents, hempty]
    rfl
  refine ⟨h.noError, h.kept, h.writable, hro, exact_of_empty hempty, hcontents, htime, rfl,
    fun _ => ⟨rfl, h.noOldId⟩, fun id hid => absurd (h.noOldId.symm.trans hid) (by simp),
    fun _ => h.notLiquid, ⟨_, Function.update_self _ _ _, htime, ?_⟩, ?_, hthread⟩
  · exact fun hnot => absurd ⟨h.pending, .inr (.inl rfl)⟩ hnot
  · intro id hid hne
    obtain ⟨-, hguid, -⟩ := h.presented id hid
    exact (Function.update_of_ne hne _ _).trans (hguid ▸ hnone)

/-- INTERNAL: a request stands well once its session is loaded. -/
theorem ready_opened {r : Request loc} (h : Fresh r) {record : SessionRecord} {c : Contents loc}
    {locale : Option (BitVec 32)} (hordered : InOrder loc p locale)
    (hrecord : r.store r.guid = some record) {id : Guid} (hid : r.strGUID = some id)
    (hholds : Holds record c) (hexpires : 0 < SessionStore.seconds record.metaData.m_Expires)
    {d : VariantDictionary loc} (hd : Filled r.m_piVarDict d c) (cookies : List SessionCookie) :
    Ready p r.strGUID
      { renewed p (opened r record d) with
        bErrState := false
        cookies := cookies
        threadLocale := locale } c := by
  obtain ⟨hnew, hguid, hold⟩ := h.presented id hid
  have hro : d.readOnly = false := by
    rw [hd.readOnly, h.dictionary]
    rfl
  have hgone : ∀ id', r.strGUID = some id' → id' ≠ r.oldGuid → r.store id' = none := by
    intro id' hid' hne
    exact absurd ((h.presented id' hid').2.2.symm) hne
  have hrecord' : r.store r.oldGuid = some record := by rw [hold, ← hguid, hrecord]
  cases hliquid : record.metaData.m_Liquid with
  | false =>
    have hsame : renewed p (opened r record d) = opened r record d := renewed_solid p hliquid
    rw [hsame]
    exact ⟨rfl, h.kept, h.writable, hro, hd.exact, hd.contents, hexpires, hid.trans (hguid ▸ rfl),
      fun _ => ⟨hguid.trans hold.symm, h.noOldId⟩,
      fun id hid => absurd (h.noOldId.symm.trans hid) (by simp), fun _ => hliquid,
      ⟨record, hrecord', hexpires, fun _ => hholds⟩, hgone, hordered⟩
  | true =>
    have hnewId : renewed p (opened r record d) =
        { opened r record d with
          m_OldSessionId := r.strGUID
          guid := p.random r.drawn
          drawn := r.drawn + 1
          strGUID := some (p.random r.drawn) } := by
      simp [renewed, Request.newID, opened, hliquid, hnew]
    rw [hnewId]
    refine ⟨rfl, h.kept, h.writable, hro, hd.exact, hd.contents, hexpires, rfl, ?_, ?_, ?_,
      ⟨record, hrecord', hexpires, fun _ => hholds⟩, hgone, hordered⟩
    · exact fun hnot => absurd (hliquid.symm.trans hnot) (by simp)
    · intro id' hid'
      exact (h.presented id' hid').2.2.symm
    · exact fun hdone => absurd (h.pending.symm.trans hdone) (by simp)

/-- **`OnStartPage`** leaves a request that begins well standing well. -/
theorem onStartPage_ready {r : Request loc} {cookie query : Option Guid}
    (h : Fresh (r.identify cookie query))
    (hthread : (r.identify cookie query).threadLocale = none) {c : Contents loc}
    (hwell : StartsWell p (r.identify cookie query) c) :
    ∃ r', r.onStartPage p cookie query = .ok (.sOk, r') ∧
      Ready p (r.identify cookie query).strGUID r' c := by
  have hempty : (r.identify cookie query).m_piVarDict.dictionary = .empty := by
    rw [h.dictionary]
    rfl
  have hstart : ∀ r₁, (r.identify cookie query).dbInit p = .ok (.sOk, r₁) →
      Ready p (r.identify cookie query).strGUID r₁ c → (∀ key, Loadable p.oleLoad c key) →
      ∃ r', r.onStartPage p cookie query = .ok (.sOk, r') ∧
        Ready p (r.identify cookie query).strGUID r' c := by
    intro r₁ hinit hready hload
    obtain ⟨d, hkeeps, hrun⟩ := onStartPage_spec p hinit hready.exact
      (hready.contents.symm ▸ hload)
    refine ⟨_, hrun, hready.noError, hready.kept, hready.writable,
      hkeeps.readOnly.trans hready.mutable, hkeeps.exact, hkeeps.contents.trans hready.contents,
      hready.time, hready.sent, hready.here, hready.old, hready.done, ?_,
      hready.gone, hready.ordered⟩
    obtain ⟨record, hrecord, hexpires, hholds⟩ := hready.record
    refine ⟨record, hrecord, hexpires, fun hnot => hholds fun hs => hnot ⟨hs.1, ?_⟩⟩
    rcases hs.2 with hu | hu
    · exact .inl (hkeeps.blnDirty.trans hu)
    · exact .inr hu
  have hnone : InOrder loc p (r.identify cookie query).threadLocale := by
    rw [hthread]
    exact inOrder_none p
  have hsession := hwell.session
  cases hrecord : (r.identify cookie query).store (r.identify cookie query).guid with
  | none =>
    rw [hrecord] at hsession
    subst hsession
    exact hstart _ (dbInit_inserts p h.noError hrecord hwell.time hempty)
      (ready_inserted p h hnone hwell.time hrecord) (reloadable_empty p).objects
  | some record =>
    rw [hrecord] at hsession
    obtain ⟨⟨id, hid⟩, hholds, hexpires, hadmitted, hload, hordered⟩ := hsession
    obtain ⟨d, cookies, hd, hinit⟩ :=
      dbInit_spec p h.noError hrecord hholds hempty (hload Request.lcidName)
    have hcheck := checkReEntrance_admits p hadmitted
    rw [hcheck] at hinit
    exact hstart _ hinit (ready_opened p h (hordered.or p hnone)
      hrecord hid hholds hexpires hd cookies) hload

/-- The calls of the request are all safe. -/
def SafeRequest (effect : Page → Contents loc → Contents loc) (cookie query : Option Guid)
    (calls : List Request.Call) (r : Request loc) : Prop :=
  ∀ hr r', r.onStartPage p cookie query = .ok (hr, r') →
    Runs.Meets (Request.perform p) (Safe p effect) calls r'

/-- **A whole request** that begins well and makes safe calls is saved under the id it has
sent, with the contents it began with, changed by its calls. -/
theorem serve_ready {effect : Page → Contents loc → Contents loc} {store : SessionStore}
    {drawn : ℕ} {lngTimeOutSetting dtExpires : BitVec 32} {blnSnifQueryStringFirst : Bool}
    {cookie query : Option Guid} {calls : List Request.Call} {r r' : Request loc} {c : Contents loc}
    (hr : r = .start store drawn lngTimeOutSetting dtExpires blnSnifQueryStringFirst)
    (hwell : StartsWell p (r.identify cookie query) c)
    (hsafe : SafeRequest p effect cookie query calls r)
    (hrun : r.serve p cookie query calls = .ok r') :
    contents r'.m_piVarDict = calls.foldl (fun c call => effectOf effect call c) c ∧
    ∃ id record, r'.strGUID = some id ∧ r'.store id = some record ∧
      Holds record (contents r'.m_piVarDict) ∧
      ∀ id', (r.identify cookie query).strGUID = some id' → id' ≠ id → r'.store id' = none := by
  have hfresh : Fresh (r.identify cookie query) := by
    rw [hr]
    exact fresh_identify ..
  have hthread : (r.identify cookie query).threadLocale = none := by
    rw [hr]
    exact threadLocale_identify ..
  obtain ⟨r₁, hstart, hready⟩ := onStartPage_ready p hfresh hthread hwell
  obtain ⟨⟨hr, r₁'⟩, hstart', hrun⟩ := Run.bind_eq_ok hrun
  rw [hstart] at hstart'
  cases hstart'
  obtain ⟨r₂, hcalls, hrun⟩ := Run.bind_eq_ok hrun
  have hready₂ := Runs.run_simulates (effectOf effect)
    (Ready p (r.identify cookie query).strGUID) (fun r c call r' hr hok hstep =>
      perform_ready p effect hr hok hstep) hready (hsafe _ _ hstart) hcalls
  obtain ⟨b, store, record, hsave, hsaved⟩ := persistSession_ready p hready₂
  simp only [Request.onEndPage, hsave, Run.ok_bind, Run.pure_eq, Except.ok.injEq] at hrun
  subst hrun
  refine ⟨hready₂.contents, r₂.guid, record, hready₂.sent, hsaved.here,
    hready₂.contents.symm ▸ hsaved.holds, ?_⟩
  intro id' hid' hne
  by_cases hold : id' = r₂.oldGuid
  · subst hold
    exact hsaved.moved hne
  · exact (hsaved.others id' hold hne).trans (hready₂.gone id' hid' hold)

end IspSession.Analysis
