import IspSession.Analysis.WritesPersisted
import IspSession.Analysis.RequestFrames

/-!
# Failed and partial loads

What becomes of a record that `LocalLoad` could not restore. `dbInit` reports the failure
and the request goes into its error state, in which nothing is written; but in a liquid
session `NewID` overwrites the result, and in one whose id is refused the request is new
besides. There the dictionary, with what has been read, replaces the record as soon as
something makes `PersistSession` write.
-/

set_option autoImplicit false

namespace IspSession.Analysis

open IspSession.Library IspSession.Model

variable {loc : Collation} (p : Platform)

/-! ## Requests that leave a record alone -/

/-- There is a record with the stream under the id. -/
def Held (store : SessionStore) (id : Guid) (payload : List UInt8) : Prop :=
  ∃ record, store id = some record ∧ record.payload = payload

/-- Nothing will be written any more. -/
def Settled (r : Request loc) : Prop :=
  r.bErrState = true ∨ r.blnPersistDoneByOnEndPage = true

section Guarding

variable (id : Guid) (payload : List UInt8)

/-- Saving the request would not write the dictionary over the record. -/
structure Idle (r : Request loc) : Prop where
  unchanged : ¬ Unsaved r
  old : r.oldGuid = id
  here : r.blnLiquid = false → r.guid = id
  time : 0 < SessionStore.seconds r.lngTimeout

/-- The record is there, and the request will not write over it. -/
structure Guarded (r : Request loc) : Prop where
  held : Held r.store id payload
  idle : ¬ Settled r → Idle id r

/-- The session was abandoned, or its record is guarded. -/
def Unharmed (r : Request loc) : Prop := r.blnCancel = true ∨ Guarded id payload r

/-- A page that leaves the record under the id its stream. -/
def KeepsPayload (page : Page) : Prop :=
  ∀ store, Held store id payload → Held (page store).2 id payload

/-- The condition on a call under which the record is not replaced: nothing sets the dirty
flag as long as the dictionary may be written. -/
def Careful (r : Request loc) : Request.Call → Prop
  | .putValue _ _ _ => Settled r ∨ r.bReadonly = true
  | .putLCID _ isValid => Settled r ∨ r.bReadonly = true ∨ isValid = false
  | .contentsRemove _ => Settled r
  | .putTimeOut pVal => Settled r ∨ 0 < SessionStore.seconds pVal
  | .execute (some page) | .transfer page => KeepsPayload id payload page ∧ p.random r.drawn ≠ id
  | _ => True

end Guarding

/-- INTERNAL: a request that does not write leaves the stream where it was, or moves it to
the new id of a liquid session. -/
theorem persistSession_settles {id : Guid} {payload : List UInt8} {r : Request loc}
    (hheld : Held r.store id payload) (hcancel : r.blnCancel = false)
    (hidle : ¬ Settled r → ¬ Unsaved r ∧ r.oldGuid = id ∧
      0 < SessionStore.seconds r.lngTimeout) :
    ∃ r', r.persistSession p = .ok (.sOk, r') ∧ Settled r' ∧ r'.blnCancel = false ∧
      r'.guid = r.guid ∧ r'.drawn = r.drawn ∧
      (Held r'.store id payload ∨ (r.blnLiquid = true ∧ Held r'.store r.guid payload)) := by
  by_cases hsettled : Settled r
  · refine ⟨r, ?_, hsettled, hcancel, rfl, rfl, .inl hheld⟩
    unfold Request.persistSession
    rcases hsettled with herr | hdone
    · rw [if_pos herr]
      split <;> rfl
    · rw [if_pos hdone]
      rfl
  · obtain ⟨hunsaved, rfl, htime⟩ := hidle hsettled
    obtain ⟨record, hrecord, hpayload⟩ := hheld
    have herr : r.bErrState = false := by
      rw [← Bool.not_eq_true]
      exact fun h => hsettled (.inl h)
    have hdone : r.blnPersistDoneByOnEndPage = false := by
      rw [← Bool.not_eq_true]
      exact fun h => hsettled (.inr h)
    cases hro : r.bReadonly with
    | true =>
      refine ⟨{ r with blnPersistDoneByOnEndPage := true }, ?_, .inr rfl, hcancel, rfl, rfl,
        .inl ⟨record, hrecord, hpayload⟩⟩
      simp [Request.persistSession, hdone, herr, hro, hcancel, HResult.failed]
    | false =>
      refine ⟨_, persistSession_touches p ⟨hdone, herr, hcancel, hro⟩ hunsaved, .inr rfl, hcancel,
        rfl, rfl, ?_⟩
      have hsaved := expire_apply_self _ _ (movedStore_apply_saved hrecord) htime
      have hthere : ∀ key, savedUnder r = key → Held ((movedStore r).expire (savedUnder r)
          (SessionStore.seconds r.lngTimeout)) key payload := by
        rintro _ rfl
        exact ⟨_, hsaved, hpayload⟩
      cases hliquid : r.blnLiquid with
      | true => exact .inr ⟨rfl, hthere r.guid (if_pos hliquid)⟩
      | false => exact .inl (hthere r.oldGuid (if_neg (by simp [hliquid])))

/-- INTERNAL: saving before a page is run leaves the stream where it was. -/
theorem guarded_beforePage {id : Guid} {payload : List UInt8} {r : Request loc}
    (h : Guarded id payload r) (hcancel : r.blnCancel = false) :
    ∃ r₁, Request.persistSession p { r with blnLiquid := false } = .ok (.sOk, r₁) ∧
      Settled r₁ ∧ r₁.drawn = r.drawn ∧ Held r₁.store id payload := by
  have hheld : Held ({ r with blnLiquid := false } : Request loc).store id payload := h.held
  obtain ⟨r₁, hsave, hsettled, -, -, hdrawn, hheld⟩ :=
    persistSession_settles p hheld hcancel fun hnot =>
      ⟨(h.idle hnot).unchanged, (h.idle hnot).old, (h.idle hnot).time⟩
  refine ⟨r₁, hsave, hsettled, hdrawn, ?_⟩
  rcases hheld with hheld | ⟨hliquid, -⟩
  · exact hheld
  · cases hliquid

/-- INTERNAL: a page run by `Execute` or `Transfer`, and what is read after it. -/
theorem guarded_afterPage {id : Guid} {payload : List UInt8} {r r' : Request loc} {page : Page}
    (hsettled : Settled r) (hheld : Held r.store id payload)
    (hkeeps : KeepsPayload id payload page) (hfresh : p.random r.drawn ≠ id) {hr : HResult}
    (hrun : Request.dbInit p { r with
      m_piVarDict := r.m_piVarDict.removeAll
      blnNew := false
      blnExpired := false
      store := (page r.store).2 } = .ok (hr, r')) (liquid : Bool) :
    Guarded id payload { r' with blnLiquid := liquid } := by
  obtain ⟨hdone, -, herr, hstore⟩ := dbInit_frame p hrun
  have hsettled' : Settled r' := by
    rcases hsettled with h | h
    · exact .inl (by rw [herr h]; exact h)
    · exact .inr (hdone.trans h)
  refine ⟨?_, fun hnot => absurd hsettled' hnot⟩
  obtain ⟨record, hrecord, hpayload⟩ := hkeeps _ hheld
  exact ⟨record, (hstore id hfresh.symm).trans hrecord, hpayload⟩

/-- INTERNAL: `Execute` in a session that is not abandoned. -/
theorem guarded_execute {id : Guid} {payload : List UInt8} {r r' : Request loc} {page : Page}
    (h : Guarded id payload r) (hcancel : r.blnCancel = false)
    (hkeeps : KeepsPayload id payload page) (hfresh : p.random r.drawn ≠ id) {hr : HResult}
    (hrun : r.execute p (some page) = .ok (hr, r')) : Guarded id payload r' := by
  obtain ⟨r₁, hsave, hsettled, hdrawn, hheld⟩ := guarded_beforePage p h hcancel
  rw [← hdrawn] at hfresh
  simp only [Request.execute, hsave, Run.ok_bind, HResult.failed, Bool.false_eq_true,
    if_false] at hrun
  obtain ⟨⟨hr₂, r₂⟩, hinit, hrun⟩ := Run.bind_eq_ok hrun
  cases hrun
  exact guarded_afterPage p hsettled hheld hkeeps hfresh hinit r.blnLiquid

/-- INTERNAL: `Transfer` in a session that is not abandoned. -/
theorem guarded_transfer {id : Guid} {payload : List UInt8} {r r' : Request loc} {page : Page}
    (h : Guarded id payload r) (hcancel : r.blnCancel = false)
    (hkeeps : KeepsPayload id payload page) (hfresh : p.random r.drawn ≠ id) {hr : HResult}
    (hrun : r.transfer p page = .ok (hr, r')) : Guarded id payload r' := by
  obtain ⟨r₁, hsave, hsettled, hdrawn, hheld⟩ := guarded_beforePage p h hcancel
  rw [← hdrawn] at hfresh
  have hok : HResult.failed .sOk = false := rfl
  simp only [Request.transfer, hsave, Run.ok_bind, hok, Bool.false_eq_true, if_false] at hrun
  split at hrun
  · cases hrun
    exact ⟨hkeeps _ hheld, fun hnot => absurd hsettled hnot⟩
  · obtain ⟨⟨hr₂, r₂⟩, hinit, hrun⟩ := Run.bind_eq_ok hrun
    cases hrun
    exact guarded_afterPage p hsettled hheld hkeeps hfresh hinit r.blnLiquid

/-! ## One call -/

/-- INTERNAL: `putref_Item` and `RemoveAll` leave the dirty flag alone. -/
theorem blnDirty_of_not_setsDirty {d d' : VariantDictionary loc}
    {m : VariantDictionary.Mutation} (hm : setsDirty m = false) (h : d.mutate m = .ok d') :
    d'.blnDirty = d.blnDirty := by
  cases hro : d.readOnly with
  | false => simpa [hm] using blnDirty_mutate hro h
  | true =>
    cases m with
    | putItem key newVal defaults => cases hm
    | putrefItem key newVal =>
      rw [VariantDictionary.mutate, VariantDictionary.putrefItem, if_pos hro] at h
      cases h
      rfl
    | remove key => cases hm
    | removeAll =>
      cases h
      rfl

/-- INTERNAL: a call on the dictionary that leaves the dirty flag alone, or comes late. -/
theorem Guarded.onDictionary {id : Guid} {payload : List UInt8} {r r' : Request loc}
    (h : Guarded id payload r) {m : VariantDictionary.Mutation}
    (hm : Settled r ∨ setsDirty m = false) (hrun : r.onDictionary m = .ok r') :
    Guarded id payload r' := by
  obtain ⟨d, hd, rfl⟩ := onDictionary_eq hrun
  refine ⟨h.held, fun hnot => ?_⟩
  have hidle := h.idle hnot
  rcases hm with hsettled | hm
  · exact absurd hsettled hnot
  · refine ⟨?_, hidle.old, hidle.here, hidle.time⟩
    rintro (hdirty | hnew)
    · exact hidle.unchanged (.inl ((blnDirty_of_not_setsDirty hm hd).symm.trans hdirty))
    · exact hidle.unchanged (.inr hnew)

/-- **One careful call** leaves the session abandoned, or its record guarded. -/
theorem perform_unharmed {id : Guid} {payload : List UInt8} {r r' : Request loc}
    {call : Request.Call} (h : Unharmed id payload r) (hcareful : Careful p id payload r call)
    (hrun : r.perform p call = .ok r') : Unharmed id payload r' := by
  rcases h with hcancel | h
  · exact .inl (blnCancel_perform p hcancel hrun)
  cases hcancel : r.blnCancel with
  | true => exact .inl (blnCancel_perform p hcancel hrun)
  | false =>
    cases call with
    | putValue vkey newVal defaults =>
      rw [Request.perform] at hrun
      split at hrun
      · cases hrun
        exact .inr h
      · rename_i hro
        exact .inr (h.onDictionary (.inl (hcareful.resolve_right hro)) hrun)
    | putrefValue vkey newVal =>
      rw [Request.perform] at hrun
      split at hrun
      · cases hrun
        exact .inr h
      · exact .inr (h.onDictionary (.inr rfl) hrun)
    | contentsRemove vkey => exact .inr (h.onDictionary (.inl hcareful) hrun)
    | contentsRemoveAll => exact .inr (h.onDictionary (.inr rfl) hrun)
    | putLiquidCookie newVal =>
      cases hrun
      obtain ⟨_, _, _, _, _, _, _, hframe, hold, hhere⟩ := putLiquidCookie_frame p newVal r
      rw [hframe]
      refine .inr ⟨h.held, fun hnot => ?_⟩
      have hidle := h.idle hnot
      refine ⟨hidle.unchanged, ?_, fun hliquid => ?_, hidle.time⟩
      · rcases hold with hold | ⟨hliquid, hold⟩
        · exact hold.trans hidle.old
        · exact hold.trans (hidle.here hliquid)
      · rcases hhere hliquid with hguid | ⟨hliquid, hguid⟩
        · exact hguid.trans hidle.old
        · exact hguid.trans (hidle.here hliquid)
    | execute toPage =>
      cases toPage with
      | none =>
        cases hrun
        exact .inr h
      | some page =>
        obtain ⟨⟨hr, r₁⟩, hexec, hrun⟩ := Run.bind_eq_ok hrun
        cases hrun
        exact .inr (guarded_execute p h hcancel hcareful.1 hcareful.2 hexec)
    | transfer page =>
      obtain ⟨⟨hr, r₁⟩, htransfer, hrun⟩ := Run.bind_eq_ok hrun
      cases hrun
      exact .inr (guarded_transfer p h hcancel hcareful.1 hcareful.2 htransfer)
    | abandon =>
      cases hrun
      exact .inl rfl
    | putTimeOut pVal =>
      cases hrun
      unfold Request.putTimeOut
      split
      · exact .inr h
      · refine .inr ⟨h.held, fun hnot => ?_⟩
        have hidle := h.idle hnot
        exact ⟨hidle.unchanged, hidle.old, hidle.here, hcareful.resolve_left hnot⟩
    | putReEntrance newVal =>
      cases hrun
      exact .inr ⟨h.held, fun hnot =>
        ⟨(h.idle hnot).unchanged, (h.idle hnot).old, (h.idle hnot).here, (h.idle hnot).time⟩⟩
    | putReadonly newVal =>
      cases hrun
      unfold Request.putReadonly
      split
      · exact .inr h
      · exact .inr ⟨h.held, fun hnot =>
          ⟨(h.idle hnot).unchanged, (h.idle hnot).old, (h.idle hnot).here, (h.idle hnot).time⟩⟩
    | putLCID newVal isValid =>
      rcases perform_putLCID p hrun with ⟨rfl, -⟩ | ⟨hro, rfl, r₁, hput, rfl⟩
      · exact .inr h
      · have hsettled : Settled r := hcareful.resolve_right (by simp [hro])
        have h₁ := h.onDictionary (.inl hsettled) hput
        exact .inr ⟨h₁.held, fun hnot =>
          ⟨(h₁.idle hnot).unchanged, (h₁.idle hnot).old, (h₁.idle hnot).here, (h₁.idle hnot).time⟩⟩

/-! ## The beginning of the request -/

/-- The record has a stream, and `LocalLoad` does not return `S_OK` for it. -/
def NotRestored (loc : Collation) (record : SessionRecord) : Prop :=
  record.payload ≠ [] ∧ ∀ hr (d : VariantDictionary loc) pStream,
    VariantDictionary.new.localLoad p.mem (some ⟨record.payload, 0⟩) record.metaData.m_zLen =
      .ok (hr, d, pStream) → hr ≠ .sOk

/-- A liquid session is read with its own id, and has time to live. -/
def ReadByOwner (r : Request loc) (record : SessionRecord) : Prop :=
  record.metaData.m_Liquid = true →
    (r.blnFoundURLGuid = true → record.metaData.m_ReEntrance = true) ∧
      0 < SessionStore.seconds record.metaData.m_Expires

/-- INTERNAL: reading such a record does not succeed, unless the session is liquid. -/
theorem loadRecord_notRestored {r r' : Request loc} {record : SessionRecord} {hr : HResult}
    (hnew : r.m_piVarDict = .new) (hlost : NotRestored p loc record)
    (hrun : r.loadRecord p (rowsetOf record) .sOk = .ok (hr, r')) :
    (record.metaData.m_Liquid = false ∧ hr ≠ .sOk) ∨
    (record.metaData.m_Liquid = true ∧ ∃ d, d.blnDirty = false ∧
      r' = (opened r record d).newID p) := by
  rw [loadRecord_stream p hlost.1, hnew] at hrun
  obtain ⟨⟨hr₁, d, s⟩, hload, hrun⟩ := Run.bind_eq_ok hrun
  dsimp only at hrun
  split at hrun
  · rename_i hliquid
    cases hrun
    exact .inr ⟨hliquid, d, blnDirty_localLoad hload, rfl⟩
  · rename_i hliquid
    rw [Bool.not_eq_true] at hliquid
    cases hrun
    exact .inl ⟨hliquid, hlost.2 _ _ _ hload⟩

/-- INTERNAL: after `dbInit` a request has failed, or it is idle in a liquid session. -/
theorem dbInit_notRestored {r r' : Request loc} {record : SessionRecord} {hr : HResult}
    (h : Fresh r) {id : Guid} (hid : r.strGUID = some id) (hrecord : r.store id = some record)
    (hlost : NotRestored p loc record) (howner : ReadByOwner r record)
    (hrun : r.dbInit p = .ok (hr, r')) :
    r'.store = r.store ∧ (hr ≠ .sOk ∨ Idle id r') := by
  obtain ⟨hnew, hguid, hold⟩ := h.presented id hid
  have hopen := openOrInsert_found p (show r.store r.guid = some record by rw [hguid, hrecord])
  have hdict : (r.checkReEntrance p (rowsetOf record)).m_piVarDict = .new := by
    unfold Request.checkReEntrance
    split
    · obtain ⟨_, _, _, _, hframe⟩ := newID_frame p { r with blnExpired := true, blnNew := true }
      rw [hframe, h.dictionary]
      rfl
    · exact h.dictionary
  rw [Request.dbInit, if_neg (by simp [h.noError])] at hrun
  simp only [hopen, HResult.failed, Bool.false_eq_true, if_false] at hrun
  obtain ⟨⟨hr₂, r₂⟩, hread, hend⟩ := Run.bind_eq_ok hrun
  have hcalm := ((calm_checkReEntrance p (rowsetOf record) r).trans (calm_loadRecord p hread)).trans
    (calm_endInit p hend)
  refine ⟨hcalm.store, ?_⟩
  obtain ⟨rfl, d', cookies, locale, hsame, rfl⟩ := endInit_frame p hend
  rcases loadRecord_notRestored p hdict hlost hread with ⟨-, hne⟩ | ⟨hliquid, d, hdirty, rfl⟩
  · exact .inl hne
  · obtain ⟨hadmitted, htime⟩ := howner hliquid
    have hcheck := checkReEntrance_admits p hadmitted
    rw [hcheck] at hsame ⊢
    obtain ⟨_, _, _, _, hframe⟩ := newID_frame p (opened r record d)
    rw [hframe] at hsame ⊢
    refine .inr ⟨?_, hold, fun hnot => absurd (hliquid.symm.trans hnot) (by simp), htime⟩
    rintro (hu | hu | hu)
    · exact absurd (hu.symm.trans (hsame.trans hdirty)) (by simp)
    · exact absurd (hu.symm.trans hnew) (by simp)
    · exact absurd (hu.symm.trans h.notExpired) (by simp)

/-- INTERNAL: so it is after `OnStartPage`. -/
theorem onStartPage_unharmed {r r' : Request loc} {cookie query : Option Guid}
    (h : Fresh (r.identify cookie query)) {id : Guid}
    (hid : (r.identify cookie query).strGUID = some id) {record : SessionRecord}
    (hrecord : (r.identify cookie query).store id = some record)
    (hlost : NotRestored p loc record) (howner : ReadByOwner (r.identify cookie query) record)
    {hr : HResult} (hrun : r.onStartPage p cookie query = .ok (hr, r')) :
    Unharmed id record.payload r' := by
  unfold Request.onStartPage Request.initializeSession at hrun
  obtain ⟨⟨hr₁, r₁⟩, hboth, hrun⟩ := Run.bind_eq_ok hrun
  obtain ⟨⟨hr₂, r₂⟩, hinit, hsame⟩ := Run.bind_eq_ok hboth
  cases hsame
  obtain ⟨hstore, hstate⟩ := dbInit_notRestored p h hid hrecord hlost howner hinit
  have hheld : Held r₂.store id record.payload := ⟨record, by rw [hstore, hrecord], rfl⟩
  dsimp only at hrun
  split at hrun
  · rename_i hok
    obtain ⟨d, hinvoke, hrun⟩ := Run.bind_eq_ok hrun
    cases hrun
    refine .inr ⟨hheld, fun _ => ?_⟩
    rcases hstate with hne | hidle
    · exact absurd hok hne
    · refine ⟨?_, hidle.old, hidle.here, hidle.time⟩
      rintro (hdirty | hu)
      · have hsame := blnDirty_invokeOnStartPage p _ hinvoke
        exact hidle.unchanged (.inl (hsame.symm.trans hdirty))
      · exact hidle.unchanged (.inr hu)
  · split at hrun
    · cases hrun
      exact .inr ⟨hheld, fun hnot => absurd (.inl rfl) hnot⟩
    · rename_i hnotOk hnotFalse
      cases hrun
      have hfailed : hr.failed = true := by
        cases hr <;> simp_all [HResult.failed]
      exact .inr ⟨hheld, fun hnot => absurd (.inl (by simp [hfailed])) hnot⟩

/-! ## Whole requests -/

/-- A request loads a variable of the name from the record. -/
def LoadsName (loc : Collation) (record : SessionRecord) (name : Bstr) : Prop :=
  ∃ hr r', (Request.start (fun _ => none) 0 0 0 false : Request loc).loadRecord p
    (rowsetOf record) .sOk = .ok (hr, r') ∧ (r'.m_piVarDict.dictionary.find name).isSome

/-- The record of the session, under the id presented or the one it has been moved to,
still has its stream, or at least the variables of the given names; or the session was
abandoned. -/
def NotDestroyed (id : Guid) (payload : List UInt8) (names : List Bstr) (r : Request loc) :
    Prop :=
  r.blnCancel = true ∨
    ∃ id' record, (id' = id ∨ id' = r.guid) ∧ r.store id' = some record ∧
      (record.payload = payload ∨ ∀ name ∈ names, LoadsName p loc record name)

/-- **A failed or partial load does not destroy the record** in a request whose calls are
all careful, unless it goes on as somebody else's liquid session. -/
theorem notDestroyed_of_serve (store : SessionStore) (drawn : ℕ)
    (lngTimeOutSetting dtExpires : BitVec 32) (blnSnifQueryStringFirst : Bool)
    (cookie query : Option Guid) (calls : List Request.Call) {r r' : Request loc}
    (hr : r = .start store drawn lngTimeOutSetting dtExpires blnSnifQueryStringFirst)
    {id : Guid} (hid : (r.identify cookie query).strGUID = some id) {record : SessionRecord}
    (hrecord : store id = some record) (hlost : NotRestored p loc record)
    (howner : ReadByOwner (r.identify cookie query) record)
    (hcareful : ∀ hr r₁, r.onStartPage p cookie query = .ok (hr, r₁) →
      Runs.Meets (Request.perform p) (Careful p id record.payload) calls r₁)
    (hrun : r.serve p cookie query calls = .ok r') (names : List Bstr) :
    NotDestroyed p id record.payload names r' := by
  have hfresh : Fresh (r.identify cookie query) := by
    rw [hr]
    exact fresh_identify store drawn lngTimeOutSetting dtExpires blnSnifQueryStringFirst cookie
      query
  have hrecord' : (r.identify cookie query).store id = some record := by
    rw [hr, ← hrecord]
    cases blnSnifQueryStringFirst <;> cases cookie <;> cases query <;> rfl
  obtain ⟨⟨hr₁, r₁⟩, hstart, hrun⟩ := Run.bind_eq_ok hrun
  obtain ⟨r₂, hcalls, hrun⟩ := Run.bind_eq_ok hrun
  obtain ⟨⟨hr₃, r₃⟩, hend, hrun⟩ := Run.bind_eq_ok hrun
  cases hrun
  have hunharmed : Unharmed id record.payload r₂ :=
    Runs.run_invariant (Unharmed id record.payload)
      (fun r call r' hr hok hstep => perform_unharmed p hr hok hstep)
      (onStartPage_unharmed p hfresh hid hrecord' hlost howner hstart) (hcareful _ _ hstart)
      hcalls
  cases hcancel : r₂.blnCancel with
  | true => exact .inl ((blnCancel_persistSession p hend).trans hcancel)
  | false =>
    obtain ⟨hheld, hidle⟩ := hunharmed.resolve_left (by simp [hcancel])
    obtain ⟨r₄, hsave, -, -, hguid, -, hheld'⟩ := persistSession_settles p hheld hcancel
      fun hnot => ⟨(hidle hnot).unchanged, (hidle hnot).old, (hidle hnot).time⟩
    rw [Request.onEndPage, hsave] at hend
    cases hend
    rcases hheld' with ⟨record', hrecord', hpayload⟩ | ⟨-, record', hrecord', hpayload⟩
    · exact .inr ⟨id, record', .inl rfl, hrecord', .inl hpayload⟩
    · exact .inr ⟨r₂.guid, record', .inr hguid.symm, hrecord', .inl hpayload⟩

/-! ## A truncated record -/

/-- A dictionary with two numbers. -/
def twoNumbers : VariantDictionary .ordinal :=
  { VariantDictionary.new with
    dictionary := (oneNumber : VariantDictionary .ordinal).dictionary.upsert (Bstr.ofString "b")
      (.scalar .i4 8) }

/-- Its record, cut off behind the variable that is read first. -/
def truncatedRecord (m_Liquid : Bool) : SessionRecord where
  metaData :=
    { m_Expires := 20
      m_ReEntrance := true
      m_Liquid := m_Liquid
      m_zLen := (dictionaryBytes .zero twoNumbers).length }
  payload := (dictionaryBytes .zero twoNumbers).take 32
  ttl := 1200

/-- A request with that session. -/
def truncatedRequest (m_Liquid : Bool) : Request .ordinal :=
  .start (Function.update (fun _ => none) 7 (some (truncatedRecord m_Liquid))) 0 20 0 false

/-- A page that puts another number. -/
def putsAnother : List Request.Call :=
  [.putValue (Bstr.ofString "c") (.value (.scalar .i4 9)) []]

/-- INTERNAL: `LocalLoad` says `S_FALSE`. -/
theorem notRestored_truncated (m_Liquid : Bool) :
    NotRestored .counting .ordinal (truncatedRecord m_Liquid) := by
  constructor
  · cases m_Liquid <;> decide +kernel
  · intro hr d pStream hload
    have hresult : ∀ m_Liquid, ((VariantDictionary.new : VariantDictionary .ordinal).localLoad
        Platform.counting.mem (some ⟨(truncatedRecord m_Liquid).payload, 0⟩)
        (truncatedRecord m_Liquid).metaData.m_zLen).toOption.map (fun res => res.1) =
          some .sFalse := by decide +kernel
    have h := hresult m_Liquid
    rw [hload] at h
    obtain rfl : hr = .sFalse := Option.some.inj h
    simp

/-- A request on a session that is not liquid leaves the truncated record alone. -/
theorem truncatedRequest_notDestroyed :
    ∃ r', (truncatedRequest false).serve .counting (some 7) none putsAnother = .ok r' ∧
      NotDestroyed .counting 7 (truncatedRecord false).payload [Bstr.ofString "a"] r' := by
  have hruns : ((truncatedRequest false).serve .counting (some 7) none
      putsAnother).toOption.isSome := by decide +kernel
  obtain ⟨r', hr'⟩ := Option.isSome_iff_exists.mp hruns
  have hrun := Run.eq_ok_of_toOption hr'
  refine ⟨r', hrun, notDestroyed_of_serve .counting _ 0 20 0 false (some 7) none putsAnother rfl
    rfl rfl (notRestored_truncated false) (fun hliquid => by cases hliquid) ?_ hrun _⟩
  intro hr r₁ (hstart : (truncatedRequest false).onStartPage .counting (some 7) none =
    .ok (hr, r₁))
  have hfailed : (((truncatedRequest false).onStartPage .counting (some 7) none).toOption.map
      fun res => res.2.bErrState) = some true := by decide +kernel
  rw [hstart] at hfailed
  exact ⟨.inl (.inl (Option.some.inj hfailed)), fun _ _ => trivial⟩

/-- The record the request leaves of a liquid session: `b` was read, `c` was put, and the
name that could not be read is empty. -/
def replacedRecord : SessionRecord where
  metaData :=
    { m_Expires := 20
      m_ReEntrance := true
      m_Liquid := true
      m_zLen := 57 }
  payload := dictionaryBytes .zero
    { (VariantDictionary.new : VariantDictionary .ordinal) with
      dictionary := ((OrderedMap.empty.upsert [] .empty).upsert (Bstr.ofString "b")
        (.scalar .i4 8)).upsert (Bstr.ofString "c") (.scalar .i4 9) }
  ttl := 1200

/-- INTERNAL: its keys. -/
theorem keys_replacedRecord :
    ((Request.start (fun _ => none) 0 0 0 false : Request .ordinal).loadRecord .counting
      (rowsetOf replacedRecord) .sOk).toOption.map (fun res => res.2.m_piVarDict.dictionary.keys) =
        some [[], Bstr.ofString "b", Bstr.ofString "c"] := by decide +kernel

/-- INTERNAL: `a` is not among them. -/
theorem not_loadsName_replacedRecord :
    ¬ LoadsName .counting .ordinal replacedRecord (Bstr.ofString "a") := by
  rintro ⟨hr, r', hload, hfound⟩
  have hkeys := keys_replacedRecord
  rw [hload] at hkeys
  have hkeys' : r'.m_piVarDict.dictionary.keys = [[], Bstr.ofString "b", Bstr.ofString "c"] :=
    Option.some.inj hkeys
  obtain ⟨v, hv⟩ := Option.isSome_iff_exists.mp hfound
  obtain ⟨e, he, hequiv, -⟩ := OrderedMap.exists_of_find hv
  have hmem : e.1 ∈ r'.m_piVarDict.dictionary.keys := List.mem_map_of_mem he
  rw [hkeys'] at hmem
  have hnone : ∀ key ∈ [[], Bstr.ofString "b", Bstr.ofString "c"],
      Collation.ordinal.compare (Bstr.ofString "a") key ≠ .eq := by decide
  exact hnone _ hmem hequiv

/-- In a liquid session the record is moved and replaced, and a variable is gone. -/
theorem truncatedRequest_destroys :
    ∃ r', (truncatedRequest true).serve .counting (some 7) none putsAnother = .ok r' ∧
      ¬ NotDestroyed .counting 7 (truncatedRecord true).payload [Bstr.ofString "a"] r' := by
  have hend : ((truncatedRequest true).serve .counting (some 7) none putsAnother).toOption.map
      (fun r' => (r'.blnCancel, r'.store 7, r'.store r'.guid)) =
        some (false, none, some replacedRecord) := by decide +kernel
  obtain ⟨r', hr', hend⟩ := Option.map_eq_some_iff.mp hend
  simp only [Prod.mk.injEq] at hend
  obtain ⟨hcancel, hpresented, hmoved⟩ := hend
  refine ⟨r', Run.eq_ok_of_toOption hr', ?_⟩
  rintro (hcancelled | ⟨id, record, rfl | rfl, hrecord, hkept⟩)
  · exact absurd (hcancel.symm.trans hcancelled) (by simp)
  · exact absurd (hpresented.symm.trans hrecord) (by simp)
  · obtain rfl : replacedRecord = record := Option.some.inj (hmoved.symm.trans hrecord)
    rcases hkept with hpayload | hnames
    · exact absurd hpayload (by decide +kernel)
    · exact not_loadsName_replacedRecord (hnames _ (by simp))

end IspSession.Analysis
