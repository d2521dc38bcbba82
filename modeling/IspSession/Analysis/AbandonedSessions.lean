import IspSession.Analysis.RequestFrames

/-!
# Abandoned sessions

`Abandon` only marks the session; the record is deleted by `PersistSession`, which acts
once. `Execute` and `Transfer` use it up: what is abandoned afterwards keeps its record,
and what was abandoned before gets a new record when the session is read again. A session
that could not be loaded is not deleted either. In all other requests nothing is left of
an abandoned session, under whatever id.
-/

set_option autoImplicit false

namespace IspSession.Analysis

open IspSession.Library IspSession.Model

variable {loc : Collation} (p : Platform)

/-- **Nothing is left of the session**: there is no record under the id presented, under
an id sent in a cookie, or under any id whose record is not what it was. -/
def Destroyed (presented : Option Guid) (store : SessionStore) (r : Request loc) : Prop :=
  ∀ id, (presented = some id ∨ (∃ cookie ∈ r.cookies, cookie.value = some id) ∨
    r.store id ≠ store id) → r.store id = none

/-- The session can be loaded from the record: there is nothing in it, or it is liquid, or
`LocalLoad` succeeds. -/
def Restorable (loc : Collation) (record : SessionRecord) : Prop :=
  record.payload = [] ∨ record.metaData.m_Liquid = true ∨
    ∃ (d : VariantDictionary loc) (pStream : Option CStream),
      VariantDictionary.new.localLoad p.mem (some ⟨record.payload, 0⟩) record.metaData.m_zLen =
        .ok (.sOk, d, pStream)

/-- The condition on a call: the session is not saved by it, but for a `Transfer` of an
abandoned session to a page that cannot be run. -/
def Sparing (r : Request loc) : Request.Call → Prop
  | .execute (some _) => False
  | .transfer page =>
    r.blnCancel = true ∧ ∀ store, (page store).1.failed = true ∧ (page store).2 = store
  | _ => True

/-! ## Where the record is -/

section Tracking

variable (presented : Option Guid) (store : SessionStore) (drawn : ℕ)

/-- An id that was presented, or drawn by the request. -/
def OwnId (r : Request loc) (id : Guid) : Prop :=
  presented = some id ∨ ∃ k, drawn ≤ k ∧ k < r.drawn ∧ id = p.random k

/-- The only record that the request has touched is that under `oldGuid`, which is to be
deleted or has been. -/
structure Confined (r : Request loc) : Prop where
  live : r.blnPersistDoneByOnEndPage = false → r.bErrState = false
  deleted : r.blnPersistDoneByOnEndPage = true → r.blnCancel = true ∧ r.store r.oldGuid = none
  here : r.blnLiquid = false → r.guid = r.oldGuid
  others : ∀ id, id ≠ r.oldGuid → r.store id = store id
  replaced : ∀ id, presented = some id → id ≠ r.oldGuid → store id = none
  since : drawn ≤ r.drawn
  sent : ∀ id, r.strGUID = some id → OwnId p presented drawn r id
  before : ∀ id, r.m_OldSessionId = some id → OwnId p presented drawn r id
  cookies : ∀ cookie ∈ r.cookies, ∀ id, cookie.value = some id → OwnId p presented drawn r id

variable {presented store drawn}

/-- INTERNAL: an id is one's own when more have been drawn. -/
theorem OwnId.mono {r r' : Request loc} {id : Guid} (h : OwnId p presented drawn r id)
    (hle : r.drawn ≤ r'.drawn) : OwnId p presented drawn r' id := by
  rcases h with h | ⟨k, hk, hlt, rfl⟩
  · exact .inl h
  · exact .inr ⟨k, hk, lt_of_lt_of_le hlt hle, rfl⟩

/-- INTERNAL: sending the cookie once more. -/
theorem Confined.writeCookie {r : Request loc} (h : Confined p presented store drawn r) :
    Confined p presented store drawn r.writeCookie := by
  refine ⟨h.live, h.deleted, h.here, h.others, h.replaced, h.since, h.sent, h.before, ?_⟩
  intro cookie hcookie id hid
  rcases List.mem_cons.mp hcookie with rfl | hcookie
  · exact h.sent id hid
  · exact h.cookies cookie hcookie id hid

/-- INTERNAL: `NewID` of a liquid session. -/
theorem Confined.newID {r : Request loc} (h : Confined p presented store drawn r)
    (hliquid : r.blnLiquid = true) : Confined p presented store drawn (r.newID p) := by
  have hnew : r.newID p =
      { r with
        m_OldSessionId := if r.blnNew then r.m_OldSessionId else r.strGUID
        guid := p.random r.drawn
        drawn := r.drawn + 1
        strGUID := some (p.random r.drawn) } := by
    cases hb : r.blnNew <;> simp [Request.newID, hliquid, hb]
  have hmono : ∀ id, OwnId p presented drawn r id → OwnId p presented drawn (r.newID p) id := by
    intro id hid
    exact hid.mono p (by rw [hnew]; exact Nat.le_succ _)
  rw [hnew] at hmono ⊢
  refine ⟨h.live, h.deleted, fun hnot => absurd (hliquid.symm.trans hnot) (by simp), h.others,
    h.replaced, Nat.le_succ_of_le h.since, ?_, ?_, fun cookie hcookie id hid =>
      hmono id (h.cookies cookie hcookie id hid)⟩
  · intro id hid
    exact .inr ⟨r.drawn, h.since, Nat.lt_succ_self _, (Option.some.inj hid).symm⟩
  · intro id hid
    dsimp only at hid
    split at hid
    · exact hmono id (h.before id hid)
    · exact hmono id (h.sent id hid)

/-- INTERNAL: `put_LiquidCookie` moves the ids, and the record stays where it is. -/
theorem Confined.putLiquidCookie {r : Request loc} (h : Confined p presented store drawn r)
    (newVal : Bool) : Confined p presented store drawn (r.putLiquidCookie p newVal).2 := by
  unfold Request.putLiquidCookie
  split
  · exact h
  · split
    · split
      · exact h
      · rename_i hliquid
        rw [Bool.not_eq_true] at hliquid
        -- `oldGuid` becomes `guid`, which it is already
        have hsame : Confined p presented store drawn
            { r with blnLiquid := true, oldGuid := r.guid } := by
          rw [h.here hliquid]
          exact ⟨h.live, h.deleted, (fun hnot => by cases hnot), h.others, h.replaced,
            h.since, h.sent, h.before, h.cookies⟩
        exact (hsame.newID p rfl).writeCookie p
    · split
      · have hback : Confined p presented store drawn
            { r with blnLiquid := false, guid := r.oldGuid } :=
          ⟨h.live, h.deleted, fun _ => rfl, h.others, h.replaced, h.since, h.sent, h.before,
            h.cookies⟩
        dsimp only
        split
        · exact hback
        · rename_i id hid
          have hsent : Confined p presented store drawn
              { r with
                blnLiquid := false
                guid := r.oldGuid
                strGUID := some id
                m_OldSessionId := none } :=
            ⟨h.live, h.deleted, fun _ => rfl, h.others, h.replaced, h.since,
              fun id' hid' => Option.some.inj hid' ▸ h.before id hid, (fun id' hid' => by cases hid'),
              h.cookies⟩
          exact hsent.writeCookie p
      · exact h

/-! ## Deleting -/

/-- INTERNAL: what is to live no longer is deleted. -/
theorem expire_zero (store : SessionStore) (id : Guid) : store.expire id 0 id = none := by
  unfold SessionStore.expire
  cases h : store id with
  | none => exact h
  | some record => exact Function.update_self _ _ _

/-- **`PersistSession` deletes the record of an abandoned session**, unless it is gone. -/
theorem persistSession_deletes {r r' : Request loc} {hr : HResult} (hcancel : r.blnCancel = true)
    (hlive : r.blnPersistDoneByOnEndPage = false → r.bErrState = false)
    (hdeleted : r.blnPersistDoneByOnEndPage = true → r.store r.oldGuid = none)
    (hrun : r.persistSession p = .ok (hr, r')) :
    ∃ bErrState store', r' =
        { r with
          bErrState := bErrState
          store := store'
          blnPersistDoneByOnEndPage := true } ∧
      store' r.oldGuid = none ∧ ∀ id, id ≠ r.oldGuid → store' id = r.store id := by
  cases hdone : r.blnPersistDoneByOnEndPage with
  | true =>
    rw [Request.persistSession, if_pos hdone] at hrun
    cases hrun
    exact ⟨r.bErrState, r.store, by rw [← hdone], hdeleted hdone, fun _ _ => rfl⟩
  | false =>
    rw [Request.persistSession, if_neg (by simp [hdone]), if_neg (by simp [hlive hdone])] at hrun
    simp only [hcancel, not_true_eq_false, false_and, if_false, if_true, Run.pure_eq,
      Run.ok_bind] at hrun
    cases hrun
    refine ⟨_, r.store.expire r.oldGuid 0, by rw [← hcancel]; rfl, expire_zero _ _, ?_⟩
    exact fun id hne => expire_apply_other _ _ _ hne 0

/-- INTERNAL: `Transfer` of an abandoned session to a page that cannot be run. -/
theorem Confined.transfer {r r' : Request loc} {hr : HResult} {page : Page}
    (h : Confined p presented store drawn r) (hcancel : r.blnCancel = true)
    (hpage : ∀ store, (page store).1.failed = true ∧ (page store).2 = store)
    (hrun : r.transfer p page = .ok (hr, r')) : Confined p presented store drawn r' := by
  obtain ⟨⟨hr₁, r₁⟩, hsave, hrun⟩ := Run.bind_eq_ok hrun
  obtain ⟨bErrState, store', hframe, hgone, hothers⟩ :=
    persistSession_deletes p (r := { r with blnLiquid := false }) hcancel h.live
      (fun hdone => (h.deleted hdone).2) hsave
  have hend : r' =
      { r with
        m_piVarDict := r.m_piVarDict.removeAll
        blnNew := false
        blnExpired := false
        bErrState := bErrState
        store := store'
        blnPersistDoneByOnEndPage := true } := by
    dsimp only at hrun
    split at hrun
    · cases hrun
      rw [hframe]
    · rw [(hpage _).2, if_pos (hpage _).1] at hrun
      cases hrun
      rw [hframe]
  rw [hend]
  refine ⟨(fun hnot => by cases hnot), fun _ => ⟨hcancel, hgone⟩, h.here, ?_, h.replaced,
    h.since, h.sent, h.before, h.cookies⟩
  exact fun id hne => (hothers id hne).trans (h.others id hne)

/-! ## One call -/

/-- **One call** that does not save the session keeps track of its record. -/
theorem perform_confined {r r' : Request loc} {call : Request.Call}
    (h : Confined p presented store drawn r) (hsparing : Sparing r call)
    (hrun : r.perform p call = .ok r') : Confined p presented store drawn r' := by
  have hdict : ∀ m r₁, r.onDictionary m = .ok r₁ → Confined p presented store drawn r₁ := by
    intro m r₁ hm
    obtain ⟨d, -, rfl⟩ := onDictionary_eq hm
    exact ⟨h.live, h.deleted, h.here, h.others, h.replaced, h.since, h.sent, h.before, h.cookies⟩
  cases call with
  | putValue vkey newVal defaults =>
    rw [Request.perform] at hrun
    split at hrun
    · cases hrun
      exact h
    · exact hdict _ _ hrun
  | putrefValue vkey newVal =>
    rw [Request.perform] at hrun
    split at hrun
    · cases hrun
      exact h
    · exact hdict _ _ hrun
  | contentsRemove vkey => exact hdict _ _ hrun
  | contentsRemoveAll => exact hdict _ _ hrun
  | putLiquidCookie newVal =>
    cases hrun
    exact h.putLiquidCookie p newVal
  | execute toPage =>
    cases toPage with
    | none =>
      cases hrun
      exact h
    | some page => cases hsparing
  | transfer page =>
    obtain ⟨⟨hr, r₁⟩, htransfer, hrun⟩ := Run.bind_eq_ok hrun
    cases hrun
    exact h.transfer p hsparing.1 hsparing.2 htransfer
  | abandon =>
    cases hrun
    have hmarked : Confined p presented store drawn { r with blnCancel := true, dtExpires := -1 } :=
      ⟨h.live, fun hdone => ⟨rfl, (h.deleted hdone).2⟩, h.here, h.others, h.replaced, h.since,
        h.sent, h.before, h.cookies⟩
    have hsent := hmarked.writeCookie p
    exact ⟨hsent.live, hsent.deleted, hsent.here, hsent.others, hsent.replaced, hsent.since,
      hsent.sent, hsent.before, hsent.cookies⟩
  | putTimeOut pVal =>
    cases hrun
    unfold Request.putTimeOut
    split
    · exact h
    · exact ⟨h.live, h.deleted, h.here, h.others, h.replaced, h.since, h.sent, h.before,
        h.cookies⟩
  | putReEntrance newVal =>
    cases hrun
    exact ⟨h.live, h.deleted, h.here, h.others, h.replaced, h.since, h.sent, h.before, h.cookies⟩
  | putReadonly newVal =>
    cases hrun
    unfold Request.putReadonly
    split
    · exact h
    · exact ⟨h.live, h.deleted, h.here, h.others, h.replaced, h.since, h.sent, h.before,
        h.cookies⟩
  | putLCID newVal isValid =>
    rcases perform_putLCID p hrun with ⟨rfl, -⟩ | ⟨-, -, r₁, hput, rfl⟩
    · exact h
    · have h₁ := hdict _ r₁ hput
      exact ⟨h₁.live, h₁.deleted, h₁.here, h₁.others, h₁.replaced, h₁.since, h₁.sent, h₁.before,
        h₁.cookies⟩

/-! ## The beginning of the request -/

/-- INTERNAL: reading such a record succeeds. -/
theorem loadRecord_restorable {r r' : Request loc} {record : SessionRecord} {hr : HResult}
    (hnew : r.m_piVarDict = .new) (h : Restorable p loc record)
    (hrun : r.loadRecord p (rowsetOf record) .sOk = .ok (hr, r')) :
    hr = .sOk ∧ ∃ d, r' = renewed p (opened r record d) := by
  by_cases hempty : record.payload = []
  · have hstream : (rowsetOf record).m_pStream = none := if_pos hempty
    unfold Request.loadRecord at hrun
    rw [hstream] at hrun
    dsimp only [Run.pure_eq] at hrun
    rw [Run.ok_bind] at hrun
    unfold renewed
    split at hrun
    · rename_i hliquid
      cases hrun
      exact ⟨rfl, r.m_piVarDict, (if_pos hliquid).symm⟩
    · rename_i hliquid
      cases hrun
      exact ⟨rfl, r.m_piVarDict, (if_neg hliquid).symm⟩
  · rw [loadRecord_stream p hempty, hnew] at hrun
    obtain ⟨⟨hr₁, d, s⟩, hload, hrun⟩ := Run.bind_eq_ok hrun
    dsimp only at hrun
    unfold renewed
    split at hrun
    · rename_i hliquid
      cases hrun
      exact ⟨rfl, d, (if_pos hliquid).symm⟩
    · rename_i hliquid
      cases hrun
      rcases h with h | h | ⟨d', s', h⟩
      · exact absurd h hempty
      · exact absurd h hliquid
      · rw [h] at hload
        cases hload
        exact ⟨rfl, d, (if_neg hliquid).symm⟩

/-- INTERNAL: the end of `dbInit`. -/
theorem Confined.endInit {presented : Option Guid} {store : SessionStore} {drawn : ℕ}
    {r r' : Request loc} {hr : HResult} (h : Confined p presented store drawn r)
    (hrun : r.endInit p .sOk false = .ok (hr, r')) :
    hr = .sOk ∧ r'.blnCancel = r.blnCancel ∧ Confined p presented store drawn r' := by
  have hend : ∀ (r₁ : Request loc) (d : VariantDictionary loc) (locale : Option (BitVec 32)),
      Confined p presented store drawn r₁ → r₁.blnCancel = r.blnCancel →
      (.ok (.sOk, { r₁ with
        m_piVarDict := d
        threadLocale := locale
        bErrState := r₁.bErrState || HResult.sOk.failed }) : Run (HResult × Request loc)) =
        .ok (hr, r') →
      hr = .sOk ∧ r'.blnCancel = r.blnCancel ∧ Confined p presented store drawn r' := by
    intro r₁ d locale h₁ hcancel hrun
    cases hrun
    refine ⟨rfl, hcancel, fun hdone => ?_, h₁.deleted, h₁.here, h₁.others, h₁.replaced, h₁.since,
      h₁.sent, h₁.before, h₁.cookies⟩
    show (r₁.bErrState || false) = false
    rw [Bool.or_false]
    exact h₁.live hdone
  unfold Request.endInit at hrun
  split at hrun
  · obtain ⟨⟨hr₁, v, d⟩, -, hrun⟩ := Run.bind_eq_ok hrun
    exact hend _ d _ (h.writeCookie p) rfl hrun
  · obtain ⟨⟨hr₁, v, d⟩, -, hrun⟩ := Run.bind_eq_ok hrun
    exact hend _ d _ h rfl hrun

/-- INTERNAL: after `dbInit` the request has touched the record under `oldGuid` only. -/
theorem dbInit_confined {r r' : Request loc} {hr : HResult} (h : Fresh r)
    (hcookies : r.cookies = []) (hhere : r.guid = r.oldGuid)
    (htime : 0 < SessionStore.seconds r.lngTimeOutSetting)
    (hsession : ∀ record, r.store r.guid = some record → Restorable p loc record ∧
      (r.blnFoundURLGuid = true → record.metaData.m_ReEntrance = true))
    (hrun : r.dbInit p = .ok (hr, r')) :
    hr = .sOk ∧ r'.blnCancel = false ∧ Confined p r.strGUID r.store r.drawn r' := by
  have hown : ∀ {r₁ : Request loc} id, r.strGUID = some id →
      OwnId p r.strGUID r.drawn r₁ id := fun id hid => .inl hid
  cases hrecord : r.store r.guid with
  | none =>
    rw [dbInit_inserts p h.noError hrecord htime (by rw [h.dictionary]; rfl)] at hrun
    cases hrun
    have hdrawn : ∀ id, some (p.random r.drawn) = some id →
        OwnId p r.strGUID r.drawn (inserted p r) id :=
      fun id hid => .inr ⟨r.drawn, le_refl _, Nat.lt_succ_self _, (Option.some.inj hid).symm⟩
    refine ⟨rfl, h.kept, fun _ => h.noError, fun hdone => ?_, fun _ => rfl,
      fun id hne => Function.update_of_ne hne _ _, fun id hid _ => ?_, Nat.le_succ _, hdrawn,
      fun id hid => ?_, fun cookie hcookie id hid => ?_⟩
    · exact absurd (h.pending.symm.trans hdone) (by simp)
    · obtain ⟨-, hguid, -⟩ := h.presented id hid
      exact hguid ▸ hrecord
    · exact absurd (h.noOldId.symm.trans hid) (by simp)
    · rcases List.mem_cons.mp hcookie with rfl | hcookie
      · exact hdrawn id hid
      · rw [hcookies] at hcookie
        cases hcookie
  | some record =>
    obtain ⟨hrestorable, hadmitted⟩ := hsession record hrecord
    have hopen := openOrInsert_found p hrecord
    have hcheck := checkReEntrance_admits p hadmitted
    rw [Request.dbInit, if_neg (by simp [h.noError])] at hrun
    simp only [hopen, HResult.failed, Bool.false_eq_true, if_false, hcheck] at hrun
    obtain ⟨⟨hr₂, r₂⟩, hread, hend⟩ := Run.bind_eq_ok hrun
    obtain ⟨rfl, d, rfl⟩ := loadRecord_restorable p h.dictionary hrestorable hread
    have hopened : Confined p r.strGUID r.store r.drawn (opened r record d) := by
      refine ⟨fun _ => h.noError, fun hdone => ?_, fun _ => hhere, fun _ _ => rfl,
        fun id hid hne => ?_, le_refl _, hown, fun id hid => ?_, fun cookie hcookie => ?_⟩
      · exact absurd (h.pending.symm.trans hdone) (by simp)
      · exact absurd (h.presented id hid).2.2.symm hne
      · exact absurd (h.noOldId.symm.trans hid) (by simp)
      · exact absurd (hcookies ▸ hcookie) (by simp)
    have hrenewed : Confined p r.strGUID r.store r.drawn (renewed p (opened r record d)) := by
      unfold renewed
      split
      · rename_i hliquid
        exact hopened.newID p hliquid
      · exact hopened
    obtain ⟨hok, hcancel, hconfined⟩ := hrenewed.endInit p hend
    refine ⟨hok, hcancel.trans ?_, hconfined⟩
    obtain ⟨_, _, _, _, hframe⟩ := renewed_frame p (opened r record d)
    rw [hframe]
    exact h.kept

end Tracking

/-! ## Whole requests -/

/-- No call of the request saves the session. -/
def SparingRequest (cookie query : Option Guid) (calls : List Request.Call) (r : Request loc) :
    Prop :=
  ∀ hr r', r.onStartPage p cookie query = .ok (hr, r') →
    Runs.Meets (Request.perform p) Sparing calls r'

/-- INTERNAL: an abandoned session is abandoned at the end. -/
theorem blnCancel_run {calls : List Request.Call} {r r' : Request loc}
    (h : r.blnCancel = true ∨ .abandon ∈ calls)
    (hrun : Runs.run (Request.perform p) calls r = .ok r') : r'.blnCancel = true := by
  induction calls generalizing r with
  | nil =>
    cases hrun
    simpa using h
  | cons call calls ih =>
    obtain ⟨r₁, hcall, hrest⟩ := Runs.run_cons_eq_ok hrun
    refine ih ?_ hrest
    rcases h with h | h
    · exact .inl (blnCancel_perform p h hcall)
    · rcases List.mem_cons.mp h with rfl | h
      · cases hcall
        exact .inl rfl
      · exact .inr h

/-- **An abandoned session is destroyed** in every request that saves it by no call. The
session could be loaded, its id was not refused, and the ids drawn are new. -/
theorem destroyed_of_serve (store : SessionStore) (drawn : ℕ)
    (lngTimeOutSetting dtExpires : BitVec 32) (blnSnifQueryStringFirst : Bool)
    (cookie query : Option Guid) (calls : List Request.Call) {r r' : Request loc}
    (hr : r = .start store drawn lngTimeOutSetting dtExpires blnSnifQueryStringFirst)
    (htime : 0 < SessionStore.seconds lngTimeOutSetting)
    (hsession : ∀ record, store (r.identify cookie query).guid = some record →
      Restorable p loc record ∧
        ((r.identify cookie query).blnFoundURLGuid = true → record.metaData.m_ReEntrance = true))
    (hnew : ∀ k, drawn ≤ k → k < r'.drawn → store (p.random k) = none)
    (habandoned : .abandon ∈ calls) (hsparing : SparingRequest p cookie query calls r)
    (hrun : r.serve p cookie query calls = .ok r') :
    Destroyed (r.identify cookie query).strGUID store r' := by
  subst hr
  have hfresh : Fresh ((Request.start store drawn lngTimeOutSetting dtExpires
      blnSnifQueryStringFirst : Request loc).identify cookie query) :=
    fresh_identify store drawn lngTimeOutSetting dtExpires blnSnifQueryStringFirst cookie query
  obtain ⟨hstore, hdrawn, hsetting, hcookies, hhere⟩ := identify_leaves store drawn lngTimeOutSetting
    dtExpires blnSnifQueryStringFirst cookie query _ (rfl : _ = (_ : Request loc))
  generalize hfirst : (Request.start store drawn lngTimeOutSetting dtExpires
    blnSnifQueryStringFirst : Request loc) = start at *
  have hinit : ∀ hr₁ r₁, (start.identify cookie query).dbInit p = .ok (hr₁, r₁) → hr₁ = .sOk ∧
      Confined p (start.identify cookie query).strGUID store drawn r₁ := by
    intro hr₁ r₁ hinit
    obtain ⟨hok, -, hconfined⟩ := dbInit_confined p hfresh hcookies hhere (hsetting ▸ htime)
      (fun record hrecord => hsession record (hstore ▸ hrecord)) hinit
    rw [hstore, hdrawn] at hconfined
    exact ⟨hok, hconfined⟩
  obtain ⟨⟨hr₁, r₁⟩, hstart, hrun⟩ := Run.bind_eq_ok hrun
  obtain ⟨hr₀, r₀, hload, -, hsame⟩ := onStartPage_frame p hstart
  obtain ⟨hok, h⟩ := hinit _ _ hload
  obtain ⟨d, rfl⟩ := hsame hok
  have hbegun : Confined p (start.identify cookie query).strGUID store drawn
      { r₀ with m_piVarDict := d } :=
    ⟨h.live, h.deleted, h.here, h.others, h.replaced, h.since, h.sent, h.before, h.cookies⟩
  obtain ⟨r₂, hcalls, hrun⟩ := Run.bind_eq_ok hrun
  have hconfined := Runs.run_invariant (Confined p (start.identify cookie query).strGUID store drawn)
    (fun r call r' h hok hstep => perform_confined p h hok hstep) hbegun (hsparing _ _ hstart) hcalls
  have hcancel := blnCancel_run p (.inr habandoned) hcalls
  obtain ⟨⟨hr₃, r₃⟩, hend, hrun⟩ := Run.bind_eq_ok hrun
  cases hrun
  obtain ⟨bErrState, store', hframe, hgone, hothers⟩ := persistSession_deletes p hcancel
    hconfined.live (fun hdone => (hconfined.deleted hdone).2) hend
  subst hframe
  have hkept : ∀ id, id ≠ r₂.oldGuid → store' id = store id :=
    fun id hne => (hothers id hne).trans (hconfined.others id hne)
  have hown : ∀ id, OwnId p (start.identify cookie query).strGUID drawn r₂ id → store' id = none := by
    intro id hid
    by_cases hold : id = r₂.oldGuid
    · exact hold ▸ hgone
    · rw [hkept id hold]
      rcases hid with hid | ⟨k, hk, hlt, rfl⟩
      · exact hconfined.replaced id hid hold
      · exact hnew k hk hlt
  rintro id (hid | ⟨cookie, hcookie, hid⟩ | hchanged)
  · exact hown id (.inl hid)
  · exact hown id (hconfined.cookies cookie hcookie id hid)
  · by_contra hsome
    refine hchanged (hkept id fun hold => hsome ?_)
    exact hold ▸ hgone

/-- A request on the session with one number under the id 7. -/
def oneSession : SessionStore := fun id => if id = 7 then some (oneNumberRecord true false) else none

/-- It abandons the session after making it liquid. -/
theorem liquidSession_destroyed :
    ∃ r' : Request .ordinal, (Request.start oneSession 0 20 0 false).serve .counting (some 7) none
        [.putLiquidCookie true, .abandon] = .ok r' ∧
      Destroyed (some 7) oneSession r' := by
  have hruns : (((Request.start oneSession 0 20 0 false : Request .ordinal).serve .counting (some 7)
      none [.putLiquidCookie true, .abandon]).toOption.map fun r' => r'.drawn) = some 1 := by
    decide +kernel
  obtain ⟨r', hr', hdrawn⟩ := Option.map_eq_some_iff.mp hruns
  have hrun := Run.eq_ok_of_toOption hr'
  refine ⟨r', hrun, destroyed_of_serve .counting oneSession 0 20 0 false (some 7) none
    [.putLiquidCookie true, .abandon] rfl (by decide) ?_ ?_ (by simp) ?_ hrun⟩
  · intro record hrecord
    obtain rfl : oneNumberRecord true false = record := Option.some.inj hrecord
    have hloads : (((VariantDictionary.new : VariantDictionary .ordinal).localLoad .zero
        (some ⟨(oneNumberRecord true false).payload, 0⟩)
        (oneNumberRecord true false).metaData.m_zLen).toOption.map fun res => res.1) =
        some .sOk := by decide +kernel
    obtain ⟨⟨hr, d, s⟩, hres, hok⟩ := Option.map_eq_some_iff.mp hloads
    obtain rfl : hr = .sOk := hok
    exact ⟨.inr (.inr ⟨d, s, Run.eq_ok_of_toOption hres⟩), fun _ => rfl⟩
  · intro k _ hk
    obtain rfl : k = 0 := by omega
    rfl
  · intro hr r₁ _
    exact ⟨trivial, fun _ _ => ⟨trivial, fun _ _ => trivial⟩⟩

/-- A page that does nothing. -/
def idlePage : Page := fun store => (.sOk, store)

/-- A session that is abandoned after `Execute` keeps its record, and one that is abandoned
before it gets a new one, under an id that is sent. -/
theorem executedSession_not_destroyed :
    (∃ r' : Request .ordinal, (Request.start oneSession 0 20 0 false).serve .counting (some 7) none
        [.execute (some idlePage), .abandon] = .ok r' ∧ ¬ Destroyed (some 7) oneSession r') ∧
    ∃ r' : Request .ordinal, (Request.start oneSession 0 20 0 false).serve .counting (some 7) none
        [.abandon, .execute (some idlePage)] = .ok r' ∧ ¬ Destroyed (some 7) oneSession r' := by
  constructor
  · have hend : (((Request.start oneSession 0 20 0 false : Request .ordinal).serve .counting
        (some 7) none [.execute (some idlePage), .abandon]).toOption.map fun r' =>
          (r'.store 7).isSome) = some true := by decide +kernel
    obtain ⟨r', hr', hsome⟩ := Option.map_eq_some_iff.mp hend
    refine ⟨r', Run.eq_ok_of_toOption hr', fun h => ?_⟩
    rw [h 7 (.inl rfl)] at hsome
    cases hsome
  · have hend : (((Request.start oneSession 0 20 0 false : Request .ordinal).serve .counting
        (some 7) none [.abandon, .execute (some idlePage)]).toOption.map fun r' =>
          ((r'.store 1000).isSome, r'.cookies.map SessionCookie.value)) =
        some (true, [some 1000, some 7]) := by decide +kernel
    obtain ⟨r', hr', hend⟩ := Option.map_eq_some_iff.mp hend
    obtain ⟨hsome, hcookies⟩ := Prod.mk.inj hend
    refine ⟨r', Run.eq_ok_of_toOption hr', fun h => ?_⟩
    have hmem : some 1000 ∈ r'.cookies.map SessionCookie.value := by rw [hcookies]; simp
    obtain ⟨cookie, hcookie, hvalue⟩ := List.mem_map.mp hmem
    rw [h 1000 (.inr (.inl ⟨cookie, hcookie, hvalue⟩))] at hsome
    cases hsome

end IspSession.Analysis
