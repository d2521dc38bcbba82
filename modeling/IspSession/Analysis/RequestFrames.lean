import IspSession.Analysis.SessionLoading
import IspSession.Analysis.VariableCalls

/-!
# What a request leaves alone

`LocalLoad` and `get_Item` leave the dirty flag as it is, whatever they read. `dbInit`
leaves every record but the one it may insert, the flag that says that the session was
abandoned and the one that says that it has been saved; this for every record, also one
that cannot be restored. No call brings back an abandoned session.
-/

set_option autoImplicit false

namespace IspSession.Analysis

open IspSession.Library IspSession.Model

variable {loc : Collation} (p : Platform)

/-! ## The dirty flag -/

/-- INTERNAL: reading a property does not set the dirty flag. -/
theorem blnDirty_readProperty {mem : Memory} {l l' : VariantDictionary.Loading loc}
    {hr : HResult} {name : Bstr} {v : Variant}
    (h : VariantDictionary.readProperty mem l = .ok (hr, name, v, l')) :
    l'.d.blnDirty = l.d.blnDirty := by
  unfold VariantDictionary.readProperty at h
  obtain ⟨⟨hr₁, name₁, c₁⟩, -, h⟩ := Run.bind_eq_ok h
  dsimp only at h
  split at h
  · obtain ⟨⟨hr₂, v₂, c₂⟩, -, h⟩ := Run.bind_eq_ok h
    cases h
    rfl
  · cases h
    rfl

/-- INTERNAL: nor does the loop over the properties. -/
theorem blnDirty_loadProperties {mem : Memory} (n : ℕ) {hr hr' : HResult}
    {l l' : VariantDictionary.Loading loc}
    (h : VariantDictionary.loadProperties mem n hr l = .ok (hr', l')) :
    l'.d.blnDirty = l.d.blnDirty := by
  induction n generalizing hr l with
  | zero =>
    cases h
    rfl
  | succ n ih =>
    rw [VariantDictionary.loadProperties] at h
    split at h
    · obtain ⟨⟨hr₁, key, v, l₁⟩, hread, h⟩ := Run.bind_eq_ok h
      obtain ⟨hrCopy, -, h⟩ := Run.bind_eq_ok h
      have hsame := blnDirty_readProperty hread
      dsimp only at h
      split at h
      · exact (ih h).trans hsame
      · exact (ih h).trans hsame
    · cases h
      rfl

/-- **`LocalLoad` leaves the dirty flag alone**, whatever it reads. -/
theorem blnDirty_localLoad {mem : Memory} {d d' : VariantDictionary loc}
    {pStream pStream' : Option CStream} {lSize : ℕ} {hr : HResult}
    (h : d.localLoad mem pStream lSize = .ok (hr, d', pStream')) :
    d'.blnDirty = d.blnDirty := by
  unfold VariantDictionary.localLoad at h
  split at h
  · cases h
    rfl
  · split at h
    · cases h
      rfl
    · obtain ⟨⟨hr₁, name, v, l⟩, hread, h⟩ := Run.bind_eq_ok h
      dsimp only at h
      split at h
      · cases h
        exact blnDirty_readProperty hread
      · split at h
        · cases h
          exact blnDirty_readProperty hread
        · obtain ⟨⟨hr₂, l₂⟩, hloop, h⟩ := Run.bind_eq_ok h
          cases h
          exact (blnDirty_loadProperties _ hloop).trans (blnDirty_readProperty hread)

/-- INTERNAL: `get_Item` leaves the dirty flag alone. -/
theorem blnDirty_getItem {oleLoad : List UInt8 → Option ComObject}
    {d d' : VariantDictionary loc} {key : Bstr} {hr : HResult} {v : Variant}
    (h : d.getItem oleLoad key = .ok (hr, v, d')) : d'.blnDirty = d.blnDirty := by
  rcases getVariable_leaves h with rfl | ⟨_, _, _, -, -, -, -, rfl⟩
  · rfl
  · rfl

/-- INTERNAL: so does `InvokeOnStartPage`. -/
theorem blnDirty_invokeOnStartPage (keys : List Bstr) {d d' : VariantDictionary loc}
    (h : Request.invokeOnStartPage p d keys = .ok d') : d'.blnDirty = d.blnDirty := by
  induction keys generalizing d with
  | nil =>
    cases h
    rfl
  | cons key keys ih =>
    rw [Request.invokeOnStartPage] at h
    split at h
    · obtain ⟨⟨hr, v, d₁⟩, hget, h⟩ := Run.bind_eq_ok h
      dsimp only at h
      split at h
      · cases h
      · exact (ih h).trans (blnDirty_getItem hget)
    · obtain ⟨⟨hr, v, d₁⟩, hget, h⟩ := Run.bind_eq_ok h
      dsimp only at h
      split at h
      · cases h
      · exact (ih h).trans (blnDirty_getItem hget)
    · exact ih h

/-! ## `dbInit` -/

/-- The flags of a request that loading leaves alone, and the records. -/
structure Calm (r r' : Request loc) : Prop where
  done : r'.blnPersistDoneByOnEndPage = r.blnPersistDoneByOnEndPage
  cancel : r'.blnCancel = r.blnCancel
  store : r'.store = r.store

/-- INTERNAL: one after the other. -/
theorem Calm.trans {r r' r'' : Request loc} (h : Calm r r') (h' : Calm r' r'') : Calm r r'' :=
  ⟨h'.done.trans h.done, h'.cancel.trans h.cancel, h'.store.trans h.store⟩

/-- INTERNAL: `NewID` is calm. -/
theorem calm_newID (r : Request loc) : Calm r (r.newID p) := by
  obtain ⟨_, _, _, _, h⟩ := newID_frame p r
  rw [h]
  exact ⟨rfl, rfl, rfl⟩

/-- INTERNAL: so is the test of an id. -/
theorem calm_checkReEntrance (rowset : SessionStore.Rowset) (r : Request loc) :
    Calm r (r.checkReEntrance p rowset) := by
  unfold Request.checkReEntrance
  split
  · have h := calm_newID p { r with blnExpired := true, blnNew := true }
    exact ⟨h.done, h.cancel, h.store⟩
  · exact ⟨rfl, rfl, rfl⟩

/-- INTERNAL: so is reading a record. -/
theorem calm_loadRecord {rowset : SessionStore.Rowset} {hr hr' : HResult} {r r' : Request loc}
    (h : r.loadRecord p rowset hr = .ok (hr', r')) : Calm r r' := by
  have hrenew : ∀ (hr₁ : HResult) (r₁ : Request loc), Calm r r₁ →
      (if r₁.blnLiquid = true then (pure (.sOk, r₁.newID p) : Run (HResult × Request loc))
        else pure (hr₁, r₁)) = .ok (hr', r') → Calm r r' := by
    intro hr₁ r₁ hr₁ h
    split at h
    · cases h
      exact hr₁.trans (calm_newID p r₁)
    · cases h
      exact hr₁
  unfold Request.loadRecord at h
  dsimp only at h
  split at h
  · rw [Run.pure_eq, Run.ok_bind] at h
    exact hrenew hr { r with
      lngTimeout := rowset.m_Expires
      blnReEntrance := rowset.m_ReEntrance
      blnLiquid := rowset.m_Liquid } ⟨rfl, rfl, rfl⟩ h
  · obtain ⟨⟨hr₂, d, s⟩, -, h⟩ := Run.bind_eq_ok h
    exact hrenew hr₂ { r with
      lngTimeout := rowset.m_Expires
      blnReEntrance := rowset.m_ReEntrance
      blnLiquid := rowset.m_Liquid
      m_piVarDict := d } ⟨rfl, rfl, rfl⟩ h

/-- INTERNAL: the end of `dbInit` passes its result on, and leaves the dirty flag alone. -/
theorem endInit_frame {hr hr' : HResult} {bDidInsert : Bool} {r r' : Request loc}
    (h : r.endInit p hr bDidInsert = .ok (hr', r')) :
    hr' = hr ∧ ∃ d cookies locale, d.blnDirty = r.m_piVarDict.blnDirty ∧
      r' = { r with
        m_piVarDict := d
        cookies := cookies
        threadLocale := locale
        bErrState := r.bErrState || hr.failed } := by
  unfold Request.endInit at h
  split at h
  · obtain ⟨⟨hr₁, v, d⟩, hget, h⟩ := Run.bind_eq_ok h
    cases h
    exact ⟨rfl, d, _, _, blnDirty_getItem hget, rfl⟩
  · obtain ⟨⟨hr₁, v, d⟩, hget, h⟩ := Run.bind_eq_ok h
    cases h
    exact ⟨rfl, d, r.cookies, _, blnDirty_getItem hget, rfl⟩

/-- INTERNAL: it is calm. -/
theorem calm_endInit {hr hr' : HResult} {bDidInsert : Bool} {r r' : Request loc}
    (h : r.endInit p hr bDidInsert = .ok (hr', r')) : Calm r r' := by
  obtain ⟨-, d, cookies, locale, -, rfl⟩ := endInit_frame p h
  exact ⟨rfl, rfl, rfl⟩

/-- INTERNAL: an insertion touches the record under the new id only. -/
theorem store_openOrInsert (r : Request loc) :
    (r.openOrInsert p).2.2.2.blnPersistDoneByOnEndPage = r.blnPersistDoneByOnEndPage ∧
    (r.openOrInsert p).2.2.2.blnCancel = r.blnCancel ∧
    ∀ id, id ≠ p.random r.drawn → (r.openOrInsert p).2.2.2.store id = r.store id := by
  have hset : ∀ (store : SessionStore) (key id : Guid) (metaData : PersistMetaData)
      (payload : List UInt8) (seconds : ℤ), id ≠ key →
      (store.set key metaData payload seconds).2 id = store id := by
    intro store key id metaData payload seconds hne
    unfold SessionStore.set
    split
    · rfl
    · exact Function.update_of_ne hne _ _
  have hid : Request.newID p { r with blnExpired := r.blnExpired || !r.blnNew, blnNew := true } =
      { r with
        blnExpired := r.blnExpired || !r.blnNew
        blnNew := true
        guid := p.random r.drawn
        strGUID := some (p.random r.drawn)
        drawn := r.drawn + 1 } := by
    simp [Request.newID]
  unfold Request.openOrInsert
  obtain ⟨hr, rowset⟩ := r.store.openRowset r.guid
  dsimp only
  split
  · rw [hid]
    dsimp only
    split
    · exact ⟨rfl, rfl, fun id hne => hset _ _ _ _ _ _ hne⟩
    · exact ⟨rfl, rfl, fun id hne => hset _ _ _ _ _ _ hne⟩
  · exact ⟨rfl, rfl, fun id hne => rfl⟩

/-- **What `dbInit` leaves alone**: every record but the one it may insert. -/
theorem dbInit_frame {r r' : Request loc} {hr : HResult} (h : r.dbInit p = .ok (hr, r')) :
    r'.blnPersistDoneByOnEndPage = r.blnPersistDoneByOnEndPage ∧ r'.blnCancel = r.blnCancel ∧
    (r.bErrState = true → r' = r) ∧
    ∀ id, id ≠ p.random r.drawn → r'.store id = r.store id := by
  unfold Request.dbInit at h
  split at h
  · cases h
    exact ⟨rfl, rfl, fun _ => rfl, fun _ _ => rfl⟩
  · rename_i herr
    obtain ⟨hdone, hcancel, hstore⟩ := store_openOrInsert p r
    rcases hopen : r.openOrInsert p with ⟨hr₁, rowset, bDidInsert, r₁⟩
    rw [hopen] at h hdone hcancel hstore
    dsimp only at h hdone hcancel hstore
    split at h
    · cases h
      exact ⟨hdone, hcancel, fun he => absurd he herr, hstore⟩
    · have hcalm : Calm r₁ r' := by
        split at h
        · rw [Run.pure_eq, Run.ok_bind] at h
          exact (calm_checkReEntrance p rowset r₁).trans (calm_endInit p h)
        · obtain ⟨⟨hr₂, r₂⟩, hread, h⟩ := Run.bind_eq_ok h
          exact ((calm_checkReEntrance p rowset r₁).trans (calm_loadRecord p hread)).trans
            (calm_endInit p h)
      refine ⟨hcalm.done.trans hdone, hcalm.cancel.trans hcancel, fun he => absurd he herr, ?_⟩
      intro id hne
      rw [hcalm.store]
      exact hstore id hne

/-! ## The beginning of a request -/

/-- INTERNAL: finding the id changes nothing else. -/
theorem identify_leaves (store : SessionStore) (drawn : ℕ)
    (lngTimeOutSetting dtExpires : BitVec 32) (blnSnifQueryStringFirst : Bool)
    (cookie query : Option Guid) (r : Request loc)
    (hr : r = (Request.start store drawn lngTimeOutSetting dtExpires
      blnSnifQueryStringFirst : Request loc).identify cookie query) :
    r.store = store ∧ r.drawn = drawn ∧ r.lngTimeOutSetting = lngTimeOutSetting ∧
    r.cookies = [] ∧ r.guid = r.oldGuid := by
  subst hr
  cases blnSnifQueryStringFirst <;> cases cookie <;> cases query <;>
    exact ⟨rfl, rfl, rfl, rfl, rfl⟩

/-- INTERNAL: what `OnStartPage` adds to `dbInit`. -/
theorem onStartPage_frame {r r' : Request loc} {cookie query : Option Guid} {hr : HResult}
    (hrun : r.onStartPage p cookie query = .ok (hr, r')) :
    ∃ hr₀ r₀, (r.identify cookie query).dbInit p = .ok (hr₀, r₀) ∧ (hr = .sOk → hr₀ = .sOk) ∧
      (hr₀ = .sOk → ∃ d, r' = { r₀ with m_piVarDict := d }) := by
  unfold Request.onStartPage Request.initializeSession at hrun
  obtain ⟨⟨hr₁, r₁⟩, hboth, hrun⟩ := Run.bind_eq_ok hrun
  obtain ⟨⟨hr₀, r₀⟩, hinit, hsame⟩ := Run.bind_eq_ok hboth
  cases hsame
  refine ⟨_, r₀, hinit, ?_, ?_⟩
  · intro hok
    dsimp only at hrun
    split at hrun
    · rename_i hstarted
      exact hstarted
    · split at hrun
      · cases hrun
        cases hok
      · cases hrun
        exact hok
  · rintro rfl
    dsimp only at hrun
    rw [if_pos rfl] at hrun
    obtain ⟨d, -, hrun⟩ := Run.bind_eq_ok hrun
    cases hrun
    refine ⟨d, ?_⟩
    simp [HResult.failed]

/-! ## Calls -/

/-- INTERNAL: `PersistSession` does not bring back an abandoned session. -/
theorem blnCancel_persistSession {r r' : Request loc} {hr : HResult}
    (h : r.persistSession p = .ok (hr, r')) : r'.blnCancel = r.blnCancel := by
  unfold Request.persistSession at h
  split at h
  · cases h
    rfl
  · split at h
    · cases h
      rfl
    · split at h
      · dsimp only at h
        split at h
        · obtain ⟨⟨hr₁, lSize, stream, d⟩, -, h⟩ := Run.bind_eq_ok h
          cases h
          rfl
        · cases h
          rfl
      · dsimp only at h
        split at h
        · cases h
          rfl
        · cases h
          rfl

/-- INTERNAL: `put_LiquidCookie` moves the ids about and nothing else. -/
theorem putLiquidCookie_frame (newVal : Bool) (r : Request loc) :
    ∃ blnLiquid m_OldSessionId guid oldGuid drawn strGUID cookies,
      (r.putLiquidCookie p newVal).2 =
        { r with
          blnLiquid := blnLiquid
          m_OldSessionId := m_OldSessionId
          guid := guid
          oldGuid := oldGuid
          drawn := drawn
          strGUID := strGUID
          cookies := cookies } ∧
      (oldGuid = r.oldGuid ∨ (r.blnLiquid = false ∧ oldGuid = r.guid)) ∧
      (blnLiquid = false → guid = r.oldGuid ∨ (r.blnLiquid = false ∧ guid = r.guid)) := by
  have hsame : ∃ blnLiquid m_OldSessionId guid oldGuid drawn strGUID cookies,
      r = { r with
        blnLiquid := blnLiquid
        m_OldSessionId := m_OldSessionId
        guid := guid
        oldGuid := oldGuid
        drawn := drawn
        strGUID := strGUID
        cookies := cookies } ∧
      (oldGuid = r.oldGuid ∨ (r.blnLiquid = false ∧ oldGuid = r.guid)) ∧
      (blnLiquid = false → guid = r.oldGuid ∨ (r.blnLiquid = false ∧ guid = r.guid)) :=
    ⟨r.blnLiquid, r.m_OldSessionId, r.guid, r.oldGuid, r.drawn, r.strGUID, r.cookies, rfl, .inl rfl,
      fun h => .inr ⟨h, rfl⟩⟩
  unfold Request.putLiquidCookie
  split
  · exact hsame
  · split
    · split
      · exact hsame
      · rename_i hliquid
        rw [Bool.not_eq_true] at hliquid
        obtain ⟨_, _, _, _, hid⟩ :=
          newID_frame p { r with blnLiquid := true, oldGuid := r.guid }
        rw [hid]
        exact ⟨_, _, _, _, _, _, _, rfl, .inr ⟨hliquid, rfl⟩, fun h => by cases h⟩
    · split
      · dsimp only
        split
        · exact ⟨_, r.m_OldSessionId, _, _, r.drawn, r.strGUID, r.cookies, rfl, .inl rfl,
            fun _ => .inl rfl⟩
        · exact ⟨_, _, _, _, r.drawn, _, _, rfl, .inl rfl, fun _ => .inl rfl⟩
      · exact hsame

/-- INTERNAL: an abandoned session stays abandoned. -/
theorem blnCancel_perform {r r' : Request loc} {call : Request.Call} (hcancel : r.blnCancel = true)
    (h : r.perform p call = .ok r') : r'.blnCancel = true := by
  have hdict : ∀ m r₁, r.onDictionary m = .ok r₁ → r₁.blnCancel = true := by
    intro m r₁ h
    obtain ⟨d, -, rfl⟩ := onDictionary_eq h
    exact hcancel
  cases call with
  | putValue vkey newVal defaults =>
    rw [Request.perform] at h
    split at h
    · cases h
      exact hcancel
    · exact hdict _ _ h
  | putrefValue vkey newVal =>
    rw [Request.perform] at h
    split at h
    · cases h
      exact hcancel
    · exact hdict _ _ h
  | contentsRemove vkey => exact hdict _ _ h
  | contentsRemoveAll => exact hdict _ _ h
  | putLiquidCookie newVal =>
    cases h
    obtain ⟨_, _, _, _, _, _, _, hframe, -, -⟩ := putLiquidCookie_frame p newVal r
    rw [hframe]
    exact hcancel
  | execute toPage =>
    cases toPage with
    | none =>
      cases h
      exact hcancel
    | some page =>
      obtain ⟨⟨hr, r₁⟩, hexec, h⟩ := Run.bind_eq_ok h
      cases h
      obtain ⟨⟨hr₂, r₂⟩, hsave, hexec⟩ := Run.bind_eq_ok hexec
      obtain ⟨⟨hr₃, r₃⟩, hinit, hexec⟩ := Run.bind_eq_ok hexec
      cases hexec
      exact (dbInit_frame p hinit).2.1.trans ((blnCancel_persistSession p hsave).trans hcancel)
  | transfer page =>
    obtain ⟨⟨hr, r₁⟩, htransfer, h⟩ := Run.bind_eq_ok h
    cases h
    obtain ⟨⟨hr₂, r₂⟩, hsave, htransfer⟩ := Run.bind_eq_ok htransfer
    have hcancel₂ := (blnCancel_persistSession p hsave).trans hcancel
    dsimp only at htransfer
    split at htransfer
    · cases htransfer
      exact hcancel₂
    · split at htransfer
      · cases htransfer
        exact hcancel₂
      · obtain ⟨⟨hr₃, r₃⟩, hinit, htransfer⟩ := Run.bind_eq_ok htransfer
        cases htransfer
        exact (dbInit_frame p hinit).2.1.trans hcancel₂
  | abandon =>
    cases h
    rfl
  | putTimeOut pVal =>
    cases h
    unfold Request.putTimeOut
    split
    · exact hcancel
    · exact hcancel
  | putReEntrance newVal =>
    cases h
    exact hcancel
  | putReadonly newVal =>
    cases h
    unfold Request.putReadonly
    split
    · exact hcancel
    · exact hcancel
  | putLCID newVal isValid =>
    rcases perform_putLCID p h with ⟨rfl, -⟩ | ⟨-, -, r₁, hput, rfl⟩
    · exact hcancel
    · exact hdict _ r₁ hput

end IspSession.Analysis
