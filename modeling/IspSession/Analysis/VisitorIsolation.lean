import IspSession.Analysis.SessionRuns
import IspSession.Analysis.AbandonedSessions
import IspSession.Model.VisitorSystem

/-!
# Visitors do not see each other

However the requests of different visitors are interleaved, each visitor finds what its own
requests have made of its session: nothing of what the others do gets there, and nothing is lost
on the way, also when the session is liquid and moves from id to id. A session ends when its
visitor abandons it, loses the cookie or stays away until the record's time is up; then the
visitor begins again with nothing.
-/

set_option autoImplicit false

namespace IspSession.Analysis

open IspSession.Library IspSession.Model

variable {loc : Collation} (p : Platform)

/-! ## Ids are drawn one after the other -/

/-- INTERNAL: `NewID` draws forwards. -/
theorem drawn_newID (r : Request loc) : r.drawn ≤ (r.newID p).drawn := by
  unfold Request.newID
  dsimp only
  split
  · exact Nat.le_succ _
  · exact Nat.le_refl _

/-- INTERNAL: so does reading a record. -/
theorem drawn_loadRecord {rowset : SessionStore.Rowset} {hr hr' : HResult} {r r' : Request loc}
    (h : r.loadRecord p rowset hr = .ok (hr', r')) : r.drawn ≤ r'.drawn := by
  have hrenew : ∀ (hr₁ : HResult) (r₁ : Request loc), r₁.drawn = r.drawn →
      (if r₁.blnLiquid = true then (pure (.sOk, r₁.newID p) : Run (HResult × Request loc))
        else pure (hr₁, r₁)) = .ok (hr', r') → r.drawn ≤ r'.drawn := by
    intro hr₁ r₁ hsame h
    rw [← hsame]
    split at h
    · cases h
      exact drawn_newID p r₁
    · cases h
      exact Nat.le_refl _
  unfold Request.loadRecord at h
  dsimp only at h
  split at h
  · rw [Run.pure_eq, Run.ok_bind] at h
    exact hrenew hr { r with
      lngTimeout := rowset.m_Expires
      blnReEntrance := rowset.m_ReEntrance
      blnLiquid := rowset.m_Liquid } rfl h
  · obtain ⟨⟨hr₂, d, s⟩, -, h⟩ := Run.bind_eq_ok h
    exact hrenew hr₂ { r with
      lngTimeout := rowset.m_Expires
      blnReEntrance := rowset.m_ReEntrance
      blnLiquid := rowset.m_Liquid
      m_piVarDict := d } rfl h

/-- INTERNAL: so does `dbInit`. -/
theorem drawn_dbInit {r r' : Request loc} {hr : HResult} (h : r.dbInit p = .ok (hr, r')) :
    r.drawn ≤ r'.drawn := by
  unfold Request.dbInit at h
  split at h
  · cases h
    exact Nat.le_refl _
  · have hopen : r.drawn ≤ (r.openOrInsert p).2.2.2.drawn := by
      have hnew :=
        drawn_newID p { r with blnExpired := r.blnExpired || !r.blnNew, blnNew := true }
      unfold Request.openOrInsert
      obtain ⟨hr₁, rowset⟩ := r.store.openRowset r.guid
      dsimp only
      split
      · split
        · exact hnew
        · exact hnew
      · exact Nat.le_refl _
    rcases hopened : r.openOrInsert p with ⟨hr₁, rowset, bDidInsert, r₁⟩
    rw [hopened] at h hopen
    dsimp only at h hopen
    split at h
    · cases h
      exact hopen
    · have hcheck : r₁.drawn ≤ (r₁.checkReEntrance p rowset).drawn := by
        unfold Request.checkReEntrance
        split
        · exact drawn_newID p { r₁ with blnExpired := true, blnNew := true }
        · exact Nat.le_refl _
      have hend : ∀ {hr₂ : HResult} {r₂ : Request loc}, r₂.endInit p hr₂ bDidInsert = .ok (hr, r') →
          r₂.drawn = r'.drawn := by
        intro hr₂ r₂ hend
        obtain ⟨-, d, cookies, locale, -, rfl⟩ := endInit_frame p hend
        rfl
      split at h
      · rw [Run.pure_eq, Run.ok_bind] at h
        exact (hopen.trans hcheck).trans (le_of_eq (hend h))
      · obtain ⟨⟨hr₂, r₂⟩, hread, h⟩ := Run.bind_eq_ok h
        refine ((hopen.trans hcheck).trans ?_).trans (le_of_eq (hend h))
        exact drawn_loadRecord p hread

/-- INTERNAL: so does `OnStartPage`. -/
theorem drawn_onStartPage {store : SessionStore} {drawn : ℕ}
    {lngTimeOutSetting dtExpires : BitVec 32} {blnSnifQueryStringFirst : Bool}
    {cookie query : Option Guid} {r' : Request loc} {hr : HResult}
    (h : (Request.start store drawn lngTimeOutSetting dtExpires blnSnifQueryStringFirst).onStartPage
      p cookie query = .ok (hr, r')) : drawn ≤ r'.drawn := by
  obtain ⟨-, hidentify, -⟩ := identify_leaves store drawn lngTimeOutSetting dtExpires
    blnSnifQueryStringFirst cookie query _ (rfl : _ = (_ : Request loc))
  unfold Request.onStartPage Request.initializeSession at h
  obtain ⟨⟨hr₁, r₁⟩, hboth, h⟩ := Run.bind_eq_ok h
  obtain ⟨⟨hr₀, r₀⟩, hinit, hsame⟩ := Run.bind_eq_ok hboth
  cases hsame
  have hdrawn := drawn_dbInit p hinit
  rw [hidentify] at hdrawn
  dsimp only at h
  split at h
  · obtain ⟨d, -, h⟩ := Run.bind_eq_ok h
    cases h
    exact hdrawn
  · split at h
    · cases h
      exact hdrawn
    · cases h
      exact hdrawn

/-- INTERNAL: `PersistSession` draws none. -/
theorem drawn_persistSession {r r' : Request loc} {hr : HResult}
    (h : r.persistSession p = .ok (hr, r')) : r'.drawn = r.drawn := by
  unfold Request.persistSession at h
  split at h
  · cases h
    rfl
  · split at h
    · cases h
      rfl
    · split at h
      · dsimp only at h
        split at h
        · obtain ⟨⟨hr₁, lSize, stream, d⟩, -, h⟩ := Run.bind_eq_ok h
          cases h
          rfl
        · cases h
          rfl
      · dsimp only at h
        split at h
        · cases h
          rfl
        · cases h
          rfl

/-- INTERNAL: `Transfer` draws forwards. -/
theorem drawn_transfer {page : Page} {r r' : Request loc} {hr : HResult}
    (h : r.transfer p page = .ok (hr, r')) : r.drawn ≤ r'.drawn := by
  unfold Request.transfer at h
  obtain ⟨⟨hr₁, r₁⟩, hsave, h⟩ := Run.bind_eq_ok h
  have hsaved := drawn_persistSession p hsave
  change r₁.drawn = r.drawn at hsaved
  rw [← hsaved]
  dsimp only at h
  split at h
  · cases h
    exact Nat.le_refl _
  · split at h
    · cases h
      exact Nat.le_refl _
    · obtain ⟨⟨hr₂, r₂⟩, hinit, h⟩ := Run.bind_eq_ok h
      cases h
      have hdrawn := drawn_dbInit p hinit
      exact hdrawn

/-- INTERNAL: so does every call. -/
theorem drawn_perform {call : Request.Call} {r r' : Request loc}
    (h : r.perform p call = .ok r') : r.drawn ≤ r'.drawn := by
  have hdict : ∀ m r₁, r.onDictionary m = .ok r₁ → r.drawn ≤ r₁.drawn := by
    intro m r₁ hm
    obtain ⟨d, -, rfl⟩ := onDictionary_eq hm
    exact Nat.le_refl _
  cases call with
  | putValue vkey newVal defaults =>
    rw [Request.perform] at h
    split at h
    · cases h
      exact Nat.le_refl _
    · exact hdict _ _ h
  | putrefValue vkey newVal =>
    rw [Request.perform] at h
    split at h
    · cases h
      exact Nat.le_refl _
    · exact hdict _ _ h
  | contentsRemove vkey => exact hdict _ _ h
  | contentsRemoveAll => exact hdict _ _ h
  | putLiquidCookie newVal =>
    cases h
    unfold Request.putLiquidCookie
    split
    · exact Nat.le_refl _
    · split
      · split
        · exact Nat.le_refl _
        · exact drawn_newID p { r with blnLiquid := true, oldGuid := r.guid }
      · split
        · dsimp only
          split
          · exact Nat.le_refl _
          · exact Nat.le_refl _
        · exact Nat.le_refl _
  | execute toPage =>
    cases toPage with
    | none =>
      cases h
      exact Nat.le_refl _
    | some page =>
      obtain ⟨⟨hr, r₁⟩, hexec, h⟩ := Run.bind_eq_ok h
      cases h
      unfold Request.execute at hexec
      obtain ⟨⟨hr₂, r₂⟩, hsave, hexec⟩ := Run.bind_eq_ok hexec
      have hsaved := drawn_persistSession p hsave
      change r₂.drawn = r.drawn at hsaved
      rw [← hsaved]
      obtain ⟨⟨hr₃, r₃⟩, hinit, hexec⟩ := Run.bind_eq_ok hexec
      cases hexec
      have hdrawn := drawn_dbInit p hinit
      exact hdrawn
  | transfer page =>
    obtain ⟨⟨hr, r₁⟩, htransfer, h⟩ := Run.bind_eq_ok h
    cases h
    exact drawn_transfer p htransfer
  | abandon =>
    cases h
    exact Nat.le_refl _
  | putTimeOut pVal =>
    cases h
    unfold Request.putTimeOut
    split
    · exact Nat.le_refl _
    · exact Nat.le_refl _
  | putReEntrance newVal =>
    cases h
    exact Nat.le_refl _
  | putReadonly newVal =>
    cases h
    unfold Request.putReadonly
    split
    · exact Nat.le_refl _
    · exact Nat.le_refl _
  | putLCID newVal isValid =>
    rcases perform_putLCID p h with ⟨rfl, -⟩ | ⟨-, -, r₁, hput, rfl⟩
    · exact Nat.le_refl _
    · exact hdict _ r₁ hput

/-! ## A visitor and its session -/

/-- The ids that a visitor's browser or request knows. -/
def OwnsId (q : Visitor loc) (id : Guid) : Prop :=
  q.cookie = some id ∨ ∃ r, q.request = some r ∧ (id = r.guid ∨ id = r.oldGuid)

/-- A request at work, whose session holds the contents. -/
structure Serving (store : SessionStore) (cookie : Option Guid) (r : Request loc)
    (c : Contents loc) : Prop where
  ready : Ready p cookie { r with store := store } c
  pending : r.blnPersistDoneByOnEndPage = false
  sent : browserCookie cookie r.cookies = r.strGUID
  expires : ¬ r.dtExpires.toInt < 0

/-- A request that has abandoned its session. -/
structure Abandoning (cookie : Option Guid) (r : Request loc) : Prop where
  cancel : r.blnCancel = true
  pending : r.blnPersistDoneByOnEndPage = false
  noError : r.bErrState = false
  sent : browserCookie cookie r.cookies = none
  empty : contents r.m_piVarDict = .empty

/-- The record, if there is one, holds the contents. -/
def Stored (record : Option SessionRecord) (c : Contents loc) : Prop :=
  match record with
  | none => c = .empty
  | some record => Holds record c ∧ 0 < SessionStore.seconds record.metaData.m_Expires

/-- The session of a visitor holds the contents. -/
def InSession (store : SessionStore) (q : Visitor loc) (c : Contents loc) : Prop :=
  match q.request with
  | none => match q.cookie with
    | none => c = .empty
    | some id => Stored (store id) c
  | some r => Serving p store q.cookie r c ∨ (Abandoning q.cookie r ∧ c = .empty)

/-- The session of a visitor holds the contents, and can be read again. -/
def HasSession (store : SessionStore) (q : Visitor loc) (c : Contents loc) : Prop :=
  InSession p store q c ∧ Reloadable p c

/-- INTERNAL: a request that stands well depends on its own records. -/
theorem Ready.withStore {presented : Option Guid} {r : Request loc} {c : Contents loc}
    (h : Ready p presented r c) {store : SessionStore} (hold : store r.oldGuid = r.store r.oldGuid)
    (hgone : ∀ id, presented = some id → store id = r.store id) :
    Ready p presented { r with store := store } c := by
  obtain ⟨record, hrecord, hexpires, hholds⟩ := h.record
  exact ⟨h.noError, h.kept, h.writable, h.mutable, h.exact, h.contents, h.time, h.sent, h.here,
    h.old, h.done, ⟨record, hold.trans hrecord, hexpires, hholds⟩,
    fun id hid hne => (hgone id hid).trans (h.gone id hid hne), h.ordered⟩

/-- **What a visitor finds depends on the records under its own ids.** -/
theorem local_hasSession : Shared.Local OwnsId (@HasSession loc p) := by
  rintro store store' q c hsame ⟨h, hload⟩
  refine ⟨?_, hload⟩
  unfold InSession at h ⊢
  cases hrequest : q.request with
  | none =>
    rw [hrequest] at h
    cases hcookie : q.cookie with
    | none =>
      rw [hcookie] at h
      exact h
    | some id =>
      rw [hcookie] at h
      dsimp only at h ⊢
      rwa [hsame id (.inl hcookie)]
  | some r =>
    rw [hrequest] at h
    refine h.imp_left fun hwork => ⟨?_, hwork.pending, hwork.sent, hwork.expires⟩
    exact hwork.ready.withStore p (hsame _ (.inr ⟨r, hrequest, .inr rfl⟩))
      fun id hid => hsame id (.inl hid)

/-! ## The cookies that are sent -/

/-- INTERNAL: reading a record sends no cookie. -/
theorem cookies_loadRecord {rowset : SessionStore.Rowset} {hr hr' : HResult} {r r' : Request loc}
    (h : r.loadRecord p rowset hr = .ok (hr', r')) : r'.cookies = r.cookies := by
  have hrenew : ∀ (hr₁ : HResult) (r₁ : Request loc), r₁.cookies = r.cookies →
      (if r₁.blnLiquid = true then (pure (.sOk, r₁.newID p) : Run (HResult × Request loc))
        else pure (hr₁, r₁)) = .ok (hr', r') → r'.cookies = r.cookies := by
    intro hr₁ r₁ hsame h
    split at h
    · cases h
      obtain ⟨_, _, _, _, hnew⟩ := newID_frame p r₁
      rw [hnew]
      exact hsame
    · cases h
      exact hsame
  unfold Request.loadRecord at h
  dsimp only at h
  split at h
  · rw [Run.pure_eq, Run.ok_bind] at h
    exact hrenew hr { r with
      lngTimeout := rowset.m_Expires
      blnReEntrance := rowset.m_ReEntrance
      blnLiquid := rowset.m_Liquid } rfl h
  · obtain ⟨⟨hr₂, d, s⟩, -, h⟩ := Run.bind_eq_ok h
    exact hrenew hr₂ { r with
      lngTimeout := rowset.m_Expires
      blnReEntrance := rowset.m_ReEntrance
      blnLiquid := rowset.m_Liquid
      m_piVarDict := d } rfl h

/-- INTERNAL: `dbInit` with a record sends a cookie with the id of the session, or none when the
session is not liquid. -/
theorem cookies_dbInit {r r' : Request loc} {record : SessionRecord} {hr : HResult}
    (herr : r.bErrState = false) (hrecord : r.store r.guid = some record)
    (hurl : r.blnFoundURLGuid = false) (h : r.dbInit p = .ok (hr, r')) :
    r'.cookies = ⟨r'.strGUID, r'.dtExpires⟩ :: r.cookies ∨
      (r'.cookies = r.cookies ∧ r'.blnLiquid = false) := by
  have hopen := openOrInsert_found p hrecord
  have hcheck : r.checkReEntrance p (rowsetOf record) = r :=
    checkReEntrance_admits p fun hfound => by rw [hurl] at hfound; cases hfound
  rw [Request.dbInit, if_neg (by simp [herr])] at h
  simp only [hopen, HResult.failed, Bool.false_eq_true, if_false, hcheck] at h
  obtain ⟨⟨hr₂, r₂⟩, hread, hend⟩ := Run.bind_eq_ok h
  rw [← cookies_loadRecord p hread]
  unfold Request.endInit at hend
  split at hend
  · obtain ⟨⟨hr₃, v, d⟩, -, hend⟩ := Run.bind_eq_ok hend
    cases hend
    exact .inl rfl
  · rename_i hsilent
    obtain ⟨⟨hr₃, v, d⟩, -, hend⟩ := Run.bind_eq_ok hend
    cases hend
    exact .inr ⟨rfl, by simpa using fun hliquid => hsilent (.inl hliquid)⟩

/-! ## `OnStartPage` -/

/-- Where an id of a request comes from. -/
def FromVisit (cookie : Option Guid) (drawn : ℕ) (r : Request loc) (id : Guid) : Prop :=
  cookie = some id ∨ ∃ k, drawn ≤ k ∧ k < r.drawn ∧ p.random k = id

/-- What `dbInit` does for a visitor: the ids are the presented one or drawn now, and so are those
of the records touched. -/
structure Arrived (cookie : Option Guid) (store : SessionStore) (drawn : ℕ) (dtExpires : BitVec 32)
    (r : Request loc) : Prop where
  pending : r.blnPersistDoneByOnEndPage = false
  sent : browserCookie cookie r.cookies = r.strGUID
  expires : r.dtExpires = dtExpires
  guid : FromVisit p cookie drawn r r.guid
  oldGuid : FromVisit p cookie drawn r r.oldGuid
  touched : ∀ id, r.store id ≠ store id → FromVisit p cookie drawn r id

/-- INTERNAL: a session that is new. -/
theorem arrived_inserted {cookie : Option Guid} {r : Request loc} (h : Fresh r)
    (hexpires : ¬ r.dtExpires.toInt < 0) :
    Arrived p cookie r.store r.drawn r.dtExpires (inserted p r) := by
  have hnew : FromVisit p cookie r.drawn (inserted p r) (p.random r.drawn) :=
    .inr ⟨r.drawn, Nat.le_refl _, Nat.lt_succ_self _, rfl⟩
  refine ⟨h.pending, if_neg hexpires, rfl, hnew, hnew, fun id hid => ?_⟩
  by_cases hsame : id = p.random r.drawn
  · exact hsame ▸ hnew
  · exact absurd (Function.update_of_ne hsame _ _) hid

/-- INTERNAL: a session that is there. -/
theorem arrived_found {r r' : Request loc} {record : SessionRecord} {c : Contents loc}
    {hr : HResult} (h : Fresh r) (hcookies : r.cookies = []) (hurl : r.blnFoundURLGuid = false)
    (hexpires : ¬ r.dtExpires.toInt < 0) {id : Guid} (hid : r.strGUID = some id)
    (hrecord : r.store r.guid = some record) (hholds : Holds record c)
    (hload : Loadable p.oleLoad c Request.lcidName) (hinit : r.dbInit p = .ok (hr, r')) :
    Arrived p r.strGUID r.store r.drawn r.dtExpires r' := by
  obtain ⟨hnew, hguid, hold⟩ := h.presented id hid
  have hempty : r.m_piVarDict.dictionary = .empty := by
    rw [h.dictionary]
    rfl
  have hsent := cookies_dbInit p h.noError hrecord hurl hinit
  obtain ⟨d, cookies, -, hspec⟩ := dbInit_spec p h.noError hrecord hholds hempty hload
  have hcheck : r.checkReEntrance p (rowsetOf record) = r :=
    checkReEntrance_admits p fun hfound => by rw [hurl] at hfound; cases hfound
  rw [hcheck, hinit] at hspec
  obtain ⟨-, rfl⟩ := Prod.mk.inj (Except.ok.inj hspec)
  rw [hcookies] at hsent
  cases hliquid : record.metaData.m_Liquid with
  | false =>
    have hsame : renewed p (opened r record d) = opened r record d := renewed_solid p hliquid
    rw [hsame] at hsent ⊢
    have hown : FromVisit p r.strGUID r.drawn (opened r record d) id := .inl hid
    refine ⟨h.pending, ?_, rfl, hguid ▸ hown, hold ▸ hown, fun id hne => absurd rfl hne⟩
    rcases hsent with hsent | ⟨hsent, -⟩
    · rw [hsent]
      exact if_neg hexpires
    · rw [hsent]
      rfl
  | true =>
    have hnewId : renewed p (opened r record d) =
        { opened r record d with
          m_OldSessionId := r.strGUID
          guid := p.random r.drawn
          drawn := r.drawn + 1
          strGUID := some (p.random r.drawn) } := by
      simp [renewed, Request.newID, opened, hliquid, hnew]
    rw [hnewId] at hsent ⊢
    refine ⟨h.pending, ?_, rfl, .inr ⟨r.drawn, Nat.le_refl _, Nat.lt_succ_self _, rfl⟩, ?_,
      fun id hne => absurd rfl hne⟩
    · rcases hsent with hsent | ⟨-, hsolid⟩
      · rw [hsent]
        exact if_neg hexpires
      · exact absurd (hliquid.symm.trans hsolid) (by simp)
    · exact .inl (hid.trans (congrArg some hold.symm))

/-! ## Calls -/

/-- A call that runs no other page. -/
def RunsNoPage : Request.Call → Prop
  | .execute (some _) | .transfer _ => False
  | _ => True

/-- What such a call leaves alone: the records, and whether the session has been saved. Its ids
are those it had, or drawn now, and the browser is told the id of the session. -/
structure Stays (r r' : Request loc) : Prop where
  store : r'.store = r.store
  pending : r'.blnPersistDoneByOnEndPage = r.blnPersistDoneByOnEndPage
  drawn : r.drawn ≤ r'.drawn
  ids : ∀ id, id = r'.guid ∨ id = r'.oldGuid →
    id = r.guid ∨ id = r.oldGuid ∨ ∃ k, r.drawn ≤ k ∧ k < r'.drawn ∧ p.random k = id
  expires : r'.dtExpires = r.dtExpires
  sent : ∀ cookie, ¬ r.dtExpires.toInt < 0 → browserCookie cookie r.cookies = r.strGUID →
    browserCookie cookie r'.cookies = r'.strGUID

/-- INTERNAL: a request that is changed elsewhere. -/
theorem stays_of_eq {r r' : Request loc} (hstore : r'.store = r.store)
    (hpending : r'.blnPersistDoneByOnEndPage = r.blnPersistDoneByOnEndPage)
    (hdrawn : r'.drawn = r.drawn) (hguid : r'.guid = r.guid) (hold : r'.oldGuid = r.oldGuid)
    (hexpires : r'.dtExpires = r.dtExpires) (hcookies : r'.cookies = r.cookies)
    (hsent : r'.strGUID = r.strGUID) : Stays p r r' := by
  refine ⟨hstore, hpending, le_of_eq hdrawn.symm, ?_, hexpires, ?_⟩
  · rw [hguid, hold]
    exact fun id hid => hid.imp_right .inl
  · rw [hcookies, hsent]
    exact fun _ _ h => h

/-- INTERNAL: `put_LiquidCookie` with `VARIANT_TRUE`. -/
theorem stays_putLiquid (r : Request loc) : Stays p r (r.putLiquidCookie p true).2 := by
  unfold Request.putLiquidCookie
  split
  · exact stays_of_eq p rfl rfl rfl rfl rfl rfl rfl rfl
  · rw [if_pos rfl]
    split
    · exact stays_of_eq p rfl rfl rfl rfl rfl rfl rfl rfl
    · have hnew : Request.newID p { r with blnLiquid := true, oldGuid := r.guid } =
          { r with
            blnLiquid := true
            oldGuid := r.guid
            m_OldSessionId := if ¬ r.blnNew then r.strGUID else r.m_OldSessionId
            guid := p.random r.drawn
            drawn := r.drawn + 1
            strGUID := some (p.random r.drawn) } := by
        simp [Request.newID]
      rw [hnew]
      refine ⟨rfl, rfl, Nat.le_succ _, ?_, rfl, fun _ hexpires _ => if_neg hexpires⟩
      rintro id (rfl | rfl)
      · exact .inr (.inr ⟨r.drawn, Nat.le_refl _, Nat.lt_succ_self _, rfl⟩)
      · exact .inl rfl

/-- INTERNAL: `put_LiquidCookie` with `VARIANT_FALSE`. -/
theorem stays_putSolid (r : Request loc) : Stays p r (r.putLiquidCookie p false).2 := by
  unfold Request.putLiquidCookie
  split
  · exact stays_of_eq p rfl rfl rfl rfl rfl rfl rfl rfl
  · rw [if_neg Bool.false_ne_true]
    split
    · have hids : ∀ id, id = r.oldGuid ∨ id = r.oldGuid →
          id = r.guid ∨ id = r.oldGuid ∨ ∃ k, r.drawn ≤ k ∧ k < r.drawn ∧ p.random k = id :=
        fun id hid => .inr (.inl (or_self_iff.mp hid))
      dsimp only
      split
      · exact ⟨rfl, rfl, Nat.le_refl _, hids, rfl, fun _ _ h => h⟩
      · exact ⟨rfl, rfl, Nat.le_refl _, hids, rfl, fun _ hexpires _ => if_neg hexpires⟩
    · exact stays_of_eq p rfl rfl rfl rfl rfl rfl rfl rfl

/-- **Calls that run no page and do not abandon the session** touch no record. -/
theorem stays_perform {r r' : Request loc} {call : Request.Call} (hpage : RunsNoPage call)
    (habandon : call ≠ .abandon) (h : r.perform p call = .ok r') : Stays p r r' := by
  have hdict : ∀ m, r.onDictionary m = .ok r' → Stays p r r' := by
    intro m hm
    obtain ⟨d, -, rfl⟩ := onDictionary_eq hm
    exact stays_of_eq p rfl rfl rfl rfl rfl rfl rfl rfl
  have hsame : Stays p r r := stays_of_eq p rfl rfl rfl rfl rfl rfl rfl rfl
  cases call with
  | putValue vkey newVal defaults =>
    rw [Request.perform] at h
    split at h
    · cases h
      exact hsame
    · exact hdict _ h
  | putrefValue vkey newVal =>
    rw [Request.perform] at h
    split at h
    · cases h
      exact hsame
    · exact hdict _ h
  | contentsRemove vkey => exact hdict _ h
  | contentsRemoveAll => exact hdict _ h
  | putLiquidCookie newVal =>
    cases h
    cases newVal with
    | true => exact stays_putLiquid p r
    | false => exact stays_putSolid p r
  | execute toPage =>
    cases toPage with
    | none =>
      cases h
      exact hsame
    | some page => cases hpage
  | transfer page => cases hpage
  | abandon => exact absurd rfl habandon
  | putTimeOut pVal =>
    cases h
    unfold Request.putTimeOut
    split
    · exact hsame
    · exact stays_of_eq p rfl rfl rfl rfl rfl rfl rfl rfl
  | putReEntrance newVal =>
    cases h
    exact stays_of_eq p rfl rfl rfl rfl rfl rfl rfl rfl
  | putReadonly newVal =>
    cases h
    unfold Request.putReadonly
    split
    · exact hsame
    · exact stays_of_eq p rfl rfl rfl rfl rfl rfl rfl rfl
  | putLCID newVal isValid =>
    rcases perform_putLCID p h with ⟨rfl, -⟩ | ⟨-, -, r₁, hput, rfl⟩
    · exact hsame
    · obtain ⟨d, -, rfl⟩ := onDictionary_eq hput
      exact stays_of_eq p rfl rfl rfl rfl rfl rfl rfl rfl

section System

variable {V : Type} (site : Site)

/-- A site whose sessions have some time to live and whose cookies are kept. -/
structure ProperSite : Prop where
  time : 0 < SessionStore.seconds site.lngTimeOutSetting
  expires : ¬ site.dtExpires.toInt < 0

variable {p site} {σ σ' : VisitorSystem V loc} {v : V} {c : Contents loc} {a : V → Contents loc}

/-- INTERNAL: the request that begins, with its id. -/
theorem identify_arrival (site : Site) (σ : VisitorSystem V loc) (cookie : Option Guid) :
    ((VisitorSystem.arrival site σ).identify cookie none).strGUID = cookie ∧
    ((VisitorSystem.arrival site σ).identify cookie none).guid = cookie.getD 0 ∧
    ((VisitorSystem.arrival site σ).identify cookie none).blnFoundURLGuid = false ∧
    ((VisitorSystem.arrival site σ).identify cookie none).dtExpires = site.dtExpires := by
  obtain ⟨lngTimeOutSetting, dtExpires, blnSnifQueryStringFirst⟩ := site
  cases blnSnifQueryStringFirst <;> cases cookie <;> exact ⟨rfl, rfl, rfl, rfl⟩

/-- **A page begins** with what the session holds. -/
theorem startPage_spec (hsite : ProperSite site)
    (hzero : σ.store 0 = none) (hidle : (σ.agent v).request = none)
    (h : HasSession p σ.store (σ.agent v) c) :
    ∃ r, (VisitorSystem.arrival site σ).onStartPage p (σ.agent v).cookie none = .ok (.sOk, r) ∧
      Serving p r.store (σ.agent v).cookie r c ∧
      Arrived p (σ.agent v).cookie σ.store σ.drawn site.dtExpires r := by
  obtain ⟨hid, hguid, hurl, hdt⟩ := identify_arrival site σ (σ.agent v).cookie
  obtain ⟨hstore, hdrawn, htime, hcookies, -⟩ := identify_leaves σ.store σ.drawn
    site.lngTimeOutSetting site.dtExpires site.blnSnifQueryStringFirst (σ.agent v).cookie none _
    (rfl : _ = (_ : Request loc))
  change ((VisitorSystem.arrival site σ).identify (σ.agent v).cookie none).store = _ at hstore
  change ((VisitorSystem.arrival site σ).identify (σ.agent v).cookie none).drawn = _ at hdrawn
  change ((VisitorSystem.arrival site σ).identify (σ.agent v).cookie none).lngTimeOutSetting = _
    at htime
  change ((VisitorSystem.arrival site σ).identify (σ.agent v).cookie none).cookies = _ at hcookies
  have hfresh : Fresh ((VisitorSystem.arrival site σ).identify (σ.agent v).cookie none) :=
    fresh_identify _ _ _ _ _ _ _
  have hthread : ((VisitorSystem.arrival site σ).identify (σ.agent v).cookie none).threadLocale
      = none := threadLocale_identify ..
  obtain ⟨h, hloadable⟩ := h
  generalize hi : (VisitorSystem.arrival site σ).identify (σ.agent v).cookie none = i at *
  have hexpires : ¬ i.dtExpires.toInt < 0 := hdt ▸ hsite.expires
  unfold InSession at h
  rw [hidle] at h
  -- the record that `dbInit` finds is that of the cookie
  have hwell : StartsWell p i c := by
    refine ⟨htime ▸ hsite.time, ?_⟩
    rw [hstore, hguid]
    cases hcookie : (σ.agent v).cookie with
    | none =>
      rw [hcookie] at h
      rw [Option.getD_none, hzero]
      exact h
    | some id =>
      rw [hcookie] at h
      rw [Option.getD_some]
      dsimp only at h
      cases hrecord : σ.store id with
      | none =>
        rw [hrecord] at h
        exact h
      | some record =>
        rw [hrecord] at h
        refine ⟨⟨id, hid.trans hcookie⟩, h.1, h.2, fun hfound => ?_, hloadable⟩
        rw [hurl] at hfound
        cases hfound
  obtain ⟨r, hrun, hready⟩ :=
    onStartPage_ready p (hi.symm ▸ hfresh) (hi.symm ▸ hthread) (hi.symm ▸ hwell)
  rw [hi, hid] at hready
  obtain ⟨hr₀, r₀, hinit, hok, hsame⟩ := onStartPage_frame p hrun
  obtain rfl := hok rfl
  obtain ⟨d, rfl⟩ := hsame rfl
  rw [hi] at hinit
  have harrived : Arrived p (σ.agent v).cookie i.store i.drawn i.dtExpires r₀ := by
    rw [← hid]
    cases hrecord : i.store i.guid with
    | none =>
      rw [dbInit_inserts p hfresh.noError hrecord (htime ▸ hsite.time)
        (by rw [hfresh.dictionary]; rfl)] at hinit
      cases hinit
      exact arrived_inserted p hfresh hexpires
    | some record =>
      have hsession := hwell.session
      rw [hrecord] at hsession
      obtain ⟨⟨id, hpresented⟩, hholds, -⟩ := hsession
      exact arrived_found p hfresh hcookies hurl hexpires hpresented hrecord hholds
        (hloadable.objects _) hinit
  rw [hstore, hdrawn, hdt] at harrived
  refine ⟨_, hrun, ⟨hready, harrived.pending, harrived.sent, ?_⟩, harrived.pending, harrived.sent,
    harrived.expires, harrived.guid, harrived.oldGuid, harrived.touched⟩
  show ¬ r₀.dtExpires.toInt < 0
  rw [harrived.expires]
  exact hsite.expires

/-! ## What the events do -/

/-- What a call does to the contents of the session. -/
def sessionEffect (call : Request.Call) (c : Contents loc) : Contents loc :=
  match call with
  | .abandon => .empty
  | call => effectOf (fun _ c => c) call c

/-- A call that a page may make: it runs no other page, the codec keeps what it sets, and
what the session holds then can be read again. -/
def SafeHere (p : Platform) (r : Request loc) (call : Request.Call) : Prop :=
  call = .abandon ∨ (RunsNoPage call ∧ Safe p (fun _ c => c) r call ∧
    Reloadable p (effectOf (fun _ c => c) call (contents r.m_piVarDict)))

/-- **A call** changes the contents of the session as it should. -/
theorem call_spec {r r' : Request loc} {call : Request.Call} (hkept : r.blnCancel = false)
    (h : InSession p r.store ⟨(σ.agent v).cookie, some r⟩ c) (hsafe : SafeHere p r call)
    (hrun : r.perform p call = .ok r') :
    HasSession p r'.store ⟨(σ.agent v).cookie, some r'⟩ (sessionEffect call c) ∧
    r'.store = r.store ∧ ∀ id, id = r'.guid ∨ id = r'.oldGuid →
      id = r.guid ∨ id = r.oldGuid ∨ ∃ k, r.drawn ≤ k ∧ k < r'.drawn ∧ p.random k = id := by
  have hwork : Serving p r.store (σ.agent v).cookie r c := by
    refine h.resolve_right ?_
    rintro ⟨habandoning, -⟩
    exact absurd (habandoning.cancel.symm.trans hkept) (by simp)
  by_cases habandon : call = .abandon
  · subst habandon
    cases hrun
    refine ⟨⟨.inr ⟨⟨rfl, hwork.pending, hwork.ready.noError, ?_, rfl⟩, rfl⟩, ?_⟩, rfl, ?_⟩
    · have hlost : (-1 : BitVec 32).toInt < 0 := by decide
      exact @if_pos _ _ hlost _ none r.strGUID
    · exact reloadable_empty p
    · exact fun id hid => hid.imp_right .inl
  · obtain ⟨hpage, hcall, hload⟩ := hsafe.resolve_left habandon
    have hready := perform_ready p (fun _ c => c) hwork.ready hcall hrun
    have hstays := stays_perform p hpage habandon hrun
    have heffect : sessionEffect call c = effectOf (fun _ c => c) call c := by
      cases call with
      | abandon => exact absurd rfl habandon
      | _ => rfl
    rw [hwork.ready.contents] at hload
    rw [heffect]
    refine ⟨⟨.inl ⟨hready, hstays.pending.trans hwork.pending,
      hstays.sent _ hwork.expires hwork.sent, ?_⟩, hload⟩, hstays.store, hstays.ids⟩
    rw [hstays.expires]
    exact hwork.expires

/-- **The end of a page** saves the session, or deletes it when it was abandoned. -/
theorem endPage_spec {r r' : Request loc} {hr : HResult}
    (h : InSession p r.store ⟨(σ.agent v).cookie, some r⟩ c)
    (hrun : r.onEndPage p = .ok (hr, r')) :
    InSession p r'.store ⟨browserCookie (σ.agent v).cookie r'.cookies, none⟩ c ∧
    r'.drawn = r.drawn ∧
    (∀ id, browserCookie (σ.agent v).cookie r'.cookies = some id → id = r.guid) ∧
    ∀ id, id ≠ r.oldGuid → id ≠ r.guid → r'.store id = r.store id := by
  rcases h with hwork | ⟨habandoning, rfl⟩
  · obtain ⟨b, store, record, hsave, hsaved⟩ := persistSession_ready p hwork.ready
    rw [Request.onEndPage] at hrun
    obtain ⟨-, rfl⟩ := Prod.mk.inj (Except.ok.inj (hrun.symm.trans hsave))
    have hcookie : browserCookie (σ.agent v).cookie r.cookies = some r.guid :=
      hwork.sent.trans hwork.ready.sent
    refine ⟨?_, rfl, fun id hid => ?_, hsaved.others⟩
    · show InSession p store ⟨browserCookie (σ.agent v).cookie r.cookies, none⟩ c
      rw [hcookie]
      show Stored (store r.guid) c
      rw [hsaved.here]
      exact ⟨hsaved.holds, hsaved.expires⟩
    · exact (Option.some.inj (hcookie.symm.trans hid)).symm
  · obtain ⟨bErrState, store', rfl, -, hothers⟩ := persistSession_deletes p habandoning.cancel
      (fun _ => habandoning.noError)
      (fun hdone => absurd (habandoning.pending.symm.trans hdone) (by simp)) hrun
    refine ⟨?_, rfl, fun id hid => ?_, fun id hid _ => hothers id hid⟩
    · show InSession p store' ⟨browserCookie (σ.agent v).cookie r.cookies, none⟩ _
      rw [habandoning.sent]
      rfl
    · exact absurd (habandoning.sent.symm.trans hid) (by simp)

/-- INTERNAL: a request that goes on with the records as they are now. -/
theorem inSession_resume {r : Request loc} (hrequest : (σ.agent v).request = some r)
    (h : InSession p σ.store (σ.agent v) c) :
    InSession p (σ.resume r).store ⟨(σ.agent v).cookie, some (σ.resume r)⟩ c := by
  unfold InSession at h
  rw [hrequest] at h
  refine h.imp (fun hwork => ⟨?_, hwork.pending, hwork.sent, hwork.expires⟩)
    (And.imp_left fun hgone =>
      ⟨hgone.cancel, hgone.pending, hgone.noError, hgone.sent, hgone.empty⟩)
  have hready := hwork.ready
  exact ⟨hready.noError, hready.kept, hready.writable, hready.mutable, hready.exact,
    hready.contents, hready.time, hready.sent, hready.here, hready.old, hready.done, hready.record,
    hready.gone, hready.ordered⟩

/-- INTERNAL: the ids of a request are its visitor's. -/
theorem ownsId_of_request {r : Request loc} (hrequest : (σ.agent v).request = some r) {id : Guid}
    (hid : id = r.guid ∨ id = r.oldGuid) : OwnsId (σ.agent v) id := .inr ⟨r, hrequest, hid⟩

/-- What an event does to the session of a visitor. -/
def onSession (ev : VisitorEvent V) (v : V) [DecidableEq V] (c : Contents loc) : Contents loc :=
  match ev with
  | .call w call => if w = v then sessionEffect call c else c
  | .dropCookie w | .timeUp w => if w = v then .empty else c
  | .startPage _ | .endPage _ => c

variable [DecidableEq V]

/-- An event that a site sees: a page calls before it has abandoned the session, and a cookie or
a record goes between the requests of its visitor. -/
def Orderly (p : Platform) (σ : VisitorSystem V loc) : VisitorEvent V → Prop
  | .call v call => ∃ r, (σ.agent v).request = some r ∧ r.blnCancel = false ∧
      SafeHere p (σ.resume r) call
  | .dropCookie v | .timeUp v => (σ.agent v).request = none
  | .startPage _ | .endPage _ => True

/-- Every visitor has the session it should have. -/
abbrev AllInSession (p : Platform) (σ : VisitorSystem V loc) (a : V → Contents loc) : Prop :=
  Shared.Kept p.random OwnsId (HasSession p) σ a

/-- INTERNAL: an event that concerns one visitor. -/
theorem update_on (ev : VisitorEvent V) :
    (fun w => onSession ev w (a w)) =
      Function.update a ev.visitor (onSession ev ev.visitor (a ev.visitor)) := by
  funext w
  by_cases hw : w = ev.visitor
  · subst hw
    rw [Function.update_self]
  · rw [Function.update_of_ne hw]
    cases ev with
    | startPage v => rfl
    | endPage v => rfl
    | call v call => exact if_neg (Ne.symm hw)
    | dropCookie v => exact if_neg (Ne.symm hw)
    | timeUp v => exact if_neg (Ne.symm hw)

/-! ## One event -/

/-- What an event leaves behind: its visitor has acted on its own records, and has the session it
should have. -/
structure Proceeds (p : Platform) (σ σ' : VisitorSystem V loc) (v : V) (c : Contents loc) : Prop where
  acts : Shared.Acts p.random OwnsId σ σ' v
  session : HasSession p σ'.store (σ'.agent v) c

/-- INTERNAL: a page begins. -/
theorem proceeds_startPage (hsite : ProperSite site) (hzero : σ.store 0 = none)
    (h : HasSession p σ.store (σ.agent v) c) (hidle : (σ.agent v).request = none)
    (hstep : σ.step p site (.startPage v) = .ok σ') : Proceeds p σ σ' v c := by
  obtain ⟨r, hrun, hserving, harrived⟩ := startPage_spec hsite hzero hidle h
  simp only [VisitorSystem.step, hidle, hrun, Run.ok_bind] at hstep
  cases hstep
  have hown : ∀ id, FromVisit p (σ.agent v).cookie σ.drawn r id → OwnsId (σ.agent v) id ∨
      Shared.DrawnSince p.random σ (σ.working v r) id := fun id hid => hid.imp_left .inl
  have hagent : (σ.working v r).agent v = ⟨(σ.agent v).cookie, some r⟩ := Function.update_self _ _ _
  refine ⟨⟨drawn_onStartPage p hrun, fun w hw => Function.update_of_ne hw _ _, ?_,
    fun id hid => hown id (harrived.touched id hid)⟩, ?_⟩
  · rw [hagent]
    rintro id (hid | ⟨r', hr', rfl | rfl⟩)
    · exact .inl (.inl hid)
    · cases hr'
      exact hown _ harrived.guid
    · cases hr'
      exact hown _ harrived.oldGuid
  · rw [hagent]
    exact ⟨.inl hserving, h.2⟩

/-- INTERNAL: a page makes a call. -/
theorem proceeds_call {call : Request.Call} (h : HasSession p σ.store (σ.agent v) c)
    (hok : Orderly p σ (.call v call)) (hstep : σ.step p site (.call v call) = .ok σ') :
    Proceeds p σ σ' v (sessionEffect call c) := by
  obtain ⟨r, hrequest, hkept, hsafe⟩ := hok
  rw [VisitorSystem.step, hrequest] at hstep
  obtain ⟨r', hrun, hstep⟩ := Run.bind_eq_ok hstep
  cases hstep
  obtain ⟨hsession, hstore, hfrom⟩ :=
    call_spec (r := σ.resume r) hkept (inSession_resume hrequest h.1) hsafe hrun
  have hagent : (σ.working v r').agent v = ⟨(σ.agent v).cookie, some r'⟩ :=
    Function.update_self _ _ _
  refine ⟨⟨drawn_perform p hrun, fun w hw => Function.update_of_ne hw _ _, ?_,
    fun id hid => absurd (congrFun hstore id) hid⟩, ?_⟩
  · rw [hagent]
    rintro id (hid | ⟨r₁, hr₁, hid⟩)
    · exact .inl (.inl hid)
    · cases hr₁
      rcases hfrom id hid with hsame | hsame | hdrawn
      · exact .inl (ownsId_of_request hrequest (.inl hsame))
      · exact .inl (ownsId_of_request hrequest (.inr hsame))
      · exact .inr hdrawn
  · rw [hagent]
    exact hsession

/-- INTERNAL: a page ends. -/
theorem proceeds_endPage (h : HasSession p σ.store (σ.agent v) c) {r : Request loc}
    (hrequest : (σ.agent v).request = some r) (hstep : σ.step p site (.endPage v) = .ok σ') :
    Proceeds p σ σ' v c := by
  rw [VisitorSystem.step, hrequest] at hstep
  obtain ⟨⟨hr, r'⟩, hrun, hstep⟩ := Run.bind_eq_ok hstep
  cases hstep
  obtain ⟨hsession, hdrawn, hcookie, hothers⟩ := endPage_spec (inSession_resume hrequest h.1) hrun
  have hagent : (σ.ended v r').agent v = ⟨browserCookie (σ.agent v).cookie r'.cookies, none⟩ :=
    Function.update_self _ _ _
  refine ⟨⟨le_of_eq hdrawn.symm, fun w hw => Function.update_of_ne hw _ _, ?_, fun id hid => ?_⟩, ?_⟩
  · rw [hagent]
    rintro id (hid | ⟨r₁, hr₁, -⟩)
    · exact .inl (ownsId_of_request hrequest (.inl (hcookie id hid)))
    · cases hr₁
  · by_contra hno
    refine hid (hothers id (fun hold => hno (.inl ?_)) fun hguid => hno (.inl ?_))
    · exact ownsId_of_request hrequest (.inr hold)
    · exact ownsId_of_request hrequest (.inl hguid)
  · rw [hagent]
    exact ⟨hsession, h.2⟩

/-- INTERNAL: a cookie goes. -/
theorem proceeds_dropCookie (hidle : (σ.agent v).request = none)
    (hstep : σ.step p site (.dropCookie v) = .ok σ') : Proceeds p σ σ' v .empty := by
  simp only [VisitorSystem.step, hidle] at hstep
  cases hstep
  refine ⟨⟨Nat.le_refl _, fun w hw => Function.update_of_ne hw _ _, fun id hid => ?_,
    fun id hid => absurd rfl hid⟩, ?_⟩
  · dsimp only at hid
    rw [Function.update_self] at hid
    rcases hid with hid | ⟨r, hr, -⟩
    · cases hid
    · cases hr
  · dsimp only
    rw [Function.update_self]
    exact ⟨rfl, reloadable_empty p⟩

/-- INTERNAL: a record goes. -/
theorem proceeds_timeUp (h : HasSession p σ.store (σ.agent v) c)
    (hidle : (σ.agent v).request = none) (hstep : σ.step p site (.timeUp v) = .ok σ') :
    Proceeds p σ σ' v .empty := by
  cases hcookie : (σ.agent v).cookie with
  | none =>
    simp only [VisitorSystem.step, hcookie] at hstep
    cases hstep
    have hempty := h.1
    unfold InSession at hempty
    rw [hidle, hcookie] at hempty
    exact ⟨.refl σ v, (show c = .empty from hempty) ▸ h⟩
  | some id =>
    simp only [VisitorSystem.step, hcookie] at hstep
    cases hstep
    refine ⟨⟨Nat.le_refl _, fun _ _ => rfl, fun id hid => .inl hid, fun id' hid => .inl ?_⟩, ?_⟩
    · by_cases hsame : id' = id
      · exact .inl (hsame ▸ hcookie)
      · exact absurd (Function.update_of_ne hsame _ _) hid
    · refine ⟨?_, reloadable_empty p⟩
      unfold InSession
      dsimp only
      rw [hidle, hcookie]
      dsimp only
      rw [Function.update_self]
      rfl

/-- **One event**: its visitor acts on its own records, and has the session it should have. -/
theorem proceeds_step (hsite : ProperSite site) (hzero : σ.store 0 = none) {ev : VisitorEvent V}
    (h : HasSession p σ.store (σ.agent ev.visitor) c) (hok : Orderly p σ ev)
    (hstep : σ.step p site ev = .ok σ') :
    Proceeds p σ σ' ev.visitor (onSession ev ev.visitor c) := by
  cases ev with
  | startPage v =>
    cases hrequest : (σ.agent v).request with
    | some r =>
      simp only [VisitorSystem.step, hrequest] at hstep
      cases hstep
      exact ⟨.refl σ v, h⟩
    | none => exact proceeds_startPage hsite hzero h hrequest hstep
  | call v call =>
    rw [onSession, VisitorEvent.visitor, if_pos rfl]
    exact proceeds_call h hok hstep
  | endPage v =>
    cases hrequest : (σ.agent v).request with
    | none =>
      simp only [VisitorSystem.step, hrequest] at hstep
      cases hstep
      exact ⟨.refl σ v, h⟩
    | some r => exact proceeds_endPage h hrequest hstep
  | dropCookie v =>
    rw [onSession, VisitorEvent.visitor, if_pos rfl]
    exact proceeds_dropCookie hok hstep
  | timeUp v =>
    rw [onSession, VisitorEvent.visitor, if_pos rfl]
    exact proceeds_timeUp h hok hstep

omit [DecidableEq V] in
/-- INTERNAL: there is no record without an id. -/
theorem store_zero {γ : Type} {rel : SessionStore → Visitor loc → γ → Prop} {a : V → γ}
    (h : Shared.Kept p.random OwnsId rel σ a) (hzero : ∀ k < σ.drawn, p.random k ≠ 0) :
    σ.store 0 = none := by
  by_contra hsome
  obtain ⟨k, hk, hid⟩ := h.stored 0 hsome
  exact hzero k hk hid

/-- **One event**: every visitor has the session it should have afterwards. -/
theorem kept_step (hsite : ProperSite site)
    (hids : Set.InjOn p.random {k | k < σ'.drawn}) (hzero : ∀ k < σ.drawn, p.random k ≠ 0)
    {ev : VisitorEvent V} (h : AllInSession p σ a) (hok : Orderly p σ ev)
    (hstep : σ.step p site ev = .ok σ') : AllInSession p σ' fun w => onSession ev w (a w) := by
  obtain ⟨hacts, hsession⟩ :=
    proceeds_step hsite (store_zero h hzero) (h.each ev.visitor) hok hstep
  rw [update_on]
  exact h.act (local_hasSession p) hids hacts hsession

/-! ## Whole runs -/

/-- What the events make of the session of a visitor: those of the others do not count. -/
def sessionOf (v : V) (events : List (VisitorEvent V)) : Contents loc :=
  events.foldl (fun c ev => onSession ev v c) .empty

/-- What the visitor is shown: the dictionary of the request at work, or of the next one. -/
def Shows (p : Platform) (site : Site) (σ : VisitorSystem V loc) (v : V) (c : Contents loc) :
    Prop :=
  match (σ.agent v).request with
  | some r => contents r.m_piVarDict = c
  | none => ∃ r, (VisitorSystem.arrival site σ).onStartPage p (σ.agent v).cookie none = .ok (.sOk, r) ∧
      contents r.m_piVarDict = c

/-- INTERNAL: the sessions one by one. -/
theorem foldl_onSession (events : List (VisitorEvent V)) (a : V → Contents loc) (v : V) :
    events.foldl (fun a ev => fun w => onSession ev w (a w)) a v =
      events.foldl (fun c ev => onSession ev v c) (a v) := by
  induction events generalizing a with
  | nil => rfl
  | cons ev events ih => exact ih _

/-- INTERNAL: ids are drawn forwards. -/
theorem drawn_step {ev : VisitorEvent V} (hstep : σ.step p site ev = .ok σ') :
    σ.drawn ≤ σ'.drawn := by
  cases ev with
  | startPage v =>
    rw [VisitorSystem.step] at hstep
    split at hstep
    · cases hstep
      exact Nat.le_refl _
    · obtain ⟨⟨hr, r⟩, hrun, hstep⟩ := Run.bind_eq_ok hstep
      cases hstep
      exact drawn_onStartPage p hrun
  | call v call =>
    rw [VisitorSystem.step] at hstep
    split at hstep
    · cases hstep
      exact Nat.le_refl _
    · obtain ⟨r, hrun, hstep⟩ := Run.bind_eq_ok hstep
      cases hstep
      exact drawn_perform p hrun
  | endPage v =>
    rw [VisitorSystem.step] at hstep
    split at hstep
    · cases hstep
      exact Nat.le_refl _
    · obtain ⟨⟨hr, r⟩, hrun, hstep⟩ := Run.bind_eq_ok hstep
      cases hstep
      exact le_of_eq (drawn_persistSession p hrun).symm
  | dropCookie v =>
    rw [VisitorSystem.step] at hstep
    split at hstep
    · cases hstep
      exact Nat.le_refl _
    · cases hstep
      exact Nat.le_refl _
  | timeUp v =>
    rw [VisitorSystem.step] at hstep
    split at hstep
    · cases hstep
      exact Nat.le_refl _
    · cases hstep
      exact Nat.le_refl _

omit [DecidableEq V] in
/-- INTERNAL: who has a session is shown it. -/
theorem shows_of_hasSession (hsite : ProperSite site) (hzero : σ.store 0 = none)
    (h : HasSession p σ.store (σ.agent v) c) : Shows p site σ v c := by
  unfold Shows
  cases hrequest : (σ.agent v).request with
  | some r =>
    obtain ⟨h, -⟩ := h
    unfold InSession at h
    rw [hrequest] at h
    rcases h with hserving | ⟨habandoning, rfl⟩
    · exact hserving.ready.contents
    · exact habandoning.empty
  | none =>
    obtain ⟨r, hrun, hserving, -⟩ := startPage_spec hsite hzero hrequest h
    exact ⟨r, hrun, hserving.ready.contents⟩

end System

/-- Sessions of twenty minutes, and cookies for as long as the browser runs. -/
def usualSite : Site := ⟨20, 0, false⟩

/-- Two visitors come at the same time, and one of them puts a number in its session. -/
def twoVisits : List (VisitorEvent Bool) :=
  [.startPage false, .startPage true,
    .call false (.putValue (Bstr.ofString "a") (.value (.scalar .i4 7)) []),
    .endPage true, .endPage false]

/-- INTERNAL: how many ids the two visitors draw. -/
theorem drawn_twoVisits : ((Runs.run (VisitorSystem.step .counting usualSite) twoVisits
    (VisitorSystem.start : VisitorSystem Bool .ordinal)).toOption.map Shared.drawn) = some 2 := by
  decide +kernel

/-- INTERNAL: they are served in order. -/
theorem orderly_twoVisits : Runs.Meets (VisitorSystem.step .counting usualSite) (Orderly .counting)
    twoVisits (VisitorSystem.start : VisitorSystem Bool .ordinal) := by
  refine ⟨trivial, fun σ₁ hσ₁ => ⟨trivial, fun σ₂ hσ₂ => ⟨?_, fun σ₃ _ => ⟨trivial, fun σ₄ _ =>
    ⟨trivial, fun _ _ => trivial⟩⟩⟩⟩⟩
  cases hσ₁
  cases hσ₂
  refine ⟨_, rfl, rfl, .inr ⟨trivial, ⟨?_, ?_, .inr ⟨rfl, .inl rfl⟩⟩, ?_⟩⟩
  · refine safeCall_new rfl ⟨⟨"a".toList, rfl⟩, by unfold StringFits; decide⟩
      ⟨⟨trivial, trivial⟩, trivial⟩ ?_
    rintro w (rfl | rfl) mem
    · exact Nat.lt_of_le_of_lt (Nat.le_of_ble_eq_true rfl : _ ≤ 64) (by decide)
    · exact Nat.lt_of_le_of_lt (Nat.le_of_ble_eq_true rfl : _ ≤ 64) (by decide)
  · rintro key v hputs hloses
    cases hputs
    cases hloses
  · refine ⟨?_, fun lcid _ => rfl⟩
    rintro key e - - bytes -
    rfl

end IspSession.Analysis
