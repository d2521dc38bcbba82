import IspSession.Analysis.CommitLaw

/-!
# The ids of a liquid session

A liquid session that its first access loads gets two new ids. `CommitAsync` renames from the
first of them, under which there is no record, so that the record stays under the id that the
client presented. `LoadAsync` as the first call makes one new id, and there the record moves.
-/

set_option autoImplicit false

namespace IspSession.Analysis

open IspSession.Library IspSession.Model

variable {host : ManagedHost} {settings : SessionAppSettings} {x : Exchange host}
  {database : Keyspace} {drawn : ℕ}

/-! ## The claim -/

/-- After the request the session is under the id in the last cookie with its items, and nothing
is under the presented id. -/
def IdAgreement (settings : SessionAppSettings) (id : Bstr) (x : Exchange host) : Prop :=
  let y := ISPSessionMiddleWare.leave settings x
  y.database (CSessionDL.getKey settings id) = none ∧
    ∃ cookie, y.cookies.getLast? = some cookie ∧
      Decodes host settings y.database cookie x.session.sessionItems

/-- The id that is made of a random number. -/
def idAt (host : ManagedHost) (n : ℕ) : Bstr := ISPSessionIDManager.guidToHex (host.random n)

/-- There is no record yet under the ids to come. -/
def FreshIds (host : ManagedHost) (settings : SessionAppSettings) (database : Keyspace)
    (drawn : ℕ) : Prop :=
  ∀ n, drawn ≤ n → database (CSessionDL.getKey settings (idAt host n)) = none

/-! ## New ids -/

theorem idAt_ne_nil (n : ℕ) : idAt host n ≠ [] := by
  intro h
  have hvalid := validate_guidToHex (host.random n)
  rw [show ISPSessionIDManager.guidToHex (host.random n) = [] from h] at hvalid
  cases hvalid

/-- INTERNAL: a fresh id has another key than a record. -/
theorem getKey_idAt_ne (hfresh : FreshIds host settings database drawn) {n : ℕ} (hn : drawn ≤ n)
    {id : Bstr} {entry : RedisEntry}
    (hentry : database (CSessionDL.getKey settings id) = some entry) :
    CSessionDL.getKey settings id ≠ CSessionDL.getKey settings (idAt host n) := by
  intro h
  rw [h, hfresh n hn] at hentry
  cases hentry

/-- INTERNAL: a commit writes under the id of the session alone. -/
theorem commitAsync_other {id : Bstr} {old : Option Bstr}
    {items : StateItemCollection host.strings NetValue} (h : Working database id old items x)
    {out : Bytes × ℕ} (hcontents : PersistUtil.localContents host.runtime x.session.sessionItems =
      .ok out) {key : Bytes} (hkey : key ≠ CSessionDL.getKey settings id) :
    (x.commitAsync settings).2.database key = renamed settings database id old key := by
  rw [commitAsync_database h.toStanding hcontents]
  split
  · rw [Keyspace.setExpiring]
    split
    · rfl
    · rw [Function.update_of_ne hkey]
  · rw [Keyspace.execute, Function.update_of_ne hkey]

/-- INTERNAL: the end of a request does not change Redis any more. -/
theorem leave_database (x : Exchange host) :
    (ISPSessionMiddleWare.leave settings x).database = (x.commitAsync settings).2.database := by
  rw [ISPSessionMiddleWare.leave, Exchange.startResponse]
  split <;> rfl

/-- INTERNAL: a commit leaves the response as it is. -/
theorem commitAsync_response (settings : SessionAppSettings) (x : Exchange host) :
    (x.commitAsync settings).2.managers = x.managers ∧
      (x.commitAsync settings).2.hasStarted = x.hasStarted ∧
      (x.commitAsync settings).2.cookies = x.cookies := by
  rw [Exchange.commitAsync]
  split <;> exact ⟨rfl, rfl, rfl⟩

/-- INTERNAL: the cookies that the end of a request adds. -/
theorem leave_cookies (hearly : x.hasStarted = false) :
    (ISPSessionMiddleWare.leave settings x).cookies =
      x.cookies ++ (x.managers.reverse.filter fun m =>
        m.shouldEstablishSession && ISPSessionIDManager.validate m.id).map
          ISPSessionIDManager.id := by
  obtain ⟨hmanagers, hstarted, hcookies⟩ := commitAsync_response settings x
  rw [ISPSessionMiddleWare.leave, Exchange.startResponse, hstarted, hearly,
    if_neg Bool.false_ne_true, hmanagers, hcookies]

/-! ## The theorem -/

section Liquid

variable {id : Bstr} {m : CSessionDL.PersistMetaData}
  {items : StateItemCollection host.strings NetValue}

/-- INTERNAL: `LoadAsync` first: the session has one new id, and so has its one manager. -/
theorem working_loadAsync {rest : List SessionCall}
    (hrecord : CSessionDL.sessionGetAsync host settings database id = .ok (some (m, items)))
    (hliquid : m.Liquid = -1) (hcalls : ∀ call ∈ rest, AccessesItems call)
    (hx : (Exchange.performAll settings (.loadAsync :: rest)
      (entered host settings database drawn id)).2 = x) :
    Working database (idAt host drawn) (some id) items x ∧ x.hasStarted = false ∧ x.cookies = [] ∧
      x.managers = [{ id := idAt host drawn, shouldEstablishSession := true }] := by
  have hload := loadAsync_liquid 1 (unloaded_entered host settings database drawn id) rfl hrecord
    hliquid
  have hperform : ((entered host settings database drawn id).perform settings .loadAsync).2 =
      (registered (fetched (entered host settings database drawn id) (m, items))).rotate 0 := by
    rw [Exchange.perform, Exchange.replied]
    dsimp only
    rw [show (entered host settings database drawn id).loadAsync settings
      (Exchange.tryEstablish settings) = _ from hload]
    rfl
  have hfetched : Working database id none items
      (registered (fetched (entered host settings database drawn id) (m, items))) :=
    working_fetched (x := registered (entered host settings database drawn id)) hrecord rfl rfl
      rfl rfl
  have hfirst := hfetched.rotate 0
  have hno : ∀ call, AccessesItems call → call ≠ .commitAsync ∧ call ≠ .startResponse := by
    intro call hcall
    constructor <;> rintro rfl <;> exact hcall
  rw [← hx, performAll_cons, hperform]
  obtain ⟨hmanagers, hstarted, hcookies⟩ := performAll_response settings hfirst.wasLoaded
    fun h => (hno _ (hcalls _ h)).2 rfl
  exact ⟨hfirst.performAll fun h => (hno _ (hcalls _ h)).1 rfl, hstarted, hcookies, hmanagers⟩

/-- INTERNAL: another access first: the session has two new ids. -/
theorem working_rotatedTwice {first : SessionCall} {rest : List SessionCall}
    (hrecord : CSessionDL.sessionGetAsync host settings database id = .ok (some (m, items)))
    (hliquid : m.Liquid = -1) (hfirst : first ≠ .loadAsync)
    (hcalls : ∀ call ∈ first :: rest, AccessesItems call)
    (hx : (Exchange.performAll settings (first :: rest)
      (entered host settings database drawn id)).2 = x) :
    Working database (idAt host (drawn + 1)) (some (idAt host drawn)) items x := by
  have hcheck := checkLoad_liquid (unloaded_entered host settings database drawn id) rfl hrecord
    hliquid
  have hfetched : Working database id none items
      (registered (fetched (registered (entered host settings database drawn id)) (m, items))) :=
    working_fetched (x := registered (registered (entered host settings database drawn id))) hrecord
      rfl rfl rfl rfl
  have htwice : Working database (idAt host (drawn + 1)) (some (idAt host drawn)) items
      (rotatedTwice (entered host settings database drawn id) (m, items)) :=
    (hfetched.rotate _).rotate _
  have hno : ∀ call ∈ first :: rest, call ≠ .commitAsync := by
    rintro call hcall rfl
    exact hcalls _ hcall
  have hperform := perform_of_checkLoad (hcalls first List.mem_cons_self) hfirst hcheck rfl
  rw [← hx, performAll_cons, hperform]
  exact (htwice.perform (hno first List.mem_cons_self)).performAll fun h =>
    hno _ (List.mem_cons_of_mem _ h) rfl

/-- INTERNAL: where the record has been when the commit renames it. -/
theorem renamed_moves (settings : SessionAppSettings) {newId : Bstr} (hne : id ≠ [])
    (hids : newId ≠ id) {entry : RedisEntry}
    (hentry : database (CSessionDL.getKey settings id) = some entry) :
    renamed settings database newId (some id) = Function.update
      (Function.update database (CSessionDL.getKey settings id) none)
      (CSessionDL.getKey settings newId) (some entry) := by
  rw [renamed, if_pos ⟨hne, hids⟩, Keyspace.rename, hentry]

/-- INTERNAL: without a record there nothing is renamed. -/
theorem renamed_stays {newId old : Bstr}
    (hnone : database (CSessionDL.getKey settings old) = none) :
    renamed settings database newId (some old) = database := by
  rw [renamed]
  split
  · rw [Keyspace.rename, hnone]
  · rfl

end Liquid

/-- INTERNAL: no random number of the sample host gives the id of the record. -/
theorem getKey_idAt_sampleHost (n : ℕ) : CSessionDL.getKey sampleSettings (idAt sampleHost n) ≠
    CSessionDL.getKey sampleSettings sampleId := by
  intro h
  have hids := getKey_validate_inj (validate_guidToHex _) (validate_guidToHex _) h
  have hnumber := congrArg BitVec.toNat (guidToHex_inj hids)
  rw [show (sampleHost.random n).toNat = n % 2 ^ 64 % 2 ^ 128 from BitVec.toNat_ofNat _ _,
    BitVec.toNat_ofNat] at hnumber
  omega

theorem freshIds_oneRecord (liquid : BitVec 16) :
    FreshIds sampleHost sampleSettings (oneRecord liquid) 0 :=
  fun n _ => if_neg (getKey_idAt_sampleHost n)

end IspSession.Analysis
