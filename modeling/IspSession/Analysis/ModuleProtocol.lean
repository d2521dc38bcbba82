import IspSession.Analysis.ModuleItems
import IspSession.Analysis.LiquidIds

/-!
# The protocol of the session module

* What `OnAcquireRequestState` leaves: a session under the id of the cookie, and Redis as it was
  but for the record of that id (`Acquired`).
* What `OnReleaseRequestState` leaves of it: no record under the id when the page has abandoned the
  session, and otherwise the items under it, with the record of a replaced id renamed to it.

An abandoned session with a replaced id keeps its old record: only the new id is removed.
-/

set_option autoImplicit false

namespace IspSession.Analysis

open IspSession.Library IspSession.Model IspSession.Model.CSessionManaged

variable {host : HttpHost} {settings : SessionAppSettings} {database : Keyspace} {drawn : ℕ}
  {x y : HttpExchange host.names} {r : HttpRequest}

/-! ## The claim -/

/-- The record under an id has these items. -/
def ModuleDecodes (host : HttpHost) (settings : SessionAppSettings) (database : Keyspace)
    (id : Bstr) (items : SessionStateItemCollection host.names) : Prop :=
  ∃ m loaded, CSessionDL.sessionFound host settings database id = .ok (some (m, loaded)) ∧
    SameSessionItems items loaded

/-- What a request is to leave, by the session at its end: no record of an abandoned session, and
otherwise, when the page may write, the items under the id of the cookie, with the time-out as the
time to live, and none under a replaced id. -/
def ModuleLaw (settings : SessionAppSettings) (r : HttpRequest) (calls : List PageCall)
    (state : ISPHttpSessionStateContainer host.names) (x : HttpExchange host.names) : Prop :=
  let key := Model.CSessionDL.getKey settings
  let ttl := some (Model.CSessionDL.milliseconds (CSessionDL.minutes settings state))
  (.abandon ∈ calls →
    (∀ text, ISPSessionIDManager.presentedText settings r = some text →
      x.database (key text) = none) ∧ x.database (key state.SessionID) = none) ∧
  (.abandon ∉ calls → r.sessionMode = .True →
    (∃ id, x.cookie = some id ∧
      (∃ value, x.database (key id) = some { value, ttl }) ∧
      ModuleDecodes host settings x.database id state.Items) ∧
    ∀ old, state.oldSessionId = some old → x.database (key old) = none)

/-- A record exists under the text that the request presents. -/
def PresentsRecord (settings : SessionAppSettings) (database : Keyspace) (r : HttpRequest)
    (text : Bstr) : Prop :=
  ISPSessionIDManager.presentedText settings r = some text ∧
    (database (Model.CSessionDL.getKey settings text)).isSome = true

/-- A request that is served: the session is acquired, the page makes its calls, and the session
is released without an exception. -/
structure Served (settings : SessionAppSettings) (database : Keyspace) (drawn : ℕ) (r : HttpRequest)
    (calls : List PageCall) (state : ISPHttpSessionStateContainer host.names)
    (x : HttpExchange host.names) : Prop where
  mode : r.sessionMode ≠ .False
  acquired : ∃ y, ISPSessionModule.onAcquireRequestState host settings r (.new database drawn) =
    (.ok (), y) ∧ (runPage calls y).state = some state ∧
      ISPSessionModule.onReleaseRequestState host settings r (runPage calls y) = (.ok (), x)
  /-- Redis refuses a time to live that is not positive. -/
  positive : 0 < Model.CSessionDL.milliseconds (CSessionDL.minutes settings state)
  /-- The new id is not the one that is presented. -/
  fresh : ∀ text, ISPSessionIDManager.presentedText settings r = some text →
    Model.CSessionDL.getKey settings (idAt host.toManagedHost drawn) ≠
      Model.CSessionDL.getKey settings text
  supported : ∀ e ∈ state.Items.entries, NetSupported e.2
  fits : (modulePayload host.strings host.runtime state.Items).length < 0x7FFFF000

/-! ## The session that is acquired -/

/-- The ids of a request. -/
inductive Chosen (host : HttpHost) (settings : SessionAppSettings) (database : Keyspace) (drawn : ℕ)
    (r : HttpRequest) : Bstr → Option Bstr → Prop
  | replaced (text : Bstr) (hliquid : liquid settings = true)
      (htext : ISPSessionIDManager.presentedText settings r = some text) :
      Chosen host settings database drawn r (idAt host.toManagedHost drawn) (some text)
  | kept (text : Bstr) (hliquid : liquid settings = false)
      (htext : ISPSessionIDManager.presentedText settings r = some text) :
      Chosen host settings database drawn r text none
  | new (hnone : ∀ text, ¬ PresentsRecord settings database r text) :
      Chosen host settings database drawn r (idAt host.toManagedHost drawn) none

/-- What `OnAcquireRequestState` leaves. -/
structure Acquired (settings : SessionAppSettings) (database : Keyspace) (r : HttpRequest)
    (id : Bstr) (old : Option Bstr) (y : HttpExchange host.names) : Prop where
  cookie : y.cookie = some id
  state : ∃ m items isNew, y.state = some (ISPSessionModule.container r id old m items isNew)
  others : ∀ key, key ≠ Model.CSessionDL.getKey settings id → y.database key = database key

/-- INTERNAL: a started session. -/
theorem acquired_started {id : Bstr} {old : Option Bstr}
    (items : Option (Model.CSessionDL.PersistMetaData × SessionStateItemCollection host.names))
    (hx : x.database = database) :
    Acquired settings database r id old (started settings r id old items x) := by
  cases items with
  | some p =>
    exact
      { cookie := rfl
        state := ⟨_, _, _, rfl⟩
        others := fun key _ => congrFun hx key }
  | none =>
    refine ⟨?_, ⟨_, _, _, rfl⟩, fun key hkey => ?_⟩
    · unfold started
      dsimp only
      split <;> rfl
    · unfold started
      dsimp only
      split
      · refine (run_of_not_touched (.stringSet _ _ _) x.database ?_).trans (congrFun hx key)
        exact fun hmem => hkey (List.mem_singleton.mp hmem)
      · exact congrFun hx key

/-- INTERNAL: the end of `OnAcquireRequestState`. -/
theorem acquired_acquire {sessionID : Option Bstr}
    {items : Option (Model.CSessionDL.PersistMetaData × SessionStateItemCollection host.names)}
    (hx : x.database = database)
    (h : ISPSessionModule.acquire host settings r sessionID items x = (.ok (), y)) :
    Acquired settings database r (ISPSessionModule.chooseSessionID host settings sessionID x).1
      (ISPSessionModule.chooseSessionID host settings sessionID x).2.1 y := by
  rw [acquire_eq, startSession_eq] at h
  split at h
  · cases h
  · obtain rfl := (Prod.mk.inj h).2
    refine acquired_started items ?_
    unfold ISPSessionModule.chooseSessionID
    cases sessionID with
    | none => exact hx
    | some id =>
      dsimp only
      split <;> exact hx

/-- **What `OnAcquireRequestState` leaves**: a session under an id of one of three kinds. -/
theorem exists_acquired (hmode : r.sessionMode ≠ .False)
    (h : ISPSessionModule.onAcquireRequestState host settings r (.new database drawn) =
      (.ok (), y)) :
    ∃ id old, Chosen host settings database drawn r id old ∧
      Acquired settings database r id old y := by
  rw [ISPSessionModule.onAcquireRequestState, if_neg hmode] at h
  have hasked : (ISPSessionIDManager.getSessionID settings r
      (.new database drawn : HttpExchange host.names)).2.database = database ∧
      (ISPSessionIDManager.getSessionID settings r
        (.new database drawn : HttpExchange host.names)).2.drawn = drawn := by
    unfold ISPSessionIDManager.getSessionID
    split <;> exact ⟨rfl, rfl⟩
  have hid := @getSessionID_eq_some host settings (.new database drawn) r
  rcases hget : ISPSessionIDManager.getSessionID settings r
    (.new database drawn : HttpExchange host.names) with ⟨_ | text, z⟩
  · rw [hget] at h hasked hid
    obtain ⟨hdatabase, hdrawn⟩ := hasked
    have hnone : ∀ text, ¬ PresentsRecord settings database r text := by
      rintro text ⟨hpresented, hsome⟩
      have := (hid text).mpr ⟨hpresented, .inl hsome⟩
      cases this
    have hchosen := acquired_acquire hdatabase h
    refine ⟨_, _, ?_, hchosen⟩
    show Chosen host settings database drawn r
      (Model.ISPSessionIDManager.guidToHex (host.random z.drawn)) none
    rw [hdrawn]
    exact .new hnone
  · rw [hget] at h hasked hid
    obtain ⟨hdatabase, hdrawn⟩ := hasked
    obtain ⟨hpresented, -⟩ := (hid text).mp rfl
    dsimp only at h
    rcases hrun : CSessionDL.sessionGet host settings text z with ⟨_ | items, w⟩
    · rw [hrun] at h
      cases h
    · rw [hrun] at h
      have hw : w.database = database ∧ w.drawn = drawn := by
        obtain ⟨-, rfl⟩ := Prod.mk.inj hrun
        exact ⟨hdatabase, hdrawn⟩
      have hchosen := acquired_acquire hw.1 h
      refine ⟨_, _, ?_, hchosen⟩
      unfold ISPSessionModule.chooseSessionID
      dsimp only
      split
      · rename_i hliquid
        rw [hw.2]
        exact .replaced text hliquid hpresented
      · rename_i hliquid
        exact .kept text (Bool.eq_false_iff.mpr hliquid) hpresented

/-! ## The session that is released -/

/-- INTERNAL: the release of an abandoned session. -/
theorem release_abandoned {state : ISPHttpSessionStateContainer host.names}
    (hmode : r.sessionMode ≠ .False) (hstate : y.state = some state)
    (habandoned : state.IsAbandoned = true)
    (h : ISPSessionModule.onReleaseRequestState host settings r y = (.ok (), x)) :
    x.database (Model.CSessionDL.getKey settings state.SessionID) = none ∧
      ∀ key, key ≠ Model.CSessionDL.getKey settings state.SessionID →
        x.database key = y.database key := by
  rw [ISPSessionModule.onReleaseRequestState, if_neg hmode, hstate] at h
  dsimp only at h
  rw [if_pos habandoned] at h
  obtain rfl := (Prod.mk.inj h).2
  show (CSessionDL.sessionRemove settings state.SessionID
      (ISPSessionIDManager.removeSessionID y)).database _ = none ∧ ∀ key, _ →
    (CSessionDL.sessionRemove settings state.SessionID
      (ISPSessionIDManager.removeSessionID y)).database key = y.database key
  unfold CSessionDL.sessionRemove
  dsimp only
  split
  · refine ⟨if_pos (List.mem_singleton_self _), fun key hkey => ?_⟩
    exact run_of_not_touched (.keyDelete _) y.database fun hmem =>
      hkey (List.mem_singleton.mp hmem)
  · rename_i hnone
    exact ⟨Option.not_isSome_iff_eq_none.mp hnone, fun _ _ => rfl⟩

/-- INTERNAL: what it leaves under the replaced id: nothing, unless that is empty. -/
theorem moveFrom_old {old id : Bstr}
    (hkey : Model.CSessionDL.getKey settings old ≠ Model.CSessionDL.getKey settings id) :
    (CSessionDL.moveFrom settings (some old) id x).database
      (Model.CSessionDL.getKey settings old) =
        if old = [] then x.database (Model.CSessionDL.getKey settings old) else none := by
  have hne : id ≠ old := fun h => hkey (by rw [h])
  unfold CSessionDL.moveFrom
  dsimp only
  by_cases hold : old = []
  · rw [if_neg (fun h => h.1 hold), if_pos hold]
  · rw [if_pos ⟨hold, hne⟩, if_neg hold]
    show x.database.rename _ _ _ = none
    unfold Keyspace.rename
    cases hentry : x.database (Model.CSessionDL.getKey settings old) with
    | none => exact hentry
    | some entry =>
      dsimp only
      rw [Function.update_of_ne hkey, Function.update_self]

/-- INTERNAL: the release of a session whose page may write. -/
theorem release_saved {state : ISPHttpSessionStateContainer host.names}
    (hmode : r.sessionMode ≠ .False) (hstate : y.state = some state)
    (habandoned : ¬ state.IsAbandoned = true) (hwrite : state.IsReadOnly = false)
    (htime : 0 < Model.CSessionDL.milliseconds (CSessionDL.minutes settings state))
    (h : ISPSessionModule.onReleaseRequestState host settings r y = (.ok (), x)) :
    x.cookie = y.cookie ∧ ∃ bytes zLen,
      CSessionManaged.PersistUtil.localContents host.strings host.runtime state.Items =
        .ok (bytes, zLen) ∧
      x.database = Function.update
        (CSessionDL.moveFrom settings state.oldSessionId state.SessionID y).database
        (Model.CSessionDL.getKey settings state.SessionID)
        (some { value := .string (Model.CSessionDL.toByteArray
                  (CSessionDL.metaData settings state.Timeout zLen) ++
                    CSessionDL.compressed settings host.deflate bytes)
                ttl := some (Model.CSessionDL.milliseconds (CSessionDL.minutes settings state)) }) := by
  rw [ISPSessionModule.onReleaseRequestState, if_neg hmode, hstate] at h
  dsimp only at h
  rw [if_neg habandoned] at h
  rcases hsave : CSessionDL.sessionSave host settings state y with ⟨_ | _, z⟩
  · rw [hsave] at h
    cases h
  · rw [hsave] at h
    obtain rfl := (Prod.mk.inj h).2
    rw [CSessionDL.sessionSave, hwrite] at hsave
    dsimp only at hsave
    rw [if_neg Bool.false_ne_true] at hsave
    cases hcontents : CSessionManaged.PersistUtil.localContents host.strings host.runtime
        state.Items with
    | error e =>
      rw [hcontents] at hsave
      cases hsave
    | ok out =>
      obtain ⟨bytes, zLen⟩ := out
      rw [hcontents] at hsave
      obtain rfl := (Prod.mk.inj hsave).2
      refine ⟨?_, bytes, zLen, rfl, ?_⟩
      · show (CSessionDL.moveFrom settings state.oldSessionId state.SessionID y).cookie = y.cookie
        unfold CSessionDL.moveFrom
        cases state.oldSessionId with
        | none => rfl
        | some o =>
          dsimp only
          split <;> rfl
      · show Keyspace.setExpiring _ _ _ _ = _
        rw [Keyspace.setExpiring, if_neg (Int.not_le.mpr htime)]

/-- INTERNAL: what a saved session decodes to. -/
theorem moduleDecodes_iff {id : Bstr} {items : SessionStateItemCollection host.names}
    {expires : BitVec 32} {bytes : Bytes} {zLen : ℕ} {ttl : Option ℤ} {database : Keyspace}
    (hsupp : ∀ e ∈ items.entries, NetSupported e.2)
    (hfits : (modulePayload host.strings host.runtime items).length < 0x7FFFF000)
    (hcompress : settings.Compress = true → ∀ bytes, host.deflate.compress bytes ≠ [])
    (hcontents : CSessionManaged.PersistUtil.localContents host.strings host.runtime items =
      .ok (bytes, zLen))
    (hentry : database (Model.CSessionDL.getKey settings id) =
      some ⟨.string (Model.CSessionDL.toByteArray (CSessionDL.metaData settings expires zLen) ++
        CSessionDL.compressed settings host.deflate bytes), ttl⟩) :
    ModuleDecodes host settings database id items ↔ Returning items := by
  have hwrote : bytes = modulePayload host.strings host.runtime items ∧ zLen = bytes.length := by
    obtain ⟨hwrite, hthrows⟩ :=
      @moduleContents_netSpec host.names host.runtime host.strings items hsupp hfits
    have hwritable : ∀ e ∈ items.entries, NetWritable e.2 := by
      by_contra hnot
      exact (hthrows hnot).ne_ok _ hcontents
    rw [hwrite hwritable] at hcontents
    obtain ⟨rfl, rfl⟩ := Prod.mk.inj (Except.ok.inj hcontents)
    exact ⟨rfl, rfl⟩
  have hsome : CSessionDL.compressed settings host.deflate bytes ≠ [] := by
    unfold CSessionDL.compressed
    split
    · rename_i hc
      exact hcompress hc bytes
    · intro hnil
      have hle := length_le_netPropertiesBytes host.runtime 0
        ((netElsName, netElsValue (itemsDescending host.strings items).length) ::
          itemsDescending host.strings items)
      rw [show netPropertiesBytes host.runtime 0 ((netElsName,
        netElsValue (itemsDescending host.strings items).length) ::
          itemsDescending host.strings items) = bytes from hwrote.1.symm, hnil] at hle
      exact absurd hle (by simp)
  generalize hm : CSessionDL.metaData settings expires zLen = m at hentry
  have hsize : m.SizeofMeta = 32 := by rw [← hm]; rfl
  have hpayload : Model.CSessionDL.payloadStream host.deflate settings m
      (Model.CSessionDL.toByteArray m ++ CSessionDL.compressed settings host.deflate bytes) =
        .ok bytes := by
    refine payloadStream_record hsize (fun hc => ⟨?_, ?_⟩) fun hc => ?_
    · rw [← hm]
      show 0 ≤ (BitVec.ofNat 32 zLen).toInt
      have hlt : zLen < 2 ^ 31 := by
        rw [hwrote.2, hwrote.1]
        omega
      rw [BitVec.toInt_eq_toNat_of_lt (by rw [BitVec.toNat_ofNat]; omega)]
      exact Int.natCast_nonneg _
    · rw [CSessionDL.compressed, if_pos hc]
      exact host.deflate.decompress_compress bytes
    · rw [CSessionDL.compressed, if_neg (Bool.eq_false_iff.mp hc)]
  have hlength : ¬ (((Model.CSessionDL.toByteArray m ++
      CSessionDL.compressed settings host.deflate bytes).length : ℕ) : ℤ) = m.SizeofMeta.toInt := by
    rw [hsize, List.length_append, length_toByteArray]
    have hpos := List.length_pos_iff.mpr hsome
    show ¬ ((32 + _ : ℕ) : ℤ) = 32
    omega
  have hfound : CSessionDL.sessionFound host settings database id =
      (CSessionManaged.PersistUtil.localLoad host.runtime host.loaders bytes).map
        fun items => some (m, items) := by
    rw [CSessionDL.sessionFound, hentry]
    dsimp only
    rw [fromByteArray_toByteArray, NetRun.ok_bind, if_neg hlength, hpayload, NetRun.ok_bind]
    cases (CSessionManaged.PersistUtil.localLoad host.runtime host.loaders bytes :
      NetRun (SessionStateItemCollection host.names)) <;> rfl
  rw [← @moduleRoundTrip_iff host.names host.runtime host.loaders host.strings items bytes zLen
    hsupp hfits hcontents]
  unfold ModuleDecodes
  rw [hfound]
  constructor
  · rintro ⟨m', loaded, hload, hsame⟩
    cases hl : (CSessionManaged.PersistUtil.localLoad host.runtime host.loaders bytes :
        NetRun (SessionStateItemCollection host.names)) with
    | error e =>
      rw [hl] at hload
      cases hload
    | ok loaded' =>
      rw [hl] at hload
      obtain ⟨-, rfl⟩ := Prod.mk.inj (Option.some.inj (Except.ok.inj hload))
      exact ⟨_, rfl, hsame⟩
  · rintro ⟨loaded, hload, hsame⟩
    exact ⟨m, loaded, by rw [hload]; rfl, hsame⟩

/-! ## The theorem -/

/-- INTERNAL: what is presented is one text. -/
theorem presents_unique {text text' : Bstr}
    (h : ISPSessionIDManager.presentedText settings r = some text)
    (h' : PresentsRecord settings database r text') : text' = text :=
  Option.some.inj (h'.1.symm.trans h)

/-- INTERNAL: an abandoned session leaves no presented record unless its id is replaced. -/
theorem abandoned_iff {id : Bstr} {old : Option Bstr} {after : Keyspace}
    (hchosen : Chosen host settings database drawn r id old)
    (hfresh : ∀ text, ISPSessionIDManager.presentedText settings r = some text →
      Model.CSessionDL.getKey settings (idAt host.toManagedHost drawn) ≠
        Model.CSessionDL.getKey settings text)
    (hnone : after (Model.CSessionDL.getKey settings id) = none)
    (hothers : ∀ key, key ≠ Model.CSessionDL.getKey settings id → after key = database key) :
    (∀ text, ISPSessionIDManager.presentedText settings r = some text →
        after (Model.CSessionDL.getKey settings text) = none) ↔
      (liquid settings = true → ∀ text, ¬ PresentsRecord settings database r text) := by
  cases hchosen with
  | replaced text hliquid htext =>
    have hkept := hothers (Model.CSessionDL.getKey settings text) (hfresh text htext).symm
    constructor
    · rintro h - text' hpresents
      obtain rfl := presents_unique htext hpresents
      have hsome := hpresents.2
      rw [← hkept, h _ htext] at hsome
      cases hsome
    · intro h text' htext'
      obtain rfl : text = text' := Option.some.inj (htext.symm.trans htext')
      rw [hkept]
      exact Option.not_isSome_iff_eq_none.mp fun hsome => h hliquid _ ⟨htext, hsome⟩
  | kept text hliquid htext =>
    constructor
    · intro _ h
      rw [hliquid] at h
      cases h
    · intro _ text' htext'
      obtain rfl := Option.some.inj (htext.symm.trans htext')
      exact hnone
  | new hpresents =>
    refine ⟨fun _ _ => hpresents, fun _ text htext => ?_⟩
    rw [hothers _ (hfresh text htext).symm]
    exact Option.not_isSome_iff_eq_none.mp fun hsome => hpresents text ⟨htext, hsome⟩

/-- INTERNAL: a saved session leaves no record under a replaced id that is not empty. -/
theorem replaced_iff {id : Bstr} {old : Option Bstr} {value : RedisEntry}
    (hchosen : Chosen host settings database drawn r id old)
    (hfresh : ∀ text, ISPSessionIDManager.presentedText settings r = some text →
      Model.CSessionDL.getKey settings (idAt host.toManagedHost drawn) ≠
        Model.CSessionDL.getKey settings text)
    (hothers : ∀ key, key ≠ Model.CSessionDL.getKey settings id → y.database key = database key) :
    (∀ o, old = some o → Function.update (CSessionDL.moveFrom settings old id y).database
        (Model.CSessionDL.getKey settings id) (some value)
        (Model.CSessionDL.getKey settings o) = none) ↔
      (liquid settings = true → ¬ PresentsRecord settings database r []) := by
  cases hchosen with
  | replaced text hliquid htext =>
    have hkey := (hfresh text htext).symm
    have hmoved : Function.update (CSessionDL.moveFrom settings (some text)
        (idAt host.toManagedHost drawn) y).database
        (Model.CSessionDL.getKey settings (idAt host.toManagedHost drawn)) (some value)
        (Model.CSessionDL.getKey settings text) =
          if text = [] then database (Model.CSessionDL.getKey settings text) else none := by
      rw [Function.update_of_ne hkey, moveFrom_old hkey, hothers _ hkey]
    constructor
    · rintro h - hpresents
      obtain rfl := presents_unique htext hpresents
      have hnone := h _ rfl
      rw [hmoved, if_pos rfl] at hnone
      have hsome := hpresents.2
      rw [hnone] at hsome
      cases hsome
    · intro h o ho
      obtain rfl := Option.some.inj ho
      rw [hmoved]
      split
      · rename_i hempty
        subst hempty
        exact Option.not_isSome_iff_eq_none.mp fun hsome => h hliquid ⟨htext, hsome⟩
      · rfl
  | kept text hliquid htext =>
    refine ⟨fun _ h => ?_, fun _ o ho => by cases ho⟩
    rw [hliquid] at h
    cases h
  | new hpresents => exact ⟨fun _ _ => hpresents [], fun _ o ho => by cases ho⟩

/-- **The module keeps its protocol exactly for a page that does not abandon a session whose id is
replaced**, and, where a page may write, for items that come back. -/
theorem moduleLaw_iff {calls : List PageCall} {state : ISPHttpSessionStateContainer host.names}
    (h : Served settings database drawn r calls state x)
    (hcompress : settings.Compress = true → ∀ bytes, host.deflate.compress bytes ≠ []) :
    ModuleLaw settings r calls state x ↔
      (.abandon ∈ calls → liquid settings = true →
        ∀ text, ¬ PresentsRecord settings database r text) ∧
      (.abandon ∉ calls → r.sessionMode = .True →
        Returning state.Items ∧ (liquid settings = true → ¬ PresentsRecord settings database r [])) := by
  obtain ⟨y, hacquire, hstate, hrelease⟩ := h.acquired
  obtain ⟨id, old, hchosen, hacquired⟩ := exists_acquired h.mode hacquire
  obtain ⟨m, items, isNew, hbefore⟩ := hacquired.state
  have hkeeps : CallsKeep calls (ISPSessionModule.container r id old m items isNew) state := by
    obtain ⟨before, hb, rfl⟩ := Option.map_eq_some_iff.mp hstate
    rw [hbefore] at hb
    obtain rfl := Option.some.inj hb
    exact callsKeep_foldl calls _
  have hid : state.SessionID = id := hkeeps.SessionID
  have hold : state.oldSessionId = old := hkeeps.oldSessionId
  have habandon : state.IsAbandoned = true ↔ .abandon ∈ calls := by
    rw [hkeeps.IsAbandoned]
    simp [ISPSessionModule.container]
  refine and_congr (imp_congr_right fun hcalls => ?_)
    (imp_congr_right fun hcalls => imp_congr_right fun hmode => ?_)
  · obtain ⟨hnone, hothers⟩ := release_abandoned h.mode hstate (habandon.mpr hcalls) hrelease
    rw [hid] at hnone hothers ⊢
    rw [and_iff_left hnone]
    exact abandoned_iff hchosen h.fresh hnone fun key hkey =>
      (hothers key hkey).trans (hacquired.others key hkey)
  · have hwrite : state.IsReadOnly = false := by
      rw [hkeeps.IsReadOnly]
      show decide (r.sessionMode = .ReadOnly) = false
      rw [hmode]
      rfl
    obtain ⟨hcookie, bytes, zLen, hcontents, hdatabase⟩ := release_saved h.mode hstate
      (fun hab => hcalls (habandon.mp hab)) hwrite h.positive hrelease
    rw [hid, hold] at hdatabase
    have hentry := congrFun hdatabase (Model.CSessionDL.getKey settings id)
    rw [Function.update_self] at hentry
    have hcookie' : x.cookie = some id := hcookie.trans hacquired.cookie
    refine and_congr ?_ ?_
    · rw [← moduleDecodes_iff h.supported h.fits hcompress hcontents hentry]
      constructor
      · rintro ⟨id', hid', -, hdecodes⟩
        rw [hcookie'] at hid'
        rwa [Option.some.inj hid']
      · exact fun hdecodes => ⟨id, hcookie', ⟨_, hentry⟩, hdecodes⟩
    · rw [hold, hdatabase]
      exact replaced_iff hchosen h.fresh hacquired.others

/-- Settings with liquid sessions. -/
def liquidSettings : SessionAppSettings := { sampleSettings with Liquid := some true }

/-- A database with the metadata of a session alone. -/
def oneModuleRecord : Keyspace := fun key =>
  if key = Model.CSessionDL.getKey liquidSettings sampleId then
    some ⟨.string (Model.CSessionDL.toByteArray (CSessionDL.metaData liquidSettings 20 0)), some 1000⟩
  else none

/-- A request with the id of the session in its cookie. -/
def moduleRequest : HttpRequest where
  query := none
  cookie := some sampleId
  sessionMode := .True
  headersWritten := false

/-- A page with one item and a time-out of 20 minutes that makes this call last. -/
def pageCalls (last : PageCall) : List PageCall :=
  [.clear, .set [65] (.primitive .int32 5), .setTimeout 20, last]

/-- The request on that record, in front of its release. -/
def moduleRun (last : PageCall) : HttpExchange sampleHttpHost.names :=
  runPage (pageCalls last) (ISPSessionModule.onAcquireRequestState sampleHttpHost liquidSettings
    moduleRequest (.new oneModuleRecord 0)).2

/-- Its end. -/
def moduleEnd (last : PageCall) : NetRun Unit × HttpExchange sampleHttpHost.names :=
  ISPSessionModule.onReleaseRequestState sampleHttpHost liquidSettings moduleRequest
    (moduleRun last)

/-- INTERNAL: it is served. -/
theorem served_moduleRun {last : PageCall} (hlast : last = .abandon ∨ last = .setTimeout 20)
    (hend : (moduleEnd last).1.toOption.isSome = true) :
    ∃ state, Served liquidSettings oneModuleRecord 0 moduleRequest (pageCalls last) state
      (moduleEnd last).2 ∧ state.Items.entries = [([65], .primitive .int32 5)] := by
  have hmode : moduleRequest.sessionMode ≠ .False := by decide
  have hacquire : (ISPSessionModule.onAcquireRequestState sampleHttpHost liquidSettings
      moduleRequest (.new oneModuleRecord 0)).1.toOption.isSome = true := by decide +kernel
  obtain ⟨u, hu⟩ := Option.isSome_iff_exists.mp hacquire
  obtain ⟨v, hv⟩ := Option.isSome_iff_exists.mp hend
  have hrun : ISPSessionModule.onAcquireRequestState sampleHttpHost liquidSettings moduleRequest
      (.new oneModuleRecord 0) = (.ok (), (ISPSessionModule.onAcquireRequestState sampleHttpHost
        liquidSettings moduleRequest (.new oneModuleRecord 0)).2) :=
    Prod.ext (NetRun.eq_ok_of_toOption hu) rfl
  obtain ⟨id, old, -, hacquired⟩ := exists_acquired hmode hrun
  obtain ⟨m, items, isNew, hbefore⟩ := hacquired.state
  have hstate : (moduleRun last).state = some ((pageCalls last).foldl PageCall.perform
      (ISPSessionModule.container moduleRequest id old m items isNew)) := by
    unfold moduleRun runPage
    dsimp only
    rw [hbefore]
    rfl
  generalize ISPSessionModule.container moduleRequest id old m items isNew = before at hstate
  have hpage : ((pageCalls last).foldl PageCall.perform before).Items.entries =
      [([65], .primitive .int32 5)] ∧
      ((pageCalls last).foldl PageCall.perform before).Timeout = 20 := by
    rcases hlast with rfl | rfl <;> exact ⟨rfl, rfl⟩
  obtain ⟨hitems, htime⟩ := hpage
  refine ⟨_, ⟨hmode, ⟨_, hrun, hstate, Prod.ext (NetRun.eq_ok_of_toOption hv) rfl⟩, ?_, ?_, ?_, ?_⟩,
    hitems⟩
  · rw [CSessionDL.minutes, htime]
    decide
  · intro text htext
    obtain rfl : sampleId = text := Option.some.inj htext
    exact getKey_idAt_sampleHost 0
  · intro e he
    rw [hitems, List.mem_singleton] at he
    rw [he]
    trivial
  · have hbytes : modulePayload sampleHttpHost.strings sampleHttpHost.runtime
        ((pageCalls last).foldl PageCall.perform before).Items =
        payloadBytes NetRuntime.plain [([65], .primitive .int32 5)] := by
      have hperm := itemsDescending_perm sampleHttpHost.strings
        ((pageCalls last).foldl PageCall.perform before).Items
      rw [hitems] at hperm
      rw [modulePayload, List.perm_singleton.mp hperm]
      rfl
    rw [hbytes]
    decide +kernel

/-- INTERNAL: without compression no compressed contents are asked for. -/
theorem no_compression : liquidSettings.Compress = true →
    ∀ bytes, sampleHttpHost.deflate.compress bytes ≠ [] := fun h => by cases h

/-- The module keeps its protocol for a page that sets an item. -/
theorem setsItem_moduleLaw : ∃ state, ModuleLaw liquidSettings moduleRequest
    (pageCalls (.setTimeout 20)) state (moduleEnd (.setTimeout 20)).2 := by
  obtain ⟨state, hserved, hitems⟩ := served_moduleRun (.inr rfl) (by decide +kernel)
  refine ⟨state, (moduleLaw_iff hserved no_compression).mpr ⟨fun h => ?_, fun _ _ => ⟨?_, ?_⟩⟩⟩
  · simp [pageCalls] at h
  · refine ⟨?_, fun e he => ?_, fun e he => ?_⟩
    · rw [hitems]
      decide
    · rw [hitems, List.mem_singleton] at he
      rw [he]
      exact ⟨List.cons_ne_nil _ _, wellFormedUtf16_ascii (by decide)⟩
    · rw [hitems, List.mem_singleton] at he
      rw [he]
      trivial
  · rintro - ⟨htext, -⟩
    exact absurd (Option.some.inj htext) (by decide +kernel)

/-- **A page that abandons the session leaves the record under the presented id.** -/
theorem abandons_not_moduleLaw : ∃ state, Served liquidSettings oneModuleRecord 0 moduleRequest
    (pageCalls .abandon) state (moduleEnd .abandon).2 ∧
      ¬ ModuleLaw liquidSettings moduleRequest (pageCalls .abandon) state (moduleEnd .abandon).2 := by
  obtain ⟨state, hserved, -⟩ := served_moduleRun (.inl rfl) (by decide +kernel)
  refine ⟨state, hserved, fun hlaw => ?_⟩
  have hnone := (hlaw.1 (by simp [pageCalls])).1 sampleId rfl
  have hkept : ((moduleEnd .abandon).2.database
      (Model.CSessionDL.getKey liquidSettings sampleId)).isSome = true := by decide +kernel
  rw [hnone] at hkept
  cases hkept

end IspSession.Analysis
