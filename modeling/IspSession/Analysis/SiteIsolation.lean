import IspSession.Model.SiteTraffic
import IspSession.Analysis.BrowserIsolation
import IspSession.Analysis.ModuleKeys

/-!
# Browsers on a site of both components do not notice each other

A request to the module of ASP.NET stays with the records under its own ids as one to the core
middleware does, and it does so with every single command. So a browser whose pages are behind both
components is always what its own events make of it where nobody else uses the store, whatever other
browsers do between its commands (`site_isolated`).
-/

set_option autoImplicit false

namespace IspSession.Analysis

open IspSession.Library IspSession.Model IspSession.Model.CSessionManaged

open scoped Classical

/-! ## The handlers of the module, command by command -/

section Handlers

variable {host : HttpHost} {settings : SessionAppSettings} {r : HttpRequest}

/-- INTERNAL: the rest of `OnAcquireRequestState` behind `SessionGet`. -/
theorem proceeds_found (id : Option Bstr)
    (items : Option (Model.CSessionDL.PersistMetaData × SessionStateItemCollection host.names))
    (x : HttpExchange host.names) :
    ISPSessionModule.proceeds host settings r 1 (.found id items, x) =
      ((ISPSessionModule.acquire host settings r id items x).1.map fun _ => some .page,
        (ISPSessionModule.acquire host settings r id items x).2) := by
  simp only [ISPSessionModule.proceeds, ISPSessionModule.proceed]
  cases hrun : ISPSessionModule.acquire host settings r id items x with
  | mk result y =>
    cases result with
    | error e => rfl
    | ok u => rfl

/-- **`OnAcquireRequestState` is its commands, one by one.** -/
theorem proceeds_beginAcquire (x : HttpExchange host.names) :
    ISPSessionModule.proceeds host settings r 2 (ISPSessionModule.beginAcquire host settings r x) =
      ((ISPSessionModule.onAcquireRequestState host settings r x).1.map fun _ => some .page,
        (ISPSessionModule.onAcquireRequestState host settings r x).2) := by
  unfold ISPSessionModule.beginAcquire ISPSessionModule.onAcquireRequestState
  by_cases hmode : r.sessionMode = .False
  · rw [if_pos hmode, if_pos hmode]
    rfl
  · rw [if_neg hmode, if_neg hmode]
    cases hasked : ISPSessionIDManager.getSessionID settings r x with
    | mk id y =>
      cases id with
      | none => exact proceeds_found none none y
      | some id =>
        dsimp only
        cases hgot : CSessionDL.sessionGet host settings id y with
        | mk found z =>
          simp only [ISPSessionModule.proceeds, ISPSessionModule.proceed, hgot]
          cases found with
          | error e => rfl
          | ok items => exact proceeds_found (some id) items z

/-- **`OnReleaseRequestState` is its commands, one by one.** -/
theorem releases_eq (x : HttpExchange host.names) :
    ISPSessionModule.releases host settings r x =
      ((ISPSessionModule.onReleaseRequestState host settings r x).1.map fun _ => none,
        (ISPSessionModule.onReleaseRequestState host settings r x).2) := by
  unfold ISPSessionModule.releases ISPSessionModule.beginRelease
    ISPSessionModule.onReleaseRequestState
  by_cases hmode : r.sessionMode = .False
  · rw [if_pos hmode, if_pos hmode]
    rfl
  · rw [if_neg hmode, if_neg hmode]
    cases hstate : x.state with
    | none => rfl
    | some state =>
      dsimp only
      cases habandoned : state.IsAbandoned with
      | true =>
        rw [if_pos rfl, if_pos rfl]
        have hremove : CSessionManaged.CSessionDL.sessionRemove settings state.SessionID
            (ISPSessionIDManager.removeSessionID x) =
              if (x.database (CSessionDL.getKey settings state.SessionID)).isSome then
                ((ISPSessionIDManager.removeSessionID x).send
                  (.keyExists (CSessionDL.getKey settings state.SessionID))).send
                    (.keyDelete (CSessionDL.getKey settings state.SessionID))
              else (ISPSessionIDManager.removeSessionID x).send
                (.keyExists (CSessionDL.getKey settings state.SessionID)) := rfl
        rw [hremove]
        cases (x.database (CSessionDL.getKey settings state.SessionID)).isSome with
        | true => rfl
        | false => rfl
      | false =>
        rw [if_neg Bool.false_ne_true, if_neg Bool.false_ne_true]
        unfold ISPSessionModule.saveCommand CSessionDL.sessionSave
        cases hread : state.IsReadOnly with
        | true => rfl
        | false =>
          cases PersistUtil.localContents host.strings host.runtime state.Items with
          | error e => rfl
          | ok out => rfl

end Handlers

/-! ## A request to the module stays with its own records -/

section Exchange

variable {host : HttpHost} {settings : SessionAppSettings} {α : Type} {known : Set Bytes}
  {x : HttpExchange host.names}

/-- The ids that a request to the module knows. -/
def knownIds {names : NetNames} (x : HttpExchange names) : List Bstr :=
  x.cookie.toList ++ x.state.elim [] fun state => state.SessionID :: state.oldSessionId.toList

/-- A request to the module as a state with a store, where these keys are known besides. -/
def moduleView (settings : SessionAppSettings) (known : Set Bytes) :
    StoreView (HttpExchange host.names) Bytes RedisEntry where
  store x := x.database
  put x d := { x with database := d }
  drawn x := x.drawn
  owns x key := key ∈ known ∨ ∃ id ∈ knownIds x, CSessionDL.getKey settings id = key
  store_put _ _ := rfl
  put_store _ := rfl
  put_put _ _ _ := rfl
  drawn_put _ _ := rfl
  owns_put _ _ := rfl

/-- A part of a request to the module stays with the records under the ids that it knows. -/
def ModuleStays (settings : SessionAppSettings) (known : Set Bytes)
    (f : HttpExchange host.names → α × HttpExchange host.names) (x : HttpExchange host.names) :
    Prop :=
  (moduleView settings known).ActsWithin (drawnKey host.toManagedHost settings) f x

/-- INTERNAL: the keys that are known besides. -/
theorem owns_of_known {key : Bytes} (h : key ∈ known) :
    (moduleView settings known).owns x key := .inl h

/-- INTERNAL: the ids that a request knows are its own. -/
theorem owns_of_knownIds {id : Bstr} (h : id ∈ knownIds x) :
    (moduleView settings known).owns x (CSessionDL.getKey settings id) := .inr ⟨id, h, rfl⟩

/-- INTERNAL: a command on records of its own. -/
theorem run_piecewise {c : SessionCommand} {A : Set Bytes} {s d : Keyspace}
    (h : ∀ key ∈ c.touched, key ∈ A) : c.run (A.piecewise s d) = A.piecewise (c.run s) d := by
  cases c with
  | keyExists key => rfl
  | stringGet key => rfl
  | keyRename key newKey =>
    exact rename_piecewise (h key List.mem_cons_self)
      (h newKey (List.mem_cons_of_mem _ (List.mem_singleton_self _)))
  | keyExpire key ms => exact pexpire_piecewise (h key (List.mem_singleton_self _)) ms
  | stringSet key contents ms =>
    exact setExpiring_piecewise (h key (List.mem_singleton_self _)) contents ms
  | keyDelete key => exact del_piecewise (h key (List.mem_singleton_self _))

/-- **A command on the records of a request.** -/
theorem moduleStays_send {c : SessionCommand} (r : α)
    (hc : ∀ key ∈ c.touched, (moduleView settings known).owns x key) :
    ModuleStays settings known (fun x => (r, x.send c)) x where
  drawn := Nat.le_refl _
  owns _ h := .inl h
  frame A hA d := by
    have hrun : c.run (A.piecewise x.database d) = A.piecewise (c.run x.database) d :=
      run_piecewise fun key hkey => hA (.inl (hc key hkey))
    change (r, ({ x with database := A.piecewise x.database d } : HttpExchange host.names).send c) =
      (r, { x.send c with database := A.piecewise (c.run x.database) d })
    unfold HttpExchange.send
    dsimp only
    rw [hrun]

/-- INTERNAL: a part that sends no command and brings no ids. -/
theorem moduleStays_step {g : HttpExchange host.names → HttpExchange host.names} (r : α)
    (hput : ∀ d, g { x with database := d } = { g x with database := d })
    (hstore : (g x).database = x.database) (hdrawn : (g x).drawn = x.drawn)
    (hids : ∀ id ∈ knownIds (g x), id ∈ knownIds x) :
    ModuleStays settings known (fun x => (r, g x)) x :=
  StoreView.actsWithin_step r hput hstore hdrawn.ge fun key h => by
    rcases h with hkey | ⟨id, hid, rfl⟩
    · exact .inl (owns_of_known hkey)
    · exact .inl (owns_of_knownIds (hids id hid))

/-- INTERNAL: the text of a request without an id in its query string is its cookie's. -/
theorem mem_cookie_of_presentedText {r : HttpRequest} (hquery : r.query = none) {text : Bstr}
    (h : ISPSessionIDManager.presentedText settings r = some text) : text ∈ r.cookie := by
  unfold ISPSessionIDManager.presentedText at h
  rw [hquery] at h
  have hfilter : (r.cookie.filter Model.ISPSessionIDManager.validate) = some text := by
    simpa using h
  exact (Option.filter_eq_some_iff.mp hfilter).1

/-- INTERNAL: `GetSessionID` of a request without an id in its query string. -/
theorem moduleStays_getSessionID {r : HttpRequest} (hquery : r.query = none)
    (hknown : ∀ id ∈ r.cookie, CSessionDL.getKey settings id ∈ known) :
    ModuleStays settings known (ISPSessionIDManager.getSessionID settings r) x := by
  cases htext : ISPSessionIDManager.presentedText settings r with
  | none =>
    refine (StoreView.actsWithin_answer (none : Option Bstr)).congr fun y => ?_
    rw [ISPSessionIDManager.getSessionID, htext]
  | some text =>
    have hkey : CSessionDL.getKey settings text ∈ known :=
      hknown text (mem_cookie_of_presentedText hquery htext)
    have hread : ModuleStays settings known _ x := StoreView.ActsWithin.read
      (v := fun y : HttpExchange host.names => y.database (CSessionDL.getKey settings text))
      (f := fun entry y => (if entry.isSome then some text
        else if reEntrance settings ∧ text ≠ [] then some text else none,
          y.send (.keyExists (CSessionDL.getKey settings text))))
      (fun A hA d => Set.piecewise_eq_of_mem A x.database d (hA _ (owns_of_known hkey)))
      (moduleStays_send _ fun key hmem => absurd hmem List.not_mem_nil)
    refine hread.congr fun y => ?_
    rw [ISPSessionIDManager.getSessionID, htext]

/-- INTERNAL: `SessionGet` reads one record. -/
theorem sessionFound_congr {database database' : Keyspace} {id : Bstr}
    (h : database (CSessionDL.getKey settings id) = database' (CSessionDL.getKey settings id)) :
    CSessionManaged.CSessionDL.sessionFound host settings database id =
      CSessionManaged.CSessionDL.sessionFound host settings database' id := by
  unfold CSessionManaged.CSessionDL.sessionFound
  rw [h]

/-- INTERNAL: `SessionGet`. -/
theorem moduleStays_sessionGet {id : Bstr} (hknown : CSessionDL.getKey settings id ∈ known) :
    ModuleStays settings known (CSessionManaged.CSessionDL.sessionGet host settings id) x :=
  StoreView.ActsWithin.read
    (v := fun y : HttpExchange host.names =>
      CSessionManaged.CSessionDL.sessionFound host settings y.database id)
    (f := fun found y => (found, y.send (.stringGet (CSessionDL.getKey settings id))))
    (fun A hA d => sessionFound_congr
      (Set.piecewise_eq_of_mem A x.database d (hA _ (owns_of_known hknown))))
    (moduleStays_send _ fun key hkey => by
      rw [List.mem_singleton.mp hkey]
      exact owns_of_known hknown)

/-- INTERNAL: a session starts under an id that is known, or that has just been drawn. -/
theorem moduleStays_startSession {r : HttpRequest} {id : Bstr} {old : Option Bstr} {n : ℕ}
    (hid : CSessionDL.getKey settings id ∈ known ∨
      n = 1 ∧ CSessionDL.getKey settings id = drawnKey host.toManagedHost settings x.drawn)
    (hold : ∀ o ∈ old, CSessionDL.getKey settings o ∈ known)
    (items : Option (Model.CSessionDL.PersistMetaData × SessionStateItemCollection host.names)) :
    ModuleStays settings known (fun y => ISPSessionModule.startSession settings r id old items
      { y with drawn := y.drawn + n }) x := by
  simp only [startSession_eq]
  cases r.headersWritten || !Model.ISPSessionIDManager.validate id with
  | true =>
    exact StoreView.actsWithin_step _ (fun _ => rfl) rfl (Nat.le_add_right _ _) fun _ h => .inl h
  | false =>
    change ModuleStays settings known (fun y => ((.ok () : NetRun Unit),
      started settings r id old items { y with drawn := y.drawn + n })) x
    have hreach : ∀ y : HttpExchange host.names, y.drawn = x.drawn + n →
        CSessionDL.getKey settings id ∈
          (moduleView settings known).Reach (drawnKey host.toManagedHost settings) x y := by
      intro y hy
      rcases hid with hid | ⟨rfl, hid⟩
      · exact .inl (owns_of_known hid)
      · exact .inr ⟨x.drawn, Nat.le_refl _, (Nat.lt_succ_self x.drawn).trans_eq hy.symm, hid.symm⟩
    have howns : ∀ y : HttpExchange host.names, y.drawn = x.drawn + n →
        knownIds y = id :: id :: old.toList → ∀ key, (moduleView settings known).owns y key →
          key ∈ (moduleView settings known).Reach (drawnKey host.toManagedHost settings) x y := by
      rintro y hy hids key (hkey | ⟨i, hi, rfl⟩)
      · exact .inl (owns_of_known hkey)
      · rw [hids, List.mem_cons, List.mem_cons] at hi
        rcases hi with rfl | rfl | hi
        · exact hreach y hy
        · exact hreach y hy
        · exact .inl (owns_of_known (hold i (Option.mem_toList.mp hi)))
    have hdrawn : (started settings r id old items { x with drawn := x.drawn + n }).drawn =
        x.drawn + n := by
      cases items with
      | some p => rfl
      | none =>
        unfold started
        dsimp only
        split
        · rfl
        · rfl
    have hids : knownIds (started settings r id old items { x with drawn := x.drawn + n }) =
        id :: id :: old.toList := by
      cases items with
      | some p => rfl
      | none =>
        unfold started
        dsimp only
        split
        · rfl
        · rfl
    refine ⟨(Nat.le_add_right x.drawn n).trans_eq hdrawn.symm, howns _ hdrawn hids,
      fun A hA d => ?_⟩
    have hin : CSessionDL.getKey settings id ∈ A := hA (hreach _ hdrawn)
    cases items with
    | some p => rfl
    | none =>
      refine Prod.ext rfl ?_
      unfold started
      dsimp only
      split
      · exact congrArg (fun s : Keyspace => ({ CSessionManaged.CSessionDL.sessionInsert settings id
            (CSessionManaged.CSessionDL.metaData settings (sessionTimeout settings) 0)
            { x with cookie := some id, drawn := x.drawn + n } with
          database := s
          state := some (ISPSessionModule.container r id old _ .new true) } :
          HttpExchange host.names))
          (setExpiring_piecewise hin _ _)
      · rfl

/-- INTERNAL: the part of `OnAcquireRequestState` behind `SessionGet`. -/
theorem moduleStays_acquire {r : HttpRequest} {sessionID : Option Bstr}
    (hknown : ∀ id ∈ sessionID, CSessionDL.getKey settings id ∈ known)
    (items : Option (Model.CSessionDL.PersistMetaData × SessionStateItemCollection host.names)) :
    ModuleStays settings known (ISPSessionModule.acquire host settings r sessionID items) x := by
  -- the id that is drawn depends on the numbers drawn so far
  have hnew : ∀ old : Option Bstr, (∀ o ∈ old, CSessionDL.getKey settings o ∈ known) →
      ModuleStays settings known (fun y => ISPSessionModule.startSession settings r
        (Model.ISPSessionIDManager.guidToHex (host.random y.drawn)) old items
        { y with drawn := y.drawn + 1 }) x := fun old hold =>
    StoreView.ActsWithin.read (v := fun y : HttpExchange host.names => y.drawn)
      (f := fun k y => ISPSessionModule.startSession settings r
        (Model.ISPSessionIDManager.guidToHex (host.random k)) old items
        { y with drawn := y.drawn + 1 })
      (fun _ _ _ => rfl) (moduleStays_startSession (.inr ⟨rfl, rfl⟩) hold items)
  cases sessionID with
  | none => exact hnew none fun o ho => by cases ho
  | some id =>
    cases hliquid : liquid settings with
    | true =>
      refine StoreView.ActsWithin.congr (hnew (some id) hknown) fun y => ?_
      rw [acquire_eq, ISPSessionModule.chooseSessionID, hliquid]
      rfl
    | false =>
      have hsame : ModuleStays settings known (fun y => ISPSessionModule.startSession settings r id
          none items { y with drawn := y.drawn + 0 }) x :=
        moduleStays_startSession (.inl (hknown id rfl)) (fun o ho => by cases ho) items
      refine StoreView.ActsWithin.congr hsame fun y => ?_
      rw [acquire_eq, ISPSessionModule.chooseSessionID, hliquid]
      rfl

/-- INTERNAL: `OnReleaseRequestState` of an abandoned session, up to its last command. -/
def abandoned (settings : SessionAppSettings) (id : Bstr) (present : Bool)
    (x : HttpExchange host.names) :
    NetRun (Option (ModulePhase host.names)) × HttpExchange host.names :=
  let key := CSessionDL.getKey settings id
  let asked := (ISPSessionIDManager.removeSessionID x).send (.keyExists key)
  if present then (.ok (some (.last (.keyDelete key))), asked)
  else (.ok none, { asked with state := none })

/-- INTERNAL: `OnReleaseRequestState` of this session, up to its last command. -/
def released (host : HttpHost) (settings : SessionAppSettings) (x : HttpExchange host.names)
    (state : ISPHttpSessionStateContainer host.names) :
    NetRun (Option (ModulePhase host.names)) × HttpExchange host.names :=
  if state.IsAbandoned then
    abandoned settings state.SessionID
      (x.database (CSessionDL.getKey settings state.SessionID)).isSome x
  else
    match ISPSessionModule.saveCommand host settings state with
    | .error e => (.error e, x)
    | .ok c => (.ok (some (.last c)),
        CSessionManaged.CSessionDL.moveFrom settings state.oldSessionId state.SessionID x)

/-- INTERNAL: the `RENAME` of `SessionSave`. -/
theorem moduleStays_moveFrom {old : Option Bstr} {id : Bstr} (r : α)
    (hid : (moduleView settings known).owns x (CSessionDL.getKey settings id))
    (hold : ∀ o ∈ old, (moduleView settings known).owns x (CSessionDL.getKey settings o)) :
    ModuleStays settings known (fun y =>
      (r, CSessionManaged.CSessionDL.moveFrom settings old id y)) x := by
  cases old with
  | none => exact StoreView.actsWithin_answer r
  | some old =>
    by_cases hmoves : old ≠ [] ∧ id ≠ old
    · have hsent : ModuleStays settings known (fun y => (r, y.send
          (.keyRename (CSessionDL.getKey settings old) (CSessionDL.getKey settings id)))) x := by
        refine moduleStays_send r fun key hkey => ?_
        rcases List.mem_cons.mp hkey with rfl | hkey
        · exact hold old rfl
        · rw [List.mem_singleton.mp hkey]
          exact hid
      refine StoreView.ActsWithin.congr hsent fun y => ?_
      rw [CSessionManaged.CSessionDL.moveFrom, if_pos hmoves]
    · refine (StoreView.actsWithin_answer r).congr fun y => ?_
      rw [CSessionManaged.CSessionDL.moveFrom, if_neg hmoves]

/-- INTERNAL: a session is released, up to the last command. -/
theorem moduleStays_released {state : ISPHttpSessionStateContainer host.names}
    (hstate : x.state = some state) :
    ModuleStays settings known (fun y => released host settings y state) x := by
  have hids : ∀ id ∈ state.SessionID :: state.oldSessionId.toList, id ∈ knownIds x := by
    intro id hid
    rw [knownIds, hstate]
    exact List.mem_append_right _ hid
  have hkey : (moduleView settings known).owns x (CSessionDL.getKey settings state.SessionID) :=
    owns_of_knownIds (hids _ List.mem_cons_self)
  cases habandoned : state.IsAbandoned with
  | true =>
    have hasked : ∀ present : Bool, ModuleStays settings known
        (abandoned settings state.SessionID present) x := by
      intro present
      cases present with
      | true =>
        exact moduleStays_step _ (fun _ => rfl) rfl rfl fun id hid => List.mem_append_right _ hid
      | false => exact moduleStays_step _ (fun _ => rfl) rfl rfl fun id hid => by cases hid
    have hread : ModuleStays settings known _ x := StoreView.ActsWithin.read
      (v := fun y : HttpExchange host.names =>
        (y.database (CSessionDL.getKey settings state.SessionID)).isSome)
      (f := abandoned settings state.SessionID)
      (fun A hA d => congrArg Option.isSome (Set.piecewise_eq_of_mem A x.database d (hA _ hkey)))
      (hasked _)
    refine hread.congr fun y => ?_
    rw [released, if_pos habandoned]
  | false =>
    cases hcommand : ISPSessionModule.saveCommand host settings state with
    | error e =>
      refine StoreView.ActsWithin.congr
        (StoreView.actsWithin_answer (.error e : NetRun (Option (ModulePhase host.names))))
        fun y => ?_
      rw [released, if_neg (Bool.eq_false_iff.mp habandoned), hcommand]
    | ok c =>
      have hold : ∀ o ∈ state.oldSessionId,
          (moduleView settings known).owns x (CSessionDL.getKey settings o) := fun o ho =>
        owns_of_knownIds (hids o (List.mem_cons_of_mem _ (Option.mem_toList.mpr ho)))
      have hmoved : ModuleStays settings known _ x :=
        moduleStays_moveFrom (.ok (some (.last c)) : NetRun (Option (ModulePhase host.names)))
          hkey hold
      refine hmoved.congr fun y => ?_
      rw [released, if_neg (Bool.eq_false_iff.mp habandoned), hcommand]

/-- INTERNAL: `OnReleaseRequestState` up to its last command. -/
theorem moduleStays_beginRelease {r : HttpRequest} :
    ModuleStays settings known (ISPSessionModule.beginRelease host settings r) x := by
  by_cases hmode : r.sessionMode = .False
  · refine (StoreView.actsWithin_answer (.ok none : NetRun (Option (ModulePhase host.names)))).congr
      fun y => ?_
    rw [ISPSessionModule.beginRelease, if_pos hmode]
  · have hreleased : ModuleStays settings known _ x :=
      StoreView.ActsWithin.read (v := fun y : HttpExchange host.names => y.state)
        (f := fun state y => state.elim (.error .nullReference, y) (released host settings y))
        (fun _ _ _ => rfl) (by
          cases hstate : x.state with
          | none => exact StoreView.actsWithin_answer _
          | some state => exact moduleStays_released hstate)
    refine hreleased.congr fun y => ?_
    rw [ISPSessionModule.beginRelease, if_neg hmode]
    cases y.state with
    | none => rfl
    | some state => rfl

/-- INTERNAL: `OnAcquireRequestState` up to its first command. -/
theorem moduleStays_beginAcquire {r : HttpRequest} (hquery : r.query = none)
    (hknown : ∀ id ∈ r.cookie, CSessionDL.getKey settings id ∈ known) :
    ModuleStays settings known (ISPSessionModule.beginAcquire host settings r) x := by
  by_cases hmode : r.sessionMode = .False
  · refine (StoreView.actsWithin_answer (.page : ModulePhase host.names)).congr fun y => ?_
    rw [ISPSessionModule.beginAcquire, if_pos hmode]
  · refine ((moduleStays_getSessionID hquery hknown).mapAnswer ModulePhase.asked).congr fun y => ?_
    rw [ISPSessionModule.beginAcquire, if_neg hmode]

/-- The keys of the ids that a request knows by where it stands. -/
def phaseKeys {names : NetNames} (settings : SessionAppSettings) : ModulePhase names → Set Bytes
  | .asked id | .found id _ => {key | ∃ i ∈ id, CSessionDL.getKey settings i = key}
  | .page => ∅
  | .last c => {key | key ∈ c.touched}

/-- **Whatever a request does next stays with its own records.** -/
theorem moduleStays_proceed {r : HttpRequest} (phase : ModulePhase host.names) :
    ModuleStays settings (phaseKeys settings phase)
      (ISPSessionModule.proceed host settings r phase) x := by
  cases phase with
  | asked id =>
    cases id with
    | none => exact StoreView.actsWithin_answer _
    | some id =>
      have hgot : ModuleStays settings
          (phaseKeys settings (.asked (some id) : ModulePhase host.names))
          (CSessionManaged.CSessionDL.sessionGet host settings id) x :=
        moduleStays_sessionGet ⟨id, rfl, rfl⟩
      refine (hgot.mapAnswer fun found => found.map fun items =>
        some (.found (some id) items)).congr fun y => ?_
      rw [ISPSessionModule.proceed]
      cases CSessionManaged.CSessionDL.sessionGet host settings id y with
      | mk found z =>
        cases found with
        | error e => rfl
        | ok items => rfl
  | found id items =>
    have hknown : ∀ i ∈ id, CSessionDL.getKey settings i ∈ phaseKeys settings (.found id items) :=
      fun i hi => ⟨i, hi, rfl⟩
    have hacquired : ModuleStays settings (phaseKeys settings (.found id items))
        (ISPSessionModule.acquire host settings r id items) x := moduleStays_acquire hknown items
    refine (hacquired.mapAnswer fun result => result.map fun _ => some .page).congr fun y => ?_
    rw [ISPSessionModule.proceed]
    cases ISPSessionModule.acquire host settings r id items y with
    | mk result z =>
      cases result with
      | error e => rfl
      | ok u => rfl
  | page => exact moduleStays_beginRelease
  | last c =>
    have hsent : ModuleStays settings
        (phaseKeys settings (.last c : ModulePhase host.names)) (fun y => ((), y.send c)) x :=
      moduleStays_send () fun key hkey => owns_of_known hkey
    exact hsent.before (moduleStays_step (g := fun y => { y with state := none }) _ (fun _ => rfl)
      rfl rfl fun id hid => List.mem_append_left _ (by simpa [knownIds] using hid))

/-- INTERNAL: `SessionSave` writes under the id of the session. -/
theorem touched_saveCommand {state : ISPHttpSessionStateContainer host.names} {c : SessionCommand}
    (h : ISPSessionModule.saveCommand host settings state = .ok c) :
    c.touched = [CSessionDL.getKey settings state.SessionID] := by
  unfold ISPSessionModule.saveCommand at h
  dsimp only at h
  split at h
  · obtain rfl := Except.ok.inj h
    rfl
  · cases hcontents : PersistUtil.localContents host.strings host.runtime state.Items with
    | error e =>
      rw [hcontents] at h
      cases h
    | ok out =>
      rw [hcontents] at h
      obtain rfl := Except.ok.inj h
      rfl

/-- INTERNAL: so does the last command of every release. -/
theorem phaseKeys_released {state : ISPHttpSessionStateContainer host.names}
    {phase : ModulePhase host.names} (h : (released host settings x state).1 = .ok (some phase)) :
    phaseKeys settings phase = {CSessionDL.getKey settings state.SessionID} := by
  unfold released at h
  split at h
  · cases hpresent : (x.database (CSessionDL.getKey settings state.SessionID)).isSome with
    | true =>
      rw [hpresent] at h
      obtain rfl := Option.some.inj (Except.ok.inj h)
      exact Set.ext fun key => List.mem_singleton
    | false =>
      rw [hpresent] at h
      cases h
  · cases hcommand : ISPSessionModule.saveCommand host settings state with
    | error e =>
      rw [hcommand] at h
      cases h
    | ok c =>
      rw [hcommand] at h
      obtain rfl := Option.some.inj (Except.ok.inj h)
      refine Set.ext fun key => ?_
      change key ∈ c.touched ↔ _
      rw [touched_saveCommand hcommand]
      exact List.mem_singleton

/-- INTERNAL: where a request stands next brings no other ids. -/
theorem phaseKeys_proceed {r : HttpRequest} {phase phase' : ModulePhase host.names}
    (h : (ISPSessionModule.proceed host settings r phase x).1 = .ok (some phase')) {key : Bytes}
    (hkey : key ∈ phaseKeys settings phase') :
    key ∈ phaseKeys settings phase ∨ ∃ id ∈ knownIds x, CSessionDL.getKey settings id = key := by
  cases phase with
  | asked id =>
    cases id with
    | none =>
      obtain rfl := Option.some.inj (Except.ok.inj h)
      exact .inl hkey
    | some id =>
      rw [ISPSessionModule.proceed] at h
      cases hgot : CSessionManaged.CSessionDL.sessionGet host settings id x with
      | mk found z =>
        rw [hgot] at h
        cases found with
        | error e => cases h
        | ok items =>
          obtain rfl := Option.some.inj (Except.ok.inj h)
          exact .inl hkey
  | found id items =>
    rw [ISPSessionModule.proceed] at h
    cases hacquired : ISPSessionModule.acquire host settings r id items x with
    | mk result z =>
      rw [hacquired] at h
      cases result with
      | error e => cases h
      | ok u =>
        obtain rfl := Option.some.inj (Except.ok.inj h)
        cases hkey
  | page =>
    rw [ISPSessionModule.proceed, ISPSessionModule.beginRelease] at h
    by_cases hmode : r.sessionMode = .False
    · rw [if_pos hmode] at h
      cases h
    · rw [if_neg hmode] at h
      cases hstate : x.state with
      | none =>
        rw [hstate] at h
        cases h
      | some state =>
        rw [hstate] at h
        have hreleased : (released host settings x state).1 = .ok (some phase') := h
        rw [phaseKeys_released hreleased] at hkey
        refine .inr ⟨state.SessionID, ?_, hkey.symm⟩
        rw [knownIds, hstate]
        exact List.mem_append_right _ List.mem_cons_self
  | last c => cases h

/-- INTERNAL: a request begins with the id of its cookie. -/
theorem phaseKeys_beginAcquire {r : HttpRequest} (hquery : r.query = none) {key : Bytes}
    (hkey : key ∈ phaseKeys settings (ISPSessionModule.beginAcquire host settings r x).1) :
    ∃ id ∈ r.cookie, CSessionDL.getKey settings id = key := by
  unfold ISPSessionModule.beginAcquire at hkey
  split at hkey
  · cases hkey
  · obtain ⟨id, hid, rfl⟩ := hkey
    refine ⟨id, ?_, rfl⟩
    cases htext : ISPSessionIDManager.presentedText settings r with
    | none =>
      rw [htext] at hid
      cases hid
    | some text =>
      rw [htext] at hid
      have htaken : id = text := by
        dsimp only at hid
        split at hid
        · exact (Option.some.inj hid).symm
        · split at hid
          · exact (Option.some.inj hid).symm
          · cases hid
      exact htaken ▸ mem_cookie_of_presentedText hquery htext

end Exchange

/-! ## A browser on the site stays with its own records -/

section Site

variable {host : HttpHost} {settings : SessionAppSettings}
  {t : Turn (SiteBrowser host) Bytes RedisEntry}

/-- The keys of the ids that a request to the module knows between its turns. -/
def pageOwns (settings : SessionAppSettings) (p : PageRequest host.names) (key : Bytes) : Prop :=
  (moduleView settings (phaseKeys settings p.phase)).owns p.exchange key

/-- The keys of the ids that a browser or one of its requests knows. -/
def siteOwns (settings : SessionAppSettings) (q : SiteBrowser host) (key : Bytes) : Prop :=
  ownsKey settings q.browser key ∨ ∃ i p, q.pages i = some p ∧ pageOwns settings p key

/-- An event of a browser stays with the records under the ids that the browser knows. -/
def SiteStays (settings : SessionAppSettings)
    (act : Turn (SiteBrowser host) Bytes RedisEntry → Turn (SiteBrowser host) Bytes RedisEntry)
    (t : Turn (SiteBrowser host) Bytes RedisEntry) : Prop :=
  (turnView (siteOwns settings)).ActsWithin (drawnKey host.toManagedHost settings)
    (fun t => ((), act t)) t

/-- INTERNAL: an event that nothing happens at. -/
theorem siteStays_nothing : SiteStays settings (fun t => t) t := StoreView.actsWithin_answer ()

/-- INTERNAL: an event that depends on the browser. -/
theorem siteStays_agent {β : Type} (v : SiteBrowser host → β)
    (act : β → Turn (SiteBrowser host) Bytes RedisEntry → Turn (SiteBrowser host) Bytes RedisEntry)
    (h : SiteStays settings (act (v t.agent)) t) :
    SiteStays settings (fun t => act (v t.agent) t) t :=
  StoreView.ActsWithin.read (v := fun t : Turn (SiteBrowser host) Bytes RedisEntry => v t.agent)
    (f := fun b t => ((), act b t)) (fun _ _ _ => rfl) h

/-- INTERNAL: an event of the core middleware. -/
theorem siteStays_core {e : BrowserEvent} (hurl : SendsNoUrlId e) : SiteStays settings (fun t =>
    SiteBrowser.coreDone (Browser.act settings (SiteBrowser.coreTurn t) e) t) t := by
  have hinside : StoreView.Inside (turnView (siteOwns settings)) (turnView (ownsKey settings))
      SiteBrowser.coreTurn (fun (_ : Unit) u t => SiteBrowser.coreDone u t) t :=
    ⟨rfl, rfl, fun _ => rfl, fun _ hown => .inl hown, fun _ _ => rfl, fun _ _ _ _ => rfl⟩
  exact hinside.actsWithin (eventStays_act hurl) fun key hown => hown.imp_right .inr

/-- INTERNAL: what a request leaves in its browser. -/
theorem siteOwns_of_update {q : SiteBrowser host} {b : Browser host.toManagedHost} {i : ℕ}
    {r : Option (PageRequest host.names)} {results : List (ℕ × NetRun Unit)} {key : Bytes}
    (h : siteOwns settings (⟨b, Function.update q.pages i r, results⟩ : SiteBrowser host) key) :
    ownsKey settings b key ∨ (∃ p, r = some p ∧ pageOwns settings p key) ∨
      siteOwns settings q key := by
  rcases h with hbrowser | ⟨j, p, hp, hown⟩
  · exact .inl hbrowser
  · dsimp only at hp
    by_cases hj : j = i
    · subst hj
      rw [Function.update_self] at hp
      exact .inr (.inl ⟨p, hp, hown⟩)
    · rw [Function.update_of_ne hj] at hp
      exact .inr (.inr (.inr ⟨j, p, hp, hown⟩))

/-- INTERNAL: what cookies bring. -/
theorem ownsKey_of_cookies {b : Browser host.toManagedHost} {cookies : List Bstr} {key : Bytes}
    (h : ownsKey settings { b with cookies := b.cookies ++ cookies } key) :
    (∃ id ∈ cookies, CSessionDL.getKey settings id = key) ∨ ownsKey settings b key := by
  rcases h with ⟨id, hid, hkey⟩ | hrequests
  · rcases List.mem_append.mp hid with hcookie | hnew
    · exact .inr (.inl ⟨id, hcookie, hkey⟩)
    · exact .inl ⟨id, hnew, hkey⟩
  · exact .inr (.inr hrequests)

/-- INTERNAL: a request at its turn is inside of its browser. -/
theorem inside_page {α : Type} {i : ℕ} {p : PageRequest host.names}
    (hpage : t.agent.pages i = some p)
    {back : α → HttpExchange host.names → Turn (SiteBrowser host) Bytes RedisEntry →
      Turn (SiteBrowser host) Bytes RedisEntry}
    (hdrawn : ∀ r y, (back r y t).drawn = y.drawn)
    (hput : ∀ r y d d', back r { y with database := d } { t with store := d' } =
      { back r y t with store := d }) :
    StoreView.Inside (turnView (siteOwns settings))
      (moduleView settings (phaseKeys settings p.phase)) (fun t => SiteBrowser.resume t p.exchange)
      back t where
  store_out := rfl
  drawn_out := rfl
  out_put _ := rfl
  owns_out _ hown := .inr ⟨i, p, hpage, hown⟩
  drawn_back := hdrawn
  back_put := hput

/-- INTERNAL: a request that is over leaves its cookie. -/
theorem owns_of_ended {i : ℕ} {result : NetRun Unit} {y : HttpExchange host.names} {key : Bytes}
    {known : Set Bytes} (h : siteOwns settings (SiteBrowser.ended t i result y).agent key) :
    (moduleView settings known).owns y key ∨ siteOwns settings t.agent key := by
  rcases siteOwns_of_update h with hbrowser | ⟨p, hp, -⟩ | hold
  · rcases ownsKey_of_cookies hbrowser with ⟨id, hid, rfl⟩ | hbrowser
    · exact .inl (owns_of_knownIds (List.mem_append_left _ hid))
    · exact .inr (.inl hbrowser)
  · cases hp
  · exact .inr hold

/-- INTERNAL: a request that goes on leaves the ids that it knows. -/
theorem owns_of_working {i : ℕ} {r : HttpRequest} {phase : ModulePhase host.names}
    {y : HttpExchange host.names} {key : Bytes} {known : Set Bytes}
    (hphase : key ∈ phaseKeys settings phase → siteOwns settings t.agent key)
    (h : siteOwns settings (SiteBrowser.working t i r phase y).agent key) :
    (moduleView settings known).owns y key ∨ siteOwns settings t.agent key := by
  rcases siteOwns_of_update h with hbrowser | ⟨p, hp, hown⟩ | hold
  · exact .inr (.inl hbrowser)
  · cases hp
    rcases hown with hkey | ⟨id, hid, rfl⟩
    · exact .inr (hphase hkey)
    · exact .inl (owns_of_knownIds hid)
  · exact .inr hold

/-- **A request to the module goes on.** -/
theorem siteStays_proceeded {i : ℕ} {p : PageRequest host.names}
    (hpage : t.agent.pages i = some p) :
    SiteStays settings (fun t => SiteBrowser.proceeded t i p.request
      (ISPSessionModule.proceed host settings p.request p.phase
        (SiteBrowser.resume t p.exchange))) t := by
  have hinside : StoreView.Inside (turnView (siteOwns settings))
      (moduleView settings (phaseKeys settings p.phase)) (fun t => SiteBrowser.resume t p.exchange)
      (fun result y t => SiteBrowser.proceeded t i p.request (result, y)) t := by
    refine inside_page hpage (fun result y => ?_) fun result y d d' => ?_
    · cases result with
      | error e => rfl
      | ok phase => cases phase <;> rfl
    · cases result with
      | error e => rfl
      | ok phase => cases phase <;> rfl
  refine hinside.actsWithin (moduleStays_proceed p.phase) fun key hown => ?_
  cases hresult : (ISPSessionModule.proceed host settings p.request p.phase
      (SiteBrowser.resume t p.exchange)).1 with
  | error e =>
    rw [hresult] at hown
    exact owns_of_ended hown
  | ok phase =>
    rw [hresult] at hown
    cases phase with
    | none => exact owns_of_ended hown
    | some phase =>
      exact owns_of_working (fun hkey => .inr ⟨i, p, hpage, phaseKeys_proceed hresult hkey⟩) hown

/-- INTERNAL: a request to the module begins. -/
theorem siteStays_begin {i : ℕ} {r : HttpRequest} (hquery : r.query = none)
    (hcookie : ∀ id ∈ r.cookie, id ∈ t.agent.browser.cookies) : SiteStays settings (fun t =>
      SiteBrowser.working t i r
        (ISPSessionModule.beginAcquire host settings r (.new t.store t.drawn)).1
        (ISPSessionModule.beginAcquire host settings r (.new t.store t.drawn)).2) t := by
  have hjar : ∀ id ∈ r.cookie, siteOwns settings t.agent (CSessionDL.getKey settings id) :=
    fun id hid => .inl (.inl ⟨id, hcookie id hid, rfl⟩)
  have hinside : StoreView.Inside (turnView (siteOwns settings))
      (moduleView settings {key | ∃ id ∈ r.cookie, CSessionDL.getKey settings id = key})
      (fun t : Turn (SiteBrowser host) Bytes RedisEntry => HttpExchange.new t.store t.drawn)
      (fun phase y t => SiteBrowser.working t i r phase y) t := by
    refine ⟨rfl, rfl, fun _ => rfl, ?_, fun _ _ => rfl, fun _ _ _ _ => rfl⟩
    rintro key (⟨id, hid, rfl⟩ | ⟨id, hid, -⟩)
    · exact hjar id hid
    · cases hid
  refine hinside.actsWithin (moduleStays_beginAcquire hquery fun id hid => ⟨id, hid, rfl⟩)
    fun key hown => owns_of_working (fun hkey => ?_) hown
  obtain ⟨id, hid, rfl⟩ := phaseKeys_beginAcquire hquery hkey
  exact hjar id hid

/-- The query string of a request holds no session id. -/
def SendsNoId : SiteEvent → Prop
  | .core e => SendsNoUrlId e
  | .enter _ r _ => r.query = none
  | _ => True

/-- INTERNAL: an event that only changes what the browser knows. -/
theorem siteStays_browser
    {g : Turn (SiteBrowser host) Bytes RedisEntry → Turn (SiteBrowser host) Bytes RedisEntry}
    (hput : ∀ d, g { t with store := d } = { g t with store := d })
    (hstore : (g t).store = t.store) (hdrawn : (g t).drawn = t.drawn)
    (howns : ∀ key, siteOwns settings (g t).agent key → siteOwns settings t.agent key) :
    SiteStays settings g t :=
  StoreView.actsWithin_step () hput hstore hdrawn.ge fun key hown => .inl (howns key hown)

/-- INTERNAL: the page of a request does something. -/
theorem siteStays_pageCalls {i : ℕ} {c : PageCall} {p : PageRequest host.names}
    (hpage : t.agent.pages i = some p) :
    SiteStays settings (fun t => SiteBrowser.pageCalls t i c p) t := by
  cases hphase : p.phase with
  | page =>
    have hcalled : SiteStays settings (fun t => SiteBrowser.working t i p.request .page
        (runPage [c] (SiteBrowser.resume t p.exchange))) t := by
      refine siteStays_browser (fun _ => rfl) rfl rfl fun key hown => ?_
      have hworking : (moduleView settings ∅).owns
          (runPage [c] (SiteBrowser.resume t p.exchange)) key ∨ siteOwns settings t.agent key :=
        owns_of_working (fun hkey => by cases hkey) hown
      rcases hworking with (hkey | ⟨id, hid, rfl⟩) | hold
      · cases hkey
      · refine .inr ⟨i, p, hpage, owns_of_knownIds ?_⟩
        cases hstate : p.exchange.state with
        | none => simpa [knownIds, runPage, SiteBrowser.resume, hstate] using hid
        | some state =>
          have hkeeps := callsKeep_perform c state
          simpa [knownIds, runPage, SiteBrowser.resume, hstate, hkeeps.SessionID,
            hkeeps.oldSessionId] using hid
      · exact hold
    refine StoreView.ActsWithin.congr hcalled fun t => ?_
    unfold SiteBrowser.pageCalls
    rw [hphase]
  | _ =>
    refine StoreView.ActsWithin.congr siteStays_nothing fun t => ?_
    unfold SiteBrowser.pageCalls
    rw [hphase]

/-- INTERNAL: the page of a request throws. -/
theorem siteStays_pageThrows {i : ℕ} {p : PageRequest host.names}
    (hpage : t.agent.pages i = some p) :
    SiteStays settings (fun t => SiteBrowser.pageThrows t i p) t := by
  cases hphase : p.phase with
  | page =>
    have hthrown : SiteStays settings (fun t => SiteBrowser.ended t i (.error .http)
        (SiteBrowser.resume t p.exchange)) t := by
      refine siteStays_browser (fun _ => rfl) rfl rfl fun key hown => ?_
      exact (owns_of_ended hown).elim (fun hkey => .inr ⟨i, p, hpage, hkey⟩) id
    refine StoreView.ActsWithin.congr hthrown fun t => ?_
    unfold SiteBrowser.pageThrows
    rw [hphase]
  | _ =>
    refine StoreView.ActsWithin.congr siteStays_nothing fun t => ?_
    unfold SiteBrowser.pageThrows
    rw [hphase]

/-- INTERNAL: the browser gets the cookie of a response. -/
theorem siteStays_receives {i : ℕ} {p : PageRequest host.names} (hpage : t.agent.pages i = some p) :
    SiteStays settings (fun t =>
      { t with agent := t.agent.keeping p.exchange.cookie.toList }) t := by
  refine siteStays_browser (fun _ => rfl) rfl rfl fun key hown => ?_
  rcases hown with hbrowser | hpages
  · rcases ownsKey_of_cookies hbrowser with ⟨id, hid, rfl⟩ | hbrowser
    · exact .inr ⟨i, p, hpage, owns_of_knownIds (List.mem_append_left _ hid)⟩
    · exact .inl hbrowser
  · exact .inr hpages

/-- INTERNAL: the record of a request at work is gone. -/
theorem siteStays_gone {i : ℕ} {p : PageRequest host.names} (hpage : t.agent.pages i = some p) :
    SiteStays settings (fun t => p.exchange.state.elim t fun state =>
      SiteBrowser.gone settings t state.SessionID) t := by
  cases hstate : p.exchange.state with
  | none => exact siteStays_nothing
  | some state =>
    have hown : siteOwns settings t.agent (CSessionDL.getKey settings state.SessionID) := by
      refine .inr ⟨i, p, hpage, owns_of_knownIds ?_⟩
      rw [knownIds, hstate]
      exact List.mem_append_right _ List.mem_cons_self
    exact StoreView.actsWithin_write
      (w := fun s => Function.update s (CSessionDL.getKey settings state.SessionID) none) ()
      fun _ hA _ _ => update_piecewise (hA _ hown) none

/-- INTERNAL: an event of a request at work. -/
theorem siteStays_request {i : ℕ} {e : SiteEvent}
    {act : PageRequest host.names → Turn (SiteBrowser host) Bytes RedisEntry →
      Turn (SiteBrowser host) Bytes RedisEntry}
    (hact : ∀ t, SiteBrowser.act settings t e = (t.agent.pages i).elim t fun p => act p t)
    (h : ∀ p, t.agent.pages i = some p → SiteStays settings (act p) t) :
    SiteStays settings (fun t => SiteBrowser.act settings t e) t := by
  rw [funext hact]
  refine siteStays_agent (fun q => q.pages i) (fun r t => r.elim t fun p => act p t) ?_
  cases hpage : t.agent.pages i with
  | none => exact siteStays_nothing
  | some p => exact h p hpage

/-- **Every event of a browser stays with its own records**, unless it sends an id in its URL. -/
theorem siteStays_act {e : SiteEvent} (hurl : SendsNoId e) :
    SiteStays settings (fun t => SiteBrowser.act settings t e) t := by
  cases e with
  | core e => exact siteStays_core hurl
  | enter i r sent =>
    have hbegun : SiteStays settings (fun t => (t.agent.pages i).elim
        (SiteBrowser.working t i { r with cookie := t.agent.browser.cookies[sent]? }
          (ISPSessionModule.beginAcquire host settings
            { r with cookie := t.agent.browser.cookies[sent]? } (.new t.store t.drawn)).1
          (ISPSessionModule.beginAcquire host settings
            { r with cookie := t.agent.browser.cookies[sent]? } (.new t.store t.drawn)).2)
        fun _ => t) t := by
      refine siteStays_agent (fun q => (q.pages i, q.browser.cookies[sent]?))
        (fun known t => known.1.elim
          (SiteBrowser.working t i { r with cookie := known.2 }
            (ISPSessionModule.beginAcquire host settings { r with cookie := known.2 }
              (.new t.store t.drawn)).1
            (ISPSessionModule.beginAcquire host settings { r with cookie := known.2 }
              (.new t.store t.drawn)).2) fun _ => t) ?_
      cases t.agent.pages i with
      | none =>
        exact siteStays_begin (r := { r with cookie := t.agent.browser.cookies[sent]? }) hurl
          fun id hid => List.mem_of_getElem? hid
      | some p => exact siteStays_nothing
    refine StoreView.ActsWithin.congr hbegun fun t => ?_
    dsimp only [SiteBrowser.act]
    cases t.agent.pages i with
    | none => rfl
    | some p => rfl
  | proceed i =>
    refine siteStays_request (i := i) (fun t => ?_) fun p hpage => siteStays_proceeded hpage
    dsimp only [SiteBrowser.act]
    cases t.agent.pages i with
    | none => rfl
    | some p => rfl
  | call i c =>
    refine siteStays_request (i := i) (fun t => ?_) fun p hpage =>
      siteStays_pageCalls (c := c) hpage
    dsimp only [SiteBrowser.act]
    cases t.agent.pages i with
    | none => rfl
    | some p => rfl
  | receive i =>
    refine siteStays_request (i := i) (fun t => ?_) fun p hpage => siteStays_receives hpage
    dsimp only [SiteBrowser.act]
    cases t.agent.pages i with
    | none => rfl
    | some p => rfl
  | throws i =>
    refine siteStays_request (i := i) (fun t => ?_) fun p hpage => siteStays_pageThrows hpage
    dsimp only [SiteBrowser.act]
    cases t.agent.pages i with
    | none => rfl
    | some p => rfl
  | timeUpAtWork i =>
    refine siteStays_request (i := i) (fun t => ?_) fun p hpage => siteStays_gone hpage
    dsimp only [SiteBrowser.act]
    cases t.agent.pages i with
    | none => rfl
    | some p =>
      rw [Option.bind_some, Option.elim_some]
      cases p.exchange.state with
      | none => rfl
      | some state => rfl

end Site

/-! ## Whole runs -/

section Runs

variable {V : Type} [DecidableEq V] {host : HttpHost} {settings : SessionAppSettings}

/-- What browsers do on a site, one event after the other. -/
def siteTraffic (settings : SessionAppSettings) (events : List (V × SiteEvent)) :
    SiteSystem V host :=
  events.foldl (Shared.step (SiteBrowser.act settings)) (SiteSystem.start V host)

/-- What a browser does where nobody else uses the site, with somebody drawing random numbers in
between. -/
def siteVisits (settings : SessionAppSettings) (host : HttpHost) (es : List (SiteEvent ⊕ ℕ)) :
    Turn (SiteBrowser host) Bytes RedisEntry :=
  es.foldl (Turn.alone (SiteBrowser.act settings)) ⟨fun _ => none, 0, .new host⟩

/-- The browser is, and its records are, what these events make of them there. -/
def IsUndisturbed (settings : SessionAppSettings) (own : List SiteEvent) (σ : SiteSystem V host)
    (v : V) : Prop :=
  ∃ es : List (SiteEvent ⊕ ℕ), es.filterMap Sum.getLeft? = own ∧
    (siteVisits settings host es).agent = σ.agent v ∧
    ∀ key, siteOwns settings (σ.agent v) key → (siteVisits settings host es).store key = σ.store key

/-- **Browsers on a site of both components do not notice each other**: in every run of any number
of browsers, with any number of requests of each of them at work at the same time behind the core
middleware and behind the module, every browser is what its own events make of it alone. -/
theorem site_isolated {events : List (V × SiteEvent)} (hurl : ∀ e ∈ events, SendsNoId e.2)
    {σ : SiteSystem V host} (hrun : siteTraffic settings events = σ)
    (hids : Set.InjOn host.random {k | k < σ.drawn}) (v : V) :
    IsUndisturbed settings (Shared.ownEvents v events) σ v := by
  subst hrun
  have hnew : ∀ key, ¬ siteOwns settings (SiteBrowser.new host) key := by
    rintro key ((⟨id, hid, -⟩ | ⟨i, x, hx, -⟩) | ⟨i, p, hp, -⟩)
    · cases hid
    · cases hx
    · cases hp
  exact Shared.apart_alone (fun e he t => siteStays_act (hurl e he)) (fun _ => rfl)
    (fun _ => hnew) (drawnKey_injOn hids) v

end Runs

/-! ## Two browsers at both components -/

/-- A request to a page of ASP.NET that uses the session. -/
def sessionPage : HttpRequest where
  query := none
  cookie := none
  sessionMode := .True
  headersWritten := false

/-- Two browsers set an item of the same name at the same time behind the module, and the first one
reads it behind the core middleware. -/
def twoComponents : List (ℕ × SiteEvent) :=
  [(0, .enter 0 sessionPage 0), (1, .enter 0 sessionPage 0), (0, .proceed 0), (1, .proceed 0),
    (0, .proceed 0), (1, .proceed 0), (0, .call 0 (.set [66] (.primitive .int32 7))),
    (1, .call 0 (.set [66] (.primitive .int32 9))), (0, .proceed 0), (1, .proceed 0),
    (1, .proceed 0), (0, .proceed 0), (0, .core (.enter 1 [] 0)),
    (0, .core (.call 1 (.items (.getName [66]))))]

/-- Neither of them notices the other one. -/
theorem twoComponents_isolated :
    IsUndisturbed sampleSettings (Shared.ownEvents 0 twoComponents)
      (siteTraffic sampleSettings twoComponents : SiteSystem ℕ sampleHttpHost) 0 ∧
    IsUndisturbed sampleSettings (Shared.ownEvents 1 twoComponents)
      (siteTraffic sampleSettings twoComponents : SiteSystem ℕ sampleHttpHost) 1 := by
  have hurl : ∀ e ∈ twoComponents, SendsNoId e.2 := by
    intro e he
    simp only [twoComponents, List.mem_cons, List.not_mem_nil, or_false] at he
    rcases he with rfl | rfl | rfl | rfl | rfl | rfl | rfl | rfl | rfl | rfl | rfl | rfl | rfl | rfl
    · rfl
    · rfl
    · trivial
    · trivial
    · trivial
    · trivial
    · trivial
    · trivial
    · trivial
    · trivial
    · trivial
    · trivial
    · rfl
    · trivial
  have hdrawn :
      (siteTraffic sampleSettings twoComponents : SiteSystem ℕ sampleHttpHost).drawn = 2 := by
    decide +kernel
  have hids : Set.InjOn sampleHttpHost.random
      {k | k < (siteTraffic sampleSettings twoComponents : SiteSystem ℕ sampleHttpHost).drawn} := by
    rw [hdrawn]
    exact sampleHost_random_injOn
  exact ⟨site_isolated hurl rfl hids 0, site_isolated hurl rfl hids 1⟩

example : numbersSeen
    ((siteTraffic sampleSettings twoComponents : SiteSystem ℕ sampleHttpHost).agent 0).browser =
      [7] := by
  decide +kernel

end IspSession.Analysis
