import IspSession.Model.BrowserTraffic
import IspSession.Analysis.UrlIds

/-!
# Browsers do not notice each other

A request stays with the records under its own ids: the one its cookie names, and those it draws.
So whatever other browsers do between the turns of its requests, a browser is always what its own
events make of it where nobody else uses the store, and the pages see nothing else either
(`browsers_isolated`). An id in a query string is what a browser must not send.
-/

set_option autoImplicit false

namespace IspSession.Analysis

open IspSession.Library IspSession.Model

open scoped Classical

/-! ## Commands on records of its own -/

section Commands

variable {A : Set Bytes} {s d : Keyspace} {k k' : Bytes}

/-- INTERNAL: an entry under one of the keys. -/
theorem update_piecewise (hk : k ∈ A) (entry : Option RedisEntry) :
    Function.update (A.piecewise s d) k entry = A.piecewise (Function.update s k entry) d := by
  funext key
  by_cases hkey : key = k
  · subst hkey
    rw [Function.update_self, Set.piecewise_eq_of_mem _ _ _ hk, Function.update_self]
  · rw [Function.update_of_ne hkey]
    by_cases hin : key ∈ A
    · rw [Set.piecewise_eq_of_mem _ _ _ hin, Set.piecewise_eq_of_mem _ _ _ hin,
        Function.update_of_ne hkey]
    · rw [Set.piecewise_eq_of_notMem _ _ _ hin, Set.piecewise_eq_of_notMem _ _ _ hin]

/-- INTERNAL: `RENAME` between two of them. -/
theorem rename_piecewise (hk : k ∈ A) (hk' : k' ∈ A) :
    Keyspace.rename (A.piecewise s d) k k' = A.piecewise (s.rename k k') d := by
  unfold Keyspace.rename
  rw [Set.piecewise_eq_of_mem _ _ _ hk]
  cases s k with
  | none => rfl
  | some entry =>
    dsimp only
    rw [update_piecewise hk, update_piecewise hk']

/-- INTERNAL: `SET` of one of them. -/
theorem setExpiring_piecewise (hk : k ∈ A) (bytes : Bytes) (ms : ℤ) :
    Keyspace.setExpiring (A.piecewise s d) k bytes ms =
      A.piecewise (s.setExpiring k bytes ms) d := by
  unfold Keyspace.setExpiring
  split
  · rfl
  · exact update_piecewise hk _

/-- INTERNAL: `PEXPIRE` of one of them. -/
theorem pexpire_piecewise (hk : k ∈ A) (ms : ℤ) :
    Keyspace.execute (A.piecewise s d) (.pexpire k ms) =
      A.piecewise (s.execute (.pexpire k ms)) d := by
  simp only [Keyspace.execute]
  rw [Set.piecewise_eq_of_mem _ _ _ hk, update_piecewise hk]

/-- INTERNAL: `DEL` of one of them. -/
theorem del_piecewise (hk : k ∈ A) :
    Keyspace.execute (A.piecewise s d) (.del [k]) = A.piecewise (s.execute (.del [k])) d := by
  funext key
  simp only [Keyspace.execute, List.mem_singleton]
  by_cases hin : key ∈ A
  · rw [Set.piecewise_eq_of_mem _ _ _ hin, Set.piecewise_eq_of_mem _ _ _ hin]
  · have hne : key ≠ k := fun h => hin (h ▸ hk)
    rw [Set.piecewise_eq_of_notMem _ _ _ hin, Set.piecewise_eq_of_notMem _ _ _ hin, if_neg hne]

end Commands

/-! ## A request stays with its own records -/

section Exchange

variable {host : ManagedHost} {settings : SessionAppSettings} {α : Type}

/-- The ids that a request knows. -/
def heldIds (x : Exchange host) : List Bstr :=
  x.session.SessionID :: x.text2 ::
    (x.session.OldSessionID.toList ++ x.managers.map ISPSessionIDManager.id ++ x.cookies)

/-- The Redis key of a session id that is drawn. -/
def drawnKey (host : ManagedHost) (settings : SessionAppSettings) (n : ℕ) : Bytes :=
  CSessionDL.getKey settings (idAt host n)

/-- A request as a state with a store. -/
def exchangeView (settings : SessionAppSettings) : StoreView (Exchange host) Bytes RedisEntry where
  store x := x.database
  put x d := { x with database := d }
  drawn x := x.drawn
  owns x key := ∃ id ∈ heldIds x, CSessionDL.getKey settings id = key
  store_put _ _ := rfl
  put_store _ := rfl
  put_put _ _ _ := rfl
  drawn_put _ _ := rfl
  owns_put _ _ := rfl

/-- A part of a request stays with the records under the ids that the request knows. -/
def StaysWithin (settings : SessionAppSettings) (f : Exchange host → α × Exchange host) : Prop :=
  ∀ x, (exchangeView settings).ActsWithin (drawnKey host settings) f x

/-- INTERNAL: a part behind another one, unless that one throws. -/
theorem StaysWithin.behind {f : Exchange host → NetRun Unit × Exchange host}
    {g : Exchange host → NetRun α × Exchange host} {x : Exchange host} (hg : StaysWithin settings g)
    (hf : (exchangeView settings).ActsWithin (drawnKey host settings) f x) :
    (exchangeView settings).ActsWithin (drawnKey host settings) (fun x =>
      match f x with
      | (.error e, y) => (.error e, y)
      | (.ok (), y) => g y) x := by
  refine hf.andThen hg (fun x e y hrun => ?_) fun x y hrun => ?_
  · rw [hrun]
  · rw [hrun]

/-- INTERNAL: the ids that a request knows are its own. -/
theorem owns_of_mem {x : Exchange host} {id : Bstr} (h : id ∈ heldIds x) :
    (exchangeView settings).owns x (CSessionDL.getKey settings id) := ⟨id, h, rfl⟩

/-- INTERNAL: the id of the session. -/
theorem sessionID_mem (x : Exchange host) : x.session.SessionID ∈ heldIds x := List.mem_cons_self

/-- INTERNAL: the id that the session had before. -/
theorem oldSessionID_mem {x : Exchange host} {old : Bstr} (h : x.session.OldSessionID = some old) :
    old ∈ heldIds x := by
  simp [heldIds, h]

/-- INTERNAL: a part that neither uses Redis nor brings new ids. -/
theorem staysWithin_member {r : Exchange host → α} {t : Exchange host → Exchange host}
    (hr : ∀ x d, r { x with database := d } = r x)
    (hput : ∀ x d, t { x with database := d } = { t x with database := d })
    (hstore : ∀ x, (t x).database = x.database) (hdrawn : ∀ x, (t x).drawn = x.drawn)
    (hids : ∀ x, ∀ id ∈ heldIds (t x), id ∈ heldIds x) :
    StaysWithin settings fun x => (r x, t x) := by
  intro x
  refine StoreView.ActsWithin.read (v := r) (f := fun b x => (b, t x)) (fun _ _ _ => hr x _) ?_
  refine StoreView.actsWithin_step _ (fun d => hput x d) (hstore x) (hdrawn x).ge ?_
  rintro key ⟨id, hid, rfl⟩
  exact .inl (owns_of_mem (hids x id hid))

/-- INTERNAL: a part that only reads the session. -/
theorem staysWithin_read {r : Exchange host → α} (hr : ∀ x d, r { x with database := d } = r x) :
    StaysWithin settings fun x => (r x, x) :=
  staysWithin_member hr (fun _ _ => rfl) (fun _ => rfl) (fun _ => rfl) fun _ _ hid => hid

/-- INTERNAL: a new id for the session. -/
theorem staysWithin_rotate (n : ℕ) :
    StaysWithin settings fun x : Exchange host => ((.ok () : NetRun Unit), x.rotate n) := by
  intro x
  refine StoreView.actsWithin_step _ (fun _ => rfl) rfl (Nat.le_succ x.drawn) ?_
  rintro key ⟨id, hid, rfl⟩
  have hnew : CSessionDL.getKey settings (idAt host x.drawn) ∈
      (exchangeView settings).Reach (drawnKey host settings) x (x.rotate n) :=
    .inr ⟨x.drawn, Nat.le_refl _, Nat.lt_succ_self _, rfl⟩
  have hmanagers : ∀ id ∈ (x.rotate n).managers.map ISPSessionIDManager.id,
      id = idAt host x.drawn ∨ id ∈ x.managers.map ISPSessionIDManager.id := by
    intro id hid
    obtain ⟨m, hm, rfl⟩ := List.mem_map.mp hid
    change m ∈ x.managers.modify n fun m => { m with id := idAt host x.drawn } at hm
    obtain ⟨k, hk, rfl⟩ := List.mem_iff_getElem.mp hm
    rw [List.getElem_modify]
    rw [List.length_modify] at hk
    split
    · exact .inl rfl
    · exact .inr (List.mem_map_of_mem (List.getElem_mem hk))
  have hcases : id = idAt host x.drawn ∨ id ∈ heldIds x := by
    rw [heldIds, List.mem_cons, List.mem_cons, List.mem_append, List.mem_append] at hid
    rcases hid with rfl | rfl | (hold | hmanager) | hcookie
    · exact .inl rfl
    · exact .inr (List.mem_cons_of_mem _ List.mem_cons_self)
    · obtain rfl : x.session.SessionID = id := Option.some.inj (Option.mem_toList.mp hold)
      exact .inr (sessionID_mem x)
    · refine (hmanagers id hmanager).imp_right fun h => ?_
      simp [heldIds, List.mem_map.mp h]
    · exact .inr (by simp [heldIds, show id ∈ x.cookies from hcookie])
  rcases hcases with rfl | hknown
  · exact hnew
  · exact .inl (owns_of_mem hknown)

/-- INTERNAL: `TryEstablishSession` around a load that stays within. -/
theorem staysWithin_tryEstablishSession {load : Exchange host → NetRun Unit × Exchange host}
    (hload : StaysWithin settings load) :
    StaysWithin settings (Exchange.tryEstablishSession load) := by
  have hregistered : StaysWithin settings fun x : Exchange host =>
      ((.ok () : NetRun Unit), registered x) := by
    refine staysWithin_member (fun _ _ => rfl) (fun _ _ => rfl) (fun _ => rfl) (fun _ => rfl)
      fun x id hid => ?_
    have hmanagers : (registered x).managers.map ISPSessionIDManager.id =
        x.managers.map ISPSessionIDManager.id ++ [x.text2] := List.map_append
    rw [heldIds, hmanagers] at hid
    simp only [registered, heldIds, List.mem_cons, List.mem_append, List.not_mem_nil,
      or_false] at hid ⊢
    tauto
  have hrotate : ∀ n, StaysWithin settings fun y : Exchange host =>
      ((.ok (), if y.session.liquid then y.rotate n else y) : NetRun Unit × Exchange host) := by
    intro n x
    have hite := StoreView.ActsWithin.ite (c := fun y : Exchange host => y.session.liquid)
      (fun _ _ => rfl) ((staysWithin_rotate n : StaysWithin settings _) x)
      (StoreView.actsWithin_answer (.ok () : NetRun Unit))
    refine hite.congr fun y => ?_
    cases y.session.liquid <;> rfl
  intro x
  have hasked : (exchangeView settings).ActsWithin (drawnKey host settings)
      (fun x : Exchange host => (match load (registered x) with
      | (.error e, y) => (.error e, y)
      | (.ok (), y) => (.ok (), if y.session.liquid then y.rotate x.managers.length else y) :
        NetRun Unit × Exchange host)) x :=
    StoreView.ActsWithin.read (v := fun x : Exchange host => x.managers.length)
      (f := fun n x => (match load (registered x) with
        | (.error e, y) => (.error e, y)
        | (.ok (), y) => (.ok (), if y.session.liquid then y.rotate n else y) :
          NetRun Unit × Exchange host))
      (fun _ _ _ => rfl)
      ((hrotate x.managers.length).behind ((hregistered x).before (hload (registered x))))
  rw [funext (tryEstablishSession_eq load)]
  exact StoreView.ActsWithin.ite (fun _ _ => rfl) (StoreView.actsWithin_answer _)
    (StoreView.ActsWithin.ite (fun _ _ => rfl) hasked (hregistered x))

/-- INTERNAL: `SessionGetAsync` reads the record of the session. -/
theorem sessionGetAsync_amid {x : Exchange host} {A : Set Bytes}
    (hA : ∀ key, (exchangeView settings).owns x key → key ∈ A) (d : Keyspace) :
    CSessionDL.sessionGetAsync host settings ((exchangeView settings).amid A d x).database
        x.session.SessionID =
      CSessionDL.sessionGetAsync host settings x.database x.session.SessionID := by
  have hsame : ((exchangeView settings).amid A d x).database
      (CSessionDL.getKey settings x.session.SessionID) =
        x.database (CSessionDL.getKey settings x.session.SessionID) :=
    StoreView.store_amid_of_mem (V := exchangeView settings)
      (hA _ (owns_of_mem (sessionID_mem x)))
  unfold CSessionDL.sessionGetAsync
  rw [hsame]

/-- INTERNAL: `LoadAsync` with managers that stay within. -/
theorem staysWithin_loadAsync {establish : Exchange host → NetRun Unit × Exchange host}
    (hestablish : StaysWithin settings establish) :
    StaysWithin settings (Exchange.loadAsync settings establish) := by
  have hinit : ∀ items, StaysWithin settings fun x : Exchange host =>
      ((.ok () : NetRun Unit), { x with session := x.session.initItems items }) := by
    intro items
    refine staysWithin_member (fun _ _ => rfl) (fun _ _ => rfl) (fun _ => rfl) (fun _ => rfl)
      fun x id hid => ?_
    cases items with
    | none => exact hid
    | some record => exact hid
  have hmark : StaysWithin settings fun y : Exchange host =>
      ((.ok () : NetRun Unit), { y with session := { y.session with wasLoaded := true } }) :=
    staysWithin_member (fun _ _ => rfl) (fun _ _ => rfl) (fun _ => rfl) (fun _ => rfl)
      fun _ _ hid => hid
  have hbehind : ∀ items, StaysWithin settings (behindGet establish items) :=
    fun items x =>
      hmark.behind (StoreView.ActsWithin.ite (c := fun x => (x.session.initItems items).liquid)
        (fun _ _ => rfl) ((hinit items x).before (hestablish _)) (hinit items x))
  intro x
  have hgot : (exchangeView settings).ActsWithin (drawnKey host settings) (fun x : Exchange host =>
      behindGot establish
        (CSessionDL.sessionGetAsync host settings x.database x.session.SessionID) x) x := by
    refine StoreView.ActsWithin.read
      (v := fun x : Exchange host =>
        CSessionDL.sessionGetAsync host settings x.database x.session.SessionID)
      (f := behindGot establish) (fun A hA d => sessionGetAsync_amid hA d) ?_
    cases CSessionDL.sessionGetAsync host settings x.database x.session.SessionID with
    | error e => exact StoreView.actsWithin_answer _
    | ok items => exact hbehind items x
  exact StoreView.ActsWithin.ite (fun _ _ => rfl) (StoreView.actsWithin_answer _) hgot

/-- INTERNAL: the two of them together. -/
theorem staysWithin_establishAt (depth : ℕ) :
    StaysWithin settings
      (Exchange.establishAt settings depth : Exchange host → NetRun Unit × Exchange host) := by
  induction depth with
  | zero => exact fun _ => StoreView.actsWithin_answer _
  | succ depth ih => exact staysWithin_tryEstablishSession (staysWithin_loadAsync ih)

/-- INTERNAL: `CheckLoad`. -/
theorem staysWithin_checkLoad : StaysWithin settings
    (Exchange.checkLoad settings : Exchange host → NetRun Unit × Exchange host) := by
  intro x
  refine StoreView.ActsWithin.ite (fun _ _ => rfl) (StoreView.actsWithin_answer _)
    (StaysWithin.behind (staysWithin_member
        (t := fun y : Exchange host => if y.session.IsNewSession then y
          else { y with session := { y.session with wasLoaded := true } })
        (fun _ _ => rfl) (fun y d => ?_) (fun y => ?_) (fun y => ?_) fun y id hid => ?_)
      (staysWithin_establishAt 2 x))
  · show (if y.session.IsNewSession then _ else _) = _
    split
    · rfl
    · rfl
  · split
    · rfl
    · rfl
  · split
    · rfl
    · rfl
  · split at hid
    · exact hid
    · exact hid

/-- INTERNAL: `SessionSave` of contents that cannot be made. -/
theorem sessionSaveAsync_of_error {state : StateItemCollection host.strings NetValue}
    {e : NetException}
    (h : PersistUtil.localContents host.runtime state = .error e) (database : Keyspace)
    (m : CSessionDL.PersistMetaData) (id : Bstr) (oldId : Option Bstr) :
    CSessionDL.sessionSaveAsync host settings database state m id oldId = (.error e, database) := by
  unfold CSessionDL.sessionSaveAsync
  rw [h]

/-- INTERNAL: `SessionSave` of these contents. -/
theorem sessionSaveAsync_of_contents {state : StateItemCollection host.strings NetValue}
    {bytes : Bytes} {zLen : ℕ}
    (h : PersistUtil.localContents host.runtime state = .ok (bytes, zLen))
    (database : Keyspace) (m : CSessionDL.PersistMetaData) (id : Bstr) (oldId : Option Bstr) :
    CSessionDL.sessionSaveAsync host settings database state m id oldId =
      if state.isReadOnly || !state.dirty then
        (.ok (), if state.isNew then renamed settings database id oldId
          else (renamed settings database id oldId).execute
            (.pexpire (CSessionDL.getKey settings id) (CSessionDL.milliseconds m.Expires)))
      else
        (.ok (), (renamed settings database id oldId).setExpiring (CSessionDL.getKey settings id)
          (CSessionDL.toByteArray { m with ZLen := BitVec.ofNat 32 zLen } ++
            CSessionDL.packed host.deflate settings bytes)
          (CSessionDL.milliseconds m.Expires)) := by
  unfold CSessionDL.sessionSaveAsync
  rw [h]
  cases oldId with
  | none => rfl
  | some old => rfl

/-- INTERNAL: `SessionSave` under ids of its own. -/
theorem sessionSaveAsync_piecewise {A : Set Bytes} {s d : Keyspace}
    (state : StateItemCollection host.strings NetValue) (m : CSessionDL.PersistMetaData) {id : Bstr}
    {oldId : Option Bstr} (hid : CSessionDL.getKey settings id ∈ A)
    (hold : ∀ old, oldId = some old → CSessionDL.getKey settings old ∈ A) :
    CSessionDL.sessionSaveAsync host settings (A.piecewise s d) state m id oldId =
      ((CSessionDL.sessionSaveAsync host settings s state m id oldId).1,
        A.piecewise (CSessionDL.sessionSaveAsync host settings s state m id oldId).2 d) := by
  have hrenamed : renamed settings (A.piecewise s d) id oldId =
      A.piecewise (renamed settings s id oldId) d := by
    cases oldId with
    | none => rfl
    | some old =>
      rw [renamed, renamed]
      split
      · exact rename_piecewise (hold old rfl) hid
      · rfl
  cases hcontents : PersistUtil.localContents host.runtime state with
  | error e =>
    rw [sessionSaveAsync_of_error hcontents, sessionSaveAsync_of_error hcontents]
  | ok out =>
    obtain ⟨bytes, zLen⟩ := out
    rw [sessionSaveAsync_of_contents hcontents, sessionSaveAsync_of_contents hcontents, hrenamed]
    split
    · split
      · rfl
      · rw [pexpire_piecewise hid]
    · rw [setExpiring_piecewise hid]

/-- INTERNAL: `CommitAsync`. -/
theorem staysWithin_commitAsync : StaysWithin settings
    (Exchange.commitAsync settings : Exchange host → NetRun Unit × Exchange host) := by
  intro x
  have hkeys : ∀ A : Set Bytes, (∀ key, (exchangeView settings).owns x key → key ∈ A) →
      CSessionDL.getKey settings x.session.SessionID ∈ A ∧
        ∀ old, x.session.OldSessionID = some old → CSessionDL.getKey settings old ∈ A :=
    fun A hA => ⟨hA _ (owns_of_mem (sessionID_mem x)),
      fun old hold => hA _ (owns_of_mem (oldSessionID_mem hold))⟩
  refine ⟨?_, ?_, fun A hA d => ?_⟩
  · unfold Exchange.commitAsync
    split
    · exact Nat.le_refl _
    · exact Nat.le_refl _
  · rintro key ⟨id, hid, rfl⟩
    refine .inl (owns_of_mem ?_)
    unfold Exchange.commitAsync at hid
    split at hid
    · exact hid
    · exact hid
  · obtain ⟨hid, hold⟩ := hkeys A fun key hkey => hA (.inl hkey)
    unfold Exchange.commitAsync
    show (if x.session.isAbandoned then _ else _) = _
    split
    · exact congrArg (fun d => ((.ok (), { x with database := d }) : NetRun Unit × Exchange host))
        (del_piecewise hid)
    · dsimp only
      rw [show ((exchangeView settings).amid A d x).database = A.piecewise x.database d from rfl,
        show ((exchangeView settings).amid A d x).session = x.session from rfl,
        sessionSaveAsync_piecewise _ _ hid hold]
      rfl

/-- INTERNAL: the start of the response. -/
theorem staysWithin_startResponse (r : α) :
    StaysWithin settings fun x : Exchange host => (r, x.startResponse) := by
  refine staysWithin_member (fun _ _ => rfl) (fun x d => ?_) (fun x => ?_) (fun x => ?_)
    fun x id hid => ?_
  · unfold Exchange.startResponse
    show (if x.hasStarted then _ else _) = _
    split
    · rfl
    · rfl
  · unfold Exchange.startResponse
    split
    · rfl
    · rfl
  · unfold Exchange.startResponse
    split
    · rfl
    · rfl
  · unfold Exchange.startResponse at hid
    split at hid
    · exact hid
    · simp only [heldIds, List.mem_cons, List.mem_append, List.mem_map, List.mem_filter,
        List.mem_reverse] at hid ⊢
      rcases hid with hid | hid | hid | hcookie | ⟨m, ⟨hm, -⟩, rfl⟩
      · exact .inl hid
      · exact .inr (.inl hid)
      · exact .inr (.inr (.inl hid))
      · exact .inr (.inr (.inr hcookie))
      · exact .inr (.inr (.inl (.inr ⟨m, hm, rfl⟩)))

/-- **Every member of the session stays within.** -/
theorem staysWithin_perform (call : SessionCall) :
    StaysWithin settings fun x : Exchange host => x.perform settings call := by
  have hcheck : StaysWithin settings
      (Exchange.checkLoad settings : Exchange host → NetRun Unit × Exchange host) :=
    staysWithin_checkLoad
  have hset : ∀ f : ISPSession host.strings → ISPSession host.strings,
      (∀ s, (f s).SessionID = s.SessionID) → (∀ s, (f s).OldSessionID = s.OldSessionID) →
      StaysWithin settings fun x : Exchange host =>
        ((.ok .done : NetRun SessionReply), { x with session := f x.session }) := by
    intro f hsession hold
    refine staysWithin_member (r := fun _ => (.ok .done : NetRun SessionReply)) (fun _ _ => rfl)
      (fun _ _ => rfl) (fun _ => rfl) (fun _ => rfl) fun x id hid => ?_
    rw [heldIds, hsession, hold] at hid
    exact hid
  intro x
  cases call with
  | items op =>
    exact StaysWithin.behind (staysWithin_member (fun _ _ => rfl) (fun _ _ => rfl) (fun _ => rfl)
      (fun _ => rfl) fun _ _ hid => hid) (hcheck x)
  | count => exact StaysWithin.behind (staysWithin_read fun _ _ => rfl) (hcheck x)
  | keys => exact StaysWithin.behind (staysWithin_read fun _ _ => rfl) (hcheck x)
  | tryGetValue name => exact StaysWithin.behind (staysWithin_read fun _ _ => rfl) (hcheck x)
  | abandon =>
    exact StaysWithin.behind (staysWithin_member (fun _ _ => rfl) (fun _ _ => rfl) (fun _ => rfl)
      (fun _ => rfl) fun _ _ hid => hid) (hcheck x)
  | loadAsync => exact (staysWithin_loadAsync (staysWithin_establishAt 2) x).mapAnswer _
  | commitAsync => exact (staysWithin_commitAsync x).mapAnswer _
  | startResponse => exact staysWithin_startResponse _ x
  | setTimeout value =>
    exact hset (fun s => { s with timeOut := value }) (fun _ => rfl) (fun _ => rfl) x
  | setLiquid value =>
    exact hset (fun s => { s with liquid := value }) (fun _ => rfl) (fun _ => rfl) x
  | setReEntrance value =>
    exact hset (fun s => { s with reEntrance := value }) (fun _ => rfl) (fun _ => rfl) x
  | getTimeout => exact staysWithin_read (fun _ _ => rfl) x
  | getLiquid => exact staysWithin_read (fun _ _ => rfl) x
  | getReEntrance => exact staysWithin_read (fun _ _ => rfl) x
  | isNewSession => exact staysWithin_read (fun _ _ => rfl) x
  | sessionID => exact staysWithin_read (fun _ _ => rfl) x

/-- INTERNAL: so does the end of the request. -/
theorem staysWithin_leave : StaysWithin settings fun x : Exchange host =>
    (([] : List (NetRun SessionReply)), ISPSessionMiddleWare.leave settings x) :=
  fun x => (staysWithin_commitAsync x).bind (g := fun _ y => ([], y.startResponse))
    (staysWithin_startResponse _ _)

end Exchange

/-! ## A browser stays with its own records -/

section Browsers

variable {host : ManagedHost} {settings : SessionAppSettings}
  {t : Turn (Browser host) Bytes RedisEntry}

/-- The keys of the ids that a browser or one of its requests knows. -/
def ownsKey (settings : SessionAppSettings) (q : Browser host) (key : Bytes) : Prop :=
  (∃ id ∈ q.cookies, CSessionDL.getKey settings id = key) ∨
    ∃ i x, q.requests i = some x ∧ (exchangeView settings).owns x key

/-- An event of a browser stays with the records under the ids that the browser knows. -/
def EventStays (settings : SessionAppSettings)
    (act : Turn (Browser host) Bytes RedisEntry → Turn (Browser host) Bytes RedisEntry)
    (t : Turn (Browser host) Bytes RedisEntry) : Prop :=
  (turnView (ownsKey settings)).ActsWithin (drawnKey host settings) (fun t => ((), act t)) t

/-- INTERNAL: an event that nothing happens at. -/
theorem eventStays_nothing : EventStays settings (fun t => t) t :=
  StoreView.actsWithin_answer ()

/-- INTERNAL: an event of a request at work. -/
theorem eventStays_request {i : ℕ}
    {act : Exchange host → Turn (Browser host) Bytes RedisEntry →
      Turn (Browser host) Bytes RedisEntry}
    (h : ∀ x, t.agent.requests i = some x → EventStays settings (act x) t) :
    EventStays settings (fun t => (t.agent.requests i).elim t fun x => act x t) t := by
  refine StoreView.ActsWithin.read (v := fun t : Turn (Browser host) Bytes RedisEntry =>
    t.agent.requests i) (f := fun r t => ((), r.elim t fun x => act x t)) (fun _ _ _ => rfl) ?_
  cases hrequest : t.agent.requests i with
  | none => exact eventStays_nothing
  | some x => exact h x hrequest

/-- INTERNAL: what a request leaves in its browser. -/
theorem ownsKey_of_update {q : Browser host} {i : ℕ} {r : Option (Exchange host)} {key : Bytes}
    {cookies : List Bstr} {replies : List (ℕ × NetRun SessionReply)}
    (h : ownsKey settings
      (⟨cookies, Function.update q.requests i r, replies⟩ : Browser host) key) :
    (∃ id ∈ cookies, CSessionDL.getKey settings id = key) ∨
      (∃ x, r = some x ∧ (exchangeView settings).owns x key) ∨ ownsKey settings q key := by
  rcases h with hcookie | ⟨j, x, hx, hown⟩
  · exact .inl hcookie
  · dsimp only at hx
    by_cases hj : j = i
    · subst hj
      rw [Function.update_self] at hx
      exact .inr (.inl ⟨x, hx, hown⟩)
    · rw [Function.update_of_ne hj] at hx
      exact .inr (.inr (.inr ⟨j, x, hx, hown⟩))

/-- INTERNAL: a request at its turn is inside of its browser. -/
theorem inside_resume {α : Type} {i : ℕ} {x : Exchange host}
    (hrequest : t.agent.requests i = some x)
    {back : α → Exchange host → Turn (Browser host) Bytes RedisEntry →
      Turn (Browser host) Bytes RedisEntry}
    (hdrawn : ∀ r y, (back r y t).drawn = y.drawn)
    (hput : ∀ r y d d', back r { y with database := d } { t with store := d' } =
      { back r y t with store := d }) :
    StoreView.Inside (turnView (ownsKey settings)) (exchangeView settings)
      (fun t => Browser.resume t x) back t where
  store_out := rfl
  drawn_out := rfl
  out_put _ := rfl
  owns_out _ hown := .inr ⟨i, x, hrequest, hown⟩
  drawn_back := hdrawn
  back_put := hput

/-- INTERNAL: a request does something. -/
theorem eventStays_working {f : Exchange host → List (NetRun SessionReply) × Exchange host}
    (hf : StaysWithin settings f) {i : ℕ} {x : Exchange host}
    (hrequest : t.agent.requests i = some x) :
    EventStays settings (fun t => Browser.working t i (f (Browser.resume t x))) t := by
  have hinside : StoreView.Inside (turnView (ownsKey settings)) (exchangeView settings)
      (fun t => Browser.resume t x) (fun r y t => Browser.working t i (r, y)) t :=
    inside_resume hrequest (fun _ _ => rfl) fun _ _ _ _ => rfl
  refine hinside.actsWithin (hf (Browser.resume t x)) fun key hown => ?_
  rcases ownsKey_of_update hown with hcookie | ⟨y, hy, hown⟩ | hold
  · exact .inr (.inl hcookie)
  · cases hy
    exact .inl hown
  · exact .inr hold

/-- INTERNAL: a request is over. -/
theorem eventStays_ended {i : ℕ} {x : Exchange host} (hrequest : t.agent.requests i = some x) :
    EventStays settings
      (fun t => Browser.ended t i (ISPSessionMiddleWare.leave settings (Browser.resume t x))) t := by
  have hinside : StoreView.Inside (turnView (ownsKey settings)) (exchangeView settings)
      (fun t => Browser.resume t x)
      (fun (_ : List (NetRun SessionReply)) y t => Browser.ended t i y) t :=
    inside_resume hrequest (fun _ _ => rfl) fun _ _ _ _ => rfl
  refine hinside.actsWithin (staysWithin_leave (Browser.resume t x)) fun key hown => ?_
  rcases ownsKey_of_update hown with ⟨id, hid, rfl⟩ | ⟨y, hy, -⟩ | hold
  · rcases List.mem_append.mp hid with hcookie | hsent
    · exact .inr (.inl ⟨id, hcookie, rfl⟩)
    · exact .inl (owns_of_mem (by simp [heldIds, hsent]))
  · cases hy
  · exact .inr hold

/-- INTERNAL: the browser gets the cookies of a response. -/
theorem eventStays_receive {i : ℕ} {x : Exchange host} (hrequest : t.agent.requests i = some x) :
    EventStays settings (fun t =>
      { t with agent := { t.agent with cookies := t.agent.cookies ++ x.cookies } }) t := by
  refine StoreView.actsWithin_step () (fun _ => rfl) rfl (Nat.le_refl _) ?_
  rintro key (⟨id, hid, rfl⟩ | hrequests)
  · rcases List.mem_append.mp hid with hcookie | hsent
    · exact .inl (.inl ⟨id, hcookie, rfl⟩)
    · refine .inl (.inr ⟨i, x, hrequest, owns_of_mem ?_⟩)
      simp [heldIds, hsent]
  · exact .inl (.inr hrequests)

/-- INTERNAL: a record of its own is gone. -/
theorem eventStays_gone {id : Bstr}
    (hown : ownsKey settings t.agent (CSessionDL.getKey settings id)) :
    EventStays settings (fun t => Browser.gone settings t id) t :=
  StoreView.actsWithin_write
    (w := fun s => Function.update s (CSessionDL.getKey settings id) none) ()
    fun _ hA _ _ => update_piecewise (hA _ hown) none

/-- INTERNAL: without an id in the query string a request takes the id of its cookie, if it is
taken at all. -/
theorem getSessionIDAsync_of_noUrl {database : Keyspace} {r : WebRequest}
    (hquery : r.queryValid = false) :
    ISPSessionMiddleWare.getSessionIDAsync settings database r =
      (r.cookie.filter ISPSessionIDManager.validate).bind
        (ISPSessionMiddleWare.accept settings database) := by
  have hnone : urlText settings r = none := by
    unfold urlText
    rw [hquery, Bool.and_false, if_neg Bool.false_ne_true]
    cases r.cookie with
    | none => rfl
    | some httpCookie =>
      dsimp only
      rw [Bool.and_false, if_neg Bool.false_ne_true]
  rw [getSessionIDAsync_eq, hnone, Option.none_or]

/-- INTERNAL: a request in front of its page, with the id that it has taken or a new one. -/
def entering (settings : SessionAppSettings) (database : Keyspace) (drawn : ℕ)
    (taken : Option Bstr) : Exchange host where
  database := database
  session := .new host.strings settings (taken.getD (idAt host drawn)) false
  text2 := taken.getD (idAt host drawn)
  managers := []
  hasStarted := false
  cookies := []
  drawn := if taken.isSome then drawn else drawn + 1

/-- INTERNAL: the ids of such a request. -/
theorem mem_heldIds_entering (database : Keyspace) {drawn : ℕ} {taken : Option Bstr} {id : Bstr}
    (h : id ∈ heldIds (entering settings database drawn taken : Exchange host)) :
    id = taken.getD (idAt host drawn) := by
  have hids : heldIds (entering settings database drawn taken : Exchange host) =
      [taken.getD (idAt host drawn), taken.getD (idAt host drawn)] := rfl
  rw [hids] at h
  rcases h with _ | ⟨_, _ | ⟨_, hnil⟩⟩
  · rfl
  · rfl
  · cases hnil

theorem enter_eq (database : Keyspace) (drawn : ℕ) (r : WebRequest) :
    (ISPSessionMiddleWare.enter settings database drawn r : Exchange host) =
      entering settings database drawn
        (ISPSessionMiddleWare.getSessionIDAsync settings database r) := by
  unfold ISPSessionMiddleWare.enter entering
  cases ISPSessionMiddleWare.getSessionIDAsync settings database r with
  | none => rfl
  | some id => rfl

/-- INTERNAL: a request begins with the id of a cookie, or with a new one. -/
theorem eventStays_entering {i : ℕ} {taken : Option Bstr}
    (htaken : ∀ id ∈ taken, id ∈ t.agent.cookies) : EventStays settings
      (fun t => Browser.working t i ([], entering settings t.store t.drawn taken)) t := by
  refine ⟨?_, fun key hown => ?_, fun A hA d => rfl⟩
  · change t.drawn ≤ if taken.isSome then t.drawn else t.drawn + 1
    split
    · exact Nat.le_refl _
    · exact Nat.le_succ _
  · rcases ownsKey_of_update hown with hcookie | ⟨y, hy, id, hid, rfl⟩ | hold
    · exact .inl (.inl hcookie)
    · cases hy
      obtain rfl := mem_heldIds_entering t.store hid
      cases taken with
      | none => exact .inr ⟨t.drawn, Nat.le_refl _, Nat.lt_succ_self _, rfl⟩
      | some id => exact .inl (.inl ⟨id, htaken id rfl, rfl⟩)
    · exact .inl hold

/-- INTERNAL: a request begins. -/
theorem eventStays_enter {i sent : ℕ} {query : List Bstr}
    (hquery : (⟨query, none⟩ : WebRequest).queryValid = false) :
    EventStays settings (fun t => Browser.working t i ([],
      ISPSessionMiddleWare.enter settings t.store t.drawn ⟨query, t.agent.cookies[sent]?⟩)) t := by
  have hid : ∀ s : Keyspace, ISPSessionMiddleWare.getSessionIDAsync settings s
      ⟨query, t.agent.cookies[sent]?⟩ =
        (t.agent.cookies[sent]?.filter ISPSessionIDManager.validate).bind
          (ISPSessionMiddleWare.accept settings s) := fun s => getSessionIDAsync_of_noUrl hquery
  have hread : (turnView (ownsKey settings)).ActsWithin (drawnKey host settings) _ t :=
    StoreView.ActsWithin.read
    (v := fun t => ISPSessionMiddleWare.getSessionIDAsync settings t.store
      ⟨query, t.agent.cookies[sent]?⟩)
    (f := fun taken t => ((), Browser.working t i ([], entering settings t.store t.drawn taken)))
    (fun A hA d => ?_) (eventStays_entering fun id htaken => ?_)
  · refine hread.congr fun t => ?_
    dsimp only
    rw [enter_eq]
  · -- whether the id is taken depends on the record under it
    change ISPSessionMiddleWare.getSessionIDAsync settings (A.piecewise t.store d)
      ⟨query, t.agent.cookies[sent]?⟩ = _
    rw [hid, hid]
    cases hcookie : t.agent.cookies[sent]?.filter ISPSessionIDManager.validate with
    | none => rfl
    | some text =>
      have hin : CSessionDL.getKey settings text ∈ A :=
        hA _ (.inl ⟨text, List.mem_of_getElem? (Option.filter_eq_some_iff.mp hcookie).1, rfl⟩)
      rw [Option.bind_some, Option.bind_some, ISPSessionMiddleWare.accept,
        ISPSessionMiddleWare.accept, Set.piecewise_eq_of_mem _ _ _ hin]
  · have htaken' : ISPSessionMiddleWare.getSessionIDAsync settings t.store
        ⟨query, t.agent.cookies[sent]?⟩ = some id := htaken
    rw [hid] at htaken'
    obtain ⟨text, htext, haccept⟩ := Option.bind_eq_some_iff.mp htaken'
    obtain rfl := eq_of_accept haccept
    exact List.mem_of_getElem? (Option.filter_eq_some_iff.mp htext).1

/-- The query string of a request holds no session id. -/
def SendsNoUrlId : BrowserEvent → Prop
  | .enter _ query _ => (⟨query, none⟩ : WebRequest).queryValid = false
  | _ => True

/-- **Every event of a browser stays with its own records**, unless it sends an id in its URL. -/
theorem eventStays_act {e : BrowserEvent} (hurl : SendsNoUrlId e) :
    EventStays settings (fun t => Browser.act settings t e) t := by
  cases e with
  | enter i query sent =>
    have hread : (turnView (ownsKey settings)).ActsWithin (drawnKey host settings) _ t :=
      StoreView.ActsWithin.read
      (v := fun t => t.agent.requests i)
      (f := fun r t => ((), r.elim (Browser.working t i ([],
        ISPSessionMiddleWare.enter settings t.store t.drawn ⟨query, t.agent.cookies[sent]?⟩))
          fun _ => t))
      (fun _ _ _ => rfl) (by
        cases t.agent.requests i with
        | none => exact eventStays_enter hurl
        | some x => exact eventStays_nothing)
    refine hread.congr fun t => ?_
    dsimp only [Browser.act]
    cases t.agent.requests i with
    | none => rfl
    | some x => rfl
  | call i c =>
    have hcall : StaysWithin settings fun x : Exchange host =>
        ([(x.perform settings c).1], (x.perform settings c).2) :=
      fun x => (staysWithin_perform c x).mapAnswer fun r => [r]
    refine (eventStays_request (i := i) fun x hx => eventStays_working hcall hx).congr fun t => ?_
    dsimp only [Browser.act]
    cases t.agent.requests i with
    | none => rfl
    | some x => rfl
  | receive i =>
    refine (eventStays_request (i := i) fun x hx => eventStays_receive hx).congr fun t => ?_
    dsimp only [Browser.act]
    cases t.agent.requests i with
    | none => rfl
    | some x => rfl
  | leave i =>
    refine (eventStays_request (i := i) fun x hx => eventStays_ended hx).congr fun t => ?_
    dsimp only [Browser.act]
    cases t.agent.requests i with
    | none => rfl
    | some x => rfl
  | timeUp sent =>
    have hread : (turnView (ownsKey settings)).ActsWithin (drawnKey host settings) _ t :=
      StoreView.ActsWithin.read (v := fun t => t.agent.cookies[sent]?)
      (f := fun cookie t => ((), cookie.elim t fun id => Browser.gone settings t id))
      (fun _ _ _ => rfl) (by
        cases hcookie : t.agent.cookies[sent]? with
        | none => exact eventStays_nothing
        | some id => exact eventStays_gone (.inl ⟨id, List.mem_of_getElem? hcookie, rfl⟩))
    refine hread.congr fun t => ?_
    dsimp only [Browser.act]
    cases t.agent.cookies[sent]? with
    | none => rfl
    | some id => rfl
  | timeUpAtWork i =>
    refine (eventStays_request (i := i) fun x hx =>
      eventStays_gone (.inr ⟨i, x, hx, owns_of_mem (sessionID_mem x)⟩)).congr fun t => ?_
    dsimp only [Browser.act]
    cases t.agent.requests i with
    | none => rfl
    | some x => rfl

end Browsers

/-! ## Whole runs -/

section Runs

variable {V : Type} [DecidableEq V] {host : ManagedHost} {settings : SessionAppSettings}

/-- What browsers do on a site, one event after the other. -/
def traffic (settings : SessionAppSettings) (events : List (V × BrowserEvent)) :
    BrowserSystem V host :=
  events.foldl (Shared.step (Browser.act settings)) (BrowserSystem.start V host)

/-- What a browser does where nobody else uses the site, with somebody drawing random numbers in
between. -/
def visits (settings : SessionAppSettings) (host : ManagedHost) (es : List (BrowserEvent ⊕ ℕ)) :
    Turn (Browser host) Bytes RedisEntry :=
  es.foldl (Turn.alone (Browser.act settings)) ⟨fun _ => none, 0, .new host⟩

/-- The browser is, and its records are, what these events make of them there. -/
def IsAlone (settings : SessionAppSettings) (own : List BrowserEvent) (σ : BrowserSystem V host)
    (v : V) : Prop :=
  ∃ es : List (BrowserEvent ⊕ ℕ), es.filterMap Sum.getLeft? = own ∧
    (visits settings host es).agent = σ.agent v ∧
    ∀ key, ownsKey settings (σ.agent v) key → (visits settings host es).store key = σ.store key

/-- INTERNAL: different random numbers give different keys. -/
theorem drawnKey_injOn {n : ℕ} (h : Set.InjOn host.random {k | k < n}) :
    Set.InjOn (drawnKey host settings) {k | k < n} := by
  intro j hj k hk hkeys
  have hids : idAt host j = idAt host k :=
    getKey_validate_inj (validate_guidToHex _) (validate_guidToHex _) hkeys
  exact h hj hk (guidToHex_inj hids)

/-- **Browsers do not notice each other**: in every run of any number of browsers, with any number
of requests of each of them at work at the same time, every browser is what its own events make of
it alone. -/
theorem browsers_isolated {events : List (V × BrowserEvent)}
    (hurl : ∀ e ∈ events, SendsNoUrlId e.2) {σ : BrowserSystem V host}
    (hrun : traffic settings events = σ) (hids : Set.InjOn host.random {k | k < σ.drawn}) (v : V) :
    IsAlone settings (Shared.ownEvents v events) σ v := by
  subst hrun
  have hnew : ∀ key, ¬ ownsKey settings (Browser.new host) key := by
    rintro key (⟨id, hid, -⟩ | ⟨i, x, hx, -⟩)
    · cases hid
    · cases hx
  exact Shared.apart_alone (fun e he t => eventStays_act (hurl e he)) (fun _ => rfl)
    (fun _ => hnew) (drawnKey_injOn hids) v

end Runs

/-! ## Two browsers at the same time -/

/-- INTERNAL: the first random numbers of the sample host differ. -/
theorem sampleHost_random_injOn : Set.InjOn sampleHost.random {k | k < 2} := by
  intro j hj k hk hsame
  have hnumber := congrArg BitVec.toNat hsame
  rw [show (sampleHost.random j).toNat = j % 2 ^ 64 % 2 ^ 128 from BitVec.toNat_ofNat _ _,
    show (sampleHost.random k).toNat = k % 2 ^ 64 % 2 ^ 128 from BitVec.toNat_ofNat _ _] at hnumber
  change j < 2 at hj
  change k < 2 at hk
  omega

/-- Two browsers set an item of the same name at the same time, and the first one reads it in its
next request. -/
def twoBrowsers : List (ℕ × BrowserEvent) :=
  [(0, .enter 0 [] 0), (1, .enter 0 [] 0), (0, .call 0 setsItem),
    (1, .call 0 (.items (.setName [66] (.primitive .int32 9)))), (0, .leave 0), (1, .leave 0),
    (0, .enter 1 [] 0), (0, .call 1 (.items (.getName [66])))]

/-- Neither of them notices the other one. -/
theorem twoBrowsers_isolated :
    IsAlone sampleSettings (Shared.ownEvents 0 twoBrowsers)
      (traffic sampleSettings twoBrowsers : BrowserSystem ℕ sampleHost) 0 ∧
    IsAlone sampleSettings (Shared.ownEvents 1 twoBrowsers)
      (traffic sampleSettings twoBrowsers : BrowserSystem ℕ sampleHost) 1 := by
  have hurl : ∀ e ∈ twoBrowsers, SendsNoUrlId e.2 := by
    intro e he
    simp only [twoBrowsers, List.mem_cons, List.not_mem_nil, or_false] at he
    rcases he with rfl | rfl | rfl | rfl | rfl | rfl | rfl | rfl
    · rfl
    · rfl
    · trivial
    · trivial
    · trivial
    · trivial
    · rfl
    · trivial
  have hdrawn : (traffic sampleSettings twoBrowsers : BrowserSystem ℕ sampleHost).drawn = 2 := by
    decide +kernel
  have hids : Set.InjOn sampleHost.random
      {k | k < (traffic sampleSettings twoBrowsers : BrowserSystem ℕ sampleHost).drawn} := by
    rw [hdrawn]
    exact sampleHost_random_injOn
  exact ⟨browsers_isolated hurl rfl hids 0, browsers_isolated hurl rfl hids 1⟩

/-- INTERNAL: the numbers among the replies of a browser. -/
def numbersSeen (q : Browser sampleHost) : List ℕ :=
  q.replies.filterMap fun r =>
    match r.2 with
    | .ok (.value (.primitive .int32 bits)) => some bits.toNat
    | _ => none

example : numbersSeen
    ((traffic sampleSettings twoBrowsers : BrowserSystem ℕ sampleHost).agent 0) = [7] := by
  decide +kernel

end IspSession.Analysis
