import IspSession.Analysis.ManagedRecords

/-!
# The lazy load of a managed session

`TryEstablishSession` and `LoadAsync` call each other twice at most, so that `establishAt` is
the same from depth two on (`establishAt_eq`). The first access to a stored session fetches its
record when the response has not started; a liquid session gets two new ids then, one from each
of two managers. After that the members work on the items alone.
-/

set_option autoImplicit false

namespace IspSession.Analysis

open IspSession.Library IspSession.Model

variable {host : ManagedHost} {settings : SessionAppSettings} {x : Exchange host}

/-! ## The depth of the calls -/

/-- INTERNAL: the request after a manager has registered. -/
def registered (x : Exchange host) : Exchange host :=
  { x with managers := x.managers ++ [{ id := x.text2, shouldEstablishSession := !x.hasStarted }] }

/-- INTERNAL: the request after the record has been taken over. -/
def fetched (x : Exchange host)
    (record : CSessionDL.PersistMetaData × StateItemCollection host.strings NetValue) :
    Exchange host :=
  { x with session := x.session.initItems (some record) }

/-- INTERNAL: `TryEstablishSession`, by the request with its manager. -/
theorem tryEstablishSession_eq (loadAsync : Exchange host → NetRun Unit × Exchange host)
    (x : Exchange host) :
    Exchange.tryEstablishSession loadAsync x =
      if x.hasStarted && host.lateCallbackThrows then (.error .invalidOperation, x)
      else if !x.hasStarted && !x.session.IsNewSession then
        match loadAsync (registered x) with
        | (.error e, x) => (.error e, x)
        | (.ok (), y) => (.ok (), if y.session.liquid then y.rotate x.managers.length else y)
      else (.ok (), registered x) := rfl

theorem tryEstablish_eq (x : Exchange host) :
    x.tryEstablish settings = Exchange.tryEstablishSession
      (Exchange.loadAsync settings (Exchange.establishAt settings 1)) x := rfl

theorem loadAsync_of_wasLoaded {e : Exchange host → NetRun Unit × Exchange host}
    (h : x.session.wasLoaded = true) : x.loadAsync settings e = (.ok (), x) := by
  rw [Exchange.loadAsync, if_pos h]

/-- INTERNAL: a session that is loaded or new is not asked for again. -/
theorem establishAt_settled (depth : ℕ)
    (h : x.session.wasLoaded = true ∨ x.session.IsNewSession = true) :
    Exchange.establishAt settings (depth + 1) x = Exchange.establishAt settings 1 x := by
  rw [Exchange.establishAt, Exchange.establishAt, tryEstablishSession_eq, tryEstablishSession_eq]
  rcases h with h | h
  · rw [loadAsync_of_wasLoaded (x := registered x) h, loadAsync_of_wasLoaded (x := registered x) h]
  · simp only [h, Bool.not_true, Bool.and_false, Bool.false_eq_true, if_false]

/-- INTERNAL: after `InitItems` it is one of the two. -/
theorem initItems_settled {strings : NetStrings} (s : ISPSession strings)
    (items : Option (CSessionDL.PersistMetaData × StateItemCollection strings NetValue)) :
    (s.initItems items).wasLoaded = true ∨ (s.initItems items).IsNewSession = true := by
  cases items with
  | none => exact .inr rfl
  | some p => exact .inl rfl

/-- **No call is cut off**: from depth two on the result is the same. -/
theorem establishAt_eq (depth : ℕ) :
    (Exchange.establishAt settings (depth + 2) : Exchange host → NetRun Unit × Exchange host) =
      Exchange.establishAt settings 2 := by
  have hload : ∀ x : Exchange host,
      x.loadAsync settings (Exchange.establishAt settings (depth + 1)) =
        x.loadAsync settings (Exchange.establishAt settings 1) := by
    intro x
    unfold Exchange.loadAsync
    split
    · rfl
    · split
      · rfl
      · rename_i items _
        dsimp only
        rw [establishAt_settled (x := { x with session := x.session.initItems items }) depth
          (initItems_settled _ items)]
  funext x
  show Exchange.tryEstablishSession _ x = Exchange.tryEstablishSession _ x
  rw [tryEstablishSession_eq, tryEstablishSession_eq, hload]

/-! ## Whether the page is called -/

/-- The configured timeout is none that `Create` refuses. -/
def CallsPages (settings : SessionAppSettings) : Prop :=
  ∀ t, settings.SessionTimeout = some t → 0 < t.toInt

theorem any_sessionTimeout : settings.SessionTimeout.any (·.toInt ≤ 0) = true ↔
    ¬ CallsPages settings := by
  unfold CallsPages
  cases settings.SessionTimeout with
  | none => simp
  | some t => simp

theorem create_of_callsPages (h : CallsPages settings) {text : Bstr} (htext : text ≠ []) :
    ISPSessionStore.create host.strings settings text false =
      .ok (.new host.strings settings text false) := by
  rw [ISPSessionStore.create, if_neg htext, if_neg fun hany => any_sessionTimeout.mp hany h]

theorem callsPages_of_create {text : Bstr} {s : ISPSession host.strings}
    (h : ISPSessionStore.create host.strings settings text false = .ok s) :
    CallsPages settings := by
  by_contra hno
  unfold ISPSessionStore.create at h
  rw [if_pos (any_sessionTimeout.mpr hno)] at h
  split at h <;> cases h

/-! ## The first access -/

/-- The session of a request has not been used yet. -/
structure Unloaded (x : Exchange host) : Prop where
  wasLoaded : x.session.wasLoaded = false
  isNewSession : x.session.IsNewSession = false

/-- INTERNAL: a request on an id in front of its first member. -/
def entered (host : ManagedHost) (settings : SessionAppSettings) (database : Keyspace) (drawn : ℕ)
    (id : Bstr) : Exchange host where
  database := database
  session := .new host.strings settings id false
  text2 := id
  managers := []
  hasStarted := false
  cookies := []
  drawn := drawn

/-- INTERNAL: this is how the middleware enters with an id that it takes. -/
theorem enter_of_accepted {database : Keyspace} {drawn : ℕ} {r : WebRequest} {id : Bstr}
    (hid : ISPSessionMiddleWare.getSessionIDAsync settings database r = some id) :
    ISPSessionMiddleWare.enter settings database drawn r =
      entered host settings database drawn id := by
  rw [ISPSessionMiddleWare.enter, hid]
  rfl

theorem unloaded_entered (host : ManagedHost) (settings : SessionAppSettings) (database : Keyspace)
    (drawn : ℕ) (id : Bstr) : Unloaded (entered host settings database drawn id) := ⟨rfl, rfl⟩

section Fetched

variable {m : CSessionDL.PersistMetaData} {items : StateItemCollection host.strings NetValue}

/-- INTERNAL: a manager in front of the response. -/
theorem tryEstablishSession_early (loadAsync : Exchange host → NetRun Unit × Exchange host)
    (hnew : x.session.IsNewSession = false) (hearly : x.hasStarted = false) {y : Exchange host}
    (hload : loadAsync (registered x) = (.ok (), y)) :
    Exchange.tryEstablishSession loadAsync x =
      (.ok (), if y.session.liquid then y.rotate x.managers.length else y) := by
  rw [tryEstablishSession_eq, hearly, hnew, Bool.false_and, if_neg Bool.false_ne_true, Bool.not_false,
    Bool.and_true, if_pos rfl, hload]

/-- INTERNAL: `LoadAsync` of a record that is not liquid. -/
theorem loadAsync_fetched {e : Exchange host → NetRun Unit × Exchange host} (hx : Unloaded x)
    (hget : CSessionDL.sessionGetAsync host settings x.database x.session.SessionID =
      .ok (some (m, items)))
    (hliquid : m.Liquid ≠ -1) :
    x.loadAsync settings e = (.ok (), fetched x (m, items)) := by
  have hno : (x.session.initItems (some (m, items))).liquid = false := decide_eq_false hliquid
  rw [Exchange.loadAsync, hx.wasLoaded, if_neg Bool.false_ne_true, hget]
  dsimp only
  rw [hno, if_neg Bool.false_ne_true]
  rfl

/-- INTERNAL: of one that is liquid, in front of the response. -/
theorem loadAsync_liquid (depth : ℕ) (hx : Unloaded x) (hearly : x.hasStarted = false)
    (hget : CSessionDL.sessionGetAsync host settings x.database x.session.SessionID =
      .ok (some (m, items)))
    (hliquid : m.Liquid = -1) :
    x.loadAsync settings (Exchange.establishAt settings (depth + 1)) =
      (.ok (), (registered (fetched x (m, items))).rotate x.managers.length) := by
  have hyes : (x.session.initItems (some (m, items))).liquid = true := decide_eq_true hliquid
  have hinside : Exchange.establishAt settings (depth + 1) (fetched x (m, items)) =
      (.ok (), (registered (fetched x (m, items))).rotate x.managers.length) := by
    refine (tryEstablishSession_early (x := fetched x (m, items)) _ hx.isNewSession hearly
      (loadAsync_of_wasLoaded rfl)).trans ?_
    rw [show (registered (fetched x (m, items))).session.liquid = true from hyes, if_pos rfl]
    rfl
  rw [Exchange.loadAsync, hx.wasLoaded, if_neg Bool.false_ne_true, hget]
  dsimp only
  rw [hyes, if_pos rfl]
  rw [show Exchange.establishAt settings (depth + 1)
    { x with session := x.session.initItems (some (m, items)) } = _ from hinside]
  rfl

/-- INTERNAL: `CheckLoad` of a session that is not loaded, behind its `TryEstablishSession`. -/
theorem checkLoad_of_establish (hx : Unloaded x) {y : Exchange host}
    (hestablish : x.tryEstablish settings = (.ok (), y)) (hnew : y.session.IsNewSession = false) :
    x.checkLoad settings =
      (.ok (), { y with session := { y.session with wasLoaded := true } }) := by
  rw [Exchange.checkLoad, hx.wasLoaded, if_neg Bool.false_ne_true, hestablish]
  dsimp only
  rw [hnew, if_neg Bool.false_ne_true]

/-- **The first access in front of the response, to a session that is not liquid.** -/
theorem checkLoad_fetched (hx : Unloaded x) (hearly : x.hasStarted = false)
    (hget : CSessionDL.sessionGetAsync host settings x.database x.session.SessionID =
      .ok (some (m, items)))
    (hliquid : m.Liquid ≠ -1) :
    x.checkLoad settings = (.ok (), fetched (registered x) (m, items)) := by
  have hno : (x.session.initItems (some (m, items))).liquid = false := decide_eq_false hliquid
  have hestablish : x.tryEstablish settings = (.ok (), fetched (registered x) (m, items)) := by
    rw [tryEstablish_eq, tryEstablishSession_early _ hx.isNewSession hearly (loadAsync_fetched
      (x := registered x) ⟨hx.wasLoaded, hx.isNewSession⟩ hget hliquid),
      show (fetched (registered x) (m, items)).session.liquid = false from hno,
      if_neg Bool.false_ne_true]
  exact checkLoad_of_establish hx hestablish hx.isNewSession

/-- INTERNAL: what the first access leaves of a liquid session: the manager inside has changed
the id first, then the one outside has changed it again. -/
def rotatedTwice (x : Exchange host)
    (record : CSessionDL.PersistMetaData × StateItemCollection host.strings NetValue) :
    Exchange host :=
  ((registered (fetched (registered x) record)).rotate (x.managers.length + 1)).rotate
    x.managers.length

/-- **To a session that is liquid.** -/
theorem checkLoad_liquid (hx : Unloaded x) (hearly : x.hasStarted = false)
    (hget : CSessionDL.sessionGetAsync host settings x.database x.session.SessionID =
      .ok (some (m, items)))
    (hliquid : m.Liquid = -1) :
    x.checkLoad settings = (.ok (), rotatedTwice x (m, items)) := by
  have hyes : (x.session.initItems (some (m, items))).liquid = true := decide_eq_true hliquid
  have hlength : (registered x).managers.length = x.managers.length + 1 := List.length_append
  have hestablish : x.tryEstablish settings = (.ok (), rotatedTwice x (m, items)) := by
    rw [tryEstablish_eq, tryEstablishSession_early _ hx.isNewSession hearly (loadAsync_liquid
      (x := registered x) 0 ⟨hx.wasLoaded, hx.isNewSession⟩ hearly hget hliquid),
      show (Exchange.rotate _ (registered (fetched (registered x) (m, items)))).session.liquid =
      true from hyes, if_pos rfl, hlength]
    rfl
  exact checkLoad_of_establish hx hestablish hx.isNewSession

end Fetched

/-- **The first access after the response has started**: nothing is fetched, and the session
counts as loaded. -/
theorem checkLoad_late (hx : Unloaded x) (hlate : x.hasStarted = true)
    (hhost : host.lateCallbackThrows = false) :
    x.checkLoad settings =
      (.ok (), { registered x with session := { x.session with wasLoaded := true } }) := by
  have hestablish : x.tryEstablish settings = (.ok (), registered x) := by
    rw [tryEstablish_eq, tryEstablishSession_eq, hhost, hlate]
    rfl
  exact checkLoad_of_establish hx hestablish hx.isNewSession

/-- **Where the server refuses a callback then, every access throws.** -/
theorem checkLoad_refused (hx : Unloaded x) (hlate : x.hasStarted = true)
    (hhost : host.lateCallbackThrows = true) :
    x.checkLoad settings = (.error .invalidOperation, x) := by
  have hestablish : x.tryEstablish settings = (.error .invalidOperation, x) := by
    rw [tryEstablish_eq, tryEstablishSession_eq, hhost, hlate]
    rfl
  rw [Exchange.checkLoad, hx.wasLoaded, if_neg Bool.false_ne_true, hestablish]

end IspSession.Analysis
