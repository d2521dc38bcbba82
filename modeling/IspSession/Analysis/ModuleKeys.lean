import IspSession.Model.SessionModule
import IspSession.Analysis.CommitLaw

/-!
# The keys that the session module touches

`GetSessionID` takes a text that exists as a key, whatever it is: a query string that comes first
is not validated, and `Validate` lets control characters pass. A request touches session keys
alone exactly when the text that it takes is 32 hexadecimal digits.
-/

set_option autoImplicit false

namespace IspSession.Analysis

open IspSession.Library IspSession.Model IspSession.Model.CSessionManaged

/-! ## The claim -/

/-- A hexadecimal digit. -/
def IsHexDigit (u : UInt16) : Prop :=
  (48 ≤ u ∧ u ≤ 57) ∨ (65 ≤ u ∧ u ≤ 70) ∨ (97 ≤ u ∧ u ≤ 102)

instance (u : UInt16) : Decidable (IsHexDigit u) := by
  unfold IsHexDigit
  infer_instance

/-- A text of 32 hexadecimal digits. -/
def IsHexText (text : Bstr) : Prop := text.length = 32 ∧ ∀ u ∈ text, IsHexDigit u

instance (text : Bstr) : Decidable (IsHexText text) :=
  haveI : Decidable (∀ u ∈ text, IsHexDigit u) := List.decidableBAll _ _
  inferInstanceAs (Decidable (_ ∧ ∀ u ∈ text, IsHexDigit u))

/-- The application key, a colon and 32 hexadecimal digits. -/
def IsSessionKey (settings : SessionAppSettings) (key : Bytes) : Prop :=
  ∃ text, IsHexText text ∧ key = CSessionDL.getKey settings text

/-- The request has touched session keys alone, and everything else is as it was. -/
structure SessionsOnly {names : NetNames} (settings : SessionAppSettings) (database : Keyspace)
    (x : HttpExchange names) : Prop where
  touched : ∀ c ∈ x.commands, ∀ key ∈ c.touched, IsSessionKey settings key
  others : ∀ key, ¬ IsSessionKey settings key → x.database key = database key

/-- What is to hold of a request: `GetSessionID` gives nothing or 32 hexadecimal digits, and the
module touches session keys alone. -/
def TouchesSessionsOnly (host : HttpHost) (settings : SessionAppSettings) (database : Keyspace)
    (drawn : ℕ) (r : HttpRequest) (calls : List PageCall) : Prop :=
  (∀ text, (ISPSessionIDManager.getSessionID settings r
      (HttpExchange.new database drawn : HttpExchange host.names)).1 = some text →
    IsHexText text) ∧
    SessionsOnly settings database (runRequest host settings r calls (.new database drawn)).2

/-- A text is taken for the id: it exists as a key, or it is to be revived. -/
def IsTaken (settings : SessionAppSettings) (database : Keyspace) (text : Bstr) : Prop :=
  (database (CSessionDL.getKey settings text)).isSome = true ∨
    (CSessionManaged.reEntrance settings = true ∧ text ≠ [])

/-! ## Commands -/

section Commands

variable {names : NetNames} {settings : SessionAppSettings} {database : Keyspace}
  {x : HttpExchange names}

/-- INTERNAL: a command leaves the keys alone that it does not touch. -/
theorem run_of_not_touched (c : SessionCommand) (s : Keyspace) {key : Bytes}
    (h : key ∉ c.touched) : c.run s key = s key := by
  cases c with
  | keyExists k => rfl
  | stringGet k => rfl
  | keyRename k k' =>
    simp only [SessionCommand.touched, List.mem_cons, List.not_mem_nil, or_false, not_or] at h
    show s.rename k k' key = s key
    unfold Keyspace.rename
    cases s k with
    | none => rfl
    | some entry =>
      dsimp only
      rw [Function.update_of_ne h.2, Function.update_of_ne h.1]
  | keyExpire k ms => exact Function.update_of_ne (fun hk => h (List.mem_singleton.mpr hk)) _ _
  | stringSet k contents ms =>
    show s.setExpiring k contents ms key = s key
    unfold Keyspace.setExpiring
    split
    · rfl
    · exact Function.update_of_ne (fun hk => h (List.mem_singleton.mpr hk)) _ _
  | keyDelete k => exact if_neg h

/-- **A command on session keys keeps a request confined.** -/
theorem SessionsOnly.send (h : SessionsOnly settings database x) {c : SessionCommand}
    (hc : ∀ key ∈ c.touched, IsSessionKey settings key) :
    SessionsOnly settings database (x.send c) where
  touched c' hc' := by
    rcases List.mem_append.mp hc' with hc' | hc'
    · exact h.touched c' hc'
    · rw [List.mem_singleton.mp hc']
      exact hc
  others key hkey :=
    (run_of_not_touched c x.database fun hmem => hkey (hc key hmem)).trans (h.others key hkey)

/-- INTERNAL: what is not Redis does not matter. -/
theorem SessionsOnly.congr (h : SessionsOnly settings database x) {y : HttpExchange names}
    (hcommands : y.commands = x.commands) (hdatabase : y.database = x.database) :
    SessionsOnly settings database y where
  touched c hc := h.touched c (hcommands ▸ hc)
  others key hkey := (congrFun hdatabase key).trans (h.others key hkey)

/-- INTERNAL: a request starts confined. -/
theorem sessionsOnly_new (drawn : ℕ) :
    SessionsOnly settings database (.new database drawn : HttpExchange names) where
  touched _ hc := absurd hc List.not_mem_nil
  others _ _ := rfl

end Commands

/-! ## Ids -/

variable {host : HttpHost} {settings : SessionAppSettings} {database : Keyspace} {drawn : ℕ}
  {x : HttpExchange host.names}

/-- **A new id is 32 hexadecimal digits.** -/
theorem isHexText_guidToHex (g : Guid) : IsHexText (Model.ISPSessionIDManager.guidToHex g) :=
  ⟨length_guidToHex g, digits_guidToHex (by decide) g⟩

/-- INTERNAL: so it gives a session key. -/
theorem isSessionKey_of_isHexText {text : Bstr} (h : IsHexText text) :
    ∀ key ∈ [CSessionDL.getKey settings text], IsSessionKey settings key := by
  intro key hkey
  exact ⟨text, h, List.mem_singleton.mp hkey⟩

/-- INTERNAL: what `GetSessionID` gives. -/
theorem getSessionID_eq_some (r : HttpRequest) (text : Bstr) :
    (ISPSessionIDManager.getSessionID settings r x).1 = some text ↔
      ISPSessionIDManager.presentedText settings r = some text ∧
        IsTaken settings x.database text := by
  unfold ISPSessionIDManager.getSessionID IsTaken
  cases ISPSessionIDManager.presentedText settings r with
  | none => simp
  | some t =>
    dsimp only
    constructor
    · intro h
      split at h
      · rename_i hsome
        obtain rfl := Option.some.inj h
        exact ⟨rfl, .inl hsome⟩
      · split at h
        · rename_i hrevived
          obtain rfl := Option.some.inj h
          exact ⟨rfl, .inr hrevived⟩
        · cases h
    · rintro ⟨ht, htaken⟩
      obtain rfl := Option.some.inj ht
      rcases htaken with hsome | hrevived
      · rw [if_pos hsome]
      · rw [if_pos hrevived, ite_self]

/-- INTERNAL: asking for it touches nothing. -/
theorem sessionsOnly_getSessionID (h : SessionsOnly settings database x) (r : HttpRequest) :
    SessionsOnly settings database (ISPSessionIDManager.getSessionID settings r x).2 := by
  unfold ISPSessionIDManager.getSessionID
  split
  · exact h
  · exact h.send fun key hkey => absurd hkey List.not_mem_nil

/-! ## The module -/

/-- The session of a request is under 32 hexadecimal digits, and so is the one it replaces. -/
def UnderHexIds {names : NetNames} (x : HttpExchange names) : Prop :=
  ∀ state ∈ x.state, IsHexText state.SessionID ∧ ∀ old ∈ state.oldSessionId, IsHexText old

/-- INTERNAL: the id of the session. -/
theorem sessionsOnly_chooseSessionID (h : SessionsOnly settings database x) {sessionID : Option Bstr}
    (hid : ∀ id ∈ sessionID, IsHexText id) :
    let chosen := ISPSessionModule.chooseSessionID host settings sessionID x
    IsHexText chosen.1 ∧ (∀ old ∈ chosen.2.1, IsHexText old) ∧
      SessionsOnly settings database chosen.2.2 := by
  have hnone : ∀ old ∈ (none : Option Bstr), IsHexText old := fun old hold => by cases hold
  unfold ISPSessionModule.chooseSessionID
  cases sessionID with
  | none => exact ⟨isHexText_guidToHex _, hnone, h.congr rfl rfl⟩
  | some id =>
    dsimp only
    split
    · exact ⟨isHexText_guidToHex _, hid, h.congr rfl rfl⟩
    · exact ⟨hid id rfl, hnone, h⟩

/-- INTERNAL: a request with its cookie and its session. -/
def started {names : NetNames} (settings : SessionAppSettings) (r : HttpRequest) (id : Bstr)
    (old : Option Bstr)
    (items : Option (Model.CSessionDL.PersistMetaData × SessionStateItemCollection names))
    (x : HttpExchange names) : HttpExchange names :=
  let x := { x with cookie := some id }
  match items with
  | some (m, items) =>
    { x with state := some (ISPSessionModule.container r id old m items false) }
  | none =>
    let m := CSessionDL.metaData settings (sessionTimeout settings) 0
    { if r.sessionMode = .True then CSessionDL.sessionInsert settings id m x else x with
      state := some (ISPSessionModule.container r id old m .new true) }

/-- INTERNAL: a session is started unless its cookie cannot be saved. -/
theorem startSession_eq (r : HttpRequest) (id : Bstr) (old : Option Bstr)
    (items : Option (Model.CSessionDL.PersistMetaData × SessionStateItemCollection host.names)) :
    ISPSessionModule.startSession settings r id old items x =
      if r.headersWritten || !Model.ISPSessionIDManager.validate id then (.error .http, x)
      else (.ok (), started settings r id old items x) := by
  unfold ISPSessionModule.startSession ISPSessionIDManager.saveSessionID
  cases r.headersWritten with
  | true => rfl
  | false =>
    cases Model.ISPSessionIDManager.validate id with
    | false => rfl
    | true => cases items <;> rfl

/-- INTERNAL: it is started under its id. -/
theorem sessionsOnly_started (h : SessionsOnly settings database x) (r : HttpRequest) {id : Bstr}
    {old : Option Bstr} (hid : IsHexText id) (hold : ∀ o ∈ old, IsHexText o)
    (items : Option (Model.CSessionDL.PersistMetaData × SessionStateItemCollection host.names)) :
    SessionsOnly settings database (started settings r id old items x) ∧
      UnderHexIds (started settings r id old items x) := by
  have hcookie : SessionsOnly settings database { x with cookie := some id } := h.congr rfl rfl
  cases items with
  | some p =>
    refine ⟨h.congr rfl rfl, fun state hstate => ?_⟩
    obtain rfl := Option.some.inj hstate
    exact ⟨hid, hold⟩
  | none =>
    constructor
    · unfold started
      dsimp only
      have hinserted : SessionsOnly settings database (CSessionDL.sessionInsert settings id
          (CSessionDL.metaData settings (sessionTimeout settings) 0)
          { x with cookie := some id }) :=
        hcookie.send (isSessionKey_of_isHexText hid)
      split
      · exact hinserted.congr rfl rfl
      · exact h.congr rfl rfl
    · intro state hstate
      obtain rfl := Option.some.inj hstate
      exact ⟨hid, hold⟩

theorem acquire_eq (r : HttpRequest) (sessionID : Option Bstr)
    (items : Option (Model.CSessionDL.PersistMetaData × SessionStateItemCollection host.names)) :
    ISPSessionModule.acquire host settings r sessionID items x =
      ISPSessionModule.startSession settings r
        (ISPSessionModule.chooseSessionID host settings sessionID x).1
        (ISPSessionModule.chooseSessionID host settings sessionID x).2.1 items
        (ISPSessionModule.chooseSessionID host settings sessionID x).2.2 := rfl

/-- INTERNAL: a request without a session, or with one that is under its id. -/
theorem sessionsOnly_acquire (h : SessionsOnly settings database x) (r : HttpRequest)
    {sessionID : Option Bstr} (hid : ∀ id ∈ sessionID, IsHexText id)
    (items : Option (Model.CSessionDL.PersistMetaData × SessionStateItemCollection host.names)) :
    let acquired := ISPSessionModule.acquire host settings r sessionID items x
    SessionsOnly settings database acquired.2 ∧ (acquired.1 = .ok () → UnderHexIds acquired.2) := by
  obtain ⟨hnew, hold, hchosen⟩ := sessionsOnly_chooseSessionID h hid
  dsimp only
  rw [acquire_eq, startSession_eq]
  split
  · exact ⟨hchosen, fun hok => by cases hok⟩
  · obtain ⟨hstarted, hunder⟩ := sessionsOnly_started hchosen r hnew hold items
    exact ⟨hstarted, fun _ => hunder⟩

/-- INTERNAL: `OnAcquireRequestState` of a request whose text is 32 digits if it is taken. -/
theorem sessionsOnly_onAcquireRequestState (r : HttpRequest)
    (hid : ∀ text, (ISPSessionIDManager.getSessionID settings r
      (HttpExchange.new database drawn : HttpExchange host.names)).1 = some text →
        IsHexText text) :
    let acquired := ISPSessionModule.onAcquireRequestState host settings r (.new database drawn)
    SessionsOnly settings database acquired.2 ∧ (acquired.1 = .ok () → UnderHexIds acquired.2) := by
  have hnew : SessionsOnly settings database (.new database drawn : HttpExchange host.names) :=
    sessionsOnly_new drawn
  have hasked := sessionsOnly_getSessionID hnew r
  dsimp only
  unfold ISPSessionModule.onAcquireRequestState
  split
  · exact ⟨hnew, fun _ state hstate => by cases hstate⟩
  · rcases hget : ISPSessionIDManager.getSessionID settings r
      (.new database drawn : HttpExchange host.names) with ⟨_ | id, y⟩
    · rw [hget] at hasked
      exact sessionsOnly_acquire hasked r (fun id h => by cases h) none
    · rw [hget] at hasked hid
      have hgot : SessionsOnly settings database
          (CSessionDL.sessionGet host settings id y).2 :=
        hasked.send (isSessionKey_of_isHexText (hid id rfl))
      rcases hrun : CSessionDL.sessionGet host settings id y with ⟨_ | items, z⟩
      · rw [hrun] at hgot
        dsimp only
        rw [hrun]
        exact ⟨hgot, fun hok => by cases hok⟩
      · rw [hrun] at hgot
        dsimp only
        rw [hrun]
        exact sessionsOnly_acquire hgot r (fun i hi => by
          obtain rfl := Option.some.inj hi
          exact hid id rfl) items

/-- INTERNAL: what a page keeps of its session, and when it has abandoned it. -/
structure CallsKeep {names : NetNames} (calls : List PageCall)
    (before after : ISPHttpSessionStateContainer names) : Prop where
  SessionID : after.SessionID = before.SessionID
  oldSessionId : after.oldSessionId = before.oldSessionId
  IsReadOnly : after.IsReadOnly = before.IsReadOnly
  IsAbandoned : after.IsAbandoned = true ↔ before.IsAbandoned = true ∨ .abandon ∈ calls

/-- INTERNAL: one call. -/
theorem callsKeep_perform {names : NetNames} (call : PageCall)
    (state : ISPHttpSessionStateContainer names) :
    CallsKeep [call] state (call.perform state) := by
  cases call with
  | setTimeout value =>
    rw [PageCall.perform]
    split <;> exact ⟨rfl, rfl, rfl, by simp⟩
  | _ => exact ⟨rfl, rfl, rfl, by simp [PageCall.perform]⟩

/-- INTERNAL: several calls. -/
theorem callsKeep_foldl {names : NetNames} (calls : List PageCall)
    (state : ISPHttpSessionStateContainer names) :
    CallsKeep calls state (calls.foldl PageCall.perform state) := by
  induction calls generalizing state with
  | nil => exact ⟨rfl, rfl, rfl, by simp⟩
  | cons call calls ih =>
    have hfirst := callsKeep_perform call state
    have hrest := ih (call.perform state)
    refine ⟨hrest.SessionID.trans hfirst.SessionID, hrest.oldSessionId.trans hfirst.oldSessionId,
      hrest.IsReadOnly.trans hfirst.IsReadOnly, ?_⟩
    rw [List.foldl_cons, hrest.IsAbandoned, hfirst.IsAbandoned, List.mem_singleton, List.mem_cons,
      or_assoc]

/-- INTERNAL: a page keeps the ids of its session. -/
theorem underHexIds_runPage (h : UnderHexIds x) (calls : List PageCall) :
    UnderHexIds (runPage calls x) := by
  intro state hstate
  obtain ⟨before, hbefore, rfl⟩ := Option.map_eq_some_iff.mp hstate
  have hkeeps := callsKeep_foldl calls before
  rw [hkeeps.SessionID, hkeeps.oldSessionId]
  exact h before hbefore

/-- INTERNAL: `OnReleaseRequestState`. -/
theorem sessionsOnly_onReleaseRequestState (h : SessionsOnly settings database x) (hids : UnderHexIds x)
    (r : HttpRequest) :
    SessionsOnly settings database (ISPSessionModule.onReleaseRequestState host settings r x).2 := by
  unfold ISPSessionModule.onReleaseRequestState
  split
  · exact h
  · cases hstate : x.state with
    | none => exact h
    | some state =>
      obtain ⟨hid, hold⟩ := hids state hstate
      have hkey : ∀ key ∈ [Model.CSessionDL.getKey settings state.SessionID],
          IsSessionKey settings key := isSessionKey_of_isHexText hid
      dsimp only
      split
      · unfold CSessionDL.sessionRemove
        dsimp only
        have hremoved : SessionsOnly settings database (ISPSessionIDManager.removeSessionID x) :=
          h.congr rfl rfl
        have hasked : SessionsOnly settings database
            ((ISPSessionIDManager.removeSessionID x).send
              (.keyExists (Model.CSessionDL.getKey settings state.SessionID))) :=
          hremoved.send fun key hmem => absurd hmem List.not_mem_nil
        split
        · exact SessionsOnly.congr (hasked.send hkey : SessionsOnly settings database (HttpExchange.send
            (.keyDelete (Model.CSessionDL.getKey settings state.SessionID)) _)) rfl rfl
        · exact hasked.congr rfl rfl
      · have hmoved : SessionsOnly settings database
            (CSessionDL.moveFrom settings state.oldSessionId state.SessionID x) := by
          unfold CSessionDL.moveFrom
          cases hsome : state.oldSessionId with
          | none => exact h
          | some old =>
            dsimp only
            split
            · refine h.send fun key hmem => ?_
              simp only [SessionCommand.touched, List.mem_cons, List.not_mem_nil, or_false] at hmem
              rcases hmem with rfl | rfl
              · exact ⟨old, hold old hsome, rfl⟩
              · exact ⟨_, hid, rfl⟩
            · exact h
        have hsaved : SessionsOnly settings database
            (CSessionDL.sessionSave host settings state x).2 := by
          unfold CSessionDL.sessionSave
          dsimp only
          split
          · exact hmoved.send hkey
          · split
            · exact h
            · exact hmoved.send hkey
        rcases hrun : CSessionDL.sessionSave host settings state x with ⟨_ | _, y⟩
        · rw [hrun] at hsaved
          exact hsaved
        · rw [hrun] at hsaved
          exact hsaved.congr rfl rfl

/-! ## The theorem -/

/-- **The module touches session records alone exactly when the text that it takes, if any, is 32
hexadecimal digits**: for every request and every page, and every database. -/
theorem touchesSessionsOnly_iff (r : HttpRequest) (calls : List PageCall) :
    TouchesSessionsOnly host settings database drawn r calls ↔
      ∀ text, ISPSessionIDManager.presentedText settings r = some text →
        IsTaken settings database text → IsHexText text := by
  have hget : (∀ text, (ISPSessionIDManager.getSessionID settings r
      (HttpExchange.new database drawn : HttpExchange host.names)).1 = some text →
        IsHexText text) ↔
      ∀ text, ISPSessionIDManager.presentedText settings r = some text →
        IsTaken settings database text → IsHexText text := by
    constructor
    · exact fun h text ht htaken => h text ((getSessionID_eq_some r text).mpr ⟨ht, htaken⟩)
    · intro h text ht
      obtain ⟨hpresented, htaken⟩ := (getSessionID_eq_some r text).mp ht
      exact h text hpresented htaken
  unfold TouchesSessionsOnly
  rw [hget]
  constructor
  · exact fun h => h.1
  · intro h
    refine ⟨h, ?_⟩
    obtain ⟨hacquired, hids⟩ :=
      @sessionsOnly_onAcquireRequestState host settings database drawn r (hget.mpr h)
    unfold runRequest
    rcases hrun : ISPSessionModule.onAcquireRequestState host settings r (.new database drawn) with
      ⟨_ | _, y⟩
    · rw [hrun] at hacquired
      exact hacquired
    · rw [hrun] at hacquired hids
      have hpage : SessionsOnly settings database (runPage calls y) := hacquired.congr rfl rfl
      exact sessionsOnly_onReleaseRequestState hpage (underHexIds_runPage (hids rfl) calls) r

/-- A host for runs on concrete input: a letter of another case is another letter. -/
def sampleHttpHost : HttpHost where
  toManagedHost := sampleHost
  names := ⟨fun a b => decide (a = b), by
    refine ⟨fun a => ?_, fun h => ?_, fun h h' => ?_⟩
    · exact decide_eq_true rfl
    · exact decide_eq_true (of_decide_eq_true h).symm
    · exact decide_eq_true ((of_decide_eq_true h).trans (of_decide_eq_true h'))⟩

/-- The value of an application under the key `COUNTER`. -/
def oneCounter : Keyspace := fun key =>
  if key = CSessionDL.getKey sampleSettings (Bstr.ofString "COUNTER") then
    some ⟨.string [1], none⟩
  else none

/-- A request with its name in the query string. -/
def counterRequest : HttpRequest where
  query := some (Bstr.ofString "COUNTER")
  cookie := none
  sessionMode := .True
  headersWritten := false

/-- **The value of an application is taken for a session.** -/
theorem counterRequest_not_touchesSessionsOnly :
    ¬ TouchesSessionsOnly sampleHttpHost { sampleSettings with SnifQueryStringFirst := true }
      oneCounter 0 counterRequest [] := by
  rintro ⟨hid, -⟩
  have htaken : (ISPSessionIDManager.getSessionID
      { sampleSettings with SnifQueryStringFirst := true } counterRequest
      (HttpExchange.new oneCounter 0 : HttpExchange sampleHttpHost.names)).1 =
        some (Bstr.ofString "COUNTER") := by decide +kernel
  exact absurd (hid _ htaken) (by decide)

end IspSession.Analysis
