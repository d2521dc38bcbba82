import IspSession.Analysis.LateAccess

/-!
# Session ids in the query string

A request that does not work under the key of a record neither sees it nor changes it
(`performAll_frame`). An id from the query string is checked for its form and for a record under
it; the field of the record that forbids re-entrance is never asked for.
-/

set_option autoImplicit false

namespace IspSession.Analysis

open IspSession.Library IspSession.Model

/-! ## Another record in Redis -/

section Keyspace

variable {database : Keyspace} {key k k' : Bytes} {entry : Option RedisEntry}

/-- INTERNAL: `RENAME` between other keys. -/
theorem rename_update (hk : k ≠ key) (hk' : k' ≠ key) :
    Keyspace.rename (Function.update database key entry) k k' =
      Function.update (database.rename k k') key entry := by
  unfold Keyspace.rename
  rw [Function.update_of_ne hk]
  cases database k with
  | none => rfl
  | some value =>
    dsimp only
    rw [Function.update_comm hk.symm, Function.update_comm hk'.symm]

/-- INTERNAL: `SET` of another key. -/
theorem setExpiring_update (hk : k ≠ key) (bytes : Bytes) (ms : ℤ) :
    Keyspace.setExpiring (Function.update database key entry) k bytes ms =
      Function.update (database.setExpiring k bytes ms) key entry := by
  unfold Keyspace.setExpiring
  split
  · rfl
  · rw [Function.update_comm hk.symm]

/-- INTERNAL: `PEXPIRE` of another key. -/
theorem pexpire_update (hk : k ≠ key) (ms : ℤ) :
    Keyspace.execute (Function.update database key entry) (.pexpire k ms) =
      Function.update (database.execute (.pexpire k ms)) key entry := by
  simp only [Keyspace.execute]
  rw [Function.update_of_ne hk, Function.update_comm hk.symm]

/-- INTERNAL: `DEL` of another key. -/
theorem del_update (hk : k ≠ key) :
    Keyspace.execute (Function.update database key entry) (.del [k]) =
      Function.update (database.execute (.del [k])) key entry := by
  funext other
  simp only [Keyspace.execute, List.mem_singleton]
  by_cases hother : other = key
  · rw [hother, Function.update_self, Function.update_self, if_neg hk.symm]
  · rw [Function.update_of_ne hother, Function.update_of_ne hother]

end Keyspace

variable {host : ManagedHost} {settings : SessionAppSettings} {key : Bytes} {drawn : ℕ}

/-! ## A request that works elsewhere -/

/-- The same request with another entry under the key. -/
def withEntry (key : Bytes) (entry : Option RedisEntry) (x : Exchange host) : Exchange host :=
  { x with database := Function.update x.database key entry }

/-- The request works under other keys, now and with the ids to come. -/
structure Elsewhere (settings : SessionAppSettings) (key : Bytes) (drawn : ℕ) (x : Exchange host) :
    Prop where
  sessionID : CSessionDL.getKey settings x.session.SessionID ≠ key
  oldSessionID : ∀ old, x.session.OldSessionID = some old → CSessionDL.getKey settings old ≠ key
  drawn : drawn ≤ x.drawn

/-- No id to come has the key. -/
def NeverDrawn (host : ManagedHost) (settings : SessionAppSettings) (key : Bytes) (drawn : ℕ) :
    Prop :=
  ∀ n, drawn ≤ n → CSessionDL.getKey settings (idAt host n) ≠ key

/-- A part of a request gives the same result whatever is under the key, leaves it there, and
goes on elsewhere. -/
def KeepsEntry {α : Type} (settings : SessionAppSettings) (key : Bytes) (drawn : ℕ)
    (f : Exchange host → α × Exchange host) : Prop :=
  ∀ x, Elsewhere settings key drawn x →
    (∀ entry, f (withEntry key entry x) = ((f x).1, withEntry key entry (f x).2)) ∧
      Elsewhere settings key drawn (f x).2

/-! ### How parts of a request are put together -/

section Parts

variable {α β : Type}

/-- INTERNAL: a part that depends on what it reads. -/
theorem KeepsEntry.read {v : Exchange host → β} {f : β → Exchange host → α × Exchange host}
    (hv : ∀ x, Elsewhere settings key drawn x → ∀ entry, v (withEntry key entry x) = v x)
    (hf : ∀ b, KeepsEntry settings key drawn (f b)) :
    KeepsEntry settings key drawn fun x => f (v x) x := by
  intro x hx
  obtain ⟨hsame, helse⟩ := hf (v x) x hx
  refine ⟨fun entry => ?_, helse⟩
  dsimp only
  rw [hv x hx entry, hsame entry]

/-- INTERNAL: a part in two branches. -/
theorem KeepsEntry.ite {c : Exchange host → Bool} {f g : Exchange host → α × Exchange host}
    (hc : ∀ x entry, c (withEntry key entry x) = c x) (hf : KeepsEntry settings key drawn f)
    (hg : KeepsEntry settings key drawn g) :
    KeepsEntry settings key drawn fun x => if c x then f x else g x := by
  refine KeepsEntry.read (f := fun b x => if b then f x else g x) (fun x _ entry => hc x entry)
    fun b => ?_
  cases b with
  | true => exact hf
  | false => exact hg

/-- INTERNAL: a part that cannot throw. -/
theorem keepsEntry_step {t : Exchange host → Exchange host} (r : α)
    (ht : ∀ x entry, t (withEntry key entry x) = withEntry key entry (t x))
    (helse : ∀ x, Elsewhere settings key drawn x → Elsewhere settings key drawn (t x)) :
    KeepsEntry settings key drawn fun x => (r, t x) :=
  fun x hx => ⟨fun entry => congrArg (Prod.mk r) (ht x entry), helse x hx⟩

/-- INTERNAL: a part that only answers. -/
theorem keepsEntry_answer (r : α) : KeepsEntry settings key drawn fun x : Exchange host => (r, x) :=
  keepsEntry_step r (fun _ _ => rfl) fun _ hx => hx

/-- INTERNAL: a step in front of a part. -/
theorem KeepsEntry.before {f : Exchange host → α × Exchange host}
    {t : Exchange host → Exchange host} (hf : KeepsEntry settings key drawn f)
    (ht : ∀ x entry, t (withEntry key entry x) = withEntry key entry (t x))
    (helse : ∀ x, Elsewhere settings key drawn x → Elsewhere settings key drawn (t x)) :
    KeepsEntry settings key drawn fun x => f (t x) := by
  intro x hx
  obtain ⟨hsame, hafter⟩ := hf (t x) (helse x hx)
  refine ⟨fun entry => ?_, hafter⟩
  dsimp only
  rw [ht x entry, hsame entry]

/-- INTERNAL: a part behind another one, unless that one throws. -/
theorem KeepsEntry.andThen {f : Exchange host → NetRun Unit × Exchange host}
    {g : Exchange host → NetRun α × Exchange host} (hf : KeepsEntry settings key drawn f)
    (hg : KeepsEntry settings key drawn g) :
    KeepsEntry settings key drawn fun x =>
      match f x with
      | (.error e, y) => (.error e, y)
      | (.ok (), y) => g y := by
  intro x hx
  obtain ⟨hsame, helse⟩ := hf x hx
  dsimp only
  constructor
  · intro entry
    rw [hsame entry]
    rcases hrun : f x with ⟨r, y⟩
    rw [hrun] at helse
    cases r with
    | error e => rfl
    | ok u => exact (hg y helse).1 entry
  · rcases hrun : f x with ⟨r, y⟩
    rw [hrun] at helse
    cases r with
    | error e => exact helse
    | ok u => exact (hg y helse).2

/-- INTERNAL: a part with another answer. -/
theorem KeepsEntry.mapAnswer {f : Exchange host → α × Exchange host} (g : α → β)
    (hf : KeepsEntry settings key drawn f) :
    KeepsEntry settings key drawn fun x => (g (f x).1, (f x).2) := by
  intro x hx
  obtain ⟨hsame, helse⟩ := hf x hx
  refine ⟨fun entry => ?_, helse⟩
  dsimp only
  rw [hsame entry]

end Parts

/-! ### The parts -/

/-- INTERNAL: `TryEstablishSession` around a load that keeps the entry. -/
theorem keepsEntry_tryEstablishSession (hnever : NeverDrawn host settings key drawn)
    {load : Exchange host → NetRun Unit × Exchange host}
    (hload : KeepsEntry settings key drawn load) :
    KeepsEntry settings key drawn (Exchange.tryEstablishSession load) := by
  have hregistered : ∀ x : Exchange host, Elsewhere settings key drawn x →
      Elsewhere settings key drawn (registered x) :=
    fun x hx => ⟨hx.sessionID, hx.oldSessionID, hx.drawn⟩
  have hrotate : ∀ n, KeepsEntry settings key drawn fun y : Exchange host =>
      ((.ok (), if y.session.liquid then y.rotate n else y) : NetRun Unit × Exchange host) := by
    intro n
    refine keepsEntry_step _ (fun x entry => ?_) fun x hx => ?_
    · show (if x.session.liquid then _ else _) = _
      split <;> rfl
    · split
      · exact
          { sessionID := hnever x.drawn hx.drawn
            oldSessionID := fun old hold => by
              obtain rfl : x.session.SessionID = old := Option.some.inj hold
              exact hx.sessionID
            drawn := Nat.le_succ_of_le hx.drawn }
      · exact hx
  have hasked : KeepsEntry settings key drawn fun x : Exchange host =>
      (match load (registered x) with
      | (.error e, y) => (.error e, y)
      | (.ok (), y) => (.ok (), if y.session.liquid then y.rotate x.managers.length else y) :
        NetRun Unit × Exchange host) :=
    KeepsEntry.read (v := fun x => x.managers.length)
      (f := fun n x => (match load (registered x) with
        | (.error e, y) => (.error e, y)
        | (.ok (), y) => (.ok (), if y.session.liquid then y.rotate n else y) :
          NetRun Unit × Exchange host))
      (fun _ _ _ => rfl) fun n => (hload.before (fun _ _ => rfl) hregistered).andThen (hrotate n)
  rw [funext (tryEstablishSession_eq load)]
  exact KeepsEntry.ite (fun _ _ => rfl) (keepsEntry_answer _)
    (KeepsEntry.ite (fun _ _ => rfl) hasked (keepsEntry_step _ (fun _ _ => rfl) hregistered))

/-- INTERNAL: the part of `LoadAsync` behind the items of `SessionGetAsync`. -/
def behindGet (establish : Exchange host → NetRun Unit × Exchange host)
    (items : Option (CSessionDL.PersistMetaData × StateItemCollection host.strings NetValue))
    (x : Exchange host) : NetRun Unit × Exchange host :=
  match if (x.session.initItems items).liquid then
      establish { x with session := x.session.initItems items }
    else (.ok (), { x with session := x.session.initItems items }) with
  | (.error e, y) => (.error e, y)
  | (.ok (), y) => (.ok (), { y with session := { y.session with wasLoaded := true } })

/-- INTERNAL: the part behind `SessionGetAsync`. -/
def behindGot (establish : Exchange host → NetRun Unit × Exchange host)
    (got : NetRun (Option (CSessionDL.PersistMetaData × StateItemCollection host.strings NetValue)))
    (x : Exchange host) : NetRun Unit × Exchange host :=
  match got with
  | .error e => (.error e, x)
  | .ok items => behindGet establish items x

/-- INTERNAL: `LoadAsync` with managers that keep the entry. -/
theorem keepsEntry_loadAsync {establish : Exchange host → NetRun Unit × Exchange host}
    (hestablish : KeepsEntry settings key drawn establish) :
    KeepsEntry settings key drawn (Exchange.loadAsync settings establish) := by
  have hinit : ∀ items (x : Exchange host), Elsewhere settings key drawn x →
      Elsewhere settings key drawn { x with session := x.session.initItems items } := by
    intro items x hx
    cases items <;> exact ⟨hx.sessionID, hx.oldSessionID, hx.drawn⟩
  have hmark : KeepsEntry settings key drawn fun y : Exchange host =>
      ((.ok (), { y with session := { y.session with wasLoaded := true } }) :
        NetRun Unit × Exchange host) :=
    keepsEntry_step _ (fun _ _ => rfl) fun x hx => ⟨hx.sessionID, hx.oldSessionID, hx.drawn⟩
  have hbehind : ∀ items, KeepsEntry settings key drawn (behindGet establish items) := fun items =>
    (KeepsEntry.ite (fun _ _ => rfl) (hestablish.before (fun _ _ => rfl) (hinit items))
      (keepsEntry_step _ (fun _ _ => rfl) (hinit items))).andThen hmark
  have hgot : KeepsEntry settings key drawn fun x : Exchange host => behindGot establish
      (CSessionDL.sessionGetAsync host settings x.database x.session.SessionID) x := by
    refine KeepsEntry.read
      (v := fun x => CSessionDL.sessionGetAsync host settings x.database x.session.SessionID)
      (f := behindGot establish) (fun x hx entry => ?_) fun got => ?_
    · show CSessionDL.sessionGetAsync host settings (Function.update x.database key entry)
        x.session.SessionID = _
      unfold CSessionDL.sessionGetAsync
      rw [Function.update_of_ne hx.sessionID]
    · cases got with
      | error e => exact keepsEntry_answer _
      | ok items => exact hbehind items
  exact KeepsEntry.ite (fun _ _ => rfl) (keepsEntry_answer _) hgot

/-- INTERNAL: the two of them together. -/
theorem keepsEntry_establishAt (hnever : NeverDrawn host settings key drawn) (depth : ℕ) :
    KeepsEntry settings key drawn
      (Exchange.establishAt settings depth : Exchange host → NetRun Unit × Exchange host) := by
  induction depth with
  | zero => exact keepsEntry_answer _
  | succ depth ih =>
    exact keepsEntry_tryEstablishSession hnever (keepsEntry_loadAsync ih)

/-- INTERNAL: `CheckLoad`. -/
theorem keepsEntry_checkLoad (hnever : NeverDrawn host settings key drawn) :
    KeepsEntry settings key drawn
      (Exchange.checkLoad settings : Exchange host → NetRun Unit × Exchange host) := by
  refine KeepsEntry.ite (fun _ _ => rfl) (keepsEntry_answer _)
    ((keepsEntry_establishAt hnever 2).andThen (keepsEntry_step _ (fun x entry => ?_) fun x hx => ?_))
  · show (if x.session.IsNewSession then _ else _) = _
    split <;> rfl
  · split
    · exact hx
    · exact ⟨hx.sessionID, hx.oldSessionID, hx.drawn⟩

/-- INTERNAL: `SessionSave` of another session. -/
theorem sessionSaveAsync_update {database : Keyspace} {entry : Option RedisEntry}
    (state : StateItemCollection host.strings NetValue) (m : CSessionDL.PersistMetaData) {id : Bstr}
    {oldId : Option Bstr} (hid : CSessionDL.getKey settings id ≠ key)
    (hold : ∀ old, oldId = some old → CSessionDL.getKey settings old ≠ key) :
    CSessionDL.sessionSaveAsync host settings (Function.update database key entry) state m id oldId =
      ((CSessionDL.sessionSaveAsync host settings database state m id oldId).1,
        Function.update (CSessionDL.sessionSaveAsync host settings database state m id oldId).2
          key entry) := by
  have hrenamed : renamed settings (Function.update database key entry) id oldId =
      Function.update (renamed settings database id oldId) key entry := by
    cases oldId with
    | none => rfl
    | some old =>
      rw [renamed, renamed]
      split
      · exact rename_update (hold old rfl) hid
      · rfl
  cases hcontents : PersistUtil.localContents host.runtime state with
  | error e =>
    have hsave : ∀ d : Keyspace,
        CSessionDL.sessionSaveAsync host settings d state m id oldId = (.error e, d) := by
      intro d
      unfold CSessionDL.sessionSaveAsync
      rw [hcontents]
    rw [hsave, hsave]
  | ok out =>
    obtain ⟨bytes, zLen⟩ := out
    have hsave : ∀ d : Keyspace, CSessionDL.sessionSaveAsync host settings d state m id oldId =
        if state.isReadOnly || !state.dirty then
          (.ok (), if state.isNew then renamed settings d id oldId
            else (renamed settings d id oldId).execute
              (.pexpire (CSessionDL.getKey settings id) (CSessionDL.milliseconds m.Expires)))
        else
          (.ok (), (renamed settings d id oldId).setExpiring (CSessionDL.getKey settings id)
            (CSessionDL.toByteArray { m with ZLen := BitVec.ofNat 32 zLen } ++
              CSessionDL.packed host.deflate settings bytes)
            (CSessionDL.milliseconds m.Expires)) := by
      intro d
      unfold CSessionDL.sessionSaveAsync
      rw [hcontents]
      cases oldId <;> rfl
    rw [hsave, hsave, hrenamed]
    split
    · split
      · rfl
      · rw [pexpire_update hid]
    · rw [setExpiring_update hid]

/-- INTERNAL: `CommitAsync`. -/
theorem keepsEntry_commitAsync :
    KeepsEntry settings key drawn
      (Exchange.commitAsync settings : Exchange host → NetRun Unit × Exchange host) := by
  intro x hx
  constructor
  · intro entry
    unfold Exchange.commitAsync
    show (if x.session.isAbandoned then _ else _) = _
    split
    · exact congrArg (fun d => ((.ok (), { x with database := d }) : NetRun Unit × Exchange host))
        (del_update hx.sessionID)
    · dsimp only
      rw [show (withEntry key entry x).database = Function.update x.database key entry from rfl,
        show (withEntry key entry x).session = x.session from rfl,
        sessionSaveAsync_update _ _ hx.sessionID hx.oldSessionID]
      rfl
  · unfold Exchange.commitAsync
    split <;> exact ⟨hx.sessionID, hx.oldSessionID, hx.drawn⟩

/-- INTERNAL: the start of the response. -/
theorem keepsEntry_startResponse {α : Type} (r : α) :
    KeepsEntry settings key drawn fun x : Exchange host => (r, x.startResponse) := by
  refine keepsEntry_step _ (fun x entry => ?_) fun x hx => ?_
  · unfold Exchange.startResponse
    show (if x.hasStarted then _ else _) = _
    split <;> rfl
  · unfold Exchange.startResponse
    split
    · exact hx
    · exact ⟨hx.sessionID, hx.oldSessionID, hx.drawn⟩

/-- **Every member of the session leaves the entry alone, and does not see it.** -/
theorem keepsEntry_perform (hnever : NeverDrawn host settings key drawn) (call : SessionCall) :
    KeepsEntry settings key drawn fun x : Exchange host => x.perform settings call := by
  have hcheck : KeepsEntry settings key drawn
      (Exchange.checkLoad settings : Exchange host → NetRun Unit × Exchange host) :=
    keepsEntry_checkLoad hnever
  cases call with
  | items op =>
    exact hcheck.andThen fun x hx => ⟨fun entry => rfl, ⟨hx.sessionID, hx.oldSessionID, hx.drawn⟩⟩
  | count => exact hcheck.andThen fun x hx => ⟨fun entry => rfl, hx⟩
  | keys => exact hcheck.andThen fun x hx => ⟨fun entry => rfl, hx⟩
  | tryGetValue name => exact hcheck.andThen fun x hx => ⟨fun entry => rfl, hx⟩
  | abandon =>
    exact hcheck.andThen fun x hx => ⟨fun entry => rfl, ⟨hx.sessionID, hx.oldSessionID, hx.drawn⟩⟩
  | loadAsync =>
    exact (keepsEntry_loadAsync (keepsEntry_establishAt hnever 2)).mapAnswer _
  | commitAsync => exact keepsEntry_commitAsync.mapAnswer _
  | startResponse => exact keepsEntry_startResponse _
  | setTimeout value =>
    exact keepsEntry_step _ (fun _ _ => rfl) fun x hx => ⟨hx.sessionID, hx.oldSessionID, hx.drawn⟩
  | setLiquid value =>
    exact keepsEntry_step _ (fun _ _ => rfl) fun x hx => ⟨hx.sessionID, hx.oldSessionID, hx.drawn⟩
  | setReEntrance value =>
    exact keepsEntry_step _ (fun _ _ => rfl) fun x hx => ⟨hx.sessionID, hx.oldSessionID, hx.drawn⟩
  | getTimeout => exact fun x hx => ⟨fun entry => rfl, hx⟩
  | getLiquid => exact fun x hx => ⟨fun entry => rfl, hx⟩
  | getReEntrance => exact fun x hx => ⟨fun entry => rfl, hx⟩
  | isNewSession => exact fun x hx => ⟨fun entry => rfl, hx⟩
  | sessionID => exact fun x hx => ⟨fun entry => rfl, hx⟩

/-- **So does a page.** -/
theorem keepsEntry_performAll (hnever : NeverDrawn host settings key drawn)
    (calls : List SessionCall) :
    KeepsEntry settings key drawn fun x : Exchange host => x.performAll settings calls := by
  induction calls with
  | nil => exact keepsEntry_answer _
  | cons call calls ih =>
    intro x hx
    obtain ⟨hsame, helse⟩ := keepsEntry_perform hnever call x hx
    obtain ⟨hsame', helse'⟩ := ih _ helse
    dsimp only at hsame hsame'
    refine ⟨fun entry => ?_, helse'⟩
    show ((((withEntry key entry x).perform settings call).1 ::
      (((withEntry key entry x).perform settings call).2.performAll settings calls).1,
      (((withEntry key entry x).perform settings call).2.performAll settings calls).2) :
        List (NetRun SessionReply) × Exchange host) = _
    rw [hsame entry]
    dsimp only
    rw [hsame' entry]
    rfl

/-! ## The claim -/

/-- A record with this metadata and payload. -/
def entryOf (m : CSessionDL.PersistMetaData) (payload : Bytes) (ttl : Option ℤ) :
    Option RedisEntry :=
  some { value := .string (CSessionDL.toByteArray m ++ payload), ttl }

/-- A request hides every record under this id that forbids re-entrance: no page sees a
difference between two payloads of it, and the record is the same after the request. -/
def HidesForbidden (host : ManagedHost) (settings : SessionAppSettings) (database : Keyspace)
    (drawn : ℕ) (r : WebRequest) (id : Bstr) : Prop :=
  ∀ m : CSessionDL.PersistMetaData, m.ReEntrance = 0 →
    ∀ (ttl : Option ℤ) (payload payload' : Bytes) (calls : List SessionCall),
      let key := CSessionDL.getKey settings id
      let run : Bytes → NetRun (List (NetRun SessionReply)) × Exchange host := fun bytes =>
        ISPSessionMiddleWare.invoke settings
          (Function.update database key (entryOf m bytes ttl)) drawn r calls
      (run payload).1 = (run payload').1 ∧ (run payload).2.database key = entryOf m payload ttl

/-- The text that a request is taken for by its query string. -/
def urlText (settings : SessionAppSettings) (r : WebRequest) : Option Bstr :=
  if settings.SnifQueryStringFirst && r.queryValid then some (r.query.headD [])
  else
    match r.cookie with
    | none => none
    | some httpCookie =>
      if !ISPSessionIDManager.validate httpCookie && !settings.SnifQueryStringFirst &&
          r.queryValid then some r.queryText
      else none

/-- That text names the record. -/
def TakesFromUrl (settings : SessionAppSettings) (r : WebRequest) (id : Bstr) : Prop :=
  ∃ text, urlText settings r = some text ∧
    CSessionDL.getKey settings text = CSessionDL.getKey settings id

/-! ## The id of a request -/

/-- INTERNAL: an id is taken from the query string, or it is a valid cookie. -/
theorem getSessionIDAsync_eq (database : Keyspace) (r : WebRequest) :
    ISPSessionMiddleWare.getSessionIDAsync settings database r =
      ((urlText settings r).or (r.cookie.filter ISPSessionIDManager.validate)).bind
        (ISPSessionMiddleWare.accept settings database) := by
  unfold ISPSessionMiddleWare.getSessionIDAsync urlText
  split
  · rfl
  · cases r.cookie with
    | none => rfl
    | some httpCookie =>
      dsimp only
      cases hvalid : ISPSessionIDManager.validate httpCookie with
      | true => simp [Option.filter, hvalid]
      | false =>
        rw [if_neg Bool.false_ne_true, Bool.not_false, Bool.true_and]
        split
        · rfl
        · simp [Option.filter, hvalid]

/-- INTERNAL: whether an id is taken depends on the keys that exist. -/
theorem accept_update {database : Keyspace} {e e' : RedisEntry} (text : Bstr) :
    ISPSessionMiddleWare.accept settings (Function.update database key (some e)) text =
      ISPSessionMiddleWare.accept settings (Function.update database key (some e')) text := by
  have hsome : (Function.update database key (some e) (CSessionDL.getKey settings text)).isSome =
      (Function.update database key (some e') (CSessionDL.getKey settings text)).isSome := by
    by_cases h : CSessionDL.getKey settings text = key
    · rw [h, Function.update_self, Function.update_self]
      rfl
    · rw [Function.update_of_ne h, Function.update_of_ne h]
  rw [ISPSessionMiddleWare.accept, ISPSessionMiddleWare.accept, hsome]

/-- INTERNAL: a text that is taken is the one that was looked at. -/
theorem eq_of_accept {database : Keyspace} {text id : Bstr}
    (h : ISPSessionMiddleWare.accept settings database text = some id) : id = text := by
  unfold ISPSessionMiddleWare.accept at h
  split at h
  · exact (Option.some.inj h).symm
  · split at h
    · exact (Option.some.inj h).symm
    · cases h

/-- INTERNAL: a request that does not take the id works under another key. -/
theorem getKey_ne_of_taken {database : Keyspace} {r : WebRequest} {id taken : Bstr}
    (hcookie : ∀ c, r.cookie = some c → CSessionDL.getKey settings c ≠ CSessionDL.getKey settings id)
    (hurl : ¬ TakesFromUrl settings r id)
    (h : ISPSessionMiddleWare.getSessionIDAsync settings database r = some taken) :
    CSessionDL.getKey settings taken ≠ CSessionDL.getKey settings id := by
  rw [getSessionIDAsync_eq] at h
  obtain ⟨text, htext, haccept⟩ := Option.bind_eq_some_iff.mp h
  obtain rfl := eq_of_accept haccept
  cases hurlText : urlText settings r with
  | some text =>
    rw [hurlText, Option.some_or] at htext
    obtain rfl := Option.some.inj htext
    exact fun hkey => hurl ⟨_, hurlText, hkey⟩
  | none =>
    rw [hurlText, Option.none_or] at htext
    exact hcookie _ (Option.filter_eq_some_iff.mp htext).1

/-- INTERNAL: the request in front of its page, with another entry under the key. -/
theorem enter_update {database : Keyspace} {e e' : RedisEntry} (r : WebRequest) :
    (ISPSessionMiddleWare.enter settings (Function.update database key (some e')) drawn r :
      Exchange host) =
      withEntry key (some e')
        (ISPSessionMiddleWare.enter settings (Function.update database key (some e)) drawn r) := by
  have hid : ISPSessionMiddleWare.getSessionIDAsync settings (Function.update database key (some e')) r =
      ISPSessionMiddleWare.getSessionIDAsync settings (Function.update database key (some e)) r := by
    rw [getSessionIDAsync_eq, getSessionIDAsync_eq]
    congr 1
    funext text
    exact accept_update text
  rw [ISPSessionMiddleWare.enter, ISPSessionMiddleWare.enter, hid, withEntry]
  cases ISPSessionMiddleWare.getSessionIDAsync settings (Function.update database key (some e)) r with
  | none => simp [Function.update_idem]
  | some taken => simp [Function.update_idem]

/-- INTERNAL: its own entry again. -/
theorem withEntry_enter {database : Keyspace} {entry : Option RedisEntry} (r : WebRequest) :
    withEntry key entry
      (ISPSessionMiddleWare.enter settings (Function.update database key entry) drawn r :
        Exchange host) =
      ISPSessionMiddleWare.enter settings (Function.update database key entry) drawn r := by
  unfold ISPSessionMiddleWare.enter withEntry
  cases ISPSessionMiddleWare.getSessionIDAsync settings (Function.update database key entry) r with
  | none => simp [Function.update_idem]
  | some taken => simp [Function.update_idem]

/-- INTERNAL: a request that does not take the id works elsewhere. -/
theorem elsewhere_enter {database : Keyspace} {r : WebRequest} {id : Bstr}
    (hnever : NeverDrawn host settings (CSessionDL.getKey settings id) drawn)
    (hcookie : ∀ c, r.cookie = some c → CSessionDL.getKey settings c ≠ CSessionDL.getKey settings id)
    (hurl : ¬ TakesFromUrl settings r id) :
    Elsewhere settings (CSessionDL.getKey settings id) drawn
      (ISPSessionMiddleWare.enter settings database drawn r : Exchange host) := by
  unfold ISPSessionMiddleWare.enter
  cases hid : ISPSessionMiddleWare.getSessionIDAsync settings database r with
  | none => exact ⟨hnever drawn (Nat.le_refl drawn), fun _ h => (by cases h), Nat.le_succ drawn⟩
  | some taken =>
    exact ⟨getKey_ne_of_taken hcookie hurl hid, fun _ h => (by cases h), Nat.le_refl drawn⟩

/-- INTERNAL: the end of a request. -/
theorem keepsEntry_leave :
    KeepsEntry settings key drawn fun x : Exchange host =>
      ((), ISPSessionMiddleWare.leave settings x) := by
  intro x hx
  obtain ⟨hsame, helse⟩ := (keepsEntry_commitAsync : KeepsEntry settings key drawn _) x hx
  obtain ⟨hsame', helse'⟩ := keepsEntry_startResponse () _ helse
  refine ⟨fun entry => ?_, helse'⟩
  show ((), ((withEntry key entry x).commitAsync settings).2.startResponse) = _
  rw [hsame entry]
  exact hsame' entry

/-- INTERNAL: a page and the end of its request. -/
theorem page_withEntry (hnever : NeverDrawn host settings key drawn) (calls : List SessionCall)
    {x : Exchange host} (hx : Elsewhere settings key drawn x) (entry : Option RedisEntry) :
    ((withEntry key entry x).performAll settings calls).1 = (x.performAll settings calls).1 ∧
      ISPSessionMiddleWare.leave settings ((withEntry key entry x).performAll settings calls).2 =
        withEntry key entry (ISPSessionMiddleWare.leave settings (x.performAll settings calls).2) := by
  obtain ⟨hpage, hafter⟩ := keepsEntry_performAll hnever calls x hx
  obtain ⟨hleave, -⟩ := keepsEntry_leave _ hafter
  have hpage' : (withEntry key entry x).performAll settings calls =
      ((x.performAll settings calls).1, withEntry key entry (x.performAll settings calls).2) :=
    hpage entry
  rw [hpage']
  exact ⟨rfl, congrArg Prod.snd (hleave entry)⟩

/-! ## A record that a text in the query string names -/

section Taken

variable {database : Keyspace} {r : WebRequest} {id text : Bstr}

/-- INTERNAL: such a text is not empty. -/
theorem urlText_ne_nil (h : urlText settings r = some text) : text ≠ [] := by
  have hquery : r.queryValid = true → r.query.headD [] ≠ [] ∧ r.queryText ≠ [] := by
    unfold WebRequest.queryText WebRequest.queryValid
    cases r.query with
    | nil => exact fun hv => absurd hv Bool.false_ne_true
    | cons first rest =>
      intro hv
      have hne : first ≠ [] := by
        rintro rfl
        exact absurd (show ISPSessionIDManager.validate [] = true from hv) (by decide)
      refine ⟨hne, fun hnil => ?_⟩
      cases rest with
      | nil => exact hne (by simpa [List.intercalate] using hnil)
      | cons second rest =>
        simp only [List.intercalate, List.intersperse, List.flatten_cons,
          List.append_eq_nil_iff] at hnil
        exact hne hnil.1
  unfold urlText at h
  split at h
  · rename_i hsnif
    obtain rfl := Option.some.inj h
    exact (hquery (Bool.and_eq_true_iff.mp hsnif).2).1
  · cases hcookie : r.cookie with
    | none =>
      rw [hcookie] at h
      cases h
    | some httpCookie =>
      rw [hcookie] at h
      dsimp only at h
      split at h
      · rename_i hvalid
        obtain rfl := Option.some.inj h
        exact (hquery (Bool.and_eq_true_iff.mp hvalid).2).2
      · cases h

/-- INTERNAL: a payload with a number as the only item. -/
theorem localLoad_number (rt : NetRuntime) (loaders : NetLoaders) (strings : NetStrings)
    (n : BitVec 32) : ∃ items : StateItemCollection strings NetValue,
      PersistUtil.localLoad rt loaders (payloadBytes rt [([65], .primitive .int32 n)]) = .ok items ∧
        items.getName [65] = .ok (.primitive .int32 n) := by
  let item := storedItem rt ([65], .primitive .int32 n)
  have hfits : NetFits rt (.primitive .int32 n) := by
    show (leBytes 4 _).length < 0x7FFFF000
    rw [length_leBytes]
    decide
  have hloads : ∀ i ∈ [item], i.Loads rt loaders := by
    intro i hi
    obtain rfl := List.mem_singleton.mp hi
    exact
      { text := wellFormedUtf16_ascii (by decide : AsciiUtf16 [65])
        fits := (by decide : (stringBytes [65]).length < 0x7FFFF000)
        value := readNetValue_spec loaders trivial trivial hfits }
  have hnames : ∀ i ∈ [item], i.name ≠ [] := by
    intro i hi
    obtain rfl := List.mem_singleton.mp hi
    exact List.cons_ne_nil _ _
  have hload := @localLoad_storedItems strings _ _ [item] hloads (by simp)
  have hkeys := @keys_foldl_putItem strings [item] hnames (List.pairwise_singleton _ _)
  have hentry := @entries_of_mem_items strings [item] hnames
    (fun i hi j hj _ => by
      rw [List.mem_singleton.mp hi, List.mem_singleton.mp hj]) _ (List.mem_singleton_self item)
  refine ⟨_, hload, ?_⟩
  rw [getName_of_mem_keys (by rw [hkeys]; exact List.mem_singleton_self [65])
    (List.cons_ne_nil _ _), StateItemCollection.entry]
  rw [show strings.getHashCode item.name = strings.getHashCode [65] from rfl] at hentry
  rw [hentry]
  rfl

/-- The metadata of a record that expires in 20 minutes and forbids re-entrance. -/
def guardedMetaData : CSessionDL.PersistMetaData where
  Expires := 20
  ReEntrance := 0
  Liquid := 0
  ZLen := 0

/-- The payload with this number as the only item. -/
def numberPayload (host : ManagedHost) (settings : SessionAppSettings) (n : BitVec 32) : Bytes :=
  let bytes := payloadBytes host.runtime [([65], .primitive .int32 n)]
  if settings.Compress then host.deflate.compress bytes else bytes

/-- INTERNAL: a page that reads the item of a record which the query string names sees its
number. -/
theorem replies_taken (hpages : CallsPages settings) (hurl : urlText settings r = some text)
    (hkey : CSessionDL.getKey settings text = CSessionDL.getKey settings id) (n : BitVec 32) :
    (ISPSessionMiddleWare.invoke settings (Function.update database (CSessionDL.getKey settings id)
      (entryOf guardedMetaData (numberPayload host settings n) none)) drawn r
        [.items (.getName [65])] : NetRun (List (NetRun SessionReply)) × Exchange host).1 =
      .ok [.ok (.value (.primitive .int32 n))] := by
  generalize hstored : Function.update database (CSessionDL.getKey settings id)
    (entryOf guardedMetaData (numberPayload host settings n) none) = stored
  have hentry : stored (CSessionDL.getKey settings text) =
      entryOf guardedMetaData (numberPayload host settings n) none := by
    rw [← hstored, hkey, Function.update_self]
  obtain ⟨items, hload, hitem⟩ := localLoad_number host.runtime host.loaders host.strings n
  have hpayload : CSessionDL.payloadStream host.deflate settings guardedMetaData
      (CSessionDL.toByteArray guardedMetaData ++ numberPayload host settings n) =
        .ok (payloadBytes host.runtime [([65], .primitive .int32 n)]) := by
    refine payloadStream_record rfl (fun hc => ⟨by decide, ?_⟩) fun hc => ?_
    · rw [numberPayload, if_pos hc]
      exact host.deflate.decompress_compress _
    · rw [numberPayload, if_neg (Bool.eq_false_iff.mp hc)]
  have hget := sessionGetAsync_of_string (urlText_ne_nil hurl) hentry hpayload hload
  have hid : ISPSessionMiddleWare.getSessionIDAsync settings stored r = some text := by
    rw [getSessionIDAsync_eq, hurl, Option.some_or]
    show ISPSessionMiddleWare.accept settings stored text = some text
    rw [ISPSessionMiddleWare.accept, hentry]
    rfl
  have hentered := unloaded_entered host settings stored drawn text
  have hcheck := checkLoad_fetched hentered rfl hget (by decide)
  have hread : AccessesItems (.items (.getName [65])) := trivial
  have hcreate : ISPSessionStore.create host.strings settings
      (entered host settings stored drawn text).text2 false =
        .ok (.new host.strings settings text false) :=
    create_of_callsPages hpages (urlText_ne_nil hurl)
  rw [ISPSessionMiddleWare.invoke, enter_of_accepted hid, hcreate]
  show Except.ok [(Exchange.perform settings (entered host settings stored drawn text)
    (.items (.getName [65]))).1] = _
  rw [perform_of_checkLoad hread (by intro h; cases h) hcheck rfl,
    reply_perform (x := fetched _ _) rfl (show ReadsItem (.items (.getName [65])) [65] from rfl)]
  show Except.ok [(items.getName [65]).map _] = _
  rw [hitem]
  rfl

/-- **Such a record is not hidden**: two payloads of it show. -/
theorem not_hidesForbidden (hpages : CallsPages settings) (hurl : urlText settings r = some text)
    (hkey : CSessionDL.getKey settings text = CSessionDL.getKey settings id) :
    ¬ HidesForbidden host settings database drawn r id := by
  intro hhides
  obtain ⟨hsame, -⟩ := hhides guardedMetaData rfl none (numberPayload host settings 5)
    (numberPayload host settings 6) [.items (.getName [65])]
  have hreplies := (replies_taken hpages hurl hkey 5).symm.trans
    (hsame.trans (replies_taken hpages hurl hkey 6))
  injection hreplies with hreplies
  injection hreplies with hreply
  injection hreply with hvalue
  injection hvalue with hprimitive
  injection hprimitive with _ hnumber
  exact absurd hnumber (by decide)

end Taken

/-! ## The theorem -/

/-- **A record that forbids re-entrance is hidden exactly from the requests whose query string
is not taken for its id**, where pages are called at all: nothing else stands between the two. -/
theorem hidesForbidden_iff {database : Keyspace} {r : WebRequest} {id : Bstr}
    (hcookie : ∀ c, r.cookie = some c → CSessionDL.getKey settings c ≠ CSessionDL.getKey settings id)
    (hnever : NeverDrawn host settings (CSessionDL.getKey settings id) drawn) :
    HidesForbidden host settings database drawn r id ↔
      ¬ (CallsPages settings ∧ TakesFromUrl settings r id) := by
  constructor
  · rintro hhides ⟨hpages, text, hurl, hkey⟩
    exact not_hidesForbidden hpages hurl hkey hhides
  · intro hcase m _ ttl payload payload' calls
    dsimp only
    have henter : (ISPSessionMiddleWare.enter settings (Function.update database
        (CSessionDL.getKey settings id) (entryOf m payload' ttl)) drawn r : Exchange host) =
        withEntry (CSessionDL.getKey settings id) (entryOf m payload' ttl)
          (ISPSessionMiddleWare.enter settings (Function.update database
            (CSessionDL.getKey settings id) (entryOf m payload ttl)) drawn r) := enter_update r
    have hown := @withEntry_enter host settings (CSessionDL.getKey settings id) drawn database
      (entryOf m payload ttl) r
    rw [ISPSessionMiddleWare.invoke, ISPSessionMiddleWare.invoke, henter]
    dsimp only
    generalize hx : ISPSessionMiddleWare.enter settings (Function.update database
      (CSessionDL.getKey settings id) (entryOf m payload ttl)) drawn r = x at hown ⊢
    have htext : (withEntry (CSessionDL.getKey settings id) (entryOf m payload' ttl) x).text2 =
      x.text2 := rfl
    rw [htext]
    cases hcreate : ISPSessionStore.create host.strings settings x.text2 false with
    | error e =>
      refine ⟨rfl, ?_⟩
      dsimp only
      rw [← hown]
      exact Function.update_self ..
    | ok s =>
      have hpages : CallsPages settings := callsPages_of_create hcreate
      have helse : Elsewhere settings (CSessionDL.getKey settings id) drawn x :=
        hx ▸ elsewhere_enter hnever hcookie fun htaken => hcase ⟨hpages, htaken⟩
      dsimp only
      constructor
      · exact congrArg Except.ok (page_withEntry hnever calls helse _).1.symm
      · have hsame := (page_withEntry hnever calls helse (entryOf m payload ttl)).2
        rw [hown] at hsame
        exact (congrArg (fun y : Exchange host => y.database (CSessionDL.getKey settings id))
          hsame).trans (Function.update_self ..)

/-- A request with the id of the record in its query string alone. -/
def urlRequest : WebRequest where
  query := [sampleId]
  cookie := none

/-- Where the query string is not looked at first, a request without a cookie does not see the
record. -/
theorem urlRequest_hidesForbidden :
    HidesForbidden sampleHost sampleSettings (fun _ => none) 0 urlRequest sampleId := by
  have hnever : NeverDrawn sampleHost sampleSettings
      (CSessionDL.getKey sampleSettings sampleId) 0 := fun n _ => getKey_idAt_sampleHost n
  refine (hidesForbidden_iff (fun c hc => by cases hc) hnever).mpr ?_
  rintro ⟨-, text, hurl, -⟩
  cases hurl

/-- **Where it is, the request sees the items of the record.** -/
theorem urlRequest_not_hidesForbidden :
    ¬ HidesForbidden sampleHost { sampleSettings with SnifQueryStringFirst := true }
      (fun _ => none) 0 urlRequest sampleId := by
  have hvalid : urlRequest.queryValid = true := validate_guidToHex _
  have hurl : urlText { sampleSettings with SnifQueryStringFirst := true } urlRequest =
      some sampleId := by
    rw [urlText, hvalid]
    rfl
  have hpages : CallsPages { sampleSettings with SnifQueryStringFirst := true } := by
    intro t ht
    cases ht
  exact not_hidesForbidden hpages hurl rfl

end IspSession.Analysis
