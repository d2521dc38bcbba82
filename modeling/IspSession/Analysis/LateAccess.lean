import IspSession.Analysis.LiquidIds

/-!
# The moment of the first access

`StoredItems` follows what a page does to the items of the stored session. A page whose first
access comes in time (`InTime`) sees these items and leaves them in the record. After the response
has started `TryEstablishSession` fetches nothing, and `CheckLoad` counts the session as loaded
all the same: the page sees an empty session then, and what it stores replaces the record.
-/

set_option autoImplicit false

namespace IspSession.Analysis

open IspSession.Library IspSession.Model

variable {host : ManagedHost} {settings : SessionAppSettings} {x : Exchange host}
  {database : Keyspace} {drawn : ℕ} {id : Bstr}

/-! ## The claim -/

section Items

variable {strings : NetStrings}

/-- What a call does to the items. -/
def effectOn (s : StateItemCollection strings NetValue) :
    SessionCall → StateItemCollection strings NetValue
  | .items op => (s.perform op).2
  | .abandon => s.clear
  | _ => s

/-- The items of a record after these calls. Loading has reset their flags. -/
def changedItems (items : StateItemCollection strings NetValue) (calls : List SessionCall) :
    StateItemCollection strings NetValue :=
  calls.foldl effectOn { items with isReadOnly := false, dirty := false }

end Items

/-- The call may write the item of this name. -/
def WritesItem : SessionCall → Bstr → Prop
  | .items (.setName n _), name => n = name
  | .items (.remove n), name => n = name
  | .items (.setIndex _ _), _ | .items (.removeAt _), _ | .items .clear, _ | .abandon, _ => True
  | _, _ => False

/-- The call reads the item of this name. -/
def ReadsItem : SessionCall → Bstr → Prop
  | .items (.getName n), name | .tryGetValue n, name => n = name
  | _, _ => False

/-- What it returns of the value. -/
def readReply : SessionCall → NetValue → SessionReply
  | .tryGetValue _, v => .bytes (ApplicationCache.bytesOf v)
  | _, v => .value v

/-- Each read of a name that was not written before returns the stored value. -/
def SeesStored {strings : NetStrings} (items : StateItemCollection strings NetValue)
    (calls : List SessionCall) (replies : List (NetRun SessionReply)) : Prop :=
  ∀ i call name, calls[i]? = some call → ReadsItem call name →
    (∀ earlier ∈ calls.take i, ¬ WritesItem earlier name) →
      replies[i]? = some ((items.getName name).map (readReply call))

/-- The session of this request is not lost: its reads see the stored values, and the commit
leaves the stored items with its changes. -/
def NotLost (settings : SessionAppSettings) (items : StateItemCollection host.strings NetValue)
    (calls : List SessionCall) (run : List (NetRun SessionReply) × Exchange host) : Prop :=
  SeesStored items calls run.1 ∧
    Decodes host settings (run.2.commitAsync settings).2.database run.2.session.SessionID
      (changedItems items calls)

/-- The first access comes in time: it is `LoadAsync`, or the response has not started and the
session is not liquid. -/
def InTime (liquid : Bool) : Bool → List SessionCall → Prop
  | _, [] => True
  | _, .loadAsync :: _ => True
  | _, .startResponse :: calls => InTime liquid true calls
  | started, .items _ :: _ | started, .count :: _ | started, .keys :: _
  | started, .tryGetValue _ :: _ | started, .abandon :: _ => started = false ∧ liquid = false
  | started, _ :: calls => InTime liquid started calls

/-- No name that is set or removed is taken for another name that is read. -/
def ReadsApart (strings : NetStrings) (calls : List SessionCall) : Prop :=
  ∀ writer ∈ calls, ∀ reader ∈ calls, ∀ name other, WritesItem writer other →
    ReadsItem reader name → ¬ WritesItem writer name →
      strings.compare name other ≠ .eq ∧
        strings.getHashCode name ≠ strings.getHashCode other

/-! ## Reads -/

section Reads

variable {strings : NetStrings} {s : StateItemCollection strings NetValue}

/-- INTERNAL: reading a name by its place and its value. -/
theorem getName_congr {t : StateItemCollection strings NetValue} {name : Bstr}
    (hcontains : t.contains name = s.contains name)
    (hentries : t.entries (strings.getHashCode name) = s.entries (strings.getHashCode name)) :
    t.getName name = s.getName name := by
  rw [StateItemCollection.getName, StateItemCollection.getName, hcontains,
    StateItemCollection.entry, StateItemCollection.entry, hentries]

/-- INTERNAL: a call that does not write a name leaves what is read under it. -/
theorem getName_effectOn {call : SessionCall} {name : Bstr} (hwrites : ¬ WritesItem call name)
    (hapart : ∀ other, WritesItem call other →
      strings.compare name other ≠ .eq ∧ strings.getHashCode name ≠ strings.getHashCode other) :
    (effectOn s call).getName name = s.getName name := by
  cases call with
  | items op =>
    cases op with
    | setName n value =>
      obtain ⟨hcompare, hhash⟩ := hapart n rfl
      show ((s.changing (s.setName n value)).2).getName name = _
      rw [StateItemCollection.setName]
      split
      · rfl
      · refine getName_congr ?_ (Function.update_of_ne hhash _ _)
        show ((s.entriesTable.insert n ()).find name).isSome = (s.entriesTable.find name).isSome
        rw [OrderedMap.find_insert, if_neg hcompare, Option.or_none]
    | remove n =>
      obtain ⟨hcompare, hhash⟩ := hapart n rfl
      show (s.remove n).getName name = _
      rw [StateItemCollection.remove]
      split
      · refine getName_congr ?_ (Function.update_of_ne hhash _ _)
        show ((s.entriesTable.erase n).find name).isSome = (s.entriesTable.find name).isSome
        rw [OrderedMap.find_erase, if_neg hcompare]
      · rfl
    | setIndex index value => exact absurd trivial hwrites
    | removeAt index => exact absurd trivial hwrites
    | clear => exact absurd trivial hwrites
    | getName n => rfl
    | getIndex index => rfl
  | abandon => exact absurd trivial hwrites
  | _ => rfl

/-- INTERNAL: so do several. -/
theorem getName_foldl_effectOn {calls : List SessionCall} {name : Bstr}
    (hwrites : ∀ call ∈ calls, ¬ WritesItem call name)
    (hapart : ∀ call ∈ calls, ∀ other, WritesItem call other →
      strings.compare name other ≠ .eq ∧ strings.getHashCode name ≠ strings.getHashCode other) :
    (calls.foldl effectOn s).getName name = s.getName name := by
  induction calls generalizing s with
  | nil => rfl
  | cons call calls ih =>
    rw [List.foldl_cons, ih (fun c hc => hwrites c (List.mem_cons_of_mem _ hc))
      (fun c hc => hapart c (List.mem_cons_of_mem _ hc))]
    exact getName_effectOn (hwrites call List.mem_cons_self) (hapart call List.mem_cons_self)

end Reads

/-! ## In front of the first access -/

/-- A request that has not used its session yet. -/
structure Unused (settings : SessionAppSettings) (database : Keyspace) (drawn : ℕ) (id : Bstr)
    (x : Exchange host) : Prop where
  unloaded : Unloaded x
  database : x.database = database
  sessionID : x.session.SessionID = id
  oldSessionID : x.session.OldSessionID = none
  isAbandoned : x.session.isAbandoned = false
  sessionItems : x.session.sessionItems = .new
  drawn : x.drawn = drawn

theorem unused_entered (host : ManagedHost) (settings : SessionAppSettings) (database : Keyspace)
    (drawn : ℕ) (id : Bstr) :
    Unused settings database drawn id (entered host settings database drawn id) where
  unloaded := unloaded_entered host settings database drawn id
  database := rfl
  sessionID := rfl
  oldSessionID := rfl
  isAbandoned := rfl
  sessionItems := rfl
  drawn := rfl

/-- INTERNAL: a member that does not use the session leaves it unused; the response may start. -/
theorem Unused.perform (h : Unused settings database drawn id x) {call : SessionCall}
    (haccess : ¬ AccessesItems call) (hcommit : call ≠ .commitAsync) :
    Unused settings database drawn id (x.perform settings call).2 := by
  obtain ⟨⟨hloaded, hnew⟩, hdatabase, hid, hold, habandoned, hitems, hdrawn⟩ := h
  cases call with
  | items op => exact absurd trivial haccess
  | count => exact absurd trivial haccess
  | keys => exact absurd trivial haccess
  | tryGetValue key => exact absurd trivial haccess
  | abandon => exact absurd trivial haccess
  | loadAsync => exact absurd trivial haccess
  | commitAsync => exact absurd rfl hcommit
  | startResponse =>
    rw [Exchange.perform, Exchange.startResponse]
    split <;> exact ⟨⟨hloaded, hnew⟩, hdatabase, hid, hold, habandoned, hitems, hdrawn⟩
  | _ => exact ⟨⟨hloaded, hnew⟩, hdatabase, hid, hold, habandoned, hitems, hdrawn⟩

/-! ## At work on the record -/

section Record

variable {m : CSessionDL.PersistMetaData} {items : StateItemCollection host.strings NetValue}

/-- A request that works on the fetched items, whose record is, or will be, under its id. -/
def AtWork (settings : SessionAppSettings) (database : Keyspace) (m : CSessionDL.PersistMetaData)
    (items : StateItemCollection host.strings NetValue) (x : Exchange host) : Prop :=
  ∃ newId old, Working database newId old items x ∧ newId ≠ [] ∧
    CSessionDL.sessionGetAsync host settings (renamed settings database newId old) newId =
      .ok (some (m, items))

/-- INTERNAL: the items that a loaded session works with are changed as calls change items. -/
theorem items_perform (h : x.session.wasLoaded = true) {call : SessionCall}
    (hcommit : call ≠ .commitAsync) :
    (x.perform settings call).2.session.sessionItems = effectOn x.session.sessionItems call := by
  cases call with
  | items op =>
    rw [Exchange.perform, loaded_eq h]
    rfl
  | count =>
    rw [Exchange.perform, loaded_eq h]
    rfl
  | keys =>
    rw [Exchange.perform, loaded_eq h]
    rfl
  | tryGetValue key =>
    rw [Exchange.perform, loaded_eq h]
    rfl
  | abandon =>
    rw [Exchange.perform, loaded_eq h]
    rfl
  | loadAsync =>
    rw [Exchange.perform, loadAsync_of_wasLoaded h]
    rfl
  | commitAsync => exact absurd rfl hcommit
  | startResponse =>
    rw [Exchange.perform, Exchange.startResponse]
    split <;> rfl
  | _ => rfl

/-- INTERNAL: a read of a loaded session. -/
theorem reply_perform (h : x.session.wasLoaded = true) {call : SessionCall} {name : Bstr}
    (hread : ReadsItem call name) :
    (x.perform settings call).1 = (x.session.sessionItems.getName name).map (readReply call) := by
  cases call with
  | tryGetValue key =>
    obtain rfl : key = name := hread
    rw [Exchange.perform, loaded_eq h]
    rfl
  | items op =>
    cases op with
    | getName n =>
      obtain rfl : n = name := hread
      rw [Exchange.perform, loaded_eq h]
      rfl
    | _ => exact False.elim hread
  | _ => exact False.elim hread

/-- INTERNAL: a call keeps a request at work. -/
theorem AtWork.perform (h : AtWork settings database m items x) {call : SessionCall}
    (hcommit : call ≠ .commitAsync) :
    AtWork settings database m items (x.perform settings call).2 := by
  obtain ⟨newId, old, hwork, hrest⟩ := h
  exact ⟨newId, old, hwork.perform hcommit, hrest⟩

/-- INTERNAL: `LoadAsync` of a liquid session after the response has started. -/
theorem loadAsync_late (hx : Unloaded x) (hlate : x.hasStarted = true)
    (hget : CSessionDL.sessionGetAsync host settings x.database x.session.SessionID =
      .ok (some (m, items)))
    (hliquid : m.Liquid = -1) :
    (x.loadAsync settings (Exchange.tryEstablish settings)).2 =
      if host.lateCallbackThrows then fetched x (m, items)
      else registered (fetched x (m, items)) := by
  have hyes : (x.session.initItems (some (m, items))).liquid = true := decide_eq_true hliquid
  rw [Exchange.loadAsync, hx.wasLoaded, if_neg Bool.false_ne_true, hget]
  dsimp only
  rw [hyes, if_pos rfl]
  have hestablish : (fetched x (m, items)).tryEstablish settings =
      if host.lateCallbackThrows then (.error .invalidOperation, fetched x (m, items))
      else (.ok (), registered (fetched x (m, items))) := by
    have hstarted : (fetched x (m, items)).hasStarted = true := hlate
    rw [tryEstablish_eq, tryEstablishSession_eq, hstarted, Bool.true_and, Bool.not_true,
      Bool.false_and, if_neg Bool.false_ne_true]
  rw [show Exchange.tryEstablish settings { x with session := x.session.initItems (some (m, items)) } =
    _ from hestablish]
  cases host.lateCallbackThrows <;> rfl

/-- INTERNAL: the items are fetched then, and the id stays. -/
theorem loadAsync_lateLiquid (hx : Unused settings database drawn id x) (hlate : x.hasStarted = true)
    (hrecord : CSessionDL.sessionGetAsync host settings database id = .ok (some (m, items)))
    (hliquid : m.Liquid = -1) :
    Working database id none items (x.loadAsync settings (Exchange.tryEstablish settings)).2 ∧
      (x.loadAsync settings (Exchange.tryEstablish settings)).2.session.sessionItems =
        { items with isReadOnly := false, dirty := false } := by
  have hfetched : Working database id none items (fetched x (m, items)) :=
    working_fetched hrecord hx.database hx.sessionID hx.oldSessionID hx.isAbandoned
  have hget : CSessionDL.sessionGetAsync host settings x.database x.session.SessionID =
      .ok (some (m, items)) := by rw [hx.database, hx.sessionID, hrecord]
  rw [loadAsync_late hx.unloaded hlate hget hliquid]
  split
  · exact ⟨hfetched, rfl⟩
  · exact ⟨hfetched.keep rfl rfl rfl rfl hfetched.isAbandoned
      (fun hd => ⟨hd, unchanged_refl _⟩) rfl rfl, rfl⟩

/-- INTERNAL: the items as loading leaves them. -/
def storedItems (items : StateItemCollection host.strings NetValue) :
    StateItemCollection host.strings NetValue :=
  { items with isReadOnly := false, dirty := false }

/-- INTERNAL: a session under its own id is at work on its record. -/
theorem atWork_of_working (h : Working database id none items x)
    (hrecord : CSessionDL.sessionGetAsync host settings database id = .ok (some (m, items))) :
    AtWork settings database m items x :=
  ⟨id, none, h, (entry_of_sessionGetAsync hrecord).1, hrecord⟩

/-- INTERNAL: `LoadAsync` as the first access, at any moment. -/
theorem atWork_loadAsync (hx : Unused settings database drawn id x)
    (hrecord : CSessionDL.sessionGetAsync host settings database id = .ok (some (m, items)))
    (hfresh : m.Liquid = -1 → FreshIds host settings database drawn) :
    AtWork settings database m items (x.loadAsync settings (Exchange.tryEstablish settings)).2 ∧
      (x.loadAsync settings (Exchange.tryEstablish settings)).2.session.sessionItems =
        storedItems items := by
  have hget : CSessionDL.sessionGetAsync host settings x.database x.session.SessionID =
      .ok (some (m, items)) := by rw [hx.database, hx.sessionID, hrecord]
  have hfetched : Working database id none items (fetched x (m, items)) :=
    working_fetched hrecord hx.database hx.sessionID hx.oldSessionID hx.isAbandoned
  by_cases hliquid : m.Liquid = -1
  · cases hstarted : x.hasStarted with
    | true =>
      obtain ⟨hwork, hitems⟩ := loadAsync_lateLiquid hx hstarted hrecord hliquid
      exact ⟨atWork_of_working hwork hrecord, hitems⟩
    | false =>
      rw [show x.loadAsync settings (Exchange.tryEstablish settings) = _ from
        loadAsync_liquid 1 hx.unloaded hstarted hget hliquid]
      obtain ⟨hne, -, blob, ttl, hentry⟩ := entry_of_sessionGetAsync hrecord
      have hdrawn : (registered (fetched x (m, items))).drawn = drawn := hx.drawn
      have hkeys := getKey_idAt_ne (hfresh hliquid) (Nat.le_refl drawn) hentry
      have hmoved : renamed settings database (idAt host drawn) (some id)
          (CSessionDL.getKey settings (idAt host drawn)) = some { value := .string blob, ttl } := by
        rw [renamed_moves settings hne (fun h => hkeys (congrArg _ h.symm)) hentry,
          Function.update_self]
      have hwork : Working database (idAt host drawn) (some id) items
          ((registered (fetched x (m, items))).rotate x.managers.length) := by
        have hregistered : Working database id none items (registered (fetched x (m, items))) :=
          hfetched.keep rfl rfl rfl rfl hfetched.isAbandoned
            (fun hd => ⟨hd, unchanged_refl _⟩) rfl rfl
        have hrotated := hregistered.rotate x.managers.length
        rw [hdrawn] at hrotated
        exact hrotated
      exact ⟨⟨_, _, hwork, idAt_ne_nil drawn,
        (sessionGetAsync_congr hne (idAt_ne_nil drawn) hentry hmoved).trans hrecord⟩, rfl⟩
  · rw [loadAsync_fetched hx.unloaded hget hliquid]
    exact ⟨atWork_of_working hfetched hrecord, rfl⟩

/-- INTERNAL: the first access, in time. -/
theorem atWork_of_first {call : SessionCall} {calls : List SessionCall}
    (hx : Unused settings database drawn id x)
    (hrecord : CSessionDL.sessionGetAsync host settings database id = .ok (some (m, items)))
    (hfresh : m.Liquid = -1 → FreshIds host settings database drawn)
    (hcall : AccessesItems call)
    (htime : InTime (decide (m.Liquid = -1)) x.hasStarted (call :: calls)) :
    AtWork settings database m items (x.perform settings call).2 ∧
      (x.perform settings call).2.session.sessionItems = effectOn (storedItems items) call ∧
      ∀ name, ReadsItem call name →
        (x.perform settings call).1 =
          ((storedItems items).getName name).map (readReply call) := by
  by_cases hload : call = .loadAsync
  · subst hload
    obtain ⟨hwork, hitems⟩ := atWork_loadAsync hx hrecord hfresh
    exact ⟨hwork, hitems, fun name hread => False.elim hread⟩
  · have hearly : x.hasStarted = false ∧ decide (m.Liquid = -1) = false := by
      cases call with
      | loadAsync => exact absurd rfl hload
      | items op => exact htime
      | count => exact htime
      | keys => exact htime
      | tryGetValue key => exact htime
      | abandon => exact htime
      | _ => exact False.elim hcall
    have hcommit : call ≠ .commitAsync := by
      rintro rfl
      exact hcall
    have hget : CSessionDL.sessionGetAsync host settings x.database x.session.SessionID =
        .ok (some (m, items)) := by rw [hx.database, hx.sessionID, hrecord]
    have hfetched : Working database id none items (fetched (registered x) (m, items)) :=
      working_fetched (x := registered x) hrecord hx.database hx.sessionID hx.oldSessionID
        hx.isAbandoned
    rw [perform_of_checkLoad hcall hload
      (checkLoad_fetched hx.unloaded hearly.1 hget (of_decide_eq_false hearly.2)) rfl]
    exact ⟨(atWork_of_working hfetched hrecord).perform hcommit,
      items_perform hfetched.wasLoaded hcommit,
      fun name hread => reply_perform hfetched.wasLoaded hread⟩

/-! ## A whole page -/

/-- What the reads of a page return when its calls work on these items from the first one on. -/
def RepliesFrom (s : StateItemCollection host.strings NetValue) (calls : List SessionCall)
    (replies : List (NetRun SessionReply)) : Prop :=
  ∀ i call name, calls[i]? = some call → ReadsItem call name →
    replies[i]? = some ((((calls.take i).foldl effectOn s).getName name).map (readReply call))

/-- INTERNAL: by the first call. -/
theorem repliesFrom_cons {s : StateItemCollection host.strings NetValue} {call : SessionCall}
    {calls : List SessionCall} {r : NetRun SessionReply} {rs : List (NetRun SessionReply)}
    (hfirst : ∀ name, ReadsItem call name → r = (s.getName name).map (readReply call))
    (hrest : RepliesFrom (effectOn s call) calls rs) : RepliesFrom s (call :: calls) (r :: rs) := by
  intro i c name hc hread
  cases i with
  | zero =>
    obtain rfl : call = c := Option.some.inj hc
    exact congrArg some (hfirst name hread)
  | succ i => exact hrest i c name hc hread

/-- **A page on a loaded session.** -/
theorem performAll_atWork {calls : List SessionCall} (h : AtWork settings database m items x)
    (hcommit : .commitAsync ∉ calls) :
    RepliesFrom x.session.sessionItems calls (x.performAll settings calls).1 ∧
      AtWork settings database m items (x.performAll settings calls).2 ∧
      (x.performAll settings calls).2.session.sessionItems =
        calls.foldl effectOn x.session.sessionItems := by
  induction calls generalizing x with
  | nil => exact ⟨fun i call name hc => (by cases hc), h, rfl⟩
  | cons call calls ih =>
    rw [List.mem_cons, not_or] at hcommit
    have hloaded : x.session.wasLoaded = true := by
      obtain ⟨newId, old, hwork, -⟩ := h
      exact hwork.wasLoaded
    obtain ⟨hreplies, hwork, hitems⟩ := ih (h.perform (Ne.symm hcommit.1)) hcommit.2
    rw [items_perform hloaded (Ne.symm hcommit.1)] at hreplies hitems
    exact ⟨repliesFrom_cons (fun name hread => reply_perform hloaded hread) hreplies, hwork, hitems⟩

/-- **A page whose first access comes in time.** -/
theorem performAll_inTime {calls : List SessionCall} (hx : Unused settings database drawn id x)
    (hrecord : CSessionDL.sessionGetAsync host settings database id = .ok (some (m, items)))
    (hfresh : m.Liquid = -1 → FreshIds host settings database drawn)
    (hcommit : .commitAsync ∉ calls)
    (htime : InTime (decide (m.Liquid = -1)) x.hasStarted calls) :
    RepliesFrom (storedItems items) calls (x.performAll settings calls).1 ∧
      (AtWork settings database m items (x.performAll settings calls).2 ∧
          (x.performAll settings calls).2.session.sessionItems =
            calls.foldl effectOn (storedItems items) ∨
        Unused settings database drawn id (x.performAll settings calls).2 ∧
          calls.foldl effectOn (storedItems items) = storedItems items) := by
  induction calls generalizing x with
  | nil => exact ⟨fun i call name hc => (by cases hc), .inr ⟨hx, rfl⟩⟩
  | cons call calls ih =>
    rw [List.mem_cons, not_or] at hcommit
    by_cases haccess : AccessesItems call
    · obtain ⟨hwork, hitems, hreply⟩ := atWork_of_first hx hrecord hfresh haccess htime
      obtain ⟨hreplies, hwork', hitems'⟩ := performAll_atWork hwork hcommit.2
      rw [hitems] at hreplies hitems'
      exact ⟨repliesFrom_cons hreply hreplies, .inl ⟨hwork', hitems'⟩⟩
    · have hunused := hx.perform haccess (Ne.symm hcommit.1)
      have htime' : InTime (decide (m.Liquid = -1)) (x.perform settings call).2.hasStarted calls := by
        cases call with
        | startResponse =>
          have hstarted : (x.perform settings .startResponse).2.hasStarted = true := by
            rw [Exchange.perform, Exchange.startResponse]
            split
            · assumption
            · rfl
          rw [hstarted]
          exact htime
        | commitAsync => exact absurd rfl hcommit.1
        | items op => exact absurd trivial haccess
        | count => exact absurd trivial haccess
        | keys => exact absurd trivial haccess
        | tryGetValue key => exact absurd trivial haccess
        | abandon => exact absurd trivial haccess
        | loadAsync => exact absurd trivial haccess
        | _ => exact htime
      have heffect : effectOn (storedItems items) call = storedItems items := by
        cases call with
        | items op => exact absurd trivial haccess
        | abandon => exact absurd trivial haccess
        | _ => rfl
      obtain ⟨hreplies, hend⟩ := ih hunused hcommit.2 htime'
      refine ⟨repliesFrom_cons (fun name hread => ?_) (heffect.symm ▸ hreplies), ?_⟩
      · cases call with
        | items op => exact absurd trivial haccess
        | tryGetValue key => exact absurd trivial haccess
        | _ => exact False.elim hread
      · rw [List.foldl_cons, heffect]
        exact hend

/-! ## The theorem -/

/-- INTERNAL: the items as loading leaves them are the items of the record. -/
theorem decodes_storedItems {database' : Keyspace} {newId : Bstr} (hvalued : Valued items)
    (hget : CSessionDL.sessionGetAsync host settings database' newId = .ok (some (m, items))) :
    Decodes host settings database' newId (storedItems items) :=
  ⟨m, items, hget, sameItems_unchanged hvalued ⟨rfl, .inl rfl⟩⟩

/-- INTERNAL: the commit of a request that has not used its session keeps the record. -/
theorem decodes_unused (hx : Unused settings database drawn id x)
    (hrecord : CSessionDL.sessionGetAsync host settings database id = .ok (some (m, items)))
    (hcontents : ∃ out, PersistUtil.localContents host.runtime x.session.sessionItems = .ok out)
    (htime : 0 < CSessionDL.milliseconds x.session.timeOut) :
    Decodes host settings (x.commitAsync settings).2.database id (storedItems items) := by
  obtain ⟨hne, hvalued, blob, ttl, hentry⟩ := entry_of_sessionGetAsync hrecord
  obtain ⟨⟨bytes, zLen⟩, hcontents⟩ := hcontents
  have hstanding : Standing database id none x :=
    { database := hx.database
      sessionID := hx.sessionID
      oldSessionID := hx.oldSessionID
      isAbandoned := hx.isAbandoned
      isReadOnly := by rw [hx.sessionItems]; rfl
      isNew := by rw [hx.sessionItems]; rfl }
  have hclean : x.session.sessionItems.dirty = false := by rw [hx.sessionItems]; rfl
  have hafter : (x.commitAsync settings).2.database (CSessionDL.getKey settings id) =
      some { value := .string blob
             ttl := some (CSessionDL.milliseconds x.session.timeOut) } := by
    rw [commitAsync_database hstanding hcontents,
      if_neg (by rw [hclean]; exact Bool.false_ne_true), Keyspace.execute,
      Function.update_self, show renamed settings database id none = database from rfl, hentry,
      Keyspace.expireIn, if_neg (by omega)]
  exact decodes_storedItems hvalued ((sessionGetAsync_congr hne hne hentry hafter).trans hrecord)

/-- **A session is not lost when its first access comes in time**: for every request on a stored
session, whatever its calls and wherever the response starts among them. -/
theorem notLost_of_inTime {r : WebRequest} {calls : List SessionCall}
    {run : List (NetRun SessionReply) × Exchange host}
    (hid : ISPSessionMiddleWare.getSessionIDAsync settings database r = some id)
    (hrecord : CSessionDL.sessionGetAsync host settings database id = .ok (some (m, items)))
    (hfresh : m.Liquid = -1 → FreshIds host settings database drawn)
    (hcommit : .commitAsync ∉ calls)
    (hintime : InTime (decide (m.Liquid = -1)) false calls)
    (hapart : ReadsApart host.strings calls)
    (hrun : Exchange.performAll settings calls
      (ISPSessionMiddleWare.enter settings database drawn r) = run)
    (hcommittable : Committable host settings run.2.session.sessionItems)
    (htime : 0 < CSessionDL.milliseconds run.2.session.timeOut) :
    NotLost settings items calls run := by
  rw [enter_of_accepted hid] at hrun
  obtain ⟨hreplies, hend⟩ := performAll_inTime
    (unused_entered host settings database drawn id) hrecord hfresh hcommit hintime
  rw [hrun] at hreplies hend
  refine ⟨fun i call name hcall hread hearlier => ?_, ?_⟩
  · rw [hreplies i call name hcall hread,
      getName_foldl_effectOn hearlier fun writer hwriter other hwrites => ?_]
    · rfl
    · exact hapart writer (List.mem_of_mem_take hwriter) call (List.mem_of_getElem? hcall) name other
        hwrites hread (hearlier writer hwriter)
  · rcases hend with ⟨⟨newId, old, hwork, hne, hget⟩, hitems⟩ | ⟨hunused, hsame⟩
    · rw [hwork.sessionID, changedItems, show ({ items with isReadOnly := false, dirty := false } :
        StateItemCollection host.strings NetValue) = storedItems items from rfl, ← hitems]
      exact (commit_leaves hwork hne (fun _ => hget) hcommittable htime).2
    · rw [hunused.sessionID, changedItems, show ({ items with isReadOnly := false, dirty := false } :
        StateItemCollection host.strings NetValue) = storedItems items from rfl, hsame]
      exact decodes_unused hunused hrecord hcommittable.contents htime

/-- INTERNAL: a request stays unused over members that do not use the session. -/
theorem Unused.performAll {calls : List SessionCall} (hx : Unused settings database drawn id x)
    (haccess : ∀ call ∈ calls, ¬ AccessesItems call) (hcommit : .commitAsync ∉ calls) :
    Unused settings database drawn id (x.performAll settings calls).2 := by
  induction calls generalizing x with
  | nil => exact hx
  | cons call calls ih =>
    rw [List.mem_cons, not_or] at hcommit
    exact ih (hx.perform (haccess call List.mem_cons_self) (Ne.symm hcommit.1))
      (fun c hc => haccess c (List.mem_cons_of_mem _ hc)) hcommit.2

/-- INTERNAL: a response that has started stays so; `startResponse` starts it. -/
theorem hasStarted_perform_unused {call : SessionCall} (haccess : ¬ AccessesItems call)
    (h : x.hasStarted = true ∨ call = .startResponse) :
    (x.perform settings call).2.hasStarted = true := by
  cases call with
  | items op => exact absurd trivial haccess
  | count => exact absurd trivial haccess
  | keys => exact absurd trivial haccess
  | tryGetValue key => exact absurd trivial haccess
  | abandon => exact absurd trivial haccess
  | loadAsync => exact absurd trivial haccess
  | startResponse =>
    rw [Exchange.perform, Exchange.startResponse]
    split
    · assumption
    · rfl
  | commitAsync =>
    rw [Exchange.perform, Exchange.replied, (commitAsync_response settings x).2.1]
    exact h.resolve_right (by rintro ⟨⟩)
  | _ => exact h.resolve_right (by rintro ⟨⟩)

/-- INTERNAL: the replies of a page in two parts. -/
theorem performAll_append (calls calls' : List SessionCall) (x : Exchange host) :
    x.performAll settings (calls ++ calls') =
      ((x.performAll settings calls).1 ++
          ((x.performAll settings calls).2.performAll settings calls').1,
        ((x.performAll settings calls).2.performAll settings calls').2) := by
  induction calls generalizing x with
  | nil => rfl
  | cons call calls ih =>
    show (_ :: ((x.perform settings call).2.performAll settings (calls ++ calls')).1,
      ((x.perform settings call).2.performAll settings (calls ++ calls')).2) = _
    rw [ih]
    rfl

theorem length_performAll (calls : List SessionCall) (x : Exchange host) :
    (x.performAll settings calls).1.length = calls.length := by
  induction calls generalizing x with
  | nil => rfl
  | cons call calls ih => exact congrArg (· + 1) (ih _)

/-- INTERNAL: what a read returns that comes first, after the response has started. -/
theorem reply_late (hx : Unused settings database drawn id x) (hlate : x.hasStarted = true)
    {name : Bstr} (hname : name ≠ []) :
    (x.perform settings (.items (.getName name))).1 =
      if host.lateCallbackThrows then .error .invalidOperation else .ok (.value .null) := by
  have hempty : (StateItemCollection.new : StateItemCollection host.strings NetValue).getName name =
      .ok .null := by
    rw [StateItemCollection.getName, if_neg hname]
    rfl
  rw [Exchange.perform, Exchange.loaded]
  cases hhost : host.lateCallbackThrows with
  | true => rw [checkLoad_refused hx.unloaded hlate hhost, if_pos rfl]
  | false =>
    rw [checkLoad_late hx.unloaded hlate hhost, if_neg Bool.false_ne_true]
    dsimp only
    rw [hx.sessionItems]
    show (StateItemCollection.getName _ name).map SessionReply.value = _
    rw [hempty]
    rfl

/-- **A read of a stored value that comes first, after the response has started, does not see
it.** -/
theorem late_not_notLost {r : WebRequest} {first rest : List SessionCall} {name : Bstr}
    {v : NetValue} {run : List (NetRun SessionReply) × Exchange host}
    (hid : ISPSessionMiddleWare.getSessionIDAsync settings database r = some id)
    (haccess : ∀ call ∈ first, ¬ AccessesItems call) (hcommit : .commitAsync ∉ first)
    (hstart : .startResponse ∈ first) (hname : name ≠ []) (hstored : items.getName name = .ok v)
    (hv : v ≠ .null)
    (hrun : Exchange.performAll settings (first ++ .items (.getName name) :: rest)
      (ISPSessionMiddleWare.enter settings database drawn r) = run) :
    ¬ NotLost settings items (first ++ .items (.getName name) :: rest) run := by
  rintro ⟨hsees, -⟩
  rw [enter_of_accepted hid] at hrun
  have hunused := (unused_entered host settings database drawn id).performAll haccess hcommit
  have hlate : ((entered host settings database drawn id).performAll settings first).2.hasStarted =
      true := by
    have hall : ∀ (calls : List SessionCall) (y : Exchange host),
        (∀ call ∈ calls, ¬ AccessesItems call) → (y.hasStarted = true ∨ .startResponse ∈ calls) →
          (y.performAll settings calls).2.hasStarted = true := by
      intro calls
      induction calls with
      | nil => exact fun y _ h => h.resolve_right List.not_mem_nil
      | cons call calls ih =>
        intro y hno h
        rw [performAll_cons]
        refine ih _ (fun c hc => hno c (List.mem_cons_of_mem _ hc)) ?_
        rcases h with h | h
        · exact .inl (hasStarted_perform_unused (hno call List.mem_cons_self) (.inl h))
        · rcases List.mem_cons.mp h with h | h
          · exact .inl (hasStarted_perform_unused (hno call List.mem_cons_self) (.inr h.symm))
          · exact .inr h
    exact hall first _ haccess (.inr hstart)
  have hreply : run.1[first.length]? = some (if host.lateCallbackThrows then
      .error .invalidOperation else .ok (.value .null)) := by
    rw [← hrun, performAll_append, List.getElem?_append_right (by rw [length_performAll]),
      length_performAll, Nat.sub_self, ← reply_late hunused hlate hname]
    rfl
  have hread := hsees first.length (.items (.getName name)) name (by simp) rfl (by
    intro earlier hearlier hwrites
    rw [List.take_left] at hearlier
    have hno := haccess earlier hearlier
    cases earlier with
    | items op => exact hno trivial
    | abandon => exact hno trivial
    | _ => exact hwrites)
  rw [hreply, hstored] at hread
  cases hhost : host.lateCallbackThrows with
  | true =>
    rw [hhost] at hread
    cases hread
  | false =>
    rw [hhost] at hread
    have hnull := Except.ok.inj (Option.some.inj hread)
    exact hv (SessionReply.value.inj hnull).symm

end Record

/-- A page that reads the item and starts the response then. -/
def readsThenStarts : List SessionCall := [.items (.getName [65]), .startResponse]

/-- The session is not lost. -/
theorem readsThenStarts_notLost :
    ∃ items, NotLost sampleSettings items readsThenStarts
      (Exchange.performAll sampleSettings readsThenStarts
        (ISPSessionMiddleWare.enter sampleSettings (oneRecord 0) 0 sampleRequest :
          Exchange sampleHost)) := by
  obtain ⟨items, hget, -⟩ := sessionGetAsync_oneRecord 0
  have hno : ∀ writer ∈ readsThenStarts, ∀ name, ¬ WritesItem writer name := by
    intro writer hwriter name hwrites
    simp only [readsThenStarts, List.mem_cons, List.not_mem_nil, or_false] at hwriter
    rcases hwriter with rfl | rfl <;> exact hwrites
  have hcommit : SessionCall.commitAsync ∉ readsThenStarts := by
    intro h
    simp only [readsThenStarts, List.mem_cons, List.not_mem_nil, or_false, reduceCtorEq] at h
  exact ⟨items, notLost_of_inTime (getSessionIDAsync_sampleRequest 0) hget
    (fun h => absurd h (by decide)) hcommit ⟨rfl, rfl⟩
    (fun writer hwriter _ _ _ other hwrites => absurd hwrites (hno writer hwriter other)) rfl
    (committable_of_clean (by decide +kernel) (by decide +kernel)) (by decide +kernel)⟩

/-- **A page that reads it after the start does not see it.** -/
theorem startsThenReads_lost :
    ∃ items m, CSessionDL.sessionGetAsync sampleHost sampleSettings (oneRecord 0) sampleId =
        .ok (some (m, items)) ∧
      ¬ NotLost sampleSettings items [.startResponse, .items (.getName [65])]
        (Exchange.performAll sampleSettings [.startResponse, .items (.getName [65])]
          (ISPSessionMiddleWare.enter sampleSettings (oneRecord 0) 0 sampleRequest)) := by
  obtain ⟨items, hget, -, hvalue⟩ := sessionGetAsync_oneRecord 0
  refine ⟨items, _, hget, ?_⟩
  rintro ⟨hsees, -⟩
  have hread := hsees 1 (.items (.getName [65])) [65] rfl rfl (by
    intro earlier hearlier hwrites
    rw [List.mem_singleton.mp hearlier] at hwrites
    exact hwrites)
  have hthrows : ((Exchange.performAll sampleSettings [.startResponse, .items (.getName [65])]
      (ISPSessionMiddleWare.enter sampleSettings (oneRecord 0) 0 sampleRequest :
        Exchange sampleHost)).1[1]?.bind Except.toOption).isNone = true := by decide +kernel
  rw [hread, hvalue] at hthrows
  cases hthrows

end IspSession.Analysis
