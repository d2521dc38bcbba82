import IspSession.Analysis.LateAccess

/-!
# The settings of a managed session

`Timeout`, `Liquid` and `ReEntrance` start with the configured values, the load of the record
replaces them by the stored ones, and the setters do not load. `CommitAsync` writes them with the
items when these are dirty; of a clean session it only sets the time to live. So what is set in
front of the load is lost, a session that nobody reads lives on for the configured time, and
without a change of the items the metadata stays what it was.
-/

set_option autoImplicit false

namespace IspSession.Analysis

open IspSession.Library IspSession.Model

variable {host : ManagedHost} {settings : SessionAppSettings} {x : Exchange host}
  {database : Keyspace} {drawn : ℕ} {id : Bstr}

/-! ## The claim -/

/-- The three settings. -/
structure ManagedSettings where
  Expires : BitVec 32
  Liquid : Bool
  ReEntrance : Bool
  deriving DecidableEq

/-- Those of a record, as `InitItems` reads them. -/
def settingsIn (m : CSessionDL.PersistMetaData) : ManagedSettings :=
  ⟨m.Expires, decide (m.Liquid = -1), decide (m.ReEntrance = -1)⟩

/-- Those of the configuration. -/
def configured (settings : SessionAppSettings) : ManagedSettings :=
  ⟨settings.SessionTimeout.getD 30, settings.Liquid.getD false, settings.ReEntrance.getD false⟩

/-- Those in force. -/
def inForce {strings : NetStrings} (s : ISPSession strings) : ManagedSettings :=
  ⟨s.timeOut, s.liquid, s.reEntrance⟩

/-- What a call sets. -/
def setBy (s : ManagedSettings) : SessionCall → ManagedSettings
  | .setTimeout value => { s with Expires := value }
  | .setLiquid value => { s with Liquid := value }
  | .setReEntrance value => { s with ReEntrance := value }
  | _ => s

/-- The record is there after the commit, with the settings that the page has set last and its
time to live. -/
def ManagedSettingsSurvive (settings : SessionAppSettings) (m : CSessionDL.PersistMetaData)
    (calls : List SessionCall) (x : Exchange host) : Prop :=
  let wanted := calls.foldl setBy (settingsIn m)
  let ms := CSessionDL.milliseconds wanted.Expires
  0 < ms ∧ ∃ blob m', (x.commitAsync settings).2.database
      (CSessionDL.getKey settings x.session.SessionID) = some ⟨.string blob, some ms⟩ ∧
    CSessionDL.fromByteArray blob = .ok m' ∧ settingsIn m' = wanted

instance decidableAccessesItems : DecidablePred AccessesItems
  | .items _ | .count | .keys | .tryGetValue _ | .abandon | .loadAsync => .isTrue trivial
  | .getTimeout | .setTimeout _ | .getLiquid | .setLiquid _ | .getReEntrance | .setReEntrance _
  | .isNewSession | .sessionID | .commitAsync | .startResponse => .isFalse not_false

/-- The calls from the one on that fetches the record, and whether that one is a member of the
items, not `LoadAsync`. After the start of the response a member fetches nothing: a server either
refuses it, or lets it count as the load. -/
def fetching (throws : Bool) : Bool → List SessionCall → Option (Bool × List SessionCall)
  | _, [] => none
  | _, .loadAsync :: calls => some (false, calls)
  | _, .startResponse :: calls => fetching throws true calls
  | false, call :: calls =>
    if AccessesItems call then some (true, call :: calls) else fetching throws false calls
  | true, call :: calls =>
    if AccessesItems call ∧ throws = false then none else fetching throws true calls

/-- When the settings survive. A page that has fetched the record and changes the items writes
what it has set since then; a page that changes nothing must have set nothing else than what is
stored, and of a liquid session only `LoadAsync` keeps the record with the id. Without a fetch the
settings in force come from the configuration. -/
def KeepsManagedSettings (host : ManagedHost) (settings : SessionAppSettings)
    (m : CSessionDL.PersistMetaData) (items : StateItemCollection host.strings NetValue)
    (calls : List SessionCall) : Prop :=
  let wanted := calls.foldl setBy (settingsIn m)
  0 < CSessionDL.milliseconds wanted.Expires ∧
  match fetching host.lateCallbackThrows false calls with
  | some (byMember, rest) =>
    if (changedItems items rest).dirty then rest.foldl setBy (settingsIn m) = wanted
    else wanted = settingsIn m ∧ ¬(byMember = true ∧ m.Liquid = -1)
  | none =>
    let force := calls.foldl setBy (configured settings)
    if host.lateCallbackThrows = false ∧
        (calls.foldl effectOn (.new : StateItemCollection host.strings NetValue)).dirty then
      force = wanted
    else wanted = settingsIn m ∧ force.Expires = wanted.Expires

/-! ## What the calls set -/

/-- INTERNAL: a page either sets the time-out to a value, or leaves it. -/
theorem expires_foldl (calls : List SessionCall) :
    (∃ v, ∀ s, (calls.foldl setBy s).Expires = v) ∨
      ∀ s : ManagedSettings, (calls.foldl setBy s).Expires = s.Expires := by
  induction calls with
  | nil => exact .inr fun s => rfl
  | cons call calls ih =>
    rcases ih with ⟨v, hv⟩ | hkeep
    · exact .inl ⟨v, fun s => hv _⟩
    · cases call with
      | setTimeout value => exact .inl ⟨value, fun s => hkeep _⟩
      | _ => exact .inr fun s => hkeep _

/-- INTERNAL: a page that has set the stored time-out leaves it in force from any call on. -/
theorem expires_of_stored {before rest : List SessionCall} {s : ManagedSettings}
    (h : (rest.foldl setBy (before.foldl setBy s)).Expires = s.Expires) :
    (rest.foldl setBy s).Expires = s.Expires := by
  rcases expires_foldl rest with ⟨v, hv⟩ | hkeep
  · rw [hv] at h ⊢
    exact h
  · exact hkeep s

/-- INTERNAL: on a site with a positive timeout, a time-out in force that is not positive is one
that the page has set. -/
theorem expires_of_configured (hpages : CallsPages settings) {calls : List SessionCall}
    (htime : ¬ 0 < CSessionDL.milliseconds (calls.foldl setBy (configured settings)).Expires)
    (s : ManagedSettings) :
    (calls.foldl setBy s).Expires = (calls.foldl setBy (configured settings)).Expires := by
  rcases expires_foldl calls with ⟨v, hv⟩ | hkeep
  · rw [hv, hv]
  · rw [hkeep] at htime
    refine absurd ?_ htime
    show 0 < CSessionDL.milliseconds (settings.SessionTimeout.getD 30)
    cases htimeout : settings.SessionTimeout with
    | none => decide
    | some t =>
      have hpositive := hpages t htimeout
      unfold CSessionDL.milliseconds
      rw [Option.getD_some]
      omega

/-! ## The fetch -/

section Fetching

variable {throws started : Bool} {call : SessionCall} {calls : List SessionCall}

theorem fetching_loadAsync :
    fetching throws started (.loadAsync :: calls) = some (false, calls) := by
  cases started <;> rfl

theorem fetching_early (h : AccessesItems call) (hload : call ≠ .loadAsync) :
    fetching throws false (call :: calls) = some (true, call :: calls) := by
  cases call with
  | loadAsync => exact absurd rfl hload
  | items op => exact if_pos h
  | count => exact if_pos h
  | keys => exact if_pos h
  | tryGetValue key => exact if_pos h
  | abandon => exact if_pos h
  | _ => exact False.elim h

theorem fetching_late (h : AccessesItems call) (hload : call ≠ .loadAsync) :
    fetching throws true (call :: calls) = if throws then fetching throws true calls else none := by
  have hif : (if AccessesItems call ∧ throws = false then none else fetching throws true calls) =
      if throws then fetching throws true calls else none := by
    cases throws with
    | true => exact if_neg fun h => by cases h.2
    | false => exact if_pos ⟨h, rfl⟩
  cases call with
  | loadAsync => exact absurd rfl hload
  | items op => exact hif
  | count => exact hif
  | keys => exact hif
  | tryGetValue key => exact hif
  | abandon => exact hif
  | _ => exact False.elim h

/-- INTERNAL: a call that does not use the session starts the response, or does nothing to it. -/
theorem fetching_other (h : ¬ AccessesItems call) :
    ∃ started', fetching throws started (call :: calls) = fetching throws started' calls ∧
      ∀ (host : ManagedHost) (settings : SessionAppSettings) (x : Exchange host),
        x.hasStarted = started → (x.perform settings call).2.hasStarted = started' := by
  have hskip : call ≠ .startResponse → call ≠ .loadAsync →
      fetching throws started (call :: calls) = fetching throws started calls := by
    intro hstart hload
    cases call with
    | startResponse => exact absurd rfl hstart
    | loadAsync => exact absurd rfl hload
    | _ =>
      cases started with
      | true => exact if_neg fun h' => h h'.1
      | false => exact if_neg h
  cases call with
  | startResponse =>
    refine ⟨true, by cases started <;> rfl, fun host settings x hx => ?_⟩
    rw [Exchange.perform, Exchange.startResponse]
    split
    · assumption
    · rfl
  | commitAsync =>
    refine ⟨started, hskip (by rintro ⟨⟩) (by rintro ⟨⟩), fun host settings x hx => ?_⟩
    rw [Exchange.perform, Exchange.replied, (commitAsync_response settings x).2.1, hx]
  | items op => exact absurd trivial h
  | count => exact absurd trivial h
  | keys => exact absurd trivial h
  | tryGetValue key => exact absurd trivial h
  | abandon => exact absurd trivial h
  | loadAsync => exact absurd trivial h
  | _ => exact ⟨started, hskip (by rintro ⟨⟩) (by rintro ⟨⟩), fun host settings x hx => hx⟩

/-- INTERNAL: the calls from the fetch on are at the end of the page. -/
theorem fetching_suffix {rest : List SessionCall} {byMember : Bool}
    (h : fetching throws started calls = some (byMember, rest)) :
    ∃ before, before ++ rest = calls := by
  induction calls generalizing started with
  | nil => cases started <;> cases h
  | cons call calls ih =>
    have hlater : ∀ started', fetching throws started' calls = some (byMember, rest) →
        ∃ before, before ++ rest = call :: calls := by
      intro started' h'
      obtain ⟨before, hbefore⟩ := ih h'
      exact ⟨call :: before, congrArg (call :: ·) hbefore⟩
    by_cases haccess : AccessesItems call
    · by_cases hload : call = .loadAsync
      · subst hload
        rw [fetching_loadAsync] at h
        cases h
        exact ⟨[.loadAsync], rfl⟩
      · cases started with
        | false =>
          rw [fetching_early haccess hload] at h
          cases h
          exact ⟨[], rfl⟩
        | true =>
          rw [fetching_late haccess hload] at h
          split at h
          · exact hlater _ h
          · cases h
    · obtain ⟨started', hsame, -⟩ := @fetching_other throws started call calls haccess
      rw [hsame] at h
      exact hlater started' h

end Fetching

/-! ## The end of a page -/

/-- A request at the end of its page, with these settings and items. -/
structure Ends (database : Keyspace) (id : Bstr) (old : Option Bstr) (s : ManagedSettings)
    (items : StateItemCollection host.strings NetValue) (x : Exchange host) : Prop
    extends Standing database id old x where
  settings : inForce x.session = s
  items : x.session.sessionItems = items

/-- The record of the id has this metadata. -/
def HasRecord (settings : SessionAppSettings) (database : Keyspace) (id : Bstr)
    (m : CSessionDL.PersistMetaData) : Prop :=
  ∃ blob ttl, database (CSessionDL.getKey settings id) = some ⟨.string blob, ttl⟩ ∧
    CSessionDL.fromByteArray blob = .ok m

theorem hasRecord_of_sessionGetAsync {m : CSessionDL.PersistMetaData}
    {items : StateItemCollection host.strings NetValue}
    (h : CSessionDL.sessionGetAsync host settings database id = .ok (some (m, items))) :
    HasRecord settings database id m := by
  unfold CSessionDL.sessionGetAsync at h
  split at h
  · cases h
  · split at h
    · cases h
    · cases h
    · rename_i blob ttl hentry
      obtain ⟨m', hm, h⟩ := NetRun.bind_eq_ok h
      obtain ⟨ms, -, h⟩ := NetRun.bind_eq_ok h
      obtain ⟨items', -, h⟩ := NetRun.bind_eq_ok h
      cases h
      exact ⟨blob, ttl, hentry, hm⟩

/-- INTERNAL: a call on a loaded session, or one that does not use the session, sets what it
says. -/
theorem inForce_perform {call : SessionCall}
    (h : x.session.wasLoaded = true ∨ ¬ AccessesItems call) :
    inForce (x.perform settings call).2.session = setBy (inForce x.session) call := by
  have hloaded : AccessesItems call → x.session.wasLoaded = true := fun ha =>
    h.resolve_right fun hno => hno ha
  cases call with
  | items op =>
    rw [Exchange.perform, loaded_eq (hloaded trivial)]
    rfl
  | count =>
    rw [Exchange.perform, loaded_eq (hloaded trivial)]
    rfl
  | keys =>
    rw [Exchange.perform, loaded_eq (hloaded trivial)]
    rfl
  | tryGetValue key =>
    rw [Exchange.perform, loaded_eq (hloaded trivial)]
    rfl
  | abandon =>
    rw [Exchange.perform, loaded_eq (hloaded trivial)]
    rfl
  | loadAsync =>
    rw [Exchange.perform, loadAsync_of_wasLoaded (hloaded trivial)]
    rfl
  | commitAsync =>
    rw [Exchange.perform, Exchange.commitAsync]
    split <;> rfl
  | startResponse =>
    rw [Exchange.perform, Exchange.startResponse]
    split <;> rfl
  | _ => rfl

/-- **A page on a loaded session**: all that its setters set is in force at its end. -/
theorem ends_of_working (settings : SessionAppSettings) {newId : Bstr} {old : Option Bstr}
    {items : StateItemCollection host.strings NetValue} {calls : List SessionCall}
    (h : Working database newId old items x) (hcommit : .commitAsync ∉ calls) :
    Ends database newId old (calls.foldl setBy (inForce x.session))
      (calls.foldl effectOn x.session.sessionItems) (x.performAll settings calls).2 := by
  induction calls generalizing x with
  | nil => exact { h.toStanding with settings := rfl, items := rfl }
  | cons call calls ih =>
    rw [List.mem_cons, not_or] at hcommit
    have hwork : Working database newId old items (x.perform settings call).2 :=
      h.perform (Ne.symm hcommit.1)
    have hrest := ih hwork hcommit.2
    rw [inForce_perform (.inl h.wasLoaded),
      items_perform h.wasLoaded (Ne.symm hcommit.1)] at hrest
    exact hrest

section Record

variable {m : CSessionDL.PersistMetaData} {items : StateItemCollection host.strings NetValue}

/-- INTERNAL: the settings that `LoadAsync` leaves. -/
theorem inForce_loadAsync (hx : Unused settings database drawn id x)
    (hrecord : CSessionDL.sessionGetAsync host settings database id = .ok (some (m, items))) :
    inForce (x.loadAsync settings (Exchange.tryEstablish settings)).2.session = settingsIn m := by
  have hget : CSessionDL.sessionGetAsync host settings x.database x.session.SessionID =
      .ok (some (m, items)) := by rw [hx.database, hx.sessionID, hrecord]
  have hfetched : inForce (fetched x (m, items)).session = settingsIn m := rfl
  by_cases hliquid : m.Liquid = -1
  · cases hstarted : x.hasStarted with
    | true =>
      rw [loadAsync_late hx.unloaded hstarted hget hliquid]
      split <;> rfl
    | false =>
      rw [show x.loadAsync settings (Exchange.tryEstablish settings) = _ from
        loadAsync_liquid 1 hx.unloaded hstarted hget hliquid]
      rfl
  · rw [loadAsync_fetched hx.unloaded hget hliquid]
    rfl

/-- INTERNAL: the first access by a member, in front of the response: the session works on the
stored items with the stored settings, and only where it is not liquid the record is under its
id. -/
theorem ends_of_member {first : SessionCall} {calls : List SessionCall}
    (hx : Unused settings database drawn id x) (hearly : x.hasStarted = false)
    (hrecord : CSessionDL.sessionGetAsync host settings database id = .ok (some (m, items)))
    (hfresh : m.Liquid = -1 → FreshIds host settings database drawn)
    (hfirst : AccessesItems first) (hload : first ≠ .loadAsync)
    (hcommit : .commitAsync ∉ first :: calls) :
    ∃ newId old, Ends database newId old ((first :: calls).foldl setBy (settingsIn m))
        (changedItems items (first :: calls)) (x.performAll settings (first :: calls)).2 ∧
      if m.Liquid = -1 then
        renamed settings database newId old (CSessionDL.getKey settings newId) = none
      else HasRecord settings (renamed settings database newId old) newId m := by
  have hget : CSessionDL.sessionGetAsync host settings x.database x.session.SessionID =
      .ok (some (m, items)) := by rw [hx.database, hx.sessionID, hrecord]
  have hsame : ∀ {y : Exchange host}, x.checkLoad settings = (.ok (), y) →
      y.session.wasLoaded = true →
      (x.performAll settings (first :: calls)).2 = (y.performAll settings (first :: calls)).2 := by
    intro y hcheck hy
    rw [performAll_cons, performAll_cons, perform_of_checkLoad hfirst hload hcheck hy]
  by_cases hliquid : m.Liquid = -1
  · have hfetched : Working database id none items
        (registered (fetched (registered x) (m, items))) :=
      working_fetched (x := registered (registered x)) hrecord hx.database hx.sessionID
        hx.oldSessionID hx.isAbandoned
    have hdrawn : (registered (fetched (registered x) (m, items))).drawn = drawn := hx.drawn
    have htwice : Working database (idAt host (drawn + 1)) (some (idAt host drawn)) items
        (rotatedTwice x (m, items)) := by
      have h := (hfetched.rotate (x.managers.length + 1)).rotate x.managers.length
      rw [show (Exchange.rotate (x.managers.length + 1)
        (registered (fetched (registered x) (m, items)))).drawn = _ + 1 from rfl, hdrawn] at h
      exact h
    rw [hsame (checkLoad_liquid hx.unloaded hearly hget hliquid) rfl]
    refine ⟨_, _, ends_of_working settings htwice hcommit, ?_⟩
    rw [if_pos hliquid, renamed_stays (hfresh hliquid drawn (Nat.le_refl drawn))]
    exact hfresh hliquid (drawn + 1) (Nat.le_succ drawn)
  · have hfetched : Working database id none items (fetched (registered x) (m, items)) :=
      working_fetched (x := registered x) hrecord hx.database hx.sessionID hx.oldSessionID
        hx.isAbandoned
    rw [hsame (checkLoad_fetched hx.unloaded hearly hget hliquid) rfl]
    refine ⟨_, _, ends_of_working settings hfetched hcommit, ?_⟩
    rw [if_neg hliquid]
    exact hasRecord_of_sessionGetAsync hrecord

/-- INTERNAL: a member that cannot load the session changes nothing. -/
theorem perform_refused {call : SessionCall} {e : NetException} (hcall : AccessesItems call)
    (hload : call ≠ .loadAsync) (hcheck : x.checkLoad settings = (.error e, x)) :
    (x.perform settings call).2 = x := by
  have hloaded : ∀ f : Exchange host → NetRun SessionReply × Exchange host,
      (x.loaded settings f).2 = x := by
    intro f
    rw [Exchange.loaded, hcheck]
  cases call with
  | items op => exact hloaded _
  | count => exact hloaded _
  | keys => exact hloaded _
  | tryGetValue key => exact hloaded _
  | abandon => exact hloaded _
  | loadAsync => exact absurd rfl hload
  | _ => exact False.elim hcall

/-- INTERNAL: a member that uses the items sets nothing. -/
theorem setBy_of_accesses {call : SessionCall} (h : AccessesItems call) (s : ManagedSettings) :
    setBy s call = s := by
  cases call with
  | setTimeout value => exact False.elim h
  | setLiquid value => exact False.elim h
  | setReEntrance value => exact False.elim h
  | _ => rfl

/-- INTERNAL: a call that does not use the items leaves them. -/
theorem effectOn_of_not_accesses {call : SessionCall} (h : ¬ AccessesItems call)
    (s : StateItemCollection host.strings NetValue) : effectOn s call = s := by
  cases call with
  | items op => exact absurd trivial h
  | abandon => exact absurd trivial h
  | _ => rfl

/-- INTERNAL: with nothing fetched, the items at the end. -/
def unfetchedItems (host : ManagedHost) (calls : List SessionCall) :
    StateItemCollection host.strings NetValue :=
  if host.lateCallbackThrows then .new else calls.foldl effectOn .new

/-- **How a page ends**: with the record fetched, the settings are the stored ones and those set
since then; without it they are the configured ones and all that were set. -/
theorem ends_performAll {calls : List SessionCall} (hx : Unused settings database drawn id x)
    (hrecord : CSessionDL.sessionGetAsync host settings database id = .ok (some (m, items)))
    (hfresh : m.Liquid = -1 → FreshIds host settings database drawn)
    (hcommit : .commitAsync ∉ calls) :
    match fetching host.lateCallbackThrows x.hasStarted calls with
    | some (byMember, rest) => ∃ newId old,
        Ends database newId old (rest.foldl setBy (settingsIn m)) (changedItems items rest)
          (x.performAll settings calls).2 ∧
        if byMember = true ∧ m.Liquid = -1 then
          renamed settings database newId old (CSessionDL.getKey settings newId) = none
        else HasRecord settings (renamed settings database newId old) newId m
    | none => Ends database id none (calls.foldl setBy (inForce x.session))
        (unfetchedItems host calls) (x.performAll settings calls).2 := by
  induction calls generalizing x with
  | nil =>
    have hitems : x.session.sessionItems = unfetchedItems host [] := by
      rw [hx.sessionItems, unfetchedItems]
      split <;> rfl
    have hends : Ends database id none (inForce x.session) (unfetchedItems host []) x :=
      { hx with
        isReadOnly := by rw [hx.sessionItems]; rfl
        isNew := by rw [hx.sessionItems]; rfl
        settings := rfl
        items := hitems }
    cases x.hasStarted <;> exact hends
  | cons call calls ih =>
    have hfull := hcommit
    rw [List.mem_cons, not_or] at hcommit
    by_cases haccess : AccessesItems call
    · by_cases hload : call = .loadAsync
      · subst hload
        rw [fetching_loadAsync]
        dsimp only
        obtain ⟨⟨newId, old, hwork, -, hget⟩, hitems⟩ := atWork_loadAsync hx hrecord hfresh
        have hends := ends_of_working settings hwork hcommit.2
        rw [inForce_loadAsync hx hrecord, hitems] at hends
        refine ⟨newId, old, hends, ?_⟩
        rw [if_neg fun h => by cases h.1]
        exact hasRecord_of_sessionGetAsync hget
      · cases hstarted : x.hasStarted with
        | false =>
          rw [fetching_early haccess hload]
          dsimp only
          obtain ⟨newId, old, hends, hplace⟩ := ends_of_member hx hstarted hrecord hfresh haccess
            hload hfull
          refine ⟨newId, old, hends, ?_⟩
          split at hplace
          · rw [if_pos ⟨rfl, ‹_›⟩]
            exact hplace
          · rw [if_neg fun h => absurd h.2 ‹_›]
            exact hplace
        | true =>
          rw [fetching_late haccess hload]
          cases hhost : host.lateCallbackThrows with
          | true =>
            -- refused: the page goes on as if the call were not there
            have hsame : (x.perform settings call).2 = x :=
              perform_refused haccess hload (checkLoad_refused hx.unloaded hstarted hhost)
            have hrest := ih hx hcommit.2
            rw [hstarted, hhost] at hrest
            rw [if_pos rfl, performAll_cons, hsame, List.foldl_cons, setBy_of_accesses haccess]
            have hitems : ∀ cs, unfetchedItems host cs = .new := fun cs => if_pos hhost
            rw [hitems] at hrest ⊢
            exact hrest
          | false =>
            have hwork : Working database id none .new
                { registered x with session := { x.session with wasLoaded := true } } :=
              { hx with
                isReadOnly := by rw [hx.sessionItems]; rfl
                isNew := by rw [hx.sessionItems]; rfl
                wasLoaded := rfl
                clean := fun _ => by rw [hx.sessionItems]; exact unchanged_refl _ }
            have hends := ends_of_working settings hwork hfull
            rw [performAll_cons, ← perform_of_checkLoad haccess hload
              (checkLoad_late hx.unloaded hstarted hhost) rfl, ← performAll_cons] at hends
            rw [if_neg Bool.false_ne_true]
            have hitems : unfetchedItems host (call :: calls) =
                (call :: calls).foldl effectOn x.session.sessionItems := by
              rw [unfetchedItems, hhost, if_neg Bool.false_ne_true, hx.sessionItems]
            rw [hitems]
            exact hends
    · obtain ⟨started', hsame, hstarted⟩ :=
        @fetching_other host.lateCallbackThrows x.hasStarted call calls haccess
      have hrest := ih (hx.perform haccess (Ne.symm hcommit.1)) hcommit.2
      rw [hstarted host settings x rfl, inForce_perform (.inr haccess)] at hrest
      rw [hsame]
      have hitems : unfetchedItems host (call :: calls) = unfetchedItems host calls := by
        rw [unfetchedItems, unfetchedItems, List.foldl_cons, effectOn_of_not_accesses haccess]
      rw [hitems]
      exact hrest

/-! ## The theorem -/

/-- INTERNAL: the metadata that a commit writes holds the settings in force. -/
theorem settingsIn_persistMetaData {strings : NetStrings} (s : ISPSession strings) (zLen : ℕ) :
    settingsIn { s.persistMetaData with ZLen := BitVec.ofNat 32 zLen } = inForce s := by
  have hbool : ∀ b : Bool, decide (CSessionDL.variantBool b = -1) = b := by decide
  rw [settingsIn, inForce]
  congr 1
  · exact hbool s.liquid
  · exact hbool s.reEntrance

theorem milliseconds_inj {m n : BitVec 32}
    (h : CSessionDL.milliseconds m = CSessionDL.milliseconds n) : m = n := by
  unfold CSessionDL.milliseconds at h
  exact BitVec.toInt_inj.mp (by omega)

/-- INTERNAL: the commit of dirty items writes the settings in force, where their time-out is
positive; any other commit leaves the metadata. -/
theorem survive_iff_of_ends {newId : Bstr} {old : Option Bstr} {s : ManagedSettings}
    {left : StateItemCollection host.strings NetValue} {out : Bytes × ℕ}
    {calls : List SessionCall} {wanted : ManagedSettings} (h : Ends database newId old s left x)
    (hcontents : PersistUtil.localContents host.runtime x.session.sessionItems = .ok out)
    (hset : calls.foldl setBy (settingsIn m) = wanted) :
    ManagedSettingsSurvive settings m calls x ↔
      0 < CSessionDL.milliseconds wanted.Expires ∧
      if left.dirty = true ∧ 0 < CSessionDL.milliseconds s.Expires then s = wanted
      else ∃ blob ttl m', renamed settings database newId old (CSessionDL.getKey settings newId) =
          some ⟨.string blob, ttl⟩ ∧ CSessionDL.fromByteArray blob = .ok m' ∧
          settingsIn m' = wanted ∧
          if left.dirty = true then ttl = some (CSessionDL.milliseconds wanted.Expires)
          else s.Expires = wanted.Expires := by
  obtain ⟨bytes, zLen⟩ := out
  have htimeOut : x.session.timeOut = s.Expires := congrArg ManagedSettings.Expires h.settings
  unfold ManagedSettingsSurvive
  rw [hset, h.sessionID, commitAsync_database h.toStanding hcontents, h.items, htimeOut]
  refine and_congr_right fun hms => ?_
  by_cases hdirty : left.dirty = true
  · rw [if_pos hdirty, Keyspace.setExpiring]
    by_cases htime : 0 < CSessionDL.milliseconds s.Expires
    · rw [if_neg (not_le.mpr htime), if_pos ⟨hdirty, htime⟩, Function.update_self]
      have hwritten := fromByteArray_toByteArray
        { x.session.persistMetaData with ZLen := BitVec.ofNat 32 zLen }
        (CSessionDL.packed host.deflate settings bytes)
      have hsettings := settingsIn_persistMetaData x.session zLen
      rw [h.settings] at hsettings
      constructor
      · rintro ⟨blob, m', hentry, hm', hwanted⟩
        obtain ⟨hblob, -⟩ := RedisEntry.mk.inj (Option.some.inj hentry)
        rw [← RedisValue.string.inj hblob, committedBlob, hwritten] at hm'
        cases hm'
        exact hsettings.symm.trans hwanted
      · rintro rfl
        exact ⟨_, _, rfl, hwritten, hsettings⟩
    · rw [if_pos (not_lt.mp htime), if_neg fun hboth => htime hboth.2]
      simp only [if_pos hdirty]
      constructor
      · rintro ⟨blob, m', hentry, hm', hwanted⟩
        exact ⟨blob, _, m', hentry, hm', hwanted, rfl⟩
      · rintro ⟨blob, ttl, m', hentry, hm', hwanted, rfl⟩
        exact ⟨blob, m', hentry, hm', hwanted⟩
  · rw [if_neg hdirty, if_neg fun hboth => hdirty hboth.1, Keyspace.execute, Function.update_self]
    simp only [if_neg hdirty]
    constructor
    · rintro ⟨blob, m', hentry, hm', hwanted⟩
      cases hrecord : renamed settings database newId old (CSessionDL.getKey settings newId) with
      | none =>
        rw [hrecord] at hentry
        cases hentry
      | some entry =>
        rw [hrecord, Keyspace.expireIn] at hentry
        split at hentry
        · cases hentry
        · obtain ⟨value, ttl⟩ := entry
          obtain ⟨rfl, hsame⟩ := RedisEntry.mk.inj (Option.some.inj hentry)
          exact ⟨blob, ttl, m', rfl, hm', hwanted, milliseconds_inj (Option.some.inj hsame)⟩
    · rintro ⟨blob, ttl, m', hentry, hm', hwanted, hexpires⟩
      refine ⟨blob, m', ?_, hm', hwanted⟩
      rw [hentry, Keyspace.expireIn, hexpires, if_neg (not_le.mpr hms)]

/-- INTERNAL: the one record that is there. -/
theorem record_iff {blob : Bytes} {ttl : Option ℤ} {wanted : ManagedSettings}
    {P : Option ℤ → Prop} (hstored : CSessionDL.fromByteArray blob = .ok m) :
    (∃ blob' ttl' m', some (⟨.string blob, ttl⟩ : RedisEntry) = some ⟨.string blob', ttl'⟩ ∧
        CSessionDL.fromByteArray blob' = .ok m' ∧ settingsIn m' = wanted ∧ P ttl') ↔
      settingsIn m = wanted ∧ P ttl := by
  constructor
  · rintro ⟨blob', ttl', m', hentry, hm', hwanted, hp⟩
    obtain ⟨hblob, rfl⟩ := RedisEntry.mk.inj (Option.some.inj hentry)
    rw [← RedisValue.string.inj hblob, hstored] at hm'
    cases hm'
    exact ⟨hwanted, hp⟩
  · exact fun ⟨hwanted, hp⟩ => ⟨blob, ttl, m, rfl, hstored, hwanted, hp⟩

/-- **The settings survive a request exactly on this condition**: for every stored session and
every page, on a site whose configured timeout lets a page be called. -/
theorem managedSettingsSurvive_iff {r : WebRequest} {calls : List SessionCall} {blob : Bytes}
    {ttl : Option ℤ} {out : Bytes × ℕ}
    (hpages : CallsPages settings)
    (hid : ISPSessionMiddleWare.getSessionIDAsync settings database r = some id)
    (hentry : database (CSessionDL.getKey settings id) = some ⟨.string blob, ttl⟩)
    (hrecord : CSessionDL.sessionGetAsync host settings database id = .ok (some (m, items)))
    (hfresh : m.Liquid = -1 → FreshIds host settings database drawn)
    (hcommit : .commitAsync ∉ calls)
    (hx : (Exchange.performAll settings calls
      (ISPSessionMiddleWare.enter settings database drawn r)).2 = x)
    (hcontents : PersistUtil.localContents host.runtime x.session.sessionItems = .ok out) :
    ManagedSettingsSurvive settings m calls x ↔
      KeepsManagedSettings host settings m items calls := by
  rw [enter_of_accepted hid] at hx
  have hends := ends_performAll (unused_entered host settings database drawn id) hrecord hfresh hcommit
  rw [hx] at hends
  unfold KeepsManagedSettings
  dsimp only
  obtain ⟨blob', ttl', hentry', hstored⟩ := hasRecord_of_sessionGetAsync hrecord
  rw [hentry] at hentry'
  cases hentry'
  rw [show (entered host settings database drawn id).hasStarted = false from rfl] at hends
  cases hfetch : fetching host.lateCallbackThrows false calls with
  | none =>
    rw [hfetch] at hends
    dsimp only at hends ⊢
    rw [survive_iff_of_ends hends hcontents rfl]
    refine and_congr_right fun hms => ?_
    have hforce : inForce (entered host settings database drawn id).session = configured settings :=
      rfl
    have hdirty : (unfetchedItems host calls).dirty = true ↔ host.lateCallbackThrows = false ∧
        (calls.foldl effectOn (.new : StateItemCollection host.strings NetValue)).dirty = true := by
      rw [unfetchedItems]
      cases host.lateCallbackThrows <;> simp [StateItemCollection.new]
    have hsame : renamed settings database id none (CSessionDL.getKey settings id) =
        some ⟨.string blob, ttl⟩ := hentry
    rw [hforce]
    simp only [hsame, record_iff hstored]
    by_cases hd : (unfetchedItems host calls).dirty = true
    · rw [if_pos (hdirty.mp hd), if_pos hd]
      by_cases htime : 0 < CSessionDL.milliseconds (calls.foldl setBy (configured settings)).Expires
      · rw [if_pos ⟨hd, htime⟩]
      · -- the page has set it, so it is the one that is wanted
        rw [expires_of_configured hpages htime] at hms
        exact absurd hms htime
    · rw [if_neg fun h => hd (hdirty.mpr h), if_neg fun h => hd h.1, if_neg hd]
      exact and_congr_left fun _ => eq_comm
  | some fetch =>
    obtain ⟨byMember, rest⟩ := fetch
    rw [hfetch] at hends
    dsimp only at hends ⊢
    obtain ⟨newId, old, hends, hplace⟩ := hends
    rw [survive_iff_of_ends hends hcontents rfl]
    refine and_congr_right fun hms => ?_
    -- a page that has set nothing else than the stored time-out has it in force
    have hexpires : calls.foldl setBy (settingsIn m) = settingsIn m →
        (rest.foldl setBy (settingsIn m)).Expires =
          (calls.foldl setBy (settingsIn m)).Expires := by
      intro hwanted
      obtain ⟨before, rfl⟩ := fetching_suffix hfetch
      rw [hwanted]
      have hlast : (rest.foldl setBy (before.foldl setBy (settingsIn m))).Expires =
          (settingsIn m).Expires := by rw [← List.foldl_append, hwanted]
      exact expires_of_stored hlast
    by_cases hd : (changedItems items rest).dirty = true
    · rw [if_pos hd]
      by_cases htime : 0 < CSessionDL.milliseconds (rest.foldl setBy (settingsIn m)).Expires
      · rw [if_pos ⟨hd, htime⟩]
      · rw [if_neg fun h => htime h.2]
        constructor
        · rintro ⟨blob', ttl', m', hentry', hm', hwanted, -⟩
          split at hplace
          · rw [hplace] at hentry'
            cases hentry'
          · obtain ⟨blob'', ttl'', hrecord', hstored'⟩ := hplace
            rw [hrecord'] at hentry'
            obtain ⟨hblob, -⟩ := RedisEntry.mk.inj (Option.some.inj hentry')
            rw [← RedisValue.string.inj hblob, hstored'] at hm'
            rw [← Except.ok.inj hm'] at hwanted
            rw [hexpires hwanted.symm] at htime
            exact absurd hms htime
        · intro h
          rw [h] at htime
          exact absurd hms htime
    · rw [if_neg hd, if_neg fun h => hd h.1]
      simp only [if_neg hd]
      split at hplace
      · rename_i hlost
        simp only [hplace, reduceCtorEq, false_and, exists_false, false_iff]
        exact fun h => h.2 hlost
      · rename_i hreached
        obtain ⟨blob', ttl', hrecord', hstored'⟩ := hplace
        simp only [hrecord', record_iff hstored']
        constructor
        · exact fun ⟨hwanted, _⟩ => ⟨hwanted.symm, hreached⟩
        · exact fun ⟨hwanted, _⟩ => ⟨hwanted.symm, hexpires hwanted⟩

end Record

/-- A page that changes the items and sets the settings then. -/
def setsLast : List SessionCall := [setsItem, .setTimeout 45, .setReEntrance true]

/-- Its settings survive. -/
theorem setsLast_survive :
    ManagedSettingsSurvive sampleSettings (oneMetaData 0) setsLast (sampleRun 0 setsLast) := by
  obtain ⟨items, hget, -⟩ := sessionGetAsync_oneRecord 0
  have hcommit : SessionCall.commitAsync ∉ setsLast := by
    intro h
    simp only [setsLast, setsItem, List.mem_cons, List.not_mem_nil, or_false, reduceCtorEq] at h
  have hsome : (PersistUtil.localContents NetRuntime.plain
      (sampleRun 0 setsLast).session.sessionItems).toOption.isSome = true := by decide +kernel
  obtain ⟨out, hout⟩ := Option.isSome_iff_exists.mp hsome
  have hdirty : (changedItems items setsLast).dirty = true := rfl
  have hpages : CallsPages sampleSettings := by
    intro t ht
    cases ht
  refine (managedSettingsSurvive_iff hpages (getSessionIDAsync_sampleRequest 0) (if_pos rfl) hget
    (fun h => absurd h (by decide)) hcommit rfl (NetRun.eq_ok_of_toOption hout)).mpr
    ⟨by decide +kernel, ?_⟩
  show if (changedItems items setsLast).dirty = true then _ else _
  rw [if_pos hdirty]
  rfl

/-- **A request that does not touch the session gives its record the configured time to live.** -/
theorem untouched_not_survive :
    ¬ ManagedSettingsSurvive sampleSettings (oneMetaData 0) [] (sampleRun 0 []) := by
  rintro ⟨-, blob, m', hentry, -⟩
  have httl : (((sampleRun 0 []).commitAsync sampleSettings).2.database
      (CSessionDL.getKey sampleSettings (sampleRun 0 []).session.SessionID)).bind RedisEntry.ttl =
        some 1800000 := by decide +kernel
  rw [hentry] at httl
  exact absurd (Option.some.inj httl) (by decide)

end IspSession.Analysis
