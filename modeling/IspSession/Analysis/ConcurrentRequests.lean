import IspSession.Model.SessionSystem
import IspSession.Analysis.WritesPersisted
import IspSession.Analysis.RequestFrames

/-!
# Concurrent requests on a session

Every request reads the whole record, changes its own copy and writes the whole record.
What another request has written in between is lost: nothing looks whether the record is
still the one that was read, although the time stamp in it was meant for that. Where every
request that writes finds the record as it was read, no update is lost.
-/

set_option autoImplicit false

namespace IspSession.Analysis

open IspSession.Library IspSession.Model

variable {loc : Collation} (p : Platform)

/-! ## What the record holds -/

/-- INTERNAL: a record holds one thing. -/
theorem Holds.unique {record : SessionRecord} {c c' : Contents loc} (h : Holds record c)
    (h' : Holds record c') (p : Platform) : c = c' := by
  obtain ⟨r₁, hload₁, rfl⟩ := h.loads p (Request.start (fun _ => none) 0 0 0 false) rfl
  obtain ⟨r₂, hload₂, rfl⟩ := h'.loads p (Request.start (fun _ => none) 0 0 0 false) rfl
  rw [hload₁] at hload₂
  cases hload₂
  rfl

/-- The same stream: one record is the other, but for its settings and its time. -/
def SameStream (record record' : SessionRecord) : Prop :=
  record'.payload = record.payload ∧ record'.metaData.m_zLen = record.metaData.m_zLen

instance (record record' : SessionRecord) : Decidable (SameStream record record') :=
  inferInstanceAs (Decidable (_ ∧ _))

/-- Setting a variable, as a call on the dictionary. -/
def putMutation : SessionPut → VariantDictionary.Mutation
  | .value vkey newVal defaults => .putItem vkey newVal defaults
  | .ref vkey newVal => .putrefItem vkey newVal

/-- INTERNAL: only the variable under its key is set. -/
theorem find_changed_put (put : SessionPut) (c : Contents loc) {key : Bstr}
    (hne : loc.compare key put.key ≠ .eq) :
    (changed (putMutation put) c).find key = c.find key := by
  have hstoring : ∀ stored, (storing c put.key stored).find key = c.find key := by
    intro stored
    cases stored with
    | none => rw [storing, OrderedMap.find_insert, if_neg hne, Option.or_none]
    | some v => rw [storing, OrderedMap.find_upsert, if_neg hne]
  cases put with
  | value vkey newVal defaults => exact hstoring _
  | ref vkey newVal =>
    show (changed (.putrefItem vkey newVal) c).find key = c.find key
    by_cases hobject : newVal.vt &&& vtDispatch = vtDispatch ∨ newVal.vt &&& vtUnknown = vtUnknown
    · simp only [changed, puts, if_pos hobject]
      exact hstoring _
    · simp only [changed, puts, if_neg hobject]

/-- The request sets the variable of the name. -/
def Sets (loc : Collation) (client : SessionClient) (key : Bstr) : Prop :=
  ∃ put ∈ client.puts, loc.compare key put.key = .eq

/-! ## One request -/

/-- A request that has read the contents `c` and is setting its variables. -/
structure Editing (client : SessionClient) (id : Guid) (reEntrance : Bool) (c : Contents loc)
    (r : Request loc) : Prop where
  persists : Persists r
  mutable : r.m_piVarDict.readOnly = false
  exact : Exact r.m_piVarDict
  time : 0 < SessionStore.seconds r.lngTimeout
  solid : r.blnLiquid = false
  old : r.oldGuid = id
  settings : r.blnReEntrance = reEntrance
  kept : ∀ key, ¬ Sets loc client key → (contents r.m_piVarDict).find key = c.find key
  clean : ¬ Unsaved r → contents r.m_piVarDict = c
  /-- The thread orders names as the dictionary does. -/
  ordered : InOrder loc p r.threadLocale

/-- The condition on setting a variable: the codec keeps the value, and the change is
noticed. -/
def PutFits (client : SessionClient) (r : Request loc) (call : Request.Call) : Prop :=
  ∃ put ∈ client.puts, put.call = call ∧ SafeChange r (putMutation put)

/-- INTERNAL: setting a variable. -/
theorem Editing.put {client : SessionClient} {id : Guid} {reEntrance : Bool} {c : Contents loc}
    {r r' : Request loc} {call : Request.Call} (h : Editing p client id reEntrance c r)
    (hfits : PutFits client r call) (hrun : r.perform p call = .ok r') :
    Editing p client id reEntrance c r' ∧ r'.store = r.store := by
  obtain ⟨put, hput, rfl, hsafe⟩ := hfits
  have hmutate : r.onDictionary (putMutation put) = .ok r' := by
    have hro : ¬ r.bReadonly = true := by simp [h.persists.writable]
    cases put with
    | value vkey newVal defaults =>
      rw [SessionPut.call, Request.perform, if_neg hro] at hrun
      exact hrun
    | ref vkey newVal =>
      rw [SessionPut.call, Request.perform, if_neg hro] at hrun
      exact hrun
  obtain ⟨d, hd, rfl⟩ := onDictionary_eq hmutate
  obtain ⟨hexact, hcontents⟩ := h.exact.mutate h.mutable hsafe.stored hsafe.value hd
  have hdirty := blnDirty_mutate h.mutable hd
  have hunsaved : Unsaved r → Unsaved { r with m_piVarDict := d } := by
    rintro (hu | hu | hu)
    · exact .inl (by rw [hdirty, hu, Bool.or_true])
    · exact .inr (.inl hu)
    · exact .inr (.inr hu)
  refine ⟨⟨⟨h.persists.pending, h.persists.noError, h.persists.kept, h.persists.writable⟩,
    readOnly_mutate h.mutable hd, hexact, h.time, h.solid, h.old, h.settings, ?_, ?_,
    h.ordered⟩, rfl⟩
  · intro key hkey
    have hne : loc.compare key put.key ≠ .eq := fun heq => hkey ⟨put, hput, heq⟩
    exact (congrArg (fun c : Contents loc => c.find key) hcontents).trans
      ((find_changed_put put _ hne).trans (h.kept key hkey))
  · intro hnot
    have hsame := h.clean (mt hunsaved hnot)
    rcases hsafe.noticed with hunchanged | ⟨-, hset | hu⟩
    · exact hcontents.trans (hunchanged.trans hsame)
    · exact absurd (.inl (by rw [hdirty, hset, Bool.true_or])) hnot
    · exact absurd (hunsaved hu) hnot

/-- The request presents the id, and is not refused for where it has it from. -/
def Presents (loc : Collation) (id : Guid) (reEntrance : Bool) (client : SessionClient) : Prop :=
  ∀ store, ((client.request loc store).identify client.cookie client.query).strGUID = some id ∧
    (((client.request loc store).identify client.cookie client.query).blnFoundURLGuid = true →
      reEntrance = true)

/-- INTERNAL: a request that has read the record. -/
theorem editing_opened {client : SessionClient} {id : Guid} {reEntrance : Bool}
    (hpresents : Presents loc id reEntrance client) {store : SessionStore}
    {record : SessionRecord} {c : Contents loc} (hrecord : store id = some record)
    (hholds : Holds record c) (hsolid : record.metaData.m_Liquid = false)
    (hsettings : record.metaData.m_ReEntrance = reEntrance)
    (hexpires : 0 < SessionStore.seconds record.metaData.m_Expires)
    (hload : Reloadable p c) :
    ∃ r, (client.request loc store).onStartPage p client.cookie client.query = .ok (.sOk, r) ∧
      Editing p client id reEntrance c r ∧ r.store = store := by
  obtain ⟨hid, hurl⟩ := hpresents store
  have hfresh : Fresh ((client.request loc store).identify client.cookie client.query) :=
    fresh_identify ..
  obtain ⟨hstore, -⟩ := identify_leaves store client.drawn client.lngTimeOutSetting
    client.dtExpires client.blnSnifQueryStringFirst client.cookie client.query
    ((client.request loc store).identify client.cookie client.query) rfl
  have hthread : ((client.request loc store).identify client.cookie client.query).threadLocale
      = none := threadLocale_identify ..
  generalize hr : (client.request loc store).identify client.cookie client.query = r at *
  obtain ⟨hnew, hguid, hold⟩ := hfresh.presented id hid
  have hrecord' : r.store r.guid = some record := by rw [hstore, hguid, hrecord]
  obtain ⟨d, cookies, hfilled, hinit⟩ := dbInit_spec p hfresh.noError hrecord' hholds
    (by rw [hfresh.dictionary]; rfl) (hload.objects _)
  have hcheck : r.checkReEntrance p (rowsetOf record) = r :=
    checkReEntrance_admits p fun hfound => hsettings.trans (hurl hfound)
  have hsame : renewed p (opened r record d) = opened r record d := renewed_solid p hsolid
  rw [hcheck, hsame] at hinit
  subst hr
  obtain ⟨d', hkeeps, hstart⟩ := onStartPage_spec p hinit hfilled.exact
    (hfilled.contents.symm ▸ hload.objects)
  have hcontents : contents d' = c := hkeeps.contents.trans hfilled.contents
  refine ⟨_, hstart, ⟨⟨hfresh.pending, rfl, hfresh.kept, hfresh.writable⟩, ?_, hkeeps.exact,
    hexpires, hsolid, hold, hsettings, fun key _ => congrArg (fun c : Contents loc => c.find key) hcontents,
    fun _ => hcontents, hload.ordered.or p ?_⟩, hstore⟩
  · exact hkeeps.readOnly.trans (hfilled.readOnly.trans (by rw [hfresh.dictionary]; rfl))
  · rw [hthread]
    exact inOrder_none p

/-! ## One command -/

section Commands

variable (clients : ℕ → SessionClient) (id : Guid) (reEntrance : Bool)

/-- The condition on a command. A record is read that the codec has written, and the
variables are set to values it keeps. A request that writes the record finds it as it was
read. -/
def CommandFits (σ : SessionSystem loc) : SessionEvent → Prop
  | .get i => σ.stage i = .waiting →
    (∃ record, ∃ c : Contents loc, σ.store id = some record ∧ Holds record c ∧
      Reloadable p c) ∧
    ∀ hr r, ((clients i).request loc σ.store).onStartPage p (clients i).cookie
        (clients i).query = .ok (hr, r) →
      Runs.Meets (Request.perform p) (PutFits (clients i))
        ((clients i).puts.map SessionPut.call) r
  | .save i => ∀ seen r, σ.stage i = .working seen r → Unsaved r →
    ∀ record record', seen = some record → σ.store id = some record' → SameStream record record'

/-- **No update is lost**: the record holds, for every request that is done, what it has
set. -/
def HoldsUpdates (σ : SessionSystem loc) : Prop :=
  ∃ record, ∃ c : Contents loc, σ.store id = some record ∧ Holds record c ∧
    ∀ i d, σ.stage i = .done d → ∀ key, Sets loc (clients i) key →
      c.find key = (contents d).find key

/-- The invariant: the record holds `c`; what a request at work will set is in `c` as it was
read, and what one that is done has set is in `c` as it has set it. -/
structure Consistent (σ : SessionSystem loc) (c : Contents loc) : Prop where
  record : ∃ record, σ.store id = some record ∧ Holds record c ∧
    record.metaData.m_Liquid = false ∧ record.metaData.m_ReEntrance = reEntrance ∧
    0 < SessionStore.seconds record.metaData.m_Expires
  working : ∀ i seen r, σ.stage i = .working seen r → ∃ record c', seen = some record ∧
    Holds record c' ∧ Editing p (clients i) id reEntrance c' r ∧
    ∀ key, Sets loc (clients i) key → c.find key = c'.find key
  done : ∀ i d, σ.stage i = .done d → ∀ key, Sets loc (clients i) key →
    c.find key = (contents d).find key

variable {clients id reEntrance}

/-- INTERNAL: `GET`. -/
theorem Consistent.get {σ σ' : SessionSystem loc} {c : Contents loc}
    (h : Consistent p clients id reEntrance σ c) {i : ℕ}
    (hpresents : Presents loc id reEntrance (clients i))
    (hfits : CommandFits p clients id σ (.get i)) (hrun : σ.step p clients (.get i) = .ok σ') :
    Consistent p clients id reEntrance σ' c := by
  rw [SessionSystem.step] at hrun
  cases hstage : σ.stage i with
  | working seen r =>
    rw [hstage] at hrun
    cases hrun
    exact h
  | done d =>
    rw [hstage] at hrun
    cases hrun
    exact h
  | waiting =>
    rw [hstage] at hrun
    obtain ⟨⟨record, c₁, hrecord, hholds₁, hload⟩, hputs⟩ := hfits hstage
    obtain ⟨record', hrecord', hholds, hsolid, hsettings, hexpires⟩ := h.record
    rw [hrecord] at hrecord'
    obtain rfl := Option.some.inj hrecord'
    obtain rfl := hholds.unique hholds₁ p
    obtain ⟨r, hstart, hediting, hstore⟩ :=
      editing_opened p hpresents hrecord hholds hsolid hsettings hexpires hload
    obtain ⟨⟨hr, r₁⟩, hstart', hrun⟩ := Run.bind_eq_ok hrun
    rw [hstart] at hstart'
    cases hstart'
    obtain ⟨r₂, hcalls, hrun⟩ := Run.bind_eq_ok hrun
    cases hrun
    obtain ⟨hediting₂, hstore₂⟩ := Runs.run_invariant
      (fun r => Editing p (clients i) id reEntrance c r ∧ r.store = σ.store)
      (fun r call r' hr hok hstep =>
        ⟨(hr.1.put p hok hstep).1, (hr.1.put p hok hstep).2.trans hr.2⟩)
      ⟨hediting, hstore⟩ (hputs _ _ hstart) hcalls
    have hguid : (((clients i).request loc σ.store).identify (clients i).cookie
        (clients i).query).guid = id :=
      ((fresh_identify ..).presented id (hpresents σ.store).1).2.1
    refine ⟨⟨record, by rw [hstore₂, hrecord], hholds, hsolid, hsettings, hexpires⟩, ?_, ?_⟩
    · intro j seen r hj
      dsimp only at hj
      by_cases hij : j = i
      · subst hij
        rw [Function.update_self] at hj
        cases hj
        exact ⟨record, c, by rw [hguid, hrecord], hholds, hediting₂, fun _ _ => rfl⟩
      · rw [Function.update_of_ne hij] at hj
        exact h.working j seen r hj
    · intro j d hj
      dsimp only at hj
      by_cases hij : j = i
      · subst hij
        rw [Function.update_self] at hj
        cases hj
      · rw [Function.update_of_ne hij] at hj
        exact h.done j d hj

/-- INTERNAL: `SET` or `EXPIRE`. -/
theorem Consistent.save {σ σ' : SessionSystem loc} {c : Contents loc}
    (h : Consistent p clients id reEntrance σ c) {i : ℕ}
    (hdisjoint : ∀ i j key, i ≠ j → Sets loc (clients i) key → ¬ Sets loc (clients j) key)
    (hfits : CommandFits p clients id σ (.save i)) (hrun : σ.step p clients (.save i) = .ok σ') :
    ∃ c', Consistent p clients id reEntrance σ' c' := by
  rw [SessionSystem.step] at hrun
  cases hstage : σ.stage i with
  | waiting =>
    rw [hstage] at hrun
    cases hrun
    exact ⟨c, h⟩
  | done d =>
    rw [hstage] at hrun
    cases hrun
    exact ⟨c, h⟩
  | working seen r =>
    rw [hstage] at hrun
    obtain ⟨record₀, c₀, hseen, hholds₀, hediting, hown⟩ := h.working i seen r hstage
    obtain ⟨record, hrecord, hholds, hsolid, hsettings, hexpires⟩ := h.record
    have hold := hediting.old
    have hmoved : movedStore { r with store := σ.store } = σ.store := by
      rw [movedStore, hediting.solid]
      rfl
    have hunder : savedUnder { r with store := σ.store } = id := by
      rw [savedUnder, hediting.solid]
      exact hold
    have hpersists : Persists { r with store := σ.store } :=
      ⟨hediting.persists.pending, hediting.persists.noError, hediting.persists.kept,
        hediting.persists.writable⟩
    obtain ⟨⟨hr, r'⟩, hsave, hrun⟩ := Run.bind_eq_ok hrun
    cases hrun
    by_cases hunsaved : Unsaved r
    · -- the record is as it was read, so the request has changed what it holds now
      have hsame : SameStream record₀ record :=
        hfits seen r hstage hunsaved record₀ record hseen hrecord
      obtain rfl : c₀ = c := (hholds₀.congr hsame.1 hsame.2).unique hholds p
      obtain ⟨b, hwrites⟩ := persistSession_writes p hpersists hediting.exact hediting.time hunsaved
      rw [Request.onEndPage, hwrites, hmoved, hunder] at hsave
      cases hsave
      refine ⟨contents r.m_piVarDict, ⟨_, Function.update_self _ _ _,
        holds_savedRecord p (r := { r with store := σ.store }) hediting.exact, hediting.solid,
        hediting.settings, hediting.time⟩, ?_, ?_⟩
      · intro j seen' r₂ hj
        dsimp only at hj
        by_cases hij : j = i
        · subst hij
          rw [Function.update_self] at hj
          cases hj
        · rw [Function.update_of_ne hij] at hj
          obtain ⟨record₂, c₂, hseen₂, hholds₂, hediting₂, hown₂⟩ := h.working j seen' r₂ hj
          refine ⟨record₂, c₂, hseen₂, hholds₂, hediting₂, fun key hkey => ?_⟩
          exact (hediting.kept key (hdisjoint j i key hij hkey)).trans (hown₂ key hkey)
      · intro j d hj key hkey
        dsimp only at hj
        by_cases hij : j = i
        · subst hij
          rw [Function.update_self] at hj
          cases hj
          rfl
        · rw [Function.update_of_ne hij] at hj
          exact (hediting.kept key (hdisjoint j i key hij hkey)).trans (h.done j d hj key hkey)
    · rw [Request.onEndPage, persistSession_touches p hpersists hunsaved, hmoved, hunder] at hsave
      cases hsave
      refine ⟨c, ⟨_, expire_apply_self _ _ hrecord hediting.time, hholds.congr rfl rfl, hsolid,
        hsettings, hexpires⟩, ?_, ?_⟩
      · intro j seen' r₂ hj
        dsimp only at hj
        by_cases hij : j = i
        · subst hij
          rw [Function.update_self] at hj
          cases hj
        · rw [Function.update_of_ne hij] at hj
          exact h.working j seen' r₂ hj
      · intro j d hj key hkey
        dsimp only at hj
        by_cases hij : j = i
        · subst hij
          rw [Function.update_self] at hj
          cases hj
          rw [hediting.clean hunsaved]
          exact hown key hkey
        · rw [Function.update_of_ne hij] at hj
          exact h.done j d hj key hkey

/-- **Concurrent requests lose no update** in a run of commands that all fit: any number of
requests on a session that is not liquid, in any order, each setting variables of its own. -/
theorem holdsUpdates_of_run {store : SessionStore} {record : SessionRecord} {c : Contents loc}
    (hrecord : store id = some record) (hholds : Holds record c)
    (hsolid : record.metaData.m_Liquid = false)
    (hexpires : 0 < SessionStore.seconds record.metaData.m_Expires)
    (hpresents : ∀ i, Presents loc id record.metaData.m_ReEntrance (clients i))
    (hdisjoint : ∀ i j key, i ≠ j → Sets loc (clients i) key → ¬ Sets loc (clients j) key)
    {events : List SessionEvent} {σ : SessionSystem loc}
    (hfits : Runs.Meets (SessionSystem.step p clients) (CommandFits p clients id) events
      (.start store : SessionSystem loc))
    (hrun : Runs.run (SessionSystem.step p clients) events (.start store) = .ok σ) :
    HoldsUpdates clients id σ := by
  have hstart : ∃ c : Contents loc, Consistent p clients id record.metaData.m_ReEntrance
      (.start store) c :=
    ⟨c, ⟨record, hrecord, hholds, hsolid, rfl, hexpires⟩, (fun i seen r h => by cases h),
      fun i d h => by cases h⟩
  obtain ⟨c', h⟩ := Runs.run_invariant
    (fun σ => ∃ c : Contents loc, Consistent p clients id record.metaData.m_ReEntrance σ c)
    (fun σ event σ' hσ hok hstep => by
      obtain ⟨c, hσ⟩ := hσ
      cases event with
      | get i => exact ⟨c, hσ.get p (hpresents i) hok hstep⟩
      | save i => exact hσ.save p hdisjoint hok hstep)
    hstart hfits hrun
  obtain ⟨record', hrecord', hholds', -⟩ := h.record
  exact ⟨record', c', hrecord', hholds', h.done⟩

end Commands

/-! ## Requests on concrete input -/

/-- A session without variables under the id 7. -/
def emptySession : SessionStore := fun id =>
  if id = 7 then some ⟨⟨20, false, false, 0⟩, [], 1200⟩ else none

/-- Requests of which the first puts a number under `a`, and the second the variables in
`puts`. -/
def twoClients (puts : List SessionPut) (i : ℕ) : SessionClient where
  cookie := some 7
  query := none
  drawn := 0
  lngTimeOutSetting := 20
  dtExpires := 0
  blnSnifQueryStringFirst := false
  puts :=
    if i = 0 then [.value (Bstr.ofString "a") (.value (.scalar .i4 7)) []]
    else if i = 1 then puts else []

/-- Both read the session before one of them saves it. -/
def bothRead : List SessionEvent := [.get 0, .get 1, .save 0, .save 1]

/-- INTERNAL: the first request sets a variable under `a` and nothing else. -/
theorem putFits_first {hr : HResult} {r : Request .ordinal}
    (hstart : ((twoClients [] 0).request .ordinal emptySession).onStartPage .counting (some 7)
      none = .ok (hr, r)) :
    PutFits (twoClients [] 0) r (.putValue (Bstr.ofString "a") (.value (.scalar .i4 7)) []) := by
  cases hstart
  refine ⟨.value (Bstr.ofString "a") (.value (.scalar .i4 7)) [], List.mem_singleton_self _, rfl,
    ?_, ?_, .inr ⟨rfl, .inl rfl⟩⟩
  · refine safeCall_new rfl ⟨⟨"a".toList, rfl⟩, by unfold StringFits; decide⟩
      ⟨⟨trivial, trivial⟩, trivial⟩ ?_
    rintro w (rfl | rfl) mem
    · exact Nat.lt_of_le_of_lt (Nat.le_of_ble_eq_true rfl : _ ≤ 64) (by decide)
    · exact Nat.lt_of_le_of_lt (Nat.le_of_ble_eq_true rfl : _ ≤ 64) (by decide)
  · rintro key v hputs hloses
    cases hputs
    cases hloses

/-- A client has not sent its `GET` yet. -/
def waits : SessionStage .ordinal → Bool
  | .waiting => true
  | _ => false

/-- The record a client has seen. -/
def seenBy : SessionStage .ordinal → Option SessionRecord
  | .working seen _ => seen
  | _ => none

/-- Whether a client has something to save. -/
def mayHaveUnsaved : SessionStage .ordinal → Bool
  | .working _ r => decide (Unsaved r)
  | _ => true

/-- The second request reads the session while the first is at work, and sets nothing. -/
theorem readerAndWriter_holdUpdates :
    ∃ σ : SessionSystem .ordinal, Runs.run (SessionSystem.step .counting (twoClients [])) bothRead
      (.start emptySession) = .ok σ ∧ HoldsUpdates (twoClients []) 7 σ := by
  have hruns : (Runs.run (SessionSystem.step .counting (twoClients [])) bothRead
      (.start emptySession : SessionSystem .ordinal)).toOption.isSome := by decide +kernel
  have hfirst : ((SessionSystem.step .counting (twoClients []) (.start emptySession) (.get 0) :
      Run (SessionSystem .ordinal)).toOption.map fun σ => (σ.store 7, waits (σ.stage 1))) =
      some (emptySession 7, true) := by decide +kernel
  have hsecond : ((Runs.run (SessionSystem.step .counting (twoClients [])) [.get 0, .get 1]
      (.start emptySession : SessionSystem .ordinal)).toOption.map fun σ =>
        (σ.store 7, seenBy (σ.stage 0))) = some (emptySession 7, emptySession 7) := by
    decide +kernel
  have hthird : ((Runs.run (SessionSystem.step .counting (twoClients [])) [.get 0, .get 1, .save 0]
      (.start emptySession : SessionSystem .ordinal)).toOption.map fun σ =>
        mayHaveUnsaved (σ.stage 1)) = some false := by decide +kernel
  obtain ⟨σ, hσ⟩ := Option.isSome_iff_exists.mp hruns
  have hrun := Run.eq_ok_of_toOption hσ
  refine ⟨σ, hrun, holdsUpdates_of_run .counting (c := .empty)
    (show emptySession 7 = some ⟨⟨20, false, false, 0⟩, [], 1200⟩ from rfl) (.inserted rfl rfl) rfl
    (by decide) (fun i store => ⟨rfl, fun h => (by cases h)⟩) ?_ ?_ hrun⟩
  · rintro i j key hij ⟨put, hput, -⟩ ⟨put', hput', -⟩
    simp only [twoClients] at hput hput'
    grind
  · have hloadable : Reloadable .counting (.empty : Contents .ordinal) := reloadable_empty .counting
    refine ⟨fun _ => ⟨⟨_, .empty, rfl, .inserted rfl rfl, hloadable⟩,
      fun hr r hstart => ⟨putFits_first hstart, fun _ _ => trivial⟩⟩, fun σ₁ hσ₁ => ?_⟩
    rw [hσ₁] at hfirst
    obtain ⟨hstore₁, hstage₁⟩ := Prod.mk.inj (Option.some.inj hfirst)
    refine ⟨fun hwaiting => ⟨⟨_, .empty, hstore₁, .inserted rfl rfl, hloadable⟩,
      fun hr r hstart => trivial⟩, fun σ₂ hσ₂ => ?_⟩
    simp only [Runs.run, hσ₁, hσ₂] at hsecond hthird
    obtain ⟨hstore₂, hstage₂⟩ := Prod.mk.inj (Option.some.inj hsecond)
    refine ⟨fun seen r hworking hunsaved record record' hseen hrecord => ?_, fun σ₃ hσ₃ => ?_⟩
    · rw [hworking] at hstage₂
      rw [hstore₂] at hrecord
      obtain rfl := Option.some.inj (hseen.symm.trans hstage₂)
      obtain rfl := Option.some.inj hrecord
      exact ⟨rfl, rfl⟩
    · simp only [hσ₃] at hthird
      refine ⟨fun seen r hworking hunsaved => ?_, fun _ _ => trivial⟩
      have hclean := Option.some.inj hthird
      dsimp only at hclean
      rw [hworking] at hclean
      exact absurd hunsaved (of_decide_eq_false hclean)

/-- Whether a request that opens the record finds a variable under `a`. -/
def recordHasA (σ : SessionSystem .ordinal) : Option Bool := do
  let record ← σ.store 7
  let (_, loaded) ← (firstRequest.loadRecord .counting (rowsetOf record) .sOk).toOption
  pure (loaded.m_piVarDict.dictionary.find (Bstr.ofString "a")).isSome

/-- INTERNAL: what a request finds is what the record holds. -/
theorem find_of_recordHasA {σ : SessionSystem .ordinal} {record : SessionRecord}
    {c : Contents .ordinal} {found : Bool} (hrecord : σ.store 7 = some record)
    (hholds : Holds record c) (hfound : recordHasA σ = some found) :
    (c.find (Bstr.ofString "a")).isSome = found := by
  obtain ⟨r, hload, rfl⟩ := hholds.loads .counting firstRequest rfl
  simp only [recordHasA, hrecord, hload, Except.toOption, Option.bind_eq_bind, Option.bind_some,
    Option.pure_def, Option.some.injEq] at hfound
  rw [contents, OrderedMap.find_mapValues, Option.isSome_map, hfound]

/-- A number under `b`. -/
def putsB : List SessionPut := [.value (Bstr.ofString "b") (.value (.scalar .i4 8)) []]

/-- Of two requests that put different variables the first loses its own. -/
theorem twoWriters_loseUpdate :
    ∃ σ : SessionSystem .ordinal, Runs.run (SessionSystem.step .counting (twoClients putsB))
      bothRead (.start emptySession) = .ok σ ∧ ¬ HoldsUpdates (twoClients putsB) 7 σ := by
  have hend : ((Runs.run (SessionSystem.step .counting (twoClients putsB)) bothRead
      (.start emptySession : SessionSystem .ordinal)).toOption.map fun σ =>
        (recordHasA σ, match σ.stage 0 with
          | .done d => (d.dictionary.find (Bstr.ofString "a")).isSome
          | _ => false)) = some (some false, true) := by decide +kernel
  obtain ⟨σ, hσ, hend⟩ := Option.map_eq_some_iff.mp hend
  obtain ⟨hheld, hset⟩ := Prod.mk.inj hend
  refine ⟨σ, Run.eq_ok_of_toOption hσ, ?_⟩
  rintro ⟨record, c, hrecord, hholds, hupdates⟩
  cases hdone : σ.stage 0 with
  | waiting =>
    rw [hdone] at hset
    cases hset
  | working seen r =>
    rw [hdone] at hset
    cases hset
  | done d =>
    rw [hdone] at hset
    have hkept := hupdates 0 d hdone (Bstr.ofString "a")
      ⟨_, List.mem_singleton_self _, Std.ReflCmp.compare_self⟩
    have hlost := find_of_recordHasA hrecord hholds hheld
    rw [hkept, contents, OrderedMap.find_mapValues, Option.isSome_map] at hlost
    exact absurd (hlost.symm.trans hset) Bool.false_ne_true

end IspSession.Analysis
