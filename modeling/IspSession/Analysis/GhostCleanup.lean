import IspSession.Analysis.ApplicationLoading
import IspSession.Model.ApplicationSystem
import IspSession.Library.Runs

/-!
# Committed keys and the cleanup of expired ones

A key of the application can be lost in two ways while its value is there: `ApplicationGet`
takes a member out of the set that was without a value when it asked, although the value
has been written since; and `ApplicationSave` writes the value of a changed key without
adding the key to the set, or adds and removes it. `StepFits` says of a step that it does
none of this to the key.

`Sound` is the invariant: a key that has been committed is a member while it has a value,
and its value is a committed one. `committed_key_returned` is what follows for the requests
that ask after a commit.
-/

set_option autoImplicit false

namespace IspSession.Analysis

open IspSession.Library IspSession.Model ApplicationSystem

variable {loc : Collation}

/-! ## One save -/

/-- The Redis keys of some keys. -/
def namesIn (appkey : Bytes) (keys : List Bytes) : List Bytes := keys.map (redisKey appkey)

/-- **What a commit does**: it writes the new and the changed keys, and is a saving. -/
theorem applicationSave_saving {cp : CodePage} {mem : Memory} {appkey : Bytes} {s s' : Keyspace}
    {a a' : CApplication loc} (h : CApplicationDL.applicationSave cp mem appkey s a = .ok (s', a')) :
    ∃ pairs, committedRecords cp mem appkey a = .ok pairs ∧
      pairs.map Prod.fst = namesIn appkey (a.keyStates.newKeys ++ a.keyStates.changedKeys) ∧
      s' = s.executeAll (saving appkey (namesIn appkey a.keyStates.newKeys)
        (namesIn appkey a.keyStates.removedKeys) true pairs
        (a.keyStates.expireKeys.map fun e => (redisKey appkey e.1, e.2))) := by
  unfold CApplicationDL.applicationSave at h
  obtain ⟨⟨newPairs, a₁⟩, hnew, h⟩ := Run.bind_eq_ok h
  obtain ⟨⟨changedPairs, a₂⟩, hchanged, h⟩ := Run.bind_eq_ok h
  cases h
  have hnames : (newPairs ++ changedPairs).map Prod.fst =
      namesIn appkey (a.keyStates.newKeys ++ a.keyStates.changedKeys) := by
    rw [List.map_append, serializeKeys_names hnew, serializeKeys_names hchanged, namesIn,
      List.map_append]
  refine ⟨newPairs ++ changedPairs, ?_, hnames, ?_⟩
  · rw [committedRecords, hnew]
    simp only [Run.ok_bind, hchanged]
    rfl
  · rw [saveCommands_eq appkey a.keyStates hnames]
    rfl

/-- INTERNAL: the key of the set is none of the keys in a list. -/
theorem appkey_notMem_namesIn (appkey : Bytes) (keys : List Bytes) :
    appkey ∉ namesIn appkey keys := by
  intro hmem
  obtain ⟨key, -, heq⟩ := List.mem_map.mp hmem
  exact redisKey_ne appkey key heq

/-- **The members and the values after a commit.** -/
theorem committed_spec {cp : CodePage} {mem : Memory} {appkey : Bytes} {s s' : Keyspace}
    {a a' : CApplication loc} {members : List Bytes} (hset : KeySet s appkey members)
    (h : CApplicationDL.applicationSave cp mem appkey s a = .ok (s', a')) :
    ∃ pairs members', committedRecords cp mem appkey a = .ok pairs ∧
      pairs.map Prod.fst = namesIn appkey (a.keyStates.newKeys ++ a.keyStates.changedKeys) ∧
      KeySet s' appkey members' ∧
      (∀ name, name ∈ members' ↔
        (name ∈ members ∨ name ∈ namesIn appkey a.keyStates.newKeys) ∧
          name ∉ namesIn appkey a.keyStates.removedKeys) ∧
      ∀ name, name ≠ appkey →
        (name ∈ pairs.map Prod.fst → ∃ bytes, (name, bytes) ∈ pairs ∧ s'.get name = some bytes) ∧
        (name ∉ pairs.map Prod.fst → s'.get name =
          if name ∈ namesIn appkey a.keyStates.removedKeys then none else s.get name) := by
  obtain ⟨pairs, hrecords, hnames, rfl⟩ := applicationSave_saving h
  have hremoved := appkey_notMem_namesIn appkey a.keyStates.removedKeys
  have hpairs : appkey ∉ pairs.map Prod.fst := hnames ▸ appkey_notMem_namesIn appkey _
  have hexpire : appkey ∉ (a.keyStates.expireKeys.map fun e => (redisKey appkey e.1, e.2)).map
      Prod.fst := by
    intro hmem
    rw [List.map_map] at hmem
    obtain ⟨e, -, heq⟩ := List.mem_map.mp hmem
    exact redisKey_ne appkey e.1 heq
  have hpos : ∀ e ∈ a.keyStates.expireKeys.map (fun e => (redisKey appkey e.1, e.2)),
      (0 : ℤ) < e.2 := by
    intro e he
    obtain ⟨e', he', rfl⟩ := List.mem_map.mp he
    exact (keyStates_eq a).2.2 e' he'
  exact ⟨pairs, _, hrecords, hnames, hset.saving _ true hremoved hpairs hexpire hpos,
    mem_members_saving hset.nodup,
    fun name hne => get_saving s _ pairs hremoved hpos hne⟩

/-- **The questions of a request in a row are `ApplicationGet`.** -/
theorem questions_in_a_row {cp : CodePage} {oleLoad : Bytes → Option ComObject} {mem : Memory}
    {appkey : Bytes} {σ : ApplicationSystem loc} {i : ℕ} {s : Keyspace} {a : CApplication loc}
    (hidle : σ.stage i = .idle)
    (h : CApplicationDL.applicationGet mem appkey σ.store (σ.store.smembers appkey) .new =
      .ok (s, a)) :
    ∃ σ', Runs.run (ApplicationSystem.step cp oleLoad appkey)
        [.smembers i, .mget i, .srem i mem] σ = .ok σ' ∧
      σ'.store = s ∧ σ'.stage i = .working a ∧ σ'.records = σ.records := by
  obtain ⟨a', hload, h⟩ := Run.bind_eq_ok h
  cases h
  let keys := σ.store.smembers appkey
  let replies := σ.store.mget keys
  have hrun : Runs.run (ApplicationSystem.step cp oleLoad appkey)
      [.smembers i, .mget i, .srem i mem] σ =
      .ok { ((σ.setStage i (.asked keys)).setStage i (.answered keys replies)).setStage i
          (.working a) with
        store := σ.store.executeAll (CApplicationDL.cleanup appkey keys replies) } := by
    simp only [Runs.run, ApplicationSystem.step, hidle, pure, Except.pure, setStage,
      Function.update_self, hload, keys, replies]
  exact ⟨_, hrun, rfl, Function.update_self .., rfl⟩

/-! ## The condition and the invariant -/

/-- A cleanup takes the key out of the set only while it has no value. -/
def CleanupFits (name : Bytes) (store : Keyspace) : Stage loc → Prop
  | .answered keys replies =>
    name ∈ CApplicationDL.ghostKeys keys replies → (store.get name).isNone = true
  | _ => True

instance (name : Bytes) (store : Keyspace) (stage : Stage loc) :
    Decidable (CleanupFits name store stage) := by
  cases stage <;> dsimp only [CleanupFits] <;> infer_instance

/-- A commit writes the key as a changed one only while it is a member, and does not both
write and remove it. -/
def CommitFits (appkey name : Bytes) (store : Keyspace) : Stage loc → Prop
  | .working a =>
    (name ∈ namesIn appkey a.keyStates.changedKeys → name ∈ store.smembers appkey) ∧
    (name ∈ namesIn appkey (a.keyStates.newKeys ++ a.keyStates.changedKeys) →
      name ∉ namesIn appkey a.keyStates.removedKeys)
  | _ => True

instance (appkey name : Bytes) (store : Keyspace) (stage : Stage loc) :
    Decidable (CommitFits appkey name store stage) := by
  cases stage <;> dsimp only [CommitFits] <;> infer_instance

/-- What a step needs so that the key is not lost. -/
def StepFits (appkey name : Bytes) (σ : ApplicationSystem loc) : Event → Prop
  | .srem i _ => CleanupFits name σ.store (σ.stage i)
  | .commit i _ => CommitFits appkey name σ.store (σ.stage i)
  | _ => True

instance (appkey name : Bytes) (σ : ApplicationSystem loc) (e : Event) :
    Decidable (StepFits appkey name σ e) := by
  cases e <;> dsimp only [StepFits] <;> infer_instance

/-- What is committed at this stage does not remove the key. -/
def NotRemoved (appkey name : Bytes) : Stage loc → Prop
  | .working a => name ∉ namesIn appkey a.keyStates.removedKeys
  | _ => True

instance (appkey name : Bytes) (stage : Stage loc) :
    Decidable (NotRemoved appkey name stage) := by
  cases stage <;> dsimp only [NotRemoved] <;> infer_instance

/-- The step neither removes the key nor expires it. -/
def KeepsName (appkey name : Bytes) (σ : ApplicationSystem loc) : Event → Prop
  | .commit i _ => NotRemoved appkey name (σ.stage i)
  | .expire name' => name' ≠ name
  | _ => True

instance (appkey name : Bytes) (σ : ApplicationSystem loc) (e : Event) :
    Decidable (KeepsName appkey name σ e) := by
  cases e <;> dsimp only [KeepsName] <;> infer_instance

/-- **The invariant**: a committed key is a member while it has a value, and the value is a
committed one. -/
structure Sound (appkey name : Bytes) (σ : ApplicationSystem loc) : Prop where
  keys : KeySet σ.store appkey (σ.store.smembers appkey)
  member : name ∈ σ.records.map Prod.fst → ∀ bytes, σ.store.get name = some bytes →
    name ∈ σ.store.smembers appkey ∧ (name, bytes) ∈ σ.records

/-- The key has a committed value. -/
def HasCommitted (name : Bytes) (σ : ApplicationSystem loc) : Prop :=
  ∃ bytes, σ.store.get name = some bytes ∧ (name, bytes) ∈ σ.records

/-- INTERNAL: a committed value is that of a member. -/
theorem Sound.mem_smembers {appkey name : Bytes} {σ : ApplicationSystem loc}
    (h : Sound appkey name σ) (hhas : HasCommitted name σ) : name ∈ σ.store.smembers appkey := by
  obtain ⟨bytes, hget, hmem⟩ := hhas
  exact (h.member (List.mem_map_of_mem hmem) bytes hget).1

/-! ## One step -/

variable {cp : CodePage} {oleLoad : Bytes → Option ComObject} {appkey name : Bytes}
  {σ σ' : ApplicationSystem loc} {e : Event}

/-- **What a step does to Redis**: nothing, a cleanup, a commit or an expiration. -/
theorem step_leaves (h : σ.step cp oleLoad appkey e = .ok σ') :
    (σ'.store = σ.store ∧ σ'.records = σ.records) ∨
    (∃ i mem keys replies, e = .srem i mem ∧ σ.stage i = .answered keys replies ∧
      σ'.store = σ.store.executeAll (CApplicationDL.cleanup appkey keys replies) ∧
      σ'.records = σ.records) ∨
    (∃ i mem a a' records, e = .commit i mem ∧ σ.stage i = .working a ∧
      CApplicationDL.applicationSave cp mem appkey σ.store a = .ok (σ'.store, a') ∧
      committedRecords cp mem appkey a = .ok records ∧ σ'.records = σ.records ++ records) ∨
    ∃ name entry ms, e = .expire name ∧ σ.store name = some entry ∧ entry.ttl = some ms ∧
      σ'.store = Function.update σ.store name none ∧ σ'.records = σ.records := by
  cases e with
  | smembers i =>
    dsimp only [ApplicationSystem.step] at h
    split at h <;> cases h <;> exact .inl ⟨rfl, rfl⟩
  | mget i =>
    dsimp only [ApplicationSystem.step] at h
    split at h <;> cases h <;> exact .inl ⟨rfl, rfl⟩
  | srem i mem =>
    dsimp only [ApplicationSystem.step] at h
    split at h
    · rename_i keys replies hstage
      split at h
      · cases h
        exact .inr (.inl ⟨i, mem, keys, replies, rfl, hstage, rfl, rfl⟩)
      · cases h
        exact .inl ⟨rfl, rfl⟩
    · cases h
      exact .inl ⟨rfl, rfl⟩
  | call i mem c =>
    dsimp only [ApplicationSystem.step] at h
    split at h
    · split at h <;> cases h <;> exact .inl ⟨rfl, rfl⟩
    · cases h
      exact .inl ⟨rfl, rfl⟩
  | commit i mem =>
    dsimp only [ApplicationSystem.step] at h
    split at h
    · rename_i a hstage
      split at h
      · rename_i store a' records hsave hrecords
        cases h
        exact .inr (.inr (.inl ⟨i, mem, a, a', records, rfl, hstage, hsave, hrecords, rfl⟩))
      · cases h
        exact .inl ⟨rfl, rfl⟩
    · cases h
      exact .inl ⟨rfl, rfl⟩
  | expire name =>
    dsimp only [ApplicationSystem.step] at h
    split at h
    · rename_i value ms hentry
      cases h
      exact .inr (.inr (.inr ⟨name, _, ms, rfl, hentry, rfl, rfl, rfl⟩))
    · cases h
      exact .inl ⟨rfl, rfl⟩

/-- **A step of one request leaves the others where they are.** -/
theorem step_stage (h : σ.step cp oleLoad appkey e = .ok σ') {j : ℕ} (hj : e.request ≠ some j) :
    σ'.stage j = σ.stage j := by
  have hset : ∀ (i : ℕ) (stage : Stage loc), i ≠ j → (σ.setStage i stage).stage j = σ.stage j :=
    fun i stage hne => Function.update_of_ne (Ne.symm hne) ..
  cases e with
  | smembers i =>
    have hne : i ≠ j := fun heq => hj (congrArg some heq)
    dsimp only [ApplicationSystem.step] at h
    split at h <;> cases h
    · exact hset _ _ hne
    · rfl
  | mget i =>
    have hne : i ≠ j := fun heq => hj (congrArg some heq)
    dsimp only [ApplicationSystem.step] at h
    split at h <;> cases h
    · exact hset _ _ hne
    · rfl
  | srem i mem =>
    have hne : i ≠ j := fun heq => hj (congrArg some heq)
    dsimp only [ApplicationSystem.step] at h
    split at h
    · split at h <;> cases h <;> exact hset _ _ hne
    · cases h
      rfl
  | call i mem c =>
    have hne : i ≠ j := fun heq => hj (congrArg some heq)
    dsimp only [ApplicationSystem.step] at h
    split at h
    · split at h <;> cases h <;> exact hset _ _ hne
    · cases h
      rfl
  | commit i mem =>
    have hne : i ≠ j := fun heq => hj (congrArg some heq)
    dsimp only [ApplicationSystem.step] at h
    split at h
    · split at h <;> cases h <;> exact hset _ _ hne
    · cases h
      rfl
  | expire name =>
    dsimp only [ApplicationSystem.step] at h
    split at h <;> cases h <;> rfl

/-- INTERNAL: the key of the set has no string. -/
theorem KeySet.get_eq_none {s : Keyspace} {members : List Bytes} (h : KeySet s appkey members) :
    s.get appkey = none := by
  rw [Keyspace.get, h.entry, Keyspace.setEntry]
  by_cases hempty : members = []
  · rw [dif_pos hempty]
  · rw [dif_neg hempty]

/-- INTERNAL: a key with a value is not the key of the set. -/
theorem Sound.ne_appkey (h : Sound appkey name σ) {name' bytes : Bytes}
    (hget : σ.store.get name' = some bytes) : name' ≠ appkey := by
  rintro rfl
  rw [h.keys.get_eq_none] at hget
  cases hget

/-- **A step that fits keeps the invariant.** -/
theorem Sound.step (h : Sound appkey name σ) (hfits : StepFits appkey name σ e)
    (hstep : σ.step cp oleLoad appkey e = .ok σ') : Sound appkey name σ' := by
  rcases step_leaves hstep with ⟨hstore, hrecords⟩ |
    ⟨i, mem, keys, replies, rfl, hstage, hstore, hrecords⟩ |
    ⟨i, mem, a, a', records, rfl, hstage, hsave, hcommitted, hrecords⟩ |
    ⟨name', entry, ms, rfl, hentry, hlife, hstore, hrecords⟩
  · constructor
    · rw [hstore]
      exact h.keys
    · rw [hstore, hrecords]
      exact h.member
  · obtain ⟨hkeys, hsame⟩ := keySet_cleanup h.keys keys replies
    rw [← hstore] at hkeys hsame
    have hmembers := hkeys.smembers
    refine ⟨hmembers.symm ▸ hkeys, fun hmem bytes hget => ?_⟩
    rw [hrecords] at hmem ⊢
    have hne : name ≠ appkey := by
      rintro rfl
      rw [hkeys.get_eq_none] at hget
      cases hget
    have hget' : σ.store.get name = some bytes := by rwa [Keyspace.get, hsame name hne] at hget
    obtain ⟨hmember, hrecord⟩ := h.member hmem bytes hget'
    refine ⟨?_, hrecord⟩
    rw [hmembers, List.mem_filter, decide_eq_true_eq]
    refine ⟨hmember, fun hghost => ?_⟩
    -- a ghost has no value
    change CleanupFits name σ.store (σ.stage i) at hfits
    rw [hstage] at hfits
    have hnone := hfits hghost
    rw [hget'] at hnone
    cases hnone
  · obtain ⟨pairs, members', hpairs, hnames, hkeys, hmembers, hvalues⟩ :=
      committed_spec h.keys hsave
    rw [hcommitted] at hpairs
    cases hpairs
    have hsm := hkeys.smembers
    change CommitFits appkey name σ.store (σ.stage i) at hfits
    rw [hstage] at hfits
    refine ⟨hsm.symm ▸ hkeys, fun hmem bytes hget => ?_⟩
    have hne : name ≠ appkey := by
      rintro rfl
      rw [hkeys.get_eq_none] at hget
      cases hget
    rw [hrecords, hsm, hmembers]
    by_cases hwritten : name ∈ records.map Prod.fst
    · obtain ⟨bytes', hpair, hget'⟩ := (hvalues name hne).1 hwritten
      rw [hget] at hget'
      cases hget'
      rw [hnames] at hwritten
      refine ⟨⟨?_, hfits.2 hwritten⟩, List.mem_append_right _ hpair⟩
      rw [namesIn, List.map_append] at hwritten
      exact (List.mem_append.mp hwritten).elim .inr fun hc => .inl (hfits.1 hc)
    · have hget' := (hvalues name hne).2 hwritten
      rw [hget] at hget'
      split at hget'
      · cases hget'
      · rename_i hkept
        rw [hrecords, List.map_append, List.mem_append] at hmem
        obtain ⟨hmember, hrecord⟩ :=
          h.member (hmem.resolve_right hwritten) bytes hget'.symm
        exact ⟨⟨.inl hmember, hkept⟩, List.mem_append_left _ hrecord⟩
  · have hne' : name' ≠ appkey := by
      rintro rfl
      have hset := h.keys.entry
      rw [hentry, Keyspace.setEntry] at hset
      split at hset
      · cases hset
      · rw [Option.some.inj hset] at hlife
        cases hlife
    have hkeys : KeySet σ'.store appkey (σ.store.smembers appkey) := by
      refine ⟨h.keys.nodup, ?_⟩
      rw [hstore, Function.update_of_ne (Ne.symm hne')]
      exact h.keys.entry
    have hsm := hkeys.smembers
    refine ⟨hsm.symm ▸ hkeys, fun hmem bytes hget => ?_⟩
    rw [hrecords] at hmem ⊢
    rw [hsm]
    refine h.member hmem bytes ?_
    by_cases heq : name = name'
    · rw [hstore, Keyspace.get, heq, Function.update_self] at hget
      cases hget
    · rwa [hstore, Keyspace.get, Function.update_of_ne heq, ← Keyspace.get] at hget

/-- **A committed value stays** while the key is neither removed nor expired. -/
theorem HasCommitted.step (hhas : HasCommitted name σ) (h : Sound appkey name σ)
    (hkeeps : KeepsName appkey name σ e) (hstep : σ.step cp oleLoad appkey e = .ok σ') :
    HasCommitted name σ' := by
  obtain ⟨bytes, hget, hmem⟩ := hhas
  have hne := h.ne_appkey hget
  rcases step_leaves hstep with ⟨hstore, hrecords⟩ |
    ⟨i, mem, keys, replies, rfl, hstage, hstore, hrecords⟩ |
    ⟨i, mem, a, a', records, rfl, hstage, hsave, hcommitted, hrecords⟩ |
    ⟨name', entry, ms, rfl, hentry, hlife, hstore, hrecords⟩
  · exact ⟨bytes, by rw [hstore]; exact hget, by rw [hrecords]; exact hmem⟩
  · obtain ⟨hkeys, hsame⟩ := keySet_cleanup h.keys keys replies
    refine ⟨bytes, ?_, by rw [hrecords]; exact hmem⟩
    rw [hstore, Keyspace.get, hsame name hne]
    exact hget
  · obtain ⟨pairs, members', hpairs, hnames, hkeys, hmembers, hvalues⟩ :=
      committed_spec h.keys hsave
    rw [hcommitted] at hpairs
    cases hpairs
    change NotRemoved appkey name (σ.stage i) at hkeeps
    rw [hstage] at hkeeps
    by_cases hwritten : name ∈ records.map Prod.fst
    · obtain ⟨bytes', hpair, hget'⟩ := (hvalues name hne).1 hwritten
      exact ⟨bytes', hget', by rw [hrecords]; exact List.mem_append_right _ hpair⟩
    · have hget' := (hvalues name hne).2 hwritten
      rw [if_neg hkeeps, hget] at hget'
      exact ⟨bytes, hget', by rw [hrecords]; exact List.mem_append_left _ hmem⟩
  · refine ⟨bytes, ?_, by rw [hrecords]; exact hmem⟩
    rw [hstore, Keyspace.get, Function.update_of_ne (Ne.symm hkeeps)]
    exact hget

/-! ## Runs -/

/-- A commit of the request writes the key. -/
def Commits (cp : CodePage) (mem : Memory) (appkey name : Bytes) : Stage loc → Prop
  | .working a => ∃ records ∈ (committedRecords cp mem appkey a).toOption,
      name ∈ records.map Prod.fst
  | _ => False

instance (cp : CodePage) (mem : Memory) (appkey name : Bytes) (stage : Stage loc) :
    Decidable (Commits cp mem appkey name stage) := by
  cases stage <;> dsimp only [Commits] <;> infer_instance

/-- INTERNAL: a save whose records can be made succeeds. -/
theorem exists_applicationSave {mem : Memory} {a : CApplication loc}
    {records : List (Bytes × Bytes)} (h : committedRecords cp mem appkey a = .ok records)
    (s : Keyspace) : ∃ r, CApplicationDL.applicationSave cp mem appkey s a = .ok r := by
  unfold committedRecords at h
  obtain ⟨⟨newPairs, a₁⟩, hnew, h⟩ := Run.bind_eq_ok h
  obtain ⟨⟨changedPairs, a₂⟩, hchanged, h⟩ := Run.bind_eq_ok h
  unfold CApplicationDL.applicationSave
  dsimp only
  rw [hnew]
  simp only [Run.ok_bind, hchanged]
  exact ⟨_, rfl⟩

/-- INTERNAL: after a commit the key has a committed value. -/
theorem Sound.hasCommitted {mem : Memory} {i : ℕ} (h : Sound appkey name σ)
    (hcommits : Commits cp mem appkey name (σ.stage i))
    (hstep : σ.step cp oleLoad appkey (.commit i mem) = .ok σ') : HasCommitted name σ' := by
  dsimp only [ApplicationSystem.step] at hstep
  cases hstage : σ.stage i with
  | working a =>
    rw [hstage] at hcommits hstep
    obtain ⟨records, hrecords, hname⟩ := hcommits
    have hrecords := Run.eq_ok_of_toOption hrecords
    obtain ⟨⟨s', a'⟩, hsave⟩ := exists_applicationSave hrecords σ.store
    obtain ⟨pairs, members', hpairs, hnames, -, -, hvalues⟩ := committed_spec h.keys hsave
    rw [hrecords] at hpairs
    cases hpairs
    have hne : name ≠ appkey := by
      rintro rfl
      rw [hnames] at hname
      exact appkey_notMem_namesIn _ _ hname
    obtain ⟨bytes, hpair, hget⟩ := (hvalues name hne).1 hname
    dsimp only at hstep
    rw [hsave, hrecords] at hstep
    cases hstep
    exact ⟨bytes, hget, List.mem_append_right _ hpair⟩
  | _ =>
    rw [hstage] at hcommits
    cases hcommits

/-- INTERNAL: loading replies never takes a key out again, and a record brings its key. -/
theorem deserializeKeys_keeps {mem : Memory} {replies : List (Option Bytes)}
    {a a' : CApplication loc} (h : CApplicationDL.deserializeKeys mem replies a = .ok a') :
    (∀ key, (a.find key).isSome = true → (a'.find key).isSome = true) ∧
      ∀ bytes key val, some bytes ∈ replies → IsRecord loc bytes key val →
        (a'.find key).isSome = true := by
  induction replies generalizing a with
  | nil =>
    cases h
    exact ⟨fun _ hsome => hsome, fun _ _ _ hmem => by cases hmem⟩
  | cons reply replies ih =>
    cases reply with
    | none =>
      obtain ⟨hkeep, hbring⟩ := ih h
      refine ⟨hkeep, fun bytes key val hmem => hbring bytes key val ?_⟩
      exact (List.mem_cons.mp hmem).resolve_left fun heq => by cases heq
    | some subRepl =>
      rw [CApplicationDL.deserializeKeys] at h
      obtain ⟨⟨hr, a₁⟩, hread, hrest⟩ := Run.bind_eq_ok h
      obtain ⟨hkeep, hbring⟩ := ih hrest
      have hput : ∀ (key key' : Bstr) (b : ℕ) (f : ElementModel → ElementModel),
          ((a.find key').isSome = true ∨ loc.compare key' key = .eq) →
          ((((a.insert key .blank).update key f).withBuffer b).find key').isSome = true := by
        intro key key' b f hthere
        rw [CApplication.find_withBuffer, CApplication.find_update]
        have hself : loc.compare key key = .eq := Std.ReflCmp.compare_self
        split
        · rw [CApplication.find_insert, if_pos hself, Option.isSome_map, Option.isSome_or]
          simp
        · rename_i hk
          rw [CApplication.find_insert, if_neg hk, Option.or_none]
          exact hthere.resolve_right hk
      constructor
      · intro key hsome
        refine hkeep key ?_
        obtain ⟨hrKey, text, c, -, b, ⟨-, rfl⟩ | ⟨val, -, -, -, rfl⟩⟩ := deserializeKey_leaves hread
        · exact hsome
        · exact hput _ key b _ (.inl hsome)
      · intro bytes key val hmem hrecord
        rcases List.mem_cons.mp hmem with heq | hmem
        · cases heq
          obtain ⟨hr', b, hok⟩ := hrecord mem a
          rw [hread] at hok
          cases hok
          exact hkeep key (hput key key b _ (.inr Std.ReflCmp.compare_self))
        · exact hbring bytes key val hmem hrecord

/-- INTERNAL: no request has asked yet. -/
def isIdle : Stage loc → Bool
  | .idle => true
  | _ => false

section Claim

variable (cp : CodePage) (oleLoad : Bytes → Option ComObject) (appkey name : Bytes)

/-- A run in which the request `i` commits the key, the request `j` asks for the members
after that, and for the values as its next step; in between the key is neither removed nor
does it expire. `σ` is the state when `j` has its answers. -/
def AsksAfterCommit (σ₀ : ApplicationSystem loc) (before mid late : List Event) (i j : ℕ)
    (mem : Memory) (σ : ApplicationSystem loc) : Prop :=
  ∃ σ₁ σ₂ σ₃ σ₄ : ApplicationSystem loc,
    Runs.run (ApplicationSystem.step cp oleLoad appkey) before σ₀ = .ok σ₁ ∧
    Commits cp mem appkey name (σ₁.stage i) ∧
    σ₁.step cp oleLoad appkey (.commit i mem) = .ok σ₂ ∧
    Runs.run (ApplicationSystem.step cp oleLoad appkey) mid σ₂ = .ok σ₃ ∧
    isIdle (σ₃.stage j) = true ∧
    Runs.run (ApplicationSystem.step cp oleLoad appkey) (.smembers j :: late) σ₃ = .ok σ₄ ∧
    (∀ e ∈ late, e.request ≠ some j) ∧
    Runs.Meets (ApplicationSystem.step cp oleLoad appkey) (KeepsName appkey name)
      (mid ++ .smembers j :: late) σ₂ ∧
    σ₄.step cp oleLoad appkey (.mget j) = .ok σ

/-- The answers the request has give the key with a committed value, and the application
loaded from them has the key of that record. -/
def Returned (σ : ApplicationSystem loc) (j : ℕ) : Prop :=
  ∃ keys replies bytes, σ.stage j = .answered keys replies ∧
    (name, some bytes) ∈ keys.zip replies ∧ (name, bytes) ∈ σ.records ∧
    ∀ mem a key val, CApplicationDL.deserializeKeys mem replies (.new : CApplication loc) = .ok a →
      IsRecord loc bytes key val → (a.find key).isSome = true

end Claim

/-- **A committed key is returned to every request that asks later**, in a run whose steps
all fit. -/
theorem committed_key_returned {σ₀ σ : ApplicationSystem loc} {before mid late : List Event}
    {i j : ℕ} {mem : Memory} (hset : ∃ members, KeySet σ₀.store appkey members)
    (hrecords : σ₀.records = [])
    (h : AsksAfterCommit cp oleLoad appkey name σ₀ before mid late i j mem σ)
    (hfits : Runs.Meets (ApplicationSystem.step cp oleLoad appkey) (StepFits appkey name)
      (before ++ .commit i mem :: (mid ++ .smembers j :: late)) σ₀) :
    Returned name σ j := by
  obtain ⟨σ₁, σ₂, σ₃, σ₄, hbefore, hcommits, hcommit, hmid, hidle, hlate, hown, hkeeps, hmget⟩ := h
  have hsound₀ : Sound appkey name σ₀ := by
    obtain ⟨members, hkeys⟩ := hset
    refine ⟨hkeys.smembers.symm ▸ hkeys, fun hmem => ?_⟩
    rw [hrecords] at hmem
    cases hmem
  have hstep : ∀ (σ σ' : ApplicationSystem loc) (e : Event), Sound appkey name σ →
      StepFits appkey name σ e → σ.step cp oleLoad appkey e = .ok σ' → Sound appkey name σ' :=
    fun _ _ _ hs hf hst => hs.step hf hst
  -- the invariant holds up to the commit, and from there on the key has a committed value
  obtain ⟨hfits₁, hfits₂⟩ := Runs.meets_append hfits
  have hsound₁ : Sound appkey name σ₁ :=
    Runs.run_invariant (Sound appkey name) (fun σ e σ' => hstep σ σ' e) hsound₀ hfits₁ hbefore
  have hfits₂ := hfits₂ σ₁ hbefore
  have hsound₂ := hsound₁.step hfits₂.1 hcommit
  have hhas₂ := hsound₁.hasCommitted hcommits hcommit
  obtain ⟨hfits₃, hfits₄⟩ := Runs.meets_append (hfits₂.2 σ₂ hcommit)
  obtain ⟨hkeeps₃, hkeeps₄⟩ := Runs.meets_append hkeeps
  have hboth : ∀ (es : List Event) (σ σ' : ApplicationSystem loc), Sound appkey name σ →
      HasCommitted name σ →
      Runs.Meets (ApplicationSystem.step cp oleLoad appkey) (StepFits appkey name) es σ →
      Runs.Meets (ApplicationSystem.step cp oleLoad appkey) (KeepsName appkey name) es σ →
      Runs.run (ApplicationSystem.step cp oleLoad appkey) es σ = .ok σ' →
      Sound appkey name σ' ∧ HasCommitted name σ' := by
    intro es
    induction es with
    | nil =>
      intro σ σ' hs hh _ _ hrun
      cases hrun
      exact ⟨hs, hh⟩
    | cons e es ih =>
      intro σ σ' hs hh hf hk hrun
      obtain ⟨σ'', hst, hrest⟩ := Runs.run_cons_eq_ok hrun
      exact ih σ'' σ' (hs.step hf.1 hst) (hh.step hs hk.1 hst) (hf.2 σ'' hst) (hk.2 σ'' hst) hrest
  obtain ⟨hsound₃, hhas₃⟩ := hboth mid σ₂ σ₃ hsound₂ hhas₂ hfits₃ hkeeps₃ hmid
  obtain ⟨hsound₄, hhas₄⟩ := hboth _ σ₃ σ₄ hsound₃ hhas₃ (hfits₄ σ₃ hmid) (hkeeps₄ σ₃ hmid) hlate
  -- the key is among the members the request asks for, and stays in its hands
  have hmember := hsound₃.mem_smembers hhas₃
  have hasked : σ₄.stage j = .asked (σ₃.store.smembers appkey) := by
    obtain ⟨σ', hfirst, hrest⟩ := Runs.run_cons_eq_ok hlate
    have hstage : σ'.stage j = .asked (σ₃.store.smembers appkey) := by
      dsimp only [ApplicationSystem.step] at hfirst
      cases hst : σ₃.stage j with
      | idle =>
        rw [hst] at hfirst
        cases hfirst
        exact Function.update_self ..
      | _ =>
        rw [hst] at hidle
        cases hidle
    have hstays : ∀ (es : List Event) (σ σ' : ApplicationSystem loc),
        (∀ e ∈ es, e.request ≠ some j) →
        Runs.run (ApplicationSystem.step cp oleLoad appkey) es σ = .ok σ' →
        σ'.stage j = σ.stage j := by
      intro es
      induction es with
      | nil =>
        intro σ σ' _ hrun
        cases hrun
        rfl
      | cons e es ih =>
        intro σ σ' hes hrun
        obtain ⟨σ'', hst, hrest⟩ := Runs.run_cons_eq_ok hrun
        rw [ih σ'' σ' (fun e' he' => hes e' (by simp [he'])) hrest,
          step_stage hst (hes e (by simp))]
    rw [hstays late σ' σ₄ hown hrest, hstage]
  obtain ⟨bytes, hget, hrecord⟩ := hhas₄
  dsimp only [ApplicationSystem.step] at hmget
  rw [hasked] at hmget
  cases hmget
  have hreply : (name, some bytes) ∈ (σ₃.store.smembers appkey).zip
      (σ₄.store.mget (σ₃.store.smembers appkey)) := by
    have hpair : ∀ keys : List Bytes, name ∈ keys →
        (name, some bytes) ∈ keys.zip (σ₄.store.mget keys) := by
      intro keys hmem
      induction keys with
      | nil => cases hmem
      | cons k keys ih =>
        rw [Keyspace.mget, List.map_cons, List.zip_cons_cons, List.mem_cons]
        rcases List.mem_cons.mp hmem with rfl | hmem
        · exact .inl (by rw [hget])
        · exact .inr (ih hmem)
    exact hpair _ hmember
  refine ⟨_, _, bytes, Function.update_self .., hreply, hrecord, fun mem a key val hload hrec => ?_⟩
  exact (deserializeKeys_keeps hload).2 bytes key val (List.of_mem_zip hreply).2 hrec

/-! ## Four requests -/

/-- INTERNAL: a run as `AsksAfterCommit` describes it, with the states it goes through. -/
def askAfterCommit (before mid late : List Event) (i j : ℕ) (mem : Memory) :
    Run (ApplicationSystem ignoringCase × ApplicationSystem ignoringCase ×
      ApplicationSystem ignoringCase × ApplicationSystem ignoringCase ×
      ApplicationSystem ignoringCase) := do
  let step := ApplicationSystem.step .latin1 (fun _ => none) [65]
  let σ₁ ← Runs.run step before (.start emptyDatabase)
  let σ₂ ← step σ₁ (.commit i mem)
  let σ₃ ← Runs.run step mid σ₂
  let σ₄ ← Runs.run step (.smembers j :: late) σ₃
  let σ ← step σ₄ (.mget j)
  pure (σ₁, σ₂, σ₃, σ₄, σ)

/-- INTERNAL: the parts of such a run. -/
theorem askAfterCommit_eq_ok {before mid late : List Event} {i j : ℕ} {mem : Memory}
    {σ₁ σ₂ σ₃ σ₄ σ : ApplicationSystem ignoringCase}
    (h : askAfterCommit before mid late i j mem = .ok (σ₁, σ₂, σ₃, σ₄, σ))
    (hcommits : Commits .latin1 mem [65] [65, 58, 65] (σ₁.stage i))
    (hidle : isIdle (σ₃.stage j) = true) (hown : ∀ e ∈ late, e.request ≠ some j)
    (hkeeps : Runs.Meets (ApplicationSystem.step .latin1 (fun _ => none) [65])
      (KeepsName [65] [65, 58, 65]) (mid ++ .smembers j :: late) σ₂) :
    AsksAfterCommit .latin1 (fun _ => none) [65] [65, 58, 65] (.start emptyDatabase) before mid
      late i j mem σ := by
  obtain ⟨t₁, h₁, h⟩ := Run.bind_eq_ok h
  obtain ⟨t₂, h₂, h⟩ := Run.bind_eq_ok h
  obtain ⟨t₃, h₃, h⟩ := Run.bind_eq_ok h
  obtain ⟨t₄, h₄, h⟩ := Run.bind_eq_ok h
  obtain ⟨t, h₅, h⟩ := Run.bind_eq_ok h
  cases h
  exact ⟨σ₁, σ₂, σ₃, σ₄, h₁, hcommits, h₂, h₃, hidle, h₄, hown, hkeeps, h₅⟩

/-- INTERNAL: the request has been told that there are no members. -/
def answersNothing : Stage loc → Bool
  | .answered keys _ => keys.isEmpty
  | _ => false

/-- A first request stores the key with a time to live. -/
def storesForAWhile : List Event :=
  [.smembers 0, .mget 0, .srem 0 .zero, .call 0 .zero (.putValue [97] (.value (.scalar .i4 5)) []),
    .call 0 .zero (.expireKeyAt [97] 1000)]

/-- After that, another one asks while the key has a value, and changes it. -/
def changesInTime : List Event :=
  [.commit 0 .zero, .smembers 1, .mget 1, .srem 1 .zero,
    .call 1 .zero (.putValue [97] (.value (.scalar .i4 6)) [])]

/-- The key expires between the questions of the second request; a third one stores it again. -/
def storesAgain : List Event :=
  [.commit 0 .zero, .smembers 1, .expire [65, 58, 65], .mget 1, .smembers 2, .mget 2,
    .srem 2 .zero, .call 2 .zero (.putValue [97] (.value (.scalar .i4 6)) [])]

/-- A third request gets what the second one has written. -/
theorem changesInTime_returned : ∃ σ : ApplicationSystem ignoringCase,
    AsksAfterCommit .latin1 (fun _ => none) [65] [65, 58, 65] (.start emptyDatabase)
      (storesForAWhile ++ changesInTime) [] [.smembers 3] 1 2 .zero σ ∧
      Returned [65, 58, 65] σ 2 := by
  have hrun : (askAfterCommit (storesForAWhile ++ changesInTime) [] [.smembers 3] 1 2
      .zero).toOption.map (fun r =>
        decide (Commits .latin1 .zero [65] [65, 58, 65] (r.1.stage 1)) &&
        isIdle (r.2.2.1.stage 2) &&
        decide (Runs.Meets (ApplicationSystem.step .latin1 (fun _ => none) [65])
          (KeepsName [65] [65, 58, 65]) [.smembers 2, .smembers 3] r.2.1)) = some true := by
    decide +kernel
  have hfits : Runs.Meets (ApplicationSystem.step .latin1 (fun _ => none) [65])
      (StepFits [65] [65, 58, 65])
      ((storesForAWhile ++ changesInTime) ++ .commit 1 .zero :: ([] ++ .smembers 2 ::
        [.smembers 3])) (.start emptyDatabase : ApplicationSystem ignoringCase) := by
    decide +kernel
  obtain ⟨⟨σ₁, σ₂, σ₃, σ₄, σ⟩, hok, hcheck⟩ := Option.map_eq_some_iff.mp hrun
  simp only [Bool.and_eq_true, decide_eq_true_eq] at hcheck
  obtain ⟨⟨hcommits, hidle⟩, hkeeps⟩ := hcheck
  have hasks := askAfterCommit_eq_ok (Run.eq_ok_of_toOption hok) hcommits hidle
    (by decide) hkeeps
  exact ⟨σ, hasks, committed_key_returned ⟨[], List.nodup_nil, rfl⟩ rfl hasks hfits⟩

/-- **A cleanup takes out a key that has been stored since**: the fourth request does not get
what the third one has committed. -/
theorem storesAgain_not_returned : ∃ σ : ApplicationSystem ignoringCase,
    AsksAfterCommit .latin1 (fun _ => none) [65] [65, 58, 65] (.start emptyDatabase)
      (storesForAWhile ++ storesAgain) [.srem 1 .zero] [] 2 3 .zero σ ∧
      ¬ Returned [65, 58, 65] σ 3 := by
  have hrun : (askAfterCommit (storesForAWhile ++ storesAgain) [.srem 1 .zero] [] 2 3
      .zero).toOption.map (fun r =>
        decide (Commits .latin1 .zero [65] [65, 58, 65] (r.1.stage 2)) &&
        isIdle (r.2.2.1.stage 3) &&
        decide (Runs.Meets (ApplicationSystem.step .latin1 (fun _ => none) [65])
          (KeepsName [65] [65, 58, 65]) [.srem 1 .zero, .smembers 3] r.2.1) &&
        answersNothing (r.2.2.2.2.stage 3)) = some true := by
    decide +kernel
  obtain ⟨⟨σ₁, σ₂, σ₃, σ₄, σ⟩, hok, hcheck⟩ := Option.map_eq_some_iff.mp hrun
  simp only [Bool.and_eq_true, decide_eq_true_eq] at hcheck
  obtain ⟨⟨⟨hcommits, hidle⟩, hkeeps⟩, hnothing⟩ := hcheck
  refine ⟨σ, askAfterCommit_eq_ok (Run.eq_ok_of_toOption hok) hcommits hidle (by decide) hkeeps,
    fun hreturned => ?_⟩
  obtain ⟨keys, replies, bytes, hstage, hmem, -⟩ := hreturned
  rw [hstage] at hnothing
  have hempty : keys = [] := List.isEmpty_iff.mp hnothing
  rw [hempty] at hmem
  cases hmem

end IspSession.Analysis
