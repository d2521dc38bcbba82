import IspSession.Analysis.GhostCleanup
import IspSession.Model.ApplicationCache
import IspSession.Model.MixedApplication

/-!
# A managed save among native cleanups

The save adds a key to the set before it writes the value. A native request that asks for
the values in between finds the key without one, and takes it out of the set, even when the
value is there by then. Nothing adds it again. So the key is kept exactly when no cleanup
takes it out after the save has added it.
-/

set_option autoImplicit false

namespace IspSession.Analysis

open IspSession.Library IspSession.Model

variable {loc : Collation}

/-- The key of the set. -/
def managedSetKey (culture : InvariantCulture) (AppKey : Bstr) : Bytes :=
  utf16ToUtf8 (culture.toUpperInvariant AppKey)

/-- INTERNAL: a Redis key is longer than the key of the set. -/
theorem managedKey_ne (culture : InvariantCulture) (AppKey key : Bstr) :
    CSessionDL.redisKey culture AppKey key ≠ managedSetKey culture AppKey := by
  intro h
  have hcolon : Bstr.ofString ":" = [58] := by decide
  have hlen := congrArg List.length h
  rw [CSessionDL.redisKey, hcolon, List.append_assoc, List.singleton_append,
    utf16ToUtf8_append_ascii (by decide), managedSetKey, List.length_append,
    List.length_cons] at hlen
  omega

/-! ## Commands that leave a key in the set -/

section Commands

variable (setKey name : Bytes)

/-- Under the key of the set there is no string. -/
def NoString (s : Keyspace) : Prop := ∀ bytes ttl, s setKey ≠ some ⟨.string bytes, ttl⟩

/-- A command of a save that adds the name, does not remove it and writes the records. -/
def Harmless (records : List (Bytes × Bytes)) : RedisCommand → Prop
  | .sadd key members => key = setKey ∧ name ∈ members
  | .srem key members => key = setKey ∧ name ∉ members
  | .del _ => False
  | .mset pairs => pairs = records ∧ setKey ∉ records.map Prod.fst
  | .pexpire _ ms => 0 < ms

/-- The command adds the name to the set. -/
def Adds : RedisCommand → Prop
  | .sadd _ _ => True
  | _ => False

/-- The value that `MSET` gives the name. -/
def savedValue (records : List (Bytes × Bytes)) : Option Bytes :=
  (emptyDatabase.execute (.mset records)).get name

variable {setKey name} {records : List (Bytes × Bytes)} {s : Keyspace}

/-- INTERNAL: a set by its members. -/
theorem smembers_setEntry {members : List Bytes} {ttl : Option ℤ}
    (h : s setKey = Keyspace.setEntry members ttl) :
    NoString setKey s ∧ s.smembers setKey = members := by
  by_cases hempty : members = []
  · rw [Keyspace.setEntry, dif_pos hempty] at h
    exact ⟨fun bytes ttl hs => (by rw [h] at hs; cases hs), by rw [Keyspace.smembers, h, hempty]⟩
  · rw [Keyspace.setEntry, dif_neg hempty] at h
    exact ⟨fun bytes ttl hs => (by rw [h] at hs; cases hs), by rw [Keyspace.smembers, h]⟩

/-- INTERNAL: there is nothing or a set. -/
theorem NoString.cases (h : NoString setKey s) : s setKey = none ∧ s.smembers setKey = [] ∨
    ∃ old hne ttl, s setKey = some ⟨.set old hne, ttl⟩ ∧ s.smembers setKey = old := by
  cases hentry : s setKey with
  | none => exact .inl ⟨rfl, by rw [Keyspace.smembers, hentry]⟩
  | some entry =>
    obtain ⟨value, ttl⟩ := entry
    cases value with
    | string bytes => exact absurd hentry (h bytes ttl)
    | set old hne => exact .inr ⟨old, hne, ttl, rfl, by rw [Keyspace.smembers, hentry]⟩

/-- INTERNAL: the members added to a list. -/
theorem mem_foldl_addMember (added : List Bytes) {members : List Bytes} {m : Bytes} :
    m ∈ added.foldl Keyspace.addMember members ↔ m ∈ members ∨ m ∈ added := by
  induction added generalizing members with
  | nil => simp
  | cons x added ih =>
    have hstep : m ∈ Keyspace.addMember members x ↔ m ∈ members ∨ m = x := by
      unfold Keyspace.addMember
      split
      · rename_i hx
        exact ⟨.inl, fun hm => hm.elim id fun heq => heq ▸ hx⟩
      · simp
    rw [List.foldl_cons, ih, hstep, List.mem_cons, or_assoc]

/-- `SADD` on the set. -/
theorem NoString.sadd (h : NoString setKey s) (added : List Bytes) :
    NoString setKey (s.execute (.sadd setKey added)) ∧
      ∀ m, m ∈ (s.execute (.sadd setKey added)).smembers setKey ↔
        m ∈ s.smembers setKey ∨ m ∈ added := by
  have hentry := Keyspace.execute_sadd s setKey setKey added
  rw [if_pos rfl] at hentry
  rcases h.cases with ⟨hs, hmembers⟩ | ⟨old, hne, ttl, hs, hmembers⟩
  · rw [hs] at hentry
    obtain ⟨hno, hmem⟩ := smembers_setEntry hentry
    exact ⟨hno, fun m => by rw [hmem, hmembers, mem_foldl_addMember]⟩
  · rw [hs] at hentry
    obtain ⟨hno, hmem⟩ := smembers_setEntry hentry
    exact ⟨hno, fun m => by rw [hmem, hmembers, mem_foldl_addMember]⟩

/-- `SREM` on the set. -/
theorem NoString.srem (h : NoString setKey s) (removed : List Bytes) :
    NoString setKey (s.execute (.srem setKey removed)) ∧
      ∀ m, m ∈ (s.execute (.srem setKey removed)).smembers setKey ↔
        m ∈ s.smembers setKey ∧ m ∉ removed := by
  have hentry := Keyspace.execute_srem s setKey setKey removed
  rw [if_pos rfl] at hentry
  rcases h.cases with ⟨hs, hmembers⟩ | ⟨old, hne, ttl, hs, hmembers⟩
  · rw [hs] at hentry
    refine ⟨fun bytes ttl hstring => ?_, fun m => ?_⟩
    · rw [hentry] at hstring
      cases hstring
    · rw [Keyspace.smembers, hentry, hmembers]
      simp [Keyspace.removeMembers]
  · rw [hs] at hentry
    obtain ⟨hno, hmem⟩ := smembers_setEntry hentry
    exact ⟨hno, fun m => by rw [hmem, hmembers, List.mem_filter, decide_eq_true_eq]⟩

/-- INTERNAL: the value under a key is all that `SMEMBERS` and `GET` read of it. -/
theorem reads_congr {s' : Keyspace} {key : Bytes}
    (h : (s' key).map RedisEntry.value = (s key).map RedisEntry.value) :
    (NoString key s → NoString key s') ∧ s'.smembers key = s.smembers key ∧
      s'.get key = s.get key := by
  unfold NoString Keyspace.smembers Keyspace.get
  cases hs : s key with
  | none =>
    rw [hs, Option.map_none, Option.map_eq_none_iff] at h
    rw [h]
    exact ⟨id, rfl, rfl⟩
  | some entry =>
    rw [hs, Option.map_some] at h
    obtain ⟨entry', hs', hvalue⟩ := Option.map_eq_some_iff.mp h
    obtain ⟨value, ttl⟩ := entry
    obtain ⟨value', ttl'⟩ := entry'
    dsimp only at hvalue
    subst hvalue
    rw [hs']
    refine ⟨fun hno bytes ttl' hstring => hno bytes ttl ?_, by cases value' <;> rfl,
      by cases value' <;> rfl⟩
    cases hstring
    rfl

/-- INTERNAL: `PEXPIRE` in the future changes no value. -/
theorem value_pexpire {ms : ℤ} (hpos : 0 < ms) (k key : Bytes) :
    (s.execute (.pexpire k ms) key).map RedisEntry.value = (s key).map RedisEntry.value := by
  rw [Keyspace.execute_pexpire]
  by_cases hk : key = k
  · rw [if_pos hk]
    cases s key with
    | none => rfl
    | some entry =>
      rw [Keyspace.expireIn, if_neg (by omega)]
      rfl
  · rw [if_neg hk]

/-- **A harmless command leaves the name in the set**, and brings it there if it adds it. -/
theorem NoString.execute (h : NoString setKey s) {c : RedisCommand}
    (hc : Harmless setKey name records c) :
    NoString setKey (s.execute c) ∧
      (name ∈ (s.execute c).smembers setKey ↔ name ∈ s.smembers setKey ∨ Adds c) := by
  cases c with
  | sadd key members =>
    obtain ⟨rfl, hmem⟩ := hc
    obtain ⟨hno, hmembers⟩ := h.sadd members
    exact ⟨hno, by simp [hmembers, hmem, Adds]⟩
  | srem key members =>
    obtain ⟨rfl, hmem⟩ := hc
    obtain ⟨hno, hmembers⟩ := h.srem members
    exact ⟨hno, by simp [hmembers, hmem, Adds]⟩
  | del keys => exact hc.elim
  | mset pairs =>
    obtain ⟨rfl, hpairs⟩ := hc
    have hsame : (s.execute (.mset pairs) setKey).map RedisEntry.value =
        (s setKey).map RedisEntry.value :=
      congrArg _ (Keyspace.execute_mset_of_notMem s setKey hpairs)
    obtain ⟨hno, hmembers, -⟩ := reads_congr hsame
    exact ⟨hno h, by simp [hmembers, Adds]⟩
  | pexpire key ms =>
    obtain ⟨hno, hmembers, -⟩ := reads_congr (value_pexpire (s := s) hc key setKey)
    exact ⟨hno h, by simp [hmembers, Adds]⟩

/-- A harmless command leaves the value of the name alone, unless it writes the records. -/
theorem get_harmless (hne : name ≠ setKey) (hwrites : name ∈ records.map Prod.fst)
    {c : RedisCommand} (hc : Harmless setKey name records c) :
    (s.execute c).get name = if c = .mset records then savedValue name records else s.get name := by
  cases c with
  | sadd key members =>
    obtain ⟨rfl, -⟩ := hc
    rw [if_neg (by simp), Keyspace.get, Keyspace.execute_sadd, if_neg hne]
    rfl
  | srem key members =>
    obtain ⟨rfl, -⟩ := hc
    rw [if_neg (by simp), Keyspace.get, Keyspace.execute_srem, if_neg hne]
    rfl
  | del keys => exact hc.elim
  | mset pairs =>
    obtain ⟨rfl, -⟩ := hc
    obtain ⟨bytes, -, hall⟩ := Keyspace.exists_execute_mset name hwrites
    rw [if_pos rfl, savedValue, Keyspace.get, Keyspace.get, hall, hall]
  | pexpire key ms =>
    rw [if_neg (by simp)]
    exact (reads_congr (value_pexpire hc key name)).2.2

end Commands

/-! ## Runs -/

section Steps

variable (setKey name : Bytes) (records : List (Bytes × Bytes))

/-- The command that adds the name is still to be sent. -/
def Pending (σ : MixedApplication loc) : Prop := ∃ c ∈ σ.unsent, Adds c

/-- A cleanup takes the name out of the set only as long as the save has not added it. -/
def EarlyCleanup (σ : MixedApplication loc) : MixedEvent → Prop
  | .srem i mem => ∀ keys replies, ∀ a : CApplication loc,
    σ.native.stage i = .answered keys replies →
    CApplicationDL.deserializeKeys mem replies .new = .ok a →
    name ∈ CApplicationDL.ghostKeys keys replies → Pending σ
  | _ => True

/-- What is still to be sent is harmless, and there is no string in the place of the set. -/
structure Underway (σ : MixedApplication loc) : Prop where
  noString : NoString setKey σ.native.store
  harmless : ∀ c ∈ σ.unsent, Harmless setKey name records c

/-- The name will be in the set, or is. -/
def Reaches (σ : MixedApplication loc) : Prop :=
  Pending σ ∨ name ∈ σ.native.store.smembers setKey

/-- **What the save is for**: the name is in the set, with the value that was saved. -/
def KeepsMember (σ : MixedApplication loc) : Prop :=
  name ∈ σ.native.store.smembers setKey ∧
    ∃ bytes, savedValue name records = some bytes ∧ σ.native.store.get name = some bytes

/-- The value will be written, or is. -/
def Writes (σ : MixedApplication loc) : Prop :=
  .mset records ∈ σ.unsent ∨ σ.native.store.get name = savedValue name records

variable {setKey name records} {cp : CodePage} {oleLoad : Bytes → Option ComObject}
  {σ σ' : MixedApplication loc}

/-- INTERNAL: the save sends a command. -/
theorem Underway.send (h : Underway setKey name records σ) :
    Underway setKey name records σ.send ∧ (Reaches setKey name σ.send ↔ Reaches setKey name σ) := by
  cases hunsent : σ.unsent with
  | nil =>
    rw [MixedApplication.send, hunsent]
    exact ⟨h, Iff.rfl⟩
  | cons c unsent =>
    have hc := h.harmless c (by simp [hunsent])
    obtain ⟨hno, hmembers⟩ := h.noString.execute hc
    rw [MixedApplication.send, hunsent]
    refine ⟨⟨hno, fun c' hc' => h.harmless c' (by simp [hunsent, hc'])⟩, ?_⟩
    simp only [Reaches, Pending, hunsent, List.exists_mem_cons_iff, hmembers]
    constructor
    · rintro (hlater | hmem | hnow)
      · exact .inl (.inr hlater)
      · exact .inr hmem
      · exact .inl (.inl hnow)
    · rintro ((hnow | hlater) | hmem)
      · exact .inr (.inr hnow)
      · exact .inl hlater
      · exact .inr (.inl hmem)

/-- **What a step does**: the save sends a command, or a native request cleans up, or Redis
is left as it is. -/
theorem mixedStep_leaves {event : MixedEvent} (name : Bytes)
    (hstep : σ.step cp oleLoad setKey event = .ok σ') :
    (σ' = σ.send ∧ event = .send) ∨ σ'.unsent = σ.unsent ∧
      ((σ'.native.store = σ.native.store ∧ EarlyCleanup name σ event) ∨
      ∃ i mem keys replies, ∃ a : CApplication loc, event = .srem i mem ∧
        σ.native.stage i = .answered keys replies ∧
        CApplicationDL.deserializeKeys mem replies .new = .ok a ∧
        σ'.native.store =
          σ.native.store.executeAll (CApplicationDL.cleanup setKey keys replies)) := by
  cases event with
  | send =>
    cases hstep
    exact .inl ⟨rfl, rfl⟩
  | smembers i =>
    obtain ⟨native, hnative, h⟩ := Run.bind_eq_ok hstep
    cases h
    refine .inr ⟨rfl, .inl ⟨?_, trivial⟩⟩
    dsimp only [ApplicationSystem.step] at hnative
    split at hnative <;> cases hnative <;> rfl
  | mget i =>
    obtain ⟨native, hnative, h⟩ := Run.bind_eq_ok hstep
    cases h
    refine .inr ⟨rfl, .inl ⟨?_, trivial⟩⟩
    dsimp only [ApplicationSystem.step] at hnative
    split at hnative <;> cases hnative <;> rfl
  | srem i mem =>
    obtain ⟨native, hnative, h⟩ := Run.bind_eq_ok hstep
    cases h
    refine .inr ⟨rfl, ?_⟩
    dsimp only [ApplicationSystem.step] at hnative
    cases hstage : σ.native.stage i with
    | answered keys replies =>
      rw [hstage] at hnative
      dsimp only at hnative
      cases hload : CApplicationDL.deserializeKeys mem replies (.new : CApplication loc) with
      | ok a =>
        rw [hload] at hnative
        cases hnative
        exact .inr ⟨i, mem, keys, replies, a, rfl, hstage, hload, rfl⟩
      | error e =>
        rw [hload] at hnative
        cases hnative
        refine .inl ⟨rfl, fun keys' replies' a hstage' hload' => ?_⟩
        rw [hstage] at hstage'
        cases hstage'
        rw [hload] at hload'
        cases hload'
    | _ =>
      rw [hstage] at hnative
      cases hnative
      refine .inl ⟨rfl, fun keys' replies' a hstage' => ?_⟩
      rw [hstage] at hstage'
      cases hstage'

/-- INTERNAL: a cleanup. -/
theorem NoString.cleanup {s : Keyspace} (h : NoString setKey s) (keys : List Bytes)
    (replies : List (Option Bytes)) :
    NoString setKey (s.executeAll (CApplicationDL.cleanup setKey keys replies)) ∧
      ∀ m, m ∈ (s.executeAll (CApplicationDL.cleanup setKey keys replies)).smembers setKey ↔
        m ∈ s.smembers setKey ∧ m ∉ CApplicationDL.ghostKeys keys replies := by
  unfold CApplicationDL.cleanup
  split
  · rename_i hnil
    exact ⟨h, fun m => by simp [hnil]⟩
  · exact h.srem _

/-- **A step keeps the name within reach** exactly when it is no cleanup that comes too
late. -/
theorem Underway.step (h : Underway setKey name records σ) {event : MixedEvent}
    (hstep : σ.step cp oleLoad setKey event = .ok σ') :
    Underway setKey name records σ' ∧
      (Reaches setKey name σ' ↔ Reaches setKey name σ ∧ EarlyCleanup name σ event) := by
  rcases mixedStep_leaves name hstep with ⟨rfl, rfl⟩ | ⟨hunsent, ⟨hstore, hearly⟩ |
    ⟨i, mem, keys, replies, a, rfl, hstage, hload, hstore⟩⟩
  · exact ⟨h.send.1, h.send.2.trans (iff_self_and.mpr fun _ => trivial)⟩
  · refine ⟨⟨hstore ▸ h.noString, hunsent ▸ h.harmless⟩, ?_⟩
    rw [Reaches, Pending, hunsent, hstore]
    exact iff_self_and.mpr fun _ => hearly
  · obtain ⟨hno, hmembers⟩ := h.noString.cleanup keys replies
    have hearly : EarlyCleanup name σ (.srem i mem) ↔
        (name ∈ CApplicationDL.ghostKeys keys replies → Pending σ) := by
      constructor
      · exact fun he => he keys replies a hstage hload
      · intro he keys' replies' a' hstage'
        rw [hstage] at hstage'
        cases hstage'
        exact fun _ => he
    refine ⟨⟨hstore ▸ hno, hunsent ▸ h.harmless⟩, ?_⟩
    rw [hearly, Reaches, Reaches, hstore, hmembers, Pending, hunsent]
    show Pending σ ∨ _ ↔ (Pending σ ∨ _) ∧ (_ → Pending σ)
    by_cases hpending : Pending σ
    · simp [hpending]
    · simp [hpending]

/-- INTERNAL: the value is written or will be. -/
theorem Writes.step (h : Writes name records σ) (hready : Underway setKey name records σ)
    (hne : name ≠ setKey) (hwrites : name ∈ records.map Prod.fst) {event : MixedEvent}
    (hstep : σ.step cp oleLoad setKey event = .ok σ') : Writes name records σ' := by
  rcases mixedStep_leaves name hstep with ⟨rfl, rfl⟩ | ⟨hunsent, ⟨hstore, -⟩ |
    ⟨i, mem, keys, replies, a, rfl, hstage, hload, hstore⟩⟩
  · cases hunsent : σ.unsent with
    | nil =>
      rw [MixedApplication.send, hunsent]
      exact h
    | cons c unsent =>
      rw [MixedApplication.send, hunsent]
      have hget := get_harmless (s := σ.native.store) hne hwrites
        (hready.harmless c (by simp [hunsent]))
      by_cases hc : c = .mset records
      · rw [if_pos hc] at hget
        exact .inr hget
      · rw [if_neg hc] at hget
        rcases h with hlater | hnow
        · rw [hunsent, List.mem_cons] at hlater
          exact .inl (hlater.resolve_left fun heq => hc heq.symm)
        · exact .inr (hget.trans hnow)
  · rw [Writes, hunsent, hstore]
    exact h
  · have hget : σ'.native.store.get name = σ.native.store.get name := by
      rw [hstore, CApplicationDL.cleanup]
      split
      · rfl
      · rw [Keyspace.executeAll_singleton, Keyspace.get, Keyspace.execute_srem, if_neg hne]
        rfl
    rw [Writes, hunsent, hget]
    exact h

/-- **A run keeps the name within reach** exactly when none of its cleanups comes too late. -/
theorem Underway.run (h : Underway setKey name records σ) {events : List MixedEvent}
    (hrun : Runs.run (MixedApplication.step cp oleLoad setKey) events σ = .ok σ') :
    Reaches setKey name σ' ↔ Reaches setKey name σ ∧
      Runs.Meets (MixedApplication.step cp oleLoad setKey) (EarlyCleanup name) events σ := by
  induction events generalizing σ with
  | nil =>
    cases hrun
    exact iff_self_and.mpr fun _ => trivial
  | cons event events ih =>
    obtain ⟨σ₁, hstep, hrest⟩ := Runs.run_cons_eq_ok hrun
    obtain ⟨hready, hreaches⟩ := h.step hstep
    rw [ih hready hrest, hreaches, Runs.Meets, and_assoc]
    refine and_congr_right fun _ => and_congr_right fun _ => ?_
    constructor
    · intro hmeets σ₂ hstep₂
      rw [hstep] at hstep₂
      cases hstep₂
      exact hmeets
    · exact fun hmeets => hmeets σ₁ hstep

end Steps

/-! ## The save of a cache -/

section Save

variable {rt : NetRuntime} {culture : InvariantCulture} {AppKey : Bstr} {a : ApplicationCache}
  {records : List (Bytes × Bytes)}

/-- INTERNAL: the records are under the Redis keys of the keys. -/
theorem managedRecords_names {keys : List Bstr}
    (h : CSessionDL.serializeKeys rt culture AppKey a keys = .ok records) :
    records.map Prod.fst = keys.map (CSessionDL.redisKey culture AppKey) := by
  induction keys generalizing records with
  | nil =>
    cases h
    rfl
  | cons key keys ih =>
    obtain ⟨bytes, -, h⟩ := NetRun.bind_eq_ok h
    obtain ⟨pairs, hpairs, h⟩ := NetRun.bind_eq_ok h
    cases h
    rw [List.map_cons, List.map_cons, ih hpairs]

/-- The commands of a save that adds the key and does not remove it. -/
theorem harmless_saveCommands {key : Bstr}
    (hrecords : CSessionDL.serializeKeys rt culture AppKey a
      (a.keyStates.newKeys ++ a.keyStates.changedKeys) = .ok records)
    (hadds : key ∈ a.keyStates.newKeys)
    (hkeeps : CSessionDL.redisKey culture AppKey key ∉
      a.keyStates.removedKeys.map (CSessionDL.redisKey culture AppKey)) :
    ∀ c ∈ CSessionDL.saveCommands culture AppKey a.keyStates records,
      Harmless (managedSetKey culture AppKey) (CSessionDL.redisKey culture AppKey key) records c := by
  intro c hc
  simp only [CSessionDL.saveCommands, List.mem_append, List.mem_map] at hc
  rcases hc with ((hc | hc) | hc) | ⟨e, he, rfl⟩
  · split at hc
    · cases hc
    · obtain rfl := List.mem_singleton.mp hc
      exact ⟨rfl, List.mem_map_of_mem hadds⟩
  · split at hc
    · cases hc
    · obtain rfl := List.mem_singleton.mp hc
      exact ⟨rfl, hkeeps⟩
  · split at hc
    · cases hc
    · obtain rfl := List.mem_singleton.mp hc
      refine ⟨rfl, fun hmem => ?_⟩
      rw [managedRecords_names hrecords] at hmem
      obtain ⟨key', -, heq⟩ := List.mem_map.mp hmem
      exact managedKey_ne culture AppKey key' heq
  · obtain ⟨e', he', rfl⟩ := List.mem_map.mp he
    have hpos := (List.mem_filter.mp he').2
    rwa [decide_eq_true_eq] at hpos

/-- **A key that a managed save adds is kept** exactly when no native cleanup that has found
it without a value takes it out of the set after the save has added it. -/
theorem kept_iff_earlyCleanups {key : Bstr}
    (hrecords : CSessionDL.serializeKeys rt culture AppKey a
      (a.keyStates.newKeys ++ a.keyStates.changedKeys) = .ok records)
    (hadds : key ∈ a.keyStates.newKeys)
    (hkeeps : CSessionDL.redisKey culture AppKey key ∉
      a.keyStates.removedKeys.map (CSessionDL.redisKey culture AppKey))
    {store : Keyspace} (hset : NoString (managedSetKey culture AppKey) store) {cp : CodePage}
    {oleLoad : Bytes → Option ComObject} {events : List MixedEvent} {σ : MixedApplication loc}
    (hrun : Runs.run (MixedApplication.step cp oleLoad (managedSetKey culture AppKey)) events
      (.start (CSessionDL.saveCommands culture AppKey a.keyStates records) store) = .ok σ)
    (hsent : σ.unsent = []) :
    KeepsMember (managedSetKey culture AppKey) (CSessionDL.redisKey culture AppKey key) records σ ↔
      Runs.Meets (MixedApplication.step cp oleLoad (managedSetKey culture AppKey))
        (EarlyCleanup (CSessionDL.redisKey culture AppKey key)) events
        (.start (CSessionDL.saveCommands culture AppKey a.keyStates records) store :
          MixedApplication loc) := by
  have hne := managedKey_ne culture AppKey key
  have hwrites : CSessionDL.redisKey culture AppKey key ∈ records.map Prod.fst := by
    rw [managedRecords_names hrecords]
    exact List.mem_map_of_mem (List.mem_append_left _ hadds)
  have hnew : a.keyStates.newKeys ≠ [] := List.ne_nil_of_mem hadds
  have hrecordsNe : records ≠ [] := by
    rintro rfl
    cases hwrites
  have hready : Underway (managedSetKey culture AppKey) (CSessionDL.redisKey culture AppKey key)
      records (.start (CSessionDL.saveCommands culture AppKey a.keyStates records) store :
        MixedApplication loc) := ⟨hset, harmless_saveCommands hrecords hadds hkeeps⟩
  -- the first command adds the name, and a later one writes the records
  have hstart : Reaches (managedSetKey culture AppKey) (CSessionDL.redisKey culture AppKey key)
      (.start (CSessionDL.saveCommands culture AppKey a.keyStates records) store :
        MixedApplication loc) := by
    refine .inl ⟨.sadd (managedSetKey culture AppKey)
      (a.keyStates.newKeys.map (CSessionDL.redisKey culture AppKey)), ?_, trivial⟩
    show _ ∈ CSessionDL.saveCommands culture AppKey a.keyStates records
    simp [CSessionDL.saveCommands, hnew, managedSetKey]
  have hwritten : Writes (CSessionDL.redisKey culture AppKey key) records σ ∧
      Underway (managedSetKey culture AppKey) (CSessionDL.redisKey culture AppKey key) records σ := by
    have hall : Runs.Meets (MixedApplication.step cp oleLoad (managedSetKey culture AppKey))
        (fun _ _ => True) events
        (.start (CSessionDL.saveCommands culture AppKey a.keyStates records) store :
          MixedApplication loc) := Runs.meets_of_forall (fun _ _ => trivial) ..
    refine Runs.run_invariant
      (fun σ => Writes (CSessionDL.redisKey culture AppKey key) records σ ∧
        Underway (managedSetKey culture AppKey) (CSessionDL.redisKey culture AppKey key) records σ)
      (fun σ event σ' hσ _ hstep => ⟨hσ.1.step hσ.2 hne hwrites hstep, (hσ.2.step hstep).1⟩)
      ⟨.inl ?_, hready⟩ hall hrun
    show _ ∈ CSessionDL.saveCommands culture AppKey a.keyStates records
    simp [CSessionDL.saveCommands, hrecordsNe]
  have hvalue : ∃ bytes, savedValue (CSessionDL.redisKey culture AppKey key) records = some bytes ∧
      σ.native.store.get (CSessionDL.redisKey culture AppKey key) = some bytes := by
    obtain ⟨bytes, -, hall⟩ := Keyspace.exists_execute_mset _ hwrites
    have hsaved : savedValue (CSessionDL.redisKey culture AppKey key) records = some bytes := by
      rw [savedValue, Keyspace.get, hall]
    refine ⟨bytes, hsaved, (hwritten.1.resolve_left fun hlater => ?_).trans hsaved⟩
    rw [hsent] at hlater
    cases hlater
  have hmember : Reaches (managedSetKey culture AppKey) (CSessionDL.redisKey culture AppKey key) σ ↔
      CSessionDL.redisKey culture AppKey key ∈
        σ.native.store.smembers (managedSetKey culture AppKey) := by
    refine ⟨fun h => h.resolve_left ?_, .inr⟩
    rintro ⟨c, hc, -⟩
    rw [hsent] at hc
    cases hc
  rw [KeepsMember, and_iff_left hvalue, ← hmember, hready.run hrun, and_iff_right hstart]

end Save

/-! ## Two schedules -/

/-- A cache to which a number has been added under `k`. -/
def oneAdded : ApplicationCache :=
  ApplicationCache.new.setItem (Bstr.ofString "k") (.primitive .int32 5)

/-- The records of its save. -/
def oneAddedRecords : List (Bytes × Bytes) :=
  match CSessionDL.serializeKeys .plain .ascii (Bstr.ofString "a") oneAdded
    (oneAdded.keyStates.newKeys ++ oneAdded.keyStates.changedKeys) with
  | .ok records => records
  | .error _ => []

/-- The save among native requests, from an empty database. -/
def savesOne (events : List MixedEvent) : Run (MixedApplication ignoringCase) :=
  Runs.run (MixedApplication.step .latin1 (fun _ => none)
    (managedSetKey .ascii (Bstr.ofString "a"))) events
    (.start (CSessionDL.saveCommands .ascii (Bstr.ofString "a") oneAdded.keyStates
      oneAddedRecords) emptyDatabase)

/-- A native request asks for the members between the commands of the save, and for the
values after them. -/
def asksLate : List MixedEvent := [.send, .smembers 0, .send, .mget 0, .srem 0 .zero]

/-- It asks for both between the commands, and cleans up after them. -/
def asksEarly : List MixedEvent := [.send, .smembers 0, .mget 0, .send, .srem 0 .zero]

/-- INTERNAL: all commands have been sent, and the request has finished. -/
def finishedWith (σ : MixedApplication ignoringCase) : Bool :=
  σ.unsent.isEmpty && match σ.native.stage 0 with
    | .working _ => true
    | _ => false

/-- The key is kept when the request asks late. -/
theorem asksLate_kept : ∃ σ, savesOne asksLate = .ok σ ∧
    KeepsMember (managedSetKey .ascii (Bstr.ofString "a"))
      (CSessionDL.redisKey .ascii (Bstr.ofString "a") (Bstr.ofString "k")) oneAddedRecords σ ∧
    Runs.Meets (MixedApplication.step .latin1 (fun _ => none)
        (managedSetKey .ascii (Bstr.ofString "a")))
      (EarlyCleanup (CSessionDL.redisKey .ascii (Bstr.ofString "a") (Bstr.ofString "k"))) asksLate
      (.start (CSessionDL.saveCommands .ascii (Bstr.ofString "a") oneAdded.keyStates
        oneAddedRecords) emptyDatabase : MixedApplication ignoringCase) := by
  have hend : (savesOne asksLate).toOption.map (fun σ =>
      (σ.unsent, σ.native.store.smembers [65], σ.native.store.get [65, 58, 75])) =
      some ([], [[65, 58, 75]], savedValue [65, 58, 75] oneAddedRecords) := by decide +kernel
  have hsaved : (savedValue [65, 58, 75] oneAddedRecords).isSome := by decide +kernel
  obtain ⟨σ, hσ, hend⟩ := Option.map_eq_some_iff.mp hend
  have hrun := Run.eq_ok_of_toOption hσ
  simp only [Prod.mk.injEq] at hend
  obtain ⟨hsent, hmembers, hvalue⟩ := hend
  obtain ⟨bytes, hbytes⟩ := Option.isSome_iff_exists.mp hsaved
  have hname : CSessionDL.redisKey .ascii (Bstr.ofString "a") (Bstr.ofString "k") =
      [65, 58, 75] := by decide
  have hkey : managedSetKey .ascii (Bstr.ofString "a") = [65] := by decide
  have hkept : KeepsMember (managedSetKey .ascii (Bstr.ofString "a"))
      (CSessionDL.redisKey .ascii (Bstr.ofString "a") (Bstr.ofString "k")) oneAddedRecords σ := by
    rw [KeepsMember, hname, hkey, hmembers, hvalue]
    exact ⟨List.mem_singleton_self _, bytes, hbytes, hbytes⟩
  have hrecords : CSessionDL.serializeKeys .plain .ascii (Bstr.ofString "a") oneAdded
      (oneAdded.keyStates.newKeys ++ oneAdded.keyStates.changedKeys) = .ok oneAddedRecords := rfl
  exact ⟨σ, hrun, hkept, (kept_iff_earlyCleanups hrecords (List.mem_singleton_self _)
    (fun h => by cases h) (fun _ _ h => by cases h) hrun hsent).mp hkept⟩

/-- **A cleanup takes out the key that the save has added**: its value is there, and it is no
member. -/
theorem asksEarly_not_kept : ∃ σ, savesOne asksEarly = .ok σ ∧ finishedWith σ = true ∧
    σ.native.store.get (CSessionDL.redisKey .ascii (Bstr.ofString "a") (Bstr.ofString "k")) =
      savedValue (CSessionDL.redisKey .ascii (Bstr.ofString "a") (Bstr.ofString "k"))
        oneAddedRecords ∧
    ¬ KeepsMember (managedSetKey .ascii (Bstr.ofString "a"))
      (CSessionDL.redisKey .ascii (Bstr.ofString "a") (Bstr.ofString "k")) oneAddedRecords σ := by
  have hend : (savesOne asksEarly).toOption.map (fun σ => (finishedWith σ,
      σ.native.store.smembers (managedSetKey .ascii (Bstr.ofString "a")), σ.native.store.get
        (CSessionDL.redisKey .ascii (Bstr.ofString "a") (Bstr.ofString "k")))) =
      some (true, [], savedValue (CSessionDL.redisKey .ascii (Bstr.ofString "a")
        (Bstr.ofString "k")) oneAddedRecords) := by decide +kernel
  obtain ⟨σ, hσ, hend⟩ := Option.map_eq_some_iff.mp hend
  simp only [Prod.mk.injEq] at hend
  obtain ⟨hfinished, hmembers, hvalue⟩ := hend
  refine ⟨σ, Run.eq_ok_of_toOption hσ, hfinished, hvalue, fun hkept => ?_⟩
  have hmem := hkept.1
  rw [hmembers] at hmem
  cases hmem

end IspSession.Analysis
