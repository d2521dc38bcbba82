import IspSession.Analysis.RedisCommands
import IspSession.Model.ManagedStore

/-!
# The two ways of saving an application

`CSessionDL.saveCommands` and `CApplicationDL.saveCommands` on the same lists with the same
records. Both are a `saving`: the managed one does not delete the values of removed keys,
and it expires the keys by their own texts, not by their Redis keys.
`sameState_iff` says when that makes no difference.
-/

set_option autoImplicit false

namespace IspSession.Analysis

open IspSession.Library IspSession.Model

/-! ## Equal states -/

/-- The key has a time to live. -/
def hasLifetime (s : Keyspace) (key : Bytes) : Bool := ((s key).bind RedisEntry.ttl).isSome

/-- The same members of sets, the same keys with a value and with a time to live. -/
structure SameState (s t : Keyspace) : Prop where
  members : ∀ key m, m ∈ s.smembers key ↔ m ∈ t.smembers key
  values : ∀ key, (s.get key).isSome = (t.get key).isSome
  lifetimes : ∀ key, hasLifetime s key = hasLifetime t key

/-- INTERNAL: what is nothing in one state is nothing in the other. -/
theorem SameState.eq_none {s t : Keyspace} (h : SameState s t) {key : Bytes}
    (hs : s key = none) : t key = none := by
  cases ht : t key with
  | none => rfl
  | some entry =>
    rcases entry with ⟨bytes | ⟨members, hne⟩, ttl⟩
    · have hvalue := h.values key
      rw [Keyspace.get, Keyspace.get, hs, ht] at hvalue
      cases hvalue
    · obtain ⟨m, hm⟩ := List.exists_mem_of_ne_nil members hne
      have hmember := (h.members key m).mpr
      rw [Keyspace.smembers, Keyspace.smembers, hs, ht] at hmember
      cases hmember hm

/-- INTERNAL: states with the same values and times to live are the same. -/
theorem sameState_of {s t : Keyspace} (hvalue : ∀ key, (s key).map RedisEntry.value =
    (t key).map RedisEntry.value) (hlife : ∀ key, hasLifetime s key = hasLifetime t key) :
    SameState s t := by
  have hentry : ∀ key, s.smembers key = t.smembers key ∧ s.get key = t.get key := by
    intro key
    have h := hvalue key
    unfold Keyspace.smembers Keyspace.get
    cases hs : s key with
    | none =>
      rw [hs] at h
      rw [Option.map_eq_none_iff.mp h.symm]
      exact ⟨rfl, rfl⟩
    | some entry =>
      rw [hs] at h
      obtain ⟨entry', ht, hv⟩ := Option.map_eq_some_iff.mp h.symm
      rw [ht]
      rcases entry with ⟨value, ttl⟩
      rcases entry' with ⟨value', ttl'⟩
      dsimp only at hv
      subst hv
      cases value' <;> exact ⟨rfl, rfl⟩
  exact ⟨fun key m => by rw [(hentry key).1], fun key => by rw [(hentry key).2], hlife⟩

/-- INTERNAL: two states that expire the same entries, one of them without some keys. -/
theorem sameState_expired_iff {s t : Keyspace} {saved : Bytes → Option RedisEntry}
    {gone : Bytes → Prop} [DecidablePred gone] {life life' : Bytes → Option ℤ → Option ℤ}
    (hs : ∀ key, s key = (saved key).map fun e => { e with ttl := life key e.ttl })
    (ht : ∀ key, t key = (if gone key then none else saved key).map
      fun e => { e with ttl := life' key e.ttl }) :
    SameState s t ↔ (∀ key, gone key → saved key = none) ∧
      ∀ key entry, saved key = some entry →
        (life key entry.ttl).isSome = (life' key entry.ttl).isSome := by
  constructor
  · intro h
    have hgone : ∀ key, gone key → saved key = none := by
      intro key hkey
      have hnone : t key = none := by rw [ht, if_pos hkey, Option.map_none]
      have hsame : SameState t s := ⟨fun key m => (h.members key m).symm,
        fun key => (h.values key).symm, fun key => (h.lifetimes key).symm⟩
      have := hsame.eq_none hnone
      rwa [hs, Option.map_eq_none_iff] at this
    refine ⟨hgone, fun key entry hentry => ?_⟩
    have hnot : ¬ gone key := by
      intro hkey
      rw [hgone key hkey] at hentry
      cases hentry
    have hlife := h.lifetimes key
    rw [hasLifetime, hasLifetime, hs, ht, if_neg hnot, hentry] at hlife
    exact hlife
  · rintro ⟨hgone, hlife⟩
    have hcases : ∀ key, (if gone key then none else saved key) = saved key := by
      intro key
      split
      · rename_i hkey
        exact (hgone key hkey).symm
      · rfl
    refine sameState_of (fun key => ?_) fun key => ?_
    · rw [hs, ht, hcases, Option.map_map, Option.map_map]
      rfl
    · rw [hasLifetime, hasLifetime, hs, ht, hcases]
      cases hentry : saved key with
      | none => rfl
      | some entry => exact hlife key entry hentry

/-! ## The two back ends -/

section Backends

variable (culture : InvariantCulture) (guid : Bytes) (AppKey : Bstr) (states : KeyStates Bstr)
  (value : Bytes → Bytes)

/-- The text has the hexadecimal digits of the application key, in capital or small
letters. -/
def SpellsKey : Prop :=
  AsciiUtf16 AppKey ∧ (AppKey.map upperAscii).map UInt16.toUInt8 = hexStringFromMemory guid

/-- The keys of the lists that are sent are ASCII texts. -/
structure AsciiKeys : Prop where
  changed : ∀ key ∈ states.changedKeys, AsciiUtf16 key
  new : ∀ key ∈ states.newKeys, AsciiUtf16 key
  removed : ∀ key ∈ states.removedKeys, AsciiUtf16 key
  expire : ∀ e ∈ states.expireKeys, AsciiUtf16 e.1

/-- The commands of the managed core, where `value` gives the record of a key. -/
def managedSave : List RedisCommand :=
  CSessionDL.saveCommands culture AppKey states
    ((states.newKeys ++ states.changedKeys).map fun key =>
      (CSessionDL.redisKey culture AppKey key, value (utf16ToUtf8 key)))

/-- The commands of the native back end. -/
def nativeSave : List RedisCommand :=
  let states := states.map utf16ToUtf8
  CApplicationDL.saveCommands (hexStringFromMemory guid) states
    ((states.newKeys ++ states.changedKeys).map fun key =>
      (redisKey (hexStringFromMemory guid) key, value key))

/-- The Redis key of a key. -/
def nameOf (key : Bstr) : Bytes := redisKey (hexStringFromMemory guid) (utf16ToUtf8 key)

/-- The Redis keys that are written. -/
def writtenNames : List Bytes := (states.newKeys ++ states.changedKeys).map (nameOf guid)

/-- The key exists without a time to live once the records and the set of keys are
written. -/
def Lasting (s : Keyspace) (key : Bytes) : Prop :=
  key ∈ writtenNames guid states ∨
    ∃ entry, entry.ttl = none ∧ some entry =
      if key = hexStringFromMemory guid then
        Keyspace.removeMembers (states.removedKeys.map (nameOf guid))
          (Keyspace.addMembers (states.newKeys.map (nameOf guid)) (s key))
      else s key

/-- **The condition**: no removed key leaves a value behind, and what lasts without a time
to live is to expire by its text whenever it is by its Redis key. -/
structure SavesAgree (s : Keyspace) : Prop where
  removed : ∀ key ∈ states.removedKeys, nameOf guid key ∉ writtenNames guid states →
    s (nameOf guid key) = none
  expire : ∀ key, Lasting guid states s key →
    (key ∈ states.expireKeys.map (fun e => utf16ToUtf8 e.1) ↔
      key ∈ states.expireKeys.map fun e => nameOf guid e.1)

variable {culture guid AppKey states}

/-- INTERNAL: capital letters in wide text and in bytes. -/
theorem map_upperAscii {s : Bstr} (h : AsciiUtf16 s) :
    (s.map upperAscii).map UInt16.toUInt8 = strToUpper (s.map UInt16.toUInt8) ∧
      AsciiUtf16 (s.map upperAscii) := by
  constructor
  · rw [strToUpper, List.map_map, List.map_map]
    exact List.map_congr_left fun u hu => (toUInt8_upperAscii u (h u hu)).1
  · intro u hu
    obtain ⟨v, hv, rfl⟩ := List.mem_map.mp hu
    exact (toUInt8_upperAscii v (h v hv)).2

/-- INTERNAL: the two back ends use the same Redis keys. -/
theorem redisKey_eq_nameOf (hkey : SpellsKey guid AppKey) (key : Bstr) (h : AsciiUtf16 key) :
    CSessionDL.redisKey culture AppKey key = nameOf guid key ∧
      utf16ToUtf8 (culture.toUpperInvariant AppKey) = hexStringFromMemory guid := by
  have happ := (map_upperAscii hkey.1).2
  have hup := map_upperAscii h
  have hcolon : AsciiUtf16 (Bstr.ofString ":") := by decide
  constructor
  · rw [CSessionDL.redisKey, culture.toUpperInvariant_ascii _ hkey.1,
      culture.toUpperInvariant_ascii _ h, utf16ToUtf8_ascii]
    · rw [List.map_append, List.map_append, hkey.2, hup.1, nameOf, redisKey, appkeyPrefix,
        utf16ToUtf8_ascii h]
      rfl
    · intro u hu
      rcases List.mem_append.mp hu with hu | hu
      · rcases List.mem_append.mp hu with hu | hu
        · exact happ u hu
        · exact hcolon u hu
      · exact hup.2 u hu
  · rw [culture.toUpperInvariant_ascii _ hkey.1, utf16ToUtf8_ascii happ, hkey.2]

/-- The managed core's commands as a saving. -/
theorem managedSave_eq (hkey : SpellsKey guid AppKey) (hascii : AsciiKeys states) :
    managedSave culture AppKey states value =
      saving (hexStringFromMemory guid) (states.newKeys.map (nameOf guid))
        (states.removedKeys.map (nameOf guid)) false
        ((states.newKeys ++ states.changedKeys).map fun key =>
          (nameOf guid key, value (utf16ToUtf8 key)))
        (states.expireKeys.map fun e => (utf16ToUtf8 e.1, e.2)) := by
  have hset : utf16ToUtf8 (culture.toUpperInvariant AppKey) = hexStringFromMemory guid :=
    (redisKey_eq_nameOf hkey [] (by decide)).2
  have hname : ∀ {keys : List Bstr}, (∀ key ∈ keys, AsciiUtf16 key) →
      keys.map (CSessionDL.redisKey culture AppKey) = keys.map (nameOf guid) :=
    fun h => List.map_congr_left fun key hk => (redisKey_eq_nameOf hkey key (h key hk)).1
  have hpairs : (states.newKeys ++ states.changedKeys).map (fun key =>
      (CSessionDL.redisKey culture AppKey key, value (utf16ToUtf8 key))) =
      (states.newKeys ++ states.changedKeys).map fun key =>
        (nameOf guid key, value (utf16ToUtf8 key)) := by
    apply List.map_congr_left
    intro key hk
    have hk' : AsciiUtf16 key :=
      (List.mem_append.mp hk).elim (hascii.new key) (hascii.changed key)
    rw [(redisKey_eq_nameOf hkey _ hk').1]
  rw [managedSave, CSessionDL.saveCommands, saving, hset, hpairs]
  dsimp only
  rw [hname hascii.new, hname hascii.removed]
  simp [List.map_map, Function.comp_def]

/-- The native back end's commands as a saving. -/
theorem nativeSave_eq :
    nativeSave guid states value =
      saving (hexStringFromMemory guid) (states.newKeys.map (nameOf guid))
        (states.removedKeys.map (nameOf guid)) true
        ((states.newKeys ++ states.changedKeys).map fun key =>
          (nameOf guid key, value (utf16ToUtf8 key)))
        (states.expireKeys.map fun e => (nameOf guid e.1, e.2)) := by
  have hname : nameOf guid = fun key =>
      redisKey (hexStringFromMemory guid) (utf16ToUtf8 key) := rfl
  simp [nativeSave, CApplicationDL.saveCommands, saving, KeyStates.map, hname, List.map_map,
    Function.comp_def, and_comm]

/-- INTERNAL: a Redis key is longer than the key of the set. -/
theorem nameOf_ne (key : Bstr) : nameOf guid key ≠ hexStringFromMemory guid := by
  intro h
  have hlen := congrArg List.length h
  simp only [nameOf, redisKey, appkeyPrefix, List.length_append, List.length_cons,
    List.length_nil] at hlen
  omega

/-- INTERNAL: what the key has before it is expired. -/
theorem savedEntry_eq_some_iff (s : Keyspace) (value : Bytes → Bytes) (key : Bytes) :
    (∃ entry, entry.ttl = none ∧ savedEntry s (hexStringFromMemory guid)
        (states.newKeys.map (nameOf guid)) (states.removedKeys.map (nameOf guid))
        ((states.newKeys ++ states.changedKeys).map fun key =>
          (nameOf guid key, value (utf16ToUtf8 key))) key = some entry) ↔
      Lasting guid states s key := by
  have hkeys : ((states.newKeys ++ states.changedKeys).map fun key =>
      (nameOf guid key, value (utf16ToUtf8 key))).map Prod.fst = writtenNames guid states := by
    rw [List.map_map]
    rfl
  unfold Lasting
  by_cases hmem : key ∈ writtenNames guid states
  · obtain ⟨bytes, -, hall⟩ := Keyspace.exists_execute_mset key (hkeys ▸ hmem)
    exact ⟨fun _ => .inl hmem, fun _ => ⟨_, rfl, hall _⟩⟩
  · have hsaved : savedEntry s (hexStringFromMemory guid)
        (states.newKeys.map (nameOf guid)) (states.removedKeys.map (nameOf guid))
        ((states.newKeys ++ states.changedKeys).map fun key =>
          (nameOf guid key, value (utf16ToUtf8 key))) key =
        if key = hexStringFromMemory guid then
          Keyspace.removeMembers (states.removedKeys.map (nameOf guid))
            (Keyspace.addMembers (states.newKeys.map (nameOf guid)) (s key))
        else s key := by
      rw [savedEntry, Keyspace.execute_mset_of_notMem _ _ (hkeys ▸ hmem), Keyspace.execute_srem,
        Keyspace.execute_sadd]
      split <;> rfl
    rw [hsaved, or_iff_right hmem]
    exact exists_congr fun entry => and_congr_right fun _ => eq_comm

/-- **The two back ends leave Redis in the same state exactly when `SavesAgree`.** -/
theorem sameState_iff (hkey : SpellsKey guid AppKey) (hascii : AsciiKeys states)
    (hpos : ∀ e ∈ states.expireKeys, 0 < e.2) (s : Keyspace) :
    SameState (s.executeAll (managedSave culture AppKey states value))
        (s.executeAll (nativeSave guid states value)) ↔ SavesAgree guid states s := by
  have hset : hexStringFromMemory guid ∉ states.removedKeys.map (nameOf guid) := by
    intro h
    obtain ⟨key, -, heq⟩ := List.mem_map.mp h
    exact nameOf_ne key heq
  have hpairs : ((states.newKeys ++ states.changedKeys).map fun key =>
      (nameOf guid key, value (utf16ToUtf8 key))).map Prod.fst = writtenNames guid states := by
    rw [List.map_map]
    rfl
  have hmanaged := executeAll_saving s (states.newKeys.map (nameOf guid)) false
    ((states.newKeys ++ states.changedKeys).map fun key =>
      (nameOf guid key, value (utf16ToUtf8 key)))
    (states.expireKeys.map fun e => (utf16ToUtf8 e.1, e.2)) hset
    fun e he => by
      obtain ⟨e', he', rfl⟩ := List.mem_map.mp he
      exact hpos e' he'
  have hnative := executeAll_saving s (states.newKeys.map (nameOf guid)) true
    ((states.newKeys ++ states.changedKeys).map fun key =>
      (nameOf guid key, value (utf16ToUtf8 key)))
    (states.expireKeys.map fun e => (nameOf guid e.1, e.2)) hset
    fun e he => by
      obtain ⟨e', he', rfl⟩ := List.mem_map.mp he
      exact hpos e' he'
  rw [managedSave_eq value hkey hascii, nativeSave_eq]
  rw [sameState_expired_iff (fun key => (hmanaged key).trans (by rw [if_neg (by simp)])) hnative]
  rw [hpairs]
  constructor
  · rintro ⟨hgone, hlife⟩
    constructor
    · intro key hremoved hwritten
      have hnone := hgone (nameOf guid key)
        ⟨rfl, List.mem_map_of_mem hremoved, hwritten⟩
      rwa [savedEntry, Keyspace.execute_mset_of_notMem _ _ (hpairs ▸ hwritten),
        Keyspace.execute_srem, if_neg (nameOf_ne key), Keyspace.execute_sadd,
        if_neg (nameOf_ne key)] at hnone
    · intro key hlasting
      obtain ⟨entry, httl, hentry⟩ := (savedEntry_eq_some_iff s value key).mpr hlasting
      have h := hlife key entry hentry
      rw [httl, Bool.eq_iff_iff, Keyspace.isSome_lifetime, Keyspace.isSome_lifetime] at h
      simpa [List.map_map, Function.comp_def] using h
  · rintro ⟨hremoved, hexpire⟩
    constructor
    · rintro key ⟨-, hmem, hwritten⟩
      obtain ⟨key', hkey', rfl⟩ := List.mem_map.mp hmem
      rw [savedEntry, Keyspace.execute_mset_of_notMem _ _ (hpairs ▸ hwritten),
        Keyspace.execute_srem, if_neg (nameOf_ne key'), Keyspace.execute_sadd,
        if_neg (nameOf_ne key')]
      exact hremoved key' hkey' hwritten
    · intro key entry hentry
      rw [Bool.eq_iff_iff, Keyspace.isSome_lifetime, Keyspace.isSome_lifetime]
      cases httl : entry.ttl with
      | some ms => simp
      | none =>
        have h := hexpire key ((savedEntry_eq_some_iff s value key).mp ⟨entry, httl, hentry⟩)
        simpa [List.map_map, Function.comp_def] using h

end Backends

/-- An application key and its text. -/
def sampleGuid : Bytes := List.replicate 16 0xAB

def sampleAppKey : Bstr := (List.replicate 16 [97, 66]).flatten

/-- A request that removed the key `a` and set it again. -/
def replacedStates : KeyStates Bstr where
  changedKeys := []
  newKeys := [[97]]
  otherKeys := []
  expireKeys := []
  removedKeys := [[97]]

/-- A request that removed the key `a`. -/
def removedStates : KeyStates Bstr := { replacedStates with newKeys := [] }

/-- Redis with a value of the key `a`. -/
def oneValue : Keyspace :=
  Keyspace.executeAll (fun _ => none)
    [.sadd (hexStringFromMemory sampleGuid) [nameOf sampleGuid [97]],
      .mset [(nameOf sampleGuid [97], [1])]]

/-- On a key that is removed and set again the two agree. -/
theorem replacedKey_sameState :
    SameState (oneValue.executeAll (managedSave .ascii sampleAppKey replacedStates id))
      (oneValue.executeAll (nativeSave sampleGuid replacedStates id)) := by
  have hkey : SpellsKey sampleGuid sampleAppKey := by
    refine ⟨by decide, by decide⟩
  have hascii : AsciiKeys replacedStates :=
    ⟨by decide, by decide, by decide, fun e he => by cases he⟩
  refine (sameState_iff id hkey hascii (fun e he => by cases he) oneValue).mpr ⟨?_, ?_⟩
  · intro key hkey hwritten
    exact absurd (List.mem_map_of_mem hkey) hwritten
  · intro key _
    exact Iff.rfl

/-- **The managed core leaves the value of a removed key in Redis**, the native back end
deletes it. -/
theorem removedKey_not_sameState :
    ¬ SameState (oneValue.executeAll (managedSave .ascii sampleAppKey removedStates id))
      (oneValue.executeAll (nativeSave sampleGuid removedStates id)) := by
  intro h
  exact absurd (h.values (nameOf sampleGuid [97])) (by decide +kernel)

end IspSession.Analysis
