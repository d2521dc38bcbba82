import IspSession.Analysis.ApplicationLoading
import IspSession.Library.Runs

/-!
# Requests on an application

A request loads the application, changes it and saves it. `LeftByRequests` are the Redis
states that such requests and expirations leave; all of them are `Holding` records. Within
a request the keys stay `Tidy` and the elements `Follow` those that were loaded: one lemma
for a call, one for a run.
-/

set_option autoImplicit false

namespace IspSession.Analysis

open IspSession.Library IspSession.Model

variable {loc : Collation}

/-! ## The calls of a request -/

/-- A call that changes a key of ASCII characters, with a value that the codec supports. -/
def SupportedCall : CApplication.Call → Prop
  | .putValue key newVal defaults =>
    AsciiUtf16 key ∧ StringFits (lpcolestr key) ∧ ∀ v ∈ storedValue newVal defaults, Storeable v
  | .putrefValue key newVal =>
    AsciiUtf16 key ∧ StringFits (lpcolestr key) ∧ ∀ v ∈ storedReference newVal, Storeable v
  | .remove key => AsciiUtf16 key
  | .removeAll => True
  | _ => False

/-- A call of an earlier request, which also reads and sets expirations. -/
def EarlierCall (call : CApplication.Call) : Prop :=
  SupportedCall call ∨ (∃ key, call = .getValue key) ∨ ∃ key ms, call = .expireKeyAt key ms

/-- INTERNAL: the part of an ASCII text up to the first zero. -/
theorem keylike_lpcolestr {key : Bstr} (h : AsciiUtf16 key) : Keylike (lpcolestr key) where
  nonzero := fun u hu => by
    have hp := List.mem_takeWhile_imp hu
    simpa using hp
  ascii := fun u hu => h u ((List.takeWhile_prefix _).subset hu)

/-- The element a put finds or adds. -/
def touched : Option ElementModel → ElementModel
  | none => { ElementModel.blank with isNew := true }
  | some element => if element.isNew then element else { element with isDirty := true }

/-- The element an accepted put of a reference finds or adds. -/
def touchedRef : Option ElementModel → ElementModel
  | none => { ElementModel.blank with isNew := true }
  | some element => { element with isDirty := true, isSerialized := false }

/-- What a put leaves: the element of the key is another one. -/
structure PutLeaves (a a' : CApplication loc) (key : Bstr) (element : ElementModel) : Prop where
  removed : a'.removed = a.removed
  find : ∀ key', a'.find key' = if loc.compare key' key = .eq then some element else a.find key'

/-- INTERNAL: the element is touched and a value is stored in it. -/
theorem putLeaves_of_touch {a a₁ : CApplication loc} {key : Bstr} {element : ElementModel}
    (h : PutLeaves a a₁ key element) (stored : Option Variant) :
    PutLeaves a (a₁.update key (withStored stored)) key (withStored stored element) := by
  have hself : loc.compare key key = .eq := Std.ReflCmp.compare_self
  have hkey := h.find key
  rw [if_pos hself] at hkey
  constructor
  · unfold CApplication.update
    rw [hkey]
    exact h.removed
  · intro key'
    rw [CApplication.find_update, hkey]
    split
    · rfl
    · rename_i hne
      rw [h.find, if_neg hne]

/-- INTERNAL: an insertion of a key that is not there. -/
theorem putLeaves_insert {a : CApplication loc} {key : Bstr} (hnone : a.find key = none)
    (element : ElementModel) : PutLeaves a (a.insert key element) key element where
  removed := rfl
  find := fun key' => by
    rw [CApplication.find_insert]
    split
    · rename_i hk
      have hsame : a.find key' = none := (a.dictionary.find_congr hk).trans hnone
      rw [hsame]
      rfl
    · rw [Option.or_none]

/-- INTERNAL: a change of a key that is there. -/
theorem putLeaves_update {a : CApplication loc} {key : Bstr} {element : ElementModel}
    (hfind : a.find key = some element) (f : ElementModel → ElementModel) :
    PutLeaves a (a.update key f) key (f element) where
  removed := by
    unfold CApplication.update
    rw [hfind]
  find := fun key' => by rw [CApplication.find_update, hfind]; rfl

/-- INTERNAL: touching. -/
theorem putLeaves_touch (a : CApplication loc) (key : Bstr) :
    PutLeaves a (a.touch key) key (touched (a.find key)) ∧
      PutLeaves a (a.touchRef key) key (touchedRef (a.find key)) := by
  have hsame : ∀ element, a.find key = some element → PutLeaves a a key element :=
    fun element hfind => ⟨rfl, fun key' => by
      split
      · rename_i hk
        exact (a.dictionary.find_congr hk).trans hfind
      · rfl⟩
  unfold CApplication.touch CApplication.touchRef
  cases hfind : a.find key with
  | none => exact ⟨putLeaves_insert hfind _, putLeaves_insert hfind _⟩
  | some element =>
    refine ⟨?_, putLeaves_update hfind fun e => { e with isDirty := true, isSerialized := false }⟩
    dsimp only [touched]
    split
    · exact hsame element hfind
    · exact putLeaves_update hfind fun e => { e with isDirty := true }

/-! ## Tidy runs -/

/-- INTERNAL: a value a page stores can be held. -/
theorem Storeable.holdable {v : Variant} (h : Storeable v) : Holdable v :=
  SupportedBut.mono (fun _ ho => .inr (.inl ho)) h

/-- INTERNAL: touching keeps an application tidy. -/
theorem Tidy.touch {a : CApplication loc} (h : Tidy a) {key : Bstr} (hkey : Keylike key)
    (hfits : StringFits key) : Tidy (a.touch key) ∧ Tidy (a.touchRef key) := by
  have hval : ∀ element, a.find key = some element → Holdable element.val := by
    intro element hfind
    obtain ⟨e, he, -, rfl⟩ := OrderedMap.exists_of_find hfind
    exact (h e he).2.2
  have hnew : Tidy (a.insert key { ElementModel.blank with isNew := true }) :=
    h.insert hkey hfits ⟨trivial, trivial, trivial⟩
  unfold CApplication.touch CApplication.touchRef
  cases hfind : a.find key with
  | none => exact ⟨hnew, hnew⟩
  | some element =>
    refine ⟨?_, h.update key fun e he => hval e he⟩
    dsimp only
    split
    · exact h
    · exact h.update key fun e he => hval e he

/-- INTERNAL: a stored value keeps it tidy. -/
theorem Tidy.store {a : CApplication loc} (h : Tidy a) (key : Bstr) {stored : Option Variant}
    (hstored : ∀ v ∈ stored, Storeable v) : Tidy (a.update key (withStored stored)) := by
  refine h.update key fun element hfind => ?_
  cases stored with
  | none =>
    obtain ⟨e, he, -, rfl⟩ := OrderedMap.exists_of_find hfind
    exact (h e he).2.2
  | some v => exact (hstored v rfl).holdable

/-- **A call of an earlier request keeps an application tidy.** -/
theorem Tidy.perform {mem : Memory} {oleLoad : Bytes → Option ComObject}
    (hload : ∀ bytes o, oleLoad bytes = some o → SavesItself o) {a a' : CApplication loc}
    {call : CApplication.Call} (h : Tidy a) (hcall : EarlierCall call)
    (hp : a.perform mem oleLoad call = .ok a') : Tidy a' := by
  rcases hcall with hcall | ⟨key, rfl⟩ | ⟨key, ms, rfl⟩
  · cases call with
    | putValue key newVal defaults =>
      obtain ⟨hascii, hfits, hstored⟩ := hcall
      obtain ⟨⟨hr, a₁⟩, hput, heq⟩ := Run.bind_eq_ok hp
      cases heq
      by_cases hnil : key = []
      · rw [CApplication.putValue.eq_def, if_pos hnil] at hput
        cases hput
        exact h
      · rw [putValue_spec hnil hput]
        exact (h.touch (keylike_lpcolestr hascii) hfits).1.store _ hstored
    | putrefValue key newVal =>
      obtain ⟨hascii, hfits, hstored⟩ := hcall
      obtain ⟨⟨hr, a₁⟩, hput, heq⟩ := Run.bind_eq_ok hp
      cases heq
      rw [putrefValue_spec hput]
      split
      · exact (h.touch (keylike_lpcolestr hascii) hfits).2.store _ hstored
      · exact h
    | remove key =>
      cases hp
      unfold CApplication.remove
      split
      · exact h
      · split
        · exact h
        · exact fun e he => h e (List.mem_of_mem_filter he)
    | removeAll =>
      cases hp
      exact fun e he => by cases he
    | _ => cases hcall
  · obtain ⟨⟨hr, v, a₁⟩, hget, heq⟩ := Run.bind_eq_ok hp
    cases heq
    rcases getValue_spec hget with rfl | ⟨bytes, wrap, element, hwrap, hfind, -, -, rfl⟩
    · exact h
    · refine h.update _ fun _ _ => ?_
      cases ho : oleLoad bytes with
      | none => rcases hwrap with rfl | rfl <;> exact .inl rfl
      | some o =>
        have hsaves := hload bytes o ho
        rcases hwrap with rfl | rfl <;> exact .inr (.inl hsaves)
  · cases hp
    refine h.update _ fun element hfind => ?_
    obtain ⟨e, he, -, rfl⟩ := OrderedMap.exists_of_find hfind
    exact (h e he).2.2

/-! ## States that requests leave -/

/-- The Redis states that requests on an application leave: at first it has no keys; a
request loads it, works and saves it; a key with a time to live can expire. -/
inductive LeftByRequests (loc : Collation) (cp : CodePage) (oleLoad : Bytes → Option ComObject)
    (appkey : Bytes) : Keyspace → Prop
  | start {s : Keyspace} (hnone : s appkey = none) : LeftByRequests loc cp oleLoad appkey s
  | request {s s₁ s' : Keyspace} {mem : Memory} {keys : List Bytes} {a₀ a a' : CApplication loc}
      {calls : List CApplication.Call} (hs : LeftByRequests loc cp oleLoad appkey s)
      (hreply : keys.Perm (s.smembers appkey))
      (hget : CApplicationDL.applicationGet mem appkey s keys .new = .ok (s₁, a₀))
      (hcalls : ∀ call ∈ calls, EarlierCall call)
      (hrun : Runs.run (CApplication.perform mem oleLoad) calls a₀ = .ok a)
      (hsave : CApplicationDL.applicationSave cp mem appkey s₁ a = .ok (s', a')) :
      LeftByRequests loc cp oleLoad appkey s'
  | expire {s : Keyspace} (name : Bytes) (hs : LeftByRequests loc cp oleLoad appkey s)
      (hlife : ∃ entry ms, s name = some entry ∧ entry.ttl = some ms) :
      LeftByRequests loc cp oleLoad appkey (Function.update s name none)

/-- INTERNAL: the tidy application a run leaves. -/
theorem Tidy.run {mem : Memory} {oleLoad : Bytes → Option ComObject}
    (hload : ∀ bytes o, oleLoad bytes = some o → SavesItself o) {a a' : CApplication loc}
    {calls : List CApplication.Call} (h : Tidy a) (hcalls : ∀ call ∈ calls, EarlierCall call)
    (hrun : Runs.run (CApplication.perform mem oleLoad) calls a = .ok a') : Tidy a' := by
  have hmeets : ∀ (calls : List CApplication.Call) (a : CApplication loc),
      (∀ call ∈ calls, EarlierCall call) →
        Runs.Meets (CApplication.perform mem oleLoad) (fun _ call => EarlierCall call) calls a := by
    intro calls
    induction calls with
    | nil => exact fun _ _ => trivial
    | cons call calls ih =>
      exact fun a hc => ⟨hc call (by simp), fun a' _ => ih a' fun c hmem => hc c (by simp [hmem])⟩
  exact Runs.run_invariant Tidy (fun _ _ _ htidy hcall hp => htidy.perform hload hcall hp) h
    (hmeets calls a hcalls) hrun

/-- INTERNAL: a written key has a record. -/
theorem holds_recordOf (mem : Memory) (appkey : Bytes) {a : CApplication loc} (h : Tidy a)
    {key : Bstr} (hkey : key ∈ writtenKeys a) (hnull : holdsNull a key = false) :
    GoodKey key ∧ ∃ element, a.find key = some element ∧
      HoldsRecord loc appkey (nameIn appkey key) (recordOf mem a key) key
        (loadedValue true (storedAs element)).2 := by
  obtain ⟨hgood, element, hfind, hheld⟩ : GoodKey key ∧
      ∃ element, a.find key = some element ∧ Holdable element.val :=
    (List.mem_append.mp hkey).elim h.keysWhere h.keysWhere
  rw [holdsNull, hfind] at hnull
  have hstorable := hheld.storedAs hnull
  refine ⟨hgood, element, hfind, hgood, rfl, restored_loadedValue hstorable, ?_⟩
  rw [recordOf, hfind]
  exact isRecord_recordBytes loc mem hgood hstorable

/-- The members after a save. -/
def savedMembers (appkey : Bytes) (a : CApplication loc) (members : List Bytes) : List Bytes :=
  (((keysWhere a fun e => e.isNew).map (nameIn appkey)).foldl Keyspace.addMember members).filter
    fun m => m ∉ removedNames appkey a

/-- INTERNAL: the Redis keys that are written. -/
theorem mem_writtenPairs {appkey : Bytes} {a : CApplication loc} {record : Bstr → Bytes}
    {name : Bytes} :
    name ∈ ((writtenKeys a).map fun key => (nameIn appkey key, record key)).map Prod.fst ↔
      ∃ key ∈ writtenKeys a, nameIn appkey key = name := by
  rw [List.map_map]
  exact List.mem_map

/-- INTERNAL: the key of the set is no Redis key. -/
theorem not_mem_names (appkey : Bytes) (a : CApplication loc) (record : Bstr → Bytes) :
    appkey ∉ removedNames appkey a ∧
    appkey ∉ ((writtenKeys a).map fun key => (nameIn appkey key, record key)).map Prod.fst ∧
    appkey ∉ (a.keyStates.expireKeys.map fun e => (redisKey appkey e.1, e.2)).map Prod.fst := by
  refine ⟨fun hmem => ?_, fun hmem => ?_, fun hmem => ?_⟩
  · obtain ⟨key, -, heq⟩ := List.mem_map.mp hmem
    exact redisKey_ne appkey key heq
  · obtain ⟨key, -, heq⟩ := mem_writtenPairs.mp hmem
    exact nameIn_ne appkey key heq
  · rw [List.map_map] at hmem
    obtain ⟨e, -, heq⟩ := List.mem_map.mp hmem
    exact redisKey_ne appkey e.1 heq

/-- INTERNAL: expirations are in the future. -/
theorem expirations_pos (appkey : Bytes) (a : CApplication loc) :
    ∀ e ∈ a.keyStates.expireKeys.map (fun e => (redisKey appkey e.1, e.2)), (0 : ℤ) < e.2 := by
  intro e he
  obtain ⟨e', he', rfl⟩ := List.mem_map.mp he
  exact (keyStates_eq a).2.2 e' he'

/-- **The members and their values after a save** that writes these records. -/
theorem savedWith_spec (record : Bstr → Bytes) (appkey : Bytes) {s : Keyspace}
    {members : List Bytes} (h : KeySet s appkey members) (a : CApplication loc) :
    KeySet (savedWith appkey s a record) appkey (savedMembers appkey a members) ∧
    (∀ name, name ∈ savedMembers appkey a members ↔
      (name ∈ members ∨ name ∈ (keysWhere a fun e => e.isNew).map (nameIn appkey)) ∧
        name ∉ removedNames appkey a) ∧
    ∀ name, name ≠ appkey →
      ((∃ key ∈ writtenKeys a, nameIn appkey key = name) → ∃ key ∈ writtenKeys a,
        nameIn appkey key = name ∧
          (savedWith appkey s a record).get name = some (record key)) ∧
      ((¬ ∃ key ∈ writtenKeys a, nameIn appkey key = name) →
        (savedWith appkey s a record).get name =
          if name ∈ removedNames appkey a then none else s.get name) := by
  obtain ⟨hremoved, hpairs, hexpire⟩ := not_mem_names appkey a record
  have hpos := expirations_pos appkey a
  refine ⟨h.saving _ true hremoved hpairs hexpire hpos, mem_members_saving h.nodup,
    fun name hne => ?_⟩
  obtain ⟨hin, hout⟩ := get_saving s ((keysWhere a fun e => e.isNew).map (nameIn appkey))
    ((writtenKeys a).map fun key => (nameIn appkey key, record key)) hremoved hpos hne
  constructor
  · intro hwritten
    obtain ⟨bytes, hpair, hget⟩ := hin (mem_writtenPairs.mpr hwritten)
    obtain ⟨key, hkey, heq⟩ := List.mem_map.mp hpair
    cases heq
    exact ⟨key, hkey, rfl, hget⟩
  · intro hnot
    exact hout fun hmem => hnot (mem_writtenPairs.mp hmem)

/-- The same of the records of an application the codec can work with. -/
theorem savedState_spec (mem : Memory) (appkey : Bytes) {s : Keyspace} {members : List Bytes}
    (h : KeySet s appkey members) (a : CApplication loc) :
    KeySet (savedState mem appkey s a) appkey (savedMembers appkey a members) ∧
    (∀ name, name ∈ savedMembers appkey a members ↔
      (name ∈ members ∨ name ∈ (keysWhere a fun e => e.isNew).map (nameIn appkey)) ∧
        name ∉ removedNames appkey a) ∧
    ∀ name, name ≠ appkey →
      ((∃ key ∈ writtenKeys a, nameIn appkey key = name) → ∃ key ∈ writtenKeys a,
        nameIn appkey key = name ∧ (savedState mem appkey s a).get name = some (recordOf mem a key)) ∧
      ((¬ ∃ key ∈ writtenKeys a, nameIn appkey key = name) →
        (savedState mem appkey s a).get name =
          if name ∈ removedNames appkey a then none else s.get name) :=
  savedWith_spec (recordOf mem a) appkey h a

/-- **A save leaves records.** -/
theorem Holding.save (mem : Memory) {appkey : Bytes} {s : Keyspace} {members : List Bytes}
    (h : Holding loc appkey s members) {a : CApplication loc} (htidy : Tidy a)
    (hnull : ∀ key ∈ writtenKeys a, holdsNull a key = false) :
    Holding loc appkey (savedState mem appkey s a) (savedMembers appkey a members) := by
  obtain ⟨hkeys, hmembers, hvalues⟩ := savedState_spec mem appkey h.keys a
  refine ⟨hkeys, fun name hmem bytes hget => ?_⟩
  by_cases happ : name = appkey
  · rw [happ, hkeys.get] at hget
    cases hget
  · by_cases hwritten : ∃ key ∈ writtenKeys a, nameIn appkey key = name
    · obtain ⟨key, hkey, hname, hrecord⟩ := (hvalues name happ).1 hwritten
      rw [hget] at hrecord
      cases hrecord
      obtain ⟨-, element, -, hholds⟩ := holds_recordOf mem appkey htidy hkey (hnull key hkey)
      exact ⟨key, _, hname ▸ hholds⟩
    · have hold := (hvalues name happ).2 hwritten
      obtain ⟨hcases, hnot⟩ := (hmembers name).mp hmem
      rw [if_neg hnot, hget] at hold
      rcases hcases with hmem | hnew
      · exact h.records name hmem bytes hold.symm
      · obtain ⟨key, hkey, hname⟩ := List.mem_map.mp hnew
        exact absurd ⟨key, List.mem_append_left _ hkey, hname⟩ hwritten

/-- **In all states that requests leave, the members that have a value have a record.** -/
theorem LeftByRequests.holding (hfolds : FoldsAscii loc) {cp : CodePage}
    {oleLoad : Bytes → Option ComObject}
    (hload : ∀ bytes o, oleLoad bytes = some o → SavesItself o) {appkey : Bytes} {s : Keyspace}
    (h : LeftByRequests loc cp oleLoad appkey s) : Holding loc appkey s (s.smembers appkey) := by
  induction h with
  | start hnone =>
    have hkeys : KeySet _ appkey [] := ⟨List.nodup_nil, hnone⟩
    rw [hkeys.smembers]
    exact ⟨hkeys, fun _ hmem => by cases hmem⟩
  | @request s s₁ s' mem keys a₀ a a' calls hs hreply hget hcalls hrun hsave ih =>
    obtain ⟨s₂, a₁, members, hok, hloaded, hholding, -, -⟩ :=
      applicationGet_spec hfolds mem ih hreply
    rw [hget] at hok
    cases hok
    have htidy := hloaded.tidy.run hload hcalls hrun
    have hspec := applicationSave_spec cp mem appkey s₁ htidy
    by_cases hnull : ∃ key ∈ writtenKeys a, holdsNull a key = true
    · rw [hsave] at hspec
      cases hspec.2 hnull
    · have hfine : ∀ key ∈ writtenKeys a, holdsNull a key = false := fun key hkey => by
        simpa using fun hn => hnull ⟨key, hkey, hn⟩
      obtain ⟨a'', hok⟩ := hspec.1 hfine
      rw [hsave] at hok
      cases hok
      have hafter := hholding.save mem htidy hfine
      rwa [hafter.keys.smembers]
  | @expire s name hs hlife ih =>
    by_cases happ : name = appkey
    · have hkeys : KeySet (Function.update s name none) appkey [] :=
        ⟨List.nodup_nil, by rw [happ, Function.update_self]; rfl⟩
      rw [hkeys.smembers]
      exact ⟨hkeys, fun _ hmem => by cases hmem⟩
    · have hsame : Function.update s name none appkey = s appkey :=
        Function.update_of_ne (Ne.symm happ) ..
      have hkeys : KeySet (Function.update s name none) appkey (s.smembers appkey) :=
        ⟨ih.keys.nodup, by rw [hsame]; exact ih.keys.entry⟩
      rw [hkeys.smembers]
      refine ⟨hkeys, fun name' hmem bytes hget => ih.records name' hmem bytes ?_⟩
      by_cases heq : name' = name
      · rw [Keyspace.get, heq, Function.update_self] at hget
        cases hget
      · rwa [Keyspace.get, Function.update_of_ne heq, ← Keyspace.get] at hget

/-! ## What a request does to its elements -/

/-- What the elements of a request still have to do with those that were loaded: an old one
was loaded, and has its value while it is clean; none holds a null object. -/
structure Follows (a₀ a : CApplication loc) : Prop where
  old : ∀ key element, a.find key = some element → element.isNew = false →
    ∃ element₀, a₀.find key = some element₀ ∧
      (element.isDirty = false → element.val = element₀.val)
  value : ∀ key element, a.find key = some element → nullObject element.val = false

/-- INTERNAL: what a record brings back is no null object. -/
theorem Restored.not_null {v : Variant} (h : Restored v) : nullObject v = false := by
  cases v with
  | dispatch o => obtain ⟨bytes, rfl, -⟩ := h; rfl
  | unknown o => obtain ⟨bytes, rfl, -⟩ := h; rfl
  | _ => rfl

/-- INTERNAL: neither is what a page stores. -/
theorem Storeable.not_null {v : Variant} (h : Storeable v) : nullObject v = false := by
  cases v with
  | dispatch o => obtain ⟨bytes, rfl, -⟩ := h; rfl
  | unknown o => obtain ⟨bytes, rfl, -⟩ := h; rfl
  | _ => rfl

/-- INTERNAL: a loaded application follows itself. -/
theorem Loaded.follows {appkey : Bytes} {s : Keyspace} {names : List Bytes} {a : CApplication loc}
    (h : Loaded appkey s names a) : Follows a a where
  old := fun _ element hfind _ => ⟨element, hfind, fun _ => rfl⟩
  value := fun key element hfind => by
    obtain ⟨name, -, bytes, key', val, -, hholds, -, rfl⟩ := h.only key element hfind
    exact hholds.restored.not_null

/-- INTERNAL: a put. -/
theorem Follows.put {a₀ a a' : CApplication loc} (h : Follows a₀ a) {key : Bstr}
    {element : ElementModel} {stored : Option Variant}
    (hput : PutLeaves a a' key (withStored stored element))
    (htouched : element = touched (a.find key) ∨ element = touchedRef (a.find key))
    (hstored : ∀ v ∈ stored, Storeable v) : Follows a₀ a' := by
  constructor
  · intro key' el hfind hold
    rw [hput.find] at hfind
    split at hfind
    · rename_i hk
      cases hfind
      change element.isNew = false at hold
      change ∃ element₀, a₀.find key' = some element₀ ∧ (element.isDirty = false → _)
      -- an element that is not new was there, and is dirty now
      have hwas : ∃ old, a.find key = some old ∧ old.isNew = false ∧ element.isDirty = true := by
        cases hfind : a.find key with
        | none =>
          rw [hfind] at htouched
          rcases htouched with rfl | rfl <;> cases hold
        | some old =>
          rw [hfind] at htouched
          rcases htouched with rfl | rfl
          · dsimp only [touched] at hold ⊢
            split at hold
            · rename_i hnew
              rw [hnew] at hold
              cases hold
            · rename_i hnew
              rw [if_neg hnew]
              exact ⟨old, rfl, by simpa using hnew, rfl⟩
          · exact ⟨old, rfl, hold, rfl⟩
      obtain ⟨old, hfind, hnew, hdirty⟩ := hwas
      obtain ⟨element₀, hfind₀, -⟩ := h.old key old hfind hnew
      refine ⟨element₀, (a₀.dictionary.find_congr hk).trans hfind₀, fun hclean => ?_⟩
      rw [hdirty] at hclean
      cases hclean
    · exact h.old key' el hfind hold
  · intro key' el hfind
    rw [hput.find] at hfind
    split at hfind
    · cases hfind
      cases stored with
      | some v => exact (hstored v rfl).not_null
      | none =>
        change nullObject element.val = false
        cases hfind : a.find key with
        | none =>
          rw [hfind] at htouched
          rcases htouched with rfl | rfl <;> rfl
        | some old =>
          have hval := h.value key old hfind
          rw [hfind] at htouched
          rcases htouched with rfl | rfl
          · dsimp only [touched]
            split <;> exact hval
          · exact hval
    · exact h.value key' el hfind

/-- INTERNAL: an application with some of the elements. -/
theorem Follows.sub {a₀ a a' : CApplication loc} (h : Follows a₀ a)
    (hsub : ∀ key element, a'.find key = some element → a.find key = some element) :
    Follows a₀ a' where
  old := fun key element hfind => h.old key element (hsub key element hfind)
  value := fun key element hfind => h.value key element (hsub key element hfind)

/-- **A call of the request keeps track of the loaded elements.** -/
theorem Follows.perform {mem : Memory} {oleLoad : Bytes → Option ComObject}
    {a₀ a a' : CApplication loc} {call : CApplication.Call} (h : Follows a₀ a)
    (hcall : SupportedCall call) (hp : a.perform mem oleLoad call = .ok a') : Follows a₀ a' := by
  cases call with
  | putValue key newVal defaults =>
    obtain ⟨⟨hr, a₁⟩, hput, heq⟩ := Run.bind_eq_ok hp
    cases heq
    by_cases hnil : key = []
    · rw [CApplication.putValue.eq_def, if_pos hnil] at hput
      cases hput
      exact h
    · rw [putValue_spec hnil hput]
      exact h.put (putLeaves_of_touch (putLeaves_touch a _).1 _) (.inl rfl) hcall.2.2
  | putrefValue key newVal =>
    obtain ⟨⟨hr, a₁⟩, hput, heq⟩ := Run.bind_eq_ok hp
    cases heq
    rw [putrefValue_spec hput]
    split
    · exact h.put (putLeaves_of_touch (putLeaves_touch a _).2 _) (.inr rfl) hcall.2.2
    · exact h
  | remove key =>
    cases hp
    refine h.sub fun key' element hfind => ?_
    unfold CApplication.remove at hfind
    split at hfind
    · exact hfind
    · split at hfind
      · exact hfind
      · change (a.dictionary.erase _).find key' = some element at hfind
        rw [OrderedMap.find_erase] at hfind
        split at hfind
        · cases hfind
        · exact hfind
  | removeAll =>
    cases hp
    exact h.sub fun _ _ hfind => by cases hfind
  | _ => cases hcall

/-- INTERNAL: the application that a request ends with. -/
theorem Follows.run {mem : Memory} {oleLoad : Bytes → Option ComObject} {a₀ a a' : CApplication loc}
    {calls : List CApplication.Call} (h : Follows a₀ a) (hcalls : ∀ call ∈ calls, SupportedCall call)
    (hrun : Runs.run (CApplication.perform mem oleLoad) calls a = .ok a') : Follows a₀ a' := by
  induction calls generalizing a with
  | nil =>
    cases hrun
    exact h
  | cons call calls ih =>
    obtain ⟨a₁, hstep, hrest⟩ := Runs.run_cons_eq_ok hrun
    exact ih (h.perform (hcalls call (by simp)) hstep) (fun c hc => hcalls c (by simp [hc])) hrest

end IspSession.Analysis
