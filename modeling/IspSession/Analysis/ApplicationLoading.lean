import IspSession.Analysis.ApplicationSaving

/-!
# What `ApplicationGet` loads from Redis

`Holding` says that the members of the set which have a value have records as values.
`applicationGet_spec`: from such a state, `ApplicationGet` loads the value of every record
and no other key, and takes the members without a value out of the set.
-/

set_option autoImplicit false

namespace IspSession.Analysis

open IspSession.Library IspSession.Model

variable {loc : Collation}

/-! ## Tidy applications -/

/-- An application without keys. -/
theorem tidy_new : Tidy (.new : CApplication loc) := fun _ he => by cases he

/-- A new element. -/
theorem Tidy.insert {a : CApplication loc} (h : Tidy a) {key : Bstr} (hkey : Keylike key)
    (hfits : StringFits key) {element : ElementModel} (hval : Holdable element.val) :
    Tidy (a.insert key element) := by
  intro e he
  rcases OrderedMap.mem_insertEntry he with rfl | he
  · exact ⟨hkey, hfits, hval⟩
  · exact h e he

/-- A changed element. -/
theorem Tidy.update {a : CApplication loc} (h : Tidy a) (key : Bstr)
    {f : ElementModel → ElementModel}
    (hval : ∀ element, a.find key = some element → Holdable (f element).val) :
    Tidy (a.update key f) := by
  unfold CApplication.update
  cases hfind : a.find key with
  | none => exact h
  | some element =>
    intro e he
    rcases OrderedMap.mem_assign he with he | ⟨-, heq, v, he⟩
    · exact h e he
    · rw [heq]
      exact ⟨(h _ he).1, (h _ he).2.1, hval element hfind⟩

/-- INTERNAL: a value a record brings back can be held. -/
theorem Restored.holdable {v : Variant} (h : Restored v) : Holdable v :=
  SupportedBut.mono (fun _ ho => .inr (.inr ho)) h

/-! ## States with records -/

/-- The bytes under a Redis key are the record of a key and its value. -/
structure HoldsRecord (loc : Collation) (appkey name bytes : Bytes) (key : Bstr) (val : Variant) :
    Prop where
  good : GoodKey key
  name : nameIn appkey key = name
  restored : Restored val
  record : IsRecord loc bytes key val

/-- INTERNAL: the key of a record is an ASCII text. -/
theorem HoldsRecord.keylike {appkey name bytes : Bytes} {key : Bstr} {val : Variant}
    (h : HoldsRecord loc appkey name bytes key val) : Keylike key := ⟨h.good.nonzero, h.good.ascii⟩

/-- INTERNAL: a record has one value. -/
theorem HoldsRecord.unique (hfolds : FoldsAscii loc) {appkey name bytes : Bytes} {key key' : Bstr}
    {val val' : Variant} (h : HoldsRecord loc appkey name bytes key val)
    (h' : HoldsRecord loc appkey name bytes key' val') :
    loc.compare key' key = .eq ∧ val = val' := by
  have hk : loc.compare key' key = .eq :=
    (nameIn_eq_iff hfolds appkey h'.keylike h.keylike).mp (h'.name.trans h.name.symm)
  exact ⟨hk, h.record.unique h'.record hk⟩

/-- The set of keys has these members, and those that have a value have a record. -/
structure Holding (loc : Collation) (appkey : Bytes) (s : Keyspace) (members : List Bytes) :
    Prop where
  keys : KeySet s appkey members
  records : ∀ name ∈ members, ∀ bytes, s.get name = some bytes →
    ∃ key val, HoldsRecord loc appkey name bytes key val

/-- The application has been loaded from the values of these Redis keys. -/
structure Loaded (appkey : Bytes) (s : Keyspace) (names : List Bytes) (a : CApplication loc) :
    Prop where
  removed : a.removed = []
  tidy : Tidy a
  found : ∀ name ∈ names, ∀ bytes, s.get name = some bytes →
    ∃ key val, HoldsRecord loc appkey name bytes key val ∧ a.find key = some (loadedElement val)
  only : ∀ key element, a.find key = some element → ∃ name ∈ names, ∃ bytes key' val,
    s.get name = some bytes ∧ HoldsRecord loc appkey name bytes key' val ∧
      loc.compare key key' = .eq ∧ element = loadedElement val

/-- INTERNAL: before anything has been loaded. -/
theorem loaded_new (appkey : Bytes) (s : Keyspace) :
    Loaded appkey s [] (.new : CApplication loc) where
  removed := rfl
  tidy := tidy_new
  found := fun _ h => by cases h
  only := fun _ _ h => by cases h

/-- INTERNAL: one more record. -/
theorem Loaded.deserializeKey (hfolds : FoldsAscii loc) (mem : Memory) {appkey : Bytes}
    {s : Keyspace} {names : List Bytes} {a : CApplication loc} (h : Loaded appkey s names a)
    {name bytes : Bytes} (hname : name ∉ names) (hget : s.get name = some bytes) {key : Bstr}
    {val : Variant} (hholds : HoldsRecord loc appkey name bytes key val) :
    ∃ hr a', a.deserializeKey mem bytes = .ok (hr, a') ∧ Loaded appkey s (names ++ [name]) a' := by
  have hself : loc.compare key key = .eq := Std.ReflCmp.compare_self
  have hnone : a.find key = none := by
    cases hfind : a.find key with
    | none => rfl
    | some element =>
      obtain ⟨name', hmem, bytes', key', val', -, hholds', hk, -⟩ := h.only key element hfind
      have hsame := (nameIn_eq_iff hfolds appkey hholds.keylike hholds'.keylike).mpr hk
      rw [hholds.name, hholds'.name] at hsame
      exact absurd (hsame ▸ hmem) hname
  obtain ⟨hr, a', hok, hremoved, hfind⟩ := hholds.record.find mem hnone
  have htidy : Tidy a' := by
    obtain ⟨hr', b, hok'⟩ := hholds.record mem a
    rw [hok] at hok'
    cases hok'
    have hblank : Holdable ElementModel.blank.val := ⟨trivial, trivial, trivial⟩
    exact (h.tidy.insert hholds.keylike hholds.good.fits hblank).update key
      fun _ _ => hholds.restored.holdable
  refine ⟨hr, a', hok, hremoved.trans h.removed, htidy, ?_, ?_⟩
  · intro name' hmem bytes' hget'
    rcases List.mem_append.mp hmem with hmem | hmem
    · obtain ⟨key', val', hholds', hfind'⟩ := h.found name' hmem bytes' hget'
      refine ⟨key', val', hholds', ?_⟩
      rw [hfind, if_neg, hfind']
      intro hk
      have hsame := (nameIn_eq_iff hfolds appkey hholds'.keylike hholds.keylike).mpr hk
      rw [hholds.name, hholds'.name] at hsame
      exact hname (hsame ▸ hmem)
    · obtain rfl := List.mem_singleton.mp hmem
      rw [hget] at hget'
      cases hget'
      exact ⟨key, val, hholds, by rw [hfind, if_pos hself]⟩
  · intro key' element hel
    rw [hfind] at hel
    split at hel
    · rename_i hk
      cases hel
      exact ⟨name, by simp, bytes, key, val, hget, hholds, hk, rfl⟩
    · obtain ⟨name', hmem, rest⟩ := h.only key' element hel
      exact ⟨name', by simp [hmem], rest⟩

/-- INTERNAL: a member without a value. -/
theorem Loaded.skip {appkey : Bytes} {s : Keyspace} {names : List Bytes} {a : CApplication loc}
    (h : Loaded appkey s names a) {name : Bytes} (hget : s.get name = none) :
    Loaded appkey s (names ++ [name]) a := by
  refine ⟨h.removed, h.tidy, ?_, ?_⟩
  · intro name' hmem bytes hget'
    rcases List.mem_append.mp hmem with hmem | hmem
    · exact h.found name' hmem bytes hget'
    · rw [List.mem_singleton.mp hmem, hget] at hget'
      cases hget'
  · intro key element hel
    obtain ⟨name', hmem, rest⟩ := h.only key element hel
    exact ⟨name', by simp [hmem], rest⟩

/-- **The loop over the replies loads the values of the members.** -/
theorem Loaded.deserializeKeys (hfolds : FoldsAscii loc) (mem : Memory) {appkey : Bytes}
    {s : Keyspace} {names todo : List Bytes} {a : CApplication loc} (h : Loaded appkey s names a)
    (hnodup : (names ++ todo).Nodup)
    (hrecords : ∀ name ∈ todo, ∀ bytes, s.get name = some bytes →
      ∃ key val, HoldsRecord loc appkey name bytes key val) :
    ∃ a', CApplicationDL.deserializeKeys mem (s.mget todo) a = .ok a' ∧
      Loaded appkey s (names ++ todo) a' := by
  induction todo generalizing names a with
  | nil => exact ⟨a, rfl, by rwa [List.append_nil]⟩
  | cons name todo ih =>
    have hname : name ∉ names := by
      intro hmem
      exact (List.nodup_append.mp hnodup).2.2 name hmem name (by simp) rfl
    have hsplit : names ++ name :: todo = (names ++ [name]) ++ todo := by simp
    rw [hsplit] at hnodup ⊢
    rw [Keyspace.mget, List.map_cons]
    have hrest : ∀ {a₁ : CApplication loc}, Loaded appkey s (names ++ [name]) a₁ →
        ∃ a', CApplicationDL.deserializeKeys mem (s.mget todo) a₁ = .ok a' ∧
          Loaded appkey s (names ++ [name] ++ todo) a' :=
      fun h₁ => ih h₁ hnodup fun n hn => hrecords n (by simp [hn])
    cases hget : s.get name with
    | none => exact hrest (h.skip hget)
    | some bytes =>
      obtain ⟨key, val, hholds⟩ := hrecords name (by simp) bytes hget
      obtain ⟨hr, a₁, hok, h₁⟩ := h.deserializeKey hfolds mem hname hget hholds
      obtain ⟨a', ha', hloaded⟩ := hrest h₁
      refine ⟨a', ?_, hloaded⟩
      rw [CApplicationDL.deserializeKeys, hok]
      exact ha'

/-! ## Loading -/

/-- INTERNAL: the ghosts are the members without a value. -/
theorem mem_ghostKeys {s : Keyspace} {keys : List Bytes} {name : Bytes} :
    name ∈ CApplicationDL.ghostKeys keys (s.mget keys) ↔ name ∈ keys ∧ s.get name = none := by
  unfold CApplicationDL.ghostKeys Keyspace.mget
  induction keys with
  | nil => simp
  | cons k keys ih =>
    rw [List.map_cons, List.zip_cons_cons, List.filter_cons]
    split
    · rename_i hnone
      rw [List.map_cons, List.mem_cons, ih, List.mem_cons]
      have hk : s.get k = none := Option.isNone_iff_eq_none.mp hnone
      constructor
      · rintro (rfl | ⟨hmem, hn⟩)
        · exact ⟨.inl rfl, hk⟩
        · exact ⟨.inr hmem, hn⟩
      · rintro ⟨rfl | hmem, hn⟩
        · exact .inl rfl
        · exact .inr ⟨hmem, hn⟩
    · rename_i hsome
      rw [ih, List.mem_cons]
      constructor
      · rintro ⟨hmem, hn⟩
        exact ⟨.inr hmem, hn⟩
      · rintro ⟨rfl | hmem, hn⟩
        · exact absurd (Option.isNone_iff_eq_none.mpr hn) hsome
        · exact ⟨hmem, hn⟩

/-- INTERNAL: a cleanup removes the ghosts from the set and leaves the values. -/
theorem keySet_cleanup {appkey : Bytes} {s : Keyspace} {members : List Bytes}
    (h : KeySet s appkey members) (keys : List Bytes) (replies : List (Option Bytes)) :
    KeySet (s.executeAll (CApplicationDL.cleanup appkey keys replies)) appkey
        (members.filter fun m => m ∉ CApplicationDL.ghostKeys keys replies) ∧
      ∀ name, name ≠ appkey →
        (s.executeAll (CApplicationDL.cleanup appkey keys replies)) name = s name := by
  unfold CApplicationDL.cleanup
  split
  · rename_i hnil
    refine ⟨?_, fun name _ => rfl⟩
    rw [hnil, List.filter_eq_self.mpr fun m _ => by simp]
    exact h
  · refine ⟨⟨h.nodup.filter _, ?_⟩, fun name hne => ?_⟩
    · rw [Keyspace.executeAll_singleton, Keyspace.execute_srem, if_pos rfl, h.entry]
      unfold Keyspace.setEntry
      by_cases hempty : members = []
      · subst hempty
        rfl
      · rw [dif_neg hempty]
        rfl
    · rw [Keyspace.executeAll_singleton, Keyspace.execute_srem, if_neg hne]

/-- **`ApplicationGet`** loads the values of the members, and leaves the members that have
one in the set. -/
theorem applicationGet_spec (hfolds : FoldsAscii loc) (mem : Memory) {appkey : Bytes} {s : Keyspace}
    {members keys : List Bytes} (h : Holding loc appkey s members) (hreply : keys.Perm members) :
    ∃ s' a members', CApplicationDL.applicationGet mem appkey s keys (.new : CApplication loc) =
        .ok (s', a) ∧ Loaded appkey s keys a ∧ Holding loc appkey s' members' ∧
      (∀ name, name ∈ members' ↔ name ∈ members ∧ s.get name ≠ none) ∧
      ∀ name, name ≠ appkey → s' name = s name := by
  have hnodup : ([] ++ keys).Nodup := hreply.nodup_iff.mpr h.keys.nodup
  have hfresh : Loaded appkey s [] (.new : CApplication loc) := loaded_new appkey s
  obtain ⟨a, ha, hloaded⟩ := hfresh.deserializeKeys hfolds mem hnodup
    fun name hname => h.records name (hreply.mem_iff.mp hname)
  obtain ⟨hkeys, hvalues⟩ := keySet_cleanup h.keys keys (s.mget keys)
  have hmembers : ∀ name, name ∈ members.filter
      (fun m => m ∉ CApplicationDL.ghostKeys keys (s.mget keys)) ↔
        name ∈ members ∧ s.get name ≠ none := by
    intro name
    rw [List.mem_filter, decide_eq_true_eq, mem_ghostKeys]
    constructor
    · rintro ⟨hmem, hnot⟩
      exact ⟨hmem, fun hnone => hnot ⟨hreply.mem_iff.mpr hmem, hnone⟩⟩
    · rintro ⟨hmem, hsome⟩
      exact ⟨hmem, fun hc => hsome hc.2⟩
  refine ⟨_, a, _, ?_, hloaded, ⟨hkeys, ?_⟩, hmembers, hvalues⟩
  · rw [CApplicationDL.applicationGet, ha]
    rfl
  · intro name hmem bytes hget
    obtain ⟨hmem, hsome⟩ := (hmembers name).mp hmem
    obtain ⟨bytes', hbytes⟩ := Option.ne_none_iff_exists'.mp hsome
    obtain ⟨key, val, hholds⟩ := h.records name hmem bytes' hbytes
    have hne : name ≠ appkey := hholds.name ▸ nameIn_ne appkey key
    rw [Keyspace.get, hvalues name hne, ← Keyspace.get, hbytes] at hget
    cases hget
    exact ⟨key, val, hholds⟩

end IspSession.Analysis
