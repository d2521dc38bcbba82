import IspSession.Analysis.ApplicationCalls
import IspSession.Analysis.VariableCalls
import IspSession.Library.Runs
import IspSession.Model.LocaleMap
import Mathlib.Data.List.Find

/-!
# Variables under changing locales

A tree that was built under one locale is searched under another. As long as the locales
order the keys that are in play alike, it stays sorted, and calls find what they should.
Where they do not, a variable can be out of reach. Keys with a zero in them are left out: two
of them can be one variable.

The maps of the model do what the calls do here (`mapCall_of_perform`, `mapCall_of_page`).
-/

set_option autoImplicit false

namespace IspSession.Analysis

open IspSession.Library IspSession.Model

variable {ν : Type}

/-! ## One call -/

section Call

variable {loc : Collation}

/-- INTERNAL: what is found after an item was added and changed. -/
theorem find_added (m : OrderedMap loc.compare ν) (k key : Bstr) (fresh : ν) (change : ν → ν) :
    ((m.insert k fresh).modify k change).find key =
      if loc.compare key k = .eq then some (change ((m.find key).getD fresh))
      else m.find key := by
  rw [OrderedMap.find_modify, OrderedMap.find_insert]
  by_cases hk : loc.compare key k = .eq
  · simp only [if_pos hk]
    cases m.find key <;> rfl
  · simp only [if_neg hk, Option.or_none]

/-- What is found after a call is what is expected after it. -/
theorem find_onMap (c : MapCall ν) (m : OrderedMap loc.compare ν) (key : Bstr) :
    (c.onMap m).find key = c.expects loc m.find key := by
  cases c with
  | clear => rfl
  | insert k item => exact m.find_insert k key item
  | load k fresh change =>
    rw [MapCall.onMap, find_added, MapCall.expects]
  | put k fresh change =>
    rw [MapCall.onMap, find_added, MapCall.expects]
  | get k change => exact m.find_modify k key change
  | remove k => exact m.find_erase k key

/-- A call adds no key but the one it names. -/
theorem mem_onMap {c : MapCall ν} {m : OrderedMap loc.compare ν} {e : Bstr × ν}
    (h : e ∈ (c.onMap m).entries) : c.key = some e.1 ∨ ∃ v, (e.1, v) ∈ m.entries := by
  have hmodify : ∀ {m : OrderedMap loc.compare ν} {k : Bstr} {f : ν → ν},
      e ∈ (m.modify k f).entries → ∃ v, (e.1, v) ∈ m.entries := by
    intro m k f he
    obtain ⟨e', he', heq⟩ := List.mem_map.mp he
    refine ⟨e'.2, ?_⟩
    have hfst : e'.1 = e.1 := by
      rw [← heq]
      split <;> rfl
    rw [← hfst]
    exact he'
  have hinsert : ∀ {k : Bstr} {item v : ν}, (e.1, v) ∈ (m.insert k item).entries →
      some k = some e.1 ∨ ∃ v, (e.1, v) ∈ m.entries := by
    intro k item v he
    rcases OrderedMap.mem_insertEntry he with heq | he
    · exact .inl (congrArg some (congrArg Prod.fst heq).symm)
    · exact .inr ⟨v, he⟩
  cases c with
  | clear => cases h
  | insert k item => exact hinsert (v := e.2) h
  | load k fresh change =>
    obtain ⟨v, he⟩ := hmodify h
    exact hinsert he
  | put k fresh change =>
    obtain ⟨v, he⟩ := hmodify h
    exact hinsert he
  | get k change => exact .inr (hmodify h)
  | remove k => exact .inr ⟨e.2, (List.mem_filter.mp h).1⟩

/-- INTERNAL: what was added is found. -/
theorem isSome_find_insert (m : OrderedMap loc.compare ν) (k : Bstr) (fresh : ν) :
    ((m.insert k fresh).find k).isSome := by
  rw [OrderedMap.find_insert, if_pos Std.ReflCmp.compare_self]
  cases m.find k <;> rfl

/-- **A call on a tree that shows a map does to it what it does to the map.** -/
theorem shows_onTree {t : SearchTree Bstr ν} {m : OrderedMap loc.compare ν} (h : t.Shows m)
    (b : Balancing ν) (c : MapCall ν) :
    ∃ t', c.onTree b loc t = .ok t' ∧ t'.Shows (c.onMap m) := by
  have hbalanced : ∀ {t : SearchTree Bstr ν} {m : OrderedMap loc.compare ν}, t.Shows m →
      (b.run t).Shows m := fun h => (b.entries_run _).trans h
  cases c with
  | clear => exact ⟨_, rfl, rfl⟩
  | insert k item => exact ⟨_, rfl, hbalanced (h.insert k item)⟩
  | load k fresh change =>
    have hadded := hbalanced (h.insert k fresh)
    refine ⟨_, ?_, hadded.change k change⟩
    rw [MapCall.onTree, hadded.find, if_pos (isSome_find_insert m k fresh)]
    rfl
  | put k fresh change =>
    have hadded : SearchTree.Shows (if (t.find loc.compare k).isSome then t
        else b.run (t.insert loc.compare k fresh)) (m.insert k fresh) := by
      rw [h.find]
      cases hfind : m.find k with
      | none => exact hbalanced (h.insert k fresh)
      | some v =>
        rw [OrderedMap.insert_of_find fresh hfind]
        exact h
    refine ⟨_, ?_, hadded.change k change⟩
    rw [MapCall.onTree, hadded.find, if_pos (isSome_find_insert m k fresh)]
    rfl
  | get k change => exact ⟨_, rfl, h.change k change⟩
  | remove k => exact ⟨_, rfl, hbalanced (h.erase k)⟩

end Call

/-! ## The invariant -/

/-- The tree shows a map of the keys that were named, of which none has a zero, and the map
holds what is expected under each of them. -/
structure Tracks {loc : Collation} (m : OrderedMap loc.compare ν) (tree : SearchTree Bstr ν)
    (named : List Bstr) (expected : Bstr → Option ν) : Prop where
  shows : tree.Shows m
  known : ∀ e ∈ m.entries, e.1 ∈ named
  zeroless : ∀ key ∈ named, lpcolestr key = key
  finds : ∀ key ∈ named, m.find key = expected key

/-- **The invariant**: there is such a map, ordered by the locale of the thread. -/
def Reachable (σ : LocaleMap ν) : Prop :=
  ∃ m : OrderedMap σ.loc.compare ν, Tracks m σ.tree σ.named σ.expected

/-- **What is claimed of a state**: under each key that was named, a call finds what was last
put, nothing where it was removed or never put, and no key occurs twice. -/
structure Found (σ : LocaleMap ν) : Prop where
  found : ∀ key ∈ σ.named, σ.tree.find σ.loc.compare (lpcolestr key) = σ.expected key
  once : σ.tree.entries.Pairwise fun a b => σ.loc.compare a.1 b.1 ≠ .eq

/-- The invariant implies it. -/
theorem Reachable.found {σ : LocaleMap ν} (h : Reachable σ) : Found σ := by
  obtain ⟨m, hm⟩ := h
  refine ⟨fun key hkey => ?_, ?_⟩
  · rw [hm.zeroless key hkey]
    exact (hm.shows.find key).trans (hm.finds key hkey)
  refine hm.shows.sorted.imp fun {a b} hlt => ?_
  rw [hlt]
  simp

/-- The condition on a step: a locale that is set orders the keys that were named as the
locale before it does, and the key of a call has no zero. -/
def LocaleFits (σ : LocaleMap ν) : LocaleEvent ν → Prop
  | .setThreadLocale loc =>
    ∀ a ∈ σ.named, ∀ b ∈ σ.named, loc.compare a b = σ.loc.compare a b
  | .call _ c => ∀ key ∈ c.key, lpcolestr key = key

instance (σ : LocaleMap ν) (event : LocaleEvent ν) : Decidable (LocaleFits σ event) := by
  cases event <;> dsimp only [LocaleFits] <;> infer_instance

/-- INTERNAL: a call whose key has no zero is looked up by it. -/
theorem lookedUp_eq {c : MapCall ν} (h : ∀ key ∈ c.key, lpcolestr key = key) :
    c.lookedUp = c := by
  cases c with
  | put key fresh change => rw [MapCall.lookedUp, h key rfl]
  | get key change => rw [MapCall.lookedUp, h key rfl]
  | remove key => rw [MapCall.lookedUp, h key rfl]
  | _ => rfl

/-- INTERNAL: noting a key. -/
theorem Tracks.note {σ : LocaleMap ν} {m : OrderedMap σ.loc.compare ν}
    (h : Tracks m σ.tree σ.named σ.expected) {key : Bstr} (hzero : lpcolestr key = key) :
    (σ.note key).loc = σ.loc ∧ key ∈ (σ.note key).named ∧
      Tracks m σ.tree (σ.note key).named (σ.note key).expected := by
  unfold LocaleMap.note
  split
  · rename_i hkey
    exact ⟨rfl, hkey, h⟩
  · rename_i hkey
    refine ⟨rfl, by simp, h.shows, fun e he => List.mem_cons_of_mem _ (h.known e he),
      List.forall_mem_cons.mpr ⟨hzero, h.zeroless⟩, ?_⟩
    intro key' hkey'
    dsimp only
    rcases List.mem_cons.mp hkey' with rfl | hold
    · rw [Function.update_self]
      cases hequal : σ.named.find? fun k => σ.loc.compare key' k == .eq with
      | some k =>
        have heq : σ.loc.compare key' k = .eq := by simpa using List.find?_some hequal
        rw [m.find_congr heq, h.finds k (List.mem_of_find?_eq_some hequal)]
        rfl
      | none =>
        rw [List.find?_eq_none] at hequal
        show m.find key' = none
        rw [OrderedMap.find, Option.map_eq_none_iff, List.find?_eq_none]
        exact fun e he => hequal e.1 (h.known e he)
    · rw [Function.update_of_ne fun heq : key' = key => hkey (heq ▸ hold)]
      exact h.finds key' hold

/-- INTERNAL: a call. -/
theorem Reachable.call {σ : LocaleMap ν} (h : Reachable σ) (b : Balancing ν) {c : MapCall ν}
    (hzero : ∀ key ∈ c.key, lpcolestr key = key) :
    ∃ σ', σ.step (.call b c) = .ok σ' ∧ Reachable σ' := by
  obtain ⟨m, hm⟩ := h
  have hnoted : (σ.noteCall c).loc = σ.loc ∧ (∀ key, c.key = some key → key ∈ (σ.noteCall c).named) ∧
      Tracks m σ.tree (σ.noteCall c).named (σ.noteCall c).expected := by
    unfold LocaleMap.noteCall
    cases hkey : c.key with
    | none => exact ⟨rfl, fun key h => (by cases h), hm⟩
    | some key =>
      obtain ⟨hloc, hmem, htracks⟩ := hm.note (hzero key hkey)
      exact ⟨hloc, fun key' h => Option.some.inj h ▸ hmem, htracks⟩
  obtain ⟨hloc, hmem, htracks⟩ := hnoted
  obtain ⟨t, ht, hshows⟩ := shows_onTree hm.shows b c
  refine ⟨{ σ.noteCall c with
    tree := t, expected := c.expects (σ.noteCall c).loc (σ.noteCall c).expected }, ?_, ?_⟩
  · rw [LocaleMap.step, lookedUp_eq hzero, ht]
    rfl
  · rw [Reachable]
    dsimp only
    rw [hloc]
    refine ⟨c.onMap m, hshows, fun e he => ?_, htracks.zeroless, fun key hkey => ?_⟩
    · rcases mem_onMap he with hnew | ⟨v, hold⟩
      · exact hmem e.1 hnew
      · exact htracks.known (e.1, v) hold
    · have hexpected := htracks.finds key hkey
      rw [find_onMap]
      cases c <;> simp only [MapCall.expects, hexpected]

/-- INTERNAL: a locale that orders the keys alike. -/
theorem Reachable.setThreadLocale {σ : LocaleMap ν} (h : Reachable σ) {loc : Collation}
    (hfits : LocaleFits σ (.setThreadLocale loc)) : Reachable { σ with loc } := by
  obtain ⟨m, hm⟩ := h
  have hsorted : m.entries.Pairwise fun a b => loc.compare a.1 b.1 = .lt := by
    refine m.sorted.imp_of_mem fun {a b} ha hb hlt => ?_
    rw [hfits a.1 (hm.known a ha) b.1 (hm.known b hb), hlt]
  refine ⟨⟨m.entries, hsorted⟩, hm.shows, hm.known, hm.zeroless, fun key hkey => ?_⟩
  rw [← hm.finds key hkey, OrderedMap.find, OrderedMap.find]
  refine congrArg _ (List.find?_congr fun e he => ?_)
  rw [hfits key hkey e.1 (hm.known e he)]

/-- **Every variable stays in reach** in a run in which every locale that is set orders the
keys in play as the one before it. -/
theorem found_of_run (loc : Collation) {events : List (LocaleEvent ν)}
    (hfits : Runs.Meets LocaleMap.step LocaleFits events (.start loc)) :
    ∃ σ, Runs.run LocaleMap.step events (.start loc) = .ok σ ∧ Found σ := by
  have hstart : Reachable (.start loc : LocaleMap ν) :=
    ⟨.empty, rfl, fun e he => (by cases he), fun key hkey => (by cases hkey),
      fun key hkey => by cases hkey⟩
  obtain ⟨σ, hrun, hreachable⟩ := Runs.run_total Reachable
    (fun σ event hσ hok => by
      cases event with
      | setThreadLocale loc => exact ⟨_, rfl, hσ.setThreadLocale hok⟩
      | call b c => exact hσ.call b hok)
    hstart hfits
  exact ⟨σ, hrun, hreachable.found⟩

/-! ## The calls on the dictionaries -/

section Dictionaries

variable {loc : Collation}

/-- The map is left as it is, or changed by a call that names the key. -/
def ByCall (m m' : OrderedMap loc.compare ν) (key : Option Bstr) : Prop :=
  m' = m ∨ ∃ c : MapCall ν, c.key = key ∧ m' = c.lookedUp.onMap m

/-- The key that a call on the session dictionary names. -/
def callKey : VariantDictionary.Call → Option Bstr
  | .getItem varKey => some varKey.keycopy
  | .getExists key => some key
  | .getKey _ | .putReadonly _ => none
  | .mutate (.putItem key _ _) | .mutate (.putrefItem key _) | .mutate (.remove key) => some key
  | .mutate .removeAll => none

/-- INTERNAL: a put. -/
theorem byCall_stores {d d' : VariantDictionary loc} {key : Bstr} {stored : Option Variant}
    (h : Stores d d' (lpcolestr key) stored) :
    ByCall d.dictionary d'.dictionary (some key) := by
  obtain ⟨-, -, hd⟩ := h
  cases stored with
  | none => exact .inr ⟨.put key .empty fun v => v, rfl, hd.trans OrderedMap.modify_id.symm⟩
  | some v =>
    refine .inr ⟨.put key .empty fun _ => v, rfl, hd.trans ?_⟩
    exact (OrderedMap.assign_insert _ _ _ _).symm

/-- **The calls on the session dictionary are calls on its map.** -/
theorem mapCall_of_perform {oleLoad : List UInt8 → Option ComObject}
    {d d' : VariantDictionary loc} {call : VariantDictionary.Call}
    (h : d.perform oleLoad call = .ok d') :
    ByCall d.dictionary d'.dictionary (callKey call) := by
  cases call with
  | getItem varKey =>
    obtain ⟨⟨hr, v, d₁⟩, hget, h⟩ := Run.bind_eq_ok h
    cases h
    rcases getVariable_leaves hget with rfl | ⟨_, bytes, wrap, -, -, -, -, rfl⟩
    · exact .inl rfl
    · exact .inr ⟨.get varKey.keycopy fun _ => loadedFrom oleLoad wrap bytes, rfl, rfl⟩
  | getExists key =>
    cases h
    exact .inl rfl
  | getKey keyIndex =>
    cases h
    exact .inl rfl
  | putReadonly newVal =>
    cases h
    exact .inl rfl
  | mutate m =>
    by_cases hro : d.readOnly = true
    · cases m with
      | putItem key newVal defaults =>
        obtain ⟨⟨hr, d₁⟩, hput, h⟩ := Run.bind_eq_ok h
        cases h
        rw [VariantDictionary.putItem, if_pos hro] at hput
        cases hput
        exact .inl rfl
      | putrefItem key newVal =>
        obtain ⟨⟨hr, d₁⟩, hput, h⟩ := Run.bind_eq_ok h
        cases h
        rw [VariantDictionary.putrefItem, if_pos hro] at hput
        cases hput
        exact .inl rfl
      | remove key =>
        cases h
        exact .inr ⟨.remove key, rfl, rfl⟩
      | removeAll =>
        cases h
        exact .inr ⟨.clear, rfl, rfl⟩
    · have hspec := mutate_spec (by simpa using hro) h
      cases m with
      | putItem key newVal defaults => exact byCall_stores hspec
      | putrefItem key newVal =>
        by_cases htag : newVal.vt &&& vtDispatch = vtDispatch ∨ newVal.vt &&& vtUnknown = vtUnknown
        · simp only [puts, if_pos htag] at hspec
          exact byCall_stores hspec
        · simp only [puts, if_neg htag] at hspec
          rw [hspec]
          exact .inl rfl
      | remove key =>
        cases hspec
        exact .inr ⟨.remove key, rfl, rfl⟩
      | removeAll =>
        cases hspec
        exact .inr ⟨.clear, rfl, rfl⟩

/-- INTERNAL: reading a property leaves the map alone. -/
theorem dictionary_readProperty {mem : Memory} {l l' : VariantDictionary.Loading loc}
    {hr : HResult} {name : Bstr} {v : Variant}
    (h : VariantDictionary.readProperty mem l = .ok (hr, name, v, l')) :
    l'.d.dictionary = l.d.dictionary := by
  unfold VariantDictionary.readProperty at h
  obtain ⟨⟨hr₁, name₁, c₁⟩, -, h⟩ := Run.bind_eq_ok h
  dsimp only at h
  split at h
  · obtain ⟨⟨hr₂, v₂, c₂⟩, -, h⟩ := Run.bind_eq_ok h
    cases h
    rfl
  · cases h
    rfl

/-- INTERNAL: the loop of `LocalLoad` inserts items. -/
theorem dictionary_loadProperties {mem : Memory} (n : ℕ) {hr hr' : HResult}
    {l l' : VariantDictionary.Loading loc}
    (h : VariantDictionary.loadProperties mem n hr l = .ok (hr', l')) :
    ∃ items : List (Bstr × Variant),
      l'.d.dictionary = items.foldl (fun m e => m.insert e.1 e.2) l.d.dictionary := by
  induction n generalizing hr l with
  | zero =>
    cases h
    exact ⟨[], rfl⟩
  | succ n ih =>
    rw [VariantDictionary.loadProperties] at h
    split at h
    · obtain ⟨⟨hr₁, key, v, l₁⟩, hread, h⟩ := Run.bind_eq_ok h
      obtain ⟨hrCopy, -, h⟩ := Run.bind_eq_ok h
      have hsame := dictionary_readProperty hread
      dsimp only at h
      split at h
      · obtain ⟨items, hitems⟩ := ih h
        exact ⟨items, by rw [hitems, hsame]⟩
      · obtain ⟨items, hitems⟩ := ih h
        exact ⟨(key, v) :: items, by rw [hitems, List.foldl_cons, hsame]⟩
    · cases h
      exact ⟨[], rfl⟩

/-- **`LocalLoad` is a clearing and insertions**, or leaves the map as it is. -/
theorem mapCalls_of_localLoad {mem : Memory} {d d' : VariantDictionary loc}
    {pStream pStream' : Option CStream} {lSize : ℕ} {hr : HResult}
    (h : d.localLoad mem pStream lSize = .ok (hr, d', pStream')) :
    d'.dictionary = d.dictionary ∨ ∃ items : List (Bstr × Variant),
      d'.dictionary = (.clear :: items.map fun e => .insert e.1 e.2).foldl MapCall.onMap
        d.dictionary := by
  unfold VariantDictionary.localLoad at h
  split at h
  · cases h
    exact .inl rfl
  · split at h
    · cases h
      exact .inl rfl
    · obtain ⟨⟨hr₁, name, v, l⟩, hread, h⟩ := Run.bind_eq_ok h
      dsimp only at h
      split at h
      · cases h
        exact .inl (dictionary_readProperty hread)
      · split at h
        · cases h
          exact .inl (dictionary_readProperty hread)
        · obtain ⟨⟨hr₂, l₂⟩, hloop, h⟩ := Run.bind_eq_ok h
          cases h
          obtain ⟨items, hitems⟩ := dictionary_loadProperties _ hloop
          refine .inr ⟨items, hitems.trans ?_⟩
          rw [List.foldl_cons, List.foldl_map]
          rfl

/-- INTERNAL: `update` is a change of the map. -/
theorem dictionary_update (a : CApplication loc) (key : Bstr) (f : ElementModel → ElementModel) :
    (a.update key f).dictionary = a.dictionary.modify key f := by
  unfold CApplication.update
  cases hfind : a.find key with
  | none => exact (OrderedMap.modify_of_find_none f hfind).symm
  | some element =>
    refine (OrderedMap.modify_congr (g := fun _ => f element) fun v hv => ?_).symm
    rw [CApplication.find] at hfind
    rw [hfind, Option.some.injEq] at hv
    rw [hv]

/-- The key that a call on an application names; a record names the key that is in it. -/
def pageKey : CApplication.Call → Option Bstr
  | .getValue key | .putValue key _ _ | .putrefValue key _ | .remove key | .expireKeyAt key _
  | .serializeKey key _ => some key
  | .removeAll | .deserializeKey _ => none

/-- INTERNAL: an element that is added, and changed. -/
theorem byCall_added (a : CApplication loc) (key : Bstr) (element : ElementModel)
    (f : ElementModel → ElementModel) :
    ByCall a.dictionary
      ((a.insert (lpcolestr key) element).update (lpcolestr key) f).dictionary (some key) :=
  .inr ⟨.put key element f, rfl, dictionary_update ..⟩

/-- INTERNAL: an element that is loaded over the one that is there. -/
theorem byCall_loaded (a : CApplication loc) (key : Bstr) (element : ElementModel)
    (f : ElementModel → ElementModel) :
    ByCall a.dictionary ((a.insert key element).update key f).dictionary (some key) :=
  .inr ⟨.load key element f, rfl, dictionary_update ..⟩

/-- INTERNAL: an element that is changed. -/
theorem byCall_update (a : CApplication loc) (key : Bstr) (f : ElementModel → ElementModel) :
    ByCall a.dictionary (a.update (lpcolestr key) f).dictionary (some key) :=
  .inr ⟨.get key f, rfl, dictionary_update ..⟩

/-- **The calls on an application are calls on its map.** -/
theorem mapCall_of_page {mem : Memory} {oleLoad : Bytes → Option ComObject}
    {a a' : CApplication loc} {call : CApplication.Call}
    (h : a.perform mem oleLoad call = .ok a') :
    ∃ key, (∀ named, pageKey call = some named → key = some named) ∧
      ByCall a.dictionary a'.dictionary key := by
  cases call with
  | getValue key =>
    obtain ⟨⟨hr, v, a₁⟩, hget, h⟩ := Run.bind_eq_ok h
    cases h
    refine ⟨some key, fun named h => h, ?_⟩
    rcases getValue_spec hget with rfl | ⟨_, _, _, -, -, -, -, rfl⟩
    · exact .inl rfl
    · exact byCall_update ..
  | putValue key newVal defaults =>
    obtain ⟨⟨hr, a₁⟩, hput, h⟩ := Run.bind_eq_ok h
    cases h
    refine ⟨some key, fun named h => h, ?_⟩
    by_cases hkey : key = []
    · rw [CApplication.putValue.eq_def, if_pos hkey] at hput
      cases hput
      exact .inl rfl
    · rw [putValue_spec hkey hput, CApplication.touch]
      split
      · exact byCall_added ..
      · split
        · exact byCall_update ..
        · rw [CApplication.update_update]
          exact byCall_update ..
  | putrefValue key newVal =>
    obtain ⟨⟨hr, a₁⟩, hput, h⟩ := Run.bind_eq_ok h
    cases h
    refine ⟨some key, fun named h => h, ?_⟩
    rw [putrefValue_spec hput]
    split
    · rw [CApplication.touchRef]
      split
      · exact byCall_added ..
      · rw [CApplication.update_update]
        exact byCall_update ..
    · exact .inl rfl
  | remove key =>
    cases h
    refine ⟨some key, fun named h => h, ?_⟩
    unfold CApplication.remove
    split
    · exact .inl rfl
    · split
      · exact .inl rfl
      · exact .inr ⟨.remove key, rfl, rfl⟩
  | removeAll =>
    cases h
    exact ⟨none, fun named h => (by cases h), .inr ⟨.clear, rfl, rfl⟩⟩
  | expireKeyAt key ms =>
    cases h
    exact ⟨some key, fun named h => h, byCall_update ..⟩
  | serializeKey key stream =>
    obtain ⟨⟨hr, stream', a₁⟩, hwrite, h⟩ := Run.bind_eq_ok h
    cases h
    refine ⟨some key, fun named h => h, ?_⟩
    obtain ⟨b, rfl | ⟨-, rfl⟩⟩ := serializeKey_leaves hwrite
    · exact .inl rfl
    · exact byCall_update ..
  | deserializeKey binaryString =>
    obtain ⟨⟨hr, a₁⟩, hread, h⟩ := Run.bind_eq_ok h
    cases h
    obtain ⟨hrKey, key, c, -, b, ⟨-, rfl⟩ | ⟨val, -, -, -, rfl⟩⟩ := deserializeKey_leaves hread
    · exact ⟨some (key.getD []), fun named h => (by cases h), .inl rfl⟩
    · exact ⟨some (key.getD []), fun named h => (by cases h), byCall_loaded ..⟩

end Dictionaries

/-! ## Two locales -/

/-- The place of a letter in an alphabet in which `z` comes before `t`. -/
def zBeforeT (c : UInt16) : ℕ := if c = 122 then 2 * 115 + 1 else 2 * c.toNat

/-- A locale with that alphabet. -/
def zBeforeTLocale : Collation where
  compare a b := List.compareLex Ord.compare (a.map zBeforeT) (b.map zBeforeT)
  sameText a b := a == b
  equalText a b := a == b
  compare_trans :=
    { eq_swap := Std.OrientedCmp.eq_swap
      isLE_trans := Std.TransCmp.isLE_trans }
  sameText_refl := Bstr.beq_refl
  equalText_refl := Bstr.beq_refl
  sameText_empty_jagged := Bstr.nil_beq_jagged

/-- Putting a number. -/
def putsUnder (key : String) (n : BitVec (8 * ScalarType.i4.size)) : LocaleEvent Variant :=
  .call (.none Variant) (.put (Bstr.ofString key) .empty fun _ => .scalar .i4 n)

/-- Two variables that both locales order alike, and a third one. -/
def inOrder : List (LocaleEvent Variant) :=
  [putsUnder "a" 7, putsUnder "b" 8, .setThreadLocale zBeforeTLocale, putsUnder "c" 9]

/-- All three stay in reach. -/
theorem inOrder_found :
    ∃ σ, Runs.run LocaleMap.step inOrder (.start .ordinal) = .ok σ ∧ Found σ :=
  found_of_run .ordinal (by decide +kernel)

/-- Two variables that the locales order differently. -/
def outOfOrder : List (LocaleEvent Variant) :=
  [putsUnder "t" 7, putsUnder "z" 8, .setThreadLocale zBeforeTLocale]

/-- **A variable is out of reach once the locale has changed**, and putting it again makes it
occur twice. -/
theorem outOfOrder_not_found :
    (∃ σ, Runs.run LocaleMap.step outOfOrder (.start .ordinal) = .ok σ ∧ ¬ Found σ) ∧
    ∃ σ, Runs.run LocaleMap.step (outOfOrder ++ [putsUnder "z" 9]) (.start .ordinal) = .ok σ ∧
      ((σ.tree.entries.map Prod.fst).count (Bstr.ofString "z") = 2 ∧ ¬ Found σ) := by
  constructor
  · have hend : (Runs.run LocaleMap.step outOfOrder (.start .ordinal)).toOption.map (fun σ =>
        (decide (Bstr.ofString "z" ∈ σ.named),
          (σ.tree.find σ.loc.compare (lpcolestr (Bstr.ofString "z"))).isSome,
          (σ.expected (Bstr.ofString "z")).isSome)) = some (true, false, true) := by
      decide +kernel
    obtain ⟨σ, hσ, hend⟩ := Option.map_eq_some_iff.mp hend
    simp only [Prod.mk.injEq, decide_eq_true_eq] at hend
    obtain ⟨hnamed, hlost, hexpected⟩ := hend
    refine ⟨σ, Run.eq_ok_of_toOption hσ, fun h => ?_⟩
    rw [h.found _ hnamed, hexpected] at hlost
    cases hlost
  · have hend : (Runs.run LocaleMap.step (outOfOrder ++ [putsUnder "z" 9])
        (.start .ordinal)).toOption.map (fun σ => (σ.tree.entries.map Prod.fst,
          decide (σ.tree.entries.Pairwise fun a b => σ.loc.compare a.1 b.1 ≠ .eq))) =
        some ([Bstr.ofString "z", Bstr.ofString "t", Bstr.ofString "z"], false) := by
      decide +kernel
    obtain ⟨σ, hσ, hend⟩ := Option.map_eq_some_iff.mp hend
    simp only [Prod.mk.injEq, decide_eq_false_iff_not] at hend
    obtain ⟨hkeys, htwice⟩ := hend
    refine ⟨σ, Run.eq_ok_of_toOption hσ, ?_, fun h => htwice h.once⟩
    rw [hkeys]
    decide

end IspSession.Analysis
