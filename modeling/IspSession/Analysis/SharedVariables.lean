import IspSession.Analysis.GhostCleanup
import IspSession.Analysis.SaveThenLoad

/-!
# The variables of an application are shared one by one

Requests on an application run at the same time, and each of them saves only what it has changed.
So a variable is a shared variable of its own: a request finds it as it was when the request asked
for the keys or for the values, works on a copy, and a commit writes the copy when the request has
changed it. `variables_shared`: in every run whose steps fit, whatever the requests do to the other
variables, the application refines this, one variable at a time.
-/

set_option autoImplicit false

namespace IspSession.Analysis

open IspSession.Library IspSession.Model ApplicationSystem

variable {loc : Collation}

/-! ## Saving what is not dirty -/

/-- **`PersistApplication` leaves Redis as `ApplicationSave` would**: an application that is not
dirty has nothing to send. -/
theorem persistApplication_store (cp : CodePage) (mem : Memory) (appkey : Bytes) (s : Keyspace)
    (a : CApplication loc) :
    (CApplicationDL.persistApplication cp mem appkey s a).map Prod.fst =
      (CApplicationDL.applicationSave cp mem appkey s a).map Prod.fst := by
  unfold CApplicationDL.persistApplication
  split
  · rfl
  · rename_i hclean
    unfold CApplicationDL.isDirty at hclean
    split at hclean
    · exact absurd rfl hclean
    · rename_i hremoved
      rw [not_not] at hremoved
      have hnone : ∀ e ∈ a.dictionary.entries, e.2.isDirty = false ∧ e.2.isNew = false ∧
          ¬ (0 : ℤ) < e.2.expireAt := by
        intro e he
        have hall := List.any_eq_false.mp (Bool.eq_false_iff.mpr hclean) e he
        simpa [not_or, and_assoc] using hall
      have hempty : ∀ p : ElementModel → Bool, (∀ e ∈ a.dictionary.entries, p e.2 = false) →
          ((a.dictionary.entries.map fun e => (utf16ToUtf8 e.1, e.2)).filter
            fun e => decide (e.1 ≠ [])).filter (fun e => p e.2) = [] := by
        intro p hp
        rw [List.filter_eq_nil_iff]
        intro e he
        obtain ⟨e', he', rfl⟩ := List.mem_map.mp (List.mem_of_mem_filter he)
        rw [hp e' he']
        exact Bool.false_ne_true
      have hnew := hempty (fun e => e.isNew) fun e he => (hnone e he).2.1
      have hchanged := hempty (fun e => !e.isNew && e.isDirty) fun e he => by
        rw [(hnone e he).1, Bool.and_false]
      have hexpire := hempty (fun e => decide ((0 : ℤ) < e.expireAt)) fun e he =>
        decide_eq_false (hnone e he).2.2
      have hstates : a.keyStates.newKeys = [] ∧ a.keyStates.changedKeys = [] ∧
          a.keyStates.expireKeys = [] ∧ a.keyStates.removedKeys = [] := by
        unfold CApplication.keyStates
        dsimp only
        rw [hnew, hchanged, hexpire, hremoved]
        exact ⟨rfl, rfl, rfl, rfl⟩
      obtain ⟨h₁, h₂, h₃, h₄⟩ := hstates
      unfold CApplicationDL.applicationSave
      dsimp only
      rw [h₁, h₂, CApplication.serializeKeys]
      simp only [Run.pure_eq, Run.ok_bind, CApplication.serializeKeys]
      unfold CApplicationDL.saveCommands
      rw [h₁, h₂, h₃, h₄]
      rfl

/-! ## What a request does to a variable -/

/-- A call that a page makes in order: it returns, keys are texts of ASCII characters, `put_Value`
stores data and `putref_Value` an object that saves itself, and an object that is loaded is the one
that was saved. -/
def CallFits (mem : Memory) (oleLoad : Bytes → Option ComObject) (a : CApplication loc)
    (call : CApplication.Call) : Prop :=
  (∃ a', a.perform mem oleLoad call = .ok a') ∧
    match call with
    | .putValue key newVal defaults => GoodKey key ∧
        ∃ v, storedValue newVal defaults = some v ∧ Storeable v ∧ holdsLive v = false
    | .putrefValue key newVal => GoodKey key ∧ TakenForObject newVal ∧
        ∃ v, storedReference newVal = some v ∧ Storeable v
    | .remove key => GoodKey key
    | .getValue key => ∀ element bytes, a.find (lpcolestr key) = some element →
        element.isSerialized = true →
        element.val = .unknown (.packed bytes) ∨ element.val = .dispatch (.packed bytes) →
        oleLoad bytes = some (.live true (some bytes))
    | .removeAll | .expireKeyAt _ _ => True
    | .serializeKey _ _ | .deserializeKey _ => False

/-- An application at work: the codec can save all of it, and no stream has become an object
without its flag being taken off. -/
structure Workable (a : CApplication loc) : Prop where
  tidy : Tidy a
  value : ∀ key element, a.find key = some element → nullObject element.val = false
  stream : ∀ key element, a.find key = some element → element.isSerialized = true →
    holdsLive element.val = false

/-- INTERNAL: a put leaves an application at work. -/
theorem Workable.put {a a' : CApplication loc} (h : Workable a) (htidy : Tidy a') {key : Bstr}
    {element : ElementModel} {v : Variant} (hput : PutLeaves a a' key (withStored (some v) element))
    (hv : Storeable v) (hlive : element.isSerialized = true → holdsLive v = false) : Workable a' := by
  refine ⟨htidy, fun key' el hfind => ?_, fun key' el hfind hflag => ?_⟩
  · rw [hput.find] at hfind
    split at hfind
    · cases hfind
      exact hv.not_null
    · exact h.value key' el hfind
  · rw [hput.find] at hfind
    split at hfind
    · cases hfind
      exact hlive hflag
    · exact h.stream key' el hfind hflag

/-- INTERNAL: an application with some of the elements. -/
theorem Workable.sub {a a' : CApplication loc} (h : Workable a) (htidy : Tidy a')
    (hsub : ∀ key element, a'.find key = some element → a.find key = some element) :
    Workable a' where
  tidy := htidy
  value := fun key element hfind => h.value key element (hsub key element hfind)
  stream := fun key element hfind => h.stream key element (hsub key element hfind)

/-- The request has changed the variable: its element is new or dirty, or its key is noted as
removed. -/
def Marked (appkey : Bytes) (key : Bstr) (a : CApplication loc) : Prop :=
  (∃ element, a.find key = some element ∧ (element.isNew = true ∨ element.isDirty = true)) ∨
    nameIn appkey key ∈ removedNames appkey a

/-- The copy of a variable that a request works on, and whether the request has changed it. -/
structure Copies (appkey : Bytes) (key : Bstr) (a : CApplication loc) (value : Option Variant)
    (changed : Bool) : Prop where
  value : (a.find key).map (fun element => persisted element.val) = value
  changed : changed = true ↔ Marked appkey key a
  /-- A key that has been removed is there as a new one only. -/
  back : nameIn appkey key ∈ removedNames appkey a → ∀ element, a.find key = some element →
    element.isNew = true

/-- What a call does to a variable. -/
def onVariable (loc : Collation) (key : Bstr) (call : CApplication.Call) (value : Option Variant) :
    Option Variant :=
  match call with
  | .putValue key' newVal defaults =>
    if loc.compare key key' = .eq then (storedValue newVal defaults).map persisted else value
  | .putrefValue key' newVal =>
    if loc.compare key key' = .eq then (storedReference newVal).map persisted else value
  | .remove key' => if loc.compare key key' = .eq then none else value
  | .removeAll => none
  | .getValue _ | .expireKeyAt _ _ | .serializeKey _ _ | .deserializeKey _ => value

/-- The call changes the variable. -/
def changes (loc : Collation) (key : Bstr) (call : CApplication.Call) (value : Option Variant) :
    Bool :=
  match call with
  | .putValue key' _ _ | .putrefValue key' _ => loc.compare key key' == .eq
  | .remove key' => loc.compare key key' == .eq && value.isSome
  | .removeAll => value.isSome
  | .getValue _ | .expireKeyAt _ _ | .serializeKey _ _ | .deserializeKey _ => false

/-- INTERNAL: an element that a put has touched is written, and stays new. -/
theorem marks_touched {before : Option ElementModel} {element : ElementModel}
    (h : element = touched before ∨ element = touchedRef before) :
    (element.isNew = true ∨ element.isDirty = true) ∧
      ((∀ old, before = some old → old.isNew = true) → element.isNew = true) := by
  cases before with
  | none => rcases h with rfl | rfl <;> exact ⟨.inl rfl, fun _ => rfl⟩
  | some old =>
    rcases h with rfl | rfl
    · dsimp only [touched]
      split
      · rename_i hnew
        exact ⟨.inl hnew, fun _ => hnew⟩
      · exact ⟨.inr rfl, fun hall => hall old rfl⟩
    · exact ⟨.inr rfl, fun hall => hall old rfl⟩

section Call

variable {appkey : Bytes} {key key' : Bstr} {a a' : CApplication loc} {value : Option Variant}
  {changed : Bool}

/-- INTERNAL: a put. -/
theorem Copies.put (h : Copies appkey key a value changed) {element : ElementModel} {v : Variant}
    (hput : PutLeaves a a' key' (withStored (some v) element))
    (htouched : element = touched (a.find key') ∨ element = touchedRef (a.find key')) :
    Copies appkey key a' (if loc.compare key key' = .eq then some (persisted v) else value)
      (changed || loc.compare key key' == .eq) := by
  obtain ⟨hmarks, hnew⟩ := marks_touched htouched
  have hnames : removedNames appkey a' = removedNames appkey a := by
    rw [removedNames, hput.removed]
    rfl
  by_cases hk : loc.compare key key' = .eq
  · have hfind : a'.find key = some (withStored (some v) element) := by
      rw [hput.find, if_pos hk]
    refine ⟨?_, ?_, fun hback el hel => ?_⟩
    · rw [hfind, if_pos hk]
      rfl
    · rw [hk, beq_self_eq_true, Bool.or_true]
      exact iff_of_true rfl (.inl ⟨_, hfind, hmarks⟩)
    · rw [hfind] at hel
      cases hel
      rw [hnames] at hback
      refine hnew fun old hold => h.back hback old ?_
      exact (a.dictionary.find_congr hk).trans hold
  · have hfind : a'.find key = a.find key := by rw [hput.find, if_neg hk]
    have hmarked : Marked appkey key a' ↔ Marked appkey key a := by
      unfold Marked
      rw [hfind, hnames]
    refine ⟨?_, ?_, fun hback el hel => ?_⟩
    · rw [hfind, if_neg hk]
      exact h.value
    · rw [show (loc.compare key key' == .eq) = false from beq_false_of_ne hk, Bool.or_false, hmarked]
      exact h.changed
    · rw [hnames] at hback
      rw [hfind] at hel
      exact h.back hback el hel

/-- INTERNAL: the texts that are noted as removed. -/
theorem mem_pushRemoved {removed : List Bytes} {text name : Bytes} :
    name ∈ (CApplication.pushRemoved removed text).map (redisKey appkey) ↔
      name ∈ removed.map (redisKey appkey) ∨ name = redisKey appkey text := by
  unfold CApplication.pushRemoved
  split
  · rename_i hmem
    constructor
    · exact .inl
    · rintro (hname | rfl)
      · exact hname
      · exact List.mem_map_of_mem hmem
  · rw [List.map_append, List.mem_append, List.map_singleton, List.mem_singleton]

/-- INTERNAL: `Remove`. -/
theorem Copies.remove (hfolds : FoldsAscii loc) (h : Copies appkey key a value changed)
    (hkey : GoodKey key) (hkey' : GoodKey key') :
    Copies appkey key (a.remove key').2 (if loc.compare key key' = .eq then none else value)
      (changed || (loc.compare key key' == .eq && value.isSome)) := by
  have hname : nameIn appkey key = redisKey appkey (utf16ToUtf8 key') ↔ loc.compare key key' = .eq :=
    nameIn_eq_iff hfolds appkey ⟨hkey.nonzero, hkey.ascii⟩ ⟨hkey'.nonzero, hkey'.ascii⟩
  have hvalue : value.isSome = (a.find key).isSome := by
    rw [← h.value, Option.isSome_map]
  unfold CApplication.remove
  rw [if_neg hkey'.nonempty, hkey'.lpcolestr]
  cases hfind' : a.find key' with
  | none =>
    dsimp only
    by_cases hk : loc.compare key key' = .eq
    · have hnone : a.find key = none := (a.dictionary.find_congr hk).trans hfind'
      have hvalue' : value = none := by
        rw [← h.value, hnone]
        rfl
      rw [hvalue', ite_self, Option.isSome_none, Bool.and_false, Bool.or_false]
      exact hvalue' ▸ h
    · rw [if_neg hk, show (loc.compare key key' == .eq) = false from beq_false_of_ne hk,
        Bool.false_and, Bool.or_false]
      exact h
  | some element =>
    dsimp only
    have hfind : ∀ k, ({ a with
        dictionary := a.dictionary.erase key'
        removed := CApplication.pushRemoved a.removed (utf16ToUtf8 key') } : CApplication loc).find k =
        if loc.compare k key' = .eq then none else a.find k :=
      fun k => a.dictionary.find_erase key' k
    by_cases hk : loc.compare key key' = .eq
    · have hthere : a.find key = some element := (a.dictionary.find_congr hk).trans hfind'
      refine ⟨?_, ?_, fun _ el hel => ?_⟩
      · rw [hfind, if_pos hk, if_pos hk]
        rfl
      · rw [hk, beq_self_eq_true, hvalue, hthere, Option.isSome_some, Bool.and_true, Bool.or_true]
        exact iff_of_true rfl (.inr (mem_pushRemoved.mpr (.inr (hname.mpr hk))))
      · rw [hfind, if_pos hk] at hel
        cases hel
    · rw [if_neg hk, show (loc.compare key key' == .eq) = false from beq_false_of_ne hk,
        Bool.false_and, Bool.or_false]
      have hnames : ∀ removed, nameIn appkey key ∈
          (CApplication.pushRemoved removed (utf16ToUtf8 key')).map (redisKey appkey) ↔
            nameIn appkey key ∈ removed.map (redisKey appkey) := by
        intro removed
        rw [mem_pushRemoved]
        exact or_iff_left fun heq => hk (hname.mp heq)
      refine ⟨?_, ?_, fun hback el hel => ?_⟩
      · rw [hfind, if_neg hk]
        exact h.value
      · rw [h.changed]
        unfold Marked removedNames
        rw [hfind, if_neg hk, hnames]
      · rw [hfind, if_neg hk] at hel
        exact h.back ((hnames _).mp hback) el hel

/-- INTERNAL: `RemoveAll`. -/
theorem Copies.removeAll (hfolds : FoldsAscii loc) (h : Copies appkey key a value changed)
    (htidy : Tidy a) (hkey : GoodKey key) :
    Copies appkey key a.removeAll none (changed || value.isSome) := by
  have hnames : ∀ (keys : List Bstr) (removed : List Bytes),
      nameIn appkey key ∈ (keys.foldl (fun removed k =>
        CApplication.pushRemoved removed (utf16ToUtf8 k)) removed).map (redisKey appkey) ↔
          nameIn appkey key ∈ removed.map (redisKey appkey) ∨
            ∃ k ∈ keys, nameIn appkey key = nameIn appkey k := by
    intro keys
    induction keys with
    | nil => exact fun removed => ⟨.inl, fun h => h.resolve_right fun ⟨_, hmem, _⟩ => by cases hmem⟩
    | cons k keys ih =>
      intro removed
      rw [List.foldl_cons, ih, mem_pushRemoved, or_assoc, List.exists_mem_cons_iff]
      rfl
  have hthere : (∃ k ∈ a.dictionary.keys, nameIn appkey key = nameIn appkey k) ↔
      (a.find key).isSome = true := by
    constructor
    · rintro ⟨k, hk, hname⟩
      obtain ⟨e, he, rfl⟩ := List.mem_map.mp hk
      have hsame : loc.compare key e.1 = .eq :=
        (nameIn_eq_iff hfolds appkey ⟨hkey.nonzero, hkey.ascii⟩ (htidy e he).1).mp hname
      have hfind : a.find key = some e.2 :=
        (a.dictionary.find_congr hsame).trans (OrderedMap.find_of_mem he)
      rw [hfind]
      rfl
    · intro hsome
      obtain ⟨element, hfind⟩ := Option.isSome_iff_exists.mp hsome
      obtain ⟨e, he, hsame, -⟩ := OrderedMap.exists_of_find hfind
      exact ⟨e.1, List.mem_map_of_mem he,
        (nameIn_eq_iff hfolds appkey ⟨hkey.nonzero, hkey.ascii⟩ (htidy e he).1).mpr hsame⟩
  refine ⟨rfl, ?_, fun _ _ hfind => by cases hfind⟩
  rw [Bool.or_eq_true, h.changed, ← h.value, Option.isSome_map]
  unfold Marked removedNames
  rw [CApplication.removeAll]
  dsimp only
  rw [hnames, hthere]
  constructor
  · rintro ((⟨element, hfind, -⟩ | hremoved) | hsome)
    · exact .inr (.inr (by rw [hfind]; rfl))
    · exact .inr (.inl hremoved)
    · exact .inr (.inr hsome)
  · rintro (⟨element, hfind, -⟩ | hremoved | hsome)
    · cases hfind
    · exact .inl (.inr hremoved)
    · exact .inr hsome

/-- INTERNAL: an update that leaves what is stored, and what has been done to it. -/
theorem Copies.update (h : Copies appkey key a value changed) {f : ElementModel → ElementModel}
    (hf : ∀ element, a.find key' = some element →
      persisted (f element).val = persisted element.val ∧ (f element).isNew = element.isNew ∧
        (f element).isDirty = element.isDirty) :
    Copies appkey key (a.update key' f) value changed := by
  have hnames : removedNames appkey (a.update key' f) = removedNames appkey a := by
    unfold CApplication.update
    cases a.find key' <;> rfl
  have hfind : (a.update key' f).find key =
      if loc.compare key key' = .eq then (a.find key').map f else a.find key := by
    rw [CApplication.find_update]
  have hmap : ∀ {β : Type} (g : ElementModel → β),
      (∀ element, a.find key' = some element → g (f element) = g element) →
        ((a.update key' f).find key).map g = (a.find key).map g := by
    intro β g hg
    rw [hfind]
    split
    · rename_i hk
      have hsame : a.find key = a.find key' := a.dictionary.find_congr hk
      rw [hsame]
      cases hfind' : a.find key' with
      | none => rfl
      | some element => exact congrArg some (hg element hfind')
    · rfl
  have hval := hmap (fun element => persisted element.val) fun element he => (hf element he).1
  have hflags := hmap (fun element => (element.isNew, element.isDirty)) fun element he =>
    Prod.ext (hf element he).2.1 (hf element he).2.2
  have hboth : ∀ p : Bool × Bool → Prop,
      (∃ element, (a.update key' f).find key = some element ∧ p (element.isNew, element.isDirty)) ↔
        ∃ element, a.find key = some element ∧ p (element.isNew, element.isDirty) := by
    intro p
    constructor
    · rintro ⟨element, hel, hp⟩
      rw [hel] at hflags
      obtain ⟨old, hold, heq⟩ := Option.map_eq_some_iff.mp hflags.symm
      exact ⟨old, hold, heq ▸ hp⟩
    · rintro ⟨element, hel, hp⟩
      rw [hel] at hflags
      obtain ⟨new, hnew, heq⟩ := Option.map_eq_some_iff.mp hflags
      exact ⟨new, hnew, heq ▸ hp⟩
  refine ⟨hval.trans h.value, ?_, fun hback element hel => ?_⟩
  · rw [h.changed]
    unfold Marked
    rw [hnames, hboth fun p => p.1 = true ∨ p.2 = true]
  · rw [hnames] at hback
    rw [hel] at hflags
    obtain ⟨old, hold, heq⟩ := Option.map_eq_some_iff.mp hflags.symm
    have hsame : old.isNew = element.isNew := (Prod.ext_iff.mp heq).1
    exact hsame ▸ h.back hback old hold

/-- INTERNAL: a value that is stored under a good key. -/
theorem Workable.update_get {bytes : Bytes} {wrap : ComObject → Variant} {element : ElementModel}
    (h : Workable a) (hwrap : wrap = Variant.unknown ∨ wrap = Variant.dispatch)
    (hfind : a.find key' = some element) (hval : element.val = wrap (.packed bytes)) :
    Workable (a.update key' fun _ =>
      { element with val := wrap (.live true (some bytes)), isSerialized := false }) := by
  obtain ⟨e, he, -, rfl⟩ := OrderedMap.exists_of_find hfind
  have hfits : StreamFits bytes := by
    have hheld := (h.tidy e he).2.2
    rw [hval] at hheld
    rcases hwrap with rfl | rfl
    · rcases hheld with hnull | ⟨bytes', hlive, -⟩ | ⟨bytes', hpacked, hfits⟩
      · cases hnull
      · cases hlive
      · cases hpacked
        exact hfits
    · rcases hheld with hnull | ⟨bytes', hlive, -⟩ | ⟨bytes', hpacked, hfits⟩
      · cases hnull
      · cases hlive
      · cases hpacked
        exact hfits
  have hstoreable : Storeable (wrap (.live true (some bytes))) := by
    rcases hwrap with rfl | rfl
    · exact ⟨bytes, rfl, hfits⟩
    · exact ⟨bytes, rfl, hfits⟩
  refine ⟨h.tidy.update key' fun _ _ => hstoreable.holdable, fun k el hel => ?_,
    fun k el hel hflag => ?_⟩
  · rw [CApplication.find_update] at hel
    split at hel
    · obtain ⟨-, -, rfl⟩ := Option.map_eq_some_iff.mp hel
      exact hstoreable.not_null
    · exact h.value k el hel
  · rw [CApplication.find_update] at hel
    split at hel
    · obtain ⟨-, -, rfl⟩ := Option.map_eq_some_iff.mp hel
      cases hflag
    · exact h.stream k el hel hflag

/-- **What a call does to the copy of a variable.** -/
theorem copies_perform (hfolds : FoldsAscii loc) (hkey : GoodKey key) {mem : Memory}
    {oleLoad : Bytes → Option ComObject} {call : CApplication.Call} (hwork : Workable a)
    (h : Copies appkey key a value changed) (hfits : CallFits mem oleLoad a call)
    (hp : a.perform mem oleLoad call = .ok a') :
    Workable a' ∧ Copies appkey key a' (onVariable loc key call value)
      (changed || changes loc key call value) := by
  obtain ⟨-, hfits⟩ := hfits
  cases call with
  | putValue key' newVal defaults =>
    obtain ⟨hkey', v, hstored, hv, hdata⟩ := hfits
    obtain ⟨⟨hr, a₁⟩, hput, heq⟩ := Run.bind_eq_ok hp
    cases heq
    have hspec := putValue_spec hkey'.nonempty hput
    rw [hkey'.lpcolestr, hstored] at hspec
    rw [hspec]
    have hleaves := putLeaves_of_touch (putLeaves_touch a key').1 (some v)
    have hkeylike : Keylike key' := ⟨hkey'.nonzero, hkey'.ascii⟩
    have hstores : ∀ w ∈ some v, Storeable w := fun w hw => Option.some.inj hw ▸ hv
    have htidy := (hwork.tidy.touch hkeylike hkey'.fits).1.store key' hstores
    refine ⟨hwork.put htidy hleaves hv fun _ => hdata, ?_⟩
    rw [onVariable, changes, hstored]
    exact h.put hleaves (.inl rfl)
  | putrefValue key' newVal =>
    obtain ⟨hkey', htaken, v, hstored, hv⟩ := hfits
    obtain ⟨⟨hr, a₁⟩, hput, heq⟩ := Run.bind_eq_ok hp
    cases heq
    have hspec := putrefValue_spec hput
    rw [if_pos ⟨hkey'.nonempty, htaken⟩, hkey'.lpcolestr, hstored] at hspec
    rw [hspec]
    have hleaves := putLeaves_of_touch (putLeaves_touch a key').2 (some v)
    have hkeylike : Keylike key' := ⟨hkey'.nonzero, hkey'.ascii⟩
    have hstores : ∀ w ∈ some v, Storeable w := fun w hw => Option.some.inj hw ▸ hv
    have htidy := (hwork.tidy.touch hkeylike hkey'.fits).2.store key' hstores
    refine ⟨hwork.put htidy hleaves hv fun hflag => ?_, ?_⟩
    · -- a put of an object takes the flag off
      cases hfind : a.find key' with
      | none =>
        rw [hfind] at hflag
        cases hflag
      | some old =>
        rw [hfind] at hflag
        cases hflag
    · rw [onVariable, changes, hstored]
      exact h.put hleaves (.inr rfl)
  | getValue key' =>
    obtain ⟨⟨hr, v, a₁⟩, hget, heq⟩ := Run.bind_eq_ok hp
    cases heq
    rw [onVariable, changes, Bool.or_false]
    rcases getValue_spec hget with rfl | ⟨bytes, wrap, element, hwrap, hfind, hflag, hval, rfl⟩
    · exact ⟨hwork, h⟩
    · have hloaded : oleLoad bytes = some (.live true (some bytes)) :=
        hfits element bytes hfind hflag (by
          rcases hwrap with rfl | rfl
          · exact .inl hval
          · exact .inr hval)
      rw [hloaded, Option.getD_some]
      refine ⟨hwork.update_get hwrap hfind hval, h.update fun old hold => ?_⟩
      rw [hfind] at hold
      cases hold
      refine ⟨?_, rfl, rfl⟩
      rw [hval]
      rcases hwrap with rfl | rfl
      · rfl
      · rfl
  | remove key' =>
    cases hp
    refine ⟨hwork.sub ?_ fun k element hfind => ?_, h.remove hfolds hkey hfits⟩
    · unfold CApplication.remove
      split
      · exact hwork.tidy
      · split
        · exact hwork.tidy
        · exact fun e he => hwork.tidy e (List.mem_of_mem_filter he)
    · unfold CApplication.remove at hfind
      split at hfind
      · exact hfind
      · split at hfind
        · exact hfind
        · change (a.dictionary.erase _).find k = some element at hfind
          rw [OrderedMap.find_erase] at hfind
          split at hfind
          · cases hfind
          · exact hfind
  | removeAll =>
    cases hp
    refine ⟨hwork.sub (fun e he => ?_) fun k element hfind => ?_,
      h.removeAll hfolds hwork.tidy hkey⟩
    · cases he
    · cases hfind
  | expireKeyAt key' ms =>
    cases hp
    rw [onVariable, changes, Bool.or_false]
    have hsame : ∀ k element, (a.expireKeyAt key' ms).find k = some element → ∃ old,
        a.find k = some old ∧ element.val = old.val ∧ element.isSerialized = old.isSerialized := by
      intro k element hfind
      unfold CApplication.expireKeyAt at hfind
      rw [CApplication.find_update] at hfind
      split at hfind
      · rename_i hk
        obtain ⟨old, hold, rfl⟩ := Option.map_eq_some_iff.mp hfind
        exact ⟨old, (a.dictionary.find_congr hk).trans hold, rfl, rfl⟩
      · exact ⟨element, hfind, rfl, rfl⟩
    refine ⟨⟨?_, fun k element hfind => ?_, fun k element hfind hflag => ?_⟩,
      h.update fun element _ => ⟨rfl, rfl, rfl⟩⟩
    · refine hwork.tidy.update _ fun element hfind => ?_
      obtain ⟨e, he, -, rfl⟩ := OrderedMap.exists_of_find hfind
      exact (hwork.tidy e he).2.2
    · obtain ⟨old, hold, hval, -⟩ := hsame k element hfind
      rw [hval]
      exact hwork.value k old hold
    · obtain ⟨old, hold, hval, hserialized⟩ := hsame k element hfind
      rw [hval]
      exact hwork.stream k old hold (hserialized ▸ hflag)
  | serializeKey key' binaryString => cases hfits
  | deserializeKey binaryString => cases hfits

end Call

/-! ## A shared variable -/

/-- How far a request is with a variable. -/
inductive Reading
  | idle
  /-- It has asked for the keys, and `found` is what there was. -/
  | asked (found : Option Variant)
  /-- It has asked for the values. -/
  | answered (value : Option Variant)
  /-- It works on a copy, which it may have changed. -/
  | working (value : Option Variant) (changed : Bool)

/-- A variable that requests share. -/
structure SharedVariable where
  value : Option Variant
  reading : ℕ → Reading

namespace SharedVariable

/-- Nobody has set the variable. -/
def start : SharedVariable := ⟨none, fun _ => .idle⟩

/-- A request gets on with the variable. -/
def moves (v : SharedVariable) (i : ℕ) (reading : Reading) : SharedVariable :=
  { v with reading := Function.update v.reading i reading }

/-- The next event. A variable that was not there when the keys were asked for may be missing from
the values; a time to live may be over or there may be none: `choice` decides. -/
def next (loc : Collation) (appkey : Bytes) (key : Bstr) (choice : Bool) (v : SharedVariable) :
    Event → SharedVariable
  | .smembers i =>
    match v.reading i with
    | .idle => v.moves i (.asked v.value)
    | _ => v
  | .mget i =>
    match v.reading i with
    | .asked found =>
      v.moves i (.answered (if found.isSome || !choice then v.value else none))
    | _ => v
  | .srem i _ =>
    match v.reading i with
    | .answered value => v.moves i (.working value false)
    | _ => v
  | .call i _ call =>
    match v.reading i with
    | .working value changed =>
      v.moves i (.working (onVariable loc key call value) (changed || changes loc key call value))
    | _ => v
  | .commit i _ =>
    match v.reading i with
    | .working value changed => { v.moves i .idle with value := if changed then value else v.value }
    | _ => v
  | .expire name =>
    if name = nameIn appkey key ∧ choice = true then { v with value := none } else v

/-- A step of the variable. -/
def Step (loc : Collation) (appkey : Bytes) (key : Bstr) (v : SharedVariable) (e : Event)
    (v' : SharedVariable) : Prop :=
  ∃ choice, v' = v.next loc appkey key choice e

end SharedVariable

/-! ## The application and the variable -/

/-- The value of the variable among the values of these Redis keys. -/
def HeldIn (loc : Collation) (appkey : Bytes) (key : Bstr) (names : List Bytes) (s : Keyspace) :
    Option Variant → Prop
  | none => nameIn appkey key ∈ names → s.get (nameIn appkey key) = none
  | some val => nameIn appkey key ∈ names ∧ ∃ bytes key', s.get (nameIn appkey key) = some bytes ∧
      HoldsRecord loc appkey (nameIn appkey key) bytes key' val

/-- The values of these Redis keys are records. -/
def Recorded (loc : Collation) (appkey : Bytes) (names : List Bytes) (s : Keyspace) : Prop :=
  ∀ name ∈ names, ∀ bytes, s.get name = some bytes →
    ∃ key val, HoldsRecord loc appkey name bytes key val

/-- A request stands where its reading of the variable says; `known` are the Redis keys that have
been written. -/
def Stands (appkey : Bytes) (key : Bstr) (known : List Bytes) : Stage loc → Reading → Prop
  | .idle, .idle => True
  | .asked names, .asked found => names.Nodup ∧ (∀ name ∈ names, name ∈ known) ∧
      (found.isSome = true → nameIn appkey key ∈ names)
  | .answered names replies, .answered value => names.Nodup ∧ ∃ s : Keyspace,
      replies = s.mget names ∧ Recorded loc appkey names s ∧ HeldIn loc appkey key names s value
  | .working a, .working value changed => Workable a ∧ Copies appkey key a value changed
  | _, _ => False

/-- **The application refines the shared variable** in this state. -/
structure RefinesVariable (appkey : Bytes) (key : Bstr) (σ : ApplicationSystem loc)
    (v : SharedVariable) : Prop where
  sound : Sound appkey (nameIn appkey key) σ
  known : ∀ name ∈ σ.store.smembers appkey, name ∈ σ.records.map Prod.fst
  recorded : Recorded loc appkey (σ.records.map Prod.fst) σ.store
  value : HeldIn loc appkey key (σ.store.smembers appkey) σ.store v.value
  stands : ∀ i, Stands appkey key (σ.records.map Prod.fst) (σ.stage i) (v.reading i)

section System

variable {cp : CodePage} {oleLoad : Bytes → Option ComObject} {appkey : Bytes} {key : Bstr}
  {σ σ' : ApplicationSystem loc} {v : SharedVariable}

/-- INTERNAL: the reading of a request at a stage. -/
theorem Stands.reading {known : List Bytes} {stage : Stage loc} {reading : Reading}
    (h : Stands appkey key known stage reading) :
    (stage = .idle ∧ reading = .idle) ∨
    (∃ names found, stage = .asked names ∧ reading = .asked found) ∨
    (∃ names replies value, stage = .answered names replies ∧ reading = .answered value) ∨
    ∃ a value changed, stage = .working a ∧ reading = .working value changed := by
  cases stage with
  | idle =>
    cases reading with
    | idle => exact .inl ⟨rfl, rfl⟩
    | asked found => exact h.elim
    | answered value => exact h.elim
    | working value changed => exact h.elim
  | asked names =>
    cases reading with
    | asked found => exact .inr (.inl ⟨names, found, rfl, rfl⟩)
    | idle => exact h.elim
    | answered value => exact h.elim
    | working value changed => exact h.elim
  | answered names replies =>
    cases reading with
    | answered value => exact .inr (.inr (.inl ⟨names, replies, value, rfl, rfl⟩))
    | idle => exact h.elim
    | asked found => exact h.elim
    | working value changed => exact h.elim
  | working a =>
    cases reading with
    | working value changed => exact .inr (.inr (.inr ⟨a, value, changed, rfl, rfl⟩))
    | idle => exact h.elim
    | asked found => exact h.elim
    | answered value => exact h.elim

/-- INTERNAL: more keys may have been written. -/
theorem Stands.mono {known known' : List Bytes} (hsub : ∀ name ∈ known, name ∈ known')
    {stage : Stage loc} {reading : Reading} (h : Stands appkey key known stage reading) :
    Stands appkey key known' stage reading := by
  rcases h.reading with ⟨rfl, rfl⟩ | ⟨names, found, rfl, rfl⟩ | ⟨names, replies, value, rfl, rfl⟩ |
    ⟨a, value, changed, rfl, rfl⟩
  · trivial
  · exact ⟨h.1, fun name hname => hsub name (h.2.1 name hname), h.2.2⟩
  · exact h
  · exact h

/-- INTERNAL: a request gets on, and Redis stays as it is. -/
theorem RefinesVariable.setStage (h : RefinesVariable appkey key σ v) {i : ℕ} {stage : Stage loc}
    {reading : Reading} (hstands : Stands appkey key (σ.records.map Prod.fst) stage reading) :
    RefinesVariable appkey key (σ.setStage i stage) (v.moves i reading) := by
  refine ⟨⟨h.sound.keys, h.sound.member⟩, h.known, h.recorded, h.value, fun j => ?_⟩
  by_cases hj : j = i
  · subst hj
    rw [show (σ.setStage j stage).stage j = stage from Function.update_self ..,
      show (v.moves j reading).reading j = reading from Function.update_self ..]
    exact hstands
  · rw [show (σ.setStage i stage).stage j = σ.stage j from Function.update_of_ne hj ..,
      show (v.moves i reading).reading j = v.reading j from Function.update_of_ne hj ..]
    exact h.stands j

/-- INTERNAL: what has been loaded is what was held. -/
theorem copies_loaded (hfolds : FoldsAscii loc) (hkey : GoodKey key) {names : List Bytes}
    {s : Keyspace} {a : CApplication loc} {value : Option Variant}
    (hloaded : Loaded appkey s names a) (hheld : HeldIn loc appkey key names s value) :
    Workable a ∧ Copies appkey key a value false := by
  have hrestored : ∀ k element, a.find k = some element →
      ∃ val, Restored val ∧ element = loadedElement val := by
    intro k element hfind
    obtain ⟨name, -, bytes, key', val, -, hholds, -, rfl⟩ := hloaded.only k element hfind
    exact ⟨val, hholds.restored, rfl⟩
  refine ⟨⟨hloaded.tidy, fun k element hfind => ?_, fun k element hfind _ => ?_⟩, ?_, ?_, ?_⟩
  · obtain ⟨val, hval, rfl⟩ := hrestored k element hfind
    exact hval.not_null
  · obtain ⟨val, hval, rfl⟩ := hrestored k element hfind
    -- a loaded object is a stream
    change holdsLive val = false
    cases val with
    | dispatch o =>
      obtain ⟨bytes, rfl, -⟩ := hval
      rfl
    | unknown o =>
      obtain ⟨bytes, rfl, -⟩ := hval
      rfl
    | _ => rfl
  · cases value with
    | none =>
      rw [Option.map_eq_none_iff]
      by_contra hsome
      obtain ⟨element, hfind⟩ := Option.ne_none_iff_exists'.mp hsome
      obtain ⟨hmem, bytes, key', val, hget, -⟩ :=
        hloaded.holds_of_find hfolds ⟨hkey.nonzero, hkey.ascii⟩ hfind
      rw [hheld hmem] at hget
      cases hget
    | some val =>
      obtain ⟨hmem, bytes, key', hget, hholds⟩ := hheld
      have hfind := hloaded.find_of_holds hfolds hmem hget hholds
      have hsame : loc.compare key key' = .eq :=
        (nameIn_eq_iff hfolds appkey ⟨hkey.nonzero, hkey.ascii⟩ hholds.keylike).mp hholds.name.symm
      have hfind' : a.find key = some (loadedElement val) :=
        (a.dictionary.find_congr hsame).trans hfind
      rw [hfind']
      exact congrArg some hholds.restored.loadedValue.2
  · refine iff_of_false Bool.false_ne_true ?_
    rintro (⟨element, hfind, hmarks⟩ | hremoved)
    · obtain ⟨val, -, rfl⟩ := hrestored key element hfind
      rcases hmarks with hnew | hdirty
      · cases hnew
      · cases hdirty
    · rw [removedNames, hloaded.removed] at hremoved
      cases hremoved
  · intro hremoved
    rw [removedNames, hloaded.removed] at hremoved
    cases hremoved

/-- INTERNAL: a request asks for the keys. -/
theorem refinesVariable_smembers (h : RefinesVariable appkey key σ v) {i : ℕ}
    (hstep : σ.step cp oleLoad appkey (.smembers i) = .ok σ') :
    ∃ v', v.Step loc appkey key (.smembers i) v' ∧ RefinesVariable appkey key σ' v' := by
  refine ⟨_, ⟨true, rfl⟩, ?_⟩
  have hstands := h.stands i
  dsimp only [ApplicationSystem.step] at hstep
  rcases hstands.reading with ⟨hstage, hreading⟩ | ⟨names, found, hstage, hreading⟩ |
    ⟨names, replies, value, hstage, hreading⟩ | ⟨a, value, changed, hstage, hreading⟩
  · rw [hstage] at hstep
    cases hstep
    rw [SharedVariable.next, hreading]
    refine h.setStage ⟨h.sound.keys.nodup, h.known, fun hfound => ?_⟩
    have hheld := h.value
    obtain ⟨val, hval⟩ := Option.isSome_iff_exists.mp hfound
    rw [hval] at hheld
    exact hheld.1
  · rw [hstage] at hstep
    cases hstep
    rw [SharedVariable.next, hreading]
    exact h
  · rw [hstage] at hstep
    cases hstep
    rw [SharedVariable.next, hreading]
    exact h
  · rw [hstage] at hstep
    cases hstep
    rw [SharedVariable.next, hreading]
    exact h

/-- INTERNAL: a request asks for the values. -/
theorem refinesVariable_mget (h : RefinesVariable appkey key σ v) {i : ℕ}
    (hstep : σ.step cp oleLoad appkey (.mget i) = .ok σ') :
    ∃ v', v.Step loc appkey key (.mget i) v' ∧ RefinesVariable appkey key σ' v' := by
  have hstands := h.stands i
  dsimp only [ApplicationSystem.step] at hstep
  rcases hstands.reading with ⟨hstage, hreading⟩ | ⟨names, found, hstage, hreading⟩ |
    ⟨names, replies, value, hstage, hreading⟩ | ⟨a, value, changed, hstage, hreading⟩
  · rw [hstage] at hstep
    cases hstep
    refine ⟨v, ⟨true, ?_⟩, h⟩
    rw [SharedVariable.next, hreading]
  · rw [hstage] at hstep
    cases hstep
    rw [hstage, hreading] at hstands
    obtain ⟨hnodup, hknown, hfound⟩ := hstands
    have hrecorded : Recorded loc appkey names σ.store :=
      fun name hname => h.recorded name (hknown name hname)
    by_cases hmem : nameIn appkey key ∈ names
    · refine ⟨_, ⟨false, rfl⟩, ?_⟩
      rw [SharedVariable.next, hreading]
      dsimp only
      rw [Bool.not_false, Bool.or_true, if_pos rfl]
      refine h.setStage ⟨hnodup, σ.store, rfl, hrecorded, ?_⟩
      have hheld := h.value
      cases hvalue : v.value with
      | none =>
        rw [hvalue] at hheld
        intro _
        -- a key that was written and has a value is a member
        by_contra hsome
        obtain ⟨bytes, hget⟩ := Option.ne_none_iff_exists'.mp hsome
        rw [hheld (h.sound.member (hknown _ hmem) bytes hget).1] at hget
        cases hget
      | some val =>
        rw [hvalue] at hheld
        exact ⟨hmem, hheld.2⟩
    · refine ⟨_, ⟨true, rfl⟩, ?_⟩
      have hnone : found.isSome = false := by
        rw [← Bool.not_eq_true]
        exact fun hsome => hmem (hfound hsome)
      rw [SharedVariable.next, hreading]
      dsimp only
      rw [hnone, Bool.not_true, Bool.or_false, if_neg Bool.false_ne_true]
      exact h.setStage ⟨hnodup, σ.store, rfl, hrecorded, fun hin => absurd hin hmem⟩
  · rw [hstage] at hstep
    cases hstep
    refine ⟨v, ⟨true, ?_⟩, h⟩
    rw [SharedVariable.next, hreading]
  · rw [hstage] at hstep
    cases hstep
    refine ⟨v, ⟨true, ?_⟩, h⟩
    rw [SharedVariable.next, hreading]

/-- INTERNAL: a request makes a call. -/
theorem refinesVariable_call (hfolds : FoldsAscii loc) (hkey : GoodKey key)
    (h : RefinesVariable appkey key σ v) {i : ℕ} {mem : Memory} {call : CApplication.Call}
    (hfits : ∀ a, σ.stage i = .working a → CallFits mem oleLoad a call)
    (hstep : σ.step cp oleLoad appkey (.call i mem call) = .ok σ') :
    ∃ v', v.Step loc appkey key (.call i mem call) v' ∧ RefinesVariable appkey key σ' v' := by
  refine ⟨_, ⟨true, rfl⟩, ?_⟩
  have hstands := h.stands i
  dsimp only [ApplicationSystem.step] at hstep
  rcases hstands.reading with ⟨hstage, hreading⟩ | ⟨names, found, hstage, hreading⟩ |
    ⟨names, replies, value, hstage, hreading⟩ | ⟨a, value, changed, hstage, hreading⟩
  · rw [hstage] at hstep
    cases hstep
    rw [SharedVariable.next, hreading]
    exact h
  · rw [hstage] at hstep
    cases hstep
    rw [SharedVariable.next, hreading]
    exact h
  · rw [hstage] at hstep
    cases hstep
    rw [SharedVariable.next, hreading]
    exact h
  · obtain ⟨a', hrun⟩ := (hfits a hstage).1
    rw [hstage] at hstep
    dsimp only at hstep
    rw [hrun] at hstep
    cases hstep
    rw [hstage, hreading] at hstands
    rw [SharedVariable.next, hreading]
    exact h.setStage (copies_perform hfolds hkey hstands.1 hstands.2 (hfits a hstage) hrun)

/-- INTERNAL: the stages of the other requests, after a step that gets one request on. -/
theorem RefinesVariable.others (h : RefinesVariable appkey key σ v) {i : ℕ} {stage : Stage loc}
    {reading : Reading} {known : List Bytes}
    (hsub : ∀ name ∈ σ.records.map Prod.fst, name ∈ known)
    (hstands : Stands appkey key known stage reading) (j : ℕ) :
    Stands appkey key known (Function.update σ.stage i stage j)
      (Function.update v.reading i reading j) := by
  by_cases hj : j = i
  · subst hj
    rw [Function.update_self, Function.update_self]
    exact hstands
  · rw [Function.update_of_ne hj, Function.update_of_ne hj]
    exact (h.stands j).mono hsub

/-- INTERNAL: a request has loaded the values and takes the members without one out of the set. -/
theorem refinesVariable_srem (hfolds : FoldsAscii loc) (hkey : GoodKey key)
    (h : RefinesVariable appkey key σ v) {i : ℕ} {mem : Memory}
    (hfits : StepFits appkey (nameIn appkey key) σ (.srem i mem))
    (hstep : σ.step cp oleLoad appkey (.srem i mem) = .ok σ') :
    ∃ v', v.Step loc appkey key (.srem i mem) v' ∧ RefinesVariable appkey key σ' v' := by
  refine ⟨_, ⟨true, rfl⟩, ?_⟩
  have hsound := h.sound.step hfits hstep
  have hstands := h.stands i
  dsimp only [ApplicationSystem.step] at hstep
  rcases hstands.reading with ⟨hstage, hreading⟩ | ⟨names, found, hstage, hreading⟩ |
    ⟨names, replies, value, hstage, hreading⟩ | ⟨a, value, changed, hstage, hreading⟩
  · rw [hstage] at hstep
    cases hstep
    rw [SharedVariable.next, hreading]
    exact h
  · rw [hstage] at hstep
    cases hstep
    rw [SharedVariable.next, hreading]
    exact h
  · rw [hstage, hreading] at hstands
    obtain ⟨hnodup, s, rfl, hrecorded, hheld⟩ := hstands
    have hfresh : Loaded appkey s [] (.new : CApplication loc) := loaded_new appkey s
    obtain ⟨a, hread, hloaded⟩ := hfresh.deserializeKeys hfolds mem hnodup hrecorded
    rw [hstage] at hstep
    dsimp only at hstep
    rw [hread] at hstep
    cases hstep
    obtain ⟨hkeys, hsame⟩ := keySet_cleanup h.sound.keys names (s.mget names)
    have hmembers := hkeys.smembers
    have hget : ∀ name, name ≠ appkey →
        (σ.store.executeAll (CApplicationDL.cleanup appkey names (s.mget names))).get name =
          σ.store.get name := fun name hne => by rw [Keyspace.get, hsame name hne, ← Keyspace.get]
    change CleanupFits (nameIn appkey key) σ.store (σ.stage i) at hfits
    rw [hstage] at hfits
    rw [SharedVariable.next, hreading]
    have hworking : Stands appkey key (σ.records.map Prod.fst) (.working a) (.working value false) :=
      copies_loaded hfolds hkey hloaded hheld
    refine ⟨hsound, fun name hname => ?_, fun name hname bytes hbytes => ?_, ?_,
      fun j => h.others (fun _ hn => hn) hworking j⟩
    · rw [hmembers] at hname
      exact h.known name (List.mem_of_mem_filter hname)
    · refine h.recorded name hname bytes ?_
      rw [← hget name (hsound.ne_appkey hbytes)]
      exact hbytes
    · have hvalue := h.value
      change HeldIn loc appkey key (Keyspace.smembers _ appkey) _ v.value
      rw [hmembers]
      cases hv : v.value with
      | none =>
        rw [hv] at hvalue
        intro hmem
        rw [hget _ (nameIn_ne appkey key)]
        exact hvalue (List.mem_of_mem_filter hmem)
      | some val =>
        rw [hv] at hvalue
        obtain ⟨hmem, bytes, key', hbytes, hholds⟩ := hvalue
        refine ⟨List.mem_filter.mpr ⟨hmem, decide_eq_true fun hghost => ?_⟩, bytes, key', ?_, hholds⟩
        · have hnone := hfits hghost
          rw [hbytes] at hnone
          cases hnone
        · rw [hget _ (nameIn_ne appkey key)]
          exact hbytes
  · rw [hstage] at hstep
    cases hstep
    rw [SharedVariable.next, hreading]
    exact h

/-- INTERNAL: a record's time to live is over. -/
theorem refinesVariable_expire (h : RefinesVariable appkey key σ v) {name : Bytes}
    (hstep : σ.step cp oleLoad appkey (.expire name) = .ok σ') :
    ∃ v', v.Step loc appkey key (.expire name) v' ∧ RefinesVariable appkey key σ' v' := by
  have hfits : StepFits appkey (nameIn appkey key) σ (.expire name) := trivial
  have hsound := h.sound.step hfits hstep
  dsimp only [ApplicationSystem.step] at hstep
  split at hstep
  · rename_i value ms hentry
    cases hstep
    have hne : name ≠ appkey := by
      rintro rfl
      have hset := h.sound.keys.entry
      rw [hentry, Keyspace.setEntry] at hset
      split at hset
      · cases hset
      · cases hset
    have hmembers : Keyspace.smembers (Function.update σ.store name none) appkey =
        σ.store.smembers appkey := by
      rw [Keyspace.smembers, Keyspace.smembers, Function.update_of_ne (Ne.symm hne)]
    have hget : ∀ name', Keyspace.get (Function.update σ.store name none) name' =
        if name' = name then none else σ.store.get name' := by
      intro name'
      split
      · rename_i heq
        rw [Keyspace.get, heq, Function.update_self]
      · rename_i heq
        rw [Keyspace.get, Function.update_of_ne heq, ← Keyspace.get]
    have hrecorded : Recorded loc appkey (σ.records.map Prod.fst)
        (Function.update σ.store name none) := by
      intro name' hname' bytes hbytes
      rw [hget] at hbytes
      split at hbytes
      · cases hbytes
      · exact h.recorded name' hname' bytes hbytes
    refine ⟨_, ⟨true, rfl⟩, hsound, fun name' hname' => ?_, hrecorded, ?_, fun j => ?_⟩
    · rw [hmembers] at hname'
      exact h.known name' hname'
    · have hvalue := h.value
      change HeldIn loc appkey key (Keyspace.smembers (Function.update σ.store name none) appkey) _ _
      rw [hmembers, SharedVariable.next]
      by_cases hname : name = nameIn appkey key
      · rw [if_pos ⟨hname, rfl⟩]
        intro _
        rw [hget, if_pos hname.symm]
      · rw [if_neg fun hc => hname hc.1]
        cases hv : v.value with
        | none =>
          rw [hv] at hvalue
          intro hmem
          rw [hget, if_neg (Ne.symm hname)]
          exact hvalue hmem
        | some val =>
          rw [hv] at hvalue
          obtain ⟨hmem, bytes, key', hbytes, hholds⟩ := hvalue
          refine ⟨hmem, bytes, key', ?_, hholds⟩
          rw [hget, if_neg (Ne.symm hname)]
          exact hbytes
    · have hsame : (v.next loc appkey key true (.expire name)).reading = v.reading := by
        rw [SharedVariable.next]
        split
        · rfl
        · rfl
      rw [hsame]
      exact h.stands j
  · cases hstep
    refine ⟨v, ⟨false, ?_⟩, h⟩
    rw [SharedVariable.next, if_neg fun hc => Bool.false_ne_true hc.2]

/-- INTERNAL: the Redis keys that a commit writes. -/
theorem mem_namesIn_written {a : CApplication loc} {name : Bytes} :
    name ∈ namesIn appkey (a.keyStates.newKeys ++ a.keyStates.changedKeys) ↔
      ∃ k ∈ writtenKeys a, nameIn appkey k = name := by
  obtain ⟨hnew, hchanged, -⟩ := keyStates_eq a
  rw [hnew, hchanged, namesIn, ← List.map_append, List.map_map, List.mem_map]
  rfl

/-- INTERNAL: a variable is written when its element is new or dirty. -/
theorem written_iff (hfolds : FoldsAscii loc) (hkey : GoodKey key) {a : CApplication loc}
    (htidy : Tidy a) :
    (∃ k ∈ writtenKeys a, nameIn appkey k = nameIn appkey key) ↔
      ∃ element, a.find key = some element ∧ (element.isNew = true ∨ element.isDirty = true) := by
  have hlike : Keylike key := ⟨hkey.nonzero, hkey.ascii⟩
  constructor
  · rintro ⟨k, hk, hname⟩
    obtain ⟨hgood, element, hfind, hmarks⟩ : GoodKey k ∧ ∃ element, a.find k = some element ∧
        (element.isNew = true ∨ element.isDirty = true) := by
      rcases List.mem_append.mp hk with hnew | hdirty
      · obtain ⟨-, element, hfind, hmarks⟩ := find_of_mem_keysWhere hnew
        exact ⟨(htidy.keysWhere hnew).1, element, hfind, .inl hmarks⟩
      · obtain ⟨-, element, hfind, hmarks⟩ := find_of_mem_keysWhere hdirty
        exact ⟨(htidy.keysWhere hdirty).1, element, hfind, .inr (Bool.and_eq_true_iff.mp hmarks).2⟩
    have hsame : loc.compare key k = .eq :=
      (nameIn_eq_iff hfolds appkey hlike ⟨hgood.nonzero, hgood.ascii⟩).mp hname.symm
    exact ⟨element, (a.dictionary.find_congr hsame).trans hfind, hmarks⟩
  · rintro ⟨element, hfind, hmarks⟩
    obtain ⟨e, he, hsame, rfl⟩ := OrderedMap.exists_of_find hfind
    have hlike' := (htidy e he).1
    have hne : e.1 ≠ [] := by
      intro hnil
      have heq := (hfolds key e.1 hlike hlike').mp hsame
      rw [hnil, List.map_nil] at heq
      exact hkey.nonempty (List.map_eq_nil_iff.mp heq)
    exact ⟨e.1, mem_writtenKeys he hne hmarks,
      ((nameIn_eq_iff hfolds appkey hlike hlike').mpr hsame).symm⟩

/-- INTERNAL: what a commit writes of the variable is the copy. -/
theorem held_savedState (hfolds : FoldsAscii loc) (hkey : GoodKey key) {mem : Memory}
    {a : CApplication loc} {s : Keyspace} {members : List Bytes} {value old : Option Variant}
    {changed : Bool} (hset : KeySet s appkey members) (hwork : Workable a)
    (h : Copies appkey key a value changed) (hheld : HeldIn loc appkey key members s old)
    (hmember : (∃ k ∈ keysWhere a (fun e => !e.isNew && e.isDirty),
      nameIn appkey k = nameIn appkey key) → nameIn appkey key ∈ members)
    (hkept : (∃ k ∈ writtenKeys a, nameIn appkey k = nameIn appkey key) →
      nameIn appkey key ∉ removedNames appkey a) :
    HeldIn loc appkey key (savedMembers appkey a members) (savedState mem appkey s a)
      (if changed = true then value else old) := by
  obtain ⟨hkeys, hmembers, hvalues⟩ := savedState_spec mem appkey hset a
  obtain ⟨hin, hout⟩ := hvalues _ (nameIn_ne appkey key)
  have hwritten : (∃ k ∈ writtenKeys a, nameIn appkey k = nameIn appkey key) ↔ _ :=
    written_iff hfolds hkey hwork.tidy
  cases hc : changed with
  | false =>
    -- neither written nor removed
    rw [if_neg Bool.false_ne_true]
    have hunmarked : ¬ Marked appkey key a := fun hm => by
      rw [h.changed.mpr hm] at hc
      cases hc
    have hunwritten : ¬ ∃ k ∈ writtenKeys a, nameIn appkey k = nameIn appkey key :=
      fun hw => hunmarked (.inl (hwritten.mp hw))
    have hunremoved : nameIn appkey key ∉ removedNames appkey a := fun hr => hunmarked (.inr hr)
    have hget := hout hunwritten
    rw [if_neg hunremoved] at hget
    have hmem : nameIn appkey key ∈ savedMembers appkey a members ↔ nameIn appkey key ∈ members := by
      rw [hmembers]
      constructor
      · rintro ⟨hmem | hnew, -⟩
        · exact hmem
        · obtain ⟨k, hk, hname⟩ := List.mem_map.mp hnew
          exact absurd ⟨k, List.mem_append_left _ hk, hname⟩ hunwritten
      · exact fun hmem => ⟨.inl hmem, hunremoved⟩
    cases old with
    | none => exact fun hm => hget.trans (hheld (hmem.mp hm))
    | some val =>
      obtain ⟨hm, bytes, key', hbytes, hholds⟩ := hheld
      exact ⟨hmem.mpr hm, bytes, key', hget.trans hbytes, hholds⟩
  | true =>
    rw [if_pos rfl]
    have hmarked := h.changed.mp hc
    have hvalue := h.value
    cases hfind : a.find key with
    | none =>
      rw [hfind] at hvalue
      rw [← hvalue]
      intro hmem
      -- it has been removed, and its member with it
      rcases hmarked with ⟨element, hfind', -⟩ | hremoved
      · rw [hfind] at hfind'
        cases hfind'
      · exact absurd hremoved ((hmembers _).mp hmem).2
    | some element =>
      rw [hfind] at hvalue
      rw [← hvalue]
      have hmarks : element.isNew = true ∨ element.isDirty = true := by
        rcases hmarked with ⟨element', hfind', hmarks⟩ | hremoved
        · rw [hfind] at hfind'
          cases hfind'
          exact hmarks
        · exact .inl (h.back hremoved element hfind)
      have hw := hwritten.mpr ⟨element, hfind, hmarks⟩
      obtain ⟨k, hk, hname, hget⟩ := hin hw
      have hnull : holdsNull a k = false := by
        obtain ⟨-, element', hfind', -⟩ : GoodKey k ∧ ∃ element', a.find k = some element' ∧
            Holdable element'.val :=
          (List.mem_append.mp hk).elim hwork.tidy.keysWhere hwork.tidy.keysWhere
        rw [holdsNull, hfind']
        exact hwork.value k element' hfind'
      obtain ⟨hgood, element', hfind', hholds⟩ := holds_recordOf mem appkey hwork.tidy hk hnull
      have hsame : loc.compare key k = .eq :=
        (nameIn_eq_iff hfolds appkey ⟨hkey.nonzero, hkey.ascii⟩ hholds.keylike).mp hname.symm
      have hel : element = element' := by
        have heq : a.find key = a.find k := a.dictionary.find_congr hsame
        rw [hfind, hfind'] at heq
        exact Option.some.inj heq
      subst hel
      have hstored : (loadedValue true (storedAs element)).2 = persisted element.val := by
        obtain ⟨e, he, -, rfl⟩ := OrderedMap.exists_of_find hfind
        exact loadedValue_storedAs (hwork.tidy e he).2.2 (hwork.value key _ hfind)
          (hwork.stream key _ hfind)
      rw [hstored, hname] at hholds
      refine ⟨(hmembers _).mpr ⟨?_, hkept hw⟩, _, k, hget, hholds⟩
      rcases List.mem_append.mp hk with hnew | hdirty
      · exact .inr (List.mem_map.mpr ⟨k, hnew, hname⟩)
      · exact .inl (hmember ⟨k, hdirty, hname⟩)

/-- INTERNAL: a request commits. -/
theorem refinesVariable_commit (hfolds : FoldsAscii loc) (hkey : GoodKey key)
    (h : RefinesVariable appkey key σ v) {i : ℕ} {mem : Memory}
    (hfits : StepFits appkey (nameIn appkey key) σ (.commit i mem))
    (hstep : σ.step cp oleLoad appkey (.commit i mem) = .ok σ') :
    ∃ v', v.Step loc appkey key (.commit i mem) v' ∧ RefinesVariable appkey key σ' v' := by
  refine ⟨_, ⟨true, rfl⟩, ?_⟩
  have hsound := h.sound.step hfits hstep
  have hstands := h.stands i
  dsimp only [ApplicationSystem.step] at hstep
  rcases hstands.reading with ⟨hstage, hreading⟩ | ⟨names, found, hstage, hreading⟩ |
    ⟨names, replies, value, hstage, hreading⟩ | ⟨a, value, changed, hstage, hreading⟩
  · rw [hstage] at hstep
    cases hstep
    rw [SharedVariable.next, hreading]
    exact h
  · rw [hstage] at hstep
    cases hstep
    rw [SharedVariable.next, hreading]
    exact h
  · rw [hstage] at hstep
    cases hstep
    rw [SharedVariable.next, hreading]
    exact h
  · rw [hstage, hreading] at hstands
    obtain ⟨hwork, hcopies⟩ := hstands
    have hnull : ∀ k ∈ writtenKeys a, holdsNull a k = false := by
      intro k hk
      obtain ⟨-, element, hfind, -⟩ : GoodKey k ∧ ∃ element, a.find k = some element ∧
          Holdable element.val :=
        (List.mem_append.mp hk).elim hwork.tidy.keysWhere hwork.tidy.keysWhere
      rw [holdsNull, hfind]
      exact hwork.value k element hfind
    obtain ⟨a', hsave⟩ := (applicationSave_spec cp mem appkey σ.store hwork.tidy).1 hnull
    obtain ⟨pairs, hrecords, hnames, -⟩ := applicationSave_saving hsave
    rw [hstage] at hstep
    dsimp only at hstep
    rw [hsave, hrecords] at hstep
    cases hstep
    change CommitFits appkey (nameIn appkey key) σ.store (σ.stage i) at hfits
    rw [hstage] at hfits
    obtain ⟨hkeys, hmembers, hvalues⟩ := savedState_spec mem appkey h.sound.keys a
    have hsmembers := hkeys.smembers
    have hknown : ∀ name, name ∈ (σ.records ++ pairs).map Prod.fst ↔
        name ∈ σ.records.map Prod.fst ∨ ∃ k ∈ writtenKeys a, nameIn appkey k = name := by
      intro name
      rw [List.map_append, List.mem_append, hnames, mem_namesIn_written]
    rw [SharedVariable.next, hreading]
    have hidle : Stands appkey key ((σ.records ++ pairs).map Prod.fst) (.idle : Stage loc) .idle :=
      trivial
    refine ⟨hsound, fun name hname => ?_, fun name hname bytes hget => ?_, ?_,
      fun j => h.others (fun name hn => (hknown name).mpr (.inl hn)) hidle j⟩
    · rw [hsmembers, hmembers] at hname
      rw [hknown]
      refine hname.1.imp (h.known name) fun hnew => ?_
      obtain ⟨k, hk, hkname⟩ := List.mem_map.mp hnew
      exact ⟨k, List.mem_append_left _ hk, hkname⟩
    · by_cases hwritten : ∃ k ∈ writtenKeys a, nameIn appkey k = name
      · obtain ⟨k, hk, hkname, hrecord⟩ := (hvalues name (hsound.ne_appkey hget)).1 hwritten
        rw [hget] at hrecord
        cases hrecord
        obtain ⟨-, element, -, hholds⟩ := holds_recordOf mem appkey hwork.tidy hk (hnull k hk)
        exact ⟨k, _, hkname ▸ hholds⟩
      · have hold := (hvalues name (hsound.ne_appkey hget)).2 hwritten
        rw [hget] at hold
        split at hold
        · cases hold
        · exact h.recorded name (((hknown name).mp hname).resolve_right hwritten) bytes hold.symm
    · rw [hsmembers]
      refine held_savedState hfolds hkey h.sound.keys hwork hcopies h.value ?_ fun hwritten =>
        hfits.2 (mem_namesIn_written.mpr hwritten)
      rintro ⟨k, hk, hname⟩
      refine hfits.1 ?_
      rw [(keyStates_eq a).2.1, namesIn, List.map_map]
      exact List.mem_map.mpr ⟨k, hk, hname⟩

/-! ## Whole runs -/

/-- A step in order: it does not lose the variable, and its call, if it is one, fits. -/
def RunsWell (oleLoad : Bytes → Option ComObject) (appkey : Bytes) (key : Bstr)
    (σ : ApplicationSystem loc) (e : Event) : Prop :=
  StepFits appkey (nameIn appkey key) σ e ∧
    ∀ i mem call a, e = .call i mem call → σ.stage i = .working a → CallFits mem oleLoad a call

/-- **One step**: the variable has a step with the same event. -/
theorem refinesVariable_step (hfolds : FoldsAscii loc) (hkey : GoodKey key) {e : Event}
    (h : RefinesVariable appkey key σ v) (hok : RunsWell oleLoad appkey key σ e)
    (hstep : σ.step cp oleLoad appkey e = .ok σ') :
    ∃ v', v.Step loc appkey key e v' ∧ RefinesVariable appkey key σ' v' := by
  cases e with
  | smembers i => exact refinesVariable_smembers h hstep
  | mget i => exact refinesVariable_mget h hstep
  | srem i mem => exact refinesVariable_srem hfolds hkey h hok.1 hstep
  | call i mem call =>
    exact refinesVariable_call hfolds hkey h (fun a hstage => hok.2 i mem call a rfl hstage) hstep
  | commit i mem => exact refinesVariable_commit hfolds hkey h hok.1 hstep
  | expire name => exact refinesVariable_expire h hstep

/-- INTERNAL: an application without keys. -/
theorem refinesVariable_start {store : Keyspace} (hnone : store appkey = none) :
    RefinesVariable appkey key (start store : ApplicationSystem loc) .start := by
  have hkeys : KeySet store appkey [] := ⟨List.nodup_nil, hnone⟩
  have hmembers : store.smembers appkey = [] := hkeys.smembers
  refine ⟨⟨?_, fun hmem => absurd hmem List.not_mem_nil⟩, fun name hname => ?_,
    fun name hname => absurd hname List.not_mem_nil, fun hmem => ?_, fun i => trivial⟩
  · change KeySet store appkey (store.smembers appkey)
    rw [hmembers]
    exact hkeys
  · change name ∈ store.smembers appkey at hname
    rw [hmembers] at hname
    cases hname
  · change nameIn appkey key ∈ store.smembers appkey at hmem
    rw [hmembers] at hmem
    cases hmem

/-- INTERNAL: a fresh load finds the variable as it is. -/
theorem RefinesVariable.loads (hfolds : FoldsAscii loc) (hkey : GoodKey key)
    (h : RefinesVariable appkey key σ v) (mem : Memory) {keys : List Bytes}
    (hreply : keys.Perm (σ.store.smembers appkey)) : ∃ s a,
      CApplicationDL.applicationGet mem appkey σ.store keys (.new : CApplication loc) = .ok (s, a) ∧
        (a.find key).map (fun element => persisted element.val) = v.value := by
  have hholding : Holding loc appkey σ.store (σ.store.smembers appkey) :=
    ⟨h.sound.keys, fun name hname => h.recorded name (h.known name hname)⟩
  obtain ⟨s, a, members, hget, hloaded, -⟩ := applicationGet_spec hfolds mem hholding hreply
  have hheld : HeldIn loc appkey key keys σ.store v.value := by
    have hvalue := h.value
    cases hv : v.value with
    | none =>
      rw [hv] at hvalue
      exact fun hmem => hvalue (hreply.mem_iff.mp hmem)
    | some val =>
      rw [hv] at hvalue
      exact ⟨hreply.mem_iff.mpr hvalue.1, hvalue.2⟩
  exact ⟨s, a, hget, (copies_loaded hfolds hkey hloaded hheld).2.value⟩

/-- There is a run of the shared variable with these events, such that every request at work has the
variable as its copy is, and a request that loads the application next finds what was committed
last. -/
def SharesVariable (loc : Collation) (appkey : Bytes) (key : Bstr) (events : List Event)
    (σ : ApplicationSystem loc) : Prop :=
  ∃ v, Runs.Leads (SharedVariable.Step loc appkey key) events .start v ∧
    (∀ i a, σ.stage i = .working a → ∃ value changed, v.reading i = .working value changed ∧
      (a.find key).map (fun element => persisted element.val) = value) ∧
    ∀ mem keys, keys.Perm (σ.store.smembers appkey) → ∃ s b,
      CApplicationDL.applicationGet mem appkey σ.store keys (.new : CApplication loc) =
        .ok (s, b) ∧ (b.find key).map (fun element => persisted element.val) = v.value

/-- **The variables of an application are shared one by one**: every run of requests at the same time
whose steps fit is a run of each shared variable. -/
theorem variables_shared (hfolds : FoldsAscii loc) (hkey : GoodKey key) {store : Keyspace}
    (hnone : store appkey = none) {events : List Event}
    (hm : Runs.Meets (ApplicationSystem.step cp oleLoad appkey) (RunsWell oleLoad appkey key) events
      (start store : ApplicationSystem loc))
    (hrun : Runs.run (ApplicationSystem.step cp oleLoad appkey) events (start store) = .ok σ) :
    SharesVariable loc appkey key events σ := by
  obtain ⟨v, hleads, hrep⟩ := Runs.run_refines (SharedVariable.Step loc appkey key)
    (RefinesVariable appkey key) (fun _ _ _ _ h hok hstep => refinesVariable_step hfolds hkey h hok hstep)
    (refinesVariable_start hnone) hm hrun
  refine ⟨v, hleads, fun i a hstage => ?_, fun mem keys hreply => hrep.loads hfolds hkey mem hreply⟩
  have hstands := hrep.stands i
  rw [hstage] at hstands
  cases hreading : v.reading i with
  | working value changed =>
    rw [hreading] at hstands
    exact ⟨value, changed, rfl, hstands.2.value⟩
  | idle =>
    rw [hreading] at hstands
    exact hstands.elim
  | asked found =>
    rw [hreading] at hstands
    exact hstands.elim
  | answered value =>
    rw [hreading] at hstands
    exact hstands.elim

end System

/-! ## Two requests at the same time -/

/-- INTERNAL: a run whose steps do not lose the variable, and whose calls fit whatever the
application is. -/
theorem meets_runsWell {cp : CodePage} {oleLoad : Bytes → Option ComObject} {appkey : Bytes}
    {key : Bstr} {events : List Event} {σ : ApplicationSystem loc}
    (hfits : Runs.Meets (ApplicationSystem.step cp oleLoad appkey)
      (StepFits appkey (nameIn appkey key)) events σ)
    (hcalls : ∀ i mem call, Event.call i mem call ∈ events →
      ∀ a : CApplication loc, CallFits mem oleLoad a call) :
    Runs.Meets (ApplicationSystem.step cp oleLoad appkey) (RunsWell oleLoad appkey key) events σ := by
  induction events generalizing σ with
  | nil => trivial
  | cons e events ih =>
    refine ⟨⟨hfits.1, fun i mem call a he _ => hcalls i mem call (by simp [he]) a⟩, fun σ' hσ' => ?_⟩
    exact ih (hfits.2 σ' hσ') fun i mem call hmem => hcalls i mem call (by simp [hmem])

/-- INTERNAL: a number can be put under a good key. -/
theorem callFits_putNumber {mem : Memory} {oleLoad : Bytes → Option ComObject} {key : Bstr}
    (hkey : GoodKey key) (n : ℤ) (a : CApplication loc) :
    CallFits mem oleLoad a (.putValue key (.value (.scalar .i4 n)) []) := by
  refine ⟨⟨(a.touch (lpcolestr key)).update (lpcolestr key) fun e => { e with val := .scalar .i4 n },
    ?_⟩, hkey, _, rfl, ⟨trivial, trivial, trivial⟩, rfl⟩
  rw [CApplication.perform, CApplication.putValue, if_neg hkey.nonempty]
  rfl

/-- Two requests load the application at the same time, and each sets a variable of its own. -/
def twoPages : List Event :=
  [.smembers 0, .smembers 1, .mget 0, .mget 1, .srem 0 .zero, .srem 1 .zero,
    .call 0 .zero (.putValue [97] (.value (.scalar .i4 5)) []),
    .call 1 .zero (.putValue [98] (.value (.scalar .i4 7)) []), .commit 1 .zero, .commit 0 .zero]

/-- Both variables are there afterwards. -/
theorem twoPages_shared : ∃ σ : ApplicationSystem ignoringCase,
    Runs.run (ApplicationSystem.step .latin1 (fun _ => none) [65]) twoPages
      (start emptyDatabase) = .ok σ ∧
    SharesVariable ignoringCase [65] [97] twoPages σ ∧
      SharesVariable ignoringCase [65] [98] twoPages σ := by
  have hok : (Runs.run (ApplicationSystem.step .latin1 (fun _ => none) [65]) twoPages
      (start emptyDatabase : ApplicationSystem ignoringCase)).toOption.isSome = true := by
    decide +kernel
  obtain ⟨σ, hσ⟩ := Option.isSome_iff_exists.mp hok
  have hrun := Run.eq_ok_of_toOption hσ
  have hgood : ∀ u : UInt16, u = 97 ∨ u = 98 → GoodKey [u] := by
    rintro u (rfl | rfl)
    · exact ⟨by decide, by simp, by decide, by unfold StringFits; decide⟩
    · exact ⟨by decide, by simp, by decide, by unfold StringFits; decide⟩
  have hcalls : ∀ i mem call, Event.call i mem call ∈ twoPages →
      ∀ a : CApplication ignoringCase, CallFits mem (fun _ => none) a call := by
    intro i mem call hmem a
    simp only [twoPages, List.mem_cons, reduceCtorEq, Event.call.injEq, List.not_mem_nil,
      or_false, false_or] at hmem
    rcases hmem with ⟨-, -, rfl⟩ | ⟨-, -, rfl⟩
    · exact callFits_putNumber (hgood 97 (.inl rfl)) 5 a
    · exact callFits_putNumber (hgood 98 (.inr rfl)) 7 a
  refine ⟨σ, hrun, ?_, ?_⟩
  · have hfits : Runs.Meets (ApplicationSystem.step .latin1 (fun _ => none) [65])
        (StepFits [65] (nameIn [65] [97])) twoPages
        (start emptyDatabase : ApplicationSystem ignoringCase) := by decide +kernel
    exact variables_shared foldsAscii_ignoringCase (hgood 97 (.inl rfl)) rfl
      (meets_runsWell hfits hcalls) hrun
  · have hfits : Runs.Meets (ApplicationSystem.step .latin1 (fun _ => none) [65])
        (StepFits [65] (nameIn [65] [98])) twoPages
        (start emptyDatabase : ApplicationSystem ignoringCase) := by decide +kernel
    exact variables_shared foldsAscii_ignoringCase (hgood 98 (.inr rfl)) rfl
      (meets_runsWell hfits hcalls) hrun

end IspSession.Analysis
