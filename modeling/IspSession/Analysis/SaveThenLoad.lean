import IspSession.Analysis.ApplicationRequests

/-!
# Saving an application and loading it again

`savedAndLoaded_iff`: after a request, a fresh load gives back what the request ended with
exactly when

* no key that is there at the end is also noted as removed (its removal is sent after its
  addition), and every loaded key that is gone is noted;
* no element that is flagged as a stream holds a live object;
* no key is empty.
-/

set_option autoImplicit false

namespace IspSession.Analysis

open IspSession.Library IspSession.Model

variable {loc : Collation}

/-! ## Loading what was saved -/

/-- A save succeeds, and whatever the memory holds and in whatever order Redis gives the
members, a fresh load gives back the keys with their values, objects as streams. -/
def SavedAndLoaded (cp : CodePage) (mem : Memory) (appkey : Bytes) (s : Keyspace)
    (a : CApplication loc) : Prop :=
  ∃ s' a', CApplicationDL.applicationSave cp mem appkey s a = .ok (s', a') ∧
    ∀ (mem' : Memory) (keys : List Bytes), keys.Perm (s'.smembers appkey) → ∃ s'' b,
      CApplicationDL.applicationGet mem' appkey s' keys (.new : CApplication loc) = .ok (s'', b) ∧
      ∀ key, (b.find key).map ElementModel.val =
        (a.find key).map fun element => persisted element.val

/-- The value is a live object. -/
def holdsLive : Variant → Bool
  | .dispatch (.live _ _) | .unknown (.live _ _) => true
  | _ => false

/-- **The condition** on the application before it is saved, and the one that was
loaded. -/
structure SaveFits (appkey : Bytes) (a₀ a : CApplication loc) : Prop where
  /-- No key that is there is noted as removed. -/
  kept : ∀ e ∈ a.dictionary.entries, nameIn appkey e.1 ∉ removedNames appkey a
  /-- Every loaded key that is gone is noted. -/
  gone : ∀ e ∈ a₀.dictionary.entries, (a.find e.1).isNone = true →
    nameIn appkey e.1 ∈ removedNames appkey a
  /-- No element flagged as a stream holds a live object. -/
  streams : ∀ e ∈ a.dictionary.entries, e.2.isSerialized = true → holdsLive e.2.val = false
  /-- No key is empty. -/
  nonempty : ∀ e ∈ a.dictionary.entries, e.1 ≠ []

instance (appkey : Bytes) (a₀ a : CApplication loc) : Decidable (SaveFits appkey a₀ a) :=
  decidable_of_iff
    ((∀ e ∈ a.dictionary.entries, nameIn appkey e.1 ∉ removedNames appkey a) ∧
      (∀ e ∈ a₀.dictionary.entries, (a.find e.1).isNone = true →
        nameIn appkey e.1 ∈ removedNames appkey a) ∧
      (∀ e ∈ a.dictionary.entries, e.2.isSerialized = true → holdsLive e.2.val = false) ∧
      ∀ e ∈ a.dictionary.entries, e.1 ≠ [])
    ⟨fun h => ⟨h.1, h.2.1, h.2.2.1, h.2.2.2⟩, fun h => ⟨h.kept, h.gone, h.streams, h.nonempty⟩⟩

/-- INTERNAL: a member with a record is found. -/
theorem Loaded.find_of_holds (hfolds : FoldsAscii loc) {appkey : Bytes} {s : Keyspace}
    {names : List Bytes} {b : CApplication loc} (h : Loaded appkey s names b) {name bytes : Bytes}
    (hname : name ∈ names) (hget : s.get name = some bytes) {key : Bstr} {val : Variant}
    (hholds : HoldsRecord loc appkey name bytes key val) : b.find key = some (loadedElement val) := by
  obtain ⟨key', val', hholds', hfind⟩ := h.found name hname bytes hget
  obtain ⟨hk, rfl⟩ := hholds'.unique hfolds hholds
  exact (b.dictionary.find_congr hk).trans hfind

/-- INTERNAL: what is found is a member with a record. -/
theorem Loaded.holds_of_find (hfolds : FoldsAscii loc) {appkey : Bytes} {s : Keyspace}
    {names : List Bytes} {b : CApplication loc} (h : Loaded appkey s names b) {key : Bstr}
    (hkey : Keylike key) {element : ElementModel} (hfind : b.find key = some element) :
    nameIn appkey key ∈ names ∧ ∃ bytes key' val, s.get (nameIn appkey key) = some bytes ∧
      HoldsRecord loc appkey (nameIn appkey key) bytes key' val ∧ loc.compare key key' = .eq ∧
        element = loadedElement val := by
  obtain ⟨name, hname, bytes, key', val, hget, hholds, hk, heq⟩ := h.only key element hfind
  have hsame : nameIn appkey key = name :=
    ((nameIn_eq_iff hfolds appkey hkey hholds.keylike).mpr hk).trans hholds.name
  subst hsame
  exact ⟨hname, bytes, key', val, hget, hholds, hk, heq⟩

section Request

variable {appkey : Bytes} {s : Keyspace} {members names : List Bytes} {a₀ a b : CApplication loc}
  {mem : Memory}

/-- The situation before a save: the set of keys has the members that were loaded, each of
which has a value. -/
structure BeforeSave (appkey : Bytes) (s : Keyspace) (members : List Bytes)
    (a₀ a : CApplication loc) : Prop where
  holding : Holding loc appkey s members
  loaded : Loaded appkey s members a₀
  values : ∀ name ∈ members, s.get name ≠ none
  tidy : Tidy a
  follows : Follows a₀ a

/-- INTERNAL: no written key holds a null object. -/
theorem BeforeSave.no_null (h : BeforeSave appkey s members a₀ a) :
    ∀ key ∈ writtenKeys a, holdsNull a key = false := by
  intro key hkey
  obtain ⟨-, element, hfind, -⟩ : GoodKey key ∧
      ∃ element, a.find key = some element ∧ Holdable element.val :=
    (List.mem_append.mp hkey).elim h.tidy.keysWhere h.tidy.keysWhere
  rw [holdsNull, hfind]
  exact h.follows.value key element hfind

/-- INTERNAL: a loaded key is a member with a record. -/
theorem BeforeSave.member (hfolds : FoldsAscii loc) (h : BeforeSave appkey s members a₀ a)
    {key : Bstr} (hkey : Keylike key) {element : ElementModel}
    (hfind : a₀.find key = some element) : nameIn appkey key ∈ members :=
  (h.loaded.holds_of_find hfolds hkey hfind).1

/-- INTERNAL: a written key that is not noted as removed is loaded with its record. -/
theorem BeforeSave.find_written (hfolds : FoldsAscii loc) (h : BeforeSave appkey s members a₀ a)
    (hb : Loaded appkey (savedState mem appkey s a) names b)
    (hnames : ∀ name, name ∈ names ↔ name ∈ savedMembers appkey a members) {key : Bstr}
    (hkey : key ∈ writtenKeys a) (hkept : nameIn appkey key ∉ removedNames appkey a)
    {element : ElementModel} (hfind : a.find key = some element) :
    b.find key = some (loadedElement (loadedValue true (storedAs element)).2) := by
  obtain ⟨hkeys, hmembers, hvalues⟩ := savedState_spec mem appkey h.holding.keys a
  obtain ⟨hgood, element', hfind', hholds⟩ :=
    holds_recordOf mem appkey h.tidy hkey (h.no_null key hkey)
  rw [hfind] at hfind'
  cases hfind'
  have hmember : nameIn appkey key ∈ names := by
    rw [hnames, hmembers]
    refine ⟨?_, hkept⟩
    rcases List.mem_append.mp hkey with hnew | hdirty
    · exact .inr (List.mem_map_of_mem hnew)
    · obtain ⟨-, el, hfind', hold⟩ := find_of_mem_keysWhere hdirty
      rw [hfind] at hfind'
      cases hfind'
      obtain ⟨element₀, hfind₀, -⟩ := h.follows.old key element hfind (by simpa using
        (Bool.and_eq_true_iff.mp hold).1)
      exact .inl (h.member hfolds hholds.keylike hfind₀)
  obtain ⟨key', hkey', hname, hget⟩ :=
    (hvalues _ (nameIn_ne appkey key)).1 ⟨key, hkey, rfl⟩
  obtain ⟨hgood', element', hfind', hholds'⟩ :=
    holds_recordOf mem appkey h.tidy hkey' (h.no_null key' hkey')
  -- the record under the name is that of the key
  have hk : loc.compare key key' = .eq :=
    (nameIn_eq_iff hfolds appkey hholds.keylike hholds'.keylike).mp hname.symm
  have hsame : a.find key = a.find key' := a.dictionary.find_congr hk
  rw [hfind, hfind'] at hsame
  cases hsame
  rw [hname] at hholds'
  exact (b.dictionary.find_congr hk).trans (hb.find_of_holds hfolds hmember hget hholds')

/-- INTERNAL: a member that is neither written nor removed is loaded as before. -/
theorem BeforeSave.find_unwritten (hfolds : FoldsAscii loc)
    (h : BeforeSave appkey s members a₀ a)
    (hb : Loaded appkey (savedState mem appkey s a) names b)
    (hnames : ∀ name, name ∈ names ↔ name ∈ savedMembers appkey a members) {key : Bstr}
    (hkey : Keylike key) (hkept : nameIn appkey key ∉ removedNames appkey a)
    (hunwritten : ¬ ∃ k ∈ writtenKeys a, nameIn appkey k = nameIn appkey key)
    {element : ElementModel} (hfind : a₀.find key = some element) :
    b.find key = some element ∧ Restored element.val := by
  obtain ⟨hkeys, hmembers, hvalues⟩ := savedState_spec mem appkey h.holding.keys a
  obtain ⟨hmem, bytes, key', val, hget, hholds, hk, rfl⟩ :=
    h.loaded.holds_of_find hfolds hkey hfind
  have hmember : nameIn appkey key ∈ names := by
    rw [hnames, hmembers]
    exact ⟨.inl hmem, hkept⟩
  have hget' := (hvalues _ (nameIn_ne appkey key)).2 hunwritten
  rw [if_neg hkept, hget] at hget'
  exact ⟨(b.dictionary.find_congr hk).trans (hb.find_of_holds hfolds hmember hget' hholds),
    hholds.restored⟩

/-- INTERNAL: a key with the name of a written one is written. -/
theorem BeforeSave.find_of_name (hfolds : FoldsAscii loc) (h : BeforeSave appkey s members a₀ a)
    {key k : Bstr} (hkey : Keylike key) (hk : k ∈ writtenKeys a)
    (hname : nameIn appkey k = nameIn appkey key) :
    ∃ element, a.find key = some element ∧ a.find k = some element ∧
      (element.isNew = true ∨ element.isDirty = true) := by
  obtain ⟨hgood, element, hfind, -⟩ : GoodKey k ∧
      ∃ element, a.find k = some element ∧ Holdable element.val :=
    (List.mem_append.mp hk).elim h.tidy.keysWhere h.tidy.keysWhere
  have heq := (nameIn_eq_iff hfolds appkey ⟨hgood.nonzero, hgood.ascii⟩ hkey).mp hname
  refine ⟨element, (a.dictionary.find_congr heq).symm.trans hfind, hfind, ?_⟩
  rcases List.mem_append.mp hk with hnew | hdirty
  · obtain ⟨-, el, hfind', hp⟩ := find_of_mem_keysWhere hnew
    rw [hfind] at hfind'
    cases hfind'
    exact .inl hp
  · obtain ⟨-, el, hfind', hp⟩ := find_of_mem_keysWhere hdirty
    rw [hfind] at hfind'
    cases hfind'
    exact .inr (Bool.and_eq_true_iff.mp hp).2

/-- INTERNAL: an entry that is new or dirty is written. -/
theorem mem_writtenKeys {e : Bstr × ElementModel} (he : e ∈ a.dictionary.entries)
    (hne : e.1 ≠ []) (hp : e.2.isNew = true ∨ e.2.isDirty = true) : e.1 ∈ writtenKeys a := by
  rw [writtenKeys, List.mem_append]
  cases hnew : e.2.isNew with
  | true => exact .inl (mem_keysWhere.mpr ⟨hne, e.2, he, hnew⟩)
  | false =>
    have hdirty : e.2.isDirty = true := hp.resolve_left fun h => by rw [hnew] at h; cases h
    exact .inr (mem_keysWhere.mpr ⟨hne, e.2, he, by rw [hnew, hdirty]; rfl⟩)

/-- INTERNAL: what an element that is no flagged live object is stored as. -/
theorem loadedValue_storedAs {element : ElementModel} (hval : Holdable element.val)
    (hnull : nullObject element.val = false)
    (hstream : element.isSerialized = true → holdsLive element.val = false) :
    (loadedValue true (storedAs element)).2 = persisted element.val := by
  unfold storedAs
  cases hv : element.val with
  | dispatch o =>
    rw [hv] at hval hnull hstream
    rcases hval with rfl | ⟨bytes, rfl, -⟩ | ⟨bytes, rfl, -⟩
    · cases hnull
    · rw [if_neg fun h => by cases hstream h]
      rfl
    · split <;> rfl
  | unknown o =>
    rw [hv] at hval hnull hstream
    rcases hval with rfl | ⟨bytes, rfl, -⟩ | ⟨bytes, rfl, -⟩
    · cases hnull
    · rw [if_neg fun h => by cases hstream h]
      rfl
    · split <;> rfl
  | _ => split <;> rfl

/-- INTERNAL: a flagged live object is lost. -/
theorem loadedValue_storedAs_live {element : ElementModel} (hval : Holdable element.val)
    (hflag : element.isSerialized = true) (hlive : holdsLive element.val = true) :
    (loadedValue true (storedAs element)).2 ≠ persisted element.val := by
  unfold storedAs
  rw [if_pos hflag]
  cases hv : element.val with
  | dispatch o =>
    rw [hv] at hval hlive
    rcases hval with rfl | ⟨bytes, rfl, -⟩ | ⟨bytes, rfl, -⟩
    · cases hlive
    · exact fun h => by cases h
    · cases hlive
  | unknown o =>
    rw [hv] at hval hlive
    rcases hval with rfl | ⟨bytes, rfl, -⟩ | ⟨bytes, rfl, -⟩
    · cases hlive
    · exact fun h => by cases h
    · cases hlive
  | _ => rw [hv] at hlive; cases hlive

/-- INTERNAL: where the condition holds, everything is loaded again and nothing else. -/
theorem BeforeSave.loads_back (hfolds : FoldsAscii loc) (h : BeforeSave appkey s members a₀ a)
    (hfits : SaveFits appkey a₀ a) (hb : Loaded appkey (savedState mem appkey s a) names b)
    (hnames : ∀ name, name ∈ names ↔ name ∈ savedMembers appkey a members) (key : Bstr) :
    (b.find key).map ElementModel.val = (a.find key).map fun element => persisted element.val := by
  obtain ⟨hkeys, hmembers, hvalues⟩ := savedState_spec mem appkey h.holding.keys a
  cases hfind : a.find key with
  | some element =>
    obtain ⟨e, he, hk, rfl⟩ := OrderedMap.exists_of_find hfind
    have hkey := (h.tidy e he).1
    have hne := hfits.nonempty e he
    have hkept := hfits.kept e he
    have hfind' : a.find e.1 = some e.2 := OrderedMap.find_of_mem he
    have hnull := h.follows.value e.1 e.2 hfind'
    have hsame : b.find key = b.find e.1 := b.dictionary.find_congr hk
    rw [hsame]
    by_cases hp : e.2.isNew = true ∨ e.2.isDirty = true
    · rw [h.find_written hfolds hb hnames (mem_writtenKeys he hne hp) hkept hfind',
        loadedValue_storedAs (h.tidy e he).2.2 hnull (hfits.streams e he)]
      rfl
    · -- a clean key keeps the record it was loaded from
      rw [not_or] at hp
      obtain ⟨element₀, hfind₀, hval⟩ := h.follows.old e.1 e.2 hfind' (by simpa using hp.1)
      have hunwritten : ¬ ∃ k ∈ writtenKeys a, nameIn appkey k = nameIn appkey e.1 := by
        rintro ⟨k, hk, hname⟩
        obtain ⟨element, hfind'', -, hwritten⟩ := h.find_of_name hfolds hkey hk hname
        rw [hfind'] at hfind''
        cases hfind''
        exact hwritten.elim hp.1 hp.2
      obtain ⟨hloaded, hrestored⟩ := h.find_unwritten hfolds hb hnames hkey hkept hunwritten hfind₀
      rw [hloaded, Option.map_some, Option.map_some, hval (by simpa using hp.2),
        hrestored.loadedValue.2]
  | none =>
    cases hfindB : b.find key with
    | none => rfl
    | some element =>
      exfalso
      obtain ⟨name, hname, bytes, key', val, hget, hholds, hk, -⟩ := hb.only key element hfindB
      have hnone : a.find key' = none := (a.dictionary.find_congr hk).symm.trans hfind
      rw [hnames, hmembers] at hname
      obtain ⟨hmem | hnew, hkept⟩ := hname
      · obtain ⟨bytes', hbytes⟩ := Option.ne_none_iff_exists'.mp (h.values name hmem)
        obtain ⟨key₀, val₀, hholds₀, hfind₀⟩ := h.loaded.found name hmem bytes' hbytes
        obtain ⟨e, he, hk₀, -⟩ := OrderedMap.exists_of_find hfind₀
        have hkeylike : Keylike e.1 := (h.loaded.tidy e he).1
        have hname₀ : nameIn appkey e.1 = name :=
          ((nameIn_eq_iff hfolds appkey hholds₀.keylike hkeylike).mpr hk₀).symm.trans hholds₀.name
        have hk' : loc.compare e.1 key' = .eq :=
          (nameIn_eq_iff hfolds appkey hkeylike hholds.keylike).mp (hname₀.trans hholds.name.symm)
        have hgone : (a.find e.1).isNone = true := by
          have hsame : a.find e.1 = none := (a.dictionary.find_congr hk').trans hnone
          rw [hsame]
          rfl
        exact hkept (hname₀ ▸ hfits.gone e he hgone)
      · obtain ⟨k, hk, hname⟩ := List.mem_map.mp hnew
        obtain ⟨element', hfind', -, -⟩ := h.find_of_name hfolds hholds.keylike
          (List.mem_append_left _ hk) (hname.trans hholds.name.symm)
        rw [hnone] at hfind'
        cases hfind'

/-- INTERNAL: where everything is loaded again and nothing else, the condition holds. -/
theorem BeforeSave.saveFits (hfolds : FoldsAscii loc) (h : BeforeSave appkey s members a₀ a)
    (hb : Loaded appkey (savedState mem appkey s a) names b)
    (hnames : ∀ name, name ∈ names ↔ name ∈ savedMembers appkey a members)
    (hback : ∀ key, (b.find key).map ElementModel.val =
      (a.find key).map fun element => persisted element.val) : SaveFits appkey a₀ a := by
  obtain ⟨hkeys, hmembers, hvalues⟩ := savedState_spec mem appkey h.holding.keys a
  -- a key that is there at the end is found by the load
  have hfound : ∀ e ∈ a.dictionary.entries, ∃ element, b.find e.1 = some element ∧
      element.val = persisted e.2.val := by
    intro e he
    have hkey := hback e.1
    have hfind : a.find e.1 = some e.2 := OrderedMap.find_of_mem he
    rw [hfind] at hkey
    exact Option.map_eq_some_iff.mp hkey
  have hkept : ∀ e ∈ a.dictionary.entries, nameIn appkey e.1 ∉ removedNames appkey a := by
    intro e he
    obtain ⟨element, hfind, -⟩ := hfound e he
    have hname := (hb.holds_of_find hfolds (h.tidy e he).1 hfind).1
    rw [hnames, hmembers] at hname
    exact hname.2
  have hnonempty : ∀ e ∈ a.dictionary.entries, e.1 ≠ [] := by
    intro e he hnil
    obtain ⟨element, hfind, -⟩ := hfound e he
    obtain ⟨-, bytes, key', val, -, hholds, hk, -⟩ :=
      hb.holds_of_find hfolds (h.tidy e he).1 hfind
    have heq := (hfolds e.1 key' (h.tidy e he).1 hholds.keylike).mp hk
    rw [hnil, List.map_nil] at heq
    exact hholds.good.nonempty (List.map_eq_nil_iff.mp heq.symm)
  refine ⟨hkept, ?_, ?_, hnonempty⟩
  · intro e he hnone
    rw [Option.isNone_iff_eq_none] at hnone
    by_contra hnot
    have hfind₀ : a₀.find e.1 = some e.2 := OrderedMap.find_of_mem he
    have hkeylike := (h.loaded.tidy e he).1
    have hunwritten : ¬ ∃ k ∈ writtenKeys a, nameIn appkey k = nameIn appkey e.1 := by
      rintro ⟨k, hk, hname⟩
      obtain ⟨element, hfind, -, -⟩ := h.find_of_name hfolds hkeylike hk hname
      rw [hnone] at hfind
      cases hfind
    have hloaded := (h.find_unwritten hfolds hb hnames hkeylike hnot hunwritten hfind₀).1
    have hkey := hback e.1
    rw [hloaded, hnone] at hkey
    cases hkey
  · intro e he hflag
    by_contra hlive
    have hlive : holdsLive e.2.val = true := by simpa using hlive
    have hfind : a.find e.1 = some e.2 := OrderedMap.find_of_mem he
    have hp : e.2.isNew = true ∨ e.2.isDirty = true := by
      by_contra hclean
      rw [not_or] at hclean
      obtain ⟨element₀, hfind₀, hval⟩ := h.follows.old e.1 e.2 hfind (by simpa using hclean.1)
      obtain ⟨-, bytes, key', val, -, hholds, -, rfl⟩ :=
        h.loaded.holds_of_find hfolds (h.tidy e he).1 hfind₀
      have heq := hval (by simpa using hclean.2)
      rw [heq] at hlive
      -- a loaded object is a stream
      have hrestored := hholds.restored
      change holdsLive val = true at hlive
      cases val with
      | dispatch o => obtain ⟨bytes, rfl, -⟩ := hrestored; cases hlive
      | unknown o => obtain ⟨bytes, rfl, -⟩ := hrestored; cases hlive
      | _ => cases hlive
    obtain ⟨element, hfindB, hval⟩ := hfound e he
    rw [h.find_written hfolds hb hnames (mem_writtenKeys he (hnonempty e he) hp) (hkept e he)
      hfind] at hfindB
    cases hfindB
    exact loadedValue_storedAs_live (h.tidy e he).2.2 hflag hlive hval

/-- INTERNAL: one save, and the loads after it. -/
theorem BeforeSave.loads_iff (hfolds : FoldsAscii loc) (cp : CodePage)
    (h : BeforeSave appkey s members a₀ a) :
    SavedAndLoaded cp mem appkey s a ↔ SaveFits appkey a₀ a := by
  obtain ⟨a', hsave⟩ := (applicationSave_spec cp mem appkey s h.tidy).1 h.no_null
  have hafter := h.holding.save mem h.tidy h.no_null
  have hmembers := hafter.keys.smembers
  constructor
  · rintro ⟨s', a'', hsave', hloads⟩
    rw [hsave] at hsave'
    cases hsave'
    obtain ⟨s'', b, hget, hback⟩ := hloads mem _ (List.Perm.refl _)
    obtain ⟨s₂, b', members', hget', hb, -⟩ := applicationGet_spec hfolds mem hafter
      (List.Perm.of_eq hmembers)
    rw [hget] at hget'
    cases hget'
    exact h.saveFits hfolds hb (fun name => by rw [hmembers]) hback
  · intro hfits
    refine ⟨_, a', hsave, fun mem' keys hreply => ?_⟩
    rw [hmembers] at hreply
    obtain ⟨s'', b, members', hget, hb, -⟩ := applicationGet_spec hfolds mem' hafter hreply
    exact ⟨s'', b, hget, h.loads_back hfolds hfits hb fun name => hreply.mem_iff⟩

end Request

/-- **A fresh load gives back exactly what a request ended with when, and only when,
`SaveFits` holds before the save.** -/
theorem savedAndLoaded_iff (hfolds : FoldsAscii loc) {cp : CodePage} {mem : Memory}
    {oleLoad : Bytes → Option ComObject}
    (hload : ∀ bytes o, oleLoad bytes = some o → SavesItself o) {appkey : Bytes}
    {s s₁ : Keyspace} {keys : List Bytes} {a₀ a : CApplication loc} {calls : List CApplication.Call}
    (hs : LeftByRequests loc cp oleLoad appkey s) (hreply : keys.Perm (s.smembers appkey))
    (hget : CApplicationDL.applicationGet mem appkey s keys .new = .ok (s₁, a₀))
    (hcalls : ∀ call ∈ calls, SupportedCall call)
    (hrun : Runs.run (CApplication.perform mem oleLoad) calls a₀ = .ok a) :
    SavedAndLoaded cp mem appkey s₁ a ↔ SaveFits appkey a₀ a := by
  have hholding := hs.holding hfolds hload
  obtain ⟨s₂, a₁, members, hget', hloaded, hafter, hmembers, hsame⟩ :=
    applicationGet_spec hfolds mem hholding hreply
  rw [hget] at hget'
  cases hget'
  -- the members that are left are those that were loaded
  have hvalue : ∀ name bytes, s.get name = some bytes → (s₁.get name = some bytes ∨ name = appkey) := by
    intro name bytes hbytes
    by_cases happ : name = appkey
    · exact .inr happ
    · rw [Keyspace.get, hsame name happ]
      exact .inl hbytes
  have hnot : s.get appkey = none := by
    rw [Keyspace.get, hholding.keys.entry, Keyspace.setEntry]
    by_cases hempty : s.smembers appkey = []
    · rw [dif_pos hempty]
    · rw [dif_neg hempty]
  have hlive : ∀ name bytes, s.get name = some bytes → s₁.get name = some bytes := by
    intro name bytes hbytes
    refine (hvalue name bytes hbytes).resolve_right ?_
    rintro rfl
    rw [hnot] at hbytes
    cases hbytes
  have hbefore : BeforeSave appkey s₁ members a₀ a := by
    refine ⟨hafter, ⟨hloaded.removed, hloaded.tidy, ?_, ?_⟩, ?_,
      hloaded.tidy.run hload (fun call hc => .inl (hcalls call hc)) hrun,
      hloaded.follows.run hcalls hrun⟩
    · intro name hname bytes hbytes
      obtain ⟨hmem, hsome⟩ := (hmembers name).mp hname
      obtain ⟨bytes', hbytes'⟩ := Option.ne_none_iff_exists'.mp hsome
      rw [hlive name bytes' hbytes'] at hbytes
      cases hbytes
      exact hloaded.found name (hreply.mem_iff.mpr hmem) bytes hbytes'
    · intro key element hfind
      obtain ⟨name, hname, bytes, key', val, hbytes, rest⟩ := hloaded.only key element hfind
      exact ⟨name, (hmembers name).mpr ⟨hreply.mem_iff.mp hname, by rw [hbytes]; simp⟩, bytes, key',
        val, hlive name bytes hbytes, rest⟩
    · intro name hname
      obtain ⟨-, hsome⟩ := (hmembers name).mp hname
      obtain ⟨bytes, hbytes⟩ := Option.ne_none_iff_exists'.mp hsome
      rw [hlive name bytes hbytes]
      simp
  exact hbefore.loads_iff hfolds cp

/-! ## Requests on an empty database -/

/-- A first request, which stores a number and an object. -/
def storingRequest : List CApplication.Call :=
  [.putValue [97] (.value (.scalar .i4 5)) [],
    .putrefValue [98] (.value (.dispatch (.live true (some [7]))))]

/-- A second one, which changes the number by another spelling of its key. -/
def changingRequest : List CApplication.Call :=
  [.putValue [65] (.value (.scalar .i4 6)) [], .remove [98]]

/-- The state in which a request changes the keys, what it has loaded and what it ends with,
and the state and the application after the save. -/
abbrev RequestSteps : Type :=
  Keyspace × CApplication ignoringCase × CApplication ignoringCase × Keyspace ×
    CApplication ignoringCase

/-- A request. -/
def requestOn (s : Keyspace) (calls : List CApplication.Call) : Run RequestSteps := do
  let (s₁, a₀) ← CApplicationDL.applicationGet .zero [65] s (s.smembers [65]) .new
  let a ← Runs.run (CApplication.perform .zero fun _ => none) calls a₀
  let (s', a') ← CApplicationDL.applicationSave .latin1 .zero [65] s₁ a
  pure (s₁, a₀, a, s', a')

/-- INTERNAL: its parts. -/
theorem requestOn_eq_ok {s s₁ s' : Keyspace} {calls : List CApplication.Call}
    {a₀ a a' : CApplication ignoringCase} (h : requestOn s calls = .ok (s₁, a₀, a, s', a')) :
    CApplicationDL.applicationGet .zero [65] s (s.smembers [65]) .new = .ok (s₁, a₀) ∧
      Runs.run (CApplication.perform .zero fun _ => none) calls a₀ = .ok a ∧
      CApplicationDL.applicationSave .latin1 .zero [65] s₁ a = .ok (s', a') := by
  obtain ⟨⟨s₂, a₁⟩, hget, h⟩ := Run.bind_eq_ok h
  obtain ⟨a₂, hrun, h⟩ := Run.bind_eq_ok h
  obtain ⟨⟨s₃, a₃⟩, hsave, h⟩ := Run.bind_eq_ok h
  cases h
  exact ⟨hget, hrun, hsave⟩

/-- After the first request, a fresh load gives back what the second one ends with. -/
theorem changingRequest_savedAndLoaded : ∃ (s s₁ : Keyspace) (a₀ a : CApplication ignoringCase),
    LeftByRequests ignoringCase .latin1 (fun _ => none) [65] s ∧
      CApplicationDL.applicationGet .zero [65] s (s.smembers [65]) .new = .ok (s₁, a₀) ∧
      (a₀.find [97]).isSome = true ∧
      Runs.run (CApplication.perform .zero fun _ => none) changingRequest a₀ = .ok a ∧
      SavedAndLoaded .latin1 .zero [65] s₁ a := by
  have hfits : ((do
      let (_, _, _, s, _) ← requestOn emptyDatabase storingRequest
      requestOn s changingRequest : Run RequestSteps).toOption.map fun r =>
        (r.2.1.find [97]).isSome && decide (SaveFits [65] r.2.1 r.2.2.1)) = some true := by
    decide +kernel
  obtain ⟨⟨s₁, a₀, a, s', a'⟩, hok, hcheck⟩ := Option.map_eq_some_iff.mp hfits
  obtain ⟨⟨t₁, b₀, b, s, b'⟩, hfirst, hsecond⟩ := Run.bind_eq_ok (Run.eq_ok_of_toOption hok)
  obtain ⟨hget, hrun, hsave⟩ := requestOn_eq_ok hfirst
  obtain ⟨hget', hrun', -⟩ := requestOn_eq_ok hsecond
  obtain ⟨hloaded, hcheck⟩ := Bool.and_eq_true_iff.mp hcheck
  have hnumber : ∀ n : BitVec 32, Storeable (.scalar .i4 n) := fun _ => ⟨trivial, trivial, trivial⟩
  have hfirstCalls : ∀ call ∈ storingRequest, EarlierCall call := by
    intro call hcall
    refine .inl ?_
    simp only [storingRequest, List.mem_cons, List.not_mem_nil, or_false] at hcall
    rcases hcall with rfl | rfl
    · exact ⟨by decide, by unfold StringFits; decide, fun v hv => by cases hv; exact hnumber 5⟩
    · exact ⟨by decide, by unfold StringFits; decide, fun v hv => by
        cases hv
        exact ⟨[7], rfl, by unfold StreamFits; decide⟩⟩
  have hs : LeftByRequests ignoringCase .latin1 (fun _ => none) [65] s :=
    .request (.start rfl) (List.Perm.refl _) hget hfirstCalls hrun hsave
  refine ⟨s, s₁, a₀, a, hs, hget', hloaded, hrun', ?_⟩
  refine (savedAndLoaded_iff foldsAscii_ignoringCase (fun _ _ h => by cases h) hs
    (List.Perm.refl _) hget' ?_ hrun').mpr (of_decide_eq_true hcheck)
  intro call hcall
  simp only [changingRequest, List.mem_cons, List.not_mem_nil, or_false] at hcall
  rcases hcall with rfl | rfl
  · exact ⟨by decide, by unfold StringFits; decide, fun v hv => by cases hv; exact hnumber 6⟩
  · change AsciiUtf16 [98]
    decide

/-- **A key that is removed and put again is lost.** -/
theorem putAgain_not_savedAndLoaded : ∃ (s₁ : Keyspace) (a₀ a : CApplication ignoringCase),
    LeftByRequests ignoringCase .latin1 (fun _ => none) [65] emptyDatabase ∧
      CApplicationDL.applicationGet .zero [65] emptyDatabase [] .new = .ok (s₁, a₀) ∧
      Runs.run (CApplication.perform .zero fun _ => none)
        [.putValue [97] (.value (.scalar .i4 5)) [], .remove [97],
          .putValue [97] (.value (.scalar .i4 6)) []] a₀ = .ok a ∧
      ¬ SavedAndLoaded .latin1 .zero [65] s₁ a := by
  have hlost : ((do
      let (s₁, a₀, a, s', a') ← requestOn emptyDatabase
        [.putValue [97] (.value (.scalar .i4 5)) [], .remove [97],
          .putValue [97] (.value (.scalar .i4 6)) []]
      let (_, b) ← CApplicationDL.applicationGet .zero [65] s' (s'.smembers [65])
        (.new : CApplication ignoringCase)
      pure ((s₁, a₀, a, s', a'), b) : Run (RequestSteps × CApplication ignoringCase)).toOption.map
        fun r => (r.1.2.2.1.find [97]).isSome && (r.2.find [97]).isNone) = some true := by
    decide +kernel
  obtain ⟨⟨⟨s₁, a₀, a, s', a'⟩, b⟩, hok, hcheck⟩ := Option.map_eq_some_iff.mp hlost
  obtain ⟨⟨t₁, b₀, b₁, s₂, b₂⟩, hrequest, hok⟩ := Run.bind_eq_ok (Run.eq_ok_of_toOption hok)
  obtain ⟨⟨s₃, b₃⟩, hload, hok⟩ := Run.bind_eq_ok hok
  cases hok
  obtain ⟨hget, hrun, hsave⟩ := requestOn_eq_ok hrequest
  obtain ⟨hthere, hgone⟩ := Bool.and_eq_true_iff.mp hcheck
  refine ⟨s₁, a₀, a, .start rfl, hget, hrun, fun hsaved => ?_⟩
  obtain ⟨s'', a'', hsave', hloads⟩ := hsaved
  rw [hsave] at hsave'
  cases hsave'
  obtain ⟨s₄, b₄, hload', hback⟩ := hloads .zero _ (List.Perm.refl _)
  rw [hload] at hload'
  cases hload'
  have hkey := congrArg Option.isSome (hback [97])
  rw [Option.isSome_map, Option.isSome_map] at hkey
  change (a.find [97]).isSome = true at hthere
  change (b.find [97]).isNone = true at hgone
  rw [hthere, Option.isNone_iff_eq_none.mp hgone] at hkey
  cases hkey

end IspSession.Analysis
