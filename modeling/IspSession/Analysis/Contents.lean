import IspSession.Analysis.Lossless

/-!
# What a dictionary holds

`contents` is what a dictionary holds, every object as the stream it saves itself to;
`Exact` says that the codec brings all of it back. Loading an object, and reloading the
whole dictionary, change how an object is held and not what is held: they relate values
that are `Alike`, and `Exact.of_alike` carries everything over.
-/

set_option autoImplicit false

namespace IspSession.Analysis

open IspSession.Library IspSession.Model

variable {loc : Collation}

/-- What a dictionary of the given order holds. -/
abbrev Contents (loc : Collation) := OrderedMap loc.compare Variant

/-- What the dictionary holds, every object as its stream. -/
def contents (d : VariantDictionary loc) : Contents loc :=
  d.dictionary.mapValues fun _ => persisted

/-- The codec brings everything back as it is. -/
structure Exact (d : VariantDictionary loc) : Prop extends Lossless d where
  kept : ∀ e ∈ d.dictionary.entries, ¬ Loses (d.isSerialized e.1) e.2

/-- Everything about `Exact` depends on the variables and their flags only. -/
theorem Exact.congr {d d' : VariantDictionary loc} (h : Exact d)
    (hd : d'.dictionary = d.dictionary) (hs : d'.isserialized = d.isserialized) : Exact d' := by
  refine ⟨h.toLossless.congr hd hs, ?_⟩
  intro e he
  rw [VariantDictionary.isSerialized, hs, ← VariantDictionary.isSerialized]
  exact h.kept e (hd ▸ he)

/-- A dictionary without variables. -/
theorem exact_of_empty {d : VariantDictionary loc} (h : d.dictionary = .empty) : Exact d :=
  ⟨lossless_of_empty h, by simp [h]⟩

/-! ## The calls of a page -/

/-- Storing a value under a key, or only adding the key. -/
def storing (c : Contents loc) (key : Bstr) : Option Variant → Contents loc
  | none => c.insert key .empty
  | some v => c.upsert key (persisted v)

/-- What a call does to what a dictionary holds. -/
def changed (m : VariantDictionary.Mutation) (c : Contents loc) : Contents loc :=
  match m, puts m with
  | .remove key, _ => c.erase (lpcolestr key)
  | .removeAll, _ => .empty
  | _, some (key, stored) => storing c key stored
  | _, none => c

/-- The value the call stores, if any, can be saved. -/
def KeepsValue (d : VariantDictionary loc) (m : VariantDictionary.Mutation) : Prop :=
  ∀ key v, puts m = some (key, some v) → ¬ Loses (d.isSerialized key) v

/-- INTERNAL: a put keeps a dictionary exact. -/
theorem Exact.stores {d d' : VariantDictionary loc} (h : Exact d) {key : Bstr}
    {stored : Option Variant} (hkey : lpcolestr key = key) (hadd : SafePut d key .empty)
    (hput : ∀ v, stored = some v → SafePut d key v)
    (hkept : ∀ v, stored = some v → ¬ Loses (d.isSerialized key) v)
    (hd : Stores d d' key stored) :
    Exact d' ∧ contents d' = storing (contents d) key stored := by
  have hflag : ∀ key, d'.isSerialized key = d.isSerialized key := by
    intro key
    rw [VariantDictionary.isSerialized, hd.1, ← VariantDictionary.isSerialized]
  have hlossless := h.toLossless.stores hkey hadd hput hd
  refine ⟨⟨hlossless, ?_⟩, ?_⟩
  · intro e he
    have hzeroless := hlossless.zeroless e he
    rw [hflag]
    cases stored with
    | none =>
      have hinsert : d'.dictionary = d.dictionary.insert key .empty := hd.2.2
      rw [hinsert] at he
      rcases OrderedMap.mem_insertEntry he with rfl | he
      · exact fun hloses => by cases hloses
      · exact h.kept e he
    | some v =>
      have hupsert : d'.dictionary = d.dictionary.upsert key v := hd.2.2
      rw [hupsert] at he
      rcases OrderedMap.mem_upsert he with he | rfl | ⟨hk, hv, -⟩
      · exact h.kept e he
      · exact hkept v rfl
      · rw [hv, ← isSerialized_of_equiv d hkey hzeroless hk]
        exact hkept v rfl
  · rw [contents, hd.2.2]
    cases stored with
    | none => exact OrderedMap.mapValues_insert persisted d.dictionary key .empty
    | some v => exact OrderedMap.mapValues_upsert persisted d.dictionary key v

/-- INTERNAL: a removal keeps a dictionary exact. -/
theorem Exact.remove {d : VariantDictionary loc} (h : Exact d) (key : Bstr) :
    Exact (d.remove key) ∧ contents (d.remove key) = (contents d).erase (lpcolestr key) := by
  refine ⟨⟨h.toLossless.remove key, ?_⟩,
    OrderedMap.mapValues_erase persisted d.dictionary (lpcolestr key)⟩
  intro e he
  have hmem := List.mem_filter.mp he
  have hne : loc.compare (lpcolestr e.1) (lpcolestr key) ≠ .eq := by
    rw [h.zeroless e hmem.1]
    intro heq
    simp [Std.OrientedCmp.eq_comm.mp heq] at hmem
  rw [isSerialized_remove d hne]
  exact h.kept e hmem.1

/-- **A safe call** whose value can be saved keeps a dictionary exact, and changes what it
holds as it should. -/
theorem Exact.mutate {d d' : VariantDictionary loc} (h : Exact d) (hro : d.readOnly = false)
    {m : VariantDictionary.Mutation} (hsafe : SafeCall d m) (hkeeps : KeepsValue d m)
    (hd : d.mutate m = .ok d') : Exact d' ∧ contents d' = changed m (contents d) := by
  have hspec := mutate_spec hro hd
  have hstores : ∀ key stored, puts m = some (key, stored) → Stores d d' key stored →
      Exact d' ∧ contents d' = storing (contents d) key stored := by
    intro key stored hputs hstored
    simp only [SafeCall, hputs] at hsafe
    exact h.stores (lpcolestr_of_puts hputs) hsafe.1 hsafe.2
      (fun v hv => hkeeps key v (by rw [hputs, hv])) hstored
  cases m with
  | putItem key newVal defaults =>
    obtain ⟨stored, hputs⟩ :
        ∃ stored, puts (.putItem key newVal defaults) = some (lpcolestr key, stored) := ⟨_, rfl⟩
    simp only [hputs] at hspec
    simpa only [changed, hputs] using hstores (lpcolestr key) stored hputs hspec
  | putrefItem key newVal =>
    cases hputs : puts (.putrefItem key newVal) with
    | none =>
      simp only [hputs] at hspec
      subst hspec
      exact ⟨h, by simp only [changed, hputs]⟩
    | some p =>
      obtain ⟨key', stored⟩ := p
      simp only [hputs] at hspec
      simpa only [changed, hputs] using hstores key' stored hputs hspec
  | remove key => exact hspec ▸ h.remove key
  | removeAll =>
    rw [show d' = d.removeAll from hspec]
    exact ⟨exact_of_empty rfl, rfl⟩

/-! ## Values that are held differently -/

/-- Two values, each under its flag, that are stored alike: the same value, or an object
with the same stream. -/
inductive Alike (flag flag' : Bool) : Variant → Variant → Prop
  | value {v : Variant} (hd : ∀ o, v ≠ .dispatch o) (hu : ∀ o, v ≠ .unknown o) :
    Alike flag flag' v v
  | dispatch {o o' : ComObject} {bytes : List UInt8} (h : savedStream flag o = some bytes)
      (h' : savedStream flag' o' = some bytes) : Alike flag flag' (.dispatch o) (.dispatch o')
  | unknown {o o' : ComObject} {bytes : List UInt8} (h : savedStream flag o = some bytes)
      (h' : savedStream flag' o' = some bytes) : Alike flag flag' (.unknown o) (.unknown o')

section Alike

variable {flag flag' : Bool} {v v' : Variant}

/-- A value that is not lost is stored like itself. -/
theorem Alike.refl (h : ¬ Loses flag v) : Alike flag flag v v := by
  have hobject : ∀ (wrap : ComObject → Variant) (o : ComObject),
      (loadedObject wrap (savedStream flag o)).1 ≠ .sFalse →
      ∃ bytes, savedStream flag o = some bytes := by
    intro wrap o ho
    cases hs : savedStream flag o with
    | none => exact absurd (by rw [hs]; rfl) ho
    | some bytes => exact ⟨bytes, rfl⟩
  cases v with
  | dispatch o =>
    obtain ⟨bytes, hs⟩ := hobject .dispatch o h
    exact .dispatch hs hs
  | unknown o =>
    obtain ⟨bytes, hs⟩ := hobject .unknown o h
    exact .unknown hs hs
  | _ => exact .value (by simp) (by simp)

/-- INTERNAL: the stream an object is stored as is what it holds. -/
theorem persisted_of_savedStream {o : ComObject} {bytes : List UInt8}
    (h : savedStream flag o = some bytes) :
    persisted (.dispatch o) = .dispatch (.packed bytes) ∧
      persisted (.unknown o) = .unknown (.packed bytes) := by
  cases flag with
  | true =>
    cases o with
    | packed bs =>
      obtain rfl : bs = bytes := by simpa [savedStream] using h
      exact ⟨rfl, rfl⟩
    | _ => simp [savedStream] at h
  | false =>
    cases o with
    | live p saved =>
      cases p with
      | false => simp [savedStream] at h
      | true =>
        obtain rfl : saved = some bytes := by simpa [savedStream] using h
        exact ⟨rfl, rfl⟩
    | _ => simp [savedStream] at h

/-- They hold the same. -/
theorem Alike.persisted_eq (h : Alike flag flag' v v') : persisted v' = persisted v := by
  cases h with
  | value hd hu => rfl
  | dispatch h h' => rw [(persisted_of_savedStream h).1, (persisted_of_savedStream h').1]
  | unknown h h' => rw [(persisted_of_savedStream h).2, (persisted_of_savedStream h').2]

/-- They have the same tag and the same bytes. -/
theorem Alike.stored_eq (h : Alike flag flag' v v') (mem : Memory) :
    v'.vt = v.vt ∧ storedBytes mem flag' v' = storedBytes mem flag v := by
  cases h with
  | value hd hu =>
    refine ⟨rfl, ?_⟩
    cases v with
    | dispatch o => exact absurd rfl (hd o)
    | unknown o => exact absurd rfl (hu o)
    | _ => rfl
  | dispatch h h' => exact ⟨rfl, by simp only [storedBytes, objectBytes, h, h']⟩
  | unknown h h' => exact ⟨rfl, by simp only [storedBytes, objectBytes, h, h']⟩

/-- Where one can be stored, so can the other. -/
theorem Alike.storable (h : Alike flag flag' v v') (hv : Storable flag v ∧ Readable v) :
    (Storable flag' v' ∧ Readable v') ∧ ¬ Loses flag' v' := by
  have hnull : ∀ {o : ComObject} {bytes : List UInt8}, savedStream flag' o = some bytes →
      ¬ (flag' = true ∧ o = .null) := by
    rintro o bytes hs ⟨rfl, rfl⟩
    simp [savedStream] at hs
  cases h with
  | value hd hu =>
    cases v with
    | dispatch o => exact absurd rfl (hd o)
    | unknown o => exact absurd rfl (hu o)
    | _ => exact ⟨hv, by simp [Loses, loadedValue]⟩
  | dispatch h h' =>
    refine ⟨⟨⟨hnull h', fun bs hbs => ?_⟩, trivial⟩, ?_⟩
    · exact hv.1.2 bs (by rw [h, ← h', hbs])
    · simp [Loses, loadedValue, loadedObject, h']
  | unknown h h' =>
    refine ⟨⟨⟨hnull h', fun bs hbs => ?_⟩, trivial⟩, ?_⟩
    · exact hv.1.2 bs (by rw [h, ← h', hbs])
    · simp [Loses, loadedValue, loadedObject, h']

end Alike

/-- INTERNAL: properties with alike values are the same. -/
theorem propertiesBytes_of_alike (mem : Memory) {d d' : VariantDictionary loc}
    (f : Bstr → Variant → Variant) (entries : List (Bstr × Variant))
    (h : ∀ e ∈ entries, Alike (d.isSerialized e.1) (d'.isSerialized e.1) e.2 (f e.1 e.2))
    (pos : ℕ) :
    propertiesBytes mem d' pos (entries.map fun e => (e.1, f e.1 e.2)) =
      propertiesBytes mem d pos entries := by
  induction entries generalizing pos with
  | nil => rfl
  | cons e entries ih =>
    obtain ⟨hvt, hbytes⟩ := (h e (by simp)).stored_eq mem
    obtain ⟨key, v⟩ := e
    simp only [List.map_cons, propertiesBytes, hvt, hbytes,
      ih (fun e he => h e (by simp [he]))]

/-- **Dictionaries with alike values** are exact together, hold the same and have the same
stream. -/
theorem Exact.of_alike {d d' : VariantDictionary loc} (h : Exact d)
    (f : Bstr → Variant → Variant) (hd : d'.dictionary = d.dictionary.mapValues f)
    (halike : ∀ e ∈ d.dictionary.entries,
      Alike (d.isSerialized e.1) (d'.isSerialized e.1) e.2 (f e.1 e.2)) :
    Exact d' ∧ contents d' = contents d ∧
      ∀ mem, dictionaryBytes mem d' = dictionaryBytes mem d := by
  have hentries : d'.dictionary.entries =
      d.dictionary.entries.map fun e => (e.1, f e.1 e.2) := by rw [hd, OrderedMap.entries_mapValues]
  have hsize : d'.dictionary.size = d.dictionary.size := by
    rw [OrderedMap.size, hentries, List.length_map, OrderedMap.size]
  have hmem : ∀ e' ∈ d'.dictionary.entries, ∃ e ∈ d.dictionary.entries,
      e' = (e.1, f e.1 e.2) := by
    intro e' he'
    rw [hentries] at he'
    obtain ⟨e, he, rfl⟩ := List.mem_map.mp he'
    exact ⟨e, he, rfl⟩
  have hbytes : ∀ mem, dictionaryBytes mem d' = dictionaryBytes mem d := by
    intro mem
    have hels : elsBytes d' = elsBytes d := by rw [elsBytes, elsBytes, hsize]
    have hvt : d'.elsValue.vt = d.elsValue.vt := rfl
    rw [dictionaryBytes, dictionaryBytes, hels, hvt, hentries, ← List.map_reverse]
    congr 1
    exact propertiesBytes_of_alike mem f _ (fun e he => halike e (by simpa using he)) _
  refine ⟨⟨⟨?_, ?_, ?_, ?_, ?_, ?_⟩, ?_⟩, ?_, hbytes⟩
  · exact hsize ▸ h.count
  · intro e' he'
    obtain ⟨e, he, rfl⟩ := hmem e' he'
    exact h.names e he
  · intro e' he'
    obtain ⟨e, he, rfl⟩ := hmem e' he'
    exact h.zeroless e he
  · intro e' he'
    obtain ⟨e, he, rfl⟩ := hmem e' he'
    exact ((halike e he).storable (h.values e he)).1
  · intro e' he' hloses
    obtain ⟨e, he, rfl⟩ := hmem e' he'
    exact absurd hloses ((halike e he).storable (h.values e he)).2
  · intro mem
    rw [hbytes]
    exact h.stream mem
  · intro e' he'
    obtain ⟨e, he, rfl⟩ := hmem e' he'
    exact ((halike e he).storable (h.values e he)).2
  · apply OrderedMap.ext
    simp only [contents, OrderedMap.entries_mapValues, hentries, List.map_map]
    apply List.map_congr_left
    intro e he
    simp only [Function.comp_apply, (halike e he).persisted_eq]

/-! ## Reloading -/

/-- INTERNAL: the flags of what has been loaded so far. -/
theorem isSerialized_foldl_loadedInto {flagOf : Bstr → Bool} (entries : List (Bstr × Variant))
    {r : VariantDictionary loc} (hr : ∀ x ∈ r.isserialized.entries, x.2 = true) :
    (∀ key, r.isSerialized key = true →
      (entries.foldl (loadedInto flagOf) r).isSerialized key = true) ∧
    ∀ e ∈ entries, loadedFlag (flagOf e.1) e.2 →
      (entries.foldl (loadedInto flagOf) r).isSerialized e.1 = true := by
  induction entries generalizing r with
  | nil => exact ⟨fun _ h => h, fun e he => by cases he⟩
  | cons e entries ih =>
    have hstep : ∀ x ∈ (loadedInto flagOf r e).isserialized.entries, x.2 = true := by
      intro x hx
      simp only [loadedInto] at hx
      split at hx
      · rcases OrderedMap.mem_insertEntry hx with rfl | hx
        · rfl
        · exact hr x hx
      · exact hr x hx
    have hkeep : ∀ key, r.isSerialized key = true →
        (loadedInto flagOf r e).isSerialized key = true := by
      intro key hkey
      simp only [VariantDictionary.isSerialized, decide_eq_true_eq] at hkey ⊢
      simp only [loadedInto]
      split
      · rw [OrderedMap.find_insert, hkey]
        rfl
      · exact hkey
    have hflagged : loadedFlag (flagOf e.1) e.2 →
        (loadedInto flagOf r e).isSerialized e.1 = true := by
      intro hflag
      simp only [VariantDictionary.isSerialized, loadedInto, if_pos hflag, decide_eq_true_eq]
      rw [OrderedMap.find_insert, if_pos Std.ReflCmp.compare_self]
      cases hfind : r.isserialized.find (lpcolestr e.1) with
      | none => rfl
      | some b =>
        -- every flag that is there is set
        unfold OrderedMap.find at hfind
        obtain ⟨x, hx, rfl⟩ := Option.map_eq_some_iff.mp hfind
        rw [hr x (List.mem_of_find?_eq_some hx)]
        rfl
    obtain ⟨ihkeep, ihflag⟩ := ih hstep
    refine ⟨fun key hkey => ihkeep key (hkeep key hkey), ?_⟩
    intro e' he' hflag
    rcases List.mem_cons.mp he' with rfl | he'
    · exact ihkeep _ (hflagged hflag)
    · exact ihflag e' he' hflag

/-- INTERNAL: what is loaded of a value that is not lost is stored like the value. -/
theorem alike_loadedValue {flag flag' : Bool} {v : Variant} (h : ¬ Loses flag v)
    (hflag : loadedFlag flag v → flag' = true) :
    Alike flag flag' v (loadedValue flag v).2 := by
  cases v with
  | dispatch o =>
    cases Alike.refl h with
    | value hd _ => exact absurd rfl (hd o)
    | @dispatch _ _ bytes hs _ =>
      have hset : flag' = true := hflag (.inl rfl)
      simp only [loadedValue, loadedObject, hs]
      exact .dispatch hs (by rw [hset]; rfl)
  | unknown o =>
    cases Alike.refl h with
    | value _ hu => exact absurd rfl (hu o)
    | @unknown _ _ bytes hs _ =>
      have hset : flag' = true := hflag (.inr ⟨rfl, loadedValue_eq_sOk h⟩)
      simp only [loadedValue, loadedObject, hs]
      exact .unknown hs (by rw [hset]; rfl)
  | _ => exact .value (by simp) (by simp)

/-- **A reloaded dictionary holds the same**, and can be stored again. -/
theorem Exact.reloaded {d : VariantDictionary loc} (h : Exact d) (r : VariantDictionary loc) :
    Exact (reloaded d r) ∧ contents (Analysis.reloaded d r) = contents d := by
  have hflags : ∀ e ∈ storedEntries d, loadedFlag (d.isSerialized e.1) e.2 →
      (Analysis.reloaded d r).isSerialized e.1 = true :=
    (isSerialized_foldl_loadedInto (storedEntries d) (fun x hx => by cases hx)).2
  obtain ⟨hexact, hcontents, -⟩ := h.of_alike _ (dictionary_reloaded d r)
    (fun e he => alike_loadedValue (h.kept e he) (hflags e (by simpa [storedEntries] using he)))
  exact ⟨hexact, hcontents⟩

/-! ## Loading an object -/

/-- `OleLoadFromStream` makes an object of the stream a call finds under the key, if there is
one, and the object saves itself to that stream. -/
def Loadable (oleLoad : List UInt8 → Option ComObject) (c : Contents loc) (key : Bstr) : Prop :=
  ∀ e ∈ c.entries, loc.compare (lpcolestr key) e.1 = .eq →
    ∀ bytes, e.2 = .dispatch (.packed bytes) ∨ e.2 = .unknown (.packed bytes) →
      oleLoad bytes = some (.live true (some bytes))

/-- INTERNAL: an object found under a key, with its stream. -/
theorem Exact.find_object {d : VariantDictionary loc} (h : Exact d) {key : Bstr} {o : ComObject}
    {wrap : ComObject → Variant} (hwrap : wrap = .dispatch ∨ wrap = .unknown)
    (hfind : d.dictionary.find (lpcolestr key) = some (wrap o)) :
    ∃ e ∈ d.dictionary.entries, loc.compare (lpcolestr key) e.1 = .eq ∧ e.2 = wrap o ∧
      ∃ bytes, savedStream (d.isSerialized key) o = some bytes := by
  obtain ⟨e, he, hkey, hvalue⟩ := OrderedMap.exists_of_find hfind
  refine ⟨e, he, hkey, hvalue, ?_⟩
  have hkept := h.kept e he
  rw [← isSerialized_of_equiv d (lpcolestr_lpcolestr key) (h.zeroless e he) hkey, hvalue,
    VariantDictionary.isSerialized_lpcolestr] at hkept
  rcases hwrap with rfl | rfl
  · cases Alike.refl hkept with
    | value hd _ => exact absurd rfl (hd o)
    | @dispatch _ _ bytes hs _ => exact ⟨bytes, hs⟩
  · cases Alike.refl hkept with
    | value _ hu => exact absurd rfl (hu o)
    | @unknown _ _ bytes hs _ => exact ⟨bytes, hs⟩

/-- What loading an object leaves as it was. -/
structure Keeps (d d' : VariantDictionary loc) : Prop where
  exact : Exact d'
  contents : contents d' = contents d
  readOnly : d'.readOnly = d.readOnly
  blnDirty : d'.blnDirty = d.blnDirty

/-- INTERNAL: the dictionary in which the stream under a key is replaced by its object. -/
theorem Exact.activate {d : VariantDictionary loc} (h : Exact d) {key : Bstr}
    {bytes : List UInt8} {wrap : ComObject → Variant}
    (hwrap : wrap = .dispatch ∨ wrap = .unknown) (hflag : d.isSerialized key = true)
    (hfind : d.dictionary.find (lpcolestr key) = some (wrap (.packed bytes))) :
    Keeps d { d with
      dictionary := d.dictionary.assign (lpcolestr key) (wrap (.live true (some bytes)))
      isserialized := d.isserialized.assign (lpcolestr key) false } := by
  obtain ⟨e, he, hkey, hvalue, -⟩ := h.find_object hwrap hfind
  have hmap : d.dictionary.assign (lpcolestr key) (wrap (.live true (some bytes))) =
      d.dictionary.mapValues fun k v =>
        if loc.compare (lpcolestr key) k = .eq then wrap (.live true (some bytes)) else v := by
    apply OrderedMap.ext
    simp only [OrderedMap.assign, OrderedMap.entries_mapValues]
    apply List.map_congr_left
    intro x _
    split <;> rfl
  let d' : VariantDictionary loc := { d with
    dictionary := d.dictionary.assign (lpcolestr key) (wrap (.live true (some bytes)))
    isserialized := d.isserialized.assign (lpcolestr key) false }
  change Keeps d d'
  have halike : ∀ x ∈ d.dictionary.entries,
      Alike (d.isSerialized x.1) (d'.isSerialized x.1) x.2
        (if loc.compare (lpcolestr key) x.1 = .eq then wrap (.live true (some bytes)) else x.2) := by
    intro x hx
    have hfindFlag : d'.isserialized.find x.1 =
        if loc.compare x.1 (lpcolestr key) = .eq then (d.isserialized.find x.1).map fun _ => false
        else d.isserialized.find x.1 := OrderedMap.find_assign _ _ _ _
    by_cases hx' : loc.compare (lpcolestr key) x.1 = .eq
    · -- the entry under the key is the object's
      obtain rfl : e = x := OrderedMap.eq_of_equiv he hx
        (Std.TransCmp.eq_trans (Std.OrientedCmp.eq_symm hkey) hx')
      have hnew : d'.isSerialized e.1 = false := by
        simp only [VariantDictionary.isSerialized, h.zeroless e he, hfindFlag,
          if_pos (Std.OrientedCmp.eq_symm hx')]
        cases d.isserialized.find e.1 <;> simp
      have hold : d.isSerialized e.1 = true := by
        rw [← isSerialized_of_equiv d (lpcolestr_lpcolestr key) (h.zeroless e he) hkey,
          VariantDictionary.isSerialized_lpcolestr, hflag]
      rw [if_pos hx', hnew, hold, hvalue]
      rcases hwrap with rfl | rfl
      · exact .dispatch rfl rfl
      · exact .unknown rfl rfl
    · have hsame : d'.isSerialized x.1 = d.isSerialized x.1 := by
        simp only [VariantDictionary.isSerialized, h.zeroless x hx, hfindFlag]
        rw [if_neg fun heq => hx' (Std.OrientedCmp.eq_symm heq)]
      rw [if_neg hx', hsame]
      exact Alike.refl (h.kept x hx)
  obtain ⟨hexact, hcontents, -⟩ := h.of_alike
    (fun k v => if loc.compare (lpcolestr key) k = .eq then wrap (.live true (some bytes)) else v)
    hmap halike
  exact ⟨hexact, hcontents, rfl, rfl⟩

/-- **`get_Item`** succeeds with what the dictionary holds, and leaves it as it was. -/
theorem Exact.getItem {d : VariantDictionary loc} (h : Exact d)
    {oleLoad : List UInt8 → Option ComObject} {key : Bstr}
    (hload : Loadable oleLoad (contents d) key) :
    ∃ v d', d.getItem oleLoad key = .ok (.sOk, v, d') ∧ Keeps d d' ∧
      persisted v = ((contents d).find (lpcolestr key)).getD .empty := by
  have hsame : Keeps d d := ⟨h, rfl, rfl, rfl⟩
  have hheld : (contents d).find (lpcolestr key) =
      (d.dictionary.find (lpcolestr key)).map persisted := OrderedMap.find_mapValues _ _ _
  have hobject : ∀ (wrap : ComObject → Variant) (o : ComObject),
      (wrap = .dispatch ∨ wrap = .unknown) →
      d.dictionary.find (lpcolestr key) = some (wrap o) →
      (d.isSerialized key = true → ∃ bytes, o = .packed bytes ∧
        oleLoad bytes = some (.live true (some bytes))) ∧
      (d.isSerialized key = false → o ≠ .null) := by
    intro wrap o hwrap hfind
    obtain ⟨e, he, hkey, hvalue, bytes, hs⟩ := h.find_object hwrap hfind
    constructor
    · intro hflag
      rw [hflag] at hs
      obtain rfl : o = .packed bytes := by
        cases o with
        | packed bs => simpa [savedStream] using hs
        | _ => simp [savedStream] at hs
      refine ⟨bytes, rfl, hload (e.1, persisted e.2) (List.mem_map_of_mem he) hkey bytes ?_⟩
      rw [hvalue]
      rcases hwrap with rfl | rfl
      · exact .inl rfl
      · exact .inr rfl
    · rintro hflag rfl
      simp [hflag, savedStream] at hs
  unfold VariantDictionary.getItem VariantDictionary.getVariable VariantDictionary.VariantKey.bstr
  dsimp only
  rw [hheld]
  cases hfind : d.dictionary.find (lpcolestr key) with
  | none => exact ⟨_, d, rfl, hsame, rfl⟩
  | some v =>
    cases v with
    | dispatch o =>
      obtain ⟨hpacked, hlive⟩ := hobject .dispatch o (.inl rfl) hfind
      by_cases hflag : d.isSerialized key = true
      · obtain ⟨bytes, rfl, hole⟩ := hpacked hflag
        simp only [VariantDictionary.getObject, hflag, if_true, hole]
        exact ⟨_, _, rfl, h.activate (.inl rfl) hflag hfind, rfl⟩
      · rw [Bool.not_eq_true] at hflag
        simp only [VariantDictionary.getObject, hflag, Bool.false_eq_true, if_false, hlive hflag]
        exact ⟨_, d, rfl, hsame, rfl⟩
    | unknown o =>
      obtain ⟨hpacked, hlive⟩ := hobject .unknown o (.inr rfl) hfind
      by_cases hflag : d.isSerialized key = true
      · obtain ⟨bytes, rfl, hole⟩ := hpacked hflag
        simp only [VariantDictionary.getObject, hflag, if_true, hole]
        exact ⟨_, _, rfl, h.activate (.inr rfl) hflag hfind, rfl⟩
      · rw [Bool.not_eq_true] at hflag
        simp only [VariantDictionary.getObject, hflag, Bool.false_eq_true, if_false, hlive hflag]
        exact ⟨_, d, rfl, hsame, rfl⟩
    | _ => exact ⟨_, d, rfl, hsame, rfl⟩

end IspSession.Analysis
