import IspSession.Analysis.DictionaryReading
import IspSession.Library.Runs

/-!
# Dictionaries the codec loses no variable of

`Lossless` lists what `LocalContents` and `LocalLoad` need to bring every variable back;
`SafePut` is the condition under which storing a variable keeps it. An object that cannot
be saved is read back with `S_FALSE`, which ends the loop over the variables: it must be
the last one read, that of the least key. The calls of a page add names up to their first
zero only; a whole name with a zero in it, which a stream can bring, shares the flag of
another one.
-/

set_option autoImplicit false

namespace IspSession.Analysis

open IspSession.Library IspSession.Model

variable {loc : Collation}

/-! ## Lossless dictionaries -/

/-- The value is written as zero bytes and read back as no object. -/
def Loses (flag : Bool) (v : Variant) : Prop := (loadedValue flag v).1 = .sFalse

/-- INTERNAL: every other value is read back with `S_OK`. -/
theorem loadedValue_eq_sOk {flag : Bool} {v : Variant} (h : ¬ Loses flag v) :
    (loadedValue flag v).1 = .sOk := by
  unfold Loses at h
  cases v with
  | dispatch o => cases hs : savedStream flag o <;> simp_all [loadedValue, loadedObject]
  | unknown o => cases hs : savedStream flag o <;> simp_all [loadedValue, loadedObject]
  | _ => rfl

/-- The value as it is stored: an object is the stream it saves itself to. -/
def persisted : Variant → Variant
  | .dispatch (.live true (some bytes)) => .dispatch (.packed bytes)
  | .unknown (.live true (some bytes)) => .unknown (.packed bytes)
  | v => v

/-- No name has a zero in it, so that every call that names a variable finds it, and its flag
is its own. -/
def Zeroless (d : VariantDictionary loc) : Prop :=
  ∀ e ∈ d.dictionary.entries, lpcolestr e.1 = e.1

/-- The codec brings every variable back. -/
structure Lossless (d : VariantDictionary loc) : Prop where
  count : d.dictionary.size ≤ 32767
  names : ∀ e ∈ d.dictionary.entries, WellFormedUtf16 e.1 ∧ StringFits e.1
  zeroless : Zeroless d
  values : ∀ e ∈ d.dictionary.entries, Storable (d.isSerialized e.1) e.2 ∧ Readable e.2
  least : ∀ e ∈ d.dictionary.entries, Loses (d.isSerialized e.1) e.2 →
    ∀ e' ∈ d.dictionary.entries, loc.compare e.1 e'.1 ≠ .gt
  stream : ∀ mem, (dictionaryBytes mem d).length < 2 ^ 32

/-- INTERNAL: only the least key can have a lost value. -/
theorem Lossless.tail {d : VariantDictionary loc} (h : Lossless d) :
    ∀ e ∈ d.dictionary.entries.tail, (loadedValue (d.isSerialized e.1) e.2).1 = .sOk := by
  intro e he
  refine loadedValue_eq_sOk fun hloses => ?_
  have hsorted := d.dictionary.sorted
  have hleast := h.least e (List.mem_of_mem_tail he) hloses
  cases hentries : d.dictionary.entries with
  | nil =>
    rw [hentries] at he
    cases he
  | cons a l =>
    rw [hentries] at he hsorted hleast
    have hlt : loc.compare a.1 e.1 = .lt := (List.pairwise_cons.mp hsorted).1 e he
    exact hleast a (by simp) (Std.OrientedCmp.gt_iff_lt.mpr hlt)

/-- **What `LocalContents` and `LocalLoad` make of a lossless dictionary.** -/
theorem Lossless.reload {d : VariantDictionary loc} (h : Lossless d) (mem mem' : Memory)
    (r : VariantDictionary loc) :
    (∃ b, d.localContents mem = .ok (.sOk, (dictionaryBytes mem d).length,
      ⟨dictionaryBytes mem d, 0⟩, d.withBuffer b)) ∧
    ∃ b, r.localLoad mem' (some ⟨dictionaryBytes mem d, 0⟩) (dictionaryBytes mem d).length =
      .ok (loadedResult d.isSerialized (storedEntries d), (reloaded d r).withBuffer b,
        some ⟨dictionaryBytes mem d, (dictionaryBytes mem d).length⟩) := by
  have hc : AllStorable d := fun e he => ⟨(h.names e he).2, (h.values e he).1⟩
  have hreadable := fun e he => (h.values e he).2
  constructor
  · obtain ⟨b, hb⟩ := (localContents_spec mem d hc).1 fun e he => (hreadable e he).writable
    rw [Nat.mod_eq_of_lt (h.stream mem)] at hb
    exact ⟨b, hb⟩
  · exact (localLoad_dictionaryBytes mem mem' r h.count (fun e he => (h.names e he).1) hc
      h.tail (Nat.ne_of_gt (length_dictionaryBytes_pos mem d))).1 hreadable

/-! ## What the format depends on -/

/-- INTERNAL: the properties depend on the flags only. -/
theorem propertiesBytes_congr (mem : Memory) {d d' : VariantDictionary loc}
    (entries : List (Bstr × Variant))
    (h : ∀ e ∈ entries, d.isSerialized e.1 = d'.isSerialized e.1) (pos : ℕ) :
    propertiesBytes mem d pos entries = propertiesBytes mem d' pos entries := by
  induction entries generalizing pos with
  | nil => rfl
  | cons e entries ih =>
    have hflag := h e (by simp)
    obtain ⟨key, v⟩ := e
    simp only [propertiesBytes, hflag, ih (fun e he => h e (by simp [he]))]

/-- The stream depends on the variables and their flags only. -/
theorem dictionaryBytes_congr (mem : Memory) {d d' : VariantDictionary loc}
    (hd : d.dictionary = d'.dictionary) (hs : d.isserialized = d'.isserialized) :
    dictionaryBytes mem d = dictionaryBytes mem d' := by
  have hels : d.elsValue = d'.elsValue := by
    rw [VariantDictionary.elsValue, VariantDictionary.elsValue, hd]
  have hbytes : elsBytes d = elsBytes d' := by
    rw [elsBytes, elsBytes, hd]
  rw [dictionaryBytes, dictionaryBytes, hels, hbytes, hd]
  congr 1
  apply propertiesBytes_congr
  intro e _
  rw [VariantDictionary.isSerialized, VariantDictionary.isSerialized, hs]

/-- Being lossless depends on the variables and their flags only. -/
theorem Lossless.congr {d d' : VariantDictionary loc} (h : Lossless d)
    (hd : d'.dictionary = d.dictionary) (hs : d'.isserialized = d.isserialized) :
    Lossless d' := by
  have hflag : ∀ key, d'.isSerialized key = d.isSerialized key := by
    intro key
    rw [VariantDictionary.isSerialized, VariantDictionary.isSerialized, hs]
  refine ⟨by rw [hd]; exact h.count, by rw [hd]; exact h.names,
    by rw [Zeroless, hd]; exact h.zeroless, ?_, ?_, ?_⟩
  · intro e he
    rw [hflag]
    exact h.values e (hd ▸ he)
  · intro e he hloses e' he'
    rw [hflag] at hloses
    exact h.least e (hd ▸ he) hloses e' (hd ▸ he')
  · intro mem
    rw [dictionaryBytes_congr mem hd hs]
    exact h.stream mem

/-! ## Storing a variable -/

/-- Storing the value under the key loses nothing. -/
structure SafePut (d : VariantDictionary loc) (key : Bstr) (v : Variant) : Prop where
  name : WellFormedUtf16 key ∧ StringFits key
  value : Storable (d.isSerialized key) v ∧ Readable v
  /-- A value that will be lost goes under the least key. -/
  last : Loses (d.isSerialized key) v →
    ∀ e ∈ d.dictionary.entries, loc.compare key e.1 ≠ .gt
  /-- No other key goes below that of a lost value. -/
  behind : ∀ e ∈ d.dictionary.entries, Loses (d.isSerialized e.1) e.2 →
    loc.compare key e.1 ≠ .lt
  count : (d.dictionary.upsert key v).size ≤ 32767
  stream : ∀ mem, (dictionaryBytes mem
    { d with dictionary := d.dictionary.upsert key v }).length < 2 ^ 32

/-- INTERNAL: the flag of an equivalent key without a zero is the same. -/
theorem isSerialized_of_equiv (d : VariantDictionary loc) {key key' : Bstr}
    (hkey : lpcolestr key = key) (hkey' : lpcolestr key' = key')
    (h : loc.compare key key' = .eq) : d.isSerialized key = d.isSerialized key' := by
  rw [VariantDictionary.isSerialized, VariantDictionary.isSerialized, hkey, hkey',
    OrderedMap.find_congr _ h]

/-- INTERNAL: adding a name without a zero. -/
theorem Zeroless.insert {d d' : VariantDictionary loc} (h : Zeroless d) {key : Bstr} {v : Variant}
    (hkey : lpcolestr key = key) (hd : d'.dictionary = d.dictionary.insert key v) :
    Zeroless d' := by
  intro e he
  rw [hd] at he
  rcases OrderedMap.mem_insertEntry he with rfl | he
  · exact hkey
  · exact h e he

/-- INTERNAL: storing under a name without a zero. -/
theorem Zeroless.upsert {d d' : VariantDictionary loc} (h : Zeroless d) {key : Bstr} {v : Variant}
    (hkey : lpcolestr key = key) (hd : d'.dictionary = d.dictionary.upsert key v) :
    Zeroless d' := by
  intro e he
  rw [hd] at he
  rcases OrderedMap.mem_upsert he with he | rfl | ⟨-, -, v', he⟩
  · exact h e he
  · exact hkey
  · exact h (e.1, v') he

/-- INTERNAL: removing leaves names that were there. -/
theorem Zeroless.remove {d : VariantDictionary loc} (h : Zeroless d) (key : Bstr) :
    Zeroless (d.remove key) :=
  fun e he => h e (List.mem_of_mem_filter he)

/-- **A safe put keeps a dictionary lossless.** -/
theorem Lossless.upsert {d : VariantDictionary loc} (h : Lossless d) {key : Bstr} {v : Variant}
    (hkey : lpcolestr key = key) (hput : SafePut d key v) :
    Lossless { d with dictionary := d.dictionary.upsert key v } := by
  have hnew : ∀ e ∈ (d.dictionary.upsert key v).entries,
      e ∈ d.dictionary.entries ∨ (loc.compare key e.1 = .eq ∧ e.2 = v) := by
    intro e he
    rcases OrderedMap.mem_upsert he with he | rfl | ⟨hk, hv, -⟩
    · exact .inl he
    · exact .inr ⟨Std.ReflCmp.compare_self, rfl⟩
    · exact .inr ⟨hk, hv⟩
  have hzeroless : Zeroless { d with dictionary := d.dictionary.upsert key v } :=
    h.zeroless.upsert hkey rfl
  refine ⟨hput.count, ?_, hzeroless, ?_, ?_, hput.stream⟩
  · intro e he
    rcases OrderedMap.mem_upsert he with he | rfl | ⟨-, -, v', he⟩
    · exact h.names e he
    · exact hput.name
    · exact h.names (e.1, v') he
  · intro e he
    change Storable (d.isSerialized e.1) e.2 ∧ Readable e.2
    rcases hnew e he with he' | ⟨hk, hv⟩
    · exact h.values e he'
    · rw [hv, ← isSerialized_of_equiv d hkey (hzeroless e he) hk]
      exact hput.value
  · intro e he hloses e' he'
    change Loses (d.isSerialized e.1) e.2 at hloses
    rcases hnew e he with hold | ⟨hk, hv⟩
    · rcases OrderedMap.mem_upsert he' with he' | rfl | ⟨-, -, v', he'⟩
      · exact h.least e hold hloses e' he'
      · intro hgt
        exact hput.behind e hold hloses (Std.OrientedCmp.gt_iff_lt.mp hgt)
      · exact h.least e hold hloses (e'.1, v') he'
    · rw [hv, ← isSerialized_of_equiv d hkey (hzeroless e he) hk] at hloses
      rw [← Std.TransCmp.congr_left hk]
      rcases OrderedMap.mem_upsert he' with he' | rfl | ⟨-, -, v', he'⟩
      · exact hput.last hloses e' he'
      · simp [Std.ReflCmp.compare_self]
      · exact hput.last hloses (e'.1, v') he'

/-! ## Removing variables -/

/-- INTERNAL: the flags of other keys outlast a removal. -/
theorem isSerialized_remove (d : VariantDictionary loc) {key key' : Bstr}
    (h : loc.compare (lpcolestr key') (lpcolestr key) ≠ .eq) :
    (d.remove key).isSerialized key' = d.isSerialized key' := by
  have hfind : (d.isserialized.erase (lpcolestr key)).find (lpcolestr key') =
      d.isserialized.find (lpcolestr key') := by
    rw [OrderedMap.find_erase, if_neg h]
  have hcases : (d.remove key).isserialized = d.isserialized.erase (lpcolestr key) ∨
      (d.remove key).isserialized = d.isserialized := by
    unfold VariantDictionary.remove
    cases d.dictionary.find (lpcolestr key) with
    | none => exact .inr rfl
    | some v =>
      dsimp only
      split
      · exact .inl rfl
      · exact .inr rfl
  rcases hcases with hs | hs
  · rw [VariantDictionary.isSerialized, VariantDictionary.isSerialized, hs, hfind]
  · rw [VariantDictionary.isSerialized, VariantDictionary.isSerialized, hs]

/-- INTERNAL: fewer properties take fewer bytes. -/
theorem length_propertiesBytes_le (mem : Memory) (d : VariantDictionary loc)
    {l l' : List (Bstr × Variant)} (h : l.Sublist l') (pos pos' : ℕ) :
    (propertiesBytes mem d pos l).length ≤ (propertiesBytes mem d pos' l').length := by
  have hlen : ∀ (pos pos' : ℕ) (key : Bstr) (v : Variant) (bs : List UInt8),
      (propertyBytes pos key v.vt bs).length = (propertyBytes pos' key v.vt bs).length := by
    intro pos pos' key v bs
    simp only [propertyBytes, List.length_append, length_leBytes]
  induction h generalizing pos pos' with
  | slnil => exact Nat.le_refl _
  | cons e _ ih =>
    obtain ⟨key, v⟩ := e
    have hrest := ih pos (propertyEnd pos' key (storedBytes mem (d.isSerialized key) v))
    simp only [propertiesBytes, List.length_append]
    omega
  | cons_cons e _ ih =>
    obtain ⟨key, v⟩ := e
    have hrest := ih (propertyEnd pos key (storedBytes mem (d.isSerialized key) v))
      (propertyEnd pos' key (storedBytes mem (d.isSerialized key) v))
    simp only [propertiesBytes, List.length_append,
      hlen (propertyEnd pos key (storedBytes mem (d.isSerialized key) v))
        (propertyEnd pos' key (storedBytes mem (d.isSerialized key) v))]
    omega

/-- INTERNAL: the property `Els` has a fixed size. -/
theorem length_dictionaryBytes (mem : Memory) (d : VariantDictionary loc) :
    (dictionaryBytes mem d).length =
      17 + (propertiesBytes mem d 17 d.dictionary.entries.reverse).length := by
  have hname : (stringBytes VariantDictionary.elsName).length = 7 := by decide
  have hels : (elsBytes d).length = 4 := length_leBytes 4 _
  simp only [dictionaryBytes, propertyEnd, propertyBytes, List.length_append, length_leBytes,
    hname, hels]

/-- **`Remove` keeps a dictionary lossless.** -/
theorem Lossless.remove {d : VariantDictionary loc} (h : Lossless d) (key : Bstr) :
    Lossless (d.remove key) := by
  have hsub : (d.remove key).dictionary.entries.Sublist d.dictionary.entries :=
    List.filter_sublist
  have hflag : ∀ e ∈ (d.remove key).dictionary.entries,
      (d.remove key).isSerialized e.1 = d.isSerialized e.1 := by
    intro e he
    apply isSerialized_remove
    rw [h.zeroless e (hsub.subset he)]
    intro heq
    have hne := (List.mem_filter.mp he).2
    simp [Std.OrientedCmp.eq_comm.mp heq] at hne
  refine ⟨Nat.le_trans hsub.length_le h.count, fun e he => h.names e (hsub.subset he),
    h.zeroless.remove key, ?_, ?_, ?_⟩
  · intro e he
    rw [hflag e he]
    exact h.values e (hsub.subset he)
  · intro e he hloses e' he'
    rw [hflag e he] at hloses
    exact h.least e (hsub.subset he) hloses e' (hsub.subset he')
  · intro mem
    have hbytes := h.stream mem
    rw [length_dictionaryBytes] at hbytes ⊢
    rw [propertiesBytes_congr mem _ fun e he => hflag e (by simpa using he)]
    have hle := length_propertiesBytes_le mem d (List.reverse_sublist.mpr hsub) 17 17
    omega

/-- `RemoveAll` leaves a dictionary without variables, which is lossless. -/
theorem lossless_of_empty {d : VariantDictionary loc} (h : d.dictionary = .empty) :
    Lossless d := by
  refine ⟨by simp [h, OrderedMap.size], ?_, ?_, ?_, ?_, ?_⟩
  · simp [h]
  · simp [Zeroless, h]
  · simp [h]
  · simp [h]
  · intro mem
    rw [length_dictionaryBytes, h]
    simp [propertiesBytes]

/-! ## The calls of a page -/

/-- The value that stands for another one when objects are replaced by their default
properties, if the last object has one. -/
def resolved : List Variant → Variant → Option Variant
  | _, .dispatch .null => none
  | [], .dispatch _ => none
  | w :: defaults, .dispatch _ =>
    match (Argument.value w).deref with
    | .ok w => resolved defaults w
    | .error _ => none
  | _, v => some v

/-- The name a call stores under, and the value. Without a value the name is only added. -/
def puts : VariantDictionary.Mutation → Option (Bstr × Option Variant)
  | .putItem key newVal defaults =>
    some (lpcolestr key, match newVal.deref with
      | .ok v => resolved defaults v
      | .error _ => none)
  | .putrefItem key newVal =>
    if newVal.vt &&& vtDispatch = vtDispatch ∨ newVal.vt &&& vtUnknown = vtUnknown then
      some (lpcolestr key, match newVal with
        | .value v =>
          match v.pdispVal with
          | .ok o => if o.persistable then some v else none
          | .error _ => none
        | .byrefVariant _ => none)
    else none
  | .remove _ | .removeAll => none

/-- INTERNAL: a call stores under a name without a zero. -/
theorem lpcolestr_of_puts {m : VariantDictionary.Mutation} {key : Bstr} {stored : Option Variant}
    (h : puts m = some (key, stored)) : lpcolestr key = key := by
  cases m with
  | putItem name newVal defaults =>
    rw [← (Prod.mk.inj (Option.some.inj h)).1, lpcolestr_lpcolestr]
  | putrefItem name newVal =>
    by_cases htag : newVal.vt &&& vtDispatch = vtDispatch ∨ newVal.vt &&& vtUnknown = vtUnknown
    · simp only [puts, if_pos htag] at h
      rw [← (Prod.mk.inj (Option.some.inj h)).1, lpcolestr_lpcolestr]
    · simp only [puts, if_neg htag] at h
      cases h
  | remove name => cases h
  | removeAll => cases h

/-- What a put does to the variables. -/
def Stores (d d' : VariantDictionary loc) (key : Bstr) (stored : Option Variant) : Prop :=
  d'.isserialized = d.isserialized ∧ d'.readOnly = d.readOnly ∧
    d'.dictionary = match stored with
      | none => d.dictionary.insert key .empty
      | some v => d.dictionary.upsert key v

/-- INTERNAL: a put leaves no name with a zero. -/
theorem Zeroless.stores {d d' : VariantDictionary loc} (h : Zeroless d) {key : Bstr}
    {stored : Option Variant} (hkey : lpcolestr key = key) (hd : Stores d d' key stored) :
    Zeroless d' := by
  cases stored with
  | none => exact h.insert hkey hd.2.2
  | some v => exact h.upsert hkey hd.2.2

/-- INTERNAL: a value that is no `VT_DISPATCH` stands for itself. -/
theorem resolved_of_ne_dispatch {v : Variant} (h : ∀ o, v ≠ .dispatch o)
    (defaults : List Variant) : resolved defaults v = some v := by
  cases v with
  | dispatch o => exact absurd rfl (h o)
  | _ => cases defaults <;> rfl

/-- INTERNAL: what `put_Item` does with a value that is no `VT_DISPATCH`. -/
theorem stores_value {d d' : VariantDictionary loc} {key : Bstr} {v : Variant}
    {defaults : List Variant} {hr : HResult} (hv : ∀ o, v ≠ .dispatch o)
    (h : (do
      if (← v.copy).failed then (.error .fault : Run (HResult × VariantDictionary loc))
      else pure (.sOk, { d with
        dictionary := (d.dictionary.insert key .empty).assign key v, blnDirty := true })) =
      .ok (hr, d')) :
    Stores d d' key (resolved defaults v) := by
  obtain ⟨hrCopy, -, h⟩ := Run.bind_eq_ok h
  split at h
  · cases h
  · simp only [Run.pure_eq, Except.ok.injEq, Prod.mk.injEq] at h
    obtain ⟨-, rfl⟩ := h
    rw [resolved_of_ne_dispatch hv defaults]
    exact ⟨rfl, rfl, OrderedMap.assign_insert _ _ _ _⟩

/-- **`put_Item`** stores the resolved value, or only adds the key. -/
theorem putItem_spec {d d' : VariantDictionary loc} (hro : d.readOnly = false) {key : Bstr}
    {newVal : Argument} {defaults : List Variant} {hr : HResult}
    (h : d.putItem key newVal defaults = .ok (hr, d')) :
    ∃ v, newVal.deref = .ok v ∧ Stores d d' (lpcolestr key) (resolved defaults v) := by
  induction defaults generalizing d d' newVal hr with
  | nil =>
    rw [VariantDictionary.putItem, if_neg (by simp [hro])] at h
    obtain ⟨v, hderef, h⟩ := Run.bind_eq_ok h
    refine ⟨v, hderef, ?_⟩
    cases v with
    | dispatch o =>
      cases o <;>
      · simp only [Run.pure_eq, Except.ok.injEq, Prod.mk.injEq] at h
        obtain ⟨-, rfl⟩ := h
        exact ⟨rfl, rfl, rfl⟩
    | _ => exact stores_value (by simp) h
  | cons w defaults ih =>
    rw [VariantDictionary.putItem, if_neg (by simp [hro])] at h
    obtain ⟨v, hderef, h⟩ := Run.bind_eq_ok h
    refine ⟨v, hderef, ?_⟩
    cases v with
    | dispatch o =>
      by_cases hnull : o = .null
      · subst hnull
        simp only [Run.pure_eq, Except.ok.injEq, Prod.mk.injEq] at h
        obtain ⟨-, rfl⟩ := h
        exact ⟨rfl, rfl, rfl⟩
      · -- the next default property is put under the key that was just added
        have hchain : (VariantDictionary.putItem
            { d with dictionary := d.dictionary.insert (lpcolestr key) .empty } key (.value w)
              defaults >>= fun r => pure (r.1, { r.2 with blnDirty := true })) = .ok (hr, d') := by
          cases o with
          | null => exact absurd rfl hnull
          | _ => exact h
        obtain ⟨⟨hr₁, d₁⟩, hput, hresult⟩ := Run.bind_eq_ok hchain
        simp only [Run.pure_eq, Except.ok.injEq, Prod.mk.injEq] at hresult
        obtain ⟨-, rfl⟩ := hresult
        obtain ⟨w', hw', hflags, hro', hstored⟩ :=
          ih (d := { d with dictionary := d.dictionary.insert (lpcolestr key) .empty }) hro hput
        have hnext : resolved (w :: defaults) (.dispatch o) = resolved defaults w' := by
          cases o with
          | null => exact absurd rfl hnull
          | _ => simp only [resolved, hw']
        rw [hnext]
        refine ⟨hflags, hro', hstored.trans ?_⟩
        cases resolved defaults w' with
        | none => exact OrderedMap.insert_insert _ _ _ _
        | some v => exact OrderedMap.upsert_insert _ _ _ _
    | _ => exact stores_value (by simp) h

/-- **`putref_Item`** stores an object that can be saved, or only adds the key. -/
theorem putrefItem_spec {d d' : VariantDictionary loc} (hro : d.readOnly = false) {key : Bstr}
    {newVal : Argument} {hr : HResult} (h : d.putrefItem key newVal = .ok (hr, d')) :
    match puts (.putrefItem key newVal) with
    | none => d' = d
    | some (key, stored) => Stores d d' key stored := by
  rw [VariantDictionary.putrefItem, if_neg (by simp [hro])] at h
  unfold puts
  dsimp only
  by_cases htag : newVal.vt &&& vtDispatch = vtDispatch ∨ newVal.vt &&& vtUnknown = vtUnknown
  · rw [if_pos htag] at h ⊢
    cases newVal with
    | byrefVariant v => cases h
    | value v =>
      obtain ⟨o, ho, h⟩ := Run.bind_eq_ok h
      simp only [ho]
      split at h
      · rename_i hp
        simp only [Run.pure_eq, Except.ok.injEq, Prod.mk.injEq] at h
        obtain ⟨-, rfl⟩ := h
        rw [if_pos hp]
        exact ⟨rfl, rfl, OrderedMap.assign_insert _ _ _ _⟩
      · rename_i hp
        simp only [Run.pure_eq, Except.ok.injEq, Prod.mk.injEq] at h
        obtain ⟨-, rfl⟩ := h
        rw [if_neg hp]
        exact ⟨rfl, rfl, rfl⟩
  · rw [if_neg htag] at h ⊢
    simp only [Run.pure_eq, Except.ok.injEq, Prod.mk.injEq] at h
    exact h.2.symm

/-! ## Safe calls -/

/-- The condition on a call under which it keeps a dictionary lossless: what it may store
is stored safely. -/
def SafeCall (d : VariantDictionary loc) (m : VariantDictionary.Mutation) : Prop :=
  match puts m with
  | none => True
  | some (key, stored) =>
    SafePut d key .empty ∧ ∀ v, stored = some v → SafePut d key v

/-- The first call on a new dictionary is safe when its key and value can be stored. -/
theorem safeCall_new {m : VariantDictionary.Mutation} {key : Bstr} {v : Variant}
    (hputs : puts m = some (key, some v)) (hname : WellFormedUtf16 key ∧ StringFits key)
    (hvalue : Storable false v ∧ Readable v)
    (hstream : ∀ w, w = .empty ∨ w = v → ∀ mem, (dictionaryBytes mem
      { (.new : VariantDictionary loc) with
        dictionary := OrderedMap.empty.upsert key w }).length < 2 ^ 32) :
    SafeCall (.new : VariantDictionary loc) m := by
  have hput : ∀ w, w = .empty ∨ w = v → SafePut (.new : VariantDictionary loc) key w := by
    intro w hw
    refine ⟨hname, ?_, fun _ e he => (by cases he), fun e he => (by cases he), ?_, hstream w hw⟩
    · rcases hw with rfl | rfl
      · exact ⟨⟨trivial, trivial⟩, trivial⟩
      · exact hvalue
    · change ((OrderedMap.insertEntry loc.compare key w []).map _).length ≤ 32767
      simp [OrderedMap.insertEntry]
  simp only [SafeCall, hputs, Option.some.injEq]
  exact ⟨hput _ (.inl rfl), fun w hw => hput w (.inr hw.symm)⟩

/-- INTERNAL: adding a key or storing a value safely. -/
theorem Lossless.stores {d d' : VariantDictionary loc} (h : Lossless d) {key : Bstr}
    {stored : Option Variant} (hkey : lpcolestr key = key) (hadd : SafePut d key .empty)
    (hput : ∀ v, stored = some v → SafePut d key v) (hd : Stores d d' key stored) :
    Lossless d' := by
  obtain ⟨hflags, -, hstored⟩ := hd
  cases stored with
  | none =>
    rcases OrderedMap.insert_eq_self_or_upsert d.dictionary key Variant.empty with hsame | hnew
    · exact h.congr (hstored.trans hsame) hflags
    · exact (h.upsert hkey hadd).congr (hstored.trans hnew) hflags
  | some v => exact (h.upsert hkey (hput v rfl)).congr hstored hflags

/-- **What a call does to the variables**, as far as storing goes. -/
theorem mutate_spec {d d' : VariantDictionary loc} (hro : d.readOnly = false)
    {m : VariantDictionary.Mutation} (h : d.mutate m = .ok d') :
    match m, puts m with
    | .remove key, _ => d' = d.remove key
    | .removeAll, _ => d' = d.removeAll
    | _, some (key, stored) => Stores d d' key stored
    | _, none => d' = d := by
  cases m with
  | putItem key newVal defaults =>
    obtain ⟨⟨hr, d₁⟩, hput, h⟩ := Run.bind_eq_ok h
    simp only [Run.pure_eq, Except.ok.injEq] at h
    subst h
    obtain ⟨v, hderef, hstores⟩ := putItem_spec hro hput
    simp only [puts, hderef]
    exact hstores
  | putrefItem key newVal =>
    obtain ⟨⟨hr, d₁⟩, hput, h⟩ := Run.bind_eq_ok h
    simp only [Run.pure_eq, Except.ok.injEq] at h
    subst h
    have hstores := putrefItem_spec hro hput
    cases hputs : puts (.putrefItem key newVal) with
    | none =>
      rw [hputs] at hstores
      exact hstores
    | some p =>
      rw [hputs] at hstores
      exact hstores
  | remove key =>
    simp only [VariantDictionary.mutate, Run.pure_eq, Except.ok.injEq] at h
    exact h.symm
  | removeAll =>
    simp only [VariantDictionary.mutate, Run.pure_eq, Except.ok.injEq] at h
    exact h.symm

/-- **A call adds no name with a zero.** -/
theorem Zeroless.mutate {d d' : VariantDictionary loc} (h : Zeroless d)
    {m : VariantDictionary.Mutation} (hd : d.mutate m = .ok d') : Zeroless d' := by
  cases m with
  | remove key =>
    cases hd
    exact h.remove key
  | removeAll =>
    cases hd
    exact fun e he => absurd he List.not_mem_nil
  | putItem key newVal defaults =>
    cases hro : d.readOnly with
    | true =>
      rw [VariantDictionary.mutate, VariantDictionary.putItem.eq_def, if_pos hro] at hd
      cases hd
      exact h
    | false => exact h.stores (lpcolestr_lpcolestr key) (mutate_spec hro hd)
  | putrefItem key newVal =>
    cases hro : d.readOnly with
    | true =>
      rw [VariantDictionary.mutate, VariantDictionary.putrefItem, if_pos hro] at hd
      cases hd
      exact h
    | false =>
      have hspec := mutate_spec hro hd
      cases hputs : puts (.putrefItem key newVal) with
      | none =>
        simp only [hputs] at hspec
        exact hspec ▸ h
      | some p =>
        simp only [hputs] at hspec
        exact h.stores (lpcolestr_of_puts hputs) hspec

/-- No call makes the dictionary read-only. -/
theorem readOnly_mutate {d d' : VariantDictionary loc} (hro : d.readOnly = false)
    {m : VariantDictionary.Mutation} (h : d.mutate m = .ok d') : d'.readOnly = false := by
  have hspec := mutate_spec hro h
  cases m with
  | putItem key newVal defaults => exact hspec.2.1.trans hro
  | putrefItem key newVal =>
    cases hputs : puts (.putrefItem key newVal) with
    | none =>
      simp only [hputs] at hspec
      exact hspec ▸ hro
    | some p =>
      simp only [hputs] at hspec
      exact hspec.2.1.trans hro
  | remove key => exact hspec ▸ hro
  | removeAll => exact hspec ▸ hro

/-- The calls that set the dirty flag: `putref_Item` and `RemoveAll` leave it alone. -/
def setsDirty : VariantDictionary.Mutation → Bool
  | .putItem _ _ _ | .remove _ => true
  | .putrefItem _ _ | .removeAll => false

/-- **The dirty flag after a call.** -/
theorem blnDirty_mutate {d d' : VariantDictionary loc} (hro : d.readOnly = false)
    {m : VariantDictionary.Mutation} (h : d.mutate m = .ok d') :
    d'.blnDirty = (setsDirty m || d.blnDirty) := by
  cases m with
  | putItem key newVal defaults =>
    obtain ⟨⟨hr, d₁⟩, hput, h⟩ := Run.bind_eq_ok h
    simp only [Run.pure_eq, Except.ok.injEq] at h
    subst h
    rw [VariantDictionary.putItem.eq_def, if_neg (by simp [hro])] at hput
    obtain ⟨v, -, hput⟩ := Run.bind_eq_ok hput
    split at hput
    · simp only [Run.pure_eq, Except.ok.injEq, Prod.mk.injEq] at hput
      rw [← hput.2]
      rfl
    · split at hput
      · simp only [Run.pure_eq, Except.ok.injEq, Prod.mk.injEq] at hput
        rw [← hput.2]
        rfl
      · obtain ⟨⟨hr₂, d₂⟩, -, hput⟩ := Run.bind_eq_ok hput
        simp only [Run.pure_eq, Except.ok.injEq, Prod.mk.injEq] at hput
        rw [← hput.2]
        rfl
    · obtain ⟨hrCopy, -, hput⟩ := Run.bind_eq_ok hput
      split at hput
      · cases hput
      · simp only [Run.pure_eq, Except.ok.injEq, Prod.mk.injEq] at hput
        rw [← hput.2]
        rfl
  | putrefItem key newVal =>
    obtain ⟨⟨hr, d₁⟩, hput, h⟩ := Run.bind_eq_ok h
    simp only [Run.pure_eq, Except.ok.injEq] at h
    subst h
    rw [VariantDictionary.putrefItem, if_neg (by simp [hro])] at hput
    split at hput
    · cases newVal with
      | byrefVariant v => cases hput
      | value v =>
        obtain ⟨o, -, hput⟩ := Run.bind_eq_ok hput
        split at hput
        · simp only [Run.pure_eq, Except.ok.injEq, Prod.mk.injEq] at hput
          rw [← hput.2]
          rfl
        · simp only [Run.pure_eq, Except.ok.injEq, Prod.mk.injEq] at hput
          rw [← hput.2]
          rfl
    · simp only [Run.pure_eq, Except.ok.injEq, Prod.mk.injEq] at hput
      rw [← hput.2]
      rfl
  | remove key =>
    simp only [VariantDictionary.mutate, Run.pure_eq, Except.ok.injEq] at h
    rw [← h]
    rfl
  | removeAll =>
    simp only [VariantDictionary.mutate, Run.pure_eq, Except.ok.injEq] at h
    rw [← h]
    rfl

/-- **A safe call keeps a dictionary lossless.** -/
theorem Lossless.mutate {d d' : VariantDictionary loc} (h : Lossless d)
    (hro : d.readOnly = false) {m : VariantDictionary.Mutation} (hsafe : SafeCall d m)
    (hd : d.mutate m = .ok d') : Lossless d' := by
  have hspec := mutate_spec hro hd
  unfold SafeCall at hsafe
  cases m with
  | putItem key newVal defaults =>
    exact h.stores (lpcolestr_lpcolestr key) hsafe.1 hsafe.2 hspec
  | putrefItem key newVal =>
    cases hputs : puts (.putrefItem key newVal) with
    | none =>
      simp only [hputs] at hspec
      exact hspec ▸ h
    | some p =>
      simp only [hputs] at hspec hsafe
      exact h.stores (lpcolestr_of_puts hputs) hsafe.1 hsafe.2 hspec
  | remove key => exact hspec ▸ h.remove key
  | removeAll => exact hspec ▸ lossless_of_empty rfl

end IspSession.Analysis
