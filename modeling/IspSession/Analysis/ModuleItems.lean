import IspSession.Analysis.ModuleKeys

/-!
# The items of the session module

`LocalContents` writes the items of a `SessionStateItemCollection` in descending order of their
names, and `LocalLoad` adds what it reads to a new one, names without characters left out. The
items come back exactly when there are at most 32767 of them, when every name is well-formed text
with at least one character, and when no `byte` stands on its own.
-/

set_option autoImplicit false

namespace IspSession.Analysis

open IspSession.Library IspSession.Model IspSession.Model.CSessionManaged

variable {names : NetNames} {rt : NetRuntime} {loaders : NetLoaders} {strings : NetStrings}

/-! ## The collection -/

/-- INTERNAL: an item is found under its name. -/
theorem get_of_mem {s : SessionStateItemCollection names} {e : Bstr × NetValue}
    (he : e ∈ s.entries) : s.get e.1 = e.2 := by
  have hrefl : names.same e.1 e.1 = true := names.equivalence.refl e.1
  have hfind : ∀ entries : List (Bstr × NetValue),
      (entries.Pairwise fun a b => names.same a.1 b.1 = false) → e ∈ entries →
        entries.find? (fun e' => names.same e'.1 e.1) = some e := by
    intro entries hdistinct hmem
    induction entries with
    | nil => cases hmem
    | cons first entries ih =>
      rw [List.pairwise_cons] at hdistinct
      rcases List.mem_cons.mp hmem with rfl | hmem
      · simp only [List.find?_cons, hrefl]
      · simp only [List.find?_cons, hdistinct.1 e hmem]
        exact ih hdistinct.2 hmem
  rw [SessionStateItemCollection.get, hfind s.entries s.distinct he]

/-- `LocalLoad` adds an item that has a name. -/
def addItem (s : SessionStateItemCollection names) (e : Bstr × NetValue) :
    SessionStateItemCollection names :=
  if e.1 = [] then s else s.set e.1 e.2

/-- INTERNAL: a name that is not there is added at the end. -/
theorem entries_set {s : SessionStateItemCollection names} {name : Bstr} {value : NetValue}
    (h : ∀ e ∈ s.entries, names.same e.1 name = false) :
    (s.set name value).entries = s.entries ++ [(name, value)] := by
  have hno : ¬ s.contains name = true := by
    intro hcontains
    obtain ⟨e, he, hsame⟩ := List.any_eq_true.mp hcontains
    rw [h e he] at hsame
    cases hsame
  rw [SessionStateItemCollection.set, dif_neg hno]

/-- **Items with different names are all there**, in the order in which they were added. -/
theorem entries_foldl_addItem {items : List (Bstr × NetValue)}
    {s : SessionStateItemCollection names} (hnames : ∀ e ∈ items, e.1 ≠ [])
    (hdistinct : (s.entries ++ items).Pairwise fun a b => names.same a.1 b.1 = false) :
    (items.foldl addItem s).entries = s.entries ++ items := by
  induction items generalizing s with
  | nil => exact (List.append_nil _).symm
  | cons e items ih =>
    have hset : (addItem s e).entries = s.entries ++ [e] := by
      rw [addItem, if_neg (hnames e List.mem_cons_self)]
      exact entries_set fun e' he' =>
        (List.pairwise_append.mp hdistinct).2.2 e' he' e List.mem_cons_self
    rw [List.foldl_cons, ih (fun e he => hnames e (List.mem_cons_of_mem _ he)) (by
      rw [hset, List.append_assoc]
      exact hdistinct), hset, List.append_assoc]
    rfl

/-- INTERNAL: nothing else gets into a collection. -/
theorem mem_foldl_addItem {items : List (Bstr × NetValue)} {e : Bstr × NetValue}
    {s : SessionStateItemCollection names} (h : e ∈ (items.foldl addItem s).entries) :
    (∃ e' ∈ s.entries, e'.1 = e.1) ∨ ∃ e' ∈ items, e'.1 = e.1 ∧ e'.1 ≠ [] := by
  induction items generalizing s with
  | nil => exact .inl ⟨e, h, rfl⟩
  | cons first items ih =>
    rcases ih h with ⟨e', he', hname⟩ | ⟨e', he', hname⟩
    · unfold addItem at he'
      split at he'
      · exact .inl ⟨e', he', hname⟩
      · rename_i hne
        unfold SessionStateItemCollection.set at he'
        split at he'
        · obtain ⟨e'', he'', rfl⟩ := List.mem_map.mp he'
          exact .inl ⟨e'', he'', hname⟩
        · rcases List.mem_append.mp he' with he' | he'
          · exact .inl ⟨e', he', hname⟩
          · rw [List.mem_singleton.mp he'] at hname
            exact .inr ⟨first, List.mem_cons_self, hname, hne⟩
    · exact .inr ⟨e', List.mem_cons_of_mem _ he', hname⟩

/-! ## The payload -/

/-- The items in the order in which they are written. -/
def itemsDescending (strings : NetStrings) (items : SessionStateItemCollection names) :
    List (Bstr × NetValue) :=
  (PersistUtil.keysDescending strings items).map fun key => (key, items.get key)

/-- INTERNAL: they are the items. -/
theorem itemsDescending_perm (strings : NetStrings) (items : SessionStateItemCollection names) :
    (itemsDescending strings items).Perm items.entries := by
  have hmap : (items.entries.map Prod.fst).map (fun key => (key, items.get key)) =
      items.entries := by
    rw [List.map_map]
    conv_rhs => rw [← List.map_id items.entries]
    refine List.map_congr_left fun e he => ?_
    show (e.1, items.get e.1) = e
    rw [get_of_mem he]
  have hperm := (List.perm_insertionSort (fun a b => strings.compare a b ≠ .lt)
    (items.entries.map Prod.fst)).map fun key => (key, items.get key)
  rw [hmap] at hperm
  exact hperm

/-- INTERNAL: the cells that `LocalContents` writes. -/
theorem moduleContents_eq (strings : NetStrings) (rt : NetRuntime)
    (items : SessionStateItemCollection names) :
    CSessionManaged.PersistUtil.localContents strings rt items =
      writePayload rt ((itemsDescending strings items).map fun e => (e.1, .ok e.2)) := by
  have hloop : ∀ (keys : List Bstr) (str : MemoryStream),
      CSessionManaged.PersistUtil.writeProperties rt items keys str =
        writeItems rt ((keys.map fun key => (key, items.get key)).map fun e => (e.1, .ok e.2))
          str := by
    intro keys
    induction keys with
    | nil => exact fun _ => rfl
    | cons key keys ih =>
      intro str
      rw [CSessionManaged.PersistUtil.writeProperties, List.map_cons, List.map_cons, writeItems,
        NetRun.ok_bind]
      simp only [ih]
  have hcount : ((itemsDescending strings items).map fun e => (e.1, Except.ok e.2) :
      List (Bstr × NetRun NetValue)).length = items.entries.length := by
    rw [List.length_map, (itemsDescending_perm strings items).length_eq]
  unfold CSessionManaged.PersistUtil.localContents writePayload
  rw [hcount]
  simp only [hloop]
  rfl

/-- INTERNAL: `LocalLoad` adds the items of its payload. -/
theorem moduleLoad_eq (rt : NetRuntime) (loaders : NetLoaders) (payload : Bytes) :
    (CSessionManaged.PersistUtil.localLoad rt loaders payload :
      NetRun (SessionStateItemCollection names)) =
      (readPayload .http rt loaders payload).map fun items => items.foldl addItem .new := by
  have hloop : ∀ (n : ℕ) (m : StreamManager) (s : SessionStateItemCollection names),
      CSessionManaged.PersistUtil.loadProperties rt loaders n m s =
        (readItems rt loaders n m).map fun items => items.foldl addItem s := by
    intro n
    induction n with
    | zero => exact fun _ _ => rfl
    | succ n ih =>
      intro m s
      rw [CSessionManaged.PersistUtil.loadProperties, readItems]
      cases Model.PersistUtil.readProperty rt loaders m with
      | error e => rfl
      | ok p =>
        obtain ⟨name, v, m'⟩ := p
        simp only [NetRun.ok_bind, ih]
        cases readItems rt loaders n m' <;> rfl
  unfold CSessionManaged.PersistUtil.localLoad readPayload
  cases Model.PersistUtil.readProperty rt loaders (StreamManager.new ⟨payload, 0⟩ false) with
  | error e => rfl
  | ok p =>
    obtain ⟨name, v, m⟩ := p
    simp only [NetRun.ok_bind, hloop]
    show (if name ≠ netElsName then _ else _) = _
    split
    · rfl
    · cases Model.PersistUtil.unboxInt v with
      | error e => rfl
      | ok count =>
        simp only [NetRun.ok_bind]
        split <;> rfl

/-! ## The round trip -/

/-- The same names, each with the same value. -/
def SameSessionItems (s t : SessionStateItemCollection names) : Prop :=
  t.entries.length = s.entries.length ∧
    ∀ e ∈ s.entries, ∃ v, (e.1, v) ∈ t.entries ∧ SameValue e.2 v

/-- The items of a collection can come back. -/
structure Returning (items : SessionStateItemCollection names) : Prop where
  count : items.entries.length ≤ 32767
  named : ∀ e ∈ items.entries, e.1 ≠ [] ∧ WellFormedUtf16 e.1
  kept : ∀ e ∈ items.entries, Kept e.2

/-- The payload of a collection. -/
def modulePayload (strings : NetStrings) (rt : NetRuntime)
    (items : SessionStateItemCollection names) : Bytes :=
  payloadBytes rt (itemsDescending strings items)

/-- INTERNAL: what `LocalContents` writes. -/
theorem moduleContents_netSpec {items : SessionStateItemCollection names}
    (hsupp : ∀ e ∈ items.entries, NetSupported e.2)
    (hfits : (modulePayload strings rt items).length < 0x7FFFF000) :
    ((∀ e ∈ items.entries, NetWritable e.2) →
      CSessionManaged.PersistUtil.localContents strings rt items =
        .ok (modulePayload strings rt items, (modulePayload strings rt items).length)) ∧
      ((¬ ∀ e ∈ items.entries, NetWritable e.2) →
        Throws (CSessionManaged.PersistUtil.localContents strings rt items)) := by
  have hperm := itemsDescending_perm strings items
  let cells : List (Bstr × NetRun NetValue) :=
    (itemsDescending strings items).map fun e => (e.1, .ok e.2)
  have hgot : gotItems cells = itemsDescending strings items :=
    List.map_map.trans (List.map_id _)
  have hall : (∀ c ∈ cells, ∃ v, c.2 = .ok v ∧ NetWritable v) ↔
      ∀ e ∈ items.entries, NetWritable e.2 := by
    constructor
    · intro h e he
      obtain ⟨v, hv, hw⟩ := h _ (List.mem_map_of_mem (hperm.mem_iff.mpr he))
      rw [Except.ok.inj hv]
      exact hw
    · intro h c hc
      obtain ⟨e, he, rfl⟩ := List.mem_map.mp hc
      exact ⟨e.2, rfl, h e (hperm.mem_iff.mp he)⟩
  have hspec := @writePayload_netSpec rt cells (fun c hc v hv => by
    obtain ⟨e, he, rfl⟩ := List.mem_map.mp hc
    rw [← Except.ok.inj hv]
    exact hsupp e (hperm.mem_iff.mp he)) (by rw [hgot]; exact hfits)
  rw [hgot, hall] at hspec
  rw [moduleContents_eq]
  exact hspec

/-- INTERNAL: what `LocalLoad` makes of that, for named items. -/
theorem moduleLoad_payload {items : SessionStateItemCollection names}
    (hsupp : ∀ e ∈ items.entries, NetSupported e.2)
    (hfits : (modulePayload strings rt items).length < 0x7FFFF000)
    (hwritable : ∀ e ∈ items.entries, NetWritable e.2)
    (hnamed : ∀ e ∈ items.entries, e.1 ≠ [] ∧ WellFormedUtf16 e.1) :
    (32767 < items.entries.length →
      (CSessionManaged.PersistUtil.localLoad rt loaders (modulePayload strings rt items) :
        NetRun (SessionStateItemCollection names)) = .error .http) ∧
    (items.entries.length ≤ 32767 → ∃ loaded : SessionStateItemCollection names,
      CSessionManaged.PersistUtil.localLoad rt loaders (modulePayload strings rt items) =
        .ok loaded ∧
        loaded.entries = (itemsDescending strings items).map fun e => (e.1, loadedAs e.2)) := by
  have hperm := itemsDescending_perm strings items
  have hlength : ((itemsDescending strings items).map (storedItem rt)).length =
      items.entries.length := by rw [List.length_map, hperm.length_eq]
  have hloads : ∀ item ∈ (itemsDescending strings items).map (storedItem rt),
      item.Loads rt loaders := by
    intro item hitem
    obtain ⟨e, he, rfl⟩ := List.mem_map.mp hitem
    obtain ⟨hname, hv⟩ := fits_of_mem (List.mem_cons_of_mem _ he) hfits
    have he' := hperm.mem_iff.mp he
    exact ⟨(hnamed e he').2, hname, readNetValue_spec loaders (hsupp e he') (hwritable e he') hv⟩
  have hsmall : ((itemsDescending strings items).map (storedItem rt)).length < 2 ^ 31 := by
    have hle := length_le_netPropertiesBytes rt 0
      ((netElsName, netElsValue (itemsDescending strings items).length) ::
        itemsDescending strings items)
    have hlt : (netPropertiesBytes rt 0
      ((netElsName, netElsValue (itemsDescending strings items).length) ::
        itemsDescending strings items)).length < 0x7FFFF000 := hfits
    rw [List.length_cons] at hle
    rw [List.length_map]
    omega
  have hread := readPayload_storedItems .http _ hloads hsmall
  rw [List.length_map] at hread
  have hbytes : modulePayload strings rt items = storedItemsBytes 0
    (storedItem rt (netElsName, netElsValue (itemsDescending strings items).length) ::
      (itemsDescending strings items).map (storedItem rt)) := rfl
  rw [hbytes, moduleLoad_eq, hread, hperm.length_eq]
  constructor
  · intro hmany
    rw [if_pos hmany]
    rfl
  · intro hfew
    rw [if_neg (Nat.not_lt.mpr hfew), List.map_map]
    refine ⟨_, rfl, ?_⟩
    have hdistinct : ((SessionStateItemCollection.new : SessionStateItemCollection names).entries ++
        (itemsDescending strings items).map fun e => (e.1, loadedAs e.2)).Pairwise
          fun a b => names.same a.1 b.1 = false := by
      show ((itemsDescending strings items).map fun e => (e.1, loadedAs e.2)).Pairwise
        fun a b => names.same a.1 b.1 = false
      rw [List.pairwise_map]
      refine (List.Perm.pairwise_iff (fun {a b} h => ?_) hperm).mpr items.distinct
      exact Bool.eq_false_iff.mpr fun hsame =>
        absurd (names.equivalence.symm hsame) (Bool.eq_false_iff.mp h)
    refine entries_foldl_addItem (fun e he => ?_) hdistinct
    obtain ⟨e', he', rfl⟩ := List.mem_map.mp he
    exact (hnamed e' (hperm.mem_iff.mp he')).1

/-- **The items of the module come back exactly when they are `Returning`.** -/
theorem moduleRoundTrip_iff {items : SessionStateItemCollection names} {bytes : Bytes} {zLen : ℕ}
    (hsupp : ∀ e ∈ items.entries, NetSupported e.2)
    (hfits : (modulePayload strings rt items).length < 0x7FFFF000)
    (hcontents : CSessionManaged.PersistUtil.localContents strings rt items = .ok (bytes, zLen)) :
    (∃ loaded : SessionStateItemCollection names,
      CSessionManaged.PersistUtil.localLoad rt loaders bytes = .ok loaded ∧
        SameSessionItems items loaded) ↔ Returning items := by
  obtain ⟨hwrite, hthrows⟩ := @moduleContents_netSpec names rt strings items hsupp hfits
  have hwritable : ∀ e ∈ items.entries, NetWritable e.2 := by
    by_contra hnot
    exact (hthrows hnot).ne_ok _ hcontents
  rw [hwrite hwritable] at hcontents
  obtain ⟨rfl, -⟩ := Prod.mk.inj (Except.ok.inj hcontents)
  have hperm := itemsDescending_perm strings items
  constructor
  · rintro ⟨loaded, hload, hlength, hsame⟩
    have hnamed : ∀ e ∈ items.entries, e.1 ≠ [] ∧ WellFormedUtf16 e.1 := by
      intro e he
      obtain ⟨v, hv, -⟩ := hsame e he
      have heq := @moduleLoad_eq names rt loaders (modulePayload strings rt items)
      rw [hload] at heq
      cases hread : readPayload .http rt loaders (modulePayload strings rt items) with
      | error e =>
        rw [hread] at heq
        cases heq
      | ok read =>
        rw [hread] at heq
        obtain rfl : loaded = _ := Except.ok.inj heq
        rcases mem_foldl_addItem hv with ⟨e', he', -⟩ | ⟨e', he', hname, hne⟩
        · cases he'
        · rw [show e.1 = e'.1 from hname.symm]
          exact ⟨hne, wellFormed_readPayload hread e' he'⟩
    obtain ⟨hmany, hfew⟩ := @moduleLoad_payload names rt loaders strings _ hsupp hfits hwritable
      hnamed
    have hcount : items.entries.length ≤ 32767 := by
      by_contra hnot
      rw [hmany (Nat.lt_of_not_le hnot)] at hload
      cases hload
    obtain ⟨loaded', hload', hentries⟩ := hfew hcount
    rw [hload] at hload'
    obtain rfl := Except.ok.inj hload'
    refine ⟨hcount, hnamed, fun e he => ?_⟩
    obtain ⟨v, hv, hvalue⟩ := hsame e he
    have hmem : (e.1, loadedAs e.2) ∈ loaded.entries := by
      rw [hentries]
      exact List.mem_map_of_mem (hperm.mem_iff.mpr he)
    have hloaded : v = loadedAs e.2 := (get_of_mem hv).symm.trans (get_of_mem hmem)
    rw [hloaded] at hvalue
    exact (sameValue_loadedAs_iff e.2).mp hvalue
  · intro hreturning
    obtain ⟨-, hfew⟩ := @moduleLoad_payload names rt loaders strings _ hsupp hfits hwritable
      hreturning.named
    obtain ⟨loaded, hload, hentries⟩ := hfew hreturning.count
    refine ⟨loaded, hload, ?_, fun e he => ⟨loadedAs e.2, ?_, ?_⟩⟩
    · rw [hentries, List.length_map, hperm.length_eq]
    · rw [hentries]
      exact List.mem_map_of_mem (hperm.mem_iff.mpr he)
    · exact (sameValue_loadedAs_iff e.2).mpr (hreturning.kept e he)

end IspSession.Analysis
