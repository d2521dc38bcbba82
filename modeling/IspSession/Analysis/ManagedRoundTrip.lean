import IspSession.Analysis.ManagedPayload
import IspSession.Analysis.StateItems
import IspSession.Analysis.LateActivation

/-!
# The round trip of the managed session codec

`PersistUtil.LocalLoad` after `PersistUtil.LocalContents`, for collections of supported values.
It gives the collection back exactly when every name is well-formed text with a value under its
hash code, when every value can be written (`NetWritable`), and when no `byte` stands alone or
in an array of objects: `ReadValue` makes an `int` of it.
-/

set_option autoImplicit false

namespace IspSession.Analysis

open IspSession.Library IspSession.Model

variable {strings : NetStrings} {rt : NetRuntime} {loaders : NetLoaders}

/-! ## The claim -/

/-- A value of the same type, shape and content, but for nulls in arrays of strings, which may
come back as empty strings. -/
def SameValue : NetValue → NetValue → Prop
  | .stringArray b cells, w =>
    ∃ cells', w = .stringArray b cells' ∧
      ∀ i, cells' i = cells i ∨ (cells i = none ∧ cells' i = some [])
  | .array element b cells, w =>
    ∃ cells', w = .array element b cells' ∧ ∀ i, SameValue (cells i) (cells' i)
  | v, w => w = v

/-- `LocalLoad` on the bytes of `LocalContents` gives the same names with the same values. -/
def NetRoundTrips (rt : NetRuntime) (loaders : NetLoaders)
    (items : StateItemCollection strings NetValue) : Prop :=
  ∃ bytes zLen, ∃ loaded : StateItemCollection strings NetValue,
    PersistUtil.localContents rt items = .ok (bytes, zLen) ∧
      PersistUtil.localLoad rt loaders bytes = .ok loaded ∧ loaded.keys = items.keys ∧
      ∀ key ∈ items.keys, ∃ v v', items.getName key = .ok v ∧ loaded.getName key = .ok v' ∧
        SameValue v v'

/-- No `byte` on its own, nor as an element of an array of objects. -/
def Kept : NetValue → Prop
  | .primitive .byte _ => False
  | .array _ _ cells => ∀ i, Kept (cells i)
  | _ => True

/-- **What comes back is the value exactly when no `byte` is in it on its own.** -/
theorem sameValue_loadedAs_iff (v : NetValue) : SameValue v (loadedAs v) ↔ Kept v := by
  induction v with
  | primitive p bits =>
    cases p with
    | byte =>
      refine ⟨fun h => ?_, False.elim⟩
      have heq : NetValue.primitive .int32 (BitVec.ofNat 32 bits.toNat) = .primitive .byte bits := h
      cases heq
    | _ => exact ⟨fun _ => trivial, fun _ => rfl⟩
  | stringArray b cells =>
    refine ⟨fun _ => trivial, fun _ => ⟨_, rfl, fun i => ?_⟩⟩
    cases hi : cells i with
    | none => exact .inr ⟨rfl, rfl⟩
    | some s => exact .inl rfl
  | array element b cells ih =>
    constructor
    · rintro ⟨cells', heq, hcells⟩ i
      have hsame : (fun i => loadedAs (cells i)) = cells' := by
        injection heq
      exact (ih i).mp (by rw [show loadedAs (cells i) = cells' i from congrFun hsame i]; exact hcells i)
    · exact fun h => ⟨_, rfl, fun i => (ih i).mpr (h i)⟩
  | _ => exact ⟨fun _ => trivial, fun _ => rfl⟩

/-! ## Names -/

/-- INTERNAL: a string that is read is well-formed. -/
theorem wellFormed_netReadString {m m' : StreamManager} {s : Bstr}
    (h : m.readString = .ok (s, m')) : WellFormedUtf16 s := by
  unfold StreamManager.readString at h
  obtain ⟨⟨bytes, m₁⟩, -, h⟩ := NetRun.bind_eq_ok h
  obtain ⟨rfl, -⟩ := Prod.mk.inj (Except.ok.inj h)
  exact ⟨_, rfl⟩

/-- INTERNAL: the name of a property that is read is well-formed. -/
theorem wellFormed_netReadProperty {m m' : StreamManager} {name : Bstr} {v : NetValue}
    (h : PersistUtil.readProperty rt loaders m = .ok (name, v, m')) : WellFormedUtf16 name := by
  unfold PersistUtil.readProperty at h
  obtain ⟨⟨keyName, m₁⟩, hname, h⟩ := NetRun.bind_eq_ok h
  obtain ⟨⟨data, m₂⟩, -, h⟩ := NetRun.bind_eq_ok h
  obtain ⟨rfl, -⟩ := Prod.mk.inj (Except.ok.inj h)
  exact wellFormed_netReadString hname

/-- INTERNAL: so are those of several. -/
theorem wellFormed_readItems {n : ℕ} {m : StreamManager} {items : List (Bstr × NetValue)}
    (h : readItems rt loaders n m = .ok items) : ∀ e ∈ items, WellFormedUtf16 e.1 := by
  induction n generalizing m items with
  | zero =>
    obtain rfl := Except.ok.inj h
    exact fun e he => absurd he List.not_mem_nil
  | succ n ih =>
    rw [readItems] at h
    obtain ⟨⟨name, v, m₁⟩, hread, h⟩ := NetRun.bind_eq_ok h
    obtain ⟨rest, hrest, h⟩ := NetRun.bind_eq_ok h
    obtain rfl := Except.ok.inj h
    intro e he
    rcases List.mem_cons.mp he with rfl | he
    · exact wellFormed_netReadProperty hread
    · exact ih hrest e he

/-- INTERNAL: a payload has a list of properties. -/
theorem readItems_of_readPayload {corrupt : NetException} {payload : Bytes}
    {items : List (Bstr × NetValue)} (h : readPayload corrupt rt loaders payload = .ok items) :
    ∃ n m, readItems rt loaders n m = .ok items := by
  unfold readPayload at h
  obtain ⟨⟨name, v, m⟩, -, h⟩ := NetRun.bind_eq_ok h
  dsimp only at h
  split at h
  · cases h
  · obtain ⟨count, -, h⟩ := NetRun.bind_eq_ok h
    split at h
    · cases h
    · exact ⟨_, _, h⟩

/-- **The names in a payload are well-formed.** -/
theorem wellFormed_readPayload {corrupt : NetException} {payload : Bytes}
    {items : List (Bstr × NetValue)} (h : readPayload corrupt rt loaders payload = .ok items) :
    ∀ e ∈ items, WellFormedUtf16 e.1 := by
  obtain ⟨n, m, hitems⟩ := readItems_of_readPayload h
  exact wellFormed_readItems hitems

/-- INTERNAL: what `LocalLoad` loads are the items of the payload. -/
theorem exists_of_localLoad {payload : Bytes} {s : StateItemCollection strings NetValue}
    (h : PersistUtil.localLoad rt loaders payload = .ok s) :
    ∃ items, readPayload .corruptState rt loaders payload = .ok items ∧
      items.foldl putEntry .new = s := by
  rw [localLoad_eq] at h
  cases hread : readPayload .corruptState rt loaders payload with
  | error e =>
    rw [hread] at h
    cases h
  | ok items =>
    rw [hread] at h
    exact ⟨items, rfl, Except.ok.inj h⟩

/-- INTERNAL: what holds of a collection and is kept when items are stored holds of what is
loaded. -/
theorem localLoad_keeps {P : StateItemCollection strings NetValue → Prop} {payload : Bytes}
    {s : StateItemCollection strings NetValue}
    (h : PersistUtil.localLoad rt loaders payload = .ok s) (hnew : P .new)
    (hput : ∀ s e, WellFormedUtf16 e.1 → P s → P (putEntry s e)) : P s := by
  obtain ⟨items, hread, rfl⟩ := exists_of_localLoad h
  have hnames := wellFormed_readPayload hread
  generalize (StateItemCollection.new : StateItemCollection strings NetValue) = start at hnew ⊢
  clear h hread
  induction items generalizing start with
  | nil => exact hnew
  | cons e items ih =>
    exact ih (fun e he => hnames e (List.mem_cons_of_mem _ he)) _
      (hput start e (hnames e List.mem_cons_self) hnew)

/-- **Every name that `LocalLoad` loads is well-formed.** -/
theorem wellFormed_netLocalLoad {payload : Bytes} {s : StateItemCollection strings NetValue}
    (h : PersistUtil.localLoad rt loaders payload = .ok s) :
    ∀ key ∈ s.keys, WellFormedUtf16 key := by
  refine localLoad_keeps (P := fun s => ∀ key ∈ s.keys, WellFormedUtf16 key) h
    (fun key hkey => by cases hkey) fun s e htext hs key hkey => ?_
  unfold putEntry putItem at hkey
  split at hkey
  · exact hs key hkey
  · obtain ⟨e', he', rfl⟩ := List.mem_map.mp hkey
    rcases OrderedMap.mem_insertEntry he' with rfl | he'
    · exact htext
    · exact hs _ (List.mem_map_of_mem he')

/-! ## Reading items -/

/-- INTERNAL: a stored name is found. -/
theorem contains_of_mem_keys {s : StateItemCollection strings NetValue} {key : Bstr}
    (h : key ∈ s.keys) : s.contains key = true := by
  obtain ⟨e, he, rfl⟩ := List.mem_map.mp h
  rw [StateItemCollection.contains, OrderedMap.find_of_mem he]
  rfl

/-- INTERNAL: the indexer on a stored name. -/
theorem getName_of_mem_keys {s : StateItemCollection strings NetValue} {key : Bstr}
    (h : key ∈ s.keys) (hne : key ≠ []) : s.getName key = s.entry key := by
  rw [StateItemCollection.getName, if_neg hne, contains_of_mem_keys h, if_pos rfl]

/-- INTERNAL: a stored name has the value under its hash code. -/
theorem entries_of_getName {s : StateItemCollection strings NetValue} {key : Bstr} {v : NetValue}
    (h : key ∈ s.keys) (hget : s.getName key = .ok v) :
    key ≠ [] ∧ s.entries (strings.getHashCode key) = some v := by
  have hne : key ≠ [] := by
    rintro rfl
    cases hget
  refine ⟨hne, ?_⟩
  rw [getName_of_mem_keys h hne, StateItemCollection.entry] at hget
  cases hentry : s.entries (strings.getHashCode key) with
  | none =>
    rw [hentry] at hget
    cases hget
  | some w =>
    rw [hentry] at hget
    rw [Except.ok.inj hget]

/-- **What `LocalLoad` makes of a payload**: the same names, each with what its value comes
back as. -/
theorem localLoad_payloadBytes (loaders : NetLoaders) {items : StateItemCollection strings NetValue}
    (hcount : items.count ≤ 32767)
    (hsupp : ∀ key ∈ items.keys, ∀ v, items.getName key = .ok v → NetSupported v)
    (hfits : (payloadBytes rt (itemsOf items)).length < 0x7FFFF000)
    (h : ∀ key ∈ items.keys,
      WellFormedUtf16 key ∧ ∃ v, items.getName key = .ok v ∧ NetWritable v) :
    ∃ loaded : StateItemCollection strings NetValue,
      PersistUtil.localLoad rt loaders (payloadBytes rt (itemsOf items)) = .ok loaded ∧
        loaded.keys = items.keys ∧
        ∀ key ∈ items.keys, ∀ v, items.getName key = .ok v →
          loaded.getName key = .ok (loadedAs v) := by
  have hfit : ∀ e ∈ itemsOf items, (stringBytes e.1).length < 0x7FFFF000 ∧ NetFits rt e.2 :=
    fun e he => fits_of_mem (List.mem_cons_of_mem _ he) hfits
  have hvalue : ∀ key ∈ items.keys, key ≠ [] ∧
      items.entries (strings.getHashCode key) = some (valueOf items key) := by
    intro key hkey
    obtain ⟨-, v, hget, -⟩ := h key hkey
    rw [valueOf_of_ok hget]
    exact entries_of_getName hkey hget
  have hloads : ∀ item ∈ (itemsOf items).map (storedItem rt), item.Loads rt loaders := by
    intro item hitem
    obtain ⟨e, he, rfl⟩ := List.mem_map.mp hitem
    obtain ⟨hname, hv⟩ := hfit e he
    obtain ⟨key, hkey, rfl⟩ := List.mem_map.mp he
    obtain ⟨htext, v, hget, hw⟩ := h key hkey
    rw [← valueOf_of_ok hget] at hw
    have hsupported := hsupp key hkey (valueOf items key) (by rw [valueOf_of_ok hget, hget])
    exact ⟨htext, hname, readNetValue_spec loaders hsupported hw hv⟩
  have hlength : ((itemsOf items).map (storedItem rt)).length = items.count := by
    rw [List.length_map, itemsOf, List.length_map]
    exact List.length_map _
  have hload := @localLoad_storedItems strings _ _ _ hloads (by omega)
  rw [List.length_map] at hload
  have hnames : ∀ item ∈ (itemsOf items).map (storedItem rt), item.name ≠ [] := by
    intro item hitem
    obtain ⟨e, he, rfl⟩ := List.mem_map.mp hitem
    obtain ⟨key, hkey, rfl⟩ := List.mem_map.mp he
    exact (hvalue key hkey).1
  have hmap : ((itemsOf items).map (storedItem rt)).map StoredItem.name = items.keys := by
    rw [itemsOf, List.map_map, List.map_map]
    exact List.map_id _
  have hkeys := @keys_foldl_putItem strings ((itemsOf items).map (storedItem rt)) hnames (by
      rw [hmap]
      exact List.pairwise_map.mpr items.entriesTable.sorted)
  rw [hmap] at hkeys
  refine ⟨_, hload, hkeys, fun key hkey v hget => ?_⟩
  have hitem : storedItem rt (key, valueOf items key) ∈ (itemsOf items).map (storedItem rt) :=
    List.mem_map_of_mem (List.mem_map.mpr ⟨key, hkey, rfl⟩)
  have hentry := @entries_of_mem_items strings ((itemsOf items).map (storedItem rt)) hnames
    (fun item hi other ho hhash => by
      obtain ⟨e, he, rfl⟩ := List.mem_map.mp hi
      obtain ⟨e', he', rfl⟩ := List.mem_map.mp ho
      obtain ⟨k, hk, rfl⟩ := List.mem_map.mp he
      obtain ⟨k', hk', rfl⟩ := List.mem_map.mp he'
      have hsame : valueOf items k = valueOf items k' := by
        have hboth := (hvalue k hk).2
        rw [show strings.getHashCode k = strings.getHashCode k' from hhash,
          (hvalue k' hk').2] at hboth
        exact (Option.some.inj hboth).symm
      exact congrArg loadedAs hsame) _ hitem
  rw [getName_of_mem_keys (by rw [hkeys]; exact hkey) (hvalue key hkey).1,
    StateItemCollection.entry]
  rw [show strings.getHashCode (storedItem rt (key, valueOf items key)).name =
    strings.getHashCode key from rfl] at hentry
  rw [hentry, ← valueOf_of_ok hget]
  rfl

/-! ## The theorem -/

/-- **The managed session codec round trip.** -/
theorem netRoundTrips_iff {items : StateItemCollection strings NetValue}
    (hcount : items.count ≤ 32767)
    (hsupp : ∀ key ∈ items.keys, ∀ v, items.getName key = .ok v → NetSupported v)
    (hfits : (payloadBytes rt (itemsOf items)).length < 0x7FFFF000) :
    NetRoundTrips rt loaders items ↔
      ∀ key ∈ items.keys,
        WellFormedUtf16 key ∧ ∃ v, items.getName key = .ok v ∧ NetWritable v ∧ Kept v := by
  obtain ⟨hwrite, hthrows⟩ := localContents_netSpec hsupp hfits
  constructor
  · rintro ⟨bytes, zLen, loaded, hcontents, hload, hkeys, hvalues⟩
    have htext : ∀ key ∈ items.keys, WellFormedUtf16 key := by
      rw [← hkeys]
      exact wellFormed_netLocalLoad hload
    have hwritable : ∀ key ∈ items.keys, ∃ v, items.getName key = .ok v ∧ NetWritable v := by
      by_contra hnot
      exact (hthrows hnot).ne_ok _ hcontents
    rw [hwrite hwritable] at hcontents
    obtain ⟨rfl, -⟩ := Prod.mk.inj (Except.ok.inj hcontents)
    obtain ⟨loaded', hload', -, hvalues'⟩ := localLoad_payloadBytes loaders hcount
      hsupp hfits fun key hkey => ⟨htext key hkey, hwritable key hkey⟩
    rw [hload] at hload'
    obtain rfl := Except.ok.inj hload'
    intro key hkey
    obtain ⟨v, hget, hw⟩ := hwritable key hkey
    obtain ⟨w, w', hget', hloaded, hsame⟩ := hvalues key hkey
    rw [hget] at hget'
    obtain rfl := Except.ok.inj hget'
    rw [hvalues' key hkey v hget] at hloaded
    obtain rfl := Except.ok.inj hloaded
    exact ⟨htext key hkey, v, hget, hw, (sameValue_loadedAs_iff v).mp hsame⟩
  · intro h
    have hcontents := hwrite fun key hkey => by
      obtain ⟨-, v, hget, hw, -⟩ := h key hkey
      exact ⟨v, hget, hw⟩
    obtain ⟨loaded, hload, hkeys, hvalues⟩ := localLoad_payloadBytes loaders hcount
      hsupp hfits fun key hkey => by
        obtain ⟨htext, v, hget, hw, -⟩ := h key hkey
        exact ⟨htext, v, hget, hw⟩
    refine ⟨_, _, loaded, hcontents, hload, hkeys, fun key hkey => ?_⟩
    obtain ⟨-, v, hget, -, hkept⟩ := h key hkey
    exact ⟨v, loadedAs v, hget, hvalues key hkey v hget, (sameValue_loadedAs_iff v).mpr hkept⟩

/-- Bounds of two cells with the indices -1 and 0. -/
def pairBounds : ArrayBounds := ⟨[⟨2, -1⟩], by decide⟩

/-- A number, an array of two null strings, and an array of two `bool` objects. -/
def sampleItems : StateItemCollection (.ordinal firstUnitHash) NetValue :=
  putItem (putItem (putItem .new [65] (.primitive .int32 5)) [66]
    (.stringArray pairBounds fun _ => none)) [67] (.array .object pairBounds fun _ => .boolean true)

theorem keys_sampleItems : sampleItems.keys = [[65], [66], [67]] := rfl

/-- INTERNAL: the three items. -/
theorem getName_sampleItems : ∀ key ∈ sampleItems.keys, WellFormedUtf16 key ∧
    ∃ v, sampleItems.getName key = .ok v ∧ NetSupported v ∧ NetWritable v ∧ Kept v := by
  rw [keys_sampleItems]
  have hwalk : Walkable pairBounds.dims := by decide
  have hobject : NetType.isArray .object = false := rfl
  intro key hkey
  simp only [List.mem_cons, List.not_mem_nil, or_false] at hkey
  rcases hkey with rfl | rfl | rfl
  · exact ⟨wellFormedUtf16_ascii (by decide), _, rfl, trivial, trivial, trivial⟩
  · exact ⟨wellFormedUtf16_ascii (by decide), _, rfl,
      fun _ => wellFormedUtf16_ascii (by decide : AsciiUtf16 []), fun _ => hwalk, trivial⟩
  · exact ⟨wellFormedUtf16_ascii (by decide), _, rfl,
      ⟨trivial, .inl rfl, fun _ => ⟨rfl, trivial⟩⟩,
      ⟨fun h => absurd (hobject.symm.trans h) (by decide), fun _ => hwalk, fun _ => trivial⟩,
      fun _ => trivial⟩

/-- They survive the round trip. -/
theorem sampleItems_netRoundTrips : NetRoundTrips .plain oleOnly sampleItems := by
  have hsupp : ∀ key ∈ sampleItems.keys, ∀ v, sampleItems.getName key = .ok v → NetSupported v := by
    intro key hkey v hget
    obtain ⟨-, w, hget', hsupported, -⟩ := getName_sampleItems key hkey
    rw [hget] at hget'
    exact Except.ok.inj hget' ▸ hsupported
  refine (netRoundTrips_iff (by decide) hsupp (by decide +kernel)).mpr fun key hkey => ?_
  obtain ⟨htext, v, hget, -, hw, hkept⟩ := getName_sampleItems key hkey
  exact ⟨htext, v, hget, hw, hkept⟩

/-- One `byte`. -/
def byteItem : StateItemCollection (.ordinal firstUnitHash) NetValue :=
  putItem .new [66] (.primitive .byte 5)

/-- **A `byte` comes back as an `int`.** -/
theorem byteItem_not_netRoundTrips : ¬ NetRoundTrips .plain oleOnly byteItem := by
  intro h
  have hsupp : ∀ key ∈ byteItem.keys, ∀ v, byteItem.getName key = .ok v → NetSupported v := by
    intro key hkey v hget
    obtain rfl : key = [66] := List.mem_singleton.mp hkey
    obtain rfl : NetValue.primitive .byte 5 = v := Except.ok.inj hget
    trivial
  obtain ⟨-, v, hget, -, hkept⟩ :=
    (netRoundTrips_iff (by decide) hsupp (by decide +kernel)).mp h [66] (List.mem_singleton.mpr rfl)
  obtain rfl : NetValue.primitive .byte 5 = v := Except.ok.inj hget
  exact hkept

end IspSession.Analysis
