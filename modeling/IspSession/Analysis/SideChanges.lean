import IspSession.Analysis.ManagedRoundTrip
import IspSession.Analysis.SessionCodecRoundTrip

/-!
# A session that changes sides

The component writes a session, the managed code loads it and writes it, and the component loads
that. `Passage` is what becomes of one value on this way, and `Apart` says that no name is lost: the
managed collection has no empty name, tells all names apart and finds each of them under its hash
code. `crossesWith_of_apart` and `apart_of_crossesWith` put the values and the names together.
-/

set_option autoImplicit false

namespace IspSession.Analysis

open IspSession.Library IspSession.Model

/-! ## The way of a value -/

/-- What becomes of a value: the bytes the component writes, what the managed code makes of them,
the bytes that it writes in turn, and what the component makes of those. -/
structure Passage where
  sent : Bytes
  net : NetValue
  returned : Bytes
  hr : HResult
  back : Variant

/-- The value gets to the managed side like that. -/
structure Passage.Arrives (rt : NetRuntime) (loaders : NetLoaders) (mem : Memory) (flag : Bool)
    (v : Variant) (p : Passage) : Prop where
  writable : Writable v
  sends : WritesAs mem flag (fun _ => p.sent) v
  reads : ReadsAs rt loaders v.vt p.sent p.net

/-- The codecs do all that with the value. -/
structure Passage.Holds (loc : Collation) (rt : NetRuntime) (loaders : NetLoaders)
    (mem mem' : Memory) (flag : Bool) (v : Variant) (p : Passage) : Prop
    extends Passage.Arrives rt loaders mem flag v p where
  returns : NetWrites rt p.net p.returned
  readsBack : ∀ name, ReadsTo loc mem' ⟨name, p.net.vt, p.returned⟩ p.hr p.back
  copies : p.back.copy = .ok .sOk

/-! ## The claim -/

/-- A dictionary that is saved by the component, loaded and saved by the managed code and loaded by
the component again. -/
def CrossesWith {loc : Collation} (strings : NetStrings) (rt : NetRuntime) (loaders : NetLoaders)
    (mem mem' : Memory) (target d : VariantDictionary loc) : Prop :=
  ∃ lSize stream d₀, ∃ items : StateItemCollection strings NetValue, ∃ bytes zLen d' stream',
    d.localContents mem = .ok (.sOk, lSize, stream, d₀) ∧
      PersistUtil.localLoad rt loaders stream.buf = .ok items ∧
      PersistUtil.localContents rt items = .ok (bytes, zLen) ∧
      target.localLoad mem' (some ⟨bytes, 0⟩) zLen = .ok (.sOk, d', some stream') ∧
      d'.dictionary = d.dictionary

/-- The names of the dictionary are names of a managed collection, each with a value of its own or
the value of all names with its hash code. -/
structure Apart {loc : Collation} (strings : NetStrings) (d : VariantDictionary loc) : Prop where
  named : ∀ e ∈ d.dictionary.entries, e.1 ≠ [] ∧ WellFormedUtf16 e.1
  distinct : d.dictionary.entries.Pairwise fun a b => strings.compare a.1 b.1 ≠ .eq
  hashed : ∀ a ∈ d.dictionary.entries, ∀ b ∈ d.dictionary.entries,
    strings.getHashCode a.1 = strings.getHashCode b.1 → a.2 = b.2

/-! ## To the managed side -/

section Way

variable {loc : Collation} {strings : NetStrings} {rt : NetRuntime} {loaders : NetLoaders}
  {mem mem' : Memory}

/-- INTERNAL: properties that have the same bytes. -/
theorem storedPropertiesBytes_congr {α : Type} {f g : α → StoredProperty} {l : List α}
    (h : ∀ a ∈ l, stringBytes (f a).name = stringBytes (g a).name ∧ (f a).vt = (g a).vt ∧
      (f a).bytes = (g a).bytes) (pos : ℕ) :
    storedPropertiesBytes pos (l.map f) = storedPropertiesBytes pos (l.map g) := by
  induction l generalizing pos with
  | nil => rfl
  | cons a l ih =>
    obtain ⟨hname, hvt, hbytes⟩ := h a List.mem_cons_self
    have hend : propertyEnd pos (f a).name (f a).bytes = propertyEnd pos (g a).name (g a).bytes := by
      rw [propertyEnd, propertyEnd, hname, hbytes]
    rw [List.map_cons, List.map_cons, storedPropertiesBytes, storedPropertiesBytes, hend,
      ih (fun a ha => h a (List.mem_cons_of_mem _ ha)), propertyBytes, propertyBytes, hname, hvt,
      hbytes]

/-- INTERNAL: a name and the text of its bytes. -/
theorem normalText_eq_nil {s : Bstr} : normalText s = [] ↔ s = [] := by
  rw [← utf16ToUtf8_eq_nil, utf16ToUtf8_normalText, utf16ToUtf8_eq_nil]

/-- INTERNAL: what the managed code can hold the component can. -/
theorem stringFits_of_length {s : Bstr} (h : (stringBytes s).length < 0x7FFFF000) :
    StringFits s := by
  rw [stringBytes, List.length_append, length_leBytes] at h
  unfold StringFits
  omega

/-- A variable as the managed code finds it in the component's stream. -/
def sentItem (way : Bstr → Variant → Passage) (e : Bstr × Variant) : StoredItem where
  name := normalText e.1
  vt := e.2.vt
  bytes := (way e.1 e.2).sent
  loaded := (way e.1 e.2).net

/-- What the managed code loads. -/
def received (strings : NetStrings) (way : Bstr → Variant → Passage) (d : VariantDictionary loc) :
    StateItemCollection strings NetValue :=
  ((storedEntries d).map (sentItem way)).foldl
    (fun items item => putItem items item.name item.loaded) .new

/-- Each variable gets to the managed side. -/
def Leaves (rt : NetRuntime) (loaders : NetLoaders) (mem : Memory)
    (way : Bstr → Variant → Passage) (d : VariantDictionary loc) : Prop :=
  ∀ e ∈ d.dictionary.entries, (stringBytes e.1).length < 0x7FFFF000 ∧
    (way e.1 e.2).Arrives rt loaders mem (d.isSerialized e.1) e.2

/-- Each variable goes this way. -/
def Goes (loc : Collation) (rt : NetRuntime) (loaders : NetLoaders) (mem mem' : Memory)
    (way : Bstr → Variant → Passage) (d : VariantDictionary loc) : Prop :=
  ∀ e ∈ d.dictionary.entries, (stringBytes e.1).length < 0x7FFFF000 ∧
    (way e.1 e.2).Holds loc rt loaders mem mem' (d.isSerialized e.1) e.2

variable {way : Bstr → Variant → Passage} {d : VariantDictionary loc}

/-- INTERNAL: on all of its way it gets to the managed side. -/
theorem Goes.leaves (h : Goes loc rt loaders mem mem' way d) : Leaves rt loaders mem way d :=
  fun e he => ⟨(h e he).1, (h e he).2.toArrives⟩

/-- **From the component to the managed side.** -/
theorem sent_spec (strings : NetStrings) (h : Leaves rt loaders mem way d)
    (hcount : d.dictionary.size < 2 ^ 31) :
    ∃ bytes lSize d₀, d.localContents mem = .ok (.sOk, lSize, ⟨bytes, 0⟩, d₀) ∧
      (PersistUtil.localLoad rt loaders bytes : NetRun (StateItemCollection strings NetValue)) =
        if 32767 < d.dictionary.size then .error .corruptState
        else .ok (received strings way d) := by
  obtain ⟨b, hb⟩ := (localContents_as mem d (fun key v => (way key v).sent)
    (fun e he => ⟨stringFits_of_length (h e he).1, (h e he).2.sends⟩) rfl).1
      fun e he => (h e he).2.writable
  refine ⟨_, _, _, hb, ?_⟩
  have hlength : ((storedEntries d).map (sentItem way)).length = d.dictionary.size := by
    rw [List.length_map, storedEntries, List.length_reverse, OrderedMap.size]
  have hsame : contentsBytes (d.dictionary.entries.reverse.map
      (storedVariable fun key v => (way key v).sent)) =
        contentsBytes (((storedEntries d).map (sentItem way)).map StoredItem.stored) := by
    have hprops : ∀ pos, storedPropertiesBytes pos (d.dictionary.entries.reverse.map
        (storedVariable fun key v => (way key v).sent)) =
          storedPropertiesBytes pos (d.dictionary.entries.reverse.map
            (StoredItem.stored ∘ sentItem way)) := fun pos =>
      storedPropertiesBytes_congr (f := storedVariable fun key v => (way key v).sent)
        (g := StoredItem.stored ∘ sentItem way)
        (fun e _ => ⟨(stringBytes_normalText e.1).symm, rfl, rfl⟩) pos
    rw [List.map_map, contentsBytes, contentsBytes, List.length_map, List.length_map, storedEntries,
      hprops]
  have hloads : ∀ item ∈ (storedEntries d).map (sentItem way), item.Loads rt loaders := by
    intro item hitem
    obtain ⟨e, he, rfl⟩ := List.mem_map.mp hitem
    obtain ⟨hname, hholds⟩ := h e (by simpa [storedEntries] using he)
    refine ⟨wellFormedUtf16_normalText e.1, ?_, hholds.reads⟩
    show (stringBytes (normalText e.1)).length < _
    rwa [stringBytes_normalText]
  have hread := readPayload_storedItems .corruptState _ hloads (by rwa [hlength])
  rw [storedItemsBytes_els, hlength] at hread
  rw [hsame, localLoad_eq, hread]
  split
  · rfl
  · exact congrArg Except.ok List.foldl_map

/-- INTERNAL: the names of the variables, as they are put into the collection. -/
theorem entriesTable_received (strings : NetStrings) (way : Bstr → Variant → Passage)
    (d : VariantDictionary loc) :
    (received strings way d).entriesTable = OrderedMap.empty.insertAll
      (((storedEntries d).filter fun e => decide (e.1 ≠ [])).map fun e => (normalText e.1, ())) := by
  have hempty : ∀ e : Bstr × Variant,
      decide ((sentItem way e).name ≠ []) = decide (e.1 ≠ []) := fun e =>
    decide_eq_decide.mpr (not_congr normalText_eq_nil)
  rw [received, entriesTable_foldl_putItem, List.filter_map, List.map_map]
  simp only [Function.comp_def, hempty]
  rfl

/-- The variable whose value is found under the hash code of a name: of all with this hash code the
one that the component writes last. -/
def holder (strings : NetStrings) (d : VariantDictionary loc) (key : Bstr) : Bstr × Variant :=
  (d.dictionary.entries.find? fun e =>
    decide (e.1 ≠ [] ∧ strings.getHashCode (normalText e.1) = strings.getHashCode key)).getD
      ([], .empty)

/-- INTERNAL: names with one hash code have one holder. -/
theorem holder_congr {key key' : Bstr}
    (h : strings.getHashCode key = strings.getHashCode key') :
    holder strings d key = holder strings d key' := by
  unfold holder
  rw [h]

/-- INTERNAL: a name of the collection is that of a variable. -/
theorem exists_of_mem_received {key : Bstr} (h : key ∈ (received strings way d).keys) :
    ∃ e ∈ d.dictionary.entries, e.1 ≠ [] ∧ normalText e.1 = key := by
  obtain ⟨entry, hentry, rfl⟩ := List.mem_map.mp h
  rw [entriesTable_received] at hentry
  rcases OrderedMap.mem_insertAll hentry with hno | hin
  · exact absurd hno List.not_mem_nil
  · obtain ⟨e, he, rfl⟩ := List.mem_map.mp hin
    obtain ⟨hmem, hne⟩ := List.mem_filter.mp he
    exact ⟨e, by simpa [storedEntries] using hmem, of_decide_eq_true hne, rfl⟩

/-- **Each name of the collection has the value of its holder.** -/
theorem received_spec {key : Bstr} (h : key ∈ (received strings way d).keys) :
    holder strings d key ∈ d.dictionary.entries ∧ (holder strings d key).1 ≠ [] ∧
      strings.getHashCode (normalText (holder strings d key).1) = strings.getHashCode key ∧
      (received strings way d).getName key =
        .ok (way (holder strings d key).1 (holder strings d key).2).net := by
  obtain ⟨e, he, hne, hname⟩ := exists_of_mem_received h
  have hkey : key ≠ [] := fun hnil => hne (normalText_eq_nil.mp (hname.trans hnil))
  have hentry := entries_foldl_putItem ((storedEntries d).map (sentItem way))
    (.new : StateItemCollection strings NetValue) (strings.getHashCode key)
  have hpred : ∀ e : Bstr × Variant, decide ((sentItem way e).name ≠ [] ∧
      strings.getHashCode (sentItem way e).name = strings.getHashCode key) =
        decide (e.1 ≠ [] ∧ strings.getHashCode (normalText e.1) = strings.getHashCode key) :=
    fun e => decide_eq_decide.mpr (and_congr_left' (not_congr normalText_eq_nil))
  rw [← List.map_reverse, storedEntries, List.reverse_reverse, List.find?_map] at hentry
  simp only [Function.comp_def, hpred] at hentry
  unfold holder
  cases hfind : d.dictionary.entries.find? fun e =>
      decide (e.1 ≠ [] ∧ strings.getHashCode (normalText e.1) = strings.getHashCode key) with
  | none =>
    have hno := List.find?_eq_none.mp hfind e he
    rw [decide_eq_true_eq, hname] at hno
    exact absurd ⟨hne, rfl⟩ hno
  | some e' =>
    have hfound := List.find?_some hfind
    rw [decide_eq_true_eq] at hfound
    refine ⟨List.mem_of_find?_eq_some hfind, hfound.1, hfound.2, ?_⟩
    rw [hfind] at hentry
    have hvalue : (received strings way d).entries (strings.getHashCode key) =
        some (way e'.1 e'.2).net := hentry
    rw [getName_of_mem_keys h hkey, StateItemCollection.entry, hvalue]
    rfl

/-! ## Back to the component -/

/-- A name of the collection with what the managed code writes for it, and with what the component
makes of that. -/
def returnedProperty (strings : NetStrings) (way : Bstr → Variant → Passage)
    (d : VariantDictionary loc) (key : Bstr) : LoadedProperty :=
  let passage := way (holder strings d key).1 (holder strings d key).2
  { stored := ⟨key, passage.net.vt, passage.returned⟩
    hr := passage.hr
    value := passage.back }

/-- The properties that the managed code writes. -/
def returnedProperties (strings : NetStrings) (way : Bstr → Variant → Passage)
    (d : VariantDictionary loc) : List LoadedProperty :=
  (received strings way d).keys.map (returnedProperty strings way d)

/-- INTERNAL: the size of a name of the collection. -/
theorem fits_of_mem_received (h : Goes loc rt loaders mem mem' way d) {key : Bstr}
    (hkey : key ∈ (received strings way d).keys) : (stringBytes key).length < 0x7FFFF000 := by
  obtain ⟨e, he, -, rfl⟩ := exists_of_mem_received hkey
  rw [stringBytes_normalText]
  exact (h e he).1

/-- **What the managed code writes.** -/
theorem returned_spec (h : Goes loc rt loaders mem mem' way d) :
    ∃ zLen, zLen ≠ 0 ∧ PersistUtil.localContents rt (received strings way d) =
      .ok (contentsBytes ((returnedProperties strings way d).map LoadedProperty.stored), zLen) := by
  have hwrites := @writePayload_writes rt (cellsOf (received strings way d))
    (fun c => (returnedProperty strings way d c.1).stored) (fun c hc => by
      obtain ⟨key, hkey, rfl⟩ := List.mem_map.mp hc
      obtain ⟨hmem, -, -, hget⟩ := received_spec hkey
      exact ⟨rfl, fits_of_mem_received h hkey, _, hget, rfl, ((h _ hmem).2).returns⟩)
  have hlist : (cellsOf (received strings way d)).map
      (fun c => (returnedProperty strings way d c.1).stored) =
        (returnedProperties strings way d).map LoadedProperty.stored := by
    rw [cellsOf, returnedProperties, List.map_map, List.map_map]
    rfl
  rw [← localContents_eq, hlist] at hwrites
  exact ⟨_, Nat.pos_iff_ne_zero.mp (length_contentsBytes_pos _), hwrites⟩

/-- INTERNAL: the collection has no more names than the dictionary. -/
theorem length_returnedProperties_le (strings : NetStrings) (way : Bstr → Variant → Passage)
    (d : VariantDictionary loc) :
    (returnedProperties strings way d).length ≤ d.dictionary.size := by
  have hsize := OrderedMap.size_insertAll_le
    (((storedEntries d).filter fun e => decide (e.1 ≠ [])).map fun e => (normalText e.1, ()))
    (.empty : OrderedMap strings.compare Unit)
  have hfilter := List.length_filter_le (fun e : Bstr × Variant => decide (e.1 ≠ []))
    (storedEntries d)
  rw [← entriesTable_received strings way d, List.length_map] at hsize
  rw [storedEntries, List.length_reverse] at hfilter
  rw [returnedProperties, List.length_map, StateItemCollection.keys, OrderedMap.keys, List.length_map]
  have hempty : (OrderedMap.empty : OrderedMap strings.compare Unit).size = 0 := rfl
  rw [OrderedMap.size] at hsize ⊢
  rw [storedEntries] at hsize
  omega

/-- INTERNAL: what the component loads. -/
theorem loaded_spec (target : VariantDictionary loc) (h : Goes loc rt loaders mem mem' way d)
    (hsize : d.dictionary.size ≤ 32767) {zLen : ℕ} (hzLen : zLen ≠ 0) :
    ∃ d' stream, target.localLoad mem' (some ⟨contentsBytes
      ((returnedProperties strings way d).map LoadedProperty.stored), 0⟩) zLen =
        .ok (resultOf (returnedProperties strings way d), d', some stream) ∧
      ((∀ p ∈ returnedProperties strings way d, p.hr = .sOk) → d'.dictionary =
        OrderedMap.empty.insertAll ((returnedProperties strings way d).map
          fun p => (p.stored.name, p.value))) := by
  have hlength := length_returnedProperties_le strings way d
  obtain ⟨b, stream, hload⟩ := localLoad_stored (returnedProperties strings way d) target
    (by omega) (fun p hp => by
      obtain ⟨key, hkey, rfl⟩ := List.mem_map.mp hp
      obtain ⟨e, -, -, hname⟩ := exists_of_mem_received hkey
      have hholds := (h _ (received_spec hkey).1).2
      exact ⟨hname ▸ wellFormedUtf16_normalText e.1,
        stringFits_of_length (fits_of_mem_received h hkey), hholds.readsBack key,
        hholds.copies⟩) hzLen
  refine ⟨_, stream, hload, fun hall => ?_⟩
  rw [readThrough_of_sOk hall]
  exact dictionary_foldl_into _ target.removeAll

/-- **Back to the component**: the names of the collection, each with what has become of its
holder's value. -/
theorem crossesWith_iff (target : VariantDictionary loc)
    (h : Goes loc rt loaders mem mem' way d) (hcount : d.dictionary.size < 2 ^ 31) :
    CrossesWith strings rt loaders mem mem' target d ↔ d.dictionary.size ≤ 32767 ∧
      (∀ p ∈ returnedProperties strings way d, p.hr = .sOk) ∧
      OrderedMap.empty.insertAll ((returnedProperties strings way d).map
        fun p => (p.stored.name, p.value)) = d.dictionary := by
  obtain ⟨bytes, lSize, d₀, hsent, hloaded⟩ := sent_spec strings h.leaves hcount
  obtain ⟨zLen, hzLen, hreturned⟩ := @returned_spec loc strings _ _ _ _ _ _ h
  constructor
  · rintro ⟨lSize', stream, d₀', items, bytes', zLen', d', stream', hcontents, hload, hback,
      htarget, hdict⟩
    obtain ⟨-, hrest⟩ := Prod.mk.inj (Except.ok.inj (hcontents.symm.trans hsent))
    obtain ⟨-, hrest⟩ := Prod.mk.inj hrest
    obtain ⟨rfl, -⟩ := Prod.mk.inj hrest
    rw [hloaded] at hload
    split at hload
    · cases hload
    rename_i hfew
    obtain rfl := Except.ok.inj hload
    obtain ⟨rfl, rfl⟩ := Prod.mk.inj (Except.ok.inj (hback.symm.trans hreturned))
    obtain ⟨d'', stream'', hagain, hdictionary⟩ := loaded_spec target h (Nat.le_of_not_lt hfew) hzLen
    obtain ⟨hresult, hrest⟩ := Prod.mk.inj (Except.ok.inj (htarget.symm.trans hagain))
    obtain ⟨rfl, -⟩ := Prod.mk.inj hrest
    have hall := resultOf_eq_sOk.mp hresult.symm
    exact ⟨Nat.le_of_not_lt hfew, hall, (hdictionary hall).symm.trans hdict⟩
  · rintro ⟨hsize, hall, hdict⟩
    obtain ⟨d', stream', hagain, hdictionary⟩ := loaded_spec target h hsize hzLen
    rw [resultOf_eq_sOk.mpr hall] at hagain
    rw [if_neg (by omega)] at hloaded
    exact ⟨lSize, _, d₀, _, _, zLen, d', stream', hsent, hloaded, hreturned, hagain,
      (hdictionary hall).trans hdict⟩

/-! ## The names -/

/-- INTERNAL: a name that is well-formed stands for itself. -/
theorem Apart.normalText_eq (h : Apart strings d) {e : Bstr × Variant}
    (he : e ∈ d.dictionary.entries) : normalText e.1 = e.1 :=
  normalText_eq_self_iff.mpr (h.named e he).2

/-- INTERNAL: the collection has every name. -/
theorem Apart.mem_received (h : Apart strings d) (way : Bstr → Variant → Passage)
    {e : Bstr × Variant} (he : e ∈ d.dictionary.entries) : e.1 ∈ (received strings way d).keys := by
  have hput : (normalText e.1, ()) ∈ ((storedEntries d).filter fun e => decide (e.1 ≠ [])).map
      fun e => (normalText e.1, ()) :=
    List.mem_map_of_mem (List.mem_filter.mpr
      ⟨by simpa [storedEntries] using he, decide_eq_true (h.named e he).1⟩)
  obtain ⟨entry, hentry, heq⟩ := OrderedMap.exists_mem_insertAll
    (.empty : OrderedMap strings.compare Unit) hput
  rw [← entriesTable_received strings way d] at hentry
  have hkey : entry.1 ∈ (received strings way d).keys := List.mem_map_of_mem hentry
  obtain ⟨e', he', -, hname⟩ := exists_of_mem_received hkey
  rw [h.normalText_eq he, ← hname, h.normalText_eq he'] at heq
  -- no other name counts as the same
  have hsame : e = e' := by
    by_contra hne
    have hother := (h.distinct.imp fun {a b} hab => (⟨hab, fun hba => hab
      (Std.OrientedCmp.eq_symm hba)⟩ : strings.compare a.1 b.1 ≠ .eq ∧
        strings.compare b.1 a.1 ≠ .eq))
    rcases List.pairwise_iff_getElem.mp hother with hpair
    obtain ⟨i, hi, rfl⟩ := List.getElem_of_mem he
    obtain ⟨j, hj, rfl⟩ := List.getElem_of_mem he'
    rcases Nat.lt_trichotomy i j with hlt | rfl | hgt
    · exact (hpair i j hi hj hlt).1 heq
    · exact hne rfl
    · exact (hpair j i hj hi hgt).2 heq
  rw [hsame, ← h.normalText_eq he', hname]
  exact hkey

/-- INTERNAL: the holder of a name has its value. -/
theorem Apart.holder_eq (h : Apart strings d) (way : Bstr → Variant → Passage)
    {e : Bstr × Variant} (he : e ∈ d.dictionary.entries) :
    holder strings d e.1 ∈ d.dictionary.entries ∧ (holder strings d e.1).2 = e.2 := by
  obtain ⟨hmem, -, hhash, -⟩ := received_spec (h.mem_received way he)
  rw [h.normalText_eq hmem] at hhash
  exact ⟨hmem, h.hashed _ hmem _ he hhash⟩

/-- **No name is lost where the managed collection tells them apart.** -/
theorem crossesWith_of_apart (target : VariantDictionary loc)
    (h : Goes loc rt loaders mem mem' way d) (hsize : d.dictionary.size ≤ 32767)
    (hapart : Apart strings d)
    (hvalues : ∀ e ∈ d.dictionary.entries,
      (way e.1 e.2).hr = .sOk ∧ (way e.1 e.2).back = e.2) :
    CrossesWith strings rt loaders mem mem' target d := by
  have hkeys : ∀ key ∈ (received strings way d).keys, ∃ e ∈ d.dictionary.entries, e.1 = key ∧
      (returnedProperty strings way d key).hr = .sOk ∧
      (returnedProperty strings way d key).value = e.2 := by
    intro key hkey
    obtain ⟨e, he, -, hname⟩ := exists_of_mem_received hkey
    rw [hapart.normalText_eq he] at hname
    obtain ⟨hmem, hvalue⟩ := hapart.holder_eq way he
    rw [hname] at hmem hvalue
    exact ⟨e, he, hname, (hvalues _ hmem).1, (hvalues _ hmem).2.trans hvalue⟩
  refine (crossesWith_iff target h (by omega)).mpr ⟨hsize, fun p hp => ?_, ?_⟩
  · obtain ⟨key, hkey, rfl⟩ := List.mem_map.mp hp
    obtain ⟨e, -, -, hhr, -⟩ := hkeys key hkey
    exact hhr
  · refine OrderedMap.insertAll_of_mem_iff fun e => ⟨fun he => ?_, fun he => ?_⟩
    · obtain ⟨p, hp, rfl⟩ := List.mem_map.mp he
      obtain ⟨key, hkey, rfl⟩ := List.mem_map.mp hp
      obtain ⟨e, he, hname, -, hvalue⟩ := hkeys key hkey
      have heq : ((returnedProperty strings way d key).stored.name,
          (returnedProperty strings way d key).value) = e := Prod.ext hname.symm hvalue
      rw [heq]
      exact he
    · obtain ⟨hmem, hvalue⟩ := hapart.holder_eq way he
      have heq : e = ((returnedProperty strings way d e.1).stored.name,
          (returnedProperty strings way d e.1).value) :=
        Prod.ext rfl ((hvalues _ hmem).2.trans hvalue).symm
      rw [heq]
      exact List.mem_map_of_mem (List.mem_map_of_mem (hapart.mem_received way he))

/-- **Where nothing is lost the managed collection tells the names apart**, and values that are
kept are the values of the dictionary. -/
theorem apart_of_crossesWith {target : VariantDictionary loc}
    (h : Goes loc rt loaders mem mem' way d) (hcount : d.dictionary.size < 2 ^ 31)
    (hcrosses : CrossesWith strings rt loaders mem mem' target d) :
    d.dictionary.size ≤ 32767 ∧ Apart strings d ∧ ∀ e ∈ d.dictionary.entries,
      ∃ e' ∈ d.dictionary.entries, e'.2 = e.2 ∧ (way e'.1 e'.2).hr = .sOk ∧
        (way e'.1 e'.2).back = e'.2 := by
  obtain ⟨hsize, hall, hdict⟩ := (crossesWith_iff target h hcount).mp hcrosses
  have hfrom : ∀ e ∈ d.dictionary.entries, e.1 ∈ (received strings way d).keys ∧
      (way (holder strings d e.1).1 (holder strings d e.1).2).back = e.2 := by
    intro e he
    rw [← hdict] at he
    rcases OrderedMap.mem_insertAll he with hno | hin
    · exact absurd hno List.not_mem_nil
    · obtain ⟨p, hp, rfl⟩ := List.mem_map.mp hin
      obtain ⟨key, hkey, rfl⟩ := List.mem_map.mp hp
      exact ⟨hkey, rfl⟩
  have hnamed : ∀ e ∈ d.dictionary.entries, e.1 ≠ [] ∧ WellFormedUtf16 e.1 := by
    intro e he
    obtain ⟨e', -, hne, hname⟩ := exists_of_mem_received (hfrom e he).1
    rw [← hname]
    exact ⟨fun hnil => hne (normalText_eq_nil.mp hnil), wellFormedUtf16_normalText e'.1⟩
  have hhashed : ∀ a ∈ d.dictionary.entries, ∀ b ∈ d.dictionary.entries,
      strings.getHashCode a.1 = strings.getHashCode b.1 → a.2 = b.2 := by
    intro a ha b hb hhash
    rw [← (hfrom a ha).2, ← (hfrom b hb).2, holder_congr hhash]
  refine ⟨hsize, ⟨hnamed, d.dictionary.sorted.imp_of_mem ?_, hhashed⟩, fun e he => ?_⟩
  · intro a b ha hb hlt heq
    obtain ⟨entry, hentry, hname⟩ := List.mem_map.mp (hfrom a ha).1
    obtain ⟨entry', hentry', hname'⟩ := List.mem_map.mp (hfrom b hb).1
    rw [← hname, ← hname'] at heq
    have hself : loc.compare entry'.1 entry'.1 = .eq := Std.ReflCmp.compare_self
    rw [← hname, ← hname', OrderedMap.eq_of_equiv hentry hentry' heq, hself] at hlt
    cases hlt
  · obtain ⟨hmem, -, hhash, -⟩ := received_spec (hfrom e he).1
    rw [normalText_eq_self_iff.mpr (hnamed _ hmem).2] at hhash
    have hself : holder strings d (holder strings d e.1).1 = holder strings d e.1 :=
      holder_congr hhash
    have hback := (hfrom _ hmem).2
    rw [hself] at hback
    exact ⟨_, hmem, hhashed _ hmem _ he hhash,
      hall _ (List.mem_map_of_mem (hfrom e he).1), hback⟩

end Way

end IspSession.Analysis
