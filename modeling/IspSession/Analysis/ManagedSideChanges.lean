import IspSession.Analysis.ScalarPassages

/-!
# A managed session that changes sides

The managed code writes its items, the component loads them and writes its dictionary, and the
managed code loads that. The component takes names that differ in case for one name and keeps the
first of them; `managedSideChange_iff` says that apart from this, from names that are no text and
from bytes and currencies nothing happens to a session of scalars.
-/

set_option autoImplicit false

namespace IspSession.Analysis

open IspSession.Library IspSession.Model

/-! ## The values -/

/-- The component's type of a primitive value. -/
def scalarOf : PrimitiveType → ScalarType
  | .byte => .ui1
  | .char => .ui2
  | .int16 => .i2
  | .int32 => .i4
  | .uint32 => .ui4
  | .int64 => .i8
  | .uint64 => .ui8
  | .single => .r4
  | .double => .r8

/-- A managed value without cells, objects and dates. -/
def NetScalar : NetValue → Prop
  | .null | .dbNull | .boolean _ | .primitive _ _ | .decimal _ | .currency _ => True
  | .string s => (stringBytes s).length < 0x7FFFF000
  | _ => False

/-- The other side leaves the value as it is. -/
def UnchangedNet : NetValue → Prop
  | .primitive .byte _ | .currency _ => False
  | .string s => WellFormedUtf16 s
  | _ => True

/-- The bytes of a value. -/
def netSent (rt : NetRuntime) : NetValue → Bytes
  | .currency c => currencyBytes rt c
  | v => netValueBytes rt v

/-- What the component makes of a value. -/
def nativeOf : NetValue → Variant
  | .dbNull => .null
  | .boolean b => .scalar .bool (if b then 0xFFFF else 0)
  | .primitive p bits => .scalar (scalarOf p) (BitVec.ofNat _ bits.toNat)
  | .decimal d => .decimal d
  | .string s => .bstr (normalText s)
  | _ => .empty

/-- The component's result. -/
def nativeResult : NetValue → HResult
  | .currency _ => .eInvalidArg
  | _ => .sOk

/-- What the managed code makes of what the component made of a value. -/
def returnedNet (rt : NetRuntime) (v : NetValue) : NetValue := (scalarPassage rt (nativeOf v)).net

section Values

variable {rt : NetRuntime} {loaders : NetLoaders} {loc : Collation} {mem : Memory}

/-- INTERNAL: the tag and the size stay. -/
theorem scalarOf_spec (p : PrimitiveType) :
    (scalarOf p).vt = p.vt ∧ (scalarOf p).size = p.size ∧
      (p ≠ .byte → primitiveOf (scalarOf p) = some p) := by
  cases p <;> decide

/-- INTERNAL: the component has the value as one of a classic page. -/
theorem classicScalar_nativeOf {v : NetValue} (h : NetScalar v) : ClassicScalar (nativeOf v) := by
  cases v with
  | string s =>
    rw [NetScalar] at h
    rw [nativeOf, ClassicScalar, stringBytes_normalText]
    exact h
  | primitive p bits => cases p <;> first | exact trivial | rfl
  | null | dbNull | boolean _ | decimal _ | currency _ => exact trivial
  | _ => cases h

/-- INTERNAL: the managed writer's bytes. -/
theorem netWrites_sent {v : NetValue} (h : NetScalar v) : NetWrites rt v (netSent rt v) := by
  intro str hs
  cases v with
  | string s => exact writeNetString_spec h str
  | currency c => exact netWrites_currency c str hs
  | null | dbNull | boolean _ | primitive _ _ | decimal _ => rfl
  | _ => cases h

/-- INTERNAL: the component's reader on these bytes. -/
theorem readsTo_native (name : Bstr) {v : NetValue} (h : NetScalar v) :
    ReadsTo loc mem ⟨name, v.vt, netSent rt v⟩ (nativeResult v) (nativeOf v) := by
  cases v with
  | currency c => exact (@passage_currency rt oleOnly mem mem loc false c).readsBack name
  | string s => exact (@passage_bstr rt oleOnly mem mem loc false s h).readsBack name
  | primitive p bits =>
    obtain ⟨hvt, hsize, -⟩ := scalarOf_spec p
    have hbits : (BitVec.ofNat (8 * (scalarOf p).size) bits.toNat).toNat = bits.toNat := by
      rw [BitVec.toNat_ofNat, hsize, Nat.mod_eq_of_lt bits.isLt]
    refine .of_supported mem trivial trivial trivial hvt.symm ?_
    show leBytes p.size bits.toNat = leBytes (scalarOf p).size _
    rw [hbits, hsize]
  | boolean b =>
    refine .of_supported mem trivial trivial trivial rfl ?_
    cases b <;> rfl
  | null | dbNull | decimal _ => exact .of_supported mem trivial trivial trivial rfl rfl
  | _ => cases h

/-- INTERNAL: the component can copy the value. -/
theorem copy_nativeOf (v : NetValue) : (nativeOf v).copy = .ok .sOk := by
  cases v <;> rfl

/-- INTERNAL: what comes back comes back unchanged. -/
theorem unchangedNet_returnedNet {v : NetValue} (h : NetScalar v) (hok : nativeResult v = .sOk) :
    UnchangedNet (returnedNet rt v) := by
  cases v with
  | string s => exact wellFormedUtf16_normalText _
  | primitive p bits => cases p <;> exact trivial
  | currency c => cases hok
  | null | dbNull | boolean _ | decimal _ => exact trivial
  | _ => cases h

/-- INTERNAL: the bits of a number. -/
theorem ofNat_ofNat_toNat {n : ℕ} (bits : BitVec n) :
    BitVec.ofNat n (BitVec.ofNat n bits.toNat).toNat = bits := by
  rw [BitVec.ofNat_toNat, BitVec.ofNat_toNat, BitVec.setWidth_eq, BitVec.setWidth_eq]

/-- INTERNAL: unchanged values come back. -/
theorem returnedNet_of_unchanged {v : NetValue} (h : NetScalar v) (hun : UnchangedNet v) :
    nativeResult v = .sOk ∧ returnedNet rt v = v := by
  cases v with
  | string s =>
    refine ⟨rfl, ?_⟩
    have hself := normalText_eq_self_iff.mpr hun
    show NetValue.string (normalText (normalText s)) = _
    rw [hself, hself]
  | primitive p bits =>
    refine ⟨rfl, ?_⟩
    cases p with
    | byte => cases hun
    | _ => exact congrArg (NetValue.primitive _) (ofNat_ofNat_toNat bits)
  | boolean b => cases b <;> exact ⟨rfl, rfl⟩
  | null | dbNull | decimal _ => exact ⟨rfl, rfl⟩
  | currency c => cases hun
  | _ => cases h

end Values

/-! ## Whole sessions -/

/-- The items are such values, and their names can be written. -/
def ManagedScalars {strings : NetStrings} (items : StateItemCollection strings NetValue) : Prop :=
  items.count < 2 ^ 31 ∧ ∀ key ∈ items.keys, key ≠ [] ∧ (stringBytes key).length < 0x7FFFF000 ∧
    ∃ v, items.getName key = .ok v ∧ NetScalar v

/-- Items that are saved by the managed code, loaded and saved by the component and loaded by the
managed code again: each name is there, with its value. -/
def ReturnsWith {loc : Collation} {strings : NetStrings} (rt : NetRuntime) (loaders : NetLoaders)
    (mem mem' : Memory) (target : VariantDictionary loc)
    (items : StateItemCollection strings NetValue) : Prop :=
  ∃ bytes zLen d stream lSize out d₀, ∃ loaded : StateItemCollection strings NetValue,
    PersistUtil.localContents rt items = .ok (bytes, zLen) ∧
      target.localLoad mem (some ⟨bytes, 0⟩) zLen = .ok (.sOk, d, some stream) ∧
      d.localContents mem' = .ok (.sOk, lSize, out, d₀) ∧
      PersistUtil.localLoad rt loaders out.buf = .ok loaded ∧ loaded.keys = items.keys ∧
      ∀ key ∈ items.keys, loaded.getName key = items.getName key

section Sessions

variable {loc : Collation} {strings : NetStrings} {rt : NetRuntime} {loaders : NetLoaders}
  {mem mem' : Memory} {items : StateItemCollection strings NetValue}

/-- An item with what the component makes of it. -/
def nativeProperty (rt : NetRuntime) (items : StateItemCollection strings NetValue) (key : Bstr) :
    LoadedProperty where
  stored := ⟨normalText key, (valueOf items key).vt, netSent rt (valueOf items key)⟩
  hr := nativeResult (valueOf items key)
  value := nativeOf (valueOf items key)

/-- The dictionary that the component makes of the items. -/
def nativeItems (loc : Collation) (items : StateItemCollection strings NetValue) :
    OrderedMap loc.compare Variant :=
  OrderedMap.empty.insertAll
    (items.keys.map fun key => (normalText key, nativeOf (valueOf items key)))

/-- INTERNAL: the value of an item. -/
theorem ManagedScalars.value (h : ManagedScalars items) {key : Bstr} (hkey : key ∈ items.keys) :
    items.getName key = .ok (valueOf items key) ∧ NetScalar (valueOf items key) := by
  obtain ⟨-, -, v, hget, hv⟩ := h.2 key hkey
  rw [valueOf_of_ok hget]
  exact ⟨hget, hv⟩

/-- What the managed code writes. -/
theorem localContents_scalars (rt : NetRuntime) (h : ManagedScalars items) : ∃ zLen, zLen ≠ 0 ∧
    PersistUtil.localContents rt items = .ok (contentsBytes
      ((items.keys.map (nativeProperty rt items)).map LoadedProperty.stored), zLen) := by
  have hwrites := @writePayload_writes rt (cellsOf items)
    (fun c => ⟨c.1, (valueOf items c.1).vt, netSent rt (valueOf items c.1)⟩) (fun c hc => by
      obtain ⟨key, hkey, rfl⟩ := List.mem_map.mp hc
      obtain ⟨hget, hv⟩ := h.value hkey
      exact ⟨rfl, (h.2 key hkey).2.1, _, hget, rfl, netWrites_sent hv⟩)
  have hsame : ∀ pos, storedPropertiesBytes pos ((cellsOf items).map fun c =>
      (⟨c.1, (valueOf items c.1).vt, netSent rt (valueOf items c.1)⟩ : StoredProperty)) =
        storedPropertiesBytes pos
          ((items.keys.map (nativeProperty rt items)).map LoadedProperty.stored) := by
    intro pos
    rw [cellsOf, List.map_map, List.map_map]
    exact storedPropertiesBytes_congr
      (f := fun key => ⟨key, (valueOf items key).vt, netSent rt (valueOf items key)⟩)
      (g := fun key => (nativeProperty rt items key).stored)
      (fun key _ => ⟨(stringBytes_normalText key).symm, rfl, rfl⟩) pos
  have hbytes : contentsBytes ((cellsOf items).map fun c =>
      (⟨c.1, (valueOf items c.1).vt, netSent rt (valueOf items c.1)⟩ : StoredProperty)) =
        contentsBytes ((items.keys.map (nativeProperty rt items)).map LoadedProperty.stored) := by
    rw [contentsBytes, contentsBytes, hsame, cellsOf]
    simp only [List.length_map]
  rw [← localContents_eq, hbytes] at hwrites
  exact ⟨_, Nat.pos_iff_ne_zero.mp (length_contentsBytes_pos _), hwrites⟩

/-- What the component loads of it. -/
theorem localLoad_scalars (rt : NetRuntime) (mem : Memory) (target : VariantDictionary loc)
    (h : ManagedScalars items) (hsize : items.count ≤ 32767) {zLen : ℕ} (hzLen : zLen ≠ 0) :
    ∃ d stream, target.localLoad mem (some ⟨contentsBytes
      ((items.keys.map (nativeProperty rt items)).map LoadedProperty.stored), 0⟩) zLen =
        .ok (resultOf (items.keys.map (nativeProperty rt items)), d, some stream) ∧
      ((∀ p ∈ items.keys.map (nativeProperty rt items), p.hr = .sOk) → d.dictionary =
        nativeItems loc items) := by
  have hlength : (items.keys.map (nativeProperty rt items)).length ≤ 32767 := by
    rw [List.length_map, StateItemCollection.keys, OrderedMap.keys, List.length_map]
    exact hsize
  have hread : ∀ p ∈ items.keys.map (nativeProperty rt items), WellFormedUtf16 p.stored.name ∧
      StringFits p.stored.name ∧ ReadsTo loc mem p.stored p.hr p.value ∧ p.value.copy = .ok .sOk := by
    intro p hp
    obtain ⟨key, hkey, rfl⟩ := List.mem_map.mp hp
    exact ⟨wellFormedUtf16_normalText key,
      stringFits_normalText (stringFits_of_length (h.2 key hkey).2.1),
      readsTo_native _ (h.value hkey).2, copy_nativeOf _⟩
  obtain ⟨b, stream, hload⟩ := localLoad_stored _ target hlength hread hzLen
  refine ⟨_, stream, hload, fun hall => ?_⟩
  rw [readThrough_of_sOk hall]
  refine (dictionary_foldl_into _ target.removeAll).trans ?_
  rw [List.map_map]
  rfl

/-- INTERNAL: a variable of the dictionary is an item. -/
theorem exists_of_mem_nativeItems {e : Bstr × Variant} (he : e ∈ (nativeItems loc items).entries) :
    ∃ key ∈ items.keys, e = (normalText key, nativeOf (valueOf items key)) := by
  rcases OrderedMap.mem_insertAll he with hno | hin
  · exact absurd hno List.not_mem_nil
  · obtain ⟨key, hkey, rfl⟩ := List.mem_map.mp hin
    exact ⟨key, hkey, rfl⟩

/-- INTERNAL: the dictionary has no more variables than there are items. -/
theorem size_nativeItems_le (loc : Collation) (items : StateItemCollection strings NetValue) :
    (nativeItems loc items).size ≤ items.count := by
  have hsize := OrderedMap.size_insertAll_le
    (items.keys.map fun key => (normalText key, nativeOf (valueOf items key)))
    (.empty : OrderedMap loc.compare Variant)
  rw [List.length_map, StateItemCollection.keys, OrderedMap.keys, List.length_map] at hsize
  have hempty : (OrderedMap.empty : OrderedMap loc.compare Variant).size = 0 := rfl
  rw [hempty, Nat.zero_add] at hsize
  exact hsize

/-- The way of a variable of the dictionary. -/
def scalarWay (rt : NetRuntime) (_ : Bstr) (v : Variant) : Passage := scalarPassage rt v

/-- INTERNAL: every variable gets to the managed side. -/
theorem ManagedScalars.leaves (h : ManagedScalars items) {d : VariantDictionary loc}
    (hd : d.dictionary = nativeItems loc items) :
    Leaves rt loaders mem' (scalarWay rt) d := by
  intro e he
  rw [hd] at he
  obtain ⟨key, hkey, rfl⟩ := exists_of_mem_nativeItems he
  have hholds : (scalarPassage rt (nativeOf (valueOf items key))).Holds loc rt loaders mem' mem'
      (d.isSerialized (normalText key)) _ :=
    scalarPassage_holds _ (classicScalar_nativeOf (h.value hkey).2)
  refine ⟨?_, hholds.toArrives⟩
  show (stringBytes (normalText key)).length < _
  rw [stringBytes_normalText]
  exact (h.2 key hkey).2.1

/-- INTERNAL: what the managed code loads depends on the variables alone. -/
theorem received_congr {way : Bstr → Variant → Passage} {d d' : VariantDictionary loc}
    (h : d.dictionary = d'.dictionary) : received strings way d = received strings way d' := by
  rw [received, received, storedEntries, storedEntries, h]

/-- **The way of the items**: what comes back is what the managed code makes of the dictionary. -/
theorem returnsWith_iff_received (target : VariantDictionary loc) (h : ManagedScalars items) :
    ReturnsWith rt loaders mem mem' target items ↔ items.count ≤ 32767 ∧
      (∀ key ∈ items.keys, nativeResult (valueOf items key) = .sOk) ∧
      ∀ d : VariantDictionary loc, d.dictionary = nativeItems loc items →
        (received strings (scalarWay rt) d).keys = items.keys ∧
        ∀ key ∈ items.keys,
          (received strings (scalarWay rt) d).getName key = items.getName key := by
  obtain ⟨zLen, hzLen, hwritten⟩ := localContents_scalars rt h
  have hlength : ((items.keys.map (nativeProperty rt items)).map LoadedProperty.stored).length =
      items.count := by
    rw [List.length_map, List.length_map, StateItemCollection.keys, OrderedMap.keys,
      List.length_map]
    rfl
  have hcounts := size_nativeItems_le loc items
  have hback : ∀ d : VariantDictionary loc, d.dictionary = nativeItems loc items →
      items.count ≤ 32767 → ∃ bytes lSize d₀,
        d.localContents mem' = .ok (.sOk, lSize, ⟨bytes, 0⟩, d₀) ∧
        PersistUtil.localLoad rt loaders bytes = .ok (received strings (scalarWay rt) d) := by
    intro d hd hsize
    rw [← hd] at hcounts
    have hleaves : Leaves rt loaders mem' (scalarWay rt) d := h.leaves hd
    obtain ⟨bytes, lSize, d₀, hsent, hloaded⟩ := sent_spec strings hleaves (by omega)
    rw [if_neg (by omega)] at hloaded
    exact ⟨bytes, lSize, d₀, hsent, hloaded⟩
  constructor
  · rintro ⟨bytes, zLen', d, stream, lSize, out, d₀, loaded, hcontents, hload, hout, hnet, hkeys,
      hvalues⟩
    obtain ⟨rfl, rfl⟩ := Prod.mk.inj (Except.ok.inj (hcontents.symm.trans hwritten))
    have hsize : items.count ≤ 32767 := by
      by_contra hmany
      have hbelow : items.count < 2 ^ 31 := h.1
      rw [← hlength] at hmany hbelow
      obtain ⟨d', stream', hfail⟩ := localLoad_many mem target (by omega) hbelow hzLen
      cases (Prod.mk.inj (Except.ok.inj (hload.symm.trans hfail))).1
    obtain ⟨d', stream', hagain, hdictionary⟩ :=
      localLoad_scalars rt mem target h hsize hzLen
    obtain ⟨hresult, hrest⟩ := Prod.mk.inj (Except.ok.inj (hload.symm.trans hagain))
    obtain ⟨rfl, -⟩ := Prod.mk.inj hrest
    have hall := resultOf_eq_sOk.mp hresult.symm
    obtain ⟨bytes', lSize', d₀', hsent, hloaded⟩ := hback d (hdictionary hall) hsize
    obtain ⟨-, hrest⟩ := Prod.mk.inj (Except.ok.inj (hout.symm.trans hsent))
    obtain ⟨-, hrest⟩ := Prod.mk.inj hrest
    obtain ⟨rfl, -⟩ := Prod.mk.inj hrest
    obtain rfl := Except.ok.inj (hnet.symm.trans hloaded)
    refine ⟨hsize, fun key hkey => hall _ (List.mem_map_of_mem hkey), fun d'' hd'' => ?_⟩
    rw [received_congr (hd''.trans (hdictionary hall).symm)]
    exact ⟨hkeys, hvalues⟩
  · rintro ⟨hsize, hresults, hreceived⟩
    obtain ⟨d, stream, hload, hdictionary⟩ :=
      localLoad_scalars rt mem target h hsize hzLen
    have hall : ∀ p ∈ items.keys.map (nativeProperty rt items), p.hr = .sOk := by
      intro p hp
      obtain ⟨key, hkey, rfl⟩ := List.mem_map.mp hp
      exact hresults key hkey
    rw [resultOf_eq_sOk.mpr hall] at hload
    obtain ⟨bytes, lSize, d₀, hsent, hloaded⟩ := hback d (hdictionary hall) hsize
    obtain ⟨hkeys, hvalues⟩ := hreceived d (hdictionary hall)
    exact ⟨_, zLen, d, stream, lSize, _, d₀, _, hwritten, hload, hsent, hloaded, hkeys, hvalues⟩

/-! ## The names -/

/-- The component tells the names apart, and they are text. -/
structure NamesApart (loc : Collation) (items : StateItemCollection strings NetValue) : Prop where
  text : ∀ key ∈ items.keys, WellFormedUtf16 key
  distinct : items.keys.Pairwise fun a b => loc.compare a b ≠ .eq

/-- INTERNAL: names that the component tells apart are different ones. -/
theorem NamesApart.eq_of_equiv (h : NamesApart loc items) {a b : Bstr} (ha : a ∈ items.keys)
    (hb : b ∈ items.keys) (hab : loc.compare a b = .eq) : a = b := by
  by_contra hne
  have hboth : items.keys.Pairwise fun a b => loc.compare a b ≠ .eq ∧ loc.compare b a ≠ .eq :=
    h.distinct.imp fun hab => ⟨hab, fun hba => hab (Std.OrientedCmp.eq_symm hba)⟩
  obtain ⟨i, hi, rfl⟩ := List.getElem_of_mem ha
  obtain ⟨j, hj, rfl⟩ := List.getElem_of_mem hb
  rcases Nat.lt_trichotomy i j with hlt | rfl | hgt
  · exact (List.pairwise_iff_getElem.mp hboth i j hi hj hlt).1 hab
  · exact hne rfl
  · exact (List.pairwise_iff_getElem.mp hboth j i hj hi hgt).2 hab

/-- INTERNAL: each of them gets into the dictionary. -/
theorem NamesApart.mem_nativeItems (h : NamesApart loc items) {key : Bstr}
    (hkey : key ∈ items.keys) :
    (key, nativeOf (valueOf items key)) ∈ (nativeItems loc items).entries := by
  have hput : (normalText key, nativeOf (valueOf items key)) ∈
      items.keys.map fun key => (normalText key, nativeOf (valueOf items key)) :=
    List.mem_map_of_mem hkey
  obtain ⟨entry, hentry, heq⟩ :=
    OrderedMap.exists_mem_insertAll (.empty : OrderedMap loc.compare Variant) hput
  obtain ⟨key', hkey', rfl⟩ := exists_of_mem_nativeItems hentry
  have hself := normalText_eq_self_iff.mpr (h.text key hkey)
  have hself' := normalText_eq_self_iff.mpr (h.text key' hkey')
  simp only [hself, hself'] at heq hentry
  rwa [h.eq_of_equiv hkey hkey' heq]

/-- **Names that the component tells apart come back**, each with its value. -/
theorem received_of_apart (h : ManagedScalars items) (hapart : NamesApart loc items)
    (hvalues : ∀ key ∈ items.keys, returnedNet rt (valueOf items key) = valueOf items key)
    {d : VariantDictionary loc} (hd : d.dictionary = nativeItems loc items) :
    (received strings (scalarWay rt) d).keys = items.keys ∧
      ∀ key ∈ items.keys,
        (received strings (scalarWay rt) d).getName key = items.getName key := by
  have hnames : (received strings (scalarWay rt) d).entriesTable = items.entriesTable := by
    rw [entriesTable_received]
    refine OrderedMap.insertAll_of_mem_iff fun e => ⟨fun he => ?_, fun he => ?_⟩
    · obtain ⟨e', he', rfl⟩ := List.mem_map.mp he
      have hmem : e' ∈ (nativeItems loc items).entries := by
        rw [← hd]
        simpa only [storedEntries, List.mem_reverse] using (List.mem_filter.mp he').1
      obtain ⟨key, hkey, rfl⟩ := exists_of_mem_nativeItems hmem
      have hself := normalText_eq_self_iff.mpr (hapart.text key hkey)
      obtain ⟨entry, hentry, rfl⟩ := List.mem_map.mp hkey
      simp only [hself]
      exact hentry
    · have hkey : e.1 ∈ items.keys := List.mem_map_of_mem he
      have hself := normalText_eq_self_iff.mpr (hapart.text _ hkey)
      have hmem := hapart.mem_nativeItems hkey
      rw [← hd] at hmem
      exact List.mem_map.mpr ⟨(e.1, nativeOf (valueOf items e.1)), List.mem_filter.mpr
        ⟨by simpa only [storedEntries, List.mem_reverse] using hmem,
          decide_eq_true (h.2 _ hkey).1⟩, Prod.ext hself rfl⟩
  have hkeys : (received strings (scalarWay rt) d).keys = items.keys := by
    rw [StateItemCollection.keys, hnames]
    rfl
  refine ⟨hkeys, fun key hkey => ?_⟩
  rw [← hkeys] at hkey
  obtain ⟨hmem, -, hhash, hget⟩ := received_spec hkey
  rw [hd] at hmem
  obtain ⟨key', hkey', hholder⟩ := exists_of_mem_nativeItems hmem
  rw [hkeys] at hkey
  have hself := normalText_eq_self_iff.mpr (hapart.text key' hkey')
  rw [hholder, hself, hself] at hhash
  -- names with one hash code have one value on the managed side
  have hsame : items.getName key' = items.getName key := by
    rw [getName_of_mem_keys hkey' (h.2 key' hkey').1, getName_of_mem_keys hkey (h.2 key hkey).1,
      StateItemCollection.entry, StateItemCollection.entry, hhash]
  rw [hget, hholder]
  show Except.ok (returnedNet rt (valueOf items key')) = _
  rw [hvalues key' hkey', ← (h.value hkey').1, hsame]

/-- **A managed session of scalars that the component has loaded and saved comes back as it was
exactly when** the component takes that many variables and tells their names apart, the names are
text, and no value is a byte, a currency or a string that is no UTF-16. -/
theorem managedSideChange_iff (target : VariantDictionary loc) (h : ManagedScalars items) :
    ReturnsWith rt loaders mem mem' target items ↔
      items.count ≤ 32767 ∧ NamesApart loc items ∧
        ∀ key ∈ items.keys, ∀ v, items.getName key = .ok v → UnchangedNet v := by
  rw [returnsWith_iff_received target h]
  constructor
  · rintro ⟨hsize, hresults, hreceived⟩
    obtain ⟨hkeys, hvalues⟩ :=
      hreceived { VariantDictionary.new with dictionary := nativeItems loc items } rfl
    have hnative : ∀ key ∈ items.keys, ∃ v, (key, v) ∈ (nativeItems loc items).entries ∧
        WellFormedUtf16 key := by
      intro key hkey
      rw [← hkeys] at hkey
      obtain ⟨e, he, -, rfl⟩ := exists_of_mem_received hkey
      obtain ⟨key', -, rfl⟩ := exists_of_mem_nativeItems he
      have hself := normalText_eq_self_iff.mpr (wellFormedUtf16_normalText key')
      rw [hself]
      exact ⟨_, he, wellFormedUtf16_normalText key'⟩
    refine ⟨hsize, ⟨fun key hkey => (hnative key hkey).choose_spec.2, ?_⟩, fun key hkey v hget => ?_⟩
    · have hsorted : items.keys.Pairwise fun a b => strings.compare a b = .lt :=
        List.pairwise_map.mpr items.entriesTable.sorted
      refine hsorted.imp_of_mem ?_
      intro a b ha hb hlt heq
      obtain ⟨v, hmem, -⟩ := hnative a ha
      obtain ⟨v', hmem', -⟩ := hnative b hb
      have hsame := congrArg Prod.fst (OrderedMap.eq_of_equiv hmem hmem' heq)
      have hself : strings.compare a a = .eq := Std.ReflCmp.compare_self
      rw [← show a = b from hsame, hself] at hlt
      cases hlt
    · have hfound := hvalues key hkey
      rw [hget] at hfound
      rw [← hkeys] at hkey
      obtain ⟨hmem, -, -, hnet⟩ := received_spec hkey
      obtain ⟨key', hkey', hholder⟩ := exists_of_mem_nativeItems hmem
      rw [hnet, hholder] at hfound
      rw [← Except.ok.inj hfound]
      exact unchangedNet_returnedNet (h.value hkey').2 (hresults key' hkey')
  · rintro ⟨hsize, hapart, hunchanged⟩
    have hkept : ∀ key ∈ items.keys, nativeResult (valueOf items key) = .sOk ∧
        returnedNet rt (valueOf items key) = valueOf items key := fun key hkey =>
      returnedNet_of_unchanged (h.value hkey).2 (hunchanged key hkey _ (h.value hkey).1)
    exact ⟨hsize, fun key hkey => (hkept key hkey).1, fun d hd =>
      received_of_apart h hapart (fun key hkey => (hkept key hkey).2) hd⟩

end Sessions

/-- A number, a text and a flag. -/
def scalarItems : StateItemCollection (.ordinal firstUnitHash) NetValue :=
  putItem (putItem (putItem .new [65] (.primitive .int32 5)) [66] (.string [104, 105])) [67]
    (.boolean true)

/-- INTERNAL: the names. -/
theorem keys_scalarItems : scalarItems.keys = [[65], [66], [67]] := rfl

/-- They come back from the component. -/
theorem scalarItems_return : ReturnsWith .plain oleOnly .zero .zero
    (VariantDictionary.new : VariantDictionary .ordinal) scalarItems := by
  have hmanaged : ManagedScalars scalarItems := by
    refine ⟨by decide, ?_⟩
    rw [keys_scalarItems]
    simp only [List.forall_mem_cons, List.not_mem_nil, false_implies, implies_true, and_true]
    have htext : NetScalar (.string [104, 105]) := by
      rw [NetScalar]
      decide
    exact ⟨⟨by decide, by decide, _, rfl, trivial⟩, ⟨by decide, by decide, _, rfl, htext⟩,
      ⟨by decide, by decide, _, rfl, trivial⟩⟩
  refine (managedSideChange_iff _ hmanaged).mpr ⟨by decide, ⟨?_, ?_⟩, ?_⟩
  · rw [keys_scalarItems]
    simp only [List.forall_mem_cons, List.not_mem_nil, false_implies, implies_true, and_true]
    exact ⟨wellFormedUtf16_ascii (by decide), wellFormedUtf16_ascii (by decide),
      wellFormedUtf16_ascii (by decide)⟩
  · rw [keys_scalarItems]
    decide
  · rw [keys_scalarItems]
    simp only [List.forall_mem_cons, List.not_mem_nil, false_implies, implies_true, and_true]
    refine ⟨fun v hv => ?_, fun v hv => ?_, fun v hv => ?_⟩
    · obtain rfl : NetValue.primitive .int32 5 = v := Except.ok.inj hv
      trivial
    · obtain rfl : NetValue.string [104, 105] = v := Except.ok.inj hv
      exact wellFormedUtf16_ascii (by decide)
    · obtain rfl : NetValue.boolean true = v := Except.ok.inj hv
      trivial

end IspSession.Analysis
