import IspSession.Analysis.DictionaryFormat
import IspSession.Analysis.NetValueReading
import IspSession.Model.PersistUtil

/-!
# The managed session payload

The managed code writes the properties of the component's format, in the order of the names.
`localContents_netSpec`: `LocalContents` produces `payloadBytes`, or throws when a value
cannot be written. `localLoad_payloadBytes`: `LocalLoad` makes of these bytes a collection
with the names and with what the values come back as.
-/

set_option autoImplicit false

namespace IspSession.Analysis

open IspSession.Library IspSession.Model

/-! ## The format -/

/-- A property in a payload, with what `ReadValue` makes of its bytes. -/
structure StoredItem where
  name : Bstr
  vt : VarType
  bytes : Bytes
  loaded : NetValue

/-- Properties from the position `pos` on. -/
def storedItemsBytes : ℕ → List StoredItem → Bytes
  | _, [] => []
  | pos, item :: items =>
    let next := propertyEnd pos item.name item.bytes
    propertyBytes next item.name item.vt item.bytes ++ storedItemsBytes next items

/-- The property without what is made of it. -/
def StoredItem.stored (item : StoredItem) : StoredProperty where
  name := item.name
  vt := item.vt
  bytes := item.bytes

/-- INTERNAL: the properties are those of the component. -/
theorem storedItemsBytes_eq (pos : ℕ) (items : List StoredItem) :
    storedItemsBytes pos items = storedPropertiesBytes pos (items.map StoredItem.stored) := by
  induction items generalizing pos with
  | nil => rfl
  | cons item items ih =>
    rw [storedItemsBytes, ih]
    rfl

/-- An item as the managed code stores it. -/
def storedItem (rt : NetRuntime) (e : Bstr × NetValue) : StoredItem where
  name := e.1
  vt := e.2.vt
  bytes := netValueBytes rt e.2
  loaded := loadedAs e.2

/-- The items that the managed code stores, from the position `pos` on. -/
def netPropertiesBytes (rt : NetRuntime) (pos : ℕ) (entries : List (Bstr × NetValue)) : Bytes :=
  storedItemsBytes pos (entries.map (storedItem rt))

/-- The name of the number of items. -/
def netElsName : Bstr := Bstr.ofString "Els"

/-- The number of items as a value. -/
def netElsValue (count : ℕ) : NetValue := .primitive .int32 (BitVec.ofNat 32 count)

/-- The payload of a list of items. -/
def payloadBytes (rt : NetRuntime) (entries : List (Bstr × NetValue)) : Bytes :=
  netPropertiesBytes rt 0 ((netElsName, netElsValue entries.length) :: entries)

/-- **A payload is what the component makes of its properties.** -/
theorem storedItemsBytes_els (rt : NetRuntime) (items : List StoredItem) :
    storedItemsBytes 0 (storedItem rt (netElsName, netElsValue items.length) :: items) =
      contentsBytes (items.map StoredItem.stored) := by
  rw [storedItemsBytes_eq, contentsBytes, List.length_map]
  rfl

/-- A value that has been got, null where there was an exception. -/
def gotValue : NetRun NetValue → NetValue
  | .ok v => v
  | .error _ => .null

/-- What the indexer gives for a name, null where it throws. -/
def valueOf {strings : NetStrings} (items : StateItemCollection strings NetValue) (key : Bstr) :
    NetValue := gotValue (items.getName key)

theorem valueOf_of_ok {strings : NetStrings} {items : StateItemCollection strings NetValue}
    {key : Bstr} {v : NetValue} (h : items.getName key = .ok v) : valueOf items key = v := by
  rw [valueOf, h]
  rfl

/-- The items of a collection, in the order of their names. -/
def itemsOf {strings : NetStrings} (items : StateItemCollection strings NetValue) :
    List (Bstr × NetValue) :=
  items.keys.map fun key => (key, valueOf items key)

/-- The sizes of a property's parts. -/
theorem length_netPropertiesBytes (rt : NetRuntime) (pos : ℕ) (name : Bstr) (v : NetValue)
    (entries : List (Bstr × NetValue)) :
    (netPropertiesBytes rt pos ((name, v) :: entries)).length =
      (stringBytes name).length + 6 + (netValueBytes rt v).length +
        (netPropertiesBytes rt (propertyEnd pos name (netValueBytes rt v)) entries).length := by
  simp only [netPropertiesBytes, List.map_cons, storedItemsBytes, storedItem, List.length_append,
    propertyBytes, length_leBytes]
  omega

/-- INTERNAL: each property of a payload fits. -/
theorem fits_of_mem {rt : NetRuntime} {pos : ℕ} {entries : List (Bstr × NetValue)}
    {e : Bstr × NetValue} (he : e ∈ entries)
    (h : (netPropertiesBytes rt pos entries).length < 0x7FFFF000) :
    (stringBytes e.1).length < 0x7FFFF000 ∧ NetFits rt e.2 := by
  unfold NetFits
  induction entries generalizing pos with
  | nil => cases he
  | cons first entries ih =>
    rw [length_netPropertiesBytes] at h
    rcases List.mem_cons.mp he with rfl | he
    · omega
    · exact ih he (Nat.lt_of_le_of_lt (Nat.le_add_left _ _) h)

/-- INTERNAL: a payload has at least one byte for each of its items. -/
theorem length_le_netPropertiesBytes (rt : NetRuntime) (pos : ℕ)
    (entries : List (Bstr × NetValue)) :
    entries.length ≤ (netPropertiesBytes rt pos entries).length := by
  induction entries generalizing pos with
  | nil => exact Nat.zero_le _
  | cons e entries ih =>
    have hrest := ih (propertyEnd pos e.1 (netValueBytes rt e.2))
    rw [length_netPropertiesBytes, List.length_cons]
    omega

/-! ## Writing -/

/-- `WriteValue` appends these bytes. -/
def NetWrites (rt : NetRuntime) (v : NetValue) (bs : Bytes) : Prop :=
  ∀ str : MemoryStream, str.Sound → StreamManager.writeValue rt v str = .ok (str.write bs)

/-- **`WriteProperty`** appends the property with its position filled in. -/
theorem writeProperty_writes {rt : NetRuntime} {name : Bstr} {v : NetValue} {bs : Bytes}
    (hname : (stringBytes name).length < 0x7FFFF000) (hv : NetWrites rt v bs) {str : MemoryStream}
    (hs : str.Sound) : PersistUtil.writeProperty rt name v str =
      .ok (str.write (propertyBytes (propertyEnd str.pos name bs) name v.vt bs)) := by
  have hs₁ := hs.write (stringBytes name)
  have hpos : (str.write (stringBytes name)).pos = str.pos + (stringBytes name).length :=
    CStream.pos_write _ _
  have hvalue := hv (((str.write (stringBytes name)).write
    (leBytes 4 (str.write (stringBytes name)).pos)).write (leBytes 2 v.vt.toNat))
    ((hs₁.write _).write _)
  have hlength : (leBytes 4 (str.write (stringBytes name)).pos ++
      (leBytes 2 v.vt.toNat ++ bs)).length = 6 + bs.length := by
    simp only [List.length_append, length_leBytes]
    omega
  have hend : (str.write (stringBytes name)).pos +
      (leBytes 4 (str.write (stringBytes name)).pos ++ (leBytes 2 v.vt.toNat ++ bs)).length =
      propertyEnd str.pos name bs := by
    rw [hlength, hpos, propertyEnd, Nat.add_assoc]
  have hpatch := hs₁.write_patch (a := leBytes 4 (str.write (stringBytes name)).pos)
    (by simp : (leBytes 4 (propertyEnd str.pos name bs)).length = _) (leBytes 2 v.vt.toNat ++ bs)
  rw [hend] at hpatch
  unfold PersistUtil.writeProperty
  rw [writeNetString_spec hname, NetRun.ok_bind]
  show StreamManager.writeValue rt v _ >>= (fun str' : MemoryStream =>
    .ok (((str'.seekSet (str.write (stringBytes name)).pos).write (leBytes 4 str'.pos)).seekSet
      str'.pos)) = _
  rw [hvalue, NetRun.ok_bind, hs₁.write_write, hs₁.write_write, List.append_assoc,
    CStream.pos_write (str.write (stringBytes name)), hend, hpatch, hs.write_write, propertyBytes]

/-- INTERNAL: it does so when the value can be written, and throws with it otherwise. -/
theorem writeProperty_netSpec {rt : NetRuntime} {name : Bstr} {v : NetValue}
    (hname : (stringBytes name).length < 0x7FFFF000) (hv : NetWriteSpec rt v) {str : MemoryStream}
    (hs : str.Sound) :
    (NetWritable v → PersistUtil.writeProperty rt name v str = .ok (str.write
      (propertyBytes (propertyEnd str.pos name (netValueBytes rt v)) name v.vt
        (netValueBytes rt v)))) ∧
    (¬ NetWritable v → Throws (PersistUtil.writeProperty rt name v str)) := by
  refine ⟨fun hw => writeProperty_writes hname (fun str hs => (hv str hs).1 hw) hs, fun hw => ?_⟩
  have hs₁ := hs.write (stringBytes name)
  unfold PersistUtil.writeProperty
  rw [writeNetString_spec hname, NetRun.ok_bind]
  exact ((hv _ ((hs₁.write _).write _)).2 hw).bind _

/-- A loop of `WriteProperty` over names and the values that are got for them. -/
def writeItems (rt : NetRuntime) :
    List (Bstr × NetRun NetValue) → MemoryStream → NetRun MemoryStream
  | [], str => .ok str
  | (key, got) :: cells, str => do
    let value ← got
    let str ← PersistUtil.writeProperty rt key value str
    writeItems rt cells str

/-- The items that have been got, with null where the indexer has thrown. -/
def gotItems (cells : List (Bstr × NetRun NetValue)) : List (Bstr × NetValue) :=
  cells.map fun c => (c.1, gotValue c.2)

/-- What is got for a name is written as this property. -/
structure StoredAs (rt : NetRuntime) (c : Bstr × NetRun NetValue) (p : StoredProperty) : Prop where
  name : p.name = c.1
  fits : (stringBytes c.1).length < 0x7FFFF000
  value : ∃ v, c.2 = .ok v ∧ p.vt = v.vt ∧ NetWrites rt v p.bytes

/-- **The loop over the names**, when all that is got for them can be written. -/
theorem writeItems_writes {rt : NetRuntime} {cells : List (Bstr × NetRun NetValue)}
    (stored : Bstr × NetRun NetValue → StoredProperty)
    (h : ∀ c ∈ cells, StoredAs rt c (stored c)) {str : MemoryStream} (hs : str.Sound) :
    writeItems rt cells str = .ok (str.write (storedPropertiesBytes str.pos (cells.map stored))) := by
  induction cells generalizing str with
  | nil => rfl
  | cons c cells ih =>
    obtain ⟨hname, hfits, v, hgot, hvt, hwrites⟩ := h c List.mem_cons_self
    have hproperty := writeProperty_writes hfits hwrites hs
    rw [← hname, ← hvt] at hproperty
    have hstep : writeItems rt (c :: cells) str = c.2 >>= fun value =>
        PersistUtil.writeProperty rt c.1 value str >>= writeItems rt cells := rfl
    rw [hstep, hgot, NetRun.ok_bind, ← hname, hproperty, NetRun.ok_bind,
      ih (fun c hc => h c (List.mem_cons_of_mem _ hc)) (hs.write _), hs.write_write,
      CStream.pos_write, ← propertyEnd_eq, List.map_cons, storedPropertiesBytes]

/-- INTERNAL: it throws with the first that cannot. -/
theorem writeItems_throws {rt : NetRuntime} {cells : List (Bstr × NetRun NetValue)}
    (hcells : ∀ c ∈ cells, (stringBytes c.1).length < 0x7FFFF000 ∧
      ∀ v, c.2 = .ok v → NetWriteSpec rt v)
    (hnot : ¬ ∀ c ∈ cells, ∃ v, c.2 = .ok v ∧ NetWritable v) {str : MemoryStream}
    (hs : str.Sound) : Throws (writeItems rt cells str) := by
  induction cells generalizing str with
  | nil => exact absurd (fun c hc => absurd hc List.not_mem_nil) hnot
  | cons c cells ih =>
    obtain ⟨hfits, hspec⟩ := hcells c List.mem_cons_self
    have hstep : writeItems rt (c :: cells) str = c.2 >>= fun value =>
        PersistUtil.writeProperty rt c.1 value str >>= writeItems rt cells := rfl
    rw [hstep]
    cases hgot : c.2 with
    | error e => exact ⟨e, rfl⟩
    | ok v =>
      obtain ⟨hok, hthrows⟩ := writeProperty_netSpec hfits (hspec v hgot) hs
      rw [NetRun.ok_bind]
      by_cases hw : NetWritable v
      · rw [hok hw, NetRun.ok_bind]
        refine ih (fun c hc => hcells c (List.mem_cons_of_mem _ hc)) (fun hall => hnot ?_)
          (hs.write _)
        exact List.forall_mem_cons.mpr ⟨⟨v, hgot, hw⟩, hall⟩
      · exact (hthrows hw).bind _

/-- **The loop over the names.** -/
theorem writeItems_netSpec {rt : NetRuntime} {cells : List (Bstr × NetRun NetValue)}
    (hsupp : ∀ c ∈ cells, ∀ v, c.2 = .ok v → NetSupported v) {str : MemoryStream} (hs : str.Sound)
    (hfits : (netPropertiesBytes rt str.pos (gotItems cells)).length < 0x7FFFF000) :
    ((∀ c ∈ cells, ∃ v, c.2 = .ok v ∧ NetWritable v) →
      writeItems rt cells str =
        .ok (str.write (netPropertiesBytes rt str.pos (gotItems cells)))) ∧
    ((¬ ∀ c ∈ cells, ∃ v, c.2 = .ok v ∧ NetWritable v) → Throws (writeItems rt cells str)) := by
  have hcells : ∀ c ∈ cells, (stringBytes c.1).length < 0x7FFFF000 ∧
      ∀ v, c.2 = .ok v → NetWriteSpec rt v := by
    intro c hc
    obtain ⟨hname, hvalue⟩ := fits_of_mem (List.mem_map_of_mem hc) hfits
    refine ⟨hname, fun v hv => writeNetValue_spec (hsupp c hc v hv) ?_⟩
    rwa [hv] at hvalue
  refine ⟨fun hall => ?_, fun hnot => writeItems_throws hcells hnot hs⟩
  have hwrites := writeItems_writes (fun c => (storedItem rt (c.1, gotValue c.2)).stored)
    (fun c hc => by
      obtain ⟨v, hv, hw⟩ := hall c hc
      have hgot : gotValue c.2 = v := by
        rw [hv]
        rfl
      rw [hgot]
      exact ⟨rfl, (hcells c hc).1, v, hv, rfl, fun str hs => ((hcells c hc).2 v hv str hs).1 hw⟩) hs
  rw [hwrites, netPropertiesBytes, storedItemsBytes_eq, gotItems, List.map_map, List.map_map]
  rfl

/-- INTERNAL: the number of items fits. -/
theorem netFits_elsValue (rt : NetRuntime) (count : ℕ) : NetFits rt (netElsValue count) := by
  show (leBytes 4 _).length < 0x7FFFF000
  rw [length_leBytes]
  decide

/-- The number of items and the items, on a new stream. -/
def writePayload (rt : NetRuntime) (cells : List (Bstr × NetRun NetValue)) :
    NetRun (Bytes × ℕ) := do
  let str ← PersistUtil.writeProperty rt netElsName (netElsValue cells.length) CStream.new
  let str ← writeItems rt cells str
  pure (str.buf, str.pos)

/-- INTERNAL: the number of items is written, and then they are. -/
theorem writePayload_eq {rt : NetRuntime} (cells : List (Bstr × NetRun NetValue)) {next : ℕ}
    {els : Bytes} (hnext : propertyEnd 0 netElsName (netValueBytes rt (netElsValue cells.length)) =
      next)
    (hels : propertyBytes next netElsName (netElsValue cells.length).vt
      (netValueBytes rt (netElsValue cells.length)) = els) :
    writePayload rt cells =
      writeItems rt cells (CStream.new.write els) >>= fun str => .ok (str.buf, str.pos) := by
  have hwritten := (writeProperty_netSpec (by decide : (stringBytes netElsName).length < _)
    (writeNetValue_spec (v := netElsValue cells.length) trivial (netFits_elsValue rt _))
    (Nat.le_refl _ : CStream.new.Sound)).1 trivial
  have hstart : CStream.new.pos = 0 := rfl
  rw [hstart, hnext, hels] at hwritten
  have hsteps : writePayload rt cells =
      PersistUtil.writeProperty rt netElsName (netElsValue cells.length) CStream.new >>= fun str =>
        writeItems rt cells str >>= fun str => .ok (str.buf, str.pos) := rfl
  rw [hsteps, hwritten]
  rfl

/-- INTERNAL: a stream on which nothing else has been written. -/
theorem new_write (bs : Bytes) : CStream.new.write bs = ⟨bs, bs.length⟩ := by
  have hnew : CStream.new.Sound := Nat.le_refl _
  rw [hnew.write_eq]
  simp [CStream.new]

/-- **The payload of the properties** that are got. -/
theorem writePayload_writes {rt : NetRuntime} {cells : List (Bstr × NetRun NetValue)}
    (stored : Bstr × NetRun NetValue → StoredProperty)
    (h : ∀ c ∈ cells, StoredAs rt c (stored c)) :
    writePayload rt cells =
      .ok (contentsBytes (cells.map stored), (contentsBytes (cells.map stored)).length) := by
  have hnew : CStream.new.Sound := Nat.le_refl _
  rw [writePayload_eq cells rfl rfl, writeItems_writes stored h (hnew.write _), NetRun.ok_bind,
    hnew.write_write, CStream.pos_write, ← propertyEnd_eq, new_write, contentsBytes, List.length_map]
  rfl

/-- **The payload of the items** is written, or one of them cannot be written. -/
theorem writePayload_netSpec {rt : NetRuntime} {cells : List (Bstr × NetRun NetValue)}
    (hsupp : ∀ c ∈ cells, ∀ v, c.2 = .ok v → NetSupported v)
    (hfits : (payloadBytes rt (gotItems cells)).length < 0x7FFFF000) :
    ((∀ c ∈ cells, ∃ v, c.2 = .ok v ∧ NetWritable v) →
      writePayload rt cells =
        .ok (payloadBytes rt (gotItems cells), (payloadBytes rt (gotItems cells)).length)) ∧
    ((¬ ∀ c ∈ cells, ∃ v, c.2 = .ok v ∧ NetWritable v) → Throws (writePayload rt cells)) := by
  have hnew : CStream.new.Sound := Nat.le_refl _
  have hcount : (gotItems cells).length = cells.length := List.length_map _
  have hpos : (CStream.new.write (propertyBytes
      (propertyEnd 0 netElsName (netValueBytes rt (netElsValue cells.length))) netElsName
      (netElsValue cells.length).vt (netValueBytes rt (netElsValue cells.length)))).pos =
      propertyEnd 0 netElsName (netValueBytes rt (netElsValue cells.length)) := by
    rw [CStream.pos_write, ← propertyEnd_eq]
    rfl
  have hbytes : payloadBytes rt (gotItems cells) = propertyBytes
      (propertyEnd 0 netElsName (netValueBytes rt (netElsValue cells.length))) netElsName
      (netElsValue cells.length).vt (netValueBytes rt (netElsValue cells.length)) ++
      netPropertiesBytes rt (propertyEnd 0 netElsName (netValueBytes rt (netElsValue cells.length)))
        (gotItems cells) := by
    rw [payloadBytes, hcount]
    rfl
  rw [hbytes, List.length_append] at hfits
  obtain ⟨hok, hthrows⟩ := writeItems_netSpec hsupp (hnew.write _) (by
    rw [hpos]
    exact Nat.lt_of_le_of_lt (Nat.le_add_left _ _) hfits)
  rw [hpos, hnew.write_write, ← hbytes, new_write (payloadBytes rt (gotItems cells))] at hok
  rw [writePayload_eq cells rfl rfl]
  refine ⟨fun hall => ?_, fun hnot => (hthrows hnot).bind _⟩
  rw [hok hall]
  rfl

/-- INTERNAL: the names of a collection, with what is got for them. -/
def cellsOf {strings : NetStrings} (items : StateItemCollection strings NetValue) :
    List (Bstr × NetRun NetValue) :=
  items.keys.map fun key => (key, items.getName key)

/-- INTERNAL: `LocalContents` writes them. -/
theorem localContents_eq {strings : NetStrings} (rt : NetRuntime)
    (items : StateItemCollection strings NetValue) :
    PersistUtil.localContents rt items = writePayload rt (cellsOf items) := by
  have hloop : ∀ (keys : List Bstr) (str : MemoryStream),
      PersistUtil.writeProperties rt items keys str =
        writeItems rt (keys.map fun key => (key, items.getName key)) str := by
    intro keys
    induction keys with
    | nil => exact fun _ => rfl
    | cons key keys ih =>
      intro str
      rw [PersistUtil.writeProperties, List.map_cons, writeItems]
      simp only [ih]
  have hcount : (cellsOf items).length = items.count :=
    (List.length_map _).trans (List.length_map _)
  unfold PersistUtil.localContents writePayload
  rw [hcount]
  simp only [hloop]
  rfl

/-- **`LocalContents`** produces the payload of the items, or throws when one cannot be
written. -/
theorem localContents_netSpec {strings : NetStrings} {rt : NetRuntime}
    {items : StateItemCollection strings NetValue}
    (hsupp : ∀ key ∈ items.keys, ∀ v, items.getName key = .ok v → NetSupported v)
    (hfits : (payloadBytes rt (itemsOf items)).length < 0x7FFFF000) :
    ((∀ key ∈ items.keys, ∃ v, items.getName key = .ok v ∧ NetWritable v) →
      PersistUtil.localContents rt items = .ok (payloadBytes rt (itemsOf items),
        (payloadBytes rt (itemsOf items)).length)) ∧
    ((¬ ∀ key ∈ items.keys, ∃ v, items.getName key = .ok v ∧ NetWritable v) →
      Throws (PersistUtil.localContents rt items)) := by
  have hitems : gotItems (cellsOf items) = itemsOf items := List.map_map
  have hall : (∀ c ∈ cellsOf items, ∃ v, c.2 = .ok v ∧ NetWritable v) ↔
      ∀ key ∈ items.keys, ∃ v, items.getName key = .ok v ∧ NetWritable v := by
    unfold cellsOf
    exact List.forall_mem_map
  rw [localContents_eq, ← hall, ← hitems]
  refine writePayload_netSpec (fun c hc v hv => ?_) (by rw [hitems]; exact hfits)
  obtain ⟨key, hkey, rfl⟩ := List.mem_map.mp hc
  exact hsupp key hkey v hv

/-! ## Reading -/

/-- The bytes of a value are read as some value. -/
def ReadsAs (rt : NetRuntime) (loaders : NetLoaders) (vt : VarType) (bs : Bytes) (v : NetValue) :
    Prop :=
  ∀ fuel m tl, bs.length < fuel → m.str.rest = bs ++ tl →
    Gives v bs.length m (StreamManager.readValue rt loaders fuel vt m)

/-- A property that is read back as its item says. -/
structure StoredItem.Loads (rt : NetRuntime) (loaders : NetLoaders) (item : StoredItem) : Prop where
  text : WellFormedUtf16 item.name
  fits : (stringBytes item.name).length < 0x7FFFF000
  value : ReadsAs rt loaders item.vt item.bytes item.loaded

/-- **`ReadProperty`** reads a property back. -/
theorem readProperty_netSpec {rt : NetRuntime} {loaders : NetLoaders} {item : StoredItem}
    (h : item.Loads rt loaders) (next : ℕ) {m : StreamManager} {tl : Bytes}
    (hrest : m.str.rest = propertyBytes next item.name item.vt item.bytes ++ tl) :
    ∃ m', PersistUtil.readProperty rt loaders m = .ok (item.name, item.loaded, m') ∧
      Moved m (propertyBytes next item.name item.vt item.bytes).length m' := by
  have hlength : (propertyBytes next item.name item.vt item.bytes).length =
      (stringBytes item.name).length + (4 + (2 + item.bytes.length)) := by
    simp only [propertyBytes, List.length_append, length_leBytes]
  rw [propertyBytes, List.append_assoc, List.append_assoc, List.append_assoc] at hrest
  obtain ⟨m₁, hread, hmoved₁⟩ := readNetString_spec h.text h.fits hrest
  have hrest₁ := hmoved₁.rest hrest
  have hmoved₂ := (readNumber_of_rest hrest₁).2
  have hrest₂ := hmoved₂.rest' (length_leBytes 4 _) hrest₁
  obtain ⟨hvalue, hmoved₃⟩ := readNumber_of_rest hrest₂
  have hrest₃ := hmoved₃.rest' (length_leBytes 2 _) hrest₂
  have hvt : UInt16.ofNat ((m₁.readNumber 4).2.readNumber 2).1 = item.vt := by
    rw [hvalue, ← ofLeBytes_leBytes, uint16_ofLeBytes_leBytes]
  have hfuel : item.bytes.length < ((m₁.readNumber 4).2.readNumber 2).2.str.buf.length + 2 := by
    have hbuf : ((m₁.readNumber 4).2.readNumber 2).2.str.rest.length ≤
        ((m₁.readNumber 4).2.readNumber 2).2.str.buf.length := by
      rw [CStream.rest, List.length_drop]
      omega
    rw [hrest₃, List.length_append] at hbuf
    omega
  obtain ⟨m', hdata, hmoved'⟩ := h.value _ _ _ hfuel hrest₃
  refine ⟨m', ?_, ?_⟩
  · show m.readString >>= _ = _
    rw [hread, NetRun.ok_bind]
    show StreamManager.readValue rt loaders
      (((m₁.readNumber 4).2.readNumber 2).2.str.buf.length + 2) (UInt16.ofNat
        ((m₁.readNumber 4).2.readNumber 2).1) ((m₁.readNumber 4).2.readNumber 2).2 >>= _ = _
    rw [hvt, hdata]
    rfl
  · rw [hlength]
    exact hmoved₁.trans (hmoved₂.trans (hmoved₃.trans hmoved'))

/-- `LocalLoad` stores a property that has a name. -/
def putItem {strings : NetStrings} (s : StateItemCollection strings NetValue) (name : Bstr)
    (value : NetValue) : StateItemCollection strings NetValue :=
  if name = [] then s
  else
    { s with
      entriesTable := s.entriesTable.insert name ()
      dirty := true
      entries := Function.update s.entries (strings.getHashCode name) (some value) }

/-- A number of properties, with their names. -/
def readItems (rt : NetRuntime) (loaders : NetLoaders) :
    ℕ → StreamManager → NetRun (List (Bstr × NetValue))
  | 0, _ => .ok []
  | cx + 1, m => do
    let (name, v, m) ← PersistUtil.readProperty rt loaders m
    let items ← readItems rt loaders cx m
    pure ((name, v) :: items)

/-- The items of a payload, none of them left out: `corrupt` is thrown where their number is not
found. -/
def readPayload (corrupt : NetException) (rt : NetRuntime) (loaders : NetLoaders)
    (payload : Bytes) : NetRun (List (Bstr × NetValue)) := do
  let (name, v, m) ← PersistUtil.readProperty rt loaders (StreamManager.new ⟨payload, 0⟩ false)
  if name ≠ netElsName then .error corrupt
  else do
    let count ← PersistUtil.unboxInt v
    if count.toInt < 0 ∨ 32767 < count.toInt then .error corrupt
    else readItems rt loaders count.toNat m

/-- INTERNAL: `LocalLoad` stores an item. -/
def putEntry {strings : NetStrings} (s : StateItemCollection strings NetValue)
    (e : Bstr × NetValue) : StateItemCollection strings NetValue := putItem s e.1 e.2

/-- **`LocalLoad` stores the items of its payload, one after the other.** -/
theorem localLoad_eq {strings : NetStrings} (rt : NetRuntime) (loaders : NetLoaders)
    (payload : Bytes) :
    (PersistUtil.localLoad rt loaders payload : NetRun (StateItemCollection strings NetValue)) =
      (readPayload .corruptState rt loaders payload).map fun items => items.foldl putEntry .new := by
  have hloop : ∀ (n : ℕ) (m : StreamManager) (s : StateItemCollection strings NetValue),
      PersistUtil.loadProperties rt loaders n m s =
        (readItems rt loaders n m).map fun items => items.foldl putEntry s := by
    intro n
    induction n with
    | zero => exact fun _ _ => rfl
    | succ n ih =>
      intro m s
      rw [PersistUtil.loadProperties, readItems]
      cases PersistUtil.readProperty rt loaders m with
      | error e => rfl
      | ok p =>
        obtain ⟨name, v, m'⟩ := p
        have hput : PersistUtil.loadProperties rt loaders n m' (putItem s name v) =
            ((readItems rt loaders n m').map fun items => (name, v) :: items).map
              fun items => items.foldl putEntry s := by
          rw [ih]
          cases readItems rt loaders n m' <;> rfl
        refine Eq.trans ?_ (hput.trans ?_)
        · rw [NetRun.ok_bind, putItem]
          by_cases hname : name = []
          · simp only [hname, if_true]
            rfl
          · simp only [hname, if_false, StateItemCollection.setName]
            rfl
        · rw [NetRun.ok_bind]
          dsimp only
          cases readItems rt loaders n m' <;> rfl
  unfold PersistUtil.localLoad readPayload
  cases PersistUtil.readProperty rt loaders (StreamManager.new ⟨payload, 0⟩ false) with
  | error e => rfl
  | ok p =>
    obtain ⟨name, v, m⟩ := p
    simp only [NetRun.ok_bind, hloop]
    show (if name ≠ netElsName then _ else _) = _
    split
    · rfl
    · cases PersistUtil.unboxInt v with
      | error e => rfl
      | ok count =>
        simp only [NetRun.ok_bind]
        split <;> rfl

/-- **The loop over the properties.** -/
theorem readItems_netSpec {rt : NetRuntime} {loaders : NetLoaders}
    (items : List StoredItem) (h : ∀ item ∈ items, item.Loads rt loaders) (pos : ℕ)
    {m : StreamManager} {tl : Bytes} (hrest : m.str.rest = storedItemsBytes pos items ++ tl) :
    readItems rt loaders items.length m = .ok (items.map fun item => (item.name, item.loaded)) := by
  induction items generalizing pos m with
  | nil => rfl
  | cons item items ih =>
    rw [storedItemsBytes, List.append_assoc] at hrest
    obtain ⟨m', hread, hmoved⟩ := readProperty_netSpec (h item List.mem_cons_self) _ hrest
    have hrest' := ih (fun i hi => h i (List.mem_cons_of_mem _ hi)) _ (hmoved.rest hrest)
    rw [List.length_cons, readItems, hread, NetRun.ok_bind]
    show (readItems rt loaders items.length m' >>= fun items => _) = _
    rw [hrest']
    rfl

/-- INTERNAL: the number of items, read. -/
theorem elsValue_loads (rt : NetRuntime) (loaders : NetLoaders) (count : ℕ) :
    (storedItem rt (netElsName, netElsValue count)).Loads rt loaders where
  text := wellFormedUtf16_ascii (by decide : AsciiUtf16 netElsName)
  fits := (by decide : (stringBytes netElsName).length < 0x7FFFF000)
  value := readNetValue_spec loaders trivial trivial (netFits_elsValue rt count)

/-- **The items of a payload are read back.** -/
theorem readPayload_storedItems (corrupt : NetException) {rt : NetRuntime} {loaders : NetLoaders}
    (items : List StoredItem) (h : ∀ item ∈ items, item.Loads rt loaders)
    (hcount : items.length < 2 ^ 31) :
    readPayload corrupt rt loaders (storedItemsBytes 0
        (storedItem rt (netElsName, netElsValue items.length) :: items)) =
      if 32767 < items.length then .error corrupt
      else .ok (items.map fun item => (item.name, item.loaded)) := by
  have hrest : (StreamManager.new ⟨storedItemsBytes 0
      (storedItem rt (netElsName, netElsValue items.length) :: items), 0⟩ false).str.rest =
      _ ++ storedItemsBytes _ items := rfl
  obtain ⟨m', hread, hmoved⟩ := readProperty_netSpec (elsValue_loads rt loaders items.length) _ hrest
  have hrest' := hmoved.rest hrest
  rw [← List.append_nil (storedItemsBytes _ items)] at hrest'
  have hint : (BitVec.ofNat 32 items.length).toInt = items.length := by
    rw [BitVec.toInt_eq_toNat_cond, BitVec.toNat_ofNat, Nat.mod_eq_of_lt (by omega),
      if_pos (by omega)]
  have hnat : (BitVec.ofNat 32 items.length).toNat = items.length := by
    rw [BitVec.toNat_ofNat, Nat.mod_eq_of_lt (by omega)]
  have hname : (storedItem rt (netElsName, netElsValue items.length)).name = netElsName := rfl
  have hloaded : (storedItem rt (netElsName, netElsValue items.length)).loaded =
      .primitive .int32 (BitVec.ofNat 32 items.length) := rfl
  unfold readPayload
  rw [hread, NetRun.ok_bind]
  dsimp only
  rw [if_neg (not_not.mpr hname), hloaded]
  show (if (BitVec.ofNat 32 items.length).toInt < 0 ∨ 32767 < (BitVec.ofNat 32 items.length).toInt
    then _ else readItems rt loaders (BitVec.ofNat 32 items.length).toNat m') = _
  rw [hint, hnat, readItems_netSpec items h _ hrest']
  by_cases hmany : 32767 < items.length
  · rw [if_pos (by omega), if_pos hmany]
  · rw [if_neg (by omega), if_neg hmany]

/-- **`LocalLoad`** makes a collection of the properties. -/
theorem localLoad_storedItems {strings : NetStrings} {rt : NetRuntime} {loaders : NetLoaders}
    (items : List StoredItem) (h : ∀ item ∈ items, item.Loads rt loaders)
    (hcount : items.length ≤ 32767) :
    (PersistUtil.localLoad rt loaders (storedItemsBytes 0
        (storedItem rt (netElsName, netElsValue items.length) :: items)) :
      NetRun (StateItemCollection strings NetValue)) =
        .ok (items.foldl (fun s item => putItem s item.name item.loaded) .new) := by
  rw [localLoad_eq, readPayload_storedItems _ items h (by omega), if_neg (by omega)]
  exact congrArg Except.ok List.foldl_map

/-! ## What is loaded -/

section Loaded

variable {strings : NetStrings}

/-- **The names of a collection** are those that have been put into it, without the empty one. -/
theorem entriesTable_foldl_putItem (items : List StoredItem)
    (s : StateItemCollection strings NetValue) :
    (items.foldl (fun s item => putItem s item.name item.loaded) s).entriesTable =
      s.entriesTable.insertAll ((items.filter fun item => decide (item.name ≠ [])).map
        fun item => (item.name, ())) := by
  induction items generalizing s with
  | nil => rfl
  | cons item items ih =>
    rw [List.foldl_cons, ih, putItem]
    by_cases hname : item.name = []
    · rw [if_pos hname, List.filter_cons_of_neg (by simpa using hname)]
    · rw [if_neg hname, List.filter_cons_of_pos (by simpa using hname)]
      rfl

/-- **A hash code has the value that was put under it last.** -/
theorem entries_foldl_putItem (items : List StoredItem) (s : StateItemCollection strings NetValue)
    (hash : BitVec 32) :
    (items.foldl (fun s item => putItem s item.name item.loaded) s).entries hash =
      ((items.reverse.find? fun item =>
        decide (item.name ≠ [] ∧ strings.getHashCode item.name = hash)).map
          StoredItem.loaded).or (s.entries hash) := by
  induction items generalizing s with
  | nil => rfl
  | cons item items ih =>
    have hput : (putItem s item.name item.loaded).entries hash =
        (([item].find? fun item =>
          decide (item.name ≠ [] ∧ strings.getHashCode item.name = hash)).map
            StoredItem.loaded).or (s.entries hash) := by
      rw [putItem, List.find?_cons]
      by_cases hname : item.name = []
      · simp [hname]
      · by_cases hhash : strings.getHashCode item.name = hash
        · simp [hname, hhash]
        · simp [hname, hhash, Ne.symm hhash]
    rw [List.foldl_cons, ih, hput, List.reverse_cons, List.find?_append, Option.map_or,
      Option.or_assoc]

/-- INTERNAL: the names of items that ascend become those of the collection. -/
theorem keys_foldl_putItem (items : List StoredItem)
    (hnames : ∀ item ∈ items, item.name ≠ [])
    (hsorted : (items.map StoredItem.name).Pairwise fun a b => strings.compare a b = .lt) :
    (items.foldl (fun s item => putItem s item.name item.loaded)
      (.new : StateItemCollection strings NetValue)).keys = items.map StoredItem.name := by
  have hall : (items.filter fun item => decide (item.name ≠ [])) = items :=
    List.filter_eq_self.mpr fun item hitem => decide_eq_true (hnames item hitem)
  have hmap : items.map StoredItem.name =
      (items.map fun item => (item.name, ())).map Prod.fst := by
    rw [List.map_map]
    rfl
  show (OrderedMap.entries _).map Prod.fst = _
  rw [entriesTable_foldl_putItem, hall, hmap]
  rw [hmap, List.pairwise_map] at hsorted
  exact congrArg (List.map Prod.fst) (OrderedMap.entries_insertAll _ .empty hsorted)

/-- INTERNAL: each value is found under its hash code, when those with one hash code are the
same. -/
theorem entries_of_mem_items {items : List StoredItem} (hnames : ∀ item ∈ items, item.name ≠ [])
    (hsame : ∀ item ∈ items, ∀ other ∈ items,
      strings.getHashCode item.name = strings.getHashCode other.name → item.loaded = other.loaded)
    {item : StoredItem} (hitem : item ∈ items) :
    (items.foldl (fun s item => putItem s item.name item.loaded)
      (.new : StateItemCollection strings NetValue)).entries
        (strings.getHashCode item.name) = some item.loaded := by
  rw [entries_foldl_putItem]
  cases hfind : items.reverse.find? fun other =>
      decide (other.name ≠ [] ∧ strings.getHashCode other.name = strings.getHashCode item.name) with
  | none =>
    have hno := List.find?_eq_none.mp hfind item (List.mem_reverse.mpr hitem)
    exact absurd (decide_eq_true ⟨hnames item hitem, rfl⟩) hno
  | some other =>
    have hother := List.mem_reverse.mp (List.mem_of_find?_eq_some hfind)
    have hhash := List.find?_some hfind
    rw [decide_eq_true_eq] at hhash
    rw [Option.map_some, Option.some_or, hsame other hother item hitem hhash.2]

end Loaded

end IspSession.Analysis
