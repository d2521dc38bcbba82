import IspSession.Analysis.NetArrays
import IspSession.Analysis.ValueReading

/-!
# The bytes of managed values

`netValueBytes` is the format. `writeNetValue_spec`: `WriteValue` appends the bytes of a
value that it can write, and throws on any other (`NetWritable`).
-/

set_option autoImplicit false

namespace IspSession.Analysis

open IspSession.Library IspSession.Model

/-! ## The format -/

/-- The tag of an array without the array bit. -/
def elementVt (element : NetType) : VarType := (vtArray ||| element.vt) ^^^ vtArray

/-- The name of an array's element type, where it is written. -/
def typeNameBytes (rt : NetRuntime) (element : NetType) : Bytes :=
  if isObjectType (elementVt element) then stringBytes (rt.assemblyQualifiedName element)
  else if element.isArray then
    stringBytes (Bstr.ofString "__jagged") ++ stringBytes element.fullName
  else stringBytes []

/-- What stands in front of an array's cells. -/
def netHeaderBytes (rt : NetRuntime) (element : NetType) (dims : List SafeArrayBound) : Bytes :=
  descriptorBytes (vtArray ||| element.vt) (getElementSize (elementVt element)) dims.length ++
    (typeNameBytes rt element ++ dims.flatMap SafeArrayBound.bytes)

/-- The bytes of a decimal. -/
def decimalBytes (d : BitVec (8 * 14)) : Bytes := leBytes 2 vtDecimal.toNat ++ leBytes 14 d.toNat

/-- A managed value, without its tag. -/
def netValueBytes (rt : NetRuntime) : NetValue → Bytes
  | .boolean b => leBytes 2 (if b then 0xFFFF else 0)
  | .primitive p bits => leBytes p.size bits.toNat
  | .decimal d => decimalBytes d
  | .string s => stringBytes s
  | .null | .dbNull | .dateTime _ | .currency _ | .object _ => []
  | .primitiveArray p bounds cells =>
    netHeaderBytes rt (.primitive p) bounds.dims ++ memoryImage p.size cells
  | .booleanArray bounds cells =>
    netHeaderBytes rt .boolean bounds.dims ++ (List.ofFn cells).map fun b => if b then 1 else 0
  | .decimalArray bounds cells =>
    netHeaderBytes rt .decimal bounds.dims ++ (cellOrder bounds).flatMap fun i => decimalBytes (cells i)
  | .stringArray bounds cells =>
    netHeaderBytes rt .string bounds.dims ++
      (cellOrder bounds).flatMap fun i => stringBytes ((cells i).getD [])
  | .array element bounds cells =>
    netHeaderBytes rt element bounds.dims ++
      (cellOrder bounds).flatMap fun i =>
        leBytes 2 (cells i).vt.toNat ++ netValueBytes rt (cells i)

/-! ## Predicates on values -/

/-- The element types of supported arrays. -/
def SupportedElement : NetType → Prop
  | .primitive _ | .boolean | .decimal | .string | .object => True
  | .vector element => SupportedElement element
  | .array element rank => 0 < rank ∧ SupportedElement element
  | _ => False

/-- Null, `DBNull`, values of the primitive types, decimals, well-formed strings, arrays of
them, of objects that are such values, and jagged arrays. -/
def NetSupported : NetValue → Prop
  | .null | .dbNull | .boolean _ | .primitive _ _ | .decimal _ => True
  | .string s => WellFormedUtf16 s
  | .primitiveArray _ _ _ | .booleanArray _ _ | .decimalArray _ _ => True
  | .stringArray _ cells => ∀ i, WellFormedUtf16 ((cells i).getD [])
  | .array element _ cells =>
    SupportedElement element ∧ (element = .object ∨ element.isArray = true) ∧
      ∀ i, StreamManager.conforms element (cells i) = true ∧ NetSupported (cells i)
  | _ => False

/-- What `WriteValue` can write: no array of bytes of rank one with another lower bound than
zero, no array of `bool` with cells, no jagged array without cells, and no array that is
written cell by cell in which the first dimension's last index is the largest `int`. -/
def NetWritable : NetValue → Prop
  | .primitiveArray p bounds _ => p = .byte ∧ bounds.dims.length = 1 → bounds.isVector = true
  | .booleanArray bounds _ => bounds.count = 0
  | .decimalArray bounds _ | .stringArray bounds _ => 0 < bounds.count → Walkable bounds.dims
  | .array element bounds cells =>
    (element.isArray = true → 0 < bounds.count) ∧ (0 < bounds.count → Walkable bounds.dims) ∧
      ∀ i, NetWritable (cells i)
  | _ => True

/-- The bytes of a value are fewer than `EnsureMemory` can allocate. -/
def NetFits (rt : NetRuntime) (v : NetValue) : Prop := (netValueBytes rt v).length < 0x7FFFF000

/-- A computation that throws. -/
def Throws {α : Type} (r : NetRun α) : Prop := ∃ e, r = .error e

/-- INTERNAL: what throws first throws. -/
theorem Throws.bind {α β : Type} {r : NetRun α} (h : Throws r) (f : α → NetRun β) :
    Throws (r >>= f) := by
  obtain ⟨e, rfl⟩ := h
  exact ⟨e, rfl⟩

/-- INTERNAL: what throws has no result. -/
theorem Throws.ne_ok {α : Type} {r : NetRun α} (h : Throws r) (a : α) : r ≠ .ok a := by
  obtain ⟨e, rfl⟩ := h
  exact fun heq => by cases heq

/-! ## Pieces -/

/-- INTERNAL: a size below the limit can be allocated. -/
theorem memoryBlock_spec {n : ℕ} (h : n < 0x7FFFF000) : ∃ k, memoryBlock n = .ok k :=
  ⟨_, if_pos h⟩

/-- **`WriteString` appends the string's bytes.** -/
theorem writeNetString_spec {s : Bstr} (h : (stringBytes s).length < 0x7FFFF000)
    (str : MemoryStream) : StreamManager.writeString s str = .ok (str.write (stringBytes s)) := by
  unfold StreamManager.writeString
  by_cases hempty : s = []
  · rw [if_pos hempty, hempty]
    rfl
  · have hlen : (utf16ToUtf8 s).length + 4 < 0x7FFFF000 := by
      rw [stringBytes, List.length_append, length_leBytes] at h
      omega
    obtain ⟨k, hk⟩ := memoryBlock_spec hlen
    rw [if_neg hempty]
    dsimp only
    rw [hk]
    rfl

/-- INTERNAL: the bounds are appended. -/
theorem foldl_write_dims (dims : List SafeArrayBound) {str : MemoryStream} (hs : str.Sound) :
    dims.foldl (fun (str : MemoryStream) b => str.write b.bytes) str =
      str.write (dims.flatMap SafeArrayBound.bytes) := by
  induction dims generalizing str with
  | nil => rfl
  | cons b dims ih =>
    rw [List.foldl_cons, ih (hs.write _), hs.write_write, List.flatMap_cons]

/-- INTERNAL: the name of the element type is appended. -/
theorem writeTypeName_spec {rt : NetRuntime} {element : NetType}
    (h : (typeNameBytes rt element).length < 0x7FFFF000) {str : MemoryStream} (hs : str.Sound) :
    StreamManager.writeTypeName rt element str = .ok (str.write (typeNameBytes rt element)) := by
  change (if isObjectType (elementVt element) = true then _ else _) = _
  unfold typeNameBytes at h ⊢
  split
  · rename_i hobject
    rw [if_pos hobject] at h
    exact writeNetString_spec h str
  · rename_i hobject
    rw [if_neg hobject] at h
    split
    · rename_i harray
      rw [if_pos harray, List.length_append] at h
      rw [writeNetString_spec (by omega) str, NetRun.ok_bind,
        writeNetString_spec (by omega) _, hs.write_write]
    · exact writeNetString_spec (by decide) str

/-- INTERNAL: the common part of the array writers. -/
theorem writeNetHeader_spec {rt : NetRuntime} {element : NetType} {dims : List SafeArrayBound}
    (h : (netHeaderBytes rt element dims).length < 0x7FFFF000) {str : MemoryStream}
    (hs : str.Sound) :
    StreamManager.writeArrayHeader rt element dims str =
      .ok (str.write (netHeaderBytes rt element dims)) := by
  have hname : (typeNameBytes rt element).length < 0x7FFFF000 := by
    rw [netHeaderBytes, List.length_append, List.length_append] at h
    omega
  have hd := hs.write (descriptorBytes (vtArray ||| element.vt)
    (getElementSize ((vtArray ||| element.vt) ^^^ vtArray)) dims.length)
  rw [StreamManager.writeArrayHeader, writeTypeName_spec hname hd, NetRun.ok_bind, NetRun.pure_eq,
    foldl_write_dims _ (hd.write _), hs.write_write, hs.write_write, netHeaderBytes,
    List.append_assoc]
  rfl

/-- INTERNAL: the memory of an array's cells. -/
theorem length_memoryImage {n : ℕ} (size : ℕ) (cells : Fin n → BitVec (8 * size)) :
    (memoryImage size cells).length = n * size := by
  simp only [memoryImage, List.length_flatMap, length_leBytes, List.map_const',
    List.sum_replicate_nat, List.length_ofFn]

/-- INTERNAL: a size in range, computed in an `int`. -/
theorem toNat_mul_size (b : ArrayBounds) {size : ℕ} (h : b.count * size < 2 ^ 31) :
    (longProduct b.dims * BitVec.ofNat 32 size).toNat = b.count * size ∧
      (longProduct b.dims * BitVec.ofNat 32 size).slt 0 = false := by
  have hnat : (longProduct b.dims * BitVec.ofNat 32 size).toNat = b.count * size := by
    rw [BitVec.toNat_mul, toNat_longProduct_dims, BitVec.toNat_ofNat, Nat.mul_mod_mod,
      Nat.mod_eq_of_lt (by omega)]
  refine ⟨hnat, ?_⟩
  have heq : longProduct b.dims * BitVec.ofNat 32 size = BitVec.ofNat 32 (b.count * size) := by
    apply BitVec.eq_of_toNat_eq
    rw [hnat, BitVec.toNat_ofNat, Nat.mod_eq_of_lt (by omega)]
  have hint : (BitVec.ofNat 32 (b.count * size)).toInt = ((b.count * size : ℕ) : ℤ) := by
    rw [BitVec.toInt_eq_toNat_cond, BitVec.toNat_ofNat, Nat.mod_eq_of_lt (by omega),
      if_pos (by omega)]
  have hzero : (0 : BitVec 32).toInt = 0 := rfl
  rw [heq]
  simp only [BitVec.slt, decide_eq_false_iff_not, hint, hzero]
  omega

/-- INTERNAL: the sweep over the cells, as a fold. -/
theorem sweep_cells {σ : Type} {b : ArrayBounds} (visit : List (BitVec 32) → σ → NetRun σ)
    (f : Fin b.count → σ → NetRun σ)
    (hvisit : ∀ rgIndices i, b.cell rgIndices = some i → ∀ s, visit rgIndices s = f i s) (s : σ) :
    Odometer.sweep (fun _ => true) visit (visitOrder b) s =
      (cellOrder b).foldlM (fun s i => f i s) s := by
  have hcells : ∀ v ∈ visitOrder b, ∃ i, b.cell v = some i := fun v hv => exists_cell hv
  unfold cellOrder
  revert hcells s
  induction visitOrder b with
  | nil => exact fun s _ => rfl
  | cons v vs ih =>
    intro s hcells
    obtain ⟨i, hi⟩ := hcells v (by simp)
    rw [List.filterMap_cons_some hi, List.foldlM_cons, Odometer.sweep, if_pos rfl, hvisit v i hi]
    congr 1
    funext s'
    exact ih s' fun v' hv' => hcells v' (by simp [hv'])

/-- INTERNAL: a fold of writers, of which some may throw. -/
theorem foldlM_writes {ι : Type} {l : List ι} {f : ι → MemoryStream → NetRun MemoryStream}
    {bs : ι → Bytes} {ok : ι → Prop}
    (h : ∀ i ∈ l, ∀ str, str.Sound →
      (ok i → f i str = .ok (str.write (bs i))) ∧ (¬ ok i → Throws (f i str)))
    {str : MemoryStream} (hs : str.Sound) :
    ((∀ i ∈ l, ok i) → l.foldlM (fun str i => f i str) str = .ok (str.write (l.flatMap bs))) ∧
      ((¬ ∀ i ∈ l, ok i) → Throws (l.foldlM (fun str i => f i str) str)) := by
  induction l generalizing str with
  | nil => exact ⟨fun _ => rfl, fun hnot => absurd (fun i hi => by cases hi) hnot⟩
  | cons i l ih =>
    obtain ⟨hok, hthrows⟩ := h i (by simp) str hs
    obtain ⟨hrest, hrestThrows⟩ := ih (fun j hj => h j (by simp [hj])) (hs.write (bs i))
    rw [List.foldlM_cons]
    constructor
    · intro hall
      rw [hok (hall i (by simp)), NetRun.ok_bind, hrest fun j hj => hall j (by simp [hj]),
        hs.write_write, List.flatMap_cons]
    · intro hnot
      by_cases hi : ok i
      · rw [hok hi, NetRun.ok_bind]
        refine hrestThrows fun hall => hnot fun j hj => ?_
        rcases List.mem_cons.mp hj with rfl | hj
        · exact hi
        · exact hall j hj
      · exact (hthrows hi).bind _

/-- INTERNAL: the order has as many cells as the array. -/
theorem length_cellOrder (b : ArrayBounds) : (cellOrder b).length = b.count := by
  have hall : ∀ vectors : List (List (BitVec 32)), (∀ v ∈ vectors, ∃ i, b.cell v = some i) →
      (vectors.filterMap b.cell).length = vectors.length := by
    intro vectors
    induction vectors with
    | nil => exact fun _ => rfl
    | cons v vs ih =>
      intro h
      obtain ⟨i, hi⟩ := h v (by simp)
      rw [List.filterMap_cons_some hi, List.length_cons, List.length_cons,
        ih fun v' hv' => h v' (by simp [hv'])]
  rw [cellOrder, hall _ fun v hv => exists_cell hv, visitOrder, Odometer.length_indicesFrom]

/-- INTERNAL: cells that all take room are no more than their bytes. -/
theorem count_le_length {b : ArrayBounds} (bs : Fin b.count → Bytes) (h : ∀ i, 0 < (bs i).length) :
    b.count ≤ ((cellOrder b).flatMap bs).length := by
  have hall : ∀ l : List (Fin b.count), l.length ≤ (l.flatMap bs).length := by
    intro l
    induction l with
    | nil => exact Nat.le_refl _
    | cons i l ih =>
      have hi := h i
      rw [List.flatMap_cons, List.length_append, List.length_cons]
      omega
  calc b.count = (cellOrder b).length := (length_cellOrder b).symm
    _ ≤ _ := hall _

/-- INTERNAL: the test of the number of cells. -/
theorem zero_slt_longProduct {b : ArrayBounds} (h : b.count < 2 ^ 31) :
    (0#32).slt (longProduct b.dims) = decide (0 < b.count) := by
  have hnat := toNat_longProduct_dims b
  rw [zero_slt_iff (by omega), hnat]

/-- INTERNAL: an array without cells has none in order. -/
theorem cellOrder_of_empty {b : ArrayBounds} (h : b.count = 0) : cellOrder b = [] := by
  rw [← List.length_eq_zero_iff, length_cellOrder, h]

/-- **The cells of an array are written in order**, unless the loop runs off the index vector
or one of them cannot be written. -/
theorem walk_writes {b : ArrayBounds} {f : Fin b.count → MemoryStream → NetRun MemoryStream}
    {bs : Fin b.count → Bytes} {ok : Fin b.count → Prop}
    (h : ∀ i str, str.Sound →
      (ok i → f i str = .ok (str.write (bs i))) ∧ (¬ ok i → Throws (f i str)))
    (hpos : 0 < b.count) {str : MemoryStream} (hs : str.Sound) :
    (Walkable b.dims ∧ (∀ i, ok i) →
      walkCells netCarryLoop (writeCell b f) b.dims (longProduct b.dims) str =
        .ok (str.write ((cellOrder b).flatMap bs))) ∧
    (¬ (Walkable b.dims ∧ ∀ i, ok i) →
      Throws (walkCells netCarryLoop (writeCell b f) b.dims (longProduct b.dims) str)) := by
  have hvisit : ∀ rgIndices i, b.cell rgIndices = some i → ∀ s, writeCell b f rgIndices s = f i s := by
    intro rgIndices i hi s
    simp only [writeCell, hi]
  obtain ⟨hall, hthrows⟩ := foldlM_writes (l := cellOrder b) (fun i _ => h i) hs
  constructor
  · rintro ⟨hwalk, hok⟩
    rw [walkCells_of_walkable cellLoop_netCarryLoop _ hpos hwalk, sweep_cells _ f hvisit]
    exact hall fun i _ => hok i
  · intro hnot
    by_cases hwalk : Walkable b.dims
    · rw [walkCells_of_walkable cellLoop_netCarryLoop _ hpos hwalk, sweep_cells _ f hvisit]
      exact hthrows fun hok => hnot ⟨hwalk, fun i => hok i (mem_cellOrder i)⟩
    · exact ⟨_, walkCells_of_not_walkable cellLoop_netCarryLoop _ hpos hwalk str⟩

/-- INTERNAL: the same with the test whether there are cells. -/
theorem walk_writes_if {b : ArrayBounds} (ok : Fin b.count → Prop)
    {f : Fin b.count → MemoryStream → NetRun MemoryStream} {bs : Fin b.count → Bytes}
    (h : ∀ i str, str.Sound →
      (ok i → f i str = .ok (str.write (bs i))) ∧ (¬ ok i → Throws (f i str)))
    (hcount : b.count < 2 ^ 31) {str : MemoryStream} (hs : str.Sound) :
    ((0 < b.count → Walkable b.dims) ∧ (∀ i, ok i) →
      (if (0#32).slt (longProduct b.dims) then
        walkCells netCarryLoop (writeCell b f) b.dims (longProduct b.dims) str else .ok str) =
        .ok (str.write ((cellOrder b).flatMap bs))) ∧
    (¬ ((0 < b.count → Walkable b.dims) ∧ ∀ i, ok i) →
      Throws (if (0#32).slt (longProduct b.dims) then
        walkCells netCarryLoop (writeCell b f) b.dims (longProduct b.dims) str else .ok str)) := by
  rw [zero_slt_longProduct hcount]
  rcases Nat.eq_zero_or_pos b.count with hzero | hpos
  · have hnone : ∀ i : Fin b.count, False := fun i => absurd i.isLt (by omega)
    rw [if_neg (by simp [hzero]), cellOrder_of_empty hzero]
    exact ⟨fun _ => rfl,
      fun hnot => absurd ⟨fun hpos => absurd hpos (by omega), fun i => (hnone i).elim⟩ hnot⟩
  · rw [if_pos (by simpa using hpos)]
    obtain ⟨hall, hthrows⟩ := walk_writes h hpos hs
    exact ⟨fun hok => hall ⟨hok.1 hpos, hok.2⟩, fun hnot => hthrows fun hok =>
      hnot ⟨fun _ => hok.1, hok.2⟩⟩

/-! ## The writer -/

/-- What `WriteValue` is to do with a value. -/
def NetWriteSpec (rt : NetRuntime) (v : NetValue) : Prop :=
  ∀ str : MemoryStream, str.Sound →
    (NetWritable v → StreamManager.writeValue rt v str = .ok (str.write (netValueBytes rt v))) ∧
      (¬ NetWritable v → Throws (StreamManager.writeValue rt v str))

/-- INTERNAL: a value that is always written. -/
theorem NetWriteSpec.of_ok {rt : NetRuntime} {v : NetValue} (hw : NetWritable v)
    (h : ∀ str : MemoryStream, str.Sound →
      StreamManager.writeValue rt v str = .ok (str.write (netValueBytes rt v))) :
    NetWriteSpec rt v :=
  fun str hs => ⟨fun _ => h str hs, fun hnot => absurd hw hnot⟩

/-- INTERNAL: an array is written when its cells are, behind the header. -/
theorem NetWriteSpec.of_cells {rt : NetRuntime} {v : NetValue} {element : NetType}
    {dims : List SafeArrayBound} {cells : Bytes} (hfits : NetFits rt v)
    (hbytes : netValueBytes rt v = netHeaderBytes rt element dims ++ cells)
    {rest : MemoryStream → NetRun MemoryStream}
    (hvalue : ∀ str, StreamManager.writeValue rt v str =
      StreamManager.writeArrayHeader rt element dims str >>= rest)
    (h : ∀ str : MemoryStream, str.Sound →
      (NetWritable v → rest str = .ok (str.write cells)) ∧ (¬ NetWritable v → Throws (rest str))) :
    NetWriteSpec rt v := by
  intro str hs
  have hheader : (netHeaderBytes rt element dims).length < 0x7FFFF000 := by
    unfold NetFits at hfits
    rw [hbytes, List.length_append] at hfits
    omega
  obtain ⟨hok, hthrows⟩ := h _ (hs.write (netHeaderBytes rt element dims))
  rw [hvalue, writeNetHeader_spec hheader hs, NetRun.ok_bind, hbytes]
  exact ⟨fun hw => by rw [hok hw, hs.write_write], hthrows⟩

/-- INTERNAL: the element size of a primitive type. -/
theorem getElementSize_vt (p : PrimitiveType) : getElementSize p.vt = p.size := by
  cases p <;> rfl

/-- INTERNAL: the tag of an array of a supported type that is no array. -/
theorem elementVt_primitive (p : PrimitiveType) : elementVt (.primitive p) = p.vt := by
  cases p <;> rfl

/-- INTERNAL: an array of primitives goes out as a block, if the cast does not fail. -/
theorem writePrimitives_spec {rt : NetRuntime} {p : PrimitiveType} {b : ArrayBounds}
    {cells : Fin b.count → BitVec (8 * p.size)} (hfits : NetFits rt (.primitiveArray p b cells)) :
    NetWriteSpec rt (.primitiveArray p b cells) := by
  have hlen := length_memoryImage p.size cells
  have hsize : b.count * p.size < 0x7FFFF000 := by
    unfold NetFits at hfits
    rw [netValueBytes, List.length_append, hlen] at hfits
    omega
  obtain ⟨hnat, hslt⟩ := toNat_mul_size b (by omega : b.count * p.size < 2 ^ 31)
  have htake : (memoryImage p.size cells).take (b.count * p.size) = memoryImage p.size cells :=
    List.take_of_length_le (by rw [hlen])
  refine .of_cells hfits rfl (fun _ => rfl) fun str hs => ?_
  simp only [getElementSize_vt, hslt, hnat, htake]
  by_cases hbyte : p = .byte ∧ b.dims.length = 1
  · rw [if_pos hbyte]
    constructor
    · intro hw
      rw [hw hbyte]
      rfl
    · intro hw
      have hvector : b.isVector = false := by
        cases hv : b.isVector with
        | false => rfl
        | true => exact absurd (fun _ => hv) hw
      rw [hvector]
      exact ⟨_, rfl⟩
  · rw [if_neg hbyte]
    obtain ⟨k, hk⟩ := memoryBlock_spec hsize
    refine ⟨fun _ => ?_, fun hw => absurd (fun h => absurd h hbyte) hw⟩
    rw [StreamManager.writeBlock, hslt, hnat, hk]
    simp only [Bool.false_eq_true, if_false, NetRun.ok_bind]
    rw [if_neg (by rw [hlen]; omega), htake]
    rfl

/-- INTERNAL: an array of `bool` has half the bytes in memory that the tag's size asks for. -/
theorem writeBooleans_spec {rt : NetRuntime} {b : ArrayBounds} {cells : Fin b.count → Bool}
    (hfits : NetFits rt (.booleanArray b cells)) : NetWriteSpec rt (.booleanArray b cells) := by
  have hlen : ((List.ofFn cells).map fun b => if b then (1 : UInt8) else 0).length = b.count := by
    rw [List.length_map, List.length_ofFn]
  have hcount : b.count < 0x7FFFF000 := by
    unfold NetFits at hfits
    rw [netValueBytes, List.length_append, hlen] at hfits
    omega
  have hnat : (longProduct b.dims * BitVec.ofNat 32 2).toNat = b.count * 2 := by
    rw [BitVec.toNat_mul, toNat_longProduct_dims, BitVec.toNat_ofNat, Nat.mul_mod_mod,
      Nat.mod_eq_of_lt (by omega)]
  refine .of_cells hfits rfl (fun _ => rfl) fun str _ => ?_
  show (b.count = 0 → StreamManager.writeBlock _ (longProduct b.dims * BitVec.ofNat 32 2) str = _) ∧
    (¬ b.count = 0 → Throws (StreamManager.writeBlock _ (longProduct b.dims * BitVec.ofNat 32 2) str))
  constructor
  · intro hzero
    have hproduct : longProduct b.dims * BitVec.ofNat 32 2 = 0 := by
      apply BitVec.eq_of_toNat_eq
      rw [hnat, hzero]
      rfl
    rw [hproduct, List.length_eq_zero_iff.mp (hlen.trans hzero)]
    rfl
  · intro hpos
    unfold StreamManager.writeBlock
    rw [hnat]
    split
    · exact ⟨_, rfl⟩
    · by_cases hsize : b.count * 2 < 0x7FFFF000
      · obtain ⟨k, hk⟩ := memoryBlock_spec hsize
        rw [hk, NetRun.ok_bind, if_pos (by rw [hlen]; omega)]
        exact ⟨_, rfl⟩
      · have hthrows : Throws (memoryBlock (b.count * 2)) := ⟨_, if_neg hsize⟩
        exact hthrows.bind _

/-- INTERNAL: what stands behind an array's header fits. -/
theorem NetFits.cells {rt : NetRuntime} {v : NetValue} {header cells : Bytes} (hfits : NetFits rt v)
    (hbytes : netValueBytes rt v = header ++ cells) : cells.length < 0x7FFFF000 := by
  unfold NetFits at hfits
  rw [hbytes, List.length_append] at hfits
  omega

/-- INTERNAL: an array of decimals. -/
theorem writeDecimals_spec {rt : NetRuntime} {b : ArrayBounds}
    {cells : Fin b.count → BitVec (8 * 14)} (hfits : NetFits rt (.decimalArray b cells)) :
    NetWriteSpec rt (.decimalArray b cells) := by
  have hcells := hfits.cells rfl
  have hcount := count_le_length (fun i => decimalBytes (cells i)) fun i => by
    simp [decimalBytes]
  refine .of_cells hfits rfl (fun _ => rfl) fun str hs => ?_
  obtain ⟨hok, hthrows⟩ := walk_writes_if (fun _ => True)
    (f := fun i str => .ok (str.write (decimalBytes (cells i))))
    (fun i str _ => ⟨fun _ => rfl, fun hnot => absurd trivial hnot⟩) (by omega) hs
  exact ⟨fun hw => hok ⟨hw, fun _ => trivial⟩, fun hw => hthrows fun h => hw h.1⟩

/-- INTERNAL: an array of strings. -/
theorem writeNetStrings_spec {rt : NetRuntime} {b : ArrayBounds} {cells : Fin b.count → Option Bstr}
    (hfits : NetFits rt (.stringArray b cells)) : NetWriteSpec rt (.stringArray b cells) := by
  have hcells := hfits.cells rfl
  have hcount := count_le_length (fun i => stringBytes ((cells i).getD [])) fun i => by
    simp [stringBytes]
  refine .of_cells hfits rfl (fun _ => rfl) fun str hs => ?_
  obtain ⟨hok, hthrows⟩ := walk_writes_if (fun _ => True)
    (f := fun i str => StreamManager.writeString ((cells i).getD []) str)
    (fun i str _ => ⟨fun _ => writeNetString_spec
      ((length_le_length_flatMap (fun i => stringBytes ((cells i).getD []))
        (mem_cellOrder i)).trans_lt hcells) str,
      fun hnot => absurd trivial hnot⟩) (by omega) hs
  exact ⟨fun hw => hok ⟨hw, fun _ => trivial⟩, fun hw => hthrows fun h => hw h.1⟩

/-- INTERNAL: a cell with its tag. -/
theorem NetWriteSpec.tagged {rt : NetRuntime} {v : NetValue} (h : NetWriteSpec rt v)
    {str : MemoryStream} (hs : str.Sound) :
    (NetWritable v → StreamManager.writeValue rt v (str.write (leBytes 2 v.vt.toNat)) =
        .ok (str.write (leBytes 2 v.vt.toNat ++ netValueBytes rt v))) ∧
      (¬ NetWritable v →
        Throws (StreamManager.writeValue rt v (str.write (leBytes 2 v.vt.toNat)))) := by
  obtain ⟨hok, hthrows⟩ := h _ (hs.write (leBytes 2 v.vt.toNat))
  exact ⟨fun hw => by rw [hok hw, hs.write_write], hthrows⟩

/-- INTERNAL: an array of objects or of arrays. -/
theorem writeObjects_spec {rt : NetRuntime} {element : NetType} {b : ArrayBounds}
    {cells : Fin b.count → NetValue} (helement : element = .object ∨ element.isArray = true)
    (hfits : NetFits rt (.array element b cells)) (ih : ∀ i, NetWriteSpec rt (cells i)) :
    NetWriteSpec rt (.array element b cells) := by
  have hcells := hfits.cells rfl
  have hcount := count_le_length
    (fun i => leBytes 2 (cells i).vt.toNat ++ netValueBytes rt (cells i)) fun i => by simp
  have hwrite := fun i (str : MemoryStream) (hs : str.Sound) => (ih i).tagged hs
  refine .of_cells hfits rfl (fun _ => rfl) fun str hs => ?_
  rcases helement with rfl | harray
  · -- objects have the tag of a variant
    obtain ⟨hok, hthrows⟩ := walk_writes_if _ hwrite (by omega) hs
    exact ⟨fun hw => hok hw.2, fun hw => hthrows fun h => hw ⟨fun h => absurd h (by decide), h⟩⟩
  · simp only [harray, Bool.not_true, Bool.false_and, Bool.false_eq_true, if_false, Bool.true_or,
      if_true]
    rcases Nat.eq_zero_or_pos b.count with hzero | hpos
    · refine ⟨fun hw => absurd (hw.1 harray) (by omega), fun _ => ⟨_, walkCells_of_empty hzero ?_ str⟩⟩
      intro rgIndices str hnone
      simp only [writeCell, hnone]
    · obtain ⟨hok, hthrows⟩ := walk_writes hwrite hpos hs
      exact ⟨fun hw => hok ⟨hw.2.1 hpos, hw.2.2⟩,
        fun hw => hthrows fun h => hw ⟨fun _ => hpos, fun _ => h.1, h.2⟩⟩

/-- **`WriteValue` appends the bytes of a value that it can write, and throws on any other.** -/
theorem writeNetValue_spec {rt : NetRuntime} {v : NetValue} (h : NetSupported v)
    (hfits : NetFits rt v) : NetWriteSpec rt v := by
  induction v with
  | null => exact .of_ok trivial fun _ _ => rfl
  | dbNull => exact .of_ok trivial fun _ _ => rfl
  | boolean b => exact .of_ok trivial fun _ _ => rfl
  | primitive p bits => exact .of_ok trivial fun _ _ => rfl
  | decimal d => exact .of_ok trivial fun _ _ => rfl
  | string s => exact .of_ok trivial fun str _ => writeNetString_spec hfits str
  | dateTime d => exact h.elim
  | currency c => exact h.elim
  | object o => exact h.elim
  | primitiveArray p b cells => exact writePrimitives_spec hfits
  | booleanArray b cells => exact writeBooleans_spec hfits
  | decimalArray b cells => exact writeDecimals_spec hfits
  | stringArray b cells => exact writeNetStrings_spec hfits
  | array element b cells ih =>
    obtain ⟨-, helement, hcells⟩ := h
    refine writeObjects_spec helement hfits fun i => ih i (hcells i).2 ?_
    have hlen := (length_le_length_flatMap
      (fun i => leBytes 2 (cells i).vt.toNat ++ netValueBytes rt (cells i))
      (mem_cellOrder i)).trans_lt (hfits.cells rfl)
    rw [List.length_append] at hlen
    unfold NetFits
    omega

end IspSession.Analysis
