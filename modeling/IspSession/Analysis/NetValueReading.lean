import IspSession.Analysis.ManagedFormat
import IspSession.Analysis.ManagedReading
import IspSession.Analysis.TypeNames

/-!
# Reading managed values back

`readNetValue_spec`: from the bytes of a value that could be written, `ReadValue` makes
`loadedAs` of it: a byte comes back as an `int`, and a null in an array of strings as the
empty string.
-/

set_option autoImplicit false

namespace IspSession.Analysis

open IspSession.Library IspSession.Model

/-- The result of a reader that gives `a` and moves over `n` bytes. -/
def Gives {α : Type} (a : α) (n : ℕ) (m : StreamManager) (r : NetRun (α × StreamManager)) : Prop :=
  ∃ m', r = .ok (a, m') ∧ Moved m n m'

/-- What a value comes back as. -/
def loadedAs : NetValue → NetValue
  | .primitive .byte bits => .primitive .int32 (BitVec.ofNat 32 bits.toNat)
  | .stringArray b cells => .stringArray b fun i => some ((cells i).getD [])
  | .array element b cells => .array element b fun i => loadedAs (cells i)
  | v => v

/-! ## Values that are no arrays -/

/-- **`ReadString` gives a string back.** -/
theorem readNetString_spec {m : StreamManager} {s : Bstr} {tl : Bytes} (hw : WellFormedUtf16 s)
    (hfits : (stringBytes s).length < 0x7FFFF000) (h : m.str.rest = stringBytes s ++ tl) :
    Gives s (stringBytes s).length m m.readString := by
  rw [stringBytes, List.append_assoc] at h
  have hlen : (stringBytes s).length = 4 + (utf16ToUtf8 s).length := by
    rw [stringBytes, List.length_append, length_leBytes]
  rw [hlen] at hfits ⊢
  obtain ⟨hsize, hmoved⟩ := readNumber_of_rest h
  have hmod : (utf16ToUtf8 s).length % 256 ^ 4 = (utf16ToUtf8 s).length := by
    rw [Nat.mod_eq_of_lt (by omega)]
  obtain ⟨m', hm', hmoved'⟩ := readBlock_of_rest (hmoved.rest' (length_leBytes 4 _) h) rfl
    (by omega : (utf16ToUtf8 s).length < 0x7FFFF000)
  refine ⟨m', ?_, hmoved.trans hmoved'⟩
  show (m.readNumber 4).2.readBlock (BitVec.ofNat 32 (m.readNumber 4).1) >>= _ = _
  rw [hsize, hmod, hm', NetRun.ok_bind]
  show Except.ok (utf8ToUtf16 (utf16ToUtf8 s), m') = _
  rw [utf8ToUtf16_utf16ToUtf8 hw]

/-- INTERNAL: a number of some width is read as it was written. -/
theorem ofNat_readNumber {n : ℕ} (bits : BitVec (8 * n)) {m : StreamManager} {tl : Bytes}
    (h : m.str.rest = leBytes n bits.toNat ++ tl) :
    BitVec.ofNat (8 * n) (m.readNumber n).1 = bits := by
  rw [(readNumber_of_rest h).1, ← ofLeBytes_leBytes, ofNat_ofLeBytes_leBytes]

/-- INTERNAL: a number behind its tag. -/
theorem readScalar_primitive (rt : NetRuntime) (loaders : NetLoaders) {p : PrimitiveType}
    (hp : p ≠ .byte) (bits : BitVec (8 * p.size)) {m : StreamManager} {tl : Bytes}
    (h : m.str.rest = leBytes p.size bits.toNat ++ tl) :
    Gives (.primitive p bits) p.size m (StreamManager.readScalar rt loaders p.vt m) := by
  have hread : StreamManager.readScalar rt loaders p.vt m =
      .ok (.primitive p (BitVec.ofNat _ (m.readNumber p.size).1), (m.readNumber p.size).2) := by
    cases p with
    | byte => exact absurd rfl hp
    | _ => rfl
  exact ⟨_, by rw [hread, ofNat_readNumber bits h], (readNumber_of_rest h).2⟩

/-- INTERNAL: `ReadByte` returns an `int`. -/
theorem readScalar_byte (rt : NetRuntime) (loaders : NetLoaders) (bits : BitVec 8)
    {m : StreamManager} {tl : Bytes} (h : m.str.rest = leBytes 1 bits.toNat ++ tl) :
    Gives (.primitive .int32 (BitVec.ofNat 32 bits.toNat)) 1 m
      (StreamManager.readScalar rt loaders PrimitiveType.byte.vt m) := by
  have hread := CStream.read_of_rest' h (length_leBytes 1 _)
  have hvalue : (UInt8.ofNat bits.toNat).toNat = bits.toNat := by
    rw [UInt8.toNat_ofNat', Nat.mod_eq_of_lt bits.isLt]
  refine ⟨{ m with str := m.str.advance 1 }, ?_, rfl, rfl⟩
  unfold StreamManager.readScalar
  have htag : PrimitiveType.byte.vt.toNat = 17 := rfl
  simp only [htag, hread, leBytes, hvalue]

/-- INTERNAL: a `bool` is read from two bytes. -/
theorem readScalar_boolean (rt : NetRuntime) (loaders : NetLoaders) {n : ℕ} {m : StreamManager}
    {tl : Bytes} (hn : n < 2 ^ 16) (h : m.str.rest = leBytes 2 n ++ tl) :
    Gives (.boolean (decide (n = 0xFFFF))) 2 m
      (StreamManager.readScalar rt loaders NetType.boolean.vt m) := by
  obtain ⟨hvalue, hmoved⟩ := readNumber_of_rest h
  refine ⟨_, ?_, hmoved⟩
  show Except.ok (NetValue.boolean (decide ((m.readNumber 2).1 = 0xFFFF)), (m.readNumber 2).2) = _
  rw [hvalue, Nat.mod_eq_of_lt (by omega)]

/-- INTERNAL: a decimal is read from its tag and its fourteen bytes. -/
theorem readScalar_netDecimal (rt : NetRuntime) (loaders : NetLoaders) (d : BitVec (8 * 14))
    {m : StreamManager} {tl : Bytes} (h : m.str.rest = decimalBytes d ++ tl) :
    Gives (.decimal d) 16 m (StreamManager.readScalar rt loaders vtDecimal m) := by
  have hlen : (decimalBytes d).length = 16 := by simp [decimalBytes]
  obtain ⟨hbytes, hmoved⟩ := readBytes_of_rest h hlen
  refine ⟨_, ?_, hmoved⟩
  show Except.ok (NetValue.decimal (BitVec.ofNat _ (ofLeBytes ((m.readBytes 16).1.drop 2))),
    (m.readBytes 16).2) = _
  have hdrop : (decimalBytes d).drop 2 = leBytes 14 d.toNat := List.drop_left' (length_leBytes 2 _)
  rw [hbytes, hdrop, ofNat_ofLeBytes_leBytes]

/-- INTERNAL: a string behind its tag. -/
theorem readScalar_string (rt : NetRuntime) (loaders : NetLoaders) {s : Bstr}
    (hw : WellFormedUtf16 s) (hfits : (stringBytes s).length < 0x7FFFF000) {m : StreamManager}
    {tl : Bytes} (h : m.str.rest = stringBytes s ++ tl) :
    Gives (.string s) (stringBytes s).length m (StreamManager.readScalar rt loaders vtBstr m) := by
  obtain ⟨m', hread, hmoved⟩ := readNetString_spec hw hfits h
  refine ⟨m', ?_, hmoved⟩
  show m.readString >>= _ = _
  rw [hread]
  rfl

/-! ## The header of an array -/

/-- INTERNAL: the bounds are read back. -/
theorem readNetBounds_spec (dims : List SafeArrayBound) {m : StreamManager} {tl : Bytes}
    (h : m.str.rest = dims.flatMap SafeArrayBound.bytes ++ tl) :
    (StreamManager.readBounds dims.length m).1 = dims ∧
      Moved m (dims.flatMap SafeArrayBound.bytes).length
        (StreamManager.readBounds dims.length m).2 := by
  induction dims generalizing m with
  | nil => exact ⟨rfl, Moved.refl m⟩
  | cons b dims ih =>
    rw [List.flatMap_cons, SafeArrayBound.bytes, List.append_assoc, List.append_assoc] at h
    have hcElements := ofNat_readNumber (n := 4) b.cElements h
    have hmoved := (readNumber_of_rest h).2
    have h' := hmoved.rest' (length_leBytes 4 _) h
    have hlLbound := ofNat_readNumber (n := 4) b.lLbound h'
    have hmoved' := (readNumber_of_rest h').2
    obtain ⟨hdims, hmoved''⟩ := ih (hmoved'.rest' (length_leBytes 4 _) h')
    have hall := (hmoved.trans hmoved').trans hmoved''
    constructor
    · show SafeArrayBound.mk (BitVec.ofNat 32 (m.readNumber 4).1)
        (BitVec.ofNat 32 ((m.readNumber 4).2.readNumber 4).1) ::
        (StreamManager.readBounds dims.length ((m.readNumber 4).2.readNumber 4).2).1 = _
      rw [hdims]
      congr 1
      exact SafeArrayBound.mk.injEq .. ▸ ⟨hcElements, hlLbound⟩
    · rw [List.flatMap_cons, List.length_append, SafeArrayBound.bytes, List.length_append,
        length_leBytes, length_leBytes]
      exact hall

/-- INTERNAL: the array types of a supported type have a rank. -/
theorem SupportedElement.ranked {t : NetType} (h : SupportedElement t) : Ranked t := by
  induction t with
  | vector element ih => exact ih h
  | array element rank ih => exact ⟨h.1, ih h.2⟩
  | _ => trivial

/-- The reader takes the element type for that of a jagged array. -/
def IsJagged (element : NetType) : Bool :=
  !isObjectType (elementVt element) && element.isArray

/-- INTERNAL: the array bit is taken away. -/
theorem elementVt_array {element : NetType} :
    elementVt (.vector element) = elementVt element ∧
      ∀ rank, elementVt (.array element rank) = elementVt element := by
  have h : ∀ x : VarType, (vtArray ||| (vtArray ||| x)) ^^^ vtArray = (vtArray ||| x) ^^^ vtArray := by
    intro x
    rw [← UInt16.or_assoc, UInt16.or_self]
  exact ⟨h _, fun _ => h _⟩

/-- INTERNAL: the tags of supported types. -/
theorem elementVt_cases {element : NetType} (h : SupportedElement element)
    (harray : element.isArray = false) :
    isObjectType (elementVt element) = decide (element = .object) ∧
      (element ≠ .object → convertEnumToType (elementVt element) = some element) := by
  cases element with
  | primitive p => cases p <;> decide
  | boolean => decide
  | decimal => decide
  | string => decide
  | object => decide
  | vector element => cases harray
  | array element rank => cases harray
  | _ => exact h.elim

/-- INTERNAL: the fields of a descriptor. -/
theorem descriptorBytes_fields (type : VarType) (elemSize dims : ℕ) :
    ((descriptorBytes type elemSize dims).drop 4).take 4 = leBytes 4 elemSize ∧
      (descriptorBytes type elemSize dims).drop 8 = leBytes 4 dims := by
  have hfront : (leBytes 2 type.toNat ++ leBytes 2 0).length = 4 := by simp
  constructor
  · rw [descriptorBytes, List.append_assoc, List.drop_left' hfront]
    exact List.take_left' (length_leBytes 4 _)
  · exact List.drop_left' (by simp)

/-- INTERNAL: the bytes of a descriptor. -/
@[simp] theorem length_descriptorBytes (type : VarType) (elemSize dims : ℕ) :
    (descriptorBytes type elemSize dims).length = 12 := by
  simp [descriptorBytes]

/-- INTERNAL: what `ReadValue` does behind the name of the element type. -/
def readDims (rt : NetRuntime) (loaders : NetLoaders)
    (rv : VarType → StreamManager → NetRun (NetValue × StreamManager)) (element : NetType)
    (dims : ℕ) (m : StreamManager) : NetRun (NetValue × StreamManager) := do
  let psa ← StreamManager.createInstance (some element) (StreamManager.readBounds dims m).1
  StreamManager.readCells rt loaders rv (elementVt element) (IsJagged element)
    (BitVec.ofNat 32 (getElementSize (elementVt element))) (StreamManager.readBounds dims m).1 psa
    (StreamManager.readBounds dims m).2

/-- INTERNAL: `ReadValue` of an array, up to the name. -/
theorem readArray_eq (rt : NetRuntime) (loaders : NetLoaders)
    (rv : VarType → StreamManager → NetRun (NetValue × StreamManager)) {element : NetType}
    {dims : List SafeArrayBound} (hdims : dims ≠ []) (hrank : dims.length ≤ 32)
    {m m₁ m₂ : StreamManager} {name : Bstr} (typeStr : Bstr)
    (hdescriptor : (m.readBytes 12).1 = descriptorBytes (vtArray ||| element.vt)
      (getElementSize (elementVt element)) dims.length)
    (hname : (m.readBytes 12).2.readString = .ok (name, m₁))
    (hjagged : (!isObjectType (elementVt element) && decide (name = Bstr.ofString "__jagged")) =
      IsJagged element)
    (htypeStr : (if IsJagged element then m₁.readString else pure (name, m₁)) = .ok (typeStr, m₂))
    (htype : (if isObjectType (elementVt element) || IsJagged element then rt.getType typeStr
      else convertEnumToType (elementVt element)) = some element) :
    StreamManager.readArray rt loaders rv (vtArray ||| element.vt) m =
      readDims rt loaders rv element dims.length m₂ := by
  obtain ⟨hElemSize, hDims⟩ := descriptorBytes_fields (vtArray ||| element.vt)
    (getElementSize (elementVt element)) dims.length
  have hpos : 0 < dims.length := List.length_pos_iff.mpr hdims
  have hcDims : (BitVec.ofNat 32 dims.length).toNat = dims.length := by
    rw [BitVec.toNat_ofNat, Nat.mod_eq_of_lt (by omega)]
  have hzero : BitVec.ofNat 32 dims.length ≠ 0 := by
    intro h
    have hnat : (0 : BitVec 32).toNat = 0 := rfl
    rw [h, hnat] at hcDims
    omega
  have hslt := not_slt_zero (by omega : dims.length < 2 ^ 31)
  have hvt : (vtArray ||| element.vt) ^^^ vtArray = elementVt element := rfl
  unfold StreamManager.readArray
  simp only [hvt, hdescriptor, hElemSize, hDims, bitVec32_ofLeBytes_leBytes, hname, NetRun.ok_bind,
    hjagged]
  cases hcase : IsJagged element with
  | true =>
    rw [hcase, if_pos rfl] at htypeStr
    rw [hcase] at htype
    simp only [if_true, htypeStr, NetRun.ok_bind, htype, if_neg hzero, hslt, Bool.false_eq_true,
      if_false, hcDims]
    rw [readDims, hcase]
  | false =>
    rw [hcase, if_neg (by decide)] at htypeStr
    rw [hcase] at htype
    simp only [Bool.false_eq_true, if_false, htypeStr, NetRun.ok_bind, htype, if_neg hzero, hslt,
      hcDims]
    rw [readDims, hcase]

/-- INTERNAL: the name names the element type. -/
theorem readArray_name (rt : NetRuntime) (loaders : NetLoaders)
    (rv : VarType → StreamManager → NetRun (NetValue × StreamManager)) {element : NetType}
    (h : SupportedElement element) {dims : List SafeArrayBound} (hdims : dims ≠ [])
    (hrank : dims.length ≤ 32) {m : StreamManager} {tl : Bytes}
    (hfits : (typeNameBytes rt element).length < 0x7FFFF000)
    (hrest : m.str.rest = descriptorBytes (vtArray ||| element.vt)
      (getElementSize (elementVt element)) dims.length ++ (typeNameBytes rt element ++ tl)) :
    ∃ m', StreamManager.readArray rt loaders rv (vtArray ||| element.vt) m =
        readDims rt loaders rv element dims.length m' ∧
      Moved m (12 + (typeNameBytes rt element).length) m' := by
  obtain ⟨hdescriptor, hmoved⟩ := readBytes_of_rest hrest (length_descriptorBytes ..)
  have hbehind := hmoved.rest' (length_descriptorBytes ..) hrest
  unfold typeNameBytes at hfits hbehind ⊢
  by_cases hobject : isObjectType (elementVt element) = true
  · rw [if_pos hobject] at hfits hbehind ⊢
    obtain ⟨m₁, hname, hmoved₁⟩ := readNetString_spec
      (wellFormedUtf16_ascii (ascii_assemblyQualifiedName rt element)) hfits hbehind
    have hjagged : IsJagged element = false := by rw [IsJagged, hobject]; rfl
    refine ⟨m₁, readArray_eq rt loaders rv hdims hrank
      (rt.assemblyQualifiedName element) hdescriptor hname ?_ ?_ ?_, hmoved.trans hmoved₁⟩
    · rw [IsJagged, hobject]
      rfl
    · rw [hjagged]
      rfl
    · rw [hobject]
      exact getType_assemblyQualifiedName rt h.ranked
  · rw [if_neg hobject] at hfits hbehind ⊢
    have hobject' : isObjectType (elementVt element) = false := Bool.eq_false_iff.mpr hobject
    by_cases harray : element.isArray = true
    · rw [if_pos harray] at hfits hbehind ⊢
      rw [List.append_assoc] at hbehind
      rw [List.length_append] at hfits ⊢
      have hjagged : IsJagged element = true := by rw [IsJagged, hobject', harray]; rfl
      obtain ⟨m₁, hname, hmoved₁⟩ := readNetString_spec (wellFormedUtf16_ascii (by decide))
        (by omega) hbehind
      obtain ⟨m₂, htypeStr, hmoved₂⟩ := readNetString_spec
        (wellFormedUtf16_ascii (ascii_fullName element)) (by omega) (hmoved₁.rest hbehind)
      refine ⟨m₂, readArray_eq rt loaders rv hdims hrank element.fullName hdescriptor hname ?_ ?_ ?_,
        ?_⟩
      · rw [hjagged, hobject']
        rfl
      · rw [hjagged]
        exact htypeStr
      · rw [hjagged, hobject']
        exact getType_fullName rt h.ranked
      · rw [← Nat.add_assoc]
        exact (hmoved.trans hmoved₁).trans hmoved₂
    · rw [if_neg harray] at hfits hbehind ⊢
      have harray' : element.isArray = false := Bool.eq_false_iff.mpr harray
      have hjagged : IsJagged element = false := by rw [IsJagged, harray', Bool.and_false]
      obtain ⟨hkind, hconvert⟩ := elementVt_cases h harray'
      obtain ⟨m₁, hname, hmoved₁⟩ := readNetString_spec (wellFormedUtf16_ascii (by decide)) hfits
        hbehind
      refine ⟨m₁, readArray_eq rt loaders rv hdims hrank [] hdescriptor hname ?_ ?_ ?_,
        hmoved.trans hmoved₁⟩
      · rw [hjagged, hobject']
        rfl
      · rw [hjagged]
        rfl
      · rw [hjagged, hobject']
        refine hconvert fun heq => ?_
        rw [hkind, heq] at hobject'
        exact absurd hobject' (by decide)

/-- **The header of an array is read back**: what is left are the cells of a new array. -/
theorem readNetHeader_spec (rt : NetRuntime) (loaders : NetLoaders)
    (rv : VarType → StreamManager → NetRun (NetValue × StreamManager)) {element : NetType}
    (h : SupportedElement element) (b : ArrayBounds) {m : StreamManager} {tl : Bytes}
    (hfits : (netHeaderBytes rt element b.dims).length < 0x7FFFF000)
    (hrest : m.str.rest = netHeaderBytes rt element b.dims ++ tl) :
    ∃ m', StreamManager.readArray rt loaders rv (vtArray ||| element.vt) m =
        StreamManager.readCells rt loaders rv (elementVt element) (IsJagged element)
          (BitVec.ofNat 32 (getElementSize (elementVt element))) b.dims
          (StreamManager.blankArray element b) m' ∧
      Moved m (netHeaderBytes rt element b.dims).length m' := by
  rw [netHeaderBytes, List.length_append, List.length_append, length_descriptorBytes] at hfits ⊢
  rw [netHeaderBytes, List.append_assoc, List.append_assoc] at hrest
  obtain ⟨m₁, hread, hmoved₁⟩ := readArray_name rt loaders rv h b.valid.1 b.valid.2.1
    (by omega) hrest
  have hrest₁ : m₁.str.rest = b.dims.flatMap SafeArrayBound.bytes ++ tl := by
    rw [← List.append_assoc] at hrest
    exact hmoved₁.rest' (by rw [List.length_append, length_descriptorBytes]) hrest
  obtain ⟨hdims, hmoved₂⟩ := readNetBounds_spec b.dims hrest₁
  refine ⟨_, ?_, by rw [← Nat.add_assoc]; exact hmoved₁.trans hmoved₂⟩
  have hcreate : StreamManager.createInstance (some element) b.dims =
      .ok (StreamManager.blankArray element b) := dif_pos b.valid
  rw [hread, readDims, hdims, hcreate]
  rfl

/-! ## The cells -/

/-- INTERNAL: a piece of a memory image. -/
theorem take_drop_flatMap {α : Type} (f : α → Bytes) {size : ℕ} (hf : ∀ a, (f a).length = size)
    (l : List α) (i : ℕ) (hi : i < l.length) :
    ((l.flatMap f).drop (size * i)).take size = f l[i] := by
  induction l generalizing i with
  | nil => exact absurd hi (Nat.not_lt_zero i)
  | cons a l ih =>
    cases i with
    | zero => exact List.take_left' (hf a)
    | succ i =>
      have hdrop : (List.flatMap f (a :: l)).drop (size * (i + 1)) = (l.flatMap f).drop (size * i) := by
        rw [List.flatMap_cons, Nat.mul_succ, Nat.add_comm, ← List.drop_drop,
          List.drop_left' (hf a)]
      rw [hdrop]
      exact ih i (Nat.lt_of_succ_lt_succ hi)

/-- **A block copy over all cells replaces them.** -/
theorem copiedCells_memoryImage {n : ℕ} (size : ℕ) (cells cells' : Fin n → BitVec (8 * size)) :
    StreamManager.copiedCells size cells (memoryImage size cells') = cells' := by
  funext i
  have hover : overlay (memoryImage size cells) (memoryImage size cells') =
      memoryImage size cells' :=
    overlay_of_length_le (by rw [length_memoryImage, length_memoryImage])
  have hcell : ((memoryImage size cells').drop (size * i)).take size =
      leBytes size (cells' i).toNat := by
    rw [memoryImage, take_drop_flatMap _ (fun bits => length_leBytes size _) _ i (by simp)]
    simp
  show BitVec.ofNat _ (ofLeBytes (((overlay (memoryImage size cells)
    (memoryImage size cells')).drop (size * i)).take size)) = _
  rw [hover, hcell, ofNat_ofLeBytes_leBytes]

/-- INTERNAL: the type of an array of primitives is one of a block. -/
theorem isBlockType_primitive (p : PrimitiveType) :
    isBlockType p.vt = true ∧ IsJagged (.primitive p) = false := by
  cases p <;> exact ⟨by decide, by decide⟩

/-- INTERNAL: without cells nothing is read. -/
theorem readCells_of_empty (rt : NetRuntime) (loaders : NetLoaders)
    (rv : VarType → StreamManager → NetRun (NetValue × StreamManager)) (vT : VarType)
    (isJagged : Bool) (elSize : BitVec 32) {b : ArrayBounds} (h : b.count = 0) (psa : NetValue)
    (m : StreamManager) :
    StreamManager.readCells rt loaders rv vT isJagged elSize b.dims psa m = .ok (psa, m) := by
  have hzero : longProduct b.dims = 0 := by
    apply BitVec.eq_of_toNat_eq
    rw [toNat_longProduct_dims, h]
    rfl
  exact if_pos hzero

/-- INTERNAL: the test for cells. -/
theorem longProduct_ne_zero {b : ArrayBounds} (h : 0 < b.count) : ¬ longProduct b.dims = 0 := by
  intro hzero
  have hnat := toNat_longProduct_dims b
  rw [hzero] at hnat
  have hzero' : (0 : BitVec 32).toNat = 0 := rfl
  omega

/-- INTERNAL: an array without cells has no others. -/
theorem cells_of_empty {α : Type} {b : ArrayBounds} (h : b.count = 0) (cells cells' : Fin b.count → α) :
    cells = cells' := by
  funext i
  exact absurd i.isLt (by omega)

/-- INTERNAL: the cells of an array of primitives. -/
theorem readPrimitives_spec (rt : NetRuntime) (loaders : NetLoaders)
    (rv : VarType → StreamManager → NetRun (NetValue × StreamManager)) {p : PrimitiveType}
    {b : ArrayBounds} {cells : Fin b.count → BitVec (8 * p.size)} (blank : Fin b.count → BitVec (8 * p.size))
    (hw : NetWritable (.primitiveArray p b cells)) {m : StreamManager} {tl : Bytes}
    (hfits : (memoryImage p.size cells).length < 0x7FFFF000)
    (hrest : m.str.rest = memoryImage p.size cells ++ tl) :
    Gives (.primitiveArray p b cells) (memoryImage p.size cells).length m
      (StreamManager.readCells rt loaders rv p.vt false (BitVec.ofNat 32 (getElementSize p.vt))
        b.dims (.primitiveArray p b blank) m) := by
  have hlen := length_memoryImage p.size cells
  rw [hlen] at hfits ⊢
  rcases Nat.eq_zero_or_pos b.count with hzero | hpos
  · refine ⟨m, ?_, by rw [hzero, Nat.zero_mul]; exact Moved.refl m⟩
    rw [readCells_of_empty rt loaders rv _ _ _ hzero, cells_of_empty hzero blank cells]
  obtain ⟨hnat, hslt⟩ := toNat_mul_size b (by omega : b.count * p.size < 2 ^ 31)
  have hsize : longProduct b.dims * BitVec.ofNat 32 p.size = BitVec.ofNat 32 (b.count * p.size) := by
    apply BitVec.eq_of_toNat_eq
    rw [hnat, BitVec.toNat_ofNat, Nat.mod_eq_of_lt (by omega)]
  unfold StreamManager.readCells
  simp only [getElementSize_vt, if_neg (longProduct_ne_zero hpos), (isBlockType_primitive p).1,
    Bool.not_false, Bool.and_self, if_true]
  by_cases hbyte : p.vt = PrimitiveType.byte.vt ∧ b.dims.length = 1
  · obtain rfl : p = .byte := by
      cases p <;> first | rfl | exact absurd hbyte.1 (by decide)
    have hvector : b.isVector = true := hw ⟨rfl, hbyte.2⟩
    have hread := CStream.read_of_rest' hrest hlen
    refine ⟨{ m with str := m.str.advance _ }, ?_, rfl, rfl⟩
    rw [if_pos hbyte, StreamManager.readIntoBytes, hvector, hslt, hnat]
    simp only [Bool.not_true, Bool.false_eq_true, if_false, hread, copiedCells_memoryImage]
    rw [if_neg (by simp [PrimitiveType.size])]
  · rw [if_neg hbyte, hsize]
    obtain ⟨m', hread, hmoved⟩ := readBlock_of_rest hrest hlen hfits
    refine ⟨m', ?_, hmoved⟩
    rw [hread, NetRun.ok_bind]
    simp only [StreamManager.blockCopy, hlen, Nat.lt_irrefl, if_false, NetRun.ok_bind,
      copiedCells_memoryImage]
    rfl

/-- INTERNAL: index vectors that are visited with a cell for each fill these cells. -/
theorem sweep_reads {α : Type} {rt : NetRuntime} {b : ArrayBounds}
    {read : StreamManager → NetRun (NetValue × StreamManager)}
    {wrap : (Fin b.count → α) → NetValue} {value : Fin b.count → NetValue}
    {bs : Fin b.count → Bytes} {cells' : Fin b.count → α}
    (hset : ∀ cells i rgIndices, b.cell rgIndices = some i →
      StreamManager.setValue rt (value i) rgIndices (wrap cells) =
        .ok (wrap (Function.update cells i (cells' i))))
    (hread : ∀ i m tl, m.str.rest = bs i ++ tl → Gives (value i) (bs i).length m (read m))
    (vectors : List (List (BitVec 32))) (hcells : ∀ v ∈ vectors, ∃ i, b.cell v = some i)
    (cells : Fin b.count → α) {m : StreamManager} {tl : Bytes}
    (hrest : m.str.rest = (vectors.filterMap b.cell).flatMap bs ++ tl) :
    ∃ cells'', (∀ i ∈ vectors.filterMap b.cell, cells'' i = cells' i) ∧
      (∀ i ∉ vectors.filterMap b.cell, cells'' i = cells i) ∧
      Gives (wrap cells'') ((vectors.filterMap b.cell).flatMap bs).length m
        (Odometer.sweep (fun _ => true) (StreamManager.readCell rt read) vectors (wrap cells, m)) := by
  induction vectors generalizing cells m with
  | nil => exact ⟨cells, fun i hi => (by cases hi), fun _ _ => rfl, m, rfl, Moved.refl m⟩
  | cons v vectors ih =>
    obtain ⟨i, hi⟩ := hcells v (by simp)
    rw [List.filterMap_cons_some hi, List.flatMap_cons, List.append_assoc] at hrest
    obtain ⟨m₁, hvalue, hmoved₁⟩ := hread i m _ hrest
    obtain ⟨cells'', hvisited, hothers, m₂, hsweep, hmoved₂⟩ :=
      ih (fun w hw => hcells w (by simp [hw])) (Function.update cells i (cells' i))
        (hmoved₁.rest hrest)
    have hstep : StreamManager.readCell rt read v (wrap cells, m) =
        .ok (wrap (Function.update cells i (cells' i)), m₁) := by
      show read m >>= _ = _
      rw [hvalue, NetRun.ok_bind]
      show StreamManager.setValue rt (value i) v (wrap cells) >>= _ = _
      rw [hset cells i v hi]
      rfl
    rw [List.filterMap_cons_some hi]
    refine ⟨cells'', fun j hj => ?_, fun j hj => ?_, m₂, ?_, ?_⟩
    · by_cases hmem : j ∈ vectors.filterMap b.cell
      · exact hvisited j hmem
      · rw [hothers j hmem, (List.mem_cons.mp hj).resolve_right hmem, Function.update_self]
    · rw [List.mem_cons, not_or] at hj
      rw [hothers j hj.2, Function.update_of_ne hj.1]
    · rw [Odometer.sweep, if_pos rfl, hstep]
      exact hsweep
    · rw [List.flatMap_cons, List.length_append]
      exact hmoved₁.trans hmoved₂

/-- **The cells of an array are read in the order in which they are written.** -/
theorem readCells_spec {α : Type} {rt : NetRuntime} {loaders : NetLoaders}
    {rv : VarType → StreamManager → NetRun (NetValue × StreamManager)} {vT : VarType}
    {isJagged : Bool} {elSize : BitVec 32} {b : ArrayBounds}
    (read : StreamManager → NetRun (NetValue × StreamManager))
    (wrap : (Fin b.count → α) → NetValue) (value : Fin b.count → NetValue)
    (bs : Fin b.count → Bytes) (blank cells : Fin b.count → α)
    (hloop : 0 < b.count → ∀ psa m,
      StreamManager.readCells rt loaders rv vT isJagged elSize b.dims psa m =
        walkCells carryLoop (StreamManager.readCell rt read) b.dims (longProduct b.dims) (psa, m))
    (hset : ∀ cells' i rgIndices, b.cell rgIndices = some i →
      StreamManager.setValue rt (value i) rgIndices (wrap cells') =
        .ok (wrap (Function.update cells' i (cells i))))
    (hread : ∀ i m tl, m.str.rest = bs i ++ tl → Gives (value i) (bs i).length m (read m))
    (hwalk : 0 < b.count → Walkable b.dims) {m : StreamManager} {tl : Bytes}
    (hrest : m.str.rest = (cellOrder b).flatMap bs ++ tl) :
    Gives (wrap cells) ((cellOrder b).flatMap bs).length m
      (StreamManager.readCells rt loaders rv vT isJagged elSize b.dims (wrap blank) m) := by
  rcases Nat.eq_zero_or_pos b.count with hzero | hpos
  · rw [readCells_of_empty rt loaders _ _ _ _ hzero, cellOrder_of_empty hzero,
      cells_of_empty hzero blank cells]
    exact ⟨m, rfl, Moved.refl m⟩
  · obtain ⟨cells', hvisited, -, m', hsweep, hmoved⟩ :=
      sweep_reads hset hread (visitOrder b) (fun v hv => exists_cell hv) blank hrest
    have hcells : cells' = cells := by
      funext i
      exact hvisited i (mem_cellOrder i)
    rw [hcells] at hsweep
    refine ⟨m', ?_, hmoved⟩
    rw [hloop hpos, walkCells_of_walkable cellLoop_carryLoop _ hpos (hwalk hpos)]
    exact hsweep

/-! ## Values -/

/-- INTERNAL: an array and its parts have the same type before and after. -/
theorem type_loadedAs {v : NetValue} (h : v.type ≠ some (.primitive .byte)) :
    (loadedAs v).type = v.type := by
  cases v with
  | primitive p bits =>
    cases p with
    | byte => exact absurd rfl h
    | _ => rfl
  | _ => rfl

/-- INTERNAL: what comes back can stand where the value stood. -/
theorem conforms_loadedAs {element : NetType} {v : NetValue}
    (helement : element = .object ∨ element.isArray = true)
    (h : StreamManager.conforms element v = true) :
    StreamManager.conforms element (loadedAs v) = true := by
  rcases helement with rfl | harray
  · unfold StreamManager.conforms
    split
    · rfl
    · unfold NetType.assignableTo
      rfl
  · have hbyte : v.type ≠ some (.primitive .byte) := by
      intro heq
      rw [StreamManager.conforms, heq] at h
      cases element with
      | vector element => simp [NetType.assignableTo] at h
      | array element rank => simp [NetType.assignableTo] at h
      | _ => exact absurd harray (by simp [NetType.isArray])
    rw [StreamManager.conforms, type_loadedAs hbyte]
    exact h

/-- INTERNAL: the tag of an array has the array bit. -/
theorem vt_arrayType (element : NetType) (b : ArrayBounds) :
    (NetValue.arrayType element b).vt = vtArray ||| element.vt := by
  unfold NetValue.arrayType
  split <;> rfl

/-- INTERNAL: the test of the array bit. -/
theorem array_and_array (x : VarType) : (vtArray ||| x) &&& vtArray = vtArray := by
  rw [UInt16.and_comm]
  apply UInt16.toBitVec_inj.mp
  ext i
  simpa using Or.inl

/-- INTERNAL: an array behind its tag. -/
theorem readValue_array (rt : NetRuntime) (loaders : NetLoaders) (fuel : ℕ) {element : NetType}
    (h : SupportedElement element) (b : ArrayBounds) {v : NetValue} {cells : Bytes}
    {m : StreamManager} {tl : Bytes} (hfits : (netHeaderBytes rt element b.dims).length < 0x7FFFF000)
    (hrest : m.str.rest = netHeaderBytes rt element b.dims ++ cells ++ tl)
    (hcells : ∀ m', m'.str.rest = cells ++ tl → Gives v cells.length m'
      (StreamManager.readCells rt loaders (StreamManager.readValue rt loaders fuel)
        (elementVt element) (IsJagged element) (BitVec.ofNat 32 (getElementSize (elementVt element)))
        b.dims (StreamManager.blankArray element b) m')) :
    Gives v (netHeaderBytes rt element b.dims ++ cells).length m
      (StreamManager.readValue rt loaders (fuel + 1) (NetValue.arrayType element b).vt m) := by
  rw [List.append_assoc] at hrest
  obtain ⟨m₁, hread, hmoved₁⟩ := readNetHeader_spec rt loaders
    (StreamManager.readValue rt loaders fuel) h b hfits hrest
  obtain ⟨m₂, hread₂, hmoved₂⟩ := hcells m₁ (hmoved₁.rest hrest)
  refine ⟨m₂, ?_, by rw [List.length_append]; exact hmoved₁.trans hmoved₂⟩
  rw [vt_arrayType, StreamManager.readValue, if_pos (array_and_array _), hread, hread₂]

/-- INTERNAL: a loop over cells of one of the tags that are read without one. -/
theorem readCells_plain {rt : NetRuntime} {loaders : NetLoaders}
    {rv : VarType → StreamManager → NetRun (NetValue × StreamManager)} {vT : VarType}
    (hvT : vT = vtBstr ∨ vT = vtDecimal) {elSize : BitVec 32} {b : ArrayBounds} (hpos : 0 < b.count)
    (hcount : b.count < 2 ^ 31) (psa : NetValue) (m : StreamManager) :
    StreamManager.readCells rt loaders rv vT false elSize b.dims psa m =
      walkCells carryLoop (StreamManager.readCell rt (StreamManager.readScalar rt loaders vT)) b.dims
        (longProduct b.dims) (psa, m) := by
  have hblock : isBlockType vT = false := by rcases hvT with rfl | rfl <;> decide
  unfold StreamManager.readCells
  simp only [if_neg (longProduct_ne_zero hpos), hblock, Bool.not_false, Bool.and_false,
    Bool.false_eq_true, if_false, zero_slt_longProduct hcount, hpos, decide_true, hvT, Bool.and_self,
    if_true]

/-- INTERNAL: a supported object type is a variant's. -/
theorem SupportedElement.variant {t : NetType} (h : SupportedElement t)
    (hobject : isObjectType (elementVt t) = true) : elementVt t = vtVariant := by
  induction t with
  | vector element ih =>
    rw [elementVt_array.1] at hobject ⊢
    exact ih h hobject
  | array element rank ih =>
    rw [elementVt_array.2] at hobject ⊢
    exact ih h.2 hobject
  | primitive p => cases p <;> exact absurd hobject (by decide)
  | object => decide
  | boolean => exact absurd hobject (by decide)
  | decimal => exact absurd hobject (by decide)
  | string => exact absurd hobject (by decide)
  | _ => exact h.elim

/-- INTERNAL: a loop over cells with tags. -/
theorem readCells_tagged {rt : NetRuntime} {loaders : NetLoaders}
    {rv : VarType → StreamManager → NetRun (NetValue × StreamManager)} {element : NetType}
    (h : SupportedElement element)
    (helement : element = .object ∨ element.isArray = true)
    {elSize : BitVec 32} {b : ArrayBounds} (hpos : 0 < b.count) (hcount : b.count < 2 ^ 31)
    (psa : NetValue) (m : StreamManager) :
    StreamManager.readCells rt loaders rv (elementVt element) (IsJagged element) elSize b.dims psa m =
      walkCells carryLoop (StreamManager.readCell rt (StreamManager.readTagged rv)) b.dims
        (longProduct b.dims) (psa, m) := by
  unfold StreamManager.readCells
  simp only [if_neg (longProduct_ne_zero hpos)]
  cases hjagged : IsJagged element with
  | true => simp only [Bool.not_true, Bool.false_and, Bool.false_eq_true, if_false, Bool.true_or, if_true]
  | false =>
    have hobject : isObjectType (elementVt element) = true := by
      rcases helement with rfl | harray
      · decide
      · rw [IsJagged, harray, Bool.and_true, Bool.not_eq_false'] at hjagged
        exact hjagged
    have hvt := h.variant hobject
    have hslt : (0#32).slt (longProduct b.dims) = true := by
      rw [zero_slt_longProduct hcount, decide_eq_true hpos]
    have hblock : isBlockType vtVariant = false := by decide
    have hplain : ¬ (vtVariant = vtBstr ∨ vtVariant = vtDecimal) := by decide
    simp only [hvt, hblock, hplain, hslt, Bool.and_false, decide_false, decide_true, true_or,
      Bool.and_self, Bool.or_true, Bool.false_eq_true, if_false, if_true]

/-- What `ReadValue` is to do with the bytes of a value. -/
def NetReadSpec (rt : NetRuntime) (loaders : NetLoaders) (v : NetValue) : Prop :=
  ∀ fuel m tl, (netValueBytes rt v).length < fuel → m.str.rest = netValueBytes rt v ++ tl →
    Gives (loadedAs v) (netValueBytes rt v).length m
      (StreamManager.readValue rt loaders fuel v.vt m)

/-- INTERNAL: a value without the array bit. -/
theorem NetReadSpec.of_scalar {rt : NetRuntime} {loaders : NetLoaders} {v : NetValue}
    (hvt : ¬ v.vt &&& vtArray = vtArray)
    (h : ∀ m tl, m.str.rest = netValueBytes rt v ++ tl →
      Gives (loadedAs v) (netValueBytes rt v).length m (StreamManager.readScalar rt loaders v.vt m)) :
    NetReadSpec rt loaders v := by
  intro fuel m tl hfuel hrest
  obtain ⟨fuel, rfl⟩ := Nat.exists_eq_succ_of_ne_zero (Nat.ne_zero_of_lt hfuel)
  obtain ⟨m', hread, hmoved⟩ := h m tl hrest
  exact ⟨m', by rw [StreamManager.readValue, if_neg hvt, hread], hmoved⟩

/-- INTERNAL: an array that is read when its cells are. -/
theorem NetReadSpec.of_cells {rt : NetRuntime} {loaders : NetLoaders} {v : NetValue}
    (element : NetType) (h : SupportedElement element) {b : ArrayBounds} {cells : Bytes}
    (hvt : v.vt = (NetValue.arrayType element b).vt) (hfits : NetFits rt v)
    (hbytes : netValueBytes rt v = netHeaderBytes rt element b.dims ++ cells)
    (hcells : ∀ fuel, cells.length < fuel → ∀ m tl, m.str.rest = cells ++ tl →
      Gives (loadedAs v) cells.length m (StreamManager.readCells rt loaders
        (StreamManager.readValue rt loaders fuel) (elementVt element) (IsJagged element)
        (BitVec.ofNat 32 (getElementSize (elementVt element))) b.dims
        (StreamManager.blankArray element b) m)) :
    NetReadSpec rt loaders v := by
  intro fuel m tl hfuel hrest
  unfold NetFits at hfits
  have hheader : 12 ≤ (netHeaderBytes rt element b.dims).length := by
    rw [netHeaderBytes, List.length_append, length_descriptorBytes]
    omega
  rw [hbytes] at hfits hfuel hrest ⊢
  rw [List.length_append] at hfits hfuel
  obtain ⟨fuel, rfl⟩ := Nat.exists_eq_succ_of_ne_zero (Nat.ne_zero_of_lt hfuel)
  rw [hvt]
  exact readValue_array rt loaders fuel h b (by omega) hrest fun m' hrest' =>
    hcells fuel (by omega) m' tl hrest'

/-- INTERNAL: an array of decimals. -/
theorem readDecimals_spec {rt : NetRuntime} (loaders : NetLoaders) {b : ArrayBounds}
    {cells : Fin b.count → BitVec (8 * 14)} (hw : NetWritable (.decimalArray b cells))
    (hfits : NetFits rt (.decimalArray b cells)) :
    NetReadSpec rt loaders (.decimalArray b cells) := by
  have hcells := hfits.cells rfl
  have hlen : ∀ d, (decimalBytes d).length = 16 := fun d => by simp [decimalBytes]
  have hcount := count_le_length (fun i => decimalBytes (cells i)) fun i => by rw [hlen]; decide
  refine .of_cells .decimal trivial rfl hfits rfl fun fuel _ m tl hrest => ?_
  refine readCells_spec (StreamManager.readScalar rt loaders vtDecimal) (NetValue.decimalArray b)
    (fun i => .decimal (cells i))
    (fun i => decimalBytes (cells i)) (fun _ => 0) cells ?_ ?_ ?_ hw hrest
  · exact fun hpos psa m => readCells_plain (.inr rfl) hpos (by omega) psa m
  · exact fun cells' i rgIndices hi => by simp only [StreamManager.setValue, hi]
  · exact fun i m tl h => by rw [hlen]; exact readScalar_netDecimal rt loaders (cells i) h

/-- INTERNAL: an array of strings. -/
theorem readNetStrings_spec {rt : NetRuntime} (loaders : NetLoaders) {b : ArrayBounds}
    {cells : Fin b.count → Option Bstr} (h : NetSupported (.stringArray b cells))
    (hw : NetWritable (.stringArray b cells)) (hfits : NetFits rt (.stringArray b cells)) :
    NetReadSpec rt loaders (.stringArray b cells) := by
  have hcells := hfits.cells rfl
  have hcount := count_le_length (fun i => stringBytes ((cells i).getD [])) fun i => by
    simp [stringBytes]
  refine .of_cells .string trivial rfl hfits rfl fun fuel _ m tl hrest => ?_
  refine readCells_spec (StreamManager.readScalar rt loaders vtBstr) (NetValue.stringArray b)
    (fun i => .string ((cells i).getD []))
    (fun i => stringBytes ((cells i).getD [])) (fun _ => none) (fun i => some ((cells i).getD []))
    ?_ ?_ ?_ hw hrest
  · exact fun hpos psa m => readCells_plain (.inl rfl) hpos (by omega) psa m
  · exact fun cells' i rgIndices hi => by simp only [StreamManager.setValue, hi]
  · exact fun i m tl hrest => readScalar_string rt loaders (h i)
      ((length_le_length_flatMap (fun i => stringBytes ((cells i).getD []))
        (mem_cellOrder i)).trans_lt hcells) hrest

/-- INTERNAL: a cell with its tag. -/
theorem NetReadSpec.tagged {rt : NetRuntime} {loaders : NetLoaders} {v : NetValue}
    (h : NetReadSpec rt loaders v) {fuel : ℕ} (hfuel : (netValueBytes rt v).length < fuel)
    {m : StreamManager} {tl : Bytes}
    (hrest : m.str.rest = leBytes 2 v.vt.toNat ++ netValueBytes rt v ++ tl) :
    Gives (loadedAs v) (leBytes 2 v.vt.toNat ++ netValueBytes rt v).length m
      (StreamManager.readTagged (StreamManager.readValue rt loaders fuel) m) := by
  rw [List.append_assoc] at hrest
  obtain ⟨hvalue, hmoved⟩ := readNumber_of_rest hrest
  obtain ⟨m', hread, hmoved'⟩ := h fuel _ tl hfuel (hmoved.rest' (length_leBytes 2 _) hrest)
  have hvt : UInt16.ofNat (m.readNumber 2).1 = v.vt := by
    rw [hvalue, ← ofLeBytes_leBytes, uint16_ofLeBytes_leBytes]
  refine ⟨m', ?_, by rw [List.length_append, length_leBytes]; exact hmoved.trans hmoved'⟩
  show StreamManager.readValue rt loaders fuel (UInt16.ofNat (m.readNumber 2).1)
    (m.readNumber 2).2 = _
  rw [hvt, hread]

/-- INTERNAL: an array of objects or of arrays. -/
theorem readObjects_spec {rt : NetRuntime} {loaders : NetLoaders} {element : NetType}
    {b : ArrayBounds} {cells : Fin b.count → NetValue} (h : NetSupported (.array element b cells))
    (hw : NetWritable (.array element b cells)) (hfits : NetFits rt (.array element b cells))
    (ih : ∀ i, NetReadSpec rt loaders (cells i)) :
    NetReadSpec rt loaders (.array element b cells) := by
  obtain ⟨hsupported, helement, hconforms⟩ := h
  have hcells := hfits.cells rfl
  have hcount := count_le_length
    (fun i => leBytes 2 (cells i).vt.toNat ++ netValueBytes rt (cells i)) fun i => by simp
  have hblank : StreamManager.blankArray element b = .array element b fun _ => .null := by
    rcases helement with rfl | harray
    · rfl
    · cases element <;> first | rfl | exact absurd harray (by simp [NetType.isArray])
  refine .of_cells _ hsupported rfl hfits rfl fun fuel hfuel m tl hrest => ?_
  rw [hblank]
  refine readCells_spec (StreamManager.readTagged (StreamManager.readValue rt loaders fuel))
    (NetValue.array element b) (fun i => loadedAs (cells i))
    (fun i => leBytes 2 (cells i).vt.toNat ++ netValueBytes rt (cells i)) (fun _ => .null)
    (fun i => loadedAs (cells i)) ?_ ?_ ?_ hw.2.1 hrest
  · exact fun hpos psa m => readCells_tagged hsupported helement hpos (by omega) psa m
  · intro cells' i rgIndices hi
    simp only [StreamManager.setValue, hi, conforms_loadedAs helement (hconforms i).1, if_true]
  · intro i m tl hrest
    have hlen := length_le_length_flatMap
      (fun i => leBytes 2 (cells i).vt.toNat ++ netValueBytes rt (cells i)) (mem_cellOrder i)
    rw [List.length_append] at hlen
    exact (ih i).tagged (by omega) hrest

/-- **`ReadValue` reads a value back from its bytes.** -/
theorem readNetValue_spec {rt : NetRuntime} (loaders : NetLoaders) {v : NetValue}
    (h : NetSupported v) (hw : NetWritable v) (hfits : NetFits rt v) : NetReadSpec rt loaders v := by
  induction v with
  | null => exact .of_scalar (by decide) fun m tl _ => ⟨m, rfl, Moved.refl m⟩
  | dbNull => exact .of_scalar (by decide) fun m tl _ => ⟨m, rfl, Moved.refl m⟩
  | boolean b =>
    refine .of_scalar (by decide : ¬ NetType.boolean.vt &&& vtArray = vtArray) fun m tl hrest => ?_
    have hread := readScalar_boolean rt loaders (by cases b <;> decide) hrest
    cases b with
    | true => exact hread
    | false => exact hread
  | primitive p bits =>
    have hvt : ¬ p.vt &&& vtArray = vtArray := by cases p <;> decide
    refine .of_scalar hvt fun m tl hrest => ?_
    by_cases hp : p = .byte
    · subst hp
      exact readScalar_byte rt loaders bits hrest
    · have hsame : loadedAs (.primitive p bits) = .primitive p bits := by
        cases p with
        | byte => exact absurd rfl hp
        | _ => rfl
      rw [hsame, netValueBytes, length_leBytes]
      exact readScalar_primitive rt loaders hp bits hrest
  | decimal d =>
    exact .of_scalar (by decide : ¬ vtDecimal &&& vtArray = vtArray) fun m tl hrest =>
      readScalar_netDecimal rt loaders d hrest
  | string s =>
    exact .of_scalar (by decide : ¬ vtBstr &&& vtArray = vtArray) fun m tl hrest =>
      readScalar_string rt loaders h hfits hrest
  | dateTime d => exact h.elim
  | currency c => exact h.elim
  | object o => exact h.elim
  | primitiveArray p b cells =>
    refine .of_cells (.primitive p) trivial rfl hfits rfl fun fuel _ m tl hrest => ?_
    rw [elementVt_primitive, (isBlockType_primitive p).2]
    exact readPrimitives_spec rt loaders _ (fun _ => 0) hw (hfits.cells rfl) hrest
  | booleanArray b cells =>
    have hzero : b.count = 0 := hw
    refine .of_cells .boolean trivial rfl hfits rfl fun fuel _ m tl hrest => ?_
    rw [readCells_of_empty rt loaders _ _ _ _ hzero, List.length_map, List.length_ofFn, hzero]
    exact ⟨m, by rw [StreamManager.blankArray, cells_of_empty hzero (fun _ => false) cells]; rfl,
      Moved.refl m⟩
  | decimalArray b cells => exact readDecimals_spec loaders hw hfits
  | stringArray b cells => exact readNetStrings_spec loaders h hw hfits
  | array element b cells ih =>
    refine readObjects_spec h hw hfits fun i => ih i (h.2.2 i).2 (hw.2.2 i) ?_
    have hlen := (length_le_length_flatMap
      (fun i => leBytes 2 (cells i).vt.toNat ++ netValueBytes rt (cells i))
      (mem_cellOrder i)).trans_lt (hfits.cells rfl)
    rw [List.length_append] at hlen
    unfold NetFits
    omega

end IspSession.Analysis
