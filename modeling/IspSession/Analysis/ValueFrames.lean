import IspSession.Analysis.DictionaryReading

/-!
# What `WriteValue` writes of any value

`valueBytes` is the format of the values the codec is made for. `frameBytes` goes on to all
others: objects, arrays of the other element types, of which only the header is written, arrays of
decimals, whose cells are written as if each were a variant, and variants whose payload need not
be what the tag says. `WritesValue` says for which of them the writer returns
(`writesOrFaults_frame`).
-/

set_option autoImplicit false

namespace IspSession.Analysis

open IspSession.Library IspSession.Model

/-! ## The format -/

/-- The payload under the tag is none that would be followed as a pointer. -/
def RawWrites (vt : VarType) : Prop :=
  vt &&& vtArray ≠ vtArray ∧
    ¬ (switchType vt = vtBstr ∨ switchType vt = vtDispatch ∨ switchType vt = vtUnknown)

instance (vt : VarType) : Decidable (RawWrites vt) := by
  unfold RawWrites
  infer_instance

/-- What is written of a payload under a tag. -/
def rawBytes (vt : VarType) (payload : ℕ) : Bytes :=
  if switchType vt = vtEmpty ∨ switchType vt = vtNull then []
  else if switchType vt = vtDecimal then
    leBytes 2 vt.toNat ++ ((leBytes 22 payload).take 14 ++
      if vt = vtDecimal then [] else (leBytes 22 payload).drop 6)
  else
    match ScalarType.ofVt (switchType vt) with
    | some t => ((leBytes 22 payload).drop 6).take t.size
    | none => []

/-- The reserved word of a cell of a `DECIMAL` array, which is taken for a tag. -/
def cellTag (data : Bytes) (k : ℕ) : VarType :=
  UInt16.ofNat (ofLeBytes ((data.drop (16 * k)).take 2))

/-- The payload behind it. -/
def cellPayload (data : Bytes) (k : ℕ) : ℕ := ofLeBytes ((data.drop (16 * k + 2)).take 22)

mutual

/-- The bytes of any value, without its tag. -/
def frameBytes (mem : Memory) (flag : Bool) : Variant → Bytes
  | .dispatch o | .unknown o => objectBytes flag o
  | .blockArray t bounds data =>
    headerBytes mem t.vt t.size bounds ++ if data.length < 2 ^ 31 then data else []
  | .variantArray bounds cells =>
    headerBytes mem vtVariant 24 bounds ++ frameCellsBytes mem flag cells
  | .otherArray vt cb bounds data =>
    headerBytes mem vt cb bounds ++
      if vt = vtDecimal then
        (List.range (elementCount bounds)).flatMap fun k =>
          rawBytes (cellTag data k) (cellPayload data k)
      else []
  | .nullArray vt => headerBytes mem vt 0 []
  | .byrefArray a => frameBytes mem flag a
  | .raw vt payload => rawBytes vt payload.toNat
  | v => valueBytes mem v

/-- The cells of a `VARIANT` array, each with its tag. -/
def frameCellsBytes (mem : Memory) (flag : Bool) : List Variant → Bytes
  | [] => []
  | v :: cells => leBytes 2 v.vt.toNat ++ (frameBytes mem flag v ++ frameCellsBytes mem flag cells)

end

/-- INTERNAL: the cells' bytes, cell by cell. -/
theorem frameCellsBytes_eq_flatMap (mem : Memory) (flag : Bool) (cells : List Variant) :
    frameCellsBytes mem flag cells = cells.flatMap (taggedBytes (frameBytes mem flag)) := by
  induction cells with
  | nil => rfl
  | cons v cells ih =>
    rw [frameCellsBytes, ih, List.flatMap_cons, taggedBytes, List.append_assoc]

/-! ## Values -/

mutual

/-- The value is one that automation makes: its arrays are created, with as many cells as their
bounds say. Strings and saved objects have a size an `INT` can hold. -/
def Made (flag : Bool) : Variant → Prop
  | .bstr s => StringFits s
  | .dispatch o | .unknown o => ∀ bytes, savedStream flag o = some bytes → bytes.length < 2 ^ 31
  | .blockArray t bounds data =>
    t.isBlock = true ∧ safeArrayCreate t.vt bounds = some t.size ∧
      data.length = elementCount bounds * t.size
  | .bstrArray bounds cells =>
    safeArrayCreate vtBstr bounds = some 8 ∧ cells.length = elementCount bounds ∧
      ∀ s ∈ cells, StringFits s
  | .variantArray bounds cells =>
    safeArrayCreate vtVariant bounds = some 24 ∧ cells.length = elementCount bounds ∧
      MadeCells flag cells
  | .otherArray vt cb bounds _ =>
    safeArrayCreate vt bounds = some cb ∧ vt ≠ vtBstr ∧ vt ≠ vtVariant ∧
      ∀ t, ScalarType.ofVt vt = some t → t.isBlock = false
  | .nullArray vt => vt &&& vtArray = 0
  | .byrefArray a => a.vt &&& vtArray = vtArray ∧ Made flag a
  | _ => True

/-- So is every cell. -/
def MadeCells (flag : Bool) : List Variant → Prop
  | [] => True
  | v :: cells => Made flag v ∧ MadeCells flag cells

end

mutual

/-- The writer returns: it follows no wild pointer, and the carry loop gets through the cells. -/
def WritesValue (flag : Bool) : Variant → Prop
  | .dispatch o | .unknown o => ¬ (flag = true ∧ o = .null)
  | .variantArray bounds cells => (cells ≠ [] → Walkable bounds) ∧ WritesCells flag cells
  | .otherArray vt _ bounds data =>
    vt = vtDecimal → (elementCount bounds ≠ 0 → Walkable bounds) ∧
      ∀ k < elementCount bounds, RawWrites (cellTag data k)
  | .byrefArray a => WritesValue flag a
  | .raw vt _ => RawWrites vt
  | _ => True

/-- It does so for every cell. -/
def WritesCells (flag : Bool) : List Variant → Prop
  | [] => True
  | v :: cells => WritesValue flag v ∧ WritesCells flag cells

end

theorem writesCells_iff {flag : Bool} {cells : List Variant} :
    WritesCells flag cells ↔ ∀ v ∈ cells, WritesValue flag v := by
  induction cells with
  | nil => simp [WritesCells]
  | cons v cells ih => simp [WritesCells, ih]

/-! ## The writer -/

/-- INTERNAL: a variant whose payload need not be what the tag says. -/
theorem writeRaw_spec (vt : VarType) (payload : ℕ) (c : Channel) (hc : c.stream.Sound) :
    WritesOrFaults (RawWrites vt) (rawBytes vt payload) c (writeRaw vt payload c) := by
  unfold writeRaw rawBytes RawWrites
  dsimp only
  by_cases harray : vt &&& vtArray = vtArray
  · rw [if_pos harray]
    exact ⟨fun h => absurd harray h.1, fun _ => rfl⟩
  rw [if_neg harray]
  by_cases hempty : switchType vt = vtEmpty ∨ switchType vt = vtNull
  · rw [if_pos hempty, if_pos hempty]
    refine .of_ok ⟨harray, ?_⟩ .sOk c.m_currentBufLen rfl
    rcases hempty with h | h <;> rw [h] <;> decide
  rw [if_neg hempty, if_neg hempty]
  by_cases hdecimal : switchType vt = vtDecimal
  · rw [if_pos hdecimal, if_pos hdecimal]
    refine .of_ok ⟨harray, by rw [hdecimal]; decide⟩ .sOk c.m_currentBufLen ?_
    split
    · rw [List.append_nil]
      rfl
    · simp only [Channel.write_eq, hc.write_write, List.append_assoc, Run.pure_eq]
  rw [if_neg hdecimal, if_neg hdecimal]
  by_cases hpointer : switchType vt = vtBstr ∨ switchType vt = vtDispatch ∨
      switchType vt = vtUnknown
  · rw [if_pos hpointer]
    exact ⟨fun h => absurd hpointer h.2, fun _ => rfl⟩
  rw [if_neg hpointer]
  cases ScalarType.ofVt (switchType vt) with
  | some t => exact .of_ok ⟨harray, hpointer⟩ .sOk c.m_currentBufLen rfl
  | none => exact .of_ok ⟨harray, hpointer⟩ .eInvalidArg c.m_currentBufLen rfl

/-- INTERNAL: what is written behind the header of an array. -/
theorem writesOrFaults_behindHeader {mem : Memory} {flag : Bool} {v : Variant} {vcopy : VarType}
    {elSize : ℕ} {bounds : List SafeArrayBound} {ok : Prop} {bs : Bytes}
    {rest : Channel → Run (HResult × Channel)}
    (hv : ∀ c, writeValue mem flag v c = writeArrayHeader mem vcopy elSize bounds c >>= rest)
    (hrest : ∀ c : Channel, c.stream.Sound → WritesOrFaults ok bs c (rest c)) (c : Channel)
    (hc : c.stream.Sound) :
    WritesOrFaults ok (headerBytes mem vcopy elSize bounds ++ bs) c (writeValue mem flag v c) := by
  obtain ⟨b, hb⟩ := writeArrayHeader_spec mem vcopy elSize bounds c hc
  have hspec := hrest ⟨c.stream.write (headerBytes mem vcopy elSize bounds), b⟩ (hc.write _)
  rw [hv, hb, Run.ok_bind]
  simpa only [WritesOrFaults, hc.write_write] using hspec

/-- INTERNAL: the data area of an array of a block type is written whole, or not at all. -/
theorem writesOrFaults_block {t : ScalarType} {bounds : List SafeArrayBound} {data : Bytes}
    (hcreate : safeArrayCreate t.vt bounds = some t.size)
    (hdata : data.length = elementCount bounds * t.size) (c : Channel) :
    WritesOrFaults True (if data.length < 2 ^ 31 then data else []) c
      (pure (.sOk, if (0#32).slt (longProduct bounds * BitVec.ofNat 32 t.size) then
        c.write (data.take (longProduct bounds * BitVec.ofNat 32 t.size).toNat) else c)) := by
  by_cases hfits : data.length < 2 ^ 31
  · rw [if_pos hfits, writeBlock_spec hcreate hdata hfits]
    exact .of_ok trivial .sOk c.m_currentBufLen rfl
  · obtain ⟨-, -, -, hsize⟩ := safeArrayCreate_eq_some hcreate
    have hpos := t.size_pos
    have hcount : elementCount bounds < 2 ^ 32 := by nlinarith
    have hmem : (longProduct bounds * BitVec.ofNat 32 t.size).toNat = data.length := by
      rw [BitVec.toNat_mul, toNat_longProduct bounds hcount, BitVec.toNat_ofNat, Nat.mul_mod_mod,
        Nat.mod_eq_of_lt hsize, hdata]
    have hint : (longProduct bounds * BitVec.ofNat 32 t.size).toInt = data.length - 2 ^ 32 := by
      rw [BitVec.toInt_eq_toNat_cond, hmem, if_neg (by omega)]
      rfl
    have hneg : (0#32).slt (longProduct bounds * BitVec.ofNat 32 t.size) = false := by
      rw [BitVec.slt, hint, BitVec.toInt_zero, decide_eq_false_iff_not]
      omega
    rw [if_neg hfits, hneg]
    exact .of_ok trivial .sOk c.m_currentBufLen rfl

/-- INTERNAL: the cells of a `DECIMAL` array. -/
theorem writesOrFaults_decimals {bounds : List SafeArrayBound}
    (hcreate : safeArrayCreate vtDecimal bounds = some 16) (data : Bytes) (c : Channel)
    (hc : c.stream.Sound) :
    WritesOrFaults ((elementCount bounds ≠ 0 → Walkable bounds) ∧
        ∀ k < elementCount bounds, RawWrites (cellTag data k))
      ((List.range (elementCount bounds)).flatMap fun k =>
        rawBytes (cellTag data k) (cellPayload data k)) c
      (writeCells bounds (decimalCellWriters (elementCount bounds) data) c) := by
  obtain ⟨-, -, -, hsize⟩ := safeArrayCreate_eq_some hcreate
  have hlen : (List.range (elementCount bounds)).length = elementCount bounds := List.length_range
  have hspec := writeCells_writers (w := fun k => writeRaw (cellTag data k) (cellPayload data k))
    (ne_nil_of_safeArrayCreate hcreate) hlen (by omega)
    (fun k _ c hc => writeRaw_spec (cellTag data k) (cellPayload data k) c hc) c hc
  have hne : List.range (elementCount bounds) ≠ [] ↔ elementCount bounds ≠ 0 := by
    rw [ne_eq, List.range_eq_nil]
  simp only [hne, List.mem_range] at hspec
  exact hspec

/-- INTERNAL: a value whose format is that of the values the codec is made for. -/
theorem writesOrFaults_supported {mem : Memory} {flag : Bool} {v : Variant} (hs : Supported v)
    (hf : Fits v) (hw : Writable v) (c : Channel) (hc : c.stream.Sound) :
    WritesOrFaults True (valueBytes mem v) c (writeValue mem flag v c) := by
  obtain ⟨hr, b, h⟩ := (writeValue_spec mem flag v hs hf c hc).1 hw
  exact .of_ok trivial hr b h

mutual

/-- **`WriteValue` appends the format of any value, or faults.** -/
theorem writesOrFaults_frame (mem : Memory) (flag : Bool) :
    (v : Variant) → Made flag v → ∀ c : Channel, c.stream.Sound →
      WritesOrFaults (WritesValue flag v) (frameBytes mem flag v) c (writeValue mem flag v c)
  | .empty, _ | .null, _ | .scalar _ _, _ | .decimal _, _ =>
    writesOrFaults_supported trivial trivial trivial
  | .bstr s, hmade => fun c hc => by
    obtain ⟨b, hb⟩ := writeString_spec (by rwa [Made] at hmade) c hc
    exact .of_ok trivial .sOk b (by rw [writeValue, hb]; rfl)
  | .dispatch o, _ => fun c hc => by
    by_cases h : flag = true ∧ o = .null
    · refine ⟨fun hw => absurd h hw, fun _ => ?_⟩
      rw [h.1, h.2]
      rfl
    · obtain ⟨hr, heq⟩ := writeObject_spec h c hc
      exact .of_ok h hr _ (by rw [writeValue, heq]; rfl)
  | .unknown o, _ => fun c hc => by
    by_cases h : flag = true ∧ o = .null
    · refine ⟨fun hw => absurd h hw, fun _ => ?_⟩
      rw [h.1, h.2]
      rfl
    · obtain ⟨hr, heq⟩ := writeObject_spec h c hc
      exact .of_ok h hr _ (by rw [writeValue, heq]; rfl)
  | .blockArray t bounds data, hmade => by
    obtain ⟨-, hcreate, hdata⟩ : _ ∧ _ ∧ _ := by rwa [Made] at hmade
    exact writesOrFaults_behindHeader (fun _ => by rw [writeValue])
      fun c _ => writesOrFaults_block hcreate hdata c
  | .bstrArray bounds cells, hmade => by
    obtain ⟨hcreate, hlen, hfits⟩ : _ ∧ _ ∧ _ := by rwa [Made] at hmade
    exact writeBstrArray_spec hcreate hlen hfits
  | .variantArray bounds cells, hmade => by
    obtain ⟨hcreate, hlen, hcells⟩ : _ ∧ _ ∧ _ := by rwa [Made] at hmade
    obtain ⟨-, -, -, hsize⟩ := safeArrayCreate_eq_some hcreate
    have hwriters := writesOrFaults_frameCells mem flag cells hcells
    rw [frameBytes, frameCellsBytes_eq_flatMap, WritesValue, writesCells_iff]
    refine writesOrFaults_behindHeader (fun _ => by rw [writeValue]) fun c hc => ?_
    rw [variantCellWriters_eq_map]
    exact writeCells_writers (ne_nil_of_safeArrayCreate hcreate) hlen (by omega)
      (fun v hv c hc => writesOrFaults_tagged (hwriters v hv) c hc) c hc
  | .otherArray vt cb bounds data, hmade => by
    obtain ⟨hcreate, -, -, -⟩ : _ ∧ _ ∧ _ ∧ _ := by rwa [Made] at hmade
    rw [frameBytes, WritesValue]
    refine writesOrFaults_behindHeader (fun _ => by rw [writeValue]) fun c hc => ?_
    by_cases hvt : vt = vtDecimal
    · subst hvt
      obtain rfl : 16 = cb := Option.some.inj (safeArrayCreate_eq_some hcreate).1
      rw [if_pos rfl, if_pos rfl]
      simpa only [true_imp_iff] using writesOrFaults_decimals hcreate data c hc
    · rw [if_neg hvt, if_neg hvt]
      exact .of_ok (fun h => absurd h hvt) .eInvalidArg c.m_currentBufLen rfl
  | .nullArray vt, _ => fun c hc => by
    obtain ⟨b, hb⟩ := writeArrayHeader_spec mem vt 0 [] c hc
    exact .of_ok trivial .sOk b (by rw [writeValue, hb]; rfl)
  | .byrefArray a, hmade => fun c hc => by
    rw [frameBytes, WritesValue, writeValue]
    exact writesOrFaults_frame mem flag a (by rw [Made] at hmade; exact hmade.2) c hc
  | .raw vt payload, _ => fun c hc => by
    rw [frameBytes, WritesValue, writeValue]
    exact writeRaw_spec vt payload.toNat c hc

/-- INTERNAL: the same for every cell of an array. -/
theorem writesOrFaults_frameCells (mem : Memory) (flag : Bool) :
    (cells : List Variant) → MadeCells flag cells → ∀ v ∈ cells, ∀ c : Channel, c.stream.Sound →
      WritesOrFaults (WritesValue flag v) (frameBytes mem flag v) c (writeValue mem flag v c)
  | [], _, v, hv => absurd hv (by simp)
  | u :: cells, h, v, hv => by
    rw [MadeCells] at h
    rcases List.mem_cons.mp hv with hu | hv
    · rw [hu]
      exact writesOrFaults_frame mem flag u h.1
    · exact writesOrFaults_frameCells mem flag cells h.2 v hv

end

end IspSession.Analysis
