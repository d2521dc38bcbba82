import IspSession.Analysis.ValueFormat

/-!
# The readers undo the writers

On a stream that goes on with `valueBytes mem v`, `ReadValue` gives back `v` and moves
behind it (`readValue_spec`), for the strict and the lenient reader alike. The exception
is a `BSTR` array with cells that defeats the carry loop: it is written in memory order,
but read through the loop, which faults. `Readable` says that there is none.
-/

set_option autoImplicit false

namespace IspSession.Analysis

open IspSession.Library IspSession.Model

/-- The carry loop gets through the value's own cells when reading. -/
def ReadableHere : Variant → Prop
  | .bstrArray bounds cells => cells ≠ [] → Walkable bounds
  | .variantArray bounds cells => cells ≠ [] → Walkable bounds
  | _ => True

/-- It gets through all cells when reading. -/
def Readable (v : Variant) : Prop := Hereditary ReadableHere v

/-- What can be read could be written. -/
theorem Readable.writable {v : Variant} (h : Readable v) : Writable v := by
  refine Hereditary.mono (fun v hv => ?_) v h
  cases v with
  | variantArray bounds cells => exact hv
  | _ => trivial

/-- The result of a reader that gives `a` back and moves over its bytes. -/
def Delivers {α : Type} (a : α) (bs : List UInt8) (c : Channel)
    (r : Run (HResult × α × Channel)) : Prop :=
  ∃ b, r = .ok (.sOk, a, ⟨c.stream.advance bs.length, b⟩)

/-- The results of the strict and of the other reader, when both do so. -/
def DeliversBoth {α : Type} (a : α) (bs : List UInt8) (c : Channel)
    (r : Bool → Run (HResult × α × Channel)) : Prop :=
  ∃ b, ∀ strict, r strict = .ok (.sOk, a, ⟨c.stream.advance bs.length, b⟩)

/-- INTERNAL: one of the two readers. -/
theorem DeliversBoth.delivers {α : Type} {a : α} {bs : List UInt8} {c : Channel}
    {r : Bool → Run (HResult × α × Channel)} (h : DeliversBoth a bs c r) (strict : Bool) :
    Delivers a bs c (r strict) := by
  obtain ⟨b, hb⟩ := h
  exact ⟨b, hb strict⟩

/-- The result of a reader that does so when `ok` holds and faults otherwise. -/
def DeliversOrFaults {α : Type} (ok : Prop) (a : α) (bs : List UInt8) (c : Channel)
    (r : Run (HResult × α × Channel)) : Prop :=
  (ok → Delivers a bs c r) ∧ (¬ ok → r = .error .fault)

/-! ## Pieces -/

/-- Reading bytes that are there. -/
theorem Channel.read_of_rest {c : Channel} {bs tl : List UInt8} {n : ℕ}
    (h : c.stream.rest = bs ++ tl) (hn : bs.length = n) :
    c.read n = (.sOk, bs, ⟨c.stream.advance n, c.m_currentBufLen⟩) := by
  simp only [Channel.read, CStream.read_of_rest' h hn]

/-- Copying over a whole region replaces it. -/
theorem overlay_of_length_le {old bs : List UInt8} (h : old.length ≤ bs.length) :
    overlay old bs = bs := by
  rw [overlay, List.drop_eq_nil_of_le h, List.append_nil]

@[simp] theorem length_uninit (region : ℕ → UInt8) (n : ℕ) : (uninit region n).length = n := by
  simp [uninit]

/-- A 16-bit word survives its two bytes. -/
theorem uint16_ofLeBytes_leBytes (x : UInt16) :
    UInt16.ofNat (ofLeBytes (leBytes 2 x.toNat)) = x := by
  rw [ofLeBytes_leBytes_of_lt (by simpa using x.toNat_lt)]
  exact UInt16.ofNat_toNat

/-- A 32-bit number survives its four bytes. -/
theorem bitVec32_ofLeBytes_leBytes (n : ℕ) :
    BitVec.ofNat 32 (ofLeBytes (leBytes 4 n)) = BitVec.ofNat 32 n := by
  rw [ofLeBytes_leBytes]
  apply BitVec.eq_of_toNat_eq
  simp

/-- **`ReadString` undoes `WriteString`.** -/
theorem readString_spec (mem : Memory) {s : Bstr} (hw : WellFormedUtf16 s)
    (hs : StringFits s) {c : Channel} {tl : List UInt8}
    (h : c.stream.rest = stringBytes s ++ tl) :
    DeliversBoth (some s) (stringBytes s) c fun strict => readString strict mem c := by
  unfold StringFits at hs
  unfold stringBytes at h ⊢
  rw [List.append_assoc] at h
  have hsize : ofLeBytes (leBytes 4 (utf16ToUtf8 s).length) = (utf16ToUtf8 s).length :=
    ofLeBytes_leBytes_of_lt (by omega)
  have hread := Channel.read_of_rest h (length_leBytes 4 _)
  simp only [readString, hread, ne_eq, not_true_eq_false, if_false, hsize]
  by_cases h0 : (utf16ToUtf8 s).length = 0
  · have hnil : utf16ToUtf8 s = [] := List.length_eq_zero_iff.mp h0
    have hempty : s = [] := utf16ToUtf8_eq_nil.mp hnil
    exact ⟨c.m_currentBufLen, fun _ => by simp [hempty, utf16ToUtf8_eq_nil.mpr]⟩
  · obtain ⟨b, hle, hb⟩ := exists_ensureBuffer
      ⟨c.stream.advance 4, c.m_currentBufLen⟩ (n := (utf16ToUtf8 s).length) (by omega)
    have hrest : (c.stream.advance 4).rest = utf16ToUtf8 s ++ tl := by
      have := CStream.rest_advance_of_append h
      rwa [length_leBytes] at this
    have hdata := Channel.read_of_rest (c := ⟨c.stream.advance 4, b⟩) hrest rfl
    have htake : (overlay (uninit mem.buffer b) (utf16ToUtf8 s)).take (utf16ToUtf8 s).length =
        utf16ToUtf8 s := by
      rw [overlay, List.take_left]
    have hconv : multiByteToWideChar (overlay (uninit mem.buffer b) (utf16ToUtf8 s))
        (utf16ToUtf8 s).length = .ok (some s) := by
      rw [multiByteToWideChar, if_pos (by omega), htake, utf8ToUtf16_utf16ToUtf8 hw]
      rfl
    refine ⟨b, fun strict => ?_⟩
    dsimp only
    rw [if_neg h0, hb]
    simp only [Run.ok_bind]
    rw [if_neg (by omega)]
    simp only [hdata]
    rw [if_neg (by omega), hconv]
    simp [CStream.advance_advance]

/-- The bounds of an array, and the product of their extents. -/
theorem readBounds_spec (strict : Bool) (bounds : List SafeArrayBound) (n : BitVec 32)
    {c : Channel} {tl : List UInt8}
    (h : c.stream.rest = bounds.flatMap SafeArrayBound.bytes ++ tl) :
    readBounds strict bounds.length n c =
      (bounds, bounds.foldl (fun n b => n * b.cElements) n,
        ⟨c.stream.advance (bounds.flatMap SafeArrayBound.bytes).length, c.m_currentBufLen⟩) := by
  induction bounds generalizing n c with
  | nil => simp [readBounds]
  | cons b bs ih =>
    have hlen : b.bytes.length = 8 := by simp [SafeArrayBound.bytes]
    rw [List.flatMap_cons, List.append_assoc] at h
    have hread := Channel.read_of_rest h hlen
    have hrest : (c.stream.advance 8).rest = bs.flatMap SafeArrayBound.bytes ++ tl := by
      have := CStream.rest_advance_of_append h
      rwa [hlen] at this
    have hElements : b.bytes.take 4 = leBytes 4 b.cElements.toNat := by
      rw [SafeArrayBound.bytes]
      exact List.take_left' (length_leBytes 4 _)
    have hLbound : b.bytes.drop 4 = leBytes 4 b.lLbound.toNat := by
      rw [SafeArrayBound.bytes]
      exact List.drop_left' (length_leBytes 4 _)
    have hIH := ih (n * b.cElements) (c := ⟨c.stream.advance 8, c.m_currentBufLen⟩) hrest
    simp only [List.length_cons, readBounds, hread, hElements, hLbound,
      bitVec32_ofLeBytes_leBytes, BitVec.ofNat_toNat, BitVec.setWidth_eq, ne_eq,
      not_true_eq_false, and_false, if_false, hIH, List.foldl_cons, List.flatMap_cons,
      List.length_append, hlen, CStream.advance_advance]

/-! ## Values that are no arrays -/

/-- INTERNAL: a scalar type is switched on as itself, and is none of the other cases. -/
theorem switchType_vt (t : ScalarType) :
    switchType t.vt = t.vt ∧ t.vt ≠ vtEmpty ∧ t.vt ≠ vtNull ∧ t.vt ≠ vtDecimal ∧
      t.vt ≠ vtBstr ∧ t.vt ≠ vtDispatch ∧ t.vt ≠ vtUnknown := by
  cases t <;> decide

/-- A scalar is read back from its bytes. -/
theorem readScalar_scalar (mem : Memory) (t : ScalarType)
    (bits : BitVec (8 * t.size)) {c : Channel} {tl : List UInt8}
    (h : c.stream.rest = leBytes t.size bits.toNat ++ tl) :
    DeliversBoth (.scalar t bits) (leBytes t.size bits.toNat) c
      fun strict => readScalar strict mem t.vt c := by
  obtain ⟨hsw, hne⟩ := switchType_vt t
  have hread := Channel.read_of_rest h (length_leBytes t.size _)
  have hvalue : Variant.ofMemory t.vt (256 ^ 6 * ofLeBytes (leBytes t.size bits.toNat)) =
      .scalar t bits := by
    simp only [Variant.ofMemory, hne, if_false, ScalarType.ofVt_vt,
      Nat.mul_div_cancel_left _ (show 0 < 256 ^ 6 by norm_num), ofNat_ofLeBytes_leBytes]
  refine ⟨c.m_currentBufLen, fun strict => ?_⟩
  simp only [readScalar, hsw, hne, or_self, if_false, ScalarType.ofVt_vt, hread, hvalue,
    length_leBytes, kept, ite_self, Run.pure_eq]

/-- A `DECIMAL` is read back from its tag and its fourteen bytes. -/
theorem readScalar_decimal (mem : Memory) (d : BitVec (8 * 14))
    {c : Channel} {tl : List UInt8}
    (h : c.stream.rest = leBytes 2 vtDecimal.toNat ++ leBytes 14 d.toNat ++ tl) :
    DeliversBoth (.decimal d) (leBytes 2 vtDecimal.toNat ++ leBytes 14 d.toNat) c
      fun strict => readScalar strict mem vtDecimal c := by
  have hlen : (leBytes 2 vtDecimal.toNat ++ leBytes 14 d.toNat).length = 16 := by simp
  have hread := Channel.read_of_rest h hlen
  have htag : (leBytes 2 vtDecimal.toNat ++ leBytes 14 d.toNat).take 2 =
      leBytes 2 vtDecimal.toNat := List.take_left' (length_leBytes 2 _)
  have hbits : (leBytes 2 vtDecimal.toNat ++ leBytes 14 d.toNat).drop 2 = leBytes 14 d.toNat :=
    List.drop_left' (length_leBytes 2 _)
  have hover : overlay (leBytes 2 vtDecimal.toNat ++ List.replicate 14 0)
      (leBytes 2 vtDecimal.toNat ++ leBytes 14 d.toNat) =
      leBytes 2 vtDecimal.toNat ++ leBytes 14 d.toNat :=
    overlay_of_length_le (by simp)
  have hvalue : Variant.ofMemory vtDecimal (ofLeBytes (leBytes 14 d.toNat)) = .decimal d :=
    congrArg Variant.decimal (ofNat_ofLeBytes_leBytes 14 d)
  have hswitch : ¬ (switchType vtDecimal = vtEmpty ∨ switchType vtDecimal = vtNull) := by decide
  have hdecimal : switchType vtDecimal = vtDecimal := by decide
  refine ⟨c.m_currentBufLen, fun strict => ?_⟩
  simp only [readScalar, hdecimal, hread, hover, htag, hbits, uint16_ofLeBytes_leBytes, hvalue,
    if_true, hlen, kept, ite_self, Run.pure_eq]
  rfl

/-- A string value is read back. -/
theorem readScalar_bstr (mem : Memory) {s : Bstr} (hw : WellFormedUtf16 s)
    (hs : StringFits s) {c : Channel} {tl : List UInt8}
    (h : c.stream.rest = stringBytes s ++ tl) :
    DeliversBoth (.bstr s) (stringBytes s) c fun strict => readScalar strict mem vtBstr c := by
  obtain ⟨b, hb⟩ := readString_spec mem hw hs h
  refine ⟨b, fun strict => ?_⟩
  have h1 : ¬ (switchType vtBstr = vtEmpty ∨ switchType vtBstr = vtNull) := by decide
  have h2 : ¬ switchType vtBstr = vtDecimal := by decide
  have h3 : switchType vtBstr = vtBstr := by decide
  simp only [readScalar, if_neg h1, if_neg h2, if_pos h3, hb, Run.ok_bind, if_true,
    Option.getD_some, Run.pure_eq, finished, HResult.failed, Bool.false_eq_true, if_false]

/-! ## Arrays -/

/-- INTERNAL: the descriptor of an array is read back field by field. -/
theorem arrayDescriptor_fields (mem : Memory) (type : VarType) (elemSize dims : ℕ) :
    (arrayDescriptor mem type elemSize dims).length = 12 ∧
      (arrayDescriptor mem type elemSize dims).take 2 = leBytes 2 type.toNat ∧
      ((arrayDescriptor mem type elemSize dims).drop 4).take 4 = leBytes 4 elemSize ∧
      (arrayDescriptor mem type elemSize dims).drop 8 = leBytes 4 dims := by
  refine ⟨by simp [arrayDescriptor], ?_, ?_, ?_⟩
  · simp only [arrayDescriptor, List.append_assoc]
    exact List.take_left' (length_leBytes 2 _)
  · simp only [arrayDescriptor]
    rw [List.append_assoc, List.drop_left' (by simp)]
    exact List.take_left' (length_leBytes 4 _)
  · simp only [arrayDescriptor]
    exact List.drop_left' (by simp)

/-- INTERNAL: both type names are well-formed text. -/
theorem wellFormedUtf16_arrayTypeName (vcopy : VarType) :
    WellFormedUtf16 (arrayTypeName vcopy) := by
  unfold arrayTypeName
  split
  · exact ⟨"System.Object".toList, rfl⟩
  · exact ⟨[], rfl⟩

/-- INTERNAL: a type name passes the reader's check. -/
theorem equalText_arrayTypeName (loc : Collation) {vcopy : VarType}
    (h : vcopy = vtUnknown ∨ vcopy = vtError ∨ vcopy = vtVariant) :
    (Bstr.ofString "System.Object").length ≤ (arrayTypeName vcopy).length ∧
      loc.equalText ((arrayTypeName vcopy).take (Bstr.ofString "System.Object").length)
        (Bstr.ofString "System.Object") = true := by
  rw [arrayTypeName, if_pos h, List.take_length]
  exact ⟨Nat.le_refl _, loc.equalText_refl _⟩

/-- INTERNAL: what `ReadValue` does behind the type name of an array. -/
def readBehindName (strict : Bool) (mem : Memory)
    (readValue : VarType → Channel → Run (HResult × Variant × Channel)) (vtype : VarType)
    (elSize cDims : BitVec 32) (c : Channel) : Run (HResult × Variant × Channel) :=
  if elSize = 0 ∨ cDims = 0 then pure (.sOk, .empty, c)
  else if cDims.slt 0 then .error .fault
  else
    let (bounds, lElements, c) := readBounds strict cDims.toNat 1 c
    match safeArrayCreate vtype bounds with
    | none => pure (.sOk, .empty, c)
    | some cbElements =>
      readCells strict mem readValue vtype bounds cbElements lElements elSize c

/-- **The descriptor and the type name of an array are read back.** -/
theorem readArray_front (loc : Collation) (mem mem' : Memory) {vcopy : VarType}
    (hvt : (vtArray ||| vcopy) ^^^ vtArray = vcopy) (elSize dims : ℕ) {c : Channel}
    {tl : List UInt8}
    (h : c.stream.rest = arrayDescriptor mem (vtArray ||| vcopy) elSize dims ++
      (stringBytes (arrayTypeName vcopy) ++ tl)) :
    ∃ b, ∀ strict readValue, readArray loc strict mem' readValue c =
      readBehindName strict mem' readValue vcopy (BitVec.ofNat 32 elSize) (BitVec.ofNat 32 dims)
        ⟨(c.stream.advance 12).advance (stringBytes (arrayTypeName vcopy)).length, b⟩ := by
  obtain ⟨hlen, htype, hsize, hdims⟩ := arrayDescriptor_fields mem (vtArray ||| vcopy) elSize dims
  have hread := Channel.read_of_rest h hlen
  have hrest := CStream.rest_advance_of_append h
  rw [hlen] at hrest
  obtain ⟨b, hb⟩ := readString_spec mem' (wellFormedUtf16_arrayTypeName vcopy)
    (stringFits_arrayTypeName vcopy) (c := ⟨c.stream.advance 12, c.m_currentBufLen⟩) hrest
  refine ⟨b, fun strict readValue => ?_⟩
  have hover : overlay (uninit mem'.descriptor 12)
      (arrayDescriptor mem (vtArray ||| vcopy) elSize dims) =
      arrayDescriptor mem (vtArray ||| vcopy) elSize dims :=
    overlay_of_length_le (by rw [length_uninit, hlen])
  -- the type name is the one the reader asks for
  have htyped : ¬ (decide (vcopy = vtUnknown ∨ vcopy = vtError ∨ vcopy = vtVariant) = true ∧
      ¬ ((Bstr.ofString "System.Object").length ≤ (arrayTypeName vcopy).length ∧
        loc.equalText ((arrayTypeName vcopy).take (Bstr.ofString "System.Object").length)
          (Bstr.ofString "System.Object") = true)) := by
    rintro ⟨hyes, hnot⟩
    exact hnot (equalText_arrayTypeName loc (of_decide_eq_true hyes))
  have hjagged : ¬ (¬ decide (vcopy = vtUnknown ∨ vcopy = vtError ∨ vcopy = vtVariant) = true ∧
      loc.sameText (arrayTypeName vcopy) (Bstr.ofString "__jagged") = true) := by
    rintro ⟨hno, hsame⟩
    rw [arrayTypeName, if_neg (by simpa using hno), loc.sameText_empty_jagged] at hsame
    cases hsame
  simp only [readArray, hread, hover, htype, hsize, hdims, uint16_ofLeBytes_leBytes, hvt,
    bitVec32_ofLeBytes_leBytes, hb, Run.ok_bind, Option.getD_some]
  rw [if_neg htyped, if_neg hjagged]
  rfl

/-- **The common part of an array is read back**: what remains are its cells. -/
theorem readArray_header (loc : Collation) (mem mem' : Memory) {vcopy : VarType}
    {bounds : List SafeArrayBound} {cb : ℕ} (hvt : (vtArray ||| vcopy) ^^^ vtArray = vcopy)
    (hcreate : safeArrayCreate vcopy bounds = some cb) (hcb : 0 < cb ∧ cb < 2 ^ 32)
    {c : Channel} {tl : List UInt8}
    (h : c.stream.rest = headerBytes mem vcopy cb bounds ++ tl) :
    ∃ b, ∀ strict readValue, readArray loc strict mem' readValue c =
      readCells strict mem' readValue vcopy bounds cb (longProduct bounds) (BitVec.ofNat 32 cb)
        ⟨c.stream.advance (headerBytes mem vcopy cb bounds).length, b⟩ := by
  obtain ⟨-, hrank, hrank', -⟩ := safeArrayCreate_eq_some hcreate
  have hlen := (arrayDescriptor_fields mem (vtArray ||| vcopy) cb bounds.length).1
  rw [headerBytes, List.append_assoc, List.append_assoc] at h
  obtain ⟨b, hb⟩ := readArray_front loc mem mem' hvt cb bounds.length h
  have hrest := CStream.rest_advance_of_append h
  rw [hlen] at hrest
  have hrest' := CStream.rest_advance_of_append hrest
  refine ⟨b, fun strict readValue => ?_⟩
  have hbounds := readBounds_spec strict bounds 1
    (c := ⟨(c.stream.advance 12).advance (stringBytes (arrayTypeName vcopy)).length, b⟩) hrest'
  have hel : ¬ (BitVec.ofNat 32 cb = 0 ∨ BitVec.ofNat 32 bounds.length = 0) := by
    have hzero : (0 : BitVec 32).toNat = 0 := rfl
    rw [← BitVec.toNat_inj, ← BitVec.toNat_inj, hzero, BitVec.toNat_ofNat, BitVec.toNat_ofNat,
      Nat.mod_eq_of_lt hcb.2, Nat.mod_eq_of_lt (by omega)]
    omega
  have hdimsNat : (BitVec.ofNat 32 bounds.length).toNat = bounds.length := by
    rw [BitVec.toNat_ofNat, Nat.mod_eq_of_lt (by omega)]
  have hneg : (BitVec.ofNat 32 bounds.length).slt 0 = false := by
    rw [BitVec.slt, BitVec.toInt_eq_toNat_cond, hdimsNat, if_pos (by omega)]
    simp
  have hproduct : bounds.foldl (fun n b => n * b.cElements) 1 = longProduct bounds := rfl
  rw [hb, readBehindName, if_neg hel, hneg, hdimsNat]
  simp only [Bool.false_eq_true, if_false, hbounds, hproduct, hcreate]
  simp only [headerBytes, List.length_append, hlen, CStream.advance_advance, Nat.add_assoc]

/-! ## Cells -/

/-- One round of a reading loop: where the stream goes on with the bytes of `a`, the cell
of the index becomes `a`, unless reading it faults. -/
def CellSpec {α : Type} (bounds : List SafeArrayBound) (enc : α → List UInt8) (ok : α → Prop)
    (visit : List (BitVec 32) → CellState (List α) → Run (CellState (List α))) (a : α) : Prop :=
  ∀ (is : List (BitVec 32)) (k : ℕ) (cells : List α) (c : Channel) (tl : List UInt8),
    safeArrayPtrOfIndex bounds is = some k → c.stream.rest = enc a ++ tl →
      DeliversOrFaults (ok a) (cells.set k a) (enc a) c (visit is (.sOk, cells, c))

/-- INTERNAL: the sweep over the cells behind `done`. -/
theorem sweep_readCells {α : Type} (blank : α) {bounds : List SafeArrayBound}
    {enc : α → List UInt8} {ok : α → Prop}
    {visit : List (BitVec 32) → CellState (List α) → Run (CellState (List α))}
    (done todo : List α) (hlen : (done ++ todo).length = elementCount bounds)
    (hcells : ∀ a ∈ todo, CellSpec bounds enc ok visit a) {c : Channel} {tl : List UInt8}
    (h : c.stream.rest = todo.flatMap enc ++ tl) :
    DeliversOrFaults (∀ a ∈ todo, ok a) (done ++ todo) (todo.flatMap enc) c
      (Odometer.sweep CellState.go visit
        (Odometer.indicesFrom extent loopIndex bounds done.length todo.length)
        (.sOk, done ++ List.replicate todo.length blank, c)) := by
  induction todo generalizing done c with
  | nil =>
    refine ⟨fun _ => ⟨c.m_currentBufLen, ?_⟩, fun hnot => absurd (by simp) hnot⟩
    simp [Odometer.indicesFrom, Odometer.sweep]
  | cons a todo ih =>
    rw [List.flatMap_cons, List.append_assoc] at h
    have hk : done.length < elementCount bounds := by
      rw [← hlen]
      simp
    obtain ⟨hok, hfault⟩ := hcells a (by simp) _ done.length
      (done ++ List.replicate (todo.length + 1) blank) c _ (safeArrayPtrOfIndex_indexAt hk) h
    have hset : (done ++ List.replicate (todo.length + 1) blank).set done.length a =
        (done ++ [a]) ++ List.replicate todo.length blank := by
      rw [List.set_append_right _ _ (Nat.le_refl _), Nat.sub_self, List.replicate_succ,
        List.set_cons_zero, List.append_assoc, List.singleton_append]
    rw [List.length_cons, indicesFrom_succ]
    simp only [Odometer.sweep, CellState.go, decide_true, if_true]
    by_cases ha : ok a
    · obtain ⟨b, hb⟩ := hok ha
      rw [hb, hset]
      have hrest := CStream.rest_advance_of_append h
      obtain ⟨hok', hfault'⟩ := ih (done ++ [a]) (by simpa using hlen)
        (fun x hx => hcells x (by simp [hx])) (c := ⟨c.stream.advance (enc a).length, b⟩) hrest
      rw [List.length_append, List.length_singleton] at hok' hfault'
      constructor
      · intro hall
        obtain ⟨b', hb'⟩ := hok' fun x hx => hall x (by simp [hx])
        refine ⟨b', ?_⟩
        rw [Run.ok_bind, hb']
        simp
      · intro hnot
        refine hfault' fun hall => hnot fun x hx => ?_
        rcases List.mem_cons.mp hx with rfl | hx
        · exact ha
        · exact hall x hx
    · refine ⟨fun hall => absurd (hall a (by simp)) ha, fun _ => ?_⟩
      rw [hfault ha]
      rfl

/-- **The reading loop over an array's cells** fills them in memory order, unless the
carry loop or a cell's own reader faults. -/
theorem walkArray_readCells {α : Type} (blank : α) {bounds : List SafeArrayBound}
    {enc : α → List UInt8} {ok : α → Prop}
    {visit : List (BitVec 32) → CellState (List α) → Run (CellState (List α))}
    {cells : List α} (hrank : bounds ≠ []) (hlen : cells.length = elementCount bounds)
    (hpos : 0 < elementCount bounds) (hcount : elementCount bounds < 2 ^ 32)
    (hcells : ∀ a ∈ cells, CellSpec bounds enc ok visit a) {c : Channel} {tl : List UInt8}
    (h : c.stream.rest = cells.flatMap enc ++ tl) :
    DeliversOrFaults (Walkable bounds ∧ ∀ a ∈ cells, ok a) cells (cells.flatMap enc) c
      (walkArray CellState.go visit bounds (longProduct bounds)
        (.sOk, List.replicate (elementCount bounds) blank, c)) := by
  have htotal := toNat_longProduct bounds hcount
  by_cases hw : Walkable bounds
  · rw [walkArray_of_walkable _ _ hrank hpos htotal hw, ← hlen]
    have hsweep := sweep_readCells blank [] cells hlen hcells h
    exact ⟨fun hall => hsweep.1 hall.2, fun hnot => hsweep.2 fun hall => hnot ⟨hw, hall⟩⟩
  · refine ⟨fun hall => absurd hall.1 hw, fun _ => ?_⟩
    -- each visit reads the next cell, wherever it puts it
    refine walkArray_of_not_walkable hpos htotal hw
      (fun n s => s.1 = .sOk ∧ s.2.2.stream.rest = (cells.drop n).flatMap enc ++ tl)
      ⟨rfl, h⟩ (fun n s hs _ => by simp [CellState.go, hs.1]) ?_
    rintro n ⟨hr, filled, c⟩ is k ⟨rfl, hrest⟩ hn hk -
    have hlt : n < cells.length := by omega
    have hget : cells.drop n = cells[n] :: cells.drop (n + 1) :=
      List.drop_eq_getElem_cons hlt
    rw [hget, List.flatMap_cons, List.append_assoc] at hrest
    obtain ⟨hok, hfault⟩ := hcells _ (List.getElem_mem hlt) is k filled c _ hk hrest
    by_cases ha : ok cells[n]
    · obtain ⟨b, hb⟩ := hok ha
      exact .inr ⟨_, hb, rfl, CStream.rest_advance_of_append hrest⟩
    · exact .inl (hfault ha)

/-- What `ReadValue` is to do with the bytes of a value. -/
def ReadSpec (loc : Collation) (strict : Bool) (mem mem' : Memory) (v : Variant) : Prop :=
  ∀ (fuel : ℕ) (c : Channel) (tl : List UInt8), (valueBytes mem v).length < fuel →
    c.stream.rest = valueBytes mem v ++ tl →
      DeliversOrFaults (Readable v) v (valueBytes mem v) c
        (readValue loc strict mem' fuel v.vt c)

/-- INTERNAL: a reader that does not look into cells. -/
theorem DeliversOrFaults.of_delivers {α : Type} {ok : Prop} {a : α} {bs : List UInt8}
    {c : Channel} {r : Run (HResult × α × Channel)} (hok : ok) (h : Delivers a bs c r) :
    DeliversOrFaults ok a bs c r :=
  ⟨fun _ => h, fun hn => absurd hok hn⟩

/-- One cell of a `BSTR` array. -/
theorem cellSpec_bstr (strict : Bool) (mem : Memory) (bounds : List SafeArrayBound) {s : Bstr}
    (hw : WellFormedUtf16 s) (hs : StringFits s) :
    CellSpec bounds stringBytes (fun _ => True) (readBstrCell strict mem bounds) s := by
  intro is k cells c tl hk h
  obtain ⟨b, hb⟩ := readString_spec mem hw hs h
  refine .of_delivers trivial ⟨b, ?_⟩
  simp only [readBstrCell, hb, Run.ok_bind, hk, Run.pure_eq]

/-- What `ReadValue` is to do with the bytes that an encoding gives for a value. -/
def ReadsBackAs (loc : Collation) (strict : Bool) (mem' : Memory) (enc : Variant → List UInt8)
    (v : Variant) : Prop :=
  ∀ (fuel : ℕ) (c : Channel) (tl : List UInt8), (enc v).length < fuel →
    c.stream.rest = enc v ++ tl →
      DeliversOrFaults (Readable v) v (enc v) c (readValue loc strict mem' fuel v.vt c)

/-- One cell of a `VARIANT` array. -/
theorem cellSpec_variant {loc : Collation} {strict : Bool} {mem' : Memory}
    {enc : Variant → List UInt8} {v : Variant} (bounds : List SafeArrayBound) {fuel : ℕ}
    (hv : ReadsBackAs loc strict mem' enc v) (hfuel : (enc v).length < fuel) :
    CellSpec bounds (taggedBytes enc) Readable
      (readVariantCell strict mem' bounds (readValue loc strict mem' fuel)) v := by
  intro is k cells c tl hk h
  rw [taggedBytes, List.append_assoc] at h
  have hread := Channel.read_of_rest h (length_leBytes 2 _)
  have hrest := CStream.rest_advance_of_append h
  rw [length_leBytes] at hrest
  have hover : overlay (uninit mem'.vartype 2) (leBytes 2 v.vt.toNat) = leBytes 2 v.vt.toNat :=
    overlay_of_length_le (by simp)
  have hkept : kept strict .sOk = .sOk := by simp [kept]
  obtain ⟨hok, hfault⟩ := hv fuel ⟨c.stream.advance 2, c.m_currentBufLen⟩ tl hfuel hrest
  simp only [readVariantCell, hk, hread, hkept, if_true, hover, uint16_ofLeBytes_leBytes]
  constructor
  · intro hr
    obtain ⟨b, hb⟩ := hok hr
    refine ⟨b, ?_⟩
    simp only [hb, Run.ok_bind, Run.pure_eq, taggedBytes, List.length_append, length_leBytes,
      CStream.advance_advance]
  · intro hr
    rw [hfault hr]
    rfl

/-- INTERNAL: the cells of a `VARIANT` array are read by the loop. -/
theorem readCells_variant (strict : Bool) (mem : Memory)
    (readValue : VarType → Channel → Run (HResult × Variant × Channel))
    (bounds : List SafeArrayBound) (lElements : BitVec 32) (c : Channel) :
    readCells strict mem readValue vtVariant bounds 24 lElements (BitVec.ofNat 32 24) c =
      if (0#32).slt lElements then do
        let (hr, cells, c) ← walkArray CellState.go
          (readVariantCell strict mem bounds readValue) bounds lElements
          (.sOk, List.replicate (elementCount bounds) .empty, c)
        pure (finished hr (.variantArray bounds cells) c)
      else pure (.sOk, .variantArray bounds (List.replicate (elementCount bounds) .empty), c) :=
  rfl

/-- INTERNAL: the cells of a `BSTR` array are read by the loop. -/
theorem readCells_bstr (strict : Bool) (mem : Memory)
    (readValue : VarType → Channel → Run (HResult × Variant × Channel))
    (bounds : List SafeArrayBound) (lElements : BitVec 32) (c : Channel) :
    readCells strict mem readValue vtBstr bounds 8 lElements (BitVec.ofNat 32 8) c =
      if (0#32).slt lElements then do
        let (hr, cells, c) ← walkArray CellState.go
          (readBstrCell strict mem bounds) bounds lElements
          (.sOk, List.replicate (elementCount bounds) [], c)
        pure (finished hr (.bstrArray bounds cells) c)
      else pure (.sOk, .bstrArray bounds (List.replicate (elementCount bounds) []), c) :=
  rfl

/-- **The data area of an array of a block type is read back.** -/
theorem readCells_block (strict : Bool) (mem : Memory)
    (readValue : VarType → Channel → Run (HResult × Variant × Channel)) {t : ScalarType}
    {bounds : List SafeArrayBound} {data : List UInt8} (hblock : t.isBlock = true)
    (hcreate : safeArrayCreate t.vt bounds = some t.size)
    (hdata : data.length = elementCount bounds * t.size) {c : Channel} {tl : List UInt8}
    (h : c.stream.rest = data ++ tl) :
    Delivers (.blockArray t bounds data) data c
      (readCells strict mem readValue t.vt bounds t.size (longProduct bounds)
        (BitVec.ofNat 32 t.size) c) := by
  obtain ⟨-, -, -, hsize⟩ := safeArrayCreate_eq_some hcreate
  have hpos := t.size_pos
  have hcount : elementCount bounds < 2 ^ 32 := by nlinarith
  have hmem : data.length = (longProduct bounds * BitVec.ofNat 32 t.size).toNat := by
    rw [BitVec.toNat_mul, toNat_longProduct bounds hcount, BitVec.toNat_ofNat, Nat.mul_mod_mod,
      Nat.mod_eq_of_lt hsize, hdata]
  have hread := Channel.read_of_rest h rfl
  have hvt : t.vt ≠ vtVariant ∧ t.vt ≠ vtBstr ∧ t.vt ≠ vtDecimal := by cases t <;> decide
  have hover : overlay (List.replicate (elementCount bounds * t.size) 0) data = data :=
    overlay_of_length_le (by rw [List.length_replicate, hdata])
  refine ⟨c.m_currentBufLen, ?_⟩
  simp only [readCells, hvt, if_false, ScalarType.ofVt_vt, hblock, if_true, hread, hover, ← hmem]
  rw [if_neg (by omega)]
  rfl

/-- INTERNAL: filling the cells of an array whose reader is a loop over them. -/
theorem deliversOrFaults_filled {α : Type} {ok : Prop} {bounds : List SafeArrayBound}
    (wrap : List α → Variant) {cells : List α} {enc : α → List UInt8} {blank : α}
    {c : Channel} {loop : Run (CellState (List α))} (hlen : cells.length = elementCount bounds)
    (hcount : elementCount bounds < 2 ^ 31) (hempty : cells = [] → ok)
    (hloop : 0 < elementCount bounds → DeliversOrFaults ok cells (cells.flatMap enc) c loop) :
    DeliversOrFaults ok (wrap cells) (cells.flatMap enc) c
      (if (0#32).slt (longProduct bounds) then do
        let (hr, cells, c) ← loop
        pure (finished hr (wrap cells) c)
      else pure (.sOk, wrap (List.replicate (elementCount bounds) blank), c)) := by
  have htotal := toNat_longProduct bounds (by omega)
  rw [zero_slt_iff (by omega), htotal]
  by_cases h0 : elementCount bounds = 0
  · have hnil : cells = [] := List.length_eq_zero_iff.mp (by omega)
    refine .of_delivers (hempty hnil) ⟨c.m_currentBufLen, ?_⟩
    simp [h0, hnil]
  · have hpos := Nat.pos_of_ne_zero h0
    obtain ⟨hok, hfault⟩ := hloop hpos
    simp only [hpos, decide_true, if_true]
    constructor
    · intro h
      obtain ⟨b, hb⟩ := hok h
      exact ⟨b, by rw [hb]; rfl⟩
    · intro h
      rw [hfault h]
      rfl

/-- INTERNAL: the common part of an array, then its cells. -/
theorem deliversOrFaults_array {loc : Collation} {strict : Bool} {mem mem' : Memory}
    {readValue : VarType → Channel → Run (HResult × Variant × Channel)} {vcopy : VarType}
    {bounds : List SafeArrayBound} {cb : ℕ} (hvt : (vtArray ||| vcopy) ^^^ vtArray = vcopy)
    (hcreate : safeArrayCreate vcopy bounds = some cb) (hcb : 0 < cb ∧ cb < 2 ^ 32)
    {ok : Prop} {v : Variant} {cells tl : List UInt8} {c : Channel}
    (h : c.stream.rest = headerBytes mem vcopy cb bounds ++ cells ++ tl)
    (hcells : ∀ c : Channel, c.stream.rest = cells ++ tl →
      DeliversOrFaults ok v cells c
        (readCells strict mem' readValue vcopy bounds cb (longProduct bounds)
          (BitVec.ofNat 32 cb) c)) :
    DeliversOrFaults ok v (headerBytes mem vcopy cb bounds ++ cells) c
      (readArray loc strict mem' readValue c) := by
  rw [List.append_assoc] at h
  obtain ⟨b, hb⟩ := readArray_header loc mem mem' hvt hcreate hcb h
  obtain ⟨hok, hfault⟩ := hcells ⟨c.stream.advance (headerBytes mem vcopy cb bounds).length, b⟩
    (CStream.rest_advance_of_append h)
  rw [hb]
  refine ⟨fun hr => ?_, hfault⟩
  obtain ⟨b', hb'⟩ := hok hr
  exact ⟨b', by rw [hb', List.length_append, CStream.advance_advance]⟩

/-- INTERNAL: a piece is no longer than the whole. -/
theorem length_le_length_flatMap {α β : Type} (f : α → List β) {a : α} {l : List α}
    (h : a ∈ l) : (f a).length ≤ (l.flatMap f).length := by
  rw [List.flatMap_def]
  exact (List.sublist_flatten_of_mem (List.mem_map_of_mem h)).length_le

/-- INTERNAL: the size of what stands in front of an array's cells. -/
theorem length_headerBytes (mem : Memory) (vcopy : VarType) (elSize : ℕ)
    (bounds : List SafeArrayBound) :
    (headerBytes mem vcopy elSize bounds).length =
      12 + ((stringBytes (arrayTypeName vcopy)).length +
        (bounds.flatMap SafeArrayBound.bytes).length) := by
  simp only [headerBytes, List.length_append, Nat.add_assoc]
  simp [arrayDescriptor]

/-- INTERNAL: `ReadValue` of a tag without the array bit. -/
theorem readValue_of_scalar (loc : Collation) (strict : Bool) (mem : Memory) (fuel : ℕ)
    {vtype : VarType} (h : ¬ (vtype &&& vtArray = vtArray)) (c : Channel) :
    readValue loc strict mem (fuel + 1) vtype c = readScalar strict mem vtype c := if_neg h

/-- INTERNAL: `ReadValue` of a tag with the array bit. -/
theorem readValue_of_array (loc : Collation) (strict : Bool) (mem : Memory) (fuel : ℕ)
    {vtype : VarType} (h : vtype &&& vtArray = vtArray) (c : Channel) :
    readValue loc strict mem (fuel + 1) vtype c =
      readArray loc strict mem (readValue loc strict mem fuel) c := if_pos h

/-- INTERNAL: a `VARIANT` array whose cells are read back from an encoding. -/
theorem readVariantArray_spec {loc : Collation} {strict : Bool} (mem : Memory) {mem' : Memory}
    {enc : Variant → List UInt8} {bounds : List SafeArrayBound} {cells : List Variant}
    (hcreate : safeArrayCreate vtVariant bounds = some 24)
    (hlen : cells.length = elementCount bounds)
    (hcells : ∀ v ∈ cells, ReadsBackAs loc strict mem' enc v) {fuel : ℕ} {c : Channel}
    {tl : List UInt8}
    (hfuel : (headerBytes mem vtVariant 24 bounds ++ cells.flatMap (taggedBytes enc)).length < fuel)
    (h : c.stream.rest =
      headerBytes mem vtVariant 24 bounds ++ cells.flatMap (taggedBytes enc) ++ tl) :
    DeliversOrFaults (Readable (.variantArray bounds cells)) (.variantArray bounds cells)
      (headerBytes mem vtVariant 24 bounds ++ cells.flatMap (taggedBytes enc)) c
      (readValue loc strict mem' fuel (Variant.variantArray bounds cells).vt c) := by
  obtain ⟨fuel, rfl⟩ : ∃ f, fuel = f + 1 := ⟨fuel - 1, by omega⟩
  obtain ⟨-, -, -, hsize⟩ := safeArrayCreate_eq_some hcreate
  have hvt : (Variant.variantArray bounds cells).vt &&& vtArray = vtArray := by
    change (vtArray ||| vtVariant) &&& vtArray = vtArray
    decide
  rw [readValue_of_array loc strict mem' fuel hvt]
  refine deliversOrFaults_array (by decide) hcreate (by decide) h fun c hc => ?_
  rw [readCells_variant]
  refine deliversOrFaults_filled (.variantArray bounds) hlen (by omega) ?_
    fun hpos => ?_
  · rintro rfl
    exact ⟨fun hne => absurd rfl hne, trivial⟩
  have hcell : ∀ v ∈ cells, CellSpec bounds (taggedBytes enc) Readable
      (readVariantCell strict mem' bounds (readValue loc strict mem' fuel)) v := by
    intro v hv
    have hlength := length_le_length_flatMap (taggedBytes enc) hv
    refine cellSpec_variant bounds (hcells v hv) ?_
    simp only [List.length_append, taggedBytes, length_headerBytes] at hfuel hlength
    omega
  have hwalk := walkArray_readCells Variant.empty (ne_nil_of_safeArrayCreate hcreate)
    hlen hpos (by omega) hcell hc
  have hne : cells ≠ [] := List.ne_nil_of_length_pos (by omega)
  constructor
  · intro hr
    obtain ⟨hwalkable, hall⟩ : ReadableHere (.variantArray bounds cells) ∧
      HereditaryCells ReadableHere cells := hr
    exact hwalk.1 ⟨hwalkable hne, hereditaryCells_iff.mp hall⟩
  · intro hr
    exact hwalk.2 fun hall => hr ⟨fun _ => hall.1, hereditaryCells_iff.mpr hall.2⟩

mutual

/-- **`ReadValue` undoes `WriteValue`, or faults in a carry loop.** The induction is on
the value; the length of its bytes bounds the recursion's depth. -/
theorem readValue_spec (loc : Collation) (strict : Bool) (mem mem' : Memory) :
    (v : Variant) → Supported v → Fits v → ReadSpec loc strict mem mem' v
  | .empty, _, _ => fun fuel c tl hfuel _ => by
    obtain ⟨fuel, rfl⟩ : ∃ f, fuel = f + 1 := ⟨fuel - 1, by omega⟩
    exact .of_delivers trivial ⟨c.m_currentBufLen, rfl⟩
  | .null, _, _ => fun fuel c tl hfuel _ => by
    obtain ⟨fuel, rfl⟩ : ∃ f, fuel = f + 1 := ⟨fuel - 1, by omega⟩
    exact .of_delivers trivial ⟨c.m_currentBufLen, rfl⟩
  | .scalar t bits, _, _ => fun fuel c tl hfuel h => by
    obtain ⟨fuel, rfl⟩ : ∃ f, fuel = f + 1 := ⟨fuel - 1, by omega⟩
    have hvt : ¬ ((Variant.scalar t bits).vt &&& vtArray = vtArray) := by
      change ¬ (t.vt &&& vtArray = vtArray)
      cases t <;> decide
    refine .of_delivers trivial ?_
    rw [readValue_of_scalar loc strict mem' fuel hvt]
    exact (readScalar_scalar mem' t bits h).delivers strict
  | .decimal d, _, _ => fun fuel c tl hfuel h => by
    obtain ⟨fuel, rfl⟩ : ∃ f, fuel = f + 1 := ⟨fuel - 1, by omega⟩
    have hvt : ¬ ((Variant.decimal d).vt &&& vtArray = vtArray) := by
      change ¬ (vtDecimal &&& vtArray = vtArray)
      decide
    refine .of_delivers trivial ?_
    rw [readValue_of_scalar loc strict mem' fuel hvt]
    exact (readScalar_decimal mem' d h).delivers strict
  | .bstr s, hs, hf => fun fuel c tl hfuel h => by
    obtain ⟨fuel, rfl⟩ : ∃ f, fuel = f + 1 := ⟨fuel - 1, by omega⟩
    have hvt : ¬ ((Variant.bstr s).vt &&& vtArray = vtArray) := by
      change ¬ (vtBstr &&& vtArray = vtArray)
      decide
    refine .of_delivers trivial ?_
    rw [readValue_of_scalar loc strict mem' fuel hvt]
    exact (readScalar_bstr mem' hs.self hf.self h).delivers strict
  | .blockArray t bounds data, hs, hf => fun fuel c tl hfuel h => by
    obtain ⟨fuel, rfl⟩ : ∃ f, fuel = f + 1 := ⟨fuel - 1, by omega⟩
    obtain ⟨hblock, hcreate, hdata⟩ : SupportedHere (.blockArray t bounds data) := hs.self
    have hvt : (Variant.blockArray t bounds data).vt &&& vtArray = vtArray := by
      change (vtArray ||| t.vt) &&& vtArray = vtArray
      cases t <;> decide
    have hxor : (vtArray ||| t.vt) ^^^ vtArray = t.vt := by cases t <;> decide
    have hsize : 0 < t.size ∧ t.size < 2 ^ 32 := by cases t <;> decide
    rw [readValue_of_array loc strict mem' fuel hvt]
    exact deliversOrFaults_array hxor hcreate hsize h fun c hc =>
      .of_delivers trivial (readCells_block strict mem' _ hblock hcreate hdata hc)
  | .bstrArray bounds cells, hs, hf => fun fuel c tl hfuel h => by
    obtain ⟨fuel, rfl⟩ : ∃ f, fuel = f + 1 := ⟨fuel - 1, by omega⟩
    obtain ⟨hcreate, hlen, hwf⟩ : SupportedHere (.bstrArray bounds cells) := hs.self
    obtain ⟨-, -, -, hsize⟩ := safeArrayCreate_eq_some hcreate
    have hfits : ∀ s ∈ cells, StringFits s := hf.self
    have hvt : (Variant.bstrArray bounds cells).vt &&& vtArray = vtArray := by
      change (vtArray ||| vtBstr) &&& vtArray = vtArray
      decide
    rw [readValue_of_array loc strict mem' fuel hvt]
    refine deliversOrFaults_array (by decide) hcreate (by decide) h fun c hc => ?_
    rw [readCells_bstr]
    refine deliversOrFaults_filled (.bstrArray bounds) hlen (by omega)
      (fun hnil hne => absurd hnil hne) fun hpos => ?_
    have hwalk := walkArray_readCells [] (ne_nil_of_safeArrayCreate hcreate) hlen hpos
      (by omega) (fun s hmem => cellSpec_bstr strict mem' bounds (hwf s hmem) (hfits s hmem)) hc
    have hne : cells ≠ [] := List.ne_nil_of_length_pos (by omega)
    exact ⟨fun hr => hwalk.1 ⟨hr hne, fun _ _ => trivial⟩,
      fun hr => hwalk.2 fun hall => hr fun _ => hall.1⟩
  | .variantArray bounds cells, hs, hf => fun fuel c tl hfuel h => by
    obtain ⟨hcreate, hlen⟩ : SupportedHere (.variantArray bounds cells) := hs.self
    rw [valueBytes, cellsBytes_eq_flatMap] at h hfuel ⊢
    exact readVariantArray_spec mem hcreate hlen
      (readValue_spec_cells loc strict mem mem' cells hs.2 hf.2) hfuel h
  | .dispatch _, hs, _ => absurd hs.self id
  | .unknown _, hs, _ => absurd hs.self id
  | .otherArray _ _ _ _, hs, _ => absurd hs.self id
  | .nullArray _, hs, _ => absurd hs.self id
  | .byrefArray _, hs, _ => absurd hs.self id
  | .raw _ _, hs, _ => absurd hs.self id

/-- INTERNAL: the same for every cell of an array. -/
theorem readValue_spec_cells (loc : Collation) (strict : Bool) (mem mem' : Memory) :
    (cells : List Variant) → HereditaryCells SupportedHere cells →
      HereditaryCells FitsHere cells → ∀ v ∈ cells, ReadSpec loc strict mem mem' v
  | [], _, _, v, hv => absurd hv (by simp)
  | u :: cells, hs, hf, v, hv => by
    rcases List.mem_cons.mp hv with h | h
    · rw [h]
      exact readValue_spec loc strict mem mem' u hs.1 hf.1
    · exact readValue_spec_cells loc strict mem mem' cells hs.2 hf.2 v h

end

end IspSession.Analysis
