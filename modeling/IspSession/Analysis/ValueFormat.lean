import IspSession.Analysis.ArrayWalk

/-!
# The format of values, and the writers

`valueBytes` is the format `WriteValue` is meant to produce: every value as one byte
string, defined by recursion over the value. Three predicates say which values it can
produce it for.

* `Supported`: the types and strings the codec is made for, arrays as automation makes
  them.
* `Fits`: strings and data areas whose sizes stay in the range of an `INT`.
* `Writable`: no `VARIANT` array with cells defeats the carry loop.

`writeValue_spec`: on supported values that fit, `WriteValue` appends `valueBytes` if the
value is writable, and faults otherwise.
-/

set_option autoImplicit false

namespace IspSession.Analysis

open IspSession.Library IspSession.Model

/-! ## The format -/

/-- A string: the size of its UTF-8 form and its bytes. -/
def stringBytes (s : Bstr) : List UInt8 := leBytes 4 (utf16ToUtf8 s).length ++ utf16ToUtf8 s

/-- What stands in front of an array's cells. -/
def headerBytes (mem : Memory) (vcopy : VarType) (elSize : ℕ) (bounds : List SafeArrayBound) :
    List UInt8 :=
  arrayDescriptor mem (vtArray ||| vcopy) elSize bounds.length ++
    stringBytes (arrayTypeName vcopy) ++ bounds.flatMap SafeArrayBound.bytes

mutual

/-- A value, without its tag. -/
def valueBytes (mem : Memory) : Variant → List UInt8
  | .scalar t bits => leBytes t.size bits.toNat
  | .decimal d => leBytes 2 vtDecimal.toNat ++ leBytes 14 d.toNat
  | .bstr s => stringBytes s
  | .blockArray t bounds data => headerBytes mem t.vt t.size bounds ++ data
  | .bstrArray bounds cells => headerBytes mem vtBstr 8 bounds ++ cells.flatMap stringBytes
  | .variantArray bounds cells => headerBytes mem vtVariant 24 bounds ++ cellsBytes mem cells
  | _ => []

/-- The cells of a `VARIANT` array, each with its tag. -/
def cellsBytes (mem : Memory) : List Variant → List UInt8
  | [] => []
  | v :: cells => leBytes 2 v.vt.toNat ++ (valueBytes mem v ++ cellsBytes mem cells)

end

/-- A cell of a `VARIANT` array, the tag in front of the bytes of its value. -/
def taggedBytes (enc : Variant → List UInt8) (v : Variant) : List UInt8 :=
  leBytes 2 v.vt.toNat ++ enc v

/-- The cells' bytes, cell by cell. -/
theorem cellsBytes_eq_flatMap (mem : Memory) (cells : List Variant) :
    cellsBytes mem cells = cells.flatMap (taggedBytes (valueBytes mem)) := by
  induction cells with
  | nil => rfl
  | cons v cells ih => rw [cellsBytes, ih, List.flatMap_cons, taggedBytes, List.append_assoc]

/-! ## Predicates on values -/

mutual

/-- A property of a value and of all values in its cells. -/
def Hereditary (p : Variant → Prop) : Variant → Prop
  | .variantArray bounds cells => p (.variantArray bounds cells) ∧ HereditaryCells p cells
  | v => p v

/-- The same for a list of cells. -/
def HereditaryCells (p : Variant → Prop) : List Variant → Prop
  | [] => True
  | v :: cells => Hereditary p v ∧ HereditaryCells p cells

end

/-- A hereditary property holds of the value itself. -/
theorem Hereditary.self {p : Variant → Prop} {v : Variant} (h : Hereditary p v) : p v := by
  cases v with
  | variantArray bounds cells => exact (by simpa [Hereditary] using h : _ ∧ _).1
  | _ => simpa [Hereditary] using h

mutual

/-- A weaker property is inherited with a stronger one. -/
theorem Hereditary.mono {p q : Variant → Prop} (hpq : ∀ v, p v → q v) :
    (v : Variant) → Hereditary p v → Hereditary q v
  | .variantArray bounds cells, h => by
    rw [Hereditary] at h ⊢
    exact ⟨hpq _ h.1, HereditaryCells.mono hpq cells h.2⟩
  | .empty, h | .null, h | .scalar _ _, h | .decimal _, h | .bstr _, h | .dispatch _, h
  | .unknown _, h | .blockArray _ _ _, h | .bstrArray _ _, h | .otherArray _ _ _ _, h
  | .nullArray _, h | .byrefArray _, h | .raw _ _, h => by
    simp only [Hereditary] at h ⊢
    exact hpq _ h

/-- INTERNAL: the same for a list of cells. -/
theorem HereditaryCells.mono {p q : Variant → Prop} (hpq : ∀ v, p v → q v) :
    (cells : List Variant) → HereditaryCells p cells → HereditaryCells q cells
  | [], _ => trivial
  | v :: cells, h => by
    rw [HereditaryCells] at h ⊢
    exact ⟨Hereditary.mono hpq v h.1, HereditaryCells.mono hpq cells h.2⟩

end

/-- The value's type, and the array it may be, is one the codec is made for. -/
def SupportedHere : Variant → Prop
  | .empty | .null | .scalar _ _ | .decimal _ => True
  | .bstr s => WellFormedUtf16 s
  | .blockArray t bounds data =>
    t.isBlock = true ∧ safeArrayCreate t.vt bounds = some t.size ∧
      data.length = elementCount bounds * t.size
  | .bstrArray bounds cells =>
    safeArrayCreate vtBstr bounds = some 8 ∧ cells.length = elementCount bounds ∧
      ∀ s ∈ cells, WellFormedUtf16 s
  | .variantArray bounds cells =>
    safeArrayCreate vtVariant bounds = some 24 ∧ cells.length = elementCount bounds
  | _ => False

/-- Scalars, strings, and arrays of them or of variants that are supported themselves. -/
def Supported (v : Variant) : Prop := Hereditary SupportedHere v

/-- The conversion buffer can take the string and its terminating zero. -/
def StringFits (s : Bstr) : Prop := (utf16ToUtf8 s).length + 1 < 2 ^ 31 - 1024

/-- INTERNAL: a string is read as the text its bytes are of. -/
theorem stringBytes_normalText (s : Bstr) : stringBytes (normalText s) = stringBytes s := by
  rw [stringBytes, stringBytes, utf16ToUtf8_normalText]

theorem stringFits_normalText {s : Bstr} (h : StringFits s) : StringFits (normalText s) := by
  unfold StringFits at h ⊢
  rwa [utf16ToUtf8_normalText]

/-- The value's own sizes stay in the range of an `INT`. -/
def FitsHere : Variant → Prop
  | .bstr s => StringFits s
  | .blockArray _ _ data => data.length < 2 ^ 31
  | .bstrArray _ cells => ∀ s ∈ cells, StringFits s
  | _ => True

/-- All sizes in the value do. -/
def Fits (v : Variant) : Prop := Hereditary FitsHere v

/-- The carry loop gets through the value's own cells when writing. -/
def WritableHere : Variant → Prop
  | .variantArray bounds cells => cells ≠ [] → Walkable bounds
  | _ => True

/-- It gets through all cells when writing. -/
def Writable (v : Variant) : Prop := Hereditary WritableHere v

/-! ## Numbers of cells -/

/-- INTERNAL: the product of the extents, as a wrapping integer. -/
theorem toNat_longProduct_aux (bounds : List SafeArrayBound) (n : BitVec 32) :
    (bounds.foldl (fun n b => n * b.cElements) n).toNat =
      n.toNat * elementCount bounds % 2 ^ 32 := by
  induction bounds generalizing n with
  | nil => simp [elementCount_eq, Odometer.count, Nat.mod_eq_of_lt n.isLt]
  | cons b bs ih =>
    have hcount : elementCount (b :: bs) = b.cElements.toNat * elementCount bs := rfl
    rw [List.foldl_cons, ih, BitVec.toNat_mul, hcount, Nat.mod_mul_mod, Nat.mul_assoc]

/-- The product of the extents is the number of cells. -/
theorem toNat_longProduct (bounds : List SafeArrayBound) (h : elementCount bounds < 2 ^ 32) :
    (longProduct bounds).toNat = elementCount bounds := by
  have hone : (1 : BitVec 32).toNat = 1 := rfl
  rw [longProduct, toNat_longProduct_aux, hone, Nat.one_mul, Nat.mod_eq_of_lt h]

/-- The test `lElements > 0` of a number in range. -/
theorem zero_slt_iff {x : BitVec 32} (h : x.toNat < 2 ^ 31) :
    (0#32).slt x = decide (0 < x.toNat) := by
  have hx : x.toInt = x.toNat := by
    rw [BitVec.toInt_eq_toNat_cond, if_pos (by omega)]
  simp only [BitVec.slt, decide_eq_decide, hx, BitVec.toInt_zero]
  omega

/-- What `SafeArrayCreate` has checked. -/
theorem safeArrayCreate_eq_some {vt : VarType} {bounds : List SafeArrayBound} {cb : ℕ}
    (h : safeArrayCreate vt bounds = some cb) :
    elemSize vt = some cb ∧ 0 < bounds.length ∧ bounds.length < 2 ^ 16 ∧
      elementCount bounds * cb < 2 ^ 32 := by
  unfold safeArrayCreate at h
  cases hsize : elemSize vt with
  | none => simp [hsize] at h
  | some cb' =>
    simp only [hsize] at h
    split at h
    · rename_i hok
      obtain rfl : cb' = cb := by simpa using h
      exact ⟨rfl, hok⟩
    · cases h

/-! ## Writers -/

/-- Writing on a channel. -/
theorem Channel.write_eq (c : Channel) (bs : List UInt8) :
    c.write bs = ⟨c.stream.write bs, c.m_currentBufLen⟩ := rfl

/-- The conversion buffer grows to the size of a string that fits. -/
theorem exists_ensureBuffer (c : Channel) {n : ℕ} (h : n < 2 ^ 31 - 1024) :
    ∃ b, n ≤ b ∧ c.ensureBuffer n = .ok ⟨c.stream, b⟩ := by
  unfold Channel.ensureBuffer
  by_cases hle : n ≤ c.m_currentBufLen
  · exact ⟨c.m_currentBufLen, hle, if_pos (.inr hle)⟩
  · refine ⟨n / 512 * 512 + 1024, by omega, ?_⟩
    rw [if_neg (by omega)]
    exact if_pos (by omega)

/-- **`WriteString` appends the string's bytes.** -/
theorem writeString_spec {s : Bstr} (hs : StringFits s) (c : Channel) (hc : c.stream.Sound) :
    ∃ b, writeString s c = .ok (.sOk, ⟨c.stream.write (stringBytes s), b⟩) := by
  unfold StringFits at hs
  unfold writeString
  by_cases h0 : s = []
  · exact ⟨c.m_currentBufLen, by simp [h0, stringBytes, utf16ToUtf8_eq_nil.mpr, Channel.write]⟩
  · obtain ⟨b, -, hb⟩ := exists_ensureBuffer c hs
    refine ⟨b, ?_⟩
    simp only [h0, if_false]
    rw [if_neg (by omega), hb]
    simp only [Run.ok_bind, Run.pure_eq, Channel.write_eq, hc.write_write, stringBytes]

/-- INTERNAL: the type names are short. -/
theorem stringFits_arrayTypeName (vcopy : VarType) : StringFits (arrayTypeName vcopy) := by
  unfold arrayTypeName
  split <;> (unfold StringFits; decide)

/-- The bounds are written one after the other. -/
theorem foldl_write_bounds (bounds : List SafeArrayBound) (c : Channel) (hc : c.stream.Sound) :
    bounds.foldl (fun c b => c.write b.bytes) c =
      ⟨c.stream.write (bounds.flatMap SafeArrayBound.bytes), c.m_currentBufLen⟩ := by
  induction bounds generalizing c with
  | nil => simp
  | cons b bs ih =>
    rw [List.foldl_cons, ih (c.write b.bytes) (hc.write _), List.flatMap_cons]
    simp only [Channel.write_eq, hc.write_write]

/-- The common part of the array writers. -/
theorem writeArrayHeader_spec (mem : Memory) (vcopy : VarType) (elSize : ℕ)
    (bounds : List SafeArrayBound) (c : Channel) (hc : c.stream.Sound) :
    ∃ b, writeArrayHeader mem vcopy elSize bounds c =
      .ok ⟨c.stream.write (headerBytes mem vcopy elSize bounds), b⟩ := by
  have hd := hc.write (arrayDescriptor mem (vtArray ||| vcopy) elSize bounds.length)
  obtain ⟨b, hb⟩ := writeString_spec (stringFits_arrayTypeName vcopy) (c.write _) hd
  refine ⟨b, ?_⟩
  simp only [writeArrayHeader, hb, Run.ok_bind, Run.pure_eq]
  rw [foldl_write_bounds _ _ (hd.write _)]
  simp only [Channel.write_eq, hc.write_write, headerBytes, List.append_assoc]

/-- The strings of an array are written one after the other. -/
theorem writeStrings_spec {cells : List Bstr} (hs : ∀ s ∈ cells, StringFits s) (c : Channel)
    (hc : c.stream.Sound) :
    ∃ b, writeStrings cells c = .ok (.sOk, ⟨c.stream.write (cells.flatMap stringBytes), b⟩) := by
  induction cells generalizing c with
  | nil => exact ⟨c.m_currentBufLen, by simp [writeStrings]⟩
  | cons s cells ih =>
    obtain ⟨b, hb⟩ := writeString_spec (hs s (by simp)) c hc
    obtain ⟨b', hb'⟩ := ih (fun s hs' => hs s (by simp [hs'])) ⟨c.stream.write (stringBytes s), b⟩
      (hc.write _)
    refine ⟨b', ?_⟩
    simp only [writeStrings, hb, Run.ok_bind, if_true, hb', List.flatMap_cons,
      hc.write_write]

/-- The result of a writer that appends `bs` when `ok` holds and faults otherwise. -/
def WritesOrFaults (ok : Prop) (bs : List UInt8) (c : Channel) (r : Run (HResult × Channel)) :
    Prop :=
  (ok → ∃ hr b, r = .ok (hr, ⟨c.stream.write bs, b⟩)) ∧ (¬ ok → r = .error .fault)

/-- INTERNAL: the case in which the writer does append. -/
theorem WritesOrFaults.of_ok {ok : Prop} {bs : List UInt8} {c : Channel} {r : Run (HResult × Channel)}
    (hok : ok) (hr : HResult) (b : ℕ) (h : r = .ok (hr, ⟨c.stream.write bs, b⟩)) :
    WritesOrFaults ok bs c r :=
  ⟨fun _ => ⟨hr, b, h⟩, fun hn => absurd hok hn⟩

/-- What `WriteValue` is to do with a value. -/
def WriteSpec (mem : Memory) (flag : Bool) (v : Variant) : Prop :=
  ∀ c : Channel, c.stream.Sound →
    WritesOrFaults (Writable v) (valueBytes mem v) c (writeValue mem flag v c)

/-- The same with the bytes that an encoding gives. -/
def WritesAs (mem : Memory) (flag : Bool) (enc : Variant → List UInt8) (v : Variant) : Prop :=
  ∀ c : Channel, c.stream.Sound →
    WritesOrFaults (Writable v) (enc v) c (writeValue mem flag v c)

/-- The writers of a `VARIANT` array, cell by cell. -/
theorem variantCellWriters_eq_map (mem : Memory) (flag : Bool) (cells : List Variant) :
    variantCellWriters mem flag cells =
      cells.map fun v c => writeValue mem flag v (c.write (leBytes 2 v.vt.toNat)) := by
  induction cells with
  | nil => rfl
  | cons v cells ih => rw [variantCellWriters, ih, List.map_cons]

/-- INTERNAL: the stretch of index vectors from `k` on. -/
theorem indicesFrom_succ (bounds : List SafeArrayBound) (k n : ℕ) :
    Odometer.indicesFrom extent loopIndex bounds k (n + 1) =
      Odometer.indexAt extent loopIndex bounds k ::
        Odometer.indicesFrom extent loopIndex bounds (k + 1) n := by
  simp [Odometer.indicesFrom, List.range'_succ]

/-- One round of the writing loop. -/
theorem writeCells_visit (bounds : List SafeArrayBound)
    (writers : List (Channel → Run (HResult × Channel))) {is : List (BitVec 32)} {k : ℕ}
    {w : Channel → Run (HResult × Channel)} (hk : safeArrayPtrOfIndex bounds is = some k)
    (hw : writers[k]? = some w) (s : HResult × Channel × Bool) :
    writeCells.visit bounds writers is s =
      w s.2.1 >>= fun r => pure (r.1, r.2, false) := by
  simp only [writeCells.visit, hk, hw]

/-- INTERNAL: the sweep over the cells from `k` on. -/
theorem sweep_writers {ι : Type} {bounds : List SafeArrayBound} {items : List ι}
    {w : ι → Channel → Run (HResult × Channel)} {ok : ι → Prop} {bs : ι → List UInt8}
    (hlen : items.length = elementCount bounds)
    (hitems : ∀ a ∈ items, ∀ c : Channel, c.stream.Sound → WritesOrFaults (ok a) (bs a) c (w a c))
    (todo : List ι) (k : ℕ) (htodo : items.drop k = todo) (hr : HResult) (c : Channel)
    (hc : c.stream.Sound) :
    ((∀ a ∈ todo, ok a) → ∃ hr' b,
      Odometer.sweep (fun s : HResult × Channel × Bool => !s.2.2)
        (writeCells.visit bounds (items.map w))
        (Odometer.indicesFrom extent loopIndex bounds k todo.length) (hr, c, false) =
        .ok (hr', ⟨c.stream.write (todo.flatMap bs), b⟩, false)) ∧
    (¬ (∀ a ∈ todo, ok a) →
      Odometer.sweep (fun s : HResult × Channel × Bool => !s.2.2)
        (writeCells.visit bounds (items.map w))
        (Odometer.indicesFrom extent loopIndex bounds k todo.length) (hr, c, false) =
        .error .fault) := by
  induction todo generalizing k hr c with
  | nil =>
    refine ⟨fun _ => ⟨hr, c.m_currentBufLen, ?_⟩, fun h => absurd (by simp) h⟩
    simp [Odometer.indicesFrom, Odometer.sweep]
  | cons a todo ih =>
    have hk : k < items.length := by
      by_contra hge
      rw [List.drop_eq_nil_of_le (by omega)] at htodo
      cases htodo
    have hget : items[k]? = some a := by
      rw [← List.head?_drop, htodo, List.head?_cons]
    have hrest : items.drop (k + 1) = todo := by
      rw [← List.tail_drop, htodo, List.tail_cons]
    have hwriter : (items.map w)[k]? = some (w a) := by
      rw [List.getElem?_map, hget, Option.map_some]
    have hvisit := writeCells_visit bounds (items.map w)
      (safeArrayPtrOfIndex_indexAt (hlen ▸ hk)) hwriter (hr, c, false)
    obtain ⟨hok, hfault⟩ := hitems a (List.mem_of_getElem? hget) c hc
    rw [List.length_cons, indicesFrom_succ]
    simp only [Odometer.sweep, Bool.not_false, if_true, hvisit, List.forall_mem_cons]
    by_cases ha : ok a
    · obtain ⟨hr', b, hb⟩ := hok ha
      obtain ⟨hok', hfault'⟩ := ih (k + 1) hrest hr' ⟨c.stream.write (bs a), b⟩ (hc.write _)
      simp only [hb, Run.ok_bind, Run.pure_eq]
      constructor
      · rintro ⟨-, hrestOk⟩
        obtain ⟨hr'', b', hb'⟩ := hok' hrestOk
        refine ⟨hr'', b', ?_⟩
        rw [hb']
        simp only [hc.write_write, List.flatMap_cons]
      · intro hnot
        exact hfault' fun hrestOk => hnot ⟨ha, hrestOk⟩
    · constructor
      · rintro ⟨ha', -⟩
        exact absurd ha' ha
      · intro _
        rw [hfault ha]
        rfl

/-- **The cells of an array**, each by its own writer, are written in memory order, unless the
carry loop or one of the writers faults. -/
theorem writeCells_writers {ι : Type} {bounds : List SafeArrayBound} {items : List ι}
    {w : ι → Channel → Run (HResult × Channel)} {ok : ι → Prop} {bs : ι → List UInt8}
    (hrank : bounds ≠ []) (hlen : items.length = elementCount bounds)
    (hcount : elementCount bounds < 2 ^ 31)
    (hitems : ∀ a ∈ items, ∀ c : Channel, c.stream.Sound → WritesOrFaults (ok a) (bs a) c (w a c))
    (c : Channel) (hc : c.stream.Sound) :
    WritesOrFaults ((items ≠ [] → Walkable bounds) ∧ ∀ a ∈ items, ok a) (items.flatMap bs) c
      (writeCells bounds (items.map w) c) := by
  have htotal := toNat_longProduct bounds (by omega)
  have hslt := zero_slt_iff (x := longProduct bounds) (by omega)
  rw [htotal] at hslt
  by_cases h0 : elementCount bounds = 0
  · have hnil : items = [] := List.length_eq_zero_iff.mp (by omega)
    subst hnil
    refine .of_ok ⟨fun h => absurd rfl h, by simp⟩ .sOk c.m_currentBufLen ?_
    simp [writeCells, hslt, h0]
  · have hne : items ≠ [] := by
      rintro rfl
      exact h0 (by simpa using hlen.symm)
    have hfilled : (0#32).slt (longProduct bounds) = true := by
      rw [hslt]
      simpa using Nat.pos_of_ne_zero h0
    simp only [writeCells, hfilled, if_true]
    by_cases hw : Walkable bounds
    · rw [walkArray_of_walkable _ _ hrank (Nat.pos_of_ne_zero h0) htotal hw]
      obtain ⟨hok, hfault⟩ := sweep_writers hlen hitems items 0 rfl .sOk c hc
      rw [hlen] at hok hfault
      constructor
      · rintro ⟨-, hall⟩
        obtain ⟨hr, b, hb⟩ := hok hall
        exact ⟨hr, b, by rw [hb]; rfl⟩
      · intro hnot
        rw [hfault fun hall => hnot ⟨fun _ => hw, hall⟩]
        rfl
    · refine ⟨fun h => absurd (h.1 hne) hw, fun _ => ?_⟩
      rw [walkArray_of_not_walkable (Nat.pos_of_ne_zero h0) htotal hw
        (fun _ s => s.2.2 = false ∧ s.2.1.stream.Sound) ⟨rfl, hc⟩]
      · rfl
      · rintro n s ⟨hs, -⟩ -
        rw [hs]
        rfl
      · rintro n s is k ⟨-, hs⟩ - hk hlt
        obtain ⟨a, ha⟩ : ∃ a, items[k]? = some a := ⟨_, List.getElem?_eq_getElem (hlen ▸ hlt)⟩
        have hwriter : (items.map w)[k]? = some (w a) := by
          rw [List.getElem?_map, ha, Option.map_some]
        rw [writeCells_visit bounds _ hk hwriter]
        obtain ⟨hok, hfault⟩ := hitems a (List.mem_of_getElem? ha) s.2.1 hs
        by_cases hoka : ok a
        · obtain ⟨hr, b, hb⟩ := hok hoka
          exact .inr ⟨_, by rw [hb]; rfl, rfl, hs.write _⟩
        · exact .inl (by rw [hfault hoka]; rfl)

/-- INTERNAL: a hereditary property of a list of cells holds of each. -/
theorem hereditaryCells_iff {p : Variant → Prop} {cells : List Variant} :
    HereditaryCells p cells ↔ ∀ v ∈ cells, Hereditary p v := by
  induction cells with
  | nil => simp [HereditaryCells]
  | cons v cells ih => simp [HereditaryCells, ih]

/-- INTERNAL: the tag of a cell is written in front of its value. -/
theorem writesOrFaults_tagged {mem : Memory} {flag : Bool} {v : Variant} {ok : Prop}
    {enc : Variant → List UInt8}
    (h : ∀ c : Channel, c.stream.Sound → WritesOrFaults ok (enc v) c (writeValue mem flag v c))
    (c : Channel) (hc : c.stream.Sound) :
    WritesOrFaults ok (taggedBytes enc v) c
      (writeValue mem flag v (c.write (leBytes 2 v.vt.toNat))) := by
  have hspec := h (c.write (leBytes 2 v.vt.toNat)) (hc.write _)
  simpa only [WritesOrFaults, Channel.write_eq, hc.write_write, taggedBytes] using hspec

/-- **The cells of a `VARIANT` array** are written in memory order, unless the carry loop
or a cell's own writer faults. -/
theorem writeCells_spec {mem : Memory} {flag : Bool} {enc : Variant → List UInt8}
    {bounds : List SafeArrayBound} {cells : List Variant} (hrank : bounds ≠ [])
    (hlen : cells.length = elementCount bounds) (hcount : elementCount bounds < 2 ^ 31)
    (hcells : ∀ v ∈ cells, WritesAs mem flag enc v) (c : Channel) (hc : c.stream.Sound) :
    WritesOrFaults ((cells ≠ [] → Walkable bounds) ∧ HereditaryCells WritableHere cells)
      (cells.flatMap (taggedBytes enc)) c
      (writeCells bounds (variantCellWriters mem flag cells) c) := by
  rw [variantCellWriters_eq_map, hereditaryCells_iff]
  exact writeCells_writers hrank hlen hcount
    (fun v hv c hc => writesOrFaults_tagged (hcells v hv) c hc) c hc

/-- INTERNAL: an array with a dimension has a bounds list. -/
theorem ne_nil_of_safeArrayCreate {vt : VarType} {bounds : List SafeArrayBound} {cb : ℕ}
    (h : safeArrayCreate vt bounds = some cb) : bounds ≠ [] :=
  List.ne_nil_of_length_pos (safeArrayCreate_eq_some h).2.1

/-- The data area of an array of a block type is written whole. -/
theorem writeBlock_spec {t : ScalarType} {bounds : List SafeArrayBound} {data : List UInt8}
    (hcreate : safeArrayCreate t.vt bounds = some t.size)
    (hdata : data.length = elementCount bounds * t.size) (hfits : data.length < 2 ^ 31)
    (c : Channel) :
    (if (0#32).slt (longProduct bounds * BitVec.ofNat 32 t.size) then
      c.write (data.take (longProduct bounds * BitVec.ofNat 32 t.size).toNat) else c) =
    c.write data := by
  obtain ⟨-, -, -, hsize⟩ := safeArrayCreate_eq_some hcreate
  have hpos := t.size_pos
  have hcount : elementCount bounds < 2 ^ 31 := by nlinarith
  have hmem : (longProduct bounds * BitVec.ofNat 32 t.size).toNat = data.length := by
    rw [BitVec.toNat_mul, toNat_longProduct bounds (by omega), BitVec.toNat_ofNat, Nat.mul_mod_mod,
      Nat.mod_eq_of_lt hsize, hdata]
  rw [zero_slt_iff (by omega), hmem, List.take_length]
  by_cases h0 : data = []
  · simp [h0, Channel.write]
  · simp [List.length_pos_of_ne_nil h0]

/-- INTERNAL: a `VARIANT` array whose cells are written with an encoding. -/
theorem writeVariantArray_spec {mem : Memory} {flag : Bool} {enc : Variant → List UInt8}
    {bounds : List SafeArrayBound} {cells : List Variant}
    (hcreate : safeArrayCreate vtVariant bounds = some 24)
    (hlen : cells.length = elementCount bounds) (hcells : ∀ v ∈ cells, WritesAs mem flag enc v)
    (c : Channel) (hc : c.stream.Sound) :
    WritesOrFaults (Writable (.variantArray bounds cells))
      (headerBytes mem vtVariant 24 bounds ++ cells.flatMap (taggedBytes enc)) c
      (writeValue mem flag (.variantArray bounds cells) c) := by
  obtain ⟨-, -, -, hsize⟩ := safeArrayCreate_eq_some hcreate
  obtain ⟨b, hb⟩ := writeArrayHeader_spec mem vtVariant 24 bounds c hc
  have hspec := writeCells_spec (ne_nil_of_safeArrayCreate hcreate) hlen (by omega) hcells
    ⟨c.stream.write (headerBytes mem vtVariant 24 bounds), b⟩ (hc.write _)
  rw [writeValue, hb]
  simpa only [WritesOrFaults, hc.write_write, Run.ok_bind, Writable, Hereditary,
    WritableHere] using hspec

/-- INTERNAL: a `BSTR` array. -/
theorem writeBstrArray_spec {mem : Memory} {flag : Bool} {bounds : List SafeArrayBound}
    {cells : List Bstr} (hcreate : safeArrayCreate vtBstr bounds = some 8)
    (hlen : cells.length = elementCount bounds) (hfits : ∀ s ∈ cells, StringFits s) (c : Channel)
    (hc : c.stream.Sound) :
    WritesOrFaults True (valueBytes mem (.bstrArray bounds cells)) c
      (writeValue mem flag (.bstrArray bounds cells) c) := by
  obtain ⟨-, -, -, hsize⟩ := safeArrayCreate_eq_some hcreate
  obtain ⟨b, hb⟩ := writeArrayHeader_spec mem vtBstr 8 bounds c hc
  obtain ⟨b', hb'⟩ := writeStrings_spec hfits
    ⟨c.stream.write (headerBytes mem vtBstr 8 bounds), b⟩ (hc.write _)
  have htotal := toNat_longProduct bounds (by omega)
  simp only [writeValue, hb, Run.ok_bind]
  rw [zero_slt_iff (by omega), htotal, ← hlen, List.take_length]
  by_cases h0 : cells = []
  · refine .of_ok trivial .sOk b ?_
    simp [h0, valueBytes]
  · refine .of_ok trivial .sOk b' ?_
    simp only [List.length_pos_of_ne_nil h0, decide_true, if_true, hb', hc.write_write,
      valueBytes]

mutual

/-- **`WriteValue` appends the value's format, or faults in a carry loop.** The induction
is on the value; its step for a `VARIANT` array is `writeCells_spec`. -/
theorem writeValue_spec (mem : Memory) (flag : Bool) :
    (v : Variant) → Supported v → Fits v → WriteSpec mem flag v
  | .empty, _, _ => fun c _ => .of_ok trivial .sOk c.m_currentBufLen (by rfl)
  | .null, _, _ => fun c _ => .of_ok trivial .sOk c.m_currentBufLen (by rfl)
  | .scalar _ _, _, _ => fun c _ => .of_ok trivial .sOk c.m_currentBufLen (by rfl)
  | .decimal _, _, _ => fun c _ => .of_ok trivial .sOk c.m_currentBufLen (by rfl)
  | .bstr s, _, hf => fun c hc => by
    obtain ⟨b, hb⟩ := writeString_spec hf.self c hc
    exact .of_ok trivial .sOk b (by rw [writeValue, hb]; rfl)
  | .blockArray t bounds data, hs, hf => fun c hc => by
    obtain ⟨-, hcreate, hdata⟩ : SupportedHere (.blockArray t bounds data) := hs.self
    obtain ⟨b, hb⟩ := writeArrayHeader_spec mem t.vt t.size bounds c hc
    refine .of_ok trivial .sOk b ?_
    simp only [writeValue, hb, Run.ok_bind, Run.pure_eq, writeBlock_spec hcreate hdata hf.self]
    simp only [Channel.write_eq, hc.write_write, valueBytes]
  | .bstrArray bounds cells, hs, hf => fun c hc => by
    obtain ⟨hcreate, hlen, -⟩ : SupportedHere (.bstrArray bounds cells) := hs.self
    exact writeBstrArray_spec hcreate hlen hf.self c hc
  | .variantArray bounds cells, hs, hf => fun c hc => by
    obtain ⟨hcreate, hlen⟩ : SupportedHere (.variantArray bounds cells) := hs.self
    rw [valueBytes, cellsBytes_eq_flatMap]
    exact writeVariantArray_spec hcreate hlen (writeValue_spec_cells mem flag cells hs.2 hf.2) c hc
  | .dispatch _, hs, _ => absurd hs.self id
  | .unknown _, hs, _ => absurd hs.self id
  | .otherArray _ _ _ _, hs, _ => absurd hs.self id
  | .nullArray _, hs, _ => absurd hs.self id
  | .byrefArray _, hs, _ => absurd hs.self id
  | .raw _ _, hs, _ => absurd hs.self id

/-- INTERNAL: the same for every cell of an array. -/
theorem writeValue_spec_cells (mem : Memory) (flag : Bool) :
    (cells : List Variant) → HereditaryCells SupportedHere cells →
      HereditaryCells FitsHere cells → ∀ v ∈ cells, WriteSpec mem flag v
  | [], _, _, v, hv => absurd hv (by simp)
  | u :: cells, hs, hf, v, hv => by
    rcases List.mem_cons.mp hv with h | h
    · rw [h]
      exact writeValue_spec mem flag u hs.1 hf.1
    · exact writeValue_spec_cells mem flag cells hs.2 hf.2 v h

end

end IspSession.Analysis
