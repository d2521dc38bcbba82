import IspSession.Analysis.NestedObjects
import IspSession.Model.Application

/-!
# The two native codecs

`CApplication` and `CVariantDictionary` have a `WriteValue` and a `ReadValue` each. The readers
differ in which results of a read they look at, so they agree on whatever a writer has emitted
(`sameReads_objectsBytes`): there is always enough to read, and a stored object that is empty ends
the loops of both. The writers differ in objects. The dictionary saves a live object where it
stands. `SerializeKey` converts the object that is a variable's value, and `WriteValue` of the
application then looks for streams only: a live object in an array is written as zero bytes.
-/

set_option autoImplicit false

namespace IspSession.Model

/-- `CApplication::WriteValue` (Application.cpp:1119-1408): an object must be a stream. -/
def CApplication.writeValue (mem : Memory) : Variant → Channel → Run (HResult × Channel) :=
  Model.writeValue mem true

/-- `CApplication::ReadValue` (Application.cpp:752-1012). -/
def CApplication.readValue (loc : Collation) (mem : Memory) :
    ℕ → VarType → Channel → Run (HResult × Variant × Channel) :=
  Model.readValue loc false mem

/-- `CVariantDictionary::WriteValue` (CVariantDictionary.cpp:456-768): the flag of the key says
whether an object is a stream. -/
def VariantDictionary.writeValue {loc : Collation} (d : VariantDictionary loc) (mem : Memory)
    (strKeyName : Bstr) : Variant → Channel → Run (HResult × Channel) :=
  Model.writeValue mem (d.isSerialized strKeyName)

/-- `CVariantDictionary::ReadValue` (CVariantDictionary.cpp:816-1077). -/
def VariantDictionary.readValue (loc : Collation) (mem : Memory) :
    ℕ → VarType → Channel → Run (HResult × Variant × Channel) :=
  Model.readValue loc true mem

end IspSession.Model

namespace IspSession.Analysis

open IspSession.Library IspSession.Model

/-! ## The readers -/

/-- The strict and the other `ReadValue` do the same on the bytes, and stand behind them when they
have succeeded. -/
def SameReads (loc : Collation) (mem : Memory) (vt : VarType) (bs : List UInt8) : Prop :=
  ∀ (fuel : ℕ) (c : Channel) (tl : List UInt8), c.stream.rest = bs ++ tl →
    readValue loc true mem fuel vt c = readValue loc false mem fuel vt c ∧
      ∀ v c', readValue loc true mem fuel vt c = .ok (.sOk, v, c') → c'.stream.rest = tl

/-- INTERNAL: a value that is no array and that both readers deliver. -/
theorem sameReads_of_deliversBoth {loc : Collation} {mem : Memory} {vt : VarType}
    (hvt : ¬ (vt &&& vtArray = vtArray)) {v : Variant} {bs : List UInt8}
    (h : ∀ (c : Channel) (tl : List UInt8), c.stream.rest = bs ++ tl →
      DeliversBoth v bs c fun strict => readScalar strict mem vt c) :
    SameReads loc mem vt bs := by
  intro fuel c tl hrest
  cases fuel with
  | zero => exact ⟨rfl, fun _ _ hread => by cases hread⟩
  | succ fuel =>
    obtain ⟨b, hb⟩ := h c tl hrest
    rw [readValue_of_scalar loc true mem fuel hvt, readValue_of_scalar loc false mem fuel hvt]
    refine ⟨(hb true).trans (hb false).symm, fun w c' hread => ?_⟩
    obtain ⟨-, hpair⟩ := Prod.mk.inj (Except.ok.inj ((hb true).symm.trans hread))
    obtain ⟨-, rfl⟩ := Prod.mk.inj hpair
    exact CStream.rest_advance_of_append hrest

/-- INTERNAL: an array is the same for both readers when its cells are. -/
theorem sameReads_array {loc : Collation} {mem mem' : Memory} {vt vcopy : VarType}
    {bounds : List SafeArrayBound} {cb : ℕ} (hvt : vt &&& vtArray = vtArray)
    (hcopy : (vtArray ||| vcopy) ^^^ vtArray = vcopy)
    (hcreate : safeArrayCreate vcopy bounds = some cb) (hcb : 0 < cb ∧ cb < 2 ^ 32)
    {bs : List UInt8}
    (hcells : ∀ (fuel : ℕ) (c : Channel) (tl : List UInt8), c.stream.rest = bs ++ tl →
      readCells true mem' (readValue loc true mem' fuel) vcopy bounds cb (longProduct bounds)
          (BitVec.ofNat 32 cb) c =
        readCells false mem' (readValue loc false mem' fuel) vcopy bounds cb (longProduct bounds)
          (BitVec.ofNat 32 cb) c ∧
      ∀ v c', readCells true mem' (readValue loc true mem' fuel) vcopy bounds cb
        (longProduct bounds) (BitVec.ofNat 32 cb) c = .ok (.sOk, v, c') → c'.stream.rest = tl) :
    SameReads loc mem' vt (headerBytes mem vcopy cb bounds ++ bs) := by
  intro fuel c tl hrest
  cases fuel with
  | zero => exact ⟨rfl, fun _ _ hread => by cases hread⟩
  | succ fuel =>
    rw [List.append_assoc] at hrest
    obtain ⟨b, hb⟩ := readArray_header loc mem mem' hcopy hcreate hcb hrest
    rw [readValue_of_array loc true mem' fuel hvt, readValue_of_array loc false mem' fuel hvt,
      hb, hb]
    exact hcells fuel _ tl (CStream.rest_advance_of_append hrest)

/-- INTERNAL: the loop over an array's cells is the same for both readers when each cell is. -/
theorem sameLoops {α : Type} {enc : α → List UInt8} (wrap : List α → Variant) (blank : α)
    {visit visit' : List (BitVec 32) → CellState (List α) → Run (CellState (List α))}
    {bounds : List SafeArrayBound} {cells : List α} (hlen : cells.length = elementCount bounds)
    (hcount : elementCount bounds < 2 ^ 31)
    (hvisit : ∀ a ∈ cells, ∀ (is : List (BitVec 32)) (done : List α) (c : Channel)
      (tl : List UInt8), c.stream.rest = enc a ++ tl →
        visit is (.sOk, done, c) = visit' is (.sOk, done, c) ∧
          ∀ s', visit is (.sOk, done, c) = .ok s' → s'.1 = .sOk → s'.2.2.stream.rest = tl)
    {c : Channel} {tl : List UInt8} (hrest : c.stream.rest = cells.flatMap enc ++ tl)
    (loop : (List (BitVec 32) → CellState (List α) → Run (CellState (List α))) →
      Run (HResult × Variant × Channel))
    (hloop : ∀ visit, loop visit = if (0#32).slt (longProduct bounds) then do
        let (hr, cells, c) ← walkArray CellState.go visit bounds (longProduct bounds)
          (.sOk, List.replicate (elementCount bounds) blank, c)
        pure (finished hr (wrap cells) c)
      else pure (.sOk, wrap (List.replicate (elementCount bounds) blank), c)) :
    loop visit = loop visit' ∧
      ∀ v c', loop visit = .ok (.sOk, v, c') → c'.stream.rest = tl := by
  have htotal := toNat_longProduct bounds (by omega)
  rw [hloop, hloop, zero_slt_iff (by omega), htotal]
  by_cases h0 : elementCount bounds = 0
  · have hnil : cells = [] := List.length_eq_zero_iff.mp (by omega)
    rw [if_neg (by simpa using h0), if_neg (by simpa using h0)]
    refine ⟨rfl, fun v c' h => ?_⟩
    obtain ⟨-, hpair⟩ := Prod.mk.inj (Except.ok.inj h)
    obtain ⟨-, rfl⟩ := Prod.mk.inj hpair
    rw [hrest, hnil]
    rfl
  · have hpos := Nat.pos_of_ne_zero h0
    have hround : ∀ n (s : CellState (List α)) is, n < elementCount bounds →
        (s.1 = .sOk → s.2.2.stream.rest = (cells.drop n).flatMap enc ++ tl) →
        CellState.go s = true → visit is s = visit' is s ∧ ∀ s', visit is s = .ok s' →
          s'.1 = .sOk → s'.2.2.stream.rest = (cells.drop (n + 1)).flatMap enc ++ tl := by
      rintro n ⟨hr, done, c⟩ is hn hP hgo
      obtain rfl : hr = .sOk := of_decide_eq_true hgo
      have hlt : n < cells.length := by omega
      have hget : cells.drop n = cells[n] :: cells.drop (n + 1) :=
        List.drop_eq_getElem_cons hlt
      have hhere := hP rfl
      rw [hget, List.flatMap_cons, List.append_assoc] at hhere
      exact hvisit _ (List.getElem_mem hlt) is done c _ hhere
    have hwalk := @Odometer.walk_congr _ _ _ _ carryLoop .fault .fuel CellState.go visit visit'
      (fun n s => s.1 = .sOk → s.2.2.stream.rest = (cells.drop n).flatMap enc ++ tl) bounds
      (elementCount bounds) hround (2 * elementCount bounds + 1) (bounds.map carryLoop.lower) 0
      (.sOk, List.replicate (elementCount bounds) blank, c) hpos fun _ => hrest
    have hsame : ∀ visit, walkArray CellState.go visit bounds (longProduct bounds)
        (.sOk, List.replicate (elementCount bounds) blank, c) =
          carryLoop.walk .fault .fuel CellState.go visit bounds (elementCount bounds)
            (2 * elementCount bounds + 1) (bounds.map carryLoop.lower) 0
            (.sOk, List.replicate (elementCount bounds) blank, c) := by
      intro visit
      rw [walkArray, htotal]
    rw [if_pos (by simpa using hpos), if_pos (by simpa using hpos), hsame, hsame, hwalk.1]
    refine ⟨rfl, fun v c' h => ?_⟩
    obtain ⟨⟨hr, done, c''⟩, hrun, hend⟩ := Run.bind_eq_ok h
    obtain ⟨hr', hpair⟩ := Prod.mk.inj (Except.ok.inj hend)
    obtain ⟨-, rfl⟩ := Prod.mk.inj hpair
    rw [← hwalk.1] at hrun
    have hfinal := hwalk.2 _ hrun (decide_eq_true hr')
    rw [hfinal hr', ← hlen, List.drop_length]
    rfl

/-- INTERNAL: a cell of a `BSTR` array. -/
theorem sameCell_bstr (mem : Memory) (bounds : List SafeArrayBound) {s : Bstr}
    (hw : WellFormedUtf16 s) (hs : StringFits s) (is : List (BitVec 32)) (done : List Bstr)
    (c : Channel) (tl : List UInt8) (hrest : c.stream.rest = stringBytes s ++ tl) :
    readBstrCell true mem bounds is (.sOk, done, c) =
        readBstrCell false mem bounds is (.sOk, done, c) ∧
      ∀ s', readBstrCell true mem bounds is (.sOk, done, c) = .ok s' → s'.1 = .sOk →
        s'.2.2.stream.rest = tl := by
  obtain ⟨b, hb⟩ := readString_spec mem hw hs hrest
  have htrue := hb true
  have hfalse := hb false
  dsimp only at htrue hfalse
  simp only [readBstrCell, htrue, hfalse, Run.ok_bind]
  refine ⟨trivial, fun s' h _ => ?_⟩
  cases hk : safeArrayPtrOfIndex bounds is with
  | none =>
    rw [hk] at h
    cases h
  | some k =>
    rw [hk] at h
    obtain rfl := Except.ok.inj h
    exact CStream.rest_advance_of_append hrest

/-- INTERNAL: a cell of a `VARIANT` array. -/
theorem sameCell_variant {loc : Collation} {mem : Memory} {enc : Variant → List UInt8} {v : Variant}
    (h : SameReads loc mem v.vt (enc v)) (bounds : List SafeArrayBound) (fuel : ℕ)
    (is : List (BitVec 32)) (done : List Variant) (c : Channel) (tl : List UInt8)
    (hrest : c.stream.rest = taggedBytes enc v ++ tl) :
    readVariantCell true mem bounds (readValue loc true mem fuel) is (.sOk, done, c) =
        readVariantCell false mem bounds (readValue loc false mem fuel) is (.sOk, done, c) ∧
      ∀ s', readVariantCell true mem bounds (readValue loc true mem fuel) is (.sOk, done, c) =
        .ok s' → s'.1 = .sOk → s'.2.2.stream.rest = tl := by
  rw [taggedBytes, List.append_assoc] at hrest
  have hread := Channel.read_of_rest hrest (length_leBytes 2 _)
  have hvalue := CStream.rest_advance_of_append hrest
  rw [length_leBytes] at hvalue
  have hover : overlay (uninit mem.vartype 2) (leBytes 2 v.vt.toNat) = leBytes 2 v.vt.toNat :=
    overlay_of_length_le (by simp)
  have hkept : ∀ strict, kept strict .sOk = .sOk := fun strict => by simp [kept]
  obtain ⟨hsame, hbehind⟩ := h fuel ⟨c.stream.advance 2, c.m_currentBufLen⟩ tl hvalue
  cases hk : safeArrayPtrOfIndex bounds is with
  | none =>
    simp only [readVariantCell, hk]
    refine ⟨trivial, fun s' hs' hr => ?_⟩
    obtain rfl := Except.ok.inj hs'
    cases hr
  | some k =>
    simp only [readVariantCell, hk, hread, hkept, if_true, hover, uint16_ofLeBytes_leBytes]
    rw [← hsame]
    refine ⟨rfl, fun s' hs' hr => ?_⟩
    obtain ⟨⟨hr', w, c'⟩, hrun, hend⟩ := Run.bind_eq_ok hs'
    obtain rfl := Except.ok.inj hend
    obtain rfl : hr' = .sOk := hr
    exact hbehind w c' hrun

/-- INTERNAL: a stored object. -/
theorem sameReads_object {loc : Collation} {mem mem' : Memory} {flag : Bool} {v : Variant}
    {wrap : ComObject → Variant} {o : ComObject} (hv : v = wrap o)
    (hwrap : wrap = .dispatch ∨ wrap = .unknown) (h : StorableHere flag v) :
    SameReads loc mem' v.vt (objectsBytes mem flag v) := by
  intro fuel c tl hrest
  cases fuel with
  | zero => exact ⟨rfl, fun _ _ hread => by cases hread⟩
  | succ fuel =>
    have hvt : (v.vt = vtDispatch ∧ wrap = .dispatch) ∨ (v.vt = vtUnknown ∧ wrap = .unknown) := by
      rcases hwrap with rfl | rfl <;> subst hv
      · exact .inl ⟨rfl, rfl⟩
      · exact .inr ⟨rfl, rfl⟩
    have hbytes : objectsBytes mem flag v = objectBytes flag o := by
      rcases hwrap with rfl | rfl <;> subst hv <;> rfl
    have hsaved : ∀ bytes, savedStream flag o = some bytes →
        0 < bytes.length ∧ bytes.length < 2 ^ 31 := by
      rcases hwrap with rfl | rfl <;> subst hv <;> exact h.2
    rw [hbytes] at hrest
    rw [readObject_spec hvt hsaved (by omega) hrest, readObject_spec hvt hsaved (by omega) hrest]
    refine ⟨rfl, fun w c' hread => ?_⟩
    obtain ⟨-, hpair⟩ := Prod.mk.inj (Except.ok.inj hread)
    obtain ⟨-, rfl⟩ := Prod.mk.inj hpair
    exact CStream.rest_advance_of_append hrest

/-- INTERNAL: the data area of an array of a block type. -/
theorem sameReads_block {loc : Collation} {mem mem' : Memory} {t : ScalarType}
    {bounds : List SafeArrayBound} {data : List UInt8} (hblock : t.isBlock = true)
    (hcreate : safeArrayCreate t.vt bounds = some t.size)
    (hdata : data.length = elementCount bounds * t.size) :
    SameReads loc mem' (Variant.blockArray t bounds data).vt
      (headerBytes mem t.vt t.size bounds ++ data) := by
  have htypes : (Variant.blockArray t bounds data).vt &&& vtArray = vtArray ∧
      (vtArray ||| t.vt) ^^^ vtArray = t.vt ∧ t.vt ≠ vtVariant ∧ t.vt ≠ vtBstr ∧
      t.vt ≠ vtDecimal ∧ 0 < t.size ∧ t.size < 2 ^ 32 := by
    change (vtArray ||| t.vt) &&& vtArray = vtArray ∧ _
    cases t <;> decide
  obtain ⟨hvt, hcopy, hvariant, hbstr, hdecimal, hsize⟩ := htypes
  refine sameReads_array hvt hcopy hcreate hsize fun fuel c tl hrest => ⟨?_, fun w c' hread => ?_⟩
  · simp only [readCells, if_neg hvariant, if_neg hbstr, if_neg hdecimal, ScalarType.ofVt_vt,
      if_pos hblock]
  · obtain ⟨b, hb⟩ := readCells_block true mem' (readValue loc true mem' fuel) hblock hcreate
      hdata hrest
    obtain ⟨-, hpair⟩ := Prod.mk.inj (Except.ok.inj (hb.symm.trans hread))
    obtain ⟨-, rfl⟩ := Prod.mk.inj hpair
    exact CStream.rest_advance_of_append hrest

mutual

/-- **The two readers agree on a stored value**, whether or not its objects have been saved. -/
theorem sameReads_objectsBytes (loc : Collation) (mem mem' : Memory) (flag : Bool) :
    (v : Variant) → Hereditary (StorableHere flag) v →
      SameReads loc mem' v.vt (objectsBytes mem flag v)
  | .dispatch _, h => sameReads_object rfl (.inl rfl) h.self
  | .unknown _, h => sameReads_object rfl (.inr rfl) h.self
  | .variantArray bounds cells, h => by
    obtain ⟨hcreate, hlen⟩ : SupportedHere (.variantArray bounds cells) := h.self.1
    obtain ⟨-, -, -, hsize⟩ := safeArrayCreate_eq_some hcreate
    rw [objectsBytes, objectCellsBytes_eq_flatMap]
    have hvt : (vtArray ||| vtVariant) &&& vtArray = vtArray := by decide
    refine sameReads_array hvt (by decide) hcreate (by decide) fun fuel c tl hrest => ?_
    rw [readCells_variant, readCells_variant]
    exact sameLoops (.variantArray bounds) .empty hlen (by omega)
      (fun v hv => sameCell_variant (sameReads_objectCells loc mem mem' flag cells h.2 v hv) bounds
        fuel) hrest _ fun _ => rfl
  | .bstrArray bounds cells, h => by
    obtain ⟨hcreate, hlen, hwf⟩ : SupportedHere (.bstrArray bounds cells) := h.self.1
    have hfits : ∀ s ∈ cells, StringFits s := h.self.2
    obtain ⟨-, -, -, hsize⟩ := safeArrayCreate_eq_some hcreate
    have hvt : (vtArray ||| vtBstr) &&& vtArray = vtArray := by decide
    refine sameReads_array hvt (by decide) hcreate (by decide) fun fuel c tl hrest => ?_
    rw [readCells_bstr, readCells_bstr]
    exact sameLoops (.bstrArray bounds) [] hlen (by omega)
      (fun s hs => sameCell_bstr mem' bounds (hwf s hs) (hfits s hs)) hrest _ fun _ => rfl
  | .blockArray t bounds data, h => by
    obtain ⟨hblock, hcreate, hdata⟩ : SupportedHere (.blockArray t bounds data) := h.self.1
    exact sameReads_block hblock hcreate hdata
  | .scalar t bits, h => sameReads_of_deliversBoth
      (by change ¬ (t.vt &&& vtArray = vtArray); cases t <;> decide)
      fun c tl hrest => readScalar_scalar mem' t bits hrest
  | .decimal d, h => sameReads_of_deliversBoth
      (by change ¬ (vtDecimal &&& vtArray = vtArray); decide)
      fun c tl hrest => readScalar_decimal mem' d hrest
  | .bstr s, h => sameReads_of_deliversBoth
      (by change ¬ (vtBstr &&& vtArray = vtArray); decide)
      fun c tl hrest => readScalar_bstr mem' h.self.1 h.self.2 hrest
  | .empty, h => sameReads_of_deliversBoth (by decide)
      fun c tl hrest => ⟨c.m_currentBufLen, fun _ => rfl⟩
  | .null, h => sameReads_of_deliversBoth (by decide)
      fun c tl hrest => ⟨c.m_currentBufLen, fun _ => rfl⟩
  | .otherArray _ _ _ _, h => absurd h.self.1 id
  | .nullArray _, h => absurd h.self.1 id
  | .byrefArray _, h => absurd h.self.1 id
  | .raw _ _, h => absurd h.self.1 id

/-- INTERNAL: the same for every cell of an array. -/
theorem sameReads_objectCells (loc : Collation) (mem mem' : Memory) (flag : Bool) :
    (cells : List Variant) → HereditaryCells (StorableHere flag) cells →
      ∀ v ∈ cells, SameReads loc mem' v.vt (objectsBytes mem flag v)
  | [], _, v, hv => absurd hv (by simp)
  | u :: cells, h, v, hv => by
    rcases List.mem_cons.mp hv with hu | hv
    · rw [hu]
      exact sameReads_objectsBytes loc mem mem' flag u h.1
    · exact sameReads_objectCells loc mem mem' flag cells h.2 v hv

end

/-! ## The writers -/

/-- A value of its own that both codecs are made for: a supported one, or a live object with a
stream of a size an `INT` can hold. The stream starts with the class of the object, so it is not
empty. -/
def CodableHere : Variant → Prop
  | .dispatch o | .unknown o =>
    ∃ bytes, o = .live true (some bytes) ∧ 0 < bytes.length ∧ bytes.length < 2 ^ 31
  | v => SupportedHere v ∧ FitsHere v

/-- The value is, and so are all values in its cells. -/
def Codable (v : Variant) : Prop := Hereditary CodableHere v

/-- INTERNAL: such a value can be stored under either flag. -/
theorem storableHere_of_codableHere {flag : Bool} {v : Variant} (h : CodableHere v) :
    StorableHere flag v := by
  have hobject : ∀ o, (∃ bytes, o = ComObject.live true (some bytes) ∧ 0 < bytes.length ∧
      bytes.length < 2 ^ 31) → ¬ (flag = true ∧ o = .null) ∧ ∀ bytes,
        savedStream flag o = some bytes → 0 < bytes.length ∧ bytes.length < 2 ^ 31 := by
    rintro o ⟨bytes, rfl, hsize⟩
    refine ⟨fun hnull => ComObject.noConfusion hnull.2, fun b hb => ?_⟩
    cases flag with
    | false =>
      obtain rfl : bytes = b := Option.some.inj hb
      exact hsize
    | true => cases hb
  cases v with
  | dispatch o => exact hobject o h
  | unknown o => exact hobject o h
  | _ => exact h

theorem Codable.storable {v : Variant} (h : Codable v) (flag : Bool) :
    Hereditary (StorableHere flag) v :=
  h.mono (fun _ => storableHere_of_codableHere) v

/-- INTERNAL: an object is shorter where only streams are written. -/
theorem length_objectBytes_lt {o : ComObject} (h : ∃ bytes, o = .live true (some bytes) ∧
    0 < bytes.length ∧ bytes.length < 2 ^ 31) :
    (objectBytes true o).length < (objectBytes false o).length := by
  obtain ⟨bytes, rfl, hpos, -⟩ := h
  have htrue : objectBytes true (.live true (some bytes)) = leBytes 4 0 := rfl
  have hfalse : objectBytes false (.live true (some bytes)) = leBytes 4 bytes.length ++ bytes := rfl
  rw [htrue, hfalse, List.length_append, length_leBytes, length_leBytes]
  omega

mutual

/-- **The flag matters exactly for values with objects**, which are shorter under it. -/
theorem objectsBytes_flag (mem : Memory) : (v : Variant) → Codable v →
    (Hereditary (fun v => ¬ ObjectTag v.vt) v →
      objectsBytes mem true v = objectsBytes mem false v) ∧
    (¬ Hereditary (fun v => ¬ ObjectTag v.vt) v →
      (objectsBytes mem true v).length < (objectsBytes mem false v).length)
  | .dispatch _, h =>
    ⟨fun hno => absurd (.inr rfl) hno.self, fun _ => length_objectBytes_lt h.self⟩
  | .unknown _, h =>
    ⟨fun hno => absurd (.inl rfl) hno.self, fun _ => length_objectBytes_lt h.self⟩
  | .variantArray bounds cells, h => by
    obtain ⟨hsame, hless⟩ := objectCellsBytes_flag mem cells h.2
    have htag : ¬ ObjectTag (Variant.variantArray bounds cells).vt :=
      of_decide_eq_false rfl
    refine ⟨fun hno => ?_, fun hobject => ?_⟩
    · rw [objectsBytes, objectsBytes, hsame hno.2]
    · rw [objectsBytes, objectsBytes, List.length_append, List.length_append]
      have := hless fun hno => hobject ⟨htag, hno⟩
      omega
  | .empty, h | .null, h | .scalar _ _, h | .decimal _, h | .bstr _, h | .blockArray _ _ _, h
  | .bstrArray _ _, h => ⟨fun _ => rfl, fun hobject => absurd
      (not_objectTag_of_supported (And.left h.self)) hobject⟩
  | .otherArray _ _ _ _, h => absurd (And.left h.self) id
  | .nullArray _, h => absurd (And.left h.self) id
  | .byrefArray _, h => absurd (And.left h.self) id
  | .raw _ _, h => absurd (And.left h.self) id

/-- INTERNAL: the same for the cells of an array. -/
theorem objectCellsBytes_flag (mem : Memory) : (cells : List Variant) →
    HereditaryCells CodableHere cells →
    (HereditaryCells (fun v => ¬ ObjectTag v.vt) cells →
      objectCellsBytes mem true cells = objectCellsBytes mem false cells) ∧
    (¬ HereditaryCells (fun v => ¬ ObjectTag v.vt) cells →
      (objectCellsBytes mem true cells).length < (objectCellsBytes mem false cells).length)
  | [], _ => ⟨fun _ => rfl, fun hobject => absurd trivial hobject⟩
  | v :: cells, h => by
    obtain ⟨hsame, hless⟩ := objectsBytes_flag mem v h.1
    obtain ⟨hsames, hlesss⟩ := objectCellsBytes_flag mem cells h.2
    refine ⟨fun hno => ?_, fun hobject => ?_⟩
    · rw [objectCellsBytes, objectCellsBytes, hsame hno.1, hsames hno.2]
    · simp only [objectCellsBytes, List.length_append]
      by_cases hv : Hereditary (fun v => ¬ ObjectTag v.vt) v
      · have := hlesss fun hno => hobject ⟨hv, hno⟩
        rw [hsame hv]
        omega
      · have := hless hv
        by_cases hcells : HereditaryCells (fun v => ¬ ObjectTag v.vt) cells
        · rw [hsames hcells]
          omega
        · have := hlesss hcells
          omega

end

/-! ## The two codecs -/

/-- What a writer leaves in the stream. -/
def emitted (r : Run (HResult × Channel)) : Run CStream := r.map fun p => p.2.stream

/-- What `SerializeKey` of the application writes for a value, after its conversion. -/
def applicationEmits (mem : Memory) (v : Variant) (c : Channel) : Run CStream :=
  emitted (CApplication.writeValue mem (CApplication.convertObjectToStream v) c)

/-- What the dictionary writes for the value of a variable. -/
def dictionaryEmits {loc : Collation} (d : VariantDictionary loc) (mem : Memory)
    (strKeyName : Bstr) (v : Variant) (c : Channel) : Run CStream :=
  emitted (d.writeValue mem strKeyName v c)

/-- The writers put the same bytes into every stream. The variable is not flagged: its objects are
live. -/
def WritersAgree (loc : Collation) (v : Variant) : Prop :=
  ∀ (mem : Memory) (d : VariantDictionary loc) (key : Bstr) (c : Channel),
    d.isSerialized key = false → c.stream.Sound →
      applicationEmits mem v c = dictionaryEmits d mem key v c

/-- The readers do the same on the bytes that a writer has emitted, whatever stands behind them. -/
def ReadersAgree (loc : Collation) (v : Variant) : Prop :=
  ∀ (mem mem' : Memory) (d : VariantDictionary loc) (key : Bstr) (b : ℕ) (stream : CStream),
    d.isSerialized key = false →
    (applicationEmits mem v ⟨⟨[], 0⟩, b⟩ = .ok stream ∨
      dictionaryEmits d mem key v ⟨⟨[], 0⟩, b⟩ = .ok stream) →
    ∀ (fuel : ℕ) (c : Channel) (tl : List UInt8), c.stream.rest = stream.buf ++ tl →
      CApplication.readValue loc mem' fuel v.vt c = VariantDictionary.readValue loc mem' fuel v.vt c

/-- **The claim about a value.** -/
def CodecsAgree (loc : Collation) (v : Variant) : Prop := WritersAgree loc v ∧ ReadersAgree loc v

/-- INTERNAL: what a writer leaves, when it ends. -/
theorem WritesOrFaults.emitted_eq {ok : Prop} [Decidable ok] {bs : List UInt8} {c : Channel}
    {r : Run (HResult × Channel)} (h : WritesOrFaults ok bs c r) :
    emitted r = if ok then .ok (c.stream.write bs) else .error .fault := by
  by_cases hok : ok
  · obtain ⟨hr, b, rfl⟩ := h.1 hok
    rw [if_pos hok]
    rfl
  · rw [if_neg hok, h.2 hok]
    rfl

/-- INTERNAL: the value that the application writes. -/
theorem convertObjectToStream_spec {v : Variant} (h : Codable v) (mem : Memory) :
    Hereditary (StorableHere true) (CApplication.convertObjectToStream v) ∧
      (Writable (CApplication.convertObjectToStream v) ↔ Writable v) ∧
      ((∃ o, v = .dispatch o ∨ v = .unknown o) →
        objectsBytes mem true (CApplication.convertObjectToStream v) =
          objectsBytes mem false v) ∧
      (¬ ObjectTag v.vt → CApplication.convertObjectToStream v = v) := by
  have hobject : ∀ v o, (v = .dispatch o ∨ v = .unknown o) → CodableHere v →
      Hereditary (StorableHere true) (CApplication.convertObjectToStream v) ∧
        (Writable (CApplication.convertObjectToStream v) ↔ Writable v) ∧
        ((∃ o, v = .dispatch o ∨ v = .unknown o) →
          objectsBytes mem true (CApplication.convertObjectToStream v) =
            objectsBytes mem false v) ∧
        (¬ ObjectTag v.vt → CApplication.convertObjectToStream v = v) := by
    rintro v o hv hhere
    have hstream : ∃ bytes, o = .live true (some bytes) ∧ 0 < bytes.length ∧
        bytes.length < 2 ^ 31 := by
      rcases hv with rfl | rfl <;> exact hhere
    obtain ⟨bytes, rfl, hsize⟩ := hstream
    have hconvert : CApplication.convertObjectToStream v = .unknown (.packed bytes) := by
      rcases hv with rfl | rfl <;> rfl
    have htag : ObjectTag v.vt := by
      rcases hv with rfl | rfl
      · exact .inr rfl
      · exact .inl rfl
    rw [hconvert]
    refine ⟨⟨fun hnull => ComObject.noConfusion hnull.2, fun b hb => ?_⟩, ?_, fun _ => ?_,
      fun hno => absurd htag hno⟩
    · obtain rfl : bytes = b := Option.some.inj hb
      exact hsize
    · rcases hv with rfl | rfl <;> exact ⟨fun _ => trivial, fun _ => trivial⟩
    · rcases hv with rfl | rfl <;> rfl
  cases v with
  | dispatch o => exact hobject _ o (.inl rfl) h.self
  | unknown o => exact hobject _ o (.inr rfl) h.self
  | _ =>
    refine ⟨h.storable true, Iff.rfl, ?_, fun _ => rfl⟩
    rintro ⟨o, ho | ho⟩ <;> cases ho

open Classical in
/-- INTERNAL: what the two writers leave. -/
theorem emits_spec {loc : Collation} {v : Variant} (h : Codable v) (mem : Memory)
    {d : VariantDictionary loc} {key : Bstr} (hflag : d.isSerialized key = false) (c : Channel)
    (hc : c.stream.Sound) :
    applicationEmits mem v c = (if Writable v then .ok (c.stream.write
        (objectsBytes mem true (CApplication.convertObjectToStream v))) else .error .fault) ∧
      dictionaryEmits d mem key v c =
        if Writable v then .ok (c.stream.write (objectsBytes mem false v)) else .error .fault := by
  obtain ⟨hstorable, hwritable, -, -⟩ := convertObjectToStream_spec h mem
  have happlication := writesAs_objectsBytes mem true _ hstorable c hc
  have hdictionary := writesAs_objectsBytes mem false v (h.storable false) c hc
  rw [hwritable] at happlication
  rw [dictionaryEmits, VariantDictionary.writeValue, hflag]
  exact ⟨happlication.emitted_eq, hdictionary.emitted_eq⟩

/-- INTERNAL: the application's bytes are the dictionary's where no object lies in an array, and
fewer otherwise. -/
theorem convertedBytes_flag {v : Variant} (h : Codable v) (mem : Memory) :
    (NoObjectInArrays v → objectsBytes mem true (CApplication.convertObjectToStream v) =
      objectsBytes mem false v) ∧
    (¬ NoObjectInArrays v →
      (objectsBytes mem true (CApplication.convertObjectToStream v)).length <
        (objectsBytes mem false v).length) := by
  obtain ⟨-, -, hobject, hother⟩ := convertObjectToStream_spec h mem
  cases v with
  | dispatch o => exact ⟨fun _ => hobject ⟨o, .inl rfl⟩, fun hno => absurd trivial hno⟩
  | unknown o => exact ⟨fun _ => hobject ⟨o, .inr rfl⟩, fun hno => absurd trivial hno⟩
  | variantArray bounds cells =>
    have htag : ¬ ObjectTag (Variant.variantArray bounds cells).vt := of_decide_eq_false rfl
    obtain ⟨hsame, hless⟩ := objectsBytes_flag mem _ h
    rw [hother htag]
    exact ⟨fun hno => hsame ⟨htag, hno⟩, fun hno => hless fun hall => hno hall.2⟩
  | _ =>
    have htag := not_objectTag_of_supported (And.left h.self)
    rw [hother htag]
    exact ⟨fun _ => (objectsBytes_flag mem _ h).1 htag, fun hno => absurd trivial hno⟩

/-- INTERNAL: an empty stream holds what is written. -/
theorem buf_write_empty (bs : List UInt8) : ((⟨[], 0⟩ : CStream).write bs).buf = bs := by
  unfold CStream.write
  split
  · rename_i hnil
    exact hnil.symm
  · simp

/-- **The readers always agree.** -/
theorem readersAgree_of_codable (loc : Collation) {v : Variant} (h : Codable v) :
    ReadersAgree loc v := by
  intro mem mem' d key b stream hflag hemits fuel c tl hrest
  have hsound : (⟨[], 0⟩ : CStream).Sound := Nat.le_refl 0
  obtain ⟨happlication, hdictionary⟩ := emits_spec h mem hflag ⟨⟨[], 0⟩, b⟩ hsound
  have hreads : ∀ flag, SameReads loc mem' v.vt (objectsBytes mem flag v) := fun flag =>
    sameReads_objectsBytes loc mem mem' flag v (h.storable flag)
  have hsame : SameReads loc mem' v.vt stream.buf := by
    rcases hemits with hemits | hemits
    · rw [happlication] at hemits
      split at hemits
      · obtain rfl := Except.ok.inj hemits
        rw [buf_write_empty]
        obtain ⟨-, -, hobject, hother⟩ := convertObjectToStream_spec h mem
        by_cases htag : ObjectTag v.vt
        · have hv : ∃ o, v = .dispatch o ∨ v = .unknown o := by
            cases v with
            | dispatch o => exact ⟨o, .inl rfl⟩
            | unknown o => exact ⟨o, .inr rfl⟩
            | _ => exact absurd htag (not_objectTag_of_supported (And.left h.self))
          rw [hobject hv]
          exact hreads false
        · rw [hother htag]
          exact hreads true
      · cases hemits
    · rw [hdictionary] at hemits
      split at hemits
      · obtain rfl := Except.ok.inj hemits
        rw [buf_write_empty]
        exact hreads false
      · cases hemits
  exact (hsame fuel c tl hrest).1.symm

/-- **The writers agree** exactly where no object lies in an array, unless a carry loop ends both
of them. -/
theorem writersAgree_iff (loc : Collation) {v : Variant} (h : Codable v) :
    WritersAgree loc v ↔ (NoObjectInArrays v ∨ ¬ Writable v) := by
  constructor
  · intro hagree
    by_contra hcase
    rw [not_or, not_not] at hcase
    obtain ⟨hobject, hwritable⟩ := hcase
    have hsound : (⟨[], 0⟩ : CStream).Sound := Nat.le_refl 0
    have hflag : (.new : VariantDictionary loc).isSerialized [] = false := rfl
    have hsame := hagree .zero .new [] ⟨⟨[], 0⟩, 0⟩ hflag hsound
    obtain ⟨happlication, hdictionary⟩ := emits_spec h .zero hflag ⟨⟨[], 0⟩, 0⟩ hsound
    rw [happlication, hdictionary, if_pos hwritable, if_pos hwritable] at hsame
    have hbuf := congrArg CStream.buf (Except.ok.inj hsame)
    rw [buf_write_empty, buf_write_empty] at hbuf
    have hless := (convertedBytes_flag h .zero).2 hobject
    rw [hbuf] at hless
    exact Nat.lt_irrefl _ hless
  · intro hcase mem d key c hflag hc
    obtain ⟨happlication, hdictionary⟩ := emits_spec h mem hflag c hc
    rw [happlication, hdictionary]
    rcases hcase with hno | hfaults
    · rw [(convertedBytes_flag h mem).1 hno]
    · rw [if_neg hfaults, if_neg hfaults]

/-- **When the two codecs agree**: for every value that both are made for, exactly when no object
lies in an array, or a carry loop lets neither writer end. -/
theorem codecsAgree_iff (loc : Collation) (v : Variant) (h : Codable v) :
    CodecsAgree loc v ↔ (NoObjectInArrays v ∨ ¬ Writable v) :=
  ⟨fun hagree => (writersAgree_iff loc h).mp hagree.1,
    fun hcase => ⟨(writersAgree_iff loc h).mpr hcase, readersAgree_of_codable loc h⟩⟩

/-- What `OleSaveToStream` writes of an object: its `CLSID` and one byte. -/
def savedClass : Bytes := List.replicate 16 1 ++ [7]

/-- An object as the value of a variable. -/
theorem liveObject_codecsAgree :
    CodecsAgree .ordinal (.dispatch (.live true (some savedClass))) :=
  (codecsAgree_iff .ordinal (.dispatch (.live true (some savedClass)))
    ⟨savedClass, rfl, by decide⟩).mpr (.inl trivial)

/-- **An object in an array**: the dictionary writes its bytes behind its size, the application
writes the size zero. -/
theorem objectInArray_not_codecsAgree : Codable (.variantArray [⟨1, 0⟩]
      [.dispatch (.live true (some savedClass))]) ∧
    ¬ CodecsAgree .ordinal (.variantArray [⟨1, 0⟩] [.dispatch (.live true (some savedClass))]) := by
  refine ⟨⟨⟨⟨by decide, by decide⟩, trivial⟩, ⟨⟨savedClass, rfl, by decide⟩, trivial⟩⟩, fun h => ?_⟩
  have hsame := h.1 .zero .new [] ⟨⟨[], 0⟩, 0⟩ rfl (Nat.le_refl 0)
  have hbytes : (applicationEmits .zero (.variantArray [⟨1, 0⟩]
        [.dispatch (.live true (some savedClass))]) ⟨⟨[], 0⟩, 0⟩).toOption.map (fun s => s.buf.length) ≠
      (dictionaryEmits (.new : VariantDictionary .ordinal) .zero [] (.variantArray [⟨1, 0⟩]
        [.dispatch (.live true (some savedClass))]) ⟨⟨[], 0⟩, 0⟩).toOption.map fun s => s.buf.length := by
    decide +kernel
  exact hbytes (by rw [hsame])

end IspSession.Analysis
