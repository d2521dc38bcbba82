import IspSession.Analysis.ValueReading

/-!
# When `ReadValue` delivers an object

An object is read where the tag is that of an object and the size behind it is positive.
It is a stream: the one exception is a record with the tag of a decimal whose sixteen
bytes say that they are an object.
-/

set_option autoImplicit false

namespace IspSession.Analysis

open IspSession.Library IspSession.Model

variable {loc : Collation}

/-- The tag is that of an object. -/
def ObjectTag (vt : VarType) : Prop := vt = vtUnknown ∨ vt = vtDispatch

instance (vt : VarType) : Decidable (ObjectTag vt) := by
  unfold ObjectTag
  infer_instance

/-- The value is an object that still is a stream. -/
def packed : Variant → Bool
  | .unknown (.packed _) | .dispatch (.packed _) => true
  | _ => false

/-- A stream is an object. -/
theorem objectTag_of_packed {v : Variant} (h : packed v = true) : ObjectTag v.vt := by
  unfold packed at h
  split at h
  · exact .inl rfl
  · exact .inr rfl
  · cases h

/-- The tag a decimal's bytes carry, where `rest` has them. -/
def innerTag (vtype : VarType) (rest : List UInt8) : VarType :=
  UInt16.ofNat (ofLeBytes ((overlay (leBytes 2 vtype.toNat ++ List.replicate 14 0)
    (rest.take 16)).take 2))

/-- A decimal whose bytes say that they are an object. -/
def Forged (vtype : VarType) (rest : List UInt8) : Prop :=
  switchType vtype = vtDecimal ∧ vtype &&& vtArray ≠ vtArray ∧ ObjectTag (innerTag vtype rest)

instance (vtype : VarType) (rest : List UInt8) : Decidable (Forged vtype rest) := by
  unfold Forged
  infer_instance

/-- The tag of an object and a size that is positive. -/
def HoldsObject (vtype : VarType) (rest : List UInt8) : Prop :=
  ObjectTag vtype ∧ (0#32).slt (BitVec.ofNat 32 (ofLeBytes (rest.take 4))) = true

instance (vtype : VarType) (rest : List UInt8) : Decidable (HoldsObject vtype rest) := by
  unfold HoldsObject
  infer_instance

/-- INTERNAL: what a read of a channel delivers. -/
theorem Channel.read_bytes (c : Channel) (cb : ℕ) :
    (c.read cb).2.1 = c.stream.rest.take cb := CStream.read_bytes c.stream cb

/-- INTERNAL: what it leaves to come. -/
theorem Channel.rest_read (c : Channel) (cb : ℕ) :
    (c.read cb).2.2.stream.rest = c.stream.rest.drop cb := CStream.rest_read c.stream cb

/-- INTERNAL: whether it says that it delivers all. -/
theorem Channel.read_result (c : Channel) (cb : ℕ) :
    (c.read cb).1 = if c.stream.rest.length < cb then .sFalse else .sOk :=
  CStream.read_result c.stream cb

/-- The value that memory forms has the tag the memory has. -/
theorem vt_ofMemory (vt : VarType) (payload : ℕ) : (Variant.ofMemory vt payload).vt = vt := by
  unfold Variant.ofMemory
  split
  · rename_i h
    exact h.symm
  · split
    · rename_i h
      exact h.symm
    · split
      · rename_i h
        exact h.symm
      · split
        · rename_i t ht
          unfold ScalarType.ofVt at ht
          have hvt : vt = UInt16.ofNat vt.toNat := by simp
          split at ht <;> (try cases ht) <;> rename_i hnat <;> rw [hvt, hnat] <;> rfl
        · rfl

/-- INTERNAL: the tag of an array is not that of an object. -/
theorem not_objectTag_array (vt : VarType) : ¬ ObjectTag (vtArray ||| vt) := by
  have hbit : (vtArray ||| vt) &&& vtArray = vtArray := by
    rw [← UInt16.toBitVec_inj, UInt16.toBitVec_and, UInt16.toBitVec_or]
    ext i hi
    simp only [BitVec.getElem_and, BitVec.getElem_or]
    cases vtArray.toBitVec[i] <;> simp
  rintro (h | h) <;> rw [h] at hbit <;> revert hbit <;> decide

/-- INTERNAL: a finished value that is no object. -/
theorem finished_not_object {hr hr' : HResult} {v v' : Variant} {c c' : Channel}
    (hv : ¬ ObjectTag v.vt)
    (h : (pure (finished hr v c) : Run (HResult × Variant × Channel)) = .ok (hr', v', c')) :
    ¬ ObjectTag v'.vt := by
  cases h
  split
  · decide
  · exact hv

/-- INTERNAL: the cells of an array make an array. -/
theorem readCells_not_object {strict : Bool} {mem : Memory}
    {readValue : VarType → Channel → Run (HResult × Variant × Channel)} {vtype : VarType}
    {bounds : List SafeArrayBound} {cb : ℕ} {lElements elSize : BitVec 32} {c c' : Channel}
    {hr : HResult} {v : Variant}
    (h : readCells strict mem readValue vtype bounds cb lElements elSize c = .ok (hr, v, c')) :
    ¬ ObjectTag v.vt := by
  unfold readCells at h
  dsimp only at h
  split at h
  · split at h
    · obtain ⟨r, -, h⟩ := Run.bind_eq_ok h
      exact finished_not_object (not_objectTag_array _) h
    · cases h
      exact not_objectTag_array _
  · split at h
    · split at h
      · obtain ⟨r, -, h⟩ := Run.bind_eq_ok h
        exact finished_not_object (not_objectTag_array _) h
      · cases h
        exact not_objectTag_array _
    · split at h
      · split at h
        · obtain ⟨r, -, h⟩ := Run.bind_eq_ok h
          exact finished_not_object (not_objectTag_array _) h
        · cases h
          exact not_objectTag_array _
      · split at h
        · split at h
          · split at h
            · cases h
            · cases h
              exact not_objectTag_array _
          · cases h
            exact not_objectTag_array _
        · cases h
          exact not_objectTag_array _

/-- INTERNAL: nor do its bounds and cells. -/
theorem readBounds_not_object {strict : Bool} {mem : Memory}
    {readValue : VarType → Channel → Run (HResult × Variant × Channel)} {vtype : VarType}
    {cDims elSize : BitVec 32} {c c' : Channel} {hr : HResult} {v : Variant}
    (h : (if elSize = 0 ∨ cDims = 0 then pure (.sOk, .empty, c)
      else if cDims.slt 0 then .error .fault
      else
        match safeArrayCreate vtype (readBounds strict cDims.toNat 1 c).1 with
        | none => pure (.sOk, .empty, (readBounds strict cDims.toNat 1 c).2.2)
        | some cbElements =>
          readCells strict mem readValue vtype (readBounds strict cDims.toNat 1 c).1 cbElements
            (readBounds strict cDims.toNat 1 c).2.1 elSize
            (readBounds strict cDims.toNat 1 c).2.2 :
        Run (HResult × Variant × Channel)) = .ok (hr, v, c')) : ¬ ObjectTag v.vt := by
  split at h
  · cases h
    decide
  · split at h
    · cases h
    · split at h
      · cases h
        decide
      · exact readCells_not_object h

/-- INTERNAL: an array is no object. -/
theorem readArray_not_object {strict : Bool} {mem : Memory}
    {readValue : VarType → Channel → Run (HResult × Variant × Channel)} {c c' : Channel}
    {hr : HResult} {v : Variant}
    (h : readArray loc strict mem readValue c = .ok (hr, v, c')) : ¬ ObjectTag v.vt := by
  unfold readArray at h
  rcases hread : c.read 12 with ⟨hr₁, bytes, c₁⟩
  rw [hread] at h
  dsimp only at h
  obtain ⟨r, -, h⟩ := Run.bind_eq_ok h
  split at h
  · cases h
    decide
  · split at h
    · obtain ⟨r', -, h⟩ := Run.bind_eq_ok h
      exact readBounds_not_object h
    · exact readBounds_not_object h

/-- INTERNAL: reading over the payload union keeps the tag. -/
theorem vt_readOverUnion {strict : Bool} {hr hr' : HResult} {vtype : VarType}
    {pointer : BitVec 64} {cBytes : ℕ} {c c' : Channel} {v : Variant}
    (h : readOverUnion strict hr vtype pointer cBytes c = .ok (hr', v, c')) : v.vt = vtype := by
  unfold readOverUnion at h
  dsimp only at h
  split at h
  · cases h
  · cases h
    rfl

/-- INTERNAL: only the switch on an object's type sees the tag of an object. -/
theorem switchType_objectTag {vt : VarType} (h : ObjectTag vt) :
    switchType vt = vtUnknown ∨ switchType vt = vtDispatch := by
  rcases h with rfl | rfl
  · exact .inl (by decide)
  · exact .inr (by decide)

/-- What a read says about objects: a value with the tag of an object is a stream or
forged, streams are exactly what is read where there is an object, and where the tag is
that of an object the result says whether there is one. -/
structure ObjectRead (vtype : VarType) (rest : List UInt8) (hr : HResult) (v : Variant) :
    Prop where
  tag : ObjectTag v.vt → packed v = true ∨ Forged vtype rest
  stream : packed v = true ↔ HoldsObject vtype rest
  result : ObjectTag vtype → (hr = .sOk ↔ HoldsObject vtype rest)

/-- INTERNAL: a read that has nothing to do with objects. -/
theorem objectRead_of_other {vtype : VarType} {rest : List UInt8} {hr : HResult} {v : Variant}
    (hvtype : ¬ ObjectTag vtype) (hv : ¬ ObjectTag v.vt) : ObjectRead vtype rest hr v :=
  ⟨fun h => absurd h hv,
    ⟨fun h => absurd (objectTag_of_packed h) hv, fun h => absurd h.1 hvtype⟩,
    fun h => absurd h hvtype⟩

/-- INTERNAL: what is read where the tag is no array's. -/
theorem readScalar_object {strict : Bool} {mem : Memory} {vtype : VarType} {c c' : Channel}
    {hr : HResult} {v : Variant} (harray : ¬ (vtype &&& vtArray = vtArray))
    (h : readScalar strict mem vtype c = .ok (hr, v, c')) :
    ObjectRead vtype c.stream.rest hr v := by
  unfold readScalar at h
  dsimp only at h
  have hother : ∀ {x : VarType}, switchType vtype = x → x ≠ vtUnknown → x ≠ vtDispatch →
      ¬ ObjectTag vtype := by
    intro x hx h1 h2 hobj
    rcases switchType_objectTag hobj with h | h
    · exact h1 (hx.symm.trans h)
    · exact h2 (hx.symm.trans h)
  split at h
  · rename_i hs
    cases h
    have hvt : ¬ ObjectTag vtype := by
      rcases hs with hs | hs <;> exact hother hs (by decide) (by decide)
    exact objectRead_of_other hvt (by rwa [vt_ofMemory])
  · split at h
    · rename_i hs
      have hvt : ¬ ObjectTag vtype := hother hs (by decide) (by decide)
      have htag : v.vt = innerTag vtype c.stream.rest ∧ packed v = false := by
        have hmemory : ∀ vt payload, packed (Variant.ofMemory vt payload) = false := by
          intro vt payload
          unfold Variant.ofMemory
          split
          · rfl
          · split
            · rfl
            · split
              · rfl
              · split <;> rfl
        split at h <;> cases h
        · refine ⟨?_, hmemory _ _⟩
          rw [vt_ofMemory, Channel.read_bytes]
          rfl
        · refine ⟨?_, rfl⟩
          rw [Channel.read_bytes]
          rfl
      refine ⟨fun hobj => .inr ⟨hs, harray, htag.1 ▸ hobj⟩, ⟨fun hp => ?_, fun hh => ?_⟩,
        fun hobj => absurd hobj hvt⟩
      · rw [htag.2] at hp
        cases hp
      · exact absurd hh.1 hvt
    · split at h
      · rename_i hs
        have hvt : ¬ ObjectTag vtype := hother hs (by decide) (by decide)
        obtain ⟨r, -, h⟩ := Run.bind_eq_ok h
        split at h
        · exact objectRead_of_other hvt (finished_not_object (v := .bstr (r.2.1.getD [])) (by
            change ¬ ObjectTag vtBstr
            decide) h)
        · obtain ⟨r', hr', h⟩ := Run.bind_eq_ok h
          exact objectRead_of_other hvt (finished_not_object (vt_readOverUnion hr' ▸ hvt) h)
      · split at h
        · rw [Channel.read_bytes] at h
          split at h
          · rename_i hsize
            split at h
            · rename_i h1
              cases h
              exact ⟨fun _ => .inl rfl, ⟨fun _ => ⟨.inr h1, hsize⟩, fun _ => rfl⟩,
                fun hobj => ⟨fun _ => ⟨hobj, hsize⟩, fun _ => rfl⟩⟩
            · split at h
              · rename_i h2
                cases h
                exact ⟨fun _ => .inl rfl, ⟨fun _ => ⟨.inl h2, hsize⟩, fun _ => rfl⟩,
                  fun hobj => ⟨fun _ => ⟨hobj, hsize⟩, fun _ => rfl⟩⟩
              · rename_i h1 h2
                have hvt : ¬ ObjectTag vtype := fun hobj => hobj.elim h2 h1
                exact objectRead_of_other hvt (vt_readOverUnion h ▸ hvt)
          · rename_i hsize
            cases h
            exact ⟨fun hobj => absurd hobj (by decide),
              ⟨fun hp => (by cases hp), fun hh => absurd hh.2 hsize⟩,
              fun _ => ⟨fun hr => (by cases hr), fun hh => absurd hh.2 hsize⟩⟩
        · rename_i hs
          have hvt : ¬ ObjectTag vtype := fun hobj => hs (switchType_objectTag hobj).symm
          split at h
          · cases h
            exact objectRead_of_other hvt (by rwa [vt_ofMemory])
          · cases h
            exact objectRead_of_other hvt (by decide)

/-- **What is read is an object only as a stream**, and is one where the tag and the size
say so. -/
theorem readValue_object {strict : Bool} {mem : Memory} {fuel : ℕ} {vtype : VarType}
    {c c' : Channel} {hr : HResult} {v : Variant}
    (h : readValue loc strict mem fuel vtype c = .ok (hr, v, c')) :
    ObjectRead vtype c.stream.rest hr v := by
  cases fuel with
  | zero => cases h
  | succ fuel =>
    rw [readValue] at h
    split at h
    · rename_i harray
      have hvt : ¬ ObjectTag vtype := by
        rintro (rfl | rfl) <;> exact absurd harray (by decide)
      exact objectRead_of_other hvt (readArray_not_object h)
    · rename_i harray
      exact readScalar_object harray h

end IspSession.Analysis
