import IspSession.Analysis.DictionaryReading
import IspSession.Analysis.ObjectReading

/-!
# Objects at any depth

The codec writes an object wherever it stands: as the value of a variable or in a cell of a
`VARIANT` array, under the flag of the variable. `objectsBytes` is the format of such values.
`asStreams` replaces every object by the stream that it is saved to, which is what a reader makes
of the bytes when all of them could be saved.
-/

set_option autoImplicit false

namespace IspSession.Analysis

open IspSession.Library IspSession.Model

/-! ## The format -/

mutual

/-- A value with objects in it, all under the same flag. -/
def objectsBytes (mem : Memory) (flag : Bool) : Variant → List UInt8
  | .dispatch o | .unknown o => objectBytes flag o
  | .variantArray bounds cells =>
    headerBytes mem vtVariant 24 bounds ++ objectCellsBytes mem flag cells
  | v => valueBytes mem v

/-- The cells of a `VARIANT` array, each with its tag. -/
def objectCellsBytes (mem : Memory) (flag : Bool) : List Variant → List UInt8
  | [] => []
  | v :: cells =>
    leBytes 2 v.vt.toNat ++ (objectsBytes mem flag v ++ objectCellsBytes mem flag cells)

end

/-- INTERNAL: the cells' bytes, cell by cell. -/
theorem objectCellsBytes_eq_flatMap (mem : Memory) (flag : Bool) (cells : List Variant) :
    objectCellsBytes mem flag cells = cells.flatMap (taggedBytes (objectsBytes mem flag)) := by
  induction cells with
  | nil => rfl
  | cons v cells ih =>
    rw [objectCellsBytes, ih, List.flatMap_cons, taggedBytes, List.append_assoc]

/-- A value of its own can be stored under a flag: a supported one, or an object whose stream has
a size an `INT` can hold. -/
def StorableHere (flag : Bool) : Variant → Prop
  | .dispatch o | .unknown o =>
    ¬ (flag = true ∧ o = .null) ∧
      ∀ bytes, savedStream flag o = some bytes → 0 < bytes.length ∧ bytes.length < 2 ^ 31
  | v => SupportedHere v ∧ FitsHere v

/-- An object has a stream under the flag. -/
def SavedHere (flag : Bool) : Variant → Prop
  | .dispatch o | .unknown o => (savedStream flag o).isSome = true
  | _ => True

/-- No object lies in an array. -/
def NoObjectInArrays : Variant → Prop
  | .variantArray _ cells => HereditaryCells (fun v => ¬ ObjectTag v.vt) cells
  | _ => True

/-- INTERNAL: a supported value of its own is no object. -/
theorem not_objectTag_of_supported {v : Variant} (h : SupportedHere v) : ¬ ObjectTag v.vt := by
  have hscalar : ∀ t : ScalarType, ¬ ObjectTag t.vt ∧ ¬ ObjectTag (vtArray ||| t.vt) := by
    intro t
    cases t <;> decide
  cases v with
  | scalar t bits => exact (hscalar t).1
  | blockArray t bounds data => exact (hscalar t).2
  | empty | null | decimal d | bstr s => exact of_decide_eq_false rfl
  | bstrArray bounds cells | variantArray bounds cells => exact of_decide_eq_false rfl
  | _ => exact absurd h id

/-! ## Writing -/

/-- INTERNAL: an object is written as its stream. -/
theorem writesAs_object {mem : Memory} {flag : Bool} {v : Variant} {o : ComObject}
    (hv : v = .dispatch o ∨ v = .unknown o) (h : StorableHere flag v) :
    WritesAs mem flag (objectsBytes mem flag) v := by
  rcases hv with rfl | rfl
  · intro c hc
    obtain ⟨hr, heq⟩ := writeObject_spec h.1 c hc
    exact .of_ok trivial _ _ heq
  · intro c hc
    obtain ⟨hr, heq⟩ := writeObject_spec h.1 c hc
    exact .of_ok trivial _ _ heq

mutual

/-- **`WriteValue` appends the format of a value with objects**, or faults in a carry loop. -/
theorem writesAs_objectsBytes (mem : Memory) (flag : Bool) :
    (v : Variant) → Hereditary (StorableHere flag) v → WritesAs mem flag (objectsBytes mem flag) v
  | .dispatch _, h => writesAs_object (.inl rfl) h.self
  | .unknown _, h => writesAs_object (.inr rfl) h.self
  | .variantArray bounds cells, h => fun c hc => by
    obtain ⟨hcreate, hlen⟩ : SupportedHere (.variantArray bounds cells) := h.self.1
    rw [objectsBytes, objectCellsBytes_eq_flatMap]
    exact writeVariantArray_spec hcreate hlen (writesAs_objectCells mem flag cells h.2) c hc
  | .empty, h | .null, h | .scalar _ _, h | .decimal _, h | .bstr _, h | .blockArray _ _ _, h
  | .bstrArray _ _, h | .otherArray _ _ _ _, h | .nullArray _, h | .byrefArray _, h
  | .raw _ _, h => writeValue_spec mem flag _ h.self.1 h.self.2

/-- INTERNAL: the same for every cell of an array. -/
theorem writesAs_objectCells (mem : Memory) (flag : Bool) :
    (cells : List Variant) → HereditaryCells (StorableHere flag) cells →
      ∀ v ∈ cells, WritesAs mem flag (objectsBytes mem flag) v
  | [], _, v, hv => absurd hv (by simp)
  | u :: cells, h, v, hv => by
    rcases List.mem_cons.mp hv with hu | hv
    · rw [hu]
      exact writesAs_objectsBytes mem flag u h.1
    · exact writesAs_objectCells mem flag cells h.2 v hv

end

/-! ## Streams -/

/-- The stream that an object is, or is saved to. -/
def streamOf : ComObject → Option (List UInt8)
  | .packed bytes => some bytes
  | .live true saved => saved
  | _ => none

/-- The object as its stream. -/
def asStream (o : ComObject) : ComObject :=
  match streamOf o with
  | some bytes => .packed bytes
  | none => o

mutual

/-- A value with the streams of its objects. -/
def asStreams : Variant → Variant
  | .dispatch o => .dispatch (asStream o)
  | .unknown o => .unknown (asStream o)
  | .variantArray bounds cells => .variantArray bounds (cellsAsStreams cells)
  | v => v

/-- The same for the cells of an array. -/
def cellsAsStreams : List Variant → List Variant
  | [] => []
  | v :: cells => asStreams v :: cellsAsStreams cells

end

theorem cellsAsStreams_eq_map (cells : List Variant) :
    cellsAsStreams cells = cells.map asStreams := by
  induction cells with
  | nil => rfl
  | cons v cells ih => rw [cellsAsStreams, ih, List.map_cons]

/-- INTERNAL: the stream that is written is the object's. -/
theorem streamOf_of_savedStream {flag : Bool} {o : ComObject} {bytes : List UInt8}
    (h : savedStream flag o = some bytes) : streamOf o = some bytes := by
  cases flag <;> cases o with
  | null => cases h
  | packed b => first | exact h | cases h
  | live p saved => cases p <;> first | exact h | cases h

theorem asStream_of_savedStream {flag : Bool} {o : ComObject} {bytes : List UInt8}
    (h : savedStream flag o = some bytes) : asStream o = .packed bytes := by
  rw [asStream, streamOf_of_savedStream h]

@[simp] theorem asStream_asStream (o : ComObject) : asStream (asStream o) = asStream o := by
  cases o with
  | null => rfl
  | packed bytes => rfl
  | live p saved => cases p <;> cases saved <;> rfl

/-- INTERNAL: an object's stream is written as the object was. -/
theorem objectBytes_asStream {flag : Bool} {o : ComObject}
    (h : (savedStream flag o).isSome = true) :
    objectBytes true (asStream o) = objectBytes flag o := by
  obtain ⟨bytes, hbytes⟩ := Option.isSome_iff_exists.mp h
  rw [asStream_of_savedStream hbytes, objectBytes, objectBytes, hbytes]
  rfl

@[simp] theorem vt_asStreams (v : Variant) : (asStreams v).vt = v.vt := by
  cases v <;> simp only [asStreams] <;> rfl

mutual

/-- **What all objects' streams are written as** does not depend on the flag. -/
theorem objectsBytes_asStreams (mem : Memory) (flag : Bool) :
    (v : Variant) → Hereditary (SavedHere flag) v →
      objectsBytes mem true (asStreams v) = objectsBytes mem flag v
  | .dispatch _, h => objectBytes_asStream h.self
  | .unknown _, h => objectBytes_asStream h.self
  | .variantArray bounds cells, h => by
    rw [asStreams, objectsBytes, objectsBytes, objectCellsBytes_asStreams mem flag cells h.2]
  | .empty, _ | .null, _ | .scalar _ _, _ | .decimal _, _ | .bstr _, _ | .blockArray _ _ _, _
  | .bstrArray _ _, _ | .otherArray _ _ _ _, _ | .nullArray _, _ | .byrefArray _, _
  | .raw _ _, _ => rfl

/-- INTERNAL: the same for the cells of an array. -/
theorem objectCellsBytes_asStreams (mem : Memory) (flag : Bool) :
    (cells : List Variant) → HereditaryCells (SavedHere flag) cells →
      objectCellsBytes mem true (cellsAsStreams cells) = objectCellsBytes mem flag cells
  | [], _ => rfl
  | v :: cells, h => by
    rw [cellsAsStreams, objectCellsBytes, objectCellsBytes, vt_asStreams,
      objectsBytes_asStreams mem flag v h.1, objectCellsBytes_asStreams mem flag cells h.2]

end

/-! ## Reading -/

/-- A value that a reader makes of the bytes of stored objects: they are streams. -/
def StreamedHere : Variant → Prop
  | .dispatch o | .unknown o =>
    ∃ bytes, o = .packed bytes ∧ 0 < bytes.length ∧ bytes.length < 2 ^ 31
  | v => SupportedHere v ∧ FitsHere v

mutual

/-- INTERNAL: what holds of all values in a value, in the form that replacing objects gives it. -/
theorem hereditary_asStreams {p q : Variant → Prop} (h : ∀ v, p v → q (asStreams v)) :
    (v : Variant) → Hereditary p v → Hereditary q (asStreams v)
  | .variantArray _ cells, hv => ⟨h _ hv.self, hereditaryCells_asStreams h cells hv.2⟩
  | .dispatch _, hv | .unknown _, hv | .empty, hv | .null, hv | .scalar _ _, hv | .decimal _, hv
  | .bstr _, hv | .blockArray _ _ _, hv | .bstrArray _ _, hv | .otherArray _ _ _ _, hv
  | .nullArray _, hv | .byrefArray _, hv | .raw _ _, hv => h _ hv.self

/-- INTERNAL: the same for the cells of an array. -/
theorem hereditaryCells_asStreams {p q : Variant → Prop} (h : ∀ v, p v → q (asStreams v)) :
    (cells : List Variant) → HereditaryCells p cells → HereditaryCells q (cellsAsStreams cells)
  | [], _ => trivial
  | v :: cells, hv => ⟨hereditary_asStreams h v hv.1, hereditaryCells_asStreams h cells hv.2⟩

end

/-- A value of its own can be stored, and its stream is there when it is an object. -/
def SavableHere (flag : Bool) (v : Variant) : Prop := StorableHere flag v ∧ SavedHere flag v

/-- INTERNAL: what is read of stored objects. -/
theorem streamed_asStreams {flag : Bool} {v : Variant} (h : Hereditary (SavableHere flag) v) :
    Hereditary StreamedHere (asStreams v) := by
  refine hereditary_asStreams (fun v hv => ?_) v h
  obtain ⟨hstorable, hsaved⟩ := hv
  cases v with
  | dispatch o =>
    obtain ⟨bytes, hbytes⟩ := Option.isSome_iff_exists.mp hsaved
    exact ⟨bytes, asStream_of_savedStream hbytes, hstorable.2 bytes hbytes⟩
  | unknown o =>
    obtain ⟨bytes, hbytes⟩ := Option.isSome_iff_exists.mp hsaved
    exact ⟨bytes, asStream_of_savedStream hbytes, hstorable.2 bytes hbytes⟩
  | variantArray bounds cells =>
    obtain ⟨⟨hcreate, hlen⟩, -⟩ := hstorable
    refine ⟨⟨hcreate, ?_⟩, trivial⟩
    rw [cellsAsStreams_eq_map, List.length_map, hlen]
  | _ => exact hstorable

/-- INTERNAL: replacing objects leaves the loops over the cells alone. -/
theorem readable_asStreams {v : Variant} (h : Readable v) : Readable (asStreams v) := by
  refine hereditary_asStreams (fun v hv => ?_) v h
  cases v with
  | variantArray bounds cells =>
    intro hne
    exact hv fun hnil => hne (by rw [hnil, cellsAsStreams])
  | _ => exact hv

/-- INTERNAL: an object's stream is read back. -/
theorem readsBackAs_stream {loc : Collation} {strict : Bool} {mem mem' : Memory} {v : Variant}
    {wrap : ComObject → Variant} {o : ComObject} (hv : v = wrap o)
    (hwrap : wrap = .dispatch ∨ wrap = .unknown) (h : StreamedHere v) :
    ReadsBackAs loc strict mem' (objectsBytes mem true) v := by
  intro fuel c tl hfuel hrest
  have hstream : ∃ bytes, o = .packed bytes ∧ 0 < bytes.length ∧ bytes.length < 2 ^ 31 := by
    rcases hwrap with rfl | rfl <;> subst hv <;> exact h
  obtain ⟨bytes, rfl, hpos, hlt⟩ := hstream
  have hvt : (v.vt = vtDispatch ∧ wrap = .dispatch) ∨ (v.vt = vtUnknown ∧ wrap = .unknown) := by
    rcases hwrap with rfl | rfl <;> subst hv
    · exact .inl ⟨rfl, rfl⟩
    · exact .inr ⟨rfl, rfl⟩
  have hbytes : objectsBytes mem true v = objectBytes true (.packed bytes) := by
    rcases hwrap with rfl | rfl <;> subst hv <;> rfl
  rw [hbytes] at hfuel hrest ⊢
  have hsaved : ∀ b, savedStream true (.packed bytes) = some b →
      0 < b.length ∧ b.length < 2 ^ 31 := by
    rintro b hb
    obtain rfl : bytes = b := Option.some.inj hb
    exact ⟨hpos, hlt⟩
  refine .of_delivers ?_ ⟨c.m_currentBufLen, ?_⟩
  · rcases hwrap with rfl | rfl <;> subst hv <;> exact trivial
  · rw [readObject_spec hvt hsaved (by omega) hrest, hv]
    rfl

mutual

/-- **`ReadValue` reads streams back wherever they stand.** -/
theorem readsBackAs_objectsBytes (loc : Collation) (strict : Bool) (mem mem' : Memory) :
    (v : Variant) → Hereditary StreamedHere v →
      ReadsBackAs loc strict mem' (objectsBytes mem true) v
  | .dispatch _, h => readsBackAs_stream rfl (.inl rfl) h.self
  | .unknown _, h => readsBackAs_stream rfl (.inr rfl) h.self
  | .variantArray bounds cells, h => fun fuel c tl hfuel hrest => by
    obtain ⟨hcreate, hlen⟩ : SupportedHere (.variantArray bounds cells) := h.self.1
    rw [objectsBytes, objectCellsBytes_eq_flatMap] at hfuel hrest ⊢
    exact readVariantArray_spec mem hcreate hlen
      (readsBackAs_objectCells loc strict mem mem' cells h.2) hfuel hrest
  | .empty, h | .null, h | .scalar _ _, h | .decimal _, h | .bstr _, h | .blockArray _ _ _, h
  | .bstrArray _ _, h | .otherArray _ _ _ _, h | .nullArray _, h | .byrefArray _, h
  | .raw _ _, h => readValue_spec loc strict mem mem' _ h.self.1 h.self.2

/-- INTERNAL: the same for every cell of an array. -/
theorem readsBackAs_objectCells (loc : Collation) (strict : Bool) (mem mem' : Memory) :
    (cells : List Variant) → HereditaryCells StreamedHere cells →
      ∀ v ∈ cells, ReadsBackAs loc strict mem' (objectsBytes mem true) v
  | [], _, v, hv => absurd hv (by simp)
  | u :: cells, h, v, hv => by
    rcases List.mem_cons.mp hv with hu | hv
    · rw [hu]
      exact readsBackAs_objectsBytes loc strict mem mem' u h.1
    · exact readsBackAs_objectCells loc strict mem mem' cells h.2 v hv

end

/-- **What a value with objects is written as is read as their streams.** -/
theorem readsTo_objectsBytes (loc : Collation) (mem mem' : Memory) {flag : Bool} (key : Bstr)
    {v : Variant} (h : Hereditary (SavableHere flag) v) (hread : Readable v) :
    ReadsTo loc mem' ⟨key, v.vt, objectsBytes mem flag v⟩ .sOk (asStreams v) := by
  intro fuel c tl hfuel hrest
  have hbytes := objectsBytes_asStreams mem flag v (h.mono (fun _ hv => hv.2) v)
  have hspec := readsBackAs_objectsBytes loc true mem mem' (asStreams v) (streamed_asStreams h)
    fuel c tl
  rw [hbytes, vt_asStreams] at hspec
  obtain ⟨b, hb⟩ := (hspec hfuel hrest).1 (readable_asStreams hread)
  exact ⟨_, hb, fun _ => rfl⟩

end IspSession.Analysis
