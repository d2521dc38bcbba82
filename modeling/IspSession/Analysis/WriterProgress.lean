import IspSession.Analysis.DictionaryFormat

/-!
# Writers go forward

Whatever `WriteValue` and `WriteProperty` are given, they leave the stream where it was or
further on, and the bytes that lie behind its position as they were. So the stream of
`LocalContents` always begins with the number of variables (`localContents_begins`), and
`SessionSave` never takes it for an empty one.
-/

set_option autoImplicit false

namespace IspSession.Analysis

open IspSession.Library IspSession.Model

variable {loc : Collation}

/-! ## Streams -/

/-- The stream begins with these bytes, and its position is behind them. -/
structure Begins (front : Bytes) (s : CStream) : Prop where
  bytes : front <+: s.buf
  behind : front.length ≤ s.pos

/-- INTERNAL: what is written behind them leaves them. -/
theorem Begins.write {front : Bytes} {s : CStream} (h : Begins front s) (pv : Bytes) :
    Begins front (s.write pv) := by
  refine ⟨?_, ?_⟩
  · rw [CStream.write]
    split
    · exact h.bytes
    · have hbuf : front <+: s.buf ++ List.replicate (s.pos - s.buf.length) 0 :=
        h.bytes.trans (List.prefix_append _ _)
      rw [List.append_assoc]
      exact (List.prefix_take_iff.mpr ⟨hbuf, h.behind⟩).trans (List.prefix_append _ _)
  · rw [CStream.pos_write]
    exact Nat.le_trans h.behind (Nat.le_add_right _ _)

/-- INTERNAL: a place behind them may be gone back to. -/
theorem Begins.patch {front : Bytes} {s : CStream} (h : Begins front s) {pos : ℕ}
    (hpos : front.length ≤ pos) (pv : Bytes) :
    Begins front (((s.seekSet pos).write pv).seekSet s.pos) :=
  ⟨((⟨h.bytes, hpos⟩ : Begins front (s.seekSet pos)).write pv).bytes, h.behind⟩

/-- INTERNAL: a stream begins with what is written at its start. -/
theorem begins_write {s : CStream} (hpos : s.pos = 0) (bs : Bytes) : Begins bs (s.write bs) := by
  refine ⟨?_, ?_⟩
  · rw [CStream.write]
    split
    · rename_i hnil
      rw [hnil]
      exact List.nil_prefix
    · rw [hpos, List.take_zero, List.nil_append]
      exact List.prefix_append _ _
  · rw [CStream.pos_write]
    exact Nat.le_add_left _ _

/-- The stream has been moved forward, or not at all, and keeps the bytes behind its position. -/
structure Ahead (s s' : CStream) : Prop where
  pos : s.pos ≤ s'.pos
  begins : ∀ front, Begins front s → Begins front s'

theorem Ahead.refl (s : CStream) : Ahead s s := ⟨Nat.le_refl _, fun _ h => h⟩

theorem Ahead.trans {s s' s'' : CStream} (h : Ahead s s') (h' : Ahead s' s'') : Ahead s s'' :=
  ⟨Nat.le_trans h.pos h'.pos, fun front hfront => h'.begins front (h.begins front hfront)⟩

/-- INTERNAL: bytes are written behind one another. -/
theorem ahead_write (s : CStream) (pv : Bytes) : Ahead s (s.write pv) := by
  refine ⟨?_, fun front h => h.write pv⟩
  rw [CStream.pos_write]
  exact Nat.le_add_right _ _

/-- INTERNAL: a place that has been passed may be gone back to. -/
theorem Ahead.patch {s s' : CStream} (h : Ahead s s') (pv : Bytes) :
    Ahead s (((s'.seekSet s.pos).write pv).seekSet s'.pos) :=
  ⟨h.pos, fun front hfront => (h.begins front hfront).patch hfront.behind pv⟩

/-! ## Values -/

/-- The channel has been moved forward, or not at all. -/
def Onward (c c' : Channel) : Prop := Ahead c.stream c'.stream

theorem Onward.refl (c : Channel) : Onward c c := Ahead.refl _

theorem Onward.trans {c c' c'' : Channel} (h : Onward c c') (h' : Onward c' c'') : Onward c c'' :=
  Ahead.trans h h'

/-- INTERNAL: bytes are written behind one another. -/
theorem onward_write (c : Channel) (pv : List UInt8) : Onward c (c.write pv) :=
  ahead_write c.stream pv

/-- INTERNAL: the buffer is not the stream. -/
theorem onward_ensureBuffer {c c' : Channel} {n : ℕ} (h : c.ensureBuffer n = .ok c') :
    Onward c c' := by
  unfold Channel.ensureBuffer at h
  split at h
  · cases h
    exact Onward.refl _
  · dsimp only at h
    split at h
    · cases h
      exact Onward.refl _
    · cases h

/-- INTERNAL: a string. -/
theorem onward_writeString {s : Bstr} {c c' : Channel} {hr : HResult}
    (h : writeString s c = .ok (hr, c')) : Onward c c' := by
  unfold writeString at h
  split at h
  · cases h
    exact onward_write c _
  · dsimp only at h
    split at h
    · cases h
      exact Onward.refl _
    · obtain ⟨c₁, hbuffer, h⟩ := Run.bind_eq_ok h
      cases h
      exact (onward_ensureBuffer hbuffer).trans ((onward_write _ _).trans (onward_write _ _))

/-- INTERNAL: strings one after the other. -/
theorem onward_writeStrings {cells : List Bstr} {c c' : Channel} {hr : HResult}
    (h : writeStrings cells c = .ok (hr, c')) : Onward c c' := by
  induction cells generalizing c with
  | nil =>
    cases h
    exact Onward.refl _
  | cons s cells ih =>
    obtain ⟨⟨hr₁, c₁⟩, hs, h⟩ := Run.bind_eq_ok h
    dsimp only at h
    split at h
    · exact (onward_writeString hs).trans (ih h)
    · cases h
      exact onward_writeString hs

/-- INTERNAL: the bounds of an array. -/
theorem onward_bounds (bounds : List SafeArrayBound) (c : Channel) :
    Onward c (bounds.foldl (fun c b => c.write b.bytes) c) := by
  induction bounds generalizing c with
  | nil => exact Onward.refl _
  | cons b bounds ih => exact (onward_write c _).trans (ih _)

/-- INTERNAL: the header of an array. -/
theorem onward_writeArrayHeader {mem : Memory} {vcopy : VarType} {elSize : ℕ}
    {bounds : List SafeArrayBound} {c c' : Channel}
    (h : writeArrayHeader mem vcopy elSize bounds c = .ok c') : Onward c c' := by
  obtain ⟨⟨hr, c₁⟩, hname, h⟩ := Run.bind_eq_ok h
  cases h
  exact (onward_write c _).trans ((onward_writeString hname).trans (onward_bounds bounds c₁))

/-- INTERNAL: cells, each by a writer that goes forward. -/
theorem onward_writeCells {bounds : List SafeArrayBound}
    {writers : List (Channel → Run (HResult × Channel))}
    (hwriters : ∀ w ∈ writers, ∀ c hr c', w c = .ok (hr, c') → Onward c c') {c c' : Channel}
    {hr : HResult} (h : writeCells bounds writers c = .ok (hr, c')) : Onward c c' := by
  unfold writeCells at h
  dsimp only at h
  split at h
  · obtain ⟨⟨hr₁, c₁, stopped⟩, hwalk, h⟩ := Run.bind_eq_ok h
    cases h
    unfold walkArray at hwalk
    refine Odometer.walk_keeps carryLoop Stuck.fault Stuck.fuel _
      (fun s : HResult × Channel × Bool => Onward c s.2.1) ?_ (Onward.refl _) hwalk
    rintro is ⟨hr₂, c₂, stopped₂⟩ ⟨hr₃, c₃, stopped₃⟩ h₂ hvisit
    unfold writeCells.visit at hvisit
    split at hvisit
    · cases hvisit
      exact h₂
    · split at hvisit
      · cases hvisit
      · rename_i w hw
        obtain ⟨⟨hr₄, c₄⟩, hcell, hvisit⟩ := Run.bind_eq_ok hvisit
        cases hvisit
        exact h₂.trans (hwriters w (List.mem_of_getElem? hw) _ _ _ hcell)
  · cases h
    exact Onward.refl _

/-- INTERNAL: an object. -/
theorem onward_writeObject {isSerialized : Bool} {o : ComObject} {c c' : Channel} {hr : HResult}
    (h : writeObject isSerialized o c = .ok (hr, c')) : Onward c c' := by
  unfold writeObject at h
  split at h
  all_goals cases h
  · exact (onward_write c _).trans (onward_write _ _)
  · exact onward_write c _
  · exact (onward_write c _).trans (onward_write _ _)
  · exact onward_write c _
  · exact onward_write c _

/-- INTERNAL: a variant that is not what its tag says. -/
theorem onward_writeRaw {vtype : VarType} {payload : ℕ} {c c' : Channel} {hr : HResult}
    (h : writeRaw vtype payload c = .ok (hr, c')) : Onward c c' := by
  unfold writeRaw at h
  dsimp only at h
  split at h
  · cases h
  · split at h
    · cases h
      exact Onward.refl _
    · split at h
      · cases h
        split
        · exact onward_write c _
        · exact (onward_write c _).trans (onward_write _ _)
      · split at h
        · cases h
        · split at h
          · cases h
            exact onward_write c _
          · cases h
            exact Onward.refl _

mutual

/-- **`WriteValue` goes forward**, whatever the value is. -/
theorem onward_writeValue (mem : Memory) (isSerialized : Bool) :
    (v : Variant) → ∀ {c c' : Channel} {hr : HResult},
      writeValue mem isSerialized v c = .ok (hr, c') → Onward c c'
  | .empty, _, _, _, h => by
    cases h
    exact Onward.refl _
  | .null, _, _, _, h => by
    cases h
    exact Onward.refl _
  | .scalar _ _, c, _, _, h => by
    cases h
    exact onward_write c _
  | .decimal _, c, _, _, h => by
    cases h
    exact onward_write c _
  | .bstr _, _, _, _, h => onward_writeString (by rwa [writeValue] at h)
  | .dispatch _, _, _, _, h => onward_writeObject (by rwa [writeValue] at h)
  | .unknown _, _, _, _, h => onward_writeObject (by rwa [writeValue] at h)
  | .blockArray t bounds data, c, c', hr, h => by
    rw [writeValue] at h
    obtain ⟨c₁, hheader, h⟩ := Run.bind_eq_ok h
    cases h
    refine (onward_writeArrayHeader hheader).trans ?_
    split
    · exact onward_write c₁ _
    · exact Onward.refl _
  | .bstrArray bounds cells, _, _, _, h => by
    rw [writeValue] at h
    obtain ⟨c₁, hheader, h⟩ := Run.bind_eq_ok h
    refine (onward_writeArrayHeader hheader).trans ?_
    dsimp only at h
    split at h
    · exact onward_writeStrings h
    · cases h
      exact Onward.refl _
  | .variantArray bounds cells, _, _, _, h => by
    rw [writeValue] at h
    obtain ⟨c₁, hheader, h⟩ := Run.bind_eq_ok h
    exact (onward_writeArrayHeader hheader).trans
      (onward_writeCells (onward_variantCellWriters mem isSerialized cells) h)
  | .otherArray vt cbElements bounds data, _, _, _, h => by
    rw [writeValue] at h
    obtain ⟨c₁, hheader, h⟩ := Run.bind_eq_ok h
    refine (onward_writeArrayHeader hheader).trans ?_
    split at h
    · refine onward_writeCells ?_ h
      intro w hw c hr c' hcell
      obtain ⟨k, -, rfl⟩ := List.mem_map.mp hw
      exact onward_writeRaw hcell
    · cases h
      exact Onward.refl _
  | .nullArray vt, _, _, _, h => by
    rw [writeValue] at h
    obtain ⟨c₁, hheader, h⟩ := Run.bind_eq_ok h
    cases h
    exact onward_writeArrayHeader hheader
  | .byrefArray a, _, _, _, h => by
    rw [writeValue] at h
    exact onward_writeValue mem isSerialized a h
  | .raw vt payload, _, _, _, h => onward_writeRaw (by rwa [writeValue] at h)

/-- INTERNAL: so do the writers of a `VARIANT` array's cells. -/
theorem onward_variantCellWriters (mem : Memory) (isSerialized : Bool) :
    (cells : List Variant) → ∀ w ∈ variantCellWriters mem isSerialized cells,
      ∀ c hr c', w c = .ok (hr, c') → Onward c c'
  | [], w, hw, _, _, _, _ => by
    rw [variantCellWriters] at hw
    cases hw
  | v :: cells, w, hw, c, hr, c', h => by
    rw [variantCellWriters] at hw
    rcases List.mem_cons.mp hw with rfl | hw
    · exact (onward_write c _).trans (onward_writeValue mem isSerialized v h)
    · exact onward_variantCellWriters mem isSerialized cells w hw c hr c' h

end

/-- INTERNAL: a property goes forward from the end of its name. -/
theorem writeProperty_name {mem : Memory} {d : VariantDictionary loc} {name : Bstr}
    {v : Variant} {c c' : Channel} {hr : HResult}
    (h : d.writeProperty mem name v c = .ok (hr, c')) :
    ∃ hr₁ c₁, writeString name c = .ok (hr₁, c₁) ∧ Onward c₁ c' := by
  obtain ⟨⟨hr₁, c₁⟩, hname, h⟩ := Run.bind_eq_ok h
  refine ⟨hr₁, c₁, hname, ?_⟩
  dsimp only at h
  split at h
  · cases h
    exact Onward.refl _
  · obtain ⟨⟨hr₂, c₂⟩, hvalue, h⟩ := Run.bind_eq_ok h
    cases h
    have hvalue := (onward_write c₁ _).trans
      ((onward_write _ _).trans (onward_writeValue mem _ v hvalue))
    -- the last seek goes to where the value ends
    exact Ahead.patch hvalue _

/-- INTERNAL: properties one after the other. -/
theorem onward_writeProperties {mem : Memory} {d : VariantDictionary loc}
    {entries : List (Bstr × Variant)} {c c' : Channel}
    (h : d.writeProperties mem entries c = .ok c') : Onward c c' := by
  induction entries generalizing c with
  | nil =>
    cases h
    exact Onward.refl _
  | cons e entries ih =>
    obtain ⟨key, value⟩ := e
    obtain ⟨⟨hr, c₁⟩, hproperty, h⟩ := Run.bind_eq_ok h
    obtain ⟨hr₁, c₂, hname, hrest⟩ := writeProperty_name hproperty
    exact (onward_writeString hname).trans (hrest.trans (ih h))

/-! ## The number of variables -/

/-- The first 13 bytes of every payload: the name `Els`, where its value ends, and its tag. -/
def elsFront : Bytes :=
  stringBytes VariantDictionary.elsName ++ (leBytes 4 17 ++ leBytes 2 (ScalarType.vt .i4).toNat)

/-- INTERNAL: the property `Els` is these bytes and the number. -/
theorem propertyBytes_els (value : Bytes) (hvalue : value.length = 4) :
    propertyBytes (propertyEnd 0 VariantDictionary.elsName value) VariantDictionary.elsName
      (ScalarType.vt .i4) value = elsFront ++ value := by
  have hend : propertyEnd 0 VariantDictionary.elsName value = 17 := by
    rw [propertyEnd, hvalue]
    decide
  rw [hend, propertyBytes, elsFront, List.append_assoc, List.append_assoc]

/-- **The stream of `LocalContents` begins with the number of variables.** -/
theorem localContents_begins {mem : Memory} {d d' : VariantDictionary loc} {hr : HResult}
    {lSize : ℕ} {stream : CStream} (h : d.localContents mem = .ok (hr, lSize, stream, d')) :
    elsFront ++ elsBytes d <+: stream.buf := by
  have hnew : (CStream.new.setSize 128).pos = 0 := rfl
  have hsound : (CStream.new.setSize 128).Sound := Nat.zero_le _
  have hels : ∀ c : Channel, c.stream.Sound → WritesOrFaults True (elsBytes d) c
      (writeValue mem (d.isSerialized VariantDictionary.elsName) d.elsValue c) :=
    fun c _ => .of_ok trivial _ _ (writeValue_elsValue mem _ d c)
  obtain ⟨b, hb⟩ := (writeProperty_spec mem d stringFits_elsName hels
    ⟨CStream.new.setSize 128, d.m_currentBufLen⟩ hsound).1 trivial
  obtain ⟨⟨hr₁, c₁⟩, helements, h⟩ := Run.bind_eq_ok h
  rw [hb] at helements
  cases helements
  obtain ⟨c₂, hproperties, h⟩ := Run.bind_eq_ok h
  cases h
  have hfront := begins_write hnew (propertyBytes
    (propertyEnd 0 VariantDictionary.elsName (elsBytes d)) VariantDictionary.elsName
    d.elsValue.vt (elsBytes d))
  have hbegins := (onward_writeProperties hproperties).begins _ hfront
  rw [← propertyBytes_els (elsBytes d) (length_leBytes 4 _)]
  exact (List.prefix_take_iff.mpr ⟨hbegins.bytes, hbegins.behind⟩).trans (List.prefix_append _ _)

/-- The stream of `LocalContents` is never empty. -/
theorem buf_localContents {mem : Memory} {d d' : VariantDictionary loc} {hr : HResult}
    {lSize : ℕ} {stream : CStream} (h : d.localContents mem = .ok (hr, lSize, stream, d')) :
    stream.buf ≠ [] := by
  intro hnil
  have hprefix := localContents_begins h
  rw [hnil, List.prefix_nil] at hprefix
  exact absurd (congrArg List.length hprefix) (by
    rw [List.length_append]
    exact Nat.ne_of_gt (Nat.lt_of_lt_of_le (by decide) (Nat.le_add_right _ _)))

end IspSession.Analysis
