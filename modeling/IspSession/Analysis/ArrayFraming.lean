import IspSession.Analysis.ObjectReading
import IspSession.Analysis.ReaderProgress
import IspSession.Analysis.ValueFrames

/-!
# Where a reader stands behind an array

The format has no lengths in it: the reader has to find out from the tags alone how many bytes the
writer has written. `FramesValue` says for which values it stands behind them when it returns
(`framed_iff`). In a `VARIANT` array every cell but the last has to be read with `S_OK`
(`Passes`): the loop ends at the first one that is not, and what follows stays in the stream. An
array of decimals with elements is never read to its end.
-/

set_option autoImplicit false

namespace IspSession.Analysis

open IspSession.Library IspSession.Model

/-! ## Which values are read to their end -/

/-- The tag of a payload is one that `ReadValue` knows. -/
def RawPasses (vt : VarType) : Prop :=
  switchType vt = vtEmpty ∨ switchType vt = vtNull ∨ switchType vt = vtDecimal ∨
    (ScalarType.ofVt (switchType vt)).isSome = true

instance (vt : VarType) : Decidable (RawPasses vt) := by
  unfold RawPasses
  infer_instance

mutual

/-- `ReadValue` says `S_OK` for the bytes of the value. -/
def Passes (flag : Bool) : Variant → Prop
  | .dispatch o | .unknown o => ∃ b bytes, savedStream flag o = some (b :: bytes)
  | .blockArray _ _ data => data.length < 2 ^ 31
  | .bstrArray bounds cells => cells ≠ [] → Walkable bounds
  | .variantArray _ cells => PassesCells flag cells
  | .otherArray vt _ bounds _ => vt = vtDecimal → elementCount bounds = 0
  | .byrefArray a => Passes flag a
  | .raw vt _ => RawPasses vt
  | _ => True

/-- It does so for every cell. -/
def PassesCells (flag : Bool) : List Variant → Prop
  | [] => True
  | v :: cells => Passes flag v ∧ PassesCells flag cells

end

mutual

/-- `ReadValue` stands behind the bytes of the value, whatever it says. -/
def FramesValue (flag : Bool) : Variant → Prop
  | .blockArray _ _ data => data.length < 2 ^ 31
  | .bstrArray bounds cells => cells ≠ [] → Walkable bounds
  | .variantArray _ cells => FramesCells flag cells
  | .otherArray vt _ bounds _ => vt = vtDecimal → elementCount bounds = 0
  | .byrefArray a => FramesValue flag a
  | _ => True

/-- So it does behind every cell, and it says `S_OK` for all of them but the last. -/
def FramesCells (flag : Bool) : List Variant → Prop
  | [] => True
  | v :: cells =>
    FramesValue flag v ∧ (cells ≠ [] → Passes flag v) ∧ FramesCells flag cells

end

mutual

/-- How many bytes behind the value are enough for the reader to go wrong on it. -/
def room : Variant → ℕ
  | .blockArray _ _ data => data.length
  | .otherArray _ _ bounds _ => 16 * elementCount bounds
  | .variantArray _ cells => roomCells cells
  | .byrefArray a => room a
  | _ => 0

/-- How many are enough for one of the cells. -/
def roomCells : List Variant → ℕ
  | [] => 0
  | v :: cells => room v + roomCells cells

end

/-! ## Outcomes -/

/-- The result of a reader on these bytes, with `tl` behind them: it stands behind them, or it
gives up in front of their end, or it is far behind it. -/
structure Outcome {α : Type} (passes frames : Prop) (bs : Bytes) (need : ℕ) (tl : Bytes)
    (c : Channel) (r : Run (HResult × α × Channel)) : Prop where
  framed : frames → ∃ hr a b, r = .ok (hr, a, ⟨c.stream.advance bs.length, b⟩) ∧
    (hr = .sOk ↔ passes)
  lost : ¬ frames → need ≤ tl.length → ∀ hr a c', r = .ok (hr, a, c') →
    (hr ≠ .sOk ∧ ∃ k < bs.length, c'.stream = c.stream.advance k) ∨
      ∃ k, 2 ^ 31 ≤ k ∧ c'.stream = c.stream.advance k

section Outcomes

variable {α β : Type} {passes frames : Prop} {bs : Bytes} {need : ℕ} {tl : Bytes} {c : Channel}
  {r : Run (HResult × α × Channel)}

/-- INTERNAL: the reader gives the value back. -/
theorem Outcome.of_delivers {a : α} (hpasses : passes) (hframes : frames)
    (h : Delivers a bs c r) : Outcome passes frames bs need tl c r := by
  obtain ⟨b, hb⟩ := h
  exact ⟨fun _ => ⟨.sOk, a, b, hb, iff_of_true rfl hpasses⟩, fun hno => absurd hframes hno⟩

/-- INTERNAL: the reader gives a value, whichever it is. -/
theorem Outcome.of_reads (hpasses : passes) (hframes : frames) (h : ∃ a, Delivers a bs c r) :
    Outcome passes frames bs need tl c r := by
  obtain ⟨a, ha⟩ := h
  exact .of_delivers hpasses hframes ha

/-- INTERNAL: the reader stands behind the bytes and says that something is wrong. -/
theorem Outcome.of_stops {hr : HResult} {a : α} {b : ℕ} (hpasses : ¬ passes) (hframes : frames)
    (hhr : hr ≠ .sOk) (h : r = .ok (hr, a, ⟨c.stream.advance bs.length, b⟩)) :
    Outcome passes frames bs need tl c r :=
  ⟨fun _ => ⟨hr, a, b, h, iff_of_false hhr hpasses⟩, fun hno => absurd hframes hno⟩

/-- INTERNAL: the reader faults. -/
theorem Outcome.of_fault {e : Stuck} (hframes : ¬ frames)
    (h : need ≤ tl.length → r = .error e) : Outcome passes frames bs need tl c r := by
  refine ⟨fun hyes => absurd hyes hframes, fun _ hneed hr a c' hok => ?_⟩
  rw [h hneed] at hok
  cases hok

/-- INTERNAL: the reader gives the value back, or faults. -/
theorem Outcome.of_deliversOrFaults {ok : Prop} {a : α} (hpasses : passes ↔ ok)
    (hframes : frames ↔ ok) (h : DeliversOrFaults ok a bs c r) :
    Outcome passes frames bs need tl c r := by
  by_cases hok : ok
  · exact .of_delivers (hpasses.mpr hok) (hframes.mpr hok) (h.1 hok)
  · exact .of_fault (fun hno => hok (hframes.mp hno)) fun _ => h.2 hok

/-- INTERNAL: a reader that has bytes in front of it behind it. -/
theorem Outcome.behind {front : Bytes} {b : ℕ}
    (h : Outcome passes frames bs need tl ⟨c.stream.advance front.length, b⟩ r) :
    Outcome passes frames (front ++ bs) need tl c r := by
  constructor
  · intro hframes
    obtain ⟨hr, a, b', hok, hiff⟩ := h.framed hframes
    refine ⟨hr, a, b', ?_, hiff⟩
    rw [hok, CStream.advance_advance, List.length_append]
  · intro hframes hneed hr a c' hok
    rcases h.lost hframes hneed hr a c' hok with ⟨hhr, k, hk, hc'⟩ | ⟨k, hk, hc'⟩
    · refine .inl ⟨hhr, front.length + k, ?_, by rw [hc', CStream.advance_advance]⟩
      rw [List.length_append]
      omega
    · exact .inr ⟨front.length + k, by omega, by rw [hc', CStream.advance_advance]⟩

/-- INTERNAL: what is made of the value plays no part. -/
theorem Outcome.map (h : Outcome passes frames bs need tl c r)
    (f : HResult × α × Channel → β) :
    Outcome passes frames bs need tl c (r >>= fun s => pure (s.1, f s, s.2.2)) := by
  constructor
  · intro hframes
    obtain ⟨hr, a, b, hok, hiff⟩ := h.framed hframes
    exact ⟨hr, _, b, by rw [hok]; rfl, hiff⟩
  · intro hframes hneed hr a c' hok
    obtain ⟨⟨hr', a', c''⟩, hr₁, hok⟩ := Run.bind_eq_ok hok
    cases hok
    exact h.lost hframes hneed _ _ _ hr₁

end Outcomes

/-- INTERNAL: a loop that has ended stays where it is. -/
theorem sweep_stopped {α : Type} {visit : List (BitVec 32) → CellState α → Run (CellState α)}
    {hr : HResult} (hhr : hr ≠ .sOk) (a : α) (c : Channel) (vectors : List (List (BitVec 32))) :
    Odometer.sweep CellState.go visit vectors (hr, a, c) = .ok (hr, a, c) := by
  cases vectors with
  | nil => rfl
  | cons is vectors =>
    rw [Odometer.sweep, if_neg]
    · rfl
    · simpa [CellState.go] using hhr

/-- **A loop over cells**: what the first one says decides whether the others are read. -/
theorem Outcome.cons {α : Type} {visit : List (BitVec 32) → CellState α → Run (CellState α)}
    (hforward : ∀ is s s', visit is s = .ok s' → Forward s.2.2 s'.2.2)
    {is : List (BitVec 32)} {vectors : List (List (BitVec 32))} {p f P F : Prop} {bs bs' : Bytes}
    {need need' : ℕ} {tl : Bytes} {a : α} {c : Channel} (hvectors : vectors = [] ↔ bs' = [])
    (hlast : vectors = [] → F) (hrest : c.stream.rest = bs ++ (bs' ++ tl))
    (hfirst : Outcome p f bs need (bs' ++ tl) c (visit is (.sOk, a, c)))
    (hothers : ∀ a' c', c'.stream.rest = bs' ++ tl →
      Outcome P F bs' need' tl c' (Odometer.sweep CellState.go visit vectors (.sOk, a', c'))) :
    Outcome (p ∧ P) (f ∧ (vectors ≠ [] → p) ∧ F) (bs ++ bs') (need + need') tl c
      (Odometer.sweep CellState.go visit (is :: vectors) (.sOk, a, c)) := by
  have hstep : Odometer.sweep CellState.go visit (is :: vectors) (.sOk, a, c) =
      visit is (.sOk, a, c) >>= Odometer.sweep CellState.go visit vectors := rfl
  rw [hstep]
  constructor
  · rintro ⟨hf, hp, hF⟩
    obtain ⟨hr, a', b, hok, hiff⟩ := hfirst.framed hf
    rw [hok, Run.ok_bind]
    by_cases hyes : p
    · obtain rfl := hiff.mpr hyes
      obtain ⟨hr', a'', b', hok', hiff'⟩ := (hothers a' ⟨c.stream.advance bs.length, b⟩
        (CStream.rest_advance_of_append hrest)).framed hF
      refine ⟨hr', a'', b', ?_, hiff'.trans (and_iff_right hyes).symm⟩
      rw [hok', CStream.advance_advance, List.length_append]
    · have hnil : vectors = [] := by
        by_contra hne
        exact hyes (hp hne)
      have hhr : hr ≠ .sOk := fun heq => hyes (hiff.mp heq)
      refine ⟨hr, a', b, ?_, iff_of_false hhr fun hboth => hyes hboth.1⟩
      rw [sweep_stopped hhr, hvectors.mp hnil, List.append_nil]
  · intro hno hneed hr a' c' hok
    obtain ⟨⟨hr₁, a₁, c₁⟩, hvisit, hok⟩ := Run.bind_eq_ok hok
    by_cases hf : f
    · obtain ⟨hr₂, a₂, b, hok₂, hiff⟩ := hfirst.framed hf
      obtain ⟨rfl, hrest₂⟩ := Prod.mk.inj (Except.ok.inj (hvisit.symm.trans hok₂))
      obtain ⟨rfl, rfl⟩ := Prod.mk.inj hrest₂
      by_cases hyes : p
      · obtain rfl := hiff.mpr hyes
        have hF : ¬ F := fun hF => hno ⟨hf, fun _ => hyes, hF⟩
        rcases (hothers a₁ ⟨c.stream.advance bs.length, b⟩
          (CStream.rest_advance_of_append hrest)).lost hF (by omega) hr a' c' hok with
          ⟨hhr, k, hk, hc'⟩ | ⟨k, hk, hc'⟩
        · refine .inl ⟨hhr, bs.length + k, ?_, by rw [hc', CStream.advance_advance]⟩
          rw [List.length_append]
          omega
        · exact .inr ⟨bs.length + k, by omega, by rw [hc', CStream.advance_advance]⟩
      · have hne : vectors ≠ [] := fun hnil =>
          hno ⟨hf, fun hne => absurd hnil hne, hlast hnil⟩
        have hpos : 0 < bs'.length := List.length_pos_iff.mpr fun h => hne (hvectors.mpr h)
        have hhr : hr₁ ≠ .sOk := fun heq => hyes (hiff.mp heq)
        rw [sweep_stopped hhr] at hok
        cases hok
        refine .inl ⟨hhr, bs.length, ?_, rfl⟩
        rw [List.length_append]
        omega
    · have hroom : need ≤ (bs' ++ tl).length := by
        rw [List.length_append]
        omega
      rcases hfirst.lost hf hroom hr₁ a₁ c₁ hvisit with ⟨hhr, k, hk, hc₁⟩ | ⟨k, hk, hc₁⟩
      · rw [sweep_stopped hhr] at hok
        cases hok
        refine .inl ⟨hhr, k, ?_, hc₁⟩
        rw [List.length_append]
        omega
      · obtain ⟨k', hk'⟩ := Odometer.sweep_keeps CellState.go
          (fun s : CellState α => Forward c₁ s.2.2)
          (fun is s s' h h' => h.trans (hforward is s s' h')) (Forward.refl c₁) hok
        exact .inr ⟨k + k', by omega, by rw [hk', hc₁, CStream.advance_advance]⟩

/-! ## The reader -/

section Reader

variable (loc : Collation) (strict : Bool) (mem mem' : Memory) (flag : Bool)

/-- What `ReadValue` does with the bytes of a value. -/
def ReadsFrame (fuel : ℕ) (v : Variant) : Prop :=
  ∀ (c : Channel) (tl : Bytes), c.stream.rest = frameBytes mem flag v ++ tl →
    Outcome (Passes flag v) (FramesValue flag v) (frameBytes mem flag v) (room v) tl c
      (readValue loc strict mem' fuel v.vt c)

variable {loc strict mem mem' flag}

/-- INTERNAL: a supported value, or one that is read as such a one. -/
theorem readsFrame_of_supported {fuel : ℕ} {v w : Variant} (hs : Supported w) (hf : Fits w)
    (hvt : v.vt = w.vt) (hbytes : frameBytes mem flag v = valueBytes mem w)
    (hpasses : Passes flag v ↔ Readable w) (hframes : FramesValue flag v ↔ Readable w)
    (hfuel : (frameBytes mem flag v).length < fuel) :
    ReadsFrame loc strict mem mem' flag fuel v := by
  intro c tl hrest
  rw [hbytes] at hfuel hrest ⊢
  rw [hvt]
  exact .of_deliversOrFaults hpasses hframes
    (readValue_spec loc strict mem mem' w hs hf fuel c tl hfuel hrest)

/-- INTERNAL: the element types of arrays have no array bit. -/
theorem and_vtArray_of_elemSize {vt : VarType} {cb : ℕ} (h : elemSize vt = some cb) :
    (vtArray ||| vt) ^^^ vtArray = vt ∧ (vtArray ||| vt) &&& vtArray = vtArray ∧ 0 < cb ∧
      cb < 2 ^ 32 := by
  unfold elemSize at h
  split at h
  · rename_i t ht
    obtain rfl := Option.some.inj h
    have hvt : vt = UInt16.ofNat vt.toNat := by simp
    unfold ScalarType.ofVt at ht
    split at ht <;> (try cases ht) <;> rename_i hnat <;> rw [hvt, hnat] <;> decide
  · split at h
    · rename_i hvt
      obtain rfl := Option.some.inj h
      rcases hvt with rfl | rfl | rfl <;> decide
    · split at h
      · rename_i hvt
        obtain rfl := Option.some.inj h
        rw [hvt]
        decide
      · split at h
        · rename_i hvt
          obtain rfl := Option.some.inj h
          rw [hvt]
          decide
        · cases h

/-- INTERNAL: the array bit of a null array. -/
theorem xor_vtArray {vt : VarType} (h : vt &&& vtArray = 0) :
    (vtArray ||| vt) ^^^ vtArray = vt ∧ (vtArray ||| vt) &&& vtArray = vtArray := by
  rw [← UInt16.toBitVec_inj, UInt16.toBitVec_and] at h
  constructor
  · rw [← UInt16.toBitVec_inj, UInt16.toBitVec_xor, UInt16.toBitVec_or]
    ext i hi
    have hbit := congrArg (fun x : BitVec 16 => x[i]) h
    simp only [BitVec.getElem_and] at hbit
    simp only [BitVec.getElem_xor, BitVec.getElem_or]
    revert hbit
    cases vtArray.toBitVec[i] <;> cases vt.toBitVec[i] <;> simp
  · rw [← UInt16.toBitVec_inj, UInt16.toBitVec_and, UInt16.toBitVec_or]
    ext i hi
    simp only [BitVec.getElem_and, BitVec.getElem_or]
    cases vtArray.toBitVec[i] <;> simp

/-- INTERNAL: an array that is passed by reference has the array bit. -/
theorem and_vtArray_byref {vt : VarType} (h : vt &&& vtArray = vtArray) :
    (vtByref ||| vt) &&& vtArray = vtArray := by
  rw [← UInt16.toBitVec_inj, UInt16.toBitVec_and] at h
  rw [← UInt16.toBitVec_inj, UInt16.toBitVec_and, UInt16.toBitVec_or]
  ext i hi
  have hbit := congrArg (fun x : BitVec 16 => x[i]) h
  simp only [BitVec.getElem_and] at hbit
  simp only [BitVec.getElem_and, BitVec.getElem_or]
  revert hbit
  cases vtArray.toBitVec[i] <;> cases vt.toBitVec[i] <;> simp

/-- INTERNAL: the cells of an array behind its header. -/
theorem Outcome.array {vcopy : VarType} {bounds : List SafeArrayBound} {cb : ℕ}
    (hcreate : safeArrayCreate vcopy bounds = some cb) {passes frames : Prop} {bs tl : Bytes}
    {need : ℕ} {vtype : VarType} (hvtype : vtype &&& vtArray = vtArray) {fuel : ℕ} {c : Channel}
    (hrest : c.stream.rest = headerBytes mem vcopy cb bounds ++ bs ++ tl)
    (hcells : ∀ c : Channel, c.stream.rest = bs ++ tl →
      Outcome passes frames bs need tl c
        (readCells strict mem' (readValue loc strict mem' fuel) vcopy bounds cb
          (longProduct bounds) (BitVec.ofNat 32 cb) c)) :
    Outcome passes frames (headerBytes mem vcopy cb bounds ++ bs) need tl c
      (readValue loc strict mem' (fuel + 1) vtype c) := by
  obtain ⟨hxor, -, hcb⟩ := and_vtArray_of_elemSize (safeArrayCreate_eq_some hcreate).1
  rw [List.append_assoc] at hrest
  obtain ⟨b, hb⟩ := readArray_header loc mem mem' hxor hcreate hcb hrest
  rw [readValue_of_array loc strict mem' fuel hvtype, hb]
  exact (hcells ⟨c.stream.advance (headerBytes mem vcopy cb bounds).length, b⟩
    (CStream.rest_advance_of_append hrest)).behind

/-- INTERNAL: an array of a block type that is too large to be written. -/
theorem readsFrame_largeBlock {t : ScalarType} {bounds : List SafeArrayBound} {data : Bytes}
    (hmade : Made flag (.blockArray t bounds data)) (hlarge : ¬ data.length < 2 ^ 31) (fuel : ℕ) :
    ReadsFrame loc strict mem mem' flag (fuel + 1) (.blockArray t bounds data) := by
  intro c tl hrest
  obtain ⟨hblock, hcreate, hdata⟩ : _ ∧ _ ∧ _ := by rwa [Made] at hmade
  have hvt := (and_vtArray_of_elemSize (safeArrayCreate_eq_some hcreate).1).2.1
  rw [frameBytes, if_neg hlarge] at hrest ⊢
  refine Outcome.array hcreate hvt hrest fun c hc => ?_
  refine ⟨fun hno => absurd hno hlarge, fun _ hneed hr a c' hok => .inr ?_⟩
  have hneed : data.length ≤ tl.length := hneed
  have htake : (tl.take data.length).length = data.length := by
    rw [List.length_take, Nat.min_eq_left hneed]
  have hsplit : c.stream.rest = tl.take data.length ++ tl.drop data.length := by
    rw [hc, List.nil_append, List.take_append_drop]
  obtain ⟨b, hread⟩ := readCells_block strict mem' (readValue loc strict mem' fuel) hblock hcreate
    (htake.trans hdata) hsplit
  obtain ⟨rfl, hpair⟩ := Prod.mk.inj (Except.ok.inj (hok.symm.trans hread))
  obtain ⟨rfl, rfl⟩ := Prod.mk.inj hpair
  exact ⟨data.length, by omega, by rw [htake]⟩

/-- INTERNAL: an array without cells in the stream. -/
theorem readsFrame_headerOnly {vt : VarType} {cb : ℕ} {bounds : List SafeArrayBound} {data : Bytes}
    (hmade : Made flag (.otherArray vt cb bounds data)) (hvt : vt ≠ vtDecimal) (fuel : ℕ) :
    ReadsFrame loc strict mem mem' flag (fuel + 1) (.otherArray vt cb bounds data) := by
  intro c tl hrest
  obtain ⟨hcreate, hbstr, hvariant, hother⟩ : _ ∧ _ ∧ _ ∧ _ := by rwa [Made] at hmade
  have hbit := (and_vtArray_of_elemSize (safeArrayCreate_eq_some hcreate).1).2.1
  rw [frameBytes, if_neg hvt] at hrest ⊢
  refine Outcome.array hcreate hbit hrest fun c hc => ?_
  refine .of_delivers (a := .otherArray vt cb bounds (List.replicate (elementCount bounds * cb) 0))
    (fun h => absurd h hvt) (fun h => absurd h hvt) ⟨c.m_currentBufLen, ?_⟩
  unfold readCells
  rw [if_neg hvariant, if_neg hbstr, if_neg hvt]
  cases htype : ScalarType.ofVt vt with
  | none => rfl
  | some t =>
    dsimp only
    rw [if_neg (by rw [hother t htype]; exact Bool.false_ne_true)]
    rfl

/-- INTERNAL: the loop over the cells of a `DECIMAL` array comes to the last one and faults. -/
theorem sweep_readDecimalCell {bounds : List SafeArrayBound} (left k : ℕ)
    (hk : k + (left + 1) = elementCount bounds) (data : List UInt8) {c : Channel}
    (hrest : 16 * left ≤ c.stream.rest.length) :
    Odometer.sweep CellState.go (readDecimalCell strict bounds)
      (Odometer.indicesFrom extent loopIndex bounds k (left + 1)) (.sOk, data, c) =
        .error .fault := by
  induction left generalizing k data c with
  | zero =>
    rw [indicesFrom_succ, Odometer.sweep, if_pos (by rfl), readDecimalCell,
      safeArrayPtrOfIndex_indexAt (by omega)]
    dsimp only
    rw [if_pos (by omega)]
    rfl
  | succ left ih =>
    have hread : (c.read 16).1 = .sOk := by
      rw [Channel.read_result, if_neg (by omega)]
    have hrest' : 16 * left ≤ (c.read 16).2.2.stream.rest.length := by
      rw [Channel.rest_read, List.length_drop]
      omega
    rw [indicesFrom_succ, Odometer.sweep, if_pos (by rfl), readDecimalCell,
      safeArrayPtrOfIndex_indexAt (by omega)]
    dsimp only
    rw [if_neg (by omega), Run.pure_eq, Run.ok_bind, hread]
    have hkept : kept strict .sOk = .sOk := by simp [kept]
    rw [hkept]
    exact ih (k + 1) (by omega) _ hrest'

/-- INTERNAL: an array of decimals. -/
theorem readsFrame_decimals {cb : ℕ} {bounds : List SafeArrayBound} {data : Bytes}
    (hmade : Made flag (.otherArray vtDecimal cb bounds data))
    (hwrites : WritesValue flag (.otherArray vtDecimal cb bounds data)) (fuel : ℕ) :
    ReadsFrame loc strict mem mem' flag (fuel + 1) (.otherArray vtDecimal cb bounds data) := by
  intro c tl hrest
  obtain ⟨hcreate, -, -, -⟩ : _ ∧ _ ∧ _ ∧ _ := by rwa [Made] at hmade
  obtain ⟨hsize, -, -, hcount⟩ := safeArrayCreate_eq_some hcreate
  obtain rfl : 16 = cb := Option.some.inj hsize
  have hbit := (and_vtArray_of_elemSize hsize).2.1
  have hwalkable : elementCount bounds ≠ 0 → Walkable bounds := by
    rw [WritesValue] at hwrites
    exact (hwrites rfl).1
  have htotal := toNat_longProduct bounds (by omega)
  have hslt := zero_slt_iff (x := longProduct bounds) (by omega)
  rw [frameBytes] at hrest ⊢
  refine Outcome.array hcreate hbit hrest fun c hc => ?_
  have hcells : ∀ c, readCells strict mem' (readValue loc strict mem' fuel) vtDecimal bounds 16
      (longProduct bounds) (BitVec.ofNat 32 16) c =
      if (0#32).slt (longProduct bounds) then
        walkArray CellState.go (readDecimalCell strict bounds) bounds (longProduct bounds)
          (.sOk, List.replicate (elementCount bounds * 16) 0, c) >>= fun s =>
            pure (finished s.1 (.otherArray vtDecimal 16 bounds s.2.1) s.2.2)
      else pure (.sOk,
        .otherArray vtDecimal 16 bounds (List.replicate (elementCount bounds * 16) 0), c) :=
    fun _ => rfl
  rw [hcells, hslt, htotal]
  by_cases hzero : elementCount bounds = 0
  · refine .of_delivers (a := .otherArray vtDecimal 16 bounds
      (List.replicate (elementCount bounds * 16) 0)) (fun _ => hzero) (fun _ => hzero)
      ⟨c.m_currentBufLen, ?_⟩
    simp only [hzero, if_true, Nat.lt_irrefl, decide_false, Bool.false_eq_true, if_false]
    rfl
  · have hpos := Nat.pos_of_ne_zero hzero
    rw [if_pos (decide_eq_true hpos)]
    refine .of_fault (e := .fault) (fun hno => hzero (hno rfl)) fun hneed => ?_
    have hneed : 16 * elementCount bounds ≤ tl.length := hneed
    obtain ⟨left, hleft⟩ : ∃ left, elementCount bounds = left + 1 :=
      ⟨elementCount bounds - 1, by omega⟩
    rw [walkArray_of_walkable _ _ (ne_nil_of_safeArrayCreate hcreate) hpos htotal
      (hwalkable hzero), hleft, sweep_readDecimalCell left 0 (by omega)]
    · rfl
    · rw [hc, List.length_append]
      omega

/-- INTERNAL: a null array is its header. -/
theorem readsFrame_nullArray {vt : VarType} (hmade : Made flag (.nullArray vt)) (fuel : ℕ) :
    ReadsFrame loc strict mem mem' flag (fuel + 1) (.nullArray vt) := by
  intro c tl hrest
  obtain ⟨hxor, hbit⟩ := xor_vtArray (by rwa [Made] at hmade)
  have hbytes : frameBytes mem flag (.nullArray vt) =
      arrayDescriptor mem (vtArray ||| vt) 0 0 ++ stringBytes (arrayTypeName vt) :=
    List.append_nil _
  rw [hbytes] at hrest ⊢
  rw [List.append_assoc] at hrest
  obtain ⟨b, hb⟩ := readArray_front loc mem mem' hxor 0 0 hrest
  refine .of_delivers (a := .empty) trivial trivial ⟨b, ?_⟩
  show readValue loc strict mem' (fuel + 1) (vtArray ||| vt) c = _
  rw [readValue_of_array loc strict mem' fuel hbit, hb, CStream.advance_advance,
    List.length_append, (arrayDescriptor_fields mem (vtArray ||| vt) 0 0).1]
  rfl

/-- INTERNAL: an object. -/
theorem readsFrame_object {v : Variant} {o : ComObject} {wrap : ComObject → Variant}
    (hvt : (v.vt = vtDispatch ∧ wrap = .dispatch) ∨ (v.vt = vtUnknown ∧ wrap = .unknown))
    (hbytes : frameBytes mem flag v = objectBytes flag o)
    (hpasses : Passes flag v ↔ ∃ b bytes, savedStream flag o = some (b :: bytes))
    (hframes : FramesValue flag v)
    (hmade : ∀ bytes, savedStream flag o = some bytes → bytes.length < 2 ^ 31) (fuel : ℕ) :
    ReadsFrame loc strict mem mem' flag (fuel + 1) v := by
  intro c tl hrest
  rw [hbytes] at hrest ⊢
  by_cases hsaved : ∃ b bytes, savedStream flag o = some (b :: bytes)
  · obtain ⟨b, bytes, hstream⟩ := hsaved
    refine .of_delivers (a := wrap (.packed (b :: bytes))) (hpasses.mpr ⟨b, bytes, hstream⟩)
      hframes ⟨c.m_currentBufLen, ?_⟩
    · rw [readObject_spec hvt (fun bs hbs => ?_) (Nat.succ_pos fuel) hrest, hstream]
      · rfl
      · obtain rfl := Option.some.inj (hstream.symm.trans hbs)
        exact ⟨Nat.succ_pos _, hmade _ hstream⟩
  · -- no stream and an empty one are both written as the size zero
    have hzero : objectBytes flag o = objectBytes true .null := by
      unfold objectBytes
      cases hstream : savedStream flag o with
      | none => rfl
      | some bytes =>
        cases bytes with
        | nil => rfl
        | cons b bytes => exact absurd ⟨b, bytes, hstream⟩ hsaved
    rw [hzero] at hrest ⊢
    refine .of_stops (a := .empty) (b := c.m_currentBufLen) (fun hp => hsaved (hpasses.mp hp))
      hframes (show HResult.sFalse ≠ .sOk by decide) ?_
    rw [readObject_spec hvt (fun bs hbs => by cases hbs) (Nat.succ_pos fuel) hrest]
    rfl

/-- INTERNAL: a payload under a tag. -/
theorem readsFrame_raw {vt : VarType} {payload : BitVec (8 * 22)}
    (hwrites : WritesValue flag (.raw vt payload)) (fuel : ℕ) :
    ReadsFrame loc strict mem mem' flag (fuel + 1) (.raw vt payload) := by
  intro c tl hrest
  obtain ⟨harray, hpointer⟩ : RawWrites vt := by rwa [WritesValue] at hwrites
  have hpasses : Passes flag (.raw vt payload) ↔ RawPasses vt := by rw [Passes]
  have hframes : FramesValue flag (.raw vt payload) := by simp [FramesValue]
  have hbytes : frameBytes mem flag (.raw vt payload) = rawBytes vt payload.toNat := by
    rw [frameBytes]
  rw [hbytes] at hrest ⊢
  show Outcome _ _ _ _ tl c (readValue loc strict mem' (fuel + 1) vt c)
  rw [readValue_of_scalar loc strict mem' fuel harray]
  have hkept : kept strict .sOk = .sOk := by simp [kept]
  have hlength := length_leBytes 22 payload.toNat
  unfold rawBytes at hrest ⊢
  by_cases hempty : switchType vt = vtEmpty ∨ switchType vt = vtNull
  · rw [if_pos hempty] at hrest ⊢
    refine .of_delivers (a := .ofMemory vt 0)
      (hpasses.mpr (hempty.elim .inl fun h => .inr (.inl h))) hframes ⟨c.m_currentBufLen, ?_⟩
    rw [readScalar, if_pos hempty]
    rfl
  rw [if_neg hempty] at hrest ⊢
  by_cases hdecimal : switchType vt = vtDecimal
  · rw [if_pos hdecimal] at hrest ⊢
    rw [← List.append_assoc] at hrest ⊢
    have hfront : (leBytes 2 vt.toNat ++ (leBytes 22 payload.toNat).take 14).length = 16 := by
      rw [List.length_append, length_leBytes, List.length_take, hlength]
      decide
    rw [List.append_assoc] at hrest
    have hread := Channel.read_of_rest hrest hfront
    have hrest' := CStream.rest_advance_of_append hrest
    rw [hfront] at hrest'
    have hyes : Passes flag (.raw vt payload) := hpasses.mpr (.inr (.inr (.inl hdecimal)))
    by_cases hvt : vt = vtDecimal
    · rw [if_pos hvt, List.append_nil] at *
      refine .of_reads hyes hframes ⟨_, c.m_currentBufLen, by
        rw [readScalar, if_neg hempty, if_pos hdecimal, hread]
        dsimp only
        rw [if_pos hvt, hkept, hfront]
        rfl⟩
    · rw [if_neg hvt] at hrest' ⊢
      have hback : ((leBytes 22 payload.toNat).drop 6).length = 16 := by
        rw [List.length_drop, hlength]
      have hread' := Channel.read_of_rest (c := ⟨c.stream.advance 16, c.m_currentBufLen⟩) hrest'
        hback
      refine .of_reads hyes hframes ⟨_, c.m_currentBufLen, by
        rw [readScalar, if_neg hempty, if_pos hdecimal, hread]
        dsimp only
        rw [if_neg hvt, hread', hkept, List.length_append, hfront, hback,
          CStream.advance_advance]
        rfl⟩
  rw [if_neg hdecimal] at hrest ⊢
  have hbstr : ¬ switchType vt = vtBstr := fun h => hpointer (.inl h)
  have hobject : ¬ (switchType vt = vtDispatch ∨ switchType vt = vtUnknown) :=
    fun h => hpointer (.inr h)
  cases htype : ScalarType.ofVt (switchType vt) with
  | none =>
    refine .of_stops (a := .empty) (b := c.m_currentBufLen) ?_ hframes
      (show HResult.eInvalidArg ≠ .sOk by decide) ?_
    · rw [hpasses]
      rintro (h | h | h | h)
      · exact hempty (.inl h)
      · exact hempty (.inr h)
      · exact hdecimal h
      · rw [htype] at h
        cases h
    · rw [readScalar, if_neg hempty, if_neg hdecimal, if_neg hbstr, if_neg hobject, htype]
      rfl
  | some t =>
    rw [htype] at hrest
    dsimp only at hrest ⊢
    have hsize : (((leBytes 22 payload.toNat).drop 6).take t.size).length = t.size := by
      rw [List.length_take, List.length_drop, hlength]
      cases t <;> rfl
    have hread := Channel.read_of_rest hrest hsize
    refine .of_reads (hpasses.mpr (.inr (.inr (.inr (by rw [htype]; rfl))))) hframes
      ⟨_, c.m_currentBufLen, by
        rw [readScalar, if_neg hempty, if_neg hdecimal, if_neg hbstr, if_neg hobject, htype]
        dsimp only
        rw [hread, hkept, hsize]
        rfl⟩

/-- INTERNAL: a cell of a `VARIANT` array, with its tag. -/
theorem readsFrame_cell {fuel : ℕ} {v : Variant} (hv : ReadsFrame loc strict mem mem' flag fuel v)
    {bounds : List SafeArrayBound} {is : List (BitVec 32)} {k : ℕ}
    (hk : safeArrayPtrOfIndex bounds is = some k) (cells : List Variant) {c : Channel} {tl : Bytes}
    (hrest : c.stream.rest = taggedBytes (frameBytes mem flag) v ++ tl) :
    Outcome (Passes flag v) (FramesValue flag v) (taggedBytes (frameBytes mem flag) v) (room v) tl c
      (readVariantCell strict mem' bounds (readValue loc strict mem' fuel) is
        (.sOk, cells, c)) := by
  rw [taggedBytes, List.append_assoc] at hrest
  have hread := Channel.read_of_rest hrest (length_leBytes 2 _)
  have hbehind := CStream.rest_advance_of_append hrest
  have hover : overlay (uninit mem'.vartype 2) (leBytes 2 v.vt.toNat) = leBytes 2 v.vt.toNat :=
    overlay_of_length_le (by simp)
  have hkept : kept strict .sOk = .sOk := by simp [kept]
  have hvalue := hv ⟨c.stream.advance (leBytes 2 v.vt.toNat).length, c.m_currentBufLen⟩ tl hbehind
  rw [length_leBytes] at hvalue
  simp only [readVariantCell, hk, hread, hkept, if_true, hover, uint16_ofLeBytes_leBytes]
  refine Outcome.behind (b := c.m_currentBufLen) ?_
  rw [length_leBytes]
  exact hvalue.map fun s => cells.set k s.2.1

/-- INTERNAL: the cells of a `VARIANT` array, from the `k`-th on. -/
theorem readsFrame_sweep {fuel : ℕ} {bounds : List SafeArrayBound} (todo : List Variant) (k : ℕ)
    (hk : k + todo.length = elementCount bounds)
    (htodo : ∀ v ∈ todo, ReadsFrame loc strict mem mem' flag fuel v) (cells : List Variant)
    {c : Channel} {tl : Bytes} (hrest : c.stream.rest = frameCellsBytes mem flag todo ++ tl) :
    Outcome (PassesCells flag todo) (FramesCells flag todo) (frameCellsBytes mem flag todo)
      (roomCells todo) tl c
      (Odometer.sweep CellState.go
        (readVariantCell strict mem' bounds (readValue loc strict mem' fuel))
        (Odometer.indicesFrom extent loopIndex bounds k todo.length) (.sOk, cells, c)) := by
  induction todo generalizing k cells c with
  | nil => exact .of_delivers (a := cells) trivial trivial ⟨c.m_currentBufLen, rfl⟩
  | cons v todo ih =>
    rw [List.length_cons] at hk
    have hbytes : frameCellsBytes mem flag (v :: todo) =
        taggedBytes (frameBytes mem flag) v ++ frameCellsBytes mem flag todo := by
      rw [frameCellsBytes, taggedBytes, List.append_assoc]
    rw [hbytes, List.append_assoc] at hrest
    rw [hbytes, List.length_cons, indicesFrom_succ]
    have hnil : Odometer.indicesFrom extent loopIndex bounds (k + 1) todo.length = [] ↔
        todo = [] := by
      simp [Odometer.indicesFrom]
    have hempty : todo = [] ↔ frameCellsBytes mem flag todo = [] := by
      cases todo with
      | nil => simp [frameCellsBytes]
      | cons u todo => simp [frameCellsBytes, leBytes]
    have hcons := Outcome.cons (forward_readVariantCell (forward_readValue loc strict mem' fuel))
      (hnil.trans hempty) (fun h => by rw [hnil.mp h]; trivial) hrest
      (readsFrame_cell (htodo v (List.mem_cons_self ..))
        (safeArrayPtrOfIndex_indexAt (show k < elementCount bounds by omega)) cells hrest)
      (fun a' c' h => ih (k + 1) (by omega) (fun u hu => htodo u (List.mem_cons_of_mem v hu)) a' h)
    rw [ne_eq, hnil] at hcons
    exact hcons

/-- INTERNAL: a `VARIANT` array. -/
theorem readsFrame_variantArray {bounds : List SafeArrayBound} {cells : List Variant}
    (hmade : Made flag (.variantArray bounds cells))
    (hwrites : WritesValue flag (.variantArray bounds cells)) {fuel : ℕ}
    (hcells : ∀ v ∈ cells, ReadsFrame loc strict mem mem' flag fuel v) :
    ReadsFrame loc strict mem mem' flag (fuel + 1) (.variantArray bounds cells) := by
  intro c tl hrest
  obtain ⟨hcreate, hlen, -⟩ : _ ∧ _ ∧ _ := by rwa [Made] at hmade
  obtain ⟨hsize, -, -, hcount⟩ := safeArrayCreate_eq_some hcreate
  have hwalkable : cells ≠ [] → Walkable bounds := by
    rw [WritesValue] at hwrites
    exact hwrites.1
  have htotal := toNat_longProduct bounds (by omega)
  have hslt := zero_slt_iff (x := longProduct bounds) (by omega)
  rw [frameBytes] at hrest ⊢
  refine Outcome.array hcreate (and_vtArray_of_elemSize hsize).2.1 hrest fun c hc => ?_
  rw [readCells_variant, hslt, htotal, ← hlen]
  by_cases hnil : cells = []
  · subst hnil
    exact .of_delivers (a := .variantArray bounds []) trivial trivial ⟨c.m_currentBufLen, rfl⟩
  · have hpos : 0 < cells.length := List.length_pos_iff.mpr hnil
    rw [if_pos (decide_eq_true hpos), walkArray_of_walkable _ _ (ne_nil_of_safeArrayCreate hcreate)
      (by omega) htotal (hwalkable hnil), ← hlen]
    exact (readsFrame_sweep cells 0 (by omega) hcells _ hc).map
      fun s => (finished s.1 (.variantArray bounds s.2.1) s.2.2).2.1

/-- INTERNAL: a string. -/
theorem readsFrame_bstr {s : Bstr} (hmade : Made flag (.bstr s)) {fuel : ℕ}
    (hfuel : (frameBytes mem flag (.bstr s)).length < fuel) :
    ReadsFrame loc strict mem mem' flag fuel (.bstr s) := by
  have hfits : StringFits s := by rwa [Made] at hmade
  refine readsFrame_of_supported (w := .bstr (normalText s)) (wellFormedUtf16_normalText s)
    (stringFits_normalText hfits) rfl ?_ Iff.rfl Iff.rfl hfuel
  exact (stringBytes_normalText s).symm

/-- INTERNAL: an array of strings. -/
theorem readsFrame_bstrArray {bounds : List SafeArrayBound} {cells : List Bstr}
    (hmade : Made flag (.bstrArray bounds cells)) {fuel : ℕ}
    (hfuel : (frameBytes mem flag (.bstrArray bounds cells)).length < fuel) :
    ReadsFrame loc strict mem mem' flag fuel (.bstrArray bounds cells) := by
  obtain ⟨hcreate, hlen, hfits⟩ : _ ∧ _ ∧ _ := by rwa [Made] at hmade
  have hnil : cells.map normalText ≠ [] ↔ cells ≠ [] := by simp
  have hreadable : (cells ≠ [] → Walkable bounds) ↔
      Readable (.bstrArray bounds (cells.map normalText)) := by
    rw [← hnil]
    exact Iff.rfl
  refine readsFrame_of_supported (w := .bstrArray bounds (cells.map normalText))
    ⟨hcreate, (List.length_map ..).trans hlen, ?_⟩ ?_ rfl ?_ ?_ ?_ hfuel
  · intro s hs
    obtain ⟨s', -, rfl⟩ := List.mem_map.mp hs
    exact wellFormedUtf16_normalText s'
  · intro s hs
    obtain ⟨s', hs', rfl⟩ := List.mem_map.mp hs
    exact stringFits_normalText (hfits s' hs')
  · simp only [frameBytes, valueBytes, List.flatMap_map, stringBytes_normalText]
  · rw [Passes]
    exact hreadable
  · rw [FramesValue]
    exact hreadable

mutual

/-- **`ReadValue` on the bytes `WriteValue` writes.** The induction is on the value. -/
theorem readsFrame (loc : Collation) (strict : Bool) (mem mem' : Memory) (flag : Bool) :
    (v : Variant) → Made flag v → WritesValue flag v → ∀ fuel,
      (frameBytes mem flag v).length < fuel → ReadsFrame loc strict mem mem' flag fuel v
  | .empty, _, _ => fun fuel hfuel =>
    readsFrame_of_supported (w := .empty) trivial trivial rfl rfl Iff.rfl Iff.rfl hfuel
  | .null, _, _ => fun fuel hfuel =>
    readsFrame_of_supported (w := .null) trivial trivial rfl rfl Iff.rfl Iff.rfl hfuel
  | .scalar t bits, _, _ => fun fuel hfuel =>
    readsFrame_of_supported (w := .scalar t bits) trivial trivial rfl rfl Iff.rfl Iff.rfl hfuel
  | .decimal d, _, _ => fun fuel hfuel =>
    readsFrame_of_supported (w := .decimal d) trivial trivial rfl rfl Iff.rfl Iff.rfl hfuel
  | .bstr s, hmade, _ => fun fuel hfuel => readsFrame_bstr hmade hfuel
  | .dispatch o, hmade, _ => fun fuel hfuel => by
    obtain ⟨fuel, rfl⟩ : ∃ f, fuel = f + 1 := ⟨fuel - 1, by omega⟩
    exact readsFrame_object (v := .dispatch o) (.inl ⟨rfl, rfl⟩) rfl Iff.rfl trivial
      (by rwa [Made] at hmade) fuel
  | .unknown o, hmade, _ => fun fuel hfuel => by
    obtain ⟨fuel, rfl⟩ : ∃ f, fuel = f + 1 := ⟨fuel - 1, by omega⟩
    exact readsFrame_object (v := .unknown o) (.inr ⟨rfl, rfl⟩) rfl Iff.rfl trivial
      (by rwa [Made] at hmade) fuel
  | .blockArray t bounds data, hmade, _ => fun fuel hfuel => by
    obtain ⟨fuel, rfl⟩ : ∃ f, fuel = f + 1 := ⟨fuel - 1, by omega⟩
    by_cases hfits : data.length < 2 ^ 31
    · refine readsFrame_of_supported (w := .blockArray t bounds data) (by rwa [Made] at hmade) hfits
        rfl ?_ (iff_of_true hfits trivial) (iff_of_true hfits trivial) hfuel
      rw [frameBytes, if_pos hfits, valueBytes]
    · exact readsFrame_largeBlock hmade hfits fuel
  | .bstrArray bounds cells, hmade, _ => fun fuel hfuel => readsFrame_bstrArray hmade hfuel
  | .variantArray bounds cells, hmade, hwrites => fun fuel hfuel => by
    obtain ⟨fuel, rfl⟩ : ∃ f, fuel = f + 1 := ⟨fuel - 1, by omega⟩
    refine readsFrame_variantArray hmade hwrites ?_
    rw [Made] at hmade
    rw [WritesValue] at hwrites
    rw [frameBytes, List.length_append, length_headerBytes] at hfuel
    exact readsFrame_cells loc strict mem mem' flag cells hmade.2.2 hwrites.2 fuel (by omega)
  | .otherArray vt cb bounds data, hmade, hwrites => fun fuel hfuel => by
    obtain ⟨fuel, rfl⟩ : ∃ f, fuel = f + 1 := ⟨fuel - 1, by omega⟩
    by_cases hvt : vt = vtDecimal
    · subst hvt
      exact readsFrame_decimals hmade hwrites fuel
    · exact readsFrame_headerOnly hmade hvt fuel
  | .nullArray vt, hmade, _ => fun fuel hfuel => by
    obtain ⟨fuel, rfl⟩ : ∃ f, fuel = f + 1 := ⟨fuel - 1, by omega⟩
    exact readsFrame_nullArray hmade fuel
  | .byrefArray a, hmade, hwrites => fun fuel hfuel => by
    obtain ⟨fuel, rfl⟩ : ∃ f, fuel = f + 1 := ⟨fuel - 1, by omega⟩
    rw [Made] at hmade
    rw [WritesValue] at hwrites
    rw [frameBytes] at hfuel
    have ha := readsFrame loc strict mem mem' flag a hmade.2 hwrites (fuel + 1) hfuel
    intro c tl hrest
    rw [frameBytes] at hrest ⊢
    have hbyref : (Variant.byrefArray a).vt &&& vtArray = vtArray := and_vtArray_byref hmade.1
    have hread := ha c tl hrest
    rw [readValue_of_array loc strict mem' fuel hmade.1] at hread
    rw [readValue_of_array loc strict mem' fuel hbyref, Passes, FramesValue, room]
    exact hread
  | .raw vt payload, _, hwrites => fun fuel hfuel => by
    obtain ⟨fuel, rfl⟩ : ∃ f, fuel = f + 1 := ⟨fuel - 1, by omega⟩
    exact readsFrame_raw hwrites fuel

/-- INTERNAL: the same for every cell of an array. -/
theorem readsFrame_cells (loc : Collation) (strict : Bool) (mem mem' : Memory) (flag : Bool) :
    (cells : List Variant) → MadeCells flag cells → WritesCells flag cells → ∀ fuel,
      (frameCellsBytes mem flag cells).length ≤ fuel → ∀ v ∈ cells,
        ReadsFrame loc strict mem mem' flag fuel v
  | [], _, _, _, _, v, hv => absurd hv (by simp)
  | u :: cells, hmade, hwrites, fuel, hfuel, v, hv => by
    rw [MadeCells] at hmade
    rw [WritesCells] at hwrites
    rw [frameCellsBytes, List.length_append, List.length_append, length_leBytes] at hfuel
    rcases List.mem_cons.mp hv with h | h
    · rw [h]
      exact readsFrame loc strict mem mem' flag u hmade.1 hwrites.1 fuel (by omega)
    · exact readsFrame_cells loc strict mem mem' flag cells hmade.2 hwrites.2 fuel (by omega) v h

end

end Reader

/-! ## The result -/

/-- The writer returns, and wherever what it wrote is read again, the reader returns and stands
behind it. `fuel` bounds the depth of the arrays in arrays. -/
def Framed (loc : Collation) (strict : Bool) (mem mem' : Memory) (flag : Bool) (v : Variant) :
    Prop :=
  ∀ c : Channel, c.stream.Sound → ∃ hr c' bs, writeValue mem flag v c = .ok (hr, c') ∧
    c'.stream = c.stream.write bs ∧
    ∀ (back : Channel) (tl : Bytes) (fuel : ℕ), back.stream.rest = bs ++ tl → bs.length < fuel →
      ∃ hr' v' back', readValue loc strict mem' fuel v.vt back = .ok (hr', v', back') ∧
        back'.stream = back.stream.advance bs.length

section Result

variable {loc : Collation} {strict : Bool} {mem mem' : Memory} {flag : Bool} {v : Variant}

/-- INTERNAL: a value that is read to its end. -/
theorem framed_of (hmade : Made flag v) (hwrites : WritesValue flag v) (hframes : FramesValue flag v) :
    Framed loc strict mem mem' flag v := by
  intro c hc
  obtain ⟨hr, b, hok⟩ := (writesOrFaults_frame mem flag v hmade c hc).1 hwrites
  refine ⟨hr, _, frameBytes mem flag v, hok, rfl, fun back tl fuel hrest hfuel => ?_⟩
  obtain ⟨hr', v', b', hread, -⟩ :=
    (readsFrame loc strict mem mem' flag v hmade hwrites fuel hfuel back tl hrest).framed hframes
  exact ⟨hr', v', _, hread, rfl⟩

/-- INTERNAL: a value that is not written. -/
theorem not_framed_of_not_writes (hmade : Made flag v) (hno : ¬ WritesValue flag v) :
    ¬ Framed loc strict mem mem' flag v := by
  intro h
  have hnew : CStream.new.Sound := Nat.le_refl _
  obtain ⟨hr, c', bs, hok, -, -⟩ := h ⟨.new, 0⟩ hnew
  rw [(writesOrFaults_frame mem flag v hmade ⟨.new, 0⟩ hnew).2 hno] at hok
  cases hok

/-- INTERNAL: a value that is not read to its end. Behind its bytes are as many zeros as the reader
needs to go wrong. -/
theorem not_framed_of_not_frames (hmade : Made flag v) (hwrites : WritesValue flag v)
    (hsize : (frameBytes mem flag v).length < 2 ^ 31) (hno : ¬ FramesValue flag v) :
    ¬ Framed loc strict mem mem' flag v := by
  intro h
  have hnew : CStream.new.Sound := Nat.le_refl _
  obtain ⟨hr, c', bs, hok, hstream, hback⟩ := h ⟨.new, 0⟩ hnew
  obtain ⟨hr₁, b, hok₁⟩ := (writesOrFaults_frame mem flag v hmade ⟨.new, 0⟩ hnew).1 hwrites
  obtain ⟨-, rfl⟩ := Prod.mk.inj (Except.ok.inj (hok.symm.trans hok₁))
  obtain rfl : frameBytes mem flag v = bs := by
    have hwritten := congrArg CStream.written hstream
    rw [hnew.written_write, hnew.written_write] at hwritten
    exact hwritten
  have htl : room v ≤ (List.replicate (room v) (0 : UInt8)).length := by rw [List.length_replicate]
  obtain ⟨hr', v', back', hread, hbehind⟩ :=
    hback ⟨⟨frameBytes mem flag v ++ List.replicate (room v) 0, 0⟩, 0⟩ _
      ((frameBytes mem flag v).length + 1) rfl (Nat.lt_succ_self _)
  rcases (readsFrame loc strict mem mem' flag v hmade hwrites _ (Nat.lt_succ_self _) _ _ rfl).lost
    hno htl hr' v' back' hread with ⟨-, k, hk, hpos⟩ | ⟨k, hk, hpos⟩
  all_goals
    rw [hbehind] at hpos
    have hpos := congrArg CStream.pos hpos
    simp only [CStream.advance] at hpos
    omega

/-- **When a reader stands behind a value.** The values are all that automation makes. Where one has
less than 2 GB of bytes, the condition is necessary. -/
theorem framed_iff (loc : Collation) (strict : Bool) (mem mem' : Memory) {flag : Bool} {v : Variant}
    (hmade : Made flag v) :
    (WritesValue flag v ∧ FramesValue flag v → Framed loc strict mem mem' flag v) ∧
      ((frameBytes mem flag v).length < 2 ^ 31 →
        (Framed loc strict mem mem' flag v ↔ WritesValue flag v ∧ FramesValue flag v)) := by
  have hof : WritesValue flag v ∧ FramesValue flag v → Framed loc strict mem mem' flag v :=
    fun h => framed_of hmade h.1 h.2
  refine ⟨hof, fun hsize => ⟨fun h => ?_, hof⟩⟩
  have hwrites : WritesValue flag v := by
    by_contra hno
    exact not_framed_of_not_writes hmade hno h
  refine ⟨hwrites, ?_⟩
  by_contra hno
  exact not_framed_of_not_frames hmade hwrites hsize hno h

end Result

/-- An array of words in an array of variants, and another array of variants behind it. -/
def arraysInArray : Variant :=
  .variantArray [⟨2, 0⟩]
    [.otherArray (ScalarType.vt .ui2) 2 [⟨1, 0⟩] [1, 0],
      .variantArray [⟨1, 0⟩] [.scalar .i4 1]]

/-- INTERNAL: automation makes it. -/
theorem made_arraysInArray : Made true arraysInArray := by
  refine ⟨by decide, by decide, ⟨by decide, by decide, by decide, ?_⟩,
    ⟨by decide, by decide, trivial, trivial⟩, trivial⟩
  intro t ht
  cases ht
  rfl

/-- Of the first only the header is written, and the second is found behind it. -/
theorem arraysInArray_framed : Framed .ordinal true .zero .zero true arraysInArray :=
  (framed_iff .ordinal true .zero .zero made_arraysInArray).1
    ⟨⟨fun _ => by decide, fun h => absurd h (by decide), ⟨fun _ => by decide, trivial, trivial⟩,
      trivial⟩,
      fun h => absurd h (by decide), fun _ h => absurd h (by decide),
      ⟨trivial, fun h => absurd rfl h, trivial⟩, fun h => absurd rfl h, trivial⟩

/-- An array with one decimal, which is zero. -/
def oneDecimal : Variant := .otherArray vtDecimal 16 [⟨1, 0⟩] (List.replicate 16 0)

/-- The array `[Nothing, 1]`. -/
def nothingAndOne : Variant := .variantArray [⟨2, 0⟩] [.unknown .null, .scalar .i4 1]

/-- INTERNAL: automation makes both. -/
theorem made_oneDecimal : Made false oneDecimal := by
  refine ⟨by decide, by decide, by decide, fun t ht => ?_⟩
  cases ht

theorem made_nothingAndOne : Made false nothingAndOne := by
  refine ⟨by decide, by decide, ⟨fun bytes h => ?_, trivial, trivial⟩⟩
  cases h

set_option maxRecDepth 4000 in
/-- Of the first nothing but the header is written, and the reader asks for the sixteen bytes of a
decimal. The second is written whole, and the reader leaves the loop at `Nothing`. -/
theorem oneDecimal_nothingAndOne_not_framed :
    ¬ Framed .ordinal true .zero .zero false oneDecimal ∧
      ¬ Framed .ordinal true .zero .zero false nothingAndOne := by
  constructor
  · exact not_framed_of_not_frames made_oneDecimal (fun _ => ⟨fun _ => by decide, by decide⟩)
      (by decide) fun h => absurd (h rfl) (by decide)
  · refine not_framed_of_not_frames made_nothingAndOne
      ⟨fun _ => by decide, fun h => absurd h.1 (by decide), trivial, trivial⟩ (by decide) fun h => ?_
    obtain ⟨b, bytes, hsaved⟩ := h.2.1 (by decide)
    cases hsaved

end IspSession.Analysis
