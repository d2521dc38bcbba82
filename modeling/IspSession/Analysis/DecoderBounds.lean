import IspSession.Analysis.ObjectReading
import IspSession.Analysis.ValueFormat
import IspSession.Model.DecoderCopies

/-!
# The bounds of the decoder's copies

`CStream::Read` is told how much to copy by the input: by a string's size prefix, which
`EnsureBuffer` takes for a signed number, and by an array's extents and element size, the
latter from the stream and not from the type. `copiesFit_iff` says which sizes make all copies
of a decoding stay within their destinations.

`explains_copies` ties the list of copies to the readers: one that goes past its destination
is where the reader faults.
-/

set_option autoImplicit false

namespace IspSession.Analysis

open IspSession.Library IspSession.Model

variable {loc : Collation}

/-! ## The claim -/

/-- At most as many bytes are copied as the destination holds. -/
def Copy.Fits (copy : Copy) : Prop := copy.cBytesRead ≤ copy.holds

/-- The condition. A string's size prefix is no negative `INT`, nor so large that the new length of
the buffer would be one, or the buffer is long enough as it is. An array's element size is at most
the type's, or the product in 32 bits or the rest of the stream is short enough. -/
def Copy.Bounded : Copy → Prop
  | .text lTempSize m_currentBufLen left =>
    lTempSize < 2 ^ 31 - 1024 ∨ lTempSize ≤ m_currentBufLen ∨ left ≤ m_currentBufLen
  | .block type bounds elSize _ left =>
    elSize.toNat ≤ type.size ∨
      elementCount bounds * elSize.toNat % 2 ^ 32 ≤ elementCount bounds * type.size ∨
      left ≤ elementCount bounds * type.size

instance (copy : Copy) : Decidable (Copy.Fits copy) := by
  unfold Copy.Fits
  infer_instance

/-! ## One copy -/

/-- What holds of every copy the decoder makes: an array has been created, and unless nothing is
left to copy the product is the one of all its extents. -/
def Copy.Arises : Copy → Prop
  | .text _ _ _ => True
  | .block type bounds _ lElements left =>
    elementCount bounds * type.size < 2 ^ 32 ∧ (left = 0 ∨ lElements = longProduct bounds)

/-- `EnsureBuffer` overflows or leaves the length it is said to leave. -/
theorem ensureBuffer_cases (c : Channel) (n : ℕ) :
    c.ensureBuffer n = .error .fault ∨ ∃ c', c.ensureBuffer n = .ok c' ∧
      c'.stream = c.stream ∧ c'.m_currentBufLen = Copy.ensured n c.m_currentBufLen := by
  unfold Channel.ensureBuffer Copy.ensured
  split
  · exact .inr ⟨c, rfl, rfl, rfl⟩
  · dsimp only
    split
    · exact .inr ⟨_, rfl, rfl, rfl⟩
    · exact .inl rfl

/-- INTERNAL: the copies of strings that fit. -/
theorem text_fits_iff (lTempSize m_currentBufLen left : ℕ) :
    Copy.Fits (.text lTempSize m_currentBufLen left) ↔
      Copy.Bounded (.text lTempSize m_currentBufLen left) := by
  unfold Copy.Fits Copy.cBytesRead Copy.Bounded
  simp only [Copy.cb, Copy.left, Copy.holds, Copy.ensured, min_le_iff]
  have hround : lTempSize < lTempSize / 512 * 512 + 1024 := by omega
  split
  · omega
  · split
    · omega
    · omega

/-- INTERNAL: the copies of array blocks that fit. -/
theorem block_fits_iff {type : ScalarType} {bounds : List SafeArrayBound}
    {elSize lElements : BitVec 32} {left : ℕ}
    (h : Copy.Arises (.block type bounds elSize lElements left)) :
    Copy.Fits (.block type bounds elSize lElements left) ↔
      Copy.Bounded (.block type bounds elSize lElements left) := by
  obtain ⟨hsize, hleft⟩ := h
  unfold Copy.Fits Copy.cBytesRead Copy.Bounded
  simp only [Copy.cb, Copy.left, Copy.holds, min_le_iff]
  rcases hleft with rfl | rfl
  · exact iff_of_true (.inr (Nat.zero_le _)) (.inr (.inr (Nat.zero_le _)))
  · have hcount : elementCount bounds < 2 ^ 32 :=
      lt_of_le_of_lt (Nat.le_mul_of_pos_right _ type.size_pos) hsize
    rw [BitVec.toNat_mul, toNat_longProduct _ hcount]
    have hsmall : elSize.toNat ≤ type.size →
        elementCount bounds * elSize.toNat % 2 ^ 32 ≤ elementCount bounds * type.size := fun hle =>
      le_trans (Nat.mod_le _ _) (Nat.mul_le_mul_left _ hle)
    constructor
    · intro hfits
      exact .inr hfits
    · rintro (hle | hfits)
      · exact .inl (hsmall hle)
      · exact hfits

/-- **One copy fits exactly when its sizes are bounded.** -/
theorem fits_iff_bounded {copy : Copy} (h : Copy.Arises copy) :
    Copy.Fits copy ↔ Copy.Bounded copy := by
  cases copy with
  | text lTempSize m_currentBufLen left => exact text_fits_iff lTempSize m_currentBufLen left
  | block type bounds elSize lElements left => exact block_fits_iff h

/-! ## The copies of a reader -/

/-- The copies of a reader arise as they should, and one that goes past its destination makes it
fault. -/
def Explains {α : Type} (copies : List Copy) (r : Run α) : Prop :=
  ∀ copy ∈ copies, Copy.Arises copy ∧ (¬ Copy.Fits copy → r = .error .fault)

namespace Explains

variable {α β : Type}

theorem nil (r : Run α) : Explains [] r := fun _ h => nomatch h

/-- What a reader does after its copies. -/
theorem map {copies : List Copy} {x : Run α} (h : Explains copies x) (f : α → Run β) :
    Explains copies (x >>= f) := fun copy hcopy => by
  obtain ⟨harises, hfault⟩ := h copy hcopy
  exact ⟨harises, fun hfits => by rw [hfault hfits]; rfl⟩

/-- **Two readers in sequence**: the second makes its copies where the first has a result. -/
theorem bind {first second : List Copy} {x : Run α} {f : α → Run β} (hx : Explains first x)
    (herror : ∀ e, x = .error e → second = []) (hf : ∀ a, x = .ok a → Explains second (f a)) :
    Explains (first ++ second) (x >>= f) := by
  intro copy hcopy
  rcases List.mem_append.mp hcopy with hfirst | hsecond
  · exact hx.map f copy hfirst
  · cases hrun : x with
    | error e =>
      rw [herror e hrun] at hsecond
      cases hsecond
    | ok a => exact hf a hrun copy hsecond

/-- INTERNAL: a reader that makes no copies of its own first. -/
theorem then' {second : List Copy} {x : Run α} {f : α → Run β}
    (herror : ∀ e, x = .error e → second = []) (hf : ∀ a, x = .ok a → Explains second (f a)) :
    Explains second (x >>= f) := bind (nil x) herror hf

end Explains

/-- The copy of a string. -/
theorem explains_stringCopies (strict : Bool) (mem : Memory) (c : Channel) :
    Explains (stringCopies c) (readString strict mem c) := by
  intro copy hcopy
  unfold stringCopies at hcopy
  unfold readString
  rcases hfirst : c.read 4 with ⟨hr, size, c₁⟩
  rw [hfirst] at hcopy
  dsimp only at hcopy ⊢
  split at hcopy
  · cases hcopy
  · rename_i hread
    rw [if_neg hread]
    split at hcopy
    · cases hcopy
    · rename_i hzero
      rw [if_neg hzero]
      split at hcopy
      · cases hcopy
      · rename_i hbuffer
        obtain rfl := List.mem_singleton.mp hcopy
        refine ⟨trivial, fun hfits => ?_⟩
        rcases ensureBuffer_cases c₁ (ofLeBytes size) with hc | ⟨c₂, hc, hstream, hlen⟩
        · rw [hc]
          rfl
        · have hover : (c₂.read (ofLeBytes size)).2.2.m_currentBufLen <
              (c₂.read (ofLeBytes size)).2.1.length := by
            rw [Channel.read_bytes, List.length_take, hstream]
            exact lt_of_eq_of_lt hlen (Nat.lt_of_not_le hfits)
          rw [hc, Run.ok_bind, if_neg (hlen ▸ hbuffer)]
          exact if_pos hover

/-- INTERNAL: the copies of a loop are those of its visits. -/
theorem explains_cellVisits {σ : Type} (go : σ → Bool) {visit : List (BitVec 32) → σ → Run σ}
    (bounds : List SafeArrayBound) (total : BitVec 32) (s : σ)
    {copies : List (BitVec 32) × σ → List Copy}
    (h : ∀ v, Explains (copies v) (visit v.1 v.2)) :
    Explains ((cellVisits go visit bounds total s).flatMap copies)
      (walkArray go visit bounds total s) := by
  intro copy hcopy
  obtain ⟨v, hv, hcopy⟩ := List.mem_flatMap.mp hcopy
  obtain ⟨harises, hfault⟩ := h v copy hcopy
  exact ⟨harises, fun hfits =>
    carryLoop.walk_of_mem_visits Stuck.fault Stuck.fuel go (hfault hfits) _ hv⟩

section Values

variable {strict : Bool} {mem : Memory}
  {readValue : VarType → Channel → Run (HResult × Variant × Channel)}
  {copiesOf : VarType → Channel → List Copy}

/-- INTERNAL: the copies of a round of the loop over a `VARIANT` array. -/
theorem explains_variantCellCopies (h : ∀ vtype c, Explains (copiesOf vtype c) (readValue vtype c))
    (bounds : List SafeArrayBound) (v : List (BitVec 32) × CellState (List Variant)) :
    Explains (variantCellCopies strict mem bounds copiesOf v)
      (readVariantCell strict mem bounds readValue v.1 v.2) := by
  unfold variantCellCopies readVariantCell
  cases safeArrayPtrOfIndex bounds v.1 with
  | none => exact .nil _
  | some k =>
    obtain ⟨hr, bytes, c⟩ := v.2.2.2.read 2
    dsimp only
    split
    · exact (h _ c).map _
    · exact .nil _

/-- INTERNAL: those of a round of the loop over a `BSTR` array. -/
theorem explains_bstrCellCopies (bounds : List SafeArrayBound)
    (v : List (BitVec 32) × CellState (List Bstr)) :
    Explains (stringCopies v.2.2.2) (readBstrCell strict mem bounds v.1 v.2) :=
  (explains_stringCopies strict mem v.2.2.2).map _

/-- The extents that were read whole are all of them, or the stream has ended. -/
theorem readBounds_product (strict : Bool) (n : ℕ) (acc : BitVec 32) (c : Channel) :
    (readBounds strict n acc c).2.2.stream.rest = [] ∨
      (readBounds strict n acc c).2.1 =
        (readBounds strict n acc c).1.foldl (fun n b => n * b.cElements) acc := by
  induction n generalizing acc c with
  | zero => exact .inr rfl
  | succ n ih =>
    have hresult := Channel.read_result c 8
    have hrest := Channel.rest_read c 8
    rw [readBounds]
    rcases hread : c.read 8 with ⟨hr, bytes, c₁⟩
    rw [hread] at hresult hrest
    dsimp only at hresult hrest ⊢
    split
    · rename_i hshort
      have hnil : c₁.stream.rest = [] := by
        rw [hrest]
        refine List.drop_eq_nil_of_le ?_
        by_contra hlen
        rw [if_neg (by omega)] at hresult
        exact hshort.2 hresult
      exact .inl (rest_readBounds hnil)
    · exact ih _ c₁
where
  /-- Nothing is left behind an end. -/
  rest_readBounds {strict : Bool} {n : ℕ} {acc : BitVec 32} {c : Channel}
      (h : c.stream.rest = []) : (readBounds strict n acc c).2.2.stream.rest = [] := by
    induction n generalizing acc c with
    | zero => exact h
    | succ n ih =>
      have hrest := Channel.rest_read c 8
      rw [h, List.drop_nil] at hrest
      rw [readBounds]
      exact ih hrest

/-- The copies of an array's cells. -/
theorem explains_cellCopies (h : ∀ vtype c, Explains (copiesOf vtype c) (readValue vtype c))
    {vtype : VarType} {bounds : List SafeArrayBound} {cbElements : ℕ}
    (hcreate : safeArrayCreate vtype bounds = some cbElements) {lElements : BitVec 32}
    (elSize : BitVec 32) {c : Channel}
    (hproduct : c.stream.rest = [] ∨ lElements = longProduct bounds) :
    Explains (cellCopies strict mem readValue copiesOf vtype bounds lElements elSize c)
      (readCells strict mem readValue vtype bounds cbElements lElements elSize c) := by
  unfold cellCopies readCells
  dsimp only
  split
  · split
    · exact (explains_cellVisits _ _ _ _ (explains_variantCellCopies h bounds)).map _
    · exact .nil _
  · split
    · split
      · exact (explains_cellVisits _ _ _ _ (explains_bstrCellCopies bounds)).map _
      · exact .nil _
    · cases hscalar : ScalarType.ofVt vtype with
      | none => exact .nil _
      | some t =>
        dsimp only
        split
        · rename_i hblock
          have hdecimal : vtype ≠ vtDecimal := by
            rintro rfl
            cases hscalar
          obtain ⟨hsize, -, -, hmem⟩ := safeArrayCreate_eq_some hcreate
          obtain rfl : t.size = cbElements := by
            rw [elemSize, hscalar] at hsize
            exact Option.some.inj hsize
          intro copy hcopy
          obtain rfl := List.mem_singleton.mp hcopy
          refine ⟨⟨hmem, hproduct.imp_left fun hnil => by rw [hnil]; rfl⟩, fun hfits => ?_⟩
          have hover : elementCount bounds * t.size <
              (c.read (lElements * elSize).toNat).2.1.length := by
            rw [Channel.read_bytes, List.length_take]
            exact Nat.lt_of_not_le hfits
          rw [if_neg hdecimal]
          exact if_pos hover
        · exact .nil _

/-- INTERNAL: the copies of what comes behind an array's type name. -/
theorem explains_bodyCopies (h : ∀ vtype c, Explains (copiesOf vtype c) (readValue vtype c))
    (vtype : VarType) (elSize cDims : BitVec 32) (c : Channel) :
    Explains
      (if elSize = 0 ∨ cDims = 0 ∨ cDims.slt 0 then []
        else
          match safeArrayCreate vtype (readBounds strict cDims.toNat 1 c).1 with
          | none => []
          | some _ =>
            cellCopies strict mem readValue copiesOf vtype (readBounds strict cDims.toNat 1 c).1
              (readBounds strict cDims.toNat 1 c).2.1 elSize
              (readBounds strict cDims.toNat 1 c).2.2)
      (if elSize = 0 ∨ cDims = 0 then pure (.sOk, .empty, c)
        else if cDims.slt 0 then .error .fault
        else
          match safeArrayCreate vtype (readBounds strict cDims.toNat 1 c).1 with
          | none => pure (.sOk, .empty, (readBounds strict cDims.toNat 1 c).2.2)
          | some cbElements =>
            readCells strict mem readValue vtype (readBounds strict cDims.toNat 1 c).1 cbElements
              (readBounds strict cDims.toNat 1 c).2.1 elSize
              (readBounds strict cDims.toNat 1 c).2.2) := by
  split
  · exact .nil _
  · rename_i hsizes
    rw [if_neg fun hzero => hsizes (hzero.imp_right .inl),
      if_neg fun hneg => hsizes (.inr (.inr hneg))]
    cases hcreate : safeArrayCreate vtype (readBounds strict cDims.toNat 1 c).1 with
    | none => exact .nil _
    | some cbElements =>
      exact explains_cellCopies h hcreate elSize (readBounds_product strict cDims.toNat 1 c)

/-- The copies of an array: of its type name, of the one behind a `__jagged`, and of its cells. -/
theorem explains_arrayCopies (h : ∀ vtype c, Explains (copiesOf vtype c) (readValue vtype c))
    (c : Channel) :
    Explains (arrayCopies loc strict mem readValue copiesOf c)
      (readArray loc strict mem readValue c) := by
  unfold arrayCopies readArray
  rcases c.read 12 with ⟨hr, bytes, c₁⟩
  dsimp only
  generalize UInt16.ofNat (ofLeBytes ((overlay (uninit mem.descriptor 12) bytes).take 2)) ^^^
    vtArray = vtype
  generalize BitVec.ofNat 32
    (ofLeBytes (((overlay (uninit mem.descriptor 12) bytes).drop 4).take 4)) = elSize
  generalize BitVec.ofNat 32 (ofLeBytes ((overlay (uninit mem.descriptor 12) bytes).drop 8)) = cDims
  refine (explains_stringCopies strict mem c₁).bind (fun e he => by rw [he]) fun named hnamed => ?_
  rw [hnamed]
  obtain ⟨hrName, name, c₂⟩ := named
  dsimp only
  split
  · exact .nil _
  · split
    · refine (explains_stringCopies strict mem c₂).bind (fun e he => by rw [he])
        fun second hsecond => ?_
      rw [hsecond]
      exact explains_bodyCopies h vtype elSize cDims second.2.2
    · exact explains_bodyCopies h vtype elSize cDims c₂

end Values

/-- **The copies of a value.** -/
theorem explains_valueCopies (strict : Bool) (mem : Memory) (fuel : ℕ) (vtype : VarType)
    (c : Channel) :
    Explains (valueCopies loc strict mem fuel vtype c) (readValue loc strict mem fuel vtype c) := by
  induction fuel generalizing vtype c with
  | zero => exact .nil _
  | succ fuel ih =>
    unfold valueCopies readValue
    split
    · exact explains_arrayCopies ih c
    · split
      · rename_i hbstr
        unfold readScalar
        rw [hbstr, if_neg (by decide), if_neg (by decide), if_pos rfl]
        exact (explains_stringCopies strict mem c).map _
      · exact .nil _

/-! ## The copies of a payload and of a record -/

/-- The copies of a property. -/
theorem explains_propertyCopies (mem : Memory) (l : VariantDictionary.Loading loc) :
    Explains (VariantDictionary.propertyCopies mem l) (VariantDictionary.readProperty mem l) := by
  unfold VariantDictionary.propertyCopies VariantDictionary.readProperty
  refine (explains_stringCopies true mem l.channel).bind (fun e he => by rw [he])
    fun named hnamed => ?_
  rw [hnamed]
  obtain ⟨hr, name, c⟩ := named
  dsimp only
  split
  · exact (explains_valueCopies true mem _ _ _).map _
  · exact .nil _

/-- The copies of the loop over the properties, by induction on their number. -/
theorem explains_propertiesCopies (mem : Memory) (n : ℕ) (hr : HResult)
    (l : VariantDictionary.Loading loc) :
    Explains (VariantDictionary.propertiesCopies mem n hr l)
      (VariantDictionary.loadProperties mem n hr l) := by
  induction n generalizing hr l with
  | zero => exact .nil _
  | succ n ih =>
    unfold VariantDictionary.propertiesCopies VariantDictionary.loadProperties
    split
    · refine (explains_propertyCopies mem l).bind (fun e he => by rw [he]) fun read hread => ?_
      rw [hread]
      obtain ⟨hr, key, val, l⟩ := read
      refine .then' (fun e he => ?_) fun hrCopy hcopy => ?_
      · dsimp only
        rw [he]
      · dsimp only
        rw [hcopy]
        dsimp only
        split
        · exact ih _ _
        · exact ih _ _
    · exact .nil _

/-- **The copies of a session's payload.** -/
theorem explains_localLoadCopies (mem : Memory) (d : VariantDictionary loc)
    (pStream : Option CStream) (lSize : ℕ) :
    Explains (d.localLoadCopies mem pStream lSize) (d.localLoad mem pStream lSize) := by
  unfold VariantDictionary.localLoadCopies VariantDictionary.localLoad
  split
  · exact .nil _
  · cases pStream with
    | none => exact .nil _
    | some stream =>
      refine (explains_propertyCopies mem ⟨d, stream⟩).bind (fun e he => by rw [he])
        fun read hread => ?_
      rw [hread]
      obtain ⟨hr, stemp, varTemp, l⟩ := read
      dsimp only
      split
      · exact .nil _
      · rename_i hstart
        rw [if_neg fun hname => hstart (.inl hname), if_neg fun hcount => hstart (.inr hcount)]
        exact (explains_propertiesCopies mem _ _ _).map _

/-- **The copies of an application's record.** -/
theorem explains_deserializeCopies (mem : Memory) (a : CApplication loc) (binaryString : Bytes) :
    Explains (a.deserializeCopies mem binaryString) (a.deserializeKey mem binaryString) := by
  unfold CApplication.deserializeCopies CApplication.deserializeKey
  refine (explains_stringCopies false mem _).bind (fun e he => by rw [he]) fun named hnamed => ?_
  rw [hnamed]
  obtain ⟨hr, key, c⟩ := named
  dsimp only
  split
  · exact .nil _
  · exact (explains_valueCopies false mem _ _ _).map _

/-! ## Every decoding -/

/-- **Copies and faults**: the copies of a decoding arise as they should, and where one goes past
its destination the reader of the model faults. -/
theorem explains_copies (mem : Memory) (decoding : Decoding loc) :
    ∀ copy ∈ decoding.copies mem,
      Copy.Arises copy ∧ (¬ Copy.Fits copy → decoding.stuck mem = some .fault) := by
  have hstuck : ∀ {α : Type} {copies : List Copy} {r : Run α}, Explains copies r →
      ∀ copy ∈ copies, Copy.Arises copy ∧
        (¬ Copy.Fits copy → Decoding.stuck.failure r = some .fault) := by
    intro α copies r h copy hcopy
    obtain ⟨harises, hfault⟩ := h copy hcopy
    exact ⟨harises, fun hfits => by rw [hfault hfits]; rfl⟩
  cases decoding with
  | readString strict c => exact hstuck (explains_stringCopies strict mem c)
  | readValue strict fuel vtype c => exact hstuck (explains_valueCopies strict mem fuel vtype c)
  | localLoad d pStream lSize => exact hstuck (explains_localLoadCopies mem d pStream lSize)
  | deserializeKey a binaryString => exact hstuck (explains_deserializeCopies mem a binaryString)

/-- **Every copy of a decoding stays within its destination exactly when the sizes it is made with
are bounded.** -/
theorem copiesFit_iff (mem : Memory) (decoding : Decoding loc) :
    (∀ copy ∈ decoding.copies mem, Copy.Fits copy) ↔
      ∀ copy ∈ decoding.copies mem, Copy.Bounded copy := by
  refine forall₂_congr fun copy hcopy => ?_
  exact fits_iff_bounded (explains_copies mem decoding copy hcopy).1

/-- A record whose array of one byte says that its elements have two. -/
def overlongRecord : Bytes :=
  leBytes 4 1 ++ [65] ++ leBytes 2 (vtArray ||| ScalarType.ui1.vt).toNat ++
    leBytes 2 (vtArray ||| ScalarType.ui1.vt).toNat ++ leBytes 2 0 ++ leBytes 4 2 ++ leBytes 4 1 ++
    leBytes 4 0 ++ leBytes 4 1 ++ leBytes 4 0 ++ [1, 2]

/-- The application copies both bytes into the array's one. -/
theorem overlongRecord_not_copiesFit :
    ¬ ∀ (mem : Memory) (decoding : Decoding .ordinal), ∀ copy ∈ decoding.copies mem,
      Copy.Fits copy := by
  intro h
  have hcopy : ¬ ((CApplication.deserializeCopies Memory.zero
      (CApplication.new : CApplication .ordinal) overlongRecord).all
        fun copy => decide (Copy.Fits copy)) = true := by
    decide
  refine hcopy (List.all_eq_true.mpr fun copy hmem => ?_)
  exact decide_eq_true (h Memory.zero (.deserializeKey .new overlongRecord) copy hmem)

end IspSession.Analysis
