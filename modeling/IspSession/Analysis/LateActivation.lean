import IspSession.Analysis.ManagedReading
import IspSession.Model.ApplicationCache

/-!
# Objects that are loaded late

With `LateObjectActivation` a reader gives the bytes of an object behind the mark of the
runtime's objects, and `UnpackObject` decides again by that mark which loader is to have
them. `lateAsEager_iff` says for which blobs this comes to the same as loading at once.
-/

set_option autoImplicit false

namespace IspSession.Analysis

open IspSession.Library IspSession.Model StreamManager ApplicationCache

/-- A blob in a stream: its length, the mark of an object of the runtime, and the bytes. -/
def blobBytes (marked : Bool) (bytes : Bytes) : Bytes :=
  leBytes 4 bytes.length ++ ((if marked then [99, 55] else []) ++ bytes)

/-- What a call of a loader gives; without a call it is null. -/
def handed (loaders : NetLoaders) : Option LoaderCall → NetRun NetValue
  | none => .ok .null
  | some call => call.run loaders

/-- What `this[key]` hands out of an element. -/
def unpacked (loaders : NetLoaders) (element : ApplicationCache.ElementModel) : NetRun NetValue :=
  if element.IsSerialized then unpackObject loaders element.Value else .ok element.Value

/-- **Late and eager agree**: there is one call, or none, that both the eager reader and the
element of the late one make, whatever the loaders do, and both readers leave the stream at
the same position. -/
def LateAsEager (vT : VarType) (m : StreamManager) : Prop :=
  ∃ call m₁ value m₂,
    (∀ loaders, readNetObject loaders { m with LateObjectActivation := false } = do
      let data ← handed loaders call
      pure (data, m₁)) ∧
    (∀ loaders, readNetObject loaders { m with LateObjectActivation := true } = .ok (value, m₂)) ∧
    (∀ loaders, unpacked loaders (storedElement vT value) = handed loaders call) ∧
    m₂.str = m₁.str

/-! ## The blob -/

/-- INTERNAL: a reader with the other activation. -/
def withLate (late : Bool) (m : StreamManager) : StreamManager :=
  { m with LateObjectActivation := late }

/-- INTERNAL: allocating does not look at the activation. -/
theorem ensureMemory_withLate (late : Bool) (m : StreamManager) (required : ℕ) :
    (withLate late m).ensureMemory required = (m.ensureMemory required).map (withLate late) := by
  unfold ensureMemory
  by_cases henough : required < m.memSize
  · rw [if_pos henough]
    exact if_pos henough
  · rw [if_neg henough]
    refine (if_neg henough).trans ?_
    split <;> rfl

/-- INTERNAL: nor does reading a block. -/
theorem readBlock_withLate (late : Bool) (m : StreamManager) (size : BitVec 32) :
    (withLate late m).readBlock size =
      (m.readBlock size).map fun r => (r.1, withLate late r.2) := by
  unfold readBlock
  rw [ensureMemory_withLate]
  split
  · rfl
  · cases m.ensureMemory size.toNat <;> rfl

/-- **A blob is read in the same way, early and late.** -/
theorem readBlob_withLate (late : Bool) (m : StreamManager) :
    (withLate late m).readBlob = m.readBlob.map fun r => (r.1, withLate late r.2) := by
  have hnumber : (withLate late m).readNumber 4 =
      ((m.readNumber 4).1, withLate late (m.readNumber 4).2) := rfl
  have hmark : ∀ m : StreamManager, (withLate late m).readMark =
      (m.readMark.1, withLate late m.readMark.2) := by
    intro m
    unfold readMark
    dsimp only [withLate]
    split <;> rfl
  rw [readBlob, readBlob, hnumber]
  obtain ⟨size, m₁⟩ := m.readNumber 4
  dsimp only
  rw [hmark]
  split
  · rfl
  · dsimp only
    rw [readBlock_withLate]
    cases m₁.readMark.2.readBlock (BitVec.ofNat 32 size) <;> rfl

/-- INTERNAL: the first bytes behind a front. -/
theorem read_two {s : CStream} {bs tl : Bytes} (h : s.rest = bs ++ tl) :
    (s.read 2).2.1 = (bs ++ tl).take 2 := by
  rw [CStream.read_bytes, h]

/-- **What a reader gets of a blob**: nothing of an empty one; of another, whether the mark
stands behind the length, and as many bytes as the length says. -/
theorem readBlob_spec {m : StreamManager} {marked : Bool} {bytes tl : Bytes}
    (h : m.str.rest = blobBytes marked bytes ++ tl) (hfits : bytes.length < 0x7FFFF000) :
    ∃ m', (bytes = [] → m.readBlob = .ok (none, m')) ∧
      (bytes ≠ [] → ∃ isNetObject data,
        m.readBlob = .ok (some (isNetObject, data), m') ∧ data.length = bytes.length ∧
        isNetObject = decide (((blobBytes marked bytes ++ tl).drop 4).take 2 = [99, 55])) := by
  rw [blobBytes, List.append_assoc] at h
  obtain ⟨hsize, hmoved⟩ := readNumber_of_rest h
  rw [Nat.mod_eq_of_lt (by omega)] at hsize
  have hrest := hmoved.rest' (length_leBytes 4 _) h
  have hdrop : (blobBytes marked bytes ++ tl).drop 4 =
      (if marked = true then [99, 55] else []) ++ bytes ++ tl := by
    rw [blobBytes, List.append_assoc]
    exact List.drop_left' (length_leBytes 4 _)
  by_cases hempty : bytes = []
  · refine ⟨(m.readNumber 4).2, fun _ => ?_, fun hne => absurd hempty hne⟩
    have hzero : BitVec.ofNat 32 (m.readNumber 4).1 = 0 := by
      rw [hsize, hempty]
      rfl
    rw [readBlob]
    exact if_pos hzero
  · have hpos : 0 < bytes.length := List.length_pos_iff.mpr hempty
    have hnonzero : ¬ BitVec.ofNat 32 (m.readNumber 4).1 = 0 := by
      intro hzero
      have hnat := congrArg BitVec.toNat hzero
      rw [hsize, BitVec.toNat_ofNat, Nat.mod_eq_of_lt (by omega)] at hnat
      have h0 : (0 : BitVec 32).toNat = 0 := rfl
      omega
    obtain ⟨data, m', hread, hlen⟩ := exists_readBlock (m.readNumber 4).2.readMark.2 hfits
    refine ⟨m', fun heq => absurd heq hempty, fun _ =>
      ⟨(m.readNumber 4).2.readMark.1, data, ?_, hlen, ?_⟩⟩
    · rw [readBlob]
      refine (if_neg hnonzero).trans ?_
      change (((m.readNumber 4).2.readMark.2).readBlock (BitVec.ofNat 32 (m.readNumber 4).1) >>=
        fun r => pure (some ((m.readNumber 4).2.readMark.1, r.1), r.2)) = _
      rw [hsize, hread]
      rfl
    · have htwo : ((m.readNumber 4).2.str.read 2).2.1 =
          ((blobBytes marked bytes ++ tl).drop 4).take 2 := by
        rw [hdrop]
        exact read_two hrest
      rw [readMark]
      simp only [htwo]
      split
      · rename_i heq
        rw [decide_eq_true heq]
      · rename_i hne
        rw [decide_eq_false hne]

/-! ## The late element -/

/-- INTERNAL: the memory of a `byte[]`. -/
theorem memoryImage_byte {bs : Bytes} {n : ℕ} (hn : n = bs.length) :
    memoryImage 1 (fun i : Fin n => BitVec.ofNat 8 (bs.getD i 0).toNat) = bs := by
  subst hn
  have hmap : memoryImage 1 (fun i : Fin bs.length => BitVec.ofNat 8 (bs.getD i 0).toNat) =
      (List.ofFn fun i : Fin bs.length => BitVec.ofNat 8 (bs.getD i 0).toNat).map
        fun bits => UInt8.ofNat bits.toNat := List.map_eq_flatMap.symm
  rw [hmap, List.map_ofFn]
  apply List.ext_getElem
  · simp
  · intro i hi hi'
    have hb := (bs[i]).toNat_lt
    rw [List.getElem_ofFn, Function.comp, List.getD_eq_getElem _ _ hi', BitVec.toNat_ofNat,
      Nat.mod_eq_of_lt (by omega), UInt8.ofNat_toNat]

/-- What a `byte[]` was made of. -/
theorem bytesOf_byteArray {bs : Bytes} (h : bs.length < 2 ^ 31) :
    bytesOf (byteArray bs h) = some bs := by
  have hcount : elementCount [⟨BitVec.ofNat 32 bs.length, 0⟩] = bs.length := by
    simp only [elementCount, Odometer.count, BitVec.toNat_ofNat, Nat.mul_one]
    exact Nat.mod_eq_of_lt (by omega)
  exact congrArg some (memoryImage_byte hcount)

/-- INTERNAL: a `byte[]` that starts with the mark goes to the formatter. -/
theorem unpackCall_lateValue {bytes : Bytes} {value : NetValue}
    (h : lateValue bytes = .ok value) :
    unpackCall value = .ok (.binaryFormatter bytes) ∧ (bytesOf value).isSome = true := by
  unfold lateValue at h
  split at h
  · rename_i hfits
    cases h
    rw [unpackCall, bytesOf_byteArray]
    exact ⟨rfl, rfl⟩
  · cases h

/-- INTERNAL: a loader that fails on what the other one takes. -/
def oleOnly : NetLoaders where
  oleLoad _ := .ok .null
  deserialize _ := .error .argument

/-! ## The theorem -/

/-- **When loading late comes to the same**: an empty blob has to stand under the tag of a
variant, any other has to have the mark of the runtime's objects behind its length. -/
theorem lateAsEager_iff {vT : VarType} (hvT : vT = vtDispatch ∨ vT = vtUnknown ∨ vT = vtVariant)
    {m : StreamManager} {marked : Bool} {bytes tl : Bytes}
    (h : m.str.rest = blobBytes marked bytes ++ tl) (hfits : bytes.length < 0x7FFFF000) :
    LateAsEager vT m ↔
      if bytes = [] then vT = vtVariant
      else ((blobBytes marked bytes ++ tl).drop 4).take 2 = [99, 55] := by
  obtain ⟨m', hnone, hsome⟩ := readBlob_spec h hfits
  have hblob : ∀ late : Bool, ({ m with LateObjectActivation := late } : StreamManager).readBlob =
      m.readBlob.map fun r => (r.1, withLate late r.2) := fun late => readBlob_withLate late m
  by_cases hempty : bytes = []
  · rw [if_pos hempty]
    have heager : ∀ late loaders,
        readNetObject loaders { m with LateObjectActivation := late } =
          .ok (.null, withLate late m') := by
      intro late loaders
      rw [readNetObject, hblob, hnone hempty]
      rfl
    constructor
    · rintro ⟨call, m₁, value, m₂, hfirst, hlate, hout, -⟩
      have hfirst := hfirst oleOnly
      have hlate := hlate oleOnly
      rw [heager] at hfirst hlate
      cases hlate
      -- the eager reader gives null, so the element must not be unpacked
      have hgiven : ∃ v, handed oleOnly call = .ok v := by
        cases hcall : handed oleOnly call with
        | ok v => exact ⟨v, rfl⟩
        | error e =>
          rw [hcall] at hfirst
          cases hfirst
      obtain ⟨v, hv⟩ := hgiven
      have hout := (hout oleOnly).trans hv
      by_contra hne
      have hserialized : (storedElement vT .null).IsSerialized = true := by
        rcases hvT with rfl | rfl | rfl
        · rfl
        · rfl
        · exact absurd rfl hne
      rw [unpacked, if_pos hserialized] at hout
      cases hout
    · rintro rfl
      exact ⟨none, withLate false m', .null, withLate true m', fun loaders => heager false loaders,
        fun loaders => heager true loaders, fun _ => rfl, rfl⟩
  · rw [if_neg hempty]
    obtain ⟨isNetObject, data, hread, hlen, hmark⟩ := hsome hempty
    have heager : ∀ loaders, readNetObject loaders { m with LateObjectActivation := false } =
        ((eagerCall isNetObject data).run loaders >>= fun value =>
          pure (value, withLate false m')) := by
      intro loaders
      rw [readNetObject, hblob, hread]
      rfl
    obtain ⟨value, hvalue⟩ : ∃ value, lateValue data = .ok value := by
      have hshort : ([99, 55] ++ data).length < 2 ^ 31 := by
        rw [List.length_append, hlen]
        have htwo : ([99, 55] : Bytes).length = 2 := rfl
        omega
      exact ⟨_, dif_pos hshort⟩
    have hlate : ∀ loaders, readNetObject loaders { m with LateObjectActivation := true } =
        .ok (value, withLate true m') := by
      intro loaders
      rw [readNetObject, hblob, hread]
      change (lateValue data >>= fun value => pure (value, withLate true m')) = _
      rw [hvalue]
      rfl
    obtain ⟨hcall, hbytes⟩ := unpackCall_lateValue hvalue
    have hout : ∀ loaders, unpacked loaders (storedElement vT value) = loaders.deserialize data := by
      intro loaders
      have hserialized : (storedElement vT value).IsSerialized = true := by
        rw [storedElement, hbytes]
        rcases hvT with rfl | rfl | rfl <;> rfl
      rw [unpacked, if_pos hserialized]
      change (unpackCall value >>= fun call => call.run loaders) = _
      rw [hcall]
      rfl
    constructor
    · rintro ⟨call, m₁, value', m₂, hfirst, hsecond, hsame, -⟩
      have hfirst := hfirst oleOnly
      have hsecond := hsecond oleOnly
      rw [hlate] at hsecond
      cases hsecond
      -- the formatter is called in the end, so it must be called at once
      have hcalled : handed oleOnly call = .error .argument := by
        rw [← hsame, hout]
        rfl
      rw [heager, hcalled] at hfirst
      cases isNetObject with
      | true => exact of_decide_eq_true hmark.symm
      | false => cases hfirst
    · intro hbehind
      rw [decide_eq_true hbehind] at hmark
      subst hmark
      exact ⟨some (.binaryFormatter data), withLate false m', value, withLate true m',
        heager, hlate, hout, rfl⟩

/-- An object of the runtime is loaded late as it is loaded at once. -/
theorem formattedObject_lateAsEager :
    LateAsEager vtVariant (StreamManager.new ⟨blobBytes true [1], 0⟩ false) := by
  have hrest : (StreamManager.new ⟨blobBytes true [1], 0⟩ false).str.rest =
      blobBytes true [1] ++ [] := rfl
  exact (lateAsEager_iff (.inr (.inr rfl)) hrest (by decide)).mpr (by decide)

/-- **A COM object is handed to the wrong loader** when it is loaded late. -/
theorem comObject_not_lateAsEager :
    ¬ LateAsEager vtUnknown (StreamManager.new ⟨blobBytes false [1], 0⟩ false) := by
  intro h
  have hrest : (StreamManager.new ⟨blobBytes false [1], 0⟩ false).str.rest =
      blobBytes false [1] ++ [] := rfl
  exact absurd ((lateAsEager_iff (.inr (.inl rfl)) hrest (by decide)).mp h) (by decide)

end IspSession.Analysis
