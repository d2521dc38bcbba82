import IspSession.Analysis.LateActivation
import IspSession.Analysis.ManagedFormat

/-!
# Objects between their length and the next value

The mark of the runtime's objects stands behind the length and is not counted in it. A reader tells
the kind of an object by looking at the two bytes there, which of a COM object are its own first
ones, and an empty blob is no object at all.
-/

set_option autoImplicit false

namespace IspSession.Analysis

open IspSession.Library IspSession.Model StreamManager

variable {rt : NetRuntime} {v : NetValue} {marked : Bool} {bytes written tl : Bytes}

/-! ## The claim -/

/-- The kind and the bytes of an object that is written as a blob. -/
def blobOf (rt : NetRuntime) : NetValue → Option (Bool × Bytes)
  | .object (.com true (some bytes)) => some (false, bytes)
  | .object (.managed (some bytes)) => some (true, bytes)
  | .currency c => (rt.formatCurrency c).map fun bytes => (true, bytes)
  | _ => none

/-- `WriteValue` emits these bytes. -/
def WritesBytes (rt : NetRuntime) (v : NetValue) (written : Bytes) : Prop :=
  ∀ str : MemoryStream, str.Sound → StreamManager.writeValue rt v str = .ok (str.write written)

/-- `ReadValue` consumes the bytes that were written and hands the bytes of the object to the loader
of its kind; a reader that loads late keeps them. -/
def FramesObject (rt : NetRuntime) (marked : Bool) (bytes written : Bytes) : Prop :=
  ∀ vT ∈ [vtDispatch, vtError, vtVariant, vtUnknown], ∀ (m : StreamManager) (tl : Bytes) (fuel : ℕ),
    m.str.rest = written ++ tl → 0 < fuel →
    ∃ m', Moved m written.length m' ∧ m'.str.rest = tl ∧ ∀ loaders,
      StreamManager.readValue rt loaders fuel vT m = do
        let data ← if m.LateObjectActivation then lateValue bytes
          else (eagerCall marked bytes).run loaders
        pure (data, m')

/-- The condition: there are bytes, not more than a reader can have in its memory, and those of a COM
object do not begin like the mark. -/
structure TellsKind (marked : Bool) (bytes : Bytes) : Prop where
  some : bytes ≠ []
  fits : bytes.length < 0x7FFFF000
  unlike : marked = false → bytes ≠ [99] ∧ ¬ [99, 55] <+: bytes

/-! ## Writing -/

/-- INTERNAL: one writing. -/
theorem write_blob (marked : Bool) (bytes : Bytes) {str : MemoryStream} (hs : str.Sound) :
    (if marked then writeFormatted (some bytes) str else writeBlob bytes str) =
      str.write (blobBytes marked bytes) := by
  cases marked with
  | true =>
    rw [if_pos rfl, writeFormatted, hs.write_write, hs.write_write, blobBytes, List.append_assoc]
    rfl
  | false =>
    rw [if_neg Bool.false_ne_true, writeBlob, hs.write_write, blobBytes]
    rfl

/-- INTERNAL: what is written to a new stream. -/
theorem buf_write_new (bs : Bytes) : ((⟨[], 0⟩ : MemoryStream).write bs).buf = bs := by
  have hsound : (⟨[], 0⟩ : MemoryStream).Sound := Nat.le_refl 0
  rw [hsound.write_eq]
  simp

/-- **The bytes that are written are the blob**, and the saved bytes of a COM object have found room
in the memory. -/
theorem eq_blobBytes (hblob : blobOf rt v = some (marked, bytes)) (h : WritesBytes rt v written) :
    written = blobBytes marked bytes ∧ (marked = false → bytes.length < 0x7FFFF000) := by
  have hsound : (⟨[], 0⟩ : MemoryStream).Sound := Nat.le_refl 0
  have hwrite := h _ hsound
  have hwritten : ∀ {str : MemoryStream}, str = (⟨[], 0⟩ : MemoryStream).write written →
      str = (⟨[], 0⟩ : MemoryStream).write (blobBytes marked bytes) →
      written = blobBytes marked bytes := by
    rintro str rfl hsame
    have hbuf := congrArg CStream.buf hsame
    rwa [buf_write_new, buf_write_new] at hbuf
  have hformat := write_blob marked bytes hsound
  cases v with
  | object o =>
    rw [StreamManager.writeValue] at hwrite
    cases o with
    | com persistable saved =>
      cases persistable with
      | false => cases hblob
      | true =>
        cases saved with
        | none => cases hblob
        | some saved =>
          cases hblob
          obtain ⟨block, hroom, hrest⟩ := NetRun.bind_eq_ok hwrite
          refine ⟨hwritten (Except.ok.inj hrest) hformat, fun _ => ?_⟩
          rw [memoryBlock] at hroom
          split at hroom
          · assumption
          · cases hroom
    | managed formatted =>
      cases formatted with
      | none => cases hblob
      | some formatted =>
        cases hblob
        exact ⟨hwritten (Except.ok.inj hwrite) hformat, fun hkind => absurd hkind (by decide)⟩
  | currency c =>
    obtain ⟨formatted, hformatted, hkind⟩ := Option.map_eq_some_iff.mp hblob
    cases hkind
    rw [StreamManager.writeValue, hformatted] at hwrite
    exact ⟨hwritten (Except.ok.inj hwrite) hformat, fun hkind => absurd hkind (by decide)⟩
  | null | dbNull | boolean | primitive | decimal | string | dateTime => cases hblob
  | primitiveArray | booleanArray | decimalArray | stringArray | array => cases hblob

/-! ## Reading -/

/-- INTERNAL: `ReadValue` of an object. -/
theorem readValue_netObject {vT : VarType} (hvT : vT ∈ [vtDispatch, vtError, vtVariant, vtUnknown])
    (loaders : NetLoaders) {fuel : ℕ} (hfuel : 0 < fuel) (m : StreamManager) :
    StreamManager.readValue rt loaders fuel vT m = m.readNetObject loaders := by
  obtain ⟨fuel, rfl⟩ := Nat.exists_eq_add_one_of_ne_zero (Nat.ne_of_gt hfuel)
  rw [StreamManager.readValue]
  simp only [List.mem_cons, List.not_mem_nil, or_false] at hvT
  rcases hvT with rfl | rfl | rfl | rfl <;> rfl

/-- INTERNAL: the two bytes behind the length. -/
theorem take_two_iff (hkind : TellsKind marked bytes) (tl : Bytes) :
    ((blobBytes marked bytes ++ tl).drop 4).take 2 = [99, 55] ↔ marked = true := by
  have hdrop : (blobBytes marked bytes ++ tl).drop 4 =
      (if marked = true then [99, 55] else []) ++ bytes ++ tl := by
    rw [blobBytes, List.append_assoc]
    exact List.drop_left' (length_leBytes 4 _)
  rw [hdrop]
  cases marked with
  | true => exact iff_of_true rfl rfl
  | false =>
    refine iff_of_false ?_ Bool.false_ne_true
    obtain ⟨hshort, hlong⟩ := hkind.unlike rfl
    rw [if_neg Bool.false_ne_true, List.nil_append]
    intro htwo
    cases bytes with
    | nil => exact hkind.some rfl
    | cons a rest =>
      obtain ⟨rfl, hsecond⟩ := List.cons.inj htwo
      cases rest with
      | nil => exact hshort rfl
      | cons b rest =>
        obtain ⟨rfl, -⟩ := List.cons.inj hsecond
        exact hlong ⟨rest, rfl⟩

/-- **A blob whose kind can be told is read as it was written.** -/
theorem readBlob_of_tellsKind {m : StreamManager} (hkind : TellsKind marked bytes)
    (h : m.str.rest = blobBytes marked bytes ++ tl) :
    ∃ m', m.readBlob = .ok (some (marked, bytes), m') ∧
      Moved m (blobBytes marked bytes).length m' := by
  have hmark := take_two_iff hkind tl
  have hrest := h
  rw [blobBytes, List.append_assoc] at hrest
  obtain ⟨hsize, hmoved⟩ := readNumber_of_rest hrest
  rw [Nat.mod_eq_of_lt (by have := hkind.fits; omega)] at hsize
  have hbehind := hmoved.rest' (length_leBytes 4 _) hrest
  have hdrop : (blobBytes marked bytes ++ tl).drop 4 =
      (if marked = true then [99, 55] else []) ++ bytes ++ tl := by
    rw [blobBytes, List.append_assoc]
    exact List.drop_left' (length_leBytes 4 _)
  rw [hdrop] at hmark
  -- the mark is read away exactly if it stands there
  have hread : ∃ m', (m.readNumber 4).2.readMark = (marked, m') ∧
      Moved (m.readNumber 4).2 (if marked = true then [99, 55] else [] : Bytes).length m' ∧
      m'.str.rest = bytes ++ tl := by
    rw [readMark]
    have htwo := read_two hbehind
    cases marked with
    | true =>
      have hthere : ((m.readNumber 4).2.str.read 2).2.1 = [99, 55] := htwo.trans rfl
      dsimp only
      rw [if_pos hthere]
      have hsplit : (m.readNumber 4).2.str.rest = [99, 55] ++ (bytes ++ tl) := by
        rw [hbehind, List.append_assoc]
        rfl
      have hstr := CStream.read_of_rest' hsplit (rfl : ([99, 55] : Bytes).length = 2)
      have hmoved' : Moved (m.readNumber 4).2 2
          { (m.readNumber 4).2 with str := ((m.readNumber 4).2.str.read 2).2.2 } :=
        ⟨congrArg (fun r => r.2.2) hstr, rfl⟩
      exact ⟨_, rfl, hmoved', hmoved'.rest' rfl hsplit⟩
    | false =>
      have hother : ¬ ((m.readNumber 4).2.str.read 2).2.1 = [99, 55] := by
        rw [htwo]
        exact fun hsame => Bool.false_ne_true (hmark.mp hsame)
      dsimp only
      rw [if_neg hother]
      exact ⟨_, rfl, Moved.refl _, hbehind⟩
  obtain ⟨m₁, hmarked, hmoved₁, hbytes⟩ := hread
  obtain ⟨m', hblock, hmoved'⟩ := readBlock_of_rest hbytes rfl hkind.fits
  refine ⟨m', ?_, ?_⟩
  · have hnonzero : ¬ BitVec.ofNat 32 (m.readNumber 4).1 = 0 := by
      intro hzero
      have hnat := congrArg BitVec.toNat hzero
      rw [hsize, BitVec.toNat_ofNat, Nat.mod_eq_of_lt (by have := hkind.fits; omega)] at hnat
      exact hkind.some (List.length_eq_zero_iff.mp hnat)
    rw [readBlob]
    refine (if_neg hnonzero).trans ?_
    change (((m.readNumber 4).2.readMark.2).readBlock (BitVec.ofNat 32 (m.readNumber 4).1) >>=
      fun r => pure (some ((m.readNumber 4).2.readMark.1, r.1), r.2)) = _
    rw [hsize, hmarked, hblock]
    rfl
  · have hall := hmoved.trans (hmoved₁.trans hmoved')
    rw [blobBytes, List.length_append, List.length_append, length_leBytes]
    exact hall

/-! ## The law -/

/-- INTERNAL: loaders of one kind that work. -/
def loadersOf (ole formatter : Bool) : NetLoaders where
  oleLoad _ := if ole then .ok .null else .error .argument
  deserialize _ := if formatter then .ok .null else .error .argument

/-- INTERNAL: a reader at the start of a stream. -/
def readerOf (bs : Bytes) : StreamManager := StreamManager.new ⟨bs, 0⟩ false

theorem withLate_readerOf (bs : Bytes) : withLate false (readerOf bs) = readerOf bs := rfl

/-- INTERNAL: a block that the memory has no room for. -/
theorem readBlock_error {m : StreamManager} {n : ℕ} (hmemory : m.memSize ≤ n)
    (hlarge : 0x7FFFF000 ≤ n) (hint : n < 2 ^ 31) :
    m.readBlock (BitVec.ofNat 32 n) = .error .overflow := by
  have hsize : (BitVec.ofNat 32 n).toNat = n := by
    rw [BitVec.toNat_ofNat, Nat.mod_eq_of_lt (by omega)]
  rw [readBlock, not_slt_zero (by omega), if_neg Bool.false_ne_true, hsize, ensureMemory,
    if_neg (by omega), if_neg (by omega)]
  rfl

/-- INTERNAL: nor has a blob. -/
theorem readBlob_error {m : StreamManager} (h : m.str.rest = blobBytes marked bytes ++ tl)
    (hmemory : m.memSize ≤ bytes.length) (hlarge : 0x7FFFF000 ≤ bytes.length)
    (hint : bytes.length < 2 ^ 31) : m.readBlob = .error .overflow := by
  have hmark : ∀ m : StreamManager, m.readMark.2.memSize = m.memSize := by
    intro m
    rw [readMark]
    dsimp only
    split <;> rfl
  rw [blobBytes, List.append_assoc] at h
  obtain ⟨hsize, -⟩ := readNumber_of_rest h
  rw [Nat.mod_eq_of_lt (by omega)] at hsize
  have hnonzero : ¬ BitVec.ofNat 32 (m.readNumber 4).1 = 0 := by
    intro hzero
    have hnat := congrArg BitVec.toNat hzero
    rw [hsize, BitVec.toNat_ofNat, Nat.mod_eq_of_lt (by omega)] at hnat
    have h0 : (0 : BitVec 32).toNat = 0 := rfl
    omega
  rw [readBlob]
  refine (if_neg hnonzero).trans ?_
  change (((m.readNumber 4).2.readMark.2).readBlock (BitVec.ofNat 32 (m.readNumber 4).1) >>=
    fun r => pure (some ((m.readNumber 4).2.readMark.1, r.1), r.2)) = _
  have hsame : (m.readNumber 4).2.readMark.2.memSize ≤ bytes.length := by
    rw [hmark]
    exact hmemory
  rw [hsize, readBlock_error hsame hlarge hint]
  rfl

/-- INTERNAL: what an eager reader makes of a blob that is followed by other bytes. -/
theorem FramesObject.eager (h : FramesObject rt marked bytes (blobBytes marked bytes)) (tl : Bytes)
    (loaders : NetLoaders) : ∃ m', readNetObject loaders (readerOf (blobBytes marked bytes ++ tl)) =
      (eagerCall marked bytes).run loaders >>= fun data => pure (data, m') := by
  have hvT : vtVariant ∈ [vtDispatch, vtError, vtVariant, vtUnknown] := by decide
  obtain ⟨m', -, -, hall⟩ := h vtVariant hvT (readerOf (blobBytes marked bytes ++ tl)) tl 1 rfl
    Nat.one_pos
  refine ⟨m', ?_⟩
  rw [← readValue_netObject hvT loaders Nat.one_pos]
  exact hall loaders

/-- INTERNAL: a COM object that begins like the mark goes to the formatter. -/
theorem FramesObject.take_two_ne (h : FramesObject rt false bytes (blobBytes false bytes))
    (hne : bytes ≠ []) (hfits : bytes.length < 0x7FFFF000) (tl : Bytes) :
    (bytes ++ tl).take 2 ≠ [99, 55] := by
  intro htwo
  have hrest : (readerOf (blobBytes false bytes ++ tl)).str.rest = blobBytes false bytes ++ tl := rfl
  have hdrop : (blobBytes false bytes ++ tl).drop 4 = bytes ++ tl := by
    rw [blobBytes, List.append_assoc]
    exact List.drop_left' (length_leBytes 4 _)
  obtain ⟨m', -, hsome⟩ := readBlob_spec hrest hfits
  obtain ⟨isNetObject, data, hblob, -, hmark⟩ := hsome hne
  rw [hdrop, decide_eq_true htwo] at hmark
  subst hmark
  have hlate : m'.LateObjectActivation = false := by
    have hsame := readBlob_withLate false (readerOf (blobBytes false bytes ++ tl))
    rw [withLate_readerOf, hblob] at hsame
    rw [(Prod.mk.inj (Except.ok.inj hsame)).2]
    rfl
  obtain ⟨m₁, hread⟩ := h.eager tl (loadersOf false true)
  rw [readNetObject, hblob] at hread
  dsimp only [bind, Except.bind] at hread
  rw [hlate, if_neg Bool.false_ne_true] at hread
  cases hread

/-- INTERNAL: a COM object that is saved as a few bytes is written. -/
theorem writesBytes_com {saved : Bytes} (h : saved.length < 0x7FFFF000) :
    WritesBytes rt (.object (.com true (some saved))) (blobBytes false saved) := by
  intro str hs
  obtain ⟨block, hroom⟩ := memoryBlock_spec h
  rw [StreamManager.writeValue, writeNetObject, hroom]
  exact congrArg Except.ok (write_blob false saved hs)

end IspSession.Analysis
