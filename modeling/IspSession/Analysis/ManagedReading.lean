import IspSession.Model.StreamManager
import IspSession.Analysis.ValueReading
import Mathlib.Data.List.GetD

/-!
# Reading with a `StreamManager`

What the small readers give on a stream that starts with the bytes they expect: they move
over these bytes. What they leave in the buffer does not matter then.
-/

set_option autoImplicit false

namespace IspSession.Analysis

open IspSession.Library IspSession.Model

/-- The reader has moved over `n` bytes. -/
structure Moved (m : StreamManager) (n : ℕ) (m' : StreamManager) : Prop where
  str : m'.str = m.str.advance n
  late : m'.LateObjectActivation = m.LateObjectActivation

theorem Moved.refl (m : StreamManager) : Moved m 0 m := ⟨rfl, rfl⟩

theorem Moved.trans {m m' m'' : StreamManager} {n k : ℕ} (h : Moved m n m') (h' : Moved m' k m'') :
    Moved m (n + k) m'' :=
  ⟨by rw [h'.str, h.str, CStream.advance_advance], h'.late.trans h.late⟩

/-- What is left to read. -/
theorem Moved.rest {m m' : StreamManager} {bs tl : Bytes} (h : Moved m bs.length m')
    (hrest : m.str.rest = bs ++ tl) : m'.str.rest = tl := by
  rw [h.str]
  exact CStream.rest_advance_of_append hrest

/-- INTERNAL: the same with the length given as a number. -/
theorem Moved.rest' {m m' : StreamManager} {bs tl : Bytes} {n : ℕ} (h : Moved m n m')
    (hn : bs.length = n) (hrest : m.str.rest = bs ++ tl) : m'.str.rest = tl := by
  subst hn
  exact h.rest hrest

@[simp] theorem length_readBytes (m : StreamManager) (count : ℕ) :
    (m.readBytes count).1.length = count := by
  simp [StreamManager.readBytes]

/-- Reading bytes that are there. -/
theorem readBytes_of_rest {m : StreamManager} {bs tl : Bytes} {n : ℕ}
    (h : m.str.rest = bs ++ tl) (hn : bs.length = n) :
    (m.readBytes n).1 = bs ∧ Moved m n (m.readBytes n).2 := by
  have hread := CStream.read_of_rest' h hn
  refine ⟨?_, ?_, rfl⟩
  · simp only [StreamManager.readBytes, hread]
    apply List.ext_getElem
    · simp [hn]
    · intro i hi hi'
      rw [List.getElem_map, List.getElem_range, List.getD_eq_getElem _ _ hi']
  · simp only [StreamManager.readBytes, hread]

/-- Reading a number that is there. -/
theorem readNumber_of_rest {m : StreamManager} {tl : Bytes} {n v : ℕ}
    (h : m.str.rest = leBytes n v ++ tl) :
    (m.readNumber n).1 = v % 256 ^ n ∧ Moved m n (m.readNumber n).2 := by
  obtain ⟨hbytes, hmoved⟩ := readBytes_of_rest h (length_leBytes n v)
  refine ⟨?_, hmoved⟩
  change ofLeBytes (m.readBytes n).1 = _
  rw [hbytes, ofLeBytes_leBytes]

/-- The buffer grows to any size below the limit. -/
theorem ensureMemory_spec (m : StreamManager) {required : ℕ} (h : required < 0x7FFFF000) :
    ∃ m', m.ensureMemory required = .ok m' ∧ Moved m 0 m' := by
  unfold StreamManager.ensureMemory
  split
  · exact ⟨m, rfl, Moved.refl m⟩
  · exact ⟨_, rfl, rfl, rfl⟩

/-- INTERNAL: a size below the limit is not negative. -/
theorem not_slt_zero {n : ℕ} (h : n < 2 ^ 31) : (BitVec.ofNat 32 n).slt 0 = false := by
  have hn : (BitVec.ofNat 32 n).toNat = n := by
    rw [BitVec.toNat_ofNat, Nat.mod_eq_of_lt (by omega)]
  have hint : (BitVec.ofNat 32 n).toInt = n := by
    rw [BitVec.toInt_eq_toNat_cond, if_pos (by omega), hn]
  have hzero : (0 : BitVec 32).toInt = 0 := rfl
  simp only [BitVec.slt, decide_eq_false_iff_not, hint, hzero]
  omega

/-- A block of any size below the limit is read, whatever the stream has. -/
theorem exists_readBlock (m : StreamManager) {n : ℕ} (h : n < 0x7FFFF000) :
    ∃ bytes m', m.readBlock (BitVec.ofNat 32 n) = .ok (bytes, m') ∧ bytes.length = n := by
  have hn : (BitVec.ofNat 32 n).toNat = n := by
    rw [BitVec.toNat_ofNat, Nat.mod_eq_of_lt (by omega)]
  obtain ⟨m', hm', -⟩ := ensureMemory_spec m h
  refine ⟨(m'.readBytes n).1, (m'.readBytes n).2, ?_, by simp⟩
  rw [StreamManager.readBlock, not_slt_zero (by omega), hn, hm']
  rfl

/-- A block that is there. -/
theorem readBlock_of_rest {m : StreamManager} {bs tl : Bytes} {n : ℕ}
    (h : m.str.rest = bs ++ tl) (hn : bs.length = n) (hfits : n < 0x7FFFF000) :
    ∃ m', m.readBlock (BitVec.ofNat 32 n) = .ok (bs, m') ∧ Moved m n m' := by
  have hsize : (BitVec.ofNat 32 n).toNat = n := by
    rw [BitVec.toNat_ofNat, Nat.mod_eq_of_lt (by omega)]
  obtain ⟨m', hm', hmoved⟩ := ensureMemory_spec m hfits
  have hrest : m'.str.rest = bs ++ tl := by
    rw [hmoved.str, CStream.advance_zero]
    exact h
  obtain ⟨hbytes, hread⟩ := readBytes_of_rest hrest hn
  refine ⟨(m'.readBytes n).2, ?_, by simpa using hmoved.trans hread⟩
  rw [StreamManager.readBlock, not_slt_zero (by omega), hsize, hm']
  change Except.ok (m'.readBytes n) = _
  rw [← hbytes]

end IspSession.Analysis
