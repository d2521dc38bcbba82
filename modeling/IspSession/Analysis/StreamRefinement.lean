import IspSession.Model.StreamBuffer
import IspSession.Library.Runs
import Mathlib.Tactic.Linarith

/-!
# The stream as a byte file

The counters of `CStream` represent a byte file with a position. Three calls leave it: a
`Read` behind the end takes the difference of two unsigned numbers for what is left, an
offset from the end is not added, and what `SetSize` has cut off is still in the buffer when
the stream grows over it. The lower halves of the counters limit reading and writing to
4 GB, and the buffer has to be one that `vector::resize` takes.
-/

set_option autoImplicit false

namespace IspSession.Analysis

open IspSession.Library IspSession.Model

/-- **The file that the counters represent**: the first `m_ulSize` bytes of the buffer, with
the position; both lie within the buffer. -/
structure RepresentsFile (s : StreamBuffer) (r : CStream) : Prop where
  pos : r.pos = s.m_iWritePos
  bytes : r.buf = s.m_buf.take s.m_ulSize
  capacity : s.m_buf.length = s.m_ulLength
  size : s.m_ulSize ≤ s.m_ulLength
  position : s.m_iWritePos ≤ s.m_ulLength

/-- The calls that are made: positions are not negative, and are `LARGE_INTEGER`s. -/
def LegalCall (s : StreamBuffer) : StreamCall → Prop
  | .seek dlibMove .set => 0 ≤ dlibMove ∧ dlibMove < 2 ^ 63
  | .seek dlibMove .cur => 0 ≤ s.m_iWritePos + dlibMove ∧ s.m_iWritePos + dlibMove < 2 ^ 63
  | .seek dlibMove .fromEnd => 0 ≤ s.m_ulSize + dlibMove ∧ s.m_ulSize + dlibMove < 2 ^ 63
  | .read _ _ | .write _ | .seek _ .other | .setSize _ | .stat => True

/-- The bytes of the buffer between the end of the stream and a position are zero: no
`SetSize` has left anything there. -/
def CleanUpTo (s : StreamBuffer) (n : ℕ) : Prop :=
  ∀ byte ∈ (s.m_buf.drop s.m_ulSize).take (n - s.m_ulSize), byte = 0

/-- A buffer for so many bytes is one that `resize` takes. -/
def FitsVector (limits : VectorLimits) (n : ℕ) : Prop :=
  n + 32 ≤ 2 ^ 64 ∧ memAlign32 n ≤ limits.maxSize

/-- **The condition on a call**: it reads within the stream, does not write or read beyond
4 GB, does not grow over bytes that were cut off or beyond what a vector holds, and adds nothing
to the end. -/
def FileCall (limits : VectorLimits) (s : StreamBuffer) : StreamCall → Prop
  | .read pv cb => pv = true → 0 < cb → s.m_iWritePos ≤ s.m_ulSize ∧ s.m_ulSize < 2 ^ 32
  | .write none => True
  | .write (some bs) => bs ≠ [] →
      s.m_iWritePos + bs.length ≤ 2 ^ 32 ∧ FitsVector limits (s.m_iWritePos + bs.length) ∧
        CleanUpTo s s.m_iWritePos
  | .seek dlibMove .set => FitsVector limits dlibMove.toNat
  | .seek dlibMove .cur => FitsVector limits (s.m_iWritePos + dlibMove).toNat
  | .seek dlibMove .fromEnd => dlibMove = 0
  | .seek _ .other => True
  | .setSize libNewSize => FitsVector limits libNewSize ∧ CleanUpTo s libNewSize
  | .stat => True

instance (s : StreamBuffer) : (call : StreamCall) → Decidable (LegalCall s call)
  | .seek _ .set | .seek _ .cur | .seek _ .fromEnd => inferInstanceAs (Decidable (_ ∧ _))
  | .read _ _ | .write _ | .seek _ .other | .setSize _ | .stat => .isTrue trivial

instance (s : StreamBuffer) (n : ℕ) : Decidable (CleanUpTo s n) :=
  inferInstanceAs (Decidable (∀ _ ∈ _, _))

instance (limits : VectorLimits) (n : ℕ) : Decidable (FitsVector limits n) :=
  inferInstanceAs (Decidable (_ ∧ _))

instance (limits : VectorLimits) (s : StreamBuffer) :
    (call : StreamCall) → Decidable (FileCall limits s call)
  | .read pv cb => inferInstanceAs (Decidable (pv = true → 0 < cb → _ ∧ _))
  | .write (some bs) => inferInstanceAs (Decidable (bs ≠ [] → _ ∧ _ ∧ _))
  | .seek dlibMove .set => inferInstanceAs (Decidable (FitsVector limits dlibMove.toNat))
  | .seek dlibMove .cur =>
    inferInstanceAs (Decidable (FitsVector limits (s.m_iWritePos + dlibMove).toNat))
  | .seek dlibMove .fromEnd => inferInstanceAs (Decidable (dlibMove = 0))
  | .setSize _ => inferInstanceAs (Decidable (_ ∧ _))
  | .write none | .seek _ .other | .stat => .isTrue trivial

/-- The state after a call. -/
def streamStep (limits : VectorLimits) (s : StreamBuffer) (call : StreamCall) :
    Except StreamFault StreamBuffer :=
  Prod.snd <$> s.perform limits call

variable {limits : VectorLimits}

/-! ## Buffers and numbers -/

/-- INTERNAL: a capacity is not below what it is for. -/
theorem le_memAlign32 {n : ℕ} (h : n + 32 ≤ 2 ^ 64) : n ≤ memAlign32 n := by
  unfold memAlign32 quadPart
  split
  · rw [Nat.mod_eq_of_lt (by omega)]
    omega
  · exact le_refl n

theorem length_resized (buf : List UInt8) (n : ℕ) : (resized buf n).length = n := by
  unfold resized
  rw [List.length_append, List.length_take, List.length_replicate]
  omega

/-- INTERNAL: what a larger buffer begins with. -/
theorem take_resized {buf : List UInt8} {n k : ℕ} (hn : k ≤ n) (hk : k ≤ buf.length) :
    (resized buf n).take k = buf.take k := by
  unfold resized
  rw [List.take_append_of_le_length (by rw [List.length_take]; omega), List.take_take,
    Nat.min_eq_left hn]

/-- INTERNAL: `resize` takes a buffer for so many bytes. -/
theorem resizeBuffer_fits {n : ℕ} (h : FitsVector limits n) (buf : List UInt8) :
    resizeBuffer limits buf (memAlign32 n) = .ok (resized buf (memAlign32 n)) := by
  have hcut : memAlign32 n % 2 ^ limits.sizeBits = memAlign32 n :=
    Nat.mod_eq_of_lt (Nat.lt_of_le_of_lt h.2 limits.fits)
  rw [resizeBuffer, hcut, if_pos h.2]

/-- INTERNAL: up to a position behind the end, a clean buffer is the stream and zeros. -/
theorem take_of_clean {s : StreamBuffer} {r : CStream} (hs : RepresentsFile s r) {n : ℕ}
    (hclean : CleanUpTo s n) (hn : n ≤ s.m_buf.length) :
    s.m_buf.take n = (r.buf ++ List.replicate (n - r.buf.length) 0).take n := by
  have hsize : s.m_ulSize ≤ s.m_buf.length := by rw [hs.capacity]; exact hs.size
  have hlen : r.buf.length = s.m_ulSize := by rw [hs.bytes, List.length_take]; omega
  by_cases hle : n ≤ s.m_ulSize
  · rw [List.take_append_of_le_length (by rw [hlen]; exact hle), hs.bytes, List.take_take,
      Nat.min_eq_left hle]
  · have hgap : (s.m_buf.drop s.m_ulSize).take (n - s.m_ulSize) =
        List.replicate (n - s.m_ulSize) 0 := by
      rw [List.eq_replicate_iff]
      refine ⟨?_, hclean⟩
      rw [List.length_take, List.length_drop]
      omega
    have hsplit : s.m_buf.take n =
        s.m_buf.take s.m_ulSize ++ (s.m_buf.drop s.m_ulSize).take (n - s.m_ulSize) := by
      rw [← List.take_add]
      congr 1
      omega
    rw [hsplit, hgap, hlen, ← hs.bytes]
    refine (List.take_of_length_le ?_).symm
    rw [List.length_append, List.length_replicate, hlen]
    omega

/-! ## The calls -/

/-- INTERNAL: the number of bytes in the file. -/
theorem RepresentsFile.length {s : StreamBuffer} {r : CStream} (hs : RepresentsFile s r) :
    r.buf.length = s.m_ulSize := by
  have hcap := hs.capacity
  have hsize := hs.size
  rw [hs.bytes, List.length_take]
  omega

/-- **What `Read` delivers** up to the lower half of the size. -/
theorem read_within {s : StreamBuffer} {cb : ℕ} (hcb : 0 < cb)
    (hpos : s.m_iWritePos ≤ lowPart s.m_ulSize) (hbuf : lowPart s.m_ulSize ≤ s.m_buf.length) :
    s.read true cb =
      .ok (if lowPart s.m_ulSize - s.m_iWritePos < cb then .sFalse else .sOk,
        (s.m_buf.drop s.m_iWritePos).take (min cb (lowPart s.m_ulSize - s.m_iWritePos)),
        { s with
          m_iWritePos := s.m_iWritePos + min cb (lowPart s.m_ulSize - s.m_iWritePos) }) := by
  have hbound : lowPart s.m_ulSize < 2 ^ 32 := Nat.mod_lt _ (by omega)
  set left := lowPart s.m_ulSize - s.m_iWritePos with hdef
  have hlow : lowPart s.m_iWritePos = s.m_iWritePos := Nat.mod_eq_of_lt (by omega)
  have hleft : lowPart (lowPart s.m_ulSize + 2 ^ 32 - lowPart s.m_iWritePos) = left := by
    rw [hlow, hdef]
    unfold lowPart at *
    omega
  unfold StreamBuffer.read
  rw [if_neg (by simp), if_neg (by omega), hleft]
  dsimp only
  by_cases hzero : left = 0
  · rw [if_pos hzero, hzero, if_pos hcb, Nat.min_zero, List.take_zero, Nat.add_zero]
  · have hmin : (if cb > left then left else cb) = min cb left := by split <;> omega
    have hadvance : s.m_iWritePos - s.m_iWritePos + lowPart (s.m_iWritePos + min cb left) =
        s.m_iWritePos + min cb left := by
      unfold lowPart at *
      omega
    have hresult : (if cb ≠ min cb left then StreamResult.sFalse else .sOk) =
        if left < cb then .sFalse else .sOk := by
      split <;> split <;> first | rfl | omega
    rw [if_neg hzero, hmin, hlow]
    unfold StreamBuffer.load
    rw [if_pos (by omega), hadvance, hresult]
    rfl

/-- `Read` within the stream. -/
theorem read_represents {s : StreamBuffer} {r : CStream} (hs : RepresentsFile s r) {cb : ℕ}
    (hcb : 0 < cb) (hpos : s.m_iWritePos ≤ s.m_ulSize) (hsize : s.m_ulSize < 2 ^ 32) :
    ∃ s', s.read true cb =
        .ok (if (r.read cb).2.1.length < cb then .sFalse else .sOk, (r.read cb).2.1, s') ∧
      RepresentsFile s' (r.read cb).2.2 := by
  have hlow : lowPart s.m_ulSize = s.m_ulSize := Nat.mod_eq_of_lt hsize
  have hlen := hs.length
  have hcap := hs.capacity
  have hfit := hs.size
  have hread := read_within hcb (s := s) (by omega) (by omega)
  rw [hlow] at hread
  set n := min cb (s.m_ulSize - s.m_iWritePos) with hn
  have hbytes : (r.read cb).2.1 = (s.m_buf.drop s.m_iWritePos).take n := by
    rw [CStream.read_bytes, CStream.rest, hs.bytes, hs.pos, List.drop_take, List.take_take]
  have hlength : ((s.m_buf.drop s.m_iWritePos).take n).length = n := by
    rw [List.length_take, List.length_drop]
    omega
  have hresult : (if s.m_ulSize - s.m_iWritePos < cb then StreamResult.sFalse else .sOk) =
      if n < cb then .sFalse else .sOk := by
    split <;> split <;> first | rfl | omega
  refine ⟨{ s with m_iWritePos := s.m_iWritePos + n }, ?_, ?_⟩
  · rw [hread, hbytes, hlength, hresult]
  · have hafter : (r.read cb).2.2 = { r with pos := r.pos + n } := by
      unfold CStream.read
      rw [if_neg (by omega), hlen, hs.pos]
      dsimp only
      split
      · rename_i hzero
        rw [hn, hzero, Nat.min_zero, Nat.add_zero, ← hs.pos]
      · rfl
    rw [hafter]
    exact ⟨by dsimp only; rw [hs.pos], hs.bytes, hcap, hfit, by dsimp only; omega⟩

/-- INTERNAL: the bytes after a `memcpy` to a position within the buffer, cut to the size. -/
theorem take_store {buf : List UInt8} {bs : List UInt8} {pos size : ℕ}
    (hfit : pos + bs.length ≤ buf.length) :
    (buf.take pos ++ bs ++ buf.drop (pos + bs.length)).take (max size (pos + bs.length)) =
      buf.take pos ++ bs ++ (buf.take size).drop (pos + bs.length) := by
  have hfront : (buf.take pos ++ bs).length = pos + bs.length := by
    rw [List.length_append, List.length_take]
    omega
  rw [List.take_append, hfront, List.take_of_length_le (by rw [hfront]; exact le_max_right _ _),
    List.drop_take]
  congr 2
  omega

/-- INTERNAL: enlarging keeps what is in the buffer. -/
theorem enlarge_spec {s : StreamBuffer} {last : ℕ} (hcap : s.m_buf.length = s.m_ulLength)
    (hlast : FitsVector limits last) :
    ∃ s', s.enlarge limits last = .ok s' ∧ s'.m_buf.length = s'.m_ulLength ∧
      last ≤ s'.m_ulLength ∧ s.m_ulLength ≤ s'.m_ulLength ∧ s'.m_ulSize = s.m_ulSize ∧
      ∀ k ≤ s.m_buf.length, s'.m_buf.take k = s.m_buf.take k := by
  unfold StreamBuffer.enlarge
  split
  · rename_i hgt
    rw [Nat.add_sub_cancel' (Nat.le_of_lt hgt)]
    dsimp only
    rw [resizeBuffer_fits hlast]
    have hle := le_memAlign32 hlast.1
    refine ⟨_, rfl, length_resized _ _, hle, by dsimp only; omega, rfl, fun k hk => ?_⟩
    exact take_resized (by omega) hk
  · exact ⟨s, rfl, hcap, by omega, le_refl _, rfl, fun _ _ => rfl⟩

/-- `Write` below 4 GB, where it does not reach over bytes that were cut off. -/
theorem write_represents {s : StreamBuffer} {r : CStream} (hs : RepresentsFile s r)
    {bs : List UInt8} (hbs : bs ≠ []) (hlast : s.m_iWritePos + bs.length ≤ 2 ^ 32)
    (hroom : FitsVector limits (s.m_iWritePos + bs.length)) (hclean : CleanUpTo s s.m_iWritePos) :
    ∃ s', s.write limits (some bs) = .ok (.sOk, bs.length, s') ∧ RepresentsFile s' (r.write bs) := by
  have hpos0 : 0 < bs.length := List.length_pos_iff.mpr hbs
  have hquad : quadPart (s.m_iWritePos + bs.length) = s.m_iWritePos + bs.length :=
    Nat.mod_eq_of_lt (by omega)
  have hlow : lowPart s.m_iWritePos = s.m_iWritePos := Nat.mod_eq_of_lt (by omega)
  have hlen := hs.length
  have hcap := hs.capacity
  have hsize := hs.size
  have hposition := hs.position
  set last := s.m_iWritePos + bs.length with hdef
  -- the counters and the buffer with room for the bytes
  have hsize₀ : (s.growSize last).m_ulSize = max s.m_ulSize last := by
    unfold StreamBuffer.growSize
    split
    · change s.m_ulSize + (last - s.m_ulSize) = _
      omega
    · omega
  have hsame : (s.growSize last).m_buf = s.m_buf ∧
      (s.growSize last).m_ulLength = s.m_ulLength := by
    unfold StreamBuffer.growSize
    split <;> exact ⟨rfl, rfl⟩
  obtain ⟨s₁, henlarge, hroom, hfit, hgrow, hsize₁, hkept⟩ :=
    @enlarge_spec limits (s.growSize last) last (by rw [hsame.1, hsame.2, hcap]) hroom
  rw [hsame.2] at hgrow
  rw [hsame.1] at hkept
  rw [hsize₀] at hsize₁
  have hwrite : s.write limits (some bs) = .ok (.sOk, bs.length, { s₁ with
      m_buf := s₁.m_buf.take s.m_iWritePos ++ bs ++ s₁.m_buf.drop last, m_iWritePos := last }) := by
    unfold StreamBuffer.write
    dsimp only
    rw [if_neg (by omega), hquad, hlow, henlarge]
    change (s₁.store s.m_iWritePos bs >>= _) = _
    unfold StreamBuffer.store
    rw [if_pos (by omega)]
    rfl
  refine ⟨_, hwrite, ?_⟩
  have hfront : s₁.m_buf.take s.m_iWritePos =
      (r.buf ++ List.replicate (s.m_iWritePos - r.buf.length) 0).take s.m_iWritePos := by
    rw [hkept _ (by omega), take_of_clean hs hclean (by omega)]
  have hrest : (s₁.m_buf.take s.m_ulSize).drop last = r.buf.drop last := by
    rw [hkept _ (by omega), hs.bytes]
  refine ⟨?_, ?_, ?_, ?_, hfit⟩
  · rw [CStream.pos_write, hs.pos]
  · dsimp only
    rw [hsize₁, take_store (by omega), hfront, hrest]
    unfold CStream.write
    rw [if_neg hbs]
    dsimp only
    rw [hs.pos]
  · dsimp only
    rw [List.length_append, List.length_append, List.length_take, List.length_drop, ← hroom]
    omega
  · dsimp only
    rw [hsize₁]
    omega

/-- `Seek` to a position. -/
theorem moveTo_represents {s : StreamBuffer} {r : CStream} (hs : RepresentsFile s r) {target : ℕ}
    (htarget : FitsVector limits target) :
    ∃ s', s.moveTo limits target = .ok (.sOk, target, s') ∧
      RepresentsFile s' (r.seekSet target) := by
  have hcap := hs.capacity
  have hsize := hs.size
  unfold StreamBuffer.moveTo
  split
  · have hle : target ≤ memAlign32 target := le_memAlign32 htarget.1
    dsimp only
    rw [resizeBuffer_fits htarget]
    refine ⟨_, rfl, rfl, ?_, length_resized _ _, by dsimp only; omega, hle⟩
    change r.buf = _
    rw [hs.bytes]
    exact (take_resized (by omega) (by omega)).symm
  · exact ⟨_, rfl, rfl, hs.bytes, hcap, hsize, by dsimp only; omega⟩

/-- `SetSize`, where the stream does not grow over bytes that were cut off. -/
theorem setSize_represents {s : StreamBuffer} {r : CStream} (hs : RepresentsFile s r) {n : ℕ}
    (hn : FitsVector limits n) (hclean : CleanUpTo s n) :
    ∃ s', s.setSize limits n = .ok s' ∧ RepresentsFile s' (r.setSize n) := by
  have hle := le_memAlign32 hn.1
  have hcap := hs.capacity
  have hsize := hs.size
  have hlen := hs.length
  unfold StreamBuffer.setSize
  dsimp only
  rw [resizeBuffer_fits hn]
  refine ⟨_, rfl, ?_, ?_, length_resized _ _, hle, ?_⟩
  · change min r.pos n = if s.m_iWritePos > n then n else s.m_iWritePos
    rw [hs.pos]
    split <;> omega
  · change r.buf.take n ++ List.replicate (n - r.buf.length) 0 =
      (resized s.m_buf (memAlign32 n)).take n
    have hfile : r.buf.take n ++ List.replicate (n - r.buf.length) 0 =
        (r.buf ++ List.replicate (n - r.buf.length) 0).take n := by
      rw [List.take_append, List.take_of_length_le (l := List.replicate _ _)]
      rw [List.length_replicate]
    rw [hfile]
    by_cases hfit : n ≤ s.m_buf.length
    · rw [take_resized hle hfit, take_of_clean hs hclean hfit]
    · -- the rest of the buffer is zero, and so is what it is enlarged with
      have hgap : s.m_buf.drop s.m_ulSize =
          List.replicate (s.m_buf.length - s.m_ulSize) 0 := by
        rw [List.eq_replicate_iff]
        refine ⟨List.length_drop, fun byte hbyte => hclean byte ?_⟩
        rw [List.take_of_length_le (by rw [List.length_drop]; omega)]
        exact hbyte
      have hall : s.m_buf = r.buf ++ List.replicate (s.m_buf.length - s.m_ulSize) 0 := by
        rw [← hgap, hs.bytes, List.take_append_drop]
      have hcount : n - r.buf.length =
          (s.m_buf.length - s.m_ulSize) + (n - s.m_buf.length) := by omega
      have hlonger : s.m_buf.length ≤ n := by omega
      rw [← hfile, List.take_of_length_le (by omega : r.buf.length ≤ n), hcount,
        List.replicate_add, ← List.append_assoc, ← hall]
      unfold resized
      rw [List.take_of_length_le (hlonger.trans hle), List.take_append,
        List.take_of_length_le hlonger, List.take_replicate,
        Nat.min_eq_left (Nat.sub_le_sub_right hle _)]
  · change (if s.m_iWritePos > n then n else s.m_iWritePos) ≤ memAlign32 n
    split <;> omega

/-- INTERNAL: the position that `STREAM_SEEK_SET` and `STREAM_SEEK_CUR` ask for. -/
theorem toNat_mod_eq {n : ℤ} (h0 : 0 ≤ n) (h : n < 2 ^ 63) :
    (n % 2 ^ 64).toNat = n.toNat := by
  omega

/-- `Seek` from the three origins, with no offset from the end. -/
theorem seek_represents {s : StreamBuffer} {r : CStream} (hs : RepresentsFile s r) {dlibMove : ℤ}
    {dwOrigin : SeekOrigin} (hlegal : LegalCall s (.seek dlibMove dwOrigin))
    (hfile : FileCall limits s (.seek dlibMove dwOrigin)) :
    ∃ s', s.perform limits (.seek dlibMove dwOrigin) =
        .ok ((r.perform (.seek dlibMove dwOrigin)).1, s') ∧
      RepresentsFile s' (r.perform (.seek dlibMove dwOrigin)).2 := by
  cases dwOrigin with
  | set =>
    have hmod := toNat_mod_eq hlegal.1 hlegal.2
    obtain ⟨s', hmove, hs'⟩ := moveTo_represents hs hfile
    refine ⟨s', ?_, hs'⟩
    simp only [StreamBuffer.perform, StreamBuffer.seek, hmod, hmove]
    rfl
  | cur =>
    have hmod := toNat_mod_eq hlegal.1 hlegal.2
    have htarget : FitsVector limits (s.m_iWritePos + dlibMove).toNat := hfile
    rw [← hs.pos] at hmod htarget
    obtain ⟨s', hmove, hs'⟩ := moveTo_represents hs htarget
    refine ⟨s', ?_, hs'⟩
    simp only [StreamBuffer.perform, StreamBuffer.seek, ← hs.pos, hmod, hmove]
    rfl
  | fromEnd =>
    have hzero : dlibMove = 0 := hfile
    have htarget : (r.buf.length + dlibMove).toNat = s.m_ulSize := by
      rw [hs.length, hzero]
      omega
    refine ⟨{ s with m_iWritePos := s.m_ulSize }, ?_, ?_⟩
    · simp only [StreamBuffer.perform, StreamBuffer.seek, CStream.perform, htarget]
      rfl
    · change RepresentsFile _ (r.seekSet (r.buf.length + dlibMove).toNat)
      rw [htarget]
      exact ⟨rfl, hs.bytes, hs.capacity, hs.size, hs.size⟩
  | other => exact ⟨s, rfl, hs⟩

/-- **The step lemma**: a call that meets the condition does what it does to the file. -/
theorem perform_represents {s : StreamBuffer} {r : CStream} (hs : RepresentsFile s r)
    {call : StreamCall} (hlegal : LegalCall s call) (hfile : FileCall limits s call) :
    ∃ s', s.perform limits call = .ok ((r.perform call).1, s') ∧
      RepresentsFile s' (r.perform call).2 := by
  cases call with
  | read pv cb =>
    cases pv with
    | false => exact ⟨s, rfl, hs⟩
    | true =>
      by_cases hcb : cb = 0
      · subst hcb
        exact ⟨s, rfl, hs⟩
      · have hpos : 0 < cb := Nat.pos_of_ne_zero hcb
        obtain ⟨hwithin, hsize⟩ := hfile rfl hpos
        obtain ⟨s', hread, hs'⟩ := read_represents hs hpos hwithin hsize
        refine ⟨s', ?_, hs'⟩
        simp only [StreamBuffer.perform, hread]
        rfl
  | write pv =>
    cases pv with
    | none => exact ⟨s, rfl, hs⟩
    | some bs =>
      by_cases hbs : bs = []
      · subst hbs
        exact ⟨s, rfl, hs⟩
      · obtain ⟨hlast, hroom, hclean⟩ := hfile hbs
        obtain ⟨s', hwrite, hs'⟩ := write_represents hs hbs hlast hroom hclean
        refine ⟨s', ?_, hs'⟩
        simp only [StreamBuffer.perform, hwrite]
        rfl
  | seek dlibMove dwOrigin => exact seek_represents hs hlegal hfile
  | setSize n =>
    obtain ⟨s', hset, hs'⟩ := setSize_represents hs hfile.1 hfile.2
    refine ⟨s', ?_, hs'⟩
    simp only [StreamBuffer.perform, hset]
    rfl
  | stat =>
    refine ⟨s, ?_, hs⟩
    change Except.ok (StreamAnswer.mk _ _ s.m_ulSize, s) = _
    rw [← hs.length]
    rfl

/-- INTERNAL: from any file that is represented. -/
theorem observe_represents {calls : List StreamCall} {s : StreamBuffer} {r : CStream}
    (hs : RepresentsFile s r)
    (hmeets : Runs.Meets (streamStep limits)
      (fun s call => LegalCall s call ∧ FileCall limits s call) calls s) :
    s.observe limits calls = .ok (r.observe calls) := by
  induction calls generalizing s r with
  | nil => rfl
  | cons call calls ih =>
    obtain ⟨s', hperform, hs'⟩ := perform_represents hs hmeets.1.1 hmeets.1.2
    have hstep : streamStep limits s call = .ok s' := by
      unfold streamStep
      rw [hperform]
      rfl
    have hrest := ih hs' (hmeets.2 s' hstep)
    simp only [StreamBuffer.observe, CStream.observe, hperform, bind, Except.bind, hrest]
    rfl

/-- **The stream is a byte file** in every run whose calls read within it, stay below 4 GB and
below what a vector holds, add nothing to its end and do not grow over bytes that were cut off:
all answers are those of the file, and no access falls outside the buffer. -/
theorem stream_observes_file {calls : List StreamCall}
    (hmeets : Runs.Meets (streamStep limits)
      (fun s call => LegalCall s call ∧ FileCall limits s call) calls .new) :
    StreamBuffer.observe limits calls .new = .ok (CStream.observe calls .new) :=
  observe_represents ⟨rfl, rfl, rfl, le_refl _, le_refl _⟩ hmeets

/-- Bytes are written, overwritten and cut off, and the file is read to its end. -/
def fileCalls : List StreamCall :=
  [.write (some [1, 2, 3]), .seek 40 .set, .write (some [4]), .seek (-40) .cur,
    .write (some [5]), .setSize 2, .stat, .seek 0 .set, .read true 9, .read true 1]

/-- The answers are those of the file. -/
theorem fileCalls_observed :
    StreamBuffer.observe .win32 fileCalls .new = .ok (CStream.observe fileCalls .new) :=
  stream_observes_file (by decide +kernel)

/-- A read behind the end of the stream delivers bytes, or memory behind the buffer; the end
with an offset is the end; and bytes that were cut off come back. -/
theorem behindEnd_not_file :
    (Runs.Meets (streamStep .win32) LegalCall [.seek 1 .set, .read true 1] .new ∧
      StreamBuffer.observe .win32 [.seek 1 .set, .read true 1] .new =
        .ok [⟨.sOk, [], 1⟩, ⟨.sOk, [0], 1⟩] ∧
      CStream.observe [.seek 1 .set, .read true 1] .new = [⟨.sOk, [], 1⟩, ⟨.sFalse, [], 0⟩]) ∧
    (Runs.Meets (streamStep .win32) LegalCall [.seek 1 .set, .read true 100] .new ∧
      StreamBuffer.observe .win32 [.seek 1 .set, .read true 100] .new = .error .outsideBuffer) ∧
    (Runs.Meets (streamStep .win32) LegalCall [.write (some [1]), .seek (-1) .fromEnd] .new ∧
      StreamBuffer.observe .win32 [.write (some [1]), .seek (-1) .fromEnd] .new =
        .ok [⟨.sOk, [], 1⟩, ⟨.sOk, [], 1⟩] ∧
      CStream.observe [.write (some [1]), .seek (-1) .fromEnd] .new =
        [⟨.sOk, [], 1⟩, ⟨.sOk, [], 0⟩]) ∧
    (Runs.Meets (streamStep .win32) LegalCall
        [.write (some [1, 2]), .setSize 1, .setSize 2, .read true 1] .new ∧
      StreamBuffer.observe .win32 [.write (some [1, 2]), .setSize 1, .setSize 2, .read true 1] .new =
        .ok [⟨.sOk, [], 2⟩, ⟨.sOk, [], 0⟩, ⟨.sOk, [], 0⟩, ⟨.sOk, [2], 1⟩] ∧
      CStream.observe [.write (some [1, 2]), .setSize 1, .setSize 2, .read true 1] .new =
        [⟨.sOk, [], 2⟩, ⟨.sOk, [], 0⟩, ⟨.sOk, [], 0⟩, ⟨.sOk, [0], 1⟩]) := by
  refine ⟨⟨?_, ?_, ?_⟩, ⟨?_, ?_⟩, ⟨?_, ?_, ?_⟩, ?_, ?_, ?_⟩ <;> decide +kernel

end IspSession.Analysis
