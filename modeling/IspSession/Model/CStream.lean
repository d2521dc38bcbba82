import IspSession.Model.Automation
import IspSession.Library.Bytes

/-!
# The memory stream `CStream` (CStream.cpp)

A buffer and one position shared by reading and writing. `m_ulSize` is the length of
`buf`; positions and sizes are below `2 ^ 32` wherever the results speak of them, so
that the low part the code uses is the whole position.
-/

set_option autoImplicit false

namespace IspSession.Model

open IspSession.Library

/-- A `CStream`: its bytes and the position `m_iWritePos`. -/
structure CStream where
  buf : List UInt8
  pos : ℕ
  deriving DecidableEq

namespace CStream

/-- A fresh stream. -/
def new : CStream := ⟨[], 0⟩

/-- `CStream::Read` (CStream.cpp:22-57): copies what is left, and says `S_FALSE` when
that is less than asked for. -/
def read (s : CStream) (cb : ℕ) : HResult × List UInt8 × CStream :=
  if cb = 0 then (.sOk, [], s)
  else
    let cBytesLeft := s.buf.length - s.pos
    if cBytesLeft = 0 then (.sFalse, [], s)
    else
      let cBytesRead := min cb cBytesLeft
      (if cb ≠ cBytesRead then .sFalse else .sOk, (s.buf.drop s.pos).take cBytesRead,
        { s with pos := s.pos + cBytesRead })

/-- `CStream::Write` (CStream.cpp:59-99): overwrites at the position and extends the
buffer, with zeros where the position lies behind its end. -/
def write (s : CStream) (pv : List UInt8) : CStream :=
  if pv = [] then s
  else
    { buf := (s.buf ++ List.replicate (s.pos - s.buf.length) 0).take s.pos ++ pv ++
        s.buf.drop (s.pos + pv.length)
      pos := s.pos + pv.length }

/-- `CStream::Seek` with `STREAM_SEEK_SET` (CStream.cpp:102-135). -/
def seekSet (s : CStream) (pos : ℕ) : CStream := { s with pos := pos }

/-- `CStream::SetSize` (CStream.cpp:136-150). -/
def setSize (s : CStream) (size : ℕ) : CStream where
  buf := s.buf.take size ++ List.replicate (size - s.buf.length) 0
  pos := min s.pos size

/-- The bytes before the position: what a sequential writer has produced. -/
def written (s : CStream) : List UInt8 := s.buf.take s.pos

/-- The bytes from the position on: what a reader has still to come. -/
def rest (s : CStream) : List UInt8 := s.buf.drop s.pos

/-- The stream with the position moved forward. -/
def advance (s : CStream) (n : ℕ) : CStream := { s with pos := s.pos + n }

@[simp] theorem advance_advance (s : CStream) (n m : ℕ) :
    (s.advance n).advance m = s.advance (n + m) := by
  simp [advance, Nat.add_assoc]

@[simp] theorem advance_zero (s : CStream) : s.advance 0 = s := rfl

/-- The bytes to come after moving forward. -/
theorem rest_advance (s : CStream) (n : ℕ) : (s.advance n).rest = s.rest.drop n := by
  simp [rest, advance, List.drop_drop]

/-- Moving over a known front leaves the known rest. -/
theorem rest_advance_of_append {s : CStream} {bs tl : List UInt8} (h : s.rest = bs ++ tl) :
    (s.advance bs.length).rest = tl := by
  rw [rest_advance, h, List.drop_left]

/-- What a read delivers. -/
theorem read_bytes (s : CStream) (cb : ℕ) : (s.read cb).2.1 = s.rest.take cb := by
  unfold read rest
  split
  · simp [*]
  · dsimp only
    split
    · rename_i h
      have hnil : s.buf.drop s.pos = [] := by
        rw [← List.length_eq_zero_iff, List.length_drop, h]
      rw [hnil, List.take_nil]
    · rw [← List.length_drop, List.take_eq_take_iff]
      omega

/-- What a read leaves to come. -/
theorem rest_read (s : CStream) (cb : ℕ) : (s.read cb).2.2.rest = s.rest.drop cb := by
  unfold read rest
  split
  · simp [*]
  · dsimp only
    split
    · rename_i h
      have hnil : s.buf.drop s.pos = [] := by
        rw [← List.length_eq_zero_iff, List.length_drop, h]
      rw [hnil, List.drop_nil]
    · dsimp only
      rw [List.drop_drop]
      by_cases hcb : cb ≤ s.buf.length - s.pos
      · rw [Nat.min_eq_left hcb]
      · rw [List.drop_eq_nil_of_le, List.drop_eq_nil_of_le] <;> omega

/-- Whether a read says that it delivers all. -/
theorem read_result (s : CStream) (cb : ℕ) :
    (s.read cb).1 = if s.rest.length < cb then .sFalse else .sOk := by
  unfold read rest
  rw [List.length_drop]
  split
  · rw [if_neg (by omega)]
  · dsimp only
    split
    · rw [if_pos (by omega)]
    · by_cases hcb : cb ≤ s.buf.length - s.pos
      · rw [if_neg (by omega), if_neg (by omega)]
      · rw [if_pos (by omega), if_pos (by omega)]

/-- Reading a front that is there delivers it whole. -/
theorem read_of_rest {s : CStream} {bs tl : List UInt8} (h : s.rest = bs ++ tl) :
    s.read bs.length = (.sOk, bs, s.advance bs.length) := by
  have hlen : s.buf.length - s.pos = bs.length + tl.length := by
    rw [← List.length_drop, ← List.length_append, ← h, rest]
  unfold read
  by_cases h0 : bs.length = 0
  · have : bs = [] := List.length_eq_zero_iff.mp h0
    subst this
    simp
  · have hleft : ¬ s.buf.length - s.pos = 0 := by omega
    have hmin : min bs.length (s.buf.length - s.pos) = bs.length := by omega
    have hfront : (s.buf.drop s.pos).take bs.length = bs := by
      have h' : s.buf.drop s.pos = bs ++ tl := h
      rw [h', List.take_left]
    simp only [h0, hleft, hmin, hfront, ne_eq, not_true_eq_false, if_false]
    rfl

/-- The same with the length given as a number. -/
theorem read_of_rest' {s : CStream} {bs tl : List UInt8} {n : ℕ} (h : s.rest = bs ++ tl)
    (hn : bs.length = n) : s.read n = (.sOk, bs, s.advance n) := by
  subst hn
  exact read_of_rest h

/-- A writer's position never lies behind the end of its buffer. -/
def Sound (s : CStream) : Prop := s.pos ≤ s.buf.length

theorem Sound.write {s : CStream} (h : s.Sound) (pv : List UInt8) : (s.write pv).Sound := by
  unfold Sound at *
  unfold CStream.write
  split
  · exact h
  · simp only [List.length_append, List.length_take, List.length_drop, List.length_replicate]
    omega

/-- Writing appends to what has been written. -/
theorem Sound.written_write {s : CStream} (h : s.Sound) (pv : List UInt8) :
    (s.write pv).written = s.written ++ pv := by
  unfold Sound at h
  unfold CStream.write
  split
  · rename_i h0; simp [h0]
  · have h0 : s.pos - s.buf.length = 0 := by omega
    have hlen : (s.buf.take s.pos ++ pv).length = s.pos + pv.length := by
      simp only [List.length_append, List.length_take]
      omega
    simp only [written, h0, List.replicate_zero, List.append_nil]
    rw [← hlen, List.take_left]

/-- A write whose position lies within the buffer. -/
theorem Sound.write_eq {s : CStream} (h : s.Sound) (pv : List UInt8) :
    s.write pv =
      ⟨s.buf.take s.pos ++ (pv ++ s.buf.drop (s.pos + pv.length)), s.pos + pv.length⟩ := by
  unfold Sound at h
  have h0 : s.pos - s.buf.length = 0 := by omega
  by_cases hpv : pv = []
  · simp [CStream.write, hpv]
  · simp [CStream.write, hpv, h0]

/-- Two writes in a row are one. -/
theorem Sound.write_write {s : CStream} (h : s.Sound) (a b : List UInt8) :
    (s.write a).write b = s.write (a ++ b) := by
  rw [(h.write a).write_eq, h.write_eq a, h.write_eq (a ++ b)]
  unfold Sound at h
  have hpre : (s.buf.take s.pos ++ a).length = s.pos + a.length := by
    simp only [List.length_append, List.length_take]
    omega
  have htake : (s.buf.take s.pos ++ (a ++ s.buf.drop (s.pos + a.length))).take
      (s.pos + a.length) = s.buf.take s.pos ++ a := by
    rw [← List.append_assoc, ← hpre, List.take_left]
  have hdrop : (s.buf.take s.pos ++ (a ++ s.buf.drop (s.pos + a.length))).drop
      (s.pos + a.length + b.length) = s.buf.drop (s.pos + (a ++ b).length) := by
    rw [← List.drop_drop, ← List.append_assoc, ← hpre, List.drop_left, hpre, List.drop_drop,
      List.length_append, Nat.add_assoc]
  rw [htake, hdrop]
  simp only [List.append_assoc, List.length_append, Nat.add_assoc]

/-- Going back to overwrite a field and returning replaces the field. -/
theorem Sound.write_patch {s : CStream} (h : s.Sound) {a a' : List UInt8}
    (ha : a'.length = a.length) (b : List UInt8) :
    (((s.write (a ++ b)).seekSet s.pos).write a').seekSet (s.pos + (a ++ b).length) =
      s.write (a' ++ b) := by
  have hback : ((s.write (a ++ b)).seekSet s.pos).Sound := by
    rw [h.write_eq]
    unfold Sound at h ⊢
    simp only [seekSet, List.length_append, List.length_take]
    omega
  rw [hback.write_eq, h.write_eq, h.write_eq]
  unfold Sound at h
  have hlen : (s.buf.take s.pos).length = s.pos := by
    rw [List.length_take]
    omega
  have htake : (s.buf.take s.pos ++ (a ++ b ++ s.buf.drop (s.pos + (a ++ b).length))).take s.pos =
      s.buf.take s.pos := List.take_left' hlen
  have hdrop : (s.buf.take s.pos ++ (a ++ b ++ s.buf.drop (s.pos + (a ++ b).length))).drop
      (s.pos + a'.length) = b ++ s.buf.drop (s.pos + (a ++ b).length) := by
    rw [← List.drop_drop, List.drop_left' hlen, ha, List.append_assoc, List.drop_left]
  simp only [seekSet]
  rw [htake, hdrop]
  simp only [List.length_append, ha, List.append_assoc]

/-- A stream written from its start and cut to what was written. -/
theorem setSize_write {s : CStream} (h : s.pos = 0) (bs : List UInt8) :
    ((s.write bs).setSize (s.write bs).pos).seekSet 0 = ⟨bs, 0⟩ := by
  have hs : s.Sound := by
    unfold Sound
    omega
  rw [hs.write_eq, h]
  simp [setSize, seekSet]

@[simp] theorem write_nil (s : CStream) : s.write [] = s := rfl

/-- The position after a write. -/
theorem pos_write (s : CStream) (pv : List UInt8) : (s.write pv).pos = s.pos + pv.length := by
  unfold CStream.write
  split
  · rename_i h0; simp [h0]
  · rfl

end CStream

end IspSession.Model
