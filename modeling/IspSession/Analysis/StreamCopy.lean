import IspSession.Analysis.StreamRefinement

/-!
# Copying a stream

`CStream::CopyTo` and `ISequentialStream_Copy` are one loop with two ways to say how much is
read next. The one of `CopyTo` is zero when the lower half of the count is, and then the loop
goes on for ever; `ISequentialStream_Copy` reads at least one byte each time. Both stop when
a read delivers less than it was asked for.
-/

set_option autoImplicit false

namespace IspSession.Analysis

open IspSession.Library IspSession.Model

variable {τ : Type} {write : WriteMethod τ} {contents : τ → List UInt8}

/-- The target accepts all writes: what is written is appended, and its length is returned. -/
def Accepts (write : WriteMethod τ) (contents : τ → List UInt8) : Prop :=
  ∀ t bs, (write t bs).1 = .sOk ∧ (write t bs).2.1 = bs.length ∧
    contents (write t bs).2.2 = contents t ++ bs

/-- **`CopyTo` does its work**: it comes to an end, the target has got the first bytes of the
stream, both totals are their number, and the source is as it was. -/
def CopiesFirst (write : WriteMethod τ) (contents : τ → List UInt8) (s : StreamBuffer)
    (target : τ) (cb : ℕ) : Prop :=
  ∃ fuel hr st, s.copyTo write fuel (some target) cb = .ok (some (hr, some st)) ∧
    contents st.target = contents target ++ (s.m_buf.take s.m_ulSize).take cb ∧
    st.totalBytesRead = min cb s.m_ulSize ∧ st.totalBytesWritten = min cb s.m_ulSize ∧
    st.source = s

/-- Both functions come to an end, with the same bytes delivered and the same counts, when
the source is at its start. -/
def CopiesAlike (write : WriteMethod τ) (contents : τ → List UInt8) (s : StreamBuffer)
    (target : τ) (cb : ℕ) : Prop :=
  ∃ fuel hr st fuel' hr' st',
    StreamBuffer.copyTo write fuel { s with m_iWritePos := 0 } (some target) cb =
      .ok (some (hr, some st)) ∧
    iSequentialStreamCopy write fuel' (some { s with m_iWritePos := 0 }) (some target) cb =
      .ok (some (hr', some st')) ∧
    contents st.target = contents st'.target ∧ st.totalBytesRead = st'.totalBytesRead ∧
    st.totalBytesWritten = st'.totalBytesWritten

/-! ## One turn of the loop -/

/-- Between two states of a loop, `k` bytes have been copied. -/
structure Copied (contents : τ → List UInt8) (st st' : CopyState τ) (k : ℕ) : Prop where
  source : st'.source = { st.source with m_iWritePos := st.source.m_iWritePos + k }
  bytes : contents st'.target =
    contents st.target ++ (st.source.m_buf.drop st.source.m_iWritePos).take k
  read : st'.totalBytesRead = st.totalBytesRead + k
  written : st'.totalBytesWritten = st.totalBytesWritten + k

/-- INTERNAL: nothing has been copied yet. -/
theorem Copied.refl (st : CopyState τ) : Copied contents st st 0 :=
  ⟨rfl, by simp, rfl, rfl⟩

/-- INTERNAL: what has been copied, and what is copied then. -/
theorem Copied.trans {st st' st'' : CopyState τ} {k k' : ℕ} (h : Copied contents st st' k)
    (h' : Copied contents st' st'' k') : Copied contents st st'' (k + k') := by
  refine ⟨?_, ?_, ?_, ?_⟩
  · rw [h'.source, h.source]
    simp only [Nat.add_assoc]
  · rw [h'.bytes, h.bytes, h.source, List.append_assoc, List.take_add, List.drop_drop]
  · rw [h'.read, h.read, Nat.add_assoc]
  · rw [h'.written, h.written, Nat.add_assoc]

/-- The bytes of the source that `Read` can still deliver. -/
def leftToRead (s : StreamBuffer) : ℕ := lowPart s.m_ulSize - s.m_iWritePos

/-- The position of the source is where `Read` works, and its bytes are in the buffer. -/
structure ReadableSource (s : StreamBuffer) : Prop where
  position : s.m_iWritePos ≤ lowPart s.m_ulSize
  buffer : lowPart s.m_ulSize ≤ s.m_buf.length

/-- INTERNAL: after some of the bytes that are left. -/
theorem ReadableSource.advance {s : StreamBuffer} (h : ReadableSource s) {k : ℕ} (hk : k ≤ leftToRead s) :
    ReadableSource { s with m_iWritePos := s.m_iWritePos + k } ∧
      leftToRead { s with m_iWritePos := s.m_iWritePos + k } = leftToRead s - k := by
  have hpos := h.position
  unfold leftToRead at *
  exact ⟨⟨by dsimp only; omega, h.buffer⟩, by dsimp only; omega⟩

/-- INTERNAL: writing to a target that accepts it. -/
theorem send_accepts (haccepts : Accepts write contents) (st : CopyState τ)
    (bytes : List UInt8) : st.send write bytes =
      { st with
        hr := .sOk
        target := (write st.target bytes).2.2
        totalBytesWritten := st.totalBytesWritten + bytes.length } := by
  obtain ⟨hok, hcount, -⟩ := haccepts st.target bytes
  unfold CopyState.send
  rcases hw : write st.target bytes with ⟨hr, n, target⟩
  rw [hw] at hok hcount
  obtain rfl : hr = .sOk := hok
  obtain rfl : n = bytes.length := hcount
  rfl

/-- INTERNAL: what is done with the bytes that were read. -/
theorem afterRead_accepts (haccepts : Accepts write contents) (st : CopyState τ) (copySize : ℕ)
    {hr : StreamResult} (hhr : hr.failed = false) (bytes : List UInt8) (source : StreamBuffer) :
    ∃ target, st.afterRead write copySize hr bytes source =
        { cb := if bytes.length ≠ copySize then 0 else st.cb - bytes.length
          hr := if bytes.length = 0 then hr else .sOk
          source
          target
          totalBytesRead := st.totalBytesRead + bytes.length
          totalBytesWritten := st.totalBytesWritten + bytes.length } ∧
      contents target = contents st.target ++ bytes := by
  unfold CopyState.afterRead
  rw [hhr, if_neg Bool.false_ne_true]
  dsimp only
  by_cases hzero : bytes.length = 0
  · refine ⟨st.target, ?_, ?_⟩
    · rw [if_pos hzero, if_pos hzero]
      dsimp only
      rw [hhr, if_neg Bool.false_ne_true, hzero]
      rfl
    · rw [List.length_eq_zero_iff.mp hzero, List.append_nil]
  · refine ⟨(write st.target bytes).2.2, ?_, (haccepts st.target bytes).2.2⟩
    rw [if_neg hzero, if_neg hzero, send_accepts haccepts]
    rfl

/-- **One turn** copies what was asked for, and goes on with the rest of the count, or what
is left, and is the last one. -/
theorem round_spec (haccepts : Accepts write contents) {st : CopyState τ} {n : ℕ} (hn : 0 < n)
    (hsource : ReadableSource st.source) : ∃ st', st.round write n = .ok st' ∧
      Copied contents st st' (min n (leftToRead st.source)) ∧
      (n ≤ leftToRead st.source → st'.hr = .sOk ∧ st'.cb = st.cb - n) ∧
      (leftToRead st.source < n → st'.cb = 0) := by
  have hread := read_within hn hsource.position hsource.buffer
  change st.source.read true n = .ok (if leftToRead st.source < n then .sFalse else .sOk,
    (st.source.m_buf.drop st.source.m_iWritePos).take (min n (leftToRead st.source)), _) at hread
  set k := min n (leftToRead st.source) with hk
  set bytes := (st.source.m_buf.drop st.source.m_iWritePos).take k with hbytes
  have hlen : bytes.length = k := by
    have hbuf := hsource.buffer
    rw [hbytes, List.length_take, List.length_drop]
    unfold leftToRead at hk
    omega
  have hfailed : (if leftToRead st.source < n then StreamResult.sFalse else .sOk).failed =
      false := by
    split <;> rfl
  have hround : st.round write n = .ok (st.afterRead write n
      (if leftToRead st.source < n then .sFalse else .sOk) bytes
      { st.source with m_iWritePos := st.source.m_iWritePos + k }) := by
    unfold CopyState.round
    rw [hread]
    rfl
  obtain ⟨target, hafter, happended⟩ := afterRead_accepts haccepts st n hfailed bytes
    { st.source with m_iWritePos := st.source.m_iWritePos + k }
  rw [hafter, hlen] at hround
  refine ⟨_, hround, ⟨rfl, happended, rfl, rfl⟩, fun hle => ⟨?_, ?_⟩, fun hlt => ?_⟩
  · dsimp only
    rw [if_neg (by omega)]
  · dsimp only
    rw [if_neg (by omega), hk, Nat.min_eq_left hle]
  · exact if_pos (by omega)

/-- INTERNAL: a turn that asks for nothing changes nothing. -/
theorem round_zero {st : CopyState τ} (hhr : st.hr = .sOk) : st.round write 0 = .ok st := by
  obtain ⟨cb, hr, source, target, read, written⟩ := st
  obtain rfl : hr = .sOk := hhr
  rfl

/-! ## The loop -/

/-- What the size of the next chunk has to meet, for a count and the bytes that are left: it
is not zero, not more than the count, and can go on so until the bytes are read. -/
structure Progressive (copySize : ℕ → ℕ) (good : ℕ → ℕ → Prop) : Prop where
  pos : ∀ {cb left}, good cb left → 0 < cb → 0 < copySize cb
  le : ∀ {cb left}, good cb left → copySize cb ≤ cb
  next : ∀ {cb left}, good cb left → copySize cb ≤ left → good (cb - copySize cb)
    (left - copySize cb)

/-- **The loop ends** where the chunks can go on, and has copied the count, or what was
left. -/
theorem loop_spec (haccepts : Accepts write contents) {copySize : ℕ → ℕ}
    {good : ℕ → ℕ → Prop} (hsize : Progressive copySize good) {st : CopyState τ}
    (hhr : st.hr = .sOk) (hsource : ReadableSource st.source) (hgood : good st.cb (leftToRead st.source)) :
    ∃ fuel st', CopyState.loop write copySize fuel st = .ok (some st') ∧
      Copied contents st st' (min st.cb (leftToRead st.source)) := by
  induction hcb : st.cb using Nat.strong_induction_on generalizing st with
  | _ cb ih =>
    rcases Nat.eq_zero_or_pos cb with rfl | hpos
    · refine ⟨1, st, ?_, ?_⟩
      · rw [CopyState.loop, if_neg (by omega)]
      · rw [Nat.zero_min]
        exact .refl st
    · have hn : 0 < copySize cb := hsize.pos (hcb ▸ hgood) hpos
      have hle : copySize cb ≤ cb := hsize.le (hcb ▸ hgood)
      obtain ⟨st₁, hround, hcopied, hfull, hshort⟩ := round_spec haccepts hn hsource
      have hturn : ∀ fuel, CopyState.loop write copySize (fuel + 1) st =
          CopyState.loop write copySize fuel st₁ := by
        intro fuel
        rw [CopyState.loop, if_pos ⟨by omega, hhr⟩, hcb, hround]
        rfl
      by_cases hleft : copySize cb ≤ leftToRead st.source
      · obtain ⟨hhr₁, hcb₁⟩ := hfull hleft
        rw [Nat.min_eq_left hleft] at hcopied
        obtain ⟨hread₁, hleft₁⟩ := hsource.advance hleft
        rw [← hcopied.source] at hread₁ hleft₁
        have hgood₁ : good st₁.cb (leftToRead st₁.source) := by
          rw [hcb₁, hleft₁, hcb]
          exact hsize.next (hcb ▸ hgood) hleft
        obtain ⟨fuel, st', hloop, hrest⟩ :=
          ih st₁.cb (by omega) hhr₁ hread₁ hgood₁ rfl
        refine ⟨fuel + 1, st', (hturn fuel).trans hloop, ?_⟩
        have hsum : min cb (leftToRead st.source) =
            copySize cb + min st₁.cb (leftToRead st₁.source) := by
          rw [hcb₁, hleft₁, hcb]
          omega
        rw [hsum]
        exact hcopied.trans hrest
      · have hcb₁ : st₁.cb = 0 := hshort (by omega)
        refine ⟨2, st₁, ?_, ?_⟩
        · rw [hturn, CopyState.loop, if_neg (by omega)]
        · have hmin : min cb (leftToRead st.source) =
              min (copySize cb) (leftToRead st.source) := by omega
          rw [hmin]
          exact hcopied

/-- INTERNAL: more fuel does not change the end of a loop. -/
theorem loop_mono {copySize : ℕ → ℕ} {fuel fuel' : ℕ} {st st' : CopyState τ}
    (hle : fuel ≤ fuel') (h : CopyState.loop write copySize fuel st = .ok (some st')) :
    CopyState.loop write copySize fuel' st = .ok (some st') := by
  induction fuel generalizing st fuel' with
  | zero => cases h
  | succ fuel ih =>
    obtain ⟨fuel', rfl⟩ : ∃ n, fuel' = n + 1 := ⟨fuel' - 1, by omega⟩
    rw [CopyState.loop] at h ⊢
    split at h
    · rename_i hgo
      rw [if_pos hgo]
      cases hround : st.round write (copySize st.cb) with
      | error e =>
        rw [hround] at h
        cases h
      | ok st₁ =>
        rw [hround] at h
        exact ih (by omega) h
    · rename_i hstop
      rw [if_neg hstop]
      exact h

/-- INTERNAL: a loop has one end. -/
theorem loop_unique {copySize : ℕ → ℕ} {fuel fuel' : ℕ} {st st₁ st₂ : CopyState τ}
    (h₁ : CopyState.loop write copySize fuel st = .ok (some st₁))
    (h₂ : CopyState.loop write copySize fuel' st = .ok (some st₂)) : st₁ = st₂ := by
  have h₁' := loop_mono (Nat.le_max_left fuel fuel') h₁
  rw [loop_mono (Nat.le_max_right fuel fuel') h₂] at h₁'
  exact (Option.some.inj (Except.ok.inj h₁')).symm

/-! ## The two ways to choose the chunks -/

/-- INTERNAL: `ISequentialStream_Copy` can always go on. -/
theorem sequentialCopySize_progressive : Progressive sequentialCopySize fun _ _ => True := by
  refine ⟨fun {cb left} _ hpos => ?_, fun {cb left} _ => ?_, fun _ _ => trivial⟩
  · unfold sequentialCopySize lowPart
    split <;> omega
  · unfold sequentialCopySize lowPart
    split <;> omega

/-- The counts with which `CopyTo` goes on: they have 32 bits, or the stream ends before the
lower half of the count does. -/
def CountEnds (cb left : ℕ) : Prop := cb < 2 ^ 32 ∨ left < lowPart cb

/-- INTERNAL: the chunks of `CopyTo` keep to that. -/
theorem copyToSize_progressive : Progressive copyToSize CountEnds := by
  refine ⟨fun {cb left} hgood hpos => ?_, fun {cb left} _ => ?_, fun {cb left} hgood hle => ?_⟩
  · unfold copyToSize CountEnds lowPart at *
    omega
  · unfold copyToSize lowPart
    omega
  · unfold copyToSize CountEnds lowPart at *
    omega

/-- INTERNAL: **where the lower half of the count ends first, the loop does not end**: it
comes to a count that is a multiple of 4 GB, and stays there. -/
theorem loop_copyTo_none (haccepts : Accepts write contents) {fuel : ℕ} {st : CopyState τ}
    (hhr : st.hr = .sOk) (hsource : ReadableSource st.source)
    (hgood : ¬ CountEnds st.cb (leftToRead st.source)) :
    CopyState.loop write copyToSize fuel st = .ok none := by
  induction fuel generalizing st with
  | zero => rfl
  | succ fuel ih =>
    obtain ⟨hbig, hlow⟩ : 2 ^ 32 ≤ st.cb ∧ lowPart st.cb ≤ leftToRead st.source := by
      unfold CountEnds at hgood
      omega
    rw [CopyState.loop, if_pos ⟨by omega, hhr⟩]
    rcases Nat.eq_zero_or_pos (copyToSize st.cb) with hzero | hpos
    · rw [hzero, round_zero hhr]
      exact ih hhr hsource hgood
    · obtain ⟨st₁, hround, hcopied, hfull, -⟩ := round_spec haccepts hpos hsource
      have hleft : copyToSize st.cb ≤ leftToRead st.source := by
        unfold copyToSize
        omega
      obtain ⟨hhr₁, hcb₁⟩ := hfull hleft
      rw [Nat.min_eq_left hleft] at hcopied
      obtain ⟨hread₁, hleft₁⟩ := hsource.advance hleft
      rw [← hcopied.source] at hread₁ hleft₁
      rw [hround]
      refine ih hhr₁ hread₁ ?_
      rw [hcb₁, hleft₁]
      unfold CountEnds copyToSize lowPart at *
      omega

/-! ## The functions -/

/-- INTERNAL: a stream at its start. -/
theorem readable_start {s : StreamBuffer} (hs : s.m_ulSize ≤ s.m_buf.length) :
    ReadableSource { s with m_iWritePos := 0 } ∧
      leftToRead { s with m_iWritePos := 0 } = lowPart s.m_ulSize :=
  ⟨⟨Nat.zero_le _, (Nat.mod_le _ _).trans hs⟩, rfl⟩

/-- INTERNAL: what `CopyTo` ends with is what its loop ends with. -/
theorem copyTo_eq_ok {fuel cb : ℕ} {s : StreamBuffer} {target : τ} {hr : StreamResult}
    {st : CopyState τ} (h : s.copyTo write fuel (some target) cb = .ok (some (hr, some st))) :
    ∃ st', CopyState.loop write copyToSize fuel (.start { s with m_iWritePos := 0 } target cb) =
        .ok (some st') ∧
      st = { st' with source := { st'.source with m_iWritePos := s.m_iWritePos } } := by
  unfold StreamBuffer.copyTo at h
  dsimp only at h
  cases hloop : CopyState.loop write copyToSize fuel
      (.start { s with m_iWritePos := 0 } target cb) with
  | error e =>
    rw [hloop] at h
    cases h
  | ok st? =>
    rw [hloop] at h
    cases st? with
    | none => cases h
    | some st' =>
      cases h
      exact ⟨st', rfl, rfl⟩

/-- INTERNAL: where its loop ends, `CopyTo` does. -/
theorem copyTo_of_loop {fuel cb : ℕ} {s : StreamBuffer} {target : τ} {st : CopyState τ}
    (h : CopyState.loop write copyToSize fuel (.start { s with m_iWritePos := 0 } target cb) =
      .ok (some st)) :
    s.copyTo write fuel (some target) cb = .ok (some (st.hr,
      some { st with source := { st.source with m_iWritePos := s.m_iWritePos } })) := by
  unfold StreamBuffer.copyTo
  dsimp only
  rw [h]
  rfl

/-- INTERNAL: from the start of a stream, a loop that ends copies the count, or what the
lower half of the size says. -/
theorem loop_start_spec (haccepts : Accepts write contents) {copySize : ℕ → ℕ}
    {good : ℕ → ℕ → Prop} (hsize : Progressive copySize good) {s : StreamBuffer}
    (hs : s.m_ulSize ≤ s.m_buf.length) (target : τ) {cb : ℕ}
    (hgood : good cb (lowPart s.m_ulSize)) :
    ∃ fuel st, CopyState.loop write copySize fuel
        (.start { s with m_iWritePos := 0 } target cb) = .ok (some st) ∧
      contents st.target =
        contents target ++ s.m_buf.take (min cb (lowPart s.m_ulSize)) ∧
      st.totalBytesRead = min cb (lowPart s.m_ulSize) ∧
      st.totalBytesWritten = min cb (lowPart s.m_ulSize) ∧
      { st.source with m_iWritePos := s.m_iWritePos } = s := by
  obtain ⟨hreadable, hleft⟩ := readable_start hs
  rw [← hleft] at hgood
  obtain ⟨fuel, st, hloop, hcopied⟩ : ∃ fuel st, CopyState.loop write copySize fuel
      (.start { s with m_iWritePos := 0 } target cb) = .ok (some st) ∧ Copied contents
        (.start { s with m_iWritePos := 0 } target cb) st
        (min cb (leftToRead { s with m_iWritePos := 0 })) :=
    loop_spec haccepts hsize rfl hreadable hgood
  refine ⟨fuel, st, hloop, hcopied.bytes, ?_, ?_, ?_⟩
  · exact hcopied.read.trans (Nat.zero_add _)
  · exact hcopied.written.trans (Nat.zero_add _)
  · rw [hcopied.source]
    rfl

/-- **Exactly when `CopyTo` does its work**, alone and as `ISequentialStream_Copy` does: the
count has 32 bits, or the stream ends within the lower half of the count; and the stream is
below 4 GB, or the count is within the lower half of its size. -/
theorem copiesFirst_iff (haccepts : Accepts write contents) {s : StreamBuffer}
    (hs : s.m_ulSize ≤ s.m_buf.length) (target : τ) (cb : ℕ) :
    CopiesFirst write contents s target cb ∧ CopiesAlike write contents s target cb ↔
      (cb < 2 ^ 32 ∨ lowPart s.m_ulSize < lowPart cb) ∧
        (s.m_ulSize < 2 ^ 32 ∨ cb ≤ lowPart s.m_ulSize) := by
  obtain ⟨hreadable, hleft⟩ := readable_start hs
  constructor
  · rintro ⟨⟨fuel, hr, st, hcopy, -, hread, -, -⟩, -⟩
    obtain ⟨st', hloop, rfl⟩ := copyTo_eq_ok hcopy
    have hends : CountEnds cb (lowPart s.m_ulSize) := by
      by_contra hnot
      rw [← hleft] at hnot
      have hnone : CopyState.loop write copyToSize fuel
          (.start { s with m_iWritePos := 0 } target cb) = .ok none :=
        loop_copyTo_none haccepts rfl hreadable hnot
      rw [hloop] at hnone
      cases hnone
    refine ⟨hends, ?_⟩
    -- the loop has one end, and there the lower half of the size has been copied
    obtain ⟨fuel', st'', hloop', -, htotal, -, -⟩ :=
      loop_start_spec haccepts copyToSize_progressive hs target hends
    obtain rfl := loop_unique hloop hloop'
    dsimp only at hread
    unfold lowPart at *
    omega
  · rintro ⟨hends, hsize⟩
    have hmin : min cb (lowPart s.m_ulSize) = min cb s.m_ulSize := by
      unfold lowPart at *
      omega
    obtain ⟨fuel, st, hloop, hbytes, hread, hwritten, hsource⟩ :=
      loop_start_spec haccepts copyToSize_progressive hs target hends
    obtain ⟨fuel', st', hloop', hbytes', hread', hwritten', -⟩ :=
      loop_start_spec haccepts sequentialCopySize_progressive hs target trivial
    refine ⟨⟨fuel, st.hr, _, copyTo_of_loop hloop, ?_, ?_, ?_, hsource⟩, fuel, st.hr, _, fuel',
      st'.hr, st', copyTo_of_loop hloop, ?_, ?_, ?_, ?_⟩
    · rw [List.take_take, ← hmin]
      exact hbytes
    · exact hread.trans hmin
    · exact hwritten.trans hmin
    · unfold iSequentialStreamCopy
      dsimp only
      rw [hloop']
      rfl
    · exact hbytes.trans hbytes'.symm
    · exact hread.trans hread'.symm
    · exact hwritten.trans hwritten'.symm

/-- A target that keeps what is written. -/
def appendBytes : WriteMethod (List UInt8) := fun t bs => (.sOk, bs.length, t ++ bs)

/-- A stream of three bytes. -/
def threeBytes : StreamBuffer := ⟨3, 1, 32, [1, 2, 3] ++ List.replicate 29 0⟩

/-- Two bytes are copied. -/
theorem threeBytes_copiesFirst :
    CopiesFirst appendBytes id threeBytes [] 2 ∧ CopiesAlike appendBytes id threeBytes [] 2 :=
  (copiesFirst_iff (fun _ _ => ⟨rfl, rfl, rfl⟩) (by decide) [] 2).mpr (by decide)

/-- The count of 4 GB is never used up, not even by an empty stream. -/
theorem fourGB_not_copied : ¬ ∀ (s : StreamBuffer) (cb : ℕ), s.m_ulSize ≤ s.m_buf.length →
    cb < 2 ^ 64 → CopiesFirst appendBytes id s [] cb := by
  intro h
  obtain ⟨fuel, hr, st, hcopy, -⟩ := h .new (2 ^ 32) (le_refl _) (by decide)
  obtain ⟨st', hloop, -⟩ := copyTo_eq_ok hcopy
  have haccepts : Accepts appendBytes id := fun _ _ => ⟨rfl, rfl, rfl⟩
  have hnot : ¬ CountEnds (2 ^ 32) (leftToRead { StreamBuffer.new with m_iWritePos := 0 }) := by
    unfold CountEnds
    decide
  have hnone : CopyState.loop appendBytes copyToSize fuel
      (.start { StreamBuffer.new with m_iWritePos := 0 } [] (2 ^ 32)) = .ok none :=
    loop_copyTo_none haccepts rfl (readable_start (Nat.le_refl 0)).1 hnot
  rw [hloop] at hnone
  cases hnone

end IspSession.Analysis
