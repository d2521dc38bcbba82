import IspSession.Model.CStream

/-!
# `CStream` with its counters

The class keeps its bytes in a buffer that is larger than the stream, and counts size,
position and length of the buffer on its own, in 64 bits; `Read` and the copying of memory
take the lower half of the counters only (CStream.cpp, CStream.h). Here memory that is
read or written outside the buffer is a fault, and so is a buffer that `vector::resize` refuses:
the methods are `noexcept`, and its exception ends the process.

`CStream` of the other modules is the byte file that this is meant to be; `CStream.perform`
gives it the same calls.
-/

set_option autoImplicit false

namespace IspSession.Model

open IspSession.Library

/-- What the methods of a stream return. -/
inductive StreamResult
  | sOk
  | sFalse
  | stgInvalidPointer
  | stgInvalidFunction
  | stgMediumFull
  deriving DecidableEq, Repr

/-- `FAILED` -/
def StreamResult.failed : StreamResult → Bool
  | .sOk | .sFalse => false
  | .stgInvalidPointer | .stgInvalidFunction | .stgMediumFull => true

/-- `STREAM_SEEK_SET`, `STREAM_SEEK_CUR`, `STREAM_SEEK_END`, and any other number. -/
inductive SeekOrigin
  | set
  | cur
  | fromEnd
  | other
  deriving DecidableEq, Repr

/-- Memory outside the buffer is accessed, or `resize` throws. -/
inductive StreamFault
  | outsideBuffer
  | resizeThrows
  deriving DecidableEq, Repr

/-- The calls; a pointer can be null. -/
inductive StreamCall
  | read (pv : Bool) (cb : ℕ)
  | write (pv : Option (List UInt8))
  | seek (dlibMove : ℤ) (dwOrigin : SeekOrigin)
  | setSize (libNewSize : ℕ)
  | stat
  deriving DecidableEq

/-- What a caller sees: the result, the bytes that were read, and the number of bytes
written, the new position or the size. -/
structure StreamAnswer where
  result : StreamResult
  bytes : List UInt8
  number : ℕ
  deriving DecidableEq, Repr

/-- The members of a `CStream`. -/
structure StreamBuffer where
  m_ulSize : ℕ
  m_iWritePos : ℕ
  m_ulLength : ℕ
  m_buf : List UInt8
  deriving DecidableEq

/-- `LowPart` of a counter. -/
def lowPart (n : ℕ) : ℕ := n % 2 ^ 32

/-- What a counter of 64 bits holds. -/
def quadPart (n : ℕ) : ℕ := n % 2 ^ 64

/-- `MEMALIGN_32` -/
def memAlign32 (cb : ℕ) : ℕ := if cb % 32 ≠ 0 then quadPart ((cb / 32 + 1) * 32) else cb

/-- What a build allows a `std::vector<BYTE>`: the width of `size_t`, and the most bytes that
`resize` takes, `max_size()` where there is as much memory. -/
structure VectorLimits where
  sizeBits : ℕ
  maxSize : ℕ
  fits : maxSize < 2 ^ sizeBits

/-- The Win32 build. -/
def VectorLimits.win32 : VectorLimits := ⟨32, 2 ^ 31 - 1, by decide⟩

/-- The x64 build. -/
def VectorLimits.x64 : VectorLimits := ⟨64, 2 ^ 63 - 1, by decide⟩

/-- A vector with more or fewer bytes. -/
def resized (buf : List UInt8) (n : ℕ) : List UInt8 :=
  buf.take n ++ List.replicate (n - buf.length) 0

/-- `vector::resize`, with the count cut by `static_cast<size_t>`. -/
def resizeBuffer (limits : VectorLimits) (buf : List UInt8) (n : ℕ) :
    Except StreamFault (List UInt8) :=
  if n % 2 ^ limits.sizeBits ≤ limits.maxSize then .ok (resized buf (n % 2 ^ limits.sizeBits))
  else .error .resizeThrows

namespace StreamBuffer

variable (limits : VectorLimits)

/-- `CStream::FinalConstruct` -/
def new : StreamBuffer := ⟨0, 0, 0, []⟩

/-- `memcpy` from the buffer. -/
def load (s : StreamBuffer) (i n : ℕ) : Except StreamFault (List UInt8) :=
  if i + n ≤ s.m_buf.length then .ok ((s.m_buf.drop i).take n) else .error .outsideBuffer

/-- `memcpy` to the buffer. -/
def store (s : StreamBuffer) (i : ℕ) (bs : List UInt8) : Except StreamFault StreamBuffer :=
  if i + bs.length ≤ s.m_buf.length then
    .ok { s with m_buf := s.m_buf.take i ++ bs ++ s.m_buf.drop (i + bs.length) }
  else .error .outsideBuffer

/-- `CStream::Read`: what is left is the difference of the lower halves, in 32 bits. -/
def read (s : StreamBuffer) (pv : Bool) (cb : ℕ) :
    Except StreamFault (StreamResult × List UInt8 × StreamBuffer) :=
  if pv = false then .ok (.stgInvalidPointer, [], s)
  else if cb = 0 then .ok (.sOk, [], s)
  else
    let cBytesLeft := lowPart (lowPart s.m_ulSize + 2 ^ 32 - lowPart s.m_iWritePos)
    let cBytesRead := if cb > cBytesLeft then cBytesLeft else cb
    if cBytesLeft = 0 then .ok (.sFalse, [], s)
    else do
      let bytes ← s.load (lowPart s.m_iWritePos) cBytesRead
      let m_iWritePos := s.m_iWritePos - lowPart s.m_iWritePos +
        lowPart (lowPart s.m_iWritePos + cBytesRead)
      return (if cb ≠ cBytesRead then .sFalse else .sOk, bytes, { s with m_iWritePos })

/-- The lines of `Write` that let the stream grow to the last byte. -/
def growSize (s : StreamBuffer) (last : ℕ) : StreamBuffer :=
  if last > s.m_ulSize then { s with m_ulSize := s.m_ulSize + (last - s.m_ulSize) } else s

/-- The lines of `Write` that enlarge the buffer. -/
def enlarge (s : StreamBuffer) (last : ℕ) : Except StreamFault StreamBuffer :=
  if last > s.m_ulLength then do
    let m_ulLength := memAlign32 (s.m_ulLength + (last - s.m_ulLength))
    let m_buf ← resizeBuffer limits s.m_buf m_ulLength
    return { s with m_ulLength, m_buf }
  else .ok s

/-- `CStream::Write` -/
def write (s : StreamBuffer) (pv : Option (List UInt8)) :
    Except StreamFault (StreamResult × ℕ × StreamBuffer) :=
  match pv with
  | none => .ok (.stgInvalidPointer, 0, s)
  | some bs =>
    if bs.length = 0 then .ok (.sOk, 0, s)
    else do
      let last := quadPart (s.m_iWritePos + bs.length)
      let s' ← (s.growSize last).enlarge limits last
      let s' ← s'.store (lowPart s.m_iWritePos) bs
      return (.sOk, bs.length, { s' with m_iWritePos := last })

/-- `Seek` to a position; the buffer is enlarged to reach it. -/
def moveTo (s : StreamBuffer) (m_iWritePos : ℕ) :
    Except StreamFault (StreamResult × ℕ × StreamBuffer) :=
  if m_iWritePos > s.m_ulLength then do
    let m_ulLength := memAlign32 m_iWritePos
    let m_buf ← resizeBuffer limits s.m_buf m_ulLength
    return (.sOk, m_iWritePos, { s with m_iWritePos, m_ulLength, m_buf })
  else .ok (.sOk, m_iWritePos, { s with m_iWritePos })

/-- `CStream::Seek`: from the end of the stream no offset is added. -/
def seek (s : StreamBuffer) (dlibMove : ℤ) (dwOrigin : SeekOrigin) :
    Except StreamFault (StreamResult × ℕ × StreamBuffer) :=
  match dwOrigin with
  | .set => s.moveTo limits (dlibMove % 2 ^ 64).toNat
  | .cur => s.moveTo limits ((s.m_iWritePos + dlibMove) % 2 ^ 64).toNat
  | .fromEnd => .ok (.sOk, s.m_ulSize, { s with m_iWritePos := s.m_ulSize })
  | .other => .ok (.stgInvalidFunction, 0, s)

/-- `CStream::SetSize` -/
def setSize (s : StreamBuffer) (libNewSize : ℕ) : Except StreamFault StreamBuffer := do
  let m_ulLength := memAlign32 libNewSize
  let m_buf ← resizeBuffer limits s.m_buf m_ulLength
  let m_iWritePos := if s.m_iWritePos > libNewSize then libNewSize else s.m_iWritePos
  return { m_ulSize := libNewSize, m_iWritePos, m_ulLength, m_buf }

/-- One call. -/
def perform (s : StreamBuffer) : StreamCall → Except StreamFault (StreamAnswer × StreamBuffer)
  | .read pv cb => do
    let (result, bytes, s) ← s.read pv cb
    return (⟨result, bytes, bytes.length⟩, s)
  | .write pv => do
    let (result, pcbWritten, s) ← s.write limits pv
    return (⟨result, [], pcbWritten⟩, s)
  | .seek dlibMove dwOrigin => do
    let (result, plibNewPosition, s) ← s.seek limits dlibMove dwOrigin
    return (⟨result, [], plibNewPosition⟩, s)
  | .setSize libNewSize => do
    let s ← s.setSize limits libNewSize
    return (⟨.sOk, [], 0⟩, s)
  | .stat => .ok (⟨.sOk, [], s.m_ulSize⟩, s)

/-- What is seen of a sequence of calls. -/
def observe : List StreamCall → StreamBuffer → Except StreamFault (List StreamAnswer)
  | [], _ => .ok []
  | call :: calls, s => do
    let (answer, s) ← s.perform limits call
    return answer :: (← observe calls s)

end StreamBuffer

/-! ## Copying -/

/-- `ISequentialStream::Write` of a stream that is copied to: the result and the number of
bytes written. -/
abbrev WriteMethod (τ : Type) := τ → List UInt8 → StreamResult × ℕ × τ

/-- The variables of the two copying loops. -/
structure CopyState (τ : Type) where
  cb : ℕ
  hr : StreamResult
  source : StreamBuffer
  target : τ
  totalBytesRead : ℕ
  totalBytesWritten : ℕ

namespace CopyState

variable {τ : Type} (write : WriteMethod τ)

/-- The lines of the loops that write what was read. -/
def send (st : CopyState τ) (bytes : List UInt8) : CopyState τ :=
  let (hr, bytesWritten, target) := write st.target bytes
  if hr.failed then { st with hr, target }
  else { st with hr, target, totalBytesWritten := st.totalBytesWritten + bytesWritten }

/-- The lines of the loops after `Read`. -/
def afterRead (st : CopyState τ) (copySize : ℕ) (hr : StreamResult) (bytes : List UInt8)
    (source : StreamBuffer) : CopyState τ :=
  if hr.failed then { st with hr, source }
  else
    let st := { st with hr, source, totalBytesRead := st.totalBytesRead + bytes.length }
    let st := if bytes.length = 0 then st else st.send write bytes
    if st.hr.failed then st
    else { st with cb := if bytes.length ≠ copySize then 0 else st.cb - bytes.length }

/-- The body of the loops, with the number of bytes to be read this time. -/
def round (st : CopyState τ) (copySize : ℕ) : Except StreamFault (CopyState τ) := do
  let (hr, bytes, source) ← st.source.read true copySize
  return st.afterRead write copySize hr bytes source

/-- The loops; without fuel there is no result. -/
def loop (copySize : ℕ → ℕ) : ℕ → CopyState τ → Except StreamFault (Option (CopyState τ))
  | 0, _ => .ok none
  | fuel + 1, st =>
    if st.cb > 0 ∧ st.hr = .sOk then do
      loop copySize fuel (← st.round write (copySize st.cb))
    else .ok (some st)

/-- Before the loops. -/
def start (source : StreamBuffer) (target : τ) (cb : ℕ) : CopyState τ where
  cb
  hr := .sOk
  source
  target
  totalBytesRead := 0
  totalBytesWritten := 0

end CopyState

/-- What copying ends with: the result, and the variables where the pointers are not null. -/
abbrev CopyEnd (τ : Type) := StreamResult × Option (CopyState τ)

/-- `copySize` of `CStream::CopyTo`: it looks at the lower half of the count. -/
def copyToSize (cb : ℕ) : ℕ := min (lowPart cb) 512

/-- `CStream::CopyTo`: it copies from the start and goes back to the position. -/
def StreamBuffer.copyTo {τ : Type} (write : WriteMethod τ) (fuel : ℕ) (s : StreamBuffer)
    (pstm : Option τ) (cb : ℕ) : Except StreamFault (Option (CopyEnd τ)) :=
  match pstm with
  | none => .ok (some (.stgInvalidPointer, none))
  | some target => do
    let st? ← CopyState.loop write copyToSize fuel (.start { s with m_iWritePos := 0 } target cb)
    return st?.map fun st =>
      (st.hr, some { st with source := { st.source with m_iWritePos := s.m_iWritePos } })

/-- `copySize` of `ISequentialStream_Copy`. -/
def sequentialCopySize (cb : ℕ) : ℕ := if cb ≥ 128 then 128 else lowPart cb

/-- `ISequentialStream_Copy`, from a `CStream`. -/
def iSequentialStreamCopy {τ : Type} (write : WriteMethod τ) (fuel : ℕ)
    (iface : Option StreamBuffer) (pstm : Option τ) (cb : ℕ) :
    Except StreamFault (Option (CopyEnd τ)) :=
  match iface, pstm with
  | some source, some target => do
    let st? ← CopyState.loop write sequentialCopySize fuel (.start source target cb)
    return st?.map fun st => (st.hr, some st)
  | _, _ => .ok (some (.stgInvalidPointer, none))

/-! ## The byte file -/

namespace CStream

/-- A call of the byte file: `STREAM_SEEK_END` counts from the size. -/
def perform (s : CStream) : StreamCall → StreamAnswer × CStream
  | .read false _ => (⟨.stgInvalidPointer, [], 0⟩, s)
  | .read true cb =>
    (⟨if (s.read cb).2.1.length < cb then .sFalse else .sOk, (s.read cb).2.1,
      (s.read cb).2.1.length⟩, (s.read cb).2.2)
  | .write none => (⟨.stgInvalidPointer, [], 0⟩, s)
  | .write (some bs) => (⟨.sOk, [], bs.length⟩, s.write bs)
  | .seek dlibMove .set => (⟨.sOk, [], dlibMove.toNat⟩, s.seekSet dlibMove.toNat)
  | .seek dlibMove .cur =>
    (⟨.sOk, [], (s.pos + dlibMove).toNat⟩, s.seekSet (s.pos + dlibMove).toNat)
  | .seek dlibMove .fromEnd =>
    (⟨.sOk, [], (s.buf.length + dlibMove).toNat⟩, s.seekSet (s.buf.length + dlibMove).toNat)
  | .seek _ .other => (⟨.stgInvalidFunction, [], 0⟩, s)
  | .setSize libNewSize => (⟨.sOk, [], 0⟩, s.setSize libNewSize)
  | .stat => (⟨.sOk, [], s.buf.length⟩, s)

/-- What is seen of a sequence of calls of the byte file. -/
def observe : List StreamCall → CStream → List StreamAnswer
  | [], _ => []
  | call :: calls, s => (s.perform call).1 :: observe calls (s.perform call).2

end CStream

end IspSession.Model
