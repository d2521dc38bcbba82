import IspSession.Model.Application

/-!
# The copies of the decoder

`CStream::Read` copies into whatever pointer it is given, as many bytes as are asked for and
left. The decoders hand it two destinations whose size depends on the input: the conversion
buffer `m_lpstrMulti`, which `ReadString` grows by `EnsureBuffer` (CVariantDictionary.cpp:
1276-1344, Application.cpp:694-745), and the data area of an array, which `ReadValue` fills
with the product of the extents and the element size it has read (CVariantDictionary.cpp:
873-913, Application.cpp:812-848).

The functions below follow the readers of `Codec`, `VariantDictionary` and `Application` and
list these copies, each with what the code had in hand when it made it. The list ends where
the reader is stuck.
-/

set_option autoImplicit false

namespace IspSession.Model

open IspSession.Library

variable {loc : Collation}

/-- A copy the decoder asks `CStream::Read` for, with the bytes left in the stream. -/
inductive Copy
  /-- A string: its size prefix and the length of the buffer before `EnsureBuffer`. -/
  | text (lTempSize m_currentBufLen left : ℕ)
  /-- An array: the bounds it was created with, the element size of its descriptor and the
  product of the extents that were read. -/
  | block (type : ScalarType) (bounds : List SafeArrayBound) (elSize lElements : BitVec 32)
      (left : ℕ)

namespace Copy

/-- The length `EnsureBuffer` leaves: the size is taken for an `INT`, and a length past the
largest one cannot be allocated, which leaves the old buffer. -/
def ensured (lTempSize m_currentBufLen : ℕ) : ℕ :=
  if 2 ^ 31 ≤ lTempSize ∨ lTempSize ≤ m_currentBufLen then m_currentBufLen
  else if lTempSize / 512 * 512 + 1024 < 2 ^ 31 then lTempSize / 512 * 512 + 1024
  else m_currentBufLen

/-- The bytes the destination holds. -/
def holds : Copy → ℕ
  | .text lTempSize m_currentBufLen _ => ensured lTempSize m_currentBufLen
  | .block type bounds _ _ _ => elementCount bounds * type.size

/-- The count given to `CStream::Read`: for an array `lMemSize`, a product of `LONG`s that
`Read` takes for a `ULONG`. -/
def cb : Copy → ℕ
  | .text lTempSize _ _ => lTempSize
  | .block _ _ elSize lElements _ => (lElements * elSize).toNat

/-- The bytes left in the stream. -/
def left : Copy → ℕ
  | .text _ _ left => left
  | .block _ _ _ _ left => left

/-- The bytes `CStream::Read` copies. -/
def cBytesRead (copy : Copy) : ℕ := min copy.cb copy.left

end Copy

/-- The visits the carry loop makes to the cells of an array (`walkArray`). -/
def cellVisits {σ : Type} (go : σ → Bool) (visit : List (BitVec 32) → σ → Run σ)
    (bounds : List SafeArrayBound) (total : BitVec 32) (s : σ) : List (List (BitVec 32) × σ) :=
  carryLoop.visits go visit bounds total.toNat (2 * elementCount bounds + 1)
    (bounds.map carryLoop.lower) 0 s

/-- The copy of `ReadString`. A buffer that has never been allocated is a null pointer, which
`Read` refuses. -/
def stringCopies (c : Channel) : List Copy :=
  let (hr, size, c) := c.read 4
  if hr ≠ .sOk then []
  else
    let lTempSize := ofLeBytes size
    if lTempSize = 0 then []
    else
      let copy := Copy.text lTempSize c.m_currentBufLen c.stream.rest.length
      if copy.holds = 0 then [] else [copy]

/-- The copies of one round of the loop over a `VARIANT` array. -/
def variantCellCopies (strict : Bool) (mem : Memory) (bounds : List SafeArrayBound)
    (valueCopies : VarType → Channel → List Copy)
    (v : List (BitVec 32) × CellState (List Variant)) : List Copy :=
  match safeArrayPtrOfIndex bounds v.1 with
  | none => []
  | some _ =>
    let (hr, bytes, c) := v.2.2.2.read 2
    if kept strict hr = .sOk then
      valueCopies (UInt16.ofNat (ofLeBytes (overlay (uninit mem.vartype 2) bytes))) c
    else []

/-- The copies of `readCells`. -/
def cellCopies (strict : Bool) (mem : Memory)
    (readValue : VarType → Channel → Run (HResult × Variant × Channel))
    (valueCopies : VarType → Channel → List Copy) (vtype : VarType)
    (bounds : List SafeArrayBound) (lElements elSize : BitVec 32) (c : Channel) : List Copy :=
  let count := elementCount bounds
  let filled := (0#32).slt lElements
  if vtype = vtVariant then
    if filled then
      (cellVisits CellState.go (readVariantCell strict mem bounds readValue) bounds lElements
        (.sOk, List.replicate count .empty, c)).flatMap
          (variantCellCopies strict mem bounds valueCopies)
    else []
  else if vtype = vtBstr then
    if filled then
      (cellVisits CellState.go (readBstrCell strict mem bounds) bounds lElements
        (.sOk, List.replicate count [], c)).flatMap fun v => stringCopies v.2.2.2
    else []
  else
    match ScalarType.ofVt vtype with
    | some t => if t.isBlock then [.block t bounds elSize lElements c.stream.rest.length] else []
    | none => []

/-- The copies of `readArray`. -/
def arrayCopies (loc : Collation) (strict : Bool) (mem : Memory)
    (readValue : VarType → Channel → Run (HResult × Variant × Channel))
    (valueCopies : VarType → Channel → List Copy) (c : Channel) : List Copy :=
  let (_, bytes, c) := c.read 12
  let descriptor := overlay (uninit mem.descriptor 12) bytes
  let vtype := UInt16.ofNat (ofLeBytes (descriptor.take 2)) ^^^ vtArray
  let elSize := BitVec.ofNat 32 (ofLeBytes ((descriptor.drop 4).take 4))
  let cDims := BitVec.ofNat 32 (ofLeBytes (descriptor.drop 8))
  let doGetType : Bool := vtype = vtUnknown ∨ vtype = vtError ∨ vtype = vtVariant
  let systemObject := Bstr.ofString "System.Object"
  let bodyCopies (c : Channel) : List Copy :=
    if elSize = 0 ∨ cDims = 0 ∨ cDims.slt 0 then []
    else
      let (bounds, lElements, c) := readBounds strict cDims.toNat 1 c
      match safeArrayCreate vtype bounds with
      | none => []
      | some _ => cellCopies strict mem readValue valueCopies vtype bounds lElements elSize c
  stringCopies c ++
    match readString strict mem c with
    | .error _ => []
    | .ok (_, name, c) =>
      let name := name.getD []
      if doGetType ∧ ¬ (systemObject.length ≤ name.length ∧
          loc.equalText (name.take systemObject.length) systemObject) then []
      else if ¬ doGetType ∧ loc.sameText name (Bstr.ofString "__jagged") then
        stringCopies c ++
          match readString strict mem c with
          | .error _ => []
          | .ok (_, _, c) => bodyCopies c
      else bodyCopies c

/-- The copies of `ReadValue`, `fuel` deep. -/
def valueCopies (loc : Collation) (strict : Bool) (mem : Memory) :
    ℕ → VarType → Channel → List Copy
  | 0, _, _ => []
  | fuel + 1, vtype, c =>
    if vtype &&& vtArray = vtArray then
      arrayCopies loc strict mem (readValue loc strict mem fuel)
        (valueCopies loc strict mem fuel) c
    else if switchType vtype = vtBstr then stringCopies c
    else []

namespace VariantDictionary

/-- The copies of `ReadProperty`. -/
def propertyCopies (mem : Memory) (l : Loading loc) : List Copy :=
  stringCopies l.channel ++
    match readString true mem l.channel with
    | .error _ => []
    | .ok (hr, _, c) =>
      if hr = .sOk then
        let (_, _, c) := c.read 4
        let (_, bytes, c) := c.read 2
        let vtype := UInt16.ofNat (ofLeBytes (overlay (uninit mem.vartype 2) bytes))
        valueCopies loc true mem (l.stream.buf.length + 2) vtype c
      else []

/-- The copies of the loop of `LocalLoad` over `n` more properties. -/
def propertiesCopies (mem : Memory) : ℕ → HResult → Loading loc → List Copy
  | 0, _, _ => []
  | n + 1, hr, l =>
    if hr = .sOk then
      propertyCopies mem l ++
        match readProperty mem l with
        | .error _ => []
        | .ok (hr, key, val, l) =>
          match val.copy with
          | .error _ => []
          | .ok hrCopy =>
            if hrCopy.failed then propertiesCopies mem n hrCopy l
            else
              propertiesCopies mem n hr
                { l with d := { l.d with dictionary := l.d.dictionary.insert key val } }
    else []

/-- The copies of `LocalLoad`. -/
def localLoadCopies (mem : Memory) (d : VariantDictionary loc) (pStream : Option CStream)
    (lSize : ℕ) : List Copy :=
  if lSize = 0 then []
  else
    match pStream with
    | none => []
    | some stream =>
      propertyCopies mem { d, stream } ++
        match readProperty mem { d, stream } with
        | .error _ => []
        | .ok (_, stemp, varTemp, l) =>
          let m_lVDictElements := varTemp.intVal mem.pointer
          if ¬ loc.sameText stemp elsName ∨ m_lVDictElements.slt 0 ∨
              BitVec.slt 32767 m_lVDictElements then []
          else
            propertiesCopies mem m_lVDictElements.toNat .sOk { l with d := l.d.removeAll }

end VariantDictionary

/-- The copies of `DeserializeKey`. -/
def CApplication.deserializeCopies (mem : Memory) (a : CApplication loc) (binaryString : Bytes) :
    List Copy :=
  let c : Channel := ⟨⟨binaryString, 0⟩, a.m_currentBufLen⟩
  stringCopies c ++
    match readString false mem c with
    | .error _ => []
    | .ok (hr, _, c) =>
      if hr.failed then []
      else
        let (_, tag, c) := c.read 2
        let vt := UInt16.ofNat (ofLeBytes (overlay [0, 0] tag))
        valueCopies loc false mem (binaryString.length + 2) vt c

/-- What a decoder can be asked to read: a string or a value from any state of the stream and
the buffer, a session's payload, a record of the application. -/
inductive Decoding (loc : Collation)
  | readString (strict : Bool) (c : Channel)
  | readValue (strict : Bool) (fuel : ℕ) (vtype : VarType) (c : Channel)
  | localLoad (d : VariantDictionary loc) (pStream : Option CStream) (lSize : ℕ)
  | deserializeKey (a : CApplication loc) (binaryString : Bytes)

namespace Decoding

/-- Its copies. -/
def copies (mem : Memory) : Decoding loc → List Copy
  | .readString _ c => stringCopies c
  | .readValue strict fuel vtype c => valueCopies loc strict mem fuel vtype c
  | .localLoad d pStream lSize => d.localLoadCopies mem pStream lSize
  | .deserializeKey a binaryString => a.deserializeCopies mem binaryString

/-- How its run is stuck, if it is. -/
def stuck (mem : Memory) : Decoding loc → Option Stuck
  | .readString strict c => failure (Model.readString strict mem c)
  | .readValue strict fuel vtype c => failure (Model.readValue loc strict mem fuel vtype c)
  | .localLoad d pStream lSize => failure (d.localLoad mem pStream lSize)
  | .deserializeKey a binaryString => failure (a.deserializeKey mem binaryString)
where
  failure {α : Type} : Run α → Option Stuck
    | .ok _ => none
    | .error e => some e

end Decoding

end IspSession.Model
