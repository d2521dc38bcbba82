import IspSession.Model.CStream

/-!
# The value codec

Strings and variants are written to and read from a `CStream` by two classes with the
same code: `CVariantDictionary` (CVariantDictionary.cpp:456-766, 816-1077, 1237-1333)
and `CApplication` (Application.cpp:694-1415). The readers differ in one respect. The
dictionary hands on the result of every read, so that a short read becomes `S_FALSE`;
the application drops most of them. The flag `strict` marks the dictionary's reader.

What a variable holds before it is read into, and where the allocator puts a block, is
the parameter `Memory`. Streams and buffers are below 4 GB wherever a result speaks of
them.
-/

set_option autoImplicit false

namespace IspSession.Model

open IspSession.Library

/-- Memory the codec has not written to. -/
structure Memory where
  /-- The conversion buffer `m_lpstrMulti`. -/
  buffer : ℕ → UInt8
  /-- A `VARTYPE` on the stack. -/
  vartype : ℕ → UInt8
  /-- An `ARRAY_DESCRIPTOR` on the stack. -/
  descriptor : ℕ → UInt8
  /-- The padding of an `ARRAY_DESCRIPTOR` that is filled field by field. -/
  padding : BitVec 16
  /-- A block fresh from the heap. -/
  heap : ℕ → UInt8
  /-- The address of a block the allocator hands out. -/
  pointer : BitVec 64

/-- Memory that happens to hold zeros, for runs on concrete input. -/
def Memory.zero : Memory where
  buffer _ := 0
  vartype _ := 0
  descriptor _ := 0
  padding := 0
  heap _ := 0
  pointer := 0

/-- The first `n` bytes of such a region. -/
def uninit (region : ℕ → UInt8) (n : ℕ) : List UInt8 := (List.range n).map region

/-- A region holding `old` after `bs` has been copied to its start. -/
def overlay (old bs : List UInt8) : List UInt8 := bs ++ old.drop bs.length

/-- A stream together with the length of the conversion buffer. -/
structure Channel where
  stream : CStream
  m_currentBufLen : ℕ
  deriving DecidableEq

namespace Channel

def write (c : Channel) (pv : List UInt8) : Channel := { c with stream := c.stream.write pv }

def read (c : Channel) (cb : ℕ) : HResult × List UInt8 × Channel :=
  let (hr, bytes, stream) := c.stream.read cb
  (hr, bytes, { c with stream })

/-- `EnsureBuffer` (CVariantDictionary.cpp:1335-1344). The size arrives as an `INT`: one
from `2 ^ 31` on is negative and grows nothing. A new length that overflows cannot be
allocated, and the conversion that follows leaves the old buffer. -/
def ensureBuffer (c : Channel) (newBuffer : ℕ) : Run Channel :=
  if 2 ^ 31 ≤ newBuffer ∨ newBuffer ≤ c.m_currentBufLen then pure c
  else
    let m_currentBufLen := newBuffer / 512 * 512 + 1024
    if m_currentBufLen < 2 ^ 31 then pure { c with m_currentBufLen } else .error .fault

end Channel

/-! ## Strings -/

/-- `WriteString` (CVariantDictionary.cpp:1237-1271): the size in bytes of the UTF-8 form
and its bytes. -/
def writeString (theVal : Bstr) (c : Channel) : Run (HResult × Channel) :=
  if theVal = [] then pure (.sOk, c.write (leBytes 4 0))
  else
    let bytes := utf16ToUtf8 theVal
    -- the converter counts the terminating zero and cannot count past an `int`
    if 2 ^ 31 ≤ bytes.length + 1 then pure (.eFail, c)
    else do
      let c ← c.ensureBuffer (bytes.length + 1)
      pure (.sOk, (c.write (leBytes 4 bytes.length)).write bytes)

/-- `MultiByteToWideChar(CP_UTF8, 0, buffer, lTempSize, …)`: the size is an `int`, minus
one asks for the text up to the terminating zero, other negative sizes are refused. -/
def multiByteToWideChar (buffer : List UInt8) (lTempSize : ℕ) : Run (Option Bstr) :=
  if lTempSize < 2 ^ 31 then pure (some (utf8ToUtf16 (buffer.take lTempSize)))
  else if lTempSize = 2 ^ 32 - 1 then
    if 0 ∈ buffer then pure (some (utf8ToUtf16 (buffer.takeWhile (· != 0) ++ [0])))
    else .error .fault
  else pure none

/-- `ReadString` (CVariantDictionary.cpp:1276-1333, Application.cpp:694-745). The string
is `none` where `*retval` is left alone. -/
def readString (strict : Bool) (mem : Memory) (c : Channel) :
    Run (HResult × Option Bstr × Channel) :=
  let (hr, size, c) := c.read 4
  if hr ≠ .sOk then pure (hr, none, c)
  else
    let lTempSize := ofLeBytes size
    if lTempSize = 0 then pure (hr, some [], c)
    else do
      let c ← c.ensureBuffer lTempSize
      -- no buffer has been allocated: `Read` and the conversion refuse a null pointer
      if c.m_currentBufLen = 0 then pure (.eInvalidArg, none, c)
      else
        let (hrData, bytes, c) := c.read lTempSize
        if c.m_currentBufLen < bytes.length then .error .fault
        else
          let buffer := overlay (uninit mem.buffer c.m_currentBufLen) bytes
          match ← multiByteToWideChar buffer lTempSize with
          | none => pure (.eInvalidArg, none, c)
          | some s => pure (if strict then hrData else hr, some s, c)

/-! ## Writing values -/

/-- `ARRAY_DESCRIPTOR` (stdafx.h:62-67) as it lies in memory. -/
def arrayDescriptor (mem : Memory) (type : VarType) (elemSize dims : ℕ) : List UInt8 :=
  leBytes 2 type.toNat ++ leBytes 2 mem.padding.toNat ++ leBytes 4 elemSize ++ leBytes 4 dims

/-- The type name in front of an array's bounds. -/
def arrayTypeName (vcopy : VarType) : Bstr :=
  if vcopy = vtUnknown ∨ vcopy = vtError ∨ vcopy = vtVariant then Bstr.ofString "System.Object"
  else []

/-- `SAFEARRAYBOUND` as it lies in memory. -/
def SafeArrayBound.bytes (b : SafeArrayBound) : List UInt8 :=
  leBytes 4 b.cElements.toNat ++ leBytes 4 b.lLbound.toNat

/-- The part of `WriteValue` common to all arrays: descriptor, type name and bounds
(CVariantDictionary.cpp:483-532). -/
def writeArrayHeader (mem : Memory) (vcopy : VarType) (elSize : ℕ)
    (bounds : List SafeArrayBound) (c : Channel) : Run Channel := do
  let c := c.write (arrayDescriptor mem (vtArray ||| vcopy) elSize bounds.length)
  let (_, c) ← writeString (arrayTypeName vcopy) c
  pure (bounds.foldl (fun c b => c.write b.bytes) c)

/-- Running the carry loop over an array until `total` cells are found. -/
def walkArray {σ : Type} (go : σ → Bool) (visit : List (BitVec 32) → σ → Run σ)
    (bounds : List SafeArrayBound) (total : BitVec 32) (s : σ) : Run σ :=
  carryLoop.walk .fault .fuel go visit bounds total.toNat (2 * elementCount bounds + 1)
    (bounds.map carryLoop.lower) 0 s

/-- The strings of an array in memory order, until one fails
(CVariantDictionary.cpp:566-571). -/
def writeStrings : List Bstr → Channel → Run (HResult × Channel)
  | [], c => pure (.sOk, c)
  | s :: cells, c => do
    let (hr, c) ← writeString s c
    if hr = .sOk then writeStrings cells c else pure (hr, c)

/-- The cells of an array through the carry loop, each by its own writer; a bad index
leaves the function (CVariantDictionary.cpp:582-649). -/
def writeCells (bounds : List SafeArrayBound)
    (writers : List (Channel → Run (HResult × Channel))) (c : Channel) :
    Run (HResult × Channel) :=
  let lElements := longProduct bounds
  if (0#32).slt lElements then do
    let (hr, c, _) ← walkArray (fun s : HResult × Channel × Bool => !s.2.2) visit bounds
      lElements (.sOk, c, false)
    pure (hr, c)
  else pure (.sOk, c)
where
  visit (is : List (BitVec 32)) (s : HResult × Channel × Bool) :
      Run (HResult × Channel × Bool) :=
    match safeArrayPtrOfIndex bounds is with
    | none => pure (.badIndex, s.2.1, true)
    | some k =>
      match writers[k]? with
      | none => .error .fault
      | some w => do
        let (hr, c) ← w s.2.1
        pure (hr, c, false)

/-- A size and as many bytes: a persisted object (CVariantDictionary.cpp:727-752). -/
def writeStream (bytes : List UInt8) (c : Channel) : Channel :=
  (c.write (leBytes 4 bytes.length)).write bytes

/-- The object branch of `WriteValue` (CVariantDictionary.cpp:692-757): an object that
is not flagged as serialized is saved first, a flagged one must be a stream already.
What cannot be had as a stream is written as zero bytes. -/
def writeObject (isSerialized : Bool) (o : ComObject) (c : Channel) :
    Run (HResult × Channel) :=
  match isSerialized, o with
  | true, .packed bytes => pure (.sOk, writeStream bytes c)
  | true, .live _ _ => pure (.eNoInterface, c.write (leBytes 4 0))
  | true, .null => .error .fault
  | false, .live true (some bytes) => pure (.sOk, writeStream bytes c)
  | false, .live true none => pure (.eFail, c.write (leBytes 4 0))
  | false, _ => pure (.eInvalidArg, c.write (leBytes 4 0))

/-- The type `WriteValue` and `ReadValue` switch on: `vtype & (VT_ARRAY - 1)`. -/
def switchType (vtype : VarType) : VarType := vtype &&& 0x1FFF

/-- `WriteValue` of a variant whose payload need not be what its tag says: a payload
that would be followed as a pointer is a wild one. -/
def writeRaw (vtype : VarType) (payload : ℕ) (c : Channel) : Run (HResult × Channel) :=
  let bytes := leBytes 22 payload
  if vtype &&& vtArray = vtArray then .error .fault
  else if switchType vtype = vtEmpty ∨ switchType vtype = vtNull then pure (.sOk, c)
  else if switchType vtype = vtDecimal then
    let c := c.write (leBytes 2 vtype.toNat ++ bytes.take 14)
    pure (.sOk, if vtype = vtDecimal then c else c.write (bytes.drop 6))
  else if switchType vtype = vtBstr ∨ switchType vtype = vtDispatch ∨
      switchType vtype = vtUnknown then .error .fault
  else
    match ScalarType.ofVt (switchType vtype) with
    | some t => pure (.sOk, c.write ((bytes.drop 6).take t.size))
    | none => pure (.eInvalidArg, c)

/-- The writers of a `DECIMAL` array's cells: `WriteValue` takes each cell for a variant
and its reserved word for the tag. -/
def decimalCellWriters (count : ℕ) (data : List UInt8) :
    List (Channel → Run (HResult × Channel)) :=
  (List.range count).map fun k =>
    writeRaw (UInt16.ofNat (ofLeBytes ((data.drop (16 * k)).take 2)))
      (ofLeBytes ((data.drop (16 * k + 2)).take 22))

mutual

/-- `WriteValue` (CVariantDictionary.cpp:456-766, Application.cpp:1119-1410). -/
def writeValue (mem : Memory) (isSerialized : Bool) :
    Variant → Channel → Run (HResult × Channel)
  | .empty, c => pure (.sOk, c)
  | .null, c => pure (.sOk, c)
  | .scalar t bits, c => pure (.sOk, c.write (leBytes t.size bits.toNat))
  | .decimal d, c => pure (.sOk, c.write (leBytes 2 vtDecimal.toNat ++ leBytes 14 d.toNat))
  | .bstr s, c => writeString s c
  | .dispatch o, c => writeObject isSerialized o c
  | .unknown o, c => writeObject isSerialized o c
  | .blockArray t bounds data, c => do
    let c ← writeArrayHeader mem t.vt t.size bounds c
    let lMemSize := longProduct bounds * BitVec.ofNat 32 t.size
    pure (.sOk, if (0#32).slt lMemSize then c.write (data.take lMemSize.toNat) else c)
  | .bstrArray bounds cells, c => do
    let c ← writeArrayHeader mem vtBstr 8 bounds c
    let lElements := longProduct bounds
    if (0#32).slt lElements then writeStrings (cells.take lElements.toNat) c
    else pure (.sOk, c)
  | .variantArray bounds cells, c => do
    let c ← writeArrayHeader mem vtVariant 24 bounds c
    writeCells bounds (variantCellWriters mem isSerialized cells) c
  | .otherArray vt cbElements bounds data, c => do
    let c ← writeArrayHeader mem vt cbElements bounds c
    if vt = vtDecimal then
      writeCells bounds (decimalCellWriters (elementCount bounds) data) c
    else pure (.eInvalidArg, c)
  | .nullArray vt, c => do
    let c ← writeArrayHeader mem vt 0 [] c
    pure (.sOk, c)
  | .byrefArray a, c => writeValue mem isSerialized a c
  | .raw vt payload, c => writeRaw vt payload.toNat c

/-- The writers of a `VARIANT` array's cells: the tag, then the value. -/
def variantCellWriters (mem : Memory) (isSerialized : Bool) :
    List Variant → List (Channel → Run (HResult × Channel))
  | [] => []
  | v :: cells =>
    (fun c => writeValue mem isSerialized v (c.write (leBytes 2 v.vt.toNat))) ::
      variantCellWriters mem isSerialized cells

end

/-! ## Reading values -/

/-- What the reader keeps of a read's result. -/
def kept (strict : Bool) (hr : HResult) : HResult := if strict then hr else .sOk

/-- The end of `ReadValue`: a failed value is cleared. -/
def finished (hr : HResult) (v : Variant) (c : Channel) : HResult × Variant × Channel :=
  (hr, if hr.failed then .empty else v, c)

/-- `ReadValue` reading `cBytes` over the payload union of a variant whose tag carries
more than one of the types with a payload of their own (CVariantDictionary.cpp:1066-1067).
The union has sixteen bytes. -/
def readOverUnion (strict : Bool) (hr : HResult) (vtype : VarType) (pointer : BitVec 64)
    (cBytes : ℕ) (c : Channel) : Run (HResult × Variant × Channel) :=
  let (hrData, bytes, c) := c.read cBytes
  if 16 < bytes.length then .error .fault
  else
    let union := overlay (leBytes 8 pointer.toNat ++ List.replicate 8 0) bytes
    pure (if strict ∧ 0 < cBytes then hrData else hr,
      .raw vtype (BitVec.ofNat _ (256 ^ 6 * ofLeBytes union)), c)

/-- `ReadValue` of a value that is no array (CVariantDictionary.cpp:1005-1068,
Application.cpp:940-1008). -/
def readScalar (strict : Bool) (mem : Memory) (vtype : VarType) (c : Channel) :
    Run (HResult × Variant × Channel) :=
  if switchType vtype = vtEmpty ∨ switchType vtype = vtNull then
    pure (.sOk, .ofMemory vtype 0, c)
  else if switchType vtype = vtDecimal then
    let (hr, bytes, c) := c.read 16
    let value := overlay (leBytes 2 vtype.toNat ++ List.replicate 14 0) bytes
    let tag := UInt16.ofNat (ofLeBytes (value.take 2))
    let payload := ofLeBytes (value.drop 2)
    if vtype = vtDecimal then pure (kept strict hr, .ofMemory tag payload, c)
    else
      -- the size is not reset: sixteen more bytes go over the union
      let (hr, bytes, c) := c.read 16
      let payload := ofLeBytes (leBytes 6 payload ++
        overlay ((leBytes 22 payload).drop 6) bytes)
      pure (kept strict hr, .raw tag (BitVec.ofNat _ payload), c)
  else if switchType vtype = vtBstr then do
    let (hr, s, c) ← readString strict mem c
    if vtype = vtBstr then pure (finished hr (.bstr (s.getD [])) c)
    else do
      let pointer := if s.isSome then mem.pointer else 0
      let (hr, v, c) ← readOverUnion strict hr vtype pointer (2 * (s.getD []).length) c
      pure (finished hr v c)
  else if switchType vtype = vtDispatch ∨ switchType vtype = vtUnknown then
    let (_, size, c) := c.read 4
    let cBytes := BitVec.ofNat 32 (ofLeBytes size)
    if (0#32).slt cBytes then
      let (_, bytes, c) := c.read cBytes.toNat
      let stream := ComObject.packed (overlay (uninit mem.heap cBytes.toNat) bytes)
      if vtype = vtDispatch then pure (.sOk, .dispatch stream, c)
      else if vtype = vtUnknown then pure (.sOk, .unknown stream, c)
      else readOverUnion strict .sOk vtype mem.pointer cBytes.toNat c
    else pure (.sFalse, .empty, c)
  else
    match ScalarType.ofVt (switchType vtype) with
    | some t =>
      let (hr, bytes, c) := c.read t.size
      pure (kept strict hr, .ofMemory vtype (256 ^ 6 * ofLeBytes bytes), c)
    | none => pure (.eInvalidArg, .empty, c)

/-- The bounds of an array and the number of its cells. The dictionary multiplies only
the extents that were read whole (CVariantDictionary.cpp:873-883). -/
def readBounds (strict : Bool) :
    ℕ → BitVec 32 → Channel → List SafeArrayBound × BitVec 32 × Channel
  | 0, lMemSize, c => ([], lMemSize, c)
  | dims + 1, lMemSize, c =>
    let (hr, bytes, c) := c.read 8
    let b : SafeArrayBound :=
      { cElements := BitVec.ofNat 32 (ofLeBytes (bytes.take 4))
        lLbound := BitVec.ofNat 32 (ofLeBytes (bytes.drop 4)) }
    let (bounds, lMemSize, c) :=
      readBounds strict dims (if strict ∧ hr ≠ .sOk then lMemSize else lMemSize * b.cElements) c
    (b :: bounds, lMemSize, c)

/-- The state of the loop that fills an array's cells. -/
abbrev CellState (α : Type) := HResult × α × Channel

/-- The loop condition `hr == S_OK`. -/
def CellState.go {α : Type} (s : CellState α) : Bool := decide (s.1 = .sOk)

/-- One round of the loop over a `VARIANT` array (CVariantDictionary.cpp:937-957). -/
def readVariantCell (strict : Bool) (mem : Memory) (bounds : List SafeArrayBound)
    (readValue : VarType → Channel → Run (HResult × Variant × Channel))
    (is : List (BitVec 32)) (s : CellState (List Variant)) : Run (CellState (List Variant)) :=
  match safeArrayPtrOfIndex bounds is with
  | none => pure (.badIndex, s.2)
  | some k =>
    let (hr, bytes, c) := s.2.2.read 2
    if kept strict hr = .sOk then do
      let vt2 := UInt16.ofNat (ofLeBytes (overlay (uninit mem.vartype 2) bytes))
      let (hr, v, c) ← readValue vt2 c
      pure (hr, s.2.1.set k v, c)
    else pure (hr, s.2.1, c)

/-- One round of the loop over a `BSTR` array: the result of the indexing is lost
(CVariantDictionary.cpp:958-963). -/
def readBstrCell (strict : Bool) (mem : Memory) (bounds : List SafeArrayBound)
    (is : List (BitVec 32)) (s : CellState (List Bstr)) : Run (CellState (List Bstr)) := do
  let (hr, text, c) ← readString strict mem s.2.2
  match safeArrayPtrOfIndex bounds is, text with
  | some k, some text => pure (hr, s.2.1.set k text, c)
  | none, some _ => .error .fault
  | _, none => pure (hr, s.2.1, c)

/-- One round of the loop over a `DECIMAL` array. `ReadValue` clears the twenty-four
bytes of a variant, eight more than a cell has: behind the last cell that is past the
array's data. -/
def readDecimalCell (strict : Bool) (bounds : List SafeArrayBound)
    (is : List (BitVec 32)) (s : CellState (List UInt8)) : Run (CellState (List UInt8)) :=
  match safeArrayPtrOfIndex bounds is with
  | none => pure (.badIndex, s.2)
  | some k =>
    if k + 1 = elementCount bounds then .error .fault
    else
      let (hr, bytes, c) := s.2.2.read 16
      let cell := overlay (leBytes 2 vtDecimal.toNat ++ List.replicate 14 0) bytes
      pure (kept strict hr, s.2.1.take (16 * k) ++
        overlay (s.2.1.drop (16 * k)) (cell ++ List.replicate 8 0), c)

/-- The cells of an array that `SafeArrayCreate` has made
(CVariantDictionary.cpp:890-1003). -/
def readCells (strict : Bool) (mem : Memory)
    (readValue : VarType → Channel → Run (HResult × Variant × Channel)) (vtype : VarType)
    (bounds : List SafeArrayBound) (cbElements : ℕ) (lElements elSize : BitVec 32)
    (c : Channel) : Run (HResult × Variant × Channel) :=
  let count := elementCount bounds
  let filled := (0#32).slt lElements
  if vtype = vtVariant then
    let cells := List.replicate count Variant.empty
    if filled then do
      let (hr, cells, c) ← walkArray CellState.go
        (readVariantCell strict mem bounds readValue) bounds lElements (.sOk, cells, c)
      pure (finished hr (.variantArray bounds cells) c)
    else pure (.sOk, .variantArray bounds cells, c)
  else if vtype = vtBstr then
    let cells := List.replicate count []
    if filled then do
      let (hr, cells, c) ← walkArray CellState.go
        (readBstrCell strict mem bounds) bounds lElements (.sOk, cells, c)
      pure (finished hr (.bstrArray bounds cells) c)
    else pure (.sOk, .bstrArray bounds cells, c)
  else
    let data := List.replicate (count * cbElements) 0
    if vtype = vtDecimal then
      if filled then do
        let (hr, data, c) ← walkArray CellState.go
          (readDecimalCell strict bounds) bounds lElements (.sOk, data, c)
        pure (finished hr (.otherArray vtype cbElements bounds data) c)
      else pure (.sOk, .otherArray vtype cbElements bounds data, c)
    else
      match ScalarType.ofVt vtype with
      | some t =>
        if t.isBlock then
          let (_, bytes, c) := c.read (lElements * elSize).toNat
          if count * cbElements < bytes.length then .error .fault
          else pure (.sOk, .blockArray t bounds (overlay data bytes), c)
        else pure (.sOk, .otherArray vtype cbElements bounds data, c)
      | none => pure (.sOk, .otherArray vtype cbElements bounds data, c)

/-- `ReadValue` of an array (CVariantDictionary.cpp:832-1003, Application.cpp:768-936),
the cells of a `VARIANT` array by `readValue`. -/
def readArray (loc : Collation) (strict : Bool) (mem : Memory)
    (readValue : VarType → Channel → Run (HResult × Variant × Channel)) (c : Channel) :
    Run (HResult × Variant × Channel) := do
  let (_, bytes, c) := c.read 12
  let descriptor := overlay (uninit mem.descriptor 12) bytes
  let vtype := UInt16.ofNat (ofLeBytes (descriptor.take 2)) ^^^ vtArray
  let elSize := BitVec.ofNat 32 (ofLeBytes ((descriptor.drop 4).take 4))
  let cDims := BitVec.ofNat 32 (ofLeBytes (descriptor.drop 8))
  let doGetType : Bool := vtype = vtUnknown ∨ vtype = vtError ∨ vtype = vtVariant
  let (_, name, c) ← readString strict mem c
  let name := name.getD []
  let systemObject := Bstr.ofString "System.Object"
  if doGetType ∧ ¬ (systemObject.length ≤ name.length ∧
      loc.equalText (name.take systemObject.length) systemObject) then
    pure (.eInvalidArg, .empty, c)
  else do
    let c ← if ¬ doGetType ∧ loc.sameText name (Bstr.ofString "__jagged") then do
        let (_, _, c) ← readString strict mem c
        pure c
      else pure c
    if elSize = 0 ∨ cDims = 0 then pure (.sOk, .empty, c)
    -- `resize` throws out of a `noexcept` function
    else if cDims.slt 0 then .error .fault
    else
      let (bounds, lElements, c) := readBounds strict cDims.toNat 1 c
      match safeArrayCreate vtype bounds with
      | none => pure (.sOk, .empty, c)
      | some cbElements =>
        readCells strict mem readValue vtype bounds cbElements lElements elSize c

/-- `ReadValue` (CVariantDictionary.cpp:816-1077, Application.cpp:752-1017), `fuel` deep. -/
def readValue (loc : Collation) (strict : Bool) (mem : Memory) :
    ℕ → VarType → Channel → Run (HResult × Variant × Channel)
  | 0, _, _ => .error .fuel
  | fuel + 1, vtype, c =>
    if vtype &&& vtArray = vtArray then
      readArray loc strict mem (readValue loc strict mem fuel) c
    else readScalar strict mem vtype c

end IspSession.Model
