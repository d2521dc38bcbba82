import IspSession.Model.NetValue

/-!
# The managed codec (StreamManager.cs)

`writeValue` and `readValue`, with the strings and the objects they write and read. A writer
is a function on the stream: `_memoryBuff` is where it forms what it sends, and nothing else
ever reads it. A reader has the buffer as part of its state, since a short read leaves in it
what was there before.

A `MemoryStream` is a buffer with one position for reading and writing, like the component's
`CStream`; streams are below 2 GB wherever the results speak of them.
-/

set_option autoImplicit false

namespace IspSession.Model

open IspSession.Library

/-- A `MemoryStream`. -/
abbrev MemoryStream := CStream

/-- The loaders of objects. -/
structure NetLoaders where
  /-- `OleLoadFromStream` and, where that gives none, `OleLoadFromStream2`. -/
  oleLoad : Bytes → NetRun NetValue
  /-- `BinaryFormatter.Deserialize`. -/
  deserialize : Bytes → NetRun NetValue

/-- The types whose arrays are copied as one block (StreamManager.cs:415-419, 783-786). -/
def isBlockType (vT : VarType) : Bool :=
  vT ∈ [16, 18, 17, 2, 3, 21, 19, 4, 5, 6, 7, 11, 20]

/-- An array of these types is named by its element type (StreamManager.cs:386, 735). -/
def isObjectType (vT : VarType) : Bool := vT ∈ [vtUnknown, vtError, vtVariant]

/-- `EnsureMemory` allocates blocks of 4 KB, and no block past the range of an `int`
(StreamManager.cs:46-54). -/
def memoryBlock (required : ℕ) : NetRun ℕ :=
  if required < 0x7FFFF000 then .ok ((required / 0x1000 + 1) * 0x1000) else .error .overflow

/-! ## Writing -/

/-- `WriteString` (StreamManager.cs:331-355); null is written like the empty string. -/
def StreamManager.writeString (value : Bstr) (str : MemoryStream) : NetRun MemoryStream :=
  if value = [] then .ok (str.write (leBytes 4 0))
  else do
    let bytes := utf16ToUtf8 value
    let _ ← memoryBlock (bytes.length + 4)
    pure (str.write (leBytes 4 bytes.length ++ bytes))

/-- `WriteStruct` of an `ARRAY_DESCRIPTOR`, whose padding is zero. -/
def descriptorBytes (type : VarType) (ElemSize Dims : ℕ) : Bytes :=
  leBytes 2 type.toNat ++ leBytes 2 0 ++ leBytes 4 ElemSize ++ leBytes 4 Dims

/-- The name of an array's element type, where it is needed (StreamManager.cs:386-401). -/
def StreamManager.writeTypeName (rt : NetRuntime) (element : NetType) (str : MemoryStream) :
    NetRun MemoryStream :=
  if isObjectType ((vtArray ||| element.vt) ^^^ vtArray) then
    writeString (rt.assemblyQualifiedName element) str
  else if element.isArray then do
    let str ← writeString (Bstr.ofString "__jagged") str
    writeString element.fullName str
  else writeString [] str

/-- What stands in front of an array's cells: the descriptor, the type name and the bounds
(StreamManager.cs:360-411). -/
def StreamManager.writeArrayHeader (rt : NetRuntime) (element : NetType)
    (dims : List SafeArrayBound) (str : MemoryStream) : NetRun MemoryStream := do
  let vT := (vtArray ||| element.vt) ^^^ vtArray
  let str := str.write (descriptorBytes (vtArray ||| element.vt) (getElementSize vT) dims.length)
  let str ← writeTypeName rt element str
  pure (dims.foldl (fun str b => str.write b.bytes) str)

/-- The bytes of an array's cells in memory. -/
def memoryImage {n : ℕ} (size : ℕ) (cells : Fin n → BitVec (8 * size)) : Bytes :=
  (List.ofFn cells).flatMap fun bits => leBytes size bits.toNat

/-- An array's block of cells goes out by `Buffer.BlockCopy`, which refuses to copy more than
the array has (StreamManager.cs:421-427). -/
def StreamManager.writeBlock (data : Bytes) (lMemSize : BitVec 32) (str : MemoryStream) :
    NetRun MemoryStream :=
  if lMemSize.slt 0 then .error .argumentOutOfRange
  else do
    let _ ← memoryBlock lMemSize.toNat
    if data.length < lMemSize.toNat then .error .argument
    else pure (str.write (data.take lMemSize.toNat))

/-- The index arithmetic of the writer's carry loop: the carry's limit is a `long`
(StreamManager.cs:438-480). -/
def netCarryLoop : Odometer SafeArrayBound (BitVec 32) where
  lower b := b.lLbound
  next i := i + 1
  inside b i := i.slt (b.cElements + b.lLbound)
  below b i := decide (i.toInt < b.cElements.toNat + b.lLbound.toInt - 1)

/-- More rounds than a carry loop can make. -/
def boxRounds (dims : List SafeArrayBound) : ℕ :=
  2 * Odometer.count (fun b : SafeArrayBound => b.cElements.toNat + 1) dims

/-- The loops over the cells of an array, which end when `lElements` are found. -/
def walkCells {σ : Type} (loop : Odometer SafeArrayBound (BitVec 32))
    (visit : List (BitVec 32) → σ → NetRun σ) (dims : List SafeArrayBound)
    (lElements : BitVec 32) (s : σ) : NetRun σ :=
  loop.walk .indexOutOfRange .fuel (fun _ => true) visit dims lElements.toNat (boxRounds dims)
    (dims.map loop.lower) 0 s

/-- One round of the writer's loop: `GetValue`, and what is written for the cell. -/
def writeCell (bounds : ArrayBounds)
    (write : Fin bounds.count → MemoryStream → NetRun MemoryStream)
    (rgIndices : List (BitVec 32)) (str : MemoryStream) : NetRun MemoryStream :=
  match bounds.cell rgIndices with
  | some i => write i str
  | none => .error .indexOutOfRange

/-- A length and as many bytes (StreamManager.cs:589-590, 641-642). -/
def writeBlob (bytes : Bytes) (str : MemoryStream) : MemoryStream :=
  (str.write (leBytes 4 bytes.length)).write bytes

/-- An object of the runtime: the length of what the formatter makes of it, the two bytes that
mark it, and that (StreamManager.cs:646-665). An object that is not serializable leaves
nothing. -/
def writeFormatted (formatted : Option Bytes) (str : MemoryStream) : MemoryStream :=
  match formatted with
  | some bytes => ((str.write (leBytes 4 bytes.length)).write [99, 55]).write bytes
  | none => str

/-- The object branch of `WriteValue` (StreamManager.cs:583-665). -/
def writeNetObject (o : NetObject) (str : MemoryStream) : NetRun MemoryStream :=
  match o with
  | .com true (some bytes) => do
    let _ ← memoryBlock bytes.length
    pure (writeBlob bytes str)
  | .com true none => .error .comError
  | .com false _ => .ok (str.write (leBytes 4 0))
  | .managed formatted => .ok (writeFormatted formatted str)

/-- `WriteValue` of a value with its own type tag (StreamManager.cs:357-674). -/
def StreamManager.writeValue (rt : NetRuntime) : NetValue → MemoryStream → NetRun MemoryStream
  | .null, str => .ok str
  | .dbNull, str => .ok str
  | .boolean b, str => .ok (str.write (leBytes 2 (if b then 0xFFFF else 0)))
  | .primitive p bits, str => .ok (str.write (leBytes p.size bits.toNat))
  | .decimal d, str => .ok (str.write (leBytes 2 vtDecimal.toNat ++ leBytes 14 d.toNat))
  | .string s, str => writeString s str
  | .dateTime d, str => do
    let value ← rt.toOADate d
    pure (str.write (leBytes 8 value.toNat))
  | .currency c, str => .ok (writeFormatted (rt.formatCurrency c) str)
  | .object o, str => writeNetObject o str
  | .primitiveArray p bounds cells, str => do
    let str ← writeArrayHeader rt (.primitive p) bounds.dims str
    let lMemSize := longProduct bounds.dims * BitVec.ofNat 32 (getElementSize p.vt)
    -- a `byte[]` goes straight to the stream
    if p = .byte ∧ bounds.dims.length = 1 then
      if !bounds.isVector then .error .invalidCast
      else if lMemSize.slt 0 then .error .argumentOutOfRange
      else pure (str.write ((memoryImage p.size cells).take lMemSize.toNat))
    else writeBlock (memoryImage p.size cells) lMemSize str
  | .booleanArray bounds cells, str => do
    let str ← writeArrayHeader rt .boolean bounds.dims str
    let lMemSize := longProduct bounds.dims * BitVec.ofNat 32 (getElementSize NetType.boolean.vt)
    writeBlock ((List.ofFn cells).map fun b => if b then 1 else 0) lMemSize str
  | .decimalArray bounds cells, str => do
    let str ← writeArrayHeader rt .decimal bounds.dims str
    let lElements := longProduct bounds.dims
    if (0#32).slt lElements then
      walkCells netCarryLoop (writeCell bounds fun i str =>
        .ok (str.write (leBytes 2 vtDecimal.toNat ++ leBytes 14 (cells i).toNat))) bounds.dims
        lElements str
    else pure str
  | .stringArray bounds cells, str => do
    let str ← writeArrayHeader rt .string bounds.dims str
    let lElements := longProduct bounds.dims
    if (0#32).slt lElements then
      walkCells netCarryLoop (writeCell bounds fun i str =>
        writeString ((cells i).getD []) str) bounds.dims lElements str
    else pure str
  | .array element bounds cells, str => do
    let str ← writeArrayHeader rt element bounds.dims str
    let vT := (vtArray ||| element.vt) ^^^ vtArray
    let lElements := longProduct bounds.dims
    if !element.isArray && isBlockType vT then
      -- no array of primitives, whatever its size
      .error .argument
    else if element.isArray || (isObjectType vT && (0#32).slt lElements) then
      walkCells netCarryLoop (writeCell bounds fun i str =>
        StreamManager.writeValue rt (cells i) (str.write (leBytes 2 (cells i).vt.toNat)))
        bounds.dims lElements str
    else pure str

/-! ## Reading -/

/-- A `StreamManager` that reads; `_memoryBuff` never has less than 4 KB. -/
structure StreamManager where
  memoryBuff : ℕ → UInt8
  memSize : ℕ
  str : MemoryStream
  LateObjectActivation : Bool
  large : 0x1000 ≤ memSize

namespace StreamManager

/-- The constructor (StreamManager.cs:36-40). -/
def new (stream : MemoryStream) (LateObjectActivation : Bool) : StreamManager where
  memoryBuff _ := 0
  memSize := 0x1000
  str := stream
  LateObjectActivation
  large := by decide

/-- `Str.Read(_memoryBuff, 0, count)`, and the first `count` bytes of the buffer then. -/
def readBytes (m : StreamManager) (count : ℕ) : Bytes × StreamManager :=
  let (_, bytes, str) := m.str.read count
  let memoryBuff := fun i => bytes.getD i (m.memoryBuff i)
  ((List.range count).map memoryBuff, { m with memoryBuff, str })

/-- The same as a number. -/
def readNumber (m : StreamManager) (count : ℕ) : ℕ × StreamManager :=
  let (bytes, m) := m.readBytes count
  (ofLeBytes bytes, m)

/-- `EnsureMemory(required)` of a size that is not negative. -/
def ensureMemory (m : StreamManager) (required : ℕ) : NetRun StreamManager :=
  if required < m.memSize then .ok m
  else if required < 0x7FFFF000 then
    .ok { m with
      memoryBuff := fun _ => 0
      memSize := (required / 0x1000 + 1) * 0x1000
      large := by omega }
  else .error .overflow

/-- `EnsureMemory` and `Str.Read` of as many bytes. -/
def readBlock (m : StreamManager) (size : BitVec 32) : NetRun (Bytes × StreamManager) :=
  if size.slt 0 then .error .argumentOutOfRange
  else do
    let m ← m.ensureMemory size.toNat
    pure (m.readBytes size.toNat)

/-- `ReadString` (StreamManager.cs:315-330). -/
def readString (m : StreamManager) : NetRun (Bstr × StreamManager) := do
  let (size, m) := m.readNumber 4
  let (bytes, m) ← m.readBlock (BitVec.ofNat 32 size)
  pure (utf8ToUtf16 bytes, m)

/-- The two bytes that mark an object of the runtime: they are read away, and given back when
they are others (StreamManager.cs:953-958). -/
def readMark (m : StreamManager) : Bool × StreamManager :=
  let (_, bytes, str) := m.str.read 2
  if bytes = [99, 55] then (true, { m with str }) else (false, m)

/-- Which loader is to make an object of which bytes. -/
inductive LoaderCall
  | ole (bytes : Bytes)
  | binaryFormatter (bytes : Bytes)
  deriving DecidableEq

/-- What a loader makes of its bytes. -/
def LoaderCall.run (loaders : NetLoaders) : LoaderCall → NetRun NetValue
  | .ole bytes => loaders.oleLoad bytes
  | .binaryFormatter bytes => loaders.deserialize bytes

/-- The blob of an object, null for none, and whether it carries the mark
(StreamManager.cs:948-962). -/
def readBlob (m : StreamManager) : NetRun (Option (Bool × Bytes) × StreamManager) := do
  let (size, m) := m.readNumber 4
  let bytesInStream := BitVec.ofNat 32 size
  if bytesInStream = 0 then pure (none, m)
  else do
    let (isNetObject, m) := m.readMark
    let (bytes, m) ← m.readBlock bytesInStream
    pure (some (isNetObject, bytes), m)

/-- What an eager reader hands on (StreamManager.cs:963-1000). -/
def eagerCall (isNetObject : Bool) (bytes : Bytes) : LoaderCall :=
  if isNetObject then .binaryFormatter bytes else .ole bytes

/-- A `byte[]`. -/
def byteArray (bytes : Bytes) (h : bytes.length < 2 ^ 31) : NetValue :=
  .primitiveArray .byte ⟨[⟨BitVec.ofNat 32 bytes.length, 0⟩], by
    have hlen : (BitVec.ofNat 32 bytes.length).toNat = bytes.length := by
      rw [BitVec.toNat_ofNat, Nat.mod_eq_of_lt (by omega)]
    refine ⟨by simp, by simp, ?_, ?_⟩
    · simp only [elementCount, Odometer.count, hlen]
      omega
    · intro b hb
      rw [List.mem_singleton] at hb
      subst hb
      have hzero : (0 : BitVec 32).toInt = 0 := rfl
      simp only [hlen, hzero]
      omega⟩ fun i => BitVec.ofNat _ (bytes.getD i 0).toNat

/-- What a late reader gives: the blob behind the mark, whether it had one or not
(StreamManager.cs:1001-1008). -/
def lateValue (bytes : Bytes) : NetRun NetValue :=
  if h : ([99, 55] ++ bytes).length < 2 ^ 31 then .ok (byteArray ([99, 55] ++ bytes) h)
  else .error .overflow

/-- The object branch of `ReadValue` (StreamManager.cs:944-1009). -/
def readNetObject (loaders : NetLoaders) (m : StreamManager) :
    NetRun (NetValue × StreamManager) := do
  let (blob, m) ← m.readBlob
  match blob with
  | none => pure (.null, m)
  | some (isNetObject, bytes) =>
    let data ← if m.LateObjectActivation then lateValue bytes
      else (eagerCall isNetObject bytes).run loaders
    pure (data, m)

/-- `ReadValue` of a value that is no array (StreamManager.cs:906-1013). -/
def readScalar (rt : NetRuntime) (loaders : NetLoaders) (vT : VarType) (m : StreamManager) :
    NetRun (NetValue × StreamManager) :=
  let number (p : PrimitiveType) : NetRun (NetValue × StreamManager) :=
    let (value, m) := m.readNumber p.size
    .ok (.primitive p (BitVec.ofNat _ value), m)
  match vT.toNat with
  | 17 =>
    -- `Str.ReadByte` returns an `int`
    let (_, bytes, str) := m.str.read 1
    let value : BitVec 32 :=
      match bytes with
      | [b] => BitVec.ofNat 32 b.toNat
      | _ => -1
    .ok (.primitive .int32 value, { m with str })
  | 2 => number .int16
  | 18 => number .char
  | 1 => .ok (.dbNull, m)
  | 0 => .ok (.null, m)
  | 11 =>
    let (value, m) := m.readNumber 2
    .ok (.boolean (decide (value = 0xFFFF)), m)
  | 19 => number .uint32
  | 3 => number .int32
  | 21 => number .uint64
  | 20 => number .int64
  | 4 => number .single
  | 5 => number .double
  | 6 =>
    let (value, m) := m.readNumber 8
    .ok (.currency (BitVec.ofNat 64 value), m)
  | 14 =>
    let (bytes, m) := m.readBytes 16
    .ok (.decimal (BitVec.ofNat _ (ofLeBytes (bytes.drop 2))), m)
  | 7 => do
    let (value, m) := m.readNumber 8
    let date ← rt.fromOADate (BitVec.ofNat 64 value)
    pure (.dateTime date, m)
  | 8 => do
    let (s, m) ← m.readString
    pure (.string s, m)
  | 10 | 13 | 12 | 9 => m.readNetObject loaders
  | _ => .error .notImplemented

/-- The bounds of an array (StreamManager.cs:767-774). -/
def readBounds : ℕ → StreamManager → List SafeArrayBound × StreamManager
  | 0, m => ([], m)
  | dims + 1, m =>
    let (cElements, m) := m.readNumber 4
    let (lLbound, m) := m.readNumber 4
    let (bounds, m) := readBounds dims m
    ({ cElements := BitVec.ofNat 32 cElements, lLbound := BitVec.ofNat 32 lLbound } :: bounds, m)

/-- A new array of default values. -/
def blankArray (element : NetType) (bounds : ArrayBounds) : NetValue :=
  match element with
  | .primitive p => .primitiveArray p bounds fun _ => 0
  | .boolean => .booleanArray bounds fun _ => false
  | .decimal => .decimalArray bounds fun _ => 0
  | .string => .stringArray bounds fun _ => none
  | .dateTime => .array element bounds fun _ => .dateTime 0
  | _ => .array element bounds fun _ => .null

/-- `Array.CreateInstance`. -/
def createInstance (elementType : Option NetType) (dims : List SafeArrayBound) :
    NetRun NetValue :=
  match elementType with
  | none => .error .argumentNull
  | some element =>
    if h : ValidDims dims then .ok (blankArray element ⟨dims, h⟩)
    else if 32 < dims.length then .error .typeLoad
    else if 2 ^ 32 ≤ elementCount dims then .error .outOfMemory
    else .error .argumentOutOfRange

/-- The cells of a primitive array after bytes have been copied to its start. -/
def copiedCells {n : ℕ} (size : ℕ) (cells : Fin n → BitVec (8 * size)) (bytes : Bytes) :
    Fin n → BitVec (8 * size) :=
  let image := overlay (memoryImage size cells) bytes
  fun i => BitVec.ofNat _ (ofLeBytes ((image.drop (size * i)).take size))

/-- `Buffer.BlockCopy(_memoryBuff, 0, psa, 0, count)`. -/
def blockCopy (bytes : Bytes) : NetValue → NetRun NetValue
  | .primitiveArray p bounds cells =>
    if bounds.count * p.size < bytes.length then .error .argument
    else .ok (.primitiveArray p bounds (copiedCells p.size cells bytes))
  | .booleanArray bounds cells =>
    if bounds.count < bytes.length then .error .argument
    else .ok (.booleanArray bounds fun i =>
      match bytes[i.val]? with
      | some b => decide (b ≠ 0)
      | none => cells i)
  | _ => .error .argument

/-- `Str.Read((byte[])psa, 0, count)`. -/
def readIntoBytes (psa : NetValue) (count : BitVec 32) (m : StreamManager) :
    NetRun (NetValue × StreamManager) :=
  match psa with
  | .primitiveArray .byte bounds cells =>
    if !bounds.isVector then .error .invalidCast
    else if count.slt 0 then .error .argumentOutOfRange
    else if bounds.count < count.toNat then .error .argument
    else
      let (_, bytes, str) := m.str.read count.toNat
      .ok (.primitiveArray .byte bounds (copiedCells _ cells bytes), { m with str })
  | _ => .error .invalidCast

/-- A value can be an element of an array of this type. -/
def conforms (element : NetType) (v : NetValue) : Bool :=
  match v.type with
  | none => true
  | some t => t.assignableTo element

/-- `psa.SetValue(value, rgIndices)`. -/
def setValue (rt : NetRuntime) (value : NetValue) (rgIndices : List (BitVec 32)) :
    NetValue → NetRun NetValue
  | .primitiveArray p bounds cells =>
    match bounds.cell rgIndices, value with
    | none, _ => .error .indexOutOfRange
    | some i, .null => .ok (.primitiveArray p bounds (Function.update cells i 0))
    | some i, .primitive q bits =>
      if h : q = p then .ok (.primitiveArray p bounds (Function.update cells i (h ▸ bits)))
      else
        match rt.widen p (.primitive q) bits.toNat with
        | some wide => .ok (.primitiveArray p bounds (Function.update cells i wide))
        | none => .error .invalidCast
    | some _, _ => .error .invalidCast
  | .booleanArray bounds cells =>
    match bounds.cell rgIndices, value with
    | none, _ => .error .indexOutOfRange
    | some i, .null => .ok (.booleanArray bounds (Function.update cells i false))
    | some i, .boolean b => .ok (.booleanArray bounds (Function.update cells i b))
    | some _, _ => .error .invalidCast
  | .decimalArray bounds cells =>
    match bounds.cell rgIndices, value with
    | none, _ => .error .indexOutOfRange
    | some i, .null => .ok (.decimalArray bounds (Function.update cells i 0))
    | some i, .decimal d => .ok (.decimalArray bounds (Function.update cells i d))
    | some _, _ => .error .invalidCast
  | .stringArray bounds cells =>
    match bounds.cell rgIndices, value with
    | none, _ => .error .indexOutOfRange
    | some i, .null => .ok (.stringArray bounds (Function.update cells i none))
    | some i, .string s => .ok (.stringArray bounds (Function.update cells i (some s)))
    | some _, _ => .error .invalidCast
  | .array element bounds cells =>
    match bounds.cell rgIndices with
    | none => .error .indexOutOfRange
    | some i =>
      if conforms element value then
        .ok (.array element bounds (Function.update cells i value))
      else .error .invalidCast
  | _ => .error .nullReference

/-- A round of a reader's loop, with what is read for the cell. -/
def readCell (rt : NetRuntime) (read : StreamManager → NetRun (NetValue × StreamManager))
    (rgIndices : List (BitVec 32)) (s : NetValue × StreamManager) :
    NetRun (NetValue × StreamManager) := do
  let (value, m) ← read s.2
  let psa ← setValue rt value rgIndices s.1
  pure (psa, m)

/-- A tag and a value (StreamManager.cs:823-825, 876-878). -/
def readTagged (readValue : VarType → StreamManager → NetRun (NetValue × StreamManager))
    (m : StreamManager) : NetRun (NetValue × StreamManager) :=
  let (vT, m) := m.readNumber 2
  readValue (UInt16.ofNat vT) m

/-- The cells of a new array (StreamManager.cs:776-904). -/
def readCells (rt : NetRuntime) (loaders : NetLoaders)
    (readValue : VarType → StreamManager → NetRun (NetValue × StreamManager)) (vT : VarType)
    (isJagged : Bool) (elSize : BitVec 32) (dims : List SafeArrayBound) (psa : NetValue)
    (m : StreamManager) : NetRun (NetValue × StreamManager) :=
  let lElements := longProduct dims
  let lMemSize := lElements * elSize
  if lElements = 0 then .ok (psa, m)
  else if !isJagged && isBlockType vT then
    if vT = PrimitiveType.byte.vt ∧ dims.length = 1 then readIntoBytes psa lMemSize m
    else do
      let (bytes, m) ← m.readBlock lMemSize
      let psa ← blockCopy bytes psa
      pure (psa, m)
  else if !isJagged && (0#32).slt lElements && decide (vT = vtBstr ∨ vT = vtDecimal) then
    walkCells carryLoop (readCell rt (readScalar rt loaders vT)) dims lElements (psa, m)
  else if isJagged || (decide (vT = vtVariant ∨ vT = vtUnknown) && (0#32).slt lElements) then
    walkCells carryLoop (readCell rt (readTagged readValue)) dims lElements (psa, m)
  else .error .notImplemented

/-- `ReadValue` of an array (StreamManager.cs:718-905). -/
def readArray (rt : NetRuntime) (loaders : NetLoaders)
    (readValue : VarType → StreamManager → NetRun (NetValue × StreamManager)) (vT : VarType)
    (m : StreamManager) : NetRun (NetValue × StreamManager) := do
  let (descriptor, m) := m.readBytes 12
  let vT := vT ^^^ vtArray
  let elSize := BitVec.ofNat 32 (ofLeBytes ((descriptor.drop 4).take 4))
  let cDims := BitVec.ofNat 32 (ofLeBytes (descriptor.drop 8))
  let doGetType := isObjectType vT
  let (name, m) ← m.readString
  let isJagged := !doGetType && decide (name = Bstr.ofString "__jagged")
  let (typeStr, m) ← if isJagged then m.readString else pure (name, m)
  let requestedType :=
    if doGetType || isJagged then rt.getType typeStr else convertEnumToType vT
  if cDims = 0 then do
    let psa ← createInstance requestedType [⟨0, 0⟩]
    pure (psa, m)
  else if cDims.slt 0 then .error .overflow
  else do
    let (dims, m) := m.readBounds cDims.toNat
    let psa ← createInstance requestedType dims
    readCells rt loaders readValue vT isJagged elSize dims psa m

/-- `ReadValue` (StreamManager.cs:716-1013), `fuel` deep. -/
def readValue (rt : NetRuntime) (loaders : NetLoaders) :
    ℕ → VarType → StreamManager → NetRun (NetValue × StreamManager)
  | 0, _, _ => .error .fuel
  | fuel + 1, vT, m =>
    if vT &&& vtArray = vtArray then readArray rt loaders (readValue rt loaders fuel) vT m
    else readScalar rt loaders vT m

end StreamManager

end IspSession.Model
