import IspSession.Model.DotNet
import IspSession.Model.Codec

/-!
# Values of the managed code

The objects that the managed codec distinguishes: values of the primitive types by their
bits, arrays by their element type, their bounds and their cells. A cell is found by its
index vector, the rightmost index varying fastest. The cells of an array are a function on
the numbers below their count, so that an array has as many as its bounds say.

An array of rank one is a vector (`T[]`) when its lower bound is zero and of the type `T[*]`
otherwise: `Array.CreateInstance` makes no others.
-/

set_option autoImplicit false

namespace IspSession.Model

open IspSession.Library

/-! ## Types -/

/-- The primitive types but `bool`. -/
inductive PrimitiveType
  | byte | char | int16 | int32 | uint32 | int64 | uint64 | single | double
  deriving DecidableEq, Repr

/-- The size of a value in memory. -/
def PrimitiveType.size : PrimitiveType → ℕ
  | .byte => 1
  | .char | .int16 => 2
  | .int32 | .uint32 | .single => 4
  | .int64 | .uint64 | .double => 8

/-- The type tag of a primitive type. -/
def PrimitiveType.vt : PrimitiveType → VarType
  | .byte => 17
  | .char => 18
  | .int16 => 2
  | .int32 => 3
  | .uint32 => 19
  | .int64 => 20
  | .uint64 => 21
  | .single => 4
  | .double => 5

/-- The runtime types that the codec names. -/
inductive NetType
  | primitive (p : PrimitiveType)
  | boolean | decimal | string | object | dbNull | dateTime | currencyWrapper | exception
  /-- `T[]` -/
  | vector (element : NetType)
  /-- `T[*]`, `T[,]`, … -/
  | array (element : NetType) (rank : ℕ)
  deriving DecidableEq, Repr

namespace NetType

/-- `Type.IsArray`. -/
def isArray : NetType → Bool
  | .vector _ | .array _ _ => true
  | _ => false

/-- `ConvertTypeToVtEnum` of a type (StreamManager.cs:1016-1077): what has the type code of an
object is a variant. -/
def vt : NetType → VarType
  | .primitive p => p.vt
  | .boolean => 11
  | .decimal => vtDecimal
  | .string => vtBstr
  | .object | .currencyWrapper | .exception => vtVariant
  | .dbNull => vtNull
  | .dateTime => 7
  | .vector element | .array element _ => vtArray ||| element.vt

/-- The values of the type are references. -/
def isReference : NetType → Bool
  | .string | .object | .dbNull | .currencyWrapper | .exception | .vector _ | .array _ _ => true
  | _ => false

/-- Integers of one size, with and without sign. -/
def sameInteger : NetType → NetType → Bool
  | .primitive .int32, .primitive .uint32 | .primitive .uint32, .primitive .int32
  | .primitive .int64, .primitive .uint64 | .primitive .uint64, .primitive .int64 => true
  | _, _ => false

/-- A value of the first type can stand where one of the second is expected: arrays of
references are covariant, and arrays of integers of one size are taken for one another. -/
def assignableTo : NetType → NetType → Bool
  | _, .object => true
  | .vector a, .vector b =>
    decide (a = b) || sameInteger a b || (a.isReference && b.isReference && a.assignableTo b)
  | .array a n, .array b k =>
    decide (n = k) && (decide (a = b) || sameInteger a b ||
      (a.isReference && b.isReference && a.assignableTo b))
  | a, b => decide (a = b)

/-- The brackets of an array type's name. -/
def brackets : ℕ → Bstr
  | 0 => Bstr.ofString "[]"
  | 1 => Bstr.ofString "[*]"
  | rank + 2 => Bstr.ofString "[" ++ List.replicate (rank + 1) 44 ++ Bstr.ofString "]"

/-- `Type.FullName`. -/
def fullName : NetType → Bstr
  | .primitive .byte => Bstr.ofString "System.Byte"
  | .primitive .char => Bstr.ofString "System.Char"
  | .primitive .int16 => Bstr.ofString "System.Int16"
  | .primitive .int32 => Bstr.ofString "System.Int32"
  | .primitive .uint32 => Bstr.ofString "System.UInt32"
  | .primitive .int64 => Bstr.ofString "System.Int64"
  | .primitive .uint64 => Bstr.ofString "System.UInt64"
  | .primitive .single => Bstr.ofString "System.Single"
  | .primitive .double => Bstr.ofString "System.Double"
  | .boolean => Bstr.ofString "System.Boolean"
  | .decimal => Bstr.ofString "System.Decimal"
  | .string => Bstr.ofString "System.String"
  | .object => Bstr.ofString "System.Object"
  | .dbNull => Bstr.ofString "System.DBNull"
  | .dateTime => Bstr.ofString "System.DateTime"
  | .currencyWrapper => Bstr.ofString "System.Runtime.InteropServices.CurrencyWrapper"
  | .exception => Bstr.ofString "System.Exception"
  | .vector element => element.fullName ++ brackets 0
  | .array element rank => element.fullName ++ brackets rank

/-- The types that are no arrays. -/
def leaves : List NetType :=
  [.primitive .byte, .primitive .char, .primitive .int16, .primitive .int32, .primitive .uint32,
    .primitive .int64, .primitive .uint64, .primitive .single, .primitive .double, .boolean,
    .decimal, .string, .object, .dbNull, .dateTime, .currencyWrapper, .exception]

/-- INTERNAL: the array types over a type that brackets name one after the other, innermost
first, up to the end or to the comma in front of the assembly. -/
def ofBrackets (element : NetType) : ℕ → Bstr → Option (NetType × Bstr)
  | fuel + 1, 91 :: rest =>
    if rest.take 1 = [93] then ofBrackets (.vector element) fuel (rest.drop 1)
    else if rest.take 2 = [42, 93] then ofBrackets (.array element 1) fuel (rest.drop 2)
    else
      let commas := rest.takeWhile (· == 44)
      if commas ≠ [] ∧ (rest.drop commas.length).take 1 = [93] then
        ofBrackets (.array element (commas.length + 1)) fuel (rest.drop (commas.length + 1))
      else none
  | _, rest => if rest = [] ∨ rest.take 2 = [44, 32] then some (element, rest.drop 2) else none

end NetType

/-- What the runtime is and does beside the codec. -/
structure NetRuntime where
  /-- The display name of the core library. -/
  coreLibrary : Bstr
  /-- The display names under which the core library is found. -/
  isCoreLibrary : Bstr → Bool
  isCoreLibrary_coreLibrary : isCoreLibrary coreLibrary = true
  coreLibrary_ascii : AsciiUtf16 coreLibrary
  /-- `DateTime.ToOADate`, as bits. -/
  toOADate : BitVec 64 → NetRun (BitVec 64)
  /-- `DateTime.FromOADate`. -/
  fromOADate : BitVec 64 → NetRun (BitVec 64)
  /-- The widening conversions of `Array.SetValue`, null where there is none. -/
  widen : (p : PrimitiveType) → NetType → ℕ → Option (BitVec (8 * p.size))
  /-- What `BinaryFormatter` makes of a `CurrencyWrapper`, null where the type is not
  serializable. -/
  formatCurrency : BitVec 64 → Option Bytes

namespace NetRuntime

/-- A runtime without dates, conversions and a formatter, for runs on concrete input. -/
def plain : NetRuntime where
  coreLibrary := Bstr.ofString
    "mscorlib, Version=4.0.0.0, Culture=neutral, PublicKeyToken=b77a5c561934e089"
  isCoreLibrary assembly := decide (assembly = Bstr.ofString
    "mscorlib, Version=4.0.0.0, Culture=neutral, PublicKeyToken=b77a5c561934e089")
  isCoreLibrary_coreLibrary := by decide
  coreLibrary_ascii := by decide
  toOADate _ := .error .notSupported
  fromOADate _ := .error .notSupported
  widen _ _ _ := none
  formatCurrency _ := none

/-- `Type.AssemblyQualifiedName` of a type of the core library. -/
def assemblyQualifiedName (rt : NetRuntime) (t : NetType) : Bstr :=
  t.fullName ++ Bstr.ofString ", " ++ rt.coreLibrary

/-- `Type.GetType`: null for a name that it does not find. -/
def getType (rt : NetRuntime) (typeName : Bstr) : Option NetType :=
  let name := typeName.takeWhile fun c => c != 91 && c != 44
  match NetType.leaves.find? (fun t => decide (t.fullName = name)) with
  | none => none
  | some leaf =>
    match NetType.ofBrackets leaf (typeName.length + 1) (typeName.drop name.length) with
    | some (t, assembly) =>
      if assembly = [] ∨ rt.isCoreLibrary assembly then some t else none
    | none => none

end NetRuntime

/-- `ConvertEnumToType` (StreamManager.cs:1079-1127). -/
def convertEnumToType (vT : VarType) : Option NetType :=
  match vT.toNat with
  | 17 => some (.primitive .byte)
  | 13 | 12 => some .object
  | 11 => some .boolean
  | 1 => some .dbNull
  | 2 => some (.primitive .int16)
  | 18 => some (.primitive .char)
  | 19 => some (.primitive .uint32)
  | 21 => some (.primitive .uint64)
  | 3 => some (.primitive .int32)
  | 20 => some (.primitive .int64)
  | 4 => some (.primitive .single)
  | 5 => some (.primitive .double)
  | 10 => some .exception
  | 14 => some .decimal
  | 6 => some .currencyWrapper
  | 7 => some .dateTime
  | 8 => some .string
  | _ => none

/-- `GetElementSize` (StreamManager.cs:679-715), on a 64-bit system. -/
def getElementSize (vT : VarType) : ℕ :=
  match vT.toNat with
  | 17 => 1
  | 11 | 18 | 2 => 2
  | 4 | 3 | 19 => 4
  | 6 | 21 | 20 | 5 | 7 => 8
  | 12 | 14 => 16
  | 8 => 8
  | _ => 0

/-! ## Arrays -/

/-- The dimensions an array can have: at most thirty-two, no negative extent, no index past
the range of an `int`. -/
def ValidDims (dims : List SafeArrayBound) : Prop :=
  dims ≠ [] ∧ dims.length ≤ 32 ∧ elementCount dims < 2 ^ 32 ∧
    ∀ b ∈ dims, b.cElements.toNat < 2 ^ 31 ∧ b.lLbound.toInt + b.cElements.toNat ≤ 2 ^ 31

instance (dims : List SafeArrayBound) : Decidable (ValidDims dims) :=
  inferInstanceAs (Decidable (_ ∧ _ ∧ _ ∧ _))

/-- The dimensions of an array. -/
structure ArrayBounds where
  dims : List SafeArrayBound
  valid : ValidDims dims
  deriving DecidableEq

namespace ArrayBounds

/-- The number of cells. -/
def count (b : ArrayBounds) : ℕ := elementCount b.dims

/-- The bounds of a vector without cells. -/
def empty : ArrayBounds := ⟨[⟨0, 0⟩], by decide⟩

/-- The array is a vector, `T[]`. -/
def isVector (b : ArrayBounds) : Bool :=
  match b.dims with
  | [d] => decide (d.lLbound = 0)
  | _ => false

end ArrayBounds

/-- The number of the cell at an index vector, the rightmost index varying fastest. -/
def arrayOffset : List SafeArrayBound → List (BitVec 32) → Option ℕ
  | [], [] => some 0
  | b :: bs, i :: is =>
    if (i - b.lLbound).toNat < b.cElements.toNat then
      (arrayOffset bs is).map fun k => (i - b.lLbound).toNat * elementCount bs + k
    else none
  | _, _ => none

/-- The cell at an index vector, if there is one. -/
def ArrayBounds.cell (b : ArrayBounds) (rgIndices : List (BitVec 32)) : Option (Fin b.count) :=
  match arrayOffset b.dims rgIndices with
  | some k => if h : k < b.count then some ⟨k, h⟩ else none
  | none => none

/-! ## Values -/

/-- An object of another class: a COM object by whether it supports a persistence interface
and what its `Save` writes, one of the runtime's by what `BinaryFormatter` makes of it when
its class is serializable. -/
inductive NetObject
  | com (persistable : Bool) (saved : Option Bytes)
  | managed (formatted : Option Bytes)
  deriving DecidableEq

/-- A managed value. -/
inductive NetValue
  | null
  | dbNull
  | boolean (b : Bool)
  | primitive (p : PrimitiveType) (bits : BitVec (8 * p.size))
  /-- A decimal by the fourteen bytes behind its first two, which are zero. -/
  | decimal (d : BitVec (8 * 14))
  | string (s : Bstr)
  | dateTime (d : BitVec 64)
  /-- A `CurrencyWrapper` by the OLE currency of its decimal. -/
  | currency (c : BitVec 64)
  | object (o : NetObject)
  | primitiveArray (p : PrimitiveType) (bounds : ArrayBounds)
      (cells : Fin bounds.count → BitVec (8 * p.size))
  | booleanArray (bounds : ArrayBounds) (cells : Fin bounds.count → Bool)
  | decimalArray (bounds : ArrayBounds) (cells : Fin bounds.count → BitVec (8 * 14))
  | stringArray (bounds : ArrayBounds) (cells : Fin bounds.count → Option Bstr)
  /-- An array of any other element type. -/
  | array (element : NetType) (bounds : ArrayBounds) (cells : Fin bounds.count → NetValue)

instance : Inhabited NetValue := ⟨.null⟩

namespace NetValue

/-- The type of an array. -/
def arrayType (element : NetType) (bounds : ArrayBounds) : NetType :=
  if bounds.isVector then .vector element else .array element bounds.dims.length

/-- `GetType`; null has no type. -/
def type : NetValue → Option NetType
  | .null => none
  | .dbNull => some .dbNull
  | .boolean _ => some .boolean
  | .primitive p _ => some (.primitive p)
  | .decimal _ => some .decimal
  | .string _ => some .string
  | .dateTime _ => some .dateTime
  | .currency _ => some .currencyWrapper
  | .object _ => some .object
  | .primitiveArray p bounds _ => some (arrayType (.primitive p) bounds)
  | .booleanArray bounds _ => some (arrayType .boolean bounds)
  | .decimalArray bounds _ => some (arrayType .decimal bounds)
  | .stringArray bounds _ => some (arrayType .string bounds)
  | .array element bounds _ => some (arrayType element bounds)

/-- `ConvertTypeToVtEnum` (StreamManager.cs:1016-1077). -/
def vt (v : NetValue) : VarType :=
  match v.type with
  | none => vtEmpty
  | some t => t.vt

end NetValue

end IspSession.Model
