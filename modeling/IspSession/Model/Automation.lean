import Mathlib.Data.List.TakeWhile
import IspSession.Library.Utf
import IspSession.Library.Odometer

/-!
# Automation data: results, strings, arrays and variants

The values the COM component stores. A `Bstr` is a list of UTF-16 code units; a null
string and an empty one are the same value. A `VARIANT` is an inductive type with one
constructor for each kind of payload the component distinguishes; arrays are kept as
the memory block of their cells, the leftmost index varying fastest.

A computation of the component that dereferences a wild pointer, writes past a buffer
or reads a vector past its end has no result: it is `Stuck.fault`. Loops and
recursions are run with fuel; `Stuck.fuel` marks that it ran out.
-/

set_option autoImplicit false

namespace IspSession.Model

open IspSession.Library

/-- The result codes the component tells apart. -/
inductive HResult
  | sOk
  | sFalse
  | eFail
  | eInvalidArg
  | eNoInterface
  | eOutOfMemory
  | ePointer
  | eAccessDenied
  | badIndex
  | badVarType
  | unknownLcid
  deriving DecidableEq, Repr

/-- `FAILED(hr)`: the code is an error, not one of the two success codes. -/
def HResult.failed : HResult → Bool
  | .sOk | .sFalse => false
  | _ => true

/-- Why a computation has no result. -/
inductive Stuck
  | fault
  | fuel
  deriving DecidableEq, Repr

/-- A computation of the component. -/
abbrev Run := Except Stuck

/-- A computation goes on with the value of its first part. -/
@[simp] theorem Run.ok_bind {α β : Type} (a : α) (f : α → Run β) :
    ((.ok a : Run α) >>= f) = f a := rfl

/-- It ends where its first part is stuck. -/
@[simp] theorem Run.error_bind {α β : Type} (e : Stuck) (f : α → Run β) :
    ((.error e : Run α) >>= f) = .error e := rfl

/-- A computation with a result has one at each of its parts. -/
theorem Run.bind_eq_ok {α β : Type} {x : Run α} {f : α → Run β} {b : β}
    (h : x >>= f = .ok b) : ∃ a, x = .ok a ∧ f a = .ok b := by
  cases x with
  | error e => cases h
  | ok a => exact ⟨a, rfl, h⟩

/-- The value a computation has when it has one. -/
theorem Run.eq_ok_of_toOption {α : Type} {x : Run α} {a : α} (h : x.toOption = some a) :
    x = .ok a := by
  cases x with
  | error e => cases h
  | ok b => exact congrArg Except.ok (Option.some.inj h)

@[simp] theorem Run.pure_eq {α : Type} (a : α) : (pure a : Run α) = .ok a := rfl

/-- A `std::string`: a text in UTF-8, or any bytes. -/
abbrev Bytes := List UInt8

/-- A string of UTF-16 code units. -/
abbrev Bstr := List UInt16

instance Bytes.instLawfulBEq : LawfulBEq Bytes := inferInstance

instance Bstr.instLawfulBEq : LawfulBEq Bstr := inferInstance

/-- The order of the code units is one of texts. -/
instance Bstr.instTransCmp :
    Std.TransCmp (List.compareLex (compare : UInt16 → UInt16 → Ordering)) := inferInstance

/-- A string literal of the source. -/
def Bstr.ofString (s : String) : Bstr := s.toList.flatMap utf16EncodeChar

/-- `CComBSTR2(LPCOLESTR)`: the text up to the first zero. -/
def lpcolestr (s : Bstr) : Bstr := s.takeWhile (· ≠ 0)

@[simp] theorem lpcolestr_nil : lpcolestr [] = [] := rfl

/-- A text without a zero is taken whole. -/
theorem lpcolestr_eq_self_iff {s : Bstr} : lpcolestr s = s ↔ ∀ u ∈ s, u ≠ 0 := by
  rw [lpcolestr, List.takeWhile_eq_self_iff]
  simp

@[simp] theorem lpcolestr_lpcolestr (s : Bstr) : lpcolestr (lpcolestr s) = lpcolestr s := by
  rw [lpcolestr_eq_self_iff]
  intro u hu
  simpa using List.mem_takeWhile_imp hu

/-- The text comparisons of the thread's locale, with the laws the component relies on. -/
structure Collation where
  /-- `VarBstrCmp` with `NORM_IGNORECASE`: the order of dictionary keys. -/
  compare : Bstr → Bstr → Ordering
  /-- `CComBSTR2::operator==`, which ignores case, diacritics and symbols. -/
  sameText : Bstr → Bstr → Bool
  /-- `CompareStringW` without flags says `CSTR_EQUAL`. -/
  equalText : Bstr → Bstr → Bool
  compare_trans : Std.TransCmp compare
  sameText_refl : ∀ s, sameText s s = true
  equalText_refl : ∀ s, equalText s s = true
  /-- Letters are no symbols. -/
  sameText_empty_jagged : sameText [] (Bstr.ofString "__jagged") = false

instance (loc : Collation) : Std.TransCmp loc.compare := loc.compare_trans

/-- A text is the same as itself, code unit by code unit. -/
theorem Bstr.beq_refl : ∀ s : Bstr, (s == s) = true := by simp

/-- Without text there is no marker of an array of arrays. -/
theorem Bstr.nil_beq_jagged : (([] : Bstr) == Bstr.ofString "__jagged") = false := by decide

/-- A locale that compares texts by their code units, for runs on concrete input. -/
def Collation.ordinal : Collation where
  compare := List.compareLex Ord.compare
  sameText a b := a == b
  equalText a b := a == b
  compare_trans := Bstr.instTransCmp
  sameText_refl := Bstr.beq_refl
  equalText_refl := Bstr.beq_refl
  sameText_empty_jagged := Bstr.nil_beq_jagged

/-! ## Type tags -/

/-- The type tag of a `VARIANT`. -/
abbrev VarType := UInt16

def vtEmpty : VarType := 0
def vtNull : VarType := 1
def vtBstr : VarType := 8
def vtDispatch : VarType := 9
def vtError : VarType := 10
def vtVariant : VarType := 12
def vtUnknown : VarType := 13
def vtDecimal : VarType := 14
def vtArray : VarType := 0x2000
def vtByref : VarType := 0x4000

/-- The types whose value is copied as the raw bytes of the payload union. -/
inductive ScalarType
  | i2 | i4 | r4 | r8 | cy | date | error | bool | i1 | ui1 | ui2 | ui4 | i8 | ui8 | int | uint
  deriving DecidableEq, Repr

/-- The tag of a scalar type. -/
def ScalarType.vt : ScalarType → VarType
  | .i2 => 2
  | .i4 => 3
  | .r4 => 4
  | .r8 => 5
  | .cy => 6
  | .date => 7
  | .error => 10
  | .bool => 11
  | .i1 => 16
  | .ui1 => 17
  | .ui2 => 18
  | .ui4 => 19
  | .i8 => 20
  | .ui8 => 21
  | .int => 22
  | .uint => 23

/-- The scalar type of a tag. -/
def ScalarType.ofVt (vt : VarType) : Option ScalarType :=
  match vt.toNat with
  | 2 => some .i2
  | 3 => some .i4
  | 4 => some .r4
  | 5 => some .r8
  | 6 => some .cy
  | 7 => some .date
  | 10 => some .error
  | 11 => some .bool
  | 16 => some .i1
  | 17 => some .ui1
  | 18 => some .ui2
  | 19 => some .ui4
  | 20 => some .i8
  | 21 => some .ui8
  | 22 => some .int
  | 23 => some .uint
  | _ => none

/-- `cBytes` of a scalar type (CVariantDictionary.cpp:664-681). -/
def ScalarType.size : ScalarType → ℕ
  | .i1 | .ui1 => 1
  | .i2 | .ui2 | .bool => 2
  | .i4 | .ui4 | .r4 | .int | .uint | .error => 4
  | .i8 | .ui8 | .cy | .r8 | .date => 8

/-- The element types whose arrays are copied as one block
(CVariantDictionary.cpp:539-543, 897-901). -/
def ScalarType.isBlock : ScalarType → Bool
  | .i1 | .ui1 | .i2 | .i4 | .r4 | .r8 | .cy | .date | .bool | .i8 => true
  | _ => false

@[simp] theorem ScalarType.ofVt_vt (t : ScalarType) : ScalarType.ofVt t.vt = some t := by
  cases t <;> rfl

theorem ScalarType.size_pos (t : ScalarType) : 0 < t.size := by cases t <;> decide

/-! ## Arrays -/

/-- `SAFEARRAYBOUND`: the extent and the lower bound of one dimension. -/
structure SafeArrayBound where
  cElements : BitVec 32
  lLbound : BitVec 32
  deriving DecidableEq, Repr

/-- The number of cells of an array. -/
def elementCount (bounds : List SafeArrayBound) : ℕ :=
  Odometer.count (fun b : SafeArrayBound => b.cElements.toNat) bounds

/-- The size of an array's cell on a 64-bit system, for the element types an array can
be created with. -/
def elemSize (vt : VarType) : Option ℕ :=
  match ScalarType.ofVt vt with
  | some t => some t.size
  | none =>
    if vt = vtBstr ∨ vt = vtDispatch ∨ vt = vtUnknown then some 8
    else if vt = vtVariant then some 24
    else if vt = vtDecimal then some 16
    else none

/-- `SafeArrayCreate`: the cell size when the array can be created. Rank and the data
block's size are bounded by the fields that hold them. -/
def safeArrayCreate (vt : VarType) (bounds : List SafeArrayBound) : Option ℕ :=
  match elemSize vt with
  | some cb =>
    if 0 < bounds.length ∧ bounds.length < 2 ^ 16 ∧ elementCount bounds * cb < 2 ^ 32 then some cb
    else none
  | none => none

/-- `SafeArrayPtrOfIndex`: the number of the cell at an index vector, `none` for a bad
index. The leftmost index varies fastest. -/
def safeArrayPtrOfIndex : List SafeArrayBound → List (BitVec 32) → Option ℕ
  | [], [] => some 0
  | b :: bs, i :: is =>
    if (i - b.lLbound).toNat < b.cElements.toNat then
      (safeArrayPtrOfIndex bs is).map fun k =>
        (i - b.lLbound).toNat + b.cElements.toNat * k
    else none
  | _, _ => none

/-- The index arithmetic of the component's carry loop, in wrapping 32-bit integers
(CVariantDictionary.cpp:603-644, 942-990). -/
def carryLoop : Odometer SafeArrayBound (BitVec 32) where
  lower b := b.lLbound
  next i := i + 1
  inside b i := i.slt (b.cElements + b.lLbound)
  below b i := i.slt (b.cElements + b.lLbound - 1)

/-- `lMemSize *= cElements` over the dimensions, in a 32-bit `LONG`. -/
def longProduct (bounds : List SafeArrayBound) : BitVec 32 :=
  bounds.foldl (fun n b => n * b.cElements) 1

/-! ## Variants -/

/-- An object reference: `live` objects are described by whether they support one of
the persistence interfaces and by the bytes their `Save` produces (`none` when it
fails), `packed` ones are the stream a stored object was read into. -/
inductive ComObject
  | null
  | live (persistable : Bool) (saved : Option (List UInt8))
  | packed (bytes : List UInt8)
  deriving DecidableEq

/-- A `VARIANT`. -/
inductive Variant
  | empty
  | null
  | scalar (t : ScalarType) (bits : BitVec (8 * t.size))
  /-- The fourteen bytes of a `DECIMAL` behind its tag. -/
  | decimal (d : BitVec (8 * 14))
  | bstr (s : Bstr)
  | dispatch (o : ComObject)
  | unknown (o : ComObject)
  /-- An array of a block type: the bytes of its data area. -/
  | blockArray (t : ScalarType) (bounds : List SafeArrayBound) (data : List UInt8)
  | bstrArray (bounds : List SafeArrayBound) (cells : List Bstr)
  | variantArray (bounds : List SafeArrayBound) (cells : List Variant)
  /-- An array of any other element type: the size of a cell and the bytes of its data
  area. -/
  | otherArray (vt : VarType) (cbElements : ℕ) (bounds : List SafeArrayBound)
      (data : List UInt8)
  /-- A null array pointer. -/
  | nullArray (vt : VarType)
  /-- A reference to a caller's array. -/
  | byrefArray (a : Variant)
  /-- Any other content: a tag and the twenty-two bytes behind it. -/
  | raw (vt : VarType) (payload : BitVec (8 * 22))

/-- The type tag. -/
def Variant.vt : Variant → VarType
  | .empty => vtEmpty
  | .null => vtNull
  | .scalar t _ => t.vt
  | .decimal _ => vtDecimal
  | .bstr _ => vtBstr
  | .dispatch _ => vtDispatch
  | .unknown _ => vtUnknown
  | .blockArray t _ _ => vtArray ||| t.vt
  | .bstrArray _ _ => vtArray ||| vtBstr
  | .variantArray _ _ => vtArray ||| vtVariant
  | .otherArray vt _ _ _ => vtArray ||| vt
  | .nullArray vt => vtArray ||| vt
  | .byrefArray a => vtByref ||| a.vt
  | .raw vt _ => vt

/-- The low part of the payload union as an `INT`, whatever the tag says; `pointer` is
the address a pointer payload holds. -/
def Variant.intVal (pointer : BitVec 64) : Variant → BitVec 32
  | .empty | .null => 0
  | .scalar _ bits => bits.setWidth 32
  | .decimal d => (d >>> 48).setWidth 32
  | .dispatch .null | .unknown .null | .nullArray _ => 0
  | .raw _ payload => (payload >>> 48).setWidth 32
  | _ => pointer.setWidth 32

/-- `VariantCopy` refuses a tag that names no type. A payload that is none of its
type is followed as a pointer. -/
def Variant.copy : Variant → Run HResult
  | .raw vt _ =>
    let base := vt &&& 0xFFF
    if vt &&& 0x9000 ≠ 0 ∨ (24 ≤ base ∧ base ≠ 36 ∧ base ≠ 72) ∨ base = 15 ∨
        (vt &&& 0x6000 ≠ 0 ∧ base ≤ vtNull) then pure .badVarType
    else if vt &&& vtByref = 0 ∧ (vt &&& vtArray ≠ 0 ∨ base = vtBstr ∨ base = vtDispatch ∨
        base = vtUnknown ∨ base = 36) then .error .fault
    else pure .sOk
  | _ => pure .sOk

/-- The `VARIANT` that twenty-four bytes of memory without pointers form: the tag and
the bytes behind it as a little-endian number, the payload union from the sixth on. -/
def Variant.ofMemory (vt : VarType) (payload : ℕ) : Variant :=
  if vt = vtEmpty then .empty
  else if vt = vtNull then .null
  else if vt = vtDecimal then .decimal (BitVec.ofNat _ payload)
  else
    match ScalarType.ofVt vt with
    | some t => .scalar t (BitVec.ofNat _ (payload / 256 ^ 6))
    | none => .raw vt (BitVec.ofNat _ payload)

end IspSession.Model
