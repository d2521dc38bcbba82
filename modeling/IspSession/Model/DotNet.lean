import IspSession.Model.Automation

/-!
# The .NET runtime under the managed code

Exceptions, and what the runtime does with strings. A managed string is a list of UTF-16
code units; a reference to an object may be null, which is the default value of the
object type.
-/

set_option autoImplicit false

namespace IspSession.Model

/-- The exceptions the managed code tells apart, or lets pass. -/
inductive NetException
  | argument
  | argumentNull
  | argumentOutOfRange
  | comError
  | corruptState
  | format
  | http
  | indexOutOfRange
  | invalidCast
  | invalidOperation
  | keyNotFound
  | notImplemented
  | notSupported
  | nullReference
  | outOfMemory
  | overflow
  | redisServer
  | typeLoad
  | fuel
  deriving DecidableEq, Repr

/-- A computation of the managed code. -/
abbrev NetRun := Except NetException

/-- A computation goes on with the value of its first part. -/
@[simp] theorem NetRun.ok_bind {α β : Type} (a : α) (f : α → NetRun β) :
    ((.ok a : NetRun α) >>= f) = f a := rfl

/-- It ends where its first part throws. -/
@[simp] theorem NetRun.error_bind {α β : Type} (e : NetException) (f : α → NetRun β) :
    ((.error e : NetRun α) >>= f) = .error e := rfl

@[simp] theorem NetRun.pure_eq {α : Type} (a : α) : (pure a : NetRun α) = .ok a := rfl

/-- A computation with a result has one at each of its parts. -/
theorem NetRun.bind_eq_ok {α β : Type} {x : NetRun α} {f : α → NetRun β} {b : β}
    (h : x >>= f = .ok b) : ∃ a, x = .ok a ∧ f a = .ok b := by
  cases x with
  | error e => cases h
  | ok a => exact ⟨a, rfl, h⟩

/-- A computation without an exception has a result. -/
theorem NetRun.eq_ok_of_toOption {α : Type} {x : NetRun α} {a : α} (h : x.toOption = some a) :
    x = .ok a := by
  cases x with
  | error e => cases h
  | ok b => exact congrArg Except.ok (Option.some.inj h)

/-- What the runtime does with strings: the order of `SortedSet<string>`, which is the
current culture's, and `GetHashCode`. -/
structure NetStrings where
  compare : Bstr → Bstr → Ordering
  getHashCode : Bstr → BitVec 32
  compare_trans : Std.TransCmp compare

instance (rt : NetStrings) : Std.TransCmp rt.compare := rt.compare_trans

/-- A runtime that orders strings by their code units, with a given hash, for runs on
concrete input. -/
def NetStrings.ordinal (getHashCode : Bstr → BitVec 32) : NetStrings where
  compare := List.compareLex Ord.compare
  getHashCode := getHashCode
  compare_trans := Bstr.instTransCmp

/-- The upper case letter of a letter of ASCII. -/
def upperAscii (c : UInt16) : UInt16 := if 97 ≤ c ∧ c ≤ 122 then c - 32 else c

/-- Capital letters in wide text and in bytes. -/
theorem toUInt8_upperAscii (u : UInt16) (hu : u < 128) : (upperAscii u).toUInt8 =
    (if 97 ≤ u.toUInt8 ∧ u.toUInt8 ≤ 122 then u.toUInt8 - 32 else u.toUInt8) ∧
      upperAscii u < 128 := by
  have hall : ∀ n < 128, (upperAscii (UInt16.ofNat n)).toUInt8 =
      (if 97 ≤ (UInt16.ofNat n).toUInt8 ∧ (UInt16.ofNat n).toUInt8 ≤ 122 then
        (UInt16.ofNat n).toUInt8 - 32 else (UInt16.ofNat n).toUInt8) ∧
      upperAscii (UInt16.ofNat n) < 128 := by decide
  have h := hall u.toNat hu
  rwa [UInt16.ofNat_toNat] at h

/-- The invariant culture, by what it does to ASCII. -/
structure InvariantCulture where
  toUpperInvariant : Bstr → Bstr
  toUpperInvariant_ascii : ∀ s, Library.AsciiUtf16 s → toUpperInvariant s = s.map upperAscii

/-- A culture that knows no other letters, for runs on concrete input. -/
def InvariantCulture.ascii : InvariantCulture where
  toUpperInvariant s := s.map upperAscii
  toUpperInvariant_ascii _ _ := rfl

end IspSession.Model
