import IspSession.Model.Application

/-!
# Keys by number and by enumeration (CEnum.h, CVariantDictionary.cpp, Application.cpp)

`get_Key` counts through a map. `_NewEnum` copies the keys of a map into a vector of strings and
leaves it to a `CCEnum`, which keeps two 32-bit numbers: the next cell and the number of cells.
-/

set_option autoImplicit false

namespace IspSession.Model

open IspSession.Library

/-- A `CCEnum` over a vector of strings. -/
structure CCEnum where
  curel : BitVec 32
  maxel : BitVec 32
  psaCopy : List Bstr
  deriving DecidableEq

namespace CCEnum

/-- `Next` (CEnum.h:39-68): the number asked for has no name there, and one string is handed out. -/
def next (e : CCEnum) (_ : BitVec 32) : Run (HResult × List Bstr × CCEnum) :=
  if e.curel < e.maxel then
    match e.psaCopy[e.curel.toNat]? with
    | some key => pure (.sOk, [key], { e with curel := e.curel + 1 })
    | none => .error .fault
  else pure (.sFalse, [], e)

/-- `Reset` (CEnum.h:73-77). -/
def reset (e : CCEnum) : CCEnum := { e with curel := 0 }

/-- `Skip` (CEnum.h:79-87). -/
def skip (e : CCEnum) (celt : BitVec 32) : HResult × CCEnum :=
  if e.curel + celt < e.maxel then (.sOk, { e with curel := e.curel + celt })
  else (.sFalse, e)

end CCEnum

/-- The calls of an enumerator. -/
inductive EnumCall
  | next (celt : BitVec 32)
  | skip (celt : BitVec 32)
  | reset

/-- The result of a call, the keys it hands out and the enumerator after it. -/
def CCEnum.perform (e : CCEnum) : EnumCall → Run (HResult × List Bstr × CCEnum)
  | .next celt => e.next celt
  | .skip celt =>
    let (hr, e) := e.skip celt
    pure (hr, [], e)
  | .reset => pure (.sOk, [], e.reset)

/-- `_NewEnum` of both dictionaries (CVariantDictionary.cpp:251-278, Application.cpp:397-429): the
number of cells is a `ULONG`, and the keys behind them would be written past the vector. -/
def newEnum (keys : List Bstr) : Run (HResult × Option CCEnum) :=
  let size := BitVec.ofNat 32 keys.length
  match safeArrayCreate vtBstr [⟨size, 0⟩] with
  | none => pure (.eOutOfMemory, none)
  | some _ =>
    if keys.length ≤ size.toNat then pure (.sOk, some { curel := 0, maxel := size, psaCopy := keys })
    else .error .fault

/-- `_NewEnum` of a dictionary. -/
def VariantDictionary.newEnum {loc : Collation} (d : VariantDictionary loc) :
    Run (HResult × Option CCEnum) := Model.newEnum d.dictionary.keys

/-- `_NewEnum` of an application. -/
def CApplication.newEnum {loc : Collation} (a : CApplication loc) :
    Run (HResult × Option CCEnum) := Model.newEnum a.dictionary.keys

/-- `get_Key` of an application (Application.cpp:333-357): the index is an `INT`, and one past the
last is let through without a key. -/
def CApplication.getKey {loc : Collation} (a : CApplication loc) (Index : BitVec 32) :
    HResult × Option Bstr :=
  if Index.toInt < 1 ∨ (a.dictionary.size : ℤ) + 1 < Index.toInt then (.eInvalidArg, none)
  else (.sOk, a.dictionary.keys[Index.toInt.toNat - 1]?)

end IspSession.Model
