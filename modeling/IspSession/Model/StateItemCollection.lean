import IspSession.Model.DotNet
import IspSession.Library.OrderedMap
import Mathlib.Logic.Function.Basic

/-!
# The managed item collection (ISPSessionStateItemCollection2.cs)

The names of the items are a sorted set; their values are in a dictionary under the hash
code of the name alone. `Operation` collects the members a caller reads and changes the
items by, `perform` is their effect: an exception leaves the collection as it was.
-/

set_option autoImplicit false

namespace IspSession.Model

open IspSession.Library

/-- An `ISPSessionStateItemCollection2` of objects `Obj`, whose default is null. -/
structure StateItemCollection (rt : NetStrings) (Obj : Type) where
  entriesTable : OrderedMap rt.compare Unit
  entries : BitVec 32 → Option Obj
  dirty : Bool
  isReadOnly : Bool
  isNew : Bool

namespace StateItemCollection

variable {rt : NetStrings} {Obj : Type} [Inhabited Obj]

/-- The constructor (ISPSessionStateItemCollection2.cs:13-18). -/
def new : StateItemCollection rt Obj where
  entriesTable := .empty
  entries _ := none
  dirty := false
  isReadOnly := false
  isNew := false

/-- `Count`. -/
def count (s : StateItemCollection rt Obj) : ℕ := s.entriesTable.size

/-- `Keys`. -/
def keys (s : StateItemCollection rt Obj) : List Bstr := s.entriesTable.keys

/-- `_entriesTable.Contains(name)`. -/
def contains (s : StateItemCollection rt Obj) (name : Bstr) : Bool :=
  (s.entriesTable.find name).isSome

/-- `_entries[name.GetHashCode()]`. -/
def entry (s : StateItemCollection rt Obj) (name : Bstr) : NetRun Obj :=
  match s.entries (rt.getHashCode name) with
  | some value => .ok value
  | none => .error .keyNotFound

/-- `this[string]`, reading (ISPSessionStateItemCollection2.cs:35-48). -/
def getName (s : StateItemCollection rt Obj) (name : Bstr) : NetRun Obj :=
  if name = [] then .error .argumentNull
  else if s.contains name then s.entry name
  else .ok default

/-- `this[string]`, writing (ISPSessionStateItemCollection2.cs:49-62). -/
def setName (s : StateItemCollection rt Obj) (name : Bstr) (value : Obj) :
    NetRun (StateItemCollection rt Obj) :=
  if name = [] then .error .argumentNull
  else
    .ok { s with
      entriesTable := s.entriesTable.insert name ()
      dirty := true
      entries := Function.update s.entries (rt.getHashCode name) (some value) }

/-- The guard of the positional members (ISPSessionStateItemCollection2.cs:69, 87, 168). -/
def outside (s : StateItemCollection rt Obj) (index : ℤ) : Bool :=
  decide (index < 0 ∨ (s.count : ℤ) < index)

/-- `this[int]`, reading (ISPSessionStateItemCollection2.cs:67-84). -/
def getIndex (s : StateItemCollection rt Obj) (index : ℤ) : NetRun Obj :=
  if s.outside index then .error .argumentOutOfRange
  else
    match s.keys[index.toNat]? with
    | some i => s.entry i
    | none => .ok default

/-- `this[int]`, writing (ISPSessionStateItemCollection2.cs:85-102). -/
def setIndex (s : StateItemCollection rt Obj) (index : ℤ) (value : Obj) :
    NetRun (StateItemCollection rt Obj) :=
  if s.outside index then .error .argumentOutOfRange
  else
    match s.keys[index.toNat]? with
    | some i =>
      .ok { s with
        entries := Function.update s.entries (rt.getHashCode i) (some value)
        dirty := true }
    | none => .ok s

/-- `Clear` (ISPSessionStateItemCollection2.cs:124-130). -/
def clear (s : StateItemCollection rt Obj) : StateItemCollection rt Obj :=
  { s with
    entriesTable := .empty
    entries := fun _ => none
    dirty := s.dirty || decide (0 < s.count) }

/-- `Remove` (ISPSessionStateItemCollection2.cs:146-157). -/
def remove (s : StateItemCollection rt Obj) (name : Bstr) : StateItemCollection rt Obj :=
  if s.contains name then
    { s with
      entriesTable := s.entriesTable.erase name
      entries := Function.update s.entries (rt.getHashCode name) none
      dirty := true }
  else s

/-- `RemoveAt` (ISPSessionStateItemCollection2.cs:168-187). -/
def removeAt (s : StateItemCollection rt Obj) (index : ℤ) :
    NetRun (StateItemCollection rt Obj) :=
  if s.outside index then .error .argumentOutOfRange
  else
    match s.keys[index.toNat]? with
    | some i =>
      .ok { s with
        entriesTable := s.entriesTable.erase i
        entries := Function.update s.entries (rt.getHashCode i) none
        dirty := true }
    | none => .ok s

/-- The members by which a caller reads and changes the items. -/
inductive Operation (Obj : Type)
  | getName (name : Bstr)
  | getIndex (index : ℤ)
  | setName (name : Bstr) (value : Obj)
  | setIndex (index : ℤ) (value : Obj)
  | remove (name : Bstr)
  | removeAt (index : ℤ)
  | clear

/-- What a changing member leaves: the collection as it was when it throws. -/
def changing (s : StateItemCollection rt Obj) (r : NetRun (StateItemCollection rt Obj)) :
    NetRun Obj × StateItemCollection rt Obj :=
  match r with
  | .ok s' => (.ok default, s')
  | .error e => (.error e, s)

/-- What an operation returns, null for one without a result, and leaves. -/
def perform (s : StateItemCollection rt Obj) :
    Operation Obj → NetRun Obj × StateItemCollection rt Obj
  | .getName name => (s.getName name, s)
  | .getIndex index => (s.getIndex index, s)
  | .setName name value => s.changing (s.setName name value)
  | .setIndex index value => s.changing (s.setIndex index value)
  | .remove name => (.ok default, s.remove name)
  | .removeAt index => s.changing (s.removeAt index)
  | .clear => (.ok default, s.clear)

end StateItemCollection

end IspSession.Model
