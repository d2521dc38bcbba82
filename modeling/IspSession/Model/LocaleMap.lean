import IspSession.Library.SearchTree
import IspSession.Model.Automation

/-!
# The map of a dictionary under changing locales

The variables of a session and the elements of an application are kept in a `std::map`,
whose predicate asks for the locale of the thread at every comparison (TextComparer.h,
Application.h:48-55). `put_LCID` changes that locale, and so does `dbInit` once the
variables are loaded (Session.cpp:567-588, 1068-1080).

The calls are those on one map, with what they do to the value under a key. A caller's key
is looked up by the part in front of its first zero, a key that is loaded as a whole. How
the library balances the tree when it adds or removes a node is up to it, as long as the
entries keep their order.

The state keeps, as a history, the keys that calls have named and what is expected under
each of them.
-/

set_option autoImplicit false

namespace IspSession.Model

open IspSession.Library

/-- Another tree with the same entries. -/
structure Balancing (ν : Type) where
  run : SearchTree Bstr ν → SearchTree Bstr ν
  entries_run : ∀ t, (run t).entries = t.entries

/-- The tree as it is. -/
def Balancing.none (ν : Type) : Balancing ν where
  run t := t
  entries_run _ := rfl

/-- What the calls do to the map. -/
inductive MapCall (ν : Type)
  /-- `RemoveAll`, with which `LocalLoad` begins. -/
  | clear
  /-- An item that is loaded. -/
  | insert (key : Bstr) (item : ν)
  /-- An item that is loaded over the one that is there (`DeserializeKey`). -/
  | load (key : Bstr) (fresh : ν) (change : ν → ν)
  /-- A put: the key is looked up, added and looked up again where it was not found, and
  what is under it is changed. -/
  | put (key : Bstr) (fresh : ν) (change : ν → ν)
  /-- A get or `get_Exists`: what is found may be changed, as a stream is into its object. -/
  | get (key : Bstr) (change : ν → ν)
  | remove (key : Bstr)

namespace MapCall

variable {ν : Type}

/-- The key a call names. -/
def key : MapCall ν → Option Bstr
  | clear => none
  | insert key _ | load key _ _ | put key _ _ | get key _ | remove key => some key

/-- The call with the key it is looked up by. -/
def lookedUp : MapCall ν → MapCall ν
  | put key fresh change => put (lpcolestr key) fresh change
  | get key change => get (lpcolestr key) change
  | remove key => remove (lpcolestr key)
  | c => c

/-- What a call does to the tree. -/
def onTree (b : Balancing ν) (loc : Collation) (t : SearchTree Bstr ν) :
    MapCall ν → Run (SearchTree Bstr ν)
  | clear => pure .leaf
  | insert key item => pure (b.run (t.insert loc.compare key item))
  | load key fresh change =>
    let t := b.run (t.insert loc.compare key fresh)
    if (t.find loc.compare key).isSome then
      pure (t.alter loc.compare key fun v => some (change v))
    else .error .fault
  | put key fresh change =>
    let t :=
      if (t.find loc.compare key).isSome then t else b.run (t.insert loc.compare key fresh)
    -- the iterator is dereferenced without another look at it
    if (t.find loc.compare key).isSome then
      pure (t.alter loc.compare key fun v => some (change v))
    else .error .fault
  | get key change => pure (t.alter loc.compare key fun v => some (change v))
  | remove key => pure (b.run (t.alter loc.compare key fun _ => Option.none))

/-- What it does to a map that is ordered by the locale. -/
def onMap {loc : Collation} (m : OrderedMap loc.compare ν) :
    MapCall ν → OrderedMap loc.compare ν
  | clear => .empty
  | insert key item => m.insert key item
  | load key fresh change | put key fresh change => (m.insert key fresh).modify key change
  | get key change => m.modify key change
  | remove key => m.erase key

/-- What is expected under a key after the call. -/
def expects (loc : Collation) (expected : Bstr → Option ν) (c : MapCall ν) (key' : Bstr) :
    Option ν :=
  match c with
  | clear => Option.none
  | insert key item =>
    (expected key').or (if loc.compare key' key = .eq then some item else Option.none)
  | load key fresh change | put key fresh change =>
    if loc.compare key' key = .eq then some (change ((expected key').getD fresh))
    else expected key'
  | get key change =>
    if loc.compare key' key = .eq then (expected key').map change else expected key'
  | remove key => if loc.compare key' key = .eq then Option.none else expected key'

end MapCall

/-- What can happen next. -/
inductive LocaleEvent (ν : Type)
  | setThreadLocale (loc : Collation)
  | call (b : Balancing ν) (c : MapCall ν)

/-- The map and the locale of the thread. -/
structure LocaleMap (ν : Type) where
  loc : Collation
  tree : SearchTree Bstr ν
  named : List Bstr
  expected : Bstr → Option ν

namespace LocaleMap

variable {ν : Type}

/-- Noting a key. What is expected under a key that is named for the first time is what is
expected under one the locale does not tell from it. -/
def note (σ : LocaleMap ν) (key : Bstr) : LocaleMap ν :=
  if key ∈ σ.named then σ
  else
    { σ with
      named := key :: σ.named
      expected := Function.update σ.expected key
        ((σ.named.find? fun k => σ.loc.compare key k == .eq).bind σ.expected) }

/-- Noting the key of a call. -/
def noteCall (σ : LocaleMap ν) (c : MapCall ν) : LocaleMap ν :=
  match c.key with
  | none => σ
  | some key => σ.note key

/-- The next step. -/
def step (σ : LocaleMap ν) : LocaleEvent ν → Run (LocaleMap ν)
  | .setThreadLocale loc => pure { σ with loc }
  | .call b c => do
    let tree ← c.lookedUp.onTree b σ.loc σ.tree
    let σ := σ.noteCall c
    pure { σ with tree, expected := c.expects σ.loc σ.expected }

/-- An empty map. -/
def start (loc : Collation) : LocaleMap ν where
  loc
  tree := .leaf
  named := []
  expected := fun _ => none

end LocaleMap

end IspSession.Model
