import IspSession.Model.StreamManager
import IspSession.Model.ManagedStore

/-!
# The managed application cache (ApplicationCache.cs)

A dictionary of elements under their exact keys, the keys that have been removed, and how
both are loaded from Redis and saved. A `Dictionary` and a `HashSet` promise no order; here
the elements are enumerated in the order of their keys, the removed keys in the order in
which they were removed. Every member loads the cache first; a cache is loaded here.
-/

set_option autoImplicit false

namespace IspSession.Model

open IspSession.Library

/-- The order of keys by their code units. -/
abbrev ordinalCompare : Bstr → Bstr → Ordering := List.compareLex Ord.compare

/-- `ElementModel` (Data.cs:6-13). -/
structure ApplicationCache.ElementModel where
  Value : NetValue
  IsNew : Bool := false
  IsDirty : Bool := false
  IsSerialized : Bool := false
  ExpireAt : ℤ := 0

/-- An `ApplicationCache`. -/
structure ApplicationCache where
  dictionary : OrderedMap ordinalCompare ApplicationCache.ElementModel
  removed : List Bstr

namespace ApplicationCache

/-- The constructor. -/
def new : ApplicationCache where
  dictionary := .empty
  removed := []

/-- The bytes of a `byte[]`. -/
def bytesOf : NetValue → Option Bytes
  | .primitiveArray .byte bounds cells =>
    if bounds.isVector then some (memoryImage 1 cells) else none
  | _ => none

/-- The loader that `UnpackObject` decides for, and the bytes it hands on
(ApplicationCache.cs:157-208). -/
def unpackCall (value : NetValue) : NetRun StreamManager.LoaderCall :=
  match bytesOf value with
  | none => .error .argument
  | some [] => .error .indexOutOfRange
  | some (b :: memoryBuff) =>
    if b = 99 then
      match memoryBuff with
      | [] => .error .indexOutOfRange
      | c :: bytes => .ok (if c = 55 then .binaryFormatter bytes else .ole (b :: c :: bytes))
    else .ok (.ole (b :: memoryBuff))

/-- `UnpackObject`. -/
def unpackObject (loaders : NetLoaders) (value : NetValue) : NetRun NetValue := do
  let call ← unpackCall value
  call.run loaders

/-- `this[key]`, reading (ApplicationCache.cs:57-73). -/
def getItem (loaders : NetLoaders) (a : ApplicationCache) (key : Bstr) :
    NetRun (NetValue × ApplicationCache) :=
  match a.dictionary.find key with
  | none => .ok (.null, a)
  | some element =>
    if element.IsSerialized then do
      let Value ← unpackObject loaders element.Value
      let element := { element with Value, IsSerialized := false }
      pure (Value, { a with dictionary := a.dictionary.assign key element })
    else .ok (element.Value, a)

/-- `this[key]`, writing (ApplicationCache.cs:74-87). -/
def setItem (a : ApplicationCache) (key : Bstr) (value : NetValue) : ApplicationCache :=
  let element : ElementModel :=
    match a.dictionary.find key with
    | none => { Value := value, IsNew := true }
    | some _ => { Value := value, IsDirty := true }
  { a with dictionary := a.dictionary.upsert key element }

/-- `ExpireKeyAt` (ApplicationCache.cs:121-129). -/
def expireKeyAt (a : ApplicationCache) (key : Bstr) (ms : ℤ) : NetRun ApplicationCache :=
  match a.dictionary.find key with
  | none => .error .keyNotFound
  | some element =>
    .ok { a with dictionary := a.dictionary.assign key { element with ExpireAt := ms } }

/-- A key is noted as removed once. -/
def noteRemoved (removed : List Bstr) (key : Bstr) : List Bstr :=
  if key ∈ removed then removed else removed ++ [key]

/-- `RemoveAll` (ApplicationCache.cs:223-236). -/
def removeAll (a : ApplicationCache) : ApplicationCache where
  dictionary := .empty
  removed := a.dictionary.keys.foldl noteRemoved a.removed

/-- `KeyStates` (ApplicationCache.cs:283-318). -/
def keyStates (a : ApplicationCache) : KeyStates Bstr where
  changedKeys := (a.dictionary.entries.filter fun e => !e.2.IsNew && e.2.IsDirty).map Prod.fst
  newKeys := (a.dictionary.entries.filter fun e => e.2.IsNew).map Prod.fst
  otherKeys := (a.dictionary.entries.filter fun e => !e.2.IsNew && !e.2.IsDirty).map Prod.fst
  expireKeys := (a.dictionary.entries.filter fun e => decide (0 < e.2.ExpireAt)).map
    fun e => (e.1, e.2.ExpireAt)
  removedKeys := a.removed

/-- `SerializeKey` (ApplicationCache.cs:320-330). -/
def serializeKey (rt : NetRuntime) (a : ApplicationCache) (key : Bstr) : NetRun Bytes :=
  match a.dictionary.find key with
  | none => .error .keyNotFound
  | some element => do
    let str ← StreamManager.writeString key CStream.new
    let str := str.write (leBytes 2 element.Value.vt.toNat)
    let str ← StreamManager.writeValue rt element.Value str
    pure str.buf

/-- The element that `DeserializeKey` stores (ApplicationCache.cs:337-341). -/
def storedElement (vt : VarType) (value : NetValue) : ElementModel where
  Value := value
  IsSerialized := decide (vt = vtDispatch ∨ vt = vtUnknown) ||
    (decide (vt = vtVariant) && (bytesOf value).isSome)

/-- `DeserializeKey` (ApplicationCache.cs:332-343). -/
def deserializeKey (rt : NetRuntime) (loaders : NetLoaders) (a : ApplicationCache)
    (binaryString : Bytes) : NetRun ApplicationCache := do
  let util := StreamManager.new ⟨binaryString, 0⟩ true
  let (key, util) ← util.readString
  let (vt, util) := util.readNumber 2
  let (value, _) ← StreamManager.readValue rt loaders (binaryString.length + 2) (UInt16.ofNat vt) util
  pure { a with dictionary := a.dictionary.upsert key (storedElement (UInt16.ofNat vt) value) }

end ApplicationCache

namespace CSessionDL

/-- The loop of `ApplicationGet` over the values: what is null or empty is passed over. -/
def deserializeKeys (rt : NetRuntime) (loaders : NetLoaders) :
    List (Option Bytes) → ApplicationCache → NetRun ApplicationCache
  | [], a => .ok a
  | none :: values, a => deserializeKeys rt loaders values a
  | some value :: values, a =>
    if value = [] then deserializeKeys rt loaders values a
    else do
      let a ← a.deserializeKey rt loaders value
      deserializeKeys rt loaders values a

/-- `ApplicationGet` (CSessionDL.cs:55-73), where `keymembers` is the reply of `SMEMBERS`. -/
def applicationGet (rt : NetRuntime) (loaders : NetLoaders) (database : Keyspace)
    (keymembers : List Bytes) : NetRun ApplicationCache :=
  deserializeKeys rt loaders (database.mget keymembers) .new

/-- The records of keys, in their order. -/
def serializeKeys (rt : NetRuntime) (culture : InvariantCulture) (AppKey : Bstr)
    (a : ApplicationCache) : List Bstr → NetRun (List (Bytes × Bytes))
  | [] => .ok []
  | key :: keys => do
    let bytes ← a.serializeKey rt key
    let pairs ← serializeKeys rt culture AppKey a keys
    pure ((redisKey culture AppKey key, bytes) :: pairs)

/-- `ApplicationSave` (CSessionDL.cs:75-119): the set is changed before the records are
made, so that it stays changed when one of them cannot be made. -/
def applicationSave (rt : NetRuntime) (culture : InvariantCulture) (AppKey : Bstr)
    (database : Keyspace) (a : ApplicationCache) : NetRun Unit × Keyspace :=
  let states := a.keyStates
  match serializeKeys rt culture AppKey a (states.newKeys ++ states.changedKeys) with
  | .ok multipleSet => (.ok (), database.executeAll (saveCommands culture AppKey states multipleSet))
  | .error e =>
    (.error e, database.executeAll
      (saveCommands culture AppKey { states with expireKeys := [] } []))

end CSessionDL

end IspSession.Model
