import IspSession.Model.StreamManager
import IspSession.Model.StateItemCollection

/-!
# The managed session payload (PersistUtil.cs)

A payload is a list of properties: the number of items under the name `Els`, then the items
in the order of their names. Without compression it is the whole stream.
-/

set_option autoImplicit false

namespace IspSession.Model

open IspSession.Library

namespace PersistUtil

/-- `WriteProperty` (PersistUtil.cs:106-125): the place of the next position is filled when
the value has been written. -/
def writeProperty (rt : NetRuntime) (propName : Bstr) (data : NetValue) (str : MemoryStream) :
    NetRun MemoryStream := do
  let str ← StreamManager.writeString propName str
  let keepPointer := str.pos
  let str := (str.write (leBytes 4 keepPointer)).write (leBytes 2 data.vt.toNat)
  let str ← StreamManager.writeValue rt data str
  let curPos := str.pos
  pure (((str.seekSet keepPointer).write (leBytes 4 curPos)).seekSet curPos)

/-- The loop of `LocalContents` over the names. -/
def writeProperties {strings : NetStrings} (rt : NetRuntime)
    (items : StateItemCollection strings NetValue) : List Bstr → MemoryStream → NetRun MemoryStream
  | [], str => .ok str
  | key :: keys, str => do
    let value ← items.getName key
    let str ← writeProperty rt key value str
    writeProperties rt items keys str

/-- `LocalContents` without compression: the bytes and their number
(PersistUtil.cs:22-64). -/
def localContents {strings : NetStrings} (rt : NetRuntime)
    (items : StateItemCollection strings NetValue) : NetRun (Bytes × ℕ) := do
  let itemCount : NetValue := .primitive .int32 (BitVec.ofNat 32 items.count)
  let str ← writeProperty rt (Bstr.ofString "Els") itemCount CStream.new
  let str ← writeProperties rt items items.keys str
  pure (str.buf, str.pos)

/-- `ReadProperty` (PersistUtil.cs:127-138), whose assertion only debug builds make. -/
def readProperty (rt : NetRuntime) (loaders : NetLoaders) (m : StreamManager) :
    NetRun (Bstr × NetValue × StreamManager) := do
  let (keyName, m) ← m.readString
  let (_, m) := m.readNumber 4
  let (vT, m) := m.readNumber 2
  let (data, m) ← StreamManager.readValue rt loaders (m.str.buf.length + 2) (UInt16.ofNat vT) m
  pure (keyName, data, m)

/-- The loop of `LocalLoad`: `cx` properties, those without a name passed over. -/
def loadProperties {strings : NetStrings} (rt : NetRuntime) (loaders : NetLoaders) :
    ℕ → StreamManager → StateItemCollection strings NetValue →
      NetRun (StateItemCollection strings NetValue)
  | 0, _, retVal => .ok retVal
  | cx + 1, m, retVal => do
    let (sTemp, varTemp, m) ← readProperty rt loaders m
    let retVal ← if sTemp = [] then pure retVal else retVal.setName sTemp varTemp
    loadProperties rt loaders cx m retVal

/-- `(int)varTemp`. -/
def unboxInt : NetValue → NetRun (BitVec 32)
  | .null => .error .nullReference
  | .primitive .int32 bits => .ok bits
  | _ => .error .invalidCast

/-- `LocalLoad` (PersistUtil.cs:78-103). -/
def localLoad {strings : NetStrings} (rt : NetRuntime) (loaders : NetLoaders) (payload : Bytes) :
    NetRun (StateItemCollection strings NetValue) := do
  let (sTemp, varTemp, m) ← readProperty rt loaders (StreamManager.new ⟨payload, 0⟩ false)
  if sTemp ≠ Bstr.ofString "Els" then .error .corruptState
  else do
    let lVDictElements ← unboxInt varTemp
    if lVDictElements.toInt < 0 ∨ 32767 < lVDictElements.toInt then .error .corruptState
    else loadProperties rt loaders lVDictElements.toNat m .new

end PersistUtil

end IspSession.Model
