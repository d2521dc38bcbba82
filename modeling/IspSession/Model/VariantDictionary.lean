import IspSession.Model.Codec
import IspSession.Library.OrderedMap

/-!
# The session dictionary `CVariantDictionary` (CVariantDictionary.cpp)

A map from names to variants, ordered by the locale's comparison without case, together
with the flags of the variables that still are the stream they were loaded as, the dirty
flag and the read-only flag. `localContents` writes it to a fresh stream, `localLoad`
reads it back.

Names are the strings `ChangeType` makes of the caller's key, looked up and added as
zero-terminated strings; `localLoad` alone adds a whole name. A null name and an empty one
are the same.
-/

set_option autoImplicit false

namespace IspSession.Model

open IspSession.Library

/-- A `VARIANT` argument: a value, or a reference to a caller's `VARIANT`. -/
inductive Argument
  | value (v : Variant)
  | byrefVariant (v : Variant)

/-- The type tag of an argument. -/
def Argument.vt : Argument → VarType
  | .value v => v.vt
  | .byrefVariant _ => vtByref ||| vtVariant

/-- The value `put_Item` stores for an argument (CVariantDictionary.cpp:107-116). Any
reference whose tag has the bits of `VT_VARIANT` is followed as one to a `VARIANT`. -/
def Argument.deref : Argument → Run Variant
  | .byrefVariant v => pure v
  | .value (.byrefArray a) => pure a
  | .value (.raw vt payload) =>
    if vt &&& (vtByref ||| vtArray) = vtByref ||| vtArray ∨
        vt &&& (vtVariant ||| vtByref) = vtVariant ||| vtByref then .error .fault
    else pure (.raw vt payload)
  | .value v => pure v

/-- The object behind `pdispVal` of a value that need not be an object: none for a null
payload, otherwise a wild pointer. -/
def Variant.pdispVal : Variant → Run ComObject
  | .dispatch o | .unknown o => pure o
  | .empty | .null | .nullArray _ => pure .null
  | .scalar _ bits => if bits.toNat = 0 then pure .null else .error .fault
  | .raw vt payload =>
    if vt &&& (vtVariant ||| vtByref) = vtVariant ||| vtByref then .error .fault
    else if (payload >>> 48).setWidth 64 = 0#64 then pure .null
    else .error .fault
  | _ => .error .fault

/-- The object supports `IPersistStream` or `IPersistStreamInit`. -/
def ComObject.persistable : ComObject → Bool
  | .live persistable _ => persistable
  | _ => false

/-- A `CVariantDictionary`. -/
structure VariantDictionary (loc : Collation) where
  dictionary : OrderedMap loc.compare Variant
  isserialized : OrderedMap loc.compare Bool
  blnDirty : Bool
  readOnly : Bool
  m_currentBufLen : ℕ

namespace VariantDictionary

variable {loc : Collation}

/-- `FinalConstruct` (CVariantDictionary.h:28-40). -/
def new : VariantDictionary loc where
  dictionary := .empty
  isserialized := .empty
  blnDirty := false
  readOnly := false
  m_currentBufLen := 0x1000 / 2

/-- The dictionary with a conversion buffer of another length. -/
def withBuffer (d : VariantDictionary loc) (m_currentBufLen : ℕ) : VariantDictionary loc :=
  { d with m_currentBufLen }

@[simp] theorem withBuffer_withBuffer (d : VariantDictionary loc) (b b' : ℕ) :
    (d.withBuffer b).withBuffer b' = d.withBuffer b' := rfl

@[simp] theorem dictionary_withBuffer (d : VariantDictionary loc) (b : ℕ) :
    (d.withBuffer b).dictionary = d.dictionary := rfl

@[simp] theorem isserialized_withBuffer (d : VariantDictionary loc) (b : ℕ) :
    (d.withBuffer b).isserialized = d.isserialized := rfl

@[simp] theorem blnDirty_withBuffer (d : VariantDictionary loc) (b : ℕ) :
    (d.withBuffer b).blnDirty = d.blnDirty := rfl

@[simp] theorem readOnly_withBuffer (d : VariantDictionary loc) (b : ℕ) :
    (d.withBuffer b).readOnly = d.readOnly := rfl

/-- The variable is flagged as a stream that has not been loaded yet. -/
def isSerialized (d : VariantDictionary loc) (key : Bstr) : Bool :=
  d.isserialized.find (lpcolestr key) = some true

@[simp] theorem isSerialized_lpcolestr (d : VariantDictionary loc) (key : Bstr) :
    d.isSerialized (lpcolestr key) = d.isSerialized key := by
  rw [isSerialized, lpcolestr_lpcolestr, isSerialized]

/-! ## Variables -/

/-- A `VARIANT` that names a variable: the string `ChangeType` makes of it, and the text
found where its payload is taken for a string, none for a wild pointer. -/
structure VariantKey where
  keycopy : Bstr
  bstrVal : Option Bstr

/-- A `VT_BSTR` as a key. -/
def VariantKey.bstr (name : Bstr) : VariantKey where
  keycopy := name
  bstrVal := some name

/-- `get_Item` of an object (CVariantDictionary.cpp:34-82): one that is still flagged is
loaded from its stream first, by `oleLoad`. The flag is looked up by the text of the
payload. -/
def getObject (oleLoad : List UInt8 → Option ComObject) (d : VariantDictionary loc)
    (varKey : VariantKey) (wrap : ComObject → Variant) (o : ComObject) :
    Run (HResult × Variant × VariantDictionary loc) :=
  match varKey.bstrVal with
  | none => .error .fault
  | some bstrVal =>
    if d.isSerialized bstrVal then
      let loaded (v : Variant) : VariantDictionary loc :=
        { d with
          dictionary := d.dictionary.assign (lpcolestr varKey.keycopy) v
          isserialized := d.isserialized.assign (lpcolestr bstrVal) false }
      match o with
      | .packed bytes =>
        match oleLoad bytes with
        | some o => pure (.sOk, wrap o, loaded (wrap o))
        | none => pure (.eFail, .empty, loaded .empty)
      | _ => .error .fault
    else if o = .null then .error .fault
    else pure (.sOk, wrap o, d)

/-- `get_Item` (CVariantDictionary.cpp:20-90). -/
def getVariable (oleLoad : List UInt8 → Option ComObject) (d : VariantDictionary loc)
    (varKey : VariantKey) : Run (HResult × Variant × VariantDictionary loc) :=
  match d.dictionary.find (lpcolestr varKey.keycopy) with
  | none => pure (.sOk, .empty, d)
  | some (.unknown o) => d.getObject oleLoad varKey .unknown o
  | some (.dispatch o) => d.getObject oleLoad varKey .dispatch o
  | some v => pure (.sOk, v, d)

/-- `get_Item` of a `VT_BSTR`. -/
def getItem (oleLoad : List UInt8 → Option ComObject) (d : VariantDictionary loc)
    (key : Bstr) : Run (HResult × Variant × VariantDictionary loc) :=
  d.getVariable oleLoad (.bstr key)

/-- `put_Item` (CVariantDictionary.cpp:92-159). An object is replaced by its default
property; `defaults` are the results of asking for it, one after the other, until an
object does not answer. -/
def putItem (d : VariantDictionary loc) (key : Bstr) (newVal : Argument)
    (defaults : List Variant) : Run (HResult × VariantDictionary loc) :=
  if d.readOnly then pure (.eFail, d)
  else do
    let vDeref ← newVal.deref
    let d := { d with dictionary := d.dictionary.insert (lpcolestr key) .empty }
    match vDeref with
    | .dispatch .null => pure (.ePointer, { d with blnDirty := true })
    | .dispatch _ =>
      match defaults with
      | [] => pure (.sOk, { d with blnDirty := true })
      | varResolved :: defaults => do
        let (hr, d) ← putItem d key (.value varResolved) defaults
        pure (hr, { d with blnDirty := true })
    | v => do
      -- the assignment throws out of a `noexcept` function
      if (← v.copy).failed then .error .fault
      else
        pure (.sOk, { d with
          dictionary := d.dictionary.assign (lpcolestr key) v, blnDirty := true })

/-- `putref_Item` (CVariantDictionary.cpp:162-226): the key is added before the object is
tested, and the dirty flag is left alone. -/
def putrefItem (d : VariantDictionary loc) (key : Bstr) (newVal : Argument) :
    Run (HResult × VariantDictionary loc) :=
  if d.readOnly then pure (.eFail, d)
  else if newVal.vt &&& vtDispatch = vtDispatch ∨ newVal.vt &&& vtUnknown = vtUnknown then
    let d := { d with dictionary := d.dictionary.insert (lpcolestr key) .empty }
    match newVal with
    | .value v => do
      if (← v.pdispVal).persistable then
        pure (.sOk, { d with dictionary := d.dictionary.assign (lpcolestr key) v })
      else pure (.eNoInterface, d)
    | .byrefVariant _ => .error .fault
  else pure (.ePointer, d)

/-- A `VARIANT` as `keycopy.ChangeType(VT_BSTR, &varKey)` sees it: a name, or a failure that
leaves the copy empty. -/
inductive KeyArgument
  | named (varKey : VariantKey)
  | unnamed (hr : HResult) (failed : hr.failed = true)

/-- The calls of `get_Item`, `put_Item` and `putref_Item` with a key of any type. -/
inductive ItemCall
  | getItem (varKey : KeyArgument)
  | putItem (varKey : KeyArgument) (newVal : Argument) (defaults : List Variant)
  | putrefItem (varKey : KeyArgument) (newVal : Argument)

/-- The result of such a call and the dictionary after it. With a key that has no name, `get_Item`
looks under the empty one, `put_Item` stops and `putref_Item` goes on, keeping the result code
when it succeeds. -/
def callItem (oleLoad : List UInt8 → Option ComObject) (d : VariantDictionary loc) :
    ItemCall → Run (HResult × VariantDictionary loc)
  | .getItem (.named varKey) => do
    let (hr, _, d) ← d.getVariable oleLoad varKey
    pure (hr, d)
  | .getItem (.unnamed hr _) => pure (if (d.dictionary.find []).isSome then hr else .sOk, d)
  | .putItem (.named varKey) newVal defaults => d.putItem varKey.keycopy newVal defaults
  | .putItem (.unnamed hr _) newVal _ =>
    if d.readOnly then pure (.eFail, d)
    else do
      let _ ← newVal.deref
      pure (hr, d)
  | .putrefItem (.named varKey) newVal => d.putrefItem varKey.keycopy newVal
  | .putrefItem (.unnamed hr _) newVal => do
    let (hrPut, d) ← d.putrefItem [] newVal
    pure (if hrPut = .sOk then hr else hrPut, d)

/-- `Remove` (CVariantDictionary.cpp:280-312). -/
def remove (d : VariantDictionary loc) (key : Bstr) : VariantDictionary loc :=
  let isObject :=
    match d.dictionary.find (lpcolestr key) with
    | some v => decide (v.vt = vtUnknown ∨ v.vt = vtDispatch)
    | none => false
  { d with
    dictionary := d.dictionary.erase (lpcolestr key)
    isserialized :=
      if isObject then d.isserialized.erase (lpcolestr key) else d.isserialized
    blnDirty := true }

/-- `RemoveAll` (CVariantDictionary.cpp:314-330): the dirty flag is left alone. -/
def removeAll (d : VariantDictionary loc) : VariantDictionary loc :=
  { d with dictionary := .empty, isserialized := .empty }

/-- The calls by which a caller changes the variables. -/
inductive Mutation
  | putItem (key : Bstr) (newVal : Argument) (defaults : List Variant)
  | putrefItem (key : Bstr) (newVal : Argument)
  | remove (key : Bstr)
  | removeAll

/-- The dictionary after a call, whatever its result says. -/
def mutate (d : VariantDictionary loc) : Mutation → Run (VariantDictionary loc)
  | .putItem key newVal defaults => do
    let (_, d) ← d.putItem key newVal defaults
    pure d
  | .putrefItem key newVal => do
    let (_, d) ← d.putrefItem key newVal
    pure d
  | .remove key => pure (d.remove key)
  | .removeAll => pure d.removeAll

/-- `get_Exists` (CVariantDictionary.cpp:1127-1138). -/
def getExists (d : VariantDictionary loc) (key : Bstr) : Bool :=
  (d.dictionary.find (lpcolestr key)).isSome

/-- `get_Key` (CVariantDictionary.cpp:228-249): the index one past the last is let
through without a key. -/
def getKey (d : VariantDictionary loc) (keyIndex : BitVec 32) : HResult × Option Bstr :=
  if keyIndex.toNat < 1 ∨ d.dictionary.size + 1 < keyIndex.toNat then (.eInvalidArg, none)
  else (.sOk, d.dictionary.keys[keyIndex.toNat - 1]?)

/-- `put_Readonly` (CVariantDictionary.cpp:1231-1235). -/
def putReadonly (d : VariantDictionary loc) (newVal : Bool) : VariantDictionary loc :=
  { d with readOnly := newVal }

/-- The calls by which a caller reads and changes the variables. -/
inductive Call
  | getItem (varKey : VariantKey)
  | getExists (key : Bstr)
  | getKey (keyIndex : BitVec 32)
  | putReadonly (newVal : Bool)
  | mutate (m : Mutation)

/-- The dictionary after a call, whatever its result says; `get_Exists` and `get_Key` only
read. -/
def perform (oleLoad : List UInt8 → Option ComObject) (d : VariantDictionary loc) :
    Call → Run (VariantDictionary loc)
  | .getItem varKey => do
    let (_, _, d) ← d.getVariable oleLoad varKey
    pure d
  | .getExists _ | .getKey _ => pure d
  | .putReadonly newVal => pure (d.putReadonly newVal)
  | .mutate m => d.mutate m

/-! ## Writing -/

/-- `WriteProperty` (CVariantDictionary.cpp:404-451): the name, the offset of the next
property (filled in last), the tag and the value. Whatever the value's writer says, the
result is that of the last seek. -/
def writeProperty (mem : Memory) (d : VariantDictionary loc) (strPropName : Bstr)
    (theVal : Variant) (c : Channel) : Run (HResult × Channel) := do
  let (hr, c) ← writeString strPropName c
  if hr.failed then pure (hr, c)
  else do
    let keepPointer := c.stream.pos
    let c := (c.write (leBytes 4 0)).write (leBytes 2 theVal.vt.toNat)
    let (_, c) ← writeValue mem (d.isSerialized strPropName) theVal c
    let curPos := c.stream.pos
    let stream := ((c.stream.seekSet keepPointer).write (leBytes 4 curPos)).seekSet curPos
    pure (.sOk, { c with stream })

/-- The loop over the variables (CVariantDictionary.cpp:1105-1108). -/
def writeProperties (mem : Memory) (d : VariantDictionary loc) :
    List (Bstr × Variant) → Channel → Run Channel
  | [], c => pure c
  | (key, value) :: entries, c => do
    let (_, c) ← d.writeProperty mem key value c
    writeProperties mem d entries c

/-- The name of the first property, whose value is the number of variables. -/
def elsName : Bstr := Bstr.ofString "Els"

/-- The value of that property: an `INT` in the payload of a `VT_I4`. -/
def elsValue (d : VariantDictionary loc) : Variant :=
  .scalar .i4 (BitVec.ofNat _ d.dictionary.size)

/-- `LocalContents` (CVariantDictionary.cpp:1079-1126): the result, `*lSize` and the
stream, rewound. The variables are written from the last to the first. -/
def localContents (mem : Memory) (d : VariantDictionary loc) :
    Run (HResult × ℕ × CStream × VariantDictionary loc) := do
  let c : Channel :=
    { stream := CStream.new.setSize 128, m_currentBufLen := d.m_currentBufLen }
  let (_, c) ← d.writeProperty mem elsName d.elsValue c
  let c ← d.writeProperties mem d.dictionary.entries.reverse c
  let size := c.stream.pos
  let stream := (c.stream.setSize size).seekSet 0
  pure (.sOk, size % 2 ^ 32, stream, d.withBuffer c.m_currentBufLen)

/-! ## Reading -/

/-- The state of a dictionary that is being loaded from a stream. -/
structure Loading (loc : Collation) where
  d : VariantDictionary loc
  stream : CStream

/-- The channel `ReadString` and `ReadValue` work on. -/
def Loading.channel (l : Loading loc) : Channel :=
  { stream := l.stream, m_currentBufLen := l.d.m_currentBufLen }

/-- The state after they have moved it. -/
def Loading.withChannel (l : Loading loc) (c : Channel) : Loading loc :=
  { d := l.d.withBuffer c.m_currentBufLen, stream := c.stream }

/-- `ReadProperty` (CVariantDictionary.cpp:770-806). An object that was read is flagged,
a `VT_DISPATCH` one whatever its reader said. -/
def readProperty (mem : Memory) (l : Loading loc) :
    Run (HResult × Bstr × Variant × Loading loc) := do
  let (hr, name, c) ← readString true mem l.channel
  let strPropName := name.getD []
  if hr = .sOk then do
    let (_, _, c) := c.read 4
    let (_, bytes, c) := c.read 2
    let vtype := UInt16.ofNat (ofLeBytes (overlay (uninit mem.vartype 2) bytes))
    let (hr, theVal, c) ← readValue loc true mem (l.stream.buf.length + 2) vtype c
    let l := l.withChannel c
    let flagged := vtype = vtDispatch ∨ (vtype = vtUnknown ∧ hr = .sOk)
    let isserialized :=
      if flagged then l.d.isserialized.insert (lpcolestr strPropName) true
      else l.d.isserialized
    pure (hr, strPropName, theVal, { l with d := { l.d with isserialized } })
  else pure (hr, strPropName, .empty, l.withChannel c)

/-- The loop of `LocalLoad` over `n` more properties (CVariantDictionary.cpp:370-388):
what was read is inserted even when reading it failed, unless it cannot be copied. -/
def loadProperties (mem : Memory) : ℕ → HResult → Loading loc → Run (HResult × Loading loc)
  | 0, hr, l => pure (hr, l)
  | n + 1, hr, l =>
    if hr = .sOk then do
      let (hr, key, val, l) ← readProperty mem l
      let hrCopy ← val.copy
      if hrCopy.failed then loadProperties mem n hrCopy l
      else
        loadProperties mem n hr
          { l with d := { l.d with dictionary := l.d.dictionary.insert key val } }
    else pure (hr, l)

/-- `LocalLoad` (CVariantDictionary.cpp:333-396). -/
def localLoad (mem : Memory) (d : VariantDictionary loc) (pStream : Option CStream)
    (lSize : ℕ) : Run (HResult × VariantDictionary loc × Option CStream) :=
  if lSize = 0 then pure (.eInvalidArg, d, pStream)
  else
    match pStream with
    | none => pure (.sOk, d, pStream)
    | some stream => do
      let (_, stemp, varTemp, l) ← readProperty mem { d, stream }
      if ¬ loc.sameText stemp elsName then pure (.eFail, l.d, some l.stream)
      else
        let m_lVDictElements := varTemp.intVal mem.pointer
        if m_lVDictElements.slt 0 ∨ BitVec.slt 32767 m_lVDictElements then
          pure (.eFail, l.d, some l.stream)
        else do
          let l := { l with d := l.d.removeAll }
          let (hr, l) ← loadProperties mem m_lVDictElements.toNat .sOk l
          pure (hr, l.d, some l.stream)

end VariantDictionary

end IspSession.Model
