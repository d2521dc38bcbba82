import IspSession.Model.VariantDictionary

/-!
# The application cache `CApplication` (Application.h, Application.cpp)

A map from keys to elements, ordered by the locale's comparison without case, and the
keys that were removed. An element carries its value and what the request did to it.
Every key has a record of its own in Redis, which `SerializeKey` writes and
`DeserializeKey` reads; the keys, and the lists made of them, are texts in UTF-8.

A key that arrives as a `BSTR` is looked up as a zero-terminated string. The application
is one a page uses: `OnStartPage` has been called and succeeded.
-/

set_option autoImplicit false

namespace IspSession.Model

open IspSession.Library

/-- The conversion of a `std::string` to wide characters by the thread's code page, of
which every one has ASCII as its lower half. -/
structure CodePage where
  toWide : Bytes → Bstr
  toWide_ascii : ∀ bs : Bytes, (∀ b ∈ bs, b < 128) → toWide bs = bs.map UInt8.toUInt16

/-- The code page whose characters are the first 256 of Unicode. -/
def CodePage.latin1 : CodePage where
  toWide bs := bs.map UInt8.toUInt16
  toWide_ascii _ _ := rfl

/-- `str_toupper` (tools.cpp:47-56), in the locale of the C library: letters of ASCII. -/
def strToUpper (s : Bytes) : Bytes :=
  s.map fun c => if 97 ≤ c ∧ c ≤ 122 then c - 32 else c

/-- `ElementModel` (Application.h:12-45). -/
structure ElementModel where
  val : Variant
  isNew : Bool
  isDirty : Bool
  isSerialized : Bool
  /-- Milliseconds, an `INT`. -/
  expireAt : ℤ

/-- `ElementModel()`. -/
def ElementModel.blank : ElementModel where
  val := .empty
  isNew := false
  isDirty := false
  isSerialized := false
  expireAt := 0

/-- What `get_KeyStates` sorts the keys into. -/
structure KeyStates (κ : Type) where
  changedKeys : List κ
  newKeys : List κ
  otherKeys : List κ
  expireKeys : List (κ × ℤ)
  removedKeys : List κ

/-- A `CApplication`. -/
structure CApplication (loc : Collation) where
  dictionary : OrderedMap loc.compare ElementModel
  removed : List Bytes
  m_currentBufLen : ℕ

namespace CApplication

variable {loc : Collation}

/-- `FinalConstruct` (Application.h:72-82). -/
def new : CApplication loc where
  dictionary := .empty
  removed := []
  m_currentBufLen := 0

/-- The application with a conversion buffer of another length. -/
def withBuffer (a : CApplication loc) (m_currentBufLen : ℕ) : CApplication loc :=
  { a with m_currentBufLen }

/-- The element under a key. -/
def find (a : CApplication loc) (key : Bstr) : Option ElementModel := a.dictionary.find key

/-- Changing the element under a key. -/
def update (a : CApplication loc) (key : Bstr) (f : ElementModel → ElementModel) :
    CApplication loc :=
  match a.find key with
  | some element => { a with dictionary := a.dictionary.assign key (f element) }
  | none => a

/-- Inserting an element, unless there is one under the key. -/
def insert (a : CApplication loc) (key : Bstr) (element : ElementModel) : CApplication loc :=
  { a with dictionary := a.dictionary.insert key element }

section Lookup

variable (a : CApplication loc) (key : Bstr) (f g : ElementModel → ElementModel)

@[simp] theorem find_withBuffer (b : ℕ) : (a.withBuffer b).find key = a.find key := rfl

@[simp] theorem find_new : (new : CApplication loc).find key = none := rfl

/-- The element under a key once the one under another key has been changed. -/
theorem find_update (key' : Bstr) :
    (a.update key f).find key' =
      if loc.compare key' key = .eq then (a.find key).map f else a.find key' := by
  unfold update
  cases h : a.find key with
  | none =>
    dsimp only
    split
    · rename_i hk
      exact (a.dictionary.find_congr hk).trans h
    · rfl
  | some element =>
    change (a.dictionary.assign key (f element)).find key' = _
    rw [OrderedMap.find_assign]
    split
    · rename_i hk
      have hfind : a.dictionary.find key' = some element := (a.dictionary.find_congr hk).trans h
      rw [hfind]
      rfl
    · rfl

/-- The element under a key once one has been inserted. -/
theorem find_insert (key' : Bstr) (element : ElementModel) :
    (a.insert key element).find key' =
      (a.find key').or (if loc.compare key' key = .eq then some element else none) :=
  OrderedMap.find_insert a.dictionary key key' element

/-- Two changes of one element are one. -/
theorem update_update : (a.update key f).update key g = a.update key fun e => g (f e) := by
  have hself : loc.compare key key = .eq := Std.ReflCmp.compare_self
  have hfind := a.find_update key f key
  rw [if_pos hself] at hfind
  cases h : a.find key with
  | none =>
    have hupdate : ∀ f, a.update key f = a := fun f => by simp [update, h]
    rw [hupdate f, hupdate, hupdate]
  | some element =>
    rw [h, Option.map_some] at hfind
    rw [update, hfind]
    simp only [update, h, OrderedMap.assign_assign]

/-- A change of an element depends on that element only. -/
theorem update_congr (h : ∀ element, a.find key = some element → f element = g element) :
    a.update key f = a.update key g := by
  unfold update
  cases hfind : a.find key with
  | none => rfl
  | some element => simp only [h element hfind]

end Lookup

/-! ## Values -/

/-- `ConvertVStreamToObject` (Application.cpp:1056-1079): the flag is taken off whether
or not the object could be loaded; one that could not leaves a null reference. -/
def convertVStreamToObject (oleLoad : Bytes → Option ComObject) (wrap : ComObject → Variant)
    (element : ElementModel) : ComObject → Run (HResult × ElementModel)
  | .packed bytes =>
    match oleLoad bytes with
    | some o => pure (.sOk, { element with val := wrap o, isSerialized := false })
    | none => pure (.eFail, { element with val := wrap .null, isSerialized := false })
  | _ => .error .fault

/-- `get_Value` of an object (Application.cpp:173-187). -/
def getObject (oleLoad : Bytes → Option ComObject) (a : CApplication loc) (key : Bstr)
    (element : ElementModel) (wrap : ComObject → Variant) (o : ComObject) :
    Run (HResult × Variant × CApplication loc) :=
  if element.isSerialized then do
    let (hr, element) ← convertVStreamToObject oleLoad wrap element o
    pure (hr, if hr = .sOk then element.val else .empty, a.update key fun _ => element)
  else if o = .null then .error .fault
  else pure (.sOk, wrap o, a)

/-- `get_Value` (Application.cpp:153-198). -/
def getValue (oleLoad : Bytes → Option ComObject) (a : CApplication loc) (key : Bstr) :
    Run (HResult × Variant × CApplication loc) :=
  if key = [] then pure (.eInvalidArg, .empty, a)
  else
    match a.find (lpcolestr key) with
    | none => pure (.sOk, .empty, a)
    | some element =>
      match element.val with
      | .unknown o => a.getObject oleLoad (lpcolestr key) element .unknown o
      | .dispatch o => a.getObject oleLoad (lpcolestr key) element .dispatch o
      | v => do
        let hr ← v.copy
        pure (hr, if hr.failed then .empty else v, a)

/-- The element a put finds or adds: an old one becomes dirty
(Application.cpp:224-238). -/
def touch (a : CApplication loc) (key : Bstr) : CApplication loc :=
  match a.find key with
  | none => a.insert key { ElementModel.blank with isNew := true }
  | some element => if element.isNew then a else a.update key fun e => { e with isDirty := true }

/-- `put_Value` (Application.cpp:200-262). An object is replaced by its default property;
`defaults` are the results of asking for it, one after the other, until an object does
not answer. -/
def putValue (a : CApplication loc) (key : Bstr) (newVal : Argument) (defaults : List Variant) :
    Run (HResult × CApplication loc) :=
  if key = [] then pure (.eInvalidArg, a)
  else do
    let vDeref ← newVal.deref
    let a := a.touch (lpcolestr key)
    match vDeref with
    | .dispatch .null => pure (.ePointer, a)
    | .dispatch _ =>
      match defaults with
      | [] => pure (.sOk, a)
      | varResolved :: defaults => a.putValue key (.value varResolved) defaults
    | v => do
      -- the assignment throws out of a `noexcept` function
      if (← v.copy).failed then .error .fault
      else pure (.sOk, a.update (lpcolestr key) fun e => { e with val := v })

/-- The element an accepted `putref_Value` finds or adds: an old one becomes dirty and
loses its flag, also when it is new (Application.cpp:292-304). -/
def touchRef (a : CApplication loc) (key : Bstr) : CApplication loc :=
  match a.find key with
  | none => a.insert key { ElementModel.blank with isNew := true }
  | some _ => a.update key fun e => { e with isDirty := true, isSerialized := false }

/-- `putref_Value` (Application.cpp:264-332). -/
def putrefValue (a : CApplication loc) (key : Bstr) (newVal : Argument) :
    Run (HResult × CApplication loc) :=
  if key = [] then pure (.eInvalidArg, a)
  else if newVal.vt &&& vtDispatch = vtDispatch ∨ newVal.vt &&& vtUnknown = vtUnknown then
    let a := a.touchRef (lpcolestr key)
    match newVal with
    | .value v => do
      if (← v.pdispVal).persistable then
        pure (.sOk, a.update (lpcolestr key) fun e => { e with val := v })
      else pure (.eNoInterface, a)
    | .byrefVariant _ => .error .fault
  else pure (.eInvalidArg, a)

/-- The calls of `get_Value`, `put_Value` and `putref_Value`. -/
inductive ValueCall
  | getValue (key : Bstr)
  | putValue (key : Bstr) (newVal : Argument) (defaults : List Variant)
  | putrefValue (key : Bstr) (newVal : Argument)

/-- The result of such a call and the application after it. -/
def performValue (oleLoad : Bytes → Option ComObject) (a : CApplication loc) :
    ValueCall → Run (HResult × CApplication loc)
  | .getValue key => do
    let (hr, _, a) ← a.getValue oleLoad key
    pure (hr, a)
  | .putValue key newVal defaults => a.putValue key newVal defaults
  | .putrefValue key newVal => a.putrefValue key newVal

/-- The same with `HasOnStartPageBeenCalled` (Application.cpp:12-22), which comes first. -/
def callValue (oleLoad : Bytes → Option ComObject) (m_OnStartPageCalled : Bool)
    (a : CApplication loc) (c : ValueCall) : Run (HResult × CApplication loc) :=
  if m_OnStartPageCalled then a.performValue oleLoad c else pure (.eFail, a)

/-- `_removed.push_back`, unless the very text is there. -/
def pushRemoved (removed : List Bytes) (key : Bytes) : List Bytes :=
  if key ∈ removed then removed else removed ++ [key]

/-- `Remove` (Application.cpp:430-462). The whole key is noted as removed, its part up to
the first zero is erased. -/
def remove (a : CApplication loc) (key : Bstr) : HResult × CApplication loc :=
  if key = [] then (.eInvalidArg, a)
  else
    match a.find (lpcolestr key) with
    | none => (.sOk, a)
    | some _ =>
      (.sOk, { a with
        dictionary := a.dictionary.erase (lpcolestr key)
        removed := pushRemoved a.removed (utf16ToUtf8 key) })

/-- `RemoveAll` (Application.cpp:463-488). -/
def removeAll (a : CApplication loc) : CApplication loc :=
  { a with
    dictionary := .empty
    removed := a.dictionary.keys.foldl (fun removed k => pushRemoved removed (utf16ToUtf8 k))
      a.removed }

/-- `ExpireKeyAt` (Application.cpp:512-530). -/
def expireKeyAt (a : CApplication loc) (key : Bstr) (ms : ℤ) : CApplication loc :=
  a.update (lpcolestr key) fun e => { e with expireAt := ms }

/-! ## `IKeySerializer` -/

/-- `get_KeyStates` (Application.cpp:1555-1602): an empty key is in none of the lists but
can be among the removed ones. -/
def keyStates (a : CApplication loc) : KeyStates Bytes :=
  let elements := (a.dictionary.entries.map fun e => (utf16ToUtf8 e.1, e.2)).filter
    fun e => e.1 ≠ []
  { changedKeys := (elements.filter fun e => !e.2.isNew && e.2.isDirty).map Prod.fst
    newKeys := (elements.filter fun e => e.2.isNew).map Prod.fst
    otherKeys := (elements.filter fun e => !e.2.isNew && !e.2.isDirty).map Prod.fst
    expireKeys := (elements.filter fun e => decide ((0 : ℤ) < e.2.expireAt)).map fun e => (e.1, e.2.expireAt)
    removedKeys := a.removed }

/-- `ConvertObjectToStream` (Application.cpp:1080-1116): an object that cannot be saved
stays what it is. -/
def convertObjectToStream : Variant → Variant
  | .dispatch (.live true (some bytes)) | .unknown (.live true (some bytes)) =>
    .unknown (.packed bytes)
  | v => v

/-- The value `SerializeKey` writes, and leaves in the element. -/
def toWrite (element : ElementModel) : Variant :=
  if element.isSerialized then element.val else convertObjectToStream element.val

/-- `SerializeKey` (Application.cpp:1473-1509): the key, the tag of the value as it was
and the value. `WriteValue` looks for a stream behind every object. -/
def serializeKey (mem : Memory) (a : CApplication loc) (key : Bstr) (binaryString : CStream) :
    Run (HResult × CStream × CApplication loc) :=
  match a.find (lpcolestr key) with
  | none => pure (.sOk, binaryString, a)
  | some element => do
    let (hr, c) ← writeString key ⟨binaryString, a.m_currentBufLen⟩
    if hr.failed then pure (hr, c.stream, a.withBuffer c.m_currentBufLen)
    else do
      let c := c.write (leBytes 2 element.val.vt.toNat)
      let val := toWrite element
      let (hr, c) ← writeValue mem true val c
      pure (hr, c.stream,
        (a.update (lpcolestr key) fun e => { e with val }).withBuffer c.m_currentBufLen)

/-- `SerializeKeys` (Application.cpp:1417-1472): the Redis keys with their records. One
stream is used for all of them. -/
def serializeKeys (cp : CodePage) (mem : Memory) (appkeyPrefix : Bytes) :
    List Bytes → CStream → CApplication loc → Run (List (Bytes × Bytes) × CApplication loc)
  | [], _, a => pure ([], a)
  | key :: keys, stream, a => do
    let (_, stream, a) ← a.serializeKey mem (cp.toWide key) ((stream.setSize 128).seekSet 0)
    let stream := (stream.setSize stream.pos).seekSet 0
    let baseString := stream.rest
    let (pairs, a) ← serializeKeys cp mem appkeyPrefix keys (stream.advance baseString.length) a
    pure ((appkeyPrefix ++ strToUpper key, baseString) :: pairs, a)

/-- `DeserializeKey` (Application.cpp:1510-1553): the value goes to the element of the
key in the record, whatever reading it said. -/
def deserializeKey (mem : Memory) (a : CApplication loc) (binaryString : Bytes) :
    Run (HResult × CApplication loc) := do
  let (hr, key, c) ← readString false mem ⟨⟨binaryString, 0⟩, a.m_currentBufLen⟩
  let key := key.getD []
  if hr.failed then pure (hr, a.withBuffer c.m_currentBufLen)
  else do
    let (_, tag, c) := c.read 2
    let vt := UInt16.ofNat (ofLeBytes (overlay [0, 0] tag))
    let (hr, val, c) ← readValue loc false mem (binaryString.length + 2) vt c
    let isObject := decide (val.vt = vtUnknown ∨ val.vt = vtDispatch)
    pure (hr, ((a.insert key .blank).update key fun e =>
      { e with val, isSerialized := e.isSerialized || isObject }).withBuffer c.m_currentBufLen)

/-! ## Runs -/

/-- The calls on an application: those of a page, and the two that the store makes. -/
inductive Call
  | getValue (key : Bstr)
  | putValue (key : Bstr) (newVal : Argument) (defaults : List Variant)
  | putrefValue (key : Bstr) (newVal : Argument)
  | remove (key : Bstr)
  | removeAll
  | expireKeyAt (key : Bstr) (ms : ℤ)
  | serializeKey (key : Bstr) (binaryString : CStream)
  | deserializeKey (binaryString : Bytes)

/-- The application after a call, whatever its result says. -/
def perform (mem : Memory) (oleLoad : Bytes → Option ComObject) (a : CApplication loc) :
    Call → Run (CApplication loc)
  | .getValue key => do
    let (_, _, a) ← a.getValue oleLoad key
    pure a
  | .putValue key newVal defaults => do
    let (_, a) ← a.putValue key newVal defaults
    pure a
  | .putrefValue key newVal => do
    let (_, a) ← a.putrefValue key newVal
    pure a
  | .remove key => pure (a.remove key).2
  | .removeAll => pure a.removeAll
  | .expireKeyAt key ms => pure (a.expireKeyAt key ms)
  | .serializeKey key binaryString => do
    let (_, _, a) ← a.serializeKey mem key binaryString
    pure a
  | .deserializeKey binaryString => do
    let (_, a) ← a.deserializeKey mem binaryString
    pure a

end CApplication

end IspSession.Model
