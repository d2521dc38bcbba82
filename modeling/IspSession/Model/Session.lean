import IspSession.Model.VariantDictionary
import IspSession.Model.SessionStore
import IspSession.Library.Runs

/-!
# The session object `NWCSession` (Session.cpp)

A request is the session object together with what it works on: the records in Redis,
the random numbers drawn so far and the cookies sent. A text that denotes an id is that
id, any other text (or none) is `none`. A page run by `Execute` or `Transfer` is the
effect it has on the records.

The dictionary keeps its entries in the order of the locale the thread has when the request
begins. `dbInit` changes that locale where a session stores one, and so does `put_LCID`:
`threadLocale` says so, and the dictionary goes on as a locale that orders names alike lets
it. What a map does in another order is the subject of `LocaleMap`.
-/

set_option autoImplicit false

namespace IspSession.Model

/-- What the session gets from the system. -/
structure Platform where
  mem : Memory
  /-- The ids made of the numbers `rand_s` returns, one after the other. -/
  random : ℕ → Guid
  /-- `OleLoadFromStream`. -/
  oleLoad : List UInt8 → Option ComObject
  /-- What names are compared by once `SetThreadLocale` was asked for a locale. -/
  collation : BitVec 32 → Collation

/-- A system that counts the ids, loads every object and has one locale, for runs on
concrete input. -/
def Platform.counting : Platform where
  mem := .zero
  random n := BitVec.ofNat 128 (1000 + n)
  oleLoad bytes := some (.live true (some bytes))
  collation _ := .ordinal

/-- A cookie that was sent. -/
structure SessionCookie where
  value : Option Guid
  expires : BitVec 32
  deriving DecidableEq

/-- A page: its result and what it does to the records. -/
abbrev Page := SessionStore → HResult × SessionStore

/-- An `NWCSession` during a request. -/
structure Request (loc : Collation) where
  m_piVarDict : VariantDictionary loc
  blnCancel : Bool
  blnNew : Bool
  blnExpired : Bool
  blnReEntrance : Bool
  blnLiquid : Bool
  blnFoundURLGuid : Bool
  bErrState : Bool
  blnPersistDoneByOnEndPage : Bool
  bReadonly : Bool
  blnSnifQueryStringFirst : Bool
  dtExpires : BitVec 32
  lngTimeout : BitVec 32
  lngTimeOutSetting : BitVec 32
  strGUID : Option Guid
  m_OldSessionId : Option Guid
  guid : Guid
  oldGuid : Guid
  /-- The records in Redis. -/
  store : SessionStore
  /-- The number of ids drawn. -/
  drawn : ℕ
  /-- The cookies sent, the last one in front. -/
  cookies : List SessionCookie
  /-- The locale the thread was given, if it was given one. -/
  threadLocale : Option (BitVec 32)

namespace Request

variable {loc : Collation} (p : Platform)

/-- `FinalConstruct` (Session.h:27-58) and `ReadConfigFromWebConfig`
(Session.cpp:297-353). -/
def start (store : SessionStore) (drawn : ℕ) (lngTimeOutSetting dtExpires : BitVec 32)
    (blnSnifQueryStringFirst : Bool) : Request loc where
  m_piVarDict := .new
  blnCancel := false
  blnNew := false
  blnExpired := false
  blnReEntrance := false
  blnLiquid := false
  blnFoundURLGuid := false
  bErrState := false
  blnPersistDoneByOnEndPage := false
  bReadonly := false
  blnSnifQueryStringFirst := blnSnifQueryStringFirst
  dtExpires := dtExpires
  lngTimeout := lngTimeOutSetting
  lngTimeOutSetting := lngTimeOutSetting
  strGUID := none
  m_OldSessionId := none
  guid := 0
  oldGuid := 0
  store := store
  drawn := drawn
  cookies := []
  threadLocale := none

/-! ## Ids and cookies -/

/-- `NewID` (Session.cpp:1092-1106). -/
def newID (r : Request loc) : Request loc :=
  let m_OldSessionId := if r.blnLiquid ∧ ¬ r.blnNew then r.strGUID else r.m_OldSessionId
  if r.blnLiquid ∨ r.blnNew then
    { r with
      m_OldSessionId
      guid := p.random r.drawn
      drawn := r.drawn + 1
      strGUID := some (p.random r.drawn) }
  else { r with m_OldSessionId, strGUID := some r.guid }

/-- `WriteCookie` (Session.cpp:1175-1242), the value and the expiration. -/
def writeCookie (r : Request loc) : Request loc :=
  { r with cookies := { value := r.strGUID, expires := r.dtExpires } :: r.cookies }

/-- `ReadCookieFromQueryString` (Session.cpp:1517-1556). -/
def readCookieFromQueryString (query : Option Guid) (r : Request loc) : Request loc :=
  match query with
  | some id => { r with blnFoundURLGuid := true, strGUID := some id }
  | none => r

/-! ## Loading -/

/-- The loop at the head of `dbInit` (Session.cpp:941-999): when there is no record, one
is inserted under a new id and opened. The last component is `bDidInsert`. -/
def openOrInsert (r : Request loc) : HResult × SessionStore.Rowset × Bool × Request loc :=
  let (hr, rowset) := r.store.openRowset r.guid
  if hr = .sFalse then
    let r := { r with blnExpired := r.blnExpired || !r.blnNew, blnNew := true }
    let r := newID p r
    let r := { r with oldGuid := r.guid }
    let (hr, store) :=
      r.store.sessionInsert r.guid r.lngTimeOutSetting r.blnReEntrance r.blnLiquid
    let r := { r with store, lngTimeout := r.lngTimeOutSetting }
    if hr.failed then (hr, rowset, false, r)
    else
      let (hr, rowset) := r.store.openRowset r.guid
      (hr, rowset, true, r)
  else (hr, rowset, false, r)

/-- The test of an id from the query string (Session.cpp:1006-1017). -/
def checkReEntrance (rowset : SessionStore.Rowset) (r : Request loc) : Request loc :=
  if ¬ r.blnNew ∧ ¬ r.blnExpired ∧ r.blnFoundURLGuid ∧ ¬ rowset.m_ReEntrance then
    let r := newID p { r with blnExpired := true, blnNew := true }
    { r with m_piVarDict := r.m_piVarDict.removeAll }
  else r

/-- Reading the record (Session.cpp:1021-1071), after which a liquid session gets a new
id, and the result of that. -/
def loadRecord (rowset : SessionStore.Rowset) (hr : HResult) (r : Request loc) :
    Run (HResult × Request loc) := do
  let r :=
    { r with
      lngTimeout := rowset.m_Expires
      blnReEntrance := rowset.m_ReEntrance
      blnLiquid := rowset.m_Liquid }
  let (hr, r) ←
    match rowset.m_pStream with
    | none => pure (hr, r)
    | some cseqs => do
      let (hr, m_piVarDict, _) ← r.m_piVarDict.localLoad p.mem (some cseqs) rowset.m_zLen
      pure (hr, { r with m_piVarDict })
  if r.blnLiquid then pure (.sOk, newID p r) else pure (hr, r)

/-- The variable that holds the locale. -/
def lcidName : Bstr := Bstr.ofString "__lcid"

/-- The locale in `__lcid`: a `VT_I4`, of which `SetThreadLocale` gets `iVal`. -/
def storedLocale (testel : Variant) : Option (BitVec 32) :=
  if testel.vt = ScalarType.i4.vt then
    some (((testel.intVal p.mem.pointer).setWidth 16).signExtend 32)
  else none

/-- The end of `dbInit` (Session.cpp:1068-1088): the cookie, and the locale of a session
that stores one. -/
def endInit (hr : HResult) (bDidInsert : Bool) (r : Request loc) :
    Run (HResult × Request loc) := do
  let r := if r.blnLiquid ∨ bDidInsert ∨ r.blnNew ∨ r.blnExpired then writeCookie r else r
  let (hrItem, testel, m_piVarDict) ← r.m_piVarDict.getItem p.oleLoad lcidName
  let threadLocale :=
    if hrItem = .sOk then (storedLocale p testel).or r.threadLocale else r.threadLocale
  pure (hr, { r with m_piVarDict, threadLocale, bErrState := r.bErrState || hr.failed })

/-- `dbInit` (Session.cpp:928-1088). -/
def dbInit (r : Request loc) : Run (HResult × Request loc) :=
  if r.bErrState then pure (.eFail, r)
  else do
    let (hr, rowset, bDidInsert, r) := openOrInsert p r
    if hr.failed then pure (hr, { r with bErrState := true })
    else
      let r := checkReEntrance p rowset r
      let (hr, r) ← if bDidInsert then pure (hr, r) else loadRecord p rowset hr r
      endInit p hr bDidInsert r

/-- The id of a request (Session.cpp:411-484): that of the query string or of the cookie. -/
def identify (cookie query : Option Guid) (r : Request loc) : Request loc :=
  let r := if r.blnSnifQueryStringFirst then readCookieFromQueryString query r else r
  let r := if r.blnFoundURLGuid then r else { r with strGUID := cookie }
  let r :=
    if r.strGUID = none ∧ ¬ r.blnFoundURLGuid then readCookieFromQueryString query r else r
  let r := { r with blnExpired := false, blnCancel := false }
  match r.strGUID with
  | none => { r with blnNew := true, guid := 0 }
  | some id => { r with guid := id, oldGuid := id }

/-- `Initialize` (Session.cpp:396-503). -/
def initializeSession (cookie query : Option Guid) (r : Request loc) :
    Run (HResult × Request loc) := do
  let (hr, r) ← dbInit p (identify cookie query r)
  pure (hr, { r with bErrState := r.bErrState || hr.failed })

/-- The loop of `InvokeOnStartPage` (Session.cpp:90-122) over the keys: every object is
loaded, and asked for an interface through a pointer that is null when it cannot be. -/
def invokeOnStartPage (d : VariantDictionary loc) : List Bstr → Run (VariantDictionary loc)
  | [] => pure d
  | key :: keys =>
    match d.dictionary.find (lpcolestr key) with
    | some (.dispatch _) | some (.unknown _) => do
      let (hr, _, d) ← d.getItem p.oleLoad key
      if hr.failed then .error .fault else invokeOnStartPage d keys
    | _ => invokeOnStartPage d keys

/-- `OnStartPage` (Session.cpp:29-88). -/
def onStartPage (cookie query : Option Guid) (r : Request loc) : Run (HResult × Request loc) := do
  let (hr, r) ← initializeSession p cookie query r
  if hr = .sOk then do
    let m_piVarDict ← invokeOnStartPage p r.m_piVarDict r.m_piVarDict.dictionary.keys
    pure (hr, { r with m_piVarDict })
  else if hr = .sFalse then pure (.eFail, { r with bErrState := true })
  else pure (hr, r)

/-! ## Saving -/

/-- `PersistSession` (Session.cpp:1108-1161): once only. -/
def persistSession (r : Request loc) : Run (HResult × Request loc) :=
  if r.blnPersistDoneByOnEndPage then pure (.sOk, r)
  else if r.bErrState then pure (.sOk, r)
  else do
    let (hr, r) ←
      if ¬ r.blnCancel ∧ ¬ r.bReadonly then do
        let (pStream, lSize, m_piVarDict) ←
          if r.m_piVarDict.blnDirty ∨ r.blnNew ∨ r.blnExpired then do
            let (_, lSize, stream, m_piVarDict) ← r.m_piVarDict.localContents p.mem
            pure (some stream, lSize, m_piVarDict)
          else pure (none, 0, r.m_piVarDict)
        let (hr, store) :=
          r.store.sessionSave r.oldGuid r.lngTimeout r.blnReEntrance r.blnLiquid
            (if r.blnLiquid then some r.guid else none) pStream lSize
        pure (hr, { r with m_piVarDict, store })
      else if r.blnCancel then
        let (hr, store) := r.store.sessionDelete r.oldGuid
        pure (hr, { r with store })
      else pure (.sOk, r)
    pure (hr, { r with
      blnPersistDoneByOnEndPage := true
      bErrState := r.bErrState || hr.failed })

/-- `OnEndPage` (Session.cpp:123-137). -/
def onEndPage (r : Request loc) : Run (HResult × Request loc) := persistSession p r

/-! ## Calls -/

/-- `Execute` (Session.cpp:606-636); the page is `none` for an empty text. -/
def execute (toPage : Option Page) (r : Request loc) : Run (HResult × Request loc) :=
  match toPage with
  | none => pure (.eInvalidArg, r)
  | some page => do
    let saveliquid := r.blnLiquid
    let (hr, r) ← persistSession p { r with blnLiquid := false }
    let r :=
      { r with
        m_piVarDict := r.m_piVarDict.removeAll
        blnNew := false
        blnExpired := false
        store := if hr.failed then r.store else (page r.store).2 }
    let (hr, r) ← dbInit p r
    pure (hr, { r with blnLiquid := saveliquid })

/-- `Transfer` (Session.cpp:638-659): the session is read again only when the page
succeeds. -/
def transfer (page : Page) (r : Request loc) : Run (HResult × Request loc) := do
  let saveliquid := r.blnLiquid
  let (hr, r) ← persistSession p { r with blnLiquid := false }
  let r :=
    { r with m_piVarDict := r.m_piVarDict.removeAll, blnNew := false, blnExpired := false }
  let (hr, r) ←
    if hr.failed then pure (hr, r)
    else
      let (hr, store) := page r.store
      let r := { r with store }
      if hr.failed then pure (hr, r) else dbInit p r
  pure (hr, { r with blnLiquid := saveliquid })

/-- `put_LiquidCookie` (Session.cpp:805-840). -/
def putLiquidCookie (newVal : Bool) (r : Request loc) : HResult × Request loc :=
  if r.bReadonly then (.eFail, r)
  else if newVal then
    if r.blnLiquid then (.sOk, r)
    else (.sOk, writeCookie (newID p { r with blnLiquid := true, oldGuid := r.guid }))
  else if r.blnLiquid then
    let r := { r with blnLiquid := false, guid := r.oldGuid }
    match r.m_OldSessionId with
    | none => (.sOk, r)
    | some id => (.sOk, writeCookie { r with strGUID := some id, m_OldSessionId := none })
  else (.sOk, r)

/-- `Abandon` (Session.cpp:767-785). -/
def abandon (r : Request loc) : Request loc :=
  let r := writeCookie { r with blnCancel := true, dtExpires := -1 }
  { r with m_piVarDict := r.m_piVarDict.removeAll }

/-- `put_TimeOut` (Session.cpp:792-804). -/
def putTimeOut (pVal : BitVec 32) (r : Request loc) : HResult × Request loc :=
  if r.bReadonly then (.eFail, r) else (.sOk, { r with lngTimeout := pVal })

/-- `put_ReEntrance` (Session.cpp:1168-1172). -/
def putReEntrance (newVal : Bool) (r : Request loc) : HResult × Request loc :=
  (.sOk, { r with blnReEntrance := newVal })

/-- `put_Readonly` (Session.cpp:909-925). -/
def putReadonly (newVal : Bool) (r : Request loc) : HResult × Request loc :=
  if r.m_piVarDict.blnDirty ∧ newVal then (.eFail, r)
  else
    (.sOk, { r with
      m_piVarDict := { r.m_piVarDict with readOnly := newVal }
      bReadonly := newVal })

/-- A call on the dictionary. -/
def onDictionary (m : VariantDictionary.Mutation) (r : Request loc) : Run (Request loc) := do
  let m_piVarDict ← r.m_piVarDict.mutate m
  pure { r with m_piVarDict }

/-- The put of a locale. -/
def lcidPut (newVal : BitVec 32) : VariantDictionary.Mutation :=
  .putItem lcidName (.value (.scalar .i4 newVal)) []

/-- `put_LCID` (Session.cpp:567-588), with what `IsValidLocale` says of the locale. -/
def putLCID (newVal : BitVec 32) (isValid : Bool) (r : Request loc) :
    Run (HResult × Request loc) :=
  if r.bReadonly then pure (.eFail, r)
  else if ¬ isValid then pure (.unknownLcid, r)
  else do
    let r ← onDictionary (lcidPut newVal) r
    pure (.sOk, { r with threadLocale := some newVal })

/-- The calls a page makes. -/
inductive Call
  | putValue (vkey : Bstr) (newVal : Argument) (defaults : List Variant)
  | putrefValue (vkey : Bstr) (newVal : Argument)
  | contentsRemove (vkey : Bstr)
  | contentsRemoveAll
  | putLiquidCookie (newVal : Bool)
  | execute (toPage : Option Page)
  | transfer (page : Page)
  | abandon
  | putTimeOut (pVal : BitVec 32)
  | putReEntrance (newVal : Bool)
  | putReadonly (newVal : Bool)
  | putLCID (newVal : BitVec 32) (isValid : Bool)

/-- A call, whatever its result says. `put_Value` and `putref_Value`
(Session.cpp:854-907) are refused in a read-only session. -/
def perform (r : Request loc) : Call → Run (Request loc)
  | .putValue vkey newVal defaults =>
    if r.bReadonly then pure r else onDictionary (.putItem vkey newVal defaults) r
  | .putrefValue vkey newVal =>
    if r.bReadonly then pure r else onDictionary (.putrefItem vkey newVal) r
  | .contentsRemove vkey => onDictionary (.remove vkey) r
  | .contentsRemoveAll => onDictionary .removeAll r
  | .putLiquidCookie newVal => pure (putLiquidCookie p newVal r).2
  | .execute toPage => do
    let (_, r) ← execute p toPage r
    pure r
  | .transfer page => do
    let (_, r) ← transfer p page r
    pure r
  | .abandon => pure (abandon r)
  | .putTimeOut pVal => pure (putTimeOut pVal r).2
  | .putReEntrance newVal => pure (putReEntrance newVal r).2
  | .putReadonly newVal => pure (putReadonly newVal r).2
  | .putLCID newVal isValid => do
    let (_, r) ← putLCID newVal isValid r
    pure r

/-- `get_Value` (Session.cpp:842-855), which may load an object into the dictionary. -/
def getValue (vkey : Bstr) (r : Request loc) : Run (HResult × Variant × Request loc) := do
  let (hr, pVal, m_piVarDict) ← r.m_piVarDict.getItem p.oleLoad vkey
  pure (hr, pVal, { r with m_piVarDict })

/-- What a page does: it reads variables and makes calls. -/
inductive Action
  | getValue (vkey : Bstr)
  | call (c : Call)

/-- An action, whatever its result says. -/
def act (r : Request loc) : Action → Run (Request loc)
  | .getValue vkey => do
    let (_, _, r) ← getValue p vkey r
    pure r
  | .call c => perform p r c

/-- A request from `OnStartPage` to `OnEndPage`. -/
def serve (cookie query : Option Guid) (calls : List Call) (r : Request loc) :
    Run (Request loc) := do
  let (_, r) ← onStartPage p cookie query r
  let r ← Library.Runs.run (perform p) calls r
  let (_, r) ← onEndPage p r
  pure r

end Request

end IspSession.Model
