import IspSession.Model.ManagedSession
import Mathlib.Data.List.Sort

/-!
# The session module of ASP.NET (CSessionManaged)

`ISPSessionModule` acquires the session of a request in front of the page and releases it behind
the page (ISPSessionModule.cs, ISPSessionIDManager.cs, CSessionDL.cs, PersistUtil.cs). The
commands that it sends are recorded. Values, metadata and valid ids are those of the core.

The items are in a collection of the framework, whose names ignore case.
-/

set_option autoImplicit false

namespace IspSession.Model

open IspSession.Library

/-- What `StringComparer.InvariantCultureIgnoreCase` takes for one name. -/
structure NetNames where
  same : Bstr → Bstr → Bool
  equivalence : Equivalence fun a b => same a b = true

/-- What is under the module. -/
structure HttpHost extends ManagedHost where
  names : NetNames

/-! ## Items -/

/-- A `SessionStateItemCollection` of the framework: names and values in the order in which they
were added. -/
structure SessionStateItemCollection (names : NetNames) where
  entries : List (Bstr × NetValue)
  distinct : entries.Pairwise fun a b => names.same a.1 b.1 = false

namespace SessionStateItemCollection

variable {names : NetNames}

/-- The constructor. -/
def new : SessionStateItemCollection names := ⟨[], List.Pairwise.nil⟩

/-- `this[string]`, reading: null where there is no such name. -/
def get (s : SessionStateItemCollection names) (name : Bstr) : NetValue :=
  match s.entries.find? fun e => names.same e.1 name with
  | some e => e.2
  | none => .null

/-- The name is in the collection. -/
def contains (s : SessionStateItemCollection names) (name : Bstr) : Bool :=
  s.entries.any fun e => names.same e.1 name

/-- `this[string]`, writing. -/
def set (s : SessionStateItemCollection names) (name : Bstr) (value : NetValue) :
    SessionStateItemCollection names :=
  if h : s.contains name then
    { entries := s.entries.map fun e => (e.1, if names.same e.1 name then value else e.2)
      distinct := by
        rw [List.pairwise_map]
        exact s.distinct }
  else
    { entries := s.entries ++ [(name, value)]
      distinct := by
        refine List.pairwise_append.mpr ⟨s.distinct, List.pairwise_singleton _ _, ?_⟩
        intro e he new hnew
        rw [List.mem_singleton.mp hnew]
        exact Bool.eq_false_iff.mpr fun hsame => h (List.any_eq_true.mpr ⟨e, he, hsame⟩) }

/-- `this[int]`, writing. -/
def setAt (s : SessionStateItemCollection names) (index : ℕ) (value : NetValue) :
    SessionStateItemCollection names where
  entries := s.entries.modify index fun e => (e.1, value)
  distinct := by
    have hnames : (s.entries.modify index fun e => (e.1, value)).map Prod.fst =
        s.entries.map Prod.fst := by
      refine List.ext_getElem (by simp) fun i h h' => ?_
      rw [List.getElem_map, List.getElem_map, List.getElem_modify]
      split <;> rfl
    have hdistinct : (s.entries.map Prod.fst).Pairwise fun a b => names.same a b = false := by
      rw [List.pairwise_map]
      exact s.distinct
    rw [← hnames, List.pairwise_map] at hdistinct
    exact hdistinct

/-- `Remove`. -/
def remove (s : SessionStateItemCollection names) (name : Bstr) :
    SessionStateItemCollection names :=
  ⟨s.entries.filter fun e => !names.same e.1 name, s.distinct.filter _⟩

/-- `RemoveAt`. -/
def removeAt (s : SessionStateItemCollection names) (index : ℕ) :
    SessionStateItemCollection names :=
  ⟨s.entries.eraseIdx index, s.distinct.sublist (List.eraseIdx_sublist _ _)⟩

end SessionStateItemCollection

namespace CSessionManaged

/-! ## The payload -/

namespace PersistUtil

variable {names : NetNames}

/-- The names of the items, descending (PersistUtil.cs:35-41). -/
def keysDescending (strings : NetStrings) (items : SessionStateItemCollection names) : List Bstr :=
  (items.entries.map Prod.fst).insertionSort fun a b => strings.compare a b ≠ .lt

/-- The loop of `LocalContents` over the names. -/
def writeProperties (rt : NetRuntime) (items : SessionStateItemCollection names) :
    List Bstr → MemoryStream → NetRun MemoryStream
  | [], str => .ok str
  | key :: keys, str => do
    let str ← Model.PersistUtil.writeProperty rt key (items.get key) str
    writeProperties rt items keys str

/-- `LocalContents` without compression: the bytes and their number (PersistUtil.cs:25-58). -/
def localContents (strings : NetStrings) (rt : NetRuntime)
    (items : SessionStateItemCollection names) : NetRun (Bytes × ℕ) := do
  let itemCount : NetValue := .primitive .int32 (BitVec.ofNat 32 items.entries.length)
  let str ← Model.PersistUtil.writeProperty rt (Bstr.ofString "Els") itemCount CStream.new
  let str ← writeProperties rt items (keysDescending strings items) str
  pure (str.buf, str.pos)

/-- The loop of `LocalLoad`. -/
def loadProperties (rt : NetRuntime) (loaders : NetLoaders) :
    ℕ → StreamManager → SessionStateItemCollection names →
      NetRun (SessionStateItemCollection names)
  | 0, _, retVal => .ok retVal
  | cx + 1, m, retVal => do
    let (sTemp, varTemp, m) ← Model.PersistUtil.readProperty rt loaders m
    loadProperties rt loaders cx m (if sTemp = [] then retVal else retVal.set sTemp varTemp)

/-- `LocalLoad` (PersistUtil.cs:83-107). -/
def localLoad (rt : NetRuntime) (loaders : NetLoaders) (payload : Bytes) :
    NetRun (SessionStateItemCollection names) := do
  let (sTemp, varTemp, m) ←
    Model.PersistUtil.readProperty rt loaders (StreamManager.new ⟨payload, 0⟩ false)
  if sTemp ≠ Bstr.ofString "Els" then .error .http
  else do
    let lVDictElements ← Model.PersistUtil.unboxInt varTemp
    if lVDictElements.toInt < 0 ∨ 32767 < lVDictElements.toInt then .error .http
    else loadProperties rt loaders lVDictElements.toNat m .new

end PersistUtil

/-! ## Settings -/

/-- The configured time-out in minutes, 30 for none and for zero (SessionAppSettings.cs:40-49). -/
def sessionTimeout (settings : SessionAppSettings) : BitVec 32 :=
  let timeout := settings.SessionTimeout.getD 30
  if timeout = 0 then 30 else timeout

/-- The configured `Liquid`. -/
def liquid (settings : SessionAppSettings) : Bool := settings.Liquid.getD false

/-- The configured `ReEntrance`. -/
def reEntrance (settings : SessionAppSettings) : Bool := settings.ReEntrance.getD false

/-! ## Redis -/

/-- The commands of the module. -/
inductive SessionCommand
  | keyExists (key : Bytes)
  | stringGet (key : Bytes)
  | keyRename (key newKey : Bytes)
  | keyExpire (key : Bytes) (ms : ℤ)
  | stringSet (key contents : Bytes) (ms : ℤ)
  | keyDelete (key : Bytes)

namespace SessionCommand

/-- What a command does. -/
def run (database : Keyspace) : SessionCommand → Keyspace
  | .keyExists _ | .stringGet _ => database
  | .keyRename key newKey => database.rename key newKey
  | .keyExpire key ms => database.execute (.pexpire key ms)
  | .stringSet key contents ms => database.setExpiring key contents ms
  | .keyDelete key => database.execute (.del [key])

/-- The keys that a command reads, renames, expires, sets or deletes. -/
def touched : SessionCommand → List Bytes
  | .keyExists _ => []
  | .keyRename key newKey => [key, newKey]
  | .stringGet key | .keyExpire key _ | .stringSet key _ _ | .keyDelete key => [key]

end SessionCommand

/-! ## A request -/

/-- `PagesEnableSessionState`. -/
inductive PagesEnableSessionState
  | False
  | True
  | ReadOnly
  deriving DecidableEq

/-- A request to the module: what it carries under the name of the cookie, how its page uses the
session, and whether its response has been flushed already. -/
structure HttpRequest where
  query : Option Bstr
  cookie : Option Bstr
  sessionMode : PagesEnableSessionState
  headersWritten : Bool

/-- An `ISPHttpSessionStateContainer` (ISPSessionModule.cs:18-34). -/
structure ISPHttpSessionStateContainer (names : NetNames) where
  SessionID : Bstr
  oldSessionId : Option Bstr
  Items : SessionStateItemCollection names
  Timeout : BitVec 32
  IsNewSession : Bool
  IsReadOnly : Bool
  IsAbandoned : Bool

/-- The state of a request: Redis, the commands that were sent, the session cookie of the
response, and the session that the page gets. -/
structure HttpExchange (names : NetNames) where
  database : Keyspace
  commands : List SessionCommand
  cookie : Option Bstr
  state : Option (ISPHttpSessionStateContainer names)
  /-- How many random numbers have been drawn. -/
  drawn : ℕ

namespace HttpExchange

variable {names : NetNames}

/-- A request in front of the module. -/
def new (database : Keyspace) (drawn : ℕ) : HttpExchange names where
  database := database
  commands := []
  cookie := none
  state := none
  drawn := drawn

/-- A command is sent. -/
def send (c : SessionCommand) (x : HttpExchange names) : HttpExchange names :=
  { x with database := c.run x.database, commands := x.commands ++ [c] }

end HttpExchange

/-! ## Ids -/

namespace ISPSessionIDManager

variable {names : NetNames} (settings : SessionAppSettings)

/-- The text that `GetSessionID` looks for (ISPSessionIDManager.cs:26-60): of the query string
when that comes first or the cookie is no valid id, and of the cookie otherwise. -/
def presentedText (r : HttpRequest) : Option Bstr :=
  let cookieText := if settings.SnifQueryStringFirst then r.query else none
  let cookieValue := r.cookie.filter Model.ISPSessionIDManager.validate
  let cookieText :=
    if r.cookie.isSome && cookieValue.isNone && !settings.SnifQueryStringFirst then
      r.query.filter Model.ISPSessionIDManager.validate
    else cookieText
  cookieText.or cookieValue

/-- `GetSessionID` (ISPSessionIDManager.cs:24-95): the text is taken when it exists, or is to be
revived. -/
def getSessionID (r : HttpRequest) (x : HttpExchange names) :
    Option Bstr × HttpExchange names :=
  match presentedText settings r with
  | none => (none, x)
  | some text =>
    let key := CSessionDL.getKey settings text
    (if (x.database key).isSome then some text
      else if reEntrance settings ∧ text ≠ [] then some text
      else none, x.send (.keyExists key))

/-- `SaveSessionID` (ISPSessionIDManager.cs:150-179). -/
def saveSessionID (r : HttpRequest) (id : Bstr) (x : HttpExchange names) :
    NetRun Unit × HttpExchange names :=
  if r.headersWritten then (.error .http, x)
  else if !Model.ISPSessionIDManager.validate id then (.error .http, x)
  else (.ok (), { x with cookie := some id })

/-- `RemoveSessionID` (ISPSessionIDManager.cs:181-184). -/
def removeSessionID (x : HttpExchange names) : HttpExchange names := { x with cookie := none }

end ISPSessionIDManager

/-! ## Loading and saving -/

namespace CSessionDL

open Model.CSessionDL

variable (host : HttpHost) (settings : SessionAppSettings)

/-- What `SessionGet` makes of the value under the key of a session (CSessionDL.cs:151-197): of
metadata alone nothing. -/
def sessionFound (database : Keyspace) (sessionId : Bstr) :
    NetRun (Option (Model.CSessionDL.PersistMetaData × SessionStateItemCollection host.names)) :=
  match database (getKey settings sessionId) with
  | none => .ok none
  | some { value := .set _ _, ttl := _ } => .error .redisServer
  | some { value := .string blob, ttl := _ } => do
    let m ← fromByteArray blob
    if (blob.length : ℤ) = m.SizeofMeta.toInt then pure none
    else do
      let ms ← payloadStream host.deflate settings m blob
      let items ← PersistUtil.localLoad host.runtime host.loaders ms
      pure (some (m, items))

/-- `SessionGet` (CSessionDL.cs:148-208). -/
def sessionGet (sessionId : Bstr) (x : HttpExchange host.names) :
    NetRun (Option (Model.CSessionDL.PersistMetaData × SessionStateItemCollection host.names)) ×
      HttpExchange host.names :=
  (sessionFound host settings x.database sessionId,
    x.send (.stringGet (getKey settings sessionId)))

/-- The metadata of a new session, or of one that is saved. -/
def metaData (expires : BitVec 32) (zLen : ℕ) : Model.CSessionDL.PersistMetaData where
  Expires := expires
  ReEntrance := variantBool (reEntrance settings)
  Liquid := variantBool (liquid settings)
  ZLen := BitVec.ofNat 32 zLen

/-- `SessionInsert` (CSessionDL.cs:336-349): the metadata alone. -/
def sessionInsert {names : NetNames} (sessionId : Bstr) (m : Model.CSessionDL.PersistMetaData)
    (x : HttpExchange names) : HttpExchange names :=
  x.send (.stringSet (getKey settings sessionId) (toByteArray m) (milliseconds m.Expires))

/-- The minutes that a session is stored for. -/
def minutes {names : NetNames} (state : ISPHttpSessionStateContainer names) : BitVec 32 :=
  if state.Timeout = 0 then sessionTimeout settings else state.Timeout

/-- What `LocalContents` makes of the stream of the items: the compressing stream is closed
(PersistUtil.cs:47-57). -/
def compressed (deflate : Deflate) (bytes : Bytes) : Bytes :=
  if settings.Compress then deflate.compress bytes else bytes

/-- The `RENAME` of `SessionSave`. -/
def moveFrom {names : NetNames} (oldSessionId : Option Bstr) (sessionId : Bstr)
    (x : HttpExchange names) : HttpExchange names :=
  match oldSessionId with
  | none => x
  | some old =>
    if old ≠ [] ∧ sessionId ≠ old then
      x.send (.keyRename (getKey settings old) (getKey settings sessionId))
    else x

/-- `SessionSave` (CSessionDL.cs:211-255). -/
def sessionSave (state : ISPHttpSessionStateContainer host.names) (x : HttpExchange host.names) :
    NetRun Unit × HttpExchange host.names :=
  let key := getKey settings state.SessionID
  let ts := milliseconds (minutes settings state)
  if state.IsReadOnly then
    (.ok (), (moveFrom settings state.oldSessionId state.SessionID x).send (.keyExpire key ts))
  else
    match PersistUtil.localContents host.strings host.runtime state.Items with
    | .error e => (.error e, x)
    | .ok (bytes, zLen) =>
      let contents := toByteArray (metaData settings state.Timeout zLen) ++
        compressed settings host.deflate bytes
      (.ok (), (moveFrom settings state.oldSessionId state.SessionID x).send
        (.stringSet key contents ts))

/-- `SessionRemove` (CSessionDL.cs:257-272). -/
def sessionRemove {names : NetNames} (sessionId : Bstr) (x : HttpExchange names) :
    HttpExchange names :=
  let key := getKey settings sessionId
  let present := (x.database key).isSome
  let x := x.send (.keyExists key)
  if present then x.send (.keyDelete key) else x

end CSessionDL

/-! ## The module -/

namespace ISPSessionModule

variable (host : HttpHost) (settings : SessionAppSettings)

/-- The id of the session and the one that it replaces (ISPSessionModule.cs:133-137). -/
def chooseSessionID (sessionID : Option Bstr) (x : HttpExchange host.names) :
    Bstr × Option Bstr × HttpExchange host.names :=
  match sessionID with
  | some id =>
    if liquid settings then
      (Model.ISPSessionIDManager.guidToHex (host.random x.drawn), some id,
        { x with drawn := x.drawn + 1 })
    else (id, none, x)
  | none =>
    (Model.ISPSessionIDManager.guidToHex (host.random x.drawn), none,
      { x with drawn := x.drawn + 1 })

/-- The session that the page gets. -/
def container {names : NetNames} (r : HttpRequest) (id : Bstr) (oldSessionID : Option Bstr)
    (m : Model.CSessionDL.PersistMetaData) (items : SessionStateItemCollection names)
    (isNew : Bool) : ISPHttpSessionStateContainer names where
  SessionID := id
  oldSessionId := oldSessionID
  Items := items
  Timeout := m.Expires
  IsNewSession := isNew
  IsReadOnly := decide (r.sessionMode = .ReadOnly)
  IsAbandoned := false

/-- The session is started under its id (ISPSessionModule.cs:144-181): a new one is inserted
when the page may write. -/
def startSession {names : NetNames} (r : HttpRequest) (id : Bstr) (oldSessionID : Option Bstr)
    (sessionItems : Option (Model.CSessionDL.PersistMetaData × SessionStateItemCollection names))
    (x : HttpExchange names) : NetRun Unit × HttpExchange names :=
  match ISPSessionIDManager.saveSessionID r id x with
  | (.error e, x) => (.error e, x)
  | (.ok (), x) =>
    match sessionItems with
    | some (m, items) =>
      (.ok (), { x with state := some (container r id oldSessionID m items false) })
    | none =>
      let m := CSessionDL.metaData settings (sessionTimeout settings) 0
      let x := if r.sessionMode = .True then CSessionDL.sessionInsert settings id m x else x
      (.ok (), { x with state := some (container r id oldSessionID m .new true) })

/-- The part of `OnAcquireRequestState` behind `SessionGet`. -/
def acquire (r : HttpRequest) (sessionID : Option Bstr)
    (sessionItems : Option (Model.CSessionDL.PersistMetaData ×
      SessionStateItemCollection host.names))
    (x : HttpExchange host.names) : NetRun Unit × HttpExchange host.names :=
  let (id, oldSessionID, x) := chooseSessionID host settings sessionID x
  startSession settings r id oldSessionID sessionItems x

/-- `OnAcquireRequestState` (ISPSessionModule.cs:101-188). -/
def onAcquireRequestState (r : HttpRequest) (x : HttpExchange host.names) :
    NetRun Unit × HttpExchange host.names :=
  if r.sessionMode = .False then (.ok (), x)
  else
    match ISPSessionIDManager.getSessionID settings r x with
    | (none, x) => acquire host settings r none none x
    | (some id, x) =>
      match CSessionDL.sessionGet host settings id x with
      | (.error e, x) => (.error e, x)
      | (.ok sessionItems, x) => acquire host settings r (some id) sessionItems x

/-- `OnReleaseRequestState` (ISPSessionModule.cs:210-249). -/
def onReleaseRequestState (r : HttpRequest) (x : HttpExchange host.names) :
    NetRun Unit × HttpExchange host.names :=
  if r.sessionMode = .False then (.ok (), x)
  else
    match x.state with
    | none => (.error .nullReference, x)
    | some state =>
      if state.IsAbandoned then
        (.ok (), { CSessionDL.sessionRemove settings state.SessionID
          (ISPSessionIDManager.removeSessionID x) with state := none })
      else
        match CSessionDL.sessionSave host settings state x with
        | (.error e, x) => (.error e, x)
        | (.ok (), x) => (.ok (), { x with state := none })

end ISPSessionModule

/-! ## The page -/

/-- The members of the session by which a page changes it. -/
inductive PageCall
  | set (name : Bstr) (value : NetValue)
  | setAt (index : ℕ) (value : NetValue)
  | remove (name : Bstr)
  | removeAt (index : ℕ)
  | clear
  | setTimeout (value : BitVec 32)
  | abandon

/-- What a member of the session changes. The framework refuses a time-out that is not
positive. -/
def PageCall.perform {names : NetNames} (state : ISPHttpSessionStateContainer names) :
    PageCall → ISPHttpSessionStateContainer names
  | .set name value => { state with Items := state.Items.set name value }
  | .setAt index value => { state with Items := state.Items.setAt index value }
  | .remove name => { state with Items := state.Items.remove name }
  | .removeAt index => { state with Items := state.Items.removeAt index }
  | .clear => { state with Items := .new }
  | .setTimeout value => if value.toInt ≤ 0 then state else { state with Timeout := value }
  | .abandon => { state with IsAbandoned := true }

/-- A page that makes these calls. -/
def runPage {names : NetNames} (calls : List PageCall) (x : HttpExchange names) :
    HttpExchange names :=
  { x with state := x.state.map fun state => calls.foldl PageCall.perform state }

/-- A request: the session is acquired, the page runs, and the session is released. -/
def runRequest (host : HttpHost) (settings : SessionAppSettings) (r : HttpRequest)
    (calls : List PageCall) (x : HttpExchange host.names) :
    NetRun Unit × HttpExchange host.names :=
  match ISPSessionModule.onAcquireRequestState host settings r x with
  | (.error e, x) => (.error e, x)
  | (.ok (), x) => ISPSessionModule.onReleaseRequestState host settings r (runPage calls x)

end CSessionManaged

end IspSession.Model
