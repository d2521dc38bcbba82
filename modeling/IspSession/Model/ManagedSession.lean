import IspSession.Model.ManagedRecords
import IspSession.Model.ApplicationCache

/-!
# The session of the core middleware

`ISPSession`, which is loaded by its first use, the managers that change its id and set its
cookie, and the request around them (ISPSession.cs, ISPSessionIDManager.cs,
ISPSessionMiddleWare.cs, CSessionDL.cs). `TryEstablishSession` and `LoadAsync` call each other;
each of them takes the other one as an argument, and `establishAt` ties them together.

An exception that a member throws is handed to the page, which goes on.
-/

set_option autoImplicit false

namespace IspSession.Model

open IspSession.Library

/-- An `ISPSession` (ISPSession.cs:13-65). -/
structure ISPSession (strings : NetStrings) where
  sessionItems : StateItemCollection strings NetValue
  liquid : Bool
  reEntrance : Bool
  isAbandoned : Bool
  wasLoaded : Bool
  timeOut : BitVec 32
  IsNewSession : Bool
  SessionID : Bstr
  OldSessionID : Option Bstr

/-- An `ISPSessionIDManager` of a request. -/
structure ISPSessionIDManager where
  id : Bstr
  shouldEstablishSession : Bool

/-! ## Loading and saving -/

namespace CSessionDL

variable (host : ManagedHost) (settings : SessionAppSettings) (database : Keyspace)

/-- `SessionGetAsync` (CSessionDL.cs:152-217). -/
def sessionGetAsync (SessionId : Bstr) :
    NetRun (Option (PersistMetaData × StateItemCollection host.strings NetValue)) :=
  if SessionId = [] then .error .argumentNull
  else
    match database (getKey settings SessionId) with
    | none => .ok none
    | some { value := .set _ _, ttl := _ } => .error .redisServer
    | some { value := .string blob, ttl := _ } => do
      let m ← fromByteArray blob
      let ms ← payloadStream host.deflate settings m blob
      let items ← PersistUtil.localLoad host.runtime host.loaders ms
      pure (some (m, items))

/-- `SessionSave` (CSessionDL.cs:221-261). The contents are made first, even when they are not
stored. -/
def sessionSaveAsync (state : StateItemCollection host.strings NetValue) (m : PersistMetaData)
    (sessionId : Bstr) (oldSessionId : Option Bstr) : NetRun Unit × Keyspace :=
  match PersistUtil.localContents host.runtime state with
  | .error e => (.error e, database)
  | .ok (bytes, zLen) =>
    let m := { m with ZLen := BitVec.ofNat 32 zLen }
    let contents := toByteArray m ++ packed host.deflate settings bytes
    let ts := milliseconds m.Expires
    let key := getKey settings sessionId
    let database :=
      match oldSessionId with
      | none => database
      | some old =>
        if old ≠ [] ∧ sessionId ≠ old then database.rename (getKey settings old) key else database
    if state.isReadOnly || !state.dirty then
      (.ok (), if state.isNew then database else database.execute (.pexpire key ts))
    else (.ok (), database.setExpiring key contents ts)

/-- `SessionRemoveAsync` (CSessionDL.cs:263-275). -/
def sessionRemoveAsync (sessionId : Bstr) : Keyspace :=
  database.execute (.del [getKey settings sessionId])

end CSessionDL

/-! ## A request -/

/-- The state of a request: Redis, the session, the managers in the order in which they have
registered, and the response with the session cookies added to it. -/
structure Exchange (host : ManagedHost) where
  database : Keyspace
  session : ISPSession host.strings
  /-- `text2`, the id that every manager starts with. -/
  text2 : Bstr
  managers : List ISPSessionIDManager
  hasStarted : Bool
  cookies : List Bstr
  /-- How many random numbers have been drawn. -/
  drawn : ℕ

namespace ISPSession

/-- The constructor (ISPSession.cs:27-65). -/
def new (strings : NetStrings) (settings : SessionAppSettings) (sessionKey : Bstr)
    (isNewSessionKey : Bool) : ISPSession strings where
  sessionItems := .new
  liquid := settings.Liquid.getD false
  reEntrance := settings.ReEntrance.getD false
  isAbandoned := false
  wasLoaded := false
  timeOut := settings.SessionTimeout.getD 30
  IsNewSession := isNewSessionKey
  SessionID := sessionKey
  OldSessionID := none

/-- `InitItems` (ISPSession.cs:67-91). `_isReadonly` is never set. -/
def initItems {strings : NetStrings} (s : ISPSession strings) :
    Option (CSessionDL.PersistMetaData × StateItemCollection strings NetValue) →
      ISPSession strings
  | none => { s with IsNewSession := true }
  | some (m, items) =>
    { s with
      wasLoaded := true
      sessionItems := { items with isReadOnly := false, dirty := false }
      liquid := decide (m.Liquid = -1)
      timeOut := m.Expires
      reEntrance := decide (m.ReEntrance = -1) }

/-- The metadata that `CommitAsync` saves. -/
def persistMetaData {strings : NetStrings} (s : ISPSession strings) :
    CSessionDL.PersistMetaData where
  Expires := s.timeOut
  ReEntrance := CSessionDL.variantBool s.reEntrance
  Liquid := CSessionDL.variantBool s.liquid
  ZLen := 0

end ISPSession

namespace Exchange

variable {host : ManagedHost}

/-- A new id for the session: the manager keeps it for its cookie
(ISPSessionIDManager.cs:39-41). -/
def rotate (n : ℕ) (x : Exchange host) : Exchange host :=
  let newSessionID := ISPSessionIDManager.guidToHex (host.random x.drawn)
  { x with
    session := { x.session with
      OldSessionID := some x.session.SessionID
      SessionID := newSessionID }
    managers := x.managers.modify n fun m => { m with id := newSessionID }
    drawn := x.drawn + 1 }

/-- A new manager, whose constructor registers a callback, and its `TryEstablishSession`
(ISPSessionIDManager.cs:30-55, ISPSessionMiddleWare.cs:53-54), which returns true. The manager
is asked once, so that its `_shouldEstablishSession` has been false. -/
def tryEstablishSession (loadAsync : Exchange host → NetRun Unit × Exchange host)
    (x : Exchange host) : NetRun Unit × Exchange host :=
  if x.hasStarted && host.lateCallbackThrows then (.error .invalidOperation, x)
  else
    let n := x.managers.length
    let ret := !x.hasStarted
    let x := { x with managers := x.managers ++ [{ id := x.text2, shouldEstablishSession := ret }] }
    if ret && !x.session.IsNewSession then
      match loadAsync x with
      | (.error e, x) => (.error e, x)
      | (.ok (), x) => (.ok (), if x.session.liquid then x.rotate n else x)
    else (.ok (), x)

/-- `LoadAsync` (ISPSession.cs:258-270). -/
def loadAsync (settings : SessionAppSettings)
    (tryEstablish : Exchange host → NetRun Unit × Exchange host) (x : Exchange host) :
    NetRun Unit × Exchange host :=
  if x.session.wasLoaded then (.ok (), x)
  else
    match CSessionDL.sessionGetAsync host settings x.database x.session.SessionID with
    | .error e => (.error e, x)
    | .ok items =>
      let x := { x with session := x.session.initItems items }
      match if x.session.liquid then tryEstablish x else (.ok (), x) with
      | (.error e, x) => (.error e, x)
      | (.ok (), x) => (.ok (), { x with session := { x.session with wasLoaded := true } })

/-- Each of the two with the other one, as often as they may call each other. -/
def establishAt (settings : SessionAppSettings) :
    ℕ → Exchange host → NetRun Unit × Exchange host
  | 0, x => (.error .fuel, x)
  | depth + 1, x => tryEstablishSession (loadAsync settings (establishAt settings depth)) x

/-- `_tryEstablish`: they call each other twice at most (`establishAt_eq`). -/
def tryEstablish (settings : SessionAppSettings) (x : Exchange host) :
    NetRun Unit × Exchange host := establishAt settings 2 x

/-- `CheckLoad` (ISPSession.cs:92-110). -/
def checkLoad (settings : SessionAppSettings) (x : Exchange host) : NetRun Unit × Exchange host :=
  if x.session.wasLoaded then (.ok (), x)
  else
    match x.tryEstablish settings with
    | (.error e, x) => (.error e, x)
    | (.ok (), x) =>
      (.ok (), if x.session.IsNewSession then x
        else { x with session := { x.session with wasLoaded := true } })

/-- `CommitAsync` (ISPSession.cs:225-250). -/
def commitAsync (settings : SessionAppSettings) (x : Exchange host) :
    NetRun Unit × Exchange host :=
  if x.session.isAbandoned then
    (.ok (), { x with
      database := CSessionDL.sessionRemoveAsync settings x.database x.session.SessionID })
  else
    let (r, database) := CSessionDL.sessionSaveAsync host settings x.database
      x.session.sessionItems x.session.persistMetaData x.session.SessionID x.session.OldSessionID
    (r, { x with database })

/-- The callbacks of the managers, the last one first (ISPSessionIDManager.cs:56-93). -/
def startResponse (x : Exchange host) : Exchange host :=
  if x.hasStarted then x
  else
    { x with
      hasStarted := true
      cookies := x.cookies ++ (x.managers.reverse.filter fun m =>
        m.shouldEstablishSession && ISPSessionIDManager.validate m.id).map
          ISPSessionIDManager.id }

end Exchange

/-! ## What a page does -/

/-- The members of `IISPSession` that a page calls, `ReEntrance` of `ISPSession`, and the start
of the response. The indexers, `Add`, `Set`, `Remove`, `RemoveAt`, `RemoveAll` and `Clear` are
operations on the items. -/
inductive SessionCall
  | items (op : StateItemCollection.Operation NetValue)
  | count
  | keys
  | tryGetValue (key : Bstr)
  | abandon
  | getTimeout
  | setTimeout (value : BitVec 32)
  | getLiquid
  | setLiquid (value : Bool)
  | getReEntrance
  | setReEntrance (value : Bool)
  | isNewSession
  | sessionID
  | loadAsync
  | commitAsync
  | startResponse

/-- What a member returns. -/
inductive SessionReply
  | done
  | value (value : NetValue)
  | number (n : ℤ)
  | names (keys : List Bstr)
  | bytes (value : Option Bytes)
  | flag (b : Bool)
  | text (s : Bstr)

namespace Exchange

variable {host : ManagedHost} (settings : SessionAppSettings)

/-- A member that loads the session first. -/
def loaded (x : Exchange host) (f : Exchange host → NetRun SessionReply × Exchange host) :
    NetRun SessionReply × Exchange host :=
  match x.checkLoad settings with
  | (.error e, x) => (.error e, x)
  | (.ok (), x) => f x

/-- What a computation without a result returns. -/
def replied (r : NetRun Unit × Exchange host) : NetRun SessionReply × Exchange host :=
  (r.1.map fun _ => .done, r.2)

/-- A member of the session (ISPSession.cs:111-307). -/
def perform (x : Exchange host) : SessionCall → NetRun SessionReply × Exchange host
  | .items op =>
    x.loaded settings fun x =>
      let (r, sessionItems) := x.session.sessionItems.perform op
      (r.map .value, { x with session := { x.session with sessionItems } })
  | .count => x.loaded settings fun x => (.ok (.number x.session.sessionItems.count), x)
  | .keys => x.loaded settings fun x => (.ok (.names x.session.sessionItems.keys), x)
  | .tryGetValue key =>
    x.loaded settings fun x =>
      ((x.session.sessionItems.getName key).map fun v => .bytes (ApplicationCache.bytesOf v), x)
  | .abandon =>
    x.loaded settings fun x =>
      -- `_isAbandoned` is set and reset
      (.ok .done, { x with
        session := { x.session with
          isAbandoned := false
          sessionItems := x.session.sessionItems.clear } })
  | .getTimeout => (.ok (.number x.session.timeOut.toInt), x)
  | .setTimeout value => (.ok .done, { x with session := { x.session with timeOut := value } })
  | .getLiquid => (.ok (.flag x.session.liquid), x)
  | .setLiquid value => (.ok .done, { x with session := { x.session with liquid := value } })
  | .getReEntrance => (.ok (.flag x.session.reEntrance), x)
  | .setReEntrance value =>
    (.ok .done, { x with session := { x.session with reEntrance := value } })
  | .isNewSession => (.ok (.flag x.session.IsNewSession), x)
  | .sessionID => (.ok (.text x.session.SessionID), x)
  | .loadAsync => replied (x.loadAsync settings (tryEstablish settings))
  | .commitAsync => replied (x.commitAsync settings)
  | .startResponse => (.ok .done, x.startResponse)

/-- A page: what its calls return, and what they leave. -/
def performAll : List SessionCall → Exchange host → List (NetRun SessionReply) × Exchange host
  | [], x => ([], x)
  | call :: calls, x =>
    let (r, x) := x.perform settings call
    let (rs, x) := performAll calls x
    (r :: rs, x)

end Exchange

/-! ## The middleware -/

/-- What a request carries under the name of the cookie. -/
structure WebRequest where
  query : List Bstr
  cookie : Option Bstr

namespace WebRequest

/-- The values of the query as one text. -/
def queryText (r : WebRequest) : Bstr := List.intercalate (Bstr.ofString ",") r.query

/-- The first value of the query is a session id. -/
def queryValid (r : WebRequest) : Bool :=
  match r.query with
  | text :: _ => ISPSessionIDManager.validate text
  | [] => false

end WebRequest

/-- `ISPSessionStore.Create` (ISPSessionStore.cs:22-38). -/
def ISPSessionStore.create (strings : NetStrings) (settings : SessionAppSettings)
    (sessionKey : Bstr) (isNewSession : Bool) : NetRun (ISPSession strings) :=
  if sessionKey = [] then .error .argument
  -- without a configured timeout the comparison is false
  else if settings.SessionTimeout.any (·.toInt ≤ 0) then .error .argumentOutOfRange
  else .ok (.new strings settings sessionKey isNewSession)

namespace ISPSessionMiddleWare

variable {host : ManagedHost} (settings : SessionAppSettings)

/-- An id is taken when it exists, or is to be revived. -/
def accept (database : Keyspace) (text : Bstr) : Option Bstr :=
  if (database (CSessionDL.getKey settings text)).isSome then some text
  else if settings.ReEntrance = some true ∧ text ≠ [] then some text
  else none

/-- `GetSessionIDAsync` (ISPSessionIDManager.cs:94-172). -/
def getSessionIDAsync (database : Keyspace) (r : WebRequest) : Option Bstr :=
  if settings.SnifQueryStringFirst && r.queryValid then
    accept settings database (r.query.headD [])
  else
    match r.cookie with
    | none => none
    | some httpCookie =>
      if ISPSessionIDManager.validate httpCookie then accept settings database httpCookie
      else if !settings.SnifQueryStringFirst && r.queryValid then
        accept settings database r.queryText
      else none

/-- The request when the page is called: without an id it has a new one
(ISPSessionMiddleWare.cs:41-64). The page is called where `Create` does not throw (`invoke`). -/
def enter (database : Keyspace) (drawn : ℕ) (r : WebRequest) : Exchange host :=
  let (text2, drawn) :=
    match getSessionIDAsync settings database r with
    | some id => (id, drawn)
    | none => (ISPSessionIDManager.guidToHex (host.random drawn), drawn + 1)
  { database
    session := .new host.strings settings text2 false
    text2
    managers := []
    hasStarted := false
    cookies := []
    drawn }

/-- The end of the request: an exception of `CommitAsync` is dropped, and the response starts
at the latest (ISPSessionMiddleWare.cs:70-82). -/
def leave (x : Exchange host) : Exchange host :=
  (x.commitAsync settings).2.startResponse

/-- `Invoke` with a page that makes these calls; where `Create` throws, no page is called and
nothing is committed. -/
def invoke (database : Keyspace) (drawn : ℕ) (r : WebRequest) (calls : List SessionCall) :
    NetRun (List (NetRun SessionReply)) × Exchange host :=
  let x := enter settings database drawn r
  match ISPSessionStore.create host.strings settings x.text2 false with
  | .error e => (.error e, x)
  | .ok _ =>
    let (rs, x) := Exchange.performAll settings calls x
    (.ok rs, leave settings x)

end ISPSessionMiddleWare

end IspSession.Model
