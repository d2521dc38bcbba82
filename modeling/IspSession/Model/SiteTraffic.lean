import IspSession.Model.BrowserTraffic
import IspSession.Model.SessionModule

/-!
# Browsers on a site of both managed components

Some pages of a site are behind the core middleware and some behind the module of ASP.NET, on the
same Redis and with the same settings. A browser has one session cookie for all of them. A request
to the module sends its commands one by one, and anything can happen between two of them; its page
runs between the two handlers of the module.
-/

set_option autoImplicit false

namespace IspSession.Model

open IspSession.Library

namespace CSessionManaged

/-- Where a request to the module stands. -/
inductive ModulePhase (names : NetNames)
  /-- `GetSessionID` has returned. -/
  | asked (id : Option Bstr)
  /-- `SessionGet` has returned. -/
  | found (id : Option Bstr)
    (sessionItems : Option (Model.CSessionDL.PersistMetaData × SessionStateItemCollection names))
  /-- `OnAcquireRequestState` has returned. -/
  | page
  /-- `OnReleaseRequestState` has one command left to send. -/
  | last (c : SessionCommand)

namespace ISPSessionModule

variable (host : HttpHost) (settings : SessionAppSettings) (r : HttpRequest)

/-- `OnAcquireRequestState`, up to its first command. -/
def beginAcquire (x : HttpExchange host.names) : ModulePhase host.names × HttpExchange host.names :=
  if r.sessionMode = .False then (.page, x)
  else
    let (id, x) := ISPSessionIDManager.getSessionID settings r x
    (.asked id, x)

/-- The command by which `SessionSave` writes, behind its `RENAME`. -/
def saveCommand (state : ISPHttpSessionStateContainer host.names) : NetRun SessionCommand :=
  let key := Model.CSessionDL.getKey settings state.SessionID
  let ts := Model.CSessionDL.milliseconds (CSessionDL.minutes settings state)
  if state.IsReadOnly then .ok (.keyExpire key ts)
  else do
    let (bytes, zLen) ← PersistUtil.localContents host.strings host.runtime state.Items
    pure (.stringSet key (Model.CSessionDL.toByteArray
      (CSessionDL.metaData settings state.Timeout zLen) ++
        CSessionDL.compressed settings host.deflate bytes) ts)

/-- `OnReleaseRequestState`, up to its last command. -/
def beginRelease (x : HttpExchange host.names) :
    NetRun (Option (ModulePhase host.names)) × HttpExchange host.names :=
  if r.sessionMode = .False then (.ok none, x)
  else
    match x.state with
    | none => (.error .nullReference, x)
    | some state =>
      if state.IsAbandoned then
        let key := Model.CSessionDL.getKey settings state.SessionID
        let present := (x.database key).isSome
        let x := (ISPSessionIDManager.removeSessionID x).send (.keyExists key)
        if present then (.ok (some (.last (.keyDelete key))), x)
        else (.ok none, { x with state := none })
      else
        match saveCommand host settings state with
        | .error e => (.error e, x)
        | .ok c =>
          (.ok (some (.last c)), CSessionDL.moveFrom settings state.oldSessionId state.SessionID x)

/-- What a request does next, and where it stands then unless it is over. -/
def proceed (phase : ModulePhase host.names) (x : HttpExchange host.names) :
    NetRun (Option (ModulePhase host.names)) × HttpExchange host.names :=
  match phase with
  | .asked none => (.ok (some (.found none none)), x)
  | .asked (some id) =>
    match CSessionDL.sessionGet host settings id x with
    | (.error e, x) => (.error e, x)
    | (.ok sessionItems, x) => (.ok (some (.found (some id) sessionItems)), x)
  | .found id sessionItems =>
    match acquire host settings r id sessionItems x with
    | (.error e, x) => (.error e, x)
    | (.ok (), x) => (.ok (some .page), x)
  | .page => beginRelease host settings r x
  | .last c => (.ok none, { x.send c with state := none })

/-- The request proceeds until it is at its page or over. -/
def proceeds : ℕ → ModulePhase host.names × HttpExchange host.names →
    NetRun (Option (ModulePhase host.names)) × HttpExchange host.names
  | 0, (phase, x) => (.ok (some phase), x)
  | _ + 1, (.page, x) => (.ok (some .page), x)
  | n + 1, (phase, x) =>
    match proceed host settings r phase x with
    | (.ok (some phase), x) => proceeds n (phase, x)
    | (result, x) => (result, x)

/-- The request is released: it sends its last command where one is left. -/
def releases (x : HttpExchange host.names) :
    NetRun (Option (ModulePhase host.names)) × HttpExchange host.names :=
  match beginRelease host settings r x with
  | (.ok (some phase), x) => proceeds host settings r 1 (phase, x)
  | (result, x) => (result, x)

end ISPSessionModule

/-- A request to the module at work. -/
structure PageRequest (names : NetNames) where
  request : HttpRequest
  phase : ModulePhase names
  exchange : HttpExchange names

end CSessionManaged

open CSessionManaged

/-- A browser on the site: its cookies and its requests to the core middleware, its requests to the
module, and how these have ended. -/
structure SiteBrowser (host : HttpHost) where
  browser : Browser host.toManagedHost
  pages : ℕ → Option (PageRequest host.names)
  results : List (ℕ × NetRun Unit)

/-- What can happen to the requests and the records of a browser. -/
inductive SiteEvent
  | core (e : BrowserEvent)
  /-- A request to the module begins, with one of the cookies. -/
  | enter (i : ℕ) (r : HttpRequest) (sent : ℕ)
  | proceed (i : ℕ)
  | call (i : ℕ) (c : PageCall)
  /-- The browser gets the cookie of a response. -/
  | receive (i : ℕ)
  /-- The page throws. -/
  | throws (i : ℕ)
  /-- The record of a request at work is gone. -/
  | timeUpAtWork (i : ℕ)

namespace SiteBrowser

variable {host : HttpHost} (settings : SessionAppSettings)

/-- Nobody has used the browser. -/
def new (host : HttpHost) : SiteBrowser host := ⟨.new host.toManagedHost, fun _ => none, []⟩

/-- The browser at its turn, as one of the core middleware. -/
def coreTurn (t : Turn (SiteBrowser host) Bytes RedisEntry) :
    Turn (Browser host.toManagedHost) Bytes RedisEntry := ⟨t.store, t.drawn, t.agent.browser⟩

/-- That turn is over. -/
def coreDone (u : Turn (Browser host.toManagedHost) Bytes RedisEntry)
    (t : Turn (SiteBrowser host) Bytes RedisEntry) : Turn (SiteBrowser host) Bytes RedisEntry :=
  ⟨u.store, u.drawn, { t.agent with browser := u.agent }⟩

/-- A request at its turn: Redis and the random numbers are the server's. -/
def resume (t : Turn (SiteBrowser host) Bytes RedisEntry) (x : HttpExchange host.names) :
    HttpExchange host.names :=
  { x with database := t.store, drawn := t.drawn }

/-- A request between its turns. -/
def parked (x : HttpExchange host.names) : HttpExchange host.names :=
  { x with database := fun _ => none, drawn := 0 }

/-- A request has done something. -/
def working (t : Turn (SiteBrowser host) Bytes RedisEntry) (i : ℕ) (r : HttpRequest)
    (phase : ModulePhase host.names) (x : HttpExchange host.names) :
    Turn (SiteBrowser host) Bytes RedisEntry where
  store := x.database
  drawn := x.drawn
  agent := { t.agent with pages := Function.update t.agent.pages i (some ⟨r, phase, parked x⟩) }

/-- The browser gets these cookies. -/
def keeping (q : SiteBrowser host) (cookies : List Bstr) : SiteBrowser host :=
  { q with browser := { q.browser with cookies := q.browser.cookies ++ cookies } }

/-- A request is over. -/
def ended (t : Turn (SiteBrowser host) Bytes RedisEntry) (i : ℕ) (result : NetRun Unit)
    (x : HttpExchange host.names) : Turn (SiteBrowser host) Bytes RedisEntry where
  store := x.database
  drawn := x.drawn
  agent :=
    { t.agent.keeping x.cookie.toList with
      pages := Function.update t.agent.pages i none
      results := t.agent.results ++ [(i, result)] }

/-- A request has gone on. -/
def proceeded (t : Turn (SiteBrowser host) Bytes RedisEntry) (i : ℕ) (r : HttpRequest) :
    NetRun (Option (ModulePhase host.names)) × HttpExchange host.names →
      Turn (SiteBrowser host) Bytes RedisEntry
  | (.error e, x) => ended t i (.error e) x
  | (.ok none, x) => ended t i (.ok ()) x
  | (.ok (some phase), x) => working t i r phase x

/-- An exception of the page: the session is not released. -/
def pageThrows (t : Turn (SiteBrowser host) Bytes RedisEntry) (i : ℕ) (p : PageRequest host.names) :
    Turn (SiteBrowser host) Bytes RedisEntry :=
  match p.phase with
  | .page => ended t i (.error .http) (resume t p.exchange)
  | _ => t

/-- A call of the page. -/
def pageCalls (t : Turn (SiteBrowser host) Bytes RedisEntry) (i : ℕ) (c : PageCall)
    (p : PageRequest host.names) : Turn (SiteBrowser host) Bytes RedisEntry :=
  match p.phase with
  | .page => working t i p.request .page (runPage [c] (resume t p.exchange))
  | _ => t

/-- The record under an id is gone. -/
def gone (t : Turn (SiteBrowser host) Bytes RedisEntry) (id : Bstr) :
    Turn (SiteBrowser host) Bytes RedisEntry :=
  { t with store := Function.update t.store (Model.CSessionDL.getKey settings id) none }

/-- The next event of a browser; one that cannot happen changes nothing. -/
def act (t : Turn (SiteBrowser host) Bytes RedisEntry) :
    SiteEvent → Turn (SiteBrowser host) Bytes RedisEntry
  | .core e => coreDone (Browser.act settings (coreTurn t) e) t
  | .enter i r sent =>
    match t.agent.pages i with
    | some _ => t
    | none =>
      let r := { r with cookie := t.agent.browser.cookies[sent]? }
      let (phase, x) := ISPSessionModule.beginAcquire host settings r (.new t.store t.drawn)
      working t i r phase x
  | .proceed i =>
    match t.agent.pages i with
    | none => t
    | some p =>
      proceeded t i p.request
        (ISPSessionModule.proceed host settings p.request p.phase (resume t p.exchange))
  | .call i c =>
    match t.agent.pages i with
    | none => t
    | some p => pageCalls t i c p
  | .receive i =>
    match t.agent.pages i with
    | none => t
    | some p => { t with agent := t.agent.keeping p.exchange.cookie.toList }
  | .throws i =>
    match t.agent.pages i with
    | none => t
    | some p => pageThrows t i p
  | .timeUpAtWork i =>
    match (t.agent.pages i).bind fun p => p.exchange.state with
    | none => t
    | some state => gone settings t state.SessionID

end SiteBrowser

/-- The browsers of a site, the records and the random numbers. -/
abbrev SiteSystem (V : Type) (host : HttpHost) := Shared V (SiteBrowser host) Bytes RedisEntry

/-- A site that nobody has visited yet. -/
def SiteSystem.start (V : Type) (host : HttpHost) : SiteSystem V host where
  store _ := none
  drawn := 0
  agent _ := .new host

end IspSession.Model
