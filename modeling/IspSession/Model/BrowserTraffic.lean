import IspSession.Model.ManagedSession
import IspSession.Library.Locality

/-!
# Browsers in front of the core middleware

Any number of browsers use a site, and each of them has any number of requests at work at the same
time: between the start of a request, the calls of its page and its end anything can happen to the
records. A browser keeps every session cookie that it has been sent, and sends one of them or none:
which one depends on paths and times that are not kept here.
-/

set_option autoImplicit false

namespace IspSession.Model

open IspSession.Library

/-- A browser: the session cookies it has received, its requests at work, and what the members of
the session have returned to their pages, in this order. -/
structure Browser (host : ManagedHost) where
  cookies : List Bstr
  requests : ℕ → Option (Exchange host)
  replies : List (ℕ × NetRun SessionReply)

/-- What can happen to the requests and the records of a browser. -/
inductive BrowserEvent
  /-- A request begins, with these values in its query string and one of the cookies. -/
  | enter (i : ℕ) (query : List Bstr) (sent : ℕ)
  | call (i : ℕ) (c : SessionCall)
  /-- The browser gets the cookies of a response. -/
  | receive (i : ℕ)
  | leave (i : ℕ)
  /-- The record under the id in a cookie is gone. -/
  | timeUp (sent : ℕ)
  /-- The record of a request at work is gone. -/
  | timeUpAtWork (i : ℕ)

namespace Browser

variable {host : ManagedHost} (settings : SessionAppSettings)

/-- Nobody has used the browser. -/
def new (host : ManagedHost) : Browser host := ⟨[], fun _ => none, []⟩

/-- A request at its turn: Redis and the random numbers are the server's. -/
def resume (t : Turn (Browser host) Bytes RedisEntry) (x : Exchange host) : Exchange host :=
  { x with database := t.store, drawn := t.drawn }

/-- A request between its turns. -/
def parked (x : Exchange host) : Exchange host := { x with database := fun _ => none, drawn := 0 }

/-- A request has done something. -/
def working (t : Turn (Browser host) Bytes RedisEntry) (i : ℕ)
    (r : List (NetRun SessionReply) × Exchange host) : Turn (Browser host) Bytes RedisEntry where
  store := r.2.database
  drawn := r.2.drawn
  agent :=
    { t.agent with
      requests := Function.update t.agent.requests i (some (parked r.2))
      replies := t.agent.replies ++ r.1.map fun reply => (i, reply) }

/-- A request is over. -/
def ended (t : Turn (Browser host) Bytes RedisEntry) (i : ℕ) (x : Exchange host) :
    Turn (Browser host) Bytes RedisEntry where
  store := x.database
  drawn := x.drawn
  agent :=
    { t.agent with
      cookies := t.agent.cookies ++ x.cookies
      requests := Function.update t.agent.requests i none }

/-- The record under an id is gone. -/
def gone (t : Turn (Browser host) Bytes RedisEntry) (id : Bstr) :
    Turn (Browser host) Bytes RedisEntry :=
  { t with store := Function.update t.store (CSessionDL.getKey settings id) none }

/-- The next event of a browser; one that cannot happen changes nothing. -/
def act (t : Turn (Browser host) Bytes RedisEntry) :
    BrowserEvent → Turn (Browser host) Bytes RedisEntry
  | .enter i query sent =>
    match t.agent.requests i with
    | some _ => t
    | none =>
      working t i ([], ISPSessionMiddleWare.enter settings t.store t.drawn
        ⟨query, t.agent.cookies[sent]?⟩)
  | .call i c =>
    match t.agent.requests i with
    | none => t
    | some x =>
      let (reply, x) := (resume t x).perform settings c
      working t i ([reply], x)
  | .receive i =>
    match t.agent.requests i with
    | none => t
    | some x => { t with agent := { t.agent with cookies := t.agent.cookies ++ x.cookies } }
  | .leave i =>
    match t.agent.requests i with
    | none => t
    | some x => ended t i (ISPSessionMiddleWare.leave settings (resume t x))
  | .timeUp sent =>
    match t.agent.cookies[sent]? with
    | none => t
    | some id => gone settings t id
  | .timeUpAtWork i =>
    match t.agent.requests i with
    | none => t
    | some x => gone settings t x.session.SessionID

end Browser

/-- The browsers of a site, the records and the random numbers. -/
abbrev BrowserSystem (V : Type) (host : ManagedHost) := Shared V (Browser host) Bytes RedisEntry

/-- A site that nobody has visited yet. -/
def BrowserSystem.start (V : Type) (host : ManagedHost) : BrowserSystem V host where
  store _ := none
  drawn := 0
  agent _ := .new host

end IspSession.Model
