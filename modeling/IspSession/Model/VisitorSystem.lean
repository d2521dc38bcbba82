import IspSession.Model.Session
import IspSession.Library.Ownership

/-!
# The visitors of a site

Every visitor has a browser that keeps the last cookie it was sent and sends it with the next
request. The requests of one visitor come one after the other, those of different visitors at
the same time: between `OnStartPage`, the calls of a page and `OnEndPage` anything can happen to
the records. A browser may lose its cookie, and Redis deletes a record whose time is up.
-/

set_option autoImplicit false

namespace IspSession.Model

open IspSession.Library

/-- The settings of the site (`ReadConfigFromWebConfig`, Session.cpp:297-353). -/
structure Site where
  lngTimeOutSetting : BitVec 32
  dtExpires : BitVec 32
  blnSnifQueryStringFirst : Bool

/-- A visitor: the cookie in the browser, and the request at work. -/
structure Visitor (loc : Collation) where
  cookie : Option Guid
  request : Option (Request loc)

/-- The cookie in a browser after a response with these cookies, the last one in front: one with
a negative time is sent with `Max-Age=0` (WriteSessionCookie.cpp:89-93) and deleted. -/
def browserCookie (before : Option Guid) : List SessionCookie → Option Guid
  | [] => before
  | cookie :: _ => if cookie.expires.toInt < 0 then none else cookie.value

/-- What can happen. -/
inductive VisitorEvent (V : Type)
  | startPage (v : V)
  | call (v : V) (c : Request.Call)
  | endPage (v : V)
  | dropCookie (v : V)
  | timeUp (v : V)

/-- Whom it happens to. -/
def VisitorEvent.visitor {V : Type} : VisitorEvent V → V
  | .startPage v | .call v _ | .endPage v | .dropCookie v | .timeUp v => v

/-- The records, the ids drawn and the visitors. -/
abbrev VisitorSystem (V : Type) (loc : Collation) := Shared V (Visitor loc) Guid SessionRecord

namespace VisitorSystem

variable {V : Type} {loc : Collation}

/-- A request as it finds the records. -/
def resume (σ : VisitorSystem V loc) (r : Request loc) : Request loc :=
  { r with store := σ.store, drawn := σ.drawn }

variable [DecidableEq V] (p : Platform) (site : Site)

/-- A request has done something. -/
def working (σ : VisitorSystem V loc) (v : V) (r : Request loc) : VisitorSystem V loc where
  store := r.store
  drawn := r.drawn
  agent := Function.update σ.agent v ⟨(σ.agent v).cookie, some r⟩

/-- A request is over. -/
def ended (σ : VisitorSystem V loc) (v : V) (r : Request loc) : VisitorSystem V loc where
  store := r.store
  drawn := r.drawn
  agent := Function.update σ.agent v ⟨browserCookie (σ.agent v).cookie r.cookies, none⟩

/-- The request that begins. -/
def arrival (σ : VisitorSystem V loc) : Request loc :=
  .start σ.store σ.drawn site.lngTimeOutSetting site.dtExpires site.blnSnifQueryStringFirst

/-- The next event; one that cannot happen changes nothing. -/
def step (σ : VisitorSystem V loc) : VisitorEvent V → Run (VisitorSystem V loc)
  | .startPage v =>
    match (σ.agent v).request with
    | some _ => pure σ
    | none => do
      let (_, r) ← (arrival site σ).onStartPage p (σ.agent v).cookie none
      pure (working σ v r)
  | .call v c =>
    match (σ.agent v).request with
    | none => pure σ
    | some r => do
      let r ← (resume σ r).perform p c
      pure (working σ v r)
  | .endPage v =>
    match (σ.agent v).request with
    | none => pure σ
    | some r => do
      let (_, r) ← (resume σ r).onEndPage p
      pure (ended σ v r)
  | .dropCookie v =>
    match (σ.agent v).request with
    | some _ => pure σ
    | none => pure { σ with agent := Function.update σ.agent v ⟨none, none⟩ }
  | .timeUp v =>
    match (σ.agent v).cookie with
    | none => pure σ
    | some id => pure { σ with store := Function.update σ.store id none }

/-- A site that nobody has visited yet. -/
def start : VisitorSystem V loc where
  store _ := none
  drawn := 0
  agent _ := ⟨none, none⟩

end VisitorSystem

end IspSession.Model
