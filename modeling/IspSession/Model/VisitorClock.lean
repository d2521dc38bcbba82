import IspSession.Model.VisitorSystem

/-!
# The clock of a site

Redis counts down the time to live of every record and deletes a record when its time is up, while
requests are at work and between them. Everything else that happens on the site takes no time.
-/

set_option autoImplicit false

namespace IspSession.Model

namespace SessionStore

/-- What some seconds leave of a record. -/
def aged (seconds : ℕ) (record : SessionRecord) : Option SessionRecord :=
  if record.ttl ≤ seconds then none else some { record with ttl := record.ttl - seconds }

/-- The records after some seconds. -/
def pass (store : SessionStore) (seconds : ℕ) : SessionStore :=
  fun id => (store id).bind (aged seconds)

end SessionStore

/-- What can happen on a site with a clock. -/
inductive TimedEvent (V : Type)
  | visitor (ev : VisitorEvent V)
  | pass (seconds : ℕ)

namespace VisitorSystem

variable {V : Type} {loc : Collation} [DecidableEq V] (p : Platform) (site : Site)

/-- The next event on a site with a clock. -/
def timedStep (σ : VisitorSystem V loc) : TimedEvent V → Run (VisitorSystem V loc)
  | .visitor ev => σ.step p site ev
  | .pass seconds => pure { σ with store := SessionStore.pass σ.store seconds }

end VisitorSystem

end IspSession.Model
