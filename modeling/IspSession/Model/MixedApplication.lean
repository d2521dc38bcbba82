import IspSession.Model.ApplicationSystem
import IspSession.Model.ManagedStore

/-!
# One managed save among native requests

The managed `ApplicationSave` sends its commands one by one (CSessionDL.cs:75-119). Between
any two of them native requests on the same application can send those of `ApplicationGet`.
-/

set_option autoImplicit false

namespace IspSession.Model

open IspSession.Library

/-- What can happen next: the save sends a command, or a native request one of its. -/
inductive MixedEvent
  | send
  | smembers (i : ℕ)
  | mget (i : ℕ)
  | srem (i : ℕ) (mem : Memory)

/-- The commands of the save that have not been sent, and Redis with the native requests. -/
structure MixedApplication (loc : Collation) where
  unsent : List RedisCommand
  native : ApplicationSystem loc

namespace MixedApplication

variable {loc : Collation}

/-- The next command of the save. -/
def send (σ : MixedApplication loc) : MixedApplication loc :=
  match σ.unsent with
  | [] => σ
  | c :: unsent => { unsent, native := { σ.native with store := σ.native.store.execute c } }

/-- The next step; an event that cannot happen changes nothing. -/
def step (cp : CodePage) (oleLoad : Bytes → Option ComObject) (appkey : Bytes)
    (σ : MixedApplication loc) (event : MixedEvent) : Run (MixedApplication loc) :=
  let nativeStep (e : Event) : Run (MixedApplication loc) := do
    let native ← σ.native.step cp oleLoad appkey e
    pure { σ with native }
  match event with
  | .send => pure σ.send
  | .smembers i => nativeStep (.smembers i)
  | .mget i => nativeStep (.mget i)
  | .srem i mem => nativeStep (.srem i mem)

/-- The save and the requests still to come. -/
def start (commands : List RedisCommand) (store : Keyspace) : MixedApplication loc where
  unsent := commands
  native := .start store

end MixedApplication

end IspSession.Model
