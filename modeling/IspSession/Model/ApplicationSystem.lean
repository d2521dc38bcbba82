import IspSession.Model.ApplicationStore

/-!
# Requests on one application at the same time

Each request sends its commands one after the other: `SMEMBERS`, `MGET` and, when members
were found without a value, `SREM` (CSessionDL.h:264-331); then it works on what it has
loaded and commits that with one `MULTI`/`EXEC` (CSessionDL.h:126-262). Between any two
commands those of other requests can come, and keys with a time to live can expire. A
request that faults sends nothing more.

The state keeps, as a history, the records that commits have written.
-/

set_option autoImplicit false

namespace IspSession.Model

open IspSession.Library

/-- How far a request has got. -/
inductive Stage (loc : Collation)
  | idle
  /-- `SMEMBERS` has answered. -/
  | asked (keys : List Bytes)
  /-- `MGET` has answered. -/
  | answered (keys : List Bytes) (replies : List (Option Bytes))
  /-- The application has been loaded. -/
  | working (a : CApplication loc)

/-- What can happen next; what the memory holds is up to the moment. -/
inductive Event
  | smembers (i : ℕ)
  | mget (i : ℕ)
  | srem (i : ℕ) (mem : Memory)
  | call (i : ℕ) (mem : Memory) (c : CApplication.Call)
  | commit (i : ℕ) (mem : Memory)
  | expire (name : Bytes)

/-- The request that an event is a step of. -/
def Event.request : Event → Option ℕ
  | .smembers i | .mget i | .srem i _ | .call i _ _ | .commit i _ => some i
  | .expire _ => none

/-- Redis, the requests, and the records that have been committed. -/
structure ApplicationSystem (loc : Collation) where
  store : Keyspace
  stage : ℕ → Stage loc
  records : List (Bytes × Bytes)

namespace ApplicationSystem

variable {loc : Collation}

/-- The system with a request at another stage. -/
def setStage (σ : ApplicationSystem loc) (i : ℕ) (stage : Stage loc) : ApplicationSystem loc :=
  { σ with stage := Function.update σ.stage i stage }

/-- The records that `ApplicationSave` sends. -/
def committedRecords (cp : CodePage) (mem : Memory) (appkey : Bytes) (a : CApplication loc) :
    Run (List (Bytes × Bytes)) := do
  let states := a.keyStates
  let (newPairs, a) ←
    a.serializeKeys cp mem (appkeyPrefix appkey) states.newKeys CStream.new
  let (changedPairs, _) ←
    a.serializeKeys cp mem (appkeyPrefix appkey) states.changedKeys CStream.new
  pure (newPairs ++ changedPairs)

/-- The next step; an event that cannot happen changes nothing. -/
def step (cp : CodePage) (oleLoad : Bytes → Option ComObject) (appkey : Bytes)
    (σ : ApplicationSystem loc) : Event → Run (ApplicationSystem loc)
  | .smembers i =>
    match σ.stage i with
    | .idle => pure (σ.setStage i (.asked (σ.store.smembers appkey)))
    | _ => pure σ
  | .mget i =>
    match σ.stage i with
    | .asked keys => pure (σ.setStage i (.answered keys (σ.store.mget keys)))
    | _ => pure σ
  | .srem i mem =>
    match σ.stage i with
    | .answered keys replies =>
      match CApplicationDL.deserializeKeys mem replies (.new : CApplication loc) with
      | .ok a =>
        pure { σ.setStage i (.working a) with
          store := σ.store.executeAll (CApplicationDL.cleanup appkey keys replies) }
      | .error _ => pure (σ.setStage i .idle)
    | _ => pure σ
  | .call i mem c =>
    match σ.stage i with
    | .working a =>
      match a.perform mem oleLoad c with
      | .ok a => pure (σ.setStage i (.working a))
      | .error _ => pure (σ.setStage i .idle)
    | _ => pure σ
  | .commit i mem =>
    match σ.stage i with
    | .working a =>
      match CApplicationDL.applicationSave cp mem appkey σ.store a,
        committedRecords cp mem appkey a with
      | .ok (store, _), .ok records =>
        pure { σ.setStage i .idle with store, records := σ.records ++ records }
      | _, _ => pure (σ.setStage i .idle)
    | _ => pure σ
  | .expire name =>
    match σ.store name with
    | some { value := _, ttl := some _ } =>
      pure { σ with store := Function.update σ.store name none }
    | _ => pure σ

/-- All requests still to come. -/
def start (store : Keyspace) : ApplicationSystem loc where
  store
  stage := fun _ => .idle
  records := []

end ApplicationSystem

end IspSession.Model
