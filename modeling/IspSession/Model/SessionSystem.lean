import IspSession.Model.Session

/-!
# Requests on one session at the same time

A request on a session that is there and not liquid sends two commands: `GET` when `dbInit`
opens the record (CSessionDL.h:634), and `SET` or `EXPIRE` when `PersistSession` saves it
(CSessionDL.h:465, 512). In between it sets variables in its own dictionary. Between any two
commands those of other requests can come.

The state keeps, as a history, the record that each request was given.
-/

set_option autoImplicit false

namespace IspSession.Model

open IspSession.Library

/-- Setting a variable, with `put_Value` or `putref_Value`. -/
inductive SessionPut
  | value (vkey : Bstr) (newVal : Argument) (defaults : List Variant)
  | ref (vkey : Bstr) (newVal : Argument)

namespace SessionPut

/-- The name of the variable that is set: the key up to its first zero. -/
def key : SessionPut → Bstr
  | value vkey _ _ => lpcolestr vkey
  | ref vkey _ => lpcolestr vkey

/-- The call. -/
def call : SessionPut → Request.Call
  | value vkey newVal defaults => .putValue vkey newVal defaults
  | ref vkey newVal => .putrefValue vkey newVal

end SessionPut

/-- What a request is given, and the variables it sets. -/
structure SessionClient where
  cookie : Option Guid
  query : Option Guid
  drawn : ℕ
  lngTimeOutSetting : BitVec 32
  dtExpires : BitVec 32
  blnSnifQueryStringFirst : Bool
  puts : List SessionPut

/-- The request that begins. -/
def SessionClient.request (loc : Collation) (client : SessionClient) (store : SessionStore) :
    Request loc :=
  .start store client.drawn client.lngTimeOutSetting client.dtExpires
    client.blnSnifQueryStringFirst

/-- How far a request has got. -/
inductive SessionStage (loc : Collation)
  | waiting
  /-- The record that `GET` has returned, and the request with its variables set. -/
  | working (seen : Option SessionRecord) (r : Request loc)
  /-- The dictionary that was saved. -/
  | done (d : VariantDictionary loc)

/-- The commands. -/
inductive SessionEvent
  | get (i : ℕ)
  | save (i : ℕ)

/-- The records and the requests. -/
structure SessionSystem (loc : Collation) where
  store : SessionStore
  stage : ℕ → SessionStage loc

namespace SessionSystem

variable {loc : Collation} (p : Platform) (clients : ℕ → SessionClient)

/-- The next command; one that cannot be sent changes nothing. -/
def step (σ : SessionSystem loc) : SessionEvent → Run (SessionSystem loc)
  | .get i =>
    match σ.stage i with
    | .waiting => do
      let client := clients i
      let r := client.request loc σ.store
      let (_, r₁) ← r.onStartPage p client.cookie client.query
      let r₂ ← Runs.run (Request.perform p) (client.puts.map SessionPut.call) r₁
      pure
        { store := r₂.store
          stage := Function.update σ.stage i
            (.working (σ.store (r.identify client.cookie client.query).guid) r₂) }
    | _ => pure σ
  | .save i =>
    match σ.stage i with
    | .working _ r => do
      let (_, r') ← Request.onEndPage p { r with store := σ.store }
      pure
        { store := r'.store
          stage := Function.update σ.stage i (.done r'.m_piVarDict) }
    | _ => pure σ

/-- All requests still to come. -/
def start (store : SessionStore) : SessionSystem loc where
  store
  stage := fun _ => .waiting

end SessionSystem

end IspSession.Model
