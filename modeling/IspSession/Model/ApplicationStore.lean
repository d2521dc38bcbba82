import IspSession.Model.Application
import Mathlib.Logic.Function.Basic

/-!
# The application cache in Redis (CSessionDL.h)

The keys of an application are the members of a set under the application key; the value
of each is a string under its own key. `execute` is what a command does to a keyspace: a
command on a value of another kind is an error without effect. `ApplicationSave` sends
its commands as one transaction, `ApplicationGet` sends three of its own. Redis answers:
a connection that fails is not modelled.
-/

set_option autoImplicit false

namespace IspSession.Model

open IspSession.Library

/-- What Redis keeps under a key. -/
inductive RedisValue
  | string (bytes : Bytes)
  /-- The members of a set, in the order in which Redis enumerates them: there are no
  empty sets. -/
  | set (members : List Bytes) (nonempty : members ≠ [])
  deriving DecidableEq

/-- A key's value and the milliseconds it has to live, if it has a time to live. -/
structure RedisEntry where
  value : RedisValue
  ttl : Option ℤ
  deriving DecidableEq

/-- A Redis database. -/
abbrev Keyspace := Bytes → Option RedisEntry

/-- The commands that write. -/
inductive RedisCommand
  | sadd (key : Bytes) (members : List Bytes)
  | srem (key : Bytes) (members : List Bytes)
  | del (keys : List Bytes)
  | mset (pairs : List (Bytes × Bytes))
  | pexpire (key : Bytes) (ms : ℤ)
  deriving DecidableEq

namespace Keyspace

/-- A set with these members, or nothing where there are none. -/
def setEntry (members : List Bytes) (ttl : Option ℤ) : Option RedisEntry :=
  if h : members = [] then none else some { value := .set members h, ttl }

/-- Adding a member to a list of members. -/
def addMember (members : List Bytes) (m : Bytes) : List Bytes :=
  if m ∈ members then members else members ++ [m]

/-- What `SADD` makes of the entry of its key. -/
def addMembers (members : List Bytes) : Option RedisEntry → Option RedisEntry
  | none => setEntry (members.foldl addMember []) none
  | some { value := .set old _, ttl } => setEntry (members.foldl addMember old) ttl
  | entry => entry

/-- What `SREM` makes of it. -/
def removeMembers (members : List Bytes) : Option RedisEntry → Option RedisEntry
  | some { value := .set old _, ttl } => setEntry (old.filter fun m => m ∉ members) ttl
  | entry => entry

/-- What `PEXPIRE` makes of it. -/
def expireIn (ms : ℤ) : Option RedisEntry → Option RedisEntry
  | none => none
  | some entry => if ms ≤ 0 then none else some { entry with ttl := some ms }

/-- What a command does. -/
def execute (s : Keyspace) : RedisCommand → Keyspace
  | .sadd key members => Function.update s key (addMembers members (s key))
  | .srem key members => Function.update s key (removeMembers members (s key))
  | .del keys => fun key => if key ∈ keys then none else s key
  | .mset pairs =>
    pairs.foldl (fun s p => Function.update s p.1 (some { value := .string p.2, ttl := none })) s
  | .pexpire key ms => Function.update s key (expireIn ms (s key))

/-- Commands one after the other, as a transaction performs them. -/
def executeAll (s : Keyspace) (commands : List RedisCommand) : Keyspace :=
  commands.foldl execute s

/-- `SMEMBERS`. -/
def smembers (s : Keyspace) (key : Bytes) : List Bytes :=
  match s key with
  | some { value := .set members _, ttl := _ } => members
  | _ => []

/-- `GET`, also what `MGET` answers for one key. -/
def get (s : Keyspace) (key : Bytes) : Option Bytes :=
  match s key with
  | some { value := .string bytes, ttl := _ } => some bytes
  | _ => none

/-- `MGET`. -/
def mget (s : Keyspace) (keys : List Bytes) : List (Option Bytes) := keys.map s.get

end Keyspace

/-- A digit of `HexStringFromMemory` (tools.cpp:355-388). -/
def hexDigit (n : UInt8) : UInt8 := if 9 < n then n + 55 else n ||| 48

/-- `HexStringFromMemory`. -/
def hexStringFromMemory (bytes : Bytes) : Bytes :=
  bytes.flatMap fun b => [hexDigit (b / 16), hexDigit (b &&& 15)]

/-- `appkey + ":"`. -/
def appkeyPrefix (appkey : Bytes) : Bytes := appkey ++ [58]

/-- The Redis key of a key of the application. -/
def redisKey (appkey key : Bytes) : Bytes := appkeyPrefix appkey ++ strToUpper key

namespace CApplicationDL

variable {loc : Collation}

/-- The commands between `MULTI` and `EXEC` (CSessionDL.h:161-250): none are sent when
there is nothing to save. `pairs` are the records of the new and the changed keys. -/
def saveCommands (appkey : Bytes) (states : KeyStates Bytes) (pairs : List (Bytes × Bytes)) :
    List RedisCommand :=
  let names (keys : List Bytes) := keys.map (redisKey appkey)
  (if states.newKeys = [] then [] else [.sadd appkey (names states.newKeys)]) ++
  (if states.removedKeys = [] then []
    else [.del (names states.removedKeys), .srem appkey (names states.removedKeys)]) ++
  (if states.changedKeys = [] ∧ states.newKeys = [] then [] else [.mset pairs]) ++
  states.expireKeys.map fun e => .pexpire (redisKey appkey e.1) e.2

/-- `ApplicationSave` (CSessionDL.h:126-262). -/
def applicationSave (cp : CodePage) (mem : Memory) (appkey : Bytes) (s : Keyspace)
    (a : CApplication loc) : Run (Keyspace × CApplication loc) := do
  let states := a.keyStates
  let (newPairs, a) ←
    a.serializeKeys cp mem (appkeyPrefix appkey) states.newKeys CStream.new
  let (changedPairs, a) ←
    a.serializeKeys cp mem (appkeyPrefix appkey) states.changedKeys CStream.new
  pure (s.executeAll (saveCommands appkey states (newPairs ++ changedPairs)), a)

/-- `IsDirty` (Application.cpp:105-127). -/
def isDirty (a : CApplication loc) : Bool :=
  if a.removed ≠ [] then true
  else a.dictionary.entries.any fun e => e.2.isDirty || e.2.isNew || decide ((0 : ℤ) < e.2.expireAt)

/-- `PersistApplication` (Application.cpp:128-152), which saves an application only when there is
something to save. -/
def persistApplication (cp : CodePage) (mem : Memory) (appkey : Bytes) (s : Keyspace)
    (a : CApplication loc) : Run (Keyspace × CApplication loc) :=
  if isDirty a then applicationSave cp mem appkey s a else pure (s, a)

/-- The loop of `ApplicationGet` over the replies (CSessionDL.h:301-315). -/
def deserializeKeys (mem : Memory) : List (Option Bytes) → CApplication loc → Run (CApplication loc)
  | [], a => pure a
  | none :: replies, a => deserializeKeys mem replies a
  | some subRepl :: replies, a => do
    let (_, a) ← a.deserializeKey mem subRepl
    deserializeKeys mem replies a

/-- The members found without a value, which `ApplicationGet` takes out of the set. -/
def ghostKeys (keys : List Bytes) (replies : List (Option Bytes)) : List Bytes :=
  ((keys.zip replies).filter fun p => p.2.isNone).map Prod.fst

/-- The command that takes them out (CSessionDL.h:316-319). -/
def cleanup (appkey : Bytes) (keys : List Bytes) (replies : List (Option Bytes)) :
    List RedisCommand :=
  if ghostKeys keys replies = [] then [] else [.srem appkey (ghostKeys keys replies)]

/-- `ApplicationGet` (CSessionDL.h:264-331), where `keys` is the reply of `SMEMBERS`. -/
def applicationGet (mem : Memory) (appkey : Bytes) (s : Keyspace) (keys : List Bytes)
    (a : CApplication loc) : Run (Keyspace × CApplication loc) := do
  let replies := s.mget keys
  let a ← deserializeKeys mem replies a
  pure (s.executeAll (cleanup appkey keys replies), a)

end CApplicationDL

end IspSession.Model
