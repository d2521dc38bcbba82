import IspSession.Model.ApplicationStore
import IspSession.Model.DotNet

/-!
# The application cache in Redis, managed (CSessionDL.cs)

`ApplicationSave` of the managed core. Its commands are sent one by one, not in the
transaction that it makes. Texts are sent in UTF-8.
-/

set_option autoImplicit false

namespace IspSession.Model

open IspSession.Library

/-- The same lists of other keys. -/
def KeyStates.map {κ ι : Type} (f : κ → ι) (states : KeyStates κ) : KeyStates ι where
  changedKeys := states.changedKeys.map f
  newKeys := states.newKeys.map f
  otherKeys := states.otherKeys.map f
  expireKeys := states.expireKeys.map fun e => (f e.1, e.2)
  removedKeys := states.removedKeys.map f

namespace CSessionDL

/-- `appkeyPrefix + key.ToUpperInvariant()`. -/
def redisKey (culture : InvariantCulture) (AppKey key : Bstr) : Bytes :=
  utf16ToUtf8 (culture.toUpperInvariant AppKey ++ Bstr.ofString ":" ++
    culture.toUpperInvariant key)

/-- The commands of `ApplicationSave` (CSessionDL.cs:75-119). `multipleSet` are the
records of the new and the changed keys. -/
def saveCommands (culture : InvariantCulture) (AppKey : Bstr) (states : KeyStates Bstr)
    (multipleSet : List (Bytes × Bytes)) : List RedisCommand :=
  let setKey := utf16ToUtf8 (culture.toUpperInvariant AppKey)
  let names (keys : List Bstr) := keys.map (redisKey culture AppKey)
  (if states.newKeys = [] then [] else [.sadd setKey (names states.newKeys)]) ++
  (if states.removedKeys = [] then [] else [.srem setKey (names states.removedKeys)]) ++
  (if multipleSet = [] then [] else [.mset multipleSet]) ++
  states.expireKeys.map fun key => .pexpire (utf16ToUtf8 key.1) key.2

end CSessionDL

end IspSession.Model
