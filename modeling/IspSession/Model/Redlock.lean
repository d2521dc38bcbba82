import Mathlib.Data.Finset.Card
import Mathlib.Logic.Function.Basic
import IspSession.Library.Runs

/-!
# The distributed lock `Redlock` (Redlock.cs, Lock.cs)

`Lock` asks every server to keep a key with the caller's random value for `ttl`, unless the key is
there, and has the lock when a majority did so and some of the time is left; otherwise it takes the
keys back and tries again. `Unlock` takes the keys back.

The servers, the callers of `Lock` and the commands between them are one system. A caller either
gets a server's answer or an exception; then the command stays under way, behind earlier ones of the
same caller, and the server may execute it later or never. A server may drop a key whose time is
over, by a clock that is ahead of the callers' by no more than the drift that `Lock` allows for.
Time is counted in the ticks of a `TimeSpan`, 100 ns each.
-/

set_option autoImplicit false

namespace IspSession.Model

namespace Redlock

/-- `DefaultRetryCount` -/
def defaultRetryCount : ℕ := 3

/-- `(int)` of a `double` whose whole part is `x`: out of the range it is the least `int`. -/
def toInt (x : ℕ) : Int := if x < 2147483648 then x else -2147483648

/-- `(int)(ttl.TotalMilliseconds * ClockDriveFactor) + 2` milliseconds (Redlock.cs:121); the sum is
one of `int`s, unchecked. -/
def drift (ttl : ℕ) : Int := (toInt (ttl / 1000000) + 2).bmod 4294967296 * 10000

/-- What is left of the time when the servers have been asked (Redlock.cs:122). -/
def validityTime (ttl elapsed : ℕ) : Int := ttl - elapsed - drift ttl

/-- How far a server's clock is ahead, at most, when it drops a key of that time to live. -/
def clockDrift (ttl : ℕ) : ℕ := (ttl / 1000000 + 2) * 10000

/-- `Lock` subtracts what the clocks may be ahead, where the conversion is in range. -/
theorem drift_eq {ttl : ℕ} (httl : ttl < 2147483646 * 1000000) : drift ttl = clockDrift ttl := by
  have hrange : ttl / 1000000 < 2147483646 := Nat.div_lt_of_lt_mul (by omega)
  unfold drift clockDrift toInt
  rw [if_pos (by omega), Int.bmod_eq_of_le (by omega) (by omega)]
  omega

/-- A key on a server: its value, when it was set, and for how long. -/
structure Entry (α : Type) where
  value : α
  setAt : ℕ
  ttl : ℕ
  deriving DecidableEq

/-- The commands: `SET resource val PX ttl NX` of `LockInstance` and the script of
`UnlockInstance`. -/
inductive Command
  | set
  | unlock
  deriving DecidableEq, Repr

/-- Where a caller of `Lock`, and of `Unlock` later, is. -/
inductive Phase (σ : Type)
  | idle
  /-- In a try that started at `startTime`: `n` servers have set the key, `todo` are to be asked. -/
  | locking (currentRetry startTime n : ℕ) (todo : List σ)
  /-- The try has failed; the servers `todo` are to be asked to take the key back. -/
  | cleaning (currentRetry : ℕ) (todo : List σ)
  | sleeping (currentRetry : ℕ)
  /-- `Lock` has returned a lock. -/
  | held (since validity : ℕ)
  /-- In `Unlock`. -/
  | releasing (todo : List σ)
  | failed
  | released
  deriving DecidableEq

/-- The callers and the servers that all of them use. -/
structure Config (ι σ R α : Type) where
  /-- `redisMasterDictionary` -/
  servers : List σ
  nodup : servers.Nodup
  resource : ι → R
  ttl : ι → ℕ
  /-- Under seven years, so that the conversion in `drift` is in range. -/
  ttl_lt : ∀ c, ttl c < 2147483646 * 1000000
  /-- What `CreateUniqueLockId` has given a caller. -/
  lockId : ι → α

/-- The callers, the commands that nobody waits for any more, and the servers. -/
structure State (ι σ R α : Type) where
  now : ℕ
  phase : ι → Phase σ
  pending : ι → σ → List Command
  store : σ → R → Option (Entry α)

/-- What can happen. -/
inductive Event (ι σ R : Type)
  | tick (d : ℕ)
  /-- `Lock` is called. -/
  | lock (c : ι)
  /-- The next server executes the caller's command and answers. -/
  | answered (c : ι)
  /-- The caller gets an exception instead. -/
  | timedOut (c : ι)
  /-- A server executes a command that nobody waits for. -/
  | execute (c : ι) (s : σ)
  /-- Such a command is lost. -/
  | lose (c : ι) (s : σ)
  /-- A server drops a key. -/
  | expire (s : σ) (r : R)
  /-- All servers have been asked in a try. -/
  | decide (c : ι)
  /-- The caller goes to sleep. -/
  | sleep (c : ι)
  | wake (c : ι)
  /-- `Unlock` is called. -/
  | unlock (c : ι)

variable {ι σ R α : Type} [DecidableEq ι] [DecidableEq σ] [DecidableEq R] [DecidableEq α]

/-- The state with another key of a resource on a server. -/
def State.put (st : State ι σ R α) (s : σ) (r : R) (slot : Option (Entry α)) : State ι σ R α :=
  { st with store := Function.update st.store s (Function.update (st.store s) r slot) }

namespace Config

variable (cfg : Config ι σ R α)

/-- `Quorum` -/
def quorum : ℕ := cfg.servers.length / 2 + 1

/-- What a command makes of a caller's key, and whether it succeeds. -/
def serve (c : ι) (now : ℕ) : Command → Option (Entry α) → Bool × Option (Entry α)
  | .set, none => (true, some { value := cfg.lockId c, setAt := now, ttl := cfg.ttl c })
  | .set, some e => (false, some e)
  | .unlock, none => (false, none)
  | .unlock, some e => if e.value = cfg.lockId c then (true, none) else (false, some e)

/-- A server executes a caller's command. -/
def perform (st : State ι σ R α) (c : ι) (s : σ) (cmd : Command) : Bool × State ι σ R α :=
  let result := cfg.serve c st.now cmd (st.store s (cfg.resource c))
  (result.1, st.put s (cfg.resource c) result.2)

/-- The state with a caller in another phase. -/
def enter (st : State ι σ R α) (c : ι) (phase : Phase σ) : State ι σ R α :=
  { st with phase := Function.update st.phase c phase }

/-- The state with other commands under way between a caller and a server. -/
def post (st : State ι σ R α) (c : ι) (s : σ) (commands : List Command) : State ι σ R α :=
  { st with pending := Function.update st.pending c (Function.update (st.pending c) s commands) }

/-- What a caller does with the next server, and where it is when the server has answered, with
success or without, or has not. -/
def next : Phase σ → Option (σ × Command × (Bool → Phase σ) × Phase σ)
  | .locking k t n (s :: todo) =>
    -- an exception counts as no success (Redlock.cs:69-78)
    some (s, .set, fun succeeded => .locking k t (if succeeded then n + 1 else n) todo,
      .locking k t n todo)
  | .cleaning k (s :: todo) =>
    -- an exception leaves the loop and ends the try (Redlock.cs:121-132)
    some (s, .unlock, fun _ => .cleaning k todo, .sleeping k)
  | .releasing (s :: todo) => some (s, .unlock, fun _ => .releasing todo, .released)
  | _ => none

/-- What an event makes of the state, if it can happen in it. -/
def step (st : State ι σ R α) : Event ι σ R → Except Unit (State ι σ R α)
  | .tick d => .ok { st with now := st.now + d }
  | .lock c =>
    match st.phase c with
    | .idle => .ok (enter st c (.locking 1 st.now 0 cfg.servers))
    | _ => .error ()
  | .answered c =>
    match next (st.phase c) with
    | some (s, cmd, goOn, _) =>
      -- the commands of a caller reach a server in their order
      if st.pending c s = [] then
        .ok (enter (cfg.perform st c s cmd).2 c (goOn (cfg.perform st c s cmd).1))
      else .error ()
    | none => .error ()
  | .timedOut c =>
    match next (st.phase c) with
    | some (s, cmd, _, giveUp) => .ok (enter (post st c s (st.pending c s ++ [cmd])) c giveUp)
    | none => .error ()
  | .execute c s =>
    match st.pending c s with
    | cmd :: rest => .ok (post (cfg.perform st c s cmd).2 c s rest)
    | [] => .error ()
  | .lose c s =>
    match st.pending c s with
    | _ :: rest => .ok (post st c s rest)
    | [] => .error ()
  | .expire s r =>
    match st.store s r with
    | some e =>
      if e.setAt + e.ttl ≤ st.now + clockDrift e.ttl then .ok (st.put s r none) else .error ()
    | none => .error ()
  | .decide c =>
    match st.phase c with
    | .locking k t n [] =>
      let validity := validityTime (cfg.ttl c) (st.now - t)
      if cfg.quorum ≤ n ∧ 0 < validity then .ok (enter st c (.held st.now validity.toNat))
      else .ok (enter st c (.cleaning k cfg.servers))
    | _ => .error ()
  | .sleep c =>
    match st.phase c with
    | .cleaning k [] => .ok (enter st c (.sleeping k))
    | _ => .error ()
  | .wake c =>
    match st.phase c with
    | .sleeping k =>
      if k < defaultRetryCount then .ok (enter st c (.locking (k + 1) st.now 0 cfg.servers))
      else .ok (enter st c .failed)
    | _ => .error ()
  | .unlock c =>
    match st.phase c with
    | .held _ _ => .ok (enter st c (.releasing cfg.servers))
    | _ => .error ()

end Config

/-- Nobody has called `Lock`. -/
def State.start (now : ℕ) (store : σ → R → Option (Entry α)) : State ι σ R α where
  now
  phase _ := .idle
  pending _ _ := []
  store

/-- The caller has a lock whose time is not over. -/
def State.Holds (st : State ι σ R α) (c : ι) : Prop :=
  ∃ since validity, st.phase c = .held since validity ∧ st.now < since + validity

end Redlock

end IspSession.Model
