import IspSession.Model.SimplePool
import Mathlib.Logic.Function.Basic

/-!
# Commands on connections from the pool

The functions of `CSessionDL.h` take a connection from the pool, run one command after the other
on it and put it back. `connection::run` appends a command and reads the next reply from the
stream of the connection (connection.h:79-83, connection.cpp:149-185); the server answers the
commands of a connection in the order in which they come. A function that ends by an exception, or
that is told to do without the pool, does not put its connection back.

Threads do this at the same time: anything can happen between two steps of one of them.
-/

set_option autoImplicit false

namespace IspSession.Model

/-- A command that a thread has appended. -/
structure SentCommand (ι κ : Type) where
  thread : ι
  command : κ
  deriving DecidableEq

/-- What a thread is doing: nothing on a connection, between two commands, or in `get_reply`. -/
inductive LoanPhase (κ : Type)
  | free
  | holding (conn : ℕ)
  | waiting (conn : ℕ) (command : κ)

/-- The connection of a phase. -/
def LoanPhase.conn {κ : Type} : LoanPhase κ → Option ℕ
  | free => none
  | holding conn | waiting conn _ => some conn

/-- How `get_reply` ends. -/
inductive ReplyEnd
  | read
  | slaveReadOnly
  | transportFailure
  deriving DecidableEq

/-- The pools, for every connection the commands whose replies are still to be read, the threads,
and, as a history, the replies read: by whom for which command, and which command they answer. -/
structure PoolTraffic (ι κ : Type) where
  pool : PoolState
  unread : ℕ → List (SentCommand ι κ)
  phase : ι → LoanPhase κ
  replies : List (SentCommand ι κ × SentCommand ι κ)

/-- What can happen. -/
inductive TrafficStep (ι κ : Type)
  | get (i : ι) (p : SimplePool) (server : ServerAnswers)
  | append (i : ι) (command : κ) (failed : Bool)
  | getReply (i : ι) (outcome : ReplyEnd)
  | put (i : ι)
  | drop (i : ι)
  | startThread
  | tick

/-- A step with the time at which it happens. -/
structure TrafficEvent (ι κ : Type) where
  now : ℕ
  step : TrafficStep ι κ

namespace PoolTraffic

variable {ι κ : Type}

/-- No connection yet. -/
def start : PoolTraffic ι κ where
  pool := .start
  unread _ := []
  phase _ := .free
  replies := []

/-- The connection reports an error from now on (`c->err`). -/
def fail (s : PoolTraffic ι κ) (conn : ℕ) : PoolTraffic ι κ :=
  { s with pool := { s.pool with opened := s.pool.opened.modify conn fun c => { c with err := true } } }

variable [DecidableEq ι]

/-- A thread goes on. -/
def enter (s : PoolTraffic ι κ) (i : ι) (phase : LoanPhase κ) : PoolTraffic ι κ :=
  { s with phase := Function.update s.phase i phase }

/-- `simple_pool::get` (simple_pool.cpp:110-173). -/
def get (s : PoolTraffic ι κ) (now : ℕ) (i : ι) (p : SimplePool) (server : ServerAnswers) :
    PoolTraffic ι κ :=
  match p.get now server s.pool with
  | (some conn, pool) => enter { s with pool } i (.holding conn)
  | (none, pool) => { s with pool }

/-- `connection::append`, which may throw `transport_failure`. -/
def append (s : PoolTraffic ι κ) (i : ι) (conn : ℕ) (command : κ) (failed : Bool) :
    PoolTraffic ι κ :=
  if failed then (s.fail conn).enter i .free
  else
    enter { s with unread := Function.update s.unread conn (s.unread conn ++ [⟨i, command⟩]) } i
      (.waiting conn command)

/-- `connection::get_reply`: the next reply of the connection, or an exception, which for a
READONLY error comes after the reply has been read. -/
def getReply (s : PoolTraffic ι κ) (i : ι) (conn : ℕ) (command : κ) (outcome : ReplyEnd) :
    Except NoStep (PoolTraffic ι κ) :=
  match outcome, s.unread conn with
  | .transportFailure, _ => .ok ((s.fail conn).enter i .free)
  | _, [] => .error .noConnection
  | .read, sent :: rest =>
    .ok (enter { s with
      unread := Function.update s.unread conn rest
      replies := (⟨i, command⟩, sent) :: s.replies } i (.holding conn))
  | .slaveReadOnly, sent :: rest =>
    .ok (enter { s with
      unread := Function.update s.unread conn rest
      replies := (⟨i, command⟩, sent) :: s.replies } i .free)

/-- One step; a thread that is elsewhere cannot take it. -/
def step (s : PoolTraffic ι κ) (e : TrafficEvent ι κ) : Except NoStep (PoolTraffic ι κ) :=
  match e.step with
  | .get i p server =>
    match s.phase i with
    | .free => .ok (s.get e.now i p server)
    | _ => .error .noConnection
  | .append i command failed =>
    match s.phase i with
    | .holding conn => .ok (s.append i conn command failed)
    | _ => .error .noConnection
  | .getReply i outcome =>
    match s.phase i with
    | .waiting conn command => s.getReply i conn command outcome
    | _ => .error .noConnection
  | .put i =>
    match s.phase i with
    | .holding conn => .ok (enter { s with pool := s.pool.put e.now conn } i .free)
    | _ => .error .noConnection
  | .drop i =>
    match s.phase i with
    | .holding _ => .ok (s.enter i .free)
    | _ => .error .noConnection
  | .startThread => do
    let pool ← s.pool.step e.now .startThread
    pure { s with pool }
  | .tick => do
    let pool ← s.pool.step e.now .tick
    pure { s with pool }

end PoolTraffic

end IspSession.Model
