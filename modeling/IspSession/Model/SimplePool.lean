import IspSession.Library.Runs

/-!
# Connection pools

`simple_pool` hands out connections to a Redis server (simple_pool.h, simple_pool.cpp). The
list of idle connections, the timer and its thread are variables of the file, not members
of a pool: all pools of the process have them together, here as `PoolState`.

A connection is an object with a number; the list of the idle ones holds numbers, as the
`vector` holds pointers. An idle entry also remembers when it was put there, which the code
does not: no function reads it. What a server answers is an argument of `get`.
-/

set_option autoImplicit false

namespace IspSession.Model

open IspSession.Library

/-- `_SECOND`: the ticks of the system clock in a second. -/
def ticksPerSecond : ℕ := 10000000

/-- `KEEPCONNECTION_IN_POOL_SEC` -/
def keepConnectionInPoolSec : ℕ := 20

/-- The due time of the timer, two seconds. -/
def timerDue : ℕ := 2 * ticksPerSecond

/-- `reply::type_t` -/
inductive ReplyType
  | string
  | array
  | integer
  | nil
  | status
  | error
  deriving DecidableEq, Repr

/-- `connection_error`, thrown by `connection::create` and `connection::run`. -/
inductive ConnectionError
  | unableToConnect
  | transportFailure
  | slaveReadOnly
  deriving DecidableEq, Repr

/-- What the server does with the connection and the commands of one `get`. -/
structure ServerAnswers where
  connect : Except ConnectionError Unit
  auth : Except ConnectionError ReplyType
  select : Except ConnectionError ReplyType

/-- `connection`: the server at its other end, with the password this one has accepted and
the database it has selected. `err` is the flag of hiredis. -/
structure Connection where
  host : String
  port : ℕ
  authenticated : Option String
  database : ℕ
  startSessionRequest : ℕ
  err : Bool
  deriving DecidableEq, Repr

/-- `connection::is_valid` -/
def Connection.isValid (c : Connection) : Bool := !c.err

/-- A new connection: nobody is logged in, and database 0 is selected. -/
def Connection.create (host : String) (port : ℕ) (now : ℕ) : Connection where
  host
  port
  authenticated := none
  database := 0
  startSessionRequest := now
  err := false

/-- `simple_pool` -/
structure SimplePool where
  host : String
  port : ℕ
  password : String
  database : ℕ
  deriving DecidableEq, Repr

/-- `simple_pool::simple_pool` -/
def SimplePool.create (host : String) (port : ℕ) (password : String) : SimplePool where
  host
  port
  password
  database := 0

/-- `simple_pool::set_database` -/
def SimplePool.setDatabase (p : SimplePool) (value : ℕ) : SimplePool :=
  { p with database := value }

/-- An entry of the idle list: the number of the connection, and when it was put there. -/
structure IdleEntry where
  conn : ℕ
  since : ℕ
  deriving DecidableEq, Repr

/-- The variables that all pools have together: `connections`, whether there is a `_timer`,
and the threads that `CreateThread` has made and that have not come to their check of it.
`opened` are all the connections there have been. -/
structure PoolState where
  opened : List Connection
  connections : List IdleEntry
  timer : Bool
  threads : ℕ
  deriving DecidableEq, Repr

/-- No connection, no timer. -/
def PoolState.start : PoolState where
  opened := []
  connections := []
  timer := false
  threads := 0

/-- `AUTH`, where the pool has a password; a refused login leaves no connection. -/
def SimplePool.logIn (p : SimplePool) (server : ServerAnswers) (ret : Connection) :
    Except ConnectionError (Option Connection) :=
  if p.password = "" then .ok (some ret)
  else
    match server.auth with
    | .ok .error => .ok none
    | .ok _ => .ok (some { ret with authenticated := some p.password })
    | .error ex => .error ex

/-- `SELECT`, where the pool has a database; that it was refused is only logged. -/
def SimplePool.selectDatabase (p : SimplePool) (server : ServerAnswers) (ret : Connection) :
    Except ConnectionError Connection :=
  if p.database = 0 then .ok ret
  else
    match server.select with
    | .ok .error => .ok ret
    | .ok _ => .ok { ret with database := p.database }
    | .error ex => .error ex

/-- The branch of `simple_pool::get` that opens a connection. -/
def SimplePool.openConnection (p : SimplePool) (now : ℕ) (server : ServerAnswers) :
    Except ConnectionError (Option Connection) := do
  server.connect
  match ← p.logIn server (.create p.host p.port now) with
  | none => pure none
  | some ret => some <$> p.selectDatabase server ret

/-- `CreateThread(TimerThread)`, where there is no timer. -/
def PoolState.createThread (s : PoolState) : PoolState :=
  if s.timer then s else { s with threads := s.threads + 1 }

/-- `simple_pool::get`: the connection that was put back last, whichever pool did, or a new
one. -/
def SimplePool.get (p : SimplePool) (now : ℕ) (server : ServerAnswers) (s : PoolState) :
    Option ℕ × PoolState :=
  match s.connections.getLast? with
  | some entry =>
    (some entry.conn,
      { s.createThread with
        opened := s.opened.modify entry.conn fun c => { c with startSessionRequest := now }
        connections := s.connections.dropLast })
  | none =>
    match p.openConnection now server with
    | .ok (some ret) =>
      (some s.opened.length, { s.createThread with opened := s.opened ++ [ret] })
    | .ok none | .error _ => (none, s.createThread)

/-- `simple_pool::put`, for a connection that has been opened. -/
def PoolState.put (s : PoolState) (now conn : ℕ) : PoolState :=
  match s.opened[conn]? with
  | some c =>
    if c.isValid then { s with connections := s.connections ++ [{ conn, since := now }] } else s
  | none => s

/-- `isExpired`: the age is counted in whole seconds. -/
def isExpired (now : ℕ) (n : Connection) : Bool :=
  (now - n.startSessionRequest) / ticksPerSecond > keepConnectionInPoolSec

/-- Whether the connection of an idle entry is expired. -/
def PoolState.entryExpired (s : PoolState) (now : ℕ) (entry : IdleEntry) : Bool :=
  s.opened[entry.conn]?.any (isExpired now)

/-- `TimerAPCProc`: the loop erases the first expired connection until there is none. The
timer goes when this has emptied the list. -/
def PoolState.timerAPCProc (s : PoolState) (now : ℕ) : PoolState :=
  let left := s.connections.filter fun entry => !s.entryExpired now entry
  let erased := s.connections.any (s.entryExpired now)
  { s with connections := left, timer := s.timer && !(left.isEmpty && erased) }

/-- The first lines of `TimerThread`: a thread that finds a timer ends, another one makes
the timer and waits. -/
def PoolState.timerThread (s : PoolState) : PoolState :=
  { s with threads := s.threads - 1, timer := true }

/-! ## Steps -/

/-- What can happen: a pool is asked for a connection, a connection is put back, commands on
it end with or without an error of the connection, a timer thread starts, its timer fires. -/
inductive PoolStep
  | get (p : SimplePool) (server : ServerAnswers)
  | put (conn : ℕ)
  | use (conn : ℕ) (failed : Bool)
  | startThread
  | tick

/-- Why a step cannot be taken. -/
inductive NoStep
  | noConnection
  | noThread
  | noTimer
  | clockBack
  deriving DecidableEq, Repr

/-- One step at a time of the clock. -/
def PoolState.step (s : PoolState) (now : ℕ) : PoolStep → Except NoStep PoolState
  | .get p server => .ok (p.get now server s).2
  | .put conn => if conn < s.opened.length then .ok (s.put now conn) else .error .noConnection
  | .use conn failed =>
    if conn < s.opened.length then
      .ok { s with opened := s.opened.modify conn fun c => { c with err := c.err || failed } }
    else .error .noConnection
  | .startThread => if 0 < s.threads then .ok s.timerThread else .error .noThread
  | .tick => if s.timer then .ok (s.timerAPCProc now) else .error .noTimer

/-- A step with the time at which it happens. -/
structure PoolEvent where
  now : ℕ
  step : PoolStep

/-- The pools with the clock. `mark` is when the timer last did something: when its thread
was created or came to life, or when it fired last. -/
structure PoolClock where
  pool : PoolState
  now : ℕ
  mark : ℕ
  deriving DecidableEq, Repr

/-- A timer thread exists: it waits for the timer, or it has been created. -/
def PoolState.Watched (s : PoolState) : Prop := s.timer = true ∨ 0 < s.threads

instance (s : PoolState) : Decidable s.Watched := inferInstanceAs (Decidable (_ ∨ _))

namespace PoolClock

/-- Before the first step. -/
def start : PoolClock := ⟨.start, 0, 0⟩

/-- When the timer last did something, after an event. -/
def markAfter (s : PoolClock) (e : PoolEvent) : ℕ :=
  match e.step with
  | .tick => e.now
  | .startThread => if s.pool.timer then s.mark else e.now
  | .get _ _ => if s.pool.Watched then s.mark else e.now
  | .put _ | .use _ _ => s.mark

/-- One event; the clock does not go back. -/
def step (s : PoolClock) (e : PoolEvent) : Except NoStep PoolClock :=
  if e.now < s.now then .error .clockBack
  else do
    let pool ← s.pool.step e.now e.step
    return { pool, now := e.now, mark := s.markAfter e }

end PoolClock

end IspSession.Model
