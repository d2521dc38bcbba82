import IspSession.Model.SimplePool

/-!
# Which connection a pool hands out

The idle list does not know for which pool a connection was opened, and a connection from
the list is handed out as it is. So pools get their own connections in all runs only where
a connection of each would do for all others; and `SELECT` must not be refused, since a
connection without its database is handed out as well.
-/

set_option autoImplicit false

namespace IspSession.Analysis

open IspSession.Library IspSession.Model

/-- **The connection is one for the pool**: it is connected to the pool's host and port, has
accepted the password of the pool if there is one, and has the database of the pool
selected. -/
structure Suits (p : SimplePool) (c : Connection) : Prop where
  host : c.host = p.host
  port : c.port = p.port
  authenticated : p.password ≠ "" → c.authenticated = some p.password
  database : c.database = p.database

/-- A connection of the first pool would do for the second. -/
structure SharesServer (p q : SimplePool) : Prop where
  host : p.host = q.host
  port : p.port = q.port
  password : q.password ≠ "" → p.password = q.password
  database : p.database = q.database

/-- The server does not refuse the `SELECT` of the pool. -/
def SelectAccepted (p : SimplePool) (server : ServerAnswers) : Prop :=
  p.database = 0 ∨ server.select ≠ .ok .error

/-- The event is one of these pools, and the server answers as `ok` says. -/
def EventWithin (pools : Set SimplePool) (ok : SimplePool → ServerAnswers → Prop)
    (e : PoolEvent) : Prop :=
  match e.step with
  | .get p server => p ∈ pools ∧ ok p server
  | _ => True

/-- The steps of the pools at any times. -/
def poolStep (s : PoolState) (e : PoolEvent) : Except NoStep PoolState := s.step e.now e.step

/-- **Pools get their own connections**: after every sequence of their steps, with all
answers of the servers that `ok` allows, a connection that one of them hands out is one for
it. -/
def HandsOutOwn (pools : Set SimplePool) (ok : SimplePool → ServerAnswers → Prop) : Prop :=
  ∀ (es : List PoolEvent) (s : PoolState), Runs.run poolStep es .start = .ok s →
    Runs.Meets poolStep (fun _ e => EventWithin pools ok e) es .start →
    ∀ p ∈ pools, ∀ server, ok p server → ∀ now c s', p.get now server s = (some c, s') →
      ∃ conn, s'.opened[c]? = some conn ∧ Suits p conn

/-! ## Opening a connection -/

/-- The connection of a pool after a login and a `SELECT` that were accepted. -/
def connectedFor (p : SimplePool) (now : ℕ) : Connection :=
  { Connection.create p.host p.port now with
    authenticated := if p.password = "" then none else some p.password
    database := p.database }

/-- `connected` is right for exactly the pools that share the server. -/
theorem suits_connected_iff {p q : SimplePool} {now : ℕ} :
    Suits q (connectedFor p now) ↔ SharesServer p q := by
  constructor
  · rintro ⟨hhost, hport, hauth, hdb⟩
    refine ⟨hhost, hport, fun hq => ?_, hdb⟩
    have := hauth hq
    rw [connectedFor] at this
    split at this
    · cases this
    · exact Option.some.inj this
  · rintro ⟨hhost, hport, hpw, hdb⟩
    refine ⟨hhost, hport, fun hq => ?_, hdb⟩
    have hne : p.password ≠ "" := by rw [hpw hq]; exact hq
    rw [connectedFor, if_neg hne, hpw hq]

/-- What `openConnection` delivers is `connected`, but for the database where the server
has refused it. -/
theorem openConnection_spec {p : SimplePool} {now : ℕ} {server : ServerAnswers}
    {c : Connection} (h : p.openConnection now server = .ok (some c)) :
    c = { connectedFor p now with database := c.database } ∧
      (SelectAccepted p server → c.database = p.database) := by
  unfold SimplePool.openConnection at h
  cases hconnect : server.connect with
  | error ex => rw [hconnect] at h; cases h
  | ok u =>
    rw [hconnect] at h
    change (p.logIn server (.create p.host p.port now) >>= _) = _ at h
    -- what `AUTH` leaves
    have hauth : ∀ ret, p.logIn server (.create p.host p.port now) = .ok (some ret) →
        ret = { connectedFor p now with database := 0 } := by
      intro ret hret
      unfold SimplePool.logIn at hret
      split at hret
      · rename_i hpw
        cases hret
        simp [connectedFor, Connection.create, hpw]
      · rename_i hpw
        split at hret <;> cases hret
        simp [connectedFor, Connection.create, hpw]
    cases hlogin : p.logIn server (.create p.host p.port now) with
    | error ex => rw [hlogin] at h; cases h
    | ok ret? =>
      rw [hlogin] at h
      cases ret? with
      | none => cases h
      | some ret =>
        have hret := hauth ret hlogin
        change some <$> p.selectDatabase server ret = .ok (some c) at h
        unfold SimplePool.selectDatabase at h
        subst hret
        split at h
        · rename_i hdb
          cases h
          exact ⟨rfl, fun _ => hdb.symm⟩
        · rename_i hdb
          split at h
          · rename_i hselect
            cases h
            exact ⟨rfl, fun hok => absurd hselect (hok.resolve_left hdb)⟩
          · cases h
            exact ⟨rfl, fun _ => rfl⟩
          · cases h

/-- INTERNAL: a server that accepts everything. -/
def welcoming : ServerAnswers := ⟨.ok (), .ok .status, .ok .status⟩

theorem openConnection_welcoming (p : SimplePool) (now : ℕ) :
    p.openConnection now welcoming = .ok (some (connectedFor p now)) := by
  unfold SimplePool.openConnection SimplePool.logIn SimplePool.selectDatabase
    connectedFor
  by_cases hpw : p.password = "" <;> by_cases hdb : p.database = 0 <;>
    simp [welcoming, hpw, hdb, Connection.create, bind, Except.bind, Functor.map, Except.map]

/-! ## What the steps keep -/

/-- Idle entries are numbers of connections that have been opened, and all connections that
have been opened have a property. -/
structure AllOpened (good : Connection → Prop) (s : PoolState) : Prop where
  idle : ∀ entry ∈ s.connections, entry.conn < s.opened.length
  good : ∀ c ∈ s.opened, good c

variable {good : Connection → Prop}

/-- INTERNAL: a change of one connection that keeps the property. -/
theorem forall_mem_modify {cs : List Connection} (h : ∀ c ∈ cs, good c) (i : ℕ)
    {f : Connection → Connection} (hf : ∀ c, good c → good (f c)) :
    ∀ c ∈ cs.modify i f, good c := by
  intro c hc
  obtain ⟨j, hj, rfl⟩ := List.mem_iff_getElem.mp hc
  rw [List.getElem_modify]
  rw [List.length_modify] at hj
  split
  · exact hf _ (h _ (List.getElem_mem hj))
  · exact h _ (List.getElem_mem hj)

/-- **What `get` does**: it hands out the last idle connection, with the time of the new
request, or one that has been opened. -/
theorem get_cases {p : SimplePool} {now c : ℕ} {server : ServerAnswers} {s s' : PoolState}
    (h : p.get now server s = (some c, s')) :
    (∃ entry, s.connections.getLast? = some entry ∧ c = entry.conn ∧
      s'.opened = s.opened.modify c (fun conn => { conn with startSessionRequest := now }) ∧
      s'.connections = s.connections.dropLast) ∨
    (s.connections = [] ∧ c = s.opened.length ∧ s'.connections = [] ∧ ∃ conn,
      p.openConnection now server = .ok (some conn) ∧ s'.opened = s.opened ++ [conn]) := by
  have hthread : s.createThread.connections = s.connections := by
    unfold PoolState.createThread
    split <;> rfl
  unfold SimplePool.get at h
  split at h
  · rename_i entry hlast
    cases h
    exact .inl ⟨entry, hlast, rfl, rfl, rfl⟩
  · rename_i hlast
    have hnil : s.connections = [] := List.getLast?_eq_none_iff.mp hlast
    split at h
    · rename_i conn hopen
      cases h
      exact .inr ⟨hnil, rfl, hthread.trans hnil, conn, hopen, rfl⟩
    all_goals cases h

/-- What `get` leaves where it hands out nothing. -/
theorem get_none {p : SimplePool} {now : ℕ} {server : ServerAnswers} {s s' : PoolState}
    (h : p.get now server s = (none, s')) : s.connections = [] ∧ s' = s.createThread := by
  unfold SimplePool.get at h
  split at h
  · cases h
  · rename_i hlast
    refine ⟨List.getLast?_eq_none_iff.mp hlast, ?_⟩
    split at h <;> cases h <;> rfl

/-- **What a step keeps**: a property of connections that does not look at their time and
their flag, where the connections that the step opens have it. -/
theorem step_allOpened {s s' : PoolState} {e : PoolEvent}
    (hflags : ∀ c start err, good c →
      good { c with startSessionRequest := start, err := err })
    (hopen : ∀ p server c, e.step = .get p server →
      p.openConnection e.now server = .ok (some c) → good c)
    (hs : AllOpened good s) (h : poolStep s e = .ok s') : AllOpened good s' := by
  unfold poolStep PoolState.step at h
  split at h
  case h_1 p server hstep =>
    obtain ⟨c?, hget⟩ : ∃ c?, p.get e.now server s = (c?, s') := by
      cases h
      exact ⟨_, rfl⟩
    cases c? with
    | none =>
      obtain ⟨hnil, rfl⟩ := get_none hget
      unfold PoolState.createThread
      split <;> exact ⟨hs.idle, hs.good⟩
    | some c =>
      rcases get_cases hget with ⟨entry, -, -, hopened, hconns⟩ |
        ⟨-, -, hconns, conn, hconn, hopened⟩
      · refine ⟨fun entry' hmem => ?_, ?_⟩
        · rw [hconns] at hmem
          rw [hopened, List.length_modify]
          exact hs.idle entry' (List.dropLast_subset _ hmem)
        · rw [hopened]
          exact forall_mem_modify hs.good _ fun c hc => hflags c e.now c.err hc
      · refine ⟨fun entry' hmem => ?_, ?_⟩
        · rw [hconns] at hmem
          cases hmem
        · intro c hc
          rw [hopened, List.mem_append, List.mem_singleton] at hc
          rcases hc with hc | rfl
          · exact hs.good c hc
          · exact hopen p server c hstep hconn
  case h_2 conn _ =>
    split at h
    · rename_i hlt
      cases h
      unfold PoolState.put
      split
      · split
        · refine ⟨fun entry hmem => ?_, hs.good⟩
          rw [List.mem_append, List.mem_singleton] at hmem
          rcases hmem with hmem | rfl
          · exact hs.idle entry hmem
          · exact hlt
        · exact hs
      · exact hs
    · cases h
  case h_3 conn failed _ =>
    split at h
    · cases h
      refine ⟨fun entry hmem => ?_, ?_⟩
      · rw [List.length_modify]
        exact hs.idle entry hmem
      · exact forall_mem_modify hs.good _ fun c hc =>
          hflags c c.startSessionRequest (c.err || failed) hc
    · cases h
  case h_4 =>
    split at h <;> cases h
    exact ⟨hs.idle, hs.good⟩
  case h_5 =>
    split at h <;> cases h
    exact ⟨fun entry hmem => hs.idle entry (List.mem_of_mem_filter hmem), hs.good⟩

/-! ## The runs of a set of pools -/

/-- INTERNAL: what a pool's connection is right for does not depend on time and flag. -/
theorem Suits.of_flags {p : SimplePool} {c : Connection} (h : Suits p c) (start : ℕ)
    (err : Bool) : Suits p { c with startSessionRequest := start, err := err } :=
  ⟨h.host, h.port, h.authenticated, h.database⟩

/-- INTERNAL: where the `SELECT` is accepted, a pool opens a connection that all those suit
with which it shares the server. -/
theorem suits_of_openConnection {p q : SimplePool} {now : ℕ} {server : ServerAnswers}
    {c : Connection} (hopen : p.openConnection now server = .ok (some c))
    (hselect : SelectAccepted p server) (hshare : SharesServer p q) : Suits q c := by
  obtain ⟨hc, hdb⟩ := openConnection_spec hopen
  have hconnected : Suits q (connectedFor p now) := suits_connected_iff.mpr hshare
  rw [hc, hdb hselect]
  exact ⟨hconnected.host, hconnected.port, hconnected.authenticated, hconnected.database⟩

/-- **Pools that share their server get their own connections** where no `SELECT` is
refused: the invariant is that all connections that were ever opened suit all pools. -/
theorem handsOutOwn_of_sharesServer {pools : Set SimplePool}
    {ok : SimplePool → ServerAnswers → Prop}
    (hok : ∀ p ∈ pools, ∀ server, ok p server → SelectAccepted p server)
    (hshare : ∀ p ∈ pools, ∀ q ∈ pools, SharesServer p q) : HandsOutOwn pools ok := by
  intro es s hrun hmeets p hp server hserver now c s' hget
  have hinit : AllOpened (fun c => ∀ q ∈ pools, Suits q c) PoolState.start :=
    ⟨by simp [PoolState.start], by simp [PoolState.start]⟩
  have hstep : ∀ s e s', AllOpened (fun c => ∀ q ∈ pools, Suits q c) s →
      EventWithin pools ok e → poolStep s e = .ok s' →
      AllOpened (fun c => ∀ q ∈ pools, Suits q c) s' := by
    intro s e s' hs hwithin hstep
    refine step_allOpened (fun c start err hc q hq => (hc q hq).of_flags start err) ?_ hs hstep
    intro p server c hget hopen q hq
    obtain ⟨hp, hserver⟩ : p ∈ pools ∧ ok p server := by
      unfold EventWithin at hwithin
      rw [hget] at hwithin
      exact hwithin
    exact suits_of_openConnection hopen (hok p hp server hserver) (hshare p hp q hq)
  have hs : AllOpened (fun c => ∀ q ∈ pools, Suits q c) s :=
    Runs.run_invariant _ hstep hinit hmeets hrun
  have hs' : AllOpened (fun c => ∀ q ∈ pools, Suits q c) s' :=
    hstep s ⟨now, .get p server⟩ s' hs ⟨hp, hserver⟩ (by
      change Except.ok (p.get now server s).2 = .ok s'
      rw [hget])
  have hlt : c < s'.opened.length := by
    rcases get_cases hget with ⟨entry, hlast, rfl, hopened, -⟩ | ⟨-, rfl, -, conn, -, hopened⟩
    · rw [hopened, List.length_modify]
      exact hs.idle entry (List.mem_of_getLast? hlast)
    · rw [hopened, List.length_append]
      exact Nat.lt_succ_self _
  exact ⟨s'.opened[c], List.getElem?_eq_getElem hlt, hs'.good _ (List.getElem_mem hlt) p hp⟩

/-! ## Where it fails -/

/-- The pool opens a connection and puts it back. -/
def openAndPut (p : SimplePool) : List PoolEvent :=
  [⟨0, .get p welcoming⟩, ⟨0, .put 0⟩]

/-- INTERNAL: where the first pool has put its connection back, it is what the second one
gets. -/
theorem run_openAndPut (p q : SimplePool) : ∃ s s',
    Runs.run poolStep (openAndPut p) .start = .ok s ∧
      q.get 0 welcoming s = (some 0, s') ∧ s'.opened = [connectedFor p 0] := by
  have hget : p.get 0 welcoming .start =
      (some 0, { PoolState.start.createThread with opened := [connectedFor p 0] }) := by
    unfold SimplePool.get
    rw [openConnection_welcoming]
    rfl
  refine ⟨{ PoolState.start.createThread with
    opened := [connectedFor p 0], connections := [⟨0, 0⟩] }, _, ?_, rfl, rfl⟩
  change (match (Except.ok (p.get 0 welcoming .start).2 : Except NoStep PoolState) with
    | .ok s => Runs.run poolStep [⟨0, .put 0⟩] s
    | .error e => .error e) = _
  rw [hget]
  rfl

/-- INTERNAL: pools that get their own connections share their server. -/
theorem sharesServer_of_handsOutOwn {pools : Set SimplePool}
    {ok : SimplePool → ServerAnswers → Prop} (hok : ∀ p, ok p welcoming)
    (h : HandsOutOwn pools ok) : ∀ p ∈ pools, ∀ q ∈ pools, SharesServer p q := by
  intro p hp q hq
  obtain ⟨s, s', hrun, hget, hopened⟩ := run_openAndPut p q
  have hmeets : Runs.Meets poolStep (fun _ e => EventWithin pools ok e) (openAndPut p) .start :=
    ⟨⟨hp, hok p⟩, fun _ _ => ⟨trivial, fun _ _ => trivial⟩⟩
  obtain ⟨conn, hconn, hsuits⟩ :=
    h (openAndPut p) s hrun hmeets q hq welcoming (hok q) 0 0 s' hget
  rw [hopened] at hconn
  obtain rfl : connectedFor p 0 = conn := Option.some.inj hconn
  exact suits_connected_iff.mp hsuits

/-- A server that refuses every `SELECT`. -/
def refusingSelect : ServerAnswers := ⟨.ok (), .ok .status, .ok .error⟩

/-- INTERNAL: a pool whose `SELECT` is refused hands out a connection to database 0. -/
theorem get_refusingSelect (p : SimplePool) : ∃ s' conn,
    p.get 0 refusingSelect .start = (some 0, s') ∧ s'.opened[0]? = some conn ∧
      conn.database = 0 := by
  have hopen : p.openConnection 0 refusingSelect =
      .ok (some { connectedFor p 0 with database := 0 }) := by
    unfold SimplePool.openConnection SimplePool.logIn SimplePool.selectDatabase connectedFor
    by_cases hpw : p.password = "" <;> by_cases hdb : p.database = 0 <;>
      simp [refusingSelect, hpw, hdb, Connection.create, bind, Except.bind, Functor.map,
        Except.map]
  refine ⟨{ PoolState.start.createThread with
    opened := [{ connectedFor p 0 with database := 0 }] }, _, ?_, rfl, rfl⟩
  unfold SimplePool.get
  rw [hopen]
  rfl

/-- **Exactly which pools get their own connections**: where no `SELECT` is refused, those
that share their server, their password and their database; and over all answers of the
servers, those of them that have no database to select. -/
theorem handsOutOwn_iff (pools : Set SimplePool) :
    (HandsOutOwn pools SelectAccepted ↔ ∀ p ∈ pools, ∀ q ∈ pools, SharesServer p q) ∧
    (HandsOutOwn pools (fun _ _ => True) ↔
      (∀ p ∈ pools, ∀ q ∈ pools, SharesServer p q) ∧ ∀ p ∈ pools, p.database = 0) := by
  refine ⟨⟨sharesServer_of_handsOutOwn fun p => .inr (by simp [welcoming]),
    handsOutOwn_of_sharesServer fun _ _ _ h => h⟩, fun h => ⟨?_, fun p hp => ?_⟩, ?_⟩
  · exact sharesServer_of_handsOutOwn (fun _ => trivial) h
  · obtain ⟨s', conn, hget, hconn, hdb⟩ := get_refusingSelect p
    obtain ⟨conn', hconn', hsuits⟩ :=
      h [] .start rfl trivial p hp refusingSelect trivial 0 0 s' hget
    obtain rfl : conn = conn' := Option.some.inj (hconn.symm.trans hconn')
    exact hsuits.database.symm.trans hdb
  · rintro ⟨hshare, hdb⟩
    exact handsOutOwn_of_sharesServer (fun p hp _ _ => .inl (hdb p hp)) hshare

/-- The pools of sessions and of application variables, in databases of their own. -/
def sessionPool : SimplePool := (SimplePool.create "localhost" 6379 "").setDatabase 1

/-- The pool of application variables. -/
def applicationPool : SimplePool := (SimplePool.create "localhost" 6379 "").setDatabase 2

/-- The pool of application variables gets the connection of the sessions' pool. -/
theorem twoDatabases_not_own : ¬ ∀ pools : Set SimplePool, HandsOutOwn pools fun _ _ => True := by
  intro h
  obtain ⟨s, hrun, s', hget⟩ : ∃ s,
      Runs.run poolStep (openAndPut sessionPool) .start = .ok s ∧
      ∃ s', applicationPool.get 0 welcoming s = (some 0, s') ∧
        s'.opened[0]?.map Connection.database = some 1 := by
    refine ⟨_, rfl, _, rfl, rfl⟩
  obtain ⟨conn, hconn, hsuits⟩ := h {sessionPool, applicationPool} _ s hrun
    ⟨⟨.inl rfl, trivial⟩, fun _ _ => ⟨trivial, fun _ _ => trivial⟩⟩ applicationPool (.inr rfl)
    welcoming trivial 0 0 s' hget.1
  rw [hconn] at hget
  have hdb : conn.database = 1 := Option.some.inj hget.2
  exact absurd (hsuits.database.symm.trans hdb) (by decide)

end IspSession.Analysis
