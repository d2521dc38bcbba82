import IspSession.Analysis.PoolConnections
import Mathlib.Order.Nat

/-!
# How long a connection can lie in the idle list

The timer goes when a tick has emptied the list, and only `get` makes a new one: what is put
back in between is not watched. While a timer is there, a tick takes out what is more than
20 seconds old, but counts whole seconds, so that a connection can stay for one more.

`Timely` is the invariant under which no connection gets too old. It says of each idle entry
that it was put back, or that its last request started, at most 20 seconds before the timer
last did something.
-/

set_option autoImplicit false

namespace IspSession.Analysis

open IspSession.Library IspSession.Model

/-- The time a connection may be idle, in ticks of the clock. -/
def keepTicks : ℕ := keepConnectionInPoolSec * ticksPerSecond

/-- **The premise about the timer**: while a timer thread exists, it starts or fires at most
two seconds after what it did last. -/
def OnTime (s : PoolClock) (e : PoolEvent) : Prop :=
  s.pool.Watched → e.now ≤ s.mark + timerDue

/-- The condition on a step: a connection that can be used is put back while a timer thread
exists. -/
def PutWatched (s : PoolClock) (e : PoolEvent) : Prop :=
  match e.step with
  | .put conn => s.pool.opened[conn]?.any Connection.isValid = true → s.pool.Watched
  | _ => True

/-- The condition on a tick: no idle connection has an age between 20 and 21 seconds. -/
def TickWhole (s : PoolClock) (e : PoolEvent) : Prop :=
  match e.step with
  | .tick => ∀ entry ∈ s.pool.connections, ∀ c ∈ s.pool.opened[entry.conn]?,
      keepTicks < e.now - c.startSessionRequest →
        keepTicks + ticksPerSecond ≤ e.now - c.startSessionRequest
  | _ => True

instance (s : PoolClock) (e : PoolEvent) : Decidable (OnTime s e) :=
  inferInstanceAs (Decidable (_ → _))

instance (s : PoolClock) : (e : PoolEvent) → Decidable (PutWatched s e)
  | ⟨_, .put _⟩ => inferInstanceAs (Decidable (_ → _))
  | ⟨_, .get _ _⟩ | ⟨_, .use _ _⟩ | ⟨_, .startThread⟩ | ⟨_, .tick⟩ => .isTrue trivial

instance (s : PoolClock) : (e : PoolEvent) → Decidable (TickWhole s e)
  | ⟨_, .tick⟩ => inferInstanceAs (Decidable (∀ _ ∈ _, ∀ _ ∈ _, _))
  | ⟨_, .get _ _⟩ | ⟨_, .put _⟩ | ⟨_, .use _ _⟩ | ⟨_, .startThread⟩ => .isTrue trivial

/-- A connection in the list is watched. -/
def IdleWatched (s : PoolClock) : Prop := s.pool.connections ≠ [] → s.pool.Watched

instance (s : PoolClock) : Decidable (IdleWatched s) := inferInstanceAs (Decidable (_ → _))

/-- The last request of an idle connection started more than 20 seconds and a tick ago, and
it has been lying there since. -/
def Stale (s : PoolState) (now : ℕ) (entry : IdleEntry) : Prop :=
  ∃ c, s.opened[entry.conn]? = some c ∧ c.startSessionRequest + keepTicks + timerDue < now ∧
    entry.since + keepTicks + timerDue < now

/-- **`get` hands out nothing stale**, to whichever pool and whenever it is called. -/
def GetsFresh (s : PoolClock) : Prop :=
  ∀ (e : PoolEvent) (p : SimplePool) (server : ServerAnswers) (c : ℕ) (s' : PoolState),
    e.step = .get p server → s.now ≤ e.now → OnTime s e →
    p.get e.now server s.pool = (some c, s') →
    ∀ entry ∈ s.pool.connections, entry.conn = c → ¬ Stale s.pool e.now entry

/-! ## What the steps do to the timer -/

/-- INTERNAL: a timer thread exists after `get`. -/
theorem createThread_watched (s : PoolState) : s.createThread.Watched := by
  unfold PoolState.createThread
  split
  · exact .inl ‹_›
  · exact .inr (Nat.succ_pos _)

/-- INTERNAL: `get` looks after the timer, and takes entries from the list only. -/
theorem get_timer (p : SimplePool) (now : ℕ) (server : ServerAnswers) (s : PoolState) :
    (p.get now server s).2.timer = s.timer ∧ (p.get now server s).2.Watched ∧
      (p.get now server s).2.connections = s.connections.dropLast := by
  have hthread : s.createThread.timer = s.timer := by
    unfold PoolState.createThread
    split <;> rfl
  have hconns : s.createThread.connections = s.connections := by
    unfold PoolState.createThread
    split <;> rfl
  unfold SimplePool.get
  split
  · exact ⟨hthread, createThread_watched s, rfl⟩
  · rename_i hlast
    have hnil : s.connections = [] := List.getLast?_eq_none_iff.mp hlast
    have hnil' : s.createThread.connections = s.connections.dropLast := by
      rw [hconns, hnil]
      rfl
    split <;> exact ⟨hthread, createThread_watched s, hnil'⟩

/-- INTERNAL: what a step of the clock is. -/
theorem poolClock_step_eq_ok {s s' : PoolClock} {e : PoolEvent}
    (h : PoolClock.step s e = .ok s') :
    s.now ≤ e.now ∧ ∃ pool, s.pool.step e.now e.step = .ok pool ∧
      s' = { pool, now := e.now, mark := s.markAfter e } := by
  unfold PoolClock.step at h
  split at h
  · cases h
  · rename_i hnow
    refine ⟨Nat.le_of_not_lt hnow, ?_⟩
    cases hpool : s.pool.step e.now e.step with
    | error _ => rw [hpool] at h; cases h
    | ok pool =>
      rw [hpool] at h
      cases h
      exact ⟨pool, rfl, rfl⟩

/-- INTERNAL: a tick that stops the timer has emptied the list. -/
theorem timerAPCProc_watched {s : PoolState} {now : ℕ} (hs : s.timer = true)
    (hne : (s.timerAPCProc now).connections ≠ []) : (s.timerAPCProc now).timer = true := by
  have hleft : (s.connections.filter fun entry => !s.entryExpired now entry).isEmpty = false :=
    List.isEmpty_eq_false_iff.mpr hne
  change (s.timer && !((s.connections.filter fun entry =>
    !s.entryExpired now entry).isEmpty && _)) = true
  rw [hleft, hs]
  rfl

/-- **Exactly which steps leave an idle connection unwatched**: those that put a connection
back where no timer thread exists. -/
theorem step_idleWatched_iff {s s' : PoolClock} {e : PoolEvent} (hs : IdleWatched s)
    (h : PoolClock.step s e = .ok s') : IdleWatched s' ↔ PutWatched s e := by
  obtain ⟨-, pool, hpool, rfl⟩ := poolClock_step_eq_ok h
  unfold PutWatched
  unfold PoolState.step at hpool
  split at hpool
  case h_1 p server hstep =>
    rw [hstep]
    cases hpool
    exact iff_of_true (fun _ => (get_timer p e.now server s.pool).2.1) trivial
  case h_2 conn hstep =>
    rw [hstep]
    dsimp only
    split at hpool <;> cases hpool
    unfold IdleWatched PoolState.put
    dsimp only
    cases hc : s.pool.opened[conn]? with
    | none => exact iff_of_true hs (by simp)
    | some c =>
      dsimp only [Option.any_some]
      split
      · rename_i hvalid
        exact ⟨fun hw _ => hw (by simp), fun hw _ => hw hvalid⟩
      · rename_i hvalid
        exact iff_of_true hs fun hv => absurd hv hvalid
  case h_3 conn failed hstep =>
    rw [hstep]
    split at hpool <;> cases hpool
    exact iff_of_true hs trivial
  case h_4 hstep =>
    rw [hstep]
    split at hpool <;> cases hpool
    exact iff_of_true (fun _ => .inl rfl) trivial
  case h_5 hstep =>
    rw [hstep]
    split at hpool
    · rename_i htimer
      cases hpool
      exact iff_of_true (fun hne => .inl (timerAPCProc_watched htimer hne)) trivial
    · cases hpool

/-! ## How old the idle connections are -/

/-- INTERNAL: the entry was put back at most 20 seconds before, or its last request started
then. -/
def Recent (s : PoolState) (mark : ℕ) (entry : IdleEntry) : Prop :=
  ∃ c, s.opened[entry.conn]? = some c ∧
    (mark ≤ c.startSessionRequest + keepTicks ∨ mark ≤ entry.since + keepTicks)

/-- **The invariant**: idle connections are watched, and were used or put back shortly before
the timer last did something; those that wait for a thread were put back after its
creation. -/
structure Timely (s : PoolClock) : Prop where
  watched : IdleWatched s
  mark : s.mark ≤ s.now
  recent : ∀ entry ∈ s.pool.connections, Recent s.pool s.mark entry
  waiting : s.pool.timer = false → ∀ entry ∈ s.pool.connections, s.mark ≤ entry.since

/-- INTERNAL: an entry stays recent when a connection gets a later request, or a flag. -/
theorem Recent.modify {s : PoolState} {mark i : ℕ} {entry : IdleEntry}
    {f : Connection → Connection} {conns : List IdleEntry} {timer : Bool} {threads : ℕ}
    (h : Recent s mark entry)
    (hf : ∀ c, mark ≤ c.startSessionRequest + keepTicks →
      mark ≤ (f c).startSessionRequest + keepTicks) :
    Recent ⟨s.opened.modify i f, conns, timer, threads⟩ mark entry := by
  obtain ⟨c, hc, hrecent⟩ := h
  by_cases hi : i = entry.conn
  · subst hi
    refine ⟨f c, ?_, hrecent.imp_left (hf c)⟩
    simp only [List.getElem?_modify_eq, hc]
    rfl
  · refine ⟨c, ?_, hrecent⟩
    simp only [List.getElem?_modify, if_neg hi, hc]
    rfl

/-- INTERNAL: `get` keeps the invariant: either no timer is made, or the list is empty. -/
theorem get_timely {s : PoolClock} {e : PoolEvent} {p : SimplePool} {server : ServerAnswers}
    (hstep : e.step = .get p server) (hs : Timely s) (hnow : s.now ≤ e.now) :
    Timely ⟨(p.get e.now server s.pool).2, e.now, s.markAfter e⟩ := by
  obtain ⟨htimer, hwatched, hconns⟩ := get_timer p e.now server s.pool
  have hmark : s.markAfter e = if s.pool.Watched then s.mark else e.now := by
    unfold PoolClock.markAfter
    rw [hstep]
  have hle : s.mark ≤ e.now := hs.mark.trans hnow
  by_cases hnil : s.pool.connections = []
  · have hnone : (p.get e.now server s.pool).2.connections = [] := by
      rw [hconns, hnil]
      rfl
    refine ⟨fun hne => absurd hnone hne, ?_, ?_, ?_⟩
    · rw [hmark]
      dsimp only
      split
      · exact hle
      · exact le_refl _
    · intro entry hmem
      rw [hnone] at hmem
      cases hmem
    · intro _ entry hmem
      rw [hnone] at hmem
      cases hmem
  · rw [hmark, if_pos (hs.watched hnil)]
    refine ⟨fun _ => hwatched, hle, fun entry hmem => ?_, fun hoff entry hmem => ?_⟩
    · rw [hconns] at hmem
      have hrecent := hs.recent entry (List.dropLast_subset _ hmem)
      obtain ⟨last, hlast⟩ : ∃ last, s.pool.connections.getLast? = some last := by
        rw [List.getLast?_eq_getLast_of_ne_nil hnil]
        exact ⟨_, rfl⟩
      unfold SimplePool.get
      rw [hlast]
      exact hrecent.modify fun c _ => hle.trans (Nat.le_add_right _ _)
    · rw [hconns] at hmem
      rw [htimer] at hoff
      exact hs.waiting hoff entry (List.dropLast_subset _ hmem)

/-- INTERNAL: `put` keeps the invariant where the connection comes to be watched. -/
theorem put_timely {s : PoolClock} {now conn : ℕ} (hs : Timely s) (hnow : s.now ≤ now)
    (hwatched : s.pool.opened[conn]?.any Connection.isValid = true → s.pool.Watched) :
    Timely ⟨s.pool.put now conn, now, s.mark⟩ := by
  have hsame : Timely ⟨s.pool, now, s.mark⟩ :=
    ⟨hs.watched, hs.mark.trans hnow, hs.recent, hs.waiting⟩
  unfold PoolState.put
  cases hc : s.pool.opened[conn]? with
  | none => exact hsame
  | some c =>
    rw [hc, Option.any_some] at hwatched
    dsimp only
    split
    · rename_i hvalid
      refine ⟨fun _ => hwatched hvalid, hs.mark.trans hnow, ?_, ?_⟩
      · intro entry hmem
        rcases List.mem_append.mp hmem with hmem | hmem
        · exact hs.recent entry hmem
        · cases List.mem_singleton.mp hmem
          exact ⟨c, hc, .inr ((hs.mark.trans hnow).trans (Nat.le_add_right _ _))⟩
      · intro hoff entry hmem
        rcases List.mem_append.mp hmem with hmem | hmem
        · exact hs.waiting hoff entry hmem
        · cases List.mem_singleton.mp hmem
          exact hs.mark.trans hnow
    · exact hsame

/-- INTERNAL: a thread that starts in time keeps the invariant: what was put back waits for
at most two seconds. -/
theorem startThread_timely {s : PoolClock} {e : PoolEvent} (hstep : e.step = .startThread)
    (hs : Timely s) (hnow : s.now ≤ e.now) (hthread : 0 < s.pool.threads) (htime : OnTime s e) :
    Timely ⟨s.pool.timerThread, e.now, s.markAfter e⟩ := by
  have hmark : s.markAfter e = if s.pool.timer then s.mark else e.now := by
    unfold PoolClock.markAfter
    rw [hstep]
  rw [hmark]
  cases htimer : s.pool.timer with
  | true =>
    exact ⟨fun _ => .inl rfl, hs.mark.trans hnow, hs.recent, fun hoff => absurd hoff (by simp [
      PoolState.timerThread])⟩
  | false =>
    refine ⟨fun _ => .inl rfl, le_refl _, fun entry hmem => ?_, fun hoff => absurd hoff (by simp [
      PoolState.timerThread])⟩
    obtain ⟨c, hc, -⟩ := hs.recent entry hmem
    have hsince : s.mark ≤ entry.since := hs.waiting htimer entry hmem
    have hdue : e.now ≤ s.mark + timerDue := htime (.inr hthread)
    have hshort : timerDue ≤ keepTicks := by decide
    exact ⟨c, hc, .inr (hdue.trans (by omega))⟩

/-- INTERNAL: a tick keeps the invariant where the age it counts in whole seconds is right:
what it leaves in the list is at most 20 seconds old. -/
theorem tick_timely {s : PoolClock} {e : PoolEvent} (hstep : e.step = .tick) (hs : Timely s)
    (htimer : s.pool.timer = true) (hwhole : TickWhole s e) :
    Timely ⟨s.pool.timerAPCProc e.now, e.now, s.markAfter e⟩ := by
  have hmark : s.markAfter e = e.now := by
    unfold PoolClock.markAfter
    rw [hstep]
  unfold TickWhole at hwhole
  rw [hstep] at hwhole
  rw [hmark]
  refine ⟨fun hne => .inl (timerAPCProc_watched htimer hne), le_refl _, fun entry hmem => ?_,
    fun hoff entry hmem => ?_⟩
  · obtain ⟨hmem, hkept⟩ := List.mem_filter.mp hmem
    obtain ⟨c, hc, -⟩ := hs.recent entry hmem
    have hage : (e.now - c.startSessionRequest) / ticksPerSecond ≤ keepConnectionInPoolSec := by
      simpa [PoolState.entryExpired, hc, isExpired] using hkept
    have hcut : e.now - c.startSessionRequest < keepTicks + ticksPerSecond := by
      have := Nat.lt_mul_of_div_lt (Nat.lt_succ_of_le hage) (by decide : 0 < ticksPerSecond)
      rwa [Nat.succ_mul] at this
    refine ⟨c, hc, .inl ?_⟩
    change e.now ≤ c.startSessionRequest + keepTicks
    by_contra hold
    have := hwhole entry hmem c hc (by omega)
    omega
  · have hne : (s.pool.timerAPCProc e.now).connections ≠ [] := List.ne_nil_of_mem hmem
    exact absurd (timerAPCProc_watched htimer hne) (by rw [hoff]; simp)

/-- **The step lemma.** -/
theorem step_timely {s s' : PoolClock} {e : PoolEvent} (hs : Timely s)
    (hok : OnTime s e ∧ PutWatched s e ∧ TickWhole s e) (h : PoolClock.step s e = .ok s') :
    Timely s' := by
  obtain ⟨htime, hput, hwhole⟩ := hok
  obtain ⟨hnow, pool, hpool, rfl⟩ := poolClock_step_eq_ok h
  unfold PoolState.step at hpool
  split at hpool
  case h_1 p server hstep =>
    cases hpool
    exact get_timely hstep hs hnow
  case h_2 conn hstep =>
    have hmark : s.markAfter e = s.mark := by rw [PoolClock.markAfter, hstep]
    unfold PutWatched at hput
    rw [hstep] at hput
    split at hpool <;> cases hpool
    rw [hmark]
    exact put_timely hs hnow hput
  case h_3 conn failed hstep =>
    have hmark : s.markAfter e = s.mark := by rw [PoolClock.markAfter, hstep]
    split at hpool <;> cases hpool
    rw [hmark]
    exact ⟨hs.watched, hs.mark.trans hnow,
      fun entry hmem => (hs.recent entry hmem).modify fun _ hc => hc, hs.waiting⟩
  case h_4 hstep =>
    split at hpool
    · rename_i hthread
      cases hpool
      exact startThread_timely hstep hs hnow hthread htime
    · cases hpool
  case h_5 hstep =>
    split at hpool
    · rename_i htimer
      cases hpool
      exact tick_timely hstep hs htimer hwhole
    · cases hpool

/-- INTERNAL: under the invariant `get` hands out nothing stale. -/
theorem getsFresh_of_timely {s : PoolClock} (hs : Timely s) : GetsFresh s := by
  intro e p server c s' _ _ htime _ entry hmem _ ⟨conn, hconn, hrequest, hsince⟩
  obtain ⟨conn', hconn', hrecent⟩ := hs.recent entry hmem
  obtain rfl : conn = conn' := Option.some.inj (hconn.symm.trans hconn')
  have hdue : e.now ≤ s.mark + timerDue := htime (hs.watched (List.ne_nil_of_mem hmem))
  omega

/-- **When idle connections are watched.** They are in every state of a run just if whatever
it puts back is put back while a timer thread exists. Then, if no tick meets a connection
between 20 and 21 seconds old, `get` hands out nothing that has been lying there for more
than 20 seconds and a tick. -/
theorem idleWatched_iff {es : List PoolEvent} {s : PoolClock}
    (hrun : Runs.run PoolClock.step es .start = .ok s) :
    (Runs.Throughout PoolClock.step IdleWatched es .start ↔
      Runs.Meets PoolClock.step PutWatched es .start) ∧
    (Runs.Meets PoolClock.step (fun s e => OnTime s e ∧ PutWatched s e ∧ TickWhole s e) es
      .start → GetsFresh s) := by
  refine ⟨?_, fun hmeets => ?_⟩
  · exact Runs.throughout_iff_meets IdleWatched (fun s e s' => step_idleWatched_iff)
      (fun hne => absurd rfl hne) hrun
  · refine getsFresh_of_timely ?_
    have hstart : Timely .start :=
      ⟨fun hne => absurd rfl hne, le_refl _, by simp [PoolClock.start, PoolState.start],
        by simp [PoolClock.start, PoolState.start]⟩
    exact Runs.run_invariant Timely (fun _ _ _ => step_timely) hstart hmeets hrun

/-- A connection is put back as soon as it is there, and the timer fires. -/
def shortUse : List PoolEvent :=
  [⟨0, .get sessionPool welcoming⟩, ⟨0, .startThread⟩, ⟨0, .put 0⟩, ⟨timerDue, .tick⟩]

/-- The connection is watched, and is fresh when the next request gets it. -/
theorem shortUse_watched : ∃ s, Runs.run PoolClock.step shortUse .start = .ok s ∧
    s.pool.connections ≠ [] ∧ Runs.Throughout PoolClock.step IdleWatched shortUse .start ∧
    GetsFresh s := by
  obtain ⟨s, hrun, hne⟩ : ∃ s, Runs.run PoolClock.step shortUse .start = .ok s ∧
      s.pool.connections ≠ [] := ⟨_, rfl, by decide⟩
  have hmeets : Runs.Meets PoolClock.step
      (fun s e => OnTime s e ∧ PutWatched s e ∧ TickWhole s e) shortUse .start := by
    decide +kernel
  exact ⟨s, hrun, hne, (idleWatched_iff hrun).1.mpr (hmeets.mono fun _ _ h => h.2.1),
    (idleWatched_iff hrun).2 hmeets⟩

/-- Ticks of the timer, two seconds apart. -/
def ticksFrom (start count : ℕ) : List PoolEvent :=
  (List.range count).map fun k => ⟨start + (k + 1) * timerDue, .tick⟩

/-- One of two connections is put back after the other one has left the list. -/
def lateReturn : List PoolEvent :=
  [⟨0, .get sessionPool welcoming⟩, ⟨0, .startThread⟩, ⟨0, .get sessionPool welcoming⟩,
    ⟨0, .put 0⟩] ++ ticksFrom 0 11 ++ [⟨23 * ticksPerSecond, .put 1⟩]

/-- The connection is 20.9 seconds old when the timer fires for the last time. -/
def tickBefore : List PoolEvent :=
  [⟨0, .get sessionPool welcoming⟩, ⟨1000000, .put 0⟩, ⟨9000000, .startThread⟩] ++
    ticksFrom 9000000 10

/-- What was put back late is handed out a day later; and with all connections watched, one
is handed out that has been idle for 22.7 seconds. -/
theorem lateReturn_not_watched :
    (∃ s, Runs.run PoolClock.step lateReturn .start = .ok s ∧
      Runs.Meets PoolClock.step OnTime lateReturn .start ∧ ¬ IdleWatched s ∧ ¬ GetsFresh s) ∧
    (∃ s, Runs.run PoolClock.step tickBefore .start = .ok s ∧
      Runs.Meets PoolClock.step OnTime tickBefore .start ∧
      Runs.Meets PoolClock.step PutWatched tickBefore .start ∧ ¬ GetsFresh s) := by
  have hstale : ∀ {s : PoolClock} (entry : IdleEntry) (now : ℕ),
      s.pool.connections.getLast? = some entry → s.now ≤ now →
      OnTime s ⟨now, .get sessionPool welcoming⟩ → Stale s.pool now entry → ¬ GetsFresh s := by
    intro s entry now hlast hnow htime hold hfresh
    refine hfresh ⟨now, .get sessionPool welcoming⟩ sessionPool welcoming entry.conn
      (sessionPool.get now welcoming s.pool).2 rfl hnow htime ?_ entry
      (List.mem_of_getLast? hlast) rfl hold
    unfold SimplePool.get
    rw [hlast]
  refine ⟨⟨⟨⟨[connectedFor sessionPool 0, connectedFor sessionPool 0],
    [⟨1, 23 * ticksPerSecond⟩], false, 0⟩, 23 * ticksPerSecond, 22 * ticksPerSecond⟩, by rfl,
    by decide +kernel, by decide +kernel, ?_⟩,
    ⟨⟨⟨[connectedFor sessionPool 0], [⟨0, 1000000⟩], true, 0⟩, 209000000, 209000000⟩, by rfl,
    by decide +kernel, by decide +kernel, ?_⟩⟩
  · exact hstale ⟨1, 23 * ticksPerSecond⟩ (86423 * ticksPerSecond) rfl (by decide)
      (by decide) ⟨_, rfl, by decide, by decide⟩
  · exact hstale ⟨0, 1000000⟩ 228000000 rfl (by decide) (by decide)
      ⟨_, rfl, by decide, by decide⟩

end IspSession.Analysis
