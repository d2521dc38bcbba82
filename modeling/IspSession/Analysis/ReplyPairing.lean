import IspSession.Analysis.PoolConnections
import IspSession.Model.PoolTraffic

/-!
# Every reply goes to its command

Replies carry no mark of the command they answer, so a thread that reads a reply has to be the
only one on the connection, and nothing may be left on it from before. `Paired` is the invariant:
no connection has two threads, or is lent and idle, and the commands whose replies are still to be
read are those of the one thread that waits. A connection that has lost its place, because its
exchange ended by an exception, is never handed out again.
-/

set_option autoImplicit false

namespace IspSession.Analysis

open IspSession.Library IspSession.Model

variable {ι κ : Type}

/-- A thread has the connection. -/
def Lent (s : PoolTraffic ι κ) (i : ι) (conn : ℕ) : Prop := (s.phase i).conn = some conn

/-- The connection of an idle entry is there and has no error. -/
def EntryValid (pool : PoolState) (entry : IdleEntry) : Prop :=
  ∃ c, pool.opened[entry.conn]? = some c ∧ c.isValid = true

/-- What is still to be read on the connection of a thread. -/
def Expects (i : ι) : LoanPhase κ → List (SentCommand ι κ) → Prop
  | .free, _ => True
  | .holding _, unread => unread = []
  | .waiting _ command, unread => unread = [⟨i, command⟩]

/-- **The invariant.** -/
structure Paired (s : PoolTraffic ι κ) : Prop where
  lent : ∀ i conn, Lent s i conn → conn < s.pool.opened.length
  alone : ∀ i j conn, Lent s i conn → Lent s j conn → i = j
  idle : ∀ entry ∈ s.pool.connections, ∀ i, ¬ Lent s i entry.conn
  once : (s.pool.connections.map IdleEntry.conn).Nodup
  valid : ∀ entry ∈ s.pool.connections, EntryValid s.pool entry
  quiet : ∀ entry ∈ s.pool.connections, s.unread entry.conn = []
  expects : ∀ i conn, Lent s i conn → Expects i (s.phase i) (s.unread conn)
  fresh : ∀ conn, s.pool.opened.length ≤ conn → s.unread conn = []
  replies : ∀ e ∈ s.replies, e.2 = e.1

variable {s : PoolTraffic ι κ}

/-- INTERNAL: before the first step. -/
theorem paired_start : Paired (.start : PoolTraffic ι κ) := by
  refine ⟨fun i conn h => ?_, fun i j conn h => ?_, fun entry h => ?_, List.nodup_nil,
    fun entry h => ?_, fun entry h => ?_, fun i conn h => ?_, fun _ _ => rfl, fun e h => ?_⟩
  all_goals cases h

/-- INTERNAL: the pool loses idle connections, or gets others that nobody knows. -/
theorem Paired.withPool (h : Paired s) {pool : PoolState}
    (hopened : s.pool.opened.length ≤ pool.opened.length)
    (hidle : pool.connections.Sublist s.pool.connections)
    (hvalid : ∀ entry ∈ pool.connections, EntryValid pool entry) :
    Paired { s with pool := pool } :=
  ⟨fun i conn hlent => Nat.lt_of_lt_of_le (h.lent i conn hlent) hopened, h.alone,
    fun entry hentry => h.idle entry (hidle.subset hentry), h.once.sublist (hidle.map _), hvalid,
    fun entry hentry => h.quiet entry (hidle.subset hentry), h.expects,
    fun conn hconn => h.fresh conn (Nat.le_trans hopened hconn), h.replies⟩

/-- INTERNAL: an error on a connection that is lent concerns no idle one. -/
theorem Paired.fail (h : Paired s) {i : ι} {conn : ℕ} (hlent : Lent s i conn) : Paired (s.fail conn) := by
  refine h.withPool (Nat.le_of_eq (List.length_modify _ _ _).symm) (List.Sublist.refl _) ?_
  intro entry hentry
  obtain ⟨c, hc, hvalid⟩ := h.valid entry hentry
  refine ⟨c, ?_, hvalid⟩
  have hne : conn ≠ entry.conn := fun hsame => h.idle entry hentry i (hsame ▸ hlent)
  show (s.pool.opened.modify conn _)[entry.conn]? = some c
  rw [List.getElem?_modify_ne _ _ hne]
  exact hc

section Threads

variable [DecidableEq ι] {i : ι}

@[simp] theorem phase_enter_self (s : PoolTraffic ι κ) (i : ι) (phase : LoanPhase κ) :
    (s.enter i phase).phase i = phase := Function.update_self _ _ _

theorem phase_enter_of_ne (s : PoolTraffic ι κ) {j : ι} (phase : LoanPhase κ) (hj : j ≠ i) :
    (s.enter i phase).phase j = s.phase j := Function.update_of_ne hj _ _

/-- INTERNAL: who has a connection after a thread has gone on. -/
theorem lent_enter {phase : LoanPhase κ} {j : ι} {conn : ℕ} (h : Lent (s.enter i phase) j conn) :
    (j = i ∧ phase.conn = some conn) ∨ (j ≠ i ∧ Lent s j conn) := by
  by_cases hj : j = i
  · subst hj
    rw [Lent, phase_enter_self] at h
    exact .inl ⟨rfl, h⟩
  · rw [Lent, phase_enter_of_ne s phase hj] at h
    exact .inr ⟨hj, h⟩

/-- INTERNAL: a thread takes a connection that nobody has. -/
theorem Paired.take (h : Paired s) {conn : ℕ} (hlt : conn < s.pool.opened.length)
    (hidle : ∀ entry ∈ s.pool.connections, entry.conn ≠ conn) (hlent : ∀ j, ¬ Lent s j conn)
    (hunread : s.unread conn = []) : Paired (s.enter i (.holding conn)) := by
  have hconn : ∀ {conn'}, (LoanPhase.holding conn : LoanPhase κ).conn = some conn' → conn' = conn :=
    fun hsome => (Option.some.inj hsome).symm
  refine ⟨fun j conn' hj => ?_, fun j j' conn' hj hj' => ?_, fun entry hentry j hj => ?_, h.once,
    h.valid, h.quiet, fun j conn' hj => ?_, h.fresh, h.replies⟩
  · rcases lent_enter hj with ⟨-, hsome⟩ | ⟨-, hj⟩
    · exact hconn hsome ▸ hlt
    · exact h.lent j conn' hj
  · rcases lent_enter hj with ⟨rfl, hsome⟩ | ⟨-, hj⟩
    · rcases lent_enter hj' with ⟨rfl, -⟩ | ⟨-, hj'⟩
      · rfl
      · exact absurd (hconn hsome ▸ hj') (hlent j')
    · rcases lent_enter hj' with ⟨-, hsome⟩ | ⟨-, hj'⟩
      · exact absurd (hconn hsome ▸ hj) (hlent j)
      · exact h.alone j j' conn' hj hj'
  · rcases lent_enter hj with ⟨-, hsome⟩ | ⟨-, hj⟩
    · exact hidle entry hentry (hconn hsome)
    · exact h.idle entry hentry j hj
  · rcases lent_enter hj with ⟨rfl, hsome⟩ | ⟨hne, hj⟩
    · rw [phase_enter_self, hconn hsome]
      exact hunread
    · rw [phase_enter_of_ne s _ hne]
      exact h.expects j conn' hj

/-- INTERNAL: a thread goes on with its connection, or leaves it. -/
theorem Paired.goOn (h : Paired s) {conn : ℕ} (hlent : Lent s i conn) (phase : LoanPhase κ)
    (unread : List (SentCommand ι κ)) (hphase : ∀ conn', phase.conn = some conn' → conn' = conn)
    (hexpects : Expects i phase unread)
    {replies : List (SentCommand ι κ × SentCommand ι κ)} (hreplies : ∀ e ∈ replies, e.2 = e.1) :
    Paired (PoolTraffic.enter { s with
      unread := Function.update s.unread conn unread
      replies := replies } i phase) := by
  have hother : ∀ conn', conn' ≠ conn →
      Function.update s.unread conn unread conn' = s.unread conn' :=
    fun conn' hne => Function.update_of_ne hne _ _
  have hentry : ∀ entry ∈ s.pool.connections, entry.conn ≠ conn :=
    fun entry hentry hsame => h.idle entry hentry i (hsame.symm ▸ hlent)
  have hlent' : ∀ {j conn'}, Lent (PoolTraffic.enter { s with
      unread := Function.update s.unread conn unread
      replies := replies } i phase) j conn' → Lent s j conn' := by
    intro j conn' hj
    rcases lent_enter hj with ⟨rfl, hsome⟩ | ⟨-, hj⟩
    · exact hphase conn' hsome ▸ hlent
    · exact hj
  refine ⟨fun j conn' hj => h.lent j conn' (hlent' hj),
    fun j j' conn' hj hj' => h.alone j j' conn' (hlent' hj) (hlent' hj'),
    fun entry hentry' j hj => h.idle entry hentry' j (hlent' hj), h.once, h.valid,
    fun entry hentry' => (hother _ (hentry entry hentry')).trans (h.quiet entry hentry'),
    fun j conn' hj => ?_, fun conn' hconn' => ?_, hreplies⟩
  · rcases lent_enter hj with ⟨rfl, hsome⟩ | ⟨hne, hj⟩
    · rw [hphase conn' hsome]
      have hown : Function.update s.unread conn unread conn = unread := Function.update_self _ _ _
      rw [phase_enter_self]
      show Expects j phase (Function.update s.unread conn unread conn)
      rwa [hown]
    · have hconn : conn' ≠ conn := fun hsame => hne (h.alone j i conn' hj (hsame.symm ▸ hlent))
      rw [phase_enter_of_ne _ phase hne]
      show Expects j (s.phase j) (Function.update s.unread conn unread conn')
      rw [hother conn' hconn]
      exact h.expects j conn' hj
  · have hne : conn' ≠ conn := fun hsame => by
      have hlt := h.lent i conn hlent
      rw [← hsame] at hlt
      exact Nat.not_le_of_lt hlt hconn'
    exact (hother conn' hne).trans (h.fresh conn' hconn')

/-- INTERNAL: a thread leaves its connection. -/
theorem Paired.leave (h : Paired s) {conn : ℕ} (hlent : Lent s i conn) :
    Paired (s.enter i .free) := by
  have hgone := h.goOn hlent .free (s.unread conn) (fun _ hsome => by cases hsome) trivial h.replies
  rwa [Function.update_eq_self] at hgone

/-! ## One step -/

/-- INTERNAL: the time of a request does not make a connection invalid. -/
theorem EntryValid.modify {pool pool' : PoolState} {entry : IdleEntry} (h : EntryValid pool entry)
    {conn now : ℕ}
    (hopened : pool'.opened =
      pool.opened.modify conn fun c => { c with startSessionRequest := now }) :
    EntryValid pool' entry := by
  obtain ⟨c, hc, hvalid⟩ := h
  unfold EntryValid
  rw [hopened, List.getElem?_modify, hc]
  refine ⟨_, rfl, ?_⟩
  dsimp only
  split
  · exact hvalid
  · exact hvalid

/-- INTERNAL: a thread asks a pool for a connection. -/
theorem Paired.get (h : Paired s) (now : ℕ) (p : SimplePool) (server : ServerAnswers) :
    Paired (s.get now i p server) := by
  unfold PoolTraffic.get
  rcases hget : p.get now server s.pool with ⟨conn?, pool⟩
  cases conn? with
  | none =>
    obtain ⟨-, rfl⟩ := get_none hget
    show Paired { s with pool := s.pool.createThread }
    unfold PoolState.createThread
    split
    · exact h
    · exact h.withPool (Nat.le_refl _) (List.Sublist.refl _) h.valid
  | some conn =>
    dsimp only
    rcases get_cases hget with ⟨entry, hlast, rfl, hopened, hconns⟩ |
      ⟨hnil, rfl, hconns, c, -, hopened⟩
    · -- the entry goes, and the list held it once
      have hsplit : s.pool.connections.dropLast ++ [entry] = s.pool.connections :=
        List.dropLast_append_getLast? entry hlast
      have hmem : entry ∈ s.pool.connections := List.mem_of_getLast? hlast
      have hsub : pool.connections.Sublist s.pool.connections := hconns ▸ List.dropLast_sublist _
      have honce := h.once
      rw [← hsplit, List.map_append, List.nodup_append] at honce
      have hlength : pool.opened.length = s.pool.opened.length := by
        rw [hopened, List.length_modify]
      refine (h.withPool (Nat.le_of_eq hlength.symm) hsub fun entry' hentry' =>
        (h.valid entry' (hsub.subset hentry')).modify hopened).take ?_ ?_ (h.idle entry hmem)
          (h.quiet entry hmem)
      · obtain ⟨c, hc, -⟩ := h.valid entry hmem
        obtain ⟨hlt, -⟩ := List.getElem?_eq_some_iff.mp hc
        exact hlength.symm ▸ hlt
      · intro entry' hentry' hsame
        change entry' ∈ pool.connections at hentry'
        rw [hconns] at hentry'
        exact honce.2.2 _ (List.mem_map_of_mem hentry') _ (List.mem_singleton_self _) hsame
    · have hlength : pool.opened.length = s.pool.opened.length + 1 := by
        rw [hopened, List.length_append, List.length_singleton]
      refine (h.withPool (by omega) (by rw [hconns]; exact List.nil_sublist _) ?_).take ?_ ?_ ?_
        (h.fresh _ (Nat.le_refl _))
      · rw [hconns]
        exact fun entry hentry => absurd hentry List.not_mem_nil
      · show s.pool.opened.length < pool.opened.length
        omega
      · show ∀ entry ∈ pool.connections, _
        rw [hconns]
        exact fun entry hentry => absurd hentry List.not_mem_nil
      · exact fun j hj => absurd (h.lent j _ hj) (Nat.lt_irrefl _)

/-- INTERNAL: a thread appends a command. -/
theorem Paired.append (h : Paired s) {conn : ℕ} (hphase : s.phase i = .holding conn) (command : κ)
    (failed : Bool) : Paired (s.append i conn command failed) := by
  have hlent : Lent s i conn := congrArg LoanPhase.conn hphase
  cases failed with
  | true => exact (h.fail hlent).leave hlent
  | false =>
    have hnone : s.unread conn = [] := by
      have hexpects := h.expects i conn hlent
      rw [hphase] at hexpects
      exact hexpects
    refine h.goOn hlent (.waiting conn command) _ (fun conn' hsome => (Option.some.inj hsome).symm)
      ?_ h.replies
    rw [hnone]
    rfl

/-- INTERNAL: a thread reads a reply: it is that of its own command. -/
theorem Paired.getReply {s' : PoolTraffic ι κ} (h : Paired s) {conn : ℕ} {command : κ}
    (hphase : s.phase i = .waiting conn command) {outcome : ReplyEnd}
    (hstep : s.getReply i conn command outcome = .ok s') : Paired s' := by
  have hlent : Lent s i conn := congrArg LoanPhase.conn hphase
  have hone : s.unread conn = [⟨i, command⟩] := by
    have hexpects := h.expects i conn hlent
    rw [hphase] at hexpects
    exact hexpects
  have hreplies : ∀ e ∈ (⟨i, command⟩, ⟨i, command⟩) :: s.replies, e.2 = e.1 :=
    List.forall_mem_cons.mpr ⟨rfl, h.replies⟩
  unfold PoolTraffic.getReply at hstep
  cases outcome with
  | transportFailure =>
    cases hstep
    exact (h.fail hlent).leave hlent
  | read =>
    rw [hone] at hstep
    cases hstep
    exact h.goOn hlent (.holding conn) [] (fun conn' hsome => (Option.some.inj hsome).symm) rfl
      hreplies
  | slaveReadOnly =>
    rw [hone] at hstep
    cases hstep
    exact h.goOn hlent .free [] (fun _ hsome => by cases hsome) trivial hreplies

/-- INTERNAL: a thread puts its connection back. -/
theorem Paired.put (h : Paired s) {conn : ℕ} (hphase : s.phase i = .holding conn) (now : ℕ) :
    Paired (PoolTraffic.enter { s with pool := s.pool.put now conn } i .free) := by
  have hlent : Lent s i conn := congrArg LoanPhase.conn hphase
  have hnone : s.unread conn = [] := by
    have hexpects := h.expects i conn hlent
    rw [hphase] at hexpects
    exact hexpects
  have hleft := h.leave hlent
  unfold PoolState.put
  split
  · rename_i c hc
    split
    · rename_i hvalid
      -- the connection joins the list; nobody has it any more
      refine ⟨hleft.lent, hleft.alone, ?_, ?_, ?_, ?_, hleft.expects, hleft.fresh, hleft.replies⟩
      · intro entry hentry j hj
        rcases List.mem_append.mp hentry with hold | hnew
        · exact hleft.idle entry hold j hj
        · obtain rfl := List.mem_singleton.mp hnew
          rcases lent_enter hj with ⟨-, hsome⟩ | ⟨hne, hj⟩
          · cases hsome
          · exact hne (h.alone j i conn hj hlent)
      · show ((s.pool.connections ++ [(⟨conn, now⟩ : IdleEntry)]).map IdleEntry.conn).Nodup
        rw [List.map_append]
        refine List.nodup_append.mpr ⟨h.once, List.nodup_cons.mpr ⟨List.not_mem_nil, .nil⟩, ?_⟩
        rintro conn' hold conn'' hnew rfl
        obtain ⟨entry, hentry, rfl⟩ := List.mem_map.mp hold
        obtain rfl : entry.conn = conn := List.mem_singleton.mp hnew
        exact h.idle entry hentry i hlent
      · intro entry hentry
        rcases List.mem_append.mp hentry with hold | hnew
        · exact h.valid entry hold
        · obtain rfl := List.mem_singleton.mp hnew
          exact ⟨c, hc, hvalid⟩
      · intro entry hentry
        rcases List.mem_append.mp hentry with hold | hnew
        · exact h.quiet entry hold
        · obtain rfl := List.mem_singleton.mp hnew
          exact hnone
    · exact hleft
  · exact hleft

/-- **One step keeps the invariant.** -/
theorem paired_step {s' : PoolTraffic ι κ} {e : TrafficEvent ι κ} (h : Paired s)
    (hstep : s.step e = .ok s') : Paired s' := by
  obtain ⟨now, step⟩ := e
  unfold PoolTraffic.step at hstep
  cases step with
  | get i p server =>
    dsimp only at hstep
    split at hstep
    · cases hstep
      exact h.get now p server
    · cases hstep
  | append i command failed =>
    dsimp only at hstep
    split at hstep
    · rename_i conn hphase
      cases hstep
      exact h.append hphase command failed
    · cases hstep
  | getReply i outcome =>
    dsimp only at hstep
    split at hstep
    · rename_i conn command hphase
      exact h.getReply hphase hstep
    · cases hstep
  | put i =>
    dsimp only at hstep
    split at hstep
    · rename_i conn hphase
      cases hstep
      exact h.put hphase now
    · cases hstep
  | drop i =>
    dsimp only at hstep
    split at hstep
    · rename_i conn hphase
      cases hstep
      exact h.leave (congrArg LoanPhase.conn hphase)
    · cases hstep
  | startThread =>
    dsimp only at hstep
    unfold PoolState.step at hstep
    dsimp only at hstep
    split at hstep
    · cases hstep
      exact h.withPool (Nat.le_refl _) (List.Sublist.refl _) h.valid
    · cases hstep
  | tick =>
    dsimp only at hstep
    unfold PoolState.step at hstep
    dsimp only at hstep
    split at hstep
    · cases hstep
      exact h.withPool (Nat.le_refl _) List.filter_sublist fun entry hentry =>
        h.valid entry (List.mem_of_mem_filter hentry)
    · cases hstep

/-! ## Whole runs -/

/-- **Every reply goes to its command**: in every run of any number of threads on the shared
pools, whatever fails, each reply is read by the thread whose command it answers, and no
connection is with two threads. -/
theorem replies_paired {es : List (TrafficEvent ι κ)}
    (hrun : Runs.run PoolTraffic.step es .start = .ok s) :
    (∀ e ∈ s.replies, e.2 = e.1) ∧ (∀ i j conn, Lent s i conn → Lent s j conn → i = j) ∧
      ∀ entry ∈ s.pool.connections, s.unread entry.conn = [] := by
  have hpaired : Paired s := Runs.run_invariant Paired (fun s e s' hs _ hstep => paired_step hs hstep)
    paired_start (Runs.meets_of_forall (fun _ _ => trivial) _ _) hrun
  exact ⟨hpaired.replies, hpaired.alone, hpaired.quiet⟩

end Threads

/-- Two threads share a pool: the second one gets the connection that the first has put back. -/
def twoThreads (p : SimplePool) : List (TrafficEvent Bool ℕ) :=
  [⟨0, .get false p welcoming⟩, ⟨0, .append false 1 false⟩, ⟨1, .getReply false .read⟩,
    ⟨1, .put false⟩, ⟨2, .get true p welcoming⟩, ⟨2, .append true 2 false⟩,
    ⟨3, .getReply true .read⟩]

/-- Each of them reads its own reply. -/
theorem twoThreads_paired : ∃ s,
    Runs.run PoolTraffic.step (twoThreads (.create "localhost" 6379 "")) .start = .ok s ∧
      s.replies.length = 2 ∧ ∀ e ∈ s.replies, e.2 = e.1 := by
  obtain ⟨s, hrun, hlength⟩ : ∃ s, Runs.run PoolTraffic.step
      (twoThreads (.create "localhost" 6379 "")) .start = .ok s ∧ s.replies.length = 2 :=
    ⟨_, rfl, rfl⟩
  exact ⟨s, hrun, hlength, (replies_paired hrun).1⟩

end IspSession.Analysis
