import IspSession.Model.Redlock

/-!
# At most one caller has the lock

`Lock` counts the servers that have set the caller's key. The proof follows the set of these
servers: as long as the time that `Lock` grants is not over, each of them still has the caller's
value (`Granted`), since nobody else's command takes it away, the caller's own earlier commands have
reached the server before, and the server's clock is not further ahead than the drift. Two callers
in front of the same resource have a server in common, which has one value.
-/

set_option autoImplicit false
set_option linter.unusedSectionVars false

namespace IspSession.Analysis

open IspSession.Library IspSession.Model IspSession.Model.Redlock

variable {ι σ R α : Type} [DecidableEq ι] [DecidableEq σ] [DecidableEq R] [DecidableEq α]
  {cfg : Config ι σ R α} {st st' : State ι σ R α} {c c' : ι}

/-! ## One server -/

/-- The server has the caller's value, set when the try had begun. -/
def Owns (cfg : Config ι σ R α) (st : State ι σ R α) (c : ι) (startTime : ℕ) (s : σ) : Prop :=
  ∃ e, st.store s (cfg.resource c) = some e ∧ e.value = cfg.lockId c ∧ e.ttl = cfg.ttl c ∧
    startTime ≤ e.setAt

/-- The time that a try can grant is over. -/
def Over (cfg : Config ι σ R α) (st : State ι σ R α) (c : ι) (startTime : ℕ) : Prop :=
  startTime + cfg.ttl c ≤ st.now + clockDrift (cfg.ttl c)

/-- The server has set the key in this try, and no command of the caller is under way to it. -/
structure GrantedBy (cfg : Config ι σ R α) (st : State ι σ R α) (c : ι) (startTime : ℕ) (s : σ) :
    Prop where
  quiet : st.pending c s = []
  kept : Owns cfg st c startTime s ∨ Over cfg st c startTime

/-- INTERNAL: what is in a place that has been filled. -/
theorem store_put (st : State ι σ R α) (s : σ) (r : R) (slot : Option (Entry α)) (s' : σ) (r' : R) :
    (st.put s r slot).store s' r' = if s' = s ∧ r' = r then slot else st.store s' r' := by
  unfold State.put
  by_cases hs : s' = s
  · subst hs
    by_cases hr : r' = r
    · subst hr
      simp
    · simp [hr]
  · simp [hs]

/-- INTERNAL: a command of another caller leaves the key. -/
theorem owns_perform (hids : Function.Injective cfg.lockId) (hne : c' ≠ c) {t : ℕ} {s s' : σ}
    {cmd : Command} (h : Owns cfg st c t s) : Owns cfg (cfg.perform st c' s' cmd).2 c t s := by
  obtain ⟨e, hstore, hvalue, httl, hset⟩ := h
  refine ⟨e, ?_, hvalue, httl, hset⟩
  show (st.put s' (cfg.resource c') _).store s (cfg.resource c) = _
  rw [store_put]
  split
  · rename_i hplace
    rw [← hplace.1, ← hplace.2, hstore]
    cases cmd with
    | set => rfl
    | unlock =>
      have hother : e.value ≠ cfg.lockId c' := fun heq => hne (hids (heq.symm.trans hvalue))
      exact congrArg Prod.snd (if_neg hother)
  · exact hstore

/-- INTERNAL: a command to another server leaves the key. -/
theorem owns_perform_of_ne {t : ℕ} {s s' : σ} (hne : s ≠ s') (cmd : Command)
    (h : Owns cfg st c t s) : Owns cfg (cfg.perform st c' s' cmd).2 c t s := by
  obtain ⟨e, hstore, hrest⟩ := h
  refine ⟨e, ?_, hrest⟩
  show (st.put s' (cfg.resource c') _).store s (cfg.resource c) = _
  rw [store_put, if_neg fun hplace => hne hplace.1, hstore]

/-- INTERNAL: a key that a server drops was over. -/
theorem owns_or_over_expire {t : ℕ} {s s' : σ} {r : R} {e : Entry α} (hstore : st.store s' r = some e)
    (hover : e.setAt + e.ttl ≤ st.now + clockDrift e.ttl) (h : Owns cfg st c t s) :
    Owns cfg (st.put s' r none) c t s ∨ Over cfg (st.put s' r none) c t := by
  obtain ⟨e', hstore', hvalue, httl, hset⟩ := h
  by_cases hplace : s = s' ∧ cfg.resource c = r
  · right
    rw [hplace.1, hplace.2, hstore] at hstore'
    obtain rfl := Option.some.inj hstore'
    rw [httl] at hover
    show t + cfg.ttl c ≤ st.now + clockDrift (cfg.ttl c)
    omega
  · exact .inl ⟨e', by rw [store_put, if_neg hplace, hstore'], hvalue, httl, hset⟩

/-- INTERNAL: what is under way between a caller and a server. -/
theorem pending_post (st : State ι σ R α) (c c' : ι) (s s' : σ) (commands : List Command) :
    (Config.post st c' s' commands).pending c s =
      if c = c' ∧ s = s' then commands else st.pending c s := by
  unfold Config.post
  by_cases hc : c = c'
  · subst hc
    by_cases hs : s = s'
    · subst hs
      simp
    · simp [hs]
  · simp [hc]

/-- INTERNAL: a command that another caller, or another server, is concerned with. -/
theorem grantedBy_perform (hids : Function.Injective cfg.lockId) {t : ℕ} {s s' : σ} {cmd : Command}
    (hother : c' = c → s ≠ s') (h : GrantedBy cfg st c t s) :
    GrantedBy cfg (cfg.perform st c' s' cmd).2 c t s := by
  refine ⟨h.quiet, h.kept.imp_left fun hown => ?_⟩
  by_cases hc : c' = c
  · exact owns_perform_of_ne (hother hc) cmd hown
  · exact owns_perform hids hc hown

/-- INTERNAL: as much as a server that has granted the key can see. -/
theorem GrantedBy.congr {t : ℕ} {s : σ} (h : GrantedBy cfg st c t s)
    (hpending : st'.pending c s = st.pending c s) (hstore : st'.store = st.store)
    (hnow : st.now ≤ st'.now) : GrantedBy cfg st' c t s := by
  refine ⟨hpending.trans h.quiet, h.kept.imp (fun hown => ?_) fun hover => ?_⟩
  · obtain ⟨e, hentry, hrest⟩ := hown
    exact ⟨e, by rw [hstore, hentry], hrest⟩
  · unfold Over at hover ⊢
    omega

/-- INTERNAL: where a caller is does not matter to the servers. -/
theorem GrantedBy.enter {t : ℕ} {s : σ} (h : GrantedBy cfg st c t s) (phase : Phase σ) :
    GrantedBy cfg (Config.enter st c' phase) c t s :=
  h.congr rfl rfl (Nat.le_refl _)

/-- INTERNAL: nor do commands to another server, or from another caller. -/
theorem GrantedBy.post {t : ℕ} {s s' : σ} (h : GrantedBy cfg st c t s) (hother : c' = c → s ≠ s')
    (commands : List Command) : GrantedBy cfg (Config.post st c' s' commands) c t s := by
  refine h.congr ?_ rfl (Nat.le_refl _)
  rw [pending_post]
  exact if_neg fun hplace => hother hplace.1.symm hplace.2

/-- INTERNAL: the server is another one than the next one that the caller asks. -/
def NotNext (st : State ι σ R α) (c : ι) (s : σ) : Prop :=
  ∀ x, Config.next (st.phase c) = some x → s ≠ x.1

/-- **No step takes the key from the caller** before its time is over, as long as it does not ask the
server for it. -/
theorem grantedBy_step (hids : Function.Injective cfg.lockId) {ev : Event ι σ R} {t : ℕ} {s : σ}
    (hnext : NotNext st c s) (h : GrantedBy cfg st c t s) (hstep : cfg.step st ev = .ok st') :
    GrantedBy cfg st' c t s := by
  have hother : ∀ {c' s' cmd goOn giveUp},
      Config.next (st.phase c') = some (s', cmd, goOn, giveUp) → c' = c → s ≠ s' := by
    rintro c' s' cmd goOn giveUp hask rfl
    exact hnext _ hask
  cases ev with
  | tick d =>
    cases hstep
    exact h.congr rfl rfl (Nat.le_add_right _ _)
  | answered c' =>
    rw [Config.step] at hstep
    cases hask : Config.next (st.phase c') with
    | none =>
      rw [hask] at hstep
      cases hstep
    | some x =>
      obtain ⟨s', cmd, goOn, giveUp⟩ := x
      simp only [hask] at hstep
      split at hstep
      · cases hstep
        exact (grantedBy_perform hids (hother hask) h).enter _
      · cases hstep
  | timedOut c' =>
    rw [Config.step] at hstep
    cases hask : Config.next (st.phase c') with
    | none =>
      rw [hask] at hstep
      cases hstep
    | some x =>
      obtain ⟨s', cmd, goOn, giveUp⟩ := x
      simp only [hask] at hstep
      cases hstep
      exact (h.post (hother hask) _).enter _
  | execute c' s' =>
    rw [Config.step] at hstep
    cases hpending : st.pending c' s' with
    | nil =>
      rw [hpending] at hstep
      cases hstep
    | cons cmd rest =>
      have hother : c' = c → s ≠ s' := by
        rintro rfl rfl
        rw [h.quiet] at hpending
        cases hpending
      rw [hpending] at hstep
      cases hstep
      exact (grantedBy_perform hids hother h).post hother _
  | lose c' s' =>
    rw [Config.step] at hstep
    cases hpending : st.pending c' s' with
    | nil =>
      rw [hpending] at hstep
      cases hstep
    | cons cmd rest =>
      have hother : c' = c → s ≠ s' := by
        rintro rfl rfl
        rw [h.quiet] at hpending
        cases hpending
      rw [hpending] at hstep
      cases hstep
      exact h.post hother _
  | expire s' r =>
    rw [Config.step] at hstep
    cases hstore : st.store s' r with
    | none =>
      rw [hstore] at hstep
      cases hstep
    | some e =>
      simp only [hstore] at hstep
      split at hstep
      · rename_i hover
        cases hstep
        exact ⟨h.quiet, h.kept.elim (owns_or_over_expire hstore hover) fun hdone => .inr hdone⟩
      · cases hstep
  | lock c' | sleep c' | unlock c' =>
    rw [Config.step] at hstep
    split at hstep
    · cases hstep
      exact h.enter _
    · cases hstep
  | decide c' =>
    rw [Config.step] at hstep
    split at hstep
    · dsimp only at hstep
      split at hstep <;> cases hstep <;> exact h.enter _
    · cases hstep
  | wake c' =>
    rw [Config.step] at hstep
    split at hstep
    · split at hstep <;> cases hstep <;> exact h.enter _
    · cases hstep

/-! ## The set of the servers -/

/-- A set of servers has granted the key. -/
structure Granted (cfg : Config ι σ R α) (st : State ι σ R α) (c : ι) (startTime : ℕ)
    (A : Finset σ) : Prop where
  servers : A ⊆ cfg.servers.toFinset
  each : ∀ s ∈ A, GrantedBy cfg st c startTime s

/-- What is known of a caller by where it is: in a try it has counted servers that have granted the
key and that it is not going to ask again; with a lock there is a majority of them. -/
def PhaseInv (cfg : Config ι σ R α) (st : State ι σ R α) (c : ι) : Phase σ → Prop
  | .locking _ startTime n todo => startTime ≤ st.now ∧ todo.Nodup ∧ todo ⊆ cfg.servers ∧
    ∃ A, Granted cfg st c startTime A ∧ n ≤ A.card ∧ ∀ s ∈ A, s ∉ todo
  | .held since validity => ∃ startTime A, Granted cfg st c startTime A ∧ cfg.quorum ≤ A.card ∧
    since + validity + clockDrift (cfg.ttl c) = startTime + cfg.ttl c
  | _ => True

/-- What is known of all callers. -/
def LockInv (cfg : Config ι σ R α) (st : State ι σ R α) : Prop := ∀ c, PhaseInv cfg st c (st.phase c)

/-- INTERNAL: a caller does not ask the servers that it counts on. -/
theorem PhaseInv.keeps (hids : Function.Injective cfg.lockId) {ev : Event ι σ R}
    (hstep : cfg.step st ev = .ok st') (hnow : st.now ≤ st'.now)
    (h : PhaseInv cfg st c (st.phase c)) : PhaseInv cfg st' c (st.phase c) := by
  cases hphase : st.phase c with
  | locking k startTime n todo =>
    rw [hphase] at h
    obtain ⟨htime, hnodup, htodo, A, hgranted, hcard, hout⟩ := h
    refine ⟨by omega, hnodup, htodo, A, ⟨hgranted.servers, fun s hs => ?_⟩, hcard, hout⟩
    refine grantedBy_step hids (fun x hx => ?_) (hgranted.each s hs) hstep
    rw [hphase] at hx
    cases todo with
    | nil => cases hx
    | cons s' todo =>
      obtain rfl := Option.some.inj hx
      rintro rfl
      exact hout s hs List.mem_cons_self
  | held since validity =>
    rw [hphase] at h
    obtain ⟨startTime, A, hgranted, hcard, htime⟩ := h
    refine ⟨startTime, A, ⟨hgranted.servers, fun s hs => ?_⟩, hcard, htime⟩
    refine grantedBy_step hids (fun x hx => ?_) (hgranted.each s hs) hstep
    rw [hphase] at hx
    cases hx
  | _ => trivial

/-- INTERNAL: a try begins. -/
theorem phaseInv_locking_start (cfg : Config ι σ R α) (st : State ι σ R α) (c : ι) (k : ℕ) :
    PhaseInv cfg st c (.locking k st.now 0 cfg.servers) :=
  ⟨Nat.le_refl _, cfg.nodup, fun _ hs => hs, ∅,
    ⟨Finset.empty_subset _, fun s hs => absurd hs (Finset.notMem_empty s)⟩, Nat.zero_le _,
    fun s hs => absurd hs (Finset.notMem_empty s)⟩

/-- INTERNAL: a server that sets the key grants it. -/
theorem grantedBy_set {startTime : ℕ} {s : σ} (hquiet : st.pending c s = [])
    (htime : startTime ≤ st.now) (hset : (cfg.perform st c s .set).1 = true) :
    GrantedBy cfg (cfg.perform st c s .set).2 c startTime s := by
  refine ⟨hquiet, .inl ?_⟩
  cases hslot : st.store s (cfg.resource c) with
  | some e =>
    rw [Config.perform, hslot] at hset
    cases hset
  | none =>
    refine ⟨⟨cfg.lockId c, st.now, cfg.ttl c⟩, ?_, rfl, rfl, htime⟩
    rw [Config.perform, hslot]
    show (st.put s (cfg.resource c) _).store s (cfg.resource c) = _
    rw [store_put, if_pos ⟨rfl, rfl⟩]
    rfl

/-- INTERNAL: what a caller does with its next server. -/
theorem next_cases (cfg : Config ι σ R α) {phase : Phase σ} {s : σ} {cmd : Command} {goOn : Bool → Phase σ}
    {giveUp : Phase σ} (h : Config.next phase = some (s, cmd, goOn, giveUp)) :
    (∃ k t n todo, phase = .locking k t n (s :: todo) ∧ cmd = .set ∧
      (goOn = fun succeeded => .locking k t (if succeeded then n + 1 else n) todo) ∧
      giveUp = .locking k t n todo) ∨
    (∀ (st : State ι σ R α) (c : ι), PhaseInv cfg st c giveUp ∧ ∀ b, PhaseInv cfg st c (goOn b)) := by
  cases phase with
  | locking k t n todo =>
    cases todo with
    | nil => cases h
    | cons s' todo =>
      cases h
      exact .inl ⟨k, t, n, todo, rfl, rfl, rfl, rfl⟩
  | cleaning k todo | releasing todo =>
    cases todo with
    | nil => cases h
    | cons s' todo =>
      cases h
      exact .inr fun _ _ => ⟨trivial, fun _ => trivial⟩
  | _ => cases h

/-- INTERNAL: a caller that has asked a server. -/
theorem phaseInv_asked {k t n : ℕ} {s : σ} {todo : List σ} {succeeded : Bool}
    (h : PhaseInv cfg st c (.locking k t n (s :: todo)))
    (hset : succeeded = true → GrantedBy cfg st c t s) :
    PhaseInv cfg st c (.locking k t (if succeeded then n + 1 else n) todo) := by
  obtain ⟨htime, hnodup, htodo, A, hgranted, hcard, hout⟩ := h
  obtain ⟨hs, hnodup⟩ := List.nodup_cons.mp hnodup
  have hmem : s ∈ cfg.servers := htodo List.mem_cons_self
  refine ⟨htime, hnodup, fun s' hs' => htodo (List.mem_cons_of_mem _ hs'), ?_⟩
  cases succeeded with
  | false => exact ⟨A, hgranted, hcard, fun s' hs' hin => hout s' hs' (List.mem_cons_of_mem _ hin)⟩
  | true =>
    have hnew : s ∉ A := fun hin => hout s hin List.mem_cons_self
    refine ⟨insert s A, ⟨?_, ?_⟩, ?_, ?_⟩
    · exact Finset.insert_subset (List.mem_toFinset.mpr hmem) hgranted.servers
    · exact Finset.forall_mem_insert _ _ _ |>.mpr ⟨hset rfl, hgranted.each⟩
    · rw [Finset.card_insert_of_notMem hnew]
      exact Nat.succ_le_succ hcard
    · exact Finset.forall_mem_insert _ _ _ |>.mpr
        ⟨hs, fun s' hs' hin => hout s' hs' (List.mem_cons_of_mem _ hin)⟩

/-- INTERNAL: time goes on. -/
theorem now_le_step {ev : Event ι σ R} (hstep : cfg.step st ev = .ok st') : st.now ≤ st'.now := by
  cases ev with
  | tick d =>
    cases hstep
    exact Nat.le_add_right _ _
  | _ =>
    rw [Config.step] at hstep
    split at hstep
    · try dsimp only at hstep
      first
        | (cases hstep; exact Nat.le_refl _)
        | (split at hstep <;> cases hstep <;> exact Nat.le_refl _)
    · cases hstep

/-- INTERNAL: the caller that has entered a phase, and the others. -/
theorem phase_enter (st : State ι σ R α) (c c' : ι) (phase : Phase σ) :
    (Config.enter st c' phase).phase c = if c = c' then phase else st.phase c := by
  unfold Config.enter
  by_cases h : c = c'
  · subst h
    simp
  · simp [h]

/-- INTERNAL: a caller enters a phase of which its invariant holds. -/
theorem phaseInv_enter {st₁ : State ι σ R α} {phase : Phase σ} (hsame : st₁.phase c = st.phase c)
    (hkeep : PhaseInv cfg (Config.enter st₁ c' phase) c (st.phase c))
    (hnew : c = c' → PhaseInv cfg (Config.enter st₁ c' phase) c phase) :
    PhaseInv cfg (Config.enter st₁ c' phase) c ((Config.enter st₁ c' phase).phase c) := by
  rw [phase_enter]
  split
  · rename_i hc
    exact hnew hc
  · rw [hsame]
    exact hkeep

/-- **Every step keeps what is known of the callers.** -/
theorem lockInv_step (hids : Function.Injective cfg.lockId) {ev : Event ι σ R}
    (h : LockInv cfg st) (hstep : cfg.step st ev = .ok st') : LockInv cfg st' := by
  intro c
  have hkeep := (h c).keeps hids hstep (now_le_step hstep)
  cases ev with
  | tick d =>
    cases hstep
    exact hkeep
  | execute c' s' | lose c' s' =>
    rw [Config.step] at hstep
    split at hstep
    · cases hstep
      exact hkeep
    · cases hstep
  | expire s' r =>
    rw [Config.step] at hstep
    split at hstep
    · split at hstep <;> cases hstep
      exact hkeep
    · cases hstep
  | lock c' =>
    rw [Config.step] at hstep
    split at hstep
    · cases hstep
      exact phaseInv_enter rfl hkeep fun _ => phaseInv_locking_start cfg (Config.enter st c' _) c 1
    · cases hstep
  | sleep c' | unlock c' =>
    rw [Config.step] at hstep
    split at hstep
    · cases hstep
      exact phaseInv_enter rfl hkeep fun _ => trivial
    · cases hstep
  | wake c' =>
    rw [Config.step] at hstep
    split at hstep
    · split at hstep
      · cases hstep
        exact phaseInv_enter rfl hkeep fun _ =>
          phaseInv_locking_start cfg (Config.enter st c' _) c _
      · cases hstep
        exact phaseInv_enter rfl hkeep fun _ => trivial
    · cases hstep
  | decide c' =>
    rw [Config.step] at hstep
    split at hstep
    · rename_i k t n hphase
      dsimp only at hstep
      split at hstep
      · rename_i hdecide
        cases hstep
        refine phaseInv_enter rfl hkeep ?_
        rintro rfl
        rw [hphase] at hkeep
        obtain ⟨htime, -, -, A, hgranted, hcard, -⟩ := hkeep
        refine ⟨t, A, hgranted, hdecide.1.trans hcard, ?_⟩
        have hvalid := hdecide.2
        have htime' : t ≤ st.now := htime
        have hdrift := drift_eq (cfg.ttl_lt c)
        unfold validityTime at hvalid ⊢
        omega
      · cases hstep
        exact phaseInv_enter rfl hkeep fun _ => trivial
    · cases hstep
  | answered c' =>
    rw [Config.step] at hstep
    cases hask : Config.next (st.phase c') with
    | none =>
      rw [hask] at hstep
      cases hstep
    | some x =>
      obtain ⟨s, cmd, goOn, giveUp⟩ := x
      simp only [hask] at hstep
      split at hstep
      · rename_i hquiet
        cases hstep
        refine phaseInv_enter rfl hkeep ?_
        rintro rfl
        rcases next_cases cfg hask with ⟨k, t, n, todo, hphase, rfl, rfl, rfl⟩ | hfree
        · rw [hphase] at hkeep
          have htime : t ≤ st.now := hkeep.1
          exact phaseInv_asked hkeep fun hset => (grantedBy_set hquiet htime hset).enter _
        · exact (hfree _ c).2 _
      · cases hstep
  | timedOut c' =>
    rw [Config.step] at hstep
    cases hask : Config.next (st.phase c') with
    | none =>
      rw [hask] at hstep
      cases hstep
    | some x =>
      obtain ⟨s, cmd, goOn, giveUp⟩ := x
      simp only [hask] at hstep
      cases hstep
      refine phaseInv_enter rfl hkeep ?_
      rintro rfl
      rcases next_cases cfg hask with ⟨k, t, n, todo, hphase, rfl, rfl, rfl⟩ | hfree
      · rw [hphase] at hkeep
        exact @phaseInv_asked _ _ _ _ _ _ _ _ _ _ _ _ _ _ _ _ false hkeep fun hno => by cases hno
      · exact (hfree _ c).1

/-! ## The theorem -/

/-- INTERNAL: callers with a lock have a common server. -/
theorem exists_common_server {A B : Finset σ} (hA : A ⊆ cfg.servers.toFinset)
    (hB : B ⊆ cfg.servers.toFinset) (hcardA : cfg.quorum ≤ A.card) (hcardB : cfg.quorum ≤ B.card) :
    ∃ s, s ∈ A ∧ s ∈ B := by
  have hservers : cfg.servers.toFinset.card = cfg.servers.length :=
    List.toFinset_card_of_nodup cfg.nodup
  have hmany : cfg.servers.toFinset.card < A.card + B.card := by
    unfold Config.quorum at hcardA hcardB
    omega
  obtain ⟨s, hs⟩ := Finset.inter_nonempty_of_card_lt_card_add_card hA hB hmany
  exact ⟨s, Finset.mem_inter.mp hs⟩

/-- INTERNAL: while the time is not over the servers have the caller's value. -/
theorem exists_majority (h : LockInv cfg st) (hholds : st.Holds c) :
    ∃ A ⊆ cfg.servers.toFinset, cfg.quorum ≤ A.card ∧
      ∀ s ∈ A, ∃ e, st.store s (cfg.resource c) = some e ∧ e.value = cfg.lockId c := by
  obtain ⟨since, validity, hphase, htime⟩ := hholds
  have hinv := h c
  rw [hphase] at hinv
  obtain ⟨startTime, A, hgranted, hcard, hend⟩ := hinv
  refine ⟨A, hgranted.servers, hcard, fun s hs => ?_⟩
  rcases (hgranted.each s hs).kept with ⟨e, hstore, hvalue, -⟩ | hover
  · exact ⟨e, hstore, hvalue⟩
  · unfold Over at hover
    omega

/-- **Of the callers with different values in front of one resource at most one has the lock**, at
every moment of every run, however many commands are late or lost. -/
theorem lock_mutual_exclusion (hids : Function.Injective cfg.lockId) {now : ℕ}
    {store : σ → R → Option (Entry α)} {events : List (Event ι σ R)}
    (hrun : Runs.run cfg.step events (State.start now store) = .ok st) (hc : st.Holds c)
    (hc' : st.Holds c') (hresource : cfg.resource c = cfg.resource c') : c = c' := by
  have hstart : LockInv cfg (State.start now store) := fun _ => trivial
  have hinv : LockInv cfg st :=
    Runs.run_invariant (LockInv cfg) (fun s ev s' hs _ hstep => lockInv_step hids hs hstep)
      hstart (Runs.meets_of_forall (fun _ _ => trivial) _ _) hrun
  obtain ⟨A, hA, hcardA, hvalueA⟩ := exists_majority hinv hc
  obtain ⟨B, hB, hcardB, hvalueB⟩ := exists_majority hinv hc'
  obtain ⟨s, hsA, hsB⟩ := exists_common_server hA hB hcardA hcardB
  obtain ⟨e, hstore, hvalue⟩ := hvalueA s hsA
  obtain ⟨e', hstore', hvalue'⟩ := hvalueB s hsB
  rw [hresource, hstore'] at hstore
  obtain rfl := Option.some.inj hstore
  exact hids (hvalue.symm.trans hvalue')

/-- Two callers that want one resource for ten seconds, on three servers. -/
def twoCallers : Config Bool (Fin 3) Unit Bool where
  servers := [0, 1, 2]
  nodup := by decide
  resource _ := ()
  ttl _ := 100000000
  ttl_lt := by decide
  lockId c := c

/-- The first caller gets two servers and an exception, the second one the third server. -/
def rivalEvents : List (Event Bool (Fin 3) Unit) :=
  [.lock false, .lock true, .answered false, .answered true, .tick 5000, .answered false,
    .answered true, .timedOut false, .answered true, .decide false, .decide true]

/-- The first caller has the lock, the second one has not. -/
theorem rivalEvents_exclusive : ∃ st,
    Runs.run twoCallers.step rivalEvents (State.start 0 fun _ _ => none) = .ok st ∧
      st.Holds false ∧ ¬ st.Holds true := by
  have hids : Function.Injective twoCallers.lockId := fun _ _ h => h
  obtain ⟨st, hrun, hholds⟩ : ∃ st,
      Runs.run twoCallers.step rivalEvents (State.start 0 fun _ _ => none) = .ok st ∧
        st.Holds false := ⟨_, rfl, _, _, rfl, by decide⟩
  refine ⟨st, hrun, hholds, fun h => ?_⟩
  have hsame : false = true := lock_mutual_exclusion hids hrun hholds h rfl
  cases hsame

end IspSession.Analysis
