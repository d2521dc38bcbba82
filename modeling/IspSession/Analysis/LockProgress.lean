import IspSession.Analysis.LockSafety

/-!
# Nobody blocks the lock for ever

A caller of `Lock` may stop anywhere: with the lock, in the middle of a try, with commands under way.
Its keys have a time to live, so that from every state a caller that wants the lock can get it while
all the others stand still (`lock_obtainable`): the time of the keys in its way ends, the servers
drop them, and then all of them set the caller's key in one try.
-/

set_option autoImplicit false
set_option linter.unusedSectionVars false

namespace IspSession.Analysis

open IspSession.Library IspSession.Model IspSession.Model.Redlock

variable {ι σ R α : Type} [DecidableEq ι] [DecidableEq σ] [DecidableEq R] [DecidableEq α]
  {cfg : Config ι σ R α} {st st' st'' : State ι σ R α} {c c' : ι}

/-! ## A caller that is not disturbed -/

/-- What happens while the other callers stand still: time passes, servers drop keys whose time is
over, late commands of the caller are lost, and the caller goes on. -/
def OwnEvent (c : ι) : Event ι σ R → Prop
  | .tick _ | .expire _ _ => True
  | .lock c' | .answered c' | .lose c' _ | .decide c' | .wake c' => c' = c
  | .timedOut _ | .execute _ _ | .sleep _ | .unlock _ => False

/-- The caller gets to another state while the others stand still. -/
def Gets (cfg : Config ι σ R α) (c : ι) (st st' : State ι σ R α) : Prop :=
  ∃ events, (∀ ev ∈ events, OwnEvent c ev) ∧ Runs.run cfg.step events st = .ok st'

theorem Gets.refl (st : State ι σ R α) : Gets cfg c st st :=
  ⟨[], fun _ hev => absurd hev List.not_mem_nil, rfl⟩

theorem Gets.trans (h : Gets cfg c st st') (h' : Gets cfg c st' st'') : Gets cfg c st st'' := by
  obtain ⟨events, hown, hrun⟩ := h
  obtain ⟨events', hown', hrun'⟩ := h'
  refine ⟨events ++ events', fun ev hev => ?_, (Runs.run_append hrun).trans hrun'⟩
  exact (List.mem_append.mp hev).elim (hown ev) (hown' ev)

/-- INTERNAL: one event. -/
theorem gets_step (ev : Event ι σ R) (hown : OwnEvent c ev) (hstep : cfg.step st ev = .ok st') :
    Gets cfg c st st' := by
  refine ⟨[ev], fun ev' hev' => ?_, ?_⟩
  · rw [List.mem_singleton.mp hev']
    exact hown
  · rw [Runs.run, hstep]
    rfl

/-- INTERNAL: the others stand still. -/
theorem phase_ownEvent {ev : Event ι σ R} (hown : OwnEvent c ev) (hc : c' ≠ c)
    (hstep : cfg.step st ev = .ok st') : st'.phase c' = st.phase c' := by
  have henter : ∀ (st₁ : State ι σ R α) (phase : Phase σ), st₁.phase = st.phase →
      (Config.enter st₁ c phase).phase c' = st.phase c' := by
    intro st₁ phase hsame
    rw [phase_enter, if_neg hc, hsame]
  cases ev with
  | tick d =>
    cases hstep
    rfl
  | expire s r =>
    rw [Config.step] at hstep
    split at hstep
    · split at hstep
      · cases hstep
        rfl
      · cases hstep
    · cases hstep
  | lose c₁ s =>
    rw [Config.step] at hstep
    split at hstep
    · cases hstep
      rfl
    · cases hstep
  | lock c₁ =>
    obtain rfl : c₁ = c := hown
    rw [Config.step] at hstep
    split at hstep
    · cases hstep
      exact henter st _ rfl
    · cases hstep
  | wake c₁ =>
    obtain rfl : c₁ = c := hown
    rw [Config.step] at hstep
    split at hstep
    · split at hstep
      · cases hstep
        exact henter st _ rfl
      · cases hstep
        exact henter st _ rfl
    · cases hstep
  | decide c₁ =>
    obtain rfl : c₁ = c := hown
    rw [Config.step] at hstep
    split at hstep
    · dsimp only at hstep
      split at hstep
      · cases hstep
        exact henter st _ rfl
      · cases hstep
        exact henter st _ rfl
    · cases hstep
  | answered c₁ =>
    obtain rfl : c₁ = c := hown
    rw [Config.step] at hstep
    cases hask : Config.next (st.phase c₁) with
    | none =>
      rw [hask] at hstep
      cases hstep
    | some x =>
      obtain ⟨s, cmd, goOn, giveUp⟩ := x
      simp only [hask] at hstep
      split at hstep
      · cases hstep
        exact henter _ _ rfl
      · cases hstep
  | timedOut c₁ => exact hown.elim
  | execute c₁ s => exact hown.elim
  | sleep c₁ => exact hown.elim
  | unlock c₁ => exact hown.elim

/-- **The others stay where they are.** -/
theorem Gets.others (h : Gets cfg c st st') (hc : c' ≠ c) : st'.phase c' = st.phase c' := by
  obtain ⟨events, hown, hrun⟩ := h
  induction events generalizing st with
  | nil =>
    cases hrun
    rfl
  | cons ev events ih =>
    obtain ⟨st₁, hst₁, hrest⟩ := Runs.run_cons_eq_ok hrun
    rw [ih (fun ev' hev' => hown ev' (List.mem_cons_of_mem _ hev')) hrest]
    exact phase_ownEvent (hown ev List.mem_cons_self) hc hst₁

/-! ## What is in the way -/

/-- INTERNAL: the commands that are late at a server are lost. -/
theorem gets_quiet_at (cfg : Config ι σ R α) (c : ι) (s : σ) : ∀ st : State ι σ R α,
    ∃ st', Gets cfg c st st' ∧
    st'.phase = st.phase ∧ st'.store = st.store ∧ st'.pending c s = [] ∧
    ∀ s', st.pending c s' = [] → st'.pending c s' = [] := by
  suffices h : ∀ (commands : List Command) (st : State ι σ R α), st.pending c s = commands →
      ∃ st', Gets cfg c st st' ∧ st'.phase = st.phase ∧ st'.store = st.store ∧
        st'.pending c s = [] ∧ ∀ s', st.pending c s' = [] → st'.pending c s' = [] from
    fun st => h _ st rfl
  intro commands
  induction commands with
  | nil => exact fun st hpending => ⟨st, .refl st, rfl, rfl, hpending, fun _ hs' => hs'⟩
  | cons cmd rest ih =>
    intro st hpending
    have hstep : cfg.step st (.lose c s) = .ok (Config.post st c s rest) := by
      rw [Config.step, hpending]
    have hrest : (Config.post st c s rest).pending c s = rest := by
      rw [pending_post, if_pos ⟨rfl, rfl⟩]
    obtain ⟨st', hgets, hphase, hstore, hquiet, hkeep⟩ := ih _ hrest
    refine ⟨st', (gets_step (.lose c s) rfl hstep).trans hgets, hphase, hstore, hquiet, fun s' hs' => ?_⟩
    refine hkeep s' ?_
    rw [pending_post, if_neg]
    · exact hs'
    · rintro ⟨-, rfl⟩
      rw [hs'] at hpending
      cases hpending

/-- INTERNAL: so they are at all of these servers. -/
theorem gets_quiet (cfg : Config ι σ R α) (c : ι) (servers : List σ) :
    ∀ st : State ι σ R α, ∃ st', Gets cfg c st st' ∧ st'.phase = st.phase ∧
      st'.store = st.store ∧ (∀ s ∈ servers, st'.pending c s = []) ∧
      ∀ s, st.pending c s = [] → st'.pending c s = [] := by
  induction servers with
  | nil =>
    exact fun st => ⟨st, .refl st, rfl, rfl, fun _ hs => absurd hs List.not_mem_nil, fun _ hs => hs⟩
  | cons s servers ih =>
    intro st
    obtain ⟨st₁, hgets₁, hphase₁, hstore₁, hquiet₁, hkeep₁⟩ := gets_quiet_at cfg c s st
    obtain ⟨st₂, hgets₂, hphase₂, hstore₂, hquiet₂, hkeep₂⟩ := ih st₁
    refine ⟨st₂, hgets₁.trans hgets₂, hphase₂.trans hphase₁, hstore₂.trans hstore₁,
      fun s' hs' => ?_, fun s' hs' => hkeep₂ s' (hkeep₁ s' hs')⟩
    rcases List.mem_cons.mp hs' with rfl | hs'
    · exact hkeep₂ _ hquiet₁
    · exact hquiet₂ s' hs'

/-- INTERNAL: the time of the keys on these servers ends. -/
theorem exists_end (st : State ι σ R α) (r : R) (servers : List σ) :
    ∃ d, ∀ s ∈ servers, ∀ e, st.store s r = some e → e.setAt + e.ttl ≤ d := by
  induction servers with
  | nil => exact ⟨0, fun _ hs => absurd hs List.not_mem_nil⟩
  | cons s servers ih =>
    obtain ⟨d, hd⟩ := ih
    cases hslot : st.store s r with
    | none =>
      refine ⟨d, fun s' hs' e he => ?_⟩
      rcases List.mem_cons.mp hs' with rfl | hs'
      · rw [hslot] at he
        cases he
      · exact hd s' hs' e he
    | some e =>
      refine ⟨max d (e.setAt + e.ttl), fun s' hs' e' he' => ?_⟩
      rcases List.mem_cons.mp hs' with rfl | hs'
      · rw [hslot] at he'
        cases he'
        exact Nat.le_max_right _ _
      · exact Nat.le_trans (hd s' hs' e' he') (Nat.le_max_left _ _)

/-- INTERNAL: the servers drop the keys. -/
theorem gets_empty (cfg : Config ι σ R α) (c : ι) (r : R) (servers : List σ) :
    ∀ st : State ι σ R α,
    (∀ s ∈ servers, ∀ e, st.store s r = some e → e.setAt + e.ttl ≤ st.now + clockDrift e.ttl) →
    ∃ st', Gets cfg c st st' ∧ st'.phase = st.phase ∧ st'.pending = st.pending ∧
      (∀ s ∈ servers, st'.store s r = none) ∧ ∀ s, st.store s r = none → st'.store s r = none := by
  induction servers with
  | nil =>
    exact fun st _ =>
      ⟨st, .refl st, rfl, rfl, fun _ hs => absurd hs List.not_mem_nil, fun _ hs => hs⟩
  | cons s servers ih =>
    intro st hover
    obtain ⟨st₁, hgets₁, hphase₁, hpending₁, hnow₁, hnone, hsame⟩ : ∃ st₁, Gets cfg c st st₁ ∧
        st₁.phase = st.phase ∧ st₁.pending = st.pending ∧ st₁.now = st.now ∧
        st₁.store s r = none ∧ ∀ s', st₁.store s' r = none ∨ st₁.store s' r = st.store s' r := by
      cases hslot : st.store s r with
      | none => exact ⟨st, .refl st, rfl, rfl, rfl, hslot, fun _ => .inr rfl⟩
      | some e =>
        have hstep : cfg.step st (.expire s r) = .ok (st.put s r none) := by
          rw [Config.step, hslot]
          exact if_pos (hover s List.mem_cons_self e hslot)
        refine ⟨st.put s r none, gets_step (.expire s r) trivial hstep, rfl, rfl, rfl, ?_, fun s' => ?_⟩
        · rw [store_put, if_pos ⟨rfl, rfl⟩]
        · rw [store_put]
          split
          · exact .inl rfl
          · exact .inr rfl
    obtain ⟨st₂, hgets₂, hphase₂, hpending₂, hempty, hkeep⟩ := ih st₁ fun s' hs' e he => by
      rcases hsame s' with hnone' | heq
      · rw [hnone'] at he
        cases he
      · rw [hnow₁]
        exact hover s' (List.mem_cons_of_mem _ hs') e (heq ▸ he)
    refine ⟨st₂, hgets₁.trans hgets₂, hphase₂.trans hphase₁, hpending₂.trans hpending₁,
      fun s' hs' => ?_, fun s' hs' => ?_⟩
    · rcases List.mem_cons.mp hs' with rfl | hs'
      · exact hkeep _ hnone
      · exact hempty s' hs'
    · refine hkeep s' ?_
      rcases hsame s' with hnone' | heq
      · exact hnone'
      · exact heq.trans hs'

/-! ## The try -/

/-- The caller is in front of a try. -/
def CanTry (st : State ι σ R α) (c : ι) : Prop :=
  st.phase c = .idle ∨ ∃ k < defaultRetryCount, st.phase c = .sleeping k

/-- INTERNAL: the try begins. -/
theorem gets_locking (cfg : Config ι σ R α) (h : CanTry st c) :
    ∃ k, Gets cfg c st (Config.enter st c (.locking k st.now 0 cfg.servers)) := by
  rcases h with hidle | ⟨k, hk, hsleeping⟩
  · refine ⟨1, gets_step (.lock c) rfl ?_⟩
    rw [Config.step, hidle]
  · refine ⟨k + 1, gets_step (.wake c) rfl ?_⟩
    rw [Config.step, hsleeping]
    exact if_pos hk

/-- INTERNAL: every server that is asked sets the key. -/
theorem gets_granted {k t : ℕ} (todo : List σ) : ∀ (n : ℕ) (st : State ι σ R α),
    st.phase c = .locking k t n todo → todo.Nodup →
    (∀ s ∈ todo, st.pending c s = [] ∧ st.store s (cfg.resource c) = none) →
    ∃ st', Gets cfg c st st' ∧ st'.phase c = .locking k t (n + todo.length) [] ∧
      st'.now = st.now := by
  induction todo with
  | nil => exact fun n st hphase _ _ => ⟨st, .refl st, hphase, rfl⟩
  | cons s todo ih =>
    intro n st hphase hnodup hfree
    obtain ⟨hs, hnodup⟩ := List.nodup_cons.mp hnodup
    obtain ⟨hquiet, hnone⟩ := hfree s List.mem_cons_self
    have hset : (cfg.perform st c s .set).1 = true := by
      rw [Config.perform, hnone]
      rfl
    have hstep : cfg.step st (.answered c) =
        .ok (Config.enter (cfg.perform st c s .set).2 c (.locking k t (n + 1) todo)) := by
      rw [Config.step, hphase]
      dsimp only [Config.next]
      rw [if_pos hquiet, hset, if_pos rfl]
    obtain ⟨st', hgets, hphase', hnow⟩ := ih (n + 1)
      (Config.enter (cfg.perform st c s .set).2 c (.locking k t (n + 1) todo))
      (by rw [phase_enter, if_pos rfl]) hnodup fun s' hs' => by
        obtain ⟨hquiet', hnone'⟩ := hfree s' (List.mem_cons_of_mem _ hs')
        refine ⟨hquiet', ?_⟩
        have hne : s' ≠ s := fun heq => hs (heq ▸ hs')
        change (st.put s (cfg.resource c) _).store s' (cfg.resource c) = none
        rw [store_put, if_neg fun hplace => hne hplace.1, hnone']
    refine ⟨st', (gets_step (.answered c) rfl hstep).trans hgets, ?_, hnow⟩
    rw [hphase', List.length_cons, Nat.add_assoc, Nat.add_comm 1]

/-- **Whoever wants the lock can get it**, with its whole time left, from every state, while all the
others stand still where they are: nobody needs to give back what it has. -/
theorem lock_obtainable (hservers : cfg.servers ≠ []) (httl : 0 < validityTime (cfg.ttl c) 0)
    (htry : CanTry st c) :
    ∃ st', Gets cfg c st st' ∧
      st'.phase c = .held st'.now (validityTime (cfg.ttl c) 0).toNat ∧ st'.Holds c ∧
      ∀ c', c' ≠ c → st'.phase c' = st.phase c' := by
  obtain ⟨st₁, hgets₁, hphase₁, hstore₁, hquiet, -⟩ :=
    gets_quiet cfg c cfg.servers st
  obtain ⟨d, hd⟩ := exists_end st₁ (cfg.resource c) cfg.servers
  have htick : Gets cfg c st₁ { st₁ with now := st₁.now + d } := gets_step (.tick d) trivial rfl
  obtain ⟨st₂, hgets₂, hphase₂, hpending₂, hempty, -⟩ := gets_empty cfg c
    (cfg.resource c) cfg.servers { st₁ with now := st₁.now + d } fun s hs e he => by
      have hend := hd s hs e he
      show e.setAt + e.ttl ≤ st₁.now + d + clockDrift e.ttl
      omega
  have htry₂ : CanTry st₂ c := by
    unfold CanTry
    rw [hphase₂, show ({ st₁ with now := st₁.now + d } : State ι σ R α).phase = st₁.phase from rfl,
      hphase₁]
    exact htry
  obtain ⟨k, hgets₃⟩ := gets_locking cfg htry₂
  obtain ⟨st₄, hgets₄, hphase₄, hnow₄⟩ := gets_granted cfg.servers 0
    (Config.enter st₂ c (.locking k st₂.now 0 cfg.servers)) (by rw [phase_enter, if_pos rfl])
    cfg.nodup fun s hs => ⟨(congrFun (congrFun hpending₂ c) s).trans (hquiet s hs), hempty s hs⟩
  have hquorum : cfg.quorum ≤ 0 + cfg.servers.length := by
    have hpos := List.length_pos_iff.mpr hservers
    unfold Config.quorum
    omega
  have hnow : st₄.now = st₂.now := hnow₄
  have hvalid : validityTime (cfg.ttl c) (st₄.now - st₂.now) = validityTime (cfg.ttl c) 0 := by
    rw [hnow, Nat.sub_self]
  have hstep : cfg.step st₄ (.decide c) =
      .ok (Config.enter st₄ c (.held st₄.now (validityTime (cfg.ttl c) 0).toNat)) := by
    rw [Config.step, hphase₄]
    dsimp only
    rw [hvalid, if_pos ⟨hquorum, httl⟩]
  have hgets := hgets₁.trans (htick.trans (hgets₂.trans (hgets₃.trans
    (hgets₄.trans (gets_step (.decide c) rfl hstep)))))
  have hheld : (Config.enter st₄ c (.held st₄.now (validityTime (cfg.ttl c) 0).toNat)).phase c =
      .held st₄.now (validityTime (cfg.ttl c) 0).toNat := by
    rw [phase_enter, if_pos rfl]
  have hleft : st₄.now < st₄.now + (validityTime (cfg.ttl c) 0).toNat := by omega
  exact ⟨_, hgets, hheld, ⟨st₄.now, _, hheld, hleft⟩, fun c' hc' => hgets.others hc'⟩

/-- The first caller has stopped with the lock, and the second one gets it. -/
theorem stoppedCaller_obtainable : ∃ st, Runs.run twoCallers.step
      [.lock false, .answered false, .answered false, .answered false, .decide false]
      (State.start 0 fun _ _ => none) = .ok st ∧ st.Holds false ∧
    ∃ st', Gets twoCallers true st st' ∧
      st'.phase true = .held st'.now (validityTime (twoCallers.ttl true) 0).toNat ∧
      st'.Holds true ∧ ∀ c', c' ≠ true → st'.phase c' = st.phase c' :=
  ⟨_, rfl, ⟨_, _, rfl, by decide⟩, lock_obtainable (by decide) (by decide) (.inl rfl)⟩

end IspSession.Analysis
