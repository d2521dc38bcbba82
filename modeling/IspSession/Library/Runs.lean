import Mathlib.Data.List.Basic

/-!
# Runs of a system that takes steps

A system is a function from a state and an action to the next state, or to an error.
`run` performs a list of actions. `Meets` says that every step of a run meets a condition
on the state in front of it and the action; the simulation rule `run_simulates` and the
invariant rule `run_invariant` need a step to keep the relation, or the invariant, only
where that condition holds. `observe` lists what the steps answer; `observe_eq_iff` compares
the answers with those of a reference. `run_refines` is the simulation rule for an abstract
system that may choose among several steps.
-/

set_option autoImplicit false

namespace IspSession.Library

namespace Runs

variable {σ α ε : Type} (step : σ → α → Except ε σ)

/-- Performing actions one after the other. -/
def run : List α → σ → Except ε σ
  | [], s => .ok s
  | a :: as, s =>
    match step s a with
    | .ok s' => run as s'
    | .error e => .error e

/-- Every step of the run meets the condition `ok`. -/
def Meets (ok : σ → α → Prop) : List α → σ → Prop
  | [], _ => True
  | a :: as, s => ok s a ∧ ∀ s', step s a = .ok s' → Meets ok as s'

/-- The property `P` holds in every state of the run. -/
def Throughout (P : σ → Prop) : List α → σ → Prop
  | [], s => P s
  | a :: as, s => P s ∧ ∀ s', step s a = .ok s' → Throughout P as s'

variable {step}

/-- A condition that all steps meet is met by a run. -/
theorem meets_of_forall {ok : σ → α → Prop} (h : ∀ s a, ok s a) (as : List α) (s : σ) :
    Meets step ok as s := by
  induction as generalizing s with
  | nil => trivial
  | cons a as ih => exact ⟨h s a, fun s' _ => ih s'⟩

/-- Whether a run meets a decidable condition can be computed along the run. -/
instance decidableMeets {ok : σ → α → Prop} [∀ s a, Decidable (ok s a)] :
    (as : List α) → (s : σ) → Decidable (Meets step ok as s)
  | [], _ => .isTrue trivial
  | a :: as, s =>
    match h : step s a with
    | .ok s' =>
      have : Decidable (Meets step ok as s') := decidableMeets as s'
      decidable_of_iff (ok s a ∧ Meets step ok as s')
        (and_congr_right fun _ => ⟨fun hm s'' hs => by cases h.symm.trans hs; exact hm,
          fun hm => hm s' h⟩)
    | .error e =>
      decidable_of_iff (ok s a)
        ⟨fun hok => ⟨hok, fun s' hs => by cases h.symm.trans hs⟩, fun hm => hm.1⟩

/-- A run that gets to its end gets there through its first step. -/
theorem run_cons_eq_ok {a : α} {as : List α} {s s' : σ}
    (h : run step (a :: as) s = .ok s') :
    ∃ s₁, step s a = .ok s₁ ∧ run step as s₁ = .ok s' := by
  rw [run] at h
  cases hstep : step s a with
  | error e =>
    rw [hstep] at h
    cases h
  | ok s₁ =>
    rw [hstep] at h
    exact ⟨s₁, rfl, h⟩

/-- A run goes on behind its first part. -/
theorem run_append {as bs : List α} {s s' : σ} (h : run step as s = .ok s') :
    run step (as ++ bs) s = run step bs s' := by
  induction as generalizing s with
  | nil =>
    cases h
    rfl
  | cons a as ih =>
    obtain ⟨s₁, hs₁, hrest⟩ := run_cons_eq_ok h
    rw [List.cons_append, run, hs₁]
    exact ih hrest

/-- A run that meets the condition meets it on a first part, and goes on meeting it. -/
theorem meets_append {ok : σ → α → Prop} {as bs : List α} {s : σ}
    (h : Meets step ok (as ++ bs) s) :
    Meets step ok as s ∧ ∀ s', run step as s = .ok s' → Meets step ok bs s' := by
  induction as generalizing s with
  | nil =>
    refine ⟨trivial, fun s' hs => ?_⟩
    cases hs
    exact h
  | cons a as ih =>
    refine ⟨⟨h.1, fun s₁ hs₁ => (ih (h.2 s₁ hs₁)).1⟩, fun s' hs => ?_⟩
    obtain ⟨s₁, hs₁, hrest⟩ := run_cons_eq_ok hs
    exact (ih (h.2 s₁ hs₁)).2 s' hrest

/-- **The simulation rule**: where every step that meets the condition keeps a relation
between the state and an abstract one that follows the actions by `effect`, the relation
holds at the end of every run whose steps all meet it. -/
theorem run_simulates {γ : Type} (effect : α → γ → γ) (rel : σ → γ → Prop)
    {ok : σ → α → Prop}
    (hstep : ∀ s c a s', rel s c → ok s a → step s a = .ok s' → rel s' (effect a c))
    {as : List α} {s s' : σ} {c : γ} (hs : rel s c) (hm : Meets step ok as s)
    (h : run step as s = .ok s') : rel s' (as.foldl (fun c a => effect a c) c) := by
  induction as generalizing s c with
  | nil =>
    obtain rfl : s = s' := by
      rw [run] at h
      cases h
      rfl
    exact hs
  | cons a as ih =>
    obtain ⟨s₁, hs₁, hrest⟩ := run_cons_eq_ok h
    exact ih (hstep s c a s₁ hs hm.1 hs₁) (hm.2 s₁ hs₁) hrest

/-- **The invariant rule**: what holds at first, and is kept by every step that meets the
condition, holds at the end of every run whose steps all meet it. -/
theorem run_invariant (inv : σ → Prop) {ok : σ → α → Prop}
    (hstep : ∀ s a s', inv s → ok s a → step s a = .ok s' → inv s') {as : List α} {s s' : σ}
    (hs : inv s) (hm : Meets step ok as s) (h : run step as s = .ok s') : inv s' :=
  run_simulates (fun _ (c : Unit) => c) (fun s _ => inv s)
    (fun s _ a s' => hstep s a s') (c := ()) hs hm h

/-- A run that meets a condition meets a weaker one. -/
theorem Meets.mono {ok ok' : σ → α → Prop} (h : ∀ s a, ok s a → ok' s a) {as : List α} {s : σ}
    (hm : Meets step ok as s) : Meets step ok' as s := by
  induction as generalizing s with
  | nil => trivial
  | cons a as ih => exact ⟨h s a hm.1, fun s' hs => ih (hm.2 s' hs)⟩

/-- **The exact condition of an invariant**: where a step keeps it just if the step meets a
condition, it holds throughout a run just if all steps of the run meet the condition. -/
theorem throughout_iff_meets (inv : σ → Prop) {ok : σ → α → Prop}
    (hstep : ∀ s a s', inv s → step s a = .ok s' → (inv s' ↔ ok s a)) {as : List α} {s s' : σ}
    (hs : inv s) (h : run step as s = .ok s') :
    Throughout step inv as s ↔ Meets step ok as s := by
  induction as generalizing s with
  | nil => exact iff_of_true hs trivial
  | cons a as ih =>
    obtain ⟨s₁, hs₁, hrest⟩ := run_cons_eq_ok h
    constructor
    · intro hall
      have htail := hall.2 s₁ hs₁
      have hinv : inv s₁ := by
        cases as with
        | nil => exact htail
        | cons b bs => exact htail.1
      refine ⟨(hstep s a s₁ hs hs₁).mp hinv, fun s₂ hs₂ => ?_⟩
      cases hs₁.symm.trans hs₂
      exact (ih hinv hrest).mp htail
    · intro hm
      have hinv : inv s₁ := (hstep s a s₁ hs hs₁).mpr hm.1
      refine ⟨hs, fun s₂ hs₂ => ?_⟩
      cases hs₁.symm.trans hs₂
      exact (ih hinv hrest).mpr (hm.2 s₁ hs₁)

/-- **The progress rule**: where every step that meets the condition can be taken and keeps
an invariant, a run that meets it gets to its end. -/
theorem run_total {ok : σ → α → Prop} (inv : σ → Prop)
    (hstep : ∀ s a, inv s → ok s a → ∃ s', step s a = .ok s' ∧ inv s') {as : List α} {s : σ}
    (hs : inv s) (hm : Meets step ok as s) : ∃ s', run step as s = .ok s' ∧ inv s' := by
  induction as generalizing s with
  | nil => exact ⟨s, rfl, hs⟩
  | cons a as ih =>
    obtain ⟨s₁, hs₁, hinv⟩ := hstep s a hs hm.1
    obtain ⟨s', hrun, hinv'⟩ := ih hinv (hm.2 s₁ hs₁)
    refine ⟨s', ?_, hinv'⟩
    rw [run, hs₁]
    exact hrun

/-! ## What the steps answer -/

section Observed

variable {β γ : Type}

/-- The answers to actions, one after the other. -/
def observe (step : σ → α → Except ε (β × σ)) : List α → σ → Except ε (List β)
  | [], _ => .ok []
  | a :: as, s =>
    match step s a with
    | .ok (b, s') => (observe step as s').map (b :: ·)
    | .error e => .error e

/-- The answers of a reference, which answers every action. -/
def answers (reference : γ → α → β × γ) : List α → γ → List β
  | [], _ => []
  | a :: as, c => (reference c a).1 :: answers reference as (reference c a).2

/-- Every action of the reference's run meets the condition `ok`. -/
def ReferenceMeets (reference : γ → α → β × γ) (ok : γ → α → Prop) : List α → γ → Prop
  | [], _ => True
  | a :: as, c => ok c a ∧ ReferenceMeets reference ok as (reference c a).2

/-- **The rule of answers**: where a step gives the answer of a reference, and keeps a relation to
it, just when the step meets a condition, a run gives the answers of the reference just when all its
steps meet the condition. -/
theorem observe_eq_iff {step : σ → α → Except ε (β × σ)} {reference : γ → α → β × γ}
    {ok : γ → α → Prop} (rel : σ → γ → Prop)
    (hagree : ∀ s c a, rel s c → ok c a →
      ∃ s', step s a = .ok ((reference c a).1, s') ∧ rel s' (reference c a).2)
    (hdiffer : ∀ s c a s', rel s c → step s a = .ok ((reference c a).1, s') → ok c a)
    (as : List α) {s : σ} {c : γ} (hs : rel s c) :
    observe step as s = .ok (answers reference as c) ↔ ReferenceMeets reference ok as c := by
  induction as generalizing s c with
  | nil => exact iff_of_true rfl trivial
  | cons a as ih =>
    rw [observe, answers, ReferenceMeets]
    constructor
    · intro h
      cases hstep : step s a with
      | error e =>
        rw [hstep] at h
        cases h
      | ok r =>
        obtain ⟨b, s'⟩ := r
        rw [hstep] at h
        dsimp only at h
        cases hrest : observe step as s' with
        | error e =>
          rw [hrest] at h
          cases h
        | ok bs =>
          rw [hrest] at h
          obtain ⟨hb, hbs⟩ := List.cons.inj (Except.ok.inj h)
          have hok := hdiffer s c a s' hs (hb ▸ hstep)
          obtain ⟨s'', hsame, hrel⟩ := hagree s c a hs hok
          obtain rfl : s'' = s' := (Prod.ext_iff.mp (Except.ok.inj (hsame.symm.trans hstep))).2
          exact ⟨hok, (ih hrel).mp (hbs ▸ hrest)⟩
    · rintro ⟨hok, hrest⟩
      obtain ⟨s', hstep, hrel⟩ := hagree s c a hs hok
      rw [hstep]
      dsimp only
      rw [(ih hrel).mpr hrest]
      rfl

end Observed

/-! ## Systems that choose -/

/-- What steps of a relation lead to, one step for each action. -/
inductive Leads {γ : Type} (Step : γ → α → γ → Prop) : List α → γ → γ → Prop
  | nil (c : γ) : Leads Step [] c c
  | cons {a : α} {as : List α} {c c₁ c' : γ} (h : Step c a c₁) (hrest : Leads Step as c₁ c') :
      Leads Step (a :: as) c c'

/-- **The simulation rule for a choice**: where every step that meets the condition has an abstract
step with the same action that keeps the relation, every run whose steps all meet it has an abstract
run with the same actions. -/
theorem run_refines {γ : Type} (Step : γ → α → γ → Prop) (rel : σ → γ → Prop) {ok : σ → α → Prop}
    (hstep : ∀ s c a s', rel s c → ok s a → step s a = .ok s' → ∃ c', Step c a c' ∧ rel s' c')
    {as : List α} {s s' : σ} {c : γ} (hs : rel s c) (hm : Meets step ok as s)
    (h : run step as s = .ok s') : ∃ c', Leads Step as c c' ∧ rel s' c' := by
  induction as generalizing s c with
  | nil =>
    obtain rfl : s = s' := by
      rw [run] at h
      cases h
      rfl
    exact ⟨c, .nil c, hs⟩
  | cons a as ih =>
    obtain ⟨s₁, hs₁, hrest⟩ := run_cons_eq_ok h
    obtain ⟨c₁, hfirst, hrel⟩ := hstep s c a s₁ hs hm.1 hs₁
    obtain ⟨c', hleads, hend⟩ := ih hrel (hm.2 s₁ hs₁) hrest
    exact ⟨c', .cons hfirst hleads, hend⟩

end Runs

end IspSession.Library
