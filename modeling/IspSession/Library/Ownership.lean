import Mathlib.Data.Set.Function
import Mathlib.Logic.Function.Basic

/-!
# Agents that share a store

Records lie in a store under ids that are drawn one after the other. An agent owns some of the
ids, and what holds of it depends on the records under its own ids alone. `Acts` says that an
agent touches its own records only, and those under the ids it draws; `Kept.act` is the frame
rule: then everything that held of the other agents still holds.
-/

set_option autoImplicit false

namespace IspSession.Library

/-- The store, the number of ids drawn, and the agents that share it. -/
structure Shared (V P I R : Type) where
  store : I → Option R
  drawn : ℕ
  agent : V → P

namespace Shared

variable {V P I R γ : Type}

/-- What holds of an agent depends on its own records only. -/
def Local (owns : P → I → Prop) (rel : (I → Option R) → P → γ → Prop) : Prop :=
  ∀ (store store' : I → Option R) (q : P) (c : γ),
    (∀ id, owns q id → store' id = store id) → rel store q c → rel store' q c

section

variable (ids : ℕ → I) (owns : P → I → Prop) (rel : (I → Option R) → P → γ → Prop)

/-- An id among those drawn so far. -/
def Drawn (s : Shared V P I R) (id : I) : Prop := ∃ k < s.drawn, ids k = id

/-- An id that is drawn on the way from one state to the other. -/
def DrawnSince (s s' : Shared V P I R) (id : I) : Prop :=
  ∃ k, s.drawn ≤ k ∧ k < s'.drawn ∧ ids k = id

/-- Every agent is what its abstract state says, no id belongs to two agents, and nothing is
known of ids that are still to be drawn. -/
structure Kept (s : Shared V P I R) (a : V → γ) : Prop where
  each : ∀ v, rel s.store (s.agent v) (a v)
  apart : ∀ v w id, owns (s.agent v) id → owns (s.agent w) id → v = w
  known : ∀ v id, owns (s.agent v) id → Drawn ids s id
  stored : ∀ id, s.store id ≠ none → Drawn ids s id

/-- An agent acts on its own records and on those under the ids it draws. -/
structure Acts (s s' : Shared V P I R) (v : V) : Prop where
  drawn : s.drawn ≤ s'.drawn
  others : ∀ w, w ≠ v → s'.agent w = s.agent w
  owned : ∀ id, owns (s'.agent v) id → owns (s.agent v) id ∨ DrawnSince ids s s' id
  touched : ∀ id, s'.store id ≠ s.store id → owns (s.agent v) id ∨ DrawnSince ids s s' id

end

variable {ids : ℕ → I} {owns : P → I → Prop} {rel : (I → Option R) → P → γ → Prop}
variable {s s' : Shared V P I R} {a : V → γ} {v : V}

/-- INTERNAL: an id stays drawn. -/
theorem Drawn.mono {id : I} (h : Drawn ids s id) (hle : s.drawn ≤ s'.drawn) : Drawn ids s' id := by
  obtain ⟨k, hk, rfl⟩ := h
  exact ⟨k, Nat.lt_of_lt_of_le hk hle, rfl⟩

/-- INTERNAL: an id drawn later is drawn. -/
theorem DrawnSince.drawn {id : I} (h : DrawnSince ids s s' id) : Drawn ids s' id := by
  obtain ⟨k, -, hk, rfl⟩ := h
  exact ⟨k, hk, rfl⟩

/-- INTERNAL: where no id is drawn twice, none is drawn again. -/
theorem DrawnSince.not_drawn (hids : Set.InjOn ids {k | k < s'.drawn}) {id : I}
    (h : DrawnSince ids s s' id) : ¬ Drawn ids s id := by
  rintro ⟨j, hj, hsame⟩
  obtain ⟨k, hle, hlt, rfl⟩ := h
  have heq : j = k := hids (Nat.lt_trans (Nat.lt_of_lt_of_le hj hle) hlt) hlt hsame
  omega

/-- An agent that does nothing acts on its own records only. -/
theorem Acts.refl (s : Shared V P I R) (v : V) : Acts ids owns s s v :=
  ⟨Nat.le_refl _, fun _ _ => rfl, fun _ hid => .inl hid, fun _ hid => absurd rfl hid⟩

/-- INTERNAL: another agent's id is none that an agent touches. -/
theorem Kept.untouched (h : Kept ids owns rel s a) (hids : Set.InjOn ids {k | k < s'.drawn})
    (hacts : Acts ids owns s s' v) {w : V} (hw : w ≠ v) {id : I} (hid : owns (s.agent w) id) :
    s'.store id = s.store id := by
  by_contra htouched
  rcases hacts.touched id htouched with hown | hdrawn
  · exact hw (h.apart w v id hid hown)
  · exact hdrawn.not_drawn hids (h.known w id hid)

/-- **The frame rule**: an agent that acts on its own records, and does what its abstract state
does, leaves the other agents what they were. -/
theorem Kept.act [DecidableEq V] (h : Kept ids owns rel s a) (hlocal : Local owns rel)
    (hids : Set.InjOn ids {k | k < s'.drawn}) (hacts : Acts ids owns s s' v) {c : γ}
    (hrel : rel s'.store (s'.agent v) c) : Kept ids owns rel s' (Function.update a v c) := by
  have hknown : ∀ w id, owns (s'.agent w) id →
      owns (s.agent w) id ∨ (w = v ∧ DrawnSince ids s s' id) := by
    intro w id hid
    by_cases hw : w = v
    · subst hw
      exact (hacts.owned id hid).imp_right fun hdrawn => ⟨rfl, hdrawn⟩
    · rw [hacts.others w hw] at hid
      exact .inl hid
  refine ⟨fun w => ?_, fun w w' id hid hid' => ?_, fun w id hid => ?_, fun id hid => ?_⟩
  · by_cases hw : w = v
    · subst hw
      rw [Function.update_self]
      exact hrel
    · rw [Function.update_of_ne hw, hacts.others w hw]
      exact hlocal _ _ _ _ (fun id hid => h.untouched hids hacts hw hid) (h.each w)
  · rcases hknown w id hid with hown | ⟨rfl, hdrawn⟩
    · rcases hknown w' id hid' with hown' | ⟨-, hdrawn'⟩
      · exact h.apart w w' id hown hown'
      · exact absurd (h.known w id hown) (hdrawn'.not_drawn hids)
    · rcases hknown w' id hid' with hown' | ⟨hsame, -⟩
      · exact absurd (h.known w' id hown') (hdrawn.not_drawn hids)
      · exact hsame.symm
  · rcases hknown w id hid with hown | ⟨-, hdrawn⟩
    · exact (h.known w id hown).mono hacts.drawn
    · exact hdrawn.drawn
  · by_cases hsame : s'.store id = s.store id
    · exact (h.stored id (hsame ▸ hid)).mono hacts.drawn
    · rcases hacts.touched id hsame with hown | hdrawn
      · exact (h.known v id hown).mono hacts.drawn
      · exact hdrawn.drawn

/-- What happens to all records at once, and makes none, leaves every agent its ids: it is enough
that each is what its abstract state says. -/
theorem Kept.sweep (h : Kept ids owns rel s a) {store : I → Option R}
    (hnone : ∀ id, s.store id = none → store id = none) {a' : V → γ}
    (hrel : ∀ v, rel store (s.agent v) (a' v)) :
    Kept ids owns rel { s with store := store } a' :=
  ⟨hrel, h.apart, h.known, fun id hid => h.stored id (mt (hnone id) hid)⟩

end Shared

end IspSession.Library
