import IspSession.Library.Ownership
import Mathlib.Data.List.Induction
import Mathlib.Data.Set.Piecewise

/-!
# Parts of a program that stay with their own records

`ActsWithin` says in one equation that a part of a program reads and writes the records that its
state owns, and those under the ids it draws, and no others: whatever the rest of the store is, the
part answers the same and leaves the rest as it is. Parts of this kind are put together to such
parts. Agents whose events are of this kind do not notice each other: each of them is at every time
what its own events make of it alone, where somebody else may draw ids in between (`seen_alone`).
-/

set_option autoImplicit false

namespace IspSession.Library

open scoped Classical

/-! ## States with a store -/

/-- A state that has a store, the number of ids drawn so far, and ids of its own. -/
structure StoreView (S I R : Type) where
  store : S → I → Option R
  put : S → (I → Option R) → S
  drawn : S → ℕ
  owns : S → I → Prop
  store_put : ∀ x d, store (put x d) = d
  put_store : ∀ x, put x (store x) = x
  put_put : ∀ x d d', put (put x d) d' = put x d'
  drawn_put : ∀ x d, drawn (put x d) = drawn x
  owns_put : ∀ x d, owns (put x d) = owns x

namespace StoreView

variable {S I R α β ε : Type} (V : StoreView S I R) (ids : ℕ → I)

/-- The ids that are the state's own, or drawn on the way to another state. -/
def Reach (x y : S) : Set I :=
  {id | V.owns x id ∨ ∃ k, V.drawn x ≤ k ∧ k < V.drawn y ∧ ids k = id}

/-- The state amid other records: these ones outside the ids. -/
noncomputable def amid (A : Set I) (d : I → Option R) (x : S) : S :=
  V.put x (A.piecewise (V.store x) d)

/-- **A part that stays with its own records**, when it starts in `x`. -/
structure ActsWithin (f : S → α × S) (x : S) : Prop where
  drawn : V.drawn x ≤ V.drawn (f x).2
  owns : ∀ id, V.owns (f x).2 id → id ∈ V.Reach ids x (f x).2
  frame : ∀ A, V.Reach ids x (f x).2 ⊆ A → ∀ d, f (V.amid A d x) = ((f x).1, V.amid A d (f x).2)

variable {V} {ids} {x y z : S} {A : Set I} {d : I → Option R}

theorem store_amid : V.store (V.amid A d x) = A.piecewise (V.store x) d := V.store_put _ _

theorem amid_self : V.amid A (V.store x) x = x := by
  rw [amid, Set.piecewise_same, V.put_store]

/-- INTERNAL: a record under one of the ids. -/
theorem store_amid_of_mem {id : I} (hid : id ∈ A) : V.store (V.amid A d x) id = V.store x id := by
  rw [store_amid, Set.piecewise_eq_of_mem _ _ _ hid]

/-- INTERNAL: what is reached on the first part of the way. -/
theorem reach_left (hle : V.drawn y ≤ V.drawn z) : V.Reach ids x y ⊆ V.Reach ids x z := by
  rintro id (hown | ⟨k, hk, hlt, hid⟩)
  · exact .inl hown
  · exact .inr ⟨k, hk, Nat.lt_of_lt_of_le hlt hle, hid⟩

/-- INTERNAL: what is reached on the second part of the way. -/
theorem reach_right (hle : V.drawn x ≤ V.drawn y) (hle' : V.drawn y ≤ V.drawn z)
    (howns : ∀ id, V.owns y id → id ∈ V.Reach ids x y) : V.Reach ids y z ⊆ V.Reach ids x z := by
  rintro id (hown | ⟨k, hk, hlt, hid⟩)
  · exact reach_left hle' (howns id hown)
  · exact .inr ⟨k, Nat.le_trans hle hk, hlt, hid⟩

/-- **What is not reached is not touched.** -/
theorem ActsWithin.untouched {f : S → α × S} (h : V.ActsWithin ids f x) {id : I}
    (hid : id ∉ V.Reach ids x (f x).2) : V.store (f x).2 id = V.store x id := by
  have hframe := h.frame _ subset_rfl (V.store x)
  rw [amid_self] at hframe
  have hstore := congrArg (fun r => V.store r.2 id) hframe
  dsimp only at hstore
  rw [store_amid, Set.piecewise_eq_of_notMem _ _ _ hid] at hstore
  exact hstore

/-! ## How parts are put together -/

/-- A part that does not use the store. -/
theorem actsWithin_step {g : S → S} (r : α) (hput : ∀ d, g (V.put x d) = V.put (g x) d)
    (hstore : V.store (g x) = V.store x) (hdrawn : V.drawn x ≤ V.drawn (g x))
    (howns : ∀ id, V.owns (g x) id → id ∈ V.Reach ids x (g x)) :
    V.ActsWithin ids (fun x => (r, g x)) x where
  drawn := hdrawn
  owns := howns
  frame A _ d := by
    dsimp only
    rw [amid, hput, amid, hstore]

/-- A part that only answers. -/
theorem actsWithin_answer (r : α) : V.ActsWithin ids (fun x => (r, x)) x :=
  actsWithin_step r (fun _ => rfl) rfl (Nat.le_refl _) fun _ h => .inl h

/-- A part that writes records of its own. -/
theorem actsWithin_write {w : (I → Option R) → I → Option R} (r : α)
    (hw : ∀ A : Set I, (∀ id, V.owns x id → id ∈ A) → ∀ s d : I → Option R,
      w (A.piecewise s d) = A.piecewise (w s) d) :
    V.ActsWithin ids (fun x => (r, V.put x (w (V.store x)))) x where
  drawn := (V.drawn_put _ _).ge
  owns id h := .inl (V.owns_put x _ ▸ h)
  frame A hA d := by
    dsimp only
    rw [store_amid, hw A (fun id hid => hA (.inl hid)), amid, amid, V.put_put, V.put_put,
      V.store_put]

/-- A part that depends on what it reads of its own records. -/
theorem ActsWithin.read {v : S → β} {f : β → S → α × S}
    (hv : ∀ A : Set I, (∀ id, V.owns x id → id ∈ A) → ∀ d, v (V.amid A d x) = v x)
    (hf : V.ActsWithin ids (f (v x)) x) : V.ActsWithin ids (fun x => f (v x) x) x where
  drawn := hf.drawn
  owns := hf.owns
  frame A hA d := by
    rw [hv A (fun id hid => hA (.inl hid)) d]
    exact hf.frame A hA d

/-- A part behind another one. -/
theorem ActsWithin.bind {f : S → α × S} {g : α → S → β × S} (hf : V.ActsWithin ids f x)
    (hg : V.ActsWithin ids (g (f x).1) (f x).2) :
    V.ActsWithin ids (fun x => g (f x).1 (f x).2) x where
  drawn := Nat.le_trans hf.drawn hg.drawn
  owns id h := reach_right hf.drawn hg.drawn hf.owns (hg.owns id h)
  frame A hA d := by
    rw [hf.frame A ((reach_left hg.drawn).trans hA) d]
    exact hg.frame A ((reach_right hf.drawn hg.drawn hf.owns).trans hA) d

/-- A part behind a step. -/
theorem ActsWithin.before {f : S → α × S} {g : S → S} {r : β}
    (hg : V.ActsWithin ids (fun x => (r, g x)) x) (hf : V.ActsWithin ids f (g x)) :
    V.ActsWithin ids (fun x => f (g x)) x :=
  hg.bind (g := fun _ => f) hf

/-- The same part in other words. -/
theorem ActsWithin.congr {f g : S → α × S} (hf : V.ActsWithin ids f x) (hsame : ∀ x, f x = g x) :
    V.ActsWithin ids g x :=
  funext hsame ▸ hf

/-- A part behind another one, unless that one throws. -/
theorem ActsWithin.andThen {f : S → Except ε Unit × S} {g h : S → Except ε α × S}
    (hf : V.ActsWithin ids f x) (hg : ∀ y, V.ActsWithin ids g y)
    (herror : ∀ x e y, f x = (.error e, y) → h x = (.error e, y))
    (hok : ∀ x y, f x = (.ok (), y) → h x = g y) : V.ActsWithin ids h x := by
  have hbind := hf.bind (g := fun r y => r.casesOn (fun e => (.error e, y)) fun _ => g y) (by
    cases (f x).1 with
    | error e => exact actsWithin_answer (.error e : Except ε α)
    | ok u => exact hg _)
  refine hbind.congr fun x => ?_
  cases hrun : f x with
  | mk r y =>
    cases r with
    | error e => exact (herror x e y hrun).symm
    | ok u => exact (hok x y hrun).symm

/-- A part with another answer. -/
theorem ActsWithin.mapAnswer {f : S → α × S} (g : α → β) (hf : V.ActsWithin ids f x) :
    V.ActsWithin ids (fun x => (g (f x).1, (f x).2)) x :=
  hf.bind (g := fun r y => (g r, y)) (actsWithin_answer (g (f x).1))

/-- A part in two branches. -/
theorem ActsWithin.ite {c : S → Bool} {f g : S → α × S} (hc : ∀ A d, c (V.amid A d x) = c x)
    (hf : V.ActsWithin ids f x) (hg : V.ActsWithin ids g x) :
    V.ActsWithin ids (fun x => if c x then f x else g x) x := by
  refine ActsWithin.read (f := fun b x => if b then f x else g x) (fun A _ d => hc A d) ?_
  cases c x with
  | true => exact hf
  | false => exact hg

/-! ## A state inside of another one -/

variable {T : Type} {W : StoreView T I R} {out : S → T} {back : α → T → S → S}

/-- A state with the same store is taken out of a state, and what becomes of it is put back with
an answer. -/
structure Inside (V : StoreView S I R) (W : StoreView T I R) (out : S → T) (back : α → T → S → S)
    (x : S) : Prop where
  store_out : W.store (out x) = V.store x
  drawn_out : W.drawn (out x) = V.drawn x
  out_put : ∀ d, out (V.put x d) = W.put (out x) d
  owns_out : ∀ id, W.owns (out x) id → V.owns x id
  drawn_back : ∀ r y, V.drawn (back r y x) = W.drawn y
  back_put : ∀ r y d d', back r (W.put y d) (V.put x d') = V.put (back r y x) d

/-- INTERNAL: the store of what is put back. -/
theorem Inside.store_back (h : Inside V W out back x) (r : α) (y : T) :
    V.store (back r y x) = W.store y := by
  have hsame := h.back_put r y (W.store y) (V.store x)
  rw [W.put_store, V.put_store] at hsame
  rw [hsame, V.store_put]

/-- A part of the state that is inside: the outer one must know what it gets back. -/
theorem Inside.actsWithin (h : Inside V W out back x) {f : T → α × T}
    (hf : W.ActsWithin ids f (out x))
    (howns : ∀ id, V.owns (back (f (out x)).1 (f (out x)).2 x) id →
      W.owns (f (out x)).2 id ∨ V.owns x id) :
    V.ActsWithin ids (fun x => ((), back (f (out x)).1 (f (out x)).2 x)) x := by
  have hreach : W.Reach ids (out x) (f (out x)).2 ⊆
      V.Reach ids x (back (f (out x)).1 (f (out x)).2 x) := by
    rintro id (hown | ⟨k, hk, hlt, hid⟩)
    · exact .inl (h.owns_out id hown)
    · exact .inr ⟨k, h.drawn_out ▸ hk, lt_of_lt_of_eq hlt (h.drawn_back _ _).symm, hid⟩
  refine ⟨?_, fun id hid => ?_, fun A hA d => ?_⟩
  · calc V.drawn x = W.drawn (out x) := h.drawn_out.symm
      _ ≤ W.drawn (f (out x)).2 := hf.drawn
      _ = _ := (h.drawn_back _ _).symm
  · exact (howns id hid).elim (fun hown => hreach (hf.owns id hown)) .inl
  · have hout : out (V.amid A d x) = W.amid A d (out x) := by
      rw [amid, amid, h.out_put, h.store_out]
    dsimp only
    rw [hout, hf.frame A (hreach.trans hA) d, amid, amid, amid, h.back_put, h.store_back]

end StoreView

/-! ## Agents that take turns -/

/-- An agent at its turn, with the store. -/
structure Turn (P I R : Type) where
  store : I → Option R
  drawn : ℕ
  agent : P

variable {V P I R E : Type}

/-- An agent at its turn as a state with a store. -/
def turnView (owns : P → I → Prop) : StoreView (Turn P I R) I R where
  store t := t.store
  put t d := { t with store := d }
  drawn t := t.drawn
  owns t := owns t.agent
  store_put _ _ := rfl
  put_store _ := rfl
  put_put _ _ _ := rfl
  drawn_put _ _ := rfl
  owns_put _ _ := rfl

/-- What happens to an agent that is alone: events of its own, and somebody draws ids. -/
def Turn.alone (act : Turn P I R → E → Turn P I R) (t : Turn P I R) : E ⊕ ℕ → Turn P I R
  | .inl e => act t e
  | .inr n => { t with drawn := t.drawn + n }

namespace Shared

/-- It is an agent's turn. -/
def turn (s : Shared V P I R) (v : V) : Turn P I R := ⟨s.store, s.drawn, s.agent v⟩

variable [DecidableEq V]

/-- The turn is over. -/
def after (s : Shared V P I R) (v : V) (t : Turn P I R) : Shared V P I R :=
  ⟨t.store, t.drawn, Function.update s.agent v t.agent⟩

/-- An event of one of the agents. -/
def step (act : Turn P I R → E → Turn P I R) (s : Shared V P I R) (e : V × E) : Shared V P I R :=
  s.after e.1 (act (s.turn e.1) e.2)

/-- The events of one agent. -/
def ownEvents (v : V) (events : List (V × E)) : List E :=
  (events.filter fun e => e.1 = v).map Prod.snd

/-- Two stores have the same records under an agent's ids. -/
def Agrees (owns : P → I → Prop) (store : I → Option R) (q : P) (own : I → Option R) : Prop :=
  ∀ id, owns q id → own id = store id

/-- Every agent is what its own events have made of it, in a store of its own. -/
structure SeenAlone (ids : ℕ → I) (owns : P → I → Prop) (act : Turn P I R → E → Turn P I R)
    (s₀ : Shared V P I R) (events : List (V × E)) (s : Shared V P I R)
    (own : V → I → Option R) : Prop where
  kept : Kept ids owns (Agrees owns) s own
  stored : ∀ v id, own v id ≠ none → Drawn ids s id
  alone : ∀ v, ∃ es : List (E ⊕ ℕ), es.filterMap Sum.getLeft? = ownEvents v events ∧
    es.foldl (Turn.alone act) (s₀.turn v) = ⟨own v, s.drawn, s.agent v⟩

variable {ids : ℕ → I} {owns : P → I → Prop} {act : Turn P I R → E → Turn P I R}
  {s₀ s : Shared V P I R} {events : List (V × E)} {own : V → I → Option R}

/-- INTERNAL: records under other ids do not matter. -/
theorem local_agrees : Local owns (Agrees owns : (I → Option R) → P → (I → Option R) → Prop) :=
  fun _ _ _ _ hsame hagrees id hid => (hagrees id hid).trans (hsame id hid).symm

/-- INTERNAL: one more event. -/
theorem ownEvents_append (v : V) (e : V × E) :
    ownEvents v (events ++ [e]) = ownEvents v events ++ if e.1 = v then [e.2] else [] := by
  unfold ownEvents
  rw [List.filter_append, List.map_append]
  by_cases hv : e.1 = v
  · rw [List.filter_cons_of_pos (by simpa using hv), if_pos hv]
    rfl
  · rw [List.filter_cons_of_neg (by simpa using hv), if_neg hv]
    rfl

/-- **One event**: it is one of the agent whose turn it is, and for the others somebody draws
ids. -/
theorem SeenAlone.step (h : SeenAlone ids owns act s₀ events s own) {e : V × E}
    (hact : (turnView owns).ActsWithin ids (fun t => ((), act t e.2)) (s.turn e.1))
    (hids : Set.InjOn ids {k | k < (s.step act e).drawn}) :
    ∃ own', SeenAlone ids owns act s₀ (events ++ [e]) (s.step act e) own' := by
  obtain ⟨v, e⟩ := e
  set t := s.turn v with ht
  set u := act t e with hu
  set A := (turnView owns).Reach ids t u with hA
  have hle : s.drawn ≤ u.drawn := hact.drawn
  have hnew : ∀ id, id ∈ A → ¬ owns (s.agent v) id → DrawnSince ids s (s.step act (v, e)) id := by
    rintro id (hown | ⟨k, hk, hlt, hid⟩) hnot
    · exact absurd hown hnot
    · exact ⟨k, hk, hlt, hid⟩
  -- the agent's own store differs outside the ids it reaches only
  have hamid : (⟨own v, s.drawn, s.agent v⟩ : Turn P I R) = (turnView owns).amid A (own v) t := by
    refine congrArg (fun d => (⟨d, s.drawn, s.agent v⟩ : Turn P I R)) (funext fun id => ?_)
    change own v id = A.piecewise s.store (own v) id
    by_cases hid : id ∈ A
    · rw [Set.piecewise_eq_of_mem _ _ _ hid]
      by_cases hown : owns (s.agent v) id
      · exact h.kept.each v id hown
      · have hfresh : ¬ Drawn ids s id := (hnew id hid hown).not_drawn hids
        have hnone : own v id = none := by
          by_contra hsome
          exact hfresh (h.stored v id hsome)
        have hnone' : s.store id = none := by
          by_contra hsome
          exact hfresh (h.kept.stored id hsome)
        rw [hnone, hnone']
    · rw [Set.piecewise_eq_of_notMem _ _ _ hid]
  have hacted : act ⟨own v, s.drawn, s.agent v⟩ e = (turnView owns).amid A (own v) u := by
    rw [hamid]
    exact congrArg Prod.snd (hact.frame A subset_rfl (own v))
  have hdrawn : ∀ id, A.piecewise u.store (own v) id ≠ none →
      Drawn ids (s.step act (v, e)) id := by
    intro id hsome
    by_cases hid : id ∈ A
    · by_cases hown : owns (s.agent v) id
      · exact (h.kept.known v id hown).mono hle
      · exact (hnew id hid hown).drawn
    · rw [Set.piecewise_eq_of_notMem _ _ _ hid] at hsome
      exact (h.stored v id hsome).mono hle
  have hacts : Acts ids owns s (s.step act (v, e)) v := by
    refine ⟨hle, fun w hw => Function.update_of_ne hw _ _, fun id hid => ?_, fun id hid => ?_⟩
    · have hagent : (s.step act (v, e)).agent v = u.agent := Function.update_self ..
      rw [hagent] at hid
      exact or_iff_not_imp_left.mpr fun hnot => hnew id (hact.owns id hid) hnot
    · by_cases hreach : id ∈ A
      · exact or_iff_not_imp_left.mpr fun hnot => hnew id hreach hnot
      · exact absurd (hact.untouched hreach) hid
  refine ⟨Function.update own v (A.piecewise u.store (own v)),
    h.kept.act local_agrees hids hacts fun id hid => ?_, fun w id hsome => ?_, fun w => ?_⟩
  · have hagent : (s.step act (v, e)).agent v = u.agent := Function.update_self ..
    rw [hagent] at hid
    exact Set.piecewise_eq_of_mem _ _ _ (hact.owns id hid)
  · by_cases hw : w = v
    · subst hw
      rw [Function.update_self] at hsome
      exact hdrawn id hsome
    · rw [Function.update_of_ne hw] at hsome
      exact (h.stored w id hsome).mono hle
  · obtain ⟨es, hown, hrun⟩ := h.alone w
    by_cases hw : w = v
    · subst hw
      refine ⟨es ++ [.inl e], ?_, ?_⟩
      · rw [List.filterMap_append, hown, ownEvents_append, if_pos rfl]
        rfl
      · rw [List.foldl_append, hrun, Function.update_self]
        change act ⟨own w, s.drawn, s.agent w⟩ e = _
        rw [hacted, show (s.step act (w, e)).agent w = u.agent from Function.update_self ..]
        rfl
    · refine ⟨es ++ [.inr (u.drawn - s.drawn)], ?_, ?_⟩
      · rw [List.filterMap_append, hown, ownEvents_append, if_neg (Ne.symm hw)]
        rfl
      · rw [List.foldl_append, hrun, Function.update_of_ne hw,
          show (s.step act (v, e)).agent w = s.agent w from Function.update_of_ne hw ..]
        change (⟨own w, s.drawn + (u.drawn - s.drawn), s.agent w⟩ : Turn P I R) =
          ⟨own w, u.drawn, _⟩
        rw [Nat.add_sub_cancel' hle]

/-- **Agents that stay with their own records do not notice each other**: in every run each of them
is what its own events make of it where nobody else uses the store. -/
theorem seen_alone (hact : ∀ e ∈ events, ∀ t,
      (turnView owns).ActsWithin ids (fun t => ((), act t e.2)) t)
    (hstart : Kept ids owns (Agrees owns) s₀ fun _ => s₀.store)
    (hids : Set.InjOn ids {k | k < (events.foldl (step act) s₀).drawn}) :
    ∃ own, SeenAlone ids owns act s₀ events (events.foldl (step act) s₀) own := by
  induction events using List.reverseRecOn with
  | nil =>
    exact ⟨fun _ => s₀.store, hstart, fun _ id hsome => hstart.stored id hsome,
      fun v => ⟨[], rfl, rfl⟩⟩
  | append_singleton events e ih =>
    rw [List.foldl_append] at hids ⊢
    have hbefore : ∀ e' ∈ events, ∀ t,
        (turnView owns).ActsWithin ids (fun t => ((), act t e'.2)) t :=
      fun e' he' => hact e' (List.mem_append_left _ he')
    have hlast := hact e (List.mem_append_right _ (List.mem_singleton_self e))
    have hle : (events.foldl (Shared.step act) s₀).drawn ≤
        ((events.foldl (Shared.step act) s₀).step act e).drawn :=
      (hlast ((events.foldl (Shared.step act) s₀).turn e.1)).drawn
    obtain ⟨own, hown⟩ := ih hbefore (hids.mono fun k hk => Nat.lt_of_lt_of_le hk hle)
    exact hown.step (hlast _) hids

/-- **Agents that stay with their own records**, from a start at which they have none: each of them
and its records are what its own events make of them alone. -/
theorem apart_alone (hact : ∀ e ∈ events, ∀ t,
      (turnView owns).ActsWithin ids (fun t => ((), act t e.2)) t)
    (hnone : ∀ id, s₀.store id = none) (hnew : ∀ v id, ¬ owns (s₀.agent v) id)
    (hids : Set.InjOn ids {k | k < (events.foldl (step act) s₀).drawn}) (v : V) :
    ∃ es : List (E ⊕ ℕ), es.filterMap Sum.getLeft? = ownEvents v events ∧
      (es.foldl (Turn.alone act) (s₀.turn v)).agent = (events.foldl (step act) s₀).agent v ∧
      ∀ id, owns ((events.foldl (step act) s₀).agent v) id →
        (es.foldl (Turn.alone act) (s₀.turn v)).store id =
          (events.foldl (step act) s₀).store id := by
  have hstart : Kept ids owns (Agrees owns) s₀ fun _ => s₀.store :=
    ⟨fun _ _ _ => rfl, fun v _ id hown => absurd hown (hnew v id),
      fun v id hown => absurd hown (hnew v id), fun id hsome => absurd (hnone id) hsome⟩
  obtain ⟨own, hown⟩ := seen_alone hact hstart hids
  obtain ⟨es, hes, halone⟩ := hown.alone v
  refine ⟨es, hes, ?_, fun id hid => ?_⟩
  · rw [halone]
  · rw [halone]
    exact hown.kept.each v id hid

end Shared

end IspSession.Library
