import Mathlib.Data.List.Basic
import Mathlib.Tactic.Ring
import Mathlib.Tactic.Linarith

/-!
# Walking a multi-dimensional index box with a carry loop

A box is a list of dimensions; an index vector holds one index per dimension. The
loop `walk` visits the vector while its first index is `inside` its dimension and
otherwise carries: from the left, a dimension whose index is not `below` its last
one is reset and the next dimension is tried (`carry`). Running out of dimensions
is an access past the end of the vectors and ends the loop with the error `oob`.

The dimensions, the indices and the three tests are parameters, so that any index
arithmetic can be plugged in. `Counts` says what the tests must satisfy for the
loop to be right: dimension `d` has `radix d` indices `index d 0, index d 1, …`.

* `walk_eq_sweep`: then the loop visits the vectors `indexAt 0, indexAt 1, …` in
  order, the first dimension varying fastest, each once, and runs off the end only when
  it has been told to find more vectors than there are.
* `walk_of_mem_visits`: a visit that fails (`visits` lists them) ends the loop with its error.
* `walk_counts`: a walk that ends has made as many visits as it was told to find.
* `walk_congr`: two visits that agree on the states the loop meets give the same walk.
* `walk_oob`: when the first dimension's lowest index is not `inside`, the loop
  visits nothing and runs off the end.
-/

set_option autoImplicit false

namespace IspSession.Library

/-- The index arithmetic of a carry loop over dimensions `δ` with indices `ι`. -/
structure Odometer (δ ι : Type) where
  /-- The lowest index of a dimension. -/
  lower : δ → ι
  /-- The successor of an index. -/
  next : ι → ι
  /-- Whether the index is still inside the dimension. -/
  inside : δ → ι → Bool
  /-- Whether the index is below the dimension's last one. -/
  below : δ → ι → Bool

namespace Odometer

variable {δ ι σ ε : Type} (O : Odometer δ ι)

/-- The carry over the dimensions right of the exhausted ones: the first one below
its last index is stepped, those before it are reset; `none` past the end. -/
def carryTail : List δ → List ι → Option (List ι)
  | d :: ds, i :: is =>
    if O.below d i then some (O.next i :: is)
    else (carryTail ds is).map (O.lower d :: ·)
  | _, _ => none

/-- One carry: the first dimension is reset, the ones right of it are carried into. -/
def carry : List δ → List ι → Option (List ι)
  | d :: ds, _ :: is => (carryTail O ds is).map (O.lower d :: ·)
  | _, _ => none

/-- The carry loop. `go` is the loop condition on the loop's state, `found` the
number of vectors visited so far, `total` the number at which the loop ends. -/
def walk (oob stuck : ε) (go : σ → Bool) (visit : List ι → σ → Except ε σ)
    (ds : List δ) (total : ℕ) : ℕ → List ι → ℕ → σ → Except ε σ
  | 0, _, _, _ => .error stuck
  | fuel + 1, is, found, s =>
    if go s then
      match ds, is with
      | d :: _, i :: is' =>
        if O.inside d i then do
          let s ← visit is s
          if found + 1 = total then pure s
          else walk oob stuck go visit ds total fuel (O.next i :: is') (found + 1) s
        else
          match O.carry ds is with
          | some is => walk oob stuck go visit ds total fuel is found s
          | none => .error oob
      | _, _ => .error oob
    else pure s

/-- The visits of the carry loop: the index vector and the state of each. -/
def visits (go : σ → Bool) (visit : List ι → σ → Except ε σ) (ds : List δ) (total : ℕ) :
    ℕ → List ι → ℕ → σ → List (List ι × σ)
  | 0, _, _, _ => []
  | fuel + 1, is, found, s =>
    if go s then
      match ds, is with
      | d :: _, i :: is' =>
        if O.inside d i then
          (is, s) ::
            match visit is s with
            | .ok s =>
              if found + 1 = total then []
              else visits go visit ds total fuel (O.next i :: is') (found + 1) s
            | .error _ => []
        else
          match O.carry ds is with
          | some is => visits go visit ds total fuel is found s
          | none => []
      | _, _ => []
    else []

/-- Visiting a list of index vectors in order, as long as `go` holds. -/
def sweep (go : σ → Bool) (visit : List ι → σ → Except ε σ) :
    List (List ι) → σ → Except ε σ
  | [], s => pure s
  | is :: rest, s => if go s then visit is s >>= sweep go visit rest else pure s

/-- **The invariant rule of a sweep.** If on every vector the loop goes on and the visit
either ends in the error `e` or takes the invariant from one number to the next, then
the sweep ends in `e` or carries the invariant to the end. -/
theorem sweep_invariant (go : σ → Bool) (visit : List ι → σ → Except ε σ) (e : ε)
    (P : ℕ → σ → Prop) (vectors : List (List ι)) (k : ℕ)
    (hstep : ∀ is ∈ vectors, ∀ n s, n < k + vectors.length → P n s → go s = true ∧
      (visit is s = .error e ∨ ∃ s', visit is s = .ok s' ∧ P (n + 1) s'))
    {s : σ} (hs : P k s) :
    sweep go visit vectors s = .error e ∨
      ∃ s', sweep go visit vectors s = .ok s' ∧ P (k + vectors.length) s' := by
  induction vectors generalizing k s with
  | nil => exact .inr ⟨s, rfl, hs⟩
  | cons is rest ih =>
    obtain ⟨hgo, hvisit⟩ := hstep is (by simp) k s (by simp) hs
    simp only [sweep, hgo, if_true]
    rcases hvisit with he | ⟨s', hs', hP⟩
    · exact .inl (by rw [he]; rfl)
    · rw [hs']
      have hlen : k + 1 + rest.length = k + (is :: rest).length := by
        rw [List.length_cons]; omega
      have := ih (k + 1) (fun is his n s hn => hstep is (by simp [his]) n s (by omega)) hP
      rwa [hlen] at this

/-- What every visit keeps holds when a sweep has ended. -/
theorem sweep_keeps (go : σ → Bool) {visit : List ι → σ → Except ε σ} (P : σ → Prop)
    (hvisit : ∀ is s s', P s → visit is s = .ok s' → P s') {vectors : List (List ι)} {s s' : σ}
    (hs : P s) (h : sweep go visit vectors s = .ok s') : P s' := by
  induction vectors generalizing s with
  | nil =>
    cases h
    exact hs
  | cons is vectors ih =>
    rw [sweep] at h
    split at h
    · cases hstep : visit is s with
      | error e =>
        rw [hstep] at h
        cases h
      | ok s₁ =>
        rw [hstep] at h
        exact ih (hvisit is s s₁ hs hstep) h
    · cases h
      exact hs

/-- **The invariant rule of a walk**: what every visit keeps holds when the walk has ended. -/
theorem walk_keeps (oob stuck : ε) (go : σ → Bool) {visit : List ι → σ → Except ε σ}
    (P : σ → Prop) (hvisit : ∀ is s s', P s → visit is s = .ok s' → P s') {ds : List δ}
    {total fuel : ℕ} {is : List ι} {found : ℕ} {s s' : σ} (hs : P s)
    (h : O.walk oob stuck go visit ds total fuel is found s = .ok s') : P s' := by
  induction fuel generalizing is found s with
  | zero => cases h
  | succ fuel ih =>
    unfold walk at h
    split at h
    · split at h
      · split at h
        · rename_i i is' _
          cases hstep : visit (i :: is') s with
          | error e =>
            rw [hstep] at h
            cases h
          | ok s₁ =>
            rw [hstep] at h
            have hs₁ := hvisit _ _ _ hs hstep
            change (if found + 1 = total then pure s₁ else _) = _ at h
            split at h
            · cases h
              exact hs₁
            · exact ih hs₁ h
        · split at h
          · exact ih hs h
          · cases h
      · cases h
    · cases h
      exact hs

/-- **A walk that ends has made as many visits as it was told to find**, when nothing else ends it. -/
theorem walk_counts (oob stuck : ε) {visit : List ι → σ → Except ε σ} (visited : σ → ℕ)
    (hvisit : ∀ is s s', visit is s = .ok s' → visited s' = visited s + 1) {ds : List δ}
    {total fuel : ℕ} {is : List ι} {found : ℕ} {s s' : σ}
    (h : O.walk oob stuck (fun _ => true) visit ds total fuel is found s = .ok s') :
    visited s' + found = visited s + total := by
  induction fuel generalizing is found s with
  | zero => cases h
  | succ fuel ih =>
    unfold walk at h
    rw [if_pos rfl] at h
    split at h
    · split at h
      · rename_i i is' _
        cases hstep : visit (i :: is') s with
        | error e =>
          rw [hstep] at h
          cases h
        | ok s₁ =>
          have hone := hvisit _ _ _ hstep
          rw [hstep] at h
          change (if found + 1 = total then pure s₁ else _) = _ at h
          split at h
          · cases h
            omega
          · have hrest := ih h
            omega
      · split at h
        · exact ih h
        · cases h
    · cases h

/-- **A visit that fails ends the walk** with its error. -/
theorem walk_of_mem_visits (oob stuck : ε) (go : σ → Bool) {visit : List ι → σ → Except ε σ}
    {ds : List δ} {total : ℕ} {v : List ι × σ} {e : ε} (he : visit v.1 v.2 = .error e)
    (fuel : ℕ) {is : List ι} {found : ℕ} {s : σ}
    (hv : v ∈ O.visits go visit ds total fuel is found s) :
    O.walk oob stuck go visit ds total fuel is found s = .error e := by
  induction fuel generalizing is found s with
  | zero => cases hv
  | succ fuel ih =>
    unfold visits at hv
    unfold walk
    split at hv
    · rename_i hgo
      rw [if_pos hgo]
      cases ds with
      | nil => cases hv
      | cons d ds =>
        cases is with
        | nil => cases hv
        | cons i is =>
          dsimp only at hv ⊢
          split at hv
          · rename_i hin
            rw [if_pos hin]
            rcases List.mem_cons.mp hv with rfl | hv
            · rw [he]
              rfl
            · cases hstep : visit (i :: is) s with
              | error e' =>
                rw [hstep] at hv
                cases hv
              | ok s' =>
                rw [hstep] at hv
                dsimp only at hv
                split at hv
                · cases hv
                · rename_i hlast
                  change (if found + 1 = total then pure s' else _) = _
                  rw [if_neg hlast]
                  exact ih hv
          · rename_i hout
            rw [if_neg hout]
            split at hv
            · exact ih hv
            · cases hv
    · cases hv

/-- **Two visits that agree on every state the loop meets.** Where an invariant makes the visits
equal and is carried from one number to the next, the walks are equal, and one that ends with `go`
still true has found them all. -/
theorem walk_congr (oob stuck : ε) (go : σ → Bool) {visit visit' : List ι → σ → Except ε σ}
    (P : ℕ → σ → Prop) {ds : List δ} {total : ℕ}
    (hvisit : ∀ n s is, n < total → P n s → go s = true →
      visit is s = visit' is s ∧ ∀ s', visit is s = .ok s' → P (n + 1) s')
    (fuel : ℕ) {is : List ι} {found : ℕ} {s : σ} (hfound : found < total) (hs : P found s) :
    O.walk oob stuck go visit ds total fuel is found s =
        O.walk oob stuck go visit' ds total fuel is found s ∧
      ∀ s', O.walk oob stuck go visit ds total fuel is found s = .ok s' → go s' = true →
        P total s' := by
  induction fuel generalizing is found s with
  | zero => exact ⟨rfl, fun s' h => by cases h⟩
  | succ fuel ih =>
    cases hgo : go s with
    | false =>
      unfold walk
      rw [hgo]
      refine ⟨rfl, fun s' h hgo' => ?_⟩
      obtain rfl : s = s' := Except.ok.inj h
      rw [hgo] at hgo'
      cases hgo'
    | true =>
      unfold walk
      rw [hgo, if_pos rfl, if_pos rfl]
      cases ds with
      | nil => exact ⟨rfl, fun s' h => by cases h⟩
      | cons d ds =>
        cases is with
        | nil => exact ⟨rfl, fun s' h => by cases h⟩
        | cons i is =>
          dsimp only
          by_cases hin : O.inside d i = true
          · rw [if_pos hin, if_pos hin]
            obtain ⟨hsame, hnext⟩ := hvisit found s (i :: is) hfound hs hgo
            rw [← hsame]
            cases hstep : visit (i :: is) s with
            | error e => exact ⟨rfl, fun s' h => by cases h⟩
            | ok s₁ =>
              have hs₁ := hnext s₁ hstep
              have hbind : ∀ f : σ → Except ε σ, (Except.ok s₁ >>= f) = f s₁ := fun _ => rfl
              simp only [hbind]
              by_cases hlast : found + 1 = total
              · rw [if_pos hlast, if_pos hlast]
                refine ⟨rfl, fun s' h _ => ?_⟩
                obtain rfl : s₁ = s' := Except.ok.inj h
                rwa [hlast] at hs₁
              · rw [if_neg hlast, if_neg hlast]
                exact ih (by omega) hs₁
          · rw [if_neg hin, if_neg hin]
            cases O.carry (d :: ds) (i :: is) with
            | none => exact ⟨rfl, fun s' h => by cases h⟩
            | some is' => exact ih hfound hs

/-- `radix d` indices `index d 0, index d 1, …` make up dimension `d`, and the
odometer's tests tell where an index stands among them. -/
structure Counts (radix : δ → ℕ) (index : δ → ℕ → ι) (d : δ) : Prop where
  lower : O.lower d = index d 0
  next : ∀ j, O.next (index d j) = index d (j + 1)
  below : ∀ j < radix d, O.below d (index d j) = decide (j + 1 < radix d)

section Correct

variable (radix : δ → ℕ) (index : δ → ℕ → ι)

/-- The number of index vectors of a box. -/
def count : List δ → ℕ
  | [] => 1
  | d :: ds => radix d * count ds

/-- The `k`-th index vector of a box, the first dimension varying fastest. -/
def indexAt : List δ → ℕ → List ι
  | [], _ => []
  | d :: ds, k => index d (k % radix d) :: indexAt ds (k / radix d)

/-- The index vectors number `k, k + 1, …, k + n - 1`. -/
def indicesFrom (ds : List δ) (k n : ℕ) : List (List ι) :=
  (List.range' k n).map (indexAt radix index ds)

variable {radix index} {O}

/-- Carrying into the tail steps its number by one, and fails exactly at the last. -/
theorem carryTail_indexAt {ds : List δ} (hds : ∀ d ∈ ds, O.Counts radix index d) {t : ℕ}
    (ht : t < count radix ds) :
    O.carryTail ds (indexAt radix index ds t) =
      if t + 1 < count radix ds then some (indexAt radix index ds (t + 1)) else none := by
  induction ds generalizing t with
  | nil =>
    have : ¬ t + 1 < count radix ([] : List δ) := by simp [count]
    simp [carryTail, this]
  | cons d ds ih =>
    have hd := hds d (by simp)
    have hpos : 0 < radix d := by
      rcases Nat.eq_zero_or_pos (radix d) with h0 | h0
      · simp [count, h0] at ht
      · exact h0
    have hr : t % radix d < radix d := Nat.mod_lt _ hpos
    have hq : t / radix d < count radix ds := by
      apply Nat.div_lt_of_lt_mul
      simpa [count] using ht
    have hsplit : radix d * (t / radix d) + t % radix d = t := Nat.div_add_mod t (radix d)
    simp only [carryTail, indexAt, hd.below _ hr, decide_eq_true_eq, hd.next]
    by_cases hstep : t % radix d + 1 < radix d
    · have hmod : (t + 1) % radix d = t % radix d + 1 := by
        rw [Nat.add_mod, Nat.mod_eq_of_lt (a := 1) (by omega), Nat.mod_eq_of_lt hstep]
      have hdiv : (t + 1) / radix d = t / radix d := by
        apply Nat.div_eq_of_lt_le
        · rw [Nat.mul_comm]; omega
        · rw [Nat.succ_mul, Nat.mul_comm]; omega
      have hlt : t + 1 < count radix (d :: ds) := by
        have : radix d * (t / radix d + 1) ≤ radix d * count radix ds :=
          Nat.mul_le_mul_left _ hq
        simp only [count]
        rw [Nat.mul_add] at this
        omega
      simp [hstep, hlt, hmod, hdiv]
    · have hlast : t + 1 = radix d * (t / radix d + 1) := by rw [Nat.mul_add]; omega
      have hmod : (t + 1) % radix d = 0 := by rw [hlast]; exact Nat.mul_mod_right _ _
      have hdiv : (t + 1) / radix d = t / radix d + 1 := by
        rw [hlast]; exact Nat.mul_div_cancel_left _ hpos
      have hiff : t + 1 < count radix (d :: ds) ↔ t / radix d + 1 < count radix ds := by
        simp only [count]
        rw [hlast]
        exact Nat.mul_lt_mul_left hpos
      rw [if_neg hstep, ih (fun e he => hds e (by simp [he])) hq, hmod, hdiv, hd.lower]
      by_cases hc : t / radix d + 1 < count radix ds
      · simp [hc, hiff.mpr hc]
      · have hn : ¬ t + 1 < count radix (d :: ds) := fun h => hc (hiff.mp h)
        simp [hc, hn]

/-- What the loop does behind the last vector of the box: with no vector missing it has
ended, otherwise its next round runs off the end. -/
def overrun (oob : ε) (go : σ → Bool) (missing : ℕ) (s : σ) : Except ε σ :=
  if missing = 0 then pure s else if go s then .error oob else pure s

/-- The number of vectors of a stretch. -/
@[simp] theorem length_indicesFrom (ds : List δ) (k n : ℕ) :
    (indicesFrom radix index ds k n).length = n := by
  simp [indicesFrom]

/-- **The vectors of a box in order**: for each vector of the other dimensions, all indices of the
first one. -/
theorem indicesFrom_cons {d : δ} (hd : 0 < radix d) (ds : List δ) :
    indicesFrom radix index (d :: ds) 0 (count radix (d :: ds)) =
      (indicesFrom radix index ds 0 (count radix ds)).flatMap fun is =>
        (List.range (radix d)).map fun j => index d j :: is := by
  have hvectors : ∀ n, (List.range (radix d * n)).map (indexAt radix index (d :: ds)) =
      ((List.range n).map (indexAt radix index ds)).flatMap fun is =>
        (List.range (radix d)).map fun j => index d j :: is := by
    intro n
    induction n with
    | zero => rfl
    | succ n ih =>
      have hlast : (List.range (radix d)).map
          (fun j => indexAt radix index (d :: ds) (radix d * n + j)) =
          (List.range (radix d)).map fun j => index d j :: indexAt radix index ds n := by
        apply List.map_congr_left
        intro j hj
        have hlt := List.mem_range.mp hj
        rw [indexAt, Nat.mul_add_mod, Nat.mod_eq_of_lt hlt, Nat.mul_add_div hd,
          Nat.div_eq_of_lt hlt, Nat.add_zero]
      rw [Nat.mul_succ, List.range_add, List.map_append, ih, List.map_map, List.range_succ,
        List.map_append, List.flatMap_append, List.map_singleton, List.flatMap_singleton]
      exact congrArg _ hlast
  rw [indicesFrom, indicesFrom, ← List.range_eq_range', ← List.range_eq_range']
  exact hvectors (count radix ds)

/-- INTERNAL: the loop standing on a vector inside the box, or on one whose first
index has just left it, visits the remaining vectors in order. -/
theorem walk_eq_sweep_aux {d : δ} {ds : List δ} (oob stuck : ε) (go : σ → Bool)
    (visit : List ι → σ → Except ε σ)
    (hd : O.Counts radix index d) (hds : ∀ e ∈ ds, O.Counts radix index e)
    (hin : ∀ j ≤ radix d, O.inside d (index d j) = decide (j < radix d))
    (hpos : 0 < radix d) (m n k j t : ℕ) (hk : k = j + radix d * t) (hj : j ≤ radix d)
    (ht : t < count radix ds) (hn : 0 < n ∨ 0 < m) (hend : k + n = count radix (d :: ds))
    (fuel : ℕ) (hfuel : 2 * n + (if j = radix d then 1 else 0) ≤ fuel) (s : σ) :
    O.walk oob stuck go visit (d :: ds) (k + n + m) fuel
        (index d j :: indexAt radix index ds t) k s =
      sweep go visit (indicesFrom radix index (d :: ds) k n) s >>= overrun oob go m := by
  induction n generalizing k j t fuel s with
  | zero =>
    -- behind the last vector: the carry finds no dimension
    have hm : m ≠ 0 := by omega
    have hk' : j + radix d * t = radix d * count radix ds := by
      simp only [count] at hend
      omega
    have ht' : t + 1 = count radix ds := by
      by_contra hne
      have hlt : radix d * (t + 2) ≤ radix d * count radix ds :=
        Nat.mul_le_mul_left _ (by omega)
      rw [Nat.mul_add] at hlt
      omega
    have hlast : j = radix d := by
      rw [← ht', Nat.mul_add] at hk'
      omega
    obtain ⟨fuel, rfl⟩ : ∃ f, fuel = f + 1 := ⟨fuel - 1, by simp [hlast] at hfuel; omega⟩
    have hcarry : O.carry (d :: ds) (index d j :: indexAt radix index ds t) = none := by
      simp [carry, carryTail_indexAt hds ht, ht']
    have hout : O.inside d (index d j) = false := by rw [hin j hj]; simp [hlast]
    simp only [walk, hout, hcarry, Bool.false_eq_true, if_false]
    change _ = overrun oob go m s
    simp only [overrun, hm, if_false]
  | succ n ih =>
    obtain ⟨fuel, rfl⟩ : ∃ f, fuel = f + 1 := ⟨fuel - 1, by omega⟩
    -- the vector number `k` itself, once its first index is inside
    have visitFirst : ∀ (k j t fuel : ℕ) (s : σ), k = j + radix d * t → j < radix d →
        t < count radix ds → k + (n + 1) = count radix (d :: ds) → 2 * (n + 1) ≤ fuel →
        O.walk oob stuck go visit (d :: ds) (k + (n + 1) + m) fuel
            (index d j :: indexAt radix index ds t) k s =
          sweep go visit (indicesFrom radix index (d :: ds) k (n + 1)) s >>=
            overrun oob go m := by
      intro k j t fuel s hk hj ht hend hfuel
      obtain ⟨fuel, rfl⟩ : ∃ f, fuel = f + 1 := ⟨fuel - 1, by omega⟩
      have hkmod : k % radix d = j := by
        rw [hk, Nat.add_mul_mod_self_left, Nat.mod_eq_of_lt hj]
      have hkdiv : k / radix d = t := by
        rw [hk, Nat.add_mul_div_left _ _ (by omega), Nat.div_eq_of_lt hj, Nat.zero_add]
      have hvec : indexAt radix index (d :: ds) k = index d j :: indexAt radix index ds t := by
        simp [indexAt, hkmod, hkdiv]
      have hlist : indicesFrom radix index (d :: ds) k (n + 1) =
          (index d j :: indexAt radix index ds t) ::
            indicesFrom radix index (d :: ds) (k + 1) n := by
        simp [indicesFrom, List.range'_succ, hvec]
      rw [hlist]
      simp only [walk, sweep, hin j (by omega), decide_eq_true_eq, hj, if_true]
      cases hgo : go s with
      | false =>
        simp only [Bool.false_eq_true, if_false]
        change pure s = overrun oob go m s
        simp only [overrun, hgo, Bool.false_eq_true, if_false, ite_self]
      | true =>
        simp only [if_true]
        cases hv : visit (index d j :: indexAt radix index ds t) s with
        | error e => rfl
        | ok s' =>
          change (if k + 1 = k + (n + 1) + m then pure s' else _) =
            sweep go visit _ s' >>= overrun oob go m
          by_cases h0 : n = 0 ∧ m = 0
          · obtain ⟨rfl, rfl⟩ := h0
            rw [if_pos (by omega)]
            rfl
          · rw [if_neg (by omega), hd.next,
              show k + (n + 1) + m = (k + 1) + n + m by omega]
            exact ih (k + 1) (j + 1) t (by omega) (by omega) ht (by omega) (by omega) fuel
              (by split <;> omega) s'
    by_cases hlast : j = radix d
    · -- the first index has left its dimension: one carry, then the visit
      have ht' : t + 1 < count radix ds := by
        have hk' : k = radix d * (t + 1) := by rw [hk, hlast]; ring
        have : radix d * (t + 1) < radix d * count radix ds := by
          have := hend; simp only [count] at this; omega
        exact Nat.lt_of_mul_lt_mul_left this
      have hfuel' : 2 * (n + 1) ≤ fuel := by simp only [hlast, if_true] at hfuel; omega
      have hstart : O.lower d = index d 0 := hd.lower
      have hcarry : O.carry (d :: ds) (index d j :: indexAt radix index ds t) =
          some (index d 0 :: indexAt radix index ds (t + 1)) := by
        simp [carry, carryTail_indexAt hds ht, ht', hstart]
      have hout : O.inside d (index d j) = false := by rw [hin j hj]; simp [hlast]
      rw [walk]
      simp only [hout, hcarry, Bool.false_eq_true, if_false]
      cases hgo : go s with
      | false =>
        simp only [indicesFrom, List.range'_succ, List.map_cons, sweep, hgo,
          Bool.false_eq_true, if_false]
        change pure s = overrun oob go m s
        simp only [overrun, hgo, Bool.false_eq_true, if_false, ite_self]
      | true =>
        simp only [if_true]
        exact visitFirst k 0 (t + 1) fuel s (by rw [hk, hlast]; ring) hpos ht' hend hfuel'
    · simp only [hlast, if_false] at hfuel
      exact visitFirst k j t (fuel + 1) s hk (by omega) ht hend (by omega)

/-- The lowest vector is the vector number zero. -/
theorem map_lower_eq_indexAt {ds : List δ} (hds : ∀ e ∈ ds, O.Counts radix index e) :
    ds.map O.lower = indexAt radix index ds 0 := by
  induction ds with
  | nil => rfl
  | cons e l ih =>
    simp [indexAt, (hds e (by simp)).lower, ih fun x hx => hds x (by simp [hx])]

variable (O radix index) in
/-- **The carry loop visits every index vector once, in order**: started at the lowest
vector of a non-empty box it is the sweep over all vectors, and runs off the end when
it has been told to find more than there are. -/
theorem walk_eq_sweep (d : δ) (ds : List δ) (oob stuck : ε) (go : σ → Bool)
    (visit : List ι → σ → Except ε σ)
    (hds : ∀ e ∈ d :: ds, O.Counts radix index e)
    (hin : ∀ j ≤ radix d, O.inside d (index d j) = decide (j < radix d))
    (hpos : 0 < count radix (d :: ds)) (missing fuel : ℕ)
    (hfuel : 2 * count radix (d :: ds) ≤ fuel) (s : σ) :
    O.walk oob stuck go visit (d :: ds) (count radix (d :: ds) + missing) fuel
        ((d :: ds).map O.lower) 0 s =
      sweep go visit (indicesFrom radix index (d :: ds) 0 (count radix (d :: ds))) s >>=
        overrun oob go missing := by
  have hfirst : 0 < radix d := Nat.pos_of_mul_pos_right (by simpa [count] using hpos)
  have htail : 0 < count radix ds := Nat.pos_of_mul_pos_left (by simpa [count] using hpos)
  have h := walk_eq_sweep_aux oob stuck go visit (hds d (by simp))
    (fun e he => hds e (by simp [he])) hin hfirst missing (count radix (d :: ds)) 0 0 0
    (by ring) (Nat.zero_le _) htail (.inl hpos) (by omega) fuel
    (by rw [if_neg (by omega)]; omega) s
  rw [Nat.zero_add] at h
  rw [← h, List.map_cons, (hds d (by simp)).lower,
    map_lower_eq_indexAt fun e he => hds e (by simp [he])]

variable (O radix index) in
/-- **A first dimension that is never inside makes the loop run off the end**: every
round carries, until no dimension is left to carry into. -/
theorem walk_oob (d : δ) (ds : List δ) (oob stuck : ε) (go : σ → Bool)
    (visit : List ι → σ → Except ε σ) (hds : ∀ e ∈ ds, O.Counts radix index e)
    (hout : O.inside d (O.lower d) = false) (total : ℕ) (s : σ) (hgo : go s = true)
    (n t : ℕ) (hn : t + n = count radix ds) (hn0 : 0 < n) (fuel : ℕ) (hfuel : n ≤ fuel) :
    O.walk oob stuck go visit (d :: ds) total fuel
        (O.lower d :: indexAt radix index ds t) 0 s = .error oob := by
  induction n generalizing t fuel with
  | zero => omega
  | succ n ih =>
    obtain ⟨fuel, rfl⟩ : ∃ f, fuel = f + 1 := ⟨fuel - 1, by omega⟩
    have hcarry : O.carry (d :: ds) (O.lower d :: indexAt radix index ds t) =
        if t + 1 < count radix ds then
          some (O.lower d :: indexAt radix index ds (t + 1)) else none := by
      simp only [carry, carryTail_indexAt hds (by omega : t < count radix ds)]
      split <;> rfl
    simp only [walk, hgo, hout, hcarry, if_true, Bool.false_eq_true, if_false]
    by_cases hlt : t + 1 < count radix ds
    · simp only [hlt, if_true]
      exact ih (t + 1) (by omega) (by omega) fuel (by omega)
    · simp only [hlt, if_false]

end Correct

end Odometer

end IspSession.Library
