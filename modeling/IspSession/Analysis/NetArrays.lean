import IspSession.Model.StreamManager
import IspSession.Analysis.ValueFormat

/-!
# The carry loops over managed arrays

The bounds of a managed array never let a limit of the carry loops overflow, but for that of
the first dimension: when its last index is the largest `int`, the loop sees no index of it.

* `walkCells_of_walkable`: otherwise both loops visit every cell (`mem_cellOrder`), in the
  order `cellOrder`.
* `walkCells_of_not_walkable`, `walkCells_of_empty`: they run off the index vector.
-/

set_option autoImplicit false

namespace IspSession.Analysis

open IspSession.Library IspSession.Model

/-! ## Cells of index vectors -/

/-- The index vectors in the order in which the loops visit them. -/
def visitOrder (b : ArrayBounds) : List (List (BitVec 32)) :=
  Odometer.indicesFrom extent loopIndex b.dims 0 b.count

/-- The cells in that order. -/
def cellOrder (b : ArrayBounds) : List (Fin b.count) := (visitOrder b).filterMap b.cell

/-- Every index vector has a cell. -/
theorem exists_arrayOffset {dims : List SafeArrayBound} {k : ℕ} (hk : k < elementCount dims) :
    ∃ o < elementCount dims,
      arrayOffset dims (Odometer.indexAt extent loopIndex dims k) = some o := by
  induction dims generalizing k with
  | nil => exact ⟨0, by simp [elementCount_eq, Odometer.count], rfl⟩
  | cons d ds ih =>
    have hcount : elementCount (d :: ds) = extent d * elementCount ds := rfl
    rw [hcount] at hk
    have hpos : 0 < extent d := Nat.pos_of_mul_pos_right (Nat.zero_lt_of_lt hk)
    have hj : k % extent d < extent d := Nat.mod_lt _ hpos
    obtain ⟨o, ho, hoff⟩ := ih (Nat.div_lt_of_lt_mul hk)
    refine ⟨k % extent d * elementCount ds + o, ?_, ?_⟩
    · have hmul : (k % extent d + 1) * elementCount ds ≤ extent d * elementCount ds :=
        Nat.mul_le_mul_right _ hj
      rw [Nat.add_mul, Nat.one_mul] at hmul
      rw [hcount]
      omega
    · simp only [Odometer.indexAt, arrayOffset, offset_loopIndex hj, hoff, Option.map_some]
      exact if_pos hj

/-- **Every cell has an index vector.** -/
theorem exists_indexAt {dims : List SafeArrayBound} {o : ℕ} (ho : o < elementCount dims) :
    ∃ k < elementCount dims,
      arrayOffset dims (Odometer.indexAt extent loopIndex dims k) = some o := by
  induction dims generalizing o with
  | nil =>
    obtain rfl : o = 0 := by simpa [elementCount_eq, Odometer.count] using ho
    exact ⟨0, ho, rfl⟩
  | cons d ds ih =>
    have hcount : elementCount (d :: ds) = extent d * elementCount ds := rfl
    rw [hcount] at ho
    have hds : 0 < elementCount ds := Nat.pos_of_mul_pos_left (Nat.zero_lt_of_lt ho)
    have hq : o / elementCount ds < extent d :=
      Nat.div_lt_of_lt_mul (by rwa [Nat.mul_comm] at ho)
    obtain ⟨t, ht, hoff⟩ := ih (Nat.mod_lt o hds)
    have hmod : (o / elementCount ds + extent d * t) % extent d = o / elementCount ds := by
      rw [Nat.add_mul_mod_self_left, Nat.mod_eq_of_lt hq]
    have hdiv : (o / elementCount ds + extent d * t) / extent d = t := by
      rw [Nat.add_mul_div_left _ _ (by omega), Nat.div_eq_of_lt hq, Nat.zero_add]
    refine ⟨o / elementCount ds + extent d * t, ?_, ?_⟩
    · have hmul : extent d * (t + 1) ≤ extent d * elementCount ds := Nat.mul_le_mul_left _ ht
      rw [Nat.mul_add, Nat.mul_one] at hmul
      rw [hcount]
      omega
    · simp only [Odometer.indexAt, hmod, hdiv, arrayOffset, offset_loopIndex hq, hoff,
        Option.map_some]
      refine (if_pos hq).trans (congrArg some ?_)
      rw [Nat.mul_comm]
      exact Nat.div_add_mod o (elementCount ds)

/-- INTERNAL: a vector that is visited is the index of some cell. -/
theorem exists_cell {b : ArrayBounds} {rgIndices : List (BitVec 32)}
    (h : rgIndices ∈ visitOrder b) : ∃ i, b.cell rgIndices = some i := by
  obtain ⟨k, hk, rfl⟩ := List.mem_map.mp h
  rw [List.mem_range'_1] at hk
  have hlt : k < elementCount b.dims := by
    have hupper := hk.2
    rwa [Nat.zero_add] at hupper
  obtain ⟨o, ho, hoff⟩ := exists_arrayOffset hlt
  refine ⟨⟨o, ho⟩, ?_⟩
  rw [ArrayBounds.cell, hoff]
  exact dif_pos ho

/-- **The loops visit every cell.** -/
theorem mem_cellOrder {b : ArrayBounds} (i : Fin b.count) : i ∈ cellOrder b := by
  have hlt : (i : ℕ) < elementCount b.dims := i.isLt
  obtain ⟨k, hk, hoff⟩ := exists_indexAt hlt
  refine List.mem_filterMap.mpr ⟨_, List.mem_map.mpr ⟨k, ?_, rfl⟩, ?_⟩
  · rw [List.mem_range'_1]
    exact ⟨Nat.zero_le _, by rw [Nat.zero_add]; exact hk⟩
  · rw [ArrayBounds.cell, hoff]
    exact dif_pos i.isLt

/-- INTERNAL: an array without cells has none at any index vector. -/
theorem cell_of_empty {b : ArrayBounds} (h : b.count = 0) (rgIndices : List (BitVec 32)) :
    b.cell rgIndices = none := by
  unfold ArrayBounds.cell
  split
  · rw [dif_neg (by omega)]
  · rfl

/-! ## The loops -/

/-- INTERNAL: the bounds of a managed array. -/
theorem indexEnd_le (b : ArrayBounds) : ∀ d ∈ b.dims, indexEnd d ≤ 2 ^ 31 :=
  fun d hd => (b.valid.2.2.2 d hd).2

/-- INTERNAL: only the first dimension can overflow. -/
theorem walkable_iff {b : ArrayBounds} {d : SafeArrayBound} {ds : List SafeArrayBound}
    (hdims : b.dims = d :: ds) : Walkable b.dims ↔ indexEnd d < 2 ^ 31 := by
  rw [hdims]
  refine ⟨fun h => h.1, fun h => ⟨h, fun c hc => ?_⟩⟩
  exact indexEnd_le b c (by simp [hdims, hc])

/-- The product of the extents is the number of cells. -/
theorem toNat_longProduct_dims (b : ArrayBounds) : (longProduct b.dims).toNat = b.count :=
  toNat_longProduct b.dims b.valid.2.2.1

/-- A loop whose tests are right for the dimensions of managed arrays. -/
structure CellLoop (loop : Odometer SafeArrayBound (BitVec 32)) : Prop where
  lower : loop.lower = carryLoop.lower
  next : loop.next = carryLoop.next
  inside : loop.inside = carryLoop.inside
  below : ∀ b j, j < extent b → indexEnd b ≤ 2 ^ 31 →
    loop.below b (loopIndex b j) = decide (j + 1 < extent b)

/-- INTERNAL: the reader's loop. -/
theorem cellLoop_carryLoop : CellLoop carryLoop where
  lower := rfl
  next := rfl
  inside := rfl
  below b j hj hb := by
    have hcounts := (counts_loopExtent b).below j
    rw [loopExtent, if_pos hb] at hcounts
    exact hcounts hj

/-- INTERNAL: the writer's loop. -/
theorem cellLoop_netCarryLoop : CellLoop netCarryLoop where
  lower := rfl
  next := rfl
  inside := rfl
  below b j hj hb := by
    have hcast : ((extent b : ℕ) : ℤ) = b.cElements.toNat := rfl
    simp only [netCarryLoop, decide_eq_decide]
    rw [toInt_loopIndex hj hb]
    omega

/-- INTERNAL: each dimension of a managed array counts. -/
theorem CellLoop.counts {loop : Odometer SafeArrayBound (BitVec 32)} (hloop : CellLoop loop)
    {d : SafeArrayBound} (hd : indexEnd d ≤ 2 ^ 31) : loop.Counts extent loopIndex d where
  lower := by rw [hloop.lower]; exact (counts_loopExtent d).lower
  next j := by rw [hloop.next]; exact (counts_loopExtent d).next j
  below j hj := hloop.below d j hj hd

/-- INTERNAL: the rounds suffice. -/
theorem count_le_boxRounds (dims : List SafeArrayBound) (radix : SafeArrayBound → ℕ)
    (h : ∀ d ∈ dims, radix d ≤ extent d + 1) :
    2 * Odometer.count radix dims ≤ boxRounds dims := by
  have hcount : Odometer.count radix dims ≤
      Odometer.count (fun b : SafeArrayBound => b.cElements.toNat + 1) dims := by
    induction dims with
    | nil => exact Nat.le_refl _
    | cons d ds ih =>
      exact Nat.mul_le_mul (h d (by simp)) (ih fun c hc => h c (by simp [hc]))
  exact Nat.mul_le_mul_left 2 hcount

/-- INTERNAL: the dimensions of an array. -/
theorem exists_dims (b : ArrayBounds) : ∃ d ds, b.dims = d :: ds :=
  List.exists_cons_of_ne_nil b.valid.1

/-- **Over an array that is walkable both loops visit the index vectors in order.** -/
theorem walkCells_of_walkable {loop : Odometer SafeArrayBound (BitVec 32)} (hloop : CellLoop loop)
    {σ : Type} (visit : List (BitVec 32) → σ → NetRun σ) {b : ArrayBounds} (hpos : 0 < b.count)
    (hwalk : Walkable b.dims) (s : σ) :
    walkCells loop visit b.dims (longProduct b.dims) s =
      Odometer.sweep (fun _ => true) visit (visitOrder b) s := by
  obtain ⟨d, ds, hdims⟩ := exists_dims b
  have hfirst := (walkable_iff hdims).mp hwalk
  have hcount : b.count = Odometer.count extent (d :: ds) := by
    rw [← hdims]
    rfl
  have hends : ∀ e ∈ d :: ds, indexEnd e ≤ 2 ^ 31 := hdims ▸ indexEnd_le b
  have hinside : ∀ j ≤ extent d, loop.inside d (loopIndex d j) = decide (j < extent d) := by
    have hsame : loopExtent d = extent d := if_pos (by omega)
    intro j hj
    rw [hloop.inside, inside_loopIndex hfirst (by rw [hsame]; exact hj), hsame]
  have hsweep := loop.walk_eq_sweep extent loopIndex d ds NetException.indexOutOfRange
    NetException.fuel (fun _ => true) visit (fun e he => hloop.counts (hends e he)) hinside
    (by rw [← hcount]; exact hpos) 0 (boxRounds b.dims)
    (by rw [← hdims]; exact count_le_boxRounds _ _ fun _ _ => Nat.le_succ _) s
  have hend : Odometer.overrun NetException.indexOutOfRange (fun _ => true) 0 =
      (pure : σ → NetRun σ) := by
    funext s
    rfl
  rw [Nat.add_zero, hend, bind_pure, ← hdims] at hsweep
  rw [walkCells, toNat_longProduct_dims]
  exact hsweep

/-- INTERNAL: a first dimension of which the loop sees no index makes it run off the end. -/
theorem walk_runs_off {loop : Odometer SafeArrayBound (BitVec 32)} {radix : SafeArrayBound → ℕ}
    {σ : Type} {visit : List (BitVec 32) → σ → NetRun σ} {d : SafeArrayBound}
    {ds : List SafeArrayBound} (hcounts : ∀ e ∈ ds, loop.Counts radix loopIndex e)
    (hradix : ∀ e ∈ ds, 0 < radix e ∧ radix e ≤ extent e + 1)
    (hout : loop.inside d (loop.lower d) = false) (total : ℕ) (s : σ) :
    loop.walk .indexOutOfRange .fuel (fun _ => true) visit (d :: ds) total (boxRounds (d :: ds))
      ((d :: ds).map loop.lower) 0 s = .error .indexOutOfRange := by
  have hpos : 0 < Odometer.count radix ds := by
    clear hcounts
    induction ds with
    | nil => exact Nat.one_pos
    | cons e ds ih =>
      exact Nat.mul_pos (hradix e (by simp)).1 (ih fun c hc => hradix c (by simp [hc]))
  have hrounds : Odometer.count radix ds ≤ boxRounds (d :: ds) := by
    have hle := count_le_boxRounds ds radix fun e he => (hradix e he).2
    have hone : boxRounds ds ≤ boxRounds (d :: ds) := by
      unfold boxRounds
      refine Nat.mul_le_mul_left 2 ?_
      rw [Odometer.count]
      exact Nat.le_mul_of_pos_left _ (Nat.succ_pos _)
    omega
  rw [List.map_cons, Odometer.map_lower_eq_indexAt hcounts]
  exact loop.walk_oob radix loopIndex d ds _ _ _ visit hcounts hout total s rfl
    (Odometer.count radix ds) 0 (by omega) hpos _ hrounds

/-- **Over an array that is not walkable both loops run off the index vector.** -/
theorem walkCells_of_not_walkable {loop : Odometer SafeArrayBound (BitVec 32)}
    (hloop : CellLoop loop) {σ : Type} (visit : List (BitVec 32) → σ → NetRun σ)
    {b : ArrayBounds} (hpos : 0 < b.count) (hwalk : ¬ Walkable b.dims) (s : σ) :
    walkCells loop visit b.dims (longProduct b.dims) s = .error .indexOutOfRange := by
  obtain ⟨d, ds, hdims⟩ := exists_dims b
  have hfirst := mt (walkable_iff hdims).mpr hwalk
  have hends : ∀ e ∈ d :: ds, indexEnd e ≤ 2 ^ 31 := hdims ▸ indexEnd_le b
  have hextent : ∀ e ∈ d :: ds, 0 < extent e := hdims ▸ extent_pos hpos
  have hout : loop.inside d (loop.lower d) = false := by
    rw [hloop.inside, hloop.lower]
    exact inside_lower_of_overflow hfirst
  rw [walkCells, hdims]
  exact walk_runs_off (fun e he => hloop.counts (hends e (by simp [he])))
    (fun e he => ⟨hextent e (by simp [he]), Nat.le_succ _⟩) hout _ s

/-- INTERNAL: the writer's loop takes a dimension without indices for one with one index. -/
theorem counts_netCarryLoop {d : SafeArrayBound} (hd : indexEnd d ≤ 2 ^ 31) :
    netCarryLoop.Counts (fun d => max 1 (extent d)) loopIndex d where
  lower := (cellLoop_netCarryLoop.counts hd).lower
  next := (cellLoop_netCarryLoop.counts hd).next
  below j hj := by
    rcases Nat.eq_zero_or_pos (extent d) with hzero | hpos
    · rw [hzero] at hj ⊢
      obtain rfl : j = 0 := by omega
      have hcells : d.cElements.toNat = 0 := hzero
      have hindex : loopIndex d 0 = d.lLbound := by simp [loopIndex]
      simp only [netCarryLoop, hindex, hcells, decide_eq_decide]
      omega
    · rw [Nat.max_eq_right hpos] at hj ⊢
      exact cellLoop_netCarryLoop.below d j hj hd

/-- **Over an array without cells the writer's loop runs off the index vector**, or asks for
a cell that is not there. -/
theorem walkCells_of_empty {σ : Type} {visit : List (BitVec 32) → σ → NetRun σ} {b : ArrayBounds}
    (hempty : b.count = 0)
    (hvisit : ∀ rgIndices s, b.cell rgIndices = none → visit rgIndices s = .error .indexOutOfRange)
    (s : σ) :
    walkCells netCarryLoop visit b.dims (longProduct b.dims) s = .error .indexOutOfRange := by
  obtain ⟨d, ds, hdims⟩ := exists_dims b
  have hends : ∀ e ∈ d :: ds, indexEnd e ≤ 2 ^ 31 := hdims ▸ indexEnd_le b
  rw [walkCells, hdims]
  cases hin : netCarryLoop.inside d (netCarryLoop.lower d) with
  | false =>
    exact walk_runs_off (fun e he => counts_netCarryLoop (hends e (by simp [he])))
      (fun e _ => ⟨by omega, by omega⟩) hin _ s
  | true =>
    -- the first vector is visited, and there is no cell
    have hrounds : boxRounds (d :: ds) = boxRounds (d :: ds) - 1 + 1 := by
      have hpos : 0 < Odometer.count (fun b : SafeArrayBound => b.cElements.toNat + 1) (d :: ds) := by
        induction (d :: ds) with
        | nil => exact Nat.one_pos
        | cons e es ih => exact Nat.mul_pos (Nat.succ_pos _) ih
      unfold boxRounds
      omega
    rw [hrounds, List.map_cons, Odometer.walk]
    simp only [if_true, hin]
    rw [hvisit _ s (cell_of_empty hempty _)]
    rfl

end IspSession.Analysis
