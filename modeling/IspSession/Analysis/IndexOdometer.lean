import Mathlib.Data.List.Forall2
import Mathlib.Data.List.Nodup
import IspSession.Analysis.NetArrays

/-!
# Every index vector once

The carry loops of the two runtimes against the list of all index vectors in order. Their limits are
32-bit sums of a lower bound and an extent, and the number of visits is a 32-bit product.
`walksBox_iff` says when they are right.
-/

set_option autoImplicit false

namespace IspSession.Analysis

open IspSession.Library IspSession.Model

/-! ## The claim -/

/-- An index vector is inside the bounds of an array. -/
def InBox (bounds : List SafeArrayBound) (is : List ℤ) : Prop :=
  List.Forall₂ (fun (b : SafeArrayBound) i =>
    b.lLbound.toInt ≤ i ∧ i < b.lLbound.toInt + b.cElements.toNat) bounds is

/-- The order in which the first index varies fastest. -/
def Before : List ℤ → List ℤ → Prop
  | i :: is, j :: js => Before is js ∨ (is = js ∧ i < j)
  | _, _ => False

/-- A list of every index vector of an array, once and in order. -/
structure Enumerates (bounds : List SafeArrayBound) (vectors : List (List ℤ)) : Prop where
  mem : ∀ is, is ∈ vectors ↔ InBox bounds is
  once : vectors.Nodup
  inOrder : vectors.Pairwise Before
  count : vectors.length = elementCount bounds

/-- **The loop visits every index vector once, in order**, and reads no other index: whatever the
visits do to the state, the loop is the sweep over all vectors. -/
def WalksBox {ε : Type} (bounds : List SafeArrayBound)
    (walk : (σ : Type) → (List (BitVec 32) → σ → Except ε σ) → σ → Except ε σ) : Prop :=
  ∃ visited : List (List (BitVec 32)),
    Enumerates bounds (visited.map (List.map BitVec.toInt)) ∧
    ∀ (σ : Type) (visit : List (BitVec 32) → σ → Except ε σ) (s : σ),
      walk σ visit s = Odometer.sweep (fun _ => true) visit visited s

/-- The loops of `WriteValue` and `ReadValue` of a dictionary, for more than no elements. -/
def nativeWalk (bounds : List SafeArrayBound) (σ : Type)
    (visit : List (BitVec 32) → σ → Run σ) (s : σ) : Run σ :=
  if (0#32).slt (longProduct bounds) then
    walkArray (fun _ => true) visit bounds (longProduct bounds) s
  else pure s

/-- The loops of the `StreamManager`. -/
def managedWalk (loop : Odometer SafeArrayBound (BitVec 32)) (bounds : List SafeArrayBound)
    (σ : Type) (visit : List (BitVec 32) → σ → NetRun σ) (s : σ) : NetRun σ :=
  if (0#32).slt (longProduct bounds) then walkCells loop visit bounds (longProduct bounds) s
  else pure s

/-! ## The index vectors of an array -/

/-- All index vectors of an array, the first index varying fastest. -/
def boxIndices : List SafeArrayBound → List (List ℤ)
  | [] => [[]]
  | b :: bs => (boxIndices bs).flatMap fun is =>
      (List.range b.cElements.toNat).map fun (j : ℕ) => (b.lLbound.toInt + (j : ℤ)) :: is

/-- INTERNAL: which vectors these are. -/
theorem mem_boxIndices {bounds : List SafeArrayBound} {is : List ℤ} :
    is ∈ boxIndices bounds ↔ InBox bounds is := by
  unfold InBox
  induction bounds generalizing is with
  | nil => rw [boxIndices, List.mem_singleton, List.forall₂_nil_left_iff]
  | cons b bs ih =>
    rw [boxIndices, List.mem_flatMap, List.forall₂_cons_left_iff]
    constructor
    · rintro ⟨rest, hrest, hmem⟩
      obtain ⟨j, hj, rfl⟩ := List.mem_map.mp hmem
      rw [List.mem_range] at hj
      exact ⟨_, rest, ⟨by omega, by omega⟩, ih.mp hrest, rfl⟩
    · rintro ⟨i, rest, ⟨hlow, hhigh⟩, hrest, rfl⟩
      have hindex : b.lLbound.toInt + ((i - b.lLbound.toInt).toNat : ℤ) = i := by omega
      refine ⟨rest, ih.mpr hrest, List.mem_map.mpr ⟨(i - b.lLbound.toInt).toNat, ?_, ?_⟩⟩
      · rw [List.mem_range]
        omega
      · rw [hindex]

/-- INTERNAL: no vector is before itself. -/
theorem not_before_self (is : List ℤ) : ¬ Before is is := by
  induction is with
  | nil => exact id
  | cons i is ih =>
    rintro (htail | ⟨-, hhead⟩)
    · exact ih htail
    · exact lt_irrefl i hhead

/-- INTERNAL: they are in order. -/
theorem pairwise_boxIndices (bounds : List SafeArrayBound) :
    (boxIndices bounds).Pairwise Before := by
  induction bounds with
  | nil => exact List.pairwise_singleton _ _
  | cons b bs ih =>
    rw [boxIndices, List.pairwise_flatMap]
    constructor
    · intro is _
      rw [List.pairwise_map]
      refine List.pairwise_lt_range.imp fun {j j'} hlt => .inr ⟨rfl, ?_⟩
      omega
    · refine ih.imp fun {is is'} hlt v hv v' hv' => ?_
      obtain ⟨j, -, rfl⟩ := List.mem_map.mp hv
      obtain ⟨j', -, rfl⟩ := List.mem_map.mp hv'
      exact .inl hlt

/-- INTERNAL: how many there are. -/
theorem length_boxIndices (bounds : List SafeArrayBound) :
    (boxIndices bounds).length = elementCount bounds := by
  induction bounds with
  | nil => rfl
  | cons b bs ih =>
    have hcount : elementCount (b :: bs) = b.cElements.toNat * elementCount bs := rfl
    rw [boxIndices, List.length_flatMap, hcount, ← ih]
    simp only [List.length_map, List.length_range, List.map_const', List.sum_replicate_nat]
    exact Nat.mul_comm _ _

/-- INTERNAL: the list is what it is to be. -/
theorem enumerates_boxIndices (bounds : List SafeArrayBound) :
    Enumerates bounds (boxIndices bounds) where
  mem _ := mem_boxIndices
  once := (pairwise_boxIndices bounds).imp fun {is is'} hlt heq => by
    subst heq
    exact not_before_self is hlt
  inOrder := pairwise_boxIndices bounds
  count := length_boxIndices bounds

/-! ## The visits in order -/

/-- INTERNAL: the vectors of a walkable array as integers. -/
theorem map_toInt_indicesFrom {bounds : List SafeArrayBound}
    (hpos : ∀ b ∈ bounds, 0 < b.cElements.toNat) (hends : ∀ b ∈ bounds, indexEnd b ≤ 2 ^ 31) :
    (Odometer.indicesFrom extent loopIndex bounds 0 (elementCount bounds)).map
      (List.map BitVec.toInt) = boxIndices bounds := by
  induction bounds with
  | nil => rfl
  | cons b bs ih =>
    have hrest := ih (fun c hc => hpos c (List.mem_cons_of_mem b hc))
      fun c hc => hends c (List.mem_cons_of_mem b hc)
    have hfirst : 0 < extent b := hpos b List.mem_cons_self
    rw [elementCount_eq, Odometer.indicesFrom_cons hfirst, List.map_flatMap, boxIndices, ← hrest,
      List.flatMap_map]
    refine List.flatMap_congr fun is _ => ?_
    rw [List.map_map]
    refine List.map_congr_left fun j hj => ?_
    have hindex := toInt_loopIndex (b := b) (List.mem_range.mp hj) (hends b List.mem_cons_self)
    rw [Function.comp_apply, List.map_cons, hindex]

/-- INTERNAL: they are all vectors, in order. -/
theorem enumerates_indicesFrom {bounds : List SafeArrayBound}
    (hpos : ∀ b ∈ bounds, 0 < b.cElements.toNat) (hends : ∀ b ∈ bounds, indexEnd b ≤ 2 ^ 31) :
    Enumerates bounds ((Odometer.indicesFrom extent loopIndex bounds 0
      (elementCount bounds)).map (List.map BitVec.toInt)) := by
  rw [map_toInt_indicesFrom hpos hends]
  exact enumerates_boxIndices bounds

/-- INTERNAL: visits that are recorded. -/
theorem sweep_record {ε : Type} (vectors seen : List (List (BitVec 32))) :
    Odometer.sweep (fun _ => true) (fun is s => (.ok (s ++ [is]) : Except ε _)) vectors seen =
      .ok (seen ++ vectors) := by
  induction vectors generalizing seen with
  | nil => rw [List.append_nil]; rfl
  | cons is rest ih =>
    rw [Odometer.sweep, if_pos rfl]
    change Odometer.sweep _ _ rest (seen ++ [is]) = _
    rw [ih, List.append_assoc, List.singleton_append]

/-- INTERNAL: a loop that visits every index vector can record them. -/
theorem WalksBox.recorded {ε : Type} {bounds : List SafeArrayBound}
    {walk : (σ : Type) → (List (BitVec 32) → σ → Except ε σ) → σ → Except ε σ}
    (h : WalksBox bounds walk) :
    ∃ visited : List (List (BitVec 32)), visited.length = elementCount bounds ∧
      walk _ (fun is seen => .ok (seen ++ [is])) [] = .ok visited := by
  obtain ⟨visited, hvectors, hwalk⟩ := h
  refine ⟨visited, ?_, ?_⟩
  · rw [← hvectors.count, List.length_map]
  · rw [hwalk, sweep_record, List.nil_append]

/-- INTERNAL: an array all of whose extents are positive has elements. -/
theorem elementCount_pos {bounds : List SafeArrayBound}
    (hpos : ∀ b ∈ bounds, 0 < b.cElements.toNat) : 0 < elementCount bounds := by
  induction bounds with
  | nil => exact Nat.one_pos
  | cons b bs ih =>
    exact Nat.mul_pos (hpos b List.mem_cons_self)
      (ih fun c hc => hpos c (List.mem_cons_of_mem b hc))

/-- INTERNAL: the number of visits of a recorded walk that is not skipped. -/
theorem toNat_of_recorded {ε : Type} {loop : Odometer SafeArrayBound (BitVec 32)}
    {oob stuck : ε} {bounds : List SafeArrayBound} {total : BitVec 32} {fuel : ℕ}
    {is : List (BitVec 32)} {visited : List (List (BitVec 32))}
    (h : loop.walk oob stuck (fun _ => true) (fun is seen => .ok (seen ++ [is])) bounds total.toNat
      fuel is 0 [] = .ok visited) : visited.length = total.toNat := by
  have hcounts := loop.walk_counts oob stuck List.length (fun is seen seen' hvisit => by
    obtain rfl := Except.ok.inj hvisit
    rw [List.length_append, List.length_singleton]) h
  rwa [Nat.add_zero, List.length_nil, Nat.zero_add] at hcounts

/-- INTERNAL: a positive number of elements is below `2 ^ 31`. -/
theorem toNat_lt_of_positive {total : BitVec 32} (h : (0#32).slt total = true) :
    total.toNat < 2 ^ 31 := by
  rw [BitVec.slt, decide_eq_true_eq, BitVec.toInt_zero, BitVec.toInt_eq_toNat_cond] at h
  split at h <;> omega

/-- INTERNAL: a number of elements that is in range, and positive. -/
theorem positive_longProduct {bounds : List SafeArrayBound} (hcount : elementCount bounds < 2 ^ 31)
    (hpos : 0 < elementCount bounds) : (0#32).slt (longProduct bounds) = true := by
  have htotal := toNat_longProduct bounds (by omega)
  rw [zero_slt_iff (by omega), decide_eq_true_eq, htotal]
  exact hpos

/-- INTERNAL: no limit of a walkable array is beyond `2 ^ 31`. -/
theorem Walkable.indexEnd_le {bounds : List SafeArrayBound} (h : Walkable bounds) :
    ∀ b ∈ bounds, indexEnd b ≤ 2 ^ 31 := by
  cases bounds with
  | nil => exact fun b hb => absurd hb List.not_mem_nil
  | cons b bs =>
    intro c hc
    rcases List.mem_cons.mp hc with rfl | hc
    · exact h.1.le
    · exact h.2 c hc

/-- **The native loops** are right exactly for fewer than `2 ^ 31` elements and limits in range. -/
theorem walksBox_nativeWalk {bounds : List SafeArrayBound} (hrank : bounds ≠ [])
    (hpos : ∀ b ∈ bounds, 0 < b.cElements.toNat) :
    WalksBox bounds (nativeWalk bounds) ↔ elementCount bounds < 2 ^ 31 ∧ Walkable bounds := by
  have helements := elementCount_pos hpos
  constructor
  · intro h
    obtain ⟨visited, hlength, hwalk⟩ := h.recorded
    unfold nativeWalk at hwalk
    split at hwalk
    · rename_i hguard
      have htotal : (longProduct bounds).toNat = elementCount bounds :=
        (toNat_of_recorded hwalk).symm.trans hlength
      refine ⟨htotal ▸ toNat_lt_of_positive hguard, ?_⟩
      by_contra hwalkable
      rw [walkArray_of_not_walkable helements htotal hwalkable (fun _ _ => True) trivial
        (fun _ _ _ _ => rfl) fun _ _ _ _ _ _ _ _ => .inr ⟨_, rfl, trivial⟩] at hwalk
      cases hwalk
    · obtain rfl := Except.ok.inj hwalk
      rw [List.length_nil] at hlength
      omega
  · rintro ⟨hcount, hwalkable⟩
    refine ⟨_, enumerates_indicesFrom hpos hwalkable.indexEnd_le, fun σ visit s => ?_⟩
    rw [nativeWalk, if_pos (positive_longProduct hcount helements)]
    exact walkArray_of_walkable _ visit hrank helements (toNat_longProduct bounds (by omega))
      hwalkable s

/-- **The managed loops** likewise. -/
theorem walksBox_managedWalk {loop : Odometer SafeArrayBound (BitVec 32)} (hloop : CellLoop loop)
    {b : ArrayBounds} (hpos : ∀ d ∈ b.dims, 0 < d.cElements.toNat) :
    WalksBox b.dims (managedWalk loop b.dims) ↔
      elementCount b.dims < 2 ^ 31 ∧ Walkable b.dims := by
  have helements : 0 < b.count := elementCount_pos hpos
  constructor
  · intro h
    obtain ⟨visited, hlength, hwalk⟩ := h.recorded
    unfold managedWalk at hwalk
    split at hwalk
    · rename_i hguard
      have htotal : (longProduct b.dims).toNat = elementCount b.dims := toNat_longProduct_dims b
      refine ⟨htotal ▸ toNat_lt_of_positive hguard, ?_⟩
      by_contra hwalkable
      rw [walkCells_of_not_walkable hloop _ helements hwalkable] at hwalk
      cases hwalk
    · obtain rfl := Except.ok.inj hwalk
      rw [List.length_nil] at hlength
      exact absurd hlength helements.ne
  · rintro ⟨hcount, hwalkable⟩
    refine ⟨visitOrder b, enumerates_indicesFrom hpos hwalkable.indexEnd_le,
      fun σ visit s => ?_⟩
    rw [managedWalk, if_pos (positive_longProduct hcount helements)]
    exact walkCells_of_walkable hloop visit helements hwalkable s

/-! ## The result -/

/-- **Every index vector once, in order, and no index beside them**, in the native loops for arrays
of any bounds and in both managed loops for arrays of the runtime's bounds: exactly when the array
has fewer than `2 ^ 31` elements, the limit of its first dimension is below `2 ^ 31` and no other
limit is above it. -/
theorem walksBox_iff {bounds : List SafeArrayBound} (hrank : bounds ≠ [])
    (hpos : ∀ b ∈ bounds, 0 < b.cElements.toNat) :
    (WalksBox bounds (nativeWalk bounds) ↔ elementCount bounds < 2 ^ 31 ∧ Walkable bounds) ∧
    ∀ b : ArrayBounds, b.dims = bounds →
      (WalksBox bounds (managedWalk netCarryLoop bounds) ↔
        elementCount bounds < 2 ^ 31 ∧ Walkable bounds) ∧
      (WalksBox bounds (managedWalk carryLoop bounds) ↔
        elementCount bounds < 2 ^ 31 ∧ Walkable bounds) := by
  refine ⟨walksBox_nativeWalk hrank hpos, ?_⟩
  rintro b rfl
  exact ⟨walksBox_managedWalk cellLoop_netCarryLoop hpos,
    walksBox_managedWalk cellLoop_carryLoop hpos⟩

/-- A box of two by three elements. -/
def twoByThree : List SafeArrayBound := [⟨2, 0⟩, ⟨3, 5⟩]

theorem twoByThree_walksBox :
    (WalksBox twoByThree (nativeWalk twoByThree) ↔
      elementCount twoByThree < 2 ^ 31 ∧ Walkable twoByThree) ∧
    ∀ b : ArrayBounds, b.dims = twoByThree →
      (WalksBox twoByThree (managedWalk netCarryLoop twoByThree) ↔
        elementCount twoByThree < 2 ^ 31 ∧ Walkable twoByThree) ∧
      (WalksBox twoByThree (managedWalk carryLoop twoByThree) ↔
        elementCount twoByThree < 2 ^ 31 ∧ Walkable twoByThree) :=
  walksBox_iff (by decide) (by decide)

/-- **One element at the largest index**: its limit is behind the range of the index, so that the
loop finds none and looks for a second dimension. -/
theorem largestIndex_not_walksBox :
    ¬ ∀ bounds : List SafeArrayBound, bounds ≠ [] → (∀ b ∈ bounds, 0 < b.cElements.toNat) →
      WalksBox bounds (nativeWalk bounds) := by
  intro h
  obtain ⟨visited, -, hwalk⟩ := (h [⟨1, 0x7FFFFFFF⟩] (by decide) (by decide)).recorded
  have hfault : nativeWalk [⟨1, 0x7FFFFFFF⟩] _ (fun is seen => .ok (seen ++ [is])) [] =
      .error .fault := by rfl
  rw [hfault] at hwalk
  cases hwalk

end IspSession.Analysis
