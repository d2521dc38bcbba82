import IspSession.Model.Codec

/-!
# The carry loop over an array's cells

The loop of `WriteValue` and `ReadValue` computes its limits in 32-bit integers. A
dimension's tests are right while `lower bound + extent` does not exceed `2 ^ 31`;
beyond, the dimension looks exhausted at its lowest index, and the leftmost one does so
already at `2 ^ 31` itself. `Walkable` says that no dimension is affected.

* `walkArray_of_walkable`: the loop visits the cells in memory order.
* `walkArray_of_not_walkable`: it ends past the index vector, or earlier in an error of
  the same kind.
-/

set_option autoImplicit false

namespace IspSession.Analysis

open IspSession.Library IspSession.Model

/-- The first index behind a dimension, as an integer. -/
def indexEnd (b : SafeArrayBound) : ℤ := b.lLbound.toInt + b.cElements.toNat

/-- No dimension's limits overflow in the carry loop. -/
def Walkable : List SafeArrayBound → Prop
  | [] => True
  | b :: bs => indexEnd b < 2 ^ 31 ∧ ∀ c ∈ bs, indexEnd c ≤ 2 ^ 31

instance : DecidablePred Walkable := fun bounds =>
  match bounds with
  | [] => inferInstanceAs (Decidable True)
  | b :: bs => inferInstanceAs (Decidable (indexEnd b < 2 ^ 31 ∧ ∀ c ∈ bs, indexEnd c ≤ 2 ^ 31))

/-- The extent of a dimension. -/
def extent (b : SafeArrayBound) : ℕ := b.cElements.toNat

/-- The extent the carry loop sees: a dimension whose limit overflows is left at its
lowest index. -/
def loopExtent (b : SafeArrayBound) : ℕ := if indexEnd b ≤ 2 ^ 31 then extent b else 1

/-- The index number `j` of a dimension. -/
def loopIndex (b : SafeArrayBound) (j : ℕ) : BitVec 32 := b.lLbound + BitVec.ofNat 32 j

theorem elementCount_eq (bounds : List SafeArrayBound) :
    elementCount bounds = Odometer.count extent bounds := rfl

/-! ## The loop's tests in integers -/

/-- INTERNAL: a 32-bit integer is its value when that is in range. -/
theorem toInt_eq_of_range {x : BitVec 32} {n : ℤ} (h : x = BitVec.ofInt 32 n)
    (hl : -2 ^ 31 ≤ n) (hu : n < 2 ^ 31) : x.toInt = n := by
  rw [h, BitVec.toInt_ofInt]
  apply Int.bmod_eq_of_le <;> omega

/-- INTERNAL: an integer one round too high is off by `2 ^ 32`. -/
theorem toInt_eq_of_overflow {x : BitVec 32} {n : ℤ} (h : x = BitVec.ofInt 32 n)
    (hl : 2 ^ 31 ≤ n) (hu : n < 2 ^ 32 + 2 ^ 31) : x.toInt = n - 2 ^ 32 := by
  have h' : x = BitVec.ofInt 32 (n - 2 ^ 32) := by
    rw [h]
    apply BitVec.eq_of_toInt_eq
    rw [BitVec.toInt_ofInt, BitVec.toInt_ofInt]
    norm_num [Int.bmod_def]
  exact toInt_eq_of_range h' (by omega) (by omega)

/-- The bits of an index. -/
theorem loopIndex_eq_ofInt (b : SafeArrayBound) (j : ℕ) :
    loopIndex b j = BitVec.ofInt 32 (b.lLbound.toInt + j) := by
  rw [loopIndex, BitVec.ofInt_add, BitVec.ofInt_toInt]
  rfl

/-- The bits of the loop's limit. -/
theorem limit_eq_ofInt (b : SafeArrayBound) :
    b.cElements + b.lLbound = BitVec.ofInt 32 (indexEnd b) := by
  rw [indexEnd, BitVec.ofInt_add, BitVec.ofInt_toInt, BitVec.add_comm, BitVec.ofInt_natCast,
    BitVec.ofNat_toNat, BitVec.setWidth_eq]

/-- The bits of the carry's limit. -/
theorem limit_sub_one_eq_ofInt (b : SafeArrayBound) :
    b.cElements + b.lLbound - 1 = BitVec.ofInt 32 (indexEnd b - 1) := by
  rw [limit_eq_ofInt, Int.sub_eq_add_neg, BitVec.ofInt_add, BitVec.sub_eq_add_neg]
  rfl

/-- An index of a dimension whose limit does not overflow. -/
theorem toInt_loopIndex {b : SafeArrayBound} {j : ℕ} (hj : j < extent b)
    (hb : indexEnd b ≤ 2 ^ 31) : (loopIndex b j).toInt = b.lLbound.toInt + j := by
  have hlow := BitVec.le_two_mul_toInt (x := b.lLbound)
  unfold indexEnd at hb
  unfold extent at hj
  exact toInt_eq_of_range (loopIndex_eq_ofInt b j) (by omega) (by omega)

/-- Each dimension counts as the loop sees it. -/
theorem counts_loopExtent (b : SafeArrayBound) :
    carryLoop.Counts loopExtent loopIndex b where
  lower := by simp [carryLoop, loopIndex]
  next j := by
    simp only [carryLoop, loopIndex, BitVec.add_assoc, BitVec.ofNat_add]
    rfl
  below j hj := by
    have hlow := BitVec.le_two_mul_toInt (x := b.lLbound)
    have hup := BitVec.two_mul_toInt_lt (x := b.lLbound)
    have hn := b.cElements.isLt
    simp only [carryLoop, BitVec.slt, decide_eq_decide]
    by_cases hb : indexEnd b ≤ 2 ^ 31
    · simp only [loopExtent, hb, if_true] at hj ⊢
      have hend : indexEnd b = b.lLbound.toInt + extent b := rfl
      rw [toInt_loopIndex hj hb,
        toInt_eq_of_range (limit_sub_one_eq_ofInt b) (by omega) (by omega)]
      omega
    · simp only [loopExtent, hb, if_false] at hj ⊢
      obtain rfl : j = 0 := by omega
      have hend : indexEnd b = b.lLbound.toInt + b.cElements.toNat := rfl
      have hzero : loopIndex b 0 = b.lLbound := by simp [loopIndex]
      rw [hzero, toInt_eq_of_overflow (limit_sub_one_eq_ofInt b) (by omega) (by omega)]
      omega

/-- The leftmost dimension's test while its limit stays below `2 ^ 31`. -/
theorem inside_loopIndex {b : SafeArrayBound} (hb : indexEnd b < 2 ^ 31) {j : ℕ}
    (hj : j ≤ loopExtent b) :
    carryLoop.inside b (loopIndex b j) = decide (j < loopExtent b) := by
  have hlow := BitVec.le_two_mul_toInt (x := b.lLbound)
  have hend : indexEnd b = b.lLbound.toInt + extent b := rfl
  rw [loopExtent, if_pos (by omega)] at hj ⊢
  simp only [carryLoop, BitVec.slt, decide_eq_decide]
  rw [toInt_eq_of_range (loopIndex_eq_ofInt b j) (by omega) (by omega),
    toInt_eq_of_range (limit_eq_ofInt b) (by omega) (by omega)]
  omega

/-- The leftmost dimension's test once its limit reaches `2 ^ 31`. -/
theorem inside_lower_of_overflow {b : SafeArrayBound} (hb : ¬ indexEnd b < 2 ^ 31) :
    carryLoop.inside b (carryLoop.lower b) = false := by
  have hup := BitVec.two_mul_toInt_lt (x := b.lLbound)
  have hn := b.cElements.isLt
  have hend : indexEnd b = b.lLbound.toInt + b.cElements.toNat := rfl
  simp only [carryLoop, BitVec.slt, decide_eq_false_iff_not]
  rw [toInt_eq_of_overflow (limit_eq_ofInt b) (by omega) (by omega)]
  omega

/-! ## Cells of index vectors -/

/-- INTERNAL: the offset of an index in its dimension. -/
theorem offset_loopIndex {b : SafeArrayBound} {j : ℕ} (hj : j < extent b) :
    (loopIndex b j - b.lLbound).toNat = j := by
  have hn := b.cElements.isLt
  unfold extent at hj
  rw [loopIndex, BitVec.add_comm, BitVec.add_sub_cancel, BitVec.toNat_ofNat,
    Nat.mod_eq_of_lt (by omega)]

/-- The vector number `k` of a smaller box is the index of some cell. -/
theorem exists_safeArrayPtrOfIndex {radix : SafeArrayBound → ℕ} {bounds : List SafeArrayBound}
    (hr : ∀ b ∈ bounds, 0 < radix b ∧ radix b ≤ extent b) (k : ℕ) :
    ∃ k', safeArrayPtrOfIndex bounds (Odometer.indexAt radix loopIndex bounds k) = some k' ∧
      k' < elementCount bounds := by
  induction bounds generalizing k with
  | nil => exact ⟨0, rfl, by simp [elementCount_eq, Odometer.count]⟩
  | cons b bs ih =>
    obtain ⟨k', hk', hlt⟩ := ih (fun c hc => hr c (by simp [hc])) (k / radix b)
    obtain ⟨hpos, hle⟩ := hr b (by simp)
    have hj : k % radix b < extent b := Nat.lt_of_lt_of_le (Nat.mod_lt _ hpos) hle
    refine ⟨k % radix b + extent b * k', ?_, ?_⟩
    · simp only [Odometer.indexAt, safeArrayPtrOfIndex, offset_loopIndex hj, hk', Option.map_some]
      exact if_pos hj
    · have hmul : extent b * (k' + 1) ≤ extent b * elementCount bs := Nat.mul_le_mul_left _ hlt
      rw [Nat.mul_add] at hmul
      have hcount : elementCount (b :: bs) = extent b * elementCount bs := rfl
      omega

/-- The vector number `k` of the whole box is the index of the cell number `k`. -/
theorem safeArrayPtrOfIndex_indexAt {bounds : List SafeArrayBound} {k : ℕ}
    (hk : k < elementCount bounds) :
    safeArrayPtrOfIndex bounds (Odometer.indexAt extent loopIndex bounds k) = some k := by
  induction bounds generalizing k with
  | nil =>
    have : k = 0 := by simpa [elementCount_eq, Odometer.count] using hk
    subst this
    rfl
  | cons b bs ih =>
    have hcount : elementCount (b :: bs) = extent b * elementCount bs := rfl
    have hpos : 0 < extent b := by
      rcases Nat.eq_zero_or_pos (extent b) with h0 | h0
      · rw [hcount, h0, Nat.zero_mul] at hk; omega
      · exact h0
    have hj : k % extent b < extent b := Nat.mod_lt _ hpos
    have hrest := ih (k := k / extent b) (Nat.div_lt_of_lt_mul (by rwa [hcount] at hk))
    simp only [Odometer.indexAt, safeArrayPtrOfIndex, offset_loopIndex hj, hrest,
      Option.map_some]
    exact (if_pos hj).trans (congrArg some (Nat.mod_add_div k (extent b)))

/-! ## The loop over an array -/

/-- INTERNAL: every extent of an array with cells is positive. -/
theorem extent_pos {bounds : List SafeArrayBound} (h : 0 < elementCount bounds) :
    ∀ b ∈ bounds, 0 < extent b := by
  induction bounds with
  | nil => simp
  | cons b bs ih =>
    have hcount : elementCount (b :: bs) = extent b * elementCount bs := rfl
    rw [hcount] at h
    intro c hc
    rcases List.mem_cons.mp hc with rfl | hc
    · exact Nat.pos_of_mul_pos_right h
    · exact ih (Nat.pos_of_mul_pos_left h) c hc

/-- INTERNAL: counting depends on the extents of the box's own dimensions only. -/
theorem count_congr {r r' : SafeArrayBound → ℕ} {bounds : List SafeArrayBound}
    (h : ∀ b ∈ bounds, r b = r' b) : Odometer.count r bounds = Odometer.count r' bounds := by
  induction bounds with
  | nil => rfl
  | cons b bs ih => simp [Odometer.count, h b (by simp), ih fun c hc => h c (by simp [hc])]

/-- INTERNAL: so does numbering. -/
theorem indexAt_congr {r r' : SafeArrayBound → ℕ} {bounds : List SafeArrayBound}
    (h : ∀ b ∈ bounds, r b = r' b) (k : ℕ) :
    Odometer.indexAt r loopIndex bounds k = Odometer.indexAt r' loopIndex bounds k := by
  induction bounds generalizing k with
  | nil => rfl
  | cons b bs ih =>
    simp [Odometer.indexAt, h b (by simp), ih fun c hc => h c (by simp [hc])]

/-- INTERNAL: the box the loop sees is no larger, and smaller as soon as one dimension
with an overflowing limit has more than one index. -/
theorem count_loopExtent_le {bounds : List SafeArrayBound} (h : 0 < elementCount bounds) :
    0 < Odometer.count loopExtent bounds ∧
      Odometer.count loopExtent bounds ≤ elementCount bounds ∧
      ((∃ b ∈ bounds, ¬ indexEnd b ≤ 2 ^ 31) →
        Odometer.count loopExtent bounds < elementCount bounds) := by
  induction bounds with
  | nil => simp [elementCount_eq, Odometer.count]
  | cons b bs ih =>
    have hcount : elementCount (b :: bs) = extent b * elementCount bs := rfl
    have hloop : Odometer.count loopExtent (b :: bs) =
        loopExtent b * Odometer.count loopExtent bs := rfl
    have hb := extent_pos h b (by simp)
    have hbs : 0 < elementCount bs := Nat.pos_of_mul_pos_left (by rwa [hcount] at h)
    obtain ⟨hpos, hle, hlt⟩ := ih hbs
    rw [hcount, hloop]
    by_cases hend : indexEnd b ≤ 2 ^ 31
    · rw [loopExtent, if_pos hend]
      refine ⟨Nat.mul_pos hb hpos, Nat.mul_le_mul_left _ hle, ?_⟩
      rintro ⟨c, hc, hover⟩
      rcases List.mem_cons.mp hc with rfl | hc
      · exact absurd hend hover
      · exact Nat.mul_lt_mul_of_pos_left (hlt ⟨c, hc, hover⟩) hb
    · rw [loopExtent, if_neg hend, Nat.one_mul]
      have hup := BitVec.two_mul_toInt_lt (x := b.lLbound)
      have hend' : indexEnd b = b.lLbound.toInt + extent b := rfl
      have htwo : 2 * elementCount bs ≤ extent b * elementCount bs :=
        Nat.mul_le_mul_right _ (by omega)
      refine ⟨hpos, by omega, fun _ => by omega⟩

/-- **Over a walkable array the loop visits the cells in memory order.** -/
theorem walkArray_of_walkable {σ : Type} (go : σ → Bool)
    (visit : List (BitVec 32) → σ → Run σ) {bounds : List SafeArrayBound} {total : BitVec 32}
    (hrank : bounds ≠ []) (hpos : 0 < elementCount bounds)
    (htotal : total.toNat = elementCount bounds) (h : Walkable bounds) (s : σ) :
    walkArray go visit bounds total s =
      Odometer.sweep go visit
        (Odometer.indicesFrom extent loopIndex bounds 0 (elementCount bounds)) s := by
  cases bounds with
  | nil => exact absurd rfl hrank
  | cons b bs =>
    obtain ⟨hb, hbs⟩ := h
    have hsame : ∀ c ∈ b :: bs, loopExtent c = extent c := by
      intro c hc
      rw [loopExtent, if_pos]
      rcases List.mem_cons.mp hc with rfl | hc
      · omega
      · exact hbs c hc
    have hcount : Odometer.count loopExtent (b :: bs) = elementCount (b :: bs) :=
      count_congr hsame
    have hwalk := carryLoop.walk_eq_sweep loopExtent loopIndex b bs Stuck.fault Stuck.fuel go visit
      (fun e _ => counts_loopExtent e) (fun j hj => inside_loopIndex hb hj)
      (by rw [hcount]; exact hpos) 0 (2 * elementCount (b :: bs) + 1)
      (by rw [hcount]; omega) s
    rw [Nat.add_zero, hcount] at hwalk
    have hend : Odometer.overrun Stuck.fault go 0 = (pure : σ → Run σ) := by
      funext s
      rfl
    rw [walkArray, htotal, hwalk, hend, bind_pure]
    congr 1
    simp only [Odometer.indicesFrom]
    exact List.map_congr_left fun k _ => indexAt_congr hsame k

/-- **Over an array that is not walkable the loop runs off its vectors**, when the visits
keep an invariant or end in the same error. -/
theorem walkArray_of_not_walkable {σ : Type} {go : σ → Bool}
    {visit : List (BitVec 32) → σ → Run σ} {bounds : List SafeArrayBound} {total : BitVec 32}
    (hpos : 0 < elementCount bounds) (htotal : total.toNat = elementCount bounds)
    (h : ¬ Walkable bounds) (P : ℕ → σ → Prop) {s : σ} (hs : P 0 s)
    (hgo : ∀ n s, P n s → n < elementCount bounds → go s = true)
    (hstep : ∀ n s is k, P n s → n < elementCount bounds →
      safeArrayPtrOfIndex bounds is = some k → k < elementCount bounds →
      visit is s = .error .fault ∨ ∃ s', visit is s = .ok s' ∧ P (n + 1) s') :
    walkArray go visit bounds total s = .error .fault := by
  cases bounds with
  | nil => exact absurd trivial h
  | cons b bs =>
    have hradix : ∀ c ∈ b :: bs, 0 < loopExtent c ∧ loopExtent c ≤ extent c := by
      intro c hc
      have := extent_pos hpos c hc
      unfold loopExtent
      split <;> omega
    obtain ⟨hcpos, hcle, hclt⟩ := count_loopExtent_le hpos
    by_cases hb : indexEnd b < 2 ^ 31
    · -- some other dimension stalls: the vectors run out before the cells
      have hstall : ∃ c ∈ b :: bs, ¬ indexEnd c ≤ 2 ^ 31 := by
        by_contra hall
        push Not at hall
        exact h ⟨hb, fun c hc => hall c (by simp [hc])⟩
      have hless := hclt hstall
      obtain ⟨missing, hmissing⟩ : ∃ m, elementCount (b :: bs) =
          Odometer.count loopExtent (b :: bs) + m := ⟨_, (Nat.add_sub_of_le hcle).symm⟩
      have hwalk := carryLoop.walk_eq_sweep loopExtent loopIndex b bs Stuck.fault Stuck.fuel go visit
        (fun e _ => counts_loopExtent e) (fun j hj => inside_loopIndex hb hj) hcpos
        missing (2 * elementCount (b :: bs) + 1) (by omega) s
      rw [← hmissing] at hwalk
      rw [walkArray, htotal, hwalk]
      have hsweep := Odometer.sweep_invariant go visit Stuck.fault P
        (Odometer.indicesFrom loopExtent loopIndex (b :: bs) 0
          (Odometer.count loopExtent (b :: bs))) 0
        (by
          intro is his n s hn hP
          rw [Odometer.length_indicesFrom, Nat.zero_add] at hn
          obtain ⟨k, -, rfl⟩ := List.mem_map.mp his
          obtain ⟨k', hk', hlt⟩ := exists_safeArrayPtrOfIndex hradix k
          exact ⟨hgo n s hP (by omega), hstep n s _ k' hP (by omega) hk' hlt⟩) hs
      rw [Odometer.length_indicesFrom, Nat.zero_add] at hsweep
      rcases hsweep with herr | ⟨s', hs', hP⟩
      · rw [herr]
        rfl
      · rw [hs']
        change Odometer.overrun Stuck.fault go missing s' = _
        rw [Odometer.overrun, if_neg (by omega), if_pos (hgo _ s' hP hless)]
    · -- the leftmost dimension is never inside
      have htail := (count_loopExtent_le
        (Nat.pos_of_mul_pos_left (a := extent b) (b := elementCount bs) hpos)).2.1
      have htpos := (count_loopExtent_le
        (Nat.pos_of_mul_pos_left (a := extent b) (b := elementCount bs) hpos)).1
      have hfuel : elementCount bs ≤ elementCount (b :: bs) :=
        Nat.le_mul_of_pos_left _ (extent_pos hpos b (by simp))
      have hwalk := carryLoop.walk_oob loopExtent loopIndex b bs Stuck.fault Stuck.fuel go visit
        (fun e _ => counts_loopExtent e) (inside_lower_of_overflow hb) total.toNat s
        (hgo 0 s hs hpos) (Odometer.count loopExtent bs) 0 (Nat.zero_add _) htpos
        (2 * elementCount (b :: bs) + 1) (by omega)
      rwa [← Odometer.map_lower_eq_indexAt fun e _ => counts_loopExtent e] at hwalk

end IspSession.Analysis
