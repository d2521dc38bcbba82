import IspSession.Library.OrderedMap

/-!
# Search trees

The tree behind an ordered container, searched the way such containers are: down to the
first entry that is not below the key. Every operation is given the comparison it works
with, which need not be the one the tree was built with.

As long as the entries ascend under the comparison, the tree is an `OrderedMap`: `Shows`
relates the two, and each operation on one shows that on the other.
-/

set_option autoImplicit false

namespace IspSession.Library

open Std (TransCmp OrientedCmp)

/-- A binary tree with an entry at each node. -/
inductive SearchTree (κ ν : Type)
  | leaf
  | node (left : SearchTree κ ν) (key : κ) (value : ν) (right : SearchTree κ ν)

namespace SearchTree

variable {κ ν : Type} (cmp : κ → κ → Ordering) (k : κ)

/-- The entries from left to right. -/
def entries : SearchTree κ ν → List (κ × ν)
  | leaf => []
  | node l key value r => l.entries ++ (key, value) :: r.entries

/-- The entry at the last node of the search that is not below the key. -/
def lowerBound : SearchTree κ ν → Option (κ × ν)
  | leaf => none
  | node l key value r =>
    if cmp key k = .lt then r.lowerBound else l.lowerBound.or (some (key, value))

/-- The value under the key: the search has ended at an entry that is not above it. -/
def find (t : SearchTree κ ν) : Option ν :=
  match t.lowerBound cmp k with
  | none => none
  | some e => if cmp k e.1 = .lt then none else some e.2

/-- A new leaf where the search has ended. -/
def addLeaf (v : ν) : SearchTree κ ν → SearchTree κ ν
  | leaf => node leaf k v leaf
  | node l key value r =>
    if cmp key k = .lt then node l key value (r.addLeaf v) else node (l.addLeaf v) key value r

/-- Container insertion: no effect when the key is found. -/
def insert (v : ν) (t : SearchTree κ ν) : SearchTree κ ν :=
  if (t.find cmp k).isSome then t else t.addLeaf cmp k v

/-- The entries of two trees in one. -/
def join : SearchTree κ ν → SearchTree κ ν → SearchTree κ ν
  | leaf, r => r
  | node l key value m, r => node l key value (m.join r)

/-- Changing the value at the node where `lowerBound` is, or removing that node. -/
def alterBound (f : ν → Option ν) : SearchTree κ ν → SearchTree κ ν
  | leaf => leaf
  | node l key value r =>
    if cmp key k = .lt then node l key value (r.alterBound f)
    else if (l.lowerBound cmp k).isSome then node (l.alterBound f) key value r
    else
      match f value with
      | some value => node l key value r
      | none => l.join r

/-- Changing the value under the key, if it is found, or removing it. -/
def alter (f : ν → Option ν) (t : SearchTree κ ν) : SearchTree κ ν :=
  if (t.find cmp k).isSome then t.alterBound cmp k f else t

@[simp] theorem entries_leaf : (leaf : SearchTree κ ν).entries = [] := rfl

@[simp] theorem entries_node (l r : SearchTree κ ν) (key : κ) (value : ν) :
    (node l key value r).entries = l.entries ++ (key, value) :: r.entries := rfl

@[simp] theorem entries_join (l r : SearchTree κ ν) :
    (l.join r).entries = l.entries ++ r.entries := by
  induction l with
  | leaf => rfl
  | node l key value m _ ih => simp [join, ih]

/-! ## Ascending entries -/

/-- The entries ascend. -/
def Sorted (t : SearchTree κ ν) : Prop := t.entries.Pairwise fun a b => cmp a.1 b.1 = .lt

variable {cmp k}

/-- INTERNAL: a sorted node. -/
theorem sorted_node {l r : SearchTree κ ν} {key : κ} {value : ν}
    (h : (node l key value r).Sorted cmp) :
    l.Sorted cmp ∧ r.Sorted cmp ∧ (∀ e ∈ l.entries, cmp e.1 key = .lt) ∧
      ∀ e ∈ r.entries, cmp key e.1 = .lt := by
  rw [Sorted, entries_node, List.pairwise_append, List.pairwise_cons] at h
  exact ⟨h.1, h.2.1.2, fun e he => h.2.2 e he (key, value) (by simp), h.2.1.1⟩

section Search

variable [TransCmp cmp]

/-- INTERNAL: the entries to the left of one below the key are below the key. -/
theorem below_of_left {l : SearchTree κ ν} {key : κ} (hl : ∀ e ∈ l.entries, cmp e.1 key = .lt)
    (hk : cmp key k = .lt) : ∀ e ∈ l.entries, cmp e.1 k = .lt :=
  fun e he => TransCmp.lt_trans (hl e he) hk

/-- **Where a search ends**: at the first entry that is not below the key. -/
theorem lowerBound_eq {t : SearchTree κ ν} (h : t.Sorted cmp) :
    t.lowerBound cmp k = t.entries.find? fun e => decide (cmp e.1 k ≠ .lt) := by
  induction t with
  | leaf => rfl
  | node l key value r ihl ihr =>
    obtain ⟨hl, hr, hleft, -⟩ := sorted_node h
    rw [lowerBound, entries_node, List.find?_append]
    by_cases hk : cmp key k = .lt
    · have hnone : (l.entries.find? fun e => decide (cmp e.1 k ≠ .lt)) = none := by
        rw [List.find?_eq_none]
        intro e he
        simp [below_of_left hleft hk e he]
      rw [if_pos hk, hnone, Option.none_or, List.find?_cons_of_neg (by simp [hk]), ihr hr]
    · rw [if_neg hk, List.find?_cons_of_pos (by simp [hk]), ihl hl]

/-- INTERNAL: nothing is found exactly when all entries are below the key. -/
theorem lowerBound_eq_none {t : SearchTree κ ν} (h : t.Sorted cmp)
    (hnone : t.lowerBound cmp k = none) : ∀ e ∈ t.entries, cmp e.1 k = .lt := by
  rw [lowerBound_eq h, List.find?_eq_none] at hnone
  intro e he
  simpa using hnone e he

/-- INTERNAL: where the search ends there is an entry, which is not below the key. -/
theorem lowerBound_eq_some {t : SearchTree κ ν} (h : t.Sorted cmp) {e : κ × ν}
    (hsome : t.lowerBound cmp k = some e) : e ∈ t.entries ∧ cmp e.1 k ≠ .lt := by
  rw [lowerBound_eq h] at hsome
  exact ⟨List.mem_of_find?_eq_some hsome, by simpa using List.find?_some hsome⟩

/-- INTERNAL: what an equal key is compared to is on one side of it. -/
theorem ne_eq_of_lt {a b : κ} (h : cmp a b = .lt) : cmp b a ≠ .eq := by
  rw [show cmp b a = (cmp a b).swap from OrientedCmp.eq_swap, h]
  simp

end Search

/-! ## The map that a tree shows -/

/-- The tree has the entries of the map. -/
def Shows (t : SearchTree κ ν) (m : OrderedMap cmp ν) : Prop := t.entries = m.entries

theorem Shows.sorted {t : SearchTree κ ν} {m : OrderedMap cmp ν} (h : t.Shows m) :
    t.Sorted cmp := by
  rw [Sorted, show t.entries = m.entries from h]
  exact m.sorted

variable [TransCmp cmp] {t : SearchTree κ ν} {m : OrderedMap cmp ν}

/-- **A search finds what the map holds.** -/
theorem Shows.find (h : t.Shows m) (k : κ) : t.find cmp k = m.find k := by
  rw [SearchTree.find]
  cases hbound : t.lowerBound cmp k with
  | none =>
    have hbelow := lowerBound_eq_none h.sorted hbound
    symm
    rw [OrderedMap.find, Option.map_eq_none_iff, List.find?_eq_none]
    intro e he
    have hlt := hbelow e (h.symm ▸ he)
    simpa using ne_eq_of_lt hlt
  | some e =>
    obtain ⟨he, hge⟩ := lowerBound_eq_some h.sorted hbound
    rw [show t.entries = m.entries from h] at he
    by_cases hlt : cmp k e.1 = .lt
    · -- the entries before it are below the key, those behind it above
      dsimp only
      rw [if_pos hlt]
      symm
      rw [OrderedMap.find, Option.map_eq_none_iff, List.find?_eq_none]
      rw [lowerBound_eq h.sorted, show t.entries = m.entries from h,
        List.find?_eq_some_iff_append] at hbound
      obtain ⟨-, before, behind, hentries, hbefore⟩ := hbound
      have hsorted := m.sorted
      rw [hentries, List.pairwise_append, List.pairwise_cons] at hsorted
      intro e' he'
      rw [hentries, List.mem_append, List.mem_cons] at he'
      rcases he' with he' | rfl | he'
      · have hbelow := hbefore e' he'
        simp only [ne_eq, decide_not, Bool.not_not, decide_eq_true_eq] at hbelow
        simpa using ne_eq_of_lt hbelow
      · simp [hlt]
      · simp [TransCmp.lt_trans hlt (hsorted.2.1.1 e' he')]
    · dsimp only
      rw [if_neg hlt]
      have heq : cmp k e.1 = .eq := by
        cases hcmp : cmp k e.1 with
        | lt => exact absurd hcmp hlt
        | eq => rfl
        | gt => exact absurd (OrientedCmp.gt_iff_lt.mp hcmp) hge
      rw [m.find_congr heq]
      exact (OrderedMap.find_of_mem he).symm

/-- INTERNAL: a new leaf is where the map inserts an entry. -/
theorem entries_addLeaf {t : SearchTree κ ν} (h : t.Sorted cmp) (v : ν)
    (hnew : ∀ e ∈ t.entries, cmp k e.1 ≠ .eq) :
    (t.addLeaf cmp k v).entries = OrderedMap.insertEntry cmp k v t.entries := by
  induction t with
  | leaf => rfl
  | node l key value r ihl ihr =>
    obtain ⟨hl, hr, hleft, -⟩ := sorted_node h
    rw [addLeaf, entries_node]
    by_cases hk : cmp key k = .lt
    · have hbelow : ∀ e ∈ l.entries ++ [(key, value)], cmp e.1 k = .lt := by
        intro e he
        rcases List.mem_append.mp he with he | he
        · exact below_of_left hleft hk e he
        · rw [List.mem_singleton.mp he]
          exact hk
      have hrest := OrderedMap.insertEntry_append_of_below (k := k) (v := v) hbelow r.entries
      rw [List.append_assoc, List.singleton_append] at hrest
      rw [if_pos hk, entries_node, ihr hr fun e he => hnew e (by simp [he]), hrest]
      simp
    · have habove : cmp k key = .lt := by
        cases hcmp : cmp k key with
        | lt => rfl
        | eq => exact absurd hcmp (hnew (key, value) (by simp))
        | gt => exact absurd (OrientedCmp.gt_iff_lt.mp hcmp) hk
      rw [if_neg hk, entries_node, ihl hl fun e he => hnew e (by simp [he]),
        OrderedMap.insertEntry_append_of_above habove]

/-- **An insertion.** -/
theorem Shows.insert (h : t.Shows m) (k : κ) (v : ν) :
    (t.insert cmp k v).Shows (m.insert k v) := by
  rw [SearchTree.insert, h.find]
  cases hfind : m.find k with
  | some v' =>
    rw [if_pos (by rfl), OrderedMap.insert_of_find v hfind]
    exact h
  | none =>
    rw [if_neg (by simp)]
    have hnew : ∀ e ∈ t.entries, cmp k e.1 ≠ .eq := by
      rw [OrderedMap.find, Option.map_eq_none_iff, List.find?_eq_none] at hfind
      intro e he
      simpa using hfind e (show e ∈ m.entries from h ▸ he)
    show (t.addLeaf cmp k v).entries = OrderedMap.insertEntry cmp k v m.entries
    rw [entries_addLeaf h.sorted v hnew, show t.entries = m.entries from h]

/-- INTERNAL: what is altered of an entry. -/
def altered (cmp : κ → κ → Ordering) (k : κ) (f : ν → Option ν) (e : κ × ν) : Option (κ × ν) :=
  if cmp k e.1 = .eq then (f e.2).map (Prod.mk e.1) else some e

omit [TransCmp cmp] in
/-- INTERNAL: entries with other keys stay. -/
theorem filterMap_altered {l : List (κ × ν)} (f : ν → Option ν)
    (h : ∀ e ∈ l, cmp k e.1 ≠ .eq) : l.filterMap (altered cmp k f) = l := by
  have hsame : l.filterMap (altered cmp k f) = l.filterMap some :=
    List.filterMap_congr fun e he => if_neg (h e he)
  rw [hsame, List.filterMap_some]

/-- INTERNAL: the node where the search ends is the one with the key. -/
theorem entries_alterBound {t : SearchTree κ ν} (h : t.Sorted cmp) (f : ν → Option ν)
    {e : κ × ν} (hbound : t.lowerBound cmp k = some e) (heq : cmp k e.1 = .eq) :
    (t.alterBound cmp k f).entries = t.entries.filterMap (altered cmp k f) := by
  induction t with
  | leaf => cases hbound
  | node l key value r ihl ihr =>
    obtain ⟨hl, hr, hleft, hright⟩ := sorted_node h
    have habove : ∀ {a : κ}, cmp a key = .lt → cmp k a = .eq → ∀ e ∈ r.entries,
        cmp k e.1 ≠ .eq := by
      intro a ha hka e he
      rw [TransCmp.congr_left hka, TransCmp.lt_trans ha (hright e he)]
      simp
    rw [alterBound, entries_node, List.filterMap_append, List.filterMap_cons]
    rw [lowerBound] at hbound
    by_cases hk : cmp key k = .lt
    · rw [if_pos hk] at hbound ⊢
      have hkey : altered cmp k f (key, value) = some (key, value) := if_neg (ne_eq_of_lt hk)
      rw [entries_node, ihr hr hbound, hkey,
        filterMap_altered f fun e he => ne_eq_of_lt (below_of_left hleft hk e he)]
    · rw [if_neg hk] at hbound ⊢
      cases hl' : l.lowerBound cmp k with
      | some e' =>
        rw [hl', Option.some_or] at hbound
        cases hbound
        have hlt := hleft e (lowerBound_eq_some hl hl').1
        have hkey : altered cmp k f (key, value) = some (key, value) := by
          refine if_neg ?_
          rw [TransCmp.congr_left heq, hlt]
          simp
        rw [if_pos (by rfl), entries_node, ihl hl hl', hkey,
          filterMap_altered f (habove hlt heq)]
      | none =>
        rw [hl', Option.none_or] at hbound
        cases hbound
        have hbelow : l.entries.filterMap (altered cmp k f) = l.entries :=
          filterMap_altered f fun e he => ne_eq_of_lt (lowerBound_eq_none hl hl' e he)
        have hbehind : r.entries.filterMap (altered cmp k f) = r.entries := by
          refine filterMap_altered f fun e he => ?_
          rw [TransCmp.congr_left heq, hright e he]
          simp
        have hkey : altered cmp k f (key, value) = (f value).map (Prod.mk key) := if_pos heq
        rw [if_neg (by simp), hbelow, hbehind, hkey]
        cases f value with
        | some value' => rfl
        | none => exact entries_join l r

/-- INTERNAL: altering what is found. -/
theorem Shows.entries_alter (h : t.Shows m) (k : κ) (f : ν → Option ν) :
    (t.alter cmp k f).entries = m.entries.filterMap (altered cmp k f) := by
  rw [alter, h.find]
  cases hfind : m.find k with
  | none =>
    rw [if_neg (by simp), show t.entries = m.entries from h, filterMap_altered f]
    rw [OrderedMap.find, Option.map_eq_none_iff, List.find?_eq_none] at hfind
    intro e he
    simpa using hfind e he
  | some v =>
    rw [if_pos (by rfl)]
    have hfind' := h.find k
    rw [hfind, SearchTree.find] at hfind'
    cases hbound : t.lowerBound cmp k with
    | none =>
      rw [hbound] at hfind'
      cases hfind'
    | some e =>
      rw [hbound] at hfind'
      dsimp only at hfind'
      have heq : cmp k e.1 = .eq := by
        cases hcmp : cmp k e.1 with
        | lt =>
          rw [if_pos hcmp] at hfind'
          cases hfind'
        | eq => rfl
        | gt => exact absurd (OrientedCmp.gt_iff_lt.mp hcmp) (lowerBound_eq_some h.sorted hbound).2
      rw [entries_alterBound h.sorted f hbound heq, show t.entries = m.entries from h]

/-- **Changing a value.** -/
theorem Shows.change (h : t.Shows m) (k : κ) (f : ν → ν) :
    (t.alter cmp k fun v => some (f v)).Shows (m.modify k f) := by
  rw [Shows, h.entries_alter, OrderedMap.entries_modify, ← List.filterMap_eq_map]
  refine List.filterMap_congr fun e _ => ?_
  by_cases hk : cmp k e.1 = .eq
  · simp [altered, hk]
  · simp [altered, hk]

/-- **Removing a key.** -/
theorem Shows.erase (h : t.Shows m) (k : κ) : (t.alter cmp k fun _ => none).Shows (m.erase k) := by
  show (t.alter cmp k fun _ => none).entries = m.entries.filter fun e => cmp k e.1 != .eq
  rw [h.entries_alter, ← List.filterMap_eq_filter]
  refine List.filterMap_congr fun e _ => ?_
  by_cases hk : cmp k e.1 = .eq
  · simp [altered, hk, Option.guard]
  · simp [altered, hk, Option.guard]

end SearchTree

end IspSession.Library
