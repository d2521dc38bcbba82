import Mathlib.Data.List.Basic

/-!
# Maps ordered by a comparison

`OrderedMap cmp ν` is a list of entries kept strictly ascending under the comparison
`cmp`, with the operations of an ordered container: `insert` leaves an entry with an
equivalent key alone, `assign` overwrites the value of an existing entry and keeps
its key, `erase` removes an entry. Keys that compare equal are the same key of the
map even when they differ as texts.

The laws relate each operation to `find`; `insertAll_reverse` says that inserting the
entries of a map from the last to the first rebuilds the map.
-/

set_option autoImplicit false

namespace IspSession.Library

open Std (TransCmp OrientedCmp)

/-- A map whose entries ascend strictly under `cmp`. -/
structure OrderedMap {κ : Type} (cmp : κ → κ → Ordering) (ν : Type) where
  /-- The entries, in ascending order of their keys. -/
  entries : List (κ × ν)
  /-- Neighbours and all later entries ascend strictly. -/
  sorted : entries.Pairwise fun a b => cmp a.1 b.1 = .lt

namespace OrderedMap

variable {κ ν : Type} {cmp : κ → κ → Ordering}

/-- Maps with the same entries are equal. -/
@[ext] theorem ext {m m' : OrderedMap cmp ν} (h : m.entries = m'.entries) : m = m' := by
  cases m; cases m'; cases h; rfl

/-- The map without entries. -/
def empty : OrderedMap cmp ν := ⟨[], List.Pairwise.nil⟩

@[simp] theorem entries_empty : (empty : OrderedMap cmp ν).entries = [] := rfl

/-- The number of entries. -/
def size (m : OrderedMap cmp ν) : ℕ := m.entries.length

/-- The value stored under a key equivalent to `k`. -/
def find (m : OrderedMap cmp ν) (k : κ) : Option ν :=
  (m.entries.find? fun e => cmp k e.1 == .eq).map Prod.snd

/-- The keys, ascending. -/
def keys (m : OrderedMap cmp ν) : List κ := m.entries.map Prod.fst

/-- What is found is stored under an equivalent key. -/
theorem exists_of_find {m : OrderedMap cmp ν} {k : κ} {v : ν} (h : m.find k = some v) :
    ∃ e ∈ m.entries, cmp k e.1 = .eq ∧ e.2 = v := by
  obtain ⟨e, he, rfl⟩ := Option.map_eq_some_iff.mp h
  exact ⟨e, List.mem_of_find?_eq_some he, by simpa using List.find?_some he, rfl⟩

/-- INTERNAL: the same for an entry list. -/
theorem eq_of_equiv_aux [TransCmp cmp] {l : List (κ × ν)}
    (hl : l.Pairwise fun a b => cmp a.1 b.1 = .lt) {e e' : κ × ν} (he : e ∈ l) (he' : e' ∈ l)
    (h : cmp e.1 e'.1 = .eq) : e = e' := by
  induction l with
  | nil => cases he
  | cons a l ih =>
    rw [List.pairwise_cons] at hl
    rcases List.mem_cons.mp he with hea | hel <;> rcases List.mem_cons.mp he' with hea' | hel'
    · rw [hea, hea']
    · rw [hea, hl.1 e' hel'] at h
      cases h
    · have hlt := hl.1 e hel
      rw [← hea', OrientedCmp.eq_symm h] at hlt
      cases hlt
    · exact ih hl.2 hel hel'

/-- Entries with equivalent keys are the same. -/
theorem eq_of_equiv [TransCmp cmp] {m : OrderedMap cmp ν} {e e' : κ × ν} (he : e ∈ m.entries)
    (he' : e' ∈ m.entries) (h : cmp e.1 e'.1 = .eq) : e = e' :=
  eq_of_equiv_aux m.sorted he he' h

/-- Every entry is found under its own key. -/
theorem find_of_mem [TransCmp cmp] {m : OrderedMap cmp ν} {e : κ × ν} (he : e ∈ m.entries) :
    m.find e.1 = some e.2 := by
  cases hf : m.find e.1 with
  | none =>
    rw [find, Option.map_eq_none_iff, List.find?_eq_none] at hf
    exact absurd Std.ReflCmp.compare_self (by simpa using hf e he)
  | some v =>
    obtain ⟨e', he', hk, rfl⟩ := exists_of_find hf
    rw [eq_of_equiv he he' hk]

/-- Applying a function to every value, which may look at the key. -/
def mapValues {μ : Type} (f : κ → ν → μ) (m : OrderedMap cmp ν) : OrderedMap cmp μ where
  entries := m.entries.map fun e => (e.1, f e.1 e.2)
  sorted := by
    rw [List.pairwise_map]
    exact m.sorted

@[simp] theorem entries_mapValues {μ : Type} (f : κ → ν → μ) (m : OrderedMap cmp ν) :
    (m.mapValues f).entries = m.entries.map fun e => (e.1, f e.1 e.2) := rfl

/-- A map over values that stay put is the map itself. -/
theorem mapValues_eq_self {f : κ → ν → ν} {m : OrderedMap cmp ν}
    (h : ∀ e ∈ m.entries, f e.1 e.2 = e.2) : m.mapValues f = m := by
  apply ext
  rw [entries_mapValues]
  conv_rhs => rw [← List.map_id m.entries]
  apply List.map_congr_left
  intro e he
  rw [h e he, id]

/-- Insertion into an entry list: an entry with an equivalent key stays. -/
def insertEntry (cmp : κ → κ → Ordering) (k : κ) (v : ν) : List (κ × ν) → List (κ × ν)
  | [] => [(k, v)]
  | e :: l =>
    match cmp k e.1 with
    | .lt => (k, v) :: e :: l
    | .eq => e :: l
    | .gt => e :: insertEntry cmp k v l

/-- An insertion behind entries that are below the key. -/
theorem insertEntry_append_of_below [OrientedCmp cmp] {k : κ} {v : ν} {l : List (κ × ν)}
    (h : ∀ e ∈ l, cmp e.1 k = .lt) (r : List (κ × ν)) :
    insertEntry cmp k v (l ++ r) = l ++ insertEntry cmp k v r := by
  induction l with
  | nil => rfl
  | cons a l ih =>
    have hgt : cmp k a.1 = .gt := OrientedCmp.gt_iff_lt.mpr (h a (by simp))
    rw [List.cons_append, insertEntry, hgt]
    exact congrArg (a :: ·) (ih fun e he => h e (by simp [he]))

/-- An insertion in front of an entry that is above the key. -/
theorem insertEntry_append_of_above {k : κ} {v : ν} {e : κ × ν} (h : cmp k e.1 = .lt)
    {l r : List (κ × ν)} :
    insertEntry cmp k v (l ++ e :: r) = insertEntry cmp k v l ++ e :: r := by
  induction l with
  | nil => simp [insertEntry, h]
  | cons a l ih =>
    rw [List.cons_append, insertEntry, insertEntry]
    split
    · rfl
    · rfl
    · rw [ih]
      rfl

/-- Every entry after an insertion was there or is the new one. -/
theorem mem_insertEntry {k : κ} {v : ν} {l : List (κ × ν)} {e : κ × ν}
    (h : e ∈ insertEntry cmp k v l) : e = (k, v) ∨ e ∈ l := by
  induction l with
  | nil => simpa [insertEntry] using h
  | cons a l ih =>
    simp only [insertEntry] at h
    split at h
    · simpa using h
    · exact .inr h
    · rcases List.mem_cons.mp h with rfl | h
      · exact .inr (by simp)
      · rcases ih h with rfl | h
        · exact .inl rfl
        · exact .inr (by simp [h])

/-- Insertion keeps the entries ascending. -/
theorem sorted_insertEntry [TransCmp cmp] (k : κ) (v : ν) {l : List (κ × ν)}
    (h : l.Pairwise fun a b => cmp a.1 b.1 = .lt) :
    (insertEntry cmp k v l).Pairwise fun a b => cmp a.1 b.1 = .lt := by
  induction l with
  | nil => simp [insertEntry]
  | cons a l ih =>
    rw [List.pairwise_cons] at h
    simp only [insertEntry]
    split
    · rename_i hlt
      rw [List.pairwise_cons]
      refine ⟨?_, List.pairwise_cons.mpr h⟩
      intro b hb
      rcases List.mem_cons.mp hb with rfl | hb
      · exact hlt
      · exact TransCmp.lt_trans hlt (h.1 b hb)
    · exact List.pairwise_cons.mpr h
    · rename_i hgt
      rw [List.pairwise_cons]
      refine ⟨?_, ih h.2⟩
      intro b hb
      rcases mem_insertEntry hb with rfl | hb
      · exact OrientedCmp.gt_iff_lt.mp hgt
      · exact h.1 b hb

/-- Container insertion: no effect when an equivalent key is present. -/
def insert [TransCmp cmp] (m : OrderedMap cmp ν) (k : κ) (v : ν) : OrderedMap cmp ν where
  entries := insertEntry cmp k v m.entries
  sorted := sorted_insertEntry k v m.sorted

/-- Overwriting the value of an existing entry; no effect when there is none. -/
def assign (m : OrderedMap cmp ν) (k : κ) (v : ν) : OrderedMap cmp ν where
  entries := m.entries.map fun e => if cmp k e.1 = .eq then (e.1, v) else e
  sorted := by
    rw [List.pairwise_map]
    refine m.sorted.imp fun {a b} h => ?_
    split <;> split <;> exact h

/-- Changing the value of an existing entry; no effect when there is none. -/
def modify (m : OrderedMap cmp ν) (k : κ) (f : ν → ν) : OrderedMap cmp ν where
  entries := m.entries.map fun e => if cmp k e.1 = .eq then (e.1, f e.2) else e
  sorted := by
    rw [List.pairwise_map]
    refine m.sorted.imp fun {a b} h => ?_
    split <;> split <;> exact h

theorem entries_modify (m : OrderedMap cmp ν) (k : κ) (f : ν → ν) :
    (m.modify k f).entries = m.entries.map fun e => if cmp k e.1 = .eq then (e.1, f e.2) else e :=
  rfl

/-- Inserting an entry or overwriting the one that is there. -/
def upsert [TransCmp cmp] (m : OrderedMap cmp ν) (k : κ) (v : ν) : OrderedMap cmp ν :=
  (m.insert k v).assign k v

/-- Removing the entry with an equivalent key, if any. -/
def erase (m : OrderedMap cmp ν) (k : κ) : OrderedMap cmp ν where
  entries := m.entries.filter fun e => cmp k e.1 != .eq
  sorted := m.sorted.filter _

/-! ## Entries after each operation -/

/-- Every entry after an assignment was there, or is an old one with the new value. -/
theorem mem_assign {m : OrderedMap cmp ν} {k : κ} {v : ν} {e : κ × ν}
    (h : e ∈ (m.assign k v).entries) :
    e ∈ m.entries ∨ (cmp k e.1 = .eq ∧ e.2 = v ∧ ∃ v', (e.1, v') ∈ m.entries) := by
  obtain ⟨e', he', heq⟩ := List.mem_map.mp h
  split at heq
  · rename_i hk
    subst heq
    exact .inr ⟨hk, rfl, e'.2, he'⟩
  · subst heq
    exact .inl he'

/-- Every entry after an upsert was there, is the new one, or an old one with the new
value. -/
theorem mem_upsert [TransCmp cmp] {m : OrderedMap cmp ν} {k : κ} {v : ν} {e : κ × ν}
    (h : e ∈ (m.upsert k v).entries) :
    e ∈ m.entries ∨ e = (k, v) ∨
      (cmp k e.1 = .eq ∧ e.2 = v ∧ ∃ v', (e.1, v') ∈ m.entries) := by
  rcases mem_assign h with h | ⟨hk, hv, v', h⟩
  · rcases mem_insertEntry h with h | h
    · exact .inr (.inl h)
    · exact .inl h
  · rcases mem_insertEntry h with h | h
    · obtain rfl : e.1 = k := congrArg Prod.fst h
      exact .inr (.inl (Prod.ext rfl hv))
    · exact .inr (.inr ⟨hk, hv, v', h⟩)

/-- INTERNAL: an insertion where an equivalent key is present. -/
theorem insertEntry_of_mem [TransCmp cmp] {k : κ} (v : ν) {l : List (κ × ν)}
    (hl : l.Pairwise fun a b => cmp a.1 b.1 = .lt) {e : κ × ν} (he : e ∈ l)
    (hk : cmp k e.1 = .eq) : insertEntry cmp k v l = l := by
  induction l with
  | nil => cases he
  | cons a l ih =>
    rw [List.pairwise_cons] at hl
    simp only [insertEntry]
    rcases List.mem_cons.mp he with rfl | he
    · rw [hk]
    · have hgt : cmp k a.1 = .gt := by
        rw [TransCmp.congr_left hk]
        exact OrientedCmp.gt_iff_lt.mpr (hl.1 e he)
      rw [hgt]
      simp only [ih hl.2 he]

/-- An insertion has no effect where an equivalent key is present. -/
theorem insert_of_mem [TransCmp cmp] {m : OrderedMap cmp ν} {k : κ} (v : ν) {e : κ × ν}
    (he : e ∈ m.entries) (hk : cmp k e.1 = .eq) : m.insert k v = m :=
  ext (insertEntry_of_mem v m.sorted he hk)

/-- INTERNAL: the inserted key is present after an insertion. -/
theorem exists_mem_insertEntry [TransCmp cmp] (k : κ) (v : ν) (l : List (κ × ν)) :
    ∃ e ∈ insertEntry cmp k v l, cmp k e.1 = .eq := by
  induction l with
  | nil => exact ⟨(k, v), by simp [insertEntry], Std.ReflCmp.compare_self⟩
  | cons a l ih =>
    simp only [insertEntry]
    split
    · exact ⟨(k, v), by simp, Std.ReflCmp.compare_self⟩
    · rename_i heq
      exact ⟨a, by simp, heq⟩
    · obtain ⟨e, he, hk⟩ := ih
      exact ⟨e, by simp [he], hk⟩

/-- A second insertion under the same key has no effect. -/
theorem insert_insert [TransCmp cmp] (m : OrderedMap cmp ν) (k : κ) (v v' : ν) :
    (m.insert k v).insert k v' = m.insert k v := by
  obtain ⟨e, he, hk⟩ : ∃ e ∈ insertEntry cmp k v m.entries, cmp k e.1 = .eq :=
    exists_mem_insertEntry k v m.entries
  exact insert_of_mem v' he hk

/-- INTERNAL: assigning overwrites whatever was inserted in front of it. -/
theorem map_assign_insertEntry [TransCmp cmp] (k : κ) (v v' : ν) (l : List (κ × ν)) :
    (insertEntry cmp k v' l).map (fun e => if cmp k e.1 = .eq then (e.1, v) else e) =
      (insertEntry cmp k v l).map (fun e => if cmp k e.1 = .eq then (e.1, v) else e) := by
  have hself : cmp k k = .eq := Std.ReflCmp.compare_self
  induction l with
  | nil => simp [insertEntry, hself]
  | cons a l ih =>
    simp only [insertEntry]
    split
    · simp [hself]
    · rfl
    · simp only [List.map_cons, ih]

/-- An assignment behind an insertion is an upsert, whatever was inserted. -/
theorem assign_insert [TransCmp cmp] (m : OrderedMap cmp ν) (k : κ) (v v' : ν) :
    (m.insert k v').assign k v = m.upsert k v :=
  ext (map_assign_insertEntry k v v' m.entries)

/-- The last of two assignments counts. -/
theorem assign_assign (m : OrderedMap cmp ν) (k : κ) (v v' : ν) :
    (m.assign k v').assign k v = m.assign k v := by
  apply ext
  simp only [assign, List.map_map]
  apply List.map_congr_left
  intro e _
  by_cases h : cmp k e.1 = .eq <;> simp [h]

/-- So is an upsert behind an insertion. -/
theorem upsert_insert [TransCmp cmp] (m : OrderedMap cmp ν) (k : κ) (v v' : ν) :
    (m.insert k v').upsert k v = m.upsert k v := by
  rw [upsert, insert_insert, assign_insert]

/-- An insertion of a key that is not there is an upsert. -/
theorem insert_eq_self_or_upsert [TransCmp cmp] (m : OrderedMap cmp ν) (k : κ) (v : ν) :
    m.insert k v = m ∨ m.insert k v = m.upsert k v := by
  by_cases h : ∃ e ∈ m.entries, cmp k e.1 = .eq
  · obtain ⟨e, he, hk⟩ := h
    exact .inl (insert_of_mem v he hk)
  · refine .inr (ext ?_)
    change insertEntry cmp k v m.entries = (insertEntry cmp k v m.entries).map _
    conv_lhs => rw [← List.map_id (insertEntry cmp k v m.entries)]
    apply List.map_congr_left
    intro e he
    rcases mem_insertEntry he with rfl | he
    · split <;> rfl
    · rw [if_neg fun hk => h ⟨e, he, hk⟩, id]

/-! ## Mapping the values after each operation -/

section Mapping

variable {μ : Type} (f : ν → μ) (m : OrderedMap cmp ν) (k : κ) (v : ν)

/-- INTERNAL: mapping commutes with an insertion into an entry list. -/
theorem map_insertEntry (l : List (κ × ν)) :
    (insertEntry cmp k v l).map (fun e => (e.1, f e.2)) =
      insertEntry cmp k (f v) (l.map fun e => (e.1, f e.2)) := by
  induction l with
  | nil => rfl
  | cons a l ih =>
    simp only [insertEntry, List.map_cons]
    split
    · rfl
    · rfl
    · rw [List.map_cons, ih]

/-- Mapping commutes with an insertion. -/
theorem mapValues_insert [TransCmp cmp] :
    (m.insert k v).mapValues (fun _ => f) = (m.mapValues fun _ => f).insert k (f v) :=
  ext (map_insertEntry f k v m.entries)

/-- Mapping commutes with an assignment. -/
theorem mapValues_assign :
    (m.assign k v).mapValues (fun _ => f) = (m.mapValues fun _ => f).assign k (f v) := by
  apply ext
  simp only [entries_mapValues, assign, List.map_map]
  apply List.map_congr_left
  intro e _
  simp only [Function.comp_apply]
  split <;> rfl

/-- Mapping commutes with an upsert. -/
theorem mapValues_upsert [TransCmp cmp] :
    (m.upsert k v).mapValues (fun _ => f) = (m.mapValues fun _ => f).upsert k (f v) := by
  rw [upsert, upsert, mapValues_assign, mapValues_insert]

/-- Mapping commutes with a removal. -/
theorem mapValues_erase :
    (m.erase k).mapValues (fun _ => f) = (m.mapValues fun _ => f).erase k := by
  apply ext
  simp only [entries_mapValues, erase, List.filter_map]
  rfl

end Mapping

/-! ## Lookups after each operation -/

@[simp] theorem find_empty (k : κ) : (empty : OrderedMap cmp ν).find k = none := rfl

section Lookup

variable [TransCmp cmp] (m : OrderedMap cmp ν) (k k' : κ) (v : ν)

/-- Equivalent keys find the same value. -/
theorem find_congr {k k' : κ} (h : cmp k k' = .eq) : m.find k = m.find k' := by
  simp only [find, TransCmp.congr_left h]

/-- INTERNAL: lookups in an entry list after an insertion. -/
theorem find?_insertEntry (l : List (κ × ν)) (h : l.Pairwise fun a b => cmp a.1 b.1 = .lt) :
    (insertEntry cmp k v l).find? (fun e => cmp k' e.1 == .eq) =
      (l.find? fun e => cmp k' e.1 == .eq).or
        (if cmp k' k = .eq then some (k, v) else none) := by
  induction l with
  | nil => by_cases hk : cmp k' k = .eq <;> simp [insertEntry, hk]
  | cons a l ih =>
    rw [List.pairwise_cons] at h
    simp only [insertEntry]
    split
    · rename_i hlt
      by_cases hk : cmp k' k = .eq
      · -- nothing later is equivalent to a key below the head
        have hnone : (a :: l).find? (fun e => cmp k' e.1 == .eq) = none := by
          rw [List.find?_eq_none]
          intro e he
          have hke : cmp k e.1 = .lt := by
            rcases List.mem_cons.mp he with rfl | he
            · exact hlt
            · exact TransCmp.lt_trans hlt (h.1 e he)
          simp [TransCmp.congr_left hk, hke]
        rw [hnone, List.find?_cons]
        simp [hk]
      · rw [List.find?_cons_of_neg (by simpa using hk)]
        simp [hk]
    · rename_i heq
      by_cases hk : cmp k' k = .eq
      · have : cmp k' a.1 = .eq := TransCmp.eq_trans hk heq
        simp [this]
      · simp [hk]
    · by_cases ha : cmp k' a.1 = .eq
      · simp [ha]
      · simp [ha, ih h.2]

/-- An insertion is found unless an equivalent key was there. -/
theorem find_insert :
    (m.insert k v).find k' =
      (m.find k').or (if cmp k' k = .eq then some v else none) := by
  simp only [find, insert, find?_insertEntry k k' v m.entries m.sorted]
  cases m.entries.find? (fun e => cmp k' e.1 == .eq) with
  | some e => simp
  | none => by_cases hk : cmp k' k = .eq <;> simp [hk]

/-- A change is found under every equivalent key that has an entry. -/
theorem find_modify (f : ν → ν) :
    (m.modify k f).find k' = if cmp k' k = .eq then (m.find k').map f else m.find k' := by
  simp only [find, modify]
  induction m.entries with
  | nil => simp
  | cons a l ih =>
    by_cases hk : cmp k' k = .eq
    · simp only [hk, if_true] at ih ⊢
      by_cases ha : cmp k a.1 = .eq
      · have hka : cmp k' a.1 = .eq := TransCmp.eq_trans hk ha
        simp [ha, hka]
      · have hka : ¬ cmp k' a.1 = .eq := by rwa [TransCmp.congr_left hk]
        simpa [ha, hka, List.find?_cons] using ih
    · simp only [hk, if_false] at ih ⊢
      by_cases ha : cmp k a.1 = .eq
      · have hka : ¬ cmp k' a.1 = .eq := by
          rwa [← TransCmp.congr_right ha]
        simpa [ha, hka, List.find?_cons] using ih
      · by_cases hka : cmp k' a.1 = .eq
        · simp [ha, hka]
        · simpa [ha, hka, List.find?_cons] using ih

/-- An assignment is found under every equivalent key that has an entry. -/
theorem find_assign :
    (m.assign k v).find k' =
      if cmp k' k = .eq then (m.find k').map fun _ => v else m.find k' :=
  m.find_modify k k' fun _ => v

/-- A stored value is found, every other key is found as before. -/
theorem find_upsert :
    (m.upsert k v).find k' = if cmp k' k = .eq then some v else m.find k' := by
  rw [upsert, find_assign, find_insert]
  by_cases h : cmp k' k = .eq
  · cases m.find k' <;> simp [h]
  · simp [h]

/-- An erased key is not found, every other one is found as before. -/
theorem find_erase :
    (m.erase k).find k' = if cmp k' k = .eq then none else m.find k' := by
  simp only [find, erase]
  induction m.entries with
  | nil => simp
  | cons a l ih =>
    by_cases hk : cmp k' k = .eq
    · simp only [hk, if_true] at ih ⊢
      by_cases ha : cmp k a.1 = .eq
      · simpa [ha] using ih
      · have hka : ¬ cmp k' a.1 = .eq := by rwa [TransCmp.congr_left hk]
        simpa [ha, hka, List.find?_cons] using ih
    · simp only [hk, if_false] at ih ⊢
      by_cases ha : cmp k a.1 = .eq
      · have hka : ¬ cmp k' a.1 = .eq := by rwa [← TransCmp.congr_right ha]
        simpa [ha, hka, List.find?_cons] using ih
      · by_cases hka : cmp k' a.1 = .eq
        · simp [ha, hka]
        · simpa [ha, hka, List.find?_cons] using ih

omit [TransCmp cmp] in
/-- Looking up a mapped value. -/
theorem find_mapValues {μ : Type} (f : ν → μ) :
    (m.mapValues fun _ => f).find k = (m.find k).map f := by
  simp only [find, entries_mapValues, List.find?_map, Option.map_map]
  rfl

variable {m k v}

/-- A change depends on the value under the key only. -/
theorem modify_congr {f g : ν → ν} (h : ∀ v, m.find k = some v → f v = g v) :
    m.modify k f = m.modify k g := by
  apply ext
  rw [entries_modify, entries_modify]
  refine List.map_congr_left fun e he => ?_
  by_cases hk : cmp k e.1 = .eq
  · rw [if_pos hk, if_pos hk, h e.2 ((m.find_congr hk).trans (find_of_mem he))]
  · rw [if_neg hk, if_neg hk]

omit [TransCmp cmp] in
/-- A change to the value that is there is none. -/
theorem modify_id : m.modify k (fun v => v) = m := by
  apply ext
  rw [entries_modify]
  refine (List.map_congr_left fun e _ => ?_).trans (List.map_id _)
  split <;> rfl

omit [TransCmp cmp] in
/-- Without a value under the key there is nothing to change. -/
theorem modify_of_find_none (f : ν → ν) (h : m.find k = none) : m.modify k f = m := by
  apply ext
  rw [find, Option.map_eq_none_iff, List.find?_eq_none] at h
  rw [entries_modify]
  conv_rhs => rw [← List.map_id m.entries]
  refine List.map_congr_left fun e he => if_neg ?_
  simpa using h e he

omit [TransCmp cmp] in
/-- Removing a key that is not there. -/
theorem erase_of_find_none (h : m.find k = none) : m.erase k = m := by
  rw [find, Option.map_eq_none_iff, List.find?_eq_none] at h
  apply ext
  rw [erase, List.filter_eq_self]
  intro e he
  simpa using h e he

/-- Inserting a key that is there. -/
theorem insert_of_find (v' : ν) (h : m.find k = some v) : m.insert k v' = m := by
  obtain ⟨e, he, hk, -⟩ := exists_of_find h
  exact insert_of_mem v' he hk

/-- Overwriting a value with itself. -/
theorem assign_of_find (h : m.find k = some v) : m.assign k v = m := by
  apply ext
  conv_rhs => rw [← List.map_id m.entries]
  apply List.map_congr_left
  intro e he
  split
  · rename_i hk
    have hfind := find_of_mem he
    rw [← m.find_congr hk, h, Option.some.injEq] at hfind
    exact Prod.ext rfl hfind
  · rfl

/-- Storing the value that is there. -/
theorem upsert_of_find (h : m.find k = some v) : m.upsert k v = m := by
  rw [upsert, insert_of_find v h, assign_of_find h]

end Lookup

/-! ## Rebuilding a map from its entries -/

section Rebuild

variable [TransCmp cmp]

/-- Inserting a list of entries one after the other. -/
def insertAll (m : OrderedMap cmp ν) (l : List (κ × ν)) : OrderedMap cmp ν :=
  l.foldl (fun m e => m.insert e.1 e.2) m

/-- A key below all others is inserted in front. -/
theorem entries_insert_of_lt (m : OrderedMap cmp ν) (k : κ) (v : ν)
    (h : ∀ e ∈ m.entries, cmp k e.1 = .lt) : (m.insert k v).entries = (k, v) :: m.entries := by
  simp only [insert]
  cases hm : m.entries with
  | nil => rfl
  | cons a l => simp [insertEntry, h a (by simp [hm])]

/-- INTERNAL: descending insertion below the entries of `m` puts the entries in front. -/
theorem entries_insertAll_reverse (l : List (κ × ν))
    (hl : l.Pairwise fun a b => cmp a.1 b.1 = .lt) (m : OrderedMap cmp ν)
    (hm : ∀ a ∈ l, ∀ b ∈ m.entries, cmp a.1 b.1 = .lt) :
    (m.insertAll l.reverse).entries = l ++ m.entries := by
  induction l generalizing m with
  | nil => rfl
  | cons a l ih =>
    rw [List.pairwise_cons] at hl
    have hrest := ih hl.2 m fun x hx b hb => hm x (by simp [hx]) b hb
    simp only [insertAll, List.reverse_cons, List.foldl_append, List.foldl_cons,
      List.foldl_nil] at hrest ⊢
    rw [entries_insert_of_lt, hrest]
    · rfl
    · intro e he
      rw [hrest] at he
      rcases List.mem_append.mp he with he | he
      · exact hl.1 e he
      · exact hm a (by simp) e he

/-- **Inserting a map's entries from the last to the first rebuilds the map.** -/
theorem insertAll_reverse (m : OrderedMap cmp ν) :
    (empty : OrderedMap cmp ν).insertAll m.entries.reverse = m := by
  apply ext
  rw [entries_insertAll_reverse m.entries m.sorted empty (by simp)]
  simp

/-- A key above all others is inserted at the end. -/
theorem entries_insert_of_gt (m : OrderedMap cmp ν) (k : κ) (v : ν)
    (h : ∀ e ∈ m.entries, cmp e.1 k = .lt) : (m.insert k v).entries = m.entries ++ [(k, v)] := by
  simp only [insert]
  revert h
  induction m.entries with
  | nil => exact fun _ => rfl
  | cons a l ih =>
    intro h
    have ha : cmp k a.1 = .gt := Std.OrientedCmp.gt_of_lt (h a (by simp))
    rw [insertEntry, ha]
    show a :: insertEntry cmp k v l = _
    rw [ih fun e he => h e (by simp [he])]
    rfl

/-- **Ascending insertion above the entries of `m` puts the entries at the end.** -/
theorem entries_insertAll (l : List (κ × ν)) (m : OrderedMap cmp ν)
    (h : (m.entries ++ l).Pairwise fun a b => cmp a.1 b.1 = .lt) :
    (m.insertAll l).entries = m.entries ++ l := by
  induction l generalizing m with
  | nil => exact (List.append_nil _).symm
  | cons a l ih =>
    have hall := List.pairwise_append.mp h
    have hinsert := m.entries_insert_of_gt a.1 a.2 fun e he => hall.2.2 e he a (by simp)
    have hassoc : (m.insert a.1 a.2).entries ++ l = m.entries ++ a :: l := by
      rw [hinsert, List.append_assoc]
      rfl
    have hrest := ih (m.insert a.1 a.2) (by rw [hassoc]; exact h)
    rw [hassoc] at hrest
    exact hrest

/-- **Maps with the same members are equal.** -/
theorem ext_of_mem {m m' : OrderedMap cmp ν} (h : ∀ e, e ∈ m.entries ↔ e ∈ m'.entries) :
    m = m' := by
  have hirrefl : ∀ a b : κ × ν, cmp a.1 b.1 = .lt → a ≠ b := by
    rintro a b hlt rfl
    have hself : cmp a.1 a.1 = .eq := Std.ReflCmp.compare_self
    rw [hself] at hlt
    cases hlt
  have hnodup : ∀ m : OrderedMap cmp ν, m.entries.Nodup := fun m => m.sorted.imp (hirrefl _ _)
  have hperm := (List.perm_ext_iff_of_nodup (hnodup m) (hnodup m')).mpr h
  refine ext (hperm.eq_of_pairwise (fun a b _ _ hab hba => ?_) m.sorted m'.sorted)
  rw [OrientedCmp.gt_of_lt hab] at hba
  cases hba

/-- An entry that was there is there after an insertion. -/
theorem mem_insert_of_mem {m : OrderedMap cmp ν} (k : κ) (v : ν) {e : κ × ν}
    (h : e ∈ m.entries) : e ∈ (m.insert k v).entries := by
  show e ∈ insertEntry cmp k v m.entries
  revert h
  induction m.entries with
  | nil => exact fun h => absurd h List.not_mem_nil
  | cons a l ih =>
    intro h
    rw [insertEntry]
    split
    · exact List.mem_cons_of_mem _ h
    · exact h
    · rcases List.mem_cons.mp h with rfl | h
      · exact List.mem_cons_self
      · exact List.mem_cons_of_mem _ (ih h)

/-- INTERNAL: so it is after several. -/
theorem mem_insertAll_of_mem (l : List (κ × ν)) {m : OrderedMap cmp ν} {e : κ × ν}
    (h : e ∈ m.entries) : e ∈ (m.insertAll l).entries := by
  induction l generalizing m with
  | nil => exact h
  | cons a l ih => exact ih (mem_insert_of_mem a.1 a.2 h)

/-- What is there after several insertions was there or is one of them. -/
theorem mem_insertAll {l : List (κ × ν)} {m : OrderedMap cmp ν} {e : κ × ν}
    (h : e ∈ (m.insertAll l).entries) : e ∈ m.entries ∨ e ∈ l := by
  induction l generalizing m with
  | nil => exact .inl h
  | cons a l ih =>
    rcases ih h with h | h
    · rcases mem_insertEntry h with rfl | h
      · exact .inr List.mem_cons_self
      · exact .inl h
    · exact .inr (List.mem_cons_of_mem _ h)

/-- What is found after several insertions was there or is the first one of the key. -/
theorem find_insertAll (l : List (κ × ν)) (m : OrderedMap cmp ν) (k : κ) :
    (m.insertAll l).find k =
      (m.find k).or ((l.find? fun e => cmp k e.1 == .eq).map Prod.snd) := by
  induction l generalizing m with
  | nil =>
    rw [List.find?_nil, Option.map_none, Option.or_none]
    rfl
  | cons a l ih =>
    have hrest : (m.insertAll (a :: l)).find k = ((m.insert a.1 a.2).insertAll l).find k := rfl
    rw [hrest, ih, find_insert, Option.or_assoc, List.find?_cons]
    by_cases ha : cmp k a.1 = .eq
    · rw [if_pos ha, ha]
      rfl
    · rw [if_neg ha, Option.none_or, beq_eq_false_iff_ne.mpr ha]

/-- Each key of several insertions is there after them. -/
theorem exists_mem_insertAll {l : List (κ × ν)} (m : OrderedMap cmp ν) {e : κ × ν} (he : e ∈ l) :
    ∃ e' ∈ (m.insertAll l).entries, cmp e.1 e'.1 = .eq := by
  induction l generalizing m with
  | nil => exact absurd he List.not_mem_nil
  | cons a l ih =>
    rcases List.mem_cons.mp he with rfl | he
    · obtain ⟨e', he', heq⟩ : ∃ e' ∈ (m.insert e.1 e.2).entries, cmp e.1 e'.1 = .eq :=
        exists_mem_insertEntry e.1 e.2 m.entries
      exact ⟨e', mem_insertAll_of_mem l he', heq⟩
    · exact ih (m.insert a.1 a.2) he

/-- **Inserting a map's entries in any order rebuilds the map.** -/
theorem insertAll_of_mem_iff {m : OrderedMap cmp ν} {l : List (κ × ν)}
    (h : ∀ e, e ∈ l ↔ e ∈ m.entries) : (empty : OrderedMap cmp ν).insertAll l = m := by
  have hsub : ∀ e ∈ ((empty : OrderedMap cmp ν).insertAll l).entries, e ∈ m.entries := by
    intro e he
    rcases mem_insertAll he with he | he
    · exact absurd he List.not_mem_nil
    · exact (h e).mp he
  refine ext_of_mem fun e => ⟨hsub e, fun he => ?_⟩
  obtain ⟨e', he', heq⟩ := exists_mem_insertAll (empty : OrderedMap cmp ν) ((h e).mpr he)
  rwa [eq_of_equiv he (hsub e' he') heq]

omit [TransCmp cmp] in
/-- INTERNAL: an insertion adds one entry at most. -/
theorem length_insertEntry_le (k : κ) (v : ν) (l : List (κ × ν)) :
    (insertEntry cmp k v l).length ≤ l.length + 1 := by
  induction l with
  | nil => exact Nat.le_refl _
  | cons a l ih =>
    rw [insertEntry]
    split <;> simp only [List.length_cons] <;> omega

/-- Several insertions add one entry each at most. -/
theorem size_insertAll_le (l : List (κ × ν)) (m : OrderedMap cmp ν) :
    (m.insertAll l).size ≤ m.size + l.length := by
  induction l generalizing m with
  | nil => exact Nat.le_refl _
  | cons a l ih =>
    have hfirst : (m.insert a.1 a.2).size ≤ m.size + 1 := length_insertEntry_le ..
    have hrest := ih (m.insert a.1 a.2)
    have hsame : m.insertAll (a :: l) = (m.insert a.1 a.2).insertAll l := rfl
    rw [List.length_cons, hsame]
    omega

end Rebuild

end OrderedMap

end IspSession.Library
