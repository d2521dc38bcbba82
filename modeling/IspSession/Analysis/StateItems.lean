import IspSession.Model.StateItemCollection
import IspSession.Library.Runs

/-!
# The managed item collection as a map ordered by name

The reference is the list of the items in the order of their names. An operation on the
collection is *proper* when its name is told apart from the stored ones by the culture's
order, when a name that is set has a hash code of its own, and when its index is not
`Count`. Proper operations return what the reference returns:

* `perform_spec`: one operation keeps the collection and the reference together;
* `behavesAsMap_of_proper`: so does a run of them.

Two names with one hash code share their value (`collidingNames_not_behavesAsMap`), and
the index `Count` is let through (`lastIndex_not_behavesAsMap`).
-/

set_option autoImplicit false

namespace IspSession.Analysis

open IspSession.Library IspSession.Model

variable {rt : NetStrings} {Obj : Type}

/-! ## The reference -/

/-- The items with their names, in the order of the names. -/
abbrev NamedItems (Obj : Type) := List (Bstr × Obj)

namespace NamedItems

/-- The value stored under the very name. -/
def lookup (items : NamedItems Obj) (name : Bstr) : Option Obj :=
  (items.find? fun e => e.1 = name).map Prod.snd

/-- Putting a new name behind those that are not above it. -/
def place (cmp : Bstr → Bstr → Ordering) (name : Bstr) (value : Obj) :
    NamedItems Obj → NamedItems Obj
  | [] => [(name, value)]
  | e :: items =>
    if cmp name e.1 = .lt then (name, value) :: e :: items
    else e :: place cmp name value items

/-- Storing a value under a name that is there. -/
def overwrite (items : NamedItems Obj) (name : Bstr) (value : Obj) : NamedItems Obj :=
  items.map fun e => if e.1 = name then (name, value) else e

/-- Storing a value under a name. -/
def store (cmp : Bstr → Bstr → Ordering) (items : NamedItems Obj) (name : Bstr) (value : Obj) :
    NamedItems Obj :=
  if name ∈ items.map Prod.fst then items.overwrite name value else items.place cmp name value

/-- Removing a name. -/
def without (items : NamedItems Obj) (name : Bstr) : NamedItems Obj :=
  items.filter fun e => e.1 ≠ name

/-- The item at an index, none outside of `0 ≤ index < Count`. -/
def atIndex (items : NamedItems Obj) (index : ℤ) : Option (Bstr × Obj) :=
  if index < 0 then none else items[index.toNat]?

/-- What an operation on a map ordered by name returns and leaves. -/
def perform [Inhabited Obj] (cmp : Bstr → Bstr → Ordering) (items : NamedItems Obj) :
    StateItemCollection.Operation Obj → NetRun Obj × NamedItems Obj
  | .getName name =>
    (if name = [] then .error .argumentNull else .ok ((items.lookup name).getD default), items)
  | .getIndex index =>
    match items.atIndex index with
    | some e => (.ok e.2, items)
    | none => (.error .argumentOutOfRange, items)
  | .setName name value =>
    if name = [] then (.error .argumentNull, items)
    else (.ok default, items.store cmp name value)
  | .setIndex index value =>
    match items.atIndex index with
    | some e => (.ok default, items.overwrite e.1 value)
    | none => (.error .argumentOutOfRange, items)
  | .remove name => (.ok default, items.without name)
  | .removeAt index =>
    match items.atIndex index with
    | some e => (.ok default, items.without e.1)
    | none => (.error .argumentOutOfRange, items)
  | .clear => (.ok default, [])

end NamedItems

/-! ## Runs and what they return -/

/-- A collection, or the reference, with what the operations so far have returned. -/
abbrev Observed (σ Obj : Type) := σ × List (NetRun Obj)

/-- Performing an operation and noting what it returns. -/
def observe [Inhabited Obj] (x : Observed (StateItemCollection rt Obj) Obj)
    (op : StateItemCollection.Operation Obj) :
    NetRun (Observed (StateItemCollection rt Obj) Obj) :=
  .ok ((x.1.perform op).2, x.2 ++ [(x.1.perform op).1])

/-- The same for the reference. -/
def expect [Inhabited Obj] (cmp : Bstr → Bstr → Ordering) (op : StateItemCollection.Operation Obj)
    (x : Observed (NamedItems Obj) Obj) : Observed (NamedItems Obj) Obj :=
  ((x.1.perform cmp op).2, x.2 ++ [(x.1.perform cmp op).1])

/-- From the new collection, the operations return what they return on a map ordered by
name, and `Keys` and `Count` are those of the map. -/
def BehavesAsMap [Inhabited Obj] (rt : NetStrings)
    (ops : List (StateItemCollection.Operation Obj)) : Prop :=
  ∀ s log, Runs.run observe ops ((.new : StateItemCollection rt Obj), []) = .ok (s, log) →
    let reference := ops.foldl (fun x op => expect rt.compare op x) ([], [])
    log = reference.2 ∧ s.keys = reference.1.map Prod.fst ∧ s.count = reference.1.length

/-! ## Proper operations -/

/-- The culture's order tells the name from the stored ones. -/
def ToldApart (s : StateItemCollection rt Obj) (name : Bstr) : Prop :=
  ∀ other ∈ s.keys, rt.compare name other = .eq → other = name

/-- No other stored name has the name's hash code. -/
def OwnHash (s : StateItemCollection rt Obj) (name : Bstr) : Prop :=
  ∀ other ∈ s.keys, rt.getHashCode other = rt.getHashCode name → other = name

/-- The condition on an operation. -/
def Proper (s : StateItemCollection rt Obj) : StateItemCollection.Operation Obj → Prop
  | .getName name | .remove name => ToldApart s name
  | .setName name _ => ToldApart s name ∧ OwnHash s name
  | .getIndex index | .setIndex index _ | .removeAt index => index ≠ s.count
  | .clear => True

instance (s : StateItemCollection rt Obj) (op : StateItemCollection.Operation Obj) :
    Decidable (Proper s op) := by
  cases op <;> unfold Proper ToldApart <;> (try unfold OwnHash) <;> infer_instance

/-- The collection holds the items of the reference. -/
structure Represents (s : StateItemCollection rt Obj) (items : NamedItems Obj) : Prop where
  names : s.entriesTable.entries = items.map fun e => (e.1, ())
  values : ∀ e ∈ items, s.entries (rt.getHashCode e.1) = some e.2
  hashes : ∀ e ∈ items, ∀ e' ∈ items, rt.getHashCode e.1 = rt.getHashCode e'.1 → e.1 = e'.1
  named : ∀ e ∈ items, e.1 ≠ []

namespace Represents

variable {s : StateItemCollection rt Obj} {items : NamedItems Obj}

/-- `Keys` are the names. -/
theorem keys_eq (h : Represents s items) : s.keys = items.map Prod.fst := by
  rw [StateItemCollection.keys, OrderedMap.keys, h.names, List.map_map]
  rfl

/-- `Count` is their number. -/
theorem count_eq (h : Represents s items) : s.count = items.length := by
  rw [StateItemCollection.count, OrderedMap.size, h.names, List.length_map]

/-- INTERNAL: the items ascend by name. -/
theorem sorted (h : Represents s items) :
    items.Pairwise fun a b => rt.compare a.1 b.1 = .lt := by
  have hs := s.entriesTable.sorted
  rwa [h.names, List.pairwise_map] at hs

/-- Items with one name are one item. -/
theorem eq_of_name_eq (h : Represents s items) {e e' : Bstr × Obj} (he : e ∈ items)
    (he' : e' ∈ items) (hn : e.1 = e'.1) : e = e' := by
  refine Prod.ext hn (Option.some.inj ?_)
  rw [← h.values e he, ← h.values e' he', hn]

/-- INTERNAL: a name that is told apart is found by the culture's order only when it is
stored. -/
theorem contains_iff (h : Represents s items) {name : Bstr} (hname : ToldApart s name) :
    s.contains name = true ↔ name ∈ items.map Prod.fst := by
  rw [StateItemCollection.contains, Option.isSome_iff_exists]
  constructor
  · rintro ⟨u, hu⟩
    obtain ⟨e, he, hk, -⟩ := OrderedMap.exists_of_find hu
    have hmem : e.1 ∈ s.keys := List.mem_map_of_mem he
    rw [← hname e.1 hmem hk, ← h.keys_eq]
    exact hmem
  · intro hmem
    rw [← h.keys_eq] at hmem
    obtain ⟨e, he, rfl⟩ := List.mem_map.mp hmem
    refine ⟨(), ?_⟩
    rw [OrderedMap.find, Option.map_eq_some_iff]
    cases hf : s.entriesTable.entries.find? fun x => rt.compare e.1 x.1 == .eq with
    | none =>
      rw [List.find?_eq_none] at hf
      exact absurd Std.ReflCmp.compare_self (by simpa using hf e he)
    | some x => exact ⟨x, rfl, rfl⟩

/-- The value under a stored name. -/
theorem entry_eq (h : Represents s items) {e : Bstr × Obj} (he : e ∈ items) :
    s.entry e.1 = .ok e.2 := by
  simp only [StateItemCollection.entry, h.values e he]

/-- Looking a stored name up. -/
theorem lookup_eq (h : Represents s items) {e : Bstr × Obj} (he : e ∈ items) :
    items.lookup e.1 = some e.2 := by
  rw [NamedItems.lookup]
  cases hf : items.find? fun x => x.1 = e.1 with
  | none =>
    have hne : e.1 ≠ e.1 := by simpa using List.find?_eq_none.mp hf e he
    exact absurd rfl hne
  | some x =>
    have hx : x.1 = e.1 := by simpa using List.find?_some hf
    rw [h.eq_of_name_eq (List.mem_of_find?_eq_some hf) he hx]
    rfl

/-- The guard of the positional members, where the index is not `Count`. -/
theorem outside_iff (h : Represents s items) {index : ℤ} (hindex : index ≠ s.count) :
    s.outside index = true ↔ items.atIndex index = none := by
  have hcount := h.count_eq
  rw [StateItemCollection.outside, NamedItems.atIndex, decide_eq_true_eq]
  by_cases hneg : index < 0
  · simp [hneg]
  · rw [if_neg hneg, List.getElem?_eq_none_iff]
    omega

/-- The item at an index is the one whose name `Keys` has there. -/
theorem keys_getElem (h : Represents s items) {index : ℤ} {e : Bstr × Obj}
    (he : items.atIndex index = some e) : s.keys[index.toNat]? = some e.1 ∧ e ∈ items := by
  rw [NamedItems.atIndex] at he
  split at he
  · cases he
  · exact ⟨by rw [h.keys_eq, List.getElem?_map, he, Option.map_some], List.mem_of_getElem? he⟩

/-- The order tells a stored name from the others. -/
theorem toldApart (h : Represents s items) {e : Bstr × Obj} (he : e ∈ items) :
    ToldApart s e.1 := by
  intro other hother heq
  rw [h.keys_eq] at hother
  obtain ⟨e', he', rfl⟩ := List.mem_map.mp hother
  have hin : ∀ x ∈ items, (x.1, ()) ∈ s.entriesTable.entries := by
    intro x hx
    rw [h.names]
    exact List.mem_map_of_mem (f := fun e => (e.1, ())) hx
  exact (congrArg Prod.fst (OrderedMap.eq_of_equiv (hin e he) (hin e' he') heq)).symm

/-! ## One operation -/

/-- Overwriting the value of a stored name. -/
theorem overwrite (h : Represents s items) {e : Bstr × Obj} (he : e ∈ items) (value : Obj)
    (dirty : Bool) :
    Represents { s with
      entries := Function.update s.entries (rt.getHashCode e.1) (some value), dirty }
      (items.overwrite e.1 value) := by
  have hmem : ∀ x ∈ items.overwrite e.1 value,
      x = (e.1, value) ∨ (x ∈ items ∧ x.1 ≠ e.1) := by
    intro x hx
    obtain ⟨y, hy, rfl⟩ := List.mem_map.mp hx
    split
    · exact .inl rfl
    · rename_i hne
      exact .inr ⟨hy, hne⟩
  have hold : ∀ x ∈ items.overwrite e.1 value, ∃ y ∈ items, y.1 = x.1 := by
    intro x hx
    rcases hmem x hx with rfl | ⟨hx, -⟩
    · exact ⟨e, he, rfl⟩
    · exact ⟨x, hx, rfl⟩
  refine ⟨?_, ?_, ?_, ?_⟩
  · rw [h.names, NamedItems.overwrite, List.map_map]
    apply List.map_congr_left
    intro x hx
    simp only [Function.comp_apply]
    split
    · rename_i heq
      rw [heq]
    · rfl
  · intro x hx
    rcases hmem x hx with rfl | ⟨hx, hne⟩
    · exact Function.update_self ..
    · have hhash : rt.getHashCode x.1 ≠ rt.getHashCode e.1 := fun hh => hne (h.hashes x hx e he hh)
      exact (Function.update_of_ne hhash ..).trans (h.values x hx)
  · intro x hx x' hx' hh
    obtain ⟨y, hy, hyx⟩ := hold x hx
    obtain ⟨y', hy', hyx'⟩ := hold x' hx'
    rw [← hyx, ← hyx'] at hh ⊢
    exact h.hashes y hy y' hy' hh
  · intro x hx
    obtain ⟨y, hy, hyx⟩ := hold x hx
    exact hyx ▸ h.named y hy

/-- INTERNAL: what is there once a name has been put in its place. -/
theorem mem_place {cmp : Bstr → Bstr → Ordering} {name : Bstr} {value : Obj}
    {items : NamedItems Obj} {e : Bstr × Obj} :
    e ∈ items.place cmp name value ↔ e = (name, value) ∨ e ∈ items := by
  induction items with
  | nil => simp [NamedItems.place]
  | cons a items ih =>
    rw [NamedItems.place]
    split
    · exact List.mem_cons
    · rw [List.mem_cons, ih, List.mem_cons]
      tauto

/-- INTERNAL: the sorted set puts a name that is told apart in the same place. -/
theorem insertEntry_eq_place {cmp : Bstr → Bstr → Ordering} {name : Bstr} (value : Obj)
    {items : NamedItems Obj} (hne : ∀ e ∈ items, cmp name e.1 ≠ .eq) :
    OrderedMap.insertEntry cmp name () (items.map fun e => (e.1, ())) =
      (items.place cmp name value).map fun e => (e.1, ()) := by
  induction items with
  | nil => rfl
  | cons a items ih =>
    have ha := hne a (by simp)
    rw [List.map_cons, OrderedMap.insertEntry, NamedItems.place]
    cases hcmp : cmp name a.1 with
    | lt => rfl
    | eq => exact absurd hcmp ha
    | gt =>
      simp only [reduceCtorEq, if_false, List.map_cons]
      rw [ih fun e he => hne e (by simp [he])]

/-- Adding a name that is told apart and has a hash code of its own. -/
theorem place (h : Represents s items) {name : Bstr} (value : Obj) (hname : name ≠ [])
    (hnew : name ∉ items.map Prod.fst) (happart : ToldApart s name) (hown : OwnHash s name) :
    Represents { s with
      entriesTable := s.entriesTable.insert name ()
      dirty := true
      entries := Function.update s.entries (rt.getHashCode name) (some value) }
      (items.place rt.compare name value) := by
  have hkey : ∀ e ∈ items, e.1 ∈ s.keys := by
    intro e he
    rw [h.keys_eq]
    exact List.mem_map_of_mem he
  have hother : ∀ e ∈ items, e.1 ≠ name := fun e he heq => hnew (heq ▸ List.mem_map_of_mem he)
  have hhash : ∀ e ∈ items, rt.getHashCode e.1 ≠ rt.getHashCode name :=
    fun e he hh => hother e he (hown e.1 (hkey e he) hh)
  refine ⟨?_, ?_, ?_, ?_⟩
  · change OrderedMap.insertEntry rt.compare name () s.entriesTable.entries = _
    rw [h.names]
    exact insertEntry_eq_place value fun e he heq => hother e he (happart e.1 (hkey e he) heq)
  · intro e he
    rcases mem_place.mp he with rfl | he
    · exact Function.update_self ..
    · exact (Function.update_of_ne (hhash e he) ..).trans (h.values e he)
  · intro e he e' he' hh
    rcases mem_place.mp he with rfl | he <;> rcases mem_place.mp he' with rfl | he'
    · rfl
    · exact absurd hh.symm (hhash e' he')
    · exact absurd hh (hhash e he)
    · exact h.hashes e he e' he' hh
  · intro e he
    rcases mem_place.mp he with rfl | he
    · exact hname
    · exact h.named e he

/-- INTERNAL: the names that stay when one is erased. -/
theorem entries_erase (h : Represents s items) {name : Bstr} (happart : ToldApart s name) :
    (s.entriesTable.erase name).entries = (items.without name).map fun e => (e.1, ()) := by
  change s.entriesTable.entries.filter _ = _
  rw [h.names, NamedItems.without, List.filter_map]
  congr 1
  apply List.filter_congr
  intro e he
  have hkey : e.1 ∈ s.keys := by
    rw [h.keys_eq]
    exact List.mem_map_of_mem he
  have hiff : rt.compare name e.1 = .eq ↔ e.1 = name :=
    ⟨happart e.1 hkey, fun heq => heq ▸ Std.ReflCmp.compare_self⟩
  rw [Bool.eq_iff_iff]
  simp only [Function.comp_apply, bne_iff_ne, ne_eq, hiff, decide_eq_true_eq]

/-- Erasing a stored name. -/
theorem without (h : Represents s items) {e : Bstr × Obj} (he : e ∈ items) :
    Represents { s with
      entriesTable := s.entriesTable.erase e.1
      entries := Function.update s.entries (rt.getHashCode e.1) none
      dirty := true } (items.without e.1) := by
  have hsub : ∀ x ∈ items.without e.1, x ∈ items ∧ x.1 ≠ e.1 := by
    intro x hx
    simpa [NamedItems.without] using hx
  refine ⟨h.entries_erase (h.toldApart he), ?_, ?_, ?_⟩
  · intro x hx
    obtain ⟨hx, hne⟩ := hsub x hx
    have hhash : rt.getHashCode x.1 ≠ rt.getHashCode e.1 := fun hh => hne (h.hashes x hx e he hh)
    exact (Function.update_of_ne hhash ..).trans (h.values x hx)
  · intro x hx x' hx'
    exact h.hashes x (hsub x hx).1 x' (hsub x' hx').1
  · exact fun x hx => h.named x (hsub x hx).1

end Represents

/-- INTERNAL: the positional members look their name up in `Keys`. -/
theorem removeAt_eq {s : StateItemCollection rt Obj} {index : ℤ} {name : Bstr}
    (hin : s.outside index = false) (hname : s.keys[index.toNat]? = some name) :
    s.removeAt index = .ok { s with
      entriesTable := s.entriesTable.erase name
      entries := Function.update s.entries (rt.getHashCode name) none
      dirty := true } := by
  simp only [StateItemCollection.removeAt, hin, hname, Bool.false_eq_true, if_false]

/-- **A proper operation** returns what it returns on the reference, and keeps the two
together. -/
theorem perform_spec [Inhabited Obj] {s : StateItemCollection rt Obj} {items : NamedItems Obj}
    (h : Represents s items) {op : StateItemCollection.Operation Obj} (hop : Proper s op) :
    (s.perform op).1 = (items.perform rt.compare op).1 ∧
      Represents (s.perform op).2 (items.perform rt.compare op).2 := by
  have hinside : ∀ {index : ℤ} {e : Bstr × Obj}, index ≠ s.count →
      items.atIndex index = some e → s.outside index = false := by
    intro index e hindex he
    rw [Bool.eq_false_iff]
    intro hout
    rw [(h.outside_iff hindex).mp hout] at he
    cases he
  cases op with
  | getName name =>
    refine ⟨?_, h⟩
    simp only [StateItemCollection.perform, StateItemCollection.getName, NamedItems.perform]
    split
    · rfl
    · by_cases hmem : name ∈ items.map Prod.fst
      · obtain ⟨e, he, rfl⟩ := List.mem_map.mp hmem
        rw [if_pos ((h.contains_iff hop).mpr hmem), h.entry_eq he, h.lookup_eq he]
        rfl
      · have hnone : items.lookup name = none := by
          rw [NamedItems.lookup, Option.map_eq_none_iff, List.find?_eq_none]
          intro e he heq
          have hname : e.1 = name := by simpa using heq
          exact hmem (hname ▸ List.mem_map_of_mem he)
        rw [if_neg fun hc => hmem ((h.contains_iff hop).mp hc), hnone]
        rfl
  | getIndex index =>
    simp only [StateItemCollection.perform, StateItemCollection.getIndex, NamedItems.perform]
    cases hat : items.atIndex index with
    | none =>
      rw [if_pos ((h.outside_iff hop).mpr hat)]
      exact ⟨rfl, h⟩
    | some e =>
      obtain ⟨hkey, he⟩ := h.keys_getElem hat
      simp only [hinside hop hat, Bool.false_eq_true, if_false, hkey, h.entry_eq he]
      exact ⟨trivial, h⟩
  | setName name value =>
    obtain ⟨happart, hown⟩ := hop
    simp only [StateItemCollection.perform, StateItemCollection.setName, NamedItems.perform]
    split
    · exact ⟨rfl, h⟩
    · rename_i hname
      refine ⟨rfl, ?_⟩
      simp only [StateItemCollection.changing, NamedItems.store]
      by_cases hmem : name ∈ items.map Prod.fst
      · obtain ⟨e, he, rfl⟩ := List.mem_map.mp hmem
        have hstored : (e.1, ()) ∈ s.entriesTable.entries := by
          rw [h.names]
          exact List.mem_map_of_mem (f := fun e => (e.1, ())) he
        rw [if_pos hmem, OrderedMap.insert_of_mem () hstored Std.ReflCmp.compare_self]
        exact h.overwrite he value true
      · rw [if_neg hmem]
        exact h.place value hname hmem happart hown
  | setIndex index value =>
    simp only [StateItemCollection.perform, StateItemCollection.setIndex, NamedItems.perform]
    cases hat : items.atIndex index with
    | none =>
      rw [if_pos ((h.outside_iff hop).mpr hat)]
      exact ⟨rfl, h⟩
    | some e =>
      obtain ⟨hkey, he⟩ := h.keys_getElem hat
      simp only [hinside hop hat, Bool.false_eq_true, if_false, hkey]
      exact ⟨rfl, h.overwrite he value true⟩
  | remove name =>
    refine ⟨rfl, ?_⟩
    simp only [StateItemCollection.perform, StateItemCollection.remove, NamedItems.perform]
    by_cases hmem : name ∈ items.map Prod.fst
    · obtain ⟨e, he, rfl⟩ := List.mem_map.mp hmem
      rw [if_pos ((h.contains_iff hop).mpr hmem)]
      exact h.without he
    · have hsame : items.without name = items := by
        rw [NamedItems.without, List.filter_eq_self]
        intro e he
        simp only [ne_eq, decide_eq_true_eq]
        exact fun heq => hmem (heq ▸ List.mem_map_of_mem he)
      rw [if_neg fun hc => hmem ((h.contains_iff hop).mp hc), hsame]
      exact h
  | removeAt index =>
    simp only [StateItemCollection.perform, NamedItems.perform]
    cases hat : items.atIndex index with
    | none =>
      rw [StateItemCollection.removeAt, if_pos ((h.outside_iff hop).mpr hat)]
      exact ⟨rfl, h⟩
    | some e =>
      obtain ⟨hkey, he⟩ := h.keys_getElem hat
      rw [removeAt_eq (hinside hop hat) hkey]
      exact ⟨rfl, h.without he⟩
  | clear =>
    refine ⟨rfl, rfl, ?_, ?_, ?_⟩ <;> intro e he <;> cases he

/-! ## Runs -/

/-- INTERNAL: the new collection holds no items. -/
theorem represents_new : Represents (.new : StateItemCollection rt Obj) [] := by
  refine ⟨rfl, ?_, ?_, ?_⟩ <;> intro e he <;> cases he

/-- **The collection is a map ordered by name** in every run whose operations are proper. -/
theorem behavesAsMap_of_proper [Inhabited Obj]
    (ops : List (StateItemCollection.Operation Obj))
    (hproper : Runs.Meets observe (fun x op => Proper x.1 op) ops
      ((.new : StateItemCollection rt Obj), [])) : BehavesAsMap rt ops := by
  intro s log hrun
  have hstep : ∀ (x : Observed (StateItemCollection rt Obj) Obj) (y : Observed (NamedItems Obj) Obj)
      (op : StateItemCollection.Operation Obj) (x' : Observed (StateItemCollection rt Obj) Obj),
      Represents x.1 y.1 ∧ x.2 = y.2 → Proper x.1 op → observe x op = .ok x' →
      Represents x'.1 (expect rt.compare op y).1 ∧ x'.2 = (expect rt.compare op y).2 := by
    rintro x y op x' ⟨hrep, hlog⟩ hop hx'
    obtain rfl : _ = x' := by simpa [observe] using hx'
    obtain ⟨hresult, hrep'⟩ := perform_spec hrep hop
    exact ⟨hrep', by rw [expect, hlog, hresult]⟩
  obtain ⟨hrep, hlog⟩ := Runs.run_simulates (expect rt.compare)
    (fun x y => Represents x.1 y.1 ∧ x.2 = y.2) hstep (c := ([], []))
    ⟨represents_new, rfl⟩ hproper hrun
  exact ⟨hlog, hrep.keys_eq, hrep.count_eq⟩

/-- A hash that takes a name's first code unit. -/
def firstUnitHash (name : Bstr) : BitVec 32 := BitVec.ofNat 32 (name.headD 0).toNat

/-- Two names are set, one is read and removed, and both are read. -/
def twoNames : List (StateItemCollection.Operation ℕ) :=
  [.setName (Bstr.ofString "b") 1, .setName (Bstr.ofString "a") 2, .getName (Bstr.ofString "b"),
    .getIndex 0, .remove (Bstr.ofString "b"), .getName (Bstr.ofString "b"), .getIndex 0]

/-- With a hash that tells the two names apart. -/
theorem twoNames_behavesAsMap : BehavesAsMap (.ordinal firstUnitHash) twoNames :=
  behavesAsMap_of_proper twoNames (by decide)

/-- The first two names that are set have one hash code. -/
def collidingNames : List (StateItemCollection.Operation ℕ) :=
  [.setName (Bstr.ofString "ab") 1, .setName (Bstr.ofString "ac") 2,
    .getName (Bstr.ofString "ab")]

/-- The first name reads the value of the second. -/
theorem collidingNames_not_behavesAsMap :
    ¬ BehavesAsMap (.ordinal firstUnitHash) collidingNames := by
  intro h
  obtain ⟨hlog, -⟩ := h _ [.ok 0, .ok 0, .ok 2] rfl
  revert hlog
  decide

/-- Reading at the index `Count`. -/
def lastIndex : List (StateItemCollection.Operation ℕ) := [.getIndex 0]

/-- No exception says that there is no such index. -/
theorem lastIndex_not_behavesAsMap : ¬ BehavesAsMap (.ordinal firstUnitHash) lastIndex := by
  intro h
  obtain ⟨hlog, -⟩ := h _ [.ok 0] rfl
  revert hlog
  decide

end IspSession.Analysis
