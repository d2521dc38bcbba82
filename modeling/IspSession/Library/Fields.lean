import Mathlib.Data.List.TakeWhile
import IspSession.Library.Tokens

/-!
# The fields of a text

A text is split at a separator, and an escape that follows the separator is left out. `fields` are
those of a whole text, `fieldsBehind` those of the text behind a separator. Replacing the separator
and its escape by the separator alone and splitting then gives the same fields (`splitOn_replaceAll`).
-/

set_option autoImplicit false

namespace IspSession.Library

variable {α : Type} [DecidableEq α] {sep c : α} {esc a b s t x : List α}

/-! ## The escape -/

/-- A text without the escape that it begins with. -/
def dropEscape (esc x : List α) : List α := if esc <+: x then x.drop esc.length else x

@[simp] theorem dropEscape_nil (x : List α) : dropEscape [] x = x := by
  rw [dropEscape, if_pos List.nil_prefix, List.length_nil, List.drop_zero]

@[simp] theorem dropEscape_append_self (esc t : List α) : dropEscape esc (esc ++ t) = t := by
  rw [dropEscape, if_pos (List.prefix_append esc t), List.drop_left]

/-- What is left stands at the end. -/
theorem dropEscape_suffix (esc x : List α) : dropEscape esc x <:+ x := by
  rw [dropEscape]
  split
  · exact List.drop_suffix _ _
  · exact List.suffix_refl x

/-- The escape is recognised when another character follows. -/
theorem dropEscape_append_cons (hc : c ∉ esc) (a b : List α) :
    dropEscape esc (a ++ c :: b) = dropEscape esc a ++ c :: b := by
  have hbegins : esc <+: a ++ c :: b ↔ esc <+: a := by
    constructor
    · intro h
      rcases Nat.lt_or_ge a.length esc.length with hlt | hge
      · have hlonger : a ++ [c] <+: esc :=
          List.prefix_of_prefix_length_le ⟨b, by rw [List.append_assoc, List.singleton_append]⟩ h
            (by rw [List.length_append, List.length_singleton]; omega)
        exact absurd (hlonger.subset (List.mem_append_right a (List.mem_singleton_self c))) hc
      · exact List.prefix_of_prefix_length_le h (List.prefix_append a _) hge
    · exact fun h => h.trans (List.prefix_append a _)
  rw [dropEscape, dropEscape]
  by_cases h : esc <+: a
  · rw [if_pos (hbegins.mpr h), if_pos h, List.drop_append_of_le_length h.length_le]
  · rw [if_neg fun hlonger => h (hbegins.mp hlonger), if_neg h]

/-- A long text without the last character of the escape does not complete one. -/
theorem dropEscape_append {d : α} {e : List α} (hd : d ∉ t) (hlength : e.length < t.length)
    (a b : List α) :
    dropEscape (e ++ [d]) (a ++ (t ++ b)) = dropEscape (e ++ [d]) a ++ (t ++ b) := by
  have hbegins : e ++ [d] <+: a ++ (t ++ b) ↔ e ++ [d] <+: a := by
    constructor
    · intro h
      rcases Nat.lt_or_ge a.length (e ++ [d]).length with hlt | hge
      · rw [List.length_append, List.length_singleton] at hlt
        have hat : e ++ [d] <+: a ++ t :=
          List.prefix_of_prefix_length_le h ⟨b, List.append_assoc a t b⟩ (by
            rw [List.length_append, List.length_append, List.length_singleton]
            omega)
        obtain ⟨z, hz⟩ := hat
        rw [List.append_assoc] at hz
        rcases List.append_eq_append_iff.mp hz with ⟨w, ha, hw⟩ | ⟨w, -, ht⟩
        · have hnil : w = [] := by
            have hlong := congrArg List.length ha
            rw [List.length_append] at hlong
            exact List.length_eq_zero_iff.mp (by omega)
          rw [hnil, List.nil_append] at hw
          exact absurd (hw ▸ List.mem_append_left z (List.mem_singleton_self d)) hd
        · refine absurd (ht ▸ ?_) hd
          exact List.mem_append_right w (List.mem_append_left z (List.mem_singleton_self d))
      · exact List.prefix_of_prefix_length_le h (List.prefix_append a _) hge
    · exact fun h => h.trans (List.prefix_append a _)
  rw [dropEscape, dropEscape]
  by_cases h : e ++ [d] <+: a
  · rw [if_pos (hbegins.mpr h), if_pos h, List.drop_append_of_le_length h.length_le]
  · rw [if_neg fun hlonger => h (hbegins.mp hlonger), if_neg h]

/-- Characters that are not in the escape are kept. -/
theorem count_dropEscape (hc : c ∉ esc) (x : List α) : (dropEscape esc x).count c = x.count c := by
  rw [dropEscape]
  split
  · rename_i h
    obtain ⟨t, rfl⟩ := h
    rw [List.drop_left, List.count_append, List.count_eq_zero_of_not_mem hc, Nat.zero_add]
  · rfl

/-! ## The fields -/

/-- The fields of the text behind a separator. -/
def fieldsBehind (sep : α) (esc s : List α) : List (List α) := (s.splitOn sep).map (dropEscape esc)

/-- The fields of a text. -/
def fields (sep : α) (esc s : List α) : List (List α) :=
  (s.splitOn sep).head?.toList ++ (s.splitOn sep).tail.map (dropEscape esc)

/-- INTERNAL: there is always a part. -/
theorem exists_splitOn (sep : α) (s : List α) : ∃ x xs, s.splitOn sep = x :: xs :=
  List.exists_cons_of_ne_nil (List.splitOn_ne_nil sep s)

omit [DecidableEq α] in
/-- What stands before the first separator, and what behind it. -/
theorem append_cons_inj {a b x y : List α} {c : α} (ha : c ∉ a) (hb : c ∉ b)
    (h : a ++ c :: x = b ++ c :: y) : a = b ∧ x = y := by
  induction a generalizing b with
  | nil =>
    cases b with
    | nil => exact ⟨rfl, (List.cons.inj h).2⟩
    | cons d b => exact absurd ((List.cons.inj h).1 ▸ List.mem_cons_self) hb
  | cons d a ih =>
    cases b with
    | nil => exact absurd ((List.cons.inj h).1 ▸ List.mem_cons_self) ha
    | cons e b =>
      obtain ⟨rfl, hrest⟩ := List.cons.inj h
      obtain ⟨rfl, rfl⟩ := ih (fun hc => ha (List.mem_cons_of_mem d hc))
        (fun hc => hb (List.mem_cons_of_mem d hc)) hrest
      exact ⟨rfl, rfl⟩

/-- There is one part more than separators. -/
theorem length_splitOn (sep : α) (s : List α) : (s.splitOn sep).length = s.count sep + 1 := by
  induction s with
  | nil => rfl
  | cons c s ih =>
    rw [List.splitOn_cons_eq_if_modifyHead, List.count_cons]
    split
    · rw [List.length_cons, ih]
    · rw [List.length_modifyHead, ih, Nat.add_zero]

/-- A part has no separator. -/
theorem notMem_of_mem_splitOn {sep : α} {s part : List α} (h : part ∈ s.splitOn sep) :
    sep ∉ part := by
  induction s generalizing part with
  | nil =>
    rw [List.splitOn_nil, List.mem_singleton] at h
    rw [h]
    exact List.not_mem_nil
  | cons c s ih =>
    rw [List.splitOn_cons_eq_if_modifyHead] at h
    split at h
    · rcases List.mem_cons.mp h with rfl | h
      · exact List.not_mem_nil
      · exact ih h
    · rename_i hc
      obtain ⟨x, xs, hsplit⟩ := exists_splitOn sep s
      rw [hsplit] at h ih
      rcases List.mem_cons.mp h with rfl | h
      · intro hmem
        rcases List.mem_cons.mp hmem with rfl | hmem
        · exact hc (beq_self_eq_true _)
        · exact ih List.mem_cons_self hmem
      · exact ih (List.mem_cons_of_mem x h)

theorem fields_of_splitOn {xs : List (List α)} (h : s.splitOn sep = x :: xs) :
    fields sep esc s = x :: xs.map (dropEscape esc) := by
  rw [fields, h]
  rfl

theorem fieldsBehind_of_splitOn {xs : List (List α)} (h : s.splitOn sep = x :: xs) :
    fieldsBehind sep esc s = dropEscape esc x :: xs.map (dropEscape esc) := by
  rw [fieldsBehind, h, List.map_cons]

/-- A text without the separator is the one field. -/
theorem fields_of_notMem (h : sep ∉ s) : fields sep esc s = [s] :=
  fields_of_splitOn (List.splitOn_eq_singleton h)

theorem fieldsBehind_of_notMem (h : sep ∉ s) : fieldsBehind sep esc s = [dropEscape esc s] :=
  fieldsBehind_of_splitOn (List.splitOn_eq_singleton h)

theorem fields_append_cons (sep : α) (esc a b : List α) :
    fields sep esc (a ++ sep :: b) = fields sep esc a ++ fieldsBehind sep esc b := by
  obtain ⟨x, xs, ha⟩ := exists_splitOn sep a
  have hsplit : (a ++ sep :: b).splitOn sep = x :: (xs ++ b.splitOn sep) := by
    rw [List.splitOn_append_cons_self, ha, List.cons_append]
  rw [fields_of_splitOn ha, fields_of_splitOn hsplit, List.map_append, fieldsBehind,
    List.cons_append]

theorem fieldsBehind_append_cons (sep : α) (esc a b : List α) :
    fieldsBehind sep esc (a ++ sep :: b) =
      fieldsBehind sep esc a ++ fieldsBehind sep esc b := by
  rw [fieldsBehind, List.splitOn_append_cons_self, List.map_append]
  rfl

/-- A text that begins with a separator, or is empty, adds its fields. -/
theorem fields_append (h : ∀ d ∈ s.head?, d = sep) (esc a : List α) :
    fields sep esc (a ++ s) = fields sep esc a ++ (fields sep esc s).tail := by
  cases s with
  | nil => rw [List.append_nil, fields_of_notMem List.not_mem_nil, List.tail_cons, List.append_nil]
  | cons d s =>
    obtain rfl := h d rfl
    have hcons := fields_append_cons d esc [] s
    rw [List.nil_append, fields_of_notMem List.not_mem_nil] at hcons
    rw [fields_append_cons, hcons, List.singleton_append, List.tail_cons]

theorem fieldsBehind_append (h : ∀ d ∈ s.head?, d = sep) (esc a : List α) :
    fieldsBehind sep esc (a ++ s) = fieldsBehind sep esc a ++ (fields sep esc s).tail := by
  cases s with
  | nil => rw [List.append_nil, fields_of_notMem List.not_mem_nil, List.tail_cons, List.append_nil]
  | cons d s =>
    obtain rfl := h d rfl
    have hcons := fields_append_cons d esc [] s
    rw [List.nil_append, fields_of_notMem List.not_mem_nil] at hcons
    rw [fieldsBehind_append_cons, hcons, List.singleton_append, List.tail_cons]

/-- INTERNAL: the first part ends at the first separator. -/
theorem splitOn_append {xs : List (List α)} (ha : sep ∉ a) (h : s.splitOn sep = x :: xs) :
    (a ++ s).splitOn sep = (a ++ x) :: xs := by
  induction a with
  | nil => exact h
  | cons d a ih =>
    have hd : (d == sep) = false := beq_eq_false_iff_ne.mpr fun hd =>
      ha (hd ▸ List.mem_cons_self)
    rw [List.cons_append, List.splitOn_cons_eq_if_modifyHead, hd,
      ih fun hmem => ha (List.mem_cons_of_mem d hmem)]
    rfl

/-- The escape at the beginning is left out. -/
theorem fieldsBehind_escape (hesc : sep ∉ esc) (b : List α) :
    fieldsBehind sep esc (esc ++ b) = fields sep esc b := by
  obtain ⟨x, xs, hb⟩ := exists_splitOn sep b
  rw [fields_of_splitOn hb, fieldsBehind_of_splitOn (splitOn_append hesc hb),
    dropEscape_append_self]

/-- INTERNAL: it is left out of the text or of its first part. -/
theorem fieldsBehind_eq (hesc : sep ∉ esc) (s : List α) :
    fieldsBehind sep esc s = fields sep esc (dropEscape esc s) := by
  by_cases h : esc <+: s
  · obtain ⟨t, rfl⟩ := h
    rw [fieldsBehind_escape hesc, dropEscape_append_self]
  · obtain ⟨x, xs, hs⟩ := exists_splitOn sep s
    have hnot : ¬ esc <+: x := by
      intro hx
      have hjoined : [sep].intercalate (s.splitOn sep) = s := List.intercalate_splitOn sep
      rw [hs] at hjoined
      refine h (hx.trans ?_)
      rw [← hjoined]
      cases xs with
      | nil => rw [List.intercalate_singleton]
      | cons y ys =>
        rw [List.intercalate_cons_cons, List.append_assoc]
        exact List.prefix_append x _
    rw [fieldsBehind_of_splitOn hs, dropEscape, if_neg hnot, dropEscape, if_neg h,
      fields_of_splitOn hs]

/-- A text ends in its last field, and more text without separator goes on with it. -/
theorem exists_fields_append (sep : α) (esc a : List α) : ∃ init last,
    (fields sep esc a = init ++ [last] ∧
      ∀ t, sep ∉ t → fields sep esc (a ++ t) = init ++ [last ++ t]) ∨
    (fields sep esc a = init ++ [dropEscape esc last] ∧
      ∀ t, sep ∉ t → fields sep esc (a ++ t) = init ++ [dropEscape esc (last ++ t)]) := by
  have hsplit : ∀ a : List α, ∃ init last, a.splitOn sep = init ++ [last] ∧
      ∀ t, sep ∉ t → (a ++ t).splitOn sep = init ++ [last ++ t] := by
    intro a
    induction a with
    | nil => exact ⟨[], [], List.splitOn_nil sep, fun t ht => List.splitOn_eq_singleton ht⟩
    | cons d a ih =>
      obtain ⟨init, last, hlast, hmore⟩ := ih
      by_cases hd : (d == sep) = true
      · refine ⟨[] :: init, last, ?_, fun t ht => ?_⟩
        · rw [List.splitOn_cons_eq_if_modifyHead, if_pos hd, hlast, List.cons_append]
        · rw [List.cons_append, List.splitOn_cons_eq_if_modifyHead, if_pos hd, hmore t ht,
            List.cons_append]
      · cases init with
        | nil =>
          refine ⟨[], d :: last, ?_, fun t ht => ?_⟩
          · rw [List.splitOn_cons_eq_if_modifyHead, if_neg hd, hlast]
            rfl
          · rw [List.cons_append, List.splitOn_cons_eq_if_modifyHead, if_neg hd, hmore t ht]
            rfl
        | cons x init =>
          refine ⟨(d :: x) :: init, last, ?_, fun t ht => ?_⟩
          · rw [List.splitOn_cons_eq_if_modifyHead, if_neg hd, hlast]
            rfl
          · rw [List.cons_append, List.splitOn_cons_eq_if_modifyHead, if_neg hd, hmore t ht]
            rfl
  obtain ⟨init, last, hlast, hmore⟩ := hsplit a
  cases init with
  | nil =>
    exact ⟨[], last, .inl ⟨fields_of_splitOn hlast, fun t ht => fields_of_splitOn (hmore t ht)⟩⟩
  | cons x init =>
    simp only [List.cons_append] at hlast hmore
    refine ⟨x :: init.map (dropEscape esc), last, .inr ⟨?_, fun t ht => ?_⟩⟩
    · rw [fields_of_splitOn hlast, List.map_append]
      rfl
    · rw [fields_of_splitOn (hmore t ht), List.map_append]
      rfl

/-- INTERNAL: the parts stand in the text. -/
theorem infix_of_mem_splitOn (h : x ∈ s.splitOn sep) : x <:+: s ∧ sep ∉ x := by
  induction s generalizing x with
  | nil =>
    rw [List.splitOn_nil, List.mem_singleton] at h
    rw [h]
    exact ⟨List.infix_refl [], List.not_mem_nil⟩
  | cons d s ih =>
    rw [List.splitOn_cons_eq_if_modifyHead] at h
    split at h
    · rcases List.mem_cons.mp h with rfl | h
      · refine ⟨?_, List.not_mem_nil⟩
        exact List.nil_infix
      · exact ⟨(ih h).1.trans (List.suffix_cons d s).isInfix, (ih h).2⟩
    · rename_i hd
      obtain ⟨y, ys, hs⟩ := exists_splitOn sep s
      rw [hs, List.modifyHead_cons] at h
      rcases List.mem_cons.mp h with rfl | h
      · have hy : y <+: s := by
          have hjoined : [sep].intercalate (s.splitOn sep) = s := List.intercalate_splitOn sep
          rw [hs] at hjoined
          rw [← hjoined]
          cases ys with
          | nil => rw [List.intercalate_singleton]
          | cons z ys =>
            rw [List.intercalate_cons_cons, List.append_assoc]
            exact List.prefix_append y _
        refine ⟨((List.prefix_cons_inj d).mpr hy).isInfix, ?_⟩
        rw [List.mem_cons, not_or]
        exact ⟨fun hsep => hd (beq_iff_eq.mpr hsep.symm),
          (ih (hs ▸ List.mem_cons_self)).2⟩
      · obtain ⟨hoccurs, hnot⟩ := ih (hs ▸ List.mem_cons_of_mem y h)
        exact ⟨hoccurs.trans (List.suffix_cons d s).isInfix, hnot⟩

/-- A field stands in the text, and the separator does not stand in it. -/
theorem infix_of_mem_fieldsBehind (h : x ∈ fieldsBehind sep esc s) : x <:+: s ∧ sep ∉ x := by
  obtain ⟨y, hy, rfl⟩ := List.mem_map.mp h
  obtain ⟨hoccurs, hnot⟩ := infix_of_mem_splitOn hy
  have hsuffix := dropEscape_suffix esc y
  exact ⟨hsuffix.isInfix.trans hoccurs, fun hmem => hnot (hsuffix.subset hmem)⟩

theorem infix_of_mem_fields (h : x ∈ fields sep esc s) : x <:+: s ∧ sep ∉ x := by
  obtain ⟨y, ys, hs⟩ := exists_splitOn sep s
  rw [fields_of_splitOn hs] at h
  rcases List.mem_cons.mp h with rfl | h
  · exact infix_of_mem_splitOn (hs ▸ List.mem_cons_self)
  · have hmem : x ∈ fieldsBehind sep esc s := by
      rw [fieldsBehind_of_splitOn hs]
      exact List.mem_cons_of_mem _ h
    exact infix_of_mem_fieldsBehind hmem

/-- The fields hold all characters but the separators and the escapes. -/
theorem count_fieldsBehind (hsep : c ≠ sep) (hc : c ∉ esc) (s : List α) :
    (fieldsBehind sep esc s).flatten.count c = s.count c := by
  have hsplit : ∀ s : List α, (s.splitOn sep).flatten.count c = s.count c := by
    intro s
    induction s with
    | nil => rw [List.splitOn_nil, List.flatten_singleton]
    | cons d s ih =>
      rw [List.splitOn_cons_eq_if_modifyHead]
      split
      · rename_i hd
        rw [List.flatten_cons, List.nil_append, ih, List.count_cons_of_ne]
        exact fun heq => hsep (heq ▸ beq_iff_eq.mp hd)
      · obtain ⟨y, ys, hs⟩ := exists_splitOn sep s
        rw [hs, List.flatten_cons] at ih
        rw [hs, List.modifyHead_cons, List.flatten_cons, List.cons_append, List.count_cons,
          List.count_cons, ih]
  rw [← hsplit s, fieldsBehind]
  induction s.splitOn sep with
  | nil => rfl
  | cons y ys ih =>
    rw [List.map_cons, List.flatten_cons, List.flatten_cons, List.count_append, List.count_append,
      count_dropEscape hc, ih]

theorem count_fields (hsep : c ≠ sep) (hc : c ∉ esc) (s : List α) :
    (fields sep esc s).flatten.count c = s.count c := by
  obtain ⟨y, ys, hs⟩ := exists_splitOn sep s
  have hbehind := count_fieldsBehind hsep hc s
  rw [fieldsBehind_of_splitOn hs, List.flatten_cons, List.count_append,
    count_dropEscape hc] at hbehind
  rw [fields_of_splitOn hs, List.flatten_cons, List.count_append, hbehind]

/-! ## The separator in the place of the separator and its escape -/

/-- INTERNAL: a character that begins no token stays. -/
theorem replaceAll_cons (token replacement : List α) (h : ¬ token <+: c :: s) :
    replaceAll token replacement (c :: s) = c :: replaceAll token replacement s := by
  cases hs : pieces token s with
  | nil => exact absurd hs (pieces_ne_nil token s)
  | cons piece rest =>
    have hpieces : pieces token (c :: s) = (c :: piece) :: rest := by
      rw [pieces] at hs
      rw [pieces, piecesFrom, if_neg h, hs]
    rw [replaceAll, replaceAll, hpieces, hs]
    cases rest with
    | nil => rw [List.intercalate_singleton, List.intercalate_singleton]
    | cons piece' rest =>
      rw [List.intercalate_cons_cons, List.intercalate_cons_cons, List.cons_append,
        List.cons_append]

theorem replaceAll_cons_of_ne (hc : c ≠ sep) (esc s : List α) :
    replaceAll (sep :: esc) [sep] (c :: s) = c :: replaceAll (sep :: esc) [sep] s :=
  replaceAll_cons _ _ fun h => hc (List.cons_prefix_cons.mp h).1.symm

theorem replaceAll_cons_sep (sep : α) (esc s : List α) :
    replaceAll (sep :: esc) [sep] (sep :: s) =
      sep :: replaceAll (sep :: esc) [sep] (dropEscape esc s) := by
  by_cases h : esc <+: s
  · have hcut : cut (sep :: esc) (sep :: s) = some ([], s.drop esc.length) := by
      rw [cut, if_pos ((List.prefix_cons_inj sep).mpr h), List.length_cons, List.drop_succ_cons]
    rw [replaceAll_of_cut _ (List.cons_ne_nil sep esc) hcut, dropEscape, if_pos h]
    rfl
  · rw [replaceAll_cons _ _ fun hbegins => h ((List.prefix_cons_inj sep).mp hbegins), dropEscape,
      if_neg h]

/-- INTERNAL: an induction over a text that follows the separators. -/
theorem separator_induction {p : List α → Prop} (sep : α) (esc : List α) (nil : p [])
    (other : ∀ c s, c ≠ sep → p s → p (c :: s))
    (separator : ∀ s, p (dropEscape esc s) → p (sep :: s)) (s : List α) : p s := by
  induction hn : s.length using Nat.strong_induction_on generalizing s with
  | _ n ih =>
    cases s with
    | nil => exact nil
    | cons c s =>
      rw [List.length_cons] at hn
      by_cases hc : c = sep
      · have hshort := (dropEscape_suffix esc s).length_le
        rw [hc]
        exact separator s (ih _ (by omega) _ rfl)
      · exact other c s hc (ih s.length (by omega) s rfl)

/-- **The fields are the parts between the separators** when each separator has lost its escape. -/
theorem splitOn_replaceAll (hesc : sep ∉ esc) (s : List α) :
    (replaceAll (sep :: esc) [sep] s).splitOn sep = fields sep esc s := by
  induction s using separator_induction sep esc with
  | nil =>
    rw [replaceAll_of_cut_none _ rfl, List.splitOn_nil]
    exact (fields_of_notMem List.not_mem_nil).symm
  | other c s hc ih =>
    obtain ⟨x, xs, hs⟩ := exists_splitOn sep s
    have hsplit : (c :: s).splitOn sep = (c :: x) :: xs := by
      rw [List.splitOn_cons_eq_if_modifyHead, hs, if_neg (by simpa using hc)]
      rfl
    rw [replaceAll_cons_of_ne hc, List.splitOn_cons_eq_if_modifyHead, ih, fields_of_splitOn hs,
      fields_of_splitOn hsplit, if_neg (by simpa using hc)]
    rfl
  | separator s ih =>
    have hcons := fields_append_cons sep esc [] s
    rw [List.nil_append, fields_of_notMem List.not_mem_nil, fieldsBehind_eq hesc] at hcons
    rw [replaceAll_cons_sep, List.splitOn_cons_eq_if_modifyHead, if_pos (beq_self_eq_true sep), ih,
      hcons]
    rfl

/-- Another character parts the text. -/
theorem replaceAll_append_cons (hsep : c ≠ sep) (hc : c ∉ esc) (a b : List α) :
    replaceAll (sep :: esc) [sep] (a ++ c :: b) =
      replaceAll (sep :: esc) [sep] a ++ c :: replaceAll (sep :: esc) [sep] b := by
  induction a using separator_induction sep esc with
  | nil =>
    rw [replaceAll_of_cut_none (s := []) _ rfl]
    exact replaceAll_cons_of_ne hsep esc b
  | other d a hd ih =>
    rw [List.cons_append, replaceAll_cons_of_ne hd, replaceAll_cons_of_ne hd, ih, List.cons_append]
  | separator a ih =>
    rw [List.cons_append, replaceAll_cons_sep, replaceAll_cons_sep, dropEscape_append_cons hc, ih,
      List.cons_append]

/-- No other characters come in. -/
theorem notMem_replaceAll (hsep : c ≠ sep) (h : c ∉ s) :
    c ∉ replaceAll (sep :: esc) [sep] s := by
  induction s using separator_induction sep esc with
  | nil => rwa [replaceAll_of_cut_none _ rfl]
  | other d s hd ih =>
    rw [List.mem_cons, not_or] at h
    rw [replaceAll_cons_of_ne hd, List.mem_cons, not_or]
    exact ⟨h.1, ih h.2⟩
  | separator s ih =>
    rw [replaceAll_cons_sep, List.mem_cons, not_or]
    exact ⟨hsep, ih fun hmem =>
      h (List.mem_cons_of_mem sep ((dropEscape_suffix esc s).subset hmem))⟩

end IspSession.Library
