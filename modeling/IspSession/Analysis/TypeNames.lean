import IspSession.Model.NetValue

/-!
# The names of types

`Type.GetType` finds the type that a full name or an assembly-qualified name names, for the
types of the core library and arrays of them.
-/

set_option autoImplicit false

namespace IspSession.Analysis

open IspSession.Library IspSession.Model NetType

/-- Every array type in it has a rank. -/
def Ranked : NetType → Prop
  | .vector element => Ranked element
  | .array element rank => 0 < rank ∧ Ranked element
  | _ => True

/-- The type under all array types. -/
def leaf : NetType → NetType
  | .vector element | .array element _ => leaf element
  | t => t

/-- The brackets behind its name. -/
def suffix : NetType → Bstr
  | .vector element => suffix element ++ brackets 0
  | .array element rank => suffix element ++ brackets rank
  | _ => []

/-- INTERNAL: a type's name is that of its leaf with brackets. -/
theorem fullName_eq (t : NetType) : t.fullName = (leaf t).fullName ++ suffix t := by
  induction t with
  | vector element ih => rw [fullName, ih, leaf, suffix, List.append_assoc]
  | array element rank ih => rw [fullName, ih, leaf, suffix, List.append_assoc]
  | _ => exact (List.append_nil _).symm

/-- INTERNAL: a leaf is in the list. -/
theorem leaf_mem_leaves (t : NetType) : leaf t ∈ leaves := by
  induction t with
  | vector element ih => exact ih
  | array element rank ih => exact ih
  | primitive p => cases p <;> decide
  | _ => decide

/-- INTERNAL: the leaf is found by its name, which has neither brackets nor a comma. -/
theorem leaves_names : ∀ t ∈ leaves, leaves.find? (fun u => decide (u.fullName = t.fullName)) =
      some t ∧ ∀ c ∈ t.fullName, (c != 91 && c != 44) = true := by
  have hall : (leaves.all fun t =>
      decide (leaves.find? (fun u => decide (u.fullName = t.fullName)) = some t) &&
        t.fullName.all fun c => c != 91 && c != 44) = true := by
    decide
  intro t ht
  have h := List.all_eq_true.mp hall t ht
  rw [Bool.and_eq_true, decide_eq_true_eq, List.all_eq_true] at h
  exact h

/-- INTERNAL: one pair of brackets is read away. -/
theorem ofBrackets_brackets (element : NetType) (rank fuel : ℕ) (rest : Bstr) :
    ofBrackets element (fuel + 1) (brackets rank ++ rest) =
      ofBrackets (if rank = 0 then .vector element else .array element rank) fuel rest := by
  match rank with
  | 0 => rfl
  | 1 => rfl
  | rank + 2 =>
    have hname : brackets (rank + 2) ++ rest =
        91 :: 44 :: (List.replicate rank 44 ++ (93 :: rest)) := by
      simp [brackets, Bstr.ofString, utf16EncodeChar, List.replicate_succ]
    have hcommas : (44 :: (List.replicate rank (44 : UInt16) ++ (93 :: rest))).takeWhile (· == 44) =
        List.replicate (rank + 1) 44 := by
      rw [List.takeWhile_cons_of_pos (by decide),
        List.takeWhile_append_of_pos (by simp [List.mem_replicate]), List.replicate_succ]
      simp
    have hdrop : ∀ n, (44 :: (List.replicate rank (44 : UInt16) ++ (93 :: rest))).drop
        (rank + 1 + n) = (93 :: rest).drop n := by
      intro n
      rw [← List.drop_drop, List.drop_succ_cons, List.drop_left' (List.length_replicate ..)]
    rw [hname, ofBrackets, if_neg (by simp), if_neg (by simp)]
    dsimp only
    rw [hcommas, List.length_replicate, hdrop 1, if_pos ⟨by simp, by rw [hdrop 0]; rfl⟩]
    rfl

/-- INTERNAL: all brackets of a type are read away. -/
theorem ofBrackets_suffix {t : NetType} (ht : Ranked t) {fuel : ℕ} (rest : Bstr)
    (hfuel : (suffix t).length ≤ fuel) :
    ∃ fuel', fuel - (suffix t).length ≤ fuel' ∧
      ofBrackets (leaf t) fuel (suffix t ++ rest) = ofBrackets t fuel' rest := by
  have hlen : ∀ rank, 2 ≤ (brackets rank).length := by
    intro rank
    match rank with
    | 0 => decide
    | 1 => decide
    | rank + 2 => simp [brackets, Bstr.ofString, utf16EncodeChar]
  induction t generalizing fuel rest with
  | vector element ih =>
    have hpos := hlen 0
    rw [suffix, List.length_append] at hfuel
    obtain ⟨fuel', hle, heq⟩ := ih ht (brackets 0 ++ rest) (by omega : _ ≤ fuel)
    obtain ⟨k, rfl⟩ : ∃ k, fuel' = k + 1 := ⟨fuel' - 1, by omega⟩
    refine ⟨k, by rw [suffix, List.length_append]; omega, ?_⟩
    rw [leaf, suffix, List.append_assoc, heq, ofBrackets_brackets, if_pos rfl]
  | array element rank ih =>
    have hpos := hlen rank
    rw [suffix, List.length_append] at hfuel
    obtain ⟨fuel', hle, heq⟩ := ih ht.2 (brackets rank ++ rest) (by omega : _ ≤ fuel)
    obtain ⟨k, rfl⟩ : ∃ k, fuel' = k + 1 := ⟨fuel' - 1, by omega⟩
    refine ⟨k, by rw [suffix, List.length_append]; omega, ?_⟩
    rw [leaf, suffix, List.append_assoc, heq, ofBrackets_brackets,
      if_neg (Nat.ne_of_gt ht.1)]
  | _ => exact ⟨fuel, Nat.sub_le _ _, rfl⟩

/-- INTERNAL: the end of a name, and the comma in front of an assembly. -/
theorem ofBrackets_end (t : NetType) (fuel : ℕ) (assembly : Bstr) :
    ofBrackets t fuel [] = some (t, []) ∧
      ofBrackets t fuel (Bstr.ofString ", " ++ assembly) = some (t, assembly) := by
  cases fuel <;> exact ⟨rfl, rfl⟩

/-- INTERNAL: what stands behind a leaf's name is not part of it. -/
theorem takeWhile_leaf {t : NetType} (rest : Bstr)
    (hrest : rest = [] ∨ ∃ assembly, rest = Bstr.ofString ", " ++ assembly) :
    ((leaf t).fullName ++ (suffix t ++ rest)).takeWhile (fun c => c != 91 && c != 44) =
      (leaf t).fullName := by
  have hstop : (suffix t ++ rest).takeWhile (fun c => c != 91 && c != 44) = [] := by
    have hbracket : ∀ rank (tl : Bstr), ∃ tl', brackets rank ++ tl = 91 :: tl' := by
      intro rank tl
      match rank with
      | 0 => exact ⟨_, rfl⟩
      | 1 => exact ⟨_, rfl⟩
      | rank + 2 => exact ⟨_, by simp [brackets, Bstr.ofString, utf16EncodeChar]; rfl⟩
    have hstart : ∀ (t : NetType) (tl : Bstr), (tl = [] ∨ ∃ c tl', tl = c :: tl' ∧
        (c != 91 && c != 44) = false) →
        suffix t ++ tl = [] ∨ ∃ c tl', suffix t ++ tl = c :: tl' ∧
          (c != 91 && c != 44) = false := by
      intro t
      induction t with
      | vector element ih =>
        intro tl _
        obtain ⟨tl', htl'⟩ := hbracket 0 tl
        rw [suffix, List.append_assoc, htl']
        exact ih _ (.inr ⟨91, tl', rfl, by decide⟩)
      | array element rank ih =>
        intro tl _
        obtain ⟨tl', htl'⟩ := hbracket rank tl
        rw [suffix, List.append_assoc, htl']
        exact ih _ (.inr ⟨91, tl', rfl, by decide⟩)
      | _ => exact fun tl htl => htl
    have hend : rest = [] ∨ ∃ c tl', rest = c :: tl' ∧ (c != 91 && c != 44) = false := by
      rcases hrest with rfl | ⟨assembly, rfl⟩
      · exact .inl rfl
      · exact .inr ⟨44, 32 :: assembly, rfl, by decide⟩
    rcases hstart t rest hend with heq | ⟨c, tl', heq, hc⟩
    · rw [heq]
      rfl
    · rw [heq, List.takeWhile_cons_of_neg (by rw [hc]; decide)]
  rw [List.takeWhile_append_of_pos (leaves_names _ (leaf_mem_leaves t)).2, hstop, List.append_nil]

/-- INTERNAL: what `GetType` makes of a name with any end. -/
theorem getType_of_end (rt : NetRuntime) {t : NetType} (ht : Ranked t) {rest assembly : Bstr}
    (hrest : rest = [] ∧ assembly = [] ∨
      rest = Bstr.ofString ", " ++ assembly ∧ rt.isCoreLibrary assembly = true) :
    rt.getType (t.fullName ++ rest) = some t := by
  have hname : t.fullName ++ rest = (leaf t).fullName ++ (suffix t ++ rest) := by
    rw [fullName_eq, List.append_assoc]
  have hends : rest = [] ∨ ∃ assembly, rest = Bstr.ofString ", " ++ assembly :=
    hrest.imp And.left fun h => ⟨assembly, h.1⟩
  obtain ⟨fuel, -, hbrackets⟩ := ofBrackets_suffix ht rest
    (by rw [List.length_append, List.length_append]; omega :
      (suffix t).length ≤ ((leaf t).fullName ++ (suffix t ++ rest)).length + 1)
  have hparse : ofBrackets t fuel rest = some (t, assembly) := by
    rcases hrest with ⟨rfl, rfl⟩ | ⟨rfl, -⟩
    · exact (ofBrackets_end t fuel []).1
    · exact (ofBrackets_end t fuel assembly).2
  have hfound : assembly = [] ∨ rt.isCoreLibrary assembly = true :=
    hrest.imp And.right And.right
  rw [NetRuntime.getType, hname, takeWhile_leaf rest hends,
    (leaves_names _ (leaf_mem_leaves t)).1, List.drop_left]
  dsimp only
  rw [hbrackets, hparse]
  exact if_pos hfound

/-- **A full name names its type.** -/
theorem getType_fullName (rt : NetRuntime) {t : NetType} (ht : Ranked t) :
    rt.getType t.fullName = some t := by
  have h : rt.getType (t.fullName ++ []) = some t := getType_of_end rt ht (.inl ⟨rfl, rfl⟩)
  rwa [List.append_nil] at h

/-- **So does an assembly-qualified one.** -/
theorem getType_assemblyQualifiedName (rt : NetRuntime) {t : NetType} (ht : Ranked t) :
    rt.getType (rt.assemblyQualifiedName t) = some t := by
  rw [NetRuntime.assemblyQualifiedName, List.append_assoc]
  exact getType_of_end rt ht (.inr ⟨rfl, rt.isCoreLibrary_coreLibrary⟩)

/-- INTERNAL: type names are ASCII. -/
theorem ascii_fullName (t : NetType) : AsciiUtf16 t.fullName := by
  have hleaf : ∀ t ∈ leaves, AsciiUtf16 t.fullName := by decide
  have hbrackets : ∀ rank, AsciiUtf16 (brackets rank) := by
    intro rank
    match rank with
    | 0 => decide
    | 1 => decide
    | rank + 2 =>
      intro u hu
      simp only [brackets, List.mem_append, List.mem_replicate] at hu
      rcases hu with (hu | ⟨-, rfl⟩) | hu
      · exact (by decide : AsciiUtf16 (Bstr.ofString "[")) u hu
      · decide
      · exact (by decide : AsciiUtf16 (Bstr.ofString "]")) u hu
  induction t with
  | vector element ih =>
    intro u hu
    exact (List.mem_append.mp hu).elim (ih u) (hbrackets 0 u)
  | array element rank ih =>
    intro u hu
    exact (List.mem_append.mp hu).elim (ih u) (hbrackets rank u)
  | primitive p => exact hleaf _ (leaf_mem_leaves (.primitive p))
  | _ => exact hleaf _ (by decide)

/-- INTERNAL: so are qualified ones. -/
theorem ascii_assemblyQualifiedName (rt : NetRuntime) (t : NetType) :
    AsciiUtf16 (rt.assemblyQualifiedName t) := by
  intro u hu
  simp only [NetRuntime.assemblyQualifiedName, List.mem_append] at hu
  rcases hu with (hu | hu) | hu
  · exact ascii_fullName t u hu
  · exact (by decide : AsciiUtf16 (Bstr.ofString ", ")) u hu
  · exact rt.coreLibrary_ascii u hu

end IspSession.Analysis
