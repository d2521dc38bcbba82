import IspSession.Analysis.UrlRewriting

/-!
# Where `get_URL` spoils a URL

A text that the call leaves alone has the id where it looks for one. So the call that appends the
id must append it there, and nothing in front of it may look like the name. What is then left are
the paths and the parameters: `=` is counted in what is cut out, in the path and in the parameters.
-/

set_option autoImplicit false

namespace IspSession.Analysis

open IspSession.Library IspSession.Model

variable {loc : Collation} {name id u before rest : Bstr}

/-- INTERNAL: a name that the result carries is plain. -/
theorem isPlain_of_carries {r : Bstr} (h : Carries name id u r) : IsPlain name := by
  have hmem : name ++ 0x3D :: id ∈ (urlParameters (readAmp r)).filter (namedBy name) := by
    rw [h.named]
    exact List.mem_singleton_self _
  obtain ⟨hparameter, hnamed⟩ := List.mem_filter.mp hmem
  obtain ⟨hoccurs, hamp⟩ := infix_of_mem_splitOn (List.mem_filter.mp hparameter).1
  refine ⟨fun hmem => hamp (List.mem_append_left _ hmem), (namedBy_cases hnamed).1, fun hmem => ?_⟩
  have hquery : urlQuery (readAmp r) <:+ withoutFragment (readAmp r) :=
    (List.tail_suffix _).trans (List.dropWhile_suffix _)
  have hne := List.mem_takeWhile_imp
    (hquery.subset (hoccurs.subset (List.mem_append_left (0x3D :: id) hmem)))
  exact of_decide_eq_true hne rfl

/-! ## Texts that stay -/

/-- INTERNAL: how much is appended. -/
theorem length_attached (name : Bstr) (hid : TakenForId id) (u left : Bstr) :
    (attached name id u left).length =
        left.length + (parSeparator u).length + name.length + 33 ∧
      0 < (parSeparator u).length ∧ (parSeparator u).length ≤ 5 := by
  refine ⟨?_, ?_⟩
  · rw [attached]
    simp only [List.length_append, length_nameToken, hid.1]
    omega
  · rw [parSeparator]
    split <;> decide

/-- INTERNAL: a text of which the call makes more. -/
theorem attached_ne_self (hid : TakenForId id) (u : Bstr) : attached name id u u ≠ u := by
  intro h
  obtain ⟨hlength, hpos, -⟩ := length_attached name hid u u
  rw [h] at hlength
  omega

section Fixed

variable (hexact : SearchesExactly loc name) (hnul : 0 ∉ name) (hid : TakenForId id)
  (hname : name ≠ []) (hamp : 0x26 ∉ name)
include hexact hnul hid hname hamp

/-- INTERNAL: a text that stays has the id where the call looks for it. -/
theorem exists_of_fixed {r : Bstr} (hr : 0 ∉ r) (hroom : r.length + name.length + 38 < 2 ^ 31)
    (h : NWCSession.getURL loc name id r = .ok r) :
    ∃ before rest, cut (nameToken name) r = some (before, rest) ∧ valueWindow name rest = id := by
  have hsmall : name.length + 1 < 2 ^ 31 := by omega
  have hfits : FitsBstr r := by
    rw [FitsBstr]
    omega
  have hattached : ∀ left : Bstr, left.length ≤ r.length →
      FitsBstr (attached name id r left) := by
    intro left hleft
    obtain ⟨hlength, -, hsep⟩ := length_attached name hid r left
    rw [FitsBstr, hlength]
    omega
  have hpos := List.length_pos_iff.mpr hname
  cases hcut : cut (nameToken name) r with
  | none =>
    rw [getURL_absent hexact hnul hr hsmall hid hcut (hattached r (Nat.le_refl _))] at h
    exact absurd (Except.ok.inj h) (attached_ne_self hid r)
  | some p =>
    obtain ⟨before, rest⟩ := p
    refine ⟨before, rest, rfl, ?_⟩
    have hparts : r = before ++ (nameToken name ++ rest) := by
      rw [eq_of_cut hcut, List.append_assoc]
    have hlength : r.length = before.length + (nameToken name ++ rest).length := by
      conv_lhs => rw [hparts, List.length_append]
    rcases Nat.lt_or_ge (nameToken name ++ rest).length 37 with hshort | hlong
    · rcases List.eq_nil_or_concat before with rfl | ⟨pre, c, rfl⟩
      · rw [getURL_first hexact hnul hr hsmall hid hcut hshort
          (hattached r (Nat.le_refl _))] at h
        exact absurd (Except.ok.inj h) (attached_ne_self hid r)
      · rw [List.concat_eq_append] at *
        have hdrop : (rest.dropWhile (· ≠ 0x26)).length ≤ rest.length :=
          (List.dropWhile_suffix _).length_le
        rw [List.length_append, List.length_append, List.length_singleton] at hlength
        rw [getURL_cutOut hexact hnul hr hsmall hid hamp hcut hfits (by omega) hshort
          (hattached _ (by rw [List.length_append]; omega))] at h
        have hsame := Except.ok.inj h
        obtain ⟨hlength', hseppos, -⟩ := length_attached name hid r
          (pre ++ rest.dropWhile (· ≠ 0x26))
        rw [hsame, List.length_append] at hlength'
        rw [List.length_append, length_nameToken] at hshort
        rw [length_nameToken] at hlength
        have hseparator : parSeparator r = [0x3F] := by
          rw [parSeparator]
          split
          · rename_i hquestion
            rw [parSeparator, if_pos hquestion] at hlength' hseppos
            have hfive : (0x26 :: ampEscape).length = 5 := rfl
            omega
          · rfl
        have hquestion : 0x3F ∈ r := by
          rw [← hsame, attached, hseparator]
          exact List.mem_append_right _ List.mem_cons_self
        rw [parSeparator, if_pos hquestion] at hseparator
        cases hseparator
    · by_cases htaken : TakenForId (valueWindow name rest)
      · rw [getURL_taken hexact hnul hr hsmall hid hcut hfits htaken] at h
        have hsame := Except.ok.inj h
        rw [hparts] at hsame
        have hsame := List.append_cancel_left hsame
        have hdrop : (nameToken name ++ rest).drop 37 =
            ((nameToken name ++ rest).drop 5).drop 32 := by rw [List.drop_drop]
        conv_rhs at hsame => rw [← List.take_append_drop 5 (nameToken name ++ rest)]
        have hsame := List.append_cancel_left hsame
        conv_rhs at hsame => rw [← List.take_append_drop 32 ((nameToken name ++ rest).drop 5)]
        rw [hdrop] at hsame
        exact (List.append_cancel_right hsame).symm
      · rw [getURL_other hexact hnul hr hsmall hid hcut hfits hlong htaken
          (hattached r (Nat.le_refl _))] at h
        exact absurd (Except.ok.inj h) (attached_ne_self hid r)

end Fixed

/-! ## Where the value stands -/

/-- INTERNAL: the part that has become the parameter had its name, so the value is what was
written over. -/
theorem place_of_parameter {g m window : Bstr} (hid : TakenForId id) (hwindow : TakenForId window)
    (hne : window ≠ id) (hmade : g ++ (id ++ m) = nameToken name ++ id)
    (hnamed : namedBy name (g ++ (window ++ m)) = true) : g = nameToken name ∧ m = [] := by
  have hlength := congrArg List.length hmade
  simp only [List.length_append, length_nameToken, hid.1] at hlength
  rcases List.append_eq_append_iff.mp hmade with ⟨w, htoken, hrest⟩ | ⟨w, hg, -⟩
  · -- the name goes on behind `g`
    rcases List.eq_nil_or_concat w with rfl | ⟨w', c, rfl⟩
    · rw [List.append_nil] at htoken
      have hnil : m = [] := by
        have hshort := congrArg List.length htoken
        rw [length_nameToken] at hshort
        exact List.length_eq_zero_iff.mp (by omega)
      exact ⟨htoken.symm, hnil⟩
    · rw [List.concat_eq_append] at htoken hrest
      obtain ⟨hname, hc⟩ : name = g ++ w' ∧ (0x3D : UInt16) = c := by
        rw [nameToken, ← List.append_assoc] at htoken
        obtain ⟨hname, hc⟩ := List.append_inj' htoken rfl
        exact ⟨hname, (List.cons.inj hc).1⟩
      subst hc
      rcases Nat.lt_or_ge w'.length 32 with hlt | hge
      · -- the `=` would stand in the id
        have hbegins : w' ++ [0x3D] <+: id := by
          refine List.prefix_of_prefix_length_le ⟨id, hrest.symm⟩ (List.prefix_append id m) ?_
          rw [List.length_append, List.length_singleton, hid.1]
          omega
        exact absurd (hbegins.subset (List.mem_append_right w' (List.mem_singleton_self _)))
          hid.plain.2.1
      · -- the id would stand in the name
        have hidPrefix : id <+: w' := by
          rw [List.append_assoc] at hrest
          refine List.prefix_of_prefix_length_le ⟨m, hrest⟩ (List.prefix_append w' _) ?_
          rw [hid.1]
          exact hge
        have hnamePrefix : name <+: g ++ (window ++ m) := by
          rcases (namedBy_cases hnamed).2 with heq | ⟨v, heq⟩
          · rw [heq]
          · rw [heq, nameToken_append]
            exact List.prefix_append _ _
        have hboth : id <+: window ++ m := by
          rw [hname] at hnamePrefix
          exact hidPrefix.trans ((List.prefix_append_right_inj g).mp hnamePrefix)
        have hsame := List.prefix_of_prefix_length_le hboth (List.prefix_append window m)
          (le_of_eq (hid.1.trans hwindow.1.symm))
        exact absurd (hsame.eq_of_length (hid.1.trans hwindow.1.symm)).symm hne
  · -- `g` is at least as long as the name
    have hnil : w = [] := by
      have hshort := congrArg List.length hg
      rw [List.length_append, length_nameToken] at hshort
      exact List.length_eq_zero_iff.mp (by omega)
    rw [hnil, List.append_nil] at hg
    refine ⟨hg, List.length_eq_zero_iff.mp ?_⟩
    rw [hg, length_nameToken] at hlength
    omega

/-- INTERNAL: a part that was changed, and the rest kept, is none of the parts kept. -/
theorem filter_eq_of_ne {f : Bstr → Bool} {x y : Bstr} (hne : x ≠ y)
    (h : [x].filter f = [y].filter f) : f x = false ∧ f y = false := by
  cases hx : f x with
  | false =>
    cases hy : f y with
    | false => exact ⟨rfl, rfl⟩
    | true =>
      rw [List.filter_cons_of_pos hy, List.filter_cons_of_neg (by rw [hx]; decide)] at h
      cases h
  | true =>
    cases hy : f y with
    | false =>
      rw [List.filter_cons_of_pos hx, List.filter_cons_of_neg (by rw [hy]; decide)] at h
      cases h
    | true =>
      rw [List.filter_cons_of_pos hx, List.filter_cons_of_pos hy] at h
      exact absurd (List.cons.inj h).1 hne

/-- INTERNAL: no other parameter has changed, so the value belongs to the one of the name. -/
theorem place_of_carries {front window tail : Bstr} (hname : name ≠ []) (hid : TakenForId id)
    (hwindow : TakenForId window) (hne : window ≠ id) (hurl : 0x23 ∉ front ++ (window ++ tail))
    (h : Carries name id (front ++ (window ++ tail)) (front ++ (id ++ tail))) :
    (ampFields (urlQuery front)).getLast? = some (nameToken name) ∧
      (∀ c ∈ tail.head?, c = 0x26) ∧
      (namedParameters name (front ++ (window ++ tail))).length = 1 := by
  have htext : 0x23 ∉ front ++ (id ++ tail) := by
    simp only [List.mem_append, not_or] at hurl ⊢
    exact ⟨hurl.1, hid.plain.2.2.1, hurl.2.2⟩
  have hfront : 0x23 ∉ front := fun hmem => hurl (List.mem_append_left _ hmem)
  have htail : 0x23 ∉ tail := fun hmem =>
    hurl (List.mem_append_right _ (List.mem_append_right _ hmem))
  rw [carries_iff hname hurl htext] at h
  obtain ⟨hpath, hnamed, hothers⟩ := h
  rw [namedParameters, (parameters_readAmp hname hurl).1]
  -- the parts around the value, in a text that ends in it
  have hsplit : ∀ a b : Bstr, ∃ init g m M, ampFields a = init ++ [g] ∧
      (m = [] → ∀ c ∈ b.head?, c = 0x26) ∧
      ∀ t, TakenForId t → ampFields (a ++ (t ++ b)) = init ++ [g ++ (t ++ m)] ++ M := by
    intro a b
    obtain ⟨init, g, hfields, hmore⟩ := exists_ampFields_window a
    refine ⟨init, g, b.takeWhile (· ≠ 0x26), (ampFields (b.dropWhile (· ≠ 0x26))).tail, hfields,
      ?_, fun t ht => ?_⟩
    · intro hnil c hc
      have hhead := List.head?_dropWhile_not (fun c => decide (c ≠ 0x26)) b
      have hdrop := List.takeWhile_append_dropWhile (p := fun c => decide (c ≠ 0x26)) (l := b)
      rw [hnil, List.nil_append] at hdrop
      rw [hdrop, Option.mem_def.mp hc] at hhead
      simpa using hhead
    · have hone := hmore t (b.takeWhile (· ≠ 0x26)) (b.dropWhile (· ≠ 0x26)) ht ?_ ?_
      · rwa [List.takeWhile_append_dropWhile] at hone
      · intro hmem
        have hne := List.mem_takeWhile_imp hmem
        exact of_decide_eq_true hne rfl
      · intro c hc
        have hhead := List.head?_dropWhile_not (fun c => decide (c ≠ 0x26)) b
        rw [Option.mem_def.mp hc] at hhead
        simpa using hhead
  rcases url_cases hfront with ⟨hno, -, -⟩ | ⟨p, q, rfl, hp, -, hquery⟩
  · -- the path would have changed
    have hwhole : ∀ t, TakenForId t → 0x23 ∉ front ++ (t ++ tail) →
        urlPath (front ++ (t ++ tail)) = front ++ (t ++ urlPath tail) := by
      intro t ht hs
      rw [← List.append_assoc] at hs ⊢
      rw [(url_append hs (by rw [List.mem_append, not_or]; exact ⟨hno, ht.plain.2.2.2⟩)).1,
        List.append_assoc]
    rw [hwhole id hid htext, hwhole window hwindow hurl] at hpath
    have hfields := congrArg (List.splitOn 0x26) hpath
    rw [splitOn_readAmp, splitOn_readAmp] at hfields
    obtain ⟨init, g, m, M, -, -, hmore⟩ := hsplit front (urlPath tail)
    rw [hmore id hid, hmore window hwindow] at hfields
    have hlast := List.append_cancel_left (List.append_cancel_right hfields)
    have hvalue := List.append_cancel_right (List.append_cancel_left (List.cons.inj hlast).1)
    exact absurd hvalue.symm hne
  · obtain ⟨init, g, m, M, hfields, hend, hmore⟩ := hsplit q tail
    have hquery' : ∀ t, TakenForId t → 0x23 ∉ p ++ 0x3F :: q ++ (t ++ tail) →
        ampFields (urlQuery (p ++ 0x3F :: q ++ (t ++ tail))) = init ++ [g ++ (t ++ m)] ++ M := by
      intro t ht hs
      rw [List.append_assoc, List.cons_append] at hs ⊢
      rw [(url_of_append hs hp).2, hmore t ht]
    rw [hquery' id hid htext] at hnamed hothers
    rw [hquery' window hwindow hurl] at hothers ⊢
    simp only [List.filter_append] at hnamed hothers ⊢
    have hchanged : [g ++ (id ++ m)].filter (otherThan name) =
        [g ++ (window ++ m)].filter (otherThan name) :=
      List.append_cancel_left (List.append_cancel_right hothers)
    have hnonempty : ∀ t : Bstr, TakenForId t → g ++ (t ++ m) ≠ [] := by
      intro t ht hnil
      have hzero := congrArg List.length hnil
      simp only [List.length_append, ht.1, List.length_nil] at hzero
      omega
    have hdiffers : g ++ (id ++ m) ≠ g ++ (window ++ m) := fun heq =>
      hne (List.append_cancel_right (List.append_cancel_left heq)).symm
    obtain ⟨hmade, hwas⟩ := filter_eq_of_ne hdiffers hchanged
    have hname' : ∀ t : Bstr, TakenForId t → otherThan name (g ++ (t ++ m)) = false →
        namedBy name (g ++ (t ++ m)) = true := by
      intro t ht hother
      by_contra hnot
      rw [otherThan, decide_eq_false_iff_not] at hother
      exact hother ⟨hnonempty t ht, hnot⟩
    rw [List.filter_cons_of_pos (hname' id hid hmade), List.filter_nil] at hnamed
    have hlength := congrArg List.length hnamed
    simp only [List.length_append, List.length_singleton] at hlength
    have hbefore := List.length_eq_zero_iff.mp
      (by omega : (init.filter (namedBy name)).length = 0)
    have hbehind := List.length_eq_zero_iff.mp (by omega : (M.filter (namedBy name)).length = 0)
    rw [hbefore, hbehind, List.nil_append, List.append_nil, ← nameToken_append] at hnamed
    obtain ⟨hg, hm⟩ := place_of_parameter hid hwindow hne (List.cons.inj hnamed).1
      (hname' window hwindow hwas)
    refine ⟨?_, hend hm, ?_⟩
    · rw [hquery, hfields, List.getLast?_append_of_ne_nil _ (List.cons_ne_nil _ _), hg]
      rfl
    · rw [hbefore, hbehind, List.filter_cons_of_pos (hname' window hwindow hwas)]
      rfl

/-! ## The outcomes -/

/-- INTERNAL: a character among the thirty-two. -/
theorem mem_window {a b : Bstr} {c : UInt16} (h : a.length < 32) : c ∈ (a ++ c :: b).take 32 := by
  rw [List.take_append]
  refine List.mem_append_right _ ?_
  rw [show 32 - a.length = (31 - a.length) + 1 by omega]
  exact List.mem_cons_self

section Needed

variable (hname : name ≠ []) (hid : TakenForId id) (hurl : 0x23 ∉ u)
include hname hid hurl

/-- INTERNAL: when the id was appended to a text without the name. -/
theorem carriesWell_absent (hcut : cut (nameToken name) u = none)
    (hvalue : valueWindow name id = id) (hfits : FitsBstr (attached name id u u))
    (hcarries : Carries name id u (attached name id u u)) : CarriesWell name id u := by
  have hplain := isPlain_of_carries hcarries
  refine .absent hcut hplain hvalue ?_ hfits
  rw [namedParameters, (parameters_readAmp hname hurl).1]
  obtain ⟨-, hnamed, -⟩ :=
    (carries_iff hname hurl (notMem_attached hplain hid hurl u)).mp hcarries
  rcases url_cases hurl with ⟨-, -, hquery⟩ | ⟨p, q, rfl, hp, -, hquery⟩
  · rw [hquery, ampFields, fields_of_notMem List.not_mem_nil,
      List.filter_cons_of_neg (by rw [not_namedBy_nil hname]; exact Bool.false_ne_true)]
    rfl
  · have hquestion : 0x3F ∈ p ++ 0x3F :: q := List.mem_append_right p List.mem_cons_self
    rw [(attached_query hplain hid hquestion hurl hp).2, ← nameToken_append, List.filter_append,
      (filter_nameToken hplain.equals id).1] at hnamed
    rw [hquery]
    exact List.append_left_eq_self.mp hnamed

/-- INTERNAL: when another id was written over. -/
theorem carriesWell_taken (hcut : cut (nameToken name) u = some (before, rest))
    (hvalue : TakenForId (valueWindow name rest))
    (hcarries : Carries name id u (before ++ ((nameToken name ++ rest).take 5 ++
      (id ++ (nameToken name ++ rest).drop 37)))) : CarriesWell name id u := by
  have hplain := isPlain_of_carries hcarries
  have hlong := hvalue.1
  rw [valueWindow, List.length_take, List.length_drop] at hlong
  generalize hhead : (nameToken name ++ rest).take 5 = head at hcarries
  generalize htail : (nameToken name ++ rest).drop 37 = tail at hcarries
  generalize hwindow : valueWindow name rest = window at hvalue
  have hparts : nameToken name ++ rest = head ++ (window ++ tail) := by
    have hdrop : tail = ((nameToken name ++ rest).drop 5).drop 32 := by rw [List.drop_drop, ← htail]
    rw [hdrop, ← hwindow, valueWindow, List.take_append_drop, ← hhead, List.take_append_drop]
  have hu' : u = before ++ head ++ (window ++ tail) := by
    rw [eq_of_cut hcut, List.append_assoc, hparts, List.append_assoc]
  rw [← List.append_assoc] at hcarries
  by_cases hsame : window = id
  · rw [← hsame, ← hu'] at hcarries
    refine .kept hcut (hwindow.trans hsame) ?_
    rw [nameToken_append]
    have hnamed := hcarries.named
    rw [hsame] at hnamed
    exact hnamed
  · obtain ⟨hplace, hend, hone⟩ := place_of_carries hname hid hvalue hsame (hu' ▸ hurl)
      (hu' ▸ hcarries)
    refine .replaced hcut ?_ (hwindow ▸ hvalue) (hhead ▸ hplace) (htail ▸ hend) (hu' ▸ hone)
    -- a longer name reaches into the value or behind it
    by_contra hlength
    rcases Nat.lt_or_ge name.length 37 with hlt | hge
    · refine hvalue.plain.2.1 ?_
      have hshape : (nameToken name ++ rest).drop 5 = name.drop 5 ++ 0x3D :: rest := by
        rw [nameToken_append, List.drop_append_of_le_length (by omega)]
      rw [← hwindow, valueWindow, hshape, List.take_append]
      refine List.mem_append_right _ ?_
      rw [List.length_drop, show 32 - (name.length - 5) = (36 - name.length) + 1 by omega]
      exact List.mem_cons_self
    · rw [← htail, nameToken_append, List.drop_append_of_le_length hge] at hend
      cases hname' : name.drop 37 with
      | nil =>
        rw [hname'] at hend
        exact absurd (hend 0x3D rfl) (by decide)
      | cons c cs =>
        rw [hname'] at hend
        refine hplain.ampersand (List.mem_of_mem_drop (i := 37) ?_)
        rw [hname', hend c rfl]
        exact List.mem_cons_self

omit hurl in
/-- INTERNAL: when the id was appended to a text that begins with the name. -/
theorem carriesWell_first (hcut : cut (nameToken name) u = some ([], rest))
    (hshort : (nameToken name ++ rest).length < 37)
    (hvalue : valueWindow name (rest ++ (parSeparator u ++ (nameToken name ++ id))) = id)
    (hplain : IsPlain name) : CarriesWell name id u := by
  have hu : u = nameToken name ++ rest := by
    rw [eq_of_cut hcut, List.nil_append]
  have hpos := List.length_pos_iff.mpr hname
  have hlengthU : u.length = name.length + 1 + rest.length := by
    rw [hu, List.length_append, length_nameToken]
  rw [← hu] at hshort
  rw [valueWindow, ← List.append_assoc, ← hu] at hvalue
  obtain ⟨c, sep, hsep, hc⟩ : ∃ c sep, parSeparator u = c :: sep ∧ c ∉ id := by
    rw [parSeparator]
    split
    · exact ⟨_, _, rfl, hid.plain.1⟩
    · exact ⟨_, _, rfl, hid.plain.2.2.2⟩
  rcases Nat.lt_or_ge u.length 5 with hlt | hge
  · -- the `=` of the parameter that was appended is behind the value
    have hfour : (u ++ (parSeparator u ++ name)).length < 5 := by
      by_contra hlong
      rw [Nat.not_lt] at hlong
      have hsepLength := (length_attached name hid u u).2.2
      have hshape : u ++ (parSeparator u ++ (nameToken name ++ id)) =
          (u ++ (parSeparator u ++ name)) ++ 0x3D :: id := by
        rw [nameToken_append]
        simp only [List.append_assoc]
      rw [hshape, List.drop_append_of_le_length hlong] at hvalue
      refine hid.plain.2.1 ?_
      rw [← hvalue]
      refine mem_window ?_
      rw [List.length_drop]
      simp only [List.length_append]
      omega
    simp only [List.length_append, hsep, List.length_cons] at hfour
    have hrest : rest = [] := List.length_eq_zero_iff.mp (by omega)
    rw [hrest, List.append_nil] at hu
    refine .lone (by omega) hplain (fun hquestion => ?_) hu
    have hin : 0x3F ∈ u := by
      rw [hu, nameToken]
      exact List.mem_append_left _ hquestion
    rw [parSeparator, if_pos hin] at hsep
    obtain ⟨-, rfl⟩ := List.cons.inj hsep
    have hlengthSep : ampEscape.length = 4 := rfl
    omega
  · -- the separator is in the value
    rw [hsep, List.cons_append, List.drop_append_of_le_length hge] at hvalue
    refine absurd ?_ hc
    rw [← hvalue]
    refine mem_window ?_
    rw [List.length_drop]
    omega

end Needed

/-! ## What was cut out -/

/-- INTERNAL: the path keeps its `=`, so the text has a query. -/
theorem question_of_carries {pre mid post : Bstr} {c : UInt16} (hname : name ≠ [])
    (hid : TakenForId id) (hurl : 0x23 ∉ u) (hu : u = pre ++ (c :: (nameToken name ++ mid)) ++ post)
    (h : Carries name id u (attached name id u (pre ++ post))) : 0x3F ∈ u := by
  by_contra hno
  have hplain := isPlain_of_carries h
  have hleft : 0x23 ∉ pre ++ post := by
    rw [hu] at hurl
    simp only [List.mem_append, not_or] at hurl ⊢
    exact ⟨hurl.1.1, hurl.2⟩
  have hpath : 0x3F ∉ pre ++ post := by
    rw [hu] at hno
    simp only [List.mem_append, not_or] at hno ⊢
    exact ⟨hno.1.1, hno.2⟩
  have hsame := ((carries_iff hname hurl (notMem_attached hplain hid hleft u)).mp h).1
  rw [(attached_path hplain hid hno hleft hpath).1, (url_of_notMem hurl hno).1] at hsame
  have hfields := congrArg (List.splitOn 0x26) hsame
  rw [splitOn_readAmp, splitOn_readAmp] at hfields
  have hcount := congrArg (fun l => List.count 0x3D (List.flatten l)) hfields
  rw [ampFields, ampFields, count_fields (by decide) (by decide),
    count_fields (by decide) (by decide), hu, nameToken] at hcount
  simp only [List.count_append, List.count_cons, List.count_nil, beq_self_eq_true, if_true]
    at hcount
  omega

/-- INTERNAL: the distance of five belongs to a name of four letters. -/
theorem length_of_valueWindow (hid : TakenForId id) (hshort : name.length < 36)
    (h : valueWindow name id = id) : name.length = 4 := by
  rcases Nat.lt_trichotomy name.length 4 with hlt | heq | hgt
  · have hlength := congrArg List.length h
    rw [valueWindow, List.length_take, List.length_drop, List.length_append, length_nameToken,
      hid.1] at hlength
    omega
  · exact heq
  · refine absurd ?_ hid.plain.2.1
    rw [valueWindow, nameToken_append, List.drop_append_of_le_length (by omega)] at h
    rw [← h]
    refine mem_window ?_
    rw [List.length_drop]
    omega

/-- INTERNAL: another `name=` behind what was cut out would be found first. -/
theorem name_of_cutOut {pre post : Bstr} (hid : TakenForId id) (hname : name ≠ [])
    (hplain : IsPlain name) (hquestion : 0x3F ∈ u) (hpre : ¬ nameToken name <:+: pre)
    (hpost : ∀ c ∈ post.head?, c = 0x26) (hshort : post.length < 35)
    (hfixed : ∃ before rest, cut (nameToken name) (attached name id u (pre ++ post)) =
      some (before, rest) ∧ valueWindow name rest = id) :
    ¬ nameToken name <:+: pre ++ post ∧ valueWindow name id = id := by
  obtain ⟨before, rest, hcut, hvalue⟩ := hfixed
  have hpos := List.length_pos_iff.mpr hname
  have hampToken : 0x26 ∉ nameToken name := by
    rw [nameToken, List.mem_append, not_or]
    exact ⟨hplain.ampersand, by decide⟩
  have hnot : ¬ nameToken name <:+: pre ++ post := by
    intro hoccurs
    cases hbase : cut (nameToken name) (pre ++ post) with
    | none => exact (cut_eq_none_iff (nameToken_ne_nil name)).mp hbase hoccurs
    | some p =>
      obtain ⟨before', rest'⟩ := p
      -- it stands behind the `&`
      have hshort' : (nameToken name ++ rest').length < 34 := by
        have hparts := eq_of_cut hbase
        rw [List.append_assoc] at hparts
        rcases List.append_eq_append_iff.mp hparts with ⟨w, hw, hpost'⟩ | ⟨w, hw, hrest⟩
        · cases w with
          | nil =>
            rw [List.append_nil] at hw
            rw [List.nil_append] at hpost'
            cases hhead : nameToken name with
            | nil => exact absurd hhead (nameToken_ne_nil name)
            | cons d ds =>
              rw [hpost', hhead] at hpost
              refine absurd ?_ hampToken
              rw [hhead, hpost d rfl]
              exact List.mem_cons_self
          | cons d w =>
            have hlength := congrArg List.length hpost'
            rw [List.length_append, List.length_cons] at hlength
            omega
        · -- or it would reach into the text before
          cases post with
          | nil =>
            rw [List.append_nil] at hoccurs
            exact absurd hoccurs hpre
          | cons d b =>
            obtain rfl := hpost d rfl
            rcases List.append_eq_append_iff.mp hrest with ⟨z, hz, -⟩ | ⟨z, hz, hrest'⟩
            · refine absurd ?_ hpre
              rw [hw, hz]
              exact ⟨before', z, by simp only [List.append_assoc]⟩
            · cases z with
              | nil =>
                rw [List.append_nil] at hz
                refine absurd ?_ hpre
                rw [hw, hz]
                exact (List.suffix_append before' w).isInfix
              | cons e z =>
                obtain ⟨rfl, -⟩ := List.cons.inj (hrest' : 0x26 :: b = e :: (z ++ rest'))
                refine absurd ?_ hampToken
                rw [hz]
                exact List.mem_append_right w List.mem_cons_self
      -- so the separator is among the thirty-two characters
      have hcut' := cut_append hbase (parSeparator u ++ (nameToken name ++ id))
      rw [attached, hcut'] at hcut
      obtain ⟨-, hrest⟩ := Prod.mk.inj (Option.some.inj hcut)
      rw [← hrest, valueWindow, parSeparator, if_pos hquestion] at hvalue
      have hshape : nameToken name ++ (rest' ++ ((0x26 :: ampEscape) ++ (nameToken name ++ id))) =
          (nameToken name ++ rest' ++ [0x26, 0x61, 0x6D]) ++
            0x70 :: (0x3B :: (nameToken name ++ id)) := by
        simp only [ampEscape, List.append_assoc, List.cons_append, List.nil_append]
      have hthree : (nameToken name ++ rest' ++ [0x26, 0x61, 0x6D]).length =
          (nameToken name ++ rest').length + 3 := List.length_append
      have hlong : 2 ≤ (nameToken name ++ rest').length := by
        rw [List.length_append, length_nameToken]
        omega
      rw [hshape, List.drop_append_of_le_length (by omega)] at hvalue
      have hletter : (0x70 : UInt16) ∉ id := hid.notMem rfl
      refine hletter ?_
      rw [← hvalue]
      refine mem_window ?_
      rw [List.length_drop]
      omega
  refine ⟨hnot, ?_⟩
  rw [cut_attached hplain.equals hnot] at hcut
  obtain ⟨-, rfl⟩ := Prod.mk.inj (Option.some.inj hcut)
  exact hvalue

/-- INTERNAL: a text that goes on with the name is no parameter of it. -/
theorem not_namedBy_cons (hname : name ≠ []) (hequals : 0x3D ∉ name) (c : UInt16) (v : Bstr) :
    namedBy name (c :: (nameToken name ++ v)) = false := by
  rw [nameToken_append]
  refine beq_eq_false_iff_ne.mpr fun heq => ?_
  by_cases hc : c = 0x3D
  · rw [List.takeWhile_cons_of_neg (by simpa using hc)] at heq
    exact hname heq.symm
  · rw [List.takeWhile_cons_of_pos (by simpa using hc), takeWhile_equals hequals] at heq
    exact absurd (congrArg List.length heq) (by rw [List.length_cons]; omega)

/-- INTERNAL: and neither is one that has lost an `amp;` there. -/
theorem not_namedBy_dropEscape (hlength : name.length = 4) (hequals : 0x3D ∉ name) (c : UInt16)
    (v : Bstr) : namedBy name (dropEscape ampEscape (c :: (nameToken name ++ v))) = false := by
  have hname : name ≠ [] := fun hnil => by rw [hnil] at hlength; cases hlength
  by_cases hescape : ampEscape <+: c :: (nameToken name ++ v)
  · rw [dropEscape, if_pos hescape, nameToken_append]
    refine beq_eq_false_iff_ne.mpr fun heq => ?_
    have hshape : (c :: (name ++ 0x3D :: v)).drop ampEscape.length =
        name.drop 3 ++ 0x3D :: v := by
      show (c :: (name ++ 0x3D :: v)).drop 4 = _
      rw [List.drop_succ_cons, List.drop_append_of_le_length (by omega)]
    rw [hshape, takeWhile_equals fun hmem => hequals (List.mem_of_mem_drop hmem)] at heq
    have hshort := congrArg List.length heq
    rw [List.length_drop] at hshort
    omega
  · rw [dropEscape, if_neg hescape]
    exact not_namedBy_cons hname hequals c v

/-- INTERNAL: what was cut out was one parameter, with the `&` before it. -/
theorem cutOut_of_query {p q mid post : Bstr} {c : UInt16} (hname : name ≠ []) (hid : TakenForId id)
    (hlength : name.length = 4) (hmid : 0x26 ∉ mid) (hpost : ∀ d ∈ post.head?, d = 0x26)
    (hurl : 0x23 ∉ u) (hu : u = p ++ 0x3F :: (q ++ (c :: (nameToken name ++ mid)) ++ post))
    (hp : 0x3F ∉ p) (h : Carries name id u (attached name id u (p ++ 0x3F :: (q ++ post)))) :
    c = 0x26 ∧ name ≠ ampEscape ∧ (namedParameters name u).length = 1 := by
  have hplain := isPlain_of_carries h
  have hquestion : 0x3F ∈ u := by
    rw [hu]
    exact List.mem_append_right p List.mem_cons_self
  have hleft : 0x23 ∉ p ++ 0x3F :: (q ++ post) := by
    rw [hu] at hurl
    simp only [List.mem_append, List.mem_cons, not_or] at hurl ⊢
    exact ⟨hurl.1, hurl.2.1, hurl.2.2.1.1, hurl.2.2.2⟩
  obtain ⟨-, hnamed, hothers⟩ :=
    (carries_iff hname hurl (notMem_attached hplain hid hleft u)).mp h
  have hqueryU := (url_of_append (hu ▸ hurl) hp).2
  rw [← hu] at hqueryU
  obtain ⟨hone, hnone⟩ := filter_nameToken hplain.equals id
  rw [(attached_query hplain hid hquestion hleft hp).2, ampFields, fields_append hpost,
    ← nameToken_append, List.filter_append, hone, List.append_left_eq_self, List.filter_append,
    List.append_eq_nil_iff] at hnamed
  rw [(attached_query hplain hid hquestion hleft hp).2, hqueryU, ampFields, fields_append hpost,
    ampFields, fields_append hpost, List.filter_append, hnone, List.append_nil, List.filter_append,
    List.filter_append] at hothers
  have hothers := List.append_cancel_right hothers
  rw [namedParameters, (parameters_readAmp hname hurl).1, hqueryU, ampFields, fields_append hpost,
    List.filter_append, hnamed.2, List.append_nil]
  have hampToken : 0x26 ∉ nameToken name ++ mid := by
    rw [nameToken]
    simp only [List.mem_append, List.mem_singleton, not_or]
    exact ⟨⟨hplain.ampersand, by decide⟩, hmid⟩
  have hequal : 0 < (nameToken name ++ mid).count 0x3D := by
    rw [List.count_pos_iff, nameToken_append]
    exact List.mem_append_right _ List.mem_cons_self
  by_cases hc : c = 0x26
  · -- a part of its own
    subst hc
    rw [fields_append_cons, fieldsBehind_of_notMem hampToken, List.filter_append] at hothers ⊢
    have hfilter := (List.self_eq_append_right.mp hothers)
    have hnamedPart : namedBy name (dropEscape ampEscape (nameToken name ++ mid)) = true := by
      by_contra hnot
      have hcount := count_dropEscape (by decide : (0x3D : UInt16) ∉ ampEscape)
        (nameToken name ++ mid)
      have hother : otherThan name (dropEscape ampEscape (nameToken name ++ mid)) = true := by
        refine decide_eq_true ⟨fun hnil => ?_, hnot⟩
        rw [hnil, List.count_nil] at hcount
        omega
      rw [List.filter_cons_of_pos hother] at hfilter
      cases hfilter
    refine ⟨rfl, ?_, ?_⟩
    · rintro rfl
      rw [nameToken_append, dropEscape_append_self, namedBy,
        List.takeWhile_cons_of_neg (by simp)] at hnamedPart
      exact absurd hnamedPart (by decide)
    · rw [hnamed.1, List.filter_cons_of_pos hnamedPart]
      rfl
  · -- the end of another part
    exfalso
    have hone' : 0x26 ∉ c :: (nameToken name ++ mid) := by
      rw [List.mem_cons, not_or]
      exact ⟨fun h => hc h.symm, hampToken⟩
    have hpart : ∀ init x y, fields 0x26 ampEscape q = init ++ [y] →
        fields 0x26 ampEscape (q ++ c :: (nameToken name ++ mid)) = init ++ [x] →
        y.count 0x3D < x.count 0x3D → y = [] ∧ namedBy name x = true := by
      intro init x y hq hmore hcount
      rw [hq, hmore, List.filter_append, List.filter_append] at hothers
      have hsame := List.append_cancel_left hothers
      have hne : y ≠ x := fun heq => by rw [heq] at hcount; omega
      obtain ⟨hy, hx⟩ := filter_eq_of_ne hne hsame
      have hnotNamed : namedBy name y = false := by
        have hnone := hnamed.1
        rw [hq, List.filter_append, List.append_eq_nil_iff] at hnone
        by_contra hnot
        rw [Bool.not_eq_false] at hnot
        rw [List.filter_cons_of_pos hnot] at hnone
        cases hnone.2
      rw [otherThan, decide_eq_false_iff_not] at hx hy
      refine ⟨?_, ?_⟩
      · by_contra hnil
        exact hy ⟨hnil, by rw [hnotNamed]; decide⟩
      · by_contra hnot
        refine hx ⟨fun hnil => ?_, hnot⟩
        rw [hnil, List.count_nil] at hcount
        omega
    have hmoreEquals : ∀ last : Bstr, last.count 0x3D <
        (last ++ c :: (nameToken name ++ mid)).count 0x3D := by
      intro last
      rw [List.count_append, List.count_cons]
      omega
    have hescape : (0x3D : UInt16) ∉ ampEscape := by decide
    obtain ⟨init, last, ⟨hq, hmore⟩ | ⟨hq, hmore⟩⟩ := exists_fields_append 0x26 ampEscape q
    · obtain ⟨rfl, hnamedPart⟩ := hpart init _ _ hq (hmore _ hone') (hmoreEquals last)
      rw [List.nil_append, not_namedBy_cons hname hplain.equals] at hnamedPart
      cases hnamedPart
    · obtain ⟨hnil, hnamedPart⟩ := hpart init _ _ hq (hmore _ hone')
        (by rw [count_dropEscape hescape, count_dropEscape hescape]; exact hmoreEquals last)
      rw [dropEscape] at hnil
      split at hnil
      · rename_i hbegins
        obtain ⟨t, rfl⟩ := hbegins
        rw [List.drop_left] at hnil
        rw [hnil, List.append_nil, dropEscape_append_self,
          not_namedBy_cons hname hplain.equals] at hnamedPart
        cases hnamedPart
      · rw [hnil, List.nil_append, not_namedBy_dropEscape hlength hplain.equals] at hnamedPart
        cases hnamedPart

/-- INTERNAL: the characters of the parts, by the names of the parts. -/
theorem count_flatten_filter (name : Bstr) (c : UInt16) (l : List Bstr) :
    l.flatten.count c = (l.filter (namedBy name)).flatten.count c +
      (l.filter (otherThan name)).flatten.count c := by
  induction l with
  | nil => rfl
  | cons p l ih =>
    rw [List.flatten_cons, List.count_append, ih]
    cases hnamed : namedBy name p with
    | true =>
      have hother : otherThan name p = false := decide_eq_false fun h => h.2 hnamed
      rw [List.filter_cons_of_pos hnamed, List.filter_cons_of_neg (by rw [hother]; decide),
        List.flatten_cons, List.count_append, Nat.add_assoc]
    | false =>
      rw [List.filter_cons_of_neg (by rw [hnamed]; decide)]
      cases hother : otherThan name p with
      | true =>
        rw [List.filter_cons_of_pos hother, List.flatten_cons, List.count_append]
        omega
      | false =>
        have hnil : p = [] := by
          by_contra hne
          rw [otherThan, decide_eq_false_iff_not] at hother
          exact hother ⟨hne, by rw [hnamed]; decide⟩
        rw [List.filter_cons_of_neg (by rw [hother]; decide), hnil, List.count_nil, Nat.zero_add]

/-- INTERNAL: what was appended is no parameter without a query before it. -/
theorem question_of_appended {left : Bstr} (hname : name ≠ []) (hid : TakenForId id)
    (hurl : 0x23 ∉ u) (hleft : 0x23 ∉ left) (hquestion : 0x3F ∈ u)
    (h : Carries name id u (attached name id u left)) : 0x3F ∈ left := by
  by_contra hno
  have hplain := isPlain_of_carries h
  have hfragment := notMem_attached hplain hid hleft u
  have hnamed := ((carries_iff hname hurl hfragment).mp h).2.1
  have hfront : 0x3F ∉ left ++ (0x26 :: ampEscape) := by
    rw [List.mem_append, not_or]
    exact ⟨hno, by decide⟩
  rw [attached, parSeparator, if_pos hquestion, ← List.append_assoc] at hfragment hnamed
  rw [(url_append hfragment hfront).2, nameToken_append] at hnamed
  have hmem : name ++ 0x3D :: id ∈
      (ampFields (urlQuery (name ++ 0x3D :: id))).filter (namedBy name) := by
    rw [hnamed]
    exact List.mem_singleton_self _
  have hlong := (infix_of_mem_fields (List.mem_filter.mp hmem).1).1.length_le
  have hshort : (urlQuery (name ++ 0x3D :: id)).length < (name ++ 0x3D :: id).length := by
    have htail : ((withoutFragment (name ++ 0x3D :: id)).dropWhile (· ≠ 0x3F)).length ≤
        (withoutFragment (name ++ 0x3D :: id)).length := (List.dropWhile_suffix _).length_le
    have hfragment : (withoutFragment (name ++ 0x3D :: id)).length ≤
        (name ++ 0x3D :: id).length := (List.takeWhile_prefix _).length_le
    have hpos : 0 < (name ++ 0x3D :: id).length := by
      rw [List.length_append, List.length_cons]
      omega
    rw [urlQuery, List.length_tail]
    omega
  omega

/-- INTERNAL: what was cut out stood in a query, for the path keeps its `=` and the parameters
keep theirs. -/
theorem question_of_cutOut {pre mid post : Bstr} {c : UInt16} (hname : name ≠ []) (hid : TakenForId id)
    (hmid : 0x26 ∉ mid) (hpost : ∀ d ∈ post.head?, d = 0x26) (hurl : 0x23 ∉ u)
    (hu : u = pre ++ (c :: (nameToken name ++ mid)) ++ post)
    (hnot : ¬ nameToken name <:+: pre ++ post) (hquestion : 0x3F ∈ u)
    (h : Carries name id u (attached name id u (pre ++ post))) : 0x3F ∈ pre := by
  by_contra hpre
  have hplain := isPlain_of_carries h
  have hleft : 0x23 ∉ pre ++ post := by
    rw [hu] at hurl
    simp only [List.mem_append, not_or] at hurl ⊢
    exact ⟨hurl.1.1, hurl.2⟩
  have hin := question_of_appended hname hid hurl hleft hquestion h
  rw [List.mem_append] at hin
  obtain ⟨d, b, rfl⟩ : ∃ d b, post = d :: b :=
    List.exists_cons_of_ne_nil fun hnil => by
      rw [hnil] at hin
      exact hin.elim hpre List.not_mem_nil
  obtain rfl := hpost d rfl
  have hb : 0x3F ∈ b := by
    rcases hin.resolve_left hpre with _ | ⟨_, hb⟩
    exact hb
  obtain ⟨b₁, b₂, rfl, hb₁⟩ := List.eq_append_cons_of_mem hb
  -- the path and the parameters of the result
  have hfront : 0x3F ∉ pre ++ 0x26 :: b₁ := by
    rw [List.mem_append, List.mem_cons, not_or, not_or]
    exact ⟨hpre, by decide, hb₁⟩
  have hshape : pre ++ 0x26 :: (b₁ ++ 0x3F :: b₂) = (pre ++ 0x26 :: b₁) ++ 0x3F :: b₂ := by
    rw [List.append_assoc, List.cons_append]
  rw [carries_iff hname hurl (notMem_attached hplain hid hleft u)] at h
  rw [hshape] at hleft h
  obtain ⟨hpath, hquery⟩ := attached_query hplain hid hquestion hleft hfront
  rw [hpath, hquery] at h
  obtain ⟨hpaths, hnamed, hothers⟩ := h
  have hfields := congrArg (List.splitOn 0x26) hpaths
  rw [splitOn_readAmp, splitOn_readAmp] at hfields
  have hcountPath : ∀ s : Bstr, (ampFields s).flatten.count 0x3D = s.count 0x3D := fun s =>
    count_fields (by decide) (by decide) s
  have hcount := congrArg (fun l => List.count 0x3D (List.flatten l)) hfields
  rw [hcountPath, hcountPath, List.count_append, List.count_cons_of_ne (by decide)] at hcount
  have hequal : 0 < (c :: (nameToken name ++ mid)).count 0x3D := by
    rw [List.count_pos_iff, nameToken_append]
    exact List.mem_cons_of_mem c (List.mem_append_right _ List.mem_cons_self)
  by_cases hcut : 0x3F ∈ c :: (nameToken name ++ mid)
  · -- the query began in what was cut out
    obtain ⟨e₁, e₂, he, he₁⟩ := List.eq_append_cons_of_mem hcut
    have hfrontU : 0x3F ∉ pre ++ e₁ := by
      rw [List.mem_append, not_or]
      exact ⟨hpre, he₁⟩
    have hshapeU : u = (pre ++ e₁) ++ 0x3F :: (e₂ ++ 0x26 :: (b₁ ++ 0x3F :: b₂)) := by
      rw [hu, he]
      simp only [List.append_assoc, List.cons_append]
    obtain ⟨hpathU, hqueryU⟩ := url_of_append (hshapeU ▸ hurl) hfrontU
    rw [← hshapeU] at hpathU hqueryU
    have hampPart : 0x26 ∉ nameToken name ++ mid := by
      rw [nameToken]
      simp only [List.mem_append, List.mem_singleton, not_or]
      exact ⟨⟨hplain.ampersand, by decide⟩, hmid⟩
    have hampE : 0x26 ∉ e₂ := by
      intro hmem
      cases e₁ with
      | nil =>
        rw [(List.cons.inj he).2] at hampPart
        exact hampPart hmem
      | cons d e₁ =>
        rw [(List.cons.inj he).2] at hampPart
        exact hampPart (List.mem_append_right e₁ (List.mem_cons_of_mem _ hmem))
    have hpartsU : ampFields (e₂ ++ 0x26 :: (b₁ ++ 0x3F :: b₂)) =
        [e₂] ++ ampFieldsBehind (b₁ ++ 0x3F :: b₂) := by
      rw [ampFields, fields_append_cons, fields_of_notMem hampE]
      rfl
    obtain ⟨hone, hnone⟩ := filter_nameToken hplain.equals id
    rw [hpathU, List.count_append] at hcount
    rw [List.filter_append, ← nameToken_append, hone, List.append_left_eq_self] at hnamed
    rw [List.filter_append, hnone, List.append_nil, hqueryU, hpartsU, List.filter_append] at hothers
    -- the parameters behind what was cut out keep all their `=`
    have hbehind : ((ampFieldsBehind (b₁ ++ 0x3F :: b₂)).filter (namedBy name)).flatten.count
        0x3D = 0 := by
      rw [List.count_eq_zero]
      intro hmem
      obtain ⟨x, hx, hequals⟩ := List.mem_flatten.mp hmem
      obtain ⟨hx, hxNamed⟩ := List.mem_filter.mp hx
      rcases (namedBy_cases hxNamed).2 with rfl | ⟨v, rfl⟩
      · exact hplain.equals hequals
      · refine hnot (((List.prefix_append (nameToken name) v).isInfix.trans
          (infix_of_mem_fieldsBehind hx).1).trans ?_)
        exact ((List.suffix_cons _ _).trans (List.suffix_append pre _)).isInfix
    have htotal := count_flatten_filter name 0x3D (ampFieldsBehind (b₁ ++ 0x3F :: b₂))
    have htotal' := count_flatten_filter name 0x3D (ampFields b₂)
    rw [hbehind, Nat.zero_add, ampFieldsBehind, count_fieldsBehind (by decide) (by decide),
      List.count_append, List.count_cons_of_ne (by decide)] at htotal
    rw [hnamed, hothers, hcountPath, List.flatten_append, List.count_append, List.flatten_nil,
      List.count_nil, Nat.zero_add] at htotal'
    rw [ampFieldsBehind] at htotal'
    have hb₁Count : b₁.count 0x3D = 0 := by omega
    have he₁Count : e₁.count 0x3D = 0 := by omega
    rw [he, List.count_append, List.count_cons_of_ne (by decide)] at hequal
    -- so the `=` is in the first parameter, which has the name
    have he₂ : namedBy name e₂ = true := by
      by_contra hnotNamed
      have hother : otherThan name e₂ = true := by
        refine decide_eq_true ⟨fun hnil => ?_, hnotNamed⟩
        rw [hnil, List.count_nil] at hequal
        omega
      rw [List.filter_cons_of_pos hother, List.filter_nil, List.flatten_singleton] at htotal'
      omega
    rcases (namedBy_cases he₂).2 with heq | ⟨v, heq⟩
    · rw [heq, List.count_eq_zero_of_not_mem hplain.equals] at hequal
      omega
    · -- and then nothing of the path was cut out, but a `&` came in
      have htake := congrArg (List.takeWhile fun c => decide (c ≠ 0x3D)) he
      have he₁Equals : 0x3D ∉ e₁ ++ 0x3F :: name := by
        rw [List.mem_append, List.mem_cons, not_or, not_or]
        exact ⟨List.count_eq_zero.mp he₁Count, by decide, hplain.equals⟩
      have hshapeE : e₁ ++ 0x3F :: e₂ = (e₁ ++ 0x3F :: name) ++ 0x3D :: v := by
        rw [heq, nameToken_append]
        simp only [List.append_assoc, List.cons_append]
      rw [hshapeE, takeWhile_equals he₁Equals, nameToken_append] at htake
      have hlengths := congrArg List.length htake
      have hnil : e₁ = [] := by
        by_cases hc : c = 0x3D
        · rw [List.takeWhile_cons_of_neg (by simpa using hc), List.length_nil, List.length_append,
            List.length_cons] at hlengths
          omega
        · rw [List.takeWhile_cons_of_pos (by simpa using hc), takeWhile_equals hplain.equals,
            List.length_cons, List.length_append, List.length_cons] at hlengths
          exact List.length_eq_zero_iff.mp (by omega)
      rw [hpathU, hnil, List.append_nil, ampFields, fields_append_cons,
        ampFields, List.append_right_eq_self] at hfields
      obtain ⟨x, xs, hsplit⟩ := exists_splitOn 0x26 b₁
      rw [fieldsBehind_of_splitOn hsplit] at hfields
      cases hfields
  · -- the path has lost a `=`
    have hb : (0x3F : UInt16) ∉ 0x26 :: b₁ := fun hmem => hfront (List.mem_append_right pre hmem)
    have hfrontU : 0x3F ∉ pre ++ (c :: (nameToken name ++ mid)) ++ 0x26 :: b₁ := by
      rw [List.mem_append, List.mem_append, not_or, not_or]
      exact ⟨⟨hpre, hcut⟩, hb⟩
    have hshapeU : u = (pre ++ (c :: (nameToken name ++ mid)) ++ 0x26 :: b₁) ++ 0x3F :: b₂ := by
      rw [hu]
      simp only [List.append_assoc, List.cons_append]
    have hpathU := (url_of_append (hshapeU ▸ hurl) hfrontU).1
    rw [← hshapeU] at hpathU
    have hsame : (0x26 :: b₁).count 0x3D = b₁.count 0x3D := List.count_cons_of_ne (by decide)
    rw [hpathU, List.count_append, List.count_append, hsame] at hcount
    omega

/-! ## The theorem -/

/-- INTERNAL: the condition is needed where the URL leaves room. -/
theorem carriesWell_of_rewritesUrl (hexact : SearchesExactly loc name) (hname : name ≠ [])
    (hnul : 0 ∉ name) (hid : TakenForId id) (hurl : 0x23 ∉ u) (huNul : 0 ∉ u)
    (hroom : u.length + 2 * (name.length + 38) < 2 ^ 31) (h : RewritesUrl loc name id u) :
    CarriesWell name id u := by
  obtain ⟨r, hrun, hcarries, hfixed⟩ := h
  have hplain := isPlain_of_carries hcarries
  have hu : FitsBstr u := by
    rw [FitsBstr]
    omega
  have hsmall : name.length + 1 < 2 ^ 31 := by omega
  have hattached : ∀ left : Bstr, left.length ≤ u.length →
      (attached name id u left).length ≤ u.length + (name.length + 38) := by
    intro left hleft
    obtain ⟨hlength, -, hsep⟩ := length_attached name hid u left
    omega
  have hfits : ∀ left : Bstr, left.length ≤ u.length → FitsBstr (attached name id u left) := by
    intro left hleft
    have hlength := hattached left hleft
    rw [FitsBstr]
    omega
  -- where the second call finds the id
  have hfound : ∀ left : Bstr, left.length ≤ u.length → 0 ∉ left →
      r = attached name id u left → ∃ before rest,
        cut (nameToken name) (attached name id u left) = some (before, rest) ∧
          valueWindow name rest = id := by
    rintro left hleft hleftNul rfl
    have hlength := hattached left hleft
    exact exists_of_fixed hexact hnul hid hname hplain.ampersand
      (notMem_nul_attached hnul hid hleftNul u) (by omega) hfixed
  cases hcut : cut (nameToken name) u with
  | none =>
    rw [getURL_absent hexact hnul huNul hsmall hid hcut (hfits u (Nat.le_refl _))] at hrun
    obtain rfl := Except.ok.inj hrun
    obtain ⟨before, rest, hcut', hvalue⟩ := hfound u (Nat.le_refl _) huNul rfl
    rw [cut_attached hplain.equals
      ((cut_eq_none_iff (nameToken_ne_nil name)).mp hcut)] at hcut'
    obtain ⟨-, rfl⟩ := Prod.mk.inj (Option.some.inj hcut')
    exact carriesWell_absent hname hid hurl hcut hvalue (hfits u (Nat.le_refl _)) hcarries
  | some p =>
    obtain ⟨before, rest⟩ := p
    have hparts : u = before ++ (nameToken name ++ rest) := by
      rw [eq_of_cut hcut, List.append_assoc]
    have hfoundU : r = attached name id u u →
        valueWindow name (rest ++ (parSeparator u ++ (nameToken name ++ id))) = id := by
      intro hr
      obtain ⟨before', rest', hcut', hvalue⟩ := hfound u (Nat.le_refl _) huNul hr
      rw [attached, cut_append hcut] at hcut'
      obtain ⟨-, rfl⟩ := Prod.mk.inj (Option.some.inj hcut')
      exact hvalue
    rcases Nat.lt_or_ge (nameToken name ++ rest).length 37 with hshort | hlong
    · rcases List.eq_nil_or_concat before with rfl | ⟨pre, c, rfl⟩
      · rw [getURL_first hexact hnul huNul hsmall hid hcut hshort
          (hfits u (Nat.le_refl _))] at hrun
        exact carriesWell_first hname hid hcut hshort (hfoundU (Except.ok.inj hrun).symm) hplain
      · rw [List.concat_eq_append] at hcut hparts
        have hlengthU := congrArg List.length hparts
        simp only [List.length_append, List.length_singleton, length_nameToken] at hlengthU hshort
        have hdrop : (rest.dropWhile (· ≠ 0x26)).length ≤ rest.length :=
          (List.dropWhile_suffix _).length_le
        have hleft : (pre ++ rest.dropWhile (· ≠ 0x26)).length ≤ u.length := by
          rw [List.length_append]
          omega
        have hshort' : (nameToken name ++ rest).length < 37 := by
          rw [List.length_append, length_nameToken]
          exact hshort
        rw [getURL_cutOut hexact hnul huNul hsmall hid hplain.ampersand hcut hu (by omega) hshort'
          (hfits _ hleft)] at hrun
        obtain rfl := Except.ok.inj hrun
        have hleftNul : 0 ∉ pre ++ rest.dropWhile (· ≠ 0x26) := by
          rw [hparts] at huNul
          simp only [List.mem_append, not_or] at huNul ⊢
          exact ⟨huNul.1.1, fun hmem => huNul.2.2 ((List.dropWhile_suffix _).subset hmem)⟩
        have hfixed' := hfound _ hleft hleftNul rfl
        have hmid : 0x26 ∉ rest.takeWhile (· ≠ 0x26) := by
          intro hmem
          have hne := List.mem_takeWhile_imp hmem
          exact of_decide_eq_true hne rfl
        have hpost : ∀ d ∈ (rest.dropWhile (· ≠ 0x26)).head?, d = 0x26 := by
          intro d hd
          have hhead := List.head?_dropWhile_not (fun c => decide (c ≠ 0x26)) rest
          rw [Option.mem_def.mp hd] at hhead
          simpa using hhead
        have hu' : u = pre ++ (c :: (nameToken name ++ rest.takeWhile (· ≠ 0x26))) ++
            rest.dropWhile (· ≠ 0x26) := by
          rw [hparts]
          simp only [List.append_assoc, List.cons_append, List.nil_append,
            List.takeWhile_append_dropWhile]
        have hpos := List.length_pos_iff.mpr hname
        have hnotPre : ¬ nameToken name <:+: pre := fun hoccurs =>
          not_infix_of_cut (nameToken_ne_nil name) hcut
            (hoccurs.trans (List.prefix_append pre [c]).isInfix)
        have hquestion := question_of_carries hname hid hurl hu' hcarries
        obtain ⟨hnot, hvalue⟩ := name_of_cutOut hid hname hplain hquestion hnotPre hpost
          (by omega) hfixed'
        have hlength := length_of_valueWindow hid (by omega) hvalue
        have hquery := question_of_cutOut hname hid hmid hpost hurl hu' hnot hquestion hcarries
        obtain ⟨p, q, rfl, hp⟩ := List.eq_append_cons_of_mem hquery
        have hu'' : u = p ++ 0x3F :: (q ++ (c :: (nameToken name ++
            rest.takeWhile (· ≠ 0x26))) ++ rest.dropWhile (· ≠ 0x26)) := by
          conv_lhs => rw [hu']
          simp only [List.append_assoc, List.cons_append]
        have hshape : p ++ 0x3F :: q ++ rest.dropWhile (· ≠ 0x26) =
            p ++ 0x3F :: (q ++ rest.dropWhile (· ≠ 0x26)) := by
          rw [List.append_assoc, List.cons_append]
        obtain ⟨rfl, hescape, hone⟩ := cutOut_of_query hname hid hlength hmid hpost hurl hu'' hp
          (hshape ▸ hcarries)
        exact .cutOut hcut hlength hescape hquery hshort'
          (fun hoccurs => hnot (hoccurs.trans (List.suffix_append _ _).isInfix)) hone
          (hfits _ hleft)
    · by_cases htaken : TakenForId (valueWindow name rest)
      · rw [getURL_taken hexact hnul huNul hsmall hid hcut hu htaken] at hrun
        obtain rfl := Except.ok.inj hrun
        exact carriesWell_taken hname hid hurl hcut htaken hcarries
      · rw [getURL_other hexact hnul huNul hsmall hid hcut hu hlong htaken
          (hfits u (Nat.le_refl _))] at hrun
        have hvalue := hfoundU (Except.ok.inj hrun).symm
        have hsame : valueWindow name (rest ++ (parSeparator u ++ (nameToken name ++ id))) =
            valueWindow name rest := by
          rw [valueWindow, valueWindow, ← List.append_assoc,
            List.drop_append_of_le_length (by omega),
            List.take_append_of_le_length (by rw [List.length_drop]; omega)]
        rw [hsame] at hvalue
        exact absurd (hvalue ▸ hid) htaken

/-- **`get_URL` rewrites a URL as it should exactly under the condition**: for every URL without a
fragment, every name and every id, in every locale in which the comparison takes no other text for
the name. -/
theorem rewritesUrl_iff (hexact : SearchesExactly loc name) (hname : name ≠ []) (hnul : 0 ∉ name)
    (hid : TakenForId id) (hurl : 0x23 ∉ u) (huNul : 0 ∉ u) (hu : FitsBstr u) :
    (CarriesWell name id u → RewritesUrl loc name id u) ∧
      (u.length + 2 * (name.length + 38) < 2 ^ 31 →
        (RewritesUrl loc name id u ↔ CarriesWell name id u)) := by
  have henough : CarriesWell name id u → RewritesUrl loc name id u := by
    intro h
    cases h with
    | absent hcut hplain hvalue hnone hfits =>
      exact rewritesUrl_absent hexact hnul hid huNul hname hurl hcut hplain hvalue hnone hfits
    | kept hcut hvalue hone => exact rewritesUrl_kept hexact hnul hid huNul hu hcut hvalue hone
    | replaced hcut hlength hvalue hplace hend hone =>
      exact rewritesUrl_replaced hexact hnul hid huNul hname hurl hu hcut hlength hvalue hplace
        hend hone
    | cutOut hcut hlength hescape hquery hshort hfirst hone hfits =>
      exact rewritesUrl_cutOut hexact hnul hid huNul hname hurl hu hcut hlength hescape hquery
        hshort hfirst hone hfits
    | lone hlength hplain hquestion hu' =>
      exact rewritesUrl_lone hexact hnul hid huNul hname hurl hlength hplain hquestion hu'
  exact ⟨henough, fun hroom =>
    ⟨carriesWell_of_rewritesUrl hexact hname hnul hid hurl huNul hroom, henough⟩⟩

/-- `GUID`, the name that is configured by default. -/
def guidName : Bstr := [0x47, 0x55, 0x49, 0x44]

/-- An id of thirty-two zeros. -/
def zeroId : Bstr := List.replicate 32 0x30

/-- INTERNAL: the comparison of code units is exact. -/
theorem searchesExactly_ordinal (name : Bstr) : SearchesExactly .ordinal name where
  token _ h := beq_iff_eq.mp h
  ampersand c h := by
    have hsame : List.compareLex Ord.compare [c] [0x26] = .eq := h
    exact (List.cons.inj (Std.LawfulEqCmp.eq_of_compare hsame)).1

/-- INTERNAL: `setstring` takes the id. -/
theorem takenForId_zeroId : TakenForId zeroId :=
  ⟨List.length_replicate, fun _ hc => by rw [List.eq_of_mem_replicate hc]; decide⟩

/-- **The id is appended to `page?a=1`.** -/
theorem page_rewritesUrl :
    RewritesUrl .ordinal guidName zeroId (Bstr.ofString "page?a=1") :=
  (rewritesUrl_iff (searchesExactly_ordinal guidName) (by decide) (by decide)
    takenForId_zeroId (by decide) (by decide) (by unfold FitsBstr; decide)).1
    (.absent (by decide) ⟨by decide, by decide, by decide⟩ (by decide) (by decide)
      (by unfold FitsBstr; decide))

/-- **The query is lost when a short value was its first parameter.** -/
theorem firstParameter_not_rewritesUrl :
    ¬ RewritesUrl .ordinal guidName zeroId (Bstr.ofString "page?GUID=1") := by
  rintro ⟨r, hrun, hcarries, -⟩
  have hresult : NWCSession.getURL .ordinal guidName zeroId (Bstr.ofString "page?GUID=1") =
      .ok (Bstr.ofString "page&amp;GUID=" ++ zeroId) := by
    decide
  obtain rfl := Except.ok.inj (hresult.symm.trans hrun)
  have hnamed := hcarries.named
  exact absurd hnamed (by decide)

end IspSession.Analysis
