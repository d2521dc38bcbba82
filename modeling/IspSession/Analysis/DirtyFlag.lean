import IspSession.Analysis.VariableCalls

/-!
# The dirty flag of a dictionary

The binding of a variable is its value, or what its stream is loaded to. `KeepsTrack` is
the condition under which a call that changes a binding leaves the dirty flag set and finds
the dictionary not read-only:

* `putref_Item` does not set the flag, so it must come after a call that has, or change
  nothing;
* `RemoveAll` neither sets the flag nor looks at the read-only flag, `Remove` does not look
  at the read-only flag;
* `get_Item` empties a variable whose stream cannot be loaded.

`perform_keeps_track` is one call, `tracked_of_run` a whole run.
-/

set_option autoImplicit false

namespace IspSession.Analysis

open IspSession.Library IspSession.Model

variable {loc : Collation}

/-! ## Bindings -/

/-- What a value stands for: a stream for the object it is loaded to, if it can be. -/
def activated (oleLoad : List UInt8 → Option ComObject) : Variant → Variant
  | .unknown (.packed bytes) => .unknown ((oleLoad bytes).getD (.packed bytes))
  | .dispatch (.packed bytes) => .dispatch ((oleLoad bytes).getD (.packed bytes))
  | v => v

/-- The bindings of a dictionary. -/
def bindings (oleLoad : List UInt8 → Option ComObject) (d : VariantDictionary loc) :
    OrderedMap loc.compare Variant :=
  d.dictionary.mapValues fun _ => activated oleLoad

variable {oleLoad : List UInt8 → Option ComObject}

/-- A loaded object stands for itself. -/
theorem activated_loadedFrom (hload : ∀ bytes o, oleLoad bytes = some o → ∀ b, o ≠ .packed b)
    {wrap : ComObject → Variant} (hwrap : wrap = Variant.unknown ∨ wrap = Variant.dispatch)
    {bytes : List UInt8} (hsome : (oleLoad bytes).isSome = true) :
    activated oleLoad (loadedFrom oleLoad wrap bytes) =
      activated oleLoad (wrap (.packed bytes)) := by
  obtain ⟨o, ho⟩ := Option.isSome_iff_exists.mp hsome
  have hlive := hload bytes o ho
  rcases hwrap with rfl | rfl <;> cases o <;>
    simp [activated, loadedFrom, ho] at hlive ⊢

/-! ## The condition -/

/-- The variable is a flagged stream that cannot be loaded. -/
def unloadable (oleLoad : List UInt8 → Option ComObject) (d : VariantDictionary loc)
    (varKey : VariantDictionary.VariantKey) : Bool :=
  match varKey.bstrVal, d.dictionary.find (lpcolestr varKey.keycopy) with
  | some bstrVal, some (.unknown (.packed bytes))
  | some bstrVal, some (.dispatch (.packed bytes)) =>
    d.isSerialized bstrVal && (oleLoad bytes).isNone
  | _, _ => false

/-- The put leaves every binding as it is. -/
def PutsNothing (oleLoad : List UInt8 → Option ComObject) (d : VariantDictionary loc)
    (m : VariantDictionary.Mutation) : Prop :=
  ∀ key stored, puts m = some (key, stored) → ∃ v, d.dictionary.find key = some v ∧
    ∀ w, stored = some w → activated oleLoad w = activated oleLoad v

/-- What a call needs so that the dirty flag and the read-only flag keep their promise. -/
def KeepsTrack (oleLoad : List UInt8 → Option ComObject) (d : VariantDictionary loc) :
    VariantDictionary.Call → Prop
  | .getItem varKey =>
    unloadable oleLoad d varKey = true → d.blnDirty = true ∧ d.readOnly = false
  | .mutate (.putrefItem key newVal) =>
    d.readOnly = false → d.blnDirty = false → PutsNothing oleLoad d (.putrefItem key newVal)
  | .mutate (.remove key) => d.readOnly = true → d.dictionary.find (lpcolestr key) = none
  | .mutate .removeAll =>
    d.dictionary.entries ≠ [] → d.blnDirty = true ∧ d.readOnly = false
  | _ => True

/-! ## One call -/

/-- What a call does: it leaves the bindings and a set flag, or ends with the flag set in a
dictionary that could be changed. -/
def Traceable (oleLoad : List UInt8 → Option ComObject) (d d' : VariantDictionary loc) : Prop :=
  (bindings oleLoad d' = bindings oleLoad d ∧ (d.blnDirty = true → d'.blnDirty = true)) ∨
    (d'.blnDirty = true ∧ d.readOnly = false)

/-- INTERNAL: `get_Item`. -/
theorem traceable_getItem (hload : ∀ bytes o, oleLoad bytes = some o → ∀ b, o ≠ .packed b)
    {d d' : VariantDictionary loc} {varKey : VariantDictionary.VariantKey}
    {hr : HResult} {v : Variant} (hkeeps : KeepsTrack oleLoad d (.getItem varKey))
    (h : d.getVariable oleLoad varKey = .ok (hr, v, d')) : Traceable oleLoad d d' := by
  rcases getVariable_leaves h with rfl | ⟨bstrVal, bytes, wrap, hwrap, htext, hflag, hfind, rfl⟩
  · exact .inl ⟨rfl, id⟩
  · by_cases hsome : (oleLoad bytes).isSome = true
    · refine .inl ⟨?_, id⟩
      change (d.dictionary.assign _ _).mapValues _ = d.dictionary.mapValues _
      rw [OrderedMap.mapValues_assign, activated_loadedFrom hload hwrap hsome]
      apply OrderedMap.assign_of_find
      rw [OrderedMap.find_mapValues, hfind]
      rfl
    · have hunloadable : unloadable oleLoad d varKey = true := by
        have hnone : (oleLoad bytes).isNone = true := by simpa using hsome
        unfold unloadable
        rw [htext, hfind]
        rcases hwrap with rfl | rfl <;> simp [hflag, hnone]
      exact .inr (hkeeps hunloadable)

/-- INTERNAL: what a put of nothing new leaves. -/
theorem bindings_of_putsNothing {d d' : VariantDictionary loc} {m : VariantDictionary.Mutation}
    {key : Bstr} {stored : Option Variant} (h : PutsNothing oleLoad d m)
    (hputs : puts m = some (key, stored)) (hstores : Stores d d' key stored) :
    bindings oleLoad d' = bindings oleLoad d := by
  obtain ⟨v, hfind, hsame⟩ := h key stored hputs
  rw [bindings, bindings, hstores.2.2]
  cases stored with
  | none =>
    dsimp only
    rw [OrderedMap.insert_of_find _ hfind]
  | some w =>
    dsimp only
    rw [OrderedMap.mapValues_upsert, hsame w rfl]
    apply OrderedMap.upsert_of_find
    rw [OrderedMap.find_mapValues, hfind]
    rfl

/-- INTERNAL: the calls that change variables. -/
theorem traceable_mutate {d d' : VariantDictionary loc} {m : VariantDictionary.Mutation}
    (hkeeps : KeepsTrack oleLoad d (.mutate m)) (h : d.mutate m = .ok d') :
    Traceable oleLoad d d' := by
  cases hro : d.readOnly with
  | true =>
    cases m with
    | putItem key newVal defaults =>
      rw [VariantDictionary.mutate, VariantDictionary.putItem.eq_def, if_pos hro] at h
      cases h
      exact .inl ⟨rfl, id⟩
    | putrefItem key newVal =>
      rw [VariantDictionary.mutate, VariantDictionary.putrefItem, if_pos hro] at h
      cases h
      exact .inl ⟨rfl, id⟩
    | remove key =>
      cases h
      refine .inl ⟨?_, fun _ => rfl⟩
      rw [bindings, bindings]
      change (d.dictionary.erase (lpcolestr key)).mapValues _ = _
      rw [OrderedMap.erase_of_find_none (hkeeps hro)]
    | removeAll =>
      cases h
      have hempty : d.dictionary.entries = [] := by
        by_contra hne
        rw [(hkeeps hne).2] at hro
        cases hro
      exact .inl ⟨OrderedMap.ext (by simp [bindings, VariantDictionary.removeAll, hempty]), id⟩
  | false =>
    have hdirty := blnDirty_mutate hro h
    have hspec := mutate_spec hro h
    cases m with
    | putItem key newVal defaults => exact .inr ⟨hdirty, hro⟩
    | remove key => exact .inr ⟨hdirty, hro⟩
    | putrefItem key newVal =>
      cases hset : d.blnDirty with
      | true => exact .inr ⟨hdirty.trans hset, hro⟩
      | false =>
        refine .inl ⟨?_, fun hd => by rw [hset] at hd; cases hd⟩
        cases hputs : puts (.putrefItem key newVal) with
        | none =>
          simp only [hputs] at hspec
          rw [hspec]
        | some p =>
          simp only [hputs] at hspec
          exact bindings_of_putsNothing (hkeeps hro hset) hputs hspec
    | removeAll =>
      by_cases hempty : d.dictionary.entries = []
      · cases h
        exact .inl ⟨OrderedMap.ext (by simp [bindings, VariantDictionary.removeAll, hempty]), id⟩
      · exact .inr ⟨hdirty.trans (hkeeps hempty).1, hro⟩

/-- **One call** under the condition. -/
theorem perform_keeps_track (hload : ∀ bytes o, oleLoad bytes = some o → ∀ b, o ≠ .packed b)
    {d d' : VariantDictionary loc} {call : VariantDictionary.Call}
    (hkeeps : KeepsTrack oleLoad d call) (h : d.perform oleLoad call = .ok d') :
    Traceable oleLoad d d' := by
  cases call with
  | getItem varKey =>
    obtain ⟨⟨hr, v, d₁⟩, hget, heq⟩ := Run.bind_eq_ok h
    cases heq
    exact traceable_getItem hload hkeeps hget
  | getExists key =>
    cases h
    exact .inl ⟨rfl, id⟩
  | getKey keyIndex =>
    cases h
    exact .inl ⟨rfl, id⟩
  | putReadonly newVal =>
    cases h
    exact .inl ⟨rfl, id⟩
  | mutate m => exact traceable_mutate hkeeps h

/-! ## Runs -/

/-- In every state of the run, bindings that differ from the first ones are reported; no
call on a read-only dictionary changes them. -/
def Tracked (oleLoad : List UInt8 → Option ComObject) (loaded : VariantDictionary loc)
    (calls : List VariantDictionary.Call) : Prop :=
  ∀ before call after d d', calls = before ++ call :: after →
    Runs.run (VariantDictionary.perform oleLoad) before loaded = .ok d →
    d.perform oleLoad call = .ok d' →
    (bindings oleLoad d' ≠ bindings oleLoad loaded → d'.blnDirty = true) ∧
      (d.readOnly = true → bindings oleLoad d' = bindings oleLoad d)

/-- **Where every call meets the condition, the flags keep their promise** in every state
of the run, whatever dictionary `LocalLoad` left. -/
theorem tracked_of_run (hload : ∀ bytes o, oleLoad bytes = some o → ∀ b, o ≠ .packed b)
    (loaded : VariantDictionary loc) (calls : List VariantDictionary.Call)
    (hm : Runs.Meets (VariantDictionary.perform oleLoad) (KeepsTrack oleLoad) calls loaded) :
    Tracked oleLoad loaded calls := by
  rintro before call after d d' rfl hbefore hcall
  obtain ⟨hmBefore, hmRest⟩ := Runs.meets_append hm
  have hpromise : ∀ e e' : VariantDictionary loc, Traceable oleLoad e e' →
      (bindings oleLoad e ≠ bindings oleLoad loaded → e.blnDirty = true) →
      bindings oleLoad e' ≠ bindings oleLoad loaded → e'.blnDirty = true := by
    rintro e e' (⟨hsame, hdirty⟩ | ⟨hdirty, -⟩) he hne
    · exact hdirty (he (hsame ▸ hne))
    · exact hdirty
  have hstep := perform_keeps_track hload (hmRest d hbefore).1 hcall
  have hd : bindings oleLoad d ≠ bindings oleLoad loaded → d.blnDirty = true :=
    Runs.run_invariant (fun e => bindings oleLoad e ≠ bindings oleLoad loaded → e.blnDirty = true)
      (fun e c e' he hc hp => hpromise e e' (perform_keeps_track hload hc hp) he)
      (fun hne => absurd rfl hne) hmBefore hbefore
  refine ⟨hpromise d d' hstep hd, fun hro => ?_⟩
  rcases hstep with ⟨hsame, -⟩ | ⟨-, hmutable⟩
  · exact hsame
  · rw [hro] at hmutable
    cases hmutable

/-! ## Runs on a stored session -/

/-- A dictionary with the variable `a`, as `LocalLoad` leaves it. -/
def oneVariable : VariantDictionary .ordinal :=
  { (.new : VariantDictionary .ordinal) with
    dictionary := OrderedMap.empty.insert [97] (.scalar .i4 5) }

/-- A page that removes the variable, stores an object and then only reads. -/
def carefulPage : List VariantDictionary.Call :=
  let object := Argument.value (.dispatch (.live true (some [7])))
  [.mutate (.remove [97]), .mutate (.putrefItem [98] object), .putReadonly true,
    .mutate (.putrefItem [97] object), .getItem (.bstr [98])]

/-- On that page the flags keep their promise. -/
theorem carefulPage_tracked : Tracked (fun _ => none) oneVariable carefulPage := by
  refine tracked_of_run (fun _ _ h => by cases h) oneVariable carefulPage ?_
  refine ⟨fun h => (by cases h), fun s₁ h₁ => ?_⟩
  cases h₁
  refine ⟨fun _ h => (by cases h), fun s₂ h₂ => ?_⟩
  cases h₂
  refine ⟨trivial, fun s₃ h₃ => ?_⟩
  cases h₃
  refine ⟨fun h => (by cases h), fun s₄ h₄ => ?_⟩
  cases h₄
  exact ⟨fun h => (by cases h), fun _ _ => trivial⟩

/-- **`putref_Item` changes a variable and leaves the dirty flag alone.** -/
theorem storedReference_not_tracked : ¬ Tracked (fun _ => none) oneVariable
    [.mutate (.putrefItem [97] (.value (.dispatch (.live true (some [7])))))] := by
  intro h
  have hstep := (h [] _ [] oneVariable _ rfl rfl rfl).1
  have hvalues : ∀ {m m' : OrderedMap Collation.ordinal.compare Variant}, m = m' →
      m.entries.map (fun e => e.2.vt) = m'.entries.map fun e => e.2.vt := fun h => h ▸ rfl
  refine absurd (hstep fun heq => ?_) Bool.false_ne_true
  exact absurd (hvalues heq) (by decide)

end IspSession.Analysis
