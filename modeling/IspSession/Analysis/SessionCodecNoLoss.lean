import IspSession.Analysis.Lossless

/-!
# No silent loss in the session codec

A dictionary that calls of `put_Item` and `putref_Item` have built is written and loaded
again. A variable goes missing, or comes back changed, without an error code when some
call was not safe: the value has a type the codec skips, a name is no well-formed text,
or an object that cannot be saved stands above another key, whose variable is then never
read.
-/

set_option autoImplicit false

namespace IspSession.Analysis

open IspSession.Library IspSession.Model

variable {loc : Collation}

/-! ## Silent loss -/

/-- The value is an object that cannot be saved. -/
def unpersistable : Variant → Bool
  | .dispatch o | .unknown o => (savedStream false o).isNone
  | _ => false

/-- If `LocalContents` succeeds, so does `LocalLoad`, every key is there again, and every
value but an object that cannot be saved is unchanged. -/
def NoSilentLoss (d : VariantDictionary loc) : Prop :=
  ∀ mem mem' (r : VariantDictionary loc) hr lSize stream d',
    d.localContents mem = .ok (hr, lSize, stream, d') → hr.failed = false →
      ∃ hr' r' stream', r.localLoad mem' (some stream) lSize = .ok (hr', r', stream') ∧
        hr'.failed = false ∧
        ∀ e ∈ d.dictionary.entries, ∃ v, (e.1, v) ∈ r'.dictionary.entries ∧
          (unpersistable e.2 = false → v = persisted e.2)

/-- INTERNAL: what is loaded of a value that is no lost object. -/
theorem loadedValue_eq_persisted {v : Variant} (h : unpersistable v = false) :
    (loadedValue false v).2 = persisted v := by
  have hobject : ∀ (wrap : ComObject → Variant) (o : ComObject),
      (savedStream false o).isNone = false →
      ∃ bytes, o = .live true (some bytes) ∧
        (loadedObject wrap (savedStream false o)).2 = wrap (.packed bytes) := by
    intro wrap o ho
    cases o with
    | live p saved =>
      cases p <;> cases saved <;> simp_all [savedStream, loadedObject]
    | _ => simp [savedStream] at ho
  cases v with
  | dispatch o =>
    obtain ⟨bytes, rfl, hloaded⟩ := hobject .dispatch o h
    exact hloaded
  | unknown o =>
    obtain ⟨bytes, rfl, hloaded⟩ := hobject .unknown o h
    exact hloaded
  | _ => rfl

/-- A lossless dictionary without streams that wait to be loaded loses nothing. -/
theorem Lossless.noSilentLoss {d : VariantDictionary loc} (h : Lossless d)
    (hflags : d.isserialized = .empty) : NoSilentLoss d := by
  intro mem mem' r hr lSize stream d' hwrite hok
  obtain ⟨⟨b, hb⟩, b', hb'⟩ := h.reload mem mem' r
  rw [hb] at hwrite
  simp only [Except.ok.injEq, Prod.mk.injEq] at hwrite
  obtain ⟨-, rfl, rfl, -⟩ := hwrite
  refine ⟨_, _, _, hb', failed_loadedResult _ _, ?_⟩
  intro e he
  have hflag : d.isSerialized e.1 = false := by
    rw [VariantDictionary.isSerialized, hflags]
    rfl
  refine ⟨(loadedValue (d.isSerialized e.1) e.2).2, ?_, ?_⟩
  · rw [VariantDictionary.dictionary_withBuffer, dictionary_reloaded,
      OrderedMap.entries_mapValues]
    exact List.mem_map_of_mem he
  · intro hp
    rw [hflag]
    exact loadedValue_eq_persisted hp

/-! ## Runs -/

/-- INTERNAL: where no stream waits to be loaded, no call adds one. -/
theorem isserialized_mutate {d d' : VariantDictionary loc} (hro : d.readOnly = false)
    (hflags : d.isserialized = .empty) {m : VariantDictionary.Mutation}
    (h : d.mutate m = .ok d') : d'.isserialized = .empty := by
  have hspec := mutate_spec hro h
  cases m with
  | putItem key newVal defaults => exact hspec.1.trans hflags
  | putrefItem key newVal =>
    cases hputs : puts (.putrefItem key newVal) with
    | none =>
      simp only [hputs] at hspec
      exact hspec ▸ hflags
    | some p =>
      simp only [hputs] at hspec
      exact hspec.1.trans hflags
  | remove key =>
    have herase : d.isserialized.erase (lpcolestr key) = .empty := by
      rw [hflags]
      rfl
    rw [hspec]
    unfold VariantDictionary.remove
    cases d.dictionary.find (lpcolestr key) with
    | none => exact hflags
    | some v =>
      dsimp only
      split
      · exact herase
      · exact hflags
  | removeAll => exact hspec ▸ rfl

/-- **No silent loss.** A dictionary built by safe calls survives the codec: whatever
`LocalContents` has written without an error, `LocalLoad` brings back. -/
theorem noSilentLoss_of_run {ms : List VariantDictionary.Mutation} {d : VariantDictionary loc}
    (hsafe : Runs.Meets VariantDictionary.mutate SafeCall ms (.new : VariantDictionary loc))
    (hrun : Runs.run VariantDictionary.mutate ms .new = .ok d) : NoSilentLoss d := by
  have hbuilt : Lossless d ∧ d.isserialized = .empty ∧ d.readOnly = false := by
    refine Runs.run_invariant (fun d : VariantDictionary loc =>
      Lossless d ∧ d.isserialized = .empty ∧ d.readOnly = false) ?_ ?_ hsafe hrun
    · rintro d m d' ⟨hlossless, hflags, hro⟩ hcall hd
      exact ⟨hlossless.mutate hro hcall hd, isserialized_mutate hro hflags hd,
        readOnly_mutate hro hd⟩
    · exact ⟨lossless_of_empty rfl, rfl, rfl⟩
  exact hbuilt.1.noSilentLoss hbuilt.2.1

/-- Two values put under the keys `a` and `b`. -/
def twoPuts (v w : Variant) : List VariantDictionary.Mutation :=
  [.putItem (Bstr.ofString "a") (.value v) [], .putItem (Bstr.ofString "b") (.value w) []]

/-- The dictionary after the first put. -/
def afterPut (v : Variant) : VariantDictionary .ordinal :=
  { VariantDictionary.new with
    dictionary := OrderedMap.empty.upsert (Bstr.ofString "a") v
    blnDirty := true }

/-- The dictionary after both. -/
def afterPuts (v w : Variant) : VariantDictionary .ordinal :=
  { afterPut v with dictionary := (afterPut v).dictionary.upsert (Bstr.ofString "b") w }

/-- INTERNAL: putting a null object under the least key is safe. -/
theorem safeCall_nullObject : SafeCall (.new : VariantDictionary .ordinal)
    (.putItem (Bstr.ofString "a") (.value (.unknown .null)) []) := by
  refine safeCall_new rfl ⟨⟨"a".toList, rfl⟩, by unfold StringFits; decide⟩
    ⟨⟨by decide, fun bytes hbytes => by cases hbytes⟩, trivial⟩ ?_
  rintro w (rfl | rfl) mem
  · exact Nat.lt_of_le_of_lt (Nat.le_of_ble_eq_true rfl : _ ≤ 64) (by decide)
  · exact Nat.lt_of_le_of_lt (Nat.le_of_ble_eq_true rfl : _ ≤ 64) (by decide)

/-- INTERNAL: so is putting a number behind it. -/
theorem safeCall_number : SafeCall (afterPut (.unknown .null))
    (.putItem (Bstr.ofString "b") (.value (.scalar .i4 7)) []) := by
  have hput : ∀ v : Variant, v = .empty ∨ v = .scalar .i4 7 →
      SafePut (afterPut (.unknown .null)) (Bstr.ofString "b") v := by
    intro v hv
    refine ⟨⟨⟨"b".toList, rfl⟩, by unfold StringFits; decide⟩, ?_, ?_, ?_, ?_, ?_⟩
    · rcases hv with rfl | rfl <;> exact ⟨⟨trivial, trivial⟩, trivial⟩
    · intro hloses
      rcases hv with rfl | rfl <;> cases hloses
    · intro e he _
      obtain rfl : e = (Bstr.ofString "a", .unknown .null) := List.mem_singleton.mp he
      decide
    · rcases hv with rfl | rfl <;> decide
    · intro mem
      rcases hv with rfl | rfl
      · exact Nat.lt_of_le_of_lt (Nat.le_of_ble_eq_true rfl : _ ≤ 64) (by decide)
      · exact Nat.lt_of_le_of_lt (Nat.le_of_ble_eq_true rfl : _ ≤ 64) (by decide)
  refine ⟨hput _ (.inl rfl), ?_⟩
  intro v hv
  obtain rfl : Variant.scalar .i4 7 = v := by simpa [resolved, Argument.deref] using hv
  exact hput _ (.inr rfl)

/-- A null object under the least key is read last, and takes no variable with it. -/
theorem nullObjectFirst_noSilentLoss :
    NoSilentLoss (afterPuts (.unknown .null) (.scalar .i4 7)) := by
  have hfirst : VariantDictionary.mutate (.new : VariantDictionary .ordinal)
      (.putItem (Bstr.ofString "a") (.value (.unknown .null)) []) =
        .ok (afterPut (.unknown .null)) := by
    rw [VariantDictionary.mutate, VariantDictionary.putItem]
    rfl
  have hsecond : VariantDictionary.mutate (afterPut (.unknown .null))
      (.putItem (Bstr.ofString "b") (.value (.scalar .i4 7)) []) =
        .ok (afterPuts (.unknown .null) (.scalar .i4 7)) := by
    rw [VariantDictionary.mutate, VariantDictionary.putItem]
    rfl
  have hrun : Runs.run VariantDictionary.mutate (twoPuts (.unknown .null) (.scalar .i4 7))
      .new = .ok (afterPuts (.unknown .null) (.scalar .i4 7)) := by
    simp only [twoPuts, Runs.run, hfirst, hsecond]
  refine noSilentLoss_of_run ?_ hrun
  refine ⟨safeCall_nullObject, ?_⟩
  intro d hd
  rw [hfirst] at hd
  cases hd
  exact ⟨safeCall_number, fun _ _ => trivial⟩

/-- Under a greater key it is read first and ends the loop: the number is not read. -/
theorem nullObjectLast_not_noSilentLoss :
    Runs.run VariantDictionary.mutate (twoPuts (.scalar .i4 7) (.unknown .null)) .new =
      .ok (afterPuts (.scalar .i4 7) (.unknown .null)) ∧
    ¬ NoSilentLoss (afterPuts (.scalar .i4 7) (.unknown .null)) := by
  constructor
  · simp only [twoPuts, Runs.run, VariantDictionary.mutate, VariantDictionary.putItem]
    rfl
  · intro h
    have hrun : ((afterPuts (.scalar .i4 7) (.unknown .null)).localContents .zero).toOption.map
        (fun w => (w.1.failed, (VariantDictionary.localLoad .zero
          (.new : VariantDictionary .ordinal) (some w.2.2.1) w.2.1).toOption.map
            fun l => l.2.1.dictionary.keys)) =
        some (false, some [Bstr.ofString "b"]) := by decide +kernel
    cases hwrite : (afterPuts (.scalar .i4 7) (.unknown .null)).localContents .zero with
    | error e =>
      rw [hwrite] at hrun
      cases hrun
    | ok w =>
      obtain ⟨hr, lSize, stream, d'⟩ := w
      simp only [hwrite, Except.toOption, Option.map_some, Option.some.injEq,
        Prod.mk.injEq] at hrun
      obtain ⟨hr', r', stream', hload, -, hkeys⟩ := h .zero .zero .new _ _ _ _ hwrite hrun.1
      obtain ⟨v, hv, -⟩ := hkeys (Bstr.ofString "a", .scalar .i4 7) (.head _)
      simp only [hload, Option.map_some, Option.some.injEq] at hrun
      have hmem : Bstr.ofString "a" ∈ r'.dictionary.keys := List.mem_map_of_mem hv
      rw [hrun.2] at hmem
      revert hmem
      decide

end IspSession.Analysis
