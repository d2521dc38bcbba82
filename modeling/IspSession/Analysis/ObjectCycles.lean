import IspSession.Analysis.NestedObjects
import IspSession.Analysis.SerializedFlags

/-!
# Objects over many cycles

A cycle is `LocalContents`, `LocalLoad` of the stream into some dictionary, and `get_Item` for
some of the variables. The flag that tells a stream from a live object is kept for a variable as a
whole. An object in an array comes back as a stream that has no flag, and the next `LocalContents`
writes it as zero bytes. As the value of a variable it lasts.
-/

set_option autoImplicit false

namespace IspSession.Analysis

open IspSession.Library IspSession.Model

variable {loc : Collation}

/-! ## Cycles -/

/-- What one cycle is run with: the memory of the writer and of the reader, the dictionary that is
loaded, and the variables that are asked for. -/
structure CycleInput (loc : Collation) where
  mem : Memory
  mem' : Memory
  target : VariantDictionary loc
  keys : List Bstr

/-- `get_Item`, one key after the other. -/
def visitItems (oleLoad : List UInt8 → Option ComObject) :
    List Bstr → VariantDictionary loc → Run (VariantDictionary loc)
  | [], d => pure d
  | key :: keys, d => do
    let (_, _, d) ← d.getItem oleLoad key
    visitItems oleLoad keys d

/-- One cycle. -/
def cycle (oleLoad : List UInt8 → Option ComObject) (i : CycleInput loc)
    (d : VariantDictionary loc) : Run (VariantDictionary loc) := do
  let (_, lSize, stream, _) ← d.localContents i.mem
  let (_, d, _) ← i.target.localLoad i.mem' (some stream) lSize
  visitItems oleLoad i.keys d

/-- Several cycles. -/
def cycles (oleLoad : List UInt8 → Option ComObject) :
    List (CycleInput loc) → VariantDictionary loc → Run (VariantDictionary loc)
  | [], d => pure d
  | i :: inputs, d => do
    let d ← cycle oleLoad i d
    cycles oleLoad inputs d

/-- A dictionary with the stream in the place of each object. -/
def inStreams (d : VariantDictionary loc) : OrderedMap loc.compare Variant :=
  d.dictionary.mapValues fun _ v => asStreams v

/-- **The claim about a run**: it ends, and the variables are the same but for objects that are
there as their streams, or again as live ones with these streams. -/
def ObjectsSurvive (oleLoad : List UInt8 → Option ComObject) (inputs : List (CycleInput loc))
    (d : VariantDictionary loc) : Prop :=
  ∃ d', cycles oleLoad inputs d = .ok d' ∧ inStreams d' = inStreams d

/-! ## What is stored -/

/-- The bytes of a variable whose flag says whether it is a stream. -/
def contentOf (mem : Memory) (v : Variant) : List UInt8 := objectsBytes mem (packed v) v

/-- The stream of a dictionary with right flags. -/
def objectContents (mem : Memory) (d : VariantDictionary loc) : List UInt8 :=
  contentsBytes ((storedEntries d).map (storedVariable fun _ v => contentOf mem v))

/-- A variable whose objects have streams: its own, live or packed, and live ones in its arrays.
No array defeats the carry loop. -/
def Savable (v : Variant) : Prop := Hereditary (SavableHere (packed v)) v ∧ Readable v

/-- A dictionary of such variables, in the range of the code's integers, in which every name
has a flag of its own. -/
structure Storing (d : VariantDictionary loc) : Prop where
  flags : FlagsMatch d
  zeroless : Zeroless d
  size : d.dictionary.size ≤ 32767
  names : ∀ e ∈ d.dictionary.entries, WellFormedUtf16 e.1 ∧ StringFits e.1
  values : ∀ e ∈ d.dictionary.entries, Savable e.2
  stream : ∀ mem, (objectContents mem d).length < 2 ^ 32

/-- INTERNAL: the properties that a reader finds in the stream. -/
def streamedProperties (mem : Memory) (d : VariantDictionary loc) : List LoadedProperty :=
  (storedEntries d).map fun e =>
    ⟨storedVariable (fun _ v => contentOf mem v) e, .sOk, asStreams e.2⟩

/-- INTERNAL: the flags that are loaded. -/
theorem freshFlags_foldl {ps : List LoadedProperty}
    (hobject : ∀ p ∈ ps, p.hr = .sOk ∧ (ObjectTag p.stored.vt ↔ packed p.value = true))
    (hzero : ∀ p ∈ ps, lpcolestr p.stored.name = p.stored.name)
    (hnames : ps.Pairwise fun p q => loc.compare q.stored.name p.stored.name ≠ .eq)
    {d : VariantDictionary loc} (h : FreshFlags d)
    (hnew : ∀ p ∈ ps, d.dictionary.find p.stored.name = none) :
    FreshFlags (ps.foldl (fun d p => p.into d) d) := by
  induction ps generalizing d with
  | nil => exact h
  | cons p ps ih =>
    obtain ⟨hfirst, hnames⟩ := List.pairwise_cons.mp hnames
    obtain ⟨hhr, htag⟩ := hobject p List.mem_cons_self
    have hname := hzero p List.mem_cons_self
    refine ih (fun q hq => hobject q (List.mem_cons_of_mem _ hq))
      (fun q hq => hzero q (List.mem_cons_of_mem _ hq)) hnames ?_ fun q hq => ?_
    · cases hpacked : packed p.value with
      | true =>
        have hflag : p.stored.vt = vtDispatch ∨ (p.stored.vt = vtUnknown ∧ p.hr = .sOk) := by
          rcases htag.mpr hpacked with hvt | hvt
          · exact .inr ⟨hvt, hhr⟩
          · exact .inl hvt
        refine h.insertPacked hname hpacked (hnew p List.mem_cons_self) rfl ?_
        exact (if_pos hflag).trans (by rw [hname])
      | false =>
        have hnone : ¬ (p.stored.vt = vtDispatch ∨ (p.stored.vt = vtUnknown ∧ p.hr = .sOk)) := by
          intro hvt
          have := htag.mp (hvt.elim .inr fun hvt => .inl hvt.1)
          rw [hpacked] at this
          cases this
        exact h.insertPlain hname hpacked rfl (if_neg hnone)
    · show (d.dictionary.insert p.stored.name p.value).find q.stored.name = none
      rw [OrderedMap.find_insert, hnew q (List.mem_cons_of_mem _ hq), Option.none_or,
        if_neg (hfirst q hq)]

/-! ## One cycle -/

/-- INTERNAL: what a value is loaded as. -/
theorem packed_asStreams {v : Variant} (h : Savable v) :
    ObjectTag v.vt ↔ packed (asStreams v) = true := by
  obtain ⟨hstorable, hsaved⟩ := h.1.self
  cases v with
  | dispatch o =>
    obtain ⟨bytes, hbytes⟩ := Option.isSome_iff_exists.mp hsaved
    rw [asStreams, asStream_of_savedStream hbytes]
    exact ⟨fun _ => rfl, fun _ => .inr rfl⟩
  | unknown o =>
    obtain ⟨bytes, hbytes⟩ := Option.isSome_iff_exists.mp hsaved
    rw [asStreams, asStream_of_savedStream hbytes]
    exact ⟨fun _ => rfl, fun _ => .inl rfl⟩
  | _ =>
    refine ⟨fun htag => absurd htag (not_objectTag_of_supported hstorable.1), fun hpacked => ?_⟩
    cases hpacked

/-- INTERNAL: what is loaded can be copied. -/
theorem copy_asStreams {v : Variant} (h : Savable v) : (asStreams v).copy = .ok .sOk := by
  obtain ⟨hself, -⟩ := h
  cases v with
  | dispatch o =>
    obtain ⟨bytes, hbytes⟩ := Option.isSome_iff_exists.mp hself.self.2
    rw [asStreams, asStream_of_savedStream hbytes]
    rfl
  | unknown o =>
    obtain ⟨bytes, hbytes⟩ := Option.isSome_iff_exists.mp hself.self.2
    rw [asStreams, asStream_of_savedStream hbytes]
    rfl
  | raw vt payload => exact absurd hself.self.1.1 id
  | _ => rfl

/-- **`LocalContents` and `LocalLoad`**: every variable is there again, its objects as streams, and
the flags are right. -/
theorem load_contents {d : VariantDictionary loc} (h : Storing d) (mem mem' : Memory)
    (target : VariantDictionary loc) :
    ∃ lSize stream d₀ d₁ stream', d.localContents mem = .ok (.sOk, lSize, stream, d₀) ∧
      target.localLoad mem' (some stream) lSize = .ok (.sOk, d₁, some stream') ∧
      d₁.dictionary = inStreams d ∧ FlagsMatch d₁ := by
  have hwrites : ∀ e ∈ d.dictionary.entries, StringFits e.1 ∧
      WritesAs mem (d.isSerialized e.1) (fun v => contentOf mem v) e.2 := by
    intro e he
    refine ⟨(h.names e he).2, ?_⟩
    rw [h.flags.entry h.zeroless he]
    exact writesAs_objectsBytes mem _ e.2 ((h.values e he).1.mono (fun _ hv => hv.1) _)
  have hbytes : contentsBytes (d.dictionary.entries.reverse.map
      (storedVariable fun _ v => contentOf mem v)) = objectContents mem d := rfl
  obtain ⟨b, hwrite⟩ := (localContents_as mem d (fun _ v => contentOf mem v) hwrites hbytes).1
    fun e he => (h.values e he).2.writable
  have hsize : (objectContents mem d).length % 2 ^ 32 ≠ 0 := by
    rw [Nat.mod_eq_of_lt (h.stream mem)]
    exact Nat.ne_of_gt (length_contentsBytes_pos _)
  have hmem : ∀ p ∈ streamedProperties mem d, ∃ e ∈ d.dictionary.entries,
      ⟨storedVariable (fun _ v => contentOf mem v) e, .sOk, asStreams e.2⟩ = p := by
    intro p hp
    obtain ⟨e, he, rfl⟩ := List.mem_map.mp hp
    exact ⟨e, by simpa [storedEntries] using he, rfl⟩
  have hreads : ∀ p ∈ streamedProperties mem d, WellFormedUtf16 p.stored.name ∧
      StringFits p.stored.name ∧ ReadsTo loc mem' p.stored p.hr p.value ∧
        p.value.copy = .ok .sOk := by
    intro p hp
    obtain ⟨e, he, rfl⟩ := hmem p hp
    obtain ⟨hname, hfits⟩ := h.names e he
    obtain ⟨hsavable, hread⟩ := h.values e he
    exact ⟨hname, hfits, readsTo_objectsBytes loc mem mem' e.1 hsavable hread,
      copy_asStreams (h.values e he)⟩
  have hlength : (streamedProperties mem d).length = d.dictionary.size := by
    rw [streamedProperties, List.length_map, storedEntries, List.length_reverse, OrderedMap.size]
  obtain ⟨b', stream', hload⟩ := localLoad_stored (streamedProperties mem d) target
    (by rw [hlength]; exact h.size) hreads hsize
  have hstored : (streamedProperties mem d).map LoadedProperty.stored =
      (storedEntries d).map (storedVariable fun _ v => contentOf mem v) := by
    rw [streamedProperties, List.map_map]
    rfl
  have hread : ∀ p ∈ streamedProperties mem d, p.hr = .sOk := by
    intro p hp
    obtain ⟨e, -, rfl⟩ := hmem p hp
    rfl
  rw [hstored, ← objectContents, readThrough_of_sOk hread, resultOf_eq_sOk.mpr hread] at hload
  refine ⟨_, _, _, _, _, hwrite, hload, ?_, ?_⟩
  · show ((streamedProperties mem d).foldl (fun d p => p.into d) target.removeAll).dictionary = _
    rw [dictionary_foldl_into, streamedProperties, List.map_map, storedEntries, List.map_reverse]
    exact OrderedMap.insertAll_reverse (inStreams d)
  · have hobject : ∀ p ∈ streamedProperties mem d, p.hr = .sOk ∧
        (ObjectTag p.stored.vt ↔ packed p.value = true) := by
      intro p hp
      obtain ⟨e, he, rfl⟩ := hmem p hp
      exact ⟨rfl, packed_asStreams (h.values e he)⟩
    have hnames : (streamedProperties mem d).Pairwise
        fun p q => loc.compare q.stored.name p.stored.name ≠ .eq := by
      refine List.pairwise_map.mpr (List.pairwise_reverse.mpr ?_)
      refine d.dictionary.sorted.imp ?_
      intro e e' hlt heq
      have hgt : loc.compare e.1 e'.1 = .eq := heq
      rw [hlt] at hgt
      cases hgt
    have hzero : ∀ p ∈ streamedProperties mem d, lpcolestr p.stored.name = p.stored.name := by
      intro p hp
      obtain ⟨e, he, rfl⟩ := hmem p hp
      exact h.zeroless e he
    exact (freshFlags_foldl hobject hzero hnames (freshFlags_of_empty rfl rfl)
      fun p _ => rfl).flagsMatch

/-- INTERNAL: a value after a cycle: its objects are streams, or it is an object that has been
loaded from its stream. -/
def CameBack (v w : Variant) : Prop :=
  w = asStreams v ∨ ∃ wrap bytes, (wrap = Variant.unknown ∨ wrap = Variant.dispatch) ∧
    asStreams v = wrap (.packed bytes) ∧ w = wrap (.live true (some bytes))

/-- INTERNAL: the variables after a cycle. -/
def CameBackFrom (D : OrderedMap loc.compare Variant) (d : VariantDictionary loc) : Prop :=
  FlagsMatch d ∧ ∃ f : Bstr → Variant → Variant, d.dictionary = D.mapValues f ∧
    ∀ e ∈ D.entries, CameBack e.2 (f e.1 e.2)

/-- INTERNAL: an object among them is no null reference. -/
theorem CameBackFrom.ne_null {D : OrderedMap loc.compare Variant} {d : VariantDictionary loc}
    (h : CameBackFrom D d) (hvalues : ∀ e ∈ D.entries, Savable e.2) {key : Bstr}
    {wrap : ComObject → Variant} (hwrap : wrap = .unknown ∨ wrap = .dispatch) :
    d.dictionary.find key ≠ some (wrap .null) := by
  intro hfind
  obtain ⟨-, f, hd, hf⟩ := h
  obtain ⟨e', he', -, hvalue⟩ := OrderedMap.exists_of_find hfind
  rw [hd] at he'
  obtain ⟨e, he, rfl⟩ := List.mem_map.mp he'
  have hvalue' : f e.1 e.2 = wrap .null := hvalue
  have hsavable := packed_asStreams (hvalues e he)
  rcases hf e he with hsame | ⟨wrap', bytes, hwrap', -, hlive⟩
  · -- the stream of an object is not null
    have htag : ObjectTag e.2.vt := by
      rw [← vt_asStreams, ← hsame, hvalue']
      rcases hwrap with rfl | rfl
      · exact .inl rfl
      · exact .inr rfl
    have hpacked := hsavable.mp htag
    rw [← hsame, hvalue'] at hpacked
    rcases hwrap with rfl | rfl <;> cases hpacked
  · rw [hvalue'] at hlive
    rcases hwrap with rfl | rfl <;> rcases hwrap' with rfl | rfl <;> cases hlive

/-- INTERNAL: `get_Item` of one key. -/
theorem CameBackFrom.getItem {oleLoad : List UInt8 → Option ComObject}
    (hload : ∀ bytes, oleLoad bytes = some (.live true (some bytes)))
    {D : OrderedMap loc.compare Variant} {d : VariantDictionary loc} (h : CameBackFrom D d)
    (hvalues : ∀ e ∈ D.entries, Savable e.2) (key : Bstr) :
    ∃ hr v d', d.getItem oleLoad key = .ok (hr, v, d') ∧ CameBackFrom D d' := by
  obtain ⟨hflags, f, hd, hf⟩ := id h
  -- an object is loaded, or it is there
  have hobject : ∀ wrap o, (wrap = Variant.unknown ∨ wrap = Variant.dispatch) →
      d.dictionary.find (lpcolestr key) = some (wrap o) →
      ∃ hr v d', d.getObject oleLoad (.bstr key) wrap o = .ok (hr, v, d') := by
    intro wrap o hwrap hfind
    simp only [VariantDictionary.getObject, VariantDictionary.VariantKey.bstr]
    cases hflag : d.isSerialized key with
    | true =>
      obtain ⟨bytes, rfl⟩ := hflags.packed_of_flagged
        (by rcases hwrap with rfl | rfl; exacts [.inl hfind, .inr hfind]) hflag
      rw [if_pos rfl]
      dsimp only
      rw [hload]
      exact ⟨_, _, _, rfl⟩
    | false =>
      have hnull : o ≠ .null := by
        rintro rfl
        exact h.ne_null hvalues hwrap hfind
      rw [if_neg Bool.false_ne_true, if_neg hnull]
      exact ⟨_, _, _, rfl⟩
  have hget : ∃ hr v d', d.getItem oleLoad key = .ok (hr, v, d') := by
    rw [VariantDictionary.getItem, VariantDictionary.getVariable,
      show (VariantDictionary.VariantKey.bstr key).keycopy = key from rfl]
    split
    · exact ⟨_, _, _, rfl⟩
    · rename_i o hfind
      exact hobject .unknown o (.inl rfl) hfind
    · rename_i o hfind
      exact hobject .dispatch o (.inr rfl) hfind
    · exact ⟨_, _, _, rfl⟩
  obtain ⟨hr, v, d', hget⟩ := hget
  have hkeeps : KeepsPacked d (.getItem (.bstr key)) := by
    intro text htext _ _
    obtain rfl : key = text := Option.some.inj htext
    exact Std.ReflCmp.compare_self
  have hlive : ∀ bytes o, oleLoad bytes = some o → ∀ b, o ≠ .packed b := by
    rintro bytes o ho b rfl
    rw [hload] at ho
    cases ho
  refine ⟨hr, v, d', hget, hflags.getItem hlive hkeeps hget, ?_⟩
  rcases getVariable_leaves hget with rfl | ⟨text, bytes, wrap, hwrap, htext, -, hfind, rfl⟩
  · exact ⟨f, hd, hf⟩
  · have hloaded : loadedFrom oleLoad wrap bytes = wrap (.live true (some bytes)) := by
      rw [loadedFrom, hload]
    refine ⟨fun k v =>
      if loc.compare (lpcolestr key) k = .eq then wrap (.live true (some bytes)) else f k v,
      ?_, ?_⟩
    · show d.dictionary.assign (lpcolestr key) (loadedFrom oleLoad wrap bytes) = _
      rw [hloaded, hd]
      apply OrderedMap.ext
      simp only [OrderedMap.assign, OrderedMap.entries_mapValues, List.map_map]
      refine List.map_congr_left fun e _ => ?_
      simp only [Function.comp_apply]
      split <;> rfl
    · intro e he
      dsimp only
      split
      · rename_i hsame
        -- the stream was the value of this variable
        have hvalue : f e.1 e.2 = wrap (.packed bytes) := by
          have hmem : (e.1, f e.1 e.2) ∈ (D.mapValues f).entries :=
            List.mem_map.mpr ⟨e, he, rfl⟩
          have hentry := OrderedMap.find_of_mem hmem
          rw [← hd, ← d.dictionary.find_congr hsame] at hentry
          rw [show d.dictionary.find (lpcolestr key) = _ from hfind] at hentry
          exact (Option.some.inj hentry).symm
        rcases hf e he with hstream | ⟨wrap', bytes', hwrap', -, hother⟩
        · exact .inr ⟨wrap, bytes, hwrap, hstream.symm.trans hvalue, rfl⟩
        · rw [hvalue] at hother
          rcases hwrap with rfl | rfl <;> rcases hwrap' with rfl | rfl <;> cases hother
      · exact hf e he

/-- INTERNAL: `get_Item` of several keys. -/
theorem CameBackFrom.visitItems {oleLoad : List UInt8 → Option ComObject}
    (hload : ∀ bytes, oleLoad bytes = some (.live true (some bytes)))
    {D : OrderedMap loc.compare Variant} {d : VariantDictionary loc} (h : CameBackFrom D d)
    (hvalues : ∀ e ∈ D.entries, Savable e.2) (keys : List Bstr) :
    ∃ d', Analysis.visitItems oleLoad keys d = .ok d' ∧ CameBackFrom D d' := by
  induction keys generalizing d with
  | nil => exact ⟨d, rfl, h⟩
  | cons key keys ih =>
    obtain ⟨hr, v, d₁, hget, h₁⟩ := h.getItem hload hvalues key
    obtain ⟨d', hvisit, h'⟩ := ih h₁
    refine ⟨d', ?_, h'⟩
    rw [Analysis.visitItems, hget]
    exact hvisit

/-- **One cycle.** -/
theorem cycle_spec {oleLoad : List UInt8 → Option ComObject}
    (hload : ∀ bytes, oleLoad bytes = some (.live true (some bytes))) {d : VariantDictionary loc}
    (h : Storing d) (i : CycleInput loc) :
    ∃ d', cycle oleLoad i d = .ok d' ∧ CameBackFrom d.dictionary d' := by
  obtain ⟨lSize, stream, d₀, d₁, stream', hwrite, hread, hsame, hflags⟩ :=
    load_contents h i.mem i.mem' i.target
  have hback : CameBackFrom d.dictionary d₁ :=
    ⟨hflags, fun _ v => asStreams v, hsame, fun _ _ => .inl rfl⟩
  obtain ⟨d', hvisit, h'⟩ := hback.visitItems hload h.values i.keys
  refine ⟨d', ?_, h'⟩
  rw [cycle, hwrite]
  simp only [Run.ok_bind, hread]
  exact hvisit

/-! ## The theorem -/

mutual

/-- INTERNAL: without objects there are no streams. -/
theorem asStreams_eq_self :
    (v : Variant) → Hereditary (fun v => ¬ ObjectTag v.vt) v → asStreams v = v
  | .dispatch _, h => absurd (.inr rfl) h.self
  | .unknown _, h => absurd (.inl rfl) h.self
  | .variantArray bounds cells, h => by rw [asStreams, cellsAsStreams_eq_self cells h.2]
  | .empty, _ | .null, _ | .scalar _ _, _ | .decimal _, _ | .bstr _, _ | .blockArray _ _ _, _
  | .bstrArray _ _, _ | .otherArray _ _ _ _, _ | .nullArray _, _ | .byrefArray _, _
  | .raw _ _, _ => rfl

/-- INTERNAL: the same for the cells of an array. -/
theorem cellsAsStreams_eq_self : (cells : List Variant) →
    HereditaryCells (fun v => ¬ ObjectTag v.vt) cells → cellsAsStreams cells = cells
  | [], _ => rfl
  | v :: cells, h => by
    rw [cellsAsStreams, asStreams_eq_self v h.1, cellsAsStreams_eq_self cells h.2]

end

mutual

/-- INTERNAL: a value of streams is its own. -/
theorem asStreams_asStreams : (v : Variant) → asStreams (asStreams v) = asStreams v
  | .dispatch o => by simp only [asStreams, asStream_asStream]
  | .unknown o => by simp only [asStreams, asStream_asStream]
  | .variantArray bounds cells => by
    simp only [asStreams, cellsAsStreams_cellsAsStreams cells]
  | .empty | .null | .scalar _ _ | .decimal _ | .bstr _ | .blockArray _ _ _ | .bstrArray _ _
  | .otherArray _ _ _ _ | .nullArray _ | .byrefArray _ | .raw _ _ => rfl

/-- INTERNAL: the same for the cells of an array. -/
theorem cellsAsStreams_cellsAsStreams :
    (cells : List Variant) → cellsAsStreams (cellsAsStreams cells) = cellsAsStreams cells
  | [] => rfl
  | v :: cells => by
    simp only [cellsAsStreams, asStreams_asStreams v, cellsAsStreams_cellsAsStreams cells]

end

/-- INTERNAL: a value after a cycle has the same streams. -/
theorem CameBack.asStreams_eq {v w : Variant} (h : CameBack v w) : asStreams w = asStreams v := by
  rcases h with rfl | ⟨wrap, bytes, hwrap, hv, rfl⟩
  · exact asStreams_asStreams v
  · rw [hv]
    rcases hwrap with rfl | rfl <;> rfl

/-- INTERNAL: the variables after a cycle are the same but for their objects. -/
theorem CameBackFrom.inStreams_eq {d d' : VariantDictionary loc}
    (h : CameBackFrom d.dictionary d') : inStreams d' = inStreams d := by
  obtain ⟨-, f, hd, hf⟩ := h
  apply OrderedMap.ext
  rw [inStreams, hd, inStreams]
  simp only [OrderedMap.entries_mapValues, List.map_map]
  refine List.map_congr_left fun e he => ?_
  simp only [Function.comp_apply, (hf e he).asStreams_eq]

/-- INTERNAL: an object with a stream lasts, and is stored as that. -/
theorem savable_object {wrap : ComObject → Variant} (hwrap : wrap = .unknown ∨ wrap = .dispatch)
    {o : ComObject} {bytes : List UInt8} (ho : o = .packed bytes ∨ o = .live true (some bytes))
    (hpos : 0 < bytes.length) (hlt : bytes.length < 2 ^ 31) :
    Savable (wrap o) ∧ ∀ mem, contentOf mem (wrap o) = leBytes 4 bytes.length ++ bytes := by
  have hbytes : ∀ b, some bytes = some b → 0 < b.length ∧ b.length < 2 ^ 31 := by
    rintro b hb
    obtain rfl := Option.some.inj hb
    exact ⟨hpos, hlt⟩
  rcases hwrap with rfl | rfl <;> rcases ho with rfl | rfl <;>
    exact ⟨⟨⟨⟨fun h => ComObject.noConfusion h.2, hbytes⟩, rfl⟩, trivial⟩, fun _ => rfl⟩

/-- INTERNAL: a value that is no object and holds none is its own. -/
theorem asStreams_of_no_object {v : Variant} (htag : ¬ ObjectTag v.vt) (hno : NoObjectInArrays v) :
    asStreams v = v := by
  refine asStreams_eq_self v ?_
  cases v with
  | variantArray bounds cells => exact ⟨htag, hno⟩
  | _ => exact htag

/-- INTERNAL: an object that lasts has a stream, with a size an `INT` can hold. -/
theorem Savable.stream {wrap : ComObject → Variant} (hwrap : wrap = .unknown ∨ wrap = .dispatch)
    {o : ComObject} (h : Savable (wrap o)) :
    ∃ bytes, (o = .packed bytes ∨ o = .live true (some bytes)) ∧ 0 < bytes.length ∧
      bytes.length < 2 ^ 31 := by
  have hsavable : SavableHere (packed (wrap o)) (wrap o) := h.1.self
  have hstream : ∃ bytes, savedStream (packed (wrap o)) o = some bytes ∧ 0 < bytes.length ∧
      bytes.length < 2 ^ 31 := by
    obtain ⟨hstorable, hsaved⟩ := hsavable
    rcases hwrap with rfl | rfl <;>
    · obtain ⟨bytes, hbytes⟩ := Option.isSome_iff_exists.mp hsaved
      exact ⟨bytes, hbytes, hstorable.2 bytes hbytes⟩
  obtain ⟨bytes, hbytes, hsize⟩ := hstream
  refine ⟨bytes, ?_, hsize⟩
  cases o with
  | null => rcases hwrap with rfl | rfl <;> cases hbytes
  | packed b =>
    rcases hwrap with rfl | rfl <;>
    · obtain rfl : b = bytes := Option.some.inj hbytes
      exact .inl rfl
  | live p saved =>
    rcases hwrap with rfl | rfl <;> cases p <;> cases hbytes
    · exact .inr rfl
    · exact .inr rfl

/-- INTERNAL: a value after a cycle is stored as before. -/
theorem CameBack.lasts {v w : Variant} (h : CameBack v w) (hv : Savable v)
    (hno : NoObjectInArrays v) :
    Savable w ∧ NoObjectInArrays w ∧ w.vt = v.vt ∧ ∀ mem, contentOf mem w = contentOf mem v := by
  by_cases htag : ObjectTag v.vt
  · obtain ⟨wrap, o, hwrap, rfl⟩ : ∃ wrap o, (wrap = Variant.unknown ∨ wrap = Variant.dispatch) ∧
        v = wrap o := by
      cases v with
      | unknown o => exact ⟨_, o, .inl rfl, rfl⟩
      | dispatch o => exact ⟨_, o, .inr rfl, rfl⟩
      | _ => exact absurd htag (not_objectTag_of_supported hv.1.self.1.1)
    obtain ⟨bytes, ho, hpos, hlt⟩ := hv.stream hwrap
    have hstreams : asStreams (wrap o) = wrap (.packed bytes) := by
      rcases hwrap with rfl | rfl <;> rcases ho with rfl | rfl <;> rfl
    have hw : ∃ o', (o' = .packed bytes ∨ o' = .live true (some bytes)) ∧ w = wrap o' := by
      rcases h with rfl | ⟨wrap', bytes', hwrap', hsame, rfl⟩
      · exact ⟨_, .inl rfl, hstreams⟩
      · rw [hstreams] at hsame
        rcases hwrap with rfl | rfl <;> rcases hwrap' with rfl | rfl <;> cases hsame
        · exact ⟨_, .inr rfl, rfl⟩
        · exact ⟨_, .inr rfl, rfl⟩
    obtain ⟨o', ho', rfl⟩ := hw
    obtain ⟨hsavable, hcontent⟩ := savable_object hwrap ho' hpos hlt
    refine ⟨hsavable, ?_, ?_, fun mem => ?_⟩
    · rcases hwrap with rfl | rfl <;> trivial
    · rcases hwrap with rfl | rfl <;> rfl
    · rw [hcontent, (savable_object hwrap ho hpos hlt).2]
  · have hself := asStreams_of_no_object htag hno
    have hw : w = v := by
      rcases h with rfl | ⟨wrap, bytes, hwrap, hsame, rfl⟩
      · exact hself
      · rw [hself] at hsame
        refine absurd ?_ htag
        rcases hwrap with rfl | rfl <;> rw [hsame]
        · exact .inl rfl
        · exact .inr rfl
    rw [hw]
    exact ⟨hv, hno, rfl, fun _ => rfl⟩

/-- **A cycle keeps what the next one needs** when no object lies in an array. -/
theorem Storing.step {d d' : VariantDictionary loc} (h : Storing d)
    (hno : ∀ e ∈ d.dictionary.entries, NoObjectInArrays e.2)
    (hd' : CameBackFrom d.dictionary d') :
    Storing d' ∧ ∀ e ∈ d'.dictionary.entries, NoObjectInArrays e.2 := by
  obtain ⟨hflags, f, hd, hf⟩ := hd'
  have hlasts : ∀ e ∈ d.dictionary.entries, Savable (f e.1 e.2) ∧ NoObjectInArrays (f e.1 e.2) ∧
      (f e.1 e.2).vt = e.2.vt ∧ ∀ mem, contentOf mem (f e.1 e.2) = contentOf mem e.2 :=
    fun e he => (hf e he).lasts (h.values e he) (hno e he)
  have hmem : ∀ e' ∈ d'.dictionary.entries, ∃ e ∈ d.dictionary.entries, (e.1, f e.1 e.2) = e' := by
    intro e' he'
    rw [hd, OrderedMap.entries_mapValues] at he'
    exact List.mem_map.mp he'
  refine ⟨⟨hflags, ?_, ?_, ?_, ?_, fun mem => ?_⟩, ?_⟩
  · intro e' he'
    obtain ⟨e, he, rfl⟩ := hmem e' he'
    exact h.zeroless e he
  · have hsize := h.size
    rwa [OrderedMap.size, hd, OrderedMap.entries_mapValues, List.length_map]
  · intro e' he'
    obtain ⟨e, he, rfl⟩ := hmem e' he'
    exact h.names e he
  · intro e' he'
    obtain ⟨e, he, rfl⟩ := hmem e' he'
    exact (hlasts e he).1
  · have hsame : objectContents mem d' = objectContents mem d := by
      rw [objectContents, objectContents, storedEntries, storedEntries, hd,
        OrderedMap.entries_mapValues, ← List.map_reverse, List.map_map]
      congr 1
      refine List.map_congr_left fun e he => ?_
      obtain ⟨-, -, hvt, hcontent⟩ := hlasts e (List.mem_reverse.mp he)
      simp only [Function.comp_apply, storedVariable, hvt, hcontent]
    rw [hsame]
    exact h.stream mem
  · intro e' he'
    obtain ⟨e, he, rfl⟩ := hmem e' he'
    exact (hlasts e he).2.1

/-- **Cycles in which no object lies in an array**, or a single one. -/
theorem objectsSurvive_of_flat {oleLoad : List UInt8 → Option ComObject}
    (hload : ∀ bytes, oleLoad bytes = some (.live true (some bytes)))
    (inputs : List (CycleInput loc)) (d : VariantDictionary loc) (h : Storing d)
    (hcase : inputs.length ≤ 1 ∨ ∀ e ∈ d.dictionary.entries, NoObjectInArrays e.2) :
    ObjectsSurvive oleLoad inputs d := by
  induction inputs generalizing d with
  | nil => exact ⟨d, rfl, rfl⟩
  | cons i inputs ih =>
    obtain ⟨d₁, hcycle, hd₁⟩ := cycle_spec hload h i
    obtain ⟨d', hrun, hsame⟩ : ObjectsSurvive oleLoad inputs d₁ := by
      rcases hcase with hlength | hno
      · have hnil : inputs = [] := List.eq_nil_of_length_eq_zero (by
          rw [List.length_cons] at hlength
          omega)
        rw [hnil]
        exact ⟨d₁, rfl, rfl⟩
      · obtain ⟨hstoring, hno'⟩ := h.step hno hd₁
        exact ih d₁ hstoring (.inr hno')
    refine ⟨d', ?_, hsame.trans hd₁.inStreams_eq⟩
    rw [cycles, hcycle]
    exact hrun

/-- One variable. -/
def holdingValue (v : Variant) : VariantDictionary .ordinal where
  dictionary := OrderedMap.empty.insert [97] v
  isserialized := .empty
  blnDirty := true
  readOnly := false
  m_currentBufLen := 0

/-- A cycle into a new dictionary, in which the variable is asked for. -/
def askingCycle : CycleInput .ordinal where
  mem := .zero
  mem' := .zero
  target := .new
  keys := [[97]]

/-- A live object with a stream of one byte. -/
def liveObject : ComObject := .live true (some [7])

/-- An object as the value of a variable, after two cycles. -/
theorem liveObject_survives : ObjectsSurvive (fun bytes => some (.live true (some bytes)))
    [askingCycle, askingCycle] (holdingValue (.unknown liveObject)) := by
  have hentries : (holdingValue (.unknown liveObject)).dictionary.entries =
      [([97], .unknown liveObject)] := rfl
  have hvalue := savable_object (.inl rfl) (.inr rfl : liveObject = .packed [7] ∨ _)
    (by decide) (by decide)
  refine objectsSurvive_of_flat (fun _ => rfl) _ _ ⟨?_, ?_, by decide, ?_, ?_, ?_⟩ (.inr ?_)
  · have hempty : FreshFlags { holdingValue (.unknown liveObject) with dictionary := .empty } :=
      freshFlags_of_empty rfl rfl
    have hholds : (holdingValue (.unknown liveObject)).dictionary =
        OrderedMap.empty.insert [97] (.unknown liveObject) := rfl
    exact (hempty.insertPlain rfl rfl hholds rfl).flagsMatch
  · rw [Zeroless, hentries]
    intro e he
    obtain rfl := List.mem_singleton.mp he
    rfl
  · rw [hentries]
    intro e he
    obtain rfl := List.mem_singleton.mp he
    exact ⟨⟨['a'], rfl⟩, by unfold StringFits; decide⟩
  · rw [hentries]
    intro e he
    obtain rfl := List.mem_singleton.mp he
    exact hvalue.1
  · intro mem
    have hlength : (objectContents mem (holdingValue (.unknown liveObject))).length = 33 := rfl
    omega
  · rw [hentries]
    intro e he
    obtain rfl := List.mem_singleton.mp he
    trivial

/-- The value is an array of one object. -/
def holdsObjectCell (v : Variant) : Bool :=
  match asStreams v with
  | .variantArray _ [.unknown (.packed _)] => true
  | _ => false

/-- **An object in an array is lost in the second cycle.** -/
theorem objectInArray_not_survives :
    ¬ ObjectsSurvive (fun bytes => some (.live true (some bytes))) [askingCycle, askingCycle]
      (holdingValue (.variantArray [⟨1, 0⟩] [.unknown liveObject])) := by
  rintro ⟨d', hrun, hsame⟩
  have hlost : (cycles (fun bytes => some (.live true (some bytes))) [askingCycle, askingCycle]
      (holdingValue (.variantArray [⟨1, 0⟩] [.unknown liveObject]))).toOption.map
        (fun d => ((inStreams d).find [97]).map holdsObjectCell) = some (some false) := by
    decide +kernel
  rw [hrun] at hlost
  have hfind := Option.some.inj hlost
  dsimp only at hfind
  rw [hsame] at hfind
  exact absurd hfind (by decide +kernel)

end IspSession.Analysis
