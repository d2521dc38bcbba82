import IspSession.Analysis.DictionaryReading

/-!
# The round trip of the session codec

`LocalLoad` after `LocalContents`, for dictionaries of supported values. It gives the
dictionary back exactly when every name is well-formed text and no array with cells
defeats the carry loop: a lower bound and an extent whose sum passes the range of a
`LONG`.
-/

set_option autoImplicit false

namespace IspSession.Analysis

open IspSession.Library IspSession.Model

variable {loc : Collation}

/-! ## The round trip -/

/-- `LocalLoad` into any dictionary, on the stream `LocalContents` produced, gives the
dictionary back and consumes the stream. -/
def RoundTrips (d : VariantDictionary loc) : Prop :=
  ∀ (mem mem' : Memory) (r : VariantDictionary loc), ∃ lSize stream d' r' stream',
    d.localContents mem = .ok (.sOk, lSize, stream, d') ∧
      r.localLoad mem' (some stream) lSize = .ok (.sOk, r', some stream') ∧
      r'.dictionary = d.dictionary ∧ stream'.rest = []

/-- All sizes are in the range of the code's `INT` and `ULONG` variables. -/
structure InRange (d : VariantDictionary loc) : Prop where
  names : ∀ e ∈ d.dictionary.entries, StringFits e.1
  values : ∀ e ∈ d.dictionary.entries, Fits e.2
  stream : ∀ mem, (dictionaryBytes mem d).length < 2 ^ 32

/-- INTERNAL: a supported value is no object: it is stored and loaded as itself. -/
theorem Supported.loadedValue {v : Variant} (h : Supported v) (flag : Bool) :
    Analysis.loadedValue flag v = (.sOk, v) := by
  cases v with
  | dispatch o => exact absurd h.self id
  | unknown o => exact absurd h.self id
  | _ => rfl

/-- INTERNAL: a supported value that fits can be stored. -/
theorem Supported.storable {v : Variant} (h : Supported v) (hfits : Fits v) (flag : Bool) :
    Storable flag v := by
  cases v with
  | dispatch o => exact absurd h.self id
  | unknown o => exact absurd h.self id
  | _ => exact ⟨h, hfits⟩

/-! ## Names -/

/-- INTERNAL: a converted text is well-formed. -/
theorem wellFormed_multiByteToWideChar {buffer : List UInt8} {n : ℕ} {s : Bstr}
    (h : multiByteToWideChar buffer n = .ok (some s)) : WellFormedUtf16 s := by
  unfold multiByteToWideChar at h
  split at h
  · obtain rfl : _ = s := by simpa using h
    exact ⟨_, rfl⟩
  · split at h
    · split at h
      · obtain rfl : _ = s := by simpa using h
        exact ⟨_, rfl⟩
      · cases h
    · simp at h

/-- A text that was read is well-formed. -/
theorem wellFormed_readString {strict : Bool} {mem : Memory} {c c' : Channel} {hr : HResult}
    {s : Option Bstr} (h : readString strict mem c = .ok (hr, s, c')) :
    WellFormedUtf16 (s.getD []) := by
  have hempty : WellFormedUtf16 [] := ⟨[], rfl⟩
  unfold readString at h
  obtain ⟨hrSize, size, c₁⟩ := c.read 4
  dsimp only at h
  split at h
  · simp only [Run.pure_eq, Except.ok.injEq, Prod.mk.injEq] at h
    rw [← h.2.1]
    exact hempty
  · split at h
    · simp only [Run.pure_eq, Except.ok.injEq, Prod.mk.injEq] at h
      rw [← h.2.1]
      exact hempty
    · obtain ⟨c₂, -, h⟩ := Run.bind_eq_ok h
      split at h
      · cases h
        exact hempty
      obtain ⟨hrData, bytes, c₃⟩ := c₂.read (ofLeBytes size)
      split at h
      · cases h
      · obtain ⟨text, hconv, h⟩ := Run.bind_eq_ok h
        cases text with
        | none =>
          simp only [Run.pure_eq, Except.ok.injEq, Prod.mk.injEq] at h
          rw [← h.2.1]
          exact hempty
        | some text =>
          simp only [Run.pure_eq, Except.ok.injEq, Prod.mk.injEq] at h
          rw [← h.2.1]
          exact wellFormed_multiByteToWideChar hconv

/-- The names of a dictionary are well-formed. -/
def WellFormedNames (d : VariantDictionary loc) : Prop :=
  ∀ e ∈ d.dictionary.entries, WellFormedUtf16 e.1

/-- `ReadProperty` reads a well-formed name and leaves the variables alone. -/
theorem wellFormed_readProperty {mem : Memory} {l l' : VariantDictionary.Loading loc}
    {hr : HResult} {key : Bstr} {v : Variant}
    (h : VariantDictionary.readProperty mem l = .ok (hr, key, v, l')) :
    WellFormedUtf16 key ∧ l'.d.dictionary = l.d.dictionary := by
  unfold VariantDictionary.readProperty at h
  obtain ⟨⟨hrName, name, c⟩, hname, h⟩ := Run.bind_eq_ok h
  have hw := wellFormed_readString hname
  dsimp only at h
  split at h
  · obtain ⟨hrNext, next, c₁⟩ := c.read 4
    obtain ⟨hrTag, tag, c₂⟩ := c₁.read 2
    obtain ⟨⟨hrValue, val, c₃⟩, -, h⟩ := Run.bind_eq_ok h
    simp only [Run.pure_eq, Except.ok.injEq, Prod.mk.injEq] at h
    obtain ⟨-, rfl, -, rfl⟩ := h
    exact ⟨hw, rfl⟩
  · simp only [Run.pure_eq, Except.ok.injEq, Prod.mk.injEq] at h
    obtain ⟨-, rfl, -, rfl⟩ := h
    exact ⟨hw, rfl⟩

/-- The loop inserts well-formed names only. -/
theorem wellFormedNames_loadProperties {mem : Memory} {n : ℕ} {hr hr' : HResult}
    {l l' : VariantDictionary.Loading loc} (hl : WellFormedNames l.d)
    (h : VariantDictionary.loadProperties mem n hr l = .ok (hr', l')) :
    WellFormedNames l'.d := by
  induction n generalizing hr l with
  | zero =>
    simp only [VariantDictionary.loadProperties, Run.pure_eq, Except.ok.injEq,
      Prod.mk.injEq] at h
    rwa [← h.2]
  | succ n ih =>
    rw [VariantDictionary.loadProperties] at h
    split at h
    · obtain ⟨⟨hrRead, key, val, l₁⟩, hread, h⟩ := Run.bind_eq_ok h
      obtain ⟨hrCopy, -, h⟩ := Run.bind_eq_ok h
      obtain ⟨hw, hsame⟩ := wellFormed_readProperty hread
      have hl₁ : WellFormedNames l₁.d := by
        intro e he
        exact hl e (hsame ▸ he)
      split at h
      · exact ih hl₁ h
      · refine ih (fun e he => ?_) h
        rcases OrderedMap.mem_insertEntry he with rfl | he
        · exact hw
        · exact hl₁ e he
    · simp only [Run.pure_eq, Except.ok.injEq, Prod.mk.injEq] at h
      rwa [← h.2]

/-- **Every name a successful `LocalLoad` loads is well-formed.** -/
theorem wellFormedNames_localLoad {mem : Memory} {r r' : VariantDictionary loc}
    {stream : CStream} {lSize : ℕ} {stream' : Option CStream}
    (h : r.localLoad mem (some stream) lSize = .ok (.sOk, r', stream')) :
    WellFormedNames r' := by
  unfold VariantDictionary.localLoad at h
  split at h
  · cases h
  · obtain ⟨⟨hr, stemp, varTemp, l⟩, -, h⟩ := Run.bind_eq_ok h
    dsimp only at h
    split at h
    · cases h
    · split at h
      · cases h
      · obtain ⟨⟨hr', l'⟩, hload, h⟩ := Run.bind_eq_ok h
        simp only [Run.pure_eq, Except.ok.injEq, Prod.mk.injEq] at h
        obtain ⟨-, rfl, -⟩ := h
        exact wellFormedNames_loadProperties (fun e he => by cases he) hload

/-! ## The theorem -/

/-- INTERNAL: a dictionary of supported values that fit can be stored. -/
theorem InRange.contents {d : VariantDictionary loc} (h : InRange d)
    (hsupp : ∀ e ∈ d.dictionary.entries, Supported e.2) : AllStorable d :=
  fun e he => ⟨h.names e he, (hsupp e he).storable (h.values e he) _⟩

/-- **The session codec round trip.** `LocalContents` and `LocalLoad` give a dictionary
of supported values back exactly when its names are well-formed and the carry loop gets
through its arrays. -/
theorem roundTrips_iff {d : VariantDictionary loc} (hsize : d.dictionary.size ≤ 32767)
    (hsupp : ∀ e ∈ d.dictionary.entries, Supported e.2) (hrange : InRange d) :
    RoundTrips d ↔
      ∀ e ∈ d.dictionary.entries, WellFormedUtf16 e.1 ∧ Readable e.2 := by
  have hc := hrange.contents hsupp
  have hlen : ∀ mem, (dictionaryBytes mem d).length % 2 ^ 32 ≠ 0 := by
    intro mem
    rw [Nat.mod_eq_of_lt (hrange.stream mem)]
    exact Nat.ne_of_gt (length_dictionaryBytes_pos mem d)
  have hsOk : ∀ e ∈ d.dictionary.entries, (loadedValue (d.isSerialized e.1) e.2).1 = .sOk := by
    intro e he
    rw [(hsupp e he).loadedValue]
  have hload := fun mem mem' r (hw : WellFormedNames d) =>
    localLoad_dictionaryBytes mem mem' r hsize hw hc
      (fun e he => hsOk e (List.mem_of_mem_tail he)) (hlen mem)
  constructor
  · intro h
    obtain ⟨lSize, stream, d', r', stream', hwrite, hread, hsame, -⟩ :=
      h .zero .zero VariantDictionary.new
    have hnames : WellFormedNames d := by
      intro e he
      exact wellFormedNames_localLoad hread e (hsame ▸ he)
    have hwritable : ∀ e ∈ d.dictionary.entries, Writable e.2 := by
      by_contra hnot
      rw [(localContents_spec .zero d hc).2 hnot] at hwrite
      cases hwrite
    obtain ⟨b, hb⟩ := (localContents_spec .zero d hc).1 hwritable
    rw [hb] at hwrite
    simp only [Except.ok.injEq, Prod.mk.injEq, true_and] at hwrite
    obtain ⟨rfl, rfl, -⟩ := hwrite
    have hreadable : ∀ e ∈ d.dictionary.entries, Readable e.2 := by
      by_contra hnot
      rw [(hload .zero .zero .new hnames).2 hnot] at hread
      cases hread
    exact fun e he => ⟨hnames e he, hreadable e he⟩
  · intro h mem mem' r
    obtain ⟨b, hb⟩ := (localContents_spec mem d hc).1 fun e he => (h e he).2.writable
    obtain ⟨b', hb'⟩ := (hload mem mem' r fun e he => (h e he).1).1 fun e he => (h e he).2
    have hresult : loadedResult d.isSerialized (storedEntries d) = .sOk :=
      loadedResult_eq_sOk fun e he => hsOk e (by simpa [storedEntries] using he)
    have hsame : (reloaded d r).dictionary = d.dictionary := by
      rw [dictionary_reloaded]
      refine OrderedMap.mapValues_eq_self fun e he => ?_
      rw [(hsupp e he).loadedValue]
    rw [hresult] at hb'
    refine ⟨_, _, _, _, _, hb, hb', hsame, ?_⟩
    rw [CStream.rest, List.drop_length]

/-- A number and an array of two strings with the indices -1 and 0. -/
def namesDictionary : VariantDictionary .ordinal where
  dictionary := (OrderedMap.empty.insert (Bstr.ofString "count") (.scalar .i4 2)).insert
    (Bstr.ofString "names") (.bstrArray [⟨2, -1⟩] [Bstr.ofString "é", []])
  isserialized := .empty
  blnDirty := true
  readOnly := false
  m_currentBufLen := 0

/-- INTERNAL: its names and values. -/
theorem entries_namesDictionary : namesDictionary.dictionary.entries =
    [(Bstr.ofString "count", .scalar .i4 2),
      (Bstr.ofString "names", .bstrArray [⟨2, -1⟩] [Bstr.ofString "é", []])] := by rfl

/-- The round trip of a number and an array of strings. -/
theorem namesDictionary_roundTrips : RoundTrips namesDictionary := by
  have hsize : namesDictionary.dictionary.size ≤ 32767 := by decide
  have hsupp : ∀ e ∈ namesDictionary.dictionary.entries, Supported e.2 := by
    rw [entries_namesDictionary]
    have htext : ∀ s ∈ [Bstr.ofString "é", []], WellFormedUtf16 s := by
      intro s hs
      simp only [List.mem_cons, List.not_mem_nil, or_false] at hs
      rcases hs with rfl | rfl
      · exact ⟨_, rfl⟩
      · exact ⟨[], rfl⟩
    intro e he
    simp only [List.mem_cons, List.not_mem_nil, or_false] at he
    rcases he with rfl | rfl
    · trivial
    · exact ⟨by decide, by decide, htext⟩
  have hrange : InRange namesDictionary := by
    refine ⟨?_, ?_, ?_⟩
    · rw [entries_namesDictionary]
      unfold StringFits
      decide
    · rw [entries_namesDictionary]
      intro e he
      simp only [List.mem_cons, List.not_mem_nil, or_false] at he
      rcases he with rfl | rfl
      · trivial
      · intro s hs
        unfold StringFits
        revert s
        decide
    · intro mem
      have hlen : (dictionaryBytes mem namesDictionary).length = 85 := by rfl
      omega
  refine (roundTrips_iff hsize hsupp hrange).mpr ?_
  rw [entries_namesDictionary]
  intro e he
  simp only [List.mem_cons, List.not_mem_nil, or_false] at he
  rcases he with rfl | rfl
  · exact ⟨⟨_, rfl⟩, trivial⟩
  · exact ⟨⟨_, rfl⟩, fun _ => by decide⟩

/-- A `VARIANT` array whose only index is the largest one. -/
def lastIndexDictionary : VariantDictionary .ordinal where
  dictionary := OrderedMap.empty.insert (Bstr.ofString "last")
    (.variantArray [⟨1, 0x7FFFFFFF⟩] [.empty])
  isserialized := .empty
  blnDirty := true
  readOnly := false
  m_currentBufLen := 0

/-- The limit of the only dimension overflows, and the carry loop runs past the array. -/
theorem lastIndexDictionary_not_roundTrips :
    (lastIndexDictionary.dictionary.size ≤ 32767 ∧ WellFormedNames lastIndexDictionary ∧
      ∀ e ∈ lastIndexDictionary.dictionary.entries, Supported e.2) ∧
    ¬ RoundTrips lastIndexDictionary := by
  have hentries : lastIndexDictionary.dictionary.entries =
      [(Bstr.ofString "last", .variantArray [⟨1, 0x7FFFFFFF⟩] [.empty])] := by rfl
  refine ⟨⟨by decide, ?_, ?_⟩, ?_⟩
  · intro e he
    rw [hentries, List.mem_singleton] at he
    subst he
    exact ⟨_, rfl⟩
  · intro e he
    rw [hentries, List.mem_singleton] at he
    subst he
    exact ⟨⟨by decide, by decide⟩, trivial, trivial⟩
  · intro h
    obtain ⟨lSize, stream, d', r', stream', hwrite, -⟩ := h .zero .zero .new
    have hfault : lastIndexDictionary.localContents .zero = .error .fault := by rfl
    rw [hfault] at hwrite
    cases hwrite

end IspSession.Analysis
