import IspSession.Analysis.VariableCalls
import IspSession.Analysis.ObjectReading

/-!
# The flags of the objects in a dictionary

`_isserialized` should say TRUE for the variables whose value is a stream and for no
other name. `LoadFits` is what a stream needs so that `LocalLoad` sets the flags right:
an object with the tag `VT_DISPATCH` is flagged whatever its reader said, and of two
properties with one name the first gives the value while both give a flag. A name with a
zero in it is kept whole, while its flag goes to the part in front of the zero.
`KeepsPacked` is what a call needs afterwards: the puts leave the flag of the key alone,
and `get_Item` looks for it by the payload of the key.
-/

set_option autoImplicit false

namespace IspSession.Analysis

open IspSession.Library IspSession.Model

variable {loc : Collation}

/-- The value a call finds under the name is a stream. -/
def holdsPacked (d : VariantDictionary loc) (key : Bstr) : Bool :=
  ((d.dictionary.find (lpcolestr key)).map packed).getD false

/-- The value a call finds under the name is an object, live or a stream. -/
def holdsObjectTag (d : VariantDictionary loc) (key : Bstr) : Bool :=
  ((d.dictionary.find (lpcolestr key)).map fun v => decide (ObjectTag v.vt)).getD false

/-- The flags say which values are streams. -/
def FlagsMatch (d : VariantDictionary loc) : Prop :=
  ∀ key, d.isSerialized key = true ↔ holdsPacked d key = true

/-- A dictionary without variables and flags. -/
theorem flagsMatch_of_empty {d : VariantDictionary loc} (hd : d.dictionary = .empty)
    (hs : d.isserialized = .empty) : FlagsMatch d := by
  intro key
  simp [VariantDictionary.isSerialized, holdsPacked, hd, hs]

/-- **With right flags a flagged object is a stream**: `get_Item` does not unpack a live
object and `WriteValue` does not copy one. -/
theorem FlagsMatch.packed_of_flagged {d : VariantDictionary loc} (h : FlagsMatch d) {key : Bstr}
    {o : ComObject} (hfind : d.dictionary.find (lpcolestr key) = some (.unknown o) ∨
      d.dictionary.find (lpcolestr key) = some (.dispatch o)) (hflag : d.isSerialized key = true) :
    ∃ bytes, o = .packed bytes := by
  have hpacked := (h key).mp hflag
  rcases hfind with hfind | hfind <;> rw [holdsPacked, hfind] at hpacked <;> cases o <;>
    first | exact ⟨_, rfl⟩ | cases hpacked

/-- INTERNAL: the flag of an entry. -/
theorem FlagsMatch.entry {d : VariantDictionary loc} (h : FlagsMatch d) (hzero : Zeroless d)
    {e : Bstr × Variant} (he : e ∈ d.dictionary.entries) : d.isSerialized e.1 = packed e.2 := by
  have hkey := h e.1
  rw [holdsPacked, hzero e he, OrderedMap.find_of_mem he] at hkey
  exact Bool.eq_iff_iff.mpr hkey

/-! ## The calls -/

/-- What a call needs so that the flags keep matching: an object is asked for under the
name its flag is looked up by, or that name has none, and a value is put where the flag
already fits it. -/
def KeepsPacked (d : VariantDictionary loc) : VariantDictionary.Call → Prop
  | .getItem varKey => ∀ bstrVal ∈ varKey.bstrVal, d.isSerialized bstrVal = true →
      holdsObjectTag d varKey.keycopy = true →
        loc.compare (lpcolestr varKey.keycopy) (lpcolestr bstrVal) = .eq
  | .mutate m => d.readOnly = false → ∀ p ∈ puts m, ∀ w ∈ p.2,
      (d.isSerialized p.1 = true ↔ packed w = true)
  | _ => True

instance (d : VariantDictionary loc) (call : VariantDictionary.Call) :
    Decidable (KeepsPacked d call) := by
  cases call <;> unfold KeepsPacked <;> infer_instance

/-- INTERNAL: `get_Item`. -/
theorem FlagsMatch.getItem {oleLoad : List UInt8 → Option ComObject}
    (hload : ∀ bytes o, oleLoad bytes = some o → ∀ b, o ≠ .packed b)
    {d d' : VariantDictionary loc} {varKey : VariantDictionary.VariantKey} {hr : HResult}
    {v : Variant} (h : FlagsMatch d) (hkeeps : KeepsPacked d (.getItem varKey))
    (hget : d.getVariable oleLoad varKey = .ok (hr, v, d')) : FlagsMatch d' := by
  rcases getVariable_leaves hget with rfl | ⟨text, bytes, wrap, hwrap, htext, hflag, hfind, rfl⟩
  · exact h
  · have hobject : holdsObjectTag d varKey.keycopy = true := by
      rw [holdsObjectTag, hfind]
      rcases hwrap with rfl | rfl <;> rfl
    have hsame := hkeeps text htext hflag hobject
    have hloaded : packed (loadedFrom oleLoad wrap bytes) = false := by
      unfold loadedFrom
      cases ho : oleLoad bytes with
      | none => rfl
      | some o =>
        have hlive := hload bytes o ho
        rcases hwrap with rfl | rfl <;> cases o <;> first | rfl | exact absurd rfl (hlive _)
    intro key
    have hkey := h key
    unfold VariantDictionary.isSerialized holdsPacked at hkey ⊢
    rw [OrderedMap.find_assign, OrderedMap.find_assign]
    by_cases heq : loc.compare (lpcolestr key) (lpcolestr text) = .eq
    · have hk : loc.compare (lpcolestr key) (lpcolestr varKey.keycopy) = .eq :=
        Std.TransCmp.eq_trans heq (Std.OrientedCmp.eq_symm hsame)
      rw [if_pos heq, if_pos hk]
      cases d.isserialized.find (lpcolestr key) <;> cases d.dictionary.find (lpcolestr key) <;>
        simp [hloaded]
    · have hk : ¬ loc.compare (lpcolestr key) (lpcolestr varKey.keycopy) = .eq := fun hk =>
        heq (Std.TransCmp.eq_trans hk hsame)
      rw [if_neg heq, if_neg hk]
      exact hkey

/-- INTERNAL: a put of a value that the flag fits, or of none. -/
theorem FlagsMatch.stores {d d' : VariantDictionary loc} {key : Bstr} {stored : Option Variant}
    (h : FlagsMatch d) (hname : lpcolestr key = key)
    (hfits : ∀ w ∈ stored, (d.isSerialized key = true ↔ packed w = true))
    (hd : Stores d d' key stored) : FlagsMatch d' := by
  intro key'
  have hkey := h key'
  have hflag : d'.isSerialized key' = d.isSerialized key' := by
    rw [VariantDictionary.isSerialized, hd.1, ← VariantDictionary.isSerialized]
  rw [hflag]
  unfold holdsPacked at hkey ⊢
  rw [hd.2.2]
  cases stored with
  | none =>
    dsimp only
    rw [OrderedMap.find_insert]
    cases hfind : d.dictionary.find (lpcolestr key') with
    | some v =>
      rw [hfind] at hkey
      exact hkey
    | none =>
      rw [hfind] at hkey
      rw [Option.none_or]
      split
      · exact hkey
      · exact hkey
  | some w =>
    dsimp only
    rw [OrderedMap.find_upsert]
    split
    · rename_i heq
      rw [← VariantDictionary.isSerialized_lpcolestr,
        isSerialized_of_equiv d (lpcolestr_lpcolestr key') hname heq]
      exact hfits w rfl
    · exact hkey

/-- INTERNAL: `Remove`. -/
theorem FlagsMatch.remove {d : VariantDictionary loc} (h : FlagsMatch d) (key : Bstr) :
    FlagsMatch (d.remove key) := by
  intro key'
  by_cases heq : loc.compare (lpcolestr key') (lpcolestr key) = .eq
  · have hnone : holdsPacked (d.remove key) key' = false := by
      have hfind : (d.remove key).dictionary.find (lpcolestr key') = none := by
        change (d.dictionary.erase (lpcolestr key)).find (lpcolestr key') = none
        rw [OrderedMap.find_erase, if_pos heq]
      rw [holdsPacked, hfind]
      rfl
    rw [hnone]
    refine ⟨fun hflag => ?_, fun hf => (by cases hf)⟩
    -- a flag that is left belongs to a value that is no object
    exfalso
    unfold VariantDictionary.remove VariantDictionary.isSerialized at hflag
    rw [decide_eq_true_eq] at hflag
    have hkey := h key
    unfold VariantDictionary.isSerialized holdsPacked at hkey
    rw [decide_eq_true_eq] at hkey
    cases hfind : d.dictionary.find (lpcolestr key) with
    | none =>
      rw [hfind] at hflag hkey
      dsimp only at hflag
      rw [if_neg Bool.false_ne_true, d.isserialized.find_congr heq] at hflag
      exact absurd (hkey.mp hflag) Bool.false_ne_true
    | some v =>
      rw [hfind] at hflag hkey
      dsimp only at hflag
      by_cases hobj : v.vt = vtUnknown ∨ v.vt = vtDispatch
      · rw [if_pos (by simpa using hobj), OrderedMap.find_erase, if_pos heq] at hflag
        cases hflag
      · rw [if_neg (by simpa using hobj), d.isserialized.find_congr heq] at hflag
        exact hobj (objectTag_of_packed (hkey.mp hflag))
  · have hsame : holdsPacked (d.remove key) key' = holdsPacked d key' := by
      have hfind : (d.remove key).dictionary.find (lpcolestr key') =
          d.dictionary.find (lpcolestr key') := by
        change (d.dictionary.erase (lpcolestr key)).find (lpcolestr key') = _
        rw [OrderedMap.find_erase, if_neg heq]
      rw [holdsPacked, holdsPacked, hfind]
    rw [isSerialized_remove d heq, hsame]
    exact h key'

/-- **One call keeps the flags right** where the condition holds. -/
theorem FlagsMatch.perform {oleLoad : List UInt8 → Option ComObject}
    (hload : ∀ bytes o, oleLoad bytes = some o → ∀ b, o ≠ .packed b)
    {d d' : VariantDictionary loc} {call : VariantDictionary.Call} (h : FlagsMatch d)
    (hkeeps : KeepsPacked d call) (hd : d.perform oleLoad call = .ok d') : FlagsMatch d' := by
  cases call with
  | getItem varKey =>
    obtain ⟨⟨hr, v, d₁⟩, hget, heq⟩ := Run.bind_eq_ok hd
    cases heq
    exact h.getItem hload hkeeps hget
  | getExists key =>
    cases hd
    exact h
  | getKey keyIndex =>
    cases hd
    exact h
  | putReadonly newVal =>
    cases hd
    exact h
  | mutate m =>
    cases hro : d.readOnly with
    | true =>
      cases m with
      | putItem key newVal defaults =>
        rw [VariantDictionary.perform, VariantDictionary.mutate,
          VariantDictionary.putItem.eq_def, if_pos hro] at hd
        cases hd
        exact h
      | putrefItem key newVal =>
        rw [VariantDictionary.perform, VariantDictionary.mutate,
          VariantDictionary.putrefItem, if_pos hro] at hd
        cases hd
        exact h
      | remove key =>
        cases hd
        exact h.remove key
      | removeAll =>
        cases hd
        exact flagsMatch_of_empty rfl rfl
    | false =>
      have hspec := mutate_spec hro hd
      have hstores : ∀ key stored, puts m = some (key, stored) → Stores d d' key stored →
          FlagsMatch d' := fun key stored hputs hst =>
        h.stores (lpcolestr_of_puts hputs) (fun w hw => hkeeps hro (key, stored) hputs w hw) hst
      cases m with
      | putItem key newVal defaults => exact hstores (lpcolestr key) _ rfl hspec
      | putrefItem key newVal =>
        cases hputs : puts (.putrefItem key newVal) with
        | none =>
          simp only [hputs] at hspec
          exact hspec ▸ h
        | some p =>
          simp only [hputs] at hspec
          exact hstores p.1 p.2 hputs hspec
      | remove key => exact hspec ▸ h.remove key
      | removeAll => exact hspec ▸ flagsMatch_of_empty rfl rfl

/-- INTERNAL: `get_Item` adds no name. -/
theorem Zeroless.getItem {oleLoad : List UInt8 → Option ComObject} {d d' : VariantDictionary loc}
    {varKey : VariantDictionary.VariantKey} {hr : HResult} {v : Variant} (h : Zeroless d)
    (hget : d.getVariable oleLoad varKey = .ok (hr, v, d')) : Zeroless d' := by
  rcases getVariable_leaves hget with rfl | ⟨text, bytes, wrap, -, -, -, -, rfl⟩
  · exact h
  · intro e he
    obtain ⟨e', he', heq⟩ := List.mem_map.mp he
    have hname : e'.1 = e.1 := by
      rw [← heq]
      split <;> rfl
    rw [← hname]
    exact h e' he'

/-- **One call leaves no name with a zero.** -/
theorem Zeroless.perform {oleLoad : List UInt8 → Option ComObject} {d d' : VariantDictionary loc}
    {call : VariantDictionary.Call} (h : Zeroless d) (hd : d.perform oleLoad call = .ok d') :
    Zeroless d' := by
  cases call with
  | getItem varKey =>
    obtain ⟨⟨hr, v, d₁⟩, hget, heq⟩ := Run.bind_eq_ok hd
    cases heq
    exact h.getItem hget
  | getExists key =>
    cases hd
    exact h
  | getKey keyIndex =>
    cases hd
    exact h
  | putReadonly newVal =>
    cases hd
    exact h
  | mutate m => exact h.mutate hd

/-! ## Loading -/

open VariantDictionary (Loading readProperty loadProperties)

/-- The tag of the property whose name has been read. -/
def nextTag (mem : Memory) (c : Channel) : VarType :=
  UInt16.ofNat (ofLeBytes (overlay (uninit mem.vartype 2) ((c.stream.rest.drop 4).take 2)))

/-- The bytes of its value, and what follows. -/
def nextValue (c : Channel) : List UInt8 := c.stream.rest.drop 6

/-- The property sets a flag: it is an object, or has the tag `VT_DISPATCH`. -/
def SetsFlag (mem : Memory) (c : Channel) : Prop :=
  nextTag mem c = vtDispatch ∨ HoldsObject (nextTag mem c) (nextValue c)

instance (mem : Memory) (c : Channel) : Decidable (SetsFlag mem c) := by
  unfold SetsFlag
  infer_instance

/-- **What `ReadProperty` leaves**: a flag, where the property sets one; the value is a
stream where the property is an object. -/
theorem readProperty_leaves {mem : Memory} {l l' : Loading loc} {hr : HResult} {name : Bstr}
    {val : Variant} (h : readProperty mem l = .ok (hr, name, val, l')) :
    ∃ hrName text c, readString true mem l.channel = .ok (hrName, text, c) ∧
      name = text.getD [] ∧ l'.d.dictionary = l.d.dictionary ∧
      ((hrName ≠ .sOk ∧ val = .empty ∧ l'.d.isserialized = l.d.isserialized) ∨
        (hrName = .sOk ∧ (packed val = true ↔ HoldsObject (nextTag mem c) (nextValue c)) ∧
          l'.d.isserialized = if SetsFlag mem c then
            l.d.isserialized.insert (lpcolestr name) true else l.d.isserialized)) := by
  unfold VariantDictionary.readProperty at h
  obtain ⟨⟨hrName, text, c⟩, hname, h⟩ := Run.bind_eq_ok h
  dsimp only at h
  refine ⟨hrName, text, c, hname, ?_⟩
  split at h
  · rename_i hok
    have hrest₁ := Channel.rest_read c 4
    rcases hread₁ : c.read 4 with ⟨hr₁, skipped, c₁⟩
    rw [hread₁] at h hrest₁
    dsimp only at h hrest₁
    have hbytes := Channel.read_bytes c₁ 2
    have hrest₂ := Channel.rest_read c₁ 2
    rcases hread₂ : c₁.read 2 with ⟨hr₂, bytes, c₂⟩
    rw [hread₂] at h hbytes hrest₂
    dsimp only at h hbytes hrest₂
    rw [hrest₁] at hbytes hrest₂
    rw [List.drop_drop] at hrest₂
    obtain ⟨⟨hrVal, v, c₃⟩, hval, h⟩ := Run.bind_eq_ok h
    have hobject := readValue_object hval
    rw [hrest₂, hbytes] at hobject
    cases h
    refine ⟨rfl, rfl, .inr ⟨hok, hobject.stream, ?_⟩⟩
    -- a `VT_UNKNOWN` property is flagged where it has been read
    have hflag : (UInt16.ofNat (ofLeBytes (overlay (uninit mem.vartype 2) bytes)) = vtDispatch ∨
        UInt16.ofNat (ofLeBytes (overlay (uninit mem.vartype 2) bytes)) = vtUnknown ∧
          hrVal = .sOk) ↔
        SetsFlag mem c := by
      rw [hbytes]
      unfold SetsFlag nextTag nextValue
      constructor
      · rintro (htag | ⟨htag, hr⟩)
        · exact .inl htag
        · exact .inr ((hobject.result (.inl htag)).mp hr)
      · rintro (htag | hholds)
        · exact .inl htag
        · rcases hholds.1 with htag | htag
          · exact .inr ⟨htag, (hobject.result hholds.1).mpr hholds⟩
          · exact .inl htag
    simp only [hflag]
    rfl
  · rename_i hok
    cases h
    exact ⟨rfl, rfl, .inl ⟨hok, rfl, rfl⟩⟩

/-- What a property needs so that its flag is right: its name has no zero, and it is an
object under a new name, or the name has its flag already. -/
def PropertyFits (mem : Memory) (l : Loading loc) : Prop :=
  ∀ r ∈ (readString true mem l.channel).toOption,
    lpcolestr (r.2.1.getD []) = r.2.1.getD [] ∧
    (r.1 = .sOk → SetsFlag mem r.2.2 →
      (HoldsObject (nextTag mem r.2.2) (nextValue r.2.2) ∧
        (l.d.dictionary.find (r.2.1.getD [])).isNone = true) ∨
      l.d.isSerialized (r.2.1.getD []) = true)

instance (mem : Memory) (l : Loading loc) : Decidable (PropertyFits mem l) := by
  unfold PropertyFits
  infer_instance

/-- Every property that the loop of `LocalLoad` reads fits. -/
def LoopFits (mem : Memory) : ℕ → HResult → Loading loc → Prop
  | 0, _, _ => True
  | n + 1, hr, l => hr = .sOk → PropertyFits mem l ∧
      ∀ r ∈ (readProperty mem l).toOption, ∀ hrCopy ∈ r.2.2.1.copy.toOption,
        if hrCopy.failed = true then LoopFits mem n hrCopy r.2.2.2
        else LoopFits mem n r.1 { r.2.2.2 with
          d := { r.2.2.2.d with
            dictionary := r.2.2.2.d.dictionary.insert r.2.1 r.2.2.1 } }

instance decidableLoopFits (mem : Memory) :
    (n : ℕ) → (hr : HResult) → (l : Loading loc) → Decidable (LoopFits mem n hr l)
  | 0, _, _ => .isTrue trivial
  | n + 1, hr, l => by
    have : (hr : HResult) → (l : Loading loc) → Decidable (LoopFits mem n hr l) :=
      decidableLoopFits mem n
    unfold LoopFits
    infer_instance

/-- The number of variables the first property announces, where it is accepted. -/
def announced (loc : Collation) (mem : Memory) (stemp : Bstr) (varTemp : Variant) : Option ℕ :=
  let count := varTemp.intVal mem.pointer
  if loc.sameText stemp VariantDictionary.elsName = true ∧ count.slt 0 = false ∧
      BitVec.slt 32767 count = false then some count.toNat
  else none

/-- What a stream needs so that `LocalLoad` sets the flags right: a first property that is
accepted or sets no flag, and properties that fit. -/
def LoadFits (mem : Memory) (d : VariantDictionary loc) (pStream : Option CStream) (lSize : ℕ) :
    Prop :=
  lSize ≠ 0 → ∀ stream ∈ pStream, ∀ r ∈ (readProperty mem { d, stream }).toOption,
    match announced loc mem r.2.1 r.2.2.1 with
    | none => ∀ s ∈ (readString true mem ({ d, stream } : Loading loc).channel).toOption,
        s.1 = .sOk → ¬ SetsFlag mem s.2.2
    | some n => LoopFits mem n .sOk { r.2.2.2 with d := r.2.2.2.d.removeAll }

instance (mem : Memory) (d : VariantDictionary loc) (pStream : Option CStream) (lSize : ℕ) :
    Decidable (LoadFits mem d pStream lSize) := by
  unfold LoadFits
  have hcase : ∀ r : HResult × Bstr × Variant × Loading loc, ∀ stream, Decidable
      (match announced loc mem r.2.1 r.2.2.1 with
      | none => ∀ s ∈ (readString true mem ({ d, stream } : Loading loc).channel).toOption,
          s.1 = .sOk → ¬ SetsFlag mem s.2.2
      | some n => LoopFits mem n .sOk { r.2.2.2 with d := r.2.2.2.d.removeAll }) := by
    intro r stream
    split <;> infer_instance
  infer_instance

/-- The flags that loading leaves: they match, each name has its own, and none has been taken
off. -/
structure FreshFlags (d : VariantDictionary loc) : Prop where
  flagsMatch : FlagsMatch d
  zeroless : Zeroless d
  kept : ∀ key, d.isserialized.find key ≠ some false

/-- INTERNAL: a dictionary without variables and flags. -/
theorem freshFlags_of_empty {d : VariantDictionary loc} (hd : d.dictionary = .empty)
    (hs : d.isserialized = .empty) : FreshFlags d where
  flagsMatch := flagsMatch_of_empty hd hs
  zeroless := by simp [Zeroless, hd]
  kept := by
    intro key
    rw [hs, OrderedMap.find_empty]
    exact fun h => (by cases h)

/-- INTERNAL: a variable that is no stream and gets no flag. -/
theorem FreshFlags.insertPlain {d d' : VariantDictionary loc} (h : FreshFlags d) {name : Bstr}
    {val : Variant} (hname : lpcolestr name = name) (hval : packed val = false)
    (hd : d'.dictionary = d.dictionary.insert name val)
    (hs : d'.isserialized = d.isserialized) : FreshFlags d' := by
  refine ⟨fun key => ?_, h.zeroless.insert hname hd, fun key => hs ▸ h.kept key⟩
  have hkey := h.flagsMatch key
  unfold VariantDictionary.isSerialized holdsPacked at hkey ⊢
  rw [hd, hs, OrderedMap.find_insert]
  cases hfind : d.dictionary.find (lpcolestr key) with
  | some v =>
    rw [hfind] at hkey
    exact hkey
  | none =>
    rw [hfind] at hkey
    rw [Option.none_or]
    split
    · exact hkey.trans (by simp [hval])
    · exact hkey

/-- INTERNAL: a name that has its flag. -/
theorem FreshFlags.insertKnown {d d' : VariantDictionary loc} (h : FreshFlags d) {name : Bstr}
    (val : Variant) (hzero : lpcolestr name = name) (hflag : d.isSerialized name = true)
    (hd : d'.dictionary = d.dictionary ∨ d'.dictionary = d.dictionary.insert name val)
    (hs : d'.isserialized = d.isserialized.insert name true) : FreshFlags d' := by
  have hname := h.flagsMatch name
  unfold VariantDictionary.isSerialized holdsPacked at hname
  unfold VariantDictionary.isSerialized at hflag
  have hpacked := hname.mp hflag
  rw [hzero] at hpacked
  rw [hzero, decide_eq_true_eq] at hflag
  -- the flag and the value that are there stay
  have hsame : d'.dictionary = d.dictionary ∧ d'.isserialized = d.isserialized := by
    refine ⟨?_, hs.trans (OrderedMap.insert_of_find _ hflag)⟩
    rcases hd with hd | hd
    · exact hd
    · cases hfind : d.dictionary.find name with
      | none =>
        rw [hfind] at hpacked
        cases hpacked
      | some v => exact hd.trans (OrderedMap.insert_of_find _ hfind)
  refine ⟨fun key => ?_, ?_, fun key => hsame.2 ▸ h.kept key⟩
  · have hkey := h.flagsMatch key
    unfold VariantDictionary.isSerialized holdsPacked at hkey ⊢
    rw [hsame.1, hsame.2]
    exact hkey
  · rw [Zeroless, hsame.1]
    exact h.zeroless

/-- INTERNAL: a stream under a new name gets its flag. -/
theorem FreshFlags.insertPacked {d d' : VariantDictionary loc} (h : FreshFlags d) {name : Bstr}
    {val : Variant} (hzero : lpcolestr name = name) (hval : packed val = true)
    (hnone : d.dictionary.find name = none)
    (hd : d'.dictionary = d.dictionary.insert name val)
    (hs : d'.isserialized = d.isserialized.insert name true) : FreshFlags d' := by
  have hname := h.flagsMatch name
  unfold VariantDictionary.isSerialized holdsPacked at hname
  rw [hzero] at hname
  -- the name is new to both maps
  have hnoflag : d.isserialized.find name = none := by
    cases hflag : d.isserialized.find name with
    | none => rfl
    | some b =>
      cases b with
      | false => exact absurd hflag (h.kept name)
      | true =>
        rw [hflag, hnone] at hname
        exact absurd (hname.mp (by decide)) Bool.false_ne_true
  refine ⟨?_, h.zeroless.insert hzero hd, ?_⟩
  · intro key
    have hkey := h.flagsMatch key
    unfold VariantDictionary.isSerialized holdsPacked at hkey ⊢
    rw [hd, hs, OrderedMap.find_insert, OrderedMap.find_insert]
    by_cases heq : loc.compare (lpcolestr key) name = .eq
    · rw [if_pos heq, if_pos heq, d.dictionary.find_congr heq, d.isserialized.find_congr heq]
      rw [hnone, hnoflag]
      simp [hval]
    · rw [if_neg heq, if_neg heq, Option.or_none, Option.or_none]
      exact hkey
  · intro key
    have hkept := h.kept key
    rw [hs, OrderedMap.find_insert]
    cases hflag : d.isserialized.find key with
    | some b =>
      rw [hflag] at hkept
      exact hkept
    | none =>
      rw [Option.none_or]
      split
      · exact fun h => (by cases h)
      · exact fun h => (by cases h)

/-- INTERNAL: a stream can be copied. -/
theorem copy_of_packed {v : Variant} (h : packed v = true) : v.copy = .ok .sOk := by
  unfold packed at h
  split at h
  · rfl
  · rfl
  · cases h

/-- INTERNAL: a property that sets no flag. -/
theorem FreshFlags.readPlain {mem : Memory} {l l' : Loading loc} {hr : HResult} {name : Bstr}
    {val : Variant} (h : FreshFlags l.d) (hread : readProperty mem l = .ok (hr, name, val, l'))
    (hplain : ∀ r ∈ (readString true mem l.channel).toOption, r.1 = .sOk → ¬ SetsFlag mem r.2.2) :
    FreshFlags l'.d ∧ packed val = false ∧ l'.d.dictionary = l.d.dictionary ∧
      l'.d.isserialized = l.d.isserialized := by
  obtain ⟨hrName, text, c, hname, -, hdict, hcase⟩ := readProperty_leaves hread
  have hsame : packed val = false ∧ l'.d.isserialized = l.d.isserialized := by
    rcases hcase with ⟨-, rfl, hflags⟩ | ⟨hok, hpacked, hflags⟩
    · exact ⟨rfl, hflags⟩
    · have hnot := hplain (hrName, text, c) (by rw [hname]; rfl) hok
      rw [if_neg hnot] at hflags
      refine ⟨?_, hflags⟩
      cases hp : packed val with
      | false => rfl
      | true => exact absurd (.inr (hpacked.mp hp)) hnot
  refine ⟨⟨fun key => ?_, ?_, fun key => hsame.2 ▸ h.kept key⟩, hsame.1, hdict, hsame.2⟩
  · have hkey := h.flagsMatch key
    unfold VariantDictionary.isSerialized holdsPacked at hkey ⊢
    rw [hdict, hsame.2]
    exact hkey
  · rw [Zeroless, hdict]
    exact h.zeroless

/-- **One property keeps the flags right**, whether or not its value can be copied. -/
theorem FreshFlags.readProperty {mem : Memory} {l l' : Loading loc} {hr : HResult} {name : Bstr}
    {val : Variant} (h : FreshFlags l.d) (hfits : PropertyFits mem l)
    (hread : readProperty mem l = .ok (hr, name, val, l')) {hrCopy : HResult}
    (hcopy : val.copy = .ok hrCopy) :
    if hrCopy.failed = true then FreshFlags l'.d
    else FreshFlags { l'.d with dictionary := l'.d.dictionary.insert name val } := by
  obtain ⟨hrName, text, c, hname, rfl, hdict, hcase⟩ := readProperty_leaves hread
  obtain ⟨hzero, hfits⟩ := hfits (hrName, text, c) (by rw [hname]; rfl)
  by_cases hsets : hrName = .sOk ∧ SetsFlag mem c
  · obtain ⟨hok, hflag⟩ := hsets
    rcases hcase with ⟨hnot, -⟩ | ⟨-, hpacked, hflags⟩
    · exact absurd hok hnot
    · rw [if_pos hflag, hzero] at hflags
      rcases hfits hok hflag with ⟨hholds, hnone⟩ | hknown
      · have hval := hpacked.mpr hholds
        rw [copy_of_packed hval] at hcopy
        cases hcopy
        rw [if_neg (by decide)]
        exact h.insertPacked hzero hval (Option.isNone_iff_eq_none.mp hnone) (by rw [← hdict]) hflags
      · split
        · exact h.insertKnown val hzero hknown (.inl hdict) hflags
        · exact h.insertKnown val hzero hknown (.inr (by rw [← hdict])) hflags
  · have hplain : ∀ r ∈ (readString true mem l.channel).toOption, r.1 = .sOk →
        ¬ SetsFlag mem r.2.2 := by
      intro r hr hok hflag
      rw [hname] at hr
      cases hr
      exact hsets ⟨hok, hflag⟩
    obtain ⟨hfresh, hval, -, hflags⟩ := h.readPlain hread hplain
    split
    · exact hfresh
    · exact h.insertPlain hzero hval (by rw [← hdict]) hflags

/-- **The loop of `LocalLoad` keeps the flags right.** -/
theorem FreshFlags.loadProperties {mem : Memory} {n : ℕ} {hr hr' : HResult} {l l' : Loading loc}
    (h : FreshFlags l.d) (hfits : LoopFits mem n hr l)
    (hload : loadProperties mem n hr l = .ok (hr', l')) : FreshFlags l'.d := by
  induction n generalizing hr l with
  | zero =>
    cases hload
    exact h
  | succ n ih =>
    rw [VariantDictionary.loadProperties] at hload
    split at hload
    · rename_i hok
      obtain ⟨hproperty, hrest⟩ := hfits hok
      obtain ⟨⟨hr₁, name, val, l₁⟩, hread, hload⟩ := Run.bind_eq_ok hload
      obtain ⟨hrCopy, hcopy, hload⟩ := Run.bind_eq_ok hload
      have hstep := h.readProperty hproperty hread hcopy
      have hnext := hrest (hr₁, name, val, l₁) (by rw [hread]; rfl) hrCopy (by rw [hcopy]; rfl)
      by_cases hfailed : hrCopy.failed = true
      · rw [if_pos hfailed] at hstep hnext
        dsimp only at hload
        rw [if_pos hfailed] at hload
        exact ih hstep hnext hload
      · rw [if_neg hfailed] at hstep hnext
        dsimp only at hload
        rw [if_neg hfailed] at hload
        exact ih hstep hnext hload
    · cases hload
      exact h

/-- **`LocalLoad` sets the flags right** where the stream fits. -/
theorem FreshFlags.localLoad {mem : Memory} {d d' : VariantDictionary loc}
    {pStream stream' : Option CStream} {lSize : ℕ} {hr : HResult} (h : FreshFlags d)
    (hfits : LoadFits mem d pStream lSize)
    (hload : d.localLoad mem pStream lSize = .ok (hr, d', stream')) : FreshFlags d' := by
  unfold VariantDictionary.localLoad at hload
  split at hload
  · cases hload
    exact h
  · rename_i hsize
    cases pStream with
    | none =>
      cases hload
      exact h
    | some stream =>
      dsimp only at hload
      obtain ⟨⟨hr₁, stemp, varTemp, l⟩, hread, hload⟩ := Run.bind_eq_ok hload
      have hfirst := hfits hsize stream rfl (hr₁, stemp, varTemp, l) (by rw [hread]; rfl)
      dsimp only at hload hfirst
      unfold announced at hfirst
      dsimp only at hfirst
      -- a first property that is refused must not have set a flag
      have hrefused : ¬ (loc.sameText stemp VariantDictionary.elsName = true ∧
          (varTemp.intVal mem.pointer).slt 0 = false ∧
          BitVec.slt 32767 (varTemp.intVal mem.pointer) = false) → FreshFlags l.d := by
        intro hnot
        rw [if_neg hnot] at hfirst
        exact (FreshFlags.readPlain (l := { d, stream }) h hread hfirst).1
      split at hload
      · rename_i hname
        cases hload
        exact hrefused fun hacc => hname hacc.1
      · rename_i hname
        split at hload
        · rename_i hcount
          cases hload
          refine hrefused fun hacc => ?_
          rcases hcount with hc | hc
          · exact Bool.false_ne_true (hacc.2.1.symm.trans hc)
          · exact Bool.false_ne_true (hacc.2.2.symm.trans hc)
        · rename_i hcount
          rw [if_pos (by simpa [not_or] using And.intro (not_not.mp hname) hcount)] at hfirst
          obtain ⟨⟨hr₂, l₂⟩, hloop, hload⟩ := Run.bind_eq_ok hload
          cases hload
          exact FreshFlags.loadProperties (l := { l with d := l.d.removeAll })
            (freshFlags_of_empty rfl rfl) hfirst hloop

/-! ## Runs -/

/-- The flags are right: they match for every name a call looks up and for every name that is
there, no live object is unpacked by `get_Item`, and none is copied as a stream by
`WriteValue`. -/
structure FlagsHold (d : VariantDictionary loc) : Prop where
  flagsMatch : FlagsMatch d
  entries : ∀ e ∈ d.dictionary.entries, d.isSerialized e.1 = true ↔ packed e.2 = true
  unpacked : ∀ varKey bstrVal o, KeepsPacked d (.getItem varKey) → varKey.bstrVal = some bstrVal →
    (d.dictionary.find (lpcolestr varKey.keycopy) = some (.unknown o) ∨
      d.dictionary.find (lpcolestr varKey.keycopy) = some (.dispatch o)) →
    d.isSerialized bstrVal = true → ∃ bytes, o = .packed bytes
  copied : ∀ e ∈ d.dictionary.entries, ∀ o, e.2 = .unknown o ∨ e.2 = .dispatch o →
    d.isSerialized e.1 = true → ∃ bytes, o = .packed bytes

/-- INTERNAL: matching flags are right where no name has a zero. -/
theorem FlagsMatch.hold {d : VariantDictionary loc} (h : FlagsMatch d) (hzero : Zeroless d) :
    FlagsHold d where
  flagsMatch := h
  entries := fun e he => by rw [h.entry hzero he]
  unpacked := by
    intro varKey bstrVal o hkeeps htext hfind hflag
    have hobject : holdsObjectTag d varKey.keycopy = true := by
      rcases hfind with hfind | hfind <;> rw [holdsObjectTag, hfind] <;> rfl
    have hsame := isSerialized_of_equiv d (lpcolestr_lpcolestr _) (lpcolestr_lpcolestr _)
      (hkeeps bstrVal htext hflag hobject)
    rw [VariantDictionary.isSerialized_lpcolestr, VariantDictionary.isSerialized_lpcolestr] at hsame
    exact h.packed_of_flagged hfind (hsame.trans hflag)
  copied := by
    intro e he o hvalue hflag
    rw [h.entry hzero he] at hflag
    rcases hvalue with hvalue | hvalue <;> rw [hvalue] at hflag <;> cases o <;>
      first | exact ⟨_, rfl⟩ | cases hflag

/-- **Where the stream that is loaded fits and every call of a run meets the condition, the
flags are right at its end.** -/
theorem flagsHold_of_run {mem : Memory} {oleLoad : List UInt8 → Option ComObject}
    (hload : ∀ bytes o, oleLoad bytes = some o → ∀ b, o ≠ .packed b)
    {pStream stream' : Option CStream} {lSize : ℕ} {hr : HResult}
    {calls : List VariantDictionary.Call} {d₀ d : VariantDictionary loc}
    (hfits : LoadFits mem (.new : VariantDictionary loc) pStream lSize)
    (hloaded : (.new : VariantDictionary loc).localLoad mem pStream lSize = .ok (hr, d₀, stream'))
    (hm : Runs.Meets (VariantDictionary.perform oleLoad) KeepsPacked calls d₀)
    (h : Runs.run (VariantDictionary.perform oleLoad) calls d₀ = .ok d) : FlagsHold d := by
  have hfresh : FreshFlags d₀ := (freshFlags_of_empty rfl rfl).localLoad hfits hloaded
  obtain ⟨hmatch, hzero⟩ : FlagsMatch d ∧ Zeroless d :=
    Runs.run_invariant (fun d => FlagsMatch d ∧ Zeroless d)
      (fun _ _ _ hd hkeeps hstep => ⟨hd.1.perform hload hkeeps hstep, hd.2.perform hstep⟩)
      ⟨hfresh.flagsMatch, hfresh.zeroless⟩ hm h
  exact hmatch.hold hzero

/-- A session with the object `a`. -/
def objectSession : CStream where
  buf := leBytes 4 3 ++ [69, 108, 115] ++ leBytes 4 0 ++ leBytes 2 3 ++ leBytes 4 1 ++
    (leBytes 4 1 ++ [97] ++ leBytes 4 0 ++ leBytes 2 13 ++ leBytes 4 1 ++ [7])
  pos := 0

/-- A page that uses the object, removes it and stores a number under its name. -/
def removingPage : List VariantDictionary.Call :=
  [.getItem (.bstr [97]), .mutate (.remove [97]), .mutate (.putItem [97] (.value (.scalar .i4 5)) [])]

/-- On that page the flags are right. -/
theorem removingPage_flagsHold : ∃ (hr : HResult) (d₀ d : VariantDictionary .ordinal)
    (stream' : Option CStream), VariantDictionary.new.localLoad .zero (some objectSession) 27 =
        .ok (hr, d₀, stream') ∧ d₀.isSerialized [97] = true ∧
      Runs.run (VariantDictionary.perform fun _ => some (.live true (some [7]))) removingPage d₀ =
        .ok d ∧ FlagsHold d := by
  have hrun : ((VariantDictionary.new.localLoad .zero (some objectSession) 27 :
      Run (HResult × VariantDictionary .ordinal × Option CStream)).toOption.bind fun r =>
        (Runs.run (VariantDictionary.perform fun _ => some (.live true (some [7]))) removingPage
          r.2.1).toOption.map fun d => ((r, d), r.2.1.isSerialized [97] &&
            decide (Runs.Meets (VariantDictionary.perform fun _ => some (.live true (some [7])))
              KeepsPacked removingPage r.2.1))).map Prod.snd = some true := by decide +kernel
  obtain ⟨⟨p, checked⟩, hbind, hchecked⟩ := Option.map_eq_some_iff.mp hrun
  obtain ⟨⟨hr, d₀, stream'⟩, hloaded, hmap⟩ := Option.bind_eq_some_iff.mp hbind
  obtain ⟨d, hd, heq⟩ := Option.map_eq_some_iff.mp hmap
  cases heq
  have hboth := Bool.and_eq_true_iff.mp hchecked
  have hloaded := Run.eq_ok_of_toOption hloaded
  have hd := Run.eq_ok_of_toOption hd
  exact ⟨hr, d₀, d, stream', hloaded, hboth.1, hd,
    flagsHold_of_run (fun _ _ ho b hb => by cases ho; cases hb) (by decide +kernel) hloaded
      (of_decide_eq_true hboth.2) hd⟩

/-- **A number put over an object that was never used leaves the flag of the object.** -/
theorem putOverStream_not_flagsMatch : ∃ (hr : HResult) (d₀ d : VariantDictionary .ordinal)
    (stream' : Option CStream), VariantDictionary.new.localLoad .zero (some objectSession) 27 =
        .ok (hr, d₀, stream') ∧
      Runs.run (VariantDictionary.perform fun _ => some (.live true (some [7])))
        [.mutate (.putItem [97] (.value (.scalar .i4 5)) [])] d₀ = .ok d ∧ ¬ FlagsMatch d := by
  have hrun : ((VariantDictionary.new.localLoad .zero (some objectSession) 27 :
      Run (HResult × VariantDictionary .ordinal × Option CStream)).toOption.bind fun r =>
        (Runs.run (VariantDictionary.perform fun _ => some (.live true (some [7])))
          [.mutate (.putItem [97] (.value (.scalar .i4 5)) [])] r.2.1).toOption.map fun d =>
            ((r, d), d.isSerialized [97], holdsPacked d [97])).map Prod.snd =
      some (true, false) := by decide +kernel
  obtain ⟨⟨p, flags⟩, hbind, hflags⟩ := Option.map_eq_some_iff.mp hrun
  obtain ⟨⟨hr, d₀, stream'⟩, hloaded, hmap⟩ := Option.bind_eq_some_iff.mp hbind
  obtain ⟨d, hd, heq⟩ := Option.map_eq_some_iff.mp hmap
  cases heq
  obtain ⟨hflag, hpacked⟩ := Prod.mk.inj hflags
  refine ⟨hr, d₀, d, stream', Run.eq_ok_of_toOption hloaded, Run.eq_ok_of_toOption hd, ?_⟩
  intro hmatch
  have hkey := (hmatch [97]).mp hflag
  rw [hpacked] at hkey
  cases hkey

end IspSession.Analysis
