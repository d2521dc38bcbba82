import IspSession.Analysis.ApplicationCalls
import IspSession.Analysis.DictionaryReading
import IspSession.Model.ApplicationStore
import Mathlib.Data.List.TakeWhile

/-!
# The records of an application

A record is the key, the tag of the value and the value. `serializeKey_spec`:
`SerializeKey` writes `recordBytes` of the value an element is stored as, or faults on a
null object. `isRecord_recordBytes`: `DeserializeKey` makes of a record an element with
the value read back, whatever the memory holds.
-/

set_option autoImplicit false

namespace IspSession.Analysis

open IspSession.Library IspSession.Model

variable {loc : Collation}

/-- A record. -/
def recordBytes (mem : Memory) (key : Bstr) (v : Variant) : Bytes :=
  stringBytes key ++ (leBytes 2 v.vt.toNat ++ storedBytes mem true v)

/-! ## Values in elements -/

/-- A size an object's stream can have in a record. -/
def StreamFits (bytes : Bytes) : Prop := 0 < bytes.length ∧ bytes.length < 2 ^ 31

/-- The object is live and saves itself to a stream. -/
def SavesItself (o : ComObject) : Prop := ∃ bytes, o = .live true (some bytes) ∧ StreamFits bytes

/-- The object is a stream. -/
def IsStream (o : ComObject) : Prop := ∃ bytes, o = .packed bytes ∧ StreamFits bytes

/-- The value is supported by the codec, where an object has the property `p`. -/
def SupportedBut (p : ComObject → Prop) : Variant → Prop
  | .dispatch o | .unknown o => p o
  | v => Supported v ∧ Fits v ∧ Readable v

/-- A weaker property of objects. -/
theorem SupportedBut.mono {p q : ComObject → Prop} (hpq : ∀ o, p o → q o) {v : Variant}
    (h : SupportedBut p v) : SupportedBut q v := by
  cases v with
  | dispatch o => exact hpq o h
  | unknown o => exact hpq o h
  | _ => exact h

/-- A value a page can store so that the codec brings it back. -/
def Storeable (v : Variant) : Prop := SupportedBut SavesItself v

/-- A value that a record brings back. -/
def Restored (v : Variant) : Prop := SupportedBut IsStream v

/-- A value an element can hold: an object may also be null. -/
def Holdable (v : Variant) : Prop :=
  SupportedBut (fun o => o = .null ∨ SavesItself o ∨ IsStream o) v

/-- The value is a null object, which `WriteValue` follows. -/
def nullObject : Variant → Bool
  | .dispatch .null | .unknown .null => true
  | _ => false

/-- The value an element is stored as, with the tag that is stored. -/
def storedAs (element : ElementModel) : Variant :=
  if element.isSerialized then element.val else persisted element.val

/-- INTERNAL: what `SerializeKey` writes has the same bytes. -/
theorem storedAs_spec (element : ElementModel) :
    (storedAs element).vt = element.val.vt ∧ ∀ (mem : Memory) (c : Channel),
      writeValue mem true (CApplication.toWrite element) c =
        writeValue mem true (storedAs element) c := by
  unfold storedAs CApplication.toWrite
  split
  · exact ⟨rfl, fun _ _ => rfl⟩
  · cases element.val with
    | dispatch o => rcases o with _ | ⟨_ | _, _ | bytes⟩ | bytes <;> exact ⟨rfl, fun _ _ => rfl⟩
    | unknown o => rcases o with _ | ⟨_ | _, _ | bytes⟩ | bytes <;> exact ⟨rfl, fun _ _ => rfl⟩
    | _ => exact ⟨rfl, fun _ _ => rfl⟩

/-- INTERNAL: an object that an element holds, under the flag of a stream. -/
theorem storable_object {o : ComObject} (h : o = .null ∨ SavesItself o ∨ IsStream o)
    (hnull : o ≠ .null) : ¬ (true = true ∧ o = .null) ∧
      ∀ bytes, savedStream true o = some bytes → 0 < bytes.length ∧ bytes.length < 2 ^ 31 := by
  refine ⟨fun hc => hnull hc.2, fun bytes hs => ?_⟩
  rcases h with h | ⟨bytes', rfl, -⟩ | ⟨bytes', rfl, hfits⟩
  · exact absurd h hnull
  · cases hs
  · cases hs
    exact hfits

/-- INTERNAL: a value that is no null object, under the flag of a stream. -/
theorem Holdable.storable {v : Variant} (h : Holdable v) (hnull : nullObject v = false) :
    Storable true v ∧ Readable v := by
  cases v with
  | dispatch o =>
    refine ⟨storable_object h ?_, trivial⟩
    rintro rfl
    cases hnull
  | unknown o =>
    refine ⟨storable_object h ?_, trivial⟩
    rintro rfl
    cases hnull
  | _ => exact ⟨⟨h.1, h.2.1⟩, h.2.2⟩

/-- INTERNAL: the stream of an object that an element holds. -/
theorem Holdable.persisted {v : Variant} (h : Holdable v) :
    Holdable (persisted v) ∧ nullObject (Analysis.persisted v) = nullObject v := by
  cases v with
  | dispatch o =>
    rcases h with rfl | ⟨bytes, rfl, hfits⟩ | ⟨bytes, rfl, hfits⟩
    · exact ⟨.inl rfl, rfl⟩
    · exact ⟨.inr (.inr ⟨bytes, rfl, hfits⟩), rfl⟩
    · exact ⟨.inr (.inr ⟨bytes, rfl, hfits⟩), rfl⟩
  | unknown o =>
    rcases h with rfl | ⟨bytes, rfl, hfits⟩ | ⟨bytes, rfl, hfits⟩
    · exact ⟨.inl rfl, rfl⟩
    · exact ⟨.inr (.inr ⟨bytes, rfl, hfits⟩), rfl⟩
    · exact ⟨.inr (.inr ⟨bytes, rfl, hfits⟩), rfl⟩
  | _ => exact ⟨h, rfl⟩

/-- INTERNAL: an element's value can be stored unless it is a null object. -/
theorem Holdable.storedAs {element : ElementModel} (h : Holdable element.val)
    (hnull : nullObject element.val = false) :
    Storable true (storedAs element) ∧ Readable (Analysis.storedAs element) := by
  unfold Analysis.storedAs
  split
  · exact h.storable hnull
  · exact h.persisted.1.storable (h.persisted.2.trans hnull)

/-! ## Writing -/

/-- The text of a key: not empty, of ASCII characters other than zero, and short enough
for the conversion buffer. -/
structure GoodKey (key : Bstr) : Prop where
  nonempty : key ≠ []
  nonzero : ∀ u ∈ key, u ≠ 0
  ascii : AsciiUtf16 key
  fits : StringFits key

/-- INTERNAL: such a text is looked up as it is. -/
theorem GoodKey.lpcolestr {key : Bstr} (h : GoodKey key) : lpcolestr key = key := by
  rw [Model.lpcolestr, List.takeWhile_eq_self_iff]
  intro u hu
  simpa using h.nonzero u hu

/-- `SerializeKey` of an element under a key appends a record and leaves the stream in the element,
or faults. -/
def SerializesTo (loc : Collation) (mem : Memory) (key : Bstr) (element : ElementModel)
    (faults : Bool) (record : Bytes) : Prop :=
  ∀ a : CApplication loc, a.find key = some element → ∀ stream : CStream, stream.Sound →
    (faults = false → ∃ hr b, a.serializeKey mem key stream =
      .ok (hr, stream.write record,
        (a.update key fun e => { e with val := CApplication.toWrite element }).withBuffer b)) ∧
    (faults = true → a.serializeKey mem key stream = .error .fault)

/-- INTERNAL: `WriteValue` follows a null object. -/
theorem writeValue_nullObject (mem : Memory) {element : ElementModel}
    (hnull : nullObject element.val = true) (c : Channel) :
    writeValue mem true (storedAs element) c = .error .fault := by
  rw [← (storedAs_spec element).2, CApplication.toWrite]
  cases hval : element.val with
  | dispatch o =>
    cases o with
    | null => cases element.isSerialized <;> rfl
    | _ => rw [hval] at hnull; cases hnull
  | unknown o =>
    cases o with
    | null => cases element.isSerialized <;> rfl
    | _ => rw [hval] at hnull; cases hnull
  | _ => rw [hval] at hnull; cases hnull

/-- **`SerializeKey`** writes the key, the tag and what `WriteValue` emits of the value, whatever
its result is, or faults on a null object. -/
theorem serializesTo_of_writes (loc : Collation) {mem : Memory} {key : Bstr} (hkey : GoodKey key)
    {element : ElementModel} {bs : Bytes}
    (hwrites : nullObject element.val = false → ∀ c : Channel, c.stream.Sound →
      ∃ hr b, writeValue mem true (storedAs element) c = .ok (hr, ⟨c.stream.write bs, b⟩)) :
    SerializesTo loc mem key element (nullObject element.val)
      (stringBytes key ++ (leBytes 2 (storedAs element).vt.toNat ++ bs)) := by
  intro a hfind stream hs
  obtain ⟨b, hwrite⟩ := writeString_spec hkey.fits ⟨stream, a.m_currentBufLen⟩ hs
  have htag := (storedAs_spec element).1
  have hsame := (storedAs_spec element).2
  have hserialize : a.serializeKey mem key stream =
      writeValue mem true (storedAs element)
        ⟨stream.write (stringBytes key ++ leBytes 2 element.val.vt.toNat), b⟩ >>= fun written =>
      pure (written.1, written.2.stream, (a.update key fun e =>
        { e with val := CApplication.toWrite element }).withBuffer written.2.m_currentBufLen) := by
    unfold CApplication.serializeKey
    rw [hkey.lpcolestr, hfind]
    dsimp only
    rw [hwrite]
    simp only [Run.ok_bind, HResult.failed, Bool.false_eq_true, if_false, hsame,
      Channel.write_eq, hs.write_write]
  rw [hserialize]
  constructor
  · intro hnull
    obtain ⟨hr, b', hok⟩ := hwrites hnull
      ⟨stream.write (stringBytes key ++ leBytes 2 element.val.vt.toNat), b⟩ (hs.write _)
    refine ⟨hr, b', ?_⟩
    rw [hok]
    simp only [Run.ok_bind, hs.write_write, htag, List.append_assoc]
    rfl
  · intro hnull
    rw [writeValue_nullObject mem hnull]
    rfl

/-- The record of a value the codec can work with. -/
theorem serializeKey_spec (loc : Collation) (mem : Memory) {key : Bstr} (hkey : GoodKey key)
    {element : ElementModel} (hheld : Holdable element.val) :
    SerializesTo loc mem key element (nullObject element.val)
      (recordBytes mem key (storedAs element)) := by
  refine serializesTo_of_writes loc hkey fun hnull c hc => ?_
  obtain ⟨hstorable, hreadable⟩ := hheld.storedAs hnull
  exact (writeStored_spec mem hstorable c hc).1 hreadable.writable

/-! ## Reading -/

/-- The element that is loaded with a value. -/
def loadedElement (val : Variant) : ElementModel :=
  { ElementModel.blank with val, isSerialized := decide (ObjectTag val.vt) }

/-- The bytes are a record of the key and the value: `DeserializeKey` gives the element of
the key the value, whatever the memory holds. -/
def IsRecord (loc : Collation) (bytes : Bytes) (key : Bstr) (val : Variant) : Prop :=
  ∀ (mem : Memory) (a : CApplication loc), ∃ hr b, a.deserializeKey mem bytes =
    .ok (hr, ((a.insert key .blank).update key fun e =>
      { e with val, isSerialized := e.isSerialized || decide (ObjectTag val.vt) }).withBuffer b)

/-- A record into an application without the key. -/
theorem IsRecord.find {bytes : Bytes} {key : Bstr} {val : Variant}
    (h : IsRecord loc bytes key val) (mem : Memory) {a : CApplication loc}
    (hnone : a.find key = none) : ∃ hr a', a.deserializeKey mem bytes = .ok (hr, a') ∧
      a'.removed = a.removed ∧ ∀ key', a'.find key' =
        if loc.compare key' key = .eq then some (loadedElement val) else a.find key' := by
  have hself : loc.compare key key = .eq := Std.ReflCmp.compare_self
  obtain ⟨hr, b, hok⟩ := h mem a
  have hinsert : (a.insert key .blank).find key = some .blank := by
    rw [CApplication.find_insert, hnone, Option.none_or, if_pos hself]
  refine ⟨hr, _, hok, ?_, fun key' => ?_⟩
  · unfold CApplication.update
    rw [hinsert]
    rfl
  · rw [CApplication.find_withBuffer, CApplication.find_update, hinsert]
    split
    · rfl
    · rename_i hk
      rw [CApplication.find_insert, if_neg hk, Option.or_none]

/-- A record has one value, if the key is the same. -/
theorem IsRecord.unique {bytes : Bytes} {key key' : Bstr} {val val' : Variant}
    (h : IsRecord loc bytes key val) (h' : IsRecord loc bytes key' val')
    (hk : loc.compare key' key = .eq) : val = val' := by
  obtain ⟨hr, a, hok, -, hfind⟩ := h.find .zero (a := .new) rfl
  obtain ⟨hr', a', hok', -, hfind'⟩ := h'.find .zero (a := .new) rfl
  have hsame : a = a' := by
    rw [hok] at hok'
    cases hok'
    rfl
  have hself : loc.compare key' key' = .eq := Std.ReflCmp.compare_self
  have heq := (hfind key').symm.trans (hsame ▸ hfind' key')
  rw [if_pos hk, if_pos hself] at heq
  exact congrArg ElementModel.val (Option.some.inj heq)

/-- **A record is read back** as what its value's bytes are read as. -/
theorem isRecord_of_reads {loc : Collation} {key : Bstr} (hkey : GoodKey key) {vt : VarType}
    {bs : Bytes} {val : Variant}
    (hreads : ∀ (mem : Memory) (fuel : ℕ) (c : Channel), bs.length < fuel → c.stream.rest = bs →
      ∃ hr c', readValue loc false mem fuel vt c = .ok (hr, val, c')) :
    IsRecord loc (stringBytes key ++ (leBytes 2 vt.toNat ++ bs)) key val := by
  intro mem a
  have hrest : (⟨stringBytes key ++ (leBytes 2 vt.toNat ++ bs), 0⟩ : CStream).rest =
      stringBytes key ++ (leBytes 2 vt.toNat ++ bs) := rfl
  obtain ⟨b, hname⟩ := (readString_spec mem (wellFormedUtf16_ascii hkey.ascii) hkey.fits
    (c := ⟨⟨stringBytes key ++ (leBytes 2 vt.toNat ++ bs), 0⟩, a.m_currentBufLen⟩)
    hrest).delivers false
  have hrest₁ := CStream.rest_advance_of_append hrest
  have htag := Channel.read_of_rest
    (c := ⟨(⟨stringBytes key ++ (leBytes 2 vt.toNat ++ bs), 0⟩ : CStream).advance
      (stringBytes key).length, b⟩) hrest₁ (length_leBytes 2 _)
  have hrest₂ := CStream.rest_advance_of_append hrest₁
  rw [length_leBytes] at hrest₂
  have hover : overlay [0, 0] (leBytes 2 vt.toNat) = leBytes 2 vt.toNat :=
    overlay_of_length_le (by simp)
  have hfuel : bs.length < (stringBytes key ++ (leBytes 2 vt.toNat ++ bs)).length + 2 := by
    simp only [List.length_append]
    omega
  obtain ⟨hr, c', hval⟩ := hreads mem _
    ⟨((⟨stringBytes key ++ (leBytes 2 vt.toNat ++ bs), 0⟩ : CStream).advance
      (stringBytes key).length).advance 2, b⟩ hfuel hrest₂
  refine ⟨hr, c'.m_currentBufLen, ?_⟩
  unfold CApplication.deserializeKey
  rw [hname]
  simp only [Run.ok_bind, HResult.failed, Bool.false_eq_true, if_false, htag, hover,
    uint16_ofLeBytes_leBytes, hval, Option.getD_some]
  rfl

/-- The record of a value the codec can work with. -/
theorem isRecord_recordBytes (loc : Collation) (mem : Memory) {key : Bstr} (hkey : GoodKey key)
    {v : Variant} (hv : Storable true v ∧ Readable v) :
    IsRecord loc (recordBytes mem key v) key (loadedValue true v).2 := by
  refine isRecord_of_reads hkey fun mem' fuel c hfuel hrest => ?_
  rw [← List.append_nil (storedBytes mem true v)] at hrest
  obtain ⟨b, hval⟩ := (readStored_spec loc false mem mem' hv.1 hfuel hrest).1 hv.2
  exact ⟨_, _, hval⟩

/-- INTERNAL: what is read back is a value a record brings back. -/
theorem restored_loadedValue {v : Variant} (h : Storable true v ∧ Readable v) :
    Restored (loadedValue true v).2 := by
  have hobject : ∀ (wrap : ComObject → Variant) (o : ComObject),
      (wrap = Variant.unknown ∨ wrap = Variant.dispatch) →
      (∀ bytes, savedStream true o = some bytes → StreamFits bytes) →
      Restored (loadedObject wrap (savedStream true o)).2 := by
    intro wrap o hwrap hsize
    cases hs : savedStream true o with
    | none => exact ⟨trivial, trivial, trivial⟩
    | some bytes =>
      have hfits := hsize bytes hs
      rcases hwrap with rfl | rfl <;> exact ⟨bytes, rfl, hfits⟩
  cases v with
  | dispatch o => exact hobject _ o (.inr rfl) h.1.2
  | unknown o => exact hobject _ o (.inl rfl) h.1.2
  | _ => exact ⟨h.1.1, h.1.2, h.2⟩

/-- INTERNAL: what a record brings back is stored as it is and read back again. -/
theorem Restored.loadedValue {v : Variant} (h : Restored v) :
    (loadedValue true v).2 = v ∧ persisted v = v := by
  cases v with
  | dispatch o =>
    obtain ⟨bytes, rfl, -⟩ := h
    exact ⟨rfl, rfl⟩
  | unknown o =>
    obtain ⟨bytes, rfl, -⟩ := h
    exact ⟨rfl, rfl⟩
  | _ => exact ⟨rfl, rfl⟩

end IspSession.Analysis
