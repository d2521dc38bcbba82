import IspSession.Analysis.ApplicationRequests
import IspSession.Analysis.NestedObjects
import Mathlib.Data.List.Pairwise

/-!
# Application variables that cannot be serialized

`SerializeKeys` overwrites the result of `SerializeKey` with the one of a `Seek` and stores what
was emitted until then: the key, the tag and what the writer of the value got to. The commands for
a key do not depend on it. `savedApart_iff` says when a save leaves such keys alone: when there are
none, or when Redis happens to hold for each exactly what is emitted.
-/

set_option autoImplicit false

namespace IspSession.Analysis

open IspSession.Library IspSession.Model

variable {loc : Collation}

/-! ## What is emitted -/

mutual

/-- What `WriteValue` emits of a value in a record. Of an object that is no stream it is a size of
zero, of an array whose elements it does not support what stands in front of the cells. -/
def emittedBytes (mem : Memory) : Variant → List UInt8
  | .dispatch o | .unknown o => objectBytes true o
  | .otherArray vt cbElements bounds _ => headerBytes mem vt cbElements bounds
  | .variantArray bounds cells =>
    headerBytes mem vtVariant 24 bounds ++ emittedCellsBytes mem cells
  | v => valueBytes mem v

/-- The cells of a `VARIANT` array, each with its tag. -/
def emittedCellsBytes (mem : Memory) : List Variant → List UInt8
  | [] => []
  | v :: cells => leBytes 2 v.vt.toNat ++ (emittedBytes mem v ++ emittedCellsBytes mem cells)

end

/-- INTERNAL: the cells' bytes, cell by cell. -/
theorem emittedCellsBytes_eq_flatMap (mem : Memory) (cells : List Variant) :
    emittedCellsBytes mem cells = cells.flatMap (taggedBytes (emittedBytes mem)) := by
  induction cells with
  | nil => rfl
  | cons v cells ih =>
    rw [emittedCellsBytes, ih, List.flatMap_cons, taggedBytes, List.append_assoc]

/-- A value of its own is one the codec supports, an object that is not null, or an array whose
elements are of a type the writer has no branch for. -/
def EmittedHere : Variant → Prop
  | .otherArray vt _ _ _ => vt ≠ vtDecimal
  | v => StorableHere true v

/-- INTERNAL: the unsupported array, of which the writer leaves the header. -/
theorem writesAs_otherArray (mem : Memory) {vt : VarType} (hvt : vt ≠ vtDecimal) (cbElements : ℕ)
    (bounds : List SafeArrayBound) (data : List UInt8) :
    WritesAs mem true (emittedBytes mem) (.otherArray vt cbElements bounds data) := by
  intro c hc
  obtain ⟨b, hb⟩ := writeArrayHeader_spec mem vt cbElements bounds c hc
  refine .of_ok trivial .eInvalidArg b ?_
  rw [writeValue, hb]
  simp only [Run.ok_bind, hvt, if_false]
  rfl

mutual

/-- **`WriteValue` emits these bytes**, whatever its result is, or faults in a carry loop. -/
theorem writesAs_emittedBytes (mem : Memory) :
    (v : Variant) → Hereditary EmittedHere v → WritesAs mem true (emittedBytes mem) v
  | .dispatch _, h => writesAs_object (.inl rfl) h.self
  | .unknown _, h => writesAs_object (.inr rfl) h.self
  | .otherArray _ cbElements bounds data, h => writesAs_otherArray mem h.self cbElements bounds data
  | .variantArray bounds cells, h => fun c hc => by
    obtain ⟨hcreate, hlen⟩ : SupportedHere (.variantArray bounds cells) := h.self.1
    rw [emittedBytes, emittedCellsBytes_eq_flatMap]
    exact writeVariantArray_spec hcreate hlen (writesAs_emittedCells mem cells h.2) c hc
  | .empty, h | .null, h | .scalar _ _, h | .decimal _, h | .bstr _, h | .blockArray _ _ _, h
  | .bstrArray _ _, h | .nullArray _, h | .byrefArray _, h | .raw _ _, h =>
    writeValue_spec mem true _ h.self.1 h.self.2

/-- INTERNAL: the same for every cell of an array. -/
theorem writesAs_emittedCells (mem : Memory) :
    (cells : List Variant) → HereditaryCells EmittedHere cells →
      ∀ v ∈ cells, WritesAs mem true (emittedBytes mem) v
  | [], _, v, hv => absurd hv (by simp)
  | u :: cells, h, v, hv => by
    rcases List.mem_cons.mp hv with hu | hv
    · rw [hu]
      exact writesAs_emittedBytes mem u h.1
    · exact writesAs_emittedCells mem cells h.2 v hv

end

mutual

/-- INTERNAL: of a value whose objects are streams all is emitted. -/
theorem emittedBytes_of_streamed (mem : Memory) :
    (v : Variant) → Hereditary StreamedHere v → emittedBytes mem v = objectsBytes mem true v
  | .variantArray bounds cells, h => by
    rw [emittedBytes, objectsBytes, emittedCellsBytes_of_streamed mem cells h.2]
  | .otherArray _ _ _ _, h => absurd h.self.1 id
  | .dispatch _, _ | .unknown _, _ | .empty, _ | .null, _ | .scalar _ _, _ | .decimal _, _
  | .bstr _, _ | .blockArray _ _ _, _ | .bstrArray _ _, _ | .nullArray _, _ | .byrefArray _, _
  | .raw _ _, _ => rfl

/-- INTERNAL: the same for the cells of an array. -/
theorem emittedCellsBytes_of_streamed (mem : Memory) :
    (cells : List Variant) → HereditaryCells StreamedHere cells →
      emittedCellsBytes mem cells = objectCellsBytes mem true cells
  | [], _ => rfl
  | v :: cells, h => by
    rw [emittedCellsBytes, objectCellsBytes, emittedBytes_of_streamed mem v h.1,
      emittedCellsBytes_of_streamed mem cells h.2]

end

/-- What `SerializeKey` emits of a key and a value. -/
def emittedRecord (mem : Memory) (key : Bstr) (v : Variant) : Bytes :=
  stringBytes key ++ (leBytes 2 v.vt.toNat ++ emittedBytes mem v)

/-! ## The claim -/

/-- The element can be serialized: in the form it is saved in, it has no array of an unsupported
type and no object that is not a stream. -/
def Serializable (element : ElementModel) : Prop := Hereditary StreamedHere (storedAs element)

/-- The keys a save writes are ASCII texts, and what they hold is a null object or a value that can
be serialized or not; the carry loop gets through its arrays. -/
def Presentable (a : CApplication loc) : Prop :=
  ∀ key ∈ writtenKeys a, GoodKey key ∧ ∀ element, a.find key = some element →
    nullObject element.val = false →
      Hereditary EmittedHere (storedAs element) ∧ Readable (storedAs element)

/-- Every value under the Redis key of a member decodes to a key of that name. -/
def AllDecode (loc : Collation) (appkey : Bytes) (s : Keyspace) : Prop :=
  ∀ name ∈ s.smembers appkey, ∀ bytes, s.get name = some bytes →
    ∃ key val, nameIn appkey key = name ∧ IsRecord loc bytes key val

/-- Value and membership are what they were. -/
def SameUnder (appkey : Bytes) (s s' : Keyspace) (name : Bytes) : Prop :=
  s'.get name = s.get name ∧ (name ∈ s'.smembers appkey ↔ name ∈ s.smembers appkey)

/-- **The property**: what a save leaves where some of the keys cannot be serialized. -/
structure SavedApart (appkey : Bytes) (s s' : Keyspace) (a : CApplication loc) : Prop where
  /-- All values still decode. -/
  decodes : AllDecode loc appkey s → AllDecode loc appkey s'
  /-- A key that cannot be serialized keeps its value and its membership. -/
  kept : ∀ key ∈ writtenKeys a, ∀ element, a.find key = some element → ¬ Serializable element →
    SameUnder appkey s s' (nameIn appkey key)
  /-- Any other new or changed key has its value. -/
  stored : ∀ key ∈ writtenKeys a, ∀ element, a.find key = some element → Serializable element →
    ∃ bytes, s'.get (nameIn appkey key) = some bytes ∧ IsRecord loc bytes key (storedAs element)
  /-- It is a member when it is new. -/
  added : ∀ key ∈ writtenKeys a, ∀ element, a.find key = some element → Serializable element →
    element.isNew = true → nameIn appkey key ∈ s'.smembers appkey
  /-- It stays what it was when it is not. -/
  changed : ∀ key ∈ writtenKeys a, ∀ element, a.find key = some element → Serializable element →
    element.isNew = false →
      (nameIn appkey key ∈ s'.smembers appkey ↔ nameIn appkey key ∈ s.smembers appkey)
  /-- A removed key that is not written is gone. -/
  removed : ∀ name ∈ removedNames appkey a, (¬ ∃ key ∈ writtenKeys a, nameIn appkey key = name) →
    s'.get name = none ∧ name ∉ s'.smembers appkey
  /-- All else is left alone. -/
  others : ∀ name, name ≠ appkey → name ∉ removedNames appkey a →
    (¬ ∃ key ∈ writtenKeys a, nameIn appkey key = name) → SameUnder appkey s s' name

/-- **The condition** on the application and what Redis holds before the save. -/
structure SaveIsHarmless (mem : Memory) (appkey : Bytes) (s : Keyspace) (a : CApplication loc) :
    Prop where
  /-- No key that is written holds a null object. -/
  notNull : ∀ key ∈ writtenKeys a, holdsNull a key = false
  /-- Redis holds already what is emitted of a key that cannot be serialized. -/
  emitted : ∀ key ∈ writtenKeys a, ∀ element, a.find key = some element →
    ¬ Serializable element →
      s.get (nameIn appkey key) = some (emittedRecord mem key (storedAs element))
  /-- A new key is noted as removed only where it should not become a member. -/
  new : ∀ key ∈ writtenKeys a, ∀ element, a.find key = some element → element.isNew = true →
    (nameIn appkey key ∈ removedNames appkey a ↔
      ¬ Serializable element ∧ nameIn appkey key ∉ s.smembers appkey)
  /-- A changed key that is a member is not noted as removed. -/
  changed : ∀ key ∈ writtenKeys a, ∀ element, a.find key = some element →
    element.isNew = false → nameIn appkey key ∈ removedNames appkey a →
      nameIn appkey key ∉ s.smembers appkey

/-! ## The records of a save -/

/-- The record that is emitted of a key. -/
def emittedOf (mem : Memory) (a : CApplication loc) (key : Bstr) : Bytes :=
  match a.find key with
  | some element => emittedRecord mem key (storedAs element)
  | none => []

/-- INTERNAL: a written key has an element. -/
theorem find_of_mem_writtenKeys {a : CApplication loc} {key : Bstr} (hkey : key ∈ writtenKeys a) :
    ∃ element, a.find key = some element := by
  rcases List.mem_append.mp hkey with h | h
  · obtain ⟨-, element, hfind, -⟩ := find_of_mem_keysWhere h
    exact ⟨element, hfind⟩
  · obtain ⟨-, element, hfind, -⟩ := find_of_mem_keysWhere h
    exact ⟨element, hfind⟩

/-- INTERNAL: `SerializeKey` emits the record of a written key, or faults. -/
theorem Presentable.serializesKey (mem : Memory) {a : CApplication loc} (h : Presentable a)
    {key : Bstr} (hkey : key ∈ writtenKeys a) :
    SerializesKey mem a (holdsNull a) (emittedOf mem a) key := by
  obtain ⟨hgood, hvalue⟩ := h key hkey
  obtain ⟨element, hfind⟩ := find_of_mem_writtenKeys hkey
  refine ⟨hgood, element, hfind, ?_⟩
  rw [holdsNull, emittedOf, hfind]
  refine serializesTo_of_writes loc hgood fun hnull c hc => ?_
  obtain ⟨hemitted, hreadable⟩ := hvalue element hfind hnull
  exact (writesAs_emittedBytes mem _ hemitted c hc).1 hreadable.writable

/-- **The record of a key that can be serialized decodes to the key and its value.** -/
theorem isRecord_emittedRecord (loc : Collation) (mem : Memory) {key : Bstr} (hkey : GoodKey key)
    {v : Variant} (hv : Hereditary StreamedHere v) (hreadable : Readable v) :
    IsRecord loc (emittedRecord mem key v) key v := by
  refine isRecord_of_reads hkey fun mem' fuel c hfuel hrest => ?_
  rw [emittedBytes_of_streamed mem v hv] at hfuel hrest
  rw [← List.append_nil (objectsBytes mem true v)] at hrest
  obtain ⟨b, hread⟩ :=
    (readsBackAs_objectsBytes loc false mem mem' v hv fuel c [] hfuel hrest).1 hreadable
  exact ⟨_, _, hread⟩

section Saved

variable (mem : Memory) {appkey : Bytes} {s : Keyspace} {a : CApplication loc}

/-- INTERNAL: written keys with one Redis key are one key. -/
theorem Presentable.eq_of_nameIn (hfolds : FoldsAscii loc) (h : Presentable a) {key key' : Bstr}
    (hkey : key ∈ writtenKeys a) (hkey' : key' ∈ writtenKeys a)
    (hname : nameIn appkey key' = nameIn appkey key) : key' = key := by
  have hkeylike : ∀ k ∈ writtenKeys a, Keylike k := fun k hk =>
    ⟨(h k hk).1.nonzero, (h k hk).1.ascii⟩
  have hsame := (nameIn_eq_iff hfolds appkey (hkeylike key' hkey') (hkeylike key hkey)).mp hname
  have hsymm : Std.Symm fun k k' => loc.compare k' k ≠ .eq :=
    ⟨fun k k' hk hk' => hk (Std.OrientedCmp.eq_symm hk')⟩
  by_contra hne
  exact (pairwise_writtenKeys a).forall hkey hkey' (Ne.symm hne) hsame

/-- INTERNAL: the value and the membership of a written key after the save. -/
theorem Presentable.written (hfolds : FoldsAscii loc) (h : Presentable a)
    (hset : KeySet s appkey (s.smembers appkey)) {key : Bstr} (hkey : key ∈ writtenKeys a)
    {element : ElementModel} (hfind : a.find key = some element) :
    (savedWith appkey s a (emittedOf mem a)).get (nameIn appkey key) =
        some (emittedRecord mem key (storedAs element)) ∧
      (nameIn appkey key ∈ (savedWith appkey s a (emittedOf mem a)).smembers appkey ↔
        (nameIn appkey key ∈ s.smembers appkey ∨ element.isNew = true) ∧
          nameIn appkey key ∉ removedNames appkey a) := by
  obtain ⟨hkeys, hmembers, hvalues⟩ := savedWith_spec (emittedOf mem a) appkey hset a
  constructor
  · obtain ⟨key', hkey', hname, hget⟩ := (hvalues _ (nameIn_ne appkey key)).1 ⟨key, hkey, rfl⟩
    obtain rfl := h.eq_of_nameIn hfolds hkey hkey' hname
    rw [hget, emittedOf, hfind]
  · rw [hkeys.smembers, hmembers]
    have hnew : nameIn appkey key ∈ (keysWhere a fun e => e.isNew).map (nameIn appkey) ↔
        element.isNew = true := by
      rw [List.mem_map]
      constructor
      · rintro ⟨key', hkey', hname⟩
        obtain rfl := h.eq_of_nameIn hfolds hkey (List.mem_append_left _ hkey') hname
        obtain ⟨-, element', hfind', hisNew⟩ := find_of_mem_keysWhere hkey'
        rw [hfind] at hfind'
        cases hfind'
        exact hisNew
      · intro hisNew
        refine ⟨key, ?_, rfl⟩
        rcases List.mem_append.mp hkey with hmem | hmem
        · exact hmem
        · obtain ⟨-, element', hfind', hold⟩ := find_of_mem_keysWhere hmem
          rw [hfind] at hfind'
          cases hfind'
          rw [hisNew] at hold
          cases hold
    rw [hnew]

/-- INTERNAL: the other Redis keys after the save. -/
theorem Presentable.notWritten (hset : KeySet s appkey (s.smembers appkey)) {name : Bytes}
    (hne : name ≠ appkey) (hname : ¬ ∃ key ∈ writtenKeys a, nameIn appkey key = name) :
    (savedWith appkey s a (emittedOf mem a)).get name =
        (if name ∈ removedNames appkey a then none else s.get name) ∧
      (name ∈ (savedWith appkey s a (emittedOf mem a)).smembers appkey ↔
        name ∈ s.smembers appkey ∧ name ∉ removedNames appkey a) := by
  obtain ⟨hkeys, hmembers, hvalues⟩ := savedWith_spec (emittedOf mem a) appkey hset a
  refine ⟨(hvalues name hne).2 hname, ?_⟩
  have hnew : name ∉ (keysWhere a fun e => e.isNew).map (nameIn appkey) := by
    intro hmem
    obtain ⟨key, hkey, heq⟩ := List.mem_map.mp hmem
    exact hname ⟨key, List.mem_append_left _ hkey, heq⟩
  rw [hkeys.smembers, hmembers, or_iff_left hnew]

end Saved

/-! ## The result -/

section Result

variable {mem : Memory} {appkey : Bytes} {s : Keyspace} {a : CApplication loc}

/-- INTERNAL: under the condition the save harms nothing. -/
theorem SaveIsHarmless.savedApart (hfolds : FoldsAscii loc) (h : Presentable a)
    (hset : KeySet s appkey (s.smembers appkey)) (hc : SaveIsHarmless mem appkey s a) :
    SavedApart appkey s (savedWith appkey s a (emittedOf mem a)) a := by
  have hvalue : ∀ key ∈ writtenKeys a, ∀ element, a.find key = some element →
      GoodKey key ∧ Readable (storedAs element) := by
    intro key hkey element hfind
    have hnull := hc.notNull key hkey
    rw [holdsNull, hfind] at hnull
    exact ⟨(h key hkey).1, ((h key hkey).2 element hfind hnull).2⟩
  have hkept : ∀ key ∈ writtenKeys a, ∀ element, a.find key = some element →
      ¬ Serializable element →
        SameUnder appkey s (savedWith appkey s a (emittedOf mem a)) (nameIn appkey key) := by
    intro key hkey element hfind hbad
    obtain ⟨hget, hmember⟩ := h.written mem hfolds hset hkey hfind
    refine ⟨hget.trans (hc.emitted key hkey element hfind hbad).symm, hmember.trans ?_⟩
    cases hisNew : element.isNew with
    | true =>
      have hnew := hc.new key hkey element hfind hisNew
      simp only [or_true, true_and, hnew, hbad, not_false_eq_true, not_not]
    | false =>
      have hchanged := hc.changed key hkey element hfind hisNew
      simp only [Bool.false_eq_true, or_false, and_iff_left_iff_imp]
      exact fun hmem hremoved => hchanged hremoved hmem
  have hstored : ∀ key ∈ writtenKeys a, ∀ element, a.find key = some element →
      Serializable element → ∃ bytes,
        (savedWith appkey s a (emittedOf mem a)).get (nameIn appkey key) = some bytes ∧
          IsRecord loc bytes key (storedAs element) := by
    intro key hkey element hfind hgood
    obtain ⟨hkeyGood, hreadable⟩ := hvalue key hkey element hfind
    exact ⟨_, (h.written mem hfolds hset hkey hfind).1,
      isRecord_emittedRecord loc mem hkeyGood hgood hreadable⟩
  refine ⟨fun hdecodes name hmem bytes hget => ?_, hkept, hstored, ?_, ?_, ?_, ?_⟩
  · have hne : name ≠ appkey := by
      rintro rfl
      rw [(savedWith_spec (emittedOf mem a) name hset a).1.get] at hget
      cases hget
    by_cases hwritten : ∃ key ∈ writtenKeys a, nameIn appkey key = name
    · obtain ⟨key, hkey, rfl⟩ := hwritten
      obtain ⟨element, hfind⟩ := find_of_mem_writtenKeys hkey
      by_cases hgood : Serializable element
      · obtain ⟨bytes', hget', hrecord⟩ := hstored key hkey element hfind hgood
        rw [hget] at hget'
        cases hget'
        exact ⟨key, _, rfl, hrecord⟩
      · obtain ⟨hsame, hmember⟩ := hkept key hkey element hfind hgood
        exact hdecodes _ (hmember.mp hmem) bytes (hsame ▸ hget)
    · obtain ⟨hsame, hmember⟩ := Presentable.notWritten mem hset hne hwritten
      obtain ⟨hold, hnot⟩ := hmember.mp hmem
      rw [if_neg hnot] at hsame
      exact hdecodes name hold bytes (hsame ▸ hget)
  · intro key hkey element hfind hgood hisNew
    refine (h.written mem hfolds hset hkey hfind).2.mpr ⟨.inr hisNew, fun hremoved => ?_⟩
    exact ((hc.new key hkey element hfind hisNew).mp hremoved).1 hgood
  · intro key hkey element hfind hgood hisNew
    rw [(h.written mem hfolds hset hkey hfind).2, hisNew]
    simp only [Bool.false_eq_true, or_false, and_iff_left_iff_imp]
    exact fun hmem hremoved => hc.changed key hkey element hfind hisNew hremoved hmem
  · intro name hremoved hwritten
    have hne : name ≠ appkey := fun heq =>
      (not_mem_names appkey a (emittedOf mem a)).1 (heq ▸ hremoved)
    obtain ⟨hsame, hmember⟩ := Presentable.notWritten mem hset hne hwritten
    rw [if_pos hremoved] at hsame
    exact ⟨hsame, fun hmem => (hmember.mp hmem).2 hremoved⟩
  · intro name hne hremoved hwritten
    obtain ⟨hsame, hmember⟩ := Presentable.notWritten mem hset hne hwritten
    rw [if_neg hremoved] at hsame
    exact ⟨hsame, hmember.trans ⟨And.left, fun hmem => ⟨hmem, hremoved⟩⟩⟩

/-- INTERNAL: a save that harms nothing meets the condition. -/
theorem SavedApart.saveIsHarmless (hfolds : FoldsAscii loc) (h : Presentable a)
    (hset : KeySet s appkey (s.smembers appkey))
    (hnull : ∀ key ∈ writtenKeys a, holdsNull a key = false)
    (hu : SavedApart appkey s (savedWith appkey s a (emittedOf mem a)) a) :
    SaveIsHarmless mem appkey s a := by
  refine ⟨hnull, fun key hkey element hfind hbad => ?_, fun key hkey element hfind hisNew => ?_,
    fun key hkey element hfind hisNew hremoved hmem => ?_⟩
  · have hget := (h.written mem hfolds hset hkey hfind).1
    exact (hu.kept key hkey element hfind hbad).1.symm.trans hget
  · have hmember := (h.written mem hfolds hset hkey hfind).2
    simp only [hisNew, or_true, true_and] at hmember
    by_cases hgood : Serializable element
    · have hadded := hu.added key hkey element hfind hgood hisNew
      exact iff_of_false (hmember.mp hadded) fun hn => hn.1 hgood
    · have hsame := (hu.kept key hkey element hfind hgood).2
      rw [hmember] at hsame
      simp only [hgood, not_false_eq_true, true_and, ← hsame, not_not]
  · have hmember := (h.written mem hfolds hset hkey hfind).2
    have hsame : nameIn appkey key ∈ (savedWith appkey s a (emittedOf mem a)).smembers appkey ↔
        nameIn appkey key ∈ s.smembers appkey := by
      by_cases hgood : Serializable element
      · exact hu.changed key hkey element hfind hgood hisNew
      · exact (hu.kept key hkey element hfind hgood).2
    exact (hmember.mp (hsame.mpr hmem)).2 hremoved

/-- **A save in which some keys cannot be serialized leaves these alone and saves all others
exactly when Redis holds already what is emitted of them**, no written key holds a null object, and
none that is to be a member is noted as removed. -/
theorem savedApart_iff (hfolds : FoldsAscii loc) (cp : CodePage) (mem : Memory) (appkey : Bytes)
    {s : Keyspace} (hset : KeySet s appkey (s.smembers appkey)) {a : CApplication loc}
    (h : Presentable a) :
    (∃ s' a', CApplicationDL.applicationSave cp mem appkey s a = .ok (s', a') ∧
      SavedApart appkey s s' a) ↔ SaveIsHarmless mem appkey s a := by
  obtain ⟨hsaves, hfaults⟩ :=
    applicationSave_writes cp mem appkey s fun key hkey => h.serializesKey mem hkey
  constructor
  · rintro ⟨s', a', hsave, hu⟩
    have hnull : ∀ key ∈ writtenKeys a, holdsNull a key = false := by
      intro key hkey
      by_contra hne
      rw [hfaults ⟨key, hkey, by simpa using hne⟩] at hsave
      cases hsave
    obtain ⟨a'', hok⟩ := hsaves hnull
    rw [hsave] at hok
    cases hok
    exact hu.saveIsHarmless hfolds h hset hnull
  · intro hc
    obtain ⟨a', hok⟩ := hsaves hc.notNull
    exact ⟨_, a', hok, hc.savedApart hfolds h hset⟩

end Result

/-- An application with a new number and a new array of `VT_UI2`, for which the writer has no
branch. -/
def mixedApplication : CApplication ignoringCase :=
  let a : CApplication ignoringCase :=
    CApplication.new.insert [65] { ElementModel.blank with val := .scalar .i4 7, isNew := true }
  a.insert [66] { ElementModel.blank with
    val := .otherArray ScalarType.ui2.vt 2 [{ cElements := 1, lLbound := 0 }] [7, 0]
    isNew := true }

/-- INTERNAL: its keys. -/
theorem presentable_mixedApplication : Presentable mixedApplication := by
  have hgood : ∀ u : UInt16, u = 65 ∨ u = 66 → GoodKey [u] := by
    rintro u (rfl | rfl)
    · exact ⟨by decide, by simp, by decide, by unfold StringFits; decide⟩
    · exact ⟨by decide, by simp, by decide, by unfold StringFits; decide⟩
  have hkeys : writtenKeys mixedApplication = [[65], [66]] := by decide
  intro key hkey
  rw [hkeys] at hkey
  rcases List.mem_pair.mp hkey with rfl | rfl
  · refine ⟨hgood 65 (.inl rfl), fun element hfind _ => ?_⟩
    obtain rfl := Option.some.inj hfind
    exact ⟨⟨trivial, trivial⟩, trivial⟩
  · refine ⟨hgood 66 (.inr rfl), fun element hfind _ => ?_⟩
    obtain rfl := Option.some.inj hfind
    have hvt : ScalarType.ui2.vt ≠ vtDecimal := by decide
    exact ⟨hvt, trivial⟩

/-- INTERNAL: an empty database has no keys. -/
theorem keySet_emptyDatabase (appkey : Bytes) :
    KeySet emptyDatabase appkey (emptyDatabase.smembers appkey) := ⟨List.nodup_nil, rfl⟩

/-- The result at this application and a database without keys. -/
theorem mixedApplication_savedApart_iff :
    (∃ s' a', CApplicationDL.applicationSave .latin1 .zero [1] emptyDatabase mixedApplication =
        .ok (s', a') ∧ SavedApart [1] emptyDatabase s' mixedApplication) ↔
      SaveIsHarmless .zero [1] emptyDatabase mixedApplication :=
  savedApart_iff foldsAscii_ignoringCase .latin1 .zero [1] (keySet_emptyDatabase [1])
    presentable_mixedApplication

/-- The array is stored as a record without cells. -/
theorem mixedApplication_not_savedApart :
    ¬ ∀ (cp : CodePage) (mem : Memory) (appkey : Bytes) (s : Keyspace)
      (a : CApplication ignoringCase), KeySet s appkey (s.smembers appkey) → Presentable a →
        ∃ s' a', CApplicationDL.applicationSave cp mem appkey s a = .ok (s', a') ∧
          SavedApart appkey s s' a := by
  intro h
  obtain ⟨s', a', hsave, hu⟩ := h .latin1 .zero [1] emptyDatabase mixedApplication
    (keySet_emptyDatabase [1]) presentable_mixedApplication
  have hstored : ((CApplicationDL.applicationSave .latin1 .zero [1] emptyDatabase
      mixedApplication).toOption.map fun r => (r.1.get (nameIn [1] [66])).isSome) = some true := by
    decide
  rw [hsave] at hstored
  have hbad : ¬ Serializable { ElementModel.blank with
      val := .otherArray ScalarType.ui2.vt 2 [{ cElements := 1, lLbound := 0 }] [7, 0]
      isNew := true } := fun hs => hs.1
  have hkept := (hu.kept [66] (by decide) _ rfl hbad).1
  rw [show emptyDatabase.get (nameIn [1] [66]) = none from rfl] at hkept
  rw [Except.toOption, Option.map_some, hkept] at hstored
  cases hstored

end IspSession.Analysis
