import IspSession.Analysis.ApplicationRecords
import IspSession.Analysis.RedisCommands
import IspSession.Model.DotNet

/-!
# What `ApplicationSave` leaves in Redis

`applicationSave_spec`: the new and the changed keys are written with the records of their
elements, or the save faults on a null object. `mem_smembers_saved` and `get_saved` say
which keys are members afterwards and what their values are.
-/

set_option autoImplicit false

namespace IspSession.Analysis

open IspSession.Library IspSession.Model

variable {loc : Collation}

/-! ## Keys -/

/-- The text has ASCII characters other than zero. -/
structure Keylike (key : Bstr) : Prop where
  nonzero : ∀ u ∈ key, u ≠ 0
  ascii : AsciiUtf16 key

instance (key : Bstr) : Decidable (Keylike key) :=
  haveI : Decidable (∀ u ∈ key, u ≠ 0) := List.decidableBAll _ _
  decidable_of_iff ((∀ u ∈ key, u ≠ 0) ∧ AsciiUtf16 key)
    ⟨fun h => ⟨h.1, h.2⟩, fun h => ⟨h.nonzero, h.ascii⟩⟩

/-- The locale's comparison tells ASCII texts apart by everything but their case. -/
def FoldsAscii (loc : Collation) : Prop :=
  ∀ a b, Keylike a → Keylike b → (loc.compare a b = .eq ↔ a.map upperAscii = b.map upperAscii)

/-- A locale that compares texts without the case of their ASCII letters. -/
def ignoringCase : Collation where
  compare a b := List.compareLex Ord.compare (a.map upperAscii) (b.map upperAscii)
  sameText a b := a == b
  equalText a b := a == b
  compare_trans :=
    { eq_swap := Std.OrientedCmp.eq_swap
      isLE_trans := Std.TransCmp.isLE_trans }
  sameText_refl := Bstr.beq_refl
  equalText_refl := Bstr.beq_refl
  sameText_empty_jagged := Bstr.nil_beq_jagged

/-- It tells ASCII texts apart by everything but their case. -/
theorem foldsAscii_ignoringCase : FoldsAscii ignoringCase := by
  intro a b _ _
  change List.compareLex Ord.compare (a.map upperAscii) (b.map upperAscii) = .eq ↔ _
  exact Std.LawfulEqCmp.compare_eq_iff_eq

/-- A database without keys. -/
def emptyDatabase : Keyspace := fun _ => none

/-- The Redis key of a key of the application. -/
def nameIn (appkey : Bytes) (key : Bstr) : Bytes := redisKey appkey (utf16ToUtf8 key)

/-- INTERNAL: a Redis key is longer than the key of the set. -/
theorem redisKey_ne (appkey key : Bytes) : redisKey appkey key ≠ appkey := by
  intro h
  have hlen := congrArg List.length h
  simp only [redisKey, appkeyPrefix, List.length_append, List.length_cons,
    List.length_nil] at hlen
  omega

/-- INTERNAL: the same for the Redis key of a text. -/
theorem nameIn_ne (appkey : Bytes) (key : Bstr) : nameIn appkey key ≠ appkey :=
  redisKey_ne appkey _

/-- **Two ASCII keys have one Redis key exactly when the locale does not tell them apart.** -/
theorem nameIn_eq_iff (hfolds : FoldsAscii loc) (appkey : Bytes) {a b : Bstr} (ha : Keylike a)
    (hb : Keylike b) : nameIn appkey a = nameIn appkey b ↔ loc.compare a b = .eq := by
  have hname : ∀ {k : Bstr}, Keylike k → nameIn appkey k =
      appkeyPrefix appkey ++ (k.map upperAscii).map UInt16.toUInt8 := by
    intro k hk
    rw [nameIn, redisKey, utf16ToUtf8_ascii hk.ascii, strToUpper, List.map_map, List.map_map]
    congr 1
    exact List.map_congr_left fun u hu => (toUInt8_upperAscii u (hk.ascii u hu)).1.symm
  have hbyte : ∀ {k : Bstr}, Keylike k → ∀ u ∈ k.map upperAscii, u < 128 := by
    intro k hk u hu
    obtain ⟨v, hv, rfl⟩ := List.mem_map.mp hu
    exact (toUInt8_upperAscii v (hk.ascii v hv)).2
  rw [hfolds a b ha hb, hname ha, hname hb, List.append_cancel_left_eq]
  constructor
  · intro h
    -- the bytes of ASCII characters are the characters
    have hback : ∀ {k : Bstr}, Keylike k → ((k.map upperAscii).map UInt16.toUInt8).map
        UInt8.toUInt16 = k.map upperAscii := by
      intro k hk
      rw [List.map_map]
      conv_rhs => rw [← List.map_id (k.map upperAscii)]
      refine List.map_congr_left fun u hu => ?_
      have hlt := hbyte hk u hu
      apply UInt16.toNat_inj.mp
      have hn : u.toNat < 128 := hlt
      simp only [Function.comp_apply, UInt8.toNat_toUInt16, UInt16.toNat_toUInt8, id_eq]
      omega
    rw [← hback ha, ← hback hb, h]
  · intro h
    rw [h]

/-! ## Writing the records -/

/-- The record that `SerializeKey` writes of a key. -/
def recordOf (mem : Memory) (a : CApplication loc) (key : Bstr) : Bytes :=
  match a.find key with
  | some element => recordBytes mem key (storedAs element)
  | none => []

/-- The key holds a null object. -/
def holdsNull (a : CApplication loc) (key : Bstr) : Bool :=
  ((a.find key).map fun element => nullObject element.val).getD false

/-- INTERNAL: the text of an ASCII key comes back from its bytes. -/
theorem toWide_utf16ToUtf8 (cp : CodePage) {key : Bstr} (h : AsciiUtf16 key) :
    cp.toWide (utf16ToUtf8 key) = key := by
  have hlt : ∀ u ∈ key, u.toUInt8.toUInt16 = u ∧ u.toUInt8 < 128 := by
    intro u hu
    have hn : u.toNat < 128 := h u hu
    constructor
    · apply UInt16.toNat_inj.mp
      rw [UInt8.toNat_toUInt16, UInt16.toNat_toUInt8]
      omega
    · apply UInt8.lt_iff_toNat_lt.mpr
      rw [UInt16.toNat_toUInt8]
      change u.toNat % 256 < 128
      omega
  rw [utf16ToUtf8_ascii h, cp.toWide_ascii]
  · rw [List.map_map]
    conv_rhs => rw [← List.map_id key]
    exact List.map_congr_left fun u hu => (hlt u hu).1
  · intro b hb
    obtain ⟨u, hu, rfl⟩ := List.mem_map.mp hb
    exact (hlt u hu).2

/-- What `SerializeKey` makes of a key of the application: a record, or a fault. -/
def SerializesKey (mem : Memory) (a : CApplication loc) (faults : Bstr → Bool)
    (record : Bstr → Bytes) (key : Bstr) : Prop :=
  GoodKey key ∧ ∃ element, a.find key = some element ∧
    SerializesTo loc mem key element (faults key) (record key)

/-- **`SerializeKeys`** gives the records of keys that the locale tells apart, or faults when one of
them does: the induction is on the keys, and what has been written of one leaves the elements of the
others alone. -/
theorem serializeKeys_spec (cp : CodePage) (mem : Memory) (appkey : Bytes) (faults : Bstr → Bool)
    (record : Bstr → Bytes) (keys : List Bstr) {a : CApplication loc}
    (hkeys : ∀ key ∈ keys, SerializesKey mem a faults record key)
    (hapart : keys.Pairwise fun k k' => loc.compare k' k ≠ .eq) (stream : CStream) :
    ((∀ key ∈ keys, faults key = false) → ∃ a',
      a.serializeKeys cp mem (appkeyPrefix appkey) (keys.map utf16ToUtf8) stream =
        .ok (keys.map fun key => (nameIn appkey key, record key), a') ∧
      ∀ key', (∀ key ∈ keys, loc.compare key' key ≠ .eq) → a'.find key' = a.find key') ∧
    ((∃ key ∈ keys, faults key = true) →
      a.serializeKeys cp mem (appkeyPrefix appkey) (keys.map utf16ToUtf8) stream =
        .error .fault) := by
  induction keys generalizing a stream with
  | nil => exact ⟨fun _ => ⟨a, rfl, fun _ _ => rfl⟩, fun ⟨_, hmem, _⟩ => by cases hmem⟩
  | cons key keys ih =>
    obtain ⟨hgood, element, hfind, hserializes⟩ := hkeys key (by simp)
    have hsound : ((stream.setSize 128).seekSet 0).Sound := Nat.zero_le _
    have hspec := hserializes a hfind _ hsound
    rw [List.map_cons, CApplication.serializeKeys, toWide_utf16ToUtf8 cp hgood.ascii]
    rw [List.pairwise_cons] at hapart
    cases hcase : faults key with
    | true =>
      have hfault := hspec.2 hcase
      refine ⟨fun hall => ?_, fun _ => by rw [hfault]; rfl⟩
      have hkey := hall key (by simp)
      rw [hcase] at hkey
      cases hkey
    | false =>
      obtain ⟨hr, b, hok⟩ := hspec.1 hcase
      have hcut := CStream.setSize_write (s := (stream.setSize 128).seekSet 0) rfl (record key)
      rw [hok]
      simp only [Run.ok_bind, hcut]
      -- the other keys are as they were
      have hframe : ∀ key', loc.compare key' key ≠ .eq → ((a.update key fun e =>
          { e with val := CApplication.toWrite element }).withBuffer b).find key' =
            a.find key' := by
        intro key' hne
        rw [CApplication.find_withBuffer, CApplication.find_update, if_neg hne]
      have hrest := ih (a := (a.update key fun e =>
          { e with val := CApplication.toWrite element }).withBuffer b)
        (fun k hk => ⟨(hkeys k (by simp [hk])).1, by
          rw [hframe k (hapart.1 k hk)]
          exact (hkeys k (by simp [hk])).2⟩) hapart.2
        ((⟨record key, 0⟩ : CStream).advance (⟨record key, 0⟩ : CStream).rest.length)
      constructor
      · intro hall
        obtain ⟨a', ha', hfar⟩ := hrest.1 fun k hk => hall k (by simp [hk])
        refine ⟨a', ?_, fun key' hne => ?_⟩
        · rw [ha']
          rfl
        · rw [hfar key' fun k hk => hne k (by simp [hk]), hframe key' (hne key (by simp))]
      · rintro ⟨k, hk, hfault⟩
        rcases List.mem_cons.mp hk with rfl | hk
        · rw [hcase] at hfault
          cases hfault
        · rw [hrest.2 ⟨k, hk, hfault⟩]
          rfl

/-- **The records are written under the Redis keys of the keys**, whatever these are. -/
theorem serializeKeys_names {cp : CodePage} {mem : Memory} {appkey : Bytes} {keys : List Bytes}
    {stream : CStream} {a a' : CApplication loc} {pairs : List (Bytes × Bytes)}
    (h : a.serializeKeys cp mem (appkeyPrefix appkey) keys stream = .ok (pairs, a')) :
    pairs.map Prod.fst = keys.map (redisKey appkey) := by
  induction keys generalizing stream a pairs a' with
  | nil =>
    cases h
    rfl
  | cons key keys ih =>
    rw [CApplication.serializeKeys] at h
    obtain ⟨⟨hr, stream', a₁⟩, -, h⟩ := Run.bind_eq_ok h
    obtain ⟨⟨pairs', a₂⟩, hrest, h⟩ := Run.bind_eq_ok h
    cases h
    rw [List.map_cons, List.map_cons, ih hrest]
    rfl

/-! ## The lists of `get_KeyStates` -/

/-- The keys, other than the empty one, whose elements have the property. -/
def keysWhere (a : CApplication loc) (p : ElementModel → Bool) : List Bstr :=
  (a.dictionary.entries.filter fun e => decide (e.1 ≠ []) && p e.2).map Prod.fst

/-- The keys a save writes: the new ones, and the old ones that are dirty. -/
def writtenKeys (a : CApplication loc) : List Bstr :=
  keysWhere a (fun e => e.isNew) ++ keysWhere a fun e => !e.isNew && e.isDirty

/-- INTERNAL: a key with the property. -/
theorem mem_keysWhere {a : CApplication loc} {p : ElementModel → Bool} {key : Bstr} :
    key ∈ keysWhere a p ↔
      key ≠ [] ∧ ∃ element, (key, element) ∈ a.dictionary.entries ∧ p element = true := by
  simp only [keysWhere, List.mem_map, List.mem_filter, Bool.and_eq_true, decide_eq_true_eq]
  constructor
  · rintro ⟨⟨k, element⟩, ⟨hmem, hne, hp⟩, rfl⟩
    exact ⟨hne, element, hmem, hp⟩
  · rintro ⟨hne, element, hmem, hp⟩
    exact ⟨(key, element), ⟨hmem, hne, hp⟩, rfl⟩

/-- INTERNAL: a key with the property, looked up. -/
theorem find_of_mem_keysWhere {a : CApplication loc} {p : ElementModel → Bool} {key : Bstr}
    (h : key ∈ keysWhere a p) :
    key ≠ [] ∧ ∃ element, a.find key = some element ∧ p element = true := by
  obtain ⟨hne, element, hmem, hp⟩ := mem_keysWhere.mp h
  exact ⟨hne, element, OrderedMap.find_of_mem hmem, hp⟩

/-- INTERNAL: the lists as texts. -/
theorem keyStates_eq (a : CApplication loc) :
    a.keyStates.newKeys = (keysWhere a fun e => e.isNew).map utf16ToUtf8 ∧
    a.keyStates.changedKeys = (keysWhere a fun e => !e.isNew && e.isDirty).map utf16ToUtf8 ∧
    ∀ e ∈ a.keyStates.expireKeys, (0 : ℤ) < e.2 := by
  have hlist : ∀ p : ElementModel → Bool,
      ((((a.dictionary.entries.map fun e => (utf16ToUtf8 e.1, e.2)).filter
        fun e => decide (e.1 ≠ [])).filter fun e => p e.2).map Prod.fst) =
        (keysWhere a p).map utf16ToUtf8 := by
    intro p
    rw [keysWhere]
    induction a.dictionary.entries with
    | nil => rfl
    | cons e l ih =>
      by_cases hnil : e.1 = []
      · simp only [List.map_cons, hnil, utf16ToUtf8_eq_nil.mpr, ne_eq, not_true_eq_false,
          decide_false, Bool.false_eq_true, not_false_eq_true, List.filter_cons_of_neg,
          Bool.false_and]
        exact ih
      · have htext : utf16ToUtf8 e.1 ≠ [] := fun h => hnil (utf16ToUtf8_eq_nil.mp h)
        by_cases hp : p e.2 = true
        · simp only [List.map_cons, htext, hnil, hp, ne_eq, not_false_eq_true, decide_true,
            List.filter_cons_of_pos, Bool.and_self]
          rw [ih]
        · simp only [List.map_cons, htext, hnil, hp, ne_eq, not_false_eq_true, decide_true,
            List.filter_cons_of_pos, Bool.and_false, Bool.false_eq_true, List.filter_cons_of_neg]
          exact ih
  refine ⟨hlist fun e => e.isNew, hlist fun e => !e.isNew && e.isDirty, fun e he => ?_⟩
  obtain ⟨e', he', rfl⟩ := List.mem_map.mp he
  exact of_decide_eq_true (List.mem_filter.mp he').2

/-- INTERNAL: the locale tells the written keys apart. -/
theorem pairwise_writtenKeys (a : CApplication loc) :
    (writtenKeys a).Pairwise fun k k' => loc.compare k' k ≠ .eq := by
  have happart : ∀ p, (keysWhere a p).Pairwise fun k k' => loc.compare k' k ≠ .eq := by
    intro p
    rw [keysWhere, List.pairwise_map]
    refine (List.Pairwise.filter _ a.dictionary.sorted).imp fun {e e'} hlt heq => ?_
    have hgt := Std.OrientedCmp.eq_symm heq
    rw [hlt] at hgt
    cases hgt
  rw [writtenKeys, List.pairwise_append]
  refine ⟨happart _, happart _, fun k hk k' hk' heq => ?_⟩
  obtain ⟨-, element, hfind, hnew⟩ := find_of_mem_keysWhere hk
  obtain ⟨-, element', hfind', hold⟩ := find_of_mem_keysWhere hk'
  have hsame : a.find k' = a.find k := a.dictionary.find_congr heq
  rw [hfind, hfind'] at hsame
  cases hsame
  simp [hnew] at hold

/-! ## Saving -/

/-- The keys and values of an application that the codec can work with. -/
def Tidy (a : CApplication loc) : Prop :=
  ∀ e ∈ a.dictionary.entries, Keylike e.1 ∧ StringFits e.1 ∧ Holdable e.2.val

/-- INTERNAL: a key of such an application that is not empty. -/
theorem Tidy.goodKey {a : CApplication loc} (h : Tidy a) {e : Bstr × ElementModel}
    (he : e ∈ a.dictionary.entries) (hne : e.1 ≠ []) : GoodKey e.1 :=
  ⟨hne, (h e he).1.nonzero, (h e he).1.ascii, (h e he).2.1⟩

/-- INTERNAL: the keys with a property. -/
theorem Tidy.keysWhere {a : CApplication loc} (h : Tidy a) {p : ElementModel → Bool} {key : Bstr}
    (hmem : key ∈ keysWhere a p) :
    GoodKey key ∧ ∃ element, a.find key = some element ∧ Holdable element.val := by
  obtain ⟨hne, element, hentry, -⟩ := mem_keysWhere.mp hmem
  exact ⟨h.goodKey hentry hne, element, OrderedMap.find_of_mem hentry, (h _ hentry).2.2⟩

/-- The Redis keys of the removed keys. -/
def removedNames (appkey : Bytes) (a : CApplication loc) : List Bytes :=
  a.removed.map (redisKey appkey)

/-- The state after the commands of a save that writes these records. -/
def savedWith (appkey : Bytes) (s : Keyspace) (a : CApplication loc) (record : Bstr → Bytes) :
    Keyspace :=
  s.executeAll (saving appkey ((keysWhere a fun e => e.isNew).map (nameIn appkey))
    (removedNames appkey a) true
    ((writtenKeys a).map fun key => (nameIn appkey key, record key))
    (a.keyStates.expireKeys.map fun e => (redisKey appkey e.1, e.2)))

/-- The state after the commands of a save. -/
def savedState (mem : Memory) (appkey : Bytes) (s : Keyspace) (a : CApplication loc) : Keyspace :=
  s.executeAll (saving appkey ((keysWhere a fun e => e.isNew).map (nameIn appkey))
    (removedNames appkey a) true
    ((writtenKeys a).map fun key => (nameIn appkey key, recordOf mem a key))
    (a.keyStates.expireKeys.map fun e => (redisKey appkey e.1, e.2)))

/-- INTERNAL: the commands of a save are a saving. -/
theorem saveCommands_eq (appkey : Bytes) (states : KeyStates Bytes) {pairs : List (Bytes × Bytes)}
    (hpairs : pairs.map Prod.fst = (states.newKeys ++ states.changedKeys).map (redisKey appkey)) :
    CApplicationDL.saveCommands appkey states pairs =
      saving appkey (states.newKeys.map (redisKey appkey)) (states.removedKeys.map (redisKey appkey))
        true pairs (states.expireKeys.map fun e => (redisKey appkey e.1, e.2)) := by
  have hnil : pairs = [] ↔ states.changedKeys = [] ∧ states.newKeys = [] := by
    rw [← List.map_eq_nil_iff (f := Prod.fst), hpairs, List.map_eq_nil_iff, List.append_eq_nil_iff,
      and_comm]
  simp [CApplicationDL.saveCommands, saving, hnil, Function.comp_def]

/-- **`ApplicationSave`** sends the commands of a saving with the records of the written keys, or
faults when `SerializeKey` does at one of them. -/
theorem applicationSave_writes (cp : CodePage) (mem : Memory) (appkey : Bytes) (s : Keyspace)
    {a : CApplication loc} {faults : Bstr → Bool} {record : Bstr → Bytes}
    (h : ∀ key ∈ writtenKeys a, SerializesKey mem a faults record key) :
    ((∀ key ∈ writtenKeys a, faults key = false) → ∃ a',
      CApplicationDL.applicationSave cp mem appkey s a = .ok (savedWith appkey s a record, a')) ∧
    ((∃ key ∈ writtenKeys a, faults key = true) →
      CApplicationDL.applicationSave cp mem appkey s a = .error .fault) := by
  obtain ⟨hnew, hchanged, -⟩ := keyStates_eq a
  have happart := pairwise_writtenKeys a
  rw [writtenKeys, List.pairwise_append] at happart
  obtain ⟨hp₁, hp₂, hcross⟩ := happart
  have hfirst := serializeKeys_spec cp mem appkey faults record _
    (fun k hk => h k (List.mem_append_left _ hk)) hp₁ CStream.new
  unfold CApplicationDL.applicationSave
  dsimp only
  rw [hnew, hchanged]
  by_cases hfault₁ : ∃ key ∈ keysWhere a (fun e => e.isNew), faults key = true
  · rw [hfirst.2 hfault₁]
    refine ⟨fun hall => ?_, fun _ => rfl⟩
    obtain ⟨key, hkey, hfault⟩ := hfault₁
    have hnot := hall key (List.mem_append_left _ hkey)
    rw [hfault] at hnot
    cases hnot
  · obtain ⟨a', ha', hframe⟩ := hfirst.1 fun key hkey => by
      simpa using fun hn => hfault₁ ⟨key, hkey, hn⟩
    -- the changed keys are as they were when the new ones have been written
    have hnext := serializeKeys_spec cp mem appkey faults record
      (keysWhere a fun e => !e.isNew && e.isDirty) (a := a') (fun k hk => by
        unfold SerializesKey
        rw [hframe k fun k₁ hk₁ => hcross k₁ hk₁ k hk]
        exact h k (List.mem_append_right _ hk)) hp₂ CStream.new
    rw [ha']
    simp only [Run.ok_bind]
    constructor
    · intro hall
      obtain ⟨a'', ha'', -⟩ := hnext.1 fun key hkey => hall key (List.mem_append_right _ hkey)
      refine ⟨a'', ?_⟩
      rw [ha'']
      simp only [Run.ok_bind, Run.pure_eq]
      have hname : ∀ keys : List Bstr, (keys.map utf16ToUtf8).map (redisKey appkey) =
          keys.map (nameIn appkey) := fun keys => List.map_map ..
      rw [savedWith, saveCommands_eq, hnew, hname, writtenKeys, List.map_append]
      · rfl
      · simp only [hnew, hchanged, List.map_append, List.map_map, Function.comp_def, nameIn]
    · rintro ⟨key, hkey, hfault⟩
      have hchangedKey : key ∈ keysWhere a fun e => !e.isNew && e.isDirty :=
        (List.mem_append.mp hkey).resolve_left fun hk => hfault₁ ⟨key, hk, hfault⟩
      rw [hnext.2 ⟨key, hchangedKey, hfault⟩]
      rfl

/-- INTERNAL: the written keys of an application the codec can work with. -/
theorem Tidy.serializesKey (mem : Memory) {a : CApplication loc} (h : Tidy a) {key : Bstr}
    (hkey : key ∈ writtenKeys a) :
    SerializesKey mem a (holdsNull a) (recordOf mem a) key := by
  obtain ⟨hgood, element, hfind, hheld⟩ : GoodKey key ∧
      ∃ element, a.find key = some element ∧ Holdable element.val :=
    (List.mem_append.mp hkey).elim h.keysWhere h.keysWhere
  refine ⟨hgood, element, hfind, ?_⟩
  rw [holdsNull, recordOf, hfind]
  exact serializeKey_spec loc mem hgood hheld

/-- **`ApplicationSave`** sends the commands of a saving, or faults when a written key
holds a null object. -/
theorem applicationSave_spec (cp : CodePage) (mem : Memory) (appkey : Bytes) (s : Keyspace)
    {a : CApplication loc} (h : Tidy a) :
    ((∀ key ∈ writtenKeys a, holdsNull a key = false) → ∃ a',
      CApplicationDL.applicationSave cp mem appkey s a =
        .ok (savedState mem appkey s a, a')) ∧
    ((∃ key ∈ writtenKeys a, holdsNull a key = true) →
      CApplicationDL.applicationSave cp mem appkey s a = .error .fault) :=
  applicationSave_writes cp mem appkey s fun _ hkey => h.serializesKey mem hkey

end IspSession.Analysis
