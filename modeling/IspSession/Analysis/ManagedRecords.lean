import IspSession.Model.ManagedSession
import IspSession.Model.NativeRecords
import IspSession.Analysis.ManagedRoundTrip

/-!
# Managed session records

The metadata reads back as it was written, keys of ids are told apart, and what `SessionGetAsync`
makes of a record that `SessionSave` has stored.
-/

set_option autoImplicit false

namespace IspSession.Analysis

open IspSession.Library IspSession.Model

/-! ## The metadata -/

@[simp] theorem length_toByteArray (m : CSessionDL.PersistMetaData) :
    (CSessionDL.toByteArray m).length = 32 := by
  simp [CSessionDL.toByteArray]

/-- INTERNAL: a field behind a prefix and in front of the rest. -/
theorem fieldAt_append (pre field rest : Bytes) {n : ℕ} (h : field.length = n) :
    CSessionDL.fieldAt (pre ++ field ++ rest) pre.length n = ofLeBytes field := by
  rw [CSessionDL.fieldAt, List.append_assoc, List.drop_left, List.take_left' h]

/-- INTERNAL: the metadata in memory is 32 bytes long. -/
@[simp] theorem length_toBytes (m : PersistMetaDataBytes) : m.toBytes.length = 32 := by
  simp [PersistMetaDataBytes.toBytes, m.m_LastUpdated.length]

/-- **The metadata of a record reads back as it was written**, whatever the time stamp. -/
theorem fromByteArray_toBytes (m : PersistMetaDataBytes) (rest : Bytes) :
    CSessionDL.fromByteArray (m.toBytes ++ rest) = .ok {
      SizeofMeta := m.sizeofMeta
      Expires := m.m_Expires
      ReEntrance := m.m_ReEntrance
      Liquid := m.m_Liquid
      ZLen := m.m_zLen } := by
  obtain ⟨size, ⟨stamp, hstamp⟩, expires, reEntrance, liquid, zLen⟩ := m
  have h0 := fieldAt_append [] (leBytes 4 size.toNat)
    (stamp ++ leBytes 4 expires.toNat ++ leBytes 2 reEntrance.toNat ++
      leBytes 2 liquid.toNat ++ leBytes 4 zLen.toNat ++ rest) (length_leBytes 4 _)
  have h1 := fieldAt_append (leBytes 4 size.toNat ++ stamp)
    (leBytes 4 expires.toNat) (leBytes 2 reEntrance.toNat ++
      leBytes 2 liquid.toNat ++ leBytes 4 zLen.toNat ++ rest) (length_leBytes 4 _)
  have h2 := fieldAt_append
    (leBytes 4 size.toNat ++ stamp ++ leBytes 4 expires.toNat)
    (leBytes 2 reEntrance.toNat) (leBytes 2 liquid.toNat ++
      leBytes 4 zLen.toNat ++ rest) (length_leBytes 2 _)
  have h3 := fieldAt_append
    (leBytes 4 size.toNat ++ stamp ++ leBytes 4 expires.toNat ++
      leBytes 2 reEntrance.toNat)
    (leBytes 2 liquid.toNat) (leBytes 4 zLen.toNat ++ rest) (length_leBytes 2 _)
  have h4 := fieldAt_append
    (leBytes 4 size.toNat ++ stamp ++ leBytes 4 expires.toNat ++
      leBytes 2 reEntrance.toNat ++ leBytes 2 liquid.toNat)
    (leBytes 4 zLen.toNat) rest (length_leBytes 4 _)
  simp only [List.append_assoc, List.length_append, length_leBytes, hstamp,
    List.length_nil, List.nil_append] at h0 h1 h2 h3 h4
  have hlength : ¬(PersistMetaDataBytes.toBytes
      ⟨size, ⟨stamp, hstamp⟩, expires, reEntrance, liquid, zLen⟩ ++ rest).length < 32 := by
    rw [List.length_append, length_toBytes]
    omega
  rw [CSessionDL.fromByteArray, if_neg hlength]
  simp only [PersistMetaDataBytes.toBytes, List.append_assoc, h0, h1, h2, h3, h4]
  congr 2
  · exact ofNat_ofLeBytes_leBytes 4 size
  · exact ofNat_ofLeBytes_leBytes 4 expires
  · exact ofNat_ofLeBytes_leBytes 2 reEntrance
  · exact ofNat_ofLeBytes_leBytes 2 liquid
  · exact ofNat_ofLeBytes_leBytes 4 zLen

/-- INTERNAL: the managed writer has zeros for the time stamp. -/
theorem toByteArray_eq (m : CSessionDL.PersistMetaData) :
    CSessionDL.toByteArray m = PersistMetaDataBytes.toBytes {
      sizeofMeta := m.SizeofMeta
      m_LastUpdated := ⟨List.replicate 16 0, rfl⟩
      m_Expires := m.Expires
      m_ReEntrance := m.ReEntrance
      m_Liquid := m.Liquid
      m_zLen := m.ZLen } := rfl

/-- The same for the managed writer. -/
theorem fromByteArray_toByteArray (m : CSessionDL.PersistMetaData) (rest : Bytes) :
    CSessionDL.fromByteArray (CSessionDL.toByteArray m ++ rest) = .ok m := by
  rw [toByteArray_eq, fromByteArray_toBytes]

/-! ## Keys -/

/-- INTERNAL: the key of an id, in two parts. -/
theorem getKey_eq (settings : SessionAppSettings) (id : Bstr) :
    CSessionDL.getKey settings id = utf16ToUtf8 settings.AppKey ++ 58 :: utf16ToUtf8 id := by
  rw [CSessionDL.getKey, List.append_assoc,
    show Bstr.ofString ":" ++ id = (58 : UInt16) :: id from rfl, utf16ToUtf8_append_ascii (by decide)]
  rfl

/-- INTERNAL: equal keys are keys of ids with the same UTF-8 form. -/
theorem getKey_inj {settings : SessionAppSettings} {id id' : Bstr}
    (h : CSessionDL.getKey settings id = CSessionDL.getKey settings id') :
    utf16ToUtf8 id = utf16ToUtf8 id' := by
  rw [getKey_eq, getKey_eq] at h
  exact (List.cons.inj (List.append_cancel_left h)).2

/-- INTERNAL: the characters that pass are ASCII. -/
theorem validDigit_lt {ch : UInt16} (h : ISPSessionIDManager.validDigit ch = true) : ch < 128 := by
  have hor : ch ≤ ch ||| 32 := by
    rw [UInt16.le_iff_toNat_le, UInt16.toNat_or]
    exact Nat.left_le_or
  have hle : ch ||| 32 ≤ 102 := by
    simp only [ISPSessionIDManager.validDigit, Bool.or_eq_true, Bool.and_eq_true,
      decide_eq_true_eq] at h
    rcases h with h | h
    · exact h.2
    · exact UInt16.le_trans h.2 (by decide)
  exact UInt16.lt_of_le_of_lt (UInt16.le_trans hor hle) (by decide)

/-- INTERNAL: an id that passes is ASCII. -/
theorem ascii_of_validate {id : Bstr} (h : ISPSessionIDManager.validate id = true) :
    AsciiUtf16 id := by
  simp only [ISPSessionIDManager.validate, Bool.and_eq_true, List.all_eq_true] at h
  exact fun u hu => validDigit_lt (h.2 u hu)

/-- INTERNAL: ASCII texts with the same UTF-8 form are the same. -/
theorem utf16ToUtf8_inj {s t : Bstr} (hs : AsciiUtf16 s) (ht : AsciiUtf16 t)
    (h : utf16ToUtf8 s = utf16ToUtf8 t) : s = t := by
  rw [← utf8ToUtf16_utf16ToUtf8 (wellFormedUtf16_ascii hs), h,
    utf8ToUtf16_utf16ToUtf8 (wellFormedUtf16_ascii ht)]

/-- **Valid ids with the same key are the same.** -/
theorem getKey_validate_inj {settings : SessionAppSettings} {id id' : Bstr}
    (hid : ISPSessionIDManager.validate id = true) (hid' : ISPSessionIDManager.validate id' = true)
    (h : CSessionDL.getKey settings id = CSessionDL.getKey settings id') : id = id' :=
  utf16ToUtf8_inj (ascii_of_validate hid) (ascii_of_validate hid') (getKey_inj h)

/-- INTERNAL: an id of 16 bytes has 32 characters. -/
theorem length_guidToHex (g : Guid) : (ISPSessionIDManager.guidToHex g).length = 32 := by
  have hlength : ∀ bytes : Bytes, (hexStringFromMemory bytes).length = 2 * bytes.length := by
    intro bytes
    induction bytes with
    | nil => rfl
    | cons b bytes ih =>
      rw [hexStringFromMemory, List.flatMap_cons, List.length_append] at *
      rw [ih, List.length_cons, List.length_cons, List.length_cons, List.length_nil]
      omega
  rw [ISPSessionIDManager.guidToHex, List.length_map, hlength, length_leBytes]

/-- INTERNAL: each of them is one of the sixteen digits. -/
theorem digits_guidToHex {p : UInt16 → Prop}
    (hp : ∀ n < 16, p (hexDigit (UInt8.ofNat n)).toUInt16) (g : Guid) :
    ∀ u ∈ ISPSessionIDManager.guidToHex g, p u := by
  have hdigit : ∀ n : UInt8, n.toNat < 16 → p (hexDigit n).toUInt16 := by
    intro n hn
    have h := hp n.toNat hn
    rwa [UInt8.ofNat_toNat] at h
  intro u hu
  obtain ⟨d, hd, rfl⟩ := List.mem_map.mp hu
  obtain ⟨b, -, hb⟩ := List.mem_flatMap.mp hd
  simp only [List.mem_cons, List.not_mem_nil, or_false] at hb
  rcases hb with rfl | rfl
  · refine hdigit _ ?_
    have hlt := b.toNat_lt
    rw [UInt8.toNat_div]
    show b.toNat / 16 < 16
    omega
  · refine hdigit _ ?_
    rw [UInt8.toNat_and]
    exact Nat.lt_of_le_of_lt Nat.and_le_right (by decide)

/-- **A new id is valid.** -/
theorem validate_guidToHex (g : Guid) :
    ISPSessionIDManager.validate (ISPSessionIDManager.guidToHex g) = true := by
  simp only [ISPSessionIDManager.validate, Bool.and_eq_true, List.all_eq_true, decide_eq_true_eq]
  exact ⟨length_guidToHex g, digits_guidToHex (by decide) g⟩

/-- INTERNAL: the two digits of a byte tell it. -/
theorem digits_inj {b c : UInt8} (hhigh : hexDigit (b / 16) = hexDigit (c / 16))
    (hlow : hexDigit (b &&& 15) = hexDigit (c &&& 15)) : b = c := by
  have hall : ∀ m < 16, ∀ n < 16, hexDigit (UInt8.ofNat m) = hexDigit (UInt8.ofNat n) → m = n := by
    decide
  have hdigit : ∀ m n : UInt8, m.toNat < 16 → n.toNat < 16 → hexDigit m = hexDigit n →
      m.toNat = n.toNat := by
    intro m n hm hn h
    exact hall m.toNat hm n.toNat hn (by rwa [UInt8.ofNat_toNat, UInt8.ofNat_toNat])
  have hdiv : ∀ u : UInt8, (u / 16).toNat = u.toNat / 16 := fun u => UInt8.toNat_div u 16
  have hmod : ∀ u : UInt8, (u &&& 15).toNat = u.toNat % 16 := fun u =>
    (UInt8.toNat_and u 15).trans (Nat.and_two_pow_sub_one_eq_mod u.toNat 4)
  have hb := b.toNat_lt
  have hc := c.toNat_lt
  have hhigh' := hdigit _ _ (by rw [hdiv]; omega) (by rw [hdiv]; omega) hhigh
  have hlow' := hdigit _ _ (by rw [hmod]; omega) (by rw [hmod]; omega) hlow
  rw [hdiv, hdiv] at hhigh'
  rw [hmod, hmod] at hlow'
  exact UInt8.toNat_inj.mp (by omega)

/-- INTERNAL: bytes are told by their digits. -/
theorem hexStringFromMemory_inj {bytes bytes' : Bytes}
    (h : hexStringFromMemory bytes = hexStringFromMemory bytes') : bytes = bytes' := by
  induction bytes generalizing bytes' with
  | nil =>
    cases bytes' with
    | nil => rfl
    | cons c bytes' => cases h
  | cons b bytes ih =>
    cases bytes' with
    | nil => cases h
    | cons c bytes' =>
      obtain ⟨hhigh, h⟩ := List.cons.inj h
      obtain ⟨hlow, h⟩ := List.cons.inj h
      rw [digits_inj hhigh hlow, ih h]

/-- **Different numbers give different ids.** -/
theorem guidToHex_inj {g g' : Guid}
    (h : ISPSessionIDManager.guidToHex g = ISPSessionIDManager.guidToHex g') : g = g' := by
  have hwide : Function.Injective UInt8.toUInt16 := by
    intro b c hbc
    have := congrArg UInt16.toNat hbc
    rw [UInt8.toNat_toUInt16, UInt8.toNat_toUInt16] at this
    exact UInt8.toNat_inj.mp this
  have hbytes := hexStringFromMemory_inj (List.map_injective_iff.mpr hwide h)
  have hnumber := congrArg ofLeBytes hbytes
  rw [ofLeBytes_leBytes_of_lt (by have := g.isLt; omega),
    ofLeBytes_leBytes_of_lt (by have := g'.isLt; omega)] at hnumber
  exact BitVec.eq_of_toNat_eq hnumber

/-! ## Items -/

section Items

variable {strings : NetStrings}

/-- The same names, each with the same value (`SameValue`). -/
def SameItems (s t : StateItemCollection strings NetValue) : Prop :=
  t.keys = s.keys ∧
    ∀ key ∈ s.keys, ∃ v v', s.getName key = .ok v ∧ t.getName key = .ok v' ∧ SameValue v v'

/-- Every name has a value. -/
def Valued (s : StateItemCollection strings NetValue) : Prop :=
  ∀ key ∈ s.keys, ∃ v, s.getName key = .ok v

theorem sameValue_refl (v : NetValue) : SameValue v v := by
  induction v with
  | stringArray b cells => exact ⟨cells, rfl, fun _ => .inl rfl⟩
  | array element b cells ih => exact ⟨cells, rfl, ih⟩
  | _ => rfl

/-- INTERNAL: storing an item keeps every name with a value. -/
theorem valued_putEntry {s : StateItemCollection strings NetValue} (e : Bstr × NetValue)
    (hs : ∀ key ∈ s.keys, key ≠ [] ∧ (s.entries (strings.getHashCode key)).isSome) :
    ∀ key ∈ (putEntry s e).keys,
      key ≠ [] ∧ ((putEntry s e).entries (strings.getHashCode key)).isSome := by
  unfold putEntry putItem
  split
  · exact hs
  · rename_i hname
    intro key hkey
    obtain ⟨e', he', rfl⟩ := List.mem_map.mp hkey
    have hkey' : e'.1 = e.1 ∨ e'.1 ∈ s.keys := by
      rcases OrderedMap.mem_insertEntry he' with rfl | he'
      · exact .inl rfl
      · exact .inr (List.mem_map_of_mem he')
    refine ⟨?_, ?_⟩
    · rcases hkey' with h | h
      · rw [h]
        exact hname
      · exact (hs _ h).1
    · show (Function.update s.entries (strings.getHashCode e.1) (some e.2)
        (strings.getHashCode e'.1)).isSome
      by_cases hhash : strings.getHashCode e'.1 = strings.getHashCode e.1
      · rw [hhash, Function.update_self]
        rfl
      · rw [Function.update_of_ne hhash]
        rcases hkey' with h | h
        · exact absurd (congrArg strings.getHashCode h) hhash
        · exact (hs _ h).2

/-- **Every name that `LocalLoad` loads has a value.** -/
theorem valued_localLoad {rt : NetRuntime} {loaders : NetLoaders} {payload : Bytes}
    {s : StateItemCollection strings NetValue} (h : PersistUtil.localLoad rt loaders payload = .ok s) :
    Valued s := by
  have hkeys : ∀ key ∈ s.keys, key ≠ [] ∧ (s.entries (strings.getHashCode key)).isSome :=
    localLoad_keeps (P := fun s : StateItemCollection strings NetValue => ∀ key ∈ s.keys,
      key ≠ [] ∧ (s.entries (strings.getHashCode key)).isSome) h
      (fun key hkey => by cases hkey) fun s e _ hs => valued_putEntry e hs
  intro key hkey
  obtain ⟨hne, hsome⟩ := hkeys key hkey
  obtain ⟨v, hv⟩ := Option.isSome_iff_exists.mp hsome
  exact ⟨v, by rw [getName_of_mem_keys hkey hne, StateItemCollection.entry, hv]⟩

end Items

/-! ## What is stored is found -/

variable {host : ManagedHost} {settings : SessionAppSettings} {database : Keyspace}

/-- A collection that comes back from its record: `LocalLoad` gives its items again, and with
compression the compressed contents are complete when they are taken. -/
def ComesBack (host : ManagedHost) (settings : SessionAppSettings)
    (items : StateItemCollection host.strings NetValue) : Prop :=
  ∃ bytes zLen, ∃ loaded : StateItemCollection host.strings NetValue,
    PersistUtil.localContents host.runtime items = .ok (bytes, zLen) ∧
      (settings.Compress = true →
        zLen < 2 ^ 31 ∧ host.deflate.decompress (host.deflate.written bytes) = some bytes) ∧
      PersistUtil.localLoad host.runtime host.loaders bytes = .ok loaded ∧ SameItems items loaded

/-- **Without compression these are the collections of the round trip.** -/
theorem comesBack_iff (hcompress : settings.Compress = false)
    (items : StateItemCollection host.strings NetValue) :
    ComesBack host settings items ↔ NetRoundTrips host.runtime host.loaders items := by
  constructor
  · rintro ⟨bytes, zLen, loaded, hcontents, -, hload, hkeys, hvalues⟩
    exact ⟨bytes, zLen, loaded, hcontents, hload, hkeys, hvalues⟩
  · rintro ⟨bytes, zLen, loaded, hcontents, hload, hkeys, hvalues⟩
    refine ⟨bytes, zLen, loaded, hcontents, fun h => ?_, hload, hkeys, hvalues⟩
    rw [hcompress] at h
    cases h

/-- The record under an id has these items. -/
def Decodes (host : ManagedHost) (settings : SessionAppSettings) (database : Keyspace) (id : Bstr)
    (items : StateItemCollection host.strings NetValue) : Prop :=
  ∃ m loaded, CSessionDL.sessionGetAsync host settings database id = .ok (some (m, loaded)) ∧
    SameItems items loaded

/-- INTERNAL: the payload behind the 32 bytes of the metadata. -/
theorem payloadStream_header {m : CSessionDL.PersistMetaData} {header bytes payload : Bytes}
    (hheader : header.length = 32) (hsize : m.SizeofMeta = 32)
    (hcompress : settings.Compress = true →
      0 ≤ m.ZLen.toInt ∧ host.deflate.decompress payload = some bytes)
    (hplain : settings.Compress = false → payload = bytes) :
    CSessionDL.payloadStream host.deflate settings m (header ++ payload) = .ok bytes := by
  have hneg : ¬(settings.Compress = true ∧ m.ZLen.toInt < 0) := by
    rintro ⟨hc, hlt⟩
    have := (hcompress hc).1
    omega
  have hsizeInt : m.SizeofMeta.toInt = 32 := by rw [hsize]; rfl
  have hbounds : ¬(m.SizeofMeta.toInt < 0 ∨
      ((header ++ payload).length : ℤ) < m.SizeofMeta.toInt) := by
    rw [hsizeInt, List.length_append, hheader]
    omega
  rw [CSessionDL.payloadStream, if_neg hneg, if_neg hbounds, hsize]
  have hdrop : (header ++ payload).drop (32 : BitVec 32).toNat = payload :=
    List.drop_left' hheader
  dsimp only
  rw [hdrop]
  by_cases hc : settings.Compress = true
  · rw [if_pos hc, (hcompress hc).2]
    rfl
  · rw [if_neg hc, hplain (Bool.eq_false_iff.mpr hc)]

/-- INTERNAL: the payload of a record. -/
theorem payloadStream_record {m : CSessionDL.PersistMetaData} {bytes payload : Bytes}
    (hsize : m.SizeofMeta = 32)
    (hcompress : settings.Compress = true →
      0 ≤ m.ZLen.toInt ∧ host.deflate.decompress payload = some bytes)
    (hplain : settings.Compress = false → payload = bytes) :
    CSessionDL.payloadStream host.deflate settings m (CSessionDL.toByteArray m ++ payload) =
      .ok bytes :=
  payloadStream_header (length_toByteArray m) hsize hcompress hplain

/-- INTERNAL: the payload of a stored record. -/
theorem payloadStream_stored {m : CSessionDL.PersistMetaData} {bytes : Bytes}
    (hsize : m.SizeofMeta = 32)
    (hcompress : settings.Compress = true →
      0 ≤ m.ZLen.toInt ∧ host.deflate.decompress (host.deflate.written bytes) = some bytes) :
    CSessionDL.payloadStream host.deflate settings m
      (CSessionDL.toByteArray m ++ CSessionDL.packed host.deflate settings bytes) = .ok bytes := by
  refine payloadStream_record hsize (fun hc => ?_) fun hc => ?_
  · rw [CSessionDL.packed, if_pos hc]
    exact hcompress hc
  · rw [CSessionDL.packed, if_neg (Bool.eq_false_iff.mp hc)]

/-- INTERNAL: a record with a payload that loads. -/
theorem sessionGetAsync_of_string {id : Bstr} {m : CSessionDL.PersistMetaData}
    {bytes payload : Bytes} {ttl : Option ℤ} {items : StateItemCollection host.strings NetValue}
    (hid : id ≠ [])
    (hentry : database (CSessionDL.getKey settings id) =
      some ⟨.string (CSessionDL.toByteArray m ++ payload), ttl⟩)
    (hpayload : CSessionDL.payloadStream host.deflate settings m
      (CSessionDL.toByteArray m ++ payload) = .ok bytes)
    (hload : PersistUtil.localLoad host.runtime host.loaders bytes = .ok items) :
    CSessionDL.sessionGetAsync host settings database id = .ok (some (m, items)) := by
  rw [CSessionDL.sessionGetAsync, if_neg hid, hentry]
  dsimp only
  rw [fromByteArray_toByteArray, NetRun.ok_bind, hpayload, NetRun.ok_bind, hload]
  rfl

/-- INTERNAL: what is found depends on the value under the key alone. -/
theorem sessionGetAsync_congr {id id' : Bstr} {database' : Keyspace} {value : RedisValue}
    {ttl ttl' : Option ℤ} (hid : id ≠ []) (hid' : id' ≠ [])
    (h : database (CSessionDL.getKey settings id) = some { value, ttl })
    (h' : database' (CSessionDL.getKey settings id') = some { value, ttl := ttl' }) :
    CSessionDL.sessionGetAsync host settings database' id' =
      CSessionDL.sessionGetAsync host settings database id := by
  unfold CSessionDL.sessionGetAsync
  rw [h, h', if_neg hid, if_neg hid']
  cases value <;> rfl

/-- INTERNAL: a record that is found is a string. -/
theorem entry_of_sessionGetAsync {id : Bstr} {m : CSessionDL.PersistMetaData}
    {items : StateItemCollection host.strings NetValue}
    (h : CSessionDL.sessionGetAsync host settings database id = .ok (some (m, items))) :
    id ≠ [] ∧ Valued items ∧
      ∃ blob ttl, database (CSessionDL.getKey settings id) = some ⟨.string blob, ttl⟩ := by
  unfold CSessionDL.sessionGetAsync at h
  split at h
  · cases h
  · rename_i hid
    split at h
    · cases h
    · cases h
    · rename_i blob ttl hentry
      obtain ⟨m', -, h⟩ := NetRun.bind_eq_ok h
      obtain ⟨ms, -, h⟩ := NetRun.bind_eq_ok h
      obtain ⟨items', hload, h⟩ := NetRun.bind_eq_ok h
      cases h
      exact ⟨hid, valued_localLoad hload, blob, ttl, hentry⟩

/-- INTERNAL: without a record under the key nothing is found. -/
theorem sessionGetAsync_none {id : Bstr} (hid : id ≠ [])
    (h : database (CSessionDL.getKey settings id) = none) :
    CSessionDL.sessionGetAsync host settings database id = .ok none := by
  rw [CSessionDL.sessionGetAsync, if_neg hid, h]

end IspSession.Analysis
