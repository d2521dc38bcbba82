import IspSession.Model.Session
import IspSession.Analysis.Contents

/-!
# Session records and what they hold

`Holds` says that a record was written for some contents, `Loads` that `dbInit` gets them
from what is stored under an id. A dictionary that is exact is saved as a record that
holds its contents (`Exact.holds`), and a record is read back as what it holds
(`loadRecord_spec`). The lemmas on the store say which records each command touches.
-/

set_option autoImplicit false

namespace IspSession.Analysis

open IspSession.Library IspSession.Model

variable {loc : Collation}

/-! ## The store -/

section Store

variable (store : SessionStore) (id id' other : Guid) {record : SessionRecord}

/-- What `OpenRowset` reads of a record. -/
def rowsetOf (record : SessionRecord) : SessionStore.Rowset where
  m_Expires := record.metaData.m_Expires
  m_ReEntrance := record.metaData.m_ReEntrance
  m_Liquid := record.metaData.m_Liquid
  m_zLen := record.metaData.m_zLen
  m_pStream := if record.payload = [] then none else some ⟨record.payload, 0⟩

/-- A record that is there is opened. -/
theorem openRowset_eq_some (h : store id = some record) :
    store.openRowset id = (.sOk, rowsetOf record) := by
  rw [SessionStore.openRowset, h]
  rfl

/-- `RENAME` moves the record. -/
theorem rename_apply_new (h : store id = some record) :
    store.rename id id' id' = some record := by
  rw [SessionStore.rename, h]
  dsimp only
  rw [Function.update_self]

/-- `RENAME` leaves nothing under the old id. -/
theorem rename_apply_old (h : store id = some record) (hne : id ≠ id') :
    store.rename id id' id = none := by
  rw [SessionStore.rename, h]
  dsimp only
  rw [Function.update_of_ne hne, Function.update_self]

/-- `RENAME` leaves the other ids alone. -/
theorem rename_apply_other (hold : other ≠ id) (hnew : other ≠ id') :
    store.rename id id' other = store other := by
  unfold SessionStore.rename
  cases store id with
  | none => rfl
  | some record =>
    dsimp only
    rw [Function.update_of_ne hnew, Function.update_of_ne hold]

/-- `EXPIRE` keeps a record for a time that is positive. -/
theorem expire_apply_self (h : store id = some record) {seconds : ℤ} (hs : 0 < seconds) :
    store.expire id seconds id = some { record with ttl := seconds } := by
  rw [SessionStore.expire, h]
  dsimp only
  rw [Function.update_self, if_neg (by omega)]

/-- `EXPIRE` leaves the other ids alone. -/
theorem expire_apply_other (hne : other ≠ id) (seconds : ℤ) :
    store.expire id seconds other = store other := by
  unfold SessionStore.expire
  cases store id with
  | none => rfl
  | some record => exact Function.update_of_ne hne _ _

/-- `SET` succeeds for a time that is positive. -/
theorem set_eq (metaData : PersistMetaData) (payload : List UInt8) {seconds : ℤ}
    (hs : 0 < seconds) : store.set id metaData payload seconds =
      (.sOk, Function.update store id (some { metaData, payload, ttl := seconds })) := by
  rw [SessionStore.set, if_neg (by omega)]

end Store

/-! ## Contents of a record -/

/-- The record was written for the contents: it has no stream yet, or that of a
dictionary which holds them. -/
inductive Holds (record : SessionRecord) (c : Contents loc) : Prop
  | inserted (hp : record.payload = []) (hc : c = .empty)
  | saved (mem : Memory) (d : VariantDictionary loc) (hd : Exact d) (hc : contents d = c)
      (hp : record.payload = dictionaryBytes mem d)
      (hz : record.metaData.m_zLen = record.payload.length)

/-- A request that opens the record loads the contents from it into its dictionary. -/
def Loads (p : Platform) (record : SessionRecord) (c : Contents loc) : Prop :=
  ∀ r : Request loc, r.m_piVarDict.dictionary = .empty →
    ∃ r', r.loadRecord p (rowsetOf record) .sOk = .ok (.sOk, r') ∧ contents r'.m_piVarDict = c

/-- The time to live plays no part. -/
theorem Holds.congr {record record' : SessionRecord} {c : Contents loc} (h : Holds record c)
    (hp : record'.payload = record.payload)
    (hz : record'.metaData.m_zLen = record.metaData.m_zLen) : Holds record' c := by
  cases h with
  | inserted hempty hc => exact .inserted (hp.trans hempty) hc
  | saved mem d hd hc hpayload hlen =>
    exact .saved mem d hd hc (hp.trans hpayload) (by rw [hz, hp, hlen])

/-- INTERNAL: loading variables changes neither the dirty nor the read-only flag. -/
theorem flags_reloaded (d r : VariantDictionary loc) :
    (reloaded d r).blnDirty = r.blnDirty ∧ (reloaded d r).readOnly = r.readOnly := by
  have hfold : ∀ (entries : List (Bstr × Variant)) (r : VariantDictionary loc),
      (entries.foldl (loadedInto d.isSerialized) r).blnDirty = r.blnDirty ∧
        (entries.foldl (loadedInto d.isSerialized) r).readOnly = r.readOnly := by
    intro entries
    induction entries with
    | nil => exact fun r => ⟨rfl, rfl⟩
    | cons e entries ih => exact fun r => ih (loadedInto d.isSerialized r e)
  exact hfold (storedEntries d) r.removeAll

/-- A dictionary that holds the contents, with the flags of another one. -/
structure Filled (r d : VariantDictionary loc) (c : Contents loc) : Prop where
  exact : Exact d
  contents : contents d = c
  blnDirty : d.blnDirty = r.blnDirty
  readOnly : d.readOnly = r.readOnly

/-- A request that has read the metadata of a record, and the dictionary. -/
def opened (r : Request loc) (record : SessionRecord) (d : VariantDictionary loc) :
    Request loc :=
  { r with
    lngTimeout := record.metaData.m_Expires
    blnReEntrance := record.metaData.m_ReEntrance
    blnLiquid := record.metaData.m_Liquid
    m_piVarDict := d }

/-- A liquid session gets a new id. -/
def renewed (p : Platform) (r : Request loc) : Request loc :=
  if r.blnLiquid then r.newID p else r

/-- INTERNAL: `NewID` changes the ids and nothing else. -/
theorem newID_frame (p : Platform) (r : Request loc) :
    ∃ m_OldSessionId guid drawn strGUID, r.newID p =
      { r with
        m_OldSessionId := m_OldSessionId
        guid := guid
        drawn := drawn
        strGUID := strGUID } := by
  unfold Request.newID
  dsimp only
  split
  · exact ⟨_, _, _, _, rfl⟩
  · exact ⟨_, r.guid, r.drawn, _, rfl⟩

/-- INTERNAL: so does the renewal of a liquid session's id. -/
theorem renewed_frame (p : Platform) (r : Request loc) :
    ∃ m_OldSessionId guid drawn strGUID, renewed p r =
      { r with
        m_OldSessionId := m_OldSessionId
        guid := guid
        drawn := drawn
        strGUID := strGUID } := by
  unfold renewed
  split
  · exact newID_frame p r
  · exact ⟨r.m_OldSessionId, r.guid, r.drawn, r.strGUID, rfl⟩

/-- INTERNAL: a new id leaves the dictionary alone. -/
theorem m_piVarDict_renewed (p : Platform) (r : Request loc) :
    (renewed p r).m_piVarDict = r.m_piVarDict := by
  obtain ⟨_, _, _, _, h⟩ := renewed_frame p r
  rw [h]

/-- INTERNAL: reading a record that has a stream. -/
theorem loadRecord_stream (p : Platform) {record : SessionRecord} (hne : record.payload ≠ [])
    (hr : HResult) (r : Request loc) :
    r.loadRecord p (rowsetOf record) hr =
      r.m_piVarDict.localLoad p.mem (some ⟨record.payload, 0⟩) record.metaData.m_zLen >>=
        fun res =>
          if record.metaData.m_Liquid then pure (.sOk, (opened r record res.2.1).newID p)
          else pure (res.1, opened r record res.2.1) := by
  have hstream : (rowsetOf record).m_pStream = some ⟨record.payload, 0⟩ := if_neg hne
  rw [Request.loadRecord, hstream]
  rfl

/-- **Reading a record** gives what it holds. -/
theorem loadRecord_spec (p : Platform) {record : SessionRecord} {c : Contents loc}
    (h : Holds record c) (r : Request loc) (hd : r.m_piVarDict.dictionary = .empty) :
    ∃ d, Filled r.m_piVarDict d c ∧
      r.loadRecord p (rowsetOf record) .sOk = .ok (.sOk, renewed p (opened r record d)) := by
  have hrenew : ∀ d, (if (opened r record d).blnLiquid = true then
      (pure (HResult.sOk, (opened r record d).newID p) : Run (HResult × Request loc))
      else pure (.sOk, opened r record d)) = .ok (.sOk, renewed p (opened r record d)) := by
    intro d
    unfold renewed
    split <;> rfl
  cases h with
  | inserted hp hc =>
    refine ⟨r.m_piVarDict, ⟨exact_of_empty hd, ?_, rfl, rfl⟩, ?_⟩
    · rw [contents, hd, hc]
      rfl
    · have hstream : (rowsetOf record).m_pStream = none := if_pos hp
      rw [← hrenew, Request.loadRecord, hstream]
      rfl
  | saved mem d hd' hc hp hz =>
    obtain ⟨-, b, hb⟩ := hd'.toLossless.reload mem p.mem r.m_piVarDict
    obtain ⟨hexact, hcontents⟩ := hd'.reloaded r.m_piVarDict
    obtain ⟨hdirty, hro⟩ := flags_reloaded d r.m_piVarDict
    have hresult : loadedResult d.isSerialized (storedEntries d) = .sOk :=
      loadedResult_eq_sOk fun e he =>
        loadedValue_eq_sOk (hd'.kept e (by simpa [storedEntries] using he))
    have hne : record.payload ≠ [] := by
      intro hnil
      have hpos := length_dictionaryBytes_pos mem d
      rw [← hp, hnil] at hpos
      exact absurd hpos (Nat.lt_irrefl 0)
    refine ⟨(reloaded d r.m_piVarDict).withBuffer b,
      ⟨hexact.congr rfl rfl, ?_, hdirty, hro⟩, ?_⟩
    · rw [← hc, ← hcontents]
      rfl
    · rw [← hrenew, loadRecord_stream p hne, hz, hp, hb, Run.ok_bind]
      simp only [hresult]
      rfl

/-- A record that holds the contents is loaded as them. -/
theorem Holds.loads {record : SessionRecord} {c : Contents loc} (h : Holds record c)
    (p : Platform) : Loads p record c := by
  intro r hd
  obtain ⟨d, hfilled, hload⟩ := loadRecord_spec p h r hd
  refine ⟨_, hload, ?_⟩
  rw [m_piVarDict_renewed]
  exact hfilled.contents

/-! ## A record with one number -/

/-- A dictionary with one number, for runs on concrete input. -/
def oneNumber : VariantDictionary loc :=
  { VariantDictionary.new with
    dictionary := ⟨[(Bstr.ofString "a", .scalar .i4 7)], List.pairwise_singleton _ _⟩ }

/-- INTERNAL: the codec brings the number back. -/
theorem exact_oneNumber : Exact (oneNumber : VariantDictionary loc) := by
  have hmem : ∀ e ∈ (oneNumber : VariantDictionary loc).dictionary.entries,
      e = (Bstr.ofString "a", .scalar .i4 7) := fun e he => List.mem_singleton.mp he
  refine ⟨⟨Nat.le_of_ble_eq_true rfl, ?_, ?_, ?_, ?_, ?_⟩, ?_⟩
  · intro e he
    obtain rfl := hmem e he
    exact ⟨⟨_, rfl⟩, by unfold StringFits; decide⟩
  · intro e he
    obtain rfl := hmem e he
    rfl
  · intro e he
    obtain rfl := hmem e he
    exact ⟨⟨trivial, trivial⟩, trivial⟩
  · intro e he hloses
    obtain rfl := hmem e he
    cases hloses
  · intro mem
    exact Nat.lt_of_le_of_lt (Nat.le_of_ble_eq_true rfl : _ ≤ 64) (by decide)
  · intro e he
    obtain rfl := hmem e he
    exact fun hloses => by cases hloses

/-- The record it is saved as. -/
def oneNumberRecord (m_ReEntrance m_Liquid : Bool) : SessionRecord where
  metaData :=
    { m_Expires := 20
      m_ReEntrance := m_ReEntrance
      m_Liquid := m_Liquid
      m_zLen := (dictionaryBytes .zero (oneNumber : VariantDictionary .ordinal)).length }
  payload := dictionaryBytes .zero (oneNumber : VariantDictionary .ordinal)
  ttl := 1200

/-! ## Calls on the dictionary -/

/-- INTERNAL: a call on the dictionary. -/
theorem onDictionary_eq {m : VariantDictionary.Mutation} {r r' : Request loc}
    (h : r.onDictionary m = .ok r') :
    ∃ d, r.m_piVarDict.mutate m = .ok d ∧ r' = { r with m_piVarDict := d } := by
  obtain ⟨d, hd, h⟩ := Run.bind_eq_ok h
  cases h
  exact ⟨d, hd, rfl⟩

/-- INTERNAL: `put_LCID` is refused, or it is a put that gives the thread the locale. -/
theorem perform_putLCID (p : Platform) {r r' : Request loc} {newVal : BitVec 32} {isValid : Bool}
    (h : r.perform p (.putLCID newVal isValid) = .ok r') :
    (r' = r ∧ (r.bReadonly = true ∨ isValid = false)) ∨
    (r.bReadonly = false ∧ isValid = true ∧ ∃ r₁,
      r.onDictionary (Request.lcidPut newVal) = .ok r₁ ∧
      r' = { r₁ with threadLocale := some newVal }) := by
  obtain ⟨⟨hr, r₂⟩, hput, h⟩ := Run.bind_eq_ok h
  cases h
  unfold Request.putLCID at hput
  split at hput
  · rename_i hro
    cases hput
    exact .inl ⟨rfl, .inl hro⟩
  · rename_i hro
    split at hput
    · rename_i hinvalid
      cases hput
      exact .inl ⟨rfl, .inr (by simpa using hinvalid)⟩
    · rename_i hvalid
      obtain ⟨r₁, hdict, hput⟩ := Run.bind_eq_ok hput
      cases hput
      exact .inr ⟨by simpa using hro, by simpa using hvalid, r₁, hdict, rfl⟩

end IspSession.Analysis
