import IspSession.Analysis.SessionLoading
import IspSession.Analysis.SessionSaving

/-!
# Ids from the query string

`dbInit` refuses an id from the query string when the session forbids re-entrance: it
draws a new id and clears the dictionary. It then reads the refused record all the same,
for only `bDidInsert` guards the load, and `PersistSession` saves under `oldGuid`, the
refused id. The contents of such a session are never hidden, and its record is
overwritten or moved.
-/

set_option autoImplicit false

namespace IspSession.Analysis

open IspSession.Library IspSession.Model

variable {loc : Collation} (p : Platform)

/-! ## Shielding -/

section Shielding

variable (metaData : PersistMetaData) (ttl : ℤ)

/-- The record of a session with the given settings and some stream. -/
def recordWith (payload : List UInt8) : SessionRecord where
  metaData := { metaData with m_zLen := payload.length }
  payload := payload
  ttl := ttl

/-- The request where its id has that record. -/
def holding (payload : List UInt8) (r : Request loc) : Request loc :=
  { r with store := Function.update r.store r.guid (some (recordWith metaData ttl payload)) }

/-- After `dbInit` the dictionary does not depend on what is stored. -/
def HidesContents (r : Request loc) : Prop :=
  ∀ payload payload' hr hr' r₁ r₁',
    (holding metaData ttl payload r).dbInit p = .ok (hr, r₁) →
    (holding metaData ttl payload' r).dbInit p = .ok (hr', r₁') →
    r₁.m_piVarDict.dictionary = r₁'.m_piVarDict.dictionary

/-- `PersistSession` leaves the record as it was. -/
def KeepsRecord (r : Request loc) : Prop :=
  ∀ payload hr hr' r₁ r₂,
    (holding metaData ttl payload r).dbInit p = .ok (hr, r₁) →
    r₁.persistSession p = .ok (hr', r₂) →
    r₂.store r.guid = some (recordWith metaData ttl payload)

/-- The session is not exposed to the request, nor changed by it. -/
def Shielded (r : Request loc) : Prop :=
  HidesContents p metaData ttl r ∧ KeepsRecord p metaData ttl r

end Shielding

/-! ## Requests with an id in the query string -/

/-- A request that goes by an id from its query string. -/
structure FromUrl (r : Request loc) : Prop extends Fresh r where
  found : r.blnFoundURLGuid = true

/-- INTERNAL: it takes the session for an existing one. -/
theorem FromUrl.existing {r : Request loc} (h : FromUrl r) :
    r.blnNew = false ∧ r.oldGuid = r.guid := by
  obtain ⟨id, hid⟩ := h.url h.found
  obtain ⟨hnew, hguid, hold⟩ := h.presented id hid
  exact ⟨hnew, hold.trans hguid.symm⟩

/-- INTERNAL: what a request loads from a record that holds the contents. -/
theorem dbInit_holding {metaData : PersistMetaData} {ttl : ℤ} {r : Request loc}
    (hr : FromUrl r) {payload : List UInt8} {c : Contents loc}
    (h : Holds (recordWith metaData ttl payload) c)
    (hload : Loadable p.oleLoad c Request.lcidName) :
    ∃ d cookies r₁, Filled r.m_piVarDict d c ∧
      (holding metaData ttl payload r).dbInit p = .ok (.sOk, r₁) ∧
      r₁ = { renewed p (opened ((holding metaData ttl payload r).checkReEntrance p
          (rowsetOf (recordWith metaData ttl payload))) (recordWith metaData ttl payload) d) with
        bErrState := false
        cookies := cookies
        threadLocale := (localeOf p c).or r.threadLocale } := by
  have hempty : (holding metaData ttl payload r).m_piVarDict.dictionary = .empty := by
    change r.m_piVarDict.dictionary = .empty
    rw [hr.dictionary]
    rfl
  have hrecord : (holding metaData ttl payload r).store (holding metaData ttl payload r).guid =
      some (recordWith metaData ttl payload) := Function.update_self _ _ _
  have herr : (holding metaData ttl payload r).bErrState = false := hr.noError
  obtain ⟨d, cookies, hd, hrun⟩ := dbInit_spec p herr hrecord h hempty hload
  exact ⟨d, cookies, _, hd, hrun, rfl⟩

/-- **The contents are never hidden**: a session without variables and one with a number
give the request different dictionaries. -/
theorem not_hidesContents (metaData : PersistMetaData) (ttl : ℤ) {r : Request loc}
    (hr : FromUrl r) : ¬ HidesContents p metaData ttl r := by
  intro h
  have hnumber : Holds (recordWith metaData ttl (dictionaryBytes p.mem oneNumber))
      (contents (oneNumber : VariantDictionary loc)) :=
    .saved p.mem oneNumber exact_oneNumber rfl rfl rfl
  have hnothing : Holds (recordWith metaData ttl []) (.empty : Contents loc) :=
    .inserted rfl rfl
  obtain ⟨d, cookies, r₁, hd, hrun, rfl⟩ := dbInit_holding p hr hnumber (by
    intro e he _ bytes hobject
    obtain rfl : e = (Bstr.ofString "a", .scalar .i4 7) := List.mem_singleton.mp he
    rcases hobject with hobject | hobject <;> cases hobject)
  obtain ⟨d', cookies', r₁', hd', hrun', rfl⟩ := dbInit_holding p hr hnothing (by
    intro e he
    cases he)
  have hsame := h _ _ _ _ _ _ hrun hrun'
  dsimp only at hsame
  rw [m_piVarDict_renewed, m_piVarDict_renewed] at hsame
  have hcontents : contents d = contents d' :=
    congrArg (fun m => m.mapValues fun _ => persisted) hsame
  rw [hd.contents, hd'.contents] at hcontents
  exact absurd (congrArg OrderedMap.entries hcontents) (List.cons_ne_nil _ _)

/-- INTERNAL: a request whose id is refused is new, and keeps the rest. -/
theorem checkReEntrance_refuses {r : Request loc} (hr : FromUrl r)
    {rowset : SessionStore.Rowset} (hforbids : rowset.m_ReEntrance = false) :
    ∃ m_OldSessionId guid drawn strGUID, r.checkReEntrance p rowset =
      { r with
        m_piVarDict := r.m_piVarDict.removeAll
        blnNew := true
        blnExpired := true
        m_OldSessionId := m_OldSessionId
        guid := guid
        drawn := drawn
        strGUID := strGUID } := by
  obtain ⟨old, guid, drawn, strGUID, h⟩ :=
    newID_frame p { r with blnExpired := true, blnNew := true }
  refine ⟨old, guid, drawn, strGUID, ?_⟩
  rw [Request.checkReEntrance,
    if_pos (by simp [hr.existing.1, hr.notExpired, hr.found, hforbids]), h]

/-- INTERNAL: after `dbInit` such a request writes its dictionary under the refused id. -/
theorem dbInit_refused {metaData : PersistMetaData} (ttl : ℤ) {r : Request loc}
    (hr : FromUrl r) (hforbids : metaData.m_ReEntrance = false) (payload : List UInt8)
    (d : VariantDictionary loc) (cookies : List SessionCookie) (locale : Option (BitVec 32))
    {r₁ : Request loc}
    (hr₁ : r₁ = { renewed p (opened ((holding metaData ttl payload r).checkReEntrance p
        (rowsetOf (recordWith metaData ttl payload))) (recordWith metaData ttl payload) d) with
      bErrState := false
      cookies := cookies
      threadLocale := locale }) :
    Persists r₁ ∧ Unsaved r₁ ∧ r₁.oldGuid = r.guid ∧ r₁.m_piVarDict = d ∧
      r₁.store r.guid = some (recordWith metaData ttl payload) ∧
      r₁.lngTimeout = metaData.m_Expires := by
  have hr' : FromUrl (holding metaData ttl payload r) :=
    ⟨⟨hr.pending, hr.noError, hr.kept, hr.writable, hr.notLiquid, hr.notExpired, hr.noOldId,
      hr.dictionary, hr.presented, hr.url⟩, hr.found⟩
  obtain ⟨_, _, _, _, hcheck⟩ := checkReEntrance_refuses p hr'
    (show (rowsetOf (recordWith metaData ttl payload)).m_ReEntrance = false from hforbids)
  obtain ⟨_, _, _, _, hrenew⟩ := renewed_frame p
    (opened ((holding metaData ttl payload r).checkReEntrance p
      (rowsetOf (recordWith metaData ttl payload))) (recordWith metaData ttl payload) d)
  rw [hrenew, hcheck] at hr₁
  subst hr₁
  exact ⟨⟨hr.pending, rfl, hr.kept, hr.writable⟩, .inr (.inl rfl), hr.existing.2, rfl,
    Function.update_self _ _ _, rfl⟩

/-- **The record is not kept** either: a request whose id is refused is new, so that it
saves its dictionary, over the refused record or after moving it. -/
theorem not_keepsRecord {metaData : PersistMetaData} (ttl : ℤ) {r : Request loc}
    (hr : FromUrl r) (hforbids : metaData.m_ReEntrance = false)
    (htime : 0 < SessionStore.seconds metaData.m_Expires) : ¬ KeepsRecord p metaData ttl r := by
  intro h
  have hnothing : Holds (recordWith metaData ttl []) (.empty : Contents loc) :=
    .inserted rfl rfl
  obtain ⟨d, cookies, r₁, hd, hrun, hr₁⟩ := dbInit_holding p hr hnothing (by
    intro e he
    cases he)
  obtain ⟨hpersists, hunsaved, hold, hdict, hrecord, htimeout⟩ :=
    dbInit_refused p ttl hr hforbids [] d cookies _ hr₁
  rw [← hold] at hrecord
  obtain ⟨b, hsave⟩ := persistSession_writes p hpersists (hdict.symm ▸ hd.exact)
    (htimeout.symm ▸ htime) hunsaved
  have hkept := h _ _ _ _ _ hrun hsave
  dsimp only at hkept
  rw [← hold] at hkept
  by_cases hmoved : r₁.oldGuid = savedUnder r₁
  · -- the record is overwritten with a stream that is not empty
    rw [hmoved, Function.update_self, Option.some.injEq] at hkept
    exact List.ne_nil_of_length_pos (length_dictionaryBytes_pos _ _)
      (congrArg SessionRecord.payload hkept)
  · rw [Function.update_of_ne hmoved, movedStore_apply_old hrecord hmoved] at hkept
    cases hkept

/-- **A session that forbids re-entrance is exposed** to every request that presents its
id in the query string, and its record is overwritten or moved. -/
theorem not_shielded (store : SessionStore) (drawn : ℕ) (lngTimeOutSetting dtExpires : BitVec 32)
    (blnSnifQueryStringFirst : Bool) (cookie query : Option Guid) (metaData : PersistMetaData)
    (ttl : ℤ) {r : Request loc}
    (hr : r = (Request.start store drawn lngTimeOutSetting dtExpires
      blnSnifQueryStringFirst).identify cookie query)
    (hfound : r.blnFoundURLGuid = true) (hforbids : metaData.m_ReEntrance = false) :
    ¬ Shielded p metaData ttl r ∧
      (0 < SessionStore.seconds metaData.m_Expires → ¬ KeepsRecord p metaData ttl r) := by
  have hurl : FromUrl r :=
    ⟨hr ▸ fresh_identify store drawn lngTimeOutSetting dtExpires blnSnifQueryStringFirst cookie
      query, hfound⟩
  exact ⟨fun h => not_hidesContents p metaData ttl hurl h.1, not_keepsRecord p ttl hurl hforbids⟩

/-- A request without a cookie that presents the id 7 in its query string. -/
def presentsSeven : Request .ordinal :=
  (Request.start (fun _ => none) 0 20 0 false).identify none (some 7)

/-- The settings of a session that forbids re-entrance. -/
def forbidding : PersistMetaData where
  m_Expires := 20
  m_ReEntrance := false
  m_Liquid := false
  m_zLen := 0

/-- The session of that id is exposed to it. -/
theorem presentsSeven_exposed :
    ¬ Shielded .counting forbidding 1200 presentsSeven ∧
      (0 < SessionStore.seconds forbidding.m_Expires →
        ¬ KeepsRecord .counting forbidding 1200 presentsSeven) :=
  not_shielded .counting (fun _ => none) 0 20 0 false none (some 7) forbidding 1200 rfl rfl rfl

/-- The names of the variables the request has after `dbInit`. -/
def namesLoaded (payload : List UInt8) : Option (List Bstr) :=
  ((holding forbidding 1200 payload presentsSeven).dbInit .counting).toOption.map
    fun res => res.2.m_piVarDict.dictionary.keys

/-- It reads the variable that is stored there. -/
theorem presentsSeven_not_shielded : ¬ Shielded .counting forbidding 1200 presentsSeven := by
  have hnumber : namesLoaded (dictionaryBytes .zero (oneNumber : VariantDictionary .ordinal)) =
      some [Bstr.ofString "a"] := by decide +kernel
  have hnothing : namesLoaded [] = some [] := by decide +kernel
  intro h
  unfold namesLoaded at hnumber hnothing
  obtain ⟨⟨hr, r₁⟩, hrun, hkeys⟩ := Option.map_eq_some_iff.mp hnumber
  obtain ⟨⟨hr', r₁'⟩, hrun', hkeys'⟩ := Option.map_eq_some_iff.mp hnothing
  have hsame : r₁.m_piVarDict.dictionary = r₁'.m_piVarDict.dictionary :=
    h.1 _ _ _ _ _ _ (Run.eq_ok_of_toOption hrun) (Run.eq_ok_of_toOption hrun')
  simp only [hsame, hkeys'] at hkeys
  cases hkeys

end IspSession.Analysis
