import IspSession.Analysis.SessionWork

/-!
# The commit of a managed session

A request on a stored session that is not liquid: `Abandon` sets `_isAbandoned` and resets it, so
that `CommitAsync` never deletes a record. It stores the items when they are dirty, and sets the
time to live when they are not.
-/

set_option autoImplicit false

namespace IspSession.Analysis

open IspSession.Library IspSession.Model

variable {host : ManagedHost} {settings : SessionAppSettings} {x : Exchange host}

/-! ## The claim -/

/-- What `CommitAsync` is to leave of a session after these calls: no record when `Abandon` was
one of them, and otherwise the items and the time-out. -/
def CommitLaw (settings : SessionAppSettings) (calls : List SessionCall) (x : Exchange host) :
    Prop :=
  let database := (x.commitAsync settings).2.database
  let key := CSessionDL.getKey settings x.session.SessionID
  (.abandon ∈ calls → database key = none) ∧
    (.abandon ∉ calls →
      (∃ value, database key =
        some { value, ttl := some (CSessionDL.milliseconds x.session.timeOut) }) ∧
      Decodes host settings database x.session.SessionID x.session.sessionItems)

/-- The contents of the items can be made, and they come back from a record when they are to be
stored. -/
structure Committable (host : ManagedHost) (settings : SessionAppSettings)
    (items : StateItemCollection host.strings NetValue) : Prop where
  contents : ∃ out, PersistUtil.localContents host.runtime items = .ok out
  comesBack : items.dirty = true → ComesBack host settings items

/-! ## What a commit leaves -/

section Commit

variable {database : Keyspace} {id : Bstr} {old : Option Bstr}
  {items : StateItemCollection host.strings NetValue}

/-- INTERNAL: the commit of a dirty session. -/
theorem commit_dirty (h : Working database id old items x) (hid : id ≠ [])
    (hdirty : x.session.sessionItems.dirty = true)
    (hback : ComesBack host settings x.session.sessionItems)
    (htime : 0 < CSessionDL.milliseconds x.session.timeOut) :
    (∃ value, (x.commitAsync settings).2.database (CSessionDL.getKey settings id) =
        some { value, ttl := some (CSessionDL.milliseconds x.session.timeOut) }) ∧
      Decodes host settings (x.commitAsync settings).2.database id x.session.sessionItems := by
  obtain ⟨bytes, zLen, loaded, hcontents, hcompress, hload, hsame⟩ := hback
  have hentry : (x.commitAsync settings).2.database (CSessionDL.getKey settings id) =
      some { value := .string (committedBlob settings x bytes zLen)
             ttl := some (CSessionDL.milliseconds x.session.timeOut) } := by
    rw [commitAsync_database h.toStanding hcontents, if_pos hdirty, Keyspace.setExpiring,
      if_neg (by omega), Function.update_self]
  refine ⟨⟨_, hentry⟩, ?_⟩
  have hpayload : CSessionDL.payloadStream host.deflate settings
      { x.session.persistMetaData with ZLen := BitVec.ofNat 32 zLen }
      (committedBlob settings x bytes zLen) = .ok bytes := by
    refine payloadStream_stored rfl fun hc => ?_
    obtain ⟨hlt, hback⟩ := hcompress hc
    refine ⟨?_, hback⟩
    rw [BitVec.toInt_eq_toNat_of_lt (by rw [BitVec.toNat_ofNat]; omega)]
    exact Int.natCast_nonneg _
  exact ⟨_, loaded, sessionGetAsync_of_string hid hentry hpayload hload, hsame⟩

/-- INTERNAL: the commit of a clean session whose record is under its id. -/
theorem commit_clean (h : Working database id old items x) {m : CSessionDL.PersistMetaData}
    (hget : CSessionDL.sessionGetAsync host settings (renamed settings database id old) id =
      .ok (some (m, items)))
    (hdirty : x.session.sessionItems.dirty = false)
    (hcontents : ∃ out, PersistUtil.localContents host.runtime x.session.sessionItems = .ok out)
    (htime : 0 < CSessionDL.milliseconds x.session.timeOut) :
    (∃ value, (x.commitAsync settings).2.database (CSessionDL.getKey settings id) =
        some { value, ttl := some (CSessionDL.milliseconds x.session.timeOut) }) ∧
      Decodes host settings (x.commitAsync settings).2.database id x.session.sessionItems := by
  obtain ⟨⟨bytes, zLen⟩, hcontents⟩ := hcontents
  obtain ⟨hne, hvalued, blob, ttl, hrecord⟩ := entry_of_sessionGetAsync hget
  have hentry : (x.commitAsync settings).2.database (CSessionDL.getKey settings id) =
      some { value := .string blob
             ttl := some (CSessionDL.milliseconds x.session.timeOut) } := by
    rw [commitAsync_database h.toStanding hcontents, if_neg (by rw [hdirty]; exact Bool.false_ne_true),
      Keyspace.execute, Function.update_self, hrecord, Keyspace.expireIn, if_neg (by omega)]
  refine ⟨⟨_, hentry⟩, ?_⟩
  exact ⟨m, items, (sessionGetAsync_congr hne hne hrecord hentry).trans hget,
    sameItems_unchanged hvalued (h.clean hdirty)⟩

/-- **A commit leaves a record with the items and the time-out under the id**: of a dirty session
anyway, of a clean one where its record is there after the `RENAME`. -/
theorem commit_leaves (h : Working database id old items x) {m : CSessionDL.PersistMetaData}
    (hid : id ≠ [])
    (hget : x.session.sessionItems.dirty = false →
      CSessionDL.sessionGetAsync host settings (renamed settings database id old) id =
        .ok (some (m, items)))
    (hcommittable : Committable host settings x.session.sessionItems)
    (htime : 0 < CSessionDL.milliseconds x.session.timeOut) :
    (∃ value, (x.commitAsync settings).2.database (CSessionDL.getKey settings id) =
        some { value, ttl := some (CSessionDL.milliseconds x.session.timeOut) }) ∧
      Decodes host settings (x.commitAsync settings).2.database id x.session.sessionItems := by
  cases hdirty : x.session.sessionItems.dirty with
  | true => exact commit_dirty h hid hdirty (hcommittable.comesBack hdirty) htime
  | false => exact commit_clean h (hget hdirty) hdirty hcommittable.contents htime

end Commit

/-! ## The theorem -/

/-- **The commit law holds exactly for requests that do not abandon**: for every request on a
stored session that is not liquid, with a first access in front of the response and any calls
behind it. -/
theorem commitLaw_iff {database : Keyspace} {drawn : ℕ} {r : WebRequest} {id : Bstr}
    {m : CSessionDL.PersistMetaData} {items : StateItemCollection host.strings NetValue}
    {first : SessionCall} {calls : List SessionCall}
    (hid : ISPSessionMiddleWare.getSessionIDAsync settings database r = some id)
    (hrecord : CSessionDL.sessionGetAsync host settings database id = .ok (some (m, items)))
    (hliquid : m.Liquid ≠ -1) (hfirst : AccessesItems first) (hcalls : .commitAsync ∉ calls)
    (hx : (Exchange.performAll settings (first :: calls)
      (ISPSessionMiddleWare.enter settings database drawn r)).2 = x)
    (hcommittable : Committable host settings x.session.sessionItems)
    (htime : 0 < CSessionDL.milliseconds x.session.timeOut) :
    CommitLaw settings (first :: calls) x ↔ .abandon ∉ first :: calls := by
  have hwork : Working database id none items x := by
    rw [enter_of_accepted hid] at hx
    rw [← hx]
    have hentered := unloaded_entered host settings database drawn id
    exact (working_of_first hentered rfl rfl hrecord hliquid hfirst).performAll hcalls
  obtain ⟨hne, -⟩ := entry_of_sessionGetAsync hrecord
  have hleaves := commit_leaves hwork hne (fun _ => hrecord) hcommittable htime
  unfold CommitLaw
  rw [hwork.sessionID]
  constructor
  · rintro ⟨hdeleted, -⟩ habandon
    obtain ⟨⟨value, hvalue⟩, -⟩ := hleaves
    rw [hdeleted habandon] at hvalue
    cases hvalue
  · exact fun habandon => ⟨fun h => absurd h habandon, fun _ => hleaves⟩

/-! ## A record -/

/-- A host that orders strings by their code units, counts its random numbers up to 2^64 and does
not compress, for runs on concrete input. -/
def sampleHost : ManagedHost where
  strings := .ordinal firstUnitHash
  runtime := .plain
  loaders := oleOnly
  deflate := { written := id, compress := id, decompress := some, decompress_compress := fun _ => rfl }
  random n := BitVec.ofNat 128 (n % 2 ^ 64)
  lateCallbackThrows := true

/-- Settings with the application key `APP`. -/
def sampleSettings : SessionAppSettings where
  AppKey := Bstr.ofString "APP"
  SnifQueryStringFirst := false
  SessionTimeout := none
  Liquid := none
  ReEntrance := none
  Compress := false

/-- The id of the stored session. -/
def sampleId : Bstr := ISPSessionIDManager.guidToHex (BitVec.ofNat 128 (2 ^ 64))

/-- One item. -/
def oneItem : StateItemCollection sampleHost.strings NetValue :=
  putItem .new [65] (.primitive .int32 5)

/-- The payload of the item. -/
def onePayload : Bytes :=
  match PersistUtil.localContents NetRuntime.plain oneItem with
  | .ok (bytes, _) => bytes
  | .error _ => []

/-- The metadata of its record. -/
def oneMetaData (liquid : BitVec 16) : CSessionDL.PersistMetaData where
  Expires := 20
  ReEntrance := 0
  Liquid := liquid
  ZLen := 0

/-- A database with the record alone. -/
def oneRecord (liquid : BitVec 16) : Keyspace := fun key =>
  if key = CSessionDL.getKey sampleSettings sampleId then
    some ⟨.string (CSessionDL.toByteArray (oneMetaData liquid) ++ onePayload), some 1000⟩
  else none

/-- A request with the id in its cookie. -/
def sampleRequest : WebRequest where
  query := []
  cookie := some sampleId

/-- INTERNAL: the value is this number. -/
def isInt (n : BitVec 32) : NetRun NetValue → Bool
  | .ok (.primitive .int32 bits) => bits == n
  | _ => false

theorem eq_of_isInt {n : BitVec 32} {r : NetRun NetValue} (h : isInt n r = true) :
    r = .ok (.primitive .int32 n) := by
  unfold isInt at h
  split at h
  · rw [eq_of_beq h]
  · cases h

/-- INTERNAL: the item loads. -/
theorem localLoad_onePayload : ∃ items : StateItemCollection sampleHost.strings NetValue,
    PersistUtil.localLoad NetRuntime.plain oleOnly onePayload = .ok items ∧
      items.keys = [[65]] ∧ items.getName [65] = .ok (.primitive .int32 5) := by
  have h : ((PersistUtil.localLoad NetRuntime.plain oleOnly onePayload :
      NetRun (StateItemCollection sampleHost.strings NetValue)).toOption.map fun items =>
        decide (items.keys = [[65]]) && isInt 5 (items.getName [65])) = some true := by
    decide +kernel
  obtain ⟨items, hload, hitems⟩ := Option.map_eq_some_iff.mp h
  simp only [Bool.and_eq_true, decide_eq_true_eq] at hitems
  exact ⟨items, NetRun.eq_ok_of_toOption hload, hitems.1, eq_of_isInt hitems.2⟩

/-- The record is found. -/
theorem sessionGetAsync_oneRecord (liquid : BitVec 16) :
    ∃ items : StateItemCollection sampleHost.strings NetValue,
      CSessionDL.sessionGetAsync sampleHost sampleSettings (oneRecord liquid) sampleId =
        .ok (some (oneMetaData liquid, items)) ∧
        items.keys = [[65]] ∧ items.getName [65] = .ok (.primitive .int32 5) := by
  obtain ⟨items, hload, hitems⟩ := localLoad_onePayload
  have hpayload : CSessionDL.payloadStream sampleHost.deflate sampleSettings (oneMetaData liquid)
      (CSessionDL.toByteArray (oneMetaData liquid) ++
        CSessionDL.packed sampleHost.deflate sampleSettings onePayload) = .ok onePayload :=
    payloadStream_stored rfl fun h => by cases h
  have hid : sampleId ≠ [] := by decide +kernel
  have hentry : oneRecord liquid (CSessionDL.getKey sampleSettings sampleId) =
      some ⟨.string (CSessionDL.toByteArray (oneMetaData liquid) ++ onePayload), some 1000⟩ :=
    if_pos rfl
  exact ⟨items, sessionGetAsync_of_string hid hentry hpayload hload, hitems⟩

/-- The request is on the record. -/
theorem getSessionIDAsync_sampleRequest (liquid : BitVec 16) :
    ISPSessionMiddleWare.getSessionIDAsync sampleSettings (oneRecord liquid) sampleRequest =
      some sampleId := by
  have hvalid : ISPSessionIDManager.validate sampleId = true := validate_guidToHex _
  have hentry : (oneRecord liquid (CSessionDL.getKey sampleSettings sampleId)).isSome = true := by
    rw [oneRecord, if_pos rfl]
    rfl
  rw [ISPSessionMiddleWare.getSessionIDAsync, show sampleRequest.cookie = some sampleId from rfl]
  dsimp only
  rw [hvalid, if_pos rfl, show (sampleSettings.SnifQueryStringFirst && sampleRequest.queryValid) =
    false from rfl, if_neg Bool.false_ne_true]
  exact if_pos hentry

/-- INTERNAL: clean items whose contents can be made. -/
theorem committable_of_clean {items : StateItemCollection sampleHost.strings NetValue}
    (hcontents : (PersistUtil.localContents NetRuntime.plain items).toOption.isSome = true)
    (hclean : items.dirty = false) : Committable sampleHost sampleSettings items := by
  obtain ⟨out, hout⟩ := Option.isSome_iff_exists.mp hcontents
  refine ⟨⟨out, NetRun.eq_ok_of_toOption hout⟩, fun h => ?_⟩
  rw [hclean] at h
  cases h

/-- A page that sets a second item. -/
def setsItem : SessionCall := .items (.setName [66] (.primitive .int32 7))

/-- The request after a page that makes these calls. -/
def sampleRun (liquid : BitVec 16) (calls : List SessionCall) : Exchange sampleHost :=
  (Exchange.performAll sampleSettings calls
    (ISPSessionMiddleWare.enter sampleSettings (oneRecord liquid) 0 sampleRequest)).2

/-- INTERNAL: its items can be stored. -/
theorem committable_setsItem :
    Committable sampleHost sampleSettings (sampleRun 0 [setsItem]).session.sessionItems := by
  have hitems : (sampleRun 0 [setsItem]).session.sessionItems.keys = [[65], [66]] ∧
      isInt 5 ((sampleRun 0 [setsItem]).session.sessionItems.getName [65]) = true ∧
      isInt 7 ((sampleRun 0 [setsItem]).session.sessionItems.getName [66]) = true := by decide +kernel
  obtain ⟨hkeys, hfirst, hsecond⟩ := hitems
  have hback : (do
      let (bytes, _) ← PersistUtil.localContents NetRuntime.plain
        (sampleRun 0 [setsItem]).session.sessionItems
      let loaded : StateItemCollection sampleHost.strings NetValue ←
        PersistUtil.localLoad NetRuntime.plain oleOnly bytes
      pure (decide (loaded.keys = [[65], [66]]) && isInt 5 (loaded.getName [65]) &&
        isInt 7 (loaded.getName [66]))).toOption = some true := by decide +kernel
  obtain ⟨⟨bytes, zLen⟩, hcontents, hback⟩ := NetRun.bind_eq_ok (NetRun.eq_ok_of_toOption hback)
  obtain ⟨loaded, hload, hback⟩ := NetRun.bind_eq_ok hback
  have hloaded := Except.ok.inj hback
  simp only [Bool.and_eq_true, decide_eq_true_eq] at hloaded
  obtain ⟨⟨hkeys', hfirst'⟩, hsecond'⟩ := hloaded
  refine ⟨⟨_, hcontents⟩, fun _ => ⟨bytes, zLen, loaded, hcontents, fun h => (by cases h), hload,
    hkeys'.trans hkeys.symm, fun key hkey => ?_⟩⟩
  rw [hkeys] at hkey
  simp only [List.mem_cons, List.not_mem_nil, or_false] at hkey
  rcases hkey with rfl | rfl
  · exact ⟨_, _, eq_of_isInt hfirst, eq_of_isInt hfirst', rfl⟩
  · exact ⟨_, _, eq_of_isInt hsecond, eq_of_isInt hsecond', rfl⟩

/-- The commit law holds for it. -/
theorem setsItem_commitLaw : CommitLaw sampleSettings [setsItem] (sampleRun 0 [setsItem]) := by
  obtain ⟨items, hget, -⟩ := sessionGetAsync_oneRecord 0
  have hfirst : AccessesItems setsItem := trivial
  exact (commitLaw_iff (getSessionIDAsync_sampleRequest 0) hget (by decide) hfirst
    List.not_mem_nil rfl committable_setsItem (by decide +kernel)).mpr (by
      intro h
      cases List.mem_singleton.mp h)

/-- **A session that is abandoned stays in Redis.** -/
theorem abandon_not_commitLaw : ¬ CommitLaw sampleSettings [.abandon] (sampleRun 0 [.abandon]) := by
  rintro ⟨hdeleted, -⟩
  have hkept : (((sampleRun 0 [.abandon]).commitAsync sampleSettings).2.database
      (CSessionDL.getKey sampleSettings
        (sampleRun 0 [.abandon]).session.SessionID)).isSome = true := by decide +kernel
  rw [hdeleted List.mem_cons_self] at hkept
  cases hkept

end IspSession.Analysis
