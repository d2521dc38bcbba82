import IspSession.Analysis.SessionKeys
import IspSession.Analysis.ManagedSettings
import IspSession.Analysis.ModuleProtocol

/-!
# The envelope of a record

All writers put the same 32 bytes in front of the payload and all readers find them there, with
the two Booleans as -1 and 0. They differ on a payload without bytes: `SessionSave` of the COM
component then writes nothing, `OpenRowset` reads metadata alone as a session without a stream,
`SessionGet` of the ASP.NET module as no session, and the core loads the items from an empty
stream, which throws.
-/

set_option autoImplicit false

namespace IspSession.Analysis

open IspSession.Library IspSession.Model CSessionManaged

/-! ## The claim -/

/-- What a record carries. -/
structure Envelope where
  settings : ManagedSettings
  payload : Bytes

/-- A call that writes a record. -/
inductive EnvelopeWriter (host : HttpHost)
  | nativeSave (zLen : BitVec 32) (stamp : DBTimeStamp)
  | nativeInsert (stamp : DBTimeStamp)
  | moduleSave (state : ISPHttpSessionStateContainer host.names)
  | moduleInsert
  | coreSave (items : StateItemCollection host.strings NetValue)

/-- Those that read one. -/
inductive EnvelopeReader
  | native
  | module
  | core

section Claim

variable (host : HttpHost) (settings : SessionAppSettings) (app guid : Guid) (id : Bstr)

/-- The metadata of an envelope. -/
def Envelope.metaData (e : Envelope) : CSessionDL.PersistMetaData where
  Expires := e.settings.Expires
  ReEntrance := CSessionDL.variantBool e.settings.ReEntrance
  Liquid := CSessionDL.variantBool e.settings.Liquid
  ZLen := 0

namespace EnvelopeWriter

variable {host}

/-- The call is one that writes this envelope: an insert has no payload, the module takes the
two flags from its configuration, and the payload is what `LocalContents` makes of the items. -/
def Makes (e : Envelope) : EnvelopeWriter host → Prop
  | .nativeSave _ _ => True
  | .nativeInsert _ => e.payload = []
  | .moduleSave state =>
    state.SessionID = id ∧ state.oldSessionId = none ∧ state.IsReadOnly = false ∧
      state.Timeout = e.settings.Expires ∧ liquid settings = e.settings.Liquid ∧
      reEntrance settings = e.settings.ReEntrance ∧
      ∃ zLen, CSessionManaged.PersistUtil.localContents host.strings host.runtime state.Items =
        .ok (e.payload, zLen)
  | .moduleInsert => e.payload = []
  | .coreSave items =>
    items.isReadOnly = false ∧ items.dirty = true ∧
      ∃ zLen, Model.PersistUtil.localContents host.runtime items = .ok (e.payload, zLen)

/-- The time to live that it asks for, in milliseconds. -/
def time (e : Envelope) : EnvelopeWriter host → ℤ
  | .nativeSave _ _ | .nativeInsert _ => SessionStore.seconds e.settings.Expires * 1000
  | .moduleSave state => CSessionDL.milliseconds (CSessionManaged.CSessionDL.minutes settings state)
  | .moduleInsert | .coreSave _ => CSessionDL.milliseconds e.settings.Expires

/-- What it does. -/
def run (e : Envelope) (database : Keyspace) : EnvelopeWriter host → Keyspace
  | .nativeSave zLen stamp =>
    NativeCommand.runAll database (SessionRedis.sessionSave app guid e.settings.Expires
      e.settings.ReEntrance e.settings.Liquid none (some ⟨e.payload, 0⟩) zLen stamp)
  | .nativeInsert stamp =>
    NativeCommand.runAll database (SessionRedis.sessionInsert app guid e.settings.Expires
      e.settings.ReEntrance e.settings.Liquid stamp)
  | .moduleSave state =>
    (CSessionManaged.CSessionDL.sessionSave host settings state (.new database 0)).2.database
  | .moduleInsert =>
    (CSessionManaged.CSessionDL.sessionInsert settings id e.metaData
      (.new database 0 : HttpExchange host.names)).database
  | .coreSave items =>
    (Model.CSessionDL.sessionSaveAsync host.toManagedHost settings database items e.metaData id
      none).2

end EnvelopeWriter

/-- A reader gives the settings and the payload of the envelope; what a managed one loads from an
empty payload is a session without items. -/
def EnvelopeReader.Reads (e : Envelope) (database : Keyspace) : EnvelopeReader → Prop
  | .native => ∃ zLen, SessionRedis.openRowset app guid database = .ok (.sOk, {
      m_Expires := e.settings.Expires
      m_ReEntrance := variantBoolOf e.settings.ReEntrance
      m_Liquid := variantBoolOf e.settings.Liquid
      m_zLen := zLen
      m_pStream := if e.payload = [] then none else some ⟨e.payload, 0⟩ })
  | .module => ∃ m, settingsIn m = e.settings ∧
      CSessionManaged.CSessionDL.sessionFound host settings database id =
        if e.payload = [] then .ok (some (m, .new))
        else (CSessionManaged.PersistUtil.localLoad host.runtime host.loaders e.payload).map
          fun items => some (m, items)
  | .core => ∃ m, settingsIn m = e.settings ∧
      Model.CSessionDL.sessionGetAsync host.toManagedHost settings database id =
        if e.payload = [] then .ok (some (m, .new))
        else (Model.PersistUtil.localLoad host.runtime host.loaders e.payload).map
          fun items => some (m, items)

/-- The call writes a session without payload as metadata alone. -/
def EnvelopeWriter.inserts {host : HttpHost} : EnvelopeWriter host → Bool
  | .nativeInsert _ | .moduleInsert => true
  | _ => false

end Claim

/-! ## What is stored -/

section Stored

variable {host : HttpHost} {settings : SessionAppSettings} {app guid : Guid} {id : Bstr}
  {database : Keyspace} {e : Envelope}

/-- INTERNAL: the bytes of a record. -/
def Envelope.record (e : Envelope) (stamp : DBTimeStamp) (zLen : BitVec 32) : Bytes :=
  PersistMetaDataBytes.toBytes {
    m_LastUpdated := stamp
    m_Expires := e.settings.Expires
    m_ReEntrance := variantBoolOf e.settings.ReEntrance
    m_Liquid := variantBoolOf e.settings.Liquid
    m_zLen := zLen } ++ e.payload

/-- INTERNAL: the time stamp of the managed writers. -/
def noTime : DBTimeStamp := ⟨List.replicate 16 0, rfl⟩

/-- INTERNAL: the record that a managed writer makes. -/
theorem toByteArray_metaData (zLen : ℕ) :
    CSessionDL.toByteArray { e.metaData with ZLen := BitVec.ofNat 32 zLen } ++ e.payload =
      e.record noTime (BitVec.ofNat 32 zLen) := rfl

/-- INTERNAL: a payload is never empty: the count of the items comes first. -/
theorem ne_nil_of_writePayload {rt : NetRuntime} {cells : List (Bstr × NetRun NetValue)}
    {bytes : Bytes} {zLen : ℕ} (h : writePayload rt cells = .ok (bytes, zLen)) : bytes ≠ [] := by
  have hwrite : ∀ (str : CStream) (b : UInt8) (bs : Bytes), (str.write (b :: bs)).buf ≠ [] := by
    intro str b bs hnil
    rw [CStream.write, if_neg (List.cons_ne_nil b bs)] at hnil
    have hlength := congrArg List.length hnil
    simp only [List.length_append, List.length_cons, List.length_nil] at hlength
    omega
  have hproperty : ∀ {key : Bstr} {value : NetValue} {str str' : CStream},
      Model.PersistUtil.writeProperty rt key value str = .ok str' → str'.buf ≠ [] := by
    intro key value str str' hrun
    obtain ⟨s₁, -, hrun⟩ := NetRun.bind_eq_ok hrun
    obtain ⟨s₂, -, hrun⟩ := NetRun.bind_eq_ok hrun
    cases hrun
    exact hwrite _ _ _
  have hitems : ∀ (cells : List (Bstr × NetRun NetValue)) {str str' : CStream},
      str.buf ≠ [] → writeItems rt cells str = .ok str' → str'.buf ≠ [] := by
    intro cells
    induction cells with
    | nil =>
      intro str str' hstr hrun
      cases hrun
      exact hstr
    | cons cell cells ih =>
      intro str str' hstr hrun
      obtain ⟨value, -, hrun⟩ := NetRun.bind_eq_ok hrun
      obtain ⟨s₁, hfirst, hrun⟩ := NetRun.bind_eq_ok hrun
      exact ih (hproperty hfirst) hrun
  obtain ⟨s₁, hfirst, h⟩ := NetRun.bind_eq_ok h
  obtain ⟨s₂, hrest, h⟩ := NetRun.bind_eq_ok h
  cases h
  exact hitems cells (hproperty hfirst) hrest

/-- **What a call sends**: a `SET` of the record, unless `SessionSave` of the component has no
bytes to write. -/
theorem run_eq {w : EnvelopeWriter host} (hkey : sessionKey app guid = CSessionDL.getKey settings id)
    (hcompress : settings.Compress = false) (hmakes : w.Makes settings id e) :
    if e.payload ≠ [] ∨ w.inserts = true then
      ∃ stamp zLen, w.run settings app guid id e database =
        database.setExpiring (CSessionDL.getKey settings id) (e.record stamp zLen)
          (w.time settings e)
    else w.run settings app guid id e database = database := by
  cases w with
  | nativeSave zLen stamp =>
    by_cases hpayload : e.payload = []
    · rw [if_neg fun h => by rcases h with h | h; exacts [h hpayload, Bool.false_ne_true h]]
      simp only [EnvelopeWriter.run, SessionRedis.sessionSave, hpayload]
      rfl
    · rw [if_pos (.inl hpayload), ← hkey]
      refine ⟨stamp, zLen, ?_⟩
      simp only [EnvelopeWriter.run, SessionRedis.sessionSave, if_neg hpayload]
      rfl
  | nativeInsert stamp =>
    have hpayload : e.payload = [] := hmakes
    rw [if_pos (.inr rfl), ← hkey]
    refine ⟨stamp, 0, ?_⟩
    rw [Envelope.record, hpayload, List.append_nil]
    rfl
  | moduleSave state =>
    obtain ⟨hid, hold, hread, htimeout, hliquid, hreEntrance, zLen, hcontents⟩ := hmakes
    have hpayload : e.payload ≠ [] := by
      rw [moduleContents_eq] at hcontents
      exact ne_nil_of_writePayload hcontents
    have hmeta : CSessionManaged.CSessionDL.metaData settings state.Timeout zLen =
        { e.metaData with ZLen := BitVec.ofNat 32 zLen } := by
      rw [CSessionManaged.CSessionDL.metaData, htimeout, hliquid, hreEntrance]
      rfl
    have hbytes : CSessionManaged.CSessionDL.compressed settings host.deflate e.payload =
        e.payload := by
      rw [CSessionManaged.CSessionDL.compressed, hcompress, if_neg Bool.false_ne_true]
    rw [if_pos (.inl hpayload)]
    refine ⟨noTime, BitVec.ofNat 32 zLen, ?_⟩
    rw [EnvelopeWriter.run, CSessionManaged.CSessionDL.sessionSave, hread,
      if_neg Bool.false_ne_true, hcontents, hold, hid]
    dsimp only
    rw [hmeta, hbytes, toByteArray_metaData]
    rfl
  | moduleInsert =>
    have hpayload : e.payload = [] := hmakes
    rw [if_pos (.inr rfl)]
    refine ⟨noTime, 0, ?_⟩
    rw [Envelope.record, hpayload, List.append_nil]
    rfl
  | coreSave items =>
    obtain ⟨hread, hdirty, zLen, hcontents⟩ := hmakes
    have hpayload : e.payload ≠ [] := by
      rw [localContents_eq] at hcontents
      exact ne_nil_of_writePayload hcontents
    rw [if_pos (.inl hpayload)]
    refine ⟨noTime, BitVec.ofNat 32 zLen, ?_⟩
    rw [EnvelopeWriter.run, CSessionDL.sessionSaveAsync, hcontents]
    dsimp only
    rw [hread, hdirty, Bool.not_true, Bool.or_false, if_neg Bool.false_ne_true,
      CSessionDL.packed, hcompress, if_neg Bool.false_ne_true, toByteArray_metaData]
    rfl

/-- INTERNAL: what is under the key then. -/
theorem entry_run {w : EnvelopeWriter host} (hkey : sessionKey app guid = CSessionDL.getKey settings id)
    (hcompress : settings.Compress = false)
    (hnone : database (CSessionDL.getKey settings id) = none) (hmakes : w.Makes settings id e) :
    if 0 < w.time settings e ∧ (e.payload ≠ [] ∨ w.inserts = true) then
      ∃ stamp zLen ttl, w.run settings app guid id e database (CSessionDL.getKey settings id) =
        some ⟨.string (e.record stamp zLen), ttl⟩
    else w.run settings app guid id e database (CSessionDL.getKey settings id) = none := by
  have hrun := @run_eq host settings app guid id database e w hkey hcompress hmakes
  by_cases hwrites : e.payload ≠ [] ∨ w.inserts = true
  · rw [if_pos hwrites] at hrun
    obtain ⟨stamp, zLen, hrun⟩ := hrun
    rw [hrun, Keyspace.setExpiring]
    by_cases htime : 0 < w.time settings e
    · rw [if_pos ⟨htime, hwrites⟩, if_neg (by omega), Function.update_self]
      exact ⟨stamp, zLen, _, rfl⟩
    · rw [if_neg fun h => htime h.1, if_pos (by omega)]
      exact hnone
  · rw [if_neg hwrites] at hrun
    rw [if_neg fun h => hwrites h.2, hrun]
    exact hnone

/-! ## What is read -/

/-- INTERNAL: the metadata of the record as it is read. -/
theorem fromByteArray_record (stamp : DBTimeStamp) (zLen : BitVec 32) :
    CSessionDL.fromByteArray (e.record stamp zLen) = .ok { e.metaData with ZLen := zLen } :=
  fromByteArray_toBytes _ _

theorem length_record (stamp : DBTimeStamp) (zLen : BitVec 32) :
    (e.record stamp zLen).length = 32 + e.payload.length := by
  rw [Envelope.record, List.length_append, length_toBytes]

/-- INTERNAL: the settings in it are those of the envelope. -/
theorem settingsIn_metaData (zLen : BitVec 32) :
    settingsIn { e.metaData with ZLen := zLen } = e.settings := by
  have hbool : ∀ b : Bool, decide (CSessionDL.variantBool b = -1) = b := by decide
  rw [settingsIn]
  show ManagedSettings.mk _ _ _ = _
  rw [show ({ e.metaData with ZLen := zLen } : CSessionDL.PersistMetaData).Liquid =
    CSessionDL.variantBool e.settings.Liquid from rfl,
    show ({ e.metaData with ZLen := zLen } : CSessionDL.PersistMetaData).ReEntrance =
    CSessionDL.variantBool e.settings.ReEntrance from rfl, hbool, hbool]
  rfl

/-- INTERNAL: `OpenRowset` reads every record. -/
theorem openRecord_record (stamp : DBTimeStamp) (zLen : BitVec 32) :
    SessionRedis.openRecord (e.record stamp zLen) = .ok {
      m_Expires := e.settings.Expires
      m_ReEntrance := variantBoolOf e.settings.ReEntrance
      m_Liquid := variantBoolOf e.settings.Liquid
      m_zLen := zLen
      m_pStream := if e.payload = [] then none else some ⟨e.payload, 0⟩ } := by
  have hfields := @fromByteArray_record e stamp zLen
  rw [CSessionDL.fromByteArray, if_neg (by rw [length_record]; omega)] at hfields
  injection Except.ok.inj hfields with hsize hexpires hreEntrance hliquid hzLen
  have hsize' : BitVec.ofNat 32 (CSessionDL.fieldAt (e.record stamp zLen) 0 4) = 32 := hsize
  have hnull : decide (((e.record stamp zLen).length : ℤ) = (32 : BitVec 32).toInt) =
      decide (e.payload = []) := by
    rw [length_record, show (32 : BitVec 32).toInt = 32 from rfl, decide_eq_decide,
      ← List.length_eq_zero_iff]
    omega
  have hdrop : (e.record stamp zLen).drop (32 : BitVec 32).toNat = e.payload :=
    List.drop_left' (length_toBytes _)
  rw [SessionRedis.openRecord, if_neg (by rw [length_record]; omega)]
  dsimp only
  rw [hsize', hexpires, hreEntrance, hliquid, hzLen, hnull, hdrop,
    if_neg fun h => absurd h.1 (by decide)]
  simp only [decide_eq_true_eq]
  rfl

/-- INTERNAL: the payload that a managed reader takes. -/
theorem payloadStream_envelope (hcompress : settings.Compress = false) (stamp : DBTimeStamp)
    (zLen : BitVec 32) :
    CSessionDL.payloadStream host.deflate settings { e.metaData with ZLen := zLen }
      (e.record stamp zLen) = .ok e.payload :=
  payloadStream_header (length_toBytes _) rfl (fun h => by rw [hcompress] at h; cases h)
    fun _ => rfl

/-- INTERNAL: `SessionGet` of the module takes metadata alone for no session. -/
theorem sessionFound_record {stamp : DBTimeStamp} {zLen : BitVec 32} {ttl : Option ℤ}
    (hcompress : settings.Compress = false)
    (hentry : database (CSessionDL.getKey settings id) =
      some ⟨.string (e.record stamp zLen), ttl⟩) :
    CSessionManaged.CSessionDL.sessionFound host settings database id =
      if e.payload = [] then .ok none
      else (CSessionManaged.PersistUtil.localLoad host.runtime host.loaders e.payload).map
        fun items => some ({ e.metaData with ZLen := zLen }, items) := by
  have hlength : ((e.record stamp zLen).length : ℤ) =
      ({ e.metaData with ZLen := zLen } : CSessionDL.PersistMetaData).SizeofMeta.toInt ↔
        e.payload = [] := by
    rw [length_record, show ({ e.metaData with ZLen := zLen } :
      CSessionDL.PersistMetaData).SizeofMeta.toInt = 32 from rfl, ← List.length_eq_zero_iff]
    omega
  rw [CSessionManaged.CSessionDL.sessionFound, hentry]
  dsimp only
  rw [fromByteArray_record, NetRun.ok_bind]
  by_cases hpayload : e.payload = []
  · rw [if_pos hpayload, if_pos (hlength.mpr hpayload)]
    rfl
  · rw [if_neg hpayload, if_neg fun h => hpayload (hlength.mp h),
      payloadStream_envelope hcompress, NetRun.ok_bind]
    cases CSessionManaged.PersistUtil.localLoad host.runtime host.loaders e.payload <;> rfl

/-- INTERNAL: the core loads the items from any payload. -/
theorem sessionGetAsync_record {stamp : DBTimeStamp} {zLen : BitVec 32} {ttl : Option ℤ}
    (hid : id ≠ []) (hcompress : settings.Compress = false)
    (hentry : database (CSessionDL.getKey settings id) =
      some ⟨.string (e.record stamp zLen), ttl⟩) :
    CSessionDL.sessionGetAsync host.toManagedHost settings database id =
      (Model.PersistUtil.localLoad host.runtime host.loaders e.payload).map
        fun items => some ({ e.metaData with ZLen := zLen }, items) := by
  rw [CSessionDL.sessionGetAsync, if_neg hid, hentry]
  dsimp only
  rw [fromByteArray_record, NetRun.ok_bind, payloadStream_envelope hcompress, NetRun.ok_bind]
  cases Model.PersistUtil.localLoad host.runtime host.loaders e.payload <;> rfl

/-- INTERNAL: from an empty stream it cannot. -/
theorem localLoad_nil {strings : NetStrings} (rt : NetRuntime) (loaders : NetLoaders) :
    (Model.PersistUtil.localLoad rt loaders [] : NetRun (StateItemCollection strings NetValue)) =
      .error .corruptState := rfl

/-- INTERNAL: what a managed reader has to give is a session. -/
theorem session_ne_none {α β : Type} (payload : Bytes) (m : β) (empty : α) (loaded : NetRun α) :
    (if payload = [] then (.ok (some (m, empty)) : NetRun (Option (β × α)))
      else loaded.map fun items => some (m, items)) ≠ .ok none := by
  intro h
  split at h
  · cases h
  · cases loaded with
    | error e => cases h
    | ok items => cases h

/-! ## The theorem -/

/-- **Every reader reads what every writer has written, of a payload that is not empty**; metadata
alone only the component reads. -/
theorem reads_run_iff {w : EnvelopeWriter host} {r : EnvelopeReader} (hid : id ≠ [])
    (hkey : sessionKey app guid = CSessionDL.getKey settings id)
    (hcompress : settings.Compress = false)
    (hnone : database (CSessionDL.getKey settings id) = none) (hmakes : w.Makes settings id e) :
    r.Reads host settings app guid id e (w.run settings app guid id e database) ↔
      0 < w.time settings e ∧ (e.payload ≠ [] ∨ w.inserts = true ∧ r = .native) := by
  have hentry := @entry_run host settings app guid id database e w hkey hcompress hnone hmakes
  by_cases hwritten : 0 < w.time settings e ∧ (e.payload ≠ [] ∨ w.inserts = true)
  · rw [if_pos hwritten] at hentry
    obtain ⟨stamp, zLen, ttl, hentry⟩ := hentry
    cases r with
    | native =>
      refine ⟨fun _ => ⟨hwritten.1, hwritten.2.imp_right fun h => ⟨h, rfl⟩⟩, fun _ => ?_⟩
      refine ⟨zLen, ?_⟩
      rw [SessionRedis.openRowset, hkey, hentry]
      dsimp only
      rw [openRecord_record]
      rfl
    | module =>
      unfold EnvelopeReader.Reads
      rw [sessionFound_record hcompress hentry]
      by_cases hpayload : e.payload = []
      · constructor
        · rintro ⟨m, -, h⟩
          rw [if_pos hpayload] at h
          exact absurd h.symm (session_ne_none _ _ _ _)
        · rintro ⟨-, h | ⟨-, h⟩⟩
          · exact absurd hpayload h
          · cases h
      · refine ⟨fun _ => ⟨hwritten.1, .inl hpayload⟩, fun _ => ⟨_, settingsIn_metaData zLen, ?_⟩⟩
        rw [if_neg hpayload, if_neg hpayload]
    | core =>
      unfold EnvelopeReader.Reads
      rw [sessionGetAsync_record hid hcompress hentry]
      by_cases hpayload : e.payload = []
      · constructor
        · rintro ⟨m, -, h⟩
          rw [hpayload, localLoad_nil, if_pos rfl] at h
          cases h
        · rintro ⟨-, h | ⟨-, h⟩⟩
          · exact absurd hpayload h
          · cases h
      · refine ⟨fun _ => ⟨hwritten.1, .inl hpayload⟩, fun _ => ?_⟩
        exact ⟨_, settingsIn_metaData zLen, (if_neg hpayload).symm⟩
  · rw [if_neg hwritten] at hentry
    refine ⟨fun hreads => ?_, fun h => absurd ⟨h.1, h.2.imp_right fun h' => h'.1⟩ hwritten⟩
    exfalso
    cases r with
    | native =>
      obtain ⟨zLen, h⟩ := hreads
      rw [SessionRedis.openRowset, hkey, hentry] at h
      cases h
    | module =>
      obtain ⟨m, -, h⟩ := hreads
      rw [show CSessionManaged.CSessionDL.sessionFound host settings
        (w.run settings app guid id e database) id = .ok none by
          rw [CSessionManaged.CSessionDL.sessionFound, hentry]] at h
      exact session_ne_none _ _ _ _ h.symm
    | core =>
      obtain ⟨m, -, h⟩ := hreads
      rw [sessionGetAsync_none hid hentry] at h
      exact session_ne_none _ _ _ _ h.symm

end Stored

/-- The settings of a session for 20 minutes. -/
def twentyMinutes : ManagedSettings := ⟨20, false, false⟩

/-- INTERNAL: a session that has the same key on both sides. -/
theorem sessionKey_upperKey : ∃ g, sessionKey g g = CSessionDL.getKey upperSettings upperKey := by
  have htaken : (guidOfText upperKey).isSome = true := by decide +kernel
  obtain ⟨g, hg⟩ := Option.isSome_iff_exists.mp htaken
  have hupper : IsPrinted upperKey := fun u hu => by
    rw [List.eq_of_mem_replicate hu]
    decide
  have hvalid : ISPSessionIDManager.validate upperKey = true := by decide
  exact ⟨g, (@sessionKey_eq_getKey_iff upperSettings g g upperKey hvalid hg hg).mpr
    ⟨⟨List.length_replicate, hupper⟩, hupper⟩⟩

/-- The core reads what the component has saved. -/
theorem nativeSave_reads :
    ∃ app guid, EnvelopeReader.core.Reads sampleHttpHost upperSettings app guid upperKey
      ⟨twentyMinutes, onePayload⟩
      ((EnvelopeWriter.nativeSave 0 noTime : EnvelopeWriter sampleHttpHost).run upperSettings app
        guid upperKey ⟨twentyMinutes, onePayload⟩ fun _ => none) := by
  obtain ⟨g, hkey⟩ := sessionKey_upperKey
  have hmakes : (EnvelopeWriter.nativeSave 0 noTime : EnvelopeWriter sampleHttpHost).Makes
      upperSettings upperKey ⟨twentyMinutes, onePayload⟩ := trivial
  have hpayload : onePayload ≠ [] := by decide +kernel
  exact ⟨g, g, (reads_run_iff (by decide) hkey rfl rfl hmakes).mpr
    ⟨by decide +kernel, .inl hpayload⟩⟩

/-- **The core throws on a session that the component has inserted.** -/
theorem nativeInsert_not_reads :
    ∃ app guid, sessionKey app guid = CSessionDL.getKey upperSettings upperKey ∧
      ¬ EnvelopeReader.core.Reads sampleHttpHost upperSettings app guid upperKey
        ⟨twentyMinutes, []⟩
        ((EnvelopeWriter.nativeInsert noTime : EnvelopeWriter sampleHttpHost).run upperSettings app
          guid upperKey ⟨twentyMinutes, []⟩ fun _ => none) := by
  obtain ⟨g, hkey⟩ := sessionKey_upperKey
  refine ⟨g, g, hkey, ?_⟩
  rintro ⟨m, -, hget⟩
  have hmakes : (EnvelopeWriter.nativeInsert noTime : EnvelopeWriter sampleHttpHost).Makes
      upperSettings upperKey ⟨twentyMinutes, []⟩ := rfl
  have hentry := @entry_run sampleHttpHost upperSettings g g upperKey (fun _ => none)
    ⟨twentyMinutes, []⟩ _ hkey rfl rfl hmakes
  rw [if_pos ⟨by decide +kernel, .inr rfl⟩] at hentry
  obtain ⟨stamp, zLen, ttl, hentry⟩ := hentry
  rw [sessionGetAsync_record (by decide) rfl hentry, localLoad_nil] at hget
  cases hget

end IspSession.Analysis
