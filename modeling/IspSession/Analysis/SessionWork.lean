import IspSession.Analysis.LazyLoad

/-!
# A managed session at work

What the members of a loaded session keep (`Working`): only the items, the time-out and the
response change, and while the items are not dirty they are the ones that were fetched. With it,
what `CommitAsync` leaves in Redis.
-/

set_option autoImplicit false

namespace IspSession.Analysis

open IspSession.Library IspSession.Model

/-! ## Items -/

section Items

variable {strings : NetStrings} {s t u : StateItemCollection strings NetValue}

/-- The same names, with the same values unless there are none. -/
structure Unchanged (s t : StateItemCollection strings NetValue) : Prop where
  entriesTable : t.entriesTable = s.entriesTable
  entries : t.entries = s.entries ∨ s.count = 0

theorem unchanged_refl (s : StateItemCollection strings NetValue) : Unchanged s s :=
  ⟨rfl, .inl rfl⟩

theorem unchanged_trans (h : Unchanged s t) (h' : Unchanged t u) : Unchanged s u := by
  have hcount : t.count = s.count := congrArg OrderedMap.size h.entriesTable
  refine ⟨h'.entriesTable.trans h.entriesTable, ?_⟩
  rcases h.entries with he | he
  · rcases h'.entries with he' | he'
    · exact .inl (he'.trans he)
    · exact .inr (hcount.symm.trans he')
  · exact .inr he

/-- INTERNAL: no name is in a collection without items. -/
theorem contains_of_count_eq_zero (h : s.count = 0) (name : Bstr) : s.contains name = false := by
  have hentries : s.entriesTable.entries = [] := List.length_eq_zero_iff.mp h
  rw [StateItemCollection.contains, OrderedMap.find, hentries]
  rfl

/-- INTERNAL: they read the same. -/
theorem getName_unchanged (h : Unchanged s t) (name : Bstr) : t.getName name = s.getName name := by
  have hcontains : t.contains name = s.contains name := by
    rw [StateItemCollection.contains, StateItemCollection.contains, h.entriesTable]
  rw [StateItemCollection.getName, StateItemCollection.getName, hcontains]
  rcases h.entries with he | he
  · rw [StateItemCollection.entry, StateItemCollection.entry, he]
  · rw [contains_of_count_eq_zero he]
    rfl

/-- INTERNAL: an operation that leaves the collection clean has found it clean, and leaves it
unchanged; what it never changes. -/
theorem perform_spec_clean (op : StateItemCollection.Operation NetValue) :
    ((s.perform op).2.dirty = false → s.dirty = false ∧ Unchanged s (s.perform op).2) ∧
      (s.perform op).2.isReadOnly = s.isReadOnly ∧ (s.perform op).2.isNew = s.isNew := by
  have hsame : ∀ t : StateItemCollection strings NetValue, t = s →
      (t.dirty = false → s.dirty = false ∧ Unchanged s t) ∧ t.isReadOnly = s.isReadOnly ∧
        t.isNew = s.isNew := by
    rintro t rfl
    exact ⟨fun h => ⟨h, unchanged_refl t⟩, rfl, rfl⟩
  have hdirty : ∀ t : StateItemCollection strings NetValue, t.dirty = true →
      t.isReadOnly = s.isReadOnly → t.isNew = s.isNew →
      (t.dirty = false → s.dirty = false ∧ Unchanged s t) ∧ t.isReadOnly = s.isReadOnly ∧
        t.isNew = s.isNew := by
    intro t ht hr hn
    refine ⟨fun h => ?_, hr, hn⟩
    rw [ht] at h
    cases h
  cases op with
  | getName name => exact hsame _ rfl
  | getIndex index => exact hsame _ rfl
  | setName name value =>
    rw [StateItemCollection.perform, StateItemCollection.setName]
    split
    · exact hsame _ rfl
    · exact hdirty _ rfl rfl rfl
  | setIndex index value =>
    rw [StateItemCollection.perform, StateItemCollection.setIndex]
    split
    · exact hsame _ rfl
    · split
      · exact hdirty _ rfl rfl rfl
      · exact hsame _ rfl
  | remove name =>
    rw [StateItemCollection.perform, StateItemCollection.remove]
    split
    · exact hdirty _ rfl rfl rfl
    · exact hsame _ rfl
  | removeAt index =>
    rw [StateItemCollection.perform, StateItemCollection.removeAt]
    split
    · exact hsame _ rfl
    · split
      · exact hdirty _ rfl rfl rfl
      · exact hsame _ rfl
  | clear =>
    refine ⟨fun h => ?_, rfl, rfl⟩
    obtain ⟨hs, hcount⟩ := Bool.or_eq_false_iff.mp h
    have hzero : s.count = 0 := by
      have := of_decide_eq_false hcount
      omega
    refine ⟨hs, ?_, .inr hzero⟩
    show OrderedMap.empty = s.entriesTable
    exact OrderedMap.ext (List.length_eq_zero_iff.mp hzero).symm

/-- INTERNAL: a clean collection has the items that it had. -/
theorem sameItems_unchanged (hs : Valued s) (h : Unchanged s t) : SameItems t s := by
  have hkeys : t.keys = s.keys := congrArg OrderedMap.keys h.entriesTable
  refine ⟨hkeys.symm, fun key hkey => ?_⟩
  obtain ⟨v, hv⟩ := hs key (hkeys ▸ hkey)
  exact ⟨v, v, (getName_unchanged h key).trans hv, hv, sameValue_refl v⟩

/-- INTERNAL: `LocalLoad` does not mark the items as new. -/
theorem isNew_localLoad {rt : NetRuntime} {loaders : NetLoaders} {payload : Bytes}
    (h : PersistUtil.localLoad rt loaders payload = .ok s) : s.isNew = false := by
  refine localLoad_keeps (P := fun s => s.isNew = false) h rfl fun s e _ hs => ?_
  unfold putEntry putItem
  split <;> exact hs

end Items

/-! ## Members -/

variable {host : ManagedHost} {settings : SessionAppSettings} {x : Exchange host}

/-- INTERNAL: items that have been fetched are not new. -/
theorem isNew_of_sessionGetAsync {database : Keyspace} {id : Bstr} {m : CSessionDL.PersistMetaData}
    {items : StateItemCollection host.strings NetValue}
    (h : CSessionDL.sessionGetAsync host settings database id = .ok (some (m, items))) :
    items.isNew = false := by
  unfold CSessionDL.sessionGetAsync at h
  split at h
  · cases h
  · split at h
    · cases h
    · cases h
    · obtain ⟨m', -, h⟩ := NetRun.bind_eq_ok h
      obtain ⟨ms, -, h⟩ := NetRun.bind_eq_ok h
      obtain ⟨items', hload, h⟩ := NetRun.bind_eq_ok h
      cases h
      exact isNew_localLoad hload

/-- The members that use the items, or load them. -/
def AccessesItems : SessionCall → Prop
  | .items _ | .count | .keys | .tryGetValue _ | .abandon | .loadAsync => True
  | _ => False

/-- Where the session of a request is, and that a commit will save it. -/
structure Standing (database : Keyspace) (id : Bstr) (old : Option Bstr) (x : Exchange host) :
    Prop where
  database : x.database = database
  sessionID : x.session.SessionID = id
  oldSessionID : x.session.OldSessionID = old
  isAbandoned : x.session.isAbandoned = false
  isReadOnly : x.session.sessionItems.isReadOnly = false
  isNew : x.session.sessionItems.isNew = false

/-- What a request keeps of a session that has fetched its items. -/
structure Working (database : Keyspace) (id : Bstr) (old : Option Bstr)
    (items : StateItemCollection host.strings NetValue) (x : Exchange host) : Prop
    extends Standing database id old x where
  wasLoaded : x.session.wasLoaded = true
  clean : x.session.sessionItems.dirty = false → Unchanged items x.session.sessionItems

section Working

variable {database : Keyspace} {id : Bstr} {old : Option Bstr}
  {items : StateItemCollection host.strings NetValue}

/-- INTERNAL: a loaded session is not loaded again. -/
theorem loaded_eq (h : x.session.wasLoaded = true)
    (f : Exchange host → NetRun SessionReply × Exchange host) : x.loaded settings f = f x := by
  rw [Exchange.loaded, Exchange.checkLoad, if_pos h]

/-- INTERNAL: a member keeps a working session when it keeps all but its items, its settings
and the response. -/
theorem Working.keep (h : Working database id old items x) {y : Exchange host}
    (hdatabase : y.database = x.database) (hid : y.session.SessionID = x.session.SessionID)
    (hold : y.session.OldSessionID = x.session.OldSessionID)
    (hloaded : y.session.wasLoaded = x.session.wasLoaded)
    (habandoned : y.session.isAbandoned = false)
    (hitems : y.session.sessionItems.dirty = false → x.session.sessionItems.dirty = false ∧
      Unchanged x.session.sessionItems y.session.sessionItems)
    (hread : y.session.sessionItems.isReadOnly = x.session.sessionItems.isReadOnly)
    (hnew : y.session.sessionItems.isNew = x.session.sessionItems.isNew) :
    Working database id old items y where
  database := hdatabase.trans h.database
  sessionID := hid.trans h.sessionID
  oldSessionID := hold.trans h.oldSessionID
  wasLoaded := hloaded.trans h.wasLoaded
  isAbandoned := habandoned
  isReadOnly := hread.trans h.isReadOnly
  isNew := hnew.trans h.isNew
  clean := fun hdirty =>
    unchanged_trans (h.clean (hitems hdirty).1) (hitems hdirty).2

/-- **A member of a working session keeps it at work**, the commit apart. -/
theorem Working.perform (h : Working database id old items x) {call : SessionCall}
    (hcall : call ≠ .commitAsync) : Working database id old items (x.perform settings call).2 := by
  have hitems : ∀ op, Working database id old items { x with
      session := { x.session with sessionItems := (x.session.sessionItems.perform op).2 } } := by
    intro op
    obtain ⟨hclean, hread, hnew⟩ := perform_spec_clean (s := x.session.sessionItems) op
    exact h.keep rfl rfl rfl rfl h.isAbandoned hclean hread hnew
  cases call with
  | items op =>
    rw [Exchange.perform, loaded_eq h.wasLoaded]
    exact hitems op
  | count =>
    rw [Exchange.perform, loaded_eq h.wasLoaded]
    exact h
  | keys =>
    rw [Exchange.perform, loaded_eq h.wasLoaded]
    exact h
  | tryGetValue key =>
    rw [Exchange.perform, loaded_eq h.wasLoaded]
    exact h
  | abandon =>
    rw [Exchange.perform, loaded_eq h.wasLoaded]
    obtain ⟨hclean, hread, hnew⟩ := perform_spec_clean (s := x.session.sessionItems) .clear
    exact h.keep rfl rfl rfl rfl rfl hclean hread hnew
  | loadAsync =>
    rw [Exchange.perform, loadAsync_of_wasLoaded h.wasLoaded]
    exact h
  | commitAsync => exact absurd rfl hcall
  | startResponse =>
    rw [Exchange.perform, Exchange.startResponse]
    split
    · exact h
    · exact h.keep rfl rfl rfl rfl h.isAbandoned (fun hd => ⟨hd, unchanged_refl _⟩) rfl rfl
  | setTimeout value =>
    exact h.keep rfl rfl rfl rfl h.isAbandoned (fun hd => ⟨hd, unchanged_refl _⟩) rfl rfl
  | setLiquid value =>
    exact h.keep rfl rfl rfl rfl h.isAbandoned (fun hd => ⟨hd, unchanged_refl _⟩) rfl rfl
  | getTimeout => exact h
  | setReEntrance value =>
    exact h.keep rfl rfl rfl rfl h.isAbandoned (fun hd => ⟨hd, unchanged_refl _⟩) rfl rfl
  | getLiquid => exact h
  | getReEntrance => exact h
  | isNewSession => exact h
  | sessionID => exact h

/-- INTERNAL: what a page leaves, by its first call. -/
theorem performAll_cons (call : SessionCall) (calls : List SessionCall) (x : Exchange host) :
    (x.performAll settings (call :: calls)).2 =
      ((x.perform settings call).2.performAll settings calls).2 := rfl

/-- **So does a page that does not commit itself.** -/
theorem Working.performAll (h : Working database id old items x) {calls : List SessionCall}
    (hcalls : .commitAsync ∉ calls) :
    Working database id old items (x.performAll settings calls).2 := by
  induction calls generalizing x with
  | nil => exact h
  | cons call calls ih =>
    rw [List.mem_cons, not_or] at hcalls
    exact ih (h.perform (Ne.symm hcalls.1)) hcalls.2

/-- INTERNAL: a new id. -/
theorem Working.rotate (h : Working database id old items x) (n : ℕ) :
    Working database (ISPSessionIDManager.guidToHex (host.random x.drawn)) (some id) items
      (x.rotate n) where
  database := h.database
  sessionID := rfl
  oldSessionID := congrArg some h.sessionID
  wasLoaded := h.wasLoaded
  isAbandoned := h.isAbandoned
  isReadOnly := h.isReadOnly
  isNew := h.isNew
  clean := h.clean

/-- INTERNAL: the members of a loaded session leave the managers and the response as they are,
the start of the response apart. -/
theorem perform_response (settings : SessionAppSettings) (h : x.session.wasLoaded = true)
    {call : SessionCall} (hcall : call ≠ .startResponse) :
    (x.perform settings call).2.session.wasLoaded = true ∧
      (x.perform settings call).2.managers = x.managers ∧
      (x.perform settings call).2.hasStarted = x.hasStarted ∧
      (x.perform settings call).2.cookies = x.cookies := by
  cases call with
  | items op =>
    rw [Exchange.perform, loaded_eq h]
    exact ⟨h, rfl, rfl, rfl⟩
  | count =>
    rw [Exchange.perform, loaded_eq h]
    exact ⟨h, rfl, rfl, rfl⟩
  | keys =>
    rw [Exchange.perform, loaded_eq h]
    exact ⟨h, rfl, rfl, rfl⟩
  | tryGetValue key =>
    rw [Exchange.perform, loaded_eq h]
    exact ⟨h, rfl, rfl, rfl⟩
  | abandon =>
    rw [Exchange.perform, loaded_eq h]
    exact ⟨h, rfl, rfl, rfl⟩
  | loadAsync =>
    rw [Exchange.perform, loadAsync_of_wasLoaded h]
    exact ⟨h, rfl, rfl, rfl⟩
  | commitAsync =>
    rw [Exchange.perform, Exchange.commitAsync]
    split
    · exact ⟨h, rfl, rfl, rfl⟩
    · exact ⟨h, rfl, rfl, rfl⟩
  | startResponse => exact absurd rfl hcall
  | _ => exact ⟨h, rfl, rfl, rfl⟩

/-- INTERNAL: so does a page that does not start the response. -/
theorem performAll_response (settings : SessionAppSettings) (h : x.session.wasLoaded = true)
    {calls : List SessionCall} (hcalls : .startResponse ∉ calls) :
    (x.performAll settings calls).2.managers = x.managers ∧
      (x.performAll settings calls).2.hasStarted = x.hasStarted ∧
      (x.performAll settings calls).2.cookies = x.cookies := by
  induction calls generalizing x with
  | nil => exact ⟨rfl, rfl, rfl⟩
  | cons call calls ih =>
    rw [List.mem_cons, not_or] at hcalls
    obtain ⟨hloaded, hmanagers, hstarted, hcookies⟩ := perform_response settings h (Ne.symm hcalls.1)
    obtain ⟨hm, hs, hc⟩ := ih hloaded hcalls.2
    exact ⟨hm.trans hmanagers, hs.trans hstarted, hc.trans hcookies⟩

/-! ## The first access -/

/-- INTERNAL: a session whose record has been taken over is at work. -/
theorem working_fetched {m : CSessionDL.PersistMetaData}
    (hget : CSessionDL.sessionGetAsync host settings database id = .ok (some (m, items)))
    (hdatabase : x.database = database) (hid : x.session.SessionID = id)
    (hold : x.session.OldSessionID = old) (habandoned : x.session.isAbandoned = false) :
    Working database id old items (fetched x (m, items)) where
  database := hdatabase
  sessionID := hid
  oldSessionID := hold
  wasLoaded := rfl
  isAbandoned := habandoned
  isReadOnly := rfl
  isNew := show items.isNew = false from isNew_of_sessionGetAsync hget
  clean := fun _ => ⟨rfl, .inl rfl⟩

/-- INTERNAL: a member that loads the session works on the loaded one. -/
theorem perform_of_checkLoad {y : Exchange host} {call : SessionCall} (hcall : AccessesItems call)
    (hload : call ≠ .loadAsync) (hcheck : x.checkLoad settings = (.ok (), y))
    (hy : y.session.wasLoaded = true) : x.perform settings call = y.perform settings call := by
  have hloaded : ∀ f : Exchange host → NetRun SessionReply × Exchange host,
      x.loaded settings f = y.loaded settings f := by
    intro f
    rw [loaded_eq hy, Exchange.loaded, hcheck]
  cases call with
  | items op => exact hloaded _
  | count => exact hloaded _
  | keys => exact hloaded _
  | tryGetValue key => exact hloaded _
  | abandon => exact hloaded _
  | loadAsync => exact absurd rfl hload
  | _ => exact False.elim hcall

/-- **The first access in front of the response sets a session that is not liquid to work.** -/
theorem working_of_first {m : CSessionDL.PersistMetaData} {first : SessionCall} (hx : Unloaded x)
    (hearly : x.hasStarted = false) (habandoned : x.session.isAbandoned = false)
    (hget : CSessionDL.sessionGetAsync host settings x.database x.session.SessionID =
      .ok (some (m, items)))
    (hliquid : m.Liquid ≠ -1) (hfirst : AccessesItems first) :
    Working x.database x.session.SessionID x.session.OldSessionID items
      (x.perform settings first).2 := by
  by_cases hload : first = .loadAsync
  · rw [hload, Exchange.perform, loadAsync_fetched hx hget hliquid]
    exact working_fetched hget rfl rfl rfl habandoned
  · rw [perform_of_checkLoad hfirst hload (checkLoad_fetched hx hearly hget hliquid) rfl]
    refine Working.perform (working_fetched (x := registered x) hget rfl rfl rfl habandoned) ?_
    rintro rfl
    exact hfirst

/-! ## The commit -/

/-- The keys after the `RENAME` of a commit. -/
def renamed (settings : SessionAppSettings) (database : Keyspace) (id : Bstr) :
    Option Bstr → Keyspace
  | none => database
  | some old =>
    if old ≠ [] ∧ id ≠ old then
      database.rename (CSessionDL.getKey settings old) (CSessionDL.getKey settings id)
    else database

/-- What a commit writes of a dirty session whose contents are these bytes. -/
def committedBlob (settings : SessionAppSettings) (x : Exchange host) (bytes : Bytes) (zLen : ℕ) :
    Bytes :=
  CSessionDL.toByteArray { x.session.persistMetaData with ZLen := BitVec.ofNat 32 zLen } ++
    CSessionDL.packed host.deflate settings bytes

/-- INTERNAL: the commit of a session whose contents can be made. -/
theorem commitAsync_database (h : Standing database id old x) {bytes : Bytes} {zLen : ℕ}
    (hcontents : PersistUtil.localContents host.runtime x.session.sessionItems =
      .ok (bytes, zLen)) :
    (x.commitAsync settings).2.database =
      if x.session.sessionItems.dirty then
        (renamed settings database id old).setExpiring (CSessionDL.getKey settings id)
          (committedBlob settings x bytes zLen) (CSessionDL.milliseconds x.session.timeOut)
      else
        (renamed settings database id old).execute (.pexpire (CSessionDL.getKey settings id)
          (CSessionDL.milliseconds x.session.timeOut)) := by
  rw [Exchange.commitAsync, h.isAbandoned, if_neg Bool.false_ne_true, CSessionDL.sessionSaveAsync,
    hcontents, h.sessionID, h.oldSessionID, h.database]
  dsimp only
  rw [h.isReadOnly, h.isNew, Bool.false_or, if_neg Bool.false_ne_true]
  cases hdirty : x.session.sessionItems.dirty with
  | false =>
    cases old with
    | none => rfl
    | some old => rfl
  | true =>
    cases old with
    | none => rfl
    | some old => rfl

end Working

end IspSession.Analysis
