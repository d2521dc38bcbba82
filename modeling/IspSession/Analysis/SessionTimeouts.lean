import IspSession.Model.NativeRecords
import IspSession.Analysis.SessionSaving
import IspSession.Analysis.WriterProgress

/-!
# The timeout of a session and the time to live of its record

A timeout is a `LONG` of minutes that nobody checks, whether `put_TimeOut`, the configuration or
the record of an earlier request supplies it. Saving multiplies it by 60 in 32 bits
(`seconds_eq_iff`). `EXPIRE` deletes the record when the product is not positive; `SET` with `EX`
is refused then.
-/

set_option autoImplicit false

namespace IspSession.Analysis

open IspSession.Library IspSession.Model

variable {loc : Collation} (p : Platform)

/-! ## Seconds -/

/-- Minutes whose seconds are a positive `LONG`. -/
def TimeoutFits (t : BitVec 32) : Prop := 0 < t.toInt ∧ 60 * t.toInt < 2 ^ 31

instance (t : BitVec 32) : Decidable (TimeoutFits t) := inferInstanceAs (Decidable (_ ∧ _))

/-- **The product is positive and not wrapped exactly for minutes that fit.** -/
theorem seconds_eq_iff (t : BitVec 32) :
    0 < SessionStore.seconds t ∧ SessionStore.seconds t = 60 * t.toInt ↔ TimeoutFits t := by
  have hproduct : SessionStore.seconds t = (t.toInt * 60).bmod (2 ^ 32) := by
    rw [SessionStore.seconds, BitVec.toInt_mul]
    rfl
  have hupper := Int.bmod_lt (x := t.toInt * 60) (m := 2 ^ 32) (by decide)
  constructor
  · rintro ⟨hpos, hsame⟩
    rw [hproduct] at hpos hsame
    rw [hsame] at hpos hupper
    exact ⟨by omega, by omega⟩
  · rintro ⟨hpos, hfits⟩
    rw [hproduct, Int.bmod_eq_of_le (by omega) (by omega)]
    exact ⟨by omega, by omega⟩

/-! ## What is asked of the records -/

/-- The time to live that a command asks for. -/
def timeArgument : NativeCommand → Option ℤ
  | .expire _ seconds => some seconds
  | .setEx _ _ seconds => some seconds
  | .get _ | .rename _ _ => none

/-- Saving keeps a session alive for its timeout. -/
structure KeepsAlive (r : Request loc) : Prop where
  /-- After a successful save there is a record with 60 times the timeout to live. -/
  saved : ∀ hr r', r.persistSession p = .ok (hr, r') → hr.failed = false →
    ∃ record, r'.store (savedUnder r) = some record ∧ record.ttl = 60 * r.lngTimeout.toInt
  /-- No time that `SessionSave` asks for is zero, negative or wrapped. -/
  commands : ∀ appKey pStream zLenPar stamp,
    ∀ command ∈ SessionRedis.sessionSave appKey r.oldGuid r.lngTimeout r.blnReEntrance r.blnLiquid
      (if r.blnLiquid then some r.guid else none) pStream zLenPar stamp,
    ∀ seconds ∈ timeArgument command, 0 < seconds ∧ seconds = 60 * r.lngTimeout.toInt
  /-- Nor one that `SessionInsert` asks for. -/
  inserted : ∀ appKey stamp,
    ∀ command ∈ SessionRedis.sessionInsert appKey r.guid r.lngTimeOutSetting r.blnReEntrance
      r.blnLiquid stamp,
    ∀ seconds ∈ timeArgument command, 0 < seconds ∧ seconds = 60 * r.lngTimeOutSetting.toInt

/-- INTERNAL: the times in the commands of `SessionSave`. -/
theorem timeArgument_sessionSave {appKey guid : Guid} {t : BitVec 32} {reEntrance liquid : Bool}
    {guidNew : Option Guid} {pStream : Option CStream} {zLen : BitVec 32} {stamp : DBTimeStamp}
    {command : NativeCommand} {seconds : ℤ}
    (h : command ∈ SessionRedis.sessionSave appKey guid t reEntrance liquid guidNew pStream zLen
      stamp) (hs : seconds ∈ timeArgument command) : seconds = SessionStore.seconds t := by
  rcases List.mem_append.mp h with h | h
  · cases guidNew with
    | none => cases h
    | some newKey =>
      obtain rfl := List.mem_singleton.mp h
      cases hs
  · cases pStream with
    | none =>
      obtain rfl := List.mem_singleton.mp h
      exact (Option.some.inj hs).symm
    | some stream =>
      dsimp only at h
      split at h
      · cases h
      · obtain rfl := List.mem_singleton.mp h
        exact (Option.some.inj hs).symm

/-- INTERNAL: a timeout fits exactly if the times of `SessionSave` do. -/
theorem commands_iff (guid : Guid) (t : BitVec 32) (reEntrance liquid : Bool)
    (guidNew : Option Guid) :
    (∀ appKey pStream zLenPar stamp,
      ∀ command ∈ SessionRedis.sessionSave appKey guid t reEntrance liquid guidNew pStream zLenPar
        stamp,
      ∀ seconds ∈ timeArgument command, 0 < seconds ∧ seconds = 60 * t.toInt) ↔
    TimeoutFits t := by
  constructor
  · intro h
    exact (seconds_eq_iff t).mp (h 0 none 0 ⟨List.replicate 16 0, rfl⟩
      (.expire _ (SessionStore.seconds t)) (List.mem_append_right _ (List.mem_singleton_self _))
      _ rfl)
  · intro h appKey pStream zLenPar stamp command hcommand seconds hseconds
    rw [timeArgument_sessionSave hcommand hseconds]
    exact (seconds_eq_iff t).mpr h

/-- INTERNAL: a timeout fits exactly if the time of `SessionInsert` does. -/
theorem inserted_iff (guid : Guid) (t : BitVec 32) (reEntrance liquid : Bool) :
    (∀ appKey stamp,
      ∀ command ∈ SessionRedis.sessionInsert appKey guid t reEntrance liquid stamp,
      ∀ seconds ∈ timeArgument command, 0 < seconds ∧ seconds = 60 * t.toInt) ↔
    TimeoutFits t := by
  rw [← seconds_eq_iff]
  constructor
  · intro h
    exact h 0 ⟨List.replicate 16 0, rfl⟩ _ (List.mem_singleton_self _) _ rfl
  · intro h appKey stamp command hcommand seconds hseconds
    obtain rfl := List.mem_singleton.mp hcommand
    obtain rfl := Option.some.inj hseconds
    exact h

/-! ## Saving -/

/-- INTERNAL: a dictionary that is to be written is set as the record, with the seconds. -/
theorem persistSession_sets {r : Request loc} (h : Persists r) (hunsaved : Unsaved r)
    {hr : HResult} {lSize : ℕ} {stream : CStream} {d : VariantDictionary loc}
    (hcontents : r.m_piVarDict.localContents p.mem = .ok (hr, lSize, stream, d)) :
    ∃ hr' r', r.persistSession p = .ok (hr', r') ∧
      (hr', r'.store) = (movedStore r).set (savedUnder r)
        { m_Expires := r.lngTimeout
          m_ReEntrance := r.blnReEntrance
          m_Liquid := r.blnLiquid
          m_zLen := lSize } stream.rest (SessionStore.seconds r.lngTimeout) := by
  have hyes : r.m_piVarDict.blnDirty = true ∨ r.blnNew = true ∨ r.blnExpired = true := hunsaved
  have hne : stream.buf ≠ [] := buf_localContents hcontents
  rw [Request.persistSession, if_neg (by simp [h.pending]), if_neg (by simp [h.noError])]
  simp only [h.kept, h.writable, hyes, Bool.false_eq_true, not_false_eq_true, and_self, if_true,
    hcontents, Run.pure_eq, Run.ok_bind, sessionSave_eq, if_neg hne]
  exact ⟨_, _, rfl, rfl⟩

/-- **What a successful save leaves**: a record that lives for the product, unless `EXPIRE` has
deleted it. -/
theorem saved_iff {r : Request loc} (h : Persists r) (hlive : (r.store r.oldGuid).isSome)
    (hcontents : Unsaved r → ∃ result, r.m_piVarDict.localContents p.mem = .ok result) :
    (∀ hr r', r.persistSession p = .ok (hr, r') → hr.failed = false →
      ∃ record, r'.store (savedUnder r) = some record ∧ record.ttl = 60 * r.lngTimeout.toInt) ↔
    TimeoutFits r.lngTimeout ∨ Unsaved r ∧ SessionStore.seconds r.lngTimeout ≤ 0 := by
  rw [← seconds_eq_iff]
  by_cases hunsaved : Unsaved r
  · obtain ⟨⟨hr₀, lSize, stream, d⟩, hwritten⟩ := hcontents hunsaved
    obtain ⟨hr₁, r₁, hrun, hset⟩ := persistSession_sets p h hunsaved hwritten
    rw [hrun]
    by_cases hpos : 0 < SessionStore.seconds r.lngTimeout
    · rw [set_eq _ _ _ _ hpos] at hset
      obtain ⟨rfl, hstore⟩ := Prod.mk.inj hset
      have hrecord : r₁.store (savedUnder r) = some
          { metaData :=
              { m_Expires := r.lngTimeout
                m_ReEntrance := r.blnReEntrance
                m_Liquid := r.blnLiquid
                m_zLen := lSize }
            payload := stream.rest
            ttl := SessionStore.seconds r.lngTimeout } := by
        rw [hstore, Function.update_self]
      constructor
      · intro hsaved
        obtain ⟨record, hhere, httl⟩ := hsaved _ _ rfl rfl
        obtain rfl := Option.some.inj (hrecord.symm.trans hhere)
        exact Or.inl ⟨hpos, httl⟩
      · rintro (⟨-, hsame⟩ | ⟨-, hno⟩) hr r' hok -
        · obtain ⟨-, rfl⟩ := Prod.mk.inj (Except.ok.inj hok)
          exact ⟨_, hrecord, hsame⟩
        · omega
    · rw [SessionStore.set, if_pos (by omega)] at hset
      obtain ⟨rfl, -⟩ := Prod.mk.inj hset
      refine iff_of_true (fun hr r' hok hsucceeds => ?_) (Or.inr ⟨hunsaved, by omega⟩)
      obtain ⟨rfl, -⟩ := Prod.mk.inj (Except.ok.inj hok)
      cases hsucceeds
  · obtain ⟨record, hrecord⟩ := Option.isSome_iff_exists.mp hlive
    have hmoved := movedStore_apply_saved hrecord
    rw [persistSession_touches p h hunsaved, or_iff_left fun hno => hunsaved hno.1]
    by_cases hpos : 0 < SessionStore.seconds r.lngTimeout
    · have hhere := expire_apply_self (movedStore r) (savedUnder r) hmoved hpos
      constructor
      · intro hsaved
        obtain ⟨record', hhere', httl⟩ := hsaved _ _ rfl rfl
        obtain rfl := Option.some.inj (hhere.symm.trans hhere')
        exact ⟨hpos, httl⟩
      · rintro ⟨-, hsame⟩ hr r' hok -
        obtain ⟨-, rfl⟩ := Prod.mk.inj (Except.ok.inj hok)
        exact ⟨_, hhere, hsame⟩
    · refine iff_of_false (fun hsaved => ?_) fun hfits => hpos hfits.1
      obtain ⟨record', hhere, -⟩ := hsaved _ _ rfl rfl
      have hgone : (movedStore r).expire (savedUnder r) (SessionStore.seconds r.lngTimeout)
          (savedUnder r) = none := by
        rw [SessionStore.expire, hmoved]
        dsimp only
        rw [if_pos (by omega), Function.update_self]
      exact Option.some_ne_none _ (hhere.symm.trans hgone)

/-- **Saving keeps a live session exactly if its timeout and the configured one fit**; the record
that is left is the right one also where `SET` is refused. -/
theorem keepsAlive_iff {r : Request loc} (h : Persists r) (hlive : (r.store r.oldGuid).isSome)
    (hcontents : Unsaved r → ∃ result, r.m_piVarDict.localContents p.mem = .ok result) :
    (KeepsAlive p r ↔ TimeoutFits r.lngTimeout ∧ TimeoutFits r.lngTimeOutSetting) ∧
    ((∀ hr r', r.persistSession p = .ok (hr, r') → hr.failed = false →
        ∃ record, r'.store (savedUnder r) = some record ∧
          record.ttl = 60 * r.lngTimeout.toInt) ↔
      TimeoutFits r.lngTimeout ∨ Unsaved r ∧ SessionStore.seconds r.lngTimeout ≤ 0) := by
  have hsaved := saved_iff p h hlive hcontents
  refine ⟨⟨fun halive => ?_, fun hfits => ?_⟩, hsaved⟩
  · exact ⟨(commands_iff _ _ _ _ _).mp halive.commands, (inserted_iff _ _ _ _).mp halive.inserted⟩
  · exact ⟨hsaved.mpr (Or.inl hfits.1), (commands_iff _ _ _ _ _).mpr hfits.1,
      (inserted_iff _ _ _ _).mpr hfits.2⟩

/-- A record with twenty minutes to live. -/
def unchangedRecord : SessionRecord where
  metaData := { m_Expires := 20, m_ReEntrance := false, m_Liquid := false, m_zLen := 0 }
  payload := []
  ttl := 1200

/-- A request in which nothing is changed but the timeout. -/
def idleRequest (t : BitVec 32) : Request .ordinal :=
  { Request.start (fun id => if id = 0 then some unchangedRecord else none) 0 20 0 false with
    lngTimeout := t }

/-- INTERNAL: it is saved. -/
theorem persists_idleRequest (t : BitVec 32) : Persists (idleRequest t) := ⟨rfl, rfl, rfl, rfl⟩

/-- INTERNAL: there is nothing to write. -/
theorem not_unsaved_idleRequest (t : BitVec 32) : ¬ Unsaved (idleRequest t) := by
  rintro (h | h | h) <;> cases h

/-- **Half an hour is kept.** -/
theorem halfHour_keepsAlive : KeepsAlive .counting (idleRequest 30) :=
  (keepsAlive_iff .counting (persists_idleRequest 30) rfl
    fun h => absurd h (not_unsaved_idleRequest 30)).1.mpr ⟨by decide, by decide⟩

/-- **A timeout of 0 deletes the session.** -/
theorem noTimeout_not_keepsAlive : ¬ KeepsAlive .counting (idleRequest 0) := by
  intro h
  obtain ⟨record, hrecord, -⟩ := h.saved _ _
    (persistSession_touches _ (persists_idleRequest 0) (not_unsaved_idleRequest 0)) rfl
  have hgone : (idleRequest 0).store.expire 0 0 0 = none := by
    rw [SessionStore.expire]
    exact Function.update_self _ _ _
  exact Option.some_ne_none _ (hrecord.symm.trans hgone)

end IspSession.Analysis
