import IspSession.Model.ApplicationStore

/-!
# Redis commands, key by key

What each command does to the entry of one key. Commands on other keys leave it alone; a
list of expirations only sets its time to live. `executeAll_saving` is what the list of
commands leaves by which a back end saves.
-/

set_option autoImplicit false

namespace IspSession.Analysis

open IspSession.Library IspSession.Model

namespace Keyspace

variable (s : Keyspace) (key : Bytes)

/-- Commands in a row. -/
theorem executeAll_append (l l' : List RedisCommand) :
    s.executeAll (l ++ l') = (s.executeAll l).executeAll l' := List.foldl_append

@[simp] theorem executeAll_nil : s.executeAll [] = s := rfl

@[simp] theorem executeAll_singleton (c : RedisCommand) : s.executeAll [c] = s.execute c := rfl

/-- `SADD`. -/
theorem execute_sadd (k : Bytes) (members : List Bytes) :
    s.execute (.sadd k members) key =
      if key = k then Keyspace.addMembers members (s key) else s key := by
  by_cases h : key = k
  · rw [if_pos h, ← h]
    exact Function.update_self ..
  · rw [if_neg h]
    exact Function.update_of_ne h ..

/-- `SREM`. -/
theorem execute_srem (k : Bytes) (members : List Bytes) :
    s.execute (.srem k members) key =
      if key = k then Keyspace.removeMembers members (s key) else s key := by
  by_cases h : key = k
  · rw [if_pos h, ← h]
    exact Function.update_self ..
  · rw [if_neg h]
    exact Function.update_of_ne h ..

/-- `DEL`. -/
theorem execute_del (keys : List Bytes) :
    s.execute (.del keys) key = if key ∈ keys then none else s key := rfl

/-- `PEXPIRE`. -/
theorem execute_pexpire (k : Bytes) (ms : ℤ) :
    s.execute (.pexpire k ms) key = if key = k then Keyspace.expireIn ms (s key) else s key := by
  by_cases h : key = k
  · rw [if_pos h, ← h]
    exact Function.update_self ..
  · rw [if_neg h]
    exact Function.update_of_ne h ..

/-- `MSET` of other keys. -/
theorem execute_mset_of_notMem {pairs : List (Bytes × Bytes)} (h : key ∉ pairs.map Prod.fst) :
    s.execute (.mset pairs) key = s key := by
  induction pairs generalizing s with
  | nil => rfl
  | cons p pairs ih =>
    rw [List.map_cons, List.mem_cons, not_or] at h
    exact (ih _ h.2).trans (Function.update_of_ne h.1 ..)

/-- `MSET` of the key: a string without a time to live, whatever was there. -/
theorem exists_execute_mset {pairs : List (Bytes × Bytes)} (h : key ∈ pairs.map Prod.fst) :
    ∃ bytes, (key, bytes) ∈ pairs ∧ ∀ s : Keyspace,
      s.execute (.mset pairs) key = some { value := .string bytes, ttl := none } := by
  induction pairs with
  | nil => cases h
  | cons p pairs ih =>
    by_cases hrest : key ∈ pairs.map Prod.fst
    · obtain ⟨bytes, hmem, hall⟩ := ih hrest
      exact ⟨bytes, List.mem_cons_of_mem p hmem, fun s => hall _⟩
    · have hkey : key = p.1 := by
        rw [List.map_cons, List.mem_cons] at h
        exact h.resolve_right hrest
      refine ⟨p.2, by simp [hkey], fun s => ?_⟩
      have hlast := execute_mset_of_notMem
        (Function.update s p.1 (some { value := .string p.2, ttl := none })) key hrest
      rw [hkey] at hlast ⊢
      rw [Function.update_self] at hlast
      exact hlast

/-- The time to live a list of expirations gives a key. -/
def lifetime (expirations : List (Bytes × ℤ)) (key : Bytes) (ttl : Option ℤ) : Option ℤ :=
  expirations.foldl (fun ttl e => if e.1 = key then some e.2 else ttl) ttl

/-- It has one if it had one before or is in the list. -/
theorem isSome_lifetime (expirations : List (Bytes × ℤ)) (ttl : Option ℤ) :
    (lifetime expirations key ttl).isSome = true ↔
      ttl.isSome = true ∨ key ∈ expirations.map Prod.fst := by
  induction expirations generalizing ttl with
  | nil => simp [lifetime]
  | cons e expirations ih =>
    have hrest := ih (if e.1 = key then some e.2 else ttl)
    rw [lifetime, List.foldl_cons]
    rw [lifetime] at hrest
    rw [hrest, List.map_cons, List.mem_cons]
    by_cases hk : e.1 = key
    · simp [hk]
    · rw [if_neg hk]
      exact or_congr_right ⟨.inr, fun h => h.resolve_left fun heq => hk heq.symm⟩

/-- A list of expirations in the future sets the time to live and nothing else. -/
theorem executeAll_pexpire {expirations : List (Bytes × ℤ)} (h : ∀ e ∈ expirations, 0 < e.2) :
    s.executeAll (expirations.map fun e => .pexpire e.1 e.2) key =
      (s key).map fun entry => { entry with ttl := lifetime expirations key entry.ttl } := by
  induction expirations generalizing s with
  | nil =>
    simp only [List.map_nil, executeAll_nil, lifetime, List.foldl_nil]
    cases s key <;> rfl
  | cons e expirations ih =>
    have hpos : ¬ e.2 ≤ 0 := not_le.mpr (h e (by simp))
    have hrest := ih (s.execute (.pexpire e.1 e.2)) fun x hx => h x (by simp [hx])
    rw [List.map_cons]
    change (s.execute (.pexpire e.1 e.2)).executeAll _ key = _
    rw [hrest, execute_pexpire]
    by_cases hk : key = e.1
    · subst hk
      rw [if_pos rfl]
      cases hentry : s e.1 with
      | none => rfl
      | some entry =>
        simp only [Keyspace.expireIn, hpos, if_false, Option.map_some, lifetime,
          List.foldl_cons, if_true]
    · rw [if_neg hk]
      have hlife : ∀ ttl, lifetime (e :: expirations) key ttl = lifetime expirations key ttl := by
        intro ttl
        rw [lifetime, List.foldl_cons, if_neg fun heq => hk heq.symm]
        rfl
      simp only [hlife]

end Keyspace

/-! ## Saving -/

/-- Saving by Redis keys: adding members, removing members with or without their values,
setting values, expiring. -/
def saving (setKey : Bytes) (added removed : List Bytes) (deletes : Bool)
    (pairs : List (Bytes × Bytes)) (expirations : List (Bytes × ℤ)) : List RedisCommand :=
  (if added = [] then [] else [.sadd setKey added]) ++
  (if removed = [] then []
    else (if deletes then [.del removed] else []) ++ [.srem setKey removed]) ++
  (if pairs = [] then [] else [.mset pairs]) ++
  expirations.map fun e => .pexpire e.1 e.2

/-- The entry of a key before it is expired: a record, the set of keys, or what was
there. -/
def savedEntry (s : Keyspace) (setKey : Bytes) (added removed : List Bytes)
    (pairs : List (Bytes × Bytes)) (key : Bytes) : Option RedisEntry :=
  s.execute (.sadd setKey added) |>.execute (.srem setKey removed) |>.execute (.mset pairs) <| key

/-- INTERNAL: adding no members. -/
theorem execute_sadd_nil (s : Keyspace) (setKey : Bytes) :
    s.execute (.sadd setKey []) = s := by
  have hsame : Keyspace.addMembers [] (s setKey) = s setKey := by
    rcases hs : s setKey with _ | ⟨_ | ⟨old, hne⟩, ttl⟩
    · rfl
    · rfl
    · simp [Keyspace.addMembers, Keyspace.setEntry, hne]
  simp only [Keyspace.execute, hsame, Function.update_eq_self]

/-- INTERNAL: removing no members. -/
theorem execute_srem_nil (s : Keyspace) (setKey : Bytes) :
    s.execute (.srem setKey []) = s := by
  have hsame : Keyspace.removeMembers [] (s setKey) = s setKey := by
    rcases hs : s setKey with _ | ⟨_ | ⟨old, hne⟩, ttl⟩
    · rfl
    · rfl
    · simp [Keyspace.removeMembers, Keyspace.setEntry, hne]
  simp only [Keyspace.execute, hsame, Function.update_eq_self]

/-- **What a saving leaves under a key.** -/
theorem executeAll_saving (s : Keyspace) {setKey : Bytes} (added : List Bytes)
    {removed : List Bytes} (deletes : Bool) (pairs : List (Bytes × Bytes))
    (expirations : List (Bytes × ℤ))
    (hset : setKey ∉ removed) (hpos : ∀ e ∈ expirations, 0 < e.2) (key : Bytes) :
    s.executeAll (saving setKey added removed deletes pairs expirations) key =
      (if deletes = true ∧ key ∈ removed ∧ key ∉ pairs.map Prod.fst then none
        else savedEntry s setKey added removed pairs key).map
          fun entry => { entry with ttl := Keyspace.lifetime expirations key entry.ttl } := by
  rw [saving, Keyspace.executeAll_append, Keyspace.executeAll_pexpire _ _ hpos]
  congr 1
  rw [Keyspace.executeAll_append, Keyspace.executeAll_append]
  have hadd : s.executeAll (if added = [] then [] else [.sadd setKey added]) =
      s.execute (.sadd setKey added) := by
    split
    · rename_i h
      rw [h, execute_sadd_nil]
      rfl
    · rfl
  have hset' : ∀ t : Keyspace, t.executeAll (if pairs = [] then [] else [.mset pairs]) =
      t.execute (.mset pairs) := by
    intro t
    split
    · rename_i h
      rw [h]
      rfl
    · rfl
  have hremove : ∀ t : Keyspace, t.executeAll (if removed = [] then []
      else (if deletes then [.del removed] else []) ++ [.srem setKey removed]) =
      (if deletes then t.execute (.del removed) else t).execute (.srem setKey removed) := by
    intro t
    split
    · rename_i h
      subst h
      have hdel : t.execute (.del []) = t := by
        funext k
        simp [Keyspace.execute]
      rw [execute_srem_nil, hdel]
      split <;> rfl
    · split <;> rfl
  rw [hadd, hremove, hset', savedEntry]
  by_cases hmem : key ∈ pairs.map Prod.fst
  · obtain ⟨bytes, -, hall⟩ := Keyspace.exists_execute_mset key hmem
    have hcond : ¬ (deletes = true ∧ key ∈ removed ∧ key ∉ pairs.map Prod.fst) :=
      fun h => h.2.2 hmem
    rw [if_neg hcond, hall, hall]
  · rw [Keyspace.execute_mset_of_notMem _ _ hmem, Keyspace.execute_mset_of_notMem _ _ hmem,
      Keyspace.execute_srem, Keyspace.execute_srem]
    cases deletes with
    | false => simp
    | true =>
      simp only [if_true, Keyspace.execute_del, true_and, hmem, not_false_eq_true, and_true]
      by_cases hr : key ∈ removed
      · have hne : key ≠ setKey := fun h => hset (h ▸ hr)
        simp [hr, hne]
      · simp [hr]

/-! ## The set of keys -/

/-- Under the key there is a set with these members, each once, which does not expire, or
nothing where there are none. -/
structure KeySet (s : Keyspace) (setKey : Bytes) (members : List Bytes) : Prop where
  nodup : members.Nodup
  entry : s setKey = Keyspace.setEntry members none

/-- The members are those that Redis enumerates. -/
theorem KeySet.smembers {s : Keyspace} {setKey : Bytes} {members : List Bytes}
    (h : KeySet s setKey members) : s.smembers setKey = members := by
  rw [Keyspace.smembers, h.entry]
  unfold Keyspace.setEntry
  split
  · rename_i hnil
    split at hnil
    · rename_i hempty
      cases hnil
    · cases hnil
      rfl
  · rename_i hnot
    by_cases hempty : members = []
    · exact hempty.symm
    · exact absurd (dif_neg hempty) (hnot members hempty none)

/-- A set is no string. -/
theorem KeySet.get {s : Keyspace} {setKey : Bytes} {members : List Bytes}
    (h : KeySet s setKey members) : s.get setKey = none := by
  rw [Keyspace.get, h.entry]
  unfold Keyspace.setEntry
  by_cases hempty : members = []
  · rw [dif_pos hempty]
  · rw [dif_neg hempty]

/-- INTERNAL: adding members to a list. -/
theorem foldl_addMember (added members : List Bytes) (h : members.Nodup) :
    (added.foldl Keyspace.addMember members).Nodup ∧
      ∀ m, m ∈ added.foldl Keyspace.addMember members ↔ m ∈ members ∨ m ∈ added := by
  induction added generalizing members with
  | nil => exact ⟨h, fun m => by simp⟩
  | cons x added ih =>
    have hstep : (Keyspace.addMember members x).Nodup ∧
        ∀ m, m ∈ Keyspace.addMember members x ↔ m ∈ members ∨ m = x := by
      unfold Keyspace.addMember
      split
      · rename_i hx
        exact ⟨h, fun m => ⟨.inl, fun hm => hm.elim id fun heq => heq ▸ hx⟩⟩
      · rename_i hx
        refine ⟨List.nodup_append.mpr ⟨h, by simp, ?_⟩, fun m => by simp⟩
        rintro m hm y hy rfl
        rw [List.mem_singleton.mp hy] at hm
        exact hx hm
    obtain ⟨hnodup, hmem⟩ := ih _ hstep.1
    refine ⟨hnodup, fun m => ?_⟩
    rw [List.foldl_cons, hmem, hstep.2, List.mem_cons, or_assoc]

/-- INTERNAL: a key without an expiration. -/
theorem Keyspace.lifetime_of_notMem {expirations : List (Bytes × ℤ)} {key : Bytes}
    (h : key ∉ expirations.map Prod.fst) (ttl : Option ℤ) :
    Keyspace.lifetime expirations key ttl = ttl := by
  induction expirations generalizing ttl with
  | nil => rfl
  | cons e expirations ih =>
    rw [List.map_cons, List.mem_cons, not_or] at h
    rw [Keyspace.lifetime, List.foldl_cons, if_neg (Ne.symm h.1)]
    exact ih h.2 ttl

/-- **The members after a saving.** -/
theorem KeySet.saving {s : Keyspace} {setKey : Bytes} {members : List Bytes}
    (h : KeySet s setKey members) (added : List Bytes) {removed : List Bytes} (deletes : Bool)
    {pairs : List (Bytes × Bytes)} {expirations : List (Bytes × ℤ)} (hset : setKey ∉ removed)
    (hpairs : setKey ∉ pairs.map Prod.fst) (hexpire : setKey ∉ expirations.map Prod.fst)
    (hpos : ∀ e ∈ expirations, 0 < e.2) :
    KeySet (s.executeAll (Analysis.saving setKey added removed deletes pairs expirations)) setKey
      ((added.foldl Keyspace.addMember members).filter fun m => m ∉ removed) := by
  refine ⟨(foldl_addMember added members h.nodup).1.filter _, ?_⟩
  have hadd : Keyspace.addMembers added (s setKey) =
      Keyspace.setEntry (added.foldl Keyspace.addMember members) none := by
    rw [h.entry]
    unfold Keyspace.setEntry
    by_cases hempty : members = []
    · rw [dif_pos hempty, hempty]
      rfl
    · rw [dif_neg hempty]
      rfl
  have hremove : Keyspace.removeMembers removed
      (Keyspace.setEntry (added.foldl Keyspace.addMember members) none) =
        Keyspace.setEntry ((added.foldl Keyspace.addMember members).filter fun m => m ∉ removed)
          none := by
    by_cases hempty : added.foldl Keyspace.addMember members = []
    · rw [hempty]
      rfl
    · conv_lhs => rw [Keyspace.setEntry, dif_neg hempty]
      rfl
  rw [executeAll_saving s added deletes pairs expirations hset hpos, if_neg fun hc => hset hc.2.1,
    savedEntry, Keyspace.execute_mset_of_notMem _ _ hpairs, Keyspace.execute_srem, if_pos rfl,
    Keyspace.execute_sadd, if_pos rfl, hadd, hremove]
  simp only [Keyspace.lifetime_of_notMem hexpire]
  cases Keyspace.setEntry ((added.foldl Keyspace.addMember members).filter fun m => m ∉ removed)
    none <;> rfl

/-- INTERNAL: which they are. -/
theorem mem_members_saving {members added removed : List Bytes} (h : members.Nodup) (m : Bytes) :
    m ∈ (added.foldl Keyspace.addMember members).filter (fun m => m ∉ removed) ↔
      (m ∈ members ∨ m ∈ added) ∧ m ∉ removed := by
  rw [List.mem_filter, (foldl_addMember added members h).2, decide_eq_true_eq]

/-- **The values after a saving.** -/
theorem get_saving (s : Keyspace) {setKey : Bytes} (added : List Bytes) {removed : List Bytes}
    (pairs : List (Bytes × Bytes)) {expirations : List (Bytes × ℤ)} (hset : setKey ∉ removed)
    (hpos : ∀ e ∈ expirations, 0 < e.2) {key : Bytes} (hkey : key ≠ setKey) :
    (key ∈ pairs.map Prod.fst → ∃ bytes, (key, bytes) ∈ pairs ∧
      (s.executeAll (saving setKey added removed true pairs expirations)).get key = some bytes) ∧
    (key ∉ pairs.map Prod.fst →
      (s.executeAll (saving setKey added removed true pairs expirations)).get key =
        if key ∈ removed then none else s.get key) := by
  have hget : (s.executeAll (saving setKey added removed true pairs expirations)).get key =
      Keyspace.get (fun key => if key ∈ removed ∧ key ∉ pairs.map Prod.fst then none
        else savedEntry s setKey added removed pairs key) key := by
    rw [Keyspace.get, Keyspace.get, executeAll_saving s added true pairs expirations hset hpos]
    simp only [true_and]
    cases (if key ∈ removed ∧ key ∉ pairs.map Prod.fst then none
      else savedEntry s setKey added removed pairs key) with
    | none => rfl
    | some entry =>
      obtain ⟨value, ttl⟩ := entry
      cases value <;> rfl
  rw [hget, Keyspace.get]
  constructor
  · intro hmem
    obtain ⟨bytes, hpair, hall⟩ := Keyspace.exists_execute_mset key hmem
    refine ⟨bytes, hpair, ?_⟩
    rw [if_neg fun hc => hc.2 hmem, savedEntry, hall]
  · intro hmem
    rw [savedEntry, Keyspace.execute_mset_of_notMem _ _ hmem, Keyspace.execute_srem, if_neg hkey,
      Keyspace.execute_sadd, if_neg hkey]
    by_cases hr : key ∈ removed
    · rw [if_pos ⟨hr, hmem⟩, if_pos hr]
    · rw [if_neg fun hc => hr hc.1, if_neg hr]
      rfl

end IspSession.Analysis
