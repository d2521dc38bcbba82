import IspSession.Model.NativeRecords
import IspSession.Analysis.CommitLaw

/-!
# The keys of a session on both sides

`setstring` parses the texts of the application key and of the id, in either case of the letters,
and the native key is printed from the bytes, in upper case. `GetKey` joins the texts as they are.
So the keys are the same exactly for texts that are printed already. In other texts a lower-case
letter, a control character that `Validate` takes for a digit, or in the application key a
character of which only the lower byte is a digit makes them differ.
-/

set_option autoImplicit false

namespace IspSession.Analysis

open IspSession.Library IspSession.Model

variable {settings : SessionAppSettings}

/-! ## The claim -/

/-- The commands that the native code sends for the sessions `g` and `g'` of an application go to
these two keys: those that load, save, rename and delete. -/
structure NativeKeysAre (app g g' : Guid) (key key' : Bytes) : Prop where
  load : ∀ c ∈ SessionRedis.openCommands app g, c.keys = [key]
  insert : ∀ expires reEntrance liquid stamp,
    ∀ c ∈ SessionRedis.sessionInsert app g expires reEntrance liquid stamp, c.keys = [key]
  save : ∀ expires reEntrance liquid pStream zLen stamp,
    ∀ c ∈ SessionRedis.sessionSave app g expires reEntrance liquid none pStream zLen stamp,
      c.keys = [key]
  rename : ∀ expires reEntrance liquid pStream zLen stamp,
    ∀ c ∈ SessionRedis.sessionSave app g expires reEntrance liquid (some g') pStream zLen stamp,
      c.keys = [key, key'] ∨ c.keys = [key']
  delete : ∀ c ∈ SessionRedis.sessionDelete app g, c.keys = [key]

/-- The texts name the same session natively. -/
def SameNativeSession (id id' : Bstr) : Prop :=
  ∃ g, guidOfText id = some g ∧ guidOfText id' = some g

/-- Both sides address the sessions of these two ids under the same keys, and they agree on
whether these are one session. -/
def AddressTheSame (settings : SessionAppSettings) (id id' : Bstr) : Prop :=
  (∃ app g g', guidOfText settings.AppKey = some app ∧ guidOfText id = some g ∧
    guidOfText id' = some g' ∧
    NativeKeysAre app g g' (CSessionDL.getKey settings id) (CSessionDL.getKey settings id')) ∧
  (SameNativeSession id id' ↔ CSessionDL.getKey settings id = CSessionDL.getKey settings id')

/-- Digits and upper-case letters. -/
def IsPrinted (text : Bstr) : Prop := ∀ u ∈ text, 48 ≤ u ∧ u ≤ 57 ∨ 65 ≤ u ∧ u ≤ 70

/-! ## `setstring` -/

/-- INTERNAL: the byte that two characters make. -/
def byteAt (text : Bstr) (bx : ℕ) : Option UInt8 :=
  match hexValue (text.getD (2 * bx) 0).toUInt8, hexValue (text.getD (2 * bx + 1) 0).toUInt8 with
  | some high, some low => some (high * 16 ||| low)
  | _, _ => none

/-- INTERNAL: a step of the loop. -/
theorem setstringLoop_succ (text : Bstr) (n : ℕ) (bytes : Bytes) :
    setstringLoop text (n + 1) bytes =
      match byteAt text n with
      | some b => setstringLoop text n (bytes.set n b)
      | none => (false, bytes) := by
  rw [setstringLoop, byteAt]
  cases hexValue (text.getD (2 * n) 0).toUInt8 with
  | none => rfl
  | some high => cases hexValue (text.getD (2 * n + 1) 0).toUInt8 <;> rfl

/-- INTERNAL: the loop either stops at a character that is no digit, or fills in all bytes. -/
theorem setstringLoop_eq (text : Bstr) (n : ℕ) (bytes : Bytes) (hn : n ≤ bytes.length) :
    ((setstringLoop text n bytes).1 = true ↔ ∀ bx < n, (byteAt text bx).isSome) ∧
      ((setstringLoop text n bytes).1 = true →
        (setstringLoop text n bytes).2 =
          (List.range n).map (fun bx => (byteAt text bx).getD 0) ++ bytes.drop n) := by
  induction n generalizing bytes with
  | zero => exact ⟨⟨fun _ bx h => absurd h (Nat.not_lt_zero bx), fun _ => rfl⟩, fun _ => rfl⟩
  | succ n ih =>
    rw [setstringLoop_succ]
    cases hbyte : byteAt text n with
    | none =>
      refine ⟨⟨fun h => (by cases h), fun h => ?_⟩, fun h => (by cases h)⟩
      have := h n (Nat.lt_succ_self n)
      rw [hbyte] at this
      cases this
    | some b =>
      obtain ⟨hvalid, hbytes⟩ := ih (bytes.set n b) (by rw [List.length_set]; omega)
      dsimp only
      constructor
      · rw [hvalid]
        constructor
        · intro h bx hbx
          rcases Nat.lt_succ_iff_lt_or_eq.mp hbx with h' | rfl
          · exact h bx h'
          · rw [hbyte]
            rfl
        · exact fun h bx hbx => h bx (Nat.lt_succ_of_lt hbx)
      · intro h
        rw [hbytes h, List.range_succ, List.map_append, List.map_singleton, hbyte,
          List.append_assoc]
        congr 1
        rw [List.drop_set, if_neg (Nat.lt_irrefl n), Nat.sub_self,
          List.drop_eq_getElem_cons (by omega)]
        rfl

/-- INTERNAL: the digit that is printed for a value, from the character that it was read from. -/
theorem hexValue_spec {b v : UInt8} (h : hexValue b = some v) :
    v < 16 ∧ hexDigit v = if 97 ≤ b then b - 32 else b := by
  have hall : ∀ n < 256, (hexValue (UInt8.ofNat n)).all fun v =>
      decide (v < 16 ∧ hexDigit v =
        if 97 ≤ UInt8.ofNat n then UInt8.ofNat n - 32 else UInt8.ofNat n) := by decide +kernel
  have hb := hall b.toNat b.toNat_lt
  rw [UInt8.ofNat_toNat, h] at hb
  exact of_decide_eq_true hb

/-- INTERNAL: how a character is printed after it has been read. -/
def printed (u : UInt16) : UInt8 := if 97 ≤ u.toUInt8 then u.toUInt8 - 32 else u.toUInt8

/-- INTERNAL: the two digits of a byte. -/
theorem digits_byteAt {text : Bstr} {bx : ℕ} {b : UInt8} (h : byteAt text bx = some b) :
    [hexDigit (b / 16), hexDigit (b &&& 15)] =
      [printed (text.getD (2 * bx) 0), printed (text.getD (2 * bx + 1) 0)] := by
  have hsplit : ∀ m < 16, ∀ n < 16,
      (UInt8.ofNat m * 16 ||| UInt8.ofNat n) / 16 = UInt8.ofNat m ∧
        (UInt8.ofNat m * 16 ||| UInt8.ofNat n) &&& 15 = UInt8.ofNat n := by decide
  unfold byteAt at h
  split at h
  · rename_i high low hhigh hlow
    obtain rfl := Option.some.inj h
    obtain ⟨hhigh16, hhighDigit⟩ := hexValue_spec hhigh
    obtain ⟨hlow16, hlowDigit⟩ := hexValue_spec hlow
    have hparts := hsplit high.toNat hhigh16 low.toNat hlow16
    rw [UInt8.ofNat_toNat, UInt8.ofNat_toNat] at hparts
    rw [hparts.1, hparts.2, hhighDigit, hlowDigit]
    rfl
  · cases h

/-- INTERNAL: the characters of a text in pairs. -/
theorem flatMap_pairs (text : Bstr) (n : ℕ) (hn : 2 * n ≤ text.length) :
    (List.range n).flatMap (fun bx =>
      [printed (text.getD (2 * bx) 0), printed (text.getD (2 * bx + 1) 0)]) =
      (text.take (2 * n)).map printed := by
  induction n with
  | zero => rfl
  | succ n ih =>
    have hget : ∀ i < text.length, text[i]? = some (text.getD i 0) := by
      intro i hi
      rw [List.getD_eq_getElem?_getD, List.getElem?_eq_getElem hi]
      rfl
    have htake : text.take (2 * (n + 1)) =
        text.take (2 * n) ++ [text.getD (2 * n) 0, text.getD (2 * n + 1) 0] := by
      rw [show 2 * (n + 1) = 2 * n + 1 + 1 from by omega, List.take_add_one, List.take_add_one,
        hget _ (by omega), hget _ (by omega), List.append_assoc]
      rfl
    rw [List.range_succ, List.flatMap_append, ih (by omega), htake, List.map_append,
      List.flatMap_singleton]
    rfl

/-- INTERNAL: a text that is taken, and what its `GUID` is printed as. -/
theorem hex_guidOfText {text : Bstr} {g : Guid} (h : guidOfText text = some g) :
    32 ≤ text.length ∧ (∀ u ∈ text.take 32, (hexValue u.toUInt8).isSome) ∧
      hexStringFromMemory (guidBytes g) = (text.take 32).map printed := by
  unfold guidOfText setstring at h
  dsimp only at h
  by_cases hlength : text.length % 2 ^ 32 = 32
  · rw [if_pos hlength] at h
    obtain ⟨hall, hbytes⟩ := setstringLoop_eq text 16 (List.replicate 16 0) (by simp)
    by_cases hvalid : (setstringLoop text 16 (List.replicate 16 0)).1 = true
    · rw [if_pos hvalid, hbytes hvalid] at h
      have hdigits := hall.mp hvalid
      have hlong : 32 ≤ text.length := by omega
      refine ⟨hlong, ?_, ?_⟩
      · intro u hu
        obtain ⟨i, hi, rfl⟩ := List.mem_iff_getElem.mp hu
        rw [List.length_take] at hi
        have hget : (text.take 32)[i] = text.getD i 0 := by
          rw [List.getElem_take, List.getD_eq_getElem?_getD, List.getElem?_eq_getElem (by omega)]
          rfl
        have hpair := hdigits (i / 2) (by omega)
        unfold byteAt at hpair
        split at hpair
        · rename_i high low hhigh hlow
          rw [hget]
          rcases Nat.mod_two_eq_zero_or_one i with hmod | hmod
          · rw [show 2 * (i / 2) = i from by omega] at hhigh
            rw [hhigh]
            rfl
          · rw [show 2 * (i / 2) + 1 = i from by omega] at hlow
            rw [hlow]
            rfl
        · cases hpair
      · obtain rfl := Option.some.inj h
        generalize hbs : (List.range 16).map (fun bx => (byteAt text bx).getD 0) ++
          (List.replicate 16 0).drop 16 = bs
        have hbs' : bs = (List.range 16).map fun bx => (byteAt text bx).getD 0 := by
          rw [← hbs]
          exact List.append_nil _
        have hsixteen : bs.length = 16 := by rw [hbs', List.length_map, List.length_range]
        have hguid : guidBytes (BitVec.ofNat 128 (ofLeBytes bs)) = bs := by
          have hlt : ofLeBytes bs < 2 ^ 128 := by
            have hwidth := ofLeBytes_lt bs
            rw [hsixteen] at hwidth
            omega
          rw [guidBytes, BitVec.toNat_ofNat, Nat.mod_eq_of_lt hlt, ← hsixteen, leBytes_ofLeBytes]
        rw [hguid, hexStringFromMemory, hbs', List.flatMap_map]
        rw [← flatMap_pairs text 16 hlong]
        refine List.flatMap_congr fun bx hbx => ?_
        obtain ⟨b, hb⟩ := Option.isSome_iff_exists.mp (hdigits bx (List.mem_range.mp hbx))
        rw [hb]
        exact digits_byteAt hb
    · rw [if_neg hvalid] at h
      cases h
  · rw [if_neg hlength, if_neg Bool.false_ne_true] at h
    cases h

/-- INTERNAL: the characters of a text that is printed already. -/
theorem printed_eq {u : UInt16} (h : 48 ≤ u ∧ u ≤ 57 ∨ 65 ≤ u ∧ u ≤ 70) :
    u < 128 ∧ (hexValue u.toUInt8).isSome ∧ printed u = u.toUInt8 := by
  have hall : ∀ n < 128, 48 ≤ UInt16.ofNat n ∧ UInt16.ofNat n ≤ 57 ∨
      65 ≤ UInt16.ofNat n ∧ UInt16.ofNat n ≤ 70 →
        (hexValue (UInt16.ofNat n).toUInt8).isSome ∧
          printed (UInt16.ofNat n) = (UInt16.ofNat n).toUInt8 := by decide
  have hlt : u < 128 := by
    rcases h with h | h
    · exact UInt16.lt_of_le_of_lt h.2 (by decide)
    · exact UInt16.lt_of_le_of_lt h.2 (by decide)
  have hu := hall u.toNat hlt
  rw [UInt16.ofNat_toNat] at hu
  exact ⟨hlt, hu h⟩

/-- INTERNAL: a printed text is taken. -/
theorem exists_guidOfText {text : Bstr} (hlength : text.length = 32)
    (hdigits : ∀ u ∈ text, (hexValue u.toUInt8).isSome) : ∃ g, guidOfText text = some g := by
  obtain ⟨hall, -⟩ := setstringLoop_eq text 16 (List.replicate 16 0) (by simp)
  have hget : ∀ i < 32, (hexValue (text.getD i 0).toUInt8).isSome := by
    intro i hi
    refine hdigits _ ?_
    rw [List.getD_eq_getElem?_getD, List.getElem?_eq_getElem (by omega : i < text.length)]
    exact List.getElem_mem _
  have hvalid : (setstringLoop text 16 (List.replicate 16 0)).1 = true := by
    refine hall.mpr fun bx hbx => ?_
    obtain ⟨high, hhigh⟩ := Option.isSome_iff_exists.mp (hget (2 * bx) (by omega))
    obtain ⟨low, hlow⟩ := Option.isSome_iff_exists.mp (hget (2 * bx + 1) (by omega))
    rw [byteAt, hhigh, hlow]
    rfl
  refine ⟨BitVec.ofNat 128 (ofLeBytes (setstringLoop text 16 (List.replicate 16 0)).2), ?_⟩
  unfold guidOfText setstring
  rw [if_pos (by omega)]
  exact if_pos hvalid

/-- **A text that is taken is sent as it is exactly when it is printed already.** -/
theorem hex_eq_utf8_iff {text : Bstr} {g : Guid} (h : guidOfText text = some g) :
    hexStringFromMemory (guidBytes g) = utf16ToUtf8 text ↔ text.length = 32 ∧ IsPrinted text := by
  obtain ⟨hlong, hdigits, hhex⟩ := hex_guidOfText h
  rw [hhex]
  constructor
  · intro hsame
    have hprinted : ∀ n < 256, (hexValue (UInt8.ofNat n)).isSome →
        (if 97 ≤ UInt8.ofNat n then UInt8.ofNat n - 32 else UInt8.ofNat n) < 128 := by
      decide +kernel
    have hascii : AsciiUtf16 text := by
      refine asciiUtf16_of_utf8 fun b hb => ?_
      rw [← hsame] at hb
      obtain ⟨u, hu, rfl⟩ := List.mem_map.mp hb
      have := hprinted u.toUInt8.toNat u.toUInt8.toNat_lt
      rw [UInt8.ofNat_toNat] at this
      exact this (hdigits u hu)
    rw [utf16ToUtf8_ascii hascii] at hsame
    have hlength : text.length = 32 := by
      have := congrArg List.length hsame
      rw [List.length_map, List.length_map, List.length_take] at this
      omega
    rw [List.take_of_length_le (by omega)] at hsame hdigits
    have hall : ∀ n < 128, (hexValue (UInt16.ofNat n).toUInt8).isSome →
        printed (UInt16.ofNat n) = (UInt16.ofNat n).toUInt8 →
          48 ≤ UInt16.ofNat n ∧ UInt16.ofNat n ≤ 57 ∨
            65 ≤ UInt16.ofNat n ∧ UInt16.ofNat n ≤ 70 := by decide +kernel
    refine ⟨hlength, fun u hu => ?_⟩
    have hunit := hall u.toNat (hascii u hu)
    rw [UInt16.ofNat_toNat] at hunit
    exact hunit (hdigits u hu) (List.map_inj_left.mp hsame u hu)
  · rintro ⟨hlength, hprinted⟩
    rw [List.take_of_length_le (by omega)]
    rw [utf16ToUtf8_ascii fun u hu => (printed_eq (hprinted u hu)).1]
    exact List.map_congr_left fun u hu => (printed_eq (hprinted u hu)).2.2

/-! ## The theorem -/

/-- INTERNAL: a `GUID` has 32 digits. -/
theorem length_hexGuid (g : Guid) : (hexStringFromMemory (guidBytes g)).length = 32 := by
  have h := length_guidToHex g
  rwa [ISPSessionIDManager.guidToHex, List.length_map] at h

/-- INTERNAL: the commands of `SessionSave`. -/
theorem keys_sessionSave (app g : Guid) (expires : BitVec 32) (reEntrance liquid : Bool)
    (guidNewPar : Option Guid) (pStream : Option CStream) (zLen : BitVec 32) (stamp : DBTimeStamp) :
    ∀ c ∈ SessionRedis.sessionSave app g expires reEntrance liquid guidNewPar pStream zLen stamp,
      (∃ g', guidNewPar = some g' ∧ c.keys = [sessionKey app g, sessionKey app g']) ∨
        c.keys = [sessionKey app (guidNewPar.getD g)] := by
  intro c hc
  rcases List.mem_append.mp hc with hc | hc
  · cases guidNewPar with
    | none => exact absurd hc List.not_mem_nil
    | some g' =>
      obtain rfl := List.mem_singleton.mp hc
      exact .inl ⟨g', rfl, rfl⟩
  · cases pStream with
    | none =>
      obtain rfl := List.mem_singleton.mp hc
      exact .inr rfl
    | some stream =>
      dsimp only at hc
      split at hc
      · exact absurd hc List.not_mem_nil
      · obtain rfl := List.mem_singleton.mp hc
        exact .inr rfl

/-- INTERNAL: the keys of the commands for two sessions. -/
theorem nativeKeysAre_self (app g g' : Guid) :
    NativeKeysAre app g g' (sessionKey app g) (sessionKey app g') where
  load c hc := by
    obtain rfl := List.mem_singleton.mp hc
    rfl
  insert expires reEntrance liquid stamp c hc := by
    obtain rfl := List.mem_singleton.mp hc
    rfl
  save expires reEntrance liquid pStream zLen stamp c hc := by
    rcases keys_sessionSave app g expires reEntrance liquid none pStream zLen stamp c hc with
      ⟨g'', h, -⟩ | h
    · cases h
    · exact h
  rename expires reEntrance liquid pStream zLen stamp c hc := by
    rcases keys_sessionSave app g expires reEntrance liquid (some g') pStream zLen stamp c hc with
      ⟨g'', h, hkeys⟩ | h
    · cases h
      exact .inl hkeys
    · exact .inr h
  delete c hc := by
    obtain rfl := List.mem_singleton.mp hc
    rfl

/-- INTERNAL: they are no other ones. -/
theorem eq_of_nativeKeysAre {app g g' : Guid} {key key' : Bytes}
    (h : NativeKeysAre app g g' key key') : sessionKey app g = key ∧ sessionKey app g' = key' := by
  have hload := h.load _ List.mem_cons_self
  have hrename := h.rename 0 false false none 0 ⟨List.replicate 16 0, rfl⟩
    (.rename (sessionKey app g) (sessionKey app g')) List.mem_cons_self
  have hfirst : sessionKey app g = key := (List.cons.inj hload).1
  refine ⟨hfirst, ?_⟩
  rcases hrename with hrename | hrename
  · exact (List.cons.inj (List.cons.inj hrename).2).1
  · cases (List.cons.inj hrename).2

/-- INTERNAL: `Validate` takes texts of 32 characters. -/
theorem length_of_validate {id : Bstr} (hid : ISPSessionIDManager.validate id = true) :
    id.length = 32 := by
  rw [ISPSessionIDManager.validate, Bool.and_eq_true] at hid
  exact of_decide_eq_true hid.1

/-- INTERNAL: the native key of a session is the managed one exactly when both texts are
printed. -/
theorem sessionKey_eq_getKey_iff {app g : Guid} {id : Bstr}
    (hid : ISPSessionIDManager.validate id = true)
    (happ : guidOfText settings.AppKey = some app) (hg : guidOfText id = some g) :
    sessionKey app g = CSessionDL.getKey settings id ↔
      (settings.AppKey.length = 32 ∧ IsPrinted settings.AppKey) ∧ IsPrinted id := by
  have hid32 : id.length = 32 := length_of_validate hid
  have hidLength : (utf16ToUtf8 id).length = 32 := by
    rw [utf16ToUtf8_ascii (ascii_of_validate hid), List.length_map, hid32]
  have hprinted : IsPrinted id ↔ hexStringFromMemory (guidBytes g) = utf16ToUtf8 id := by
    rw [hex_eq_utf8_iff hg, and_iff_right hid32]
  rw [← hex_eq_utf8_iff happ, hprinted, getKey_eq, sessionKey, List.append_assoc]
  constructor
  · intro h
    obtain ⟨hfirst, hsecond⟩ := List.append_inj' h
      (by rw [List.length_append, List.length_cons, List.length_cons, length_hexGuid, hidLength]; rfl)
    exact ⟨hfirst, (List.cons.inj hsecond).2⟩
  · rintro ⟨hfirst, hsecond⟩
    rw [hfirst, hsecond]
    rfl

/-- INTERNAL: a session that is valid and printed is taken. -/
theorem exists_guid_of_printed {id : Bstr} (hid : ISPSessionIDManager.validate id = true)
    (hprinted : IsPrinted id) : ∃ g, guidOfText id = some g := by
  exact exists_guidOfText (length_of_validate hid) fun u hu => (printed_eq (hprinted u hu)).2.1

/-- **Both sides address the same records exactly when the texts are printed already**: for every
application key that `setstring` takes and all ids that `Validate` takes. -/
theorem addressTheSame_iff {id id' : Bstr} (happ : (guidOfText settings.AppKey).isSome)
    (hid : ISPSessionIDManager.validate id = true)
    (hid' : ISPSessionIDManager.validate id' = true) :
    AddressTheSame settings id id' ↔
      (settings.AppKey.length = 32 ∧ IsPrinted settings.AppKey) ∧
        IsPrinted id ∧ IsPrinted id' := by
  constructor
  · rintro ⟨⟨app, g, g', happ, hg, hg', hkeys⟩, -⟩
    obtain ⟨hkey, hkey'⟩ := eq_of_nativeKeysAre hkeys
    have hprinted := (sessionKey_eq_getKey_iff hid happ hg).mp hkey
    have hprinted' := (sessionKey_eq_getKey_iff hid' happ hg').mp hkey'
    exact ⟨hprinted.1, hprinted.2, hprinted'.2⟩
  · rintro ⟨hkey, hprinted, hprinted'⟩
    obtain ⟨app, happ⟩ := Option.isSome_iff_exists.mp happ
    obtain ⟨g, hg⟩ := exists_guid_of_printed hid hprinted
    obtain ⟨g', hg'⟩ := exists_guid_of_printed hid' hprinted'
    have hsame := (sessionKey_eq_getKey_iff hid happ hg).mpr ⟨hkey, hprinted⟩
    have hsame' := (sessionKey_eq_getKey_iff hid' happ hg').mpr ⟨hkey, hprinted'⟩
    refine ⟨⟨app, g, g', happ, hg, hg', ?_⟩, ?_⟩
    · rw [← hsame, ← hsame']
      exact nativeKeysAre_self app g g'
    · constructor
      · rintro ⟨g'', h, h'⟩
        rw [hg] at h
        rw [hg'] at h'
        rw [← hsame, ← hsame', Option.some.inj h, Option.some.inj h']
      · intro h
        obtain rfl := getKey_validate_inj hid hid' h
        exact ⟨g, hg, hg⟩

/-- An application key and an id in upper case. -/
def upperKey : Bstr := List.replicate 32 65

/-- Settings with such a key. -/
def upperSettings : SessionAppSettings := { sampleSettings with AppKey := upperKey }

/-- Sessions in upper case are the same on both sides. -/
theorem upperKey_addressTheSame : AddressTheSame upperSettings upperKey sampleId :=
  (addressTheSame_iff (by decide +kernel) (by decide +kernel) (validate_guidToHex _)).mpr
    ⟨⟨List.length_replicate, fun u hu => (by rw [List.eq_of_mem_replicate hu]; decide)⟩,
      fun u hu => (by rw [List.eq_of_mem_replicate hu]; decide), digits_guidToHex (by decide) _⟩

/-- **The id in lower case is another session for the managed side alone.** -/
theorem lowerKey_not_addressTheSame :
    ¬ AddressTheSame upperSettings upperKey (List.replicate 32 97) := by
  rintro ⟨-, hsame⟩
  have hnative : SameNativeSession upperKey (List.replicate 32 97) := by
    have h : (guidOfText upperKey).isSome = true ∧
        guidOfText (List.replicate 32 97) = guidOfText upperKey := by decide +kernel
    obtain ⟨g, hg⟩ := Option.isSome_iff_exists.mp h.1
    exact ⟨g, hg, h.2.trans hg⟩
  exact absurd (hsame.mp hnative) (by decide +kernel)

end IspSession.Analysis
