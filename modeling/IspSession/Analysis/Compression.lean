import IspSession.Library.Inflate
import IspSession.Analysis.RecordEnvelopes

/-!
# Compressed records

`SessionGetAsync` on the record that `SessionSave` has stored, for the four combinations of the
`Compress` setting in writing and in reading. A payload that is not compressed starts with the
length of the name `Els`, and these bytes are a deflate stream without contents, so that a reader
that decompresses finds no items and does not fall back. What the compressor has passed on while
it is open is no deflate stream, and no payload either.
-/

set_option autoImplicit false

namespace IspSession.Analysis

open IspSession.Library IspSession.Model

/-- `DeflateStream` as it is documented: it reads the deflate format and reports an
`InvalidDataException` on anything else, and what it passes on while it is open has no final
block. -/
structure Documented (deflate : Deflate) : Prop where
  decompress : ∀ bytes, deflate.decompress bytes = inflate bytes
  unfinished : ∀ bytes, inflate (deflate.written bytes) = none
  firstBlock : ∀ bytes b rest, deflate.written bytes = b :: rest → b.toNat.testBit 0 = false

/-- The settings with another `Compress`. -/
def withCompress (settings : SessionAppSettings) (compress : Bool) : SessionAppSettings :=
  { settings with Compress := compress }

/-- `SessionGetAsync` finds the items that `SessionSave` was given, when they write and read with
these settings of `Compress`. -/
def Transparent (host : ManagedHost) (settings : SessionAppSettings) (database : Keyspace)
    (write read : Bool) (m : CSessionDL.PersistMetaData) (id : Bstr) (old : Option Bstr)
    (items : StateItemCollection host.strings NetValue) : Prop :=
  ∃ saved, CSessionDL.sessionSaveAsync host (withCompress settings write) database items m id old =
      (.ok (), saved) ∧
    Decodes host (withCompress settings read) saved id items

/-! ## How a payload starts -/

/-- INTERNAL: the length of the name `Els` comes first. -/
theorem payloadBytes_head (rt : NetRuntime) (entries : List (Bstr × NetValue)) :
    ∃ rest, payloadBytes rt entries = 3 :: 0 :: rest := by
  have hname : stringBytes netElsName = [3, 0, 0, 0, 69, 108, 115] := by decide +kernel
  rw [payloadBytes, netPropertiesBytes, List.map_cons, storedItemsBytes, propertyBytes]
  dsimp only [storedItem]
  rw [hname]
  exact ⟨_, rfl⟩

/-- INTERNAL: a string that is read has as many bytes as the number in front of it says. -/
theorem length_of_readString {m m' : StreamManager} {s : Bstr} (hs : AsciiUtf16 s)
    (h : m.readString = .ok (s, m')) :
    s.length = (BitVec.ofNat 32 (m.readNumber 4).1).toNat := by
  unfold StreamManager.readString at h
  obtain ⟨⟨bytes, m₁⟩, hblock, h⟩ := NetRun.bind_eq_ok h
  obtain ⟨rfl, -⟩ := Prod.mk.inj (Except.ok.inj h)
  rw [length_utf8ToUtf16_ascii hs]
  unfold StreamManager.readBlock at hblock
  split at hblock
  · cases hblock
  · obtain ⟨m₂, -, hblock⟩ := NetRun.bind_eq_ok hblock
    obtain ⟨rfl, -⟩ := Prod.mk.inj (Except.ok.inj hblock)
    exact (List.length_map _).trans List.length_range

/-- **A payload that loads starts with the byte 3.** -/
theorem head_of_localLoad {strings : NetStrings} {rt : NetRuntime} {loaders : NetLoaders}
    {payload : Bytes} {s : StateItemCollection strings NetValue}
    (h : PersistUtil.localLoad rt loaders payload = .ok s) : ∃ rest, payload = 3 :: rest := by
  unfold PersistUtil.localLoad at h
  obtain ⟨⟨sTemp, varTemp, m⟩, hread, h⟩ := NetRun.bind_eq_ok h
  dsimp only at h
  split at h
  · cases h
  · rename_i hels
    rw [ne_eq, Decidable.not_not] at hels
    subst hels
    unfold PersistUtil.readProperty at hread
    obtain ⟨⟨keyName, m₁⟩, hname, hread⟩ := NetRun.bind_eq_ok hread
    obtain ⟨⟨data, m₂⟩, -, hread⟩ := NetRun.bind_eq_ok hread
    obtain ⟨rfl, -⟩ := Prod.mk.inj (Except.ok.inj hread)
    have hlength := length_of_readString (by decide) hname
    rw [StreamManager.readNumber, StreamManager.readBytes] at hlength
    cases payload with
    | nil => exact absurd hlength (by decide)
    | cons b rest =>
      refine ⟨rest, congrArg (· :: rest) ?_⟩
      have hfirst : (List.range 4).map (fun i => ((CStream.mk (b :: rest) 0).read 4).2.1.getD i 0) =
          b :: (List.range 3).map
            (fun i => ((CStream.mk (b :: rest) 0).read 4).2.1.getD (i + 1) 0) := by
        rw [CStream.read_bytes]
        rfl
      have hnumber : (Bstr.ofString "Els").length = (BitVec.ofNat 32 (ofLeBytes
        ((List.range 4).map
          fun i => ((CStream.mk (b :: rest) 0).read 4).2.1.getD i 0))).toNat := hlength
      rw [hfirst, ofLeBytes, BitVec.toNat_ofNat,
        show (Bstr.ofString "Els").length = 3 from rfl] at hnumber
      have hb := b.toNat_lt
      refine UInt8.toNat_inj.mp ?_
      show b.toNat = 3
      omega

/-! ## What is read -/

section Stored

variable {host : ManagedHost} {settings : SessionAppSettings} {database saved : Keyspace}
  {id : Bstr} {old : Option Bstr} {m : CSessionDL.PersistMetaData}
  {items : StateItemCollection host.strings NetValue}

/-- INTERNAL: what the open compressor has passed on does not load. -/
theorem localLoad_written (hdeflate : Documented host.deflate) (bytes : Bytes)
    (s : StateItemCollection host.strings NetValue) :
    PersistUtil.localLoad host.runtime host.loaders (host.deflate.written bytes) ≠ .ok s := by
  intro h
  obtain ⟨rest, hrest⟩ := head_of_localLoad h
  exact absurd (hdeflate.firstBlock bytes 3 rest hrest) (by decide)

/-- INTERNAL: the stream that a record is loaded from. -/
theorem stream_of_decodes {compress : Bool} {payload : Bytes} {ttl : Option ℤ}
    (hsize : m.SizeofMeta = 32)
    (hentry : saved (CSessionDL.getKey settings id) =
      some ⟨.string (CSessionDL.toByteArray m ++ payload), ttl⟩)
    (h : Decodes host (withCompress settings compress) saved id items) :
    ∃ loaded : StateItemCollection host.strings NetValue, SameItems items loaded ∧
      PersistUtil.localLoad host.runtime host.loaders
        (if compress = true then (host.deflate.decompress payload).getD payload else payload) =
          .ok loaded := by
  obtain ⟨m', loaded, hget, hsame⟩ := h
  refine ⟨loaded, hsame, ?_⟩
  unfold CSessionDL.sessionGetAsync at hget
  split at hget
  · cases hget
  · rw [show CSessionDL.getKey (withCompress settings compress) id =
      CSessionDL.getKey settings id from rfl, hentry] at hget
    dsimp only at hget
    rw [fromByteArray_toByteArray, NetRun.ok_bind] at hget
    obtain ⟨ms, hstream, hget⟩ := NetRun.bind_eq_ok hget
    obtain ⟨loaded', hload, hget⟩ := NetRun.bind_eq_ok hget
    cases hget
    rw [← hload]
    congr 1
    unfold CSessionDL.payloadStream at hstream
    have hdrop : (CSessionDL.toByteArray m ++ payload).drop (32 : BitVec 32).toNat = payload :=
      List.drop_left' (length_toByteArray m)
    rw [hsize, hdrop] at hstream
    split at hstream
    · cases hstream
    · split at hstream
      · cases hstream
      · cases compress with
        | true => exact Except.ok.inj hstream
        | false => exact Except.ok.inj hstream

/-- INTERNAL: a saved record. -/
theorem sessionSaveAsync_dirty (settings : SessionAppSettings) (database : Keyspace) (id : Bstr)
    (old : Option Bstr) {bytes : Bytes} {zLen : ℕ}
    (hcontents : PersistUtil.localContents host.runtime items = .ok (bytes, zLen))
    (hread : items.isReadOnly = false) (hdirty : items.dirty = true)
    (htime : 0 < CSessionDL.milliseconds m.Expires) :
    ∃ saved, CSessionDL.sessionSaveAsync host settings database items m id old = (.ok (), saved) ∧
      saved (CSessionDL.getKey settings id) =
        some ⟨.string (CSessionDL.toByteArray { m with ZLen := BitVec.ofNat 32 zLen } ++
          CSessionDL.packed host.deflate settings bytes),
          some (CSessionDL.milliseconds m.Expires)⟩ := by
  rw [CSessionDL.sessionSaveAsync, hcontents]
  dsimp only
  rw [hread, hdirty, Bool.not_true, Bool.or_false, if_neg Bool.false_ne_true]
  refine ⟨_, rfl, ?_⟩
  rw [Keyspace.setExpiring, if_neg (by omega), Function.update_self]

/-! ## The theorem -/

/-- **Compression is transparent exactly where there is none**, in writing and in reading, and the
items come back from the payload. -/
theorem transparent_iff {write read : Bool} (hdeflate : Documented host.deflate) (hid : id ≠ [])
    (hsize : m.SizeofMeta = 32) (htime : 0 < CSessionDL.milliseconds m.Expires)
    (hread : items.isReadOnly = false) (hdirty : items.dirty = true)
    (hcount : items.count ≤ 32767)
    (hsupp : ∀ key ∈ items.keys, ∀ v, items.getName key = .ok v → NetSupported v)
    (hfits : (payloadBytes host.runtime (itemsOf items)).length < 0x7FFFF000) :
    Transparent host settings database write read m id old items ↔
      write = false ∧ read = false ∧ ∀ key ∈ items.keys,
        WellFormedUtf16 key ∧ ∃ v, items.getName key = .ok v ∧ NetWritable v ∧ Kept v := by
  have hround : NetRoundTrips host.runtime host.loaders items ↔ _ :=
    netRoundTrips_iff hcount hsupp hfits
  rw [← hround]
  obtain ⟨hwrite, hthrows⟩ := localContents_netSpec hsupp hfits
  constructor
  · rintro ⟨saved, hsave, hdecodes⟩
    have hwritable : ∀ key ∈ items.keys, ∃ v, items.getName key = .ok v ∧ NetWritable v := by
      by_contra hnot
      obtain ⟨e, he⟩ := hthrows hnot
      rw [CSessionDL.sessionSaveAsync, he] at hsave
      cases hsave
    have hcontents := hwrite hwritable
    obtain ⟨saved', hsave', hentry⟩ := sessionSaveAsync_dirty (withCompress settings write) database
      id old hcontents hread hdirty htime
    rw [hsave] at hsave'
    obtain rfl := (Prod.mk.inj hsave').2
    have hsize' : ∀ zLen, ({ m with ZLen := zLen } : CSessionDL.PersistMetaData).SizeofMeta = 32 :=
      fun _ => hsize
    obtain ⟨loaded, hsame, hload⟩ := stream_of_decodes (hsize' _) hentry hdecodes
    cases write with
    | true =>
      -- what the inflater refuses is loaded as it is
      have hnone := hdeflate.decompress (host.deflate.written
        (payloadBytes host.runtime (itemsOf items)))
      rw [hdeflate.unfinished] at hnone
      have hstream : CSessionDL.packed host.deflate (withCompress settings true)
          (payloadBytes host.runtime (itemsOf items)) =
            host.deflate.written (payloadBytes host.runtime (itemsOf items)) := rfl
      rw [hstream, hnone, Option.getD_none, ite_self] at hload
      exact absurd hload (localLoad_written hdeflate _ _)
    | false =>
      have hstream : CSessionDL.packed host.deflate (withCompress settings false)
          (payloadBytes host.runtime (itemsOf items)) =
            payloadBytes host.runtime (itemsOf items) := rfl
      rw [hstream] at hload
      cases read with
      | true =>
        obtain ⟨rest, hrest⟩ := payloadBytes_head host.runtime (itemsOf items)
        rw [if_pos rfl, hdeflate.decompress, hrest, inflate_three_zero, Option.getD_some] at hload
        have hnil := (localLoad_nil _ _).symm.trans hload
        cases hnil
      | false => exact ⟨rfl, rfl, _, _, loaded, hcontents, hload, hsame⟩
  · rintro ⟨rfl, rfl, bytes, zLen, loaded, hcontents, hload, hsame⟩
    obtain ⟨saved, hsave, hentry⟩ := sessionSaveAsync_dirty (withCompress settings false) database
      id old hcontents hread hdirty htime
    have hsize' : ({ m with ZLen := BitVec.ofNat 32 zLen } : CSessionDL.PersistMetaData).SizeofMeta =
      32 := hsize
    have hstream := @payloadStream_stored host (withCompress settings false) _ bytes hsize'
      fun h => by cases h
    exact ⟨saved, hsave, _, loaded, sessionGetAsync_of_string hid hentry hstream hload, hsame⟩

end Stored

/-! ## A record -/

/-- A `DeflateStream` that stores, and keeps all to itself until it is closed. -/
def storedBlocks : Deflate where
  written _ := []
  compress := stored
  decompress := inflate
  decompress_compress := inflate_stored

theorem documented_storedBlocks : Documented storedBlocks where
  decompress _ := rfl
  unfinished _ := rfl
  firstBlock _ _ _ h := by cases h

/-- The sample host with it. -/
def storedHost : ManagedHost := { sampleHost with deflate := storedBlocks }

/-- INTERNAL: the item is stored and supported. -/
theorem supported_oneItem : ∀ key ∈ oneItem.keys, ∀ v, oneItem.getName key = .ok v →
    NetSupported v := by
  intro key hkey v hget
  obtain rfl : key = [65] := List.mem_singleton.mp hkey
  obtain rfl : NetValue.primitive .int32 5 = v := Except.ok.inj hget
  trivial

/-- Without compression the item is found. -/
theorem plain_transparent :
    Transparent storedHost sampleSettings (fun _ => none) false false (oneMetaData 0) sampleId none
      oneItem := by
  have hid : sampleId ≠ [] := by decide +kernel
  have hsize : (oneMetaData 0).SizeofMeta = 32 := rfl
  have htime : 0 < CSessionDL.milliseconds (oneMetaData 0).Expires := by decide
  have hfits : (payloadBytes storedHost.runtime (itemsOf oneItem)).length < 0x7FFFF000 := by
    decide +kernel
  refine (@transparent_iff storedHost sampleSettings _ sampleId none _ oneItem _ _
    documented_storedBlocks hid hsize htime rfl rfl (by decide) supported_oneItem hfits).mpr
      ⟨rfl, rfl, fun key hkey => ?_⟩
  obtain rfl : key = [65] := List.mem_singleton.mp hkey
  exact ⟨wellFormedUtf16_ascii (by decide), _, rfl, trivial, trivial⟩

/-- **A reader that decompresses does not find an item that was stored without compression.** -/
theorem plainRecord_not_transparent : Documented storedHost.deflate ∧
    ¬ Transparent storedHost sampleSettings (fun _ => none) false true (oneMetaData 0) sampleId none
      oneItem := by
  refine ⟨documented_storedBlocks, ?_⟩
  rintro ⟨saved, hsave, hdecodes⟩
  obtain ⟨bytes, zLen, hcontents, hhead⟩ : ∃ bytes zLen, PersistUtil.localContents
      storedHost.runtime oneItem = .ok (bytes, zLen) ∧ bytes.take 2 = [3, 0] := by
    have hrun : ((PersistUtil.localContents storedHost.runtime oneItem).toOption.map
        fun out => decide (out.1.take 2 = [3, 0])) = some true := by decide +kernel
    obtain ⟨⟨bytes, zLen⟩, hcontents, hhead⟩ := Option.map_eq_some_iff.mp hrun
    exact ⟨bytes, zLen, NetRun.eq_ok_of_toOption hcontents, of_decide_eq_true hhead⟩
  have htime : 0 < CSessionDL.milliseconds (oneMetaData 0).Expires := by decide
  obtain ⟨saved', hsave', hentry⟩ := @sessionSaveAsync_dirty storedHost _ _
    (withCompress sampleSettings false) (fun _ => none) sampleId none _ _ hcontents rfl rfl htime
  rw [hsave] at hsave'
  obtain rfl := (Prod.mk.inj hsave').2
  have hsize : ({ oneMetaData 0 with ZLen := BitVec.ofNat 32 zLen } :
    CSessionDL.PersistMetaData).SizeofMeta = 32 := rfl
  obtain ⟨loaded, -, hload⟩ := stream_of_decodes hsize hentry hdecodes
  have hbytes : bytes = 3 :: 0 :: bytes.drop 2 := by
    rw [← List.take_append_drop 2 bytes, hhead]
    rfl
  rw [if_pos rfl, show CSessionDL.packed storedHost.deflate (withCompress sampleSettings false)
    bytes = bytes from rfl, hbytes, show storedHost.deflate.decompress = inflate from rfl,
    inflate_three_zero, Option.getD_some] at hload
  have hnil := (localLoad_nil _ _).symm.trans hload
  cases hnil

end IspSession.Analysis
