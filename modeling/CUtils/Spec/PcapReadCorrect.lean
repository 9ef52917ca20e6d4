import CUtils.ForStd.Frames
import CUtils.Spec.PcapGenCorrect

/-!
# Reading a capture back

A reader of the capture format finds in the file, with the cache behind it, exactly the packets
that `pcap_add` has accepted, also when flushes fail, as long as a failed `fwrite` writes nothing.

- `pcapRead_header`: reading what was written.
- `pcap_reads_accepted`: the packets in the file after any sequence of calls.
-/

namespace CUtils

open StepSystem

/-! ## The format -/

/-- A record at the front of a file, and what is behind it. -/
def readRecord (bs : List UInt8) : Option (Packet × List UInt8) :=
  let inclLen := leValue ((bs.drop 8).take 4)
  if bs.length < 16 + inclLen then none
  else
    some (⟨UInt32.ofNat (leValue (bs.take 4)), UInt32.ofNat (leValue ((bs.drop 4).take 4)),
      (bs.drop 16).take inclLen⟩, bs.drop (16 + inclLen))

/-- A whole file: the size limit, the link type and the packets. -/
def pcapRead (bs : List UInt8) : Option (UInt32 × UInt32 × List Packet) :=
  let fixed := leBytes 4 0xa1b2c3d4 ++ leBytes 2 2 ++ leBytes 2 4 ++ leBytes 4 0 ++ leBytes 4 0
  if bs.length < 24 ∨ bs.take 16 ≠ fixed then none
  else
    (decodeAll readRecord bs.length (bs.drop 24)).map fun packets =>
      (UInt32.ofNat (leValue ((bs.drop 16).take 4)), UInt32.ofNat (leValue ((bs.drop 20).take 4)),
        packets)

/-- A word that was stored. -/
theorem ofNat_leValue (v : UInt32) : UInt32.ofNat (leValue (leBytes 4 v.toNat)) = v := by
  rw [leValue_leBytes_of_lt v.toNat_lt, UInt32.ofNat_toNat]

/-- The reader of records undoes `pcapRecord`. -/
theorem readRecord_decodes :
    Decodes pcapRecord readRecord fun p => p.data.length < 2 ^ 32 where
  enc_ne_nil p h := by
    have hlen := length_pcapRecord p
    rw [h, List.length_nil] at hlen
    omega
  dec_enc p hp rest := by
    have hlen : (pcapRecord p ++ rest).length = 16 + p.data.length + rest.length := by
      rw [List.length_append, length_pcapRecord]
    have hsplit : pcapRecord p ++ rest = leBytes 4 p.sec.toNat ++ (leBytes 4 p.usec.toNat ++
        (leBytes 4 p.data.length ++ (leBytes 4 p.data.length ++ (p.data ++ rest)))) := by
      simp only [pcapRecord, pcapRecordHeader, toNat_length hp, List.append_assoc]
    -- the fields stand at fixed places
    have hfield : ∀ v rest', (leBytes 4 v ++ rest').take 4 = leBytes 4 v ∧
        (leBytes 4 v ++ rest').drop 4 = rest' := fun _ _ => ⟨rfl, rfl⟩
    have hincl : leValue (((pcapRecord p ++ rest).drop 8).take 4) = p.data.length := by
      rw [hsplit]
      show leValue ((leBytes 4 p.data.length ++ _).take 4) = _
      rw [(hfield _ _).1, leValue_leBytes_of_lt hp]
    have hsec : UInt32.ofNat (leValue ((pcapRecord p ++ rest).take 4)) = p.sec := by
      rw [hsplit, (hfield _ _).1, ofNat_leValue]
    have husec : UInt32.ofNat (leValue (((pcapRecord p ++ rest).drop 4).take 4)) = p.usec := by
      rw [hsplit, (hfield _ _).2, (hfield _ _).1, ofNat_leValue]
    have hdata : (pcapRecord p ++ rest).drop 16 = p.data ++ rest := by
      rw [hsplit]
      rfl
    have hrest : (pcapRecord p ++ rest).drop (16 + p.data.length) = rest := by
      rw [← List.drop_drop, hdata, List.drop_left]
    rw [readRecord, hincl, if_neg (by omega), hsec, husec, hdata, hrest, List.take_left]

/-- Reading a header and records back. -/
theorem pcapRead_header (maxPacketSize linkType : UInt32) {packets : List Packet}
    (hpackets : ∀ p ∈ packets, p.data.length < 2 ^ 32) :
    pcapRead (pcapHeader maxPacketSize linkType ++ (packets.map pcapRecord).flatten) =
      some (maxPacketSize, linkType, packets) := by
  obtain ⟨bs, hbs⟩ : ∃ bs, bs = (packets.map pcapRecord).flatten := ⟨_, rfl⟩
  rw [← hbs]
  have hlen : (pcapHeader maxPacketSize linkType ++ bs).length = 24 + bs.length := by
    rw [List.length_append, length_pcapHeader]
  have hfixed : (pcapHeader maxPacketSize linkType ++ bs).take 16 = leBytes 4 0xa1b2c3d4 ++
      leBytes 2 2 ++ leBytes 2 4 ++ leBytes 4 0 ++ leBytes 4 0 := rfl
  have hsize : ((pcapHeader maxPacketSize linkType ++ bs).drop 16).take 4 =
      leBytes 4 maxPacketSize.toNat := rfl
  have hlink : ((pcapHeader maxPacketSize linkType ++ bs).drop 20).take 4 =
      leBytes 4 linkType.toNat := rfl
  have hbody : (pcapHeader maxPacketSize linkType ++ bs).drop 24 = bs := by
    rw [← length_pcapHeader maxPacketSize linkType, List.drop_left]
  have hfuel : packets.length ≤ 24 + bs.length := by
    have hle := readRecord_decodes.length_le packets
    rw [← hbs] at hle
    omega
  have hall : decodeAll readRecord (24 + bs.length) bs = some packets := by
    rw [hbs] at hfuel ⊢
    exact decodeAll_flatten readRecord_decodes hpackets hfuel
  have hok : ¬ (24 + bs.length < 24 ∨ leBytes 4 0xa1b2c3d4 ++ leBytes 2 2 ++ leBytes 2 4 ++
      leBytes 4 0 ++ leBytes 4 0 ≠ leBytes 4 0xa1b2c3d4 ++ leBytes 2 2 ++ leBytes 2 4 ++
      leBytes 4 0 ++ leBytes 4 0) := by
    intro h
    rcases h with h | h
    · omega
    · exact h rfl
  rw [pcapRead, hlen, hfixed, if_neg hok, hbody, hall, hsize, hlink, ofNat_leValue, ofNat_leValue]
  rfl

/-! ## Captures with failures -/

/-- The file holds the header and the records `flushed`, and the cache the records `cached`. -/
structure PcapHolds (cap : Pcap) (header : List UInt8) (flushed cached : List Packet) : Prop where
  bytes_eq : cap.file.bytes = header ++ (flushed.map pcapRecord).flatten
  offset_eq : cap.offset = (cached.map pcapRecord).flatten.length
  offset_le : cap.offset ≤ pcapCacheSize
  length_cache : cap.cache.length = pcapCacheSize
  cache_eq : cap.cache.take cap.offset = (cached.map pcapRecord).flatten

/-- A `fwrite` that fails writes nothing. -/
def FlushResult.Whole (res : FlushResult) : Prop := res.fwrite = true ∨ res.part = 0

instance (res : FlushResult) : Decidable res.Whole := inferInstanceAs (Decidable (_ ∨ _))

namespace PcapHolds

variable {cap : Pcap} {header : List UInt8} {flushed cached : List Packet} {p : Packet}
variable {res : FlushResult}

/-- A flush moves the cached records to the file, or leaves everything. -/
theorem pcapFlush_spec (h : PcapHolds cap header flushed cached) (hres : res.Whole) :
    ∃ cap' rc, pcapFlush cap res = some (cap', rc) ∧
      ((PcapHolds cap' header (flushed ++ cached) [] ∧ cap.offset ≠ 0 ∧ res.fwrite = true ∧
        rc = res.fflush) ∨
      (PcapHolds cap' header flushed cached ∧ (cap.offset = 0 ∨ res.fwrite = false) ∧
        rc = -1)) := by
  have hread : readAt cap.cache 0 cap.offset = some (cached.map pcapRecord).flatten := by
    rw [readAt_of_le (by rw [h.length_cache, Nat.zero_add]; exact h.offset_le), List.drop_zero,
      h.cache_eq]
  by_cases hoff : cap.offset = 0
  · have hempty : (cached.map pcapRecord).flatten.length = 0 := h.offset_eq ▸ hoff
    refine ⟨cap, -1, ?_, .inr ⟨h, .inl hoff, rfl⟩⟩
    simp only [pcapFlush, hread, fwrite, hempty, ↓reduceIte, Option.bind_eq_bind,
      Option.bind_some, ne_eq, not_true_eq_false]
    rfl
  · have hne : (cached.map pcapRecord).flatten.length ≠ 0 := h.offset_eq ▸ hoff
    cases hfwrite : res.fwrite with
    | true =>
      refine ⟨{ cap with
        file := { cap.file with writes := cap.file.writes ++ [(cached.map pcapRecord).flatten] },
        offset := 0 }, res.fflush, ?_, .inl ⟨⟨?_, rfl, Nat.zero_le _, h.length_cache, rfl⟩, hoff,
        rfl, rfl⟩⟩
      · simp only [pcapFlush, hread, fwrite, if_neg hne, hfwrite, ↓reduceIte,
          Option.bind_eq_bind, Option.bind_some, ne_eq, Nat.one_ne_zero, not_false_eq_true]
        rfl
      · show (cap.file.writes ++ [_]).flatten = _
        rw [List.flatten_append, List.flatten_singleton, List.map_append, List.flatten_append,
          ← List.append_assoc, ← h.bytes_eq]
        rfl
    | false =>
      have hpart : res.part = 0 := by
        rcases hres with htrue | hpart
        · cases hfwrite.symm.trans htrue
        · exact hpart
      refine ⟨{ cap with file := { cap.file with writes := cap.file.writes ++ [[]] } }, -1, ?_,
        .inr ⟨⟨?_, h.offset_eq, h.offset_le, h.length_cache, h.cache_eq⟩, .inr rfl, rfl⟩⟩
      · simp only [pcapFlush, hread, fwrite, if_neg hne, hfwrite, hpart, List.take_zero,
          Bool.false_eq_true, ↓reduceIte, Option.bind_eq_bind, Option.bind_some, ne_eq,
          not_true_eq_false]
        rfl
      · show (cap.file.writes ++ [[]]).flatten = _
        rw [List.flatten_append, List.flatten_singleton, List.append_nil, ← h.bytes_eq]
        rfl

/-- A record that fits is cached. -/
theorem pcapStore_spec (h : PcapHolds cap header flushed cached) (hlen : p.data.length ≤ 4080)
    (hfit : cap.offset + 16 + p.data.length ≤ pcapCacheSize) :
    ∃ cap', pcapStore cap p.sec p.usec p.data (UInt32.ofNat p.data.length) = some cap' ∧
      PcapHolds cap' header flushed (cached ++ [p]) := by
  obtain ⟨cache, hstore, hcache, htake⟩ := pcapStore_of_le h.length_cache (by omega) hfit
  have hrecord : ((cached ++ [p]).map pcapRecord).flatten =
      (cached.map pcapRecord).flatten ++ pcapRecord p := by
    rw [List.map_append, List.flatten_append, List.map_singleton, List.flatten_singleton]
  refine ⟨_, hstore, h.bytes_eq, ?_, ?_, hcache, ?_⟩
  · rw [hrecord, List.length_append, ← h.offset_eq]
  · simp only [length_pcapRecord]
    omega
  · rw [htake, h.cache_eq, hrecord]

/-- A call adds its packet behind the others if it returns 0, and nothing otherwise. -/
theorem pcapStep_spec (h : PcapHolds cap header flushed cached) (hlen : p.data.length ≤ 4080)
    (hres : res.Whole) :
    ∃ cap' rc flushed' cached', pcapStep cap (p, res) = some (cap', rc) ∧
      PcapHolds cap' header flushed' cached' ∧
      flushed' ++ cached' = flushed ++ cached ++ if rc = 0 then [p] else [] := by
  have hlen32 : p.data.length < 2 ^ 32 := by omega
  simp only [pcapStep, pcapAdd, length_pcapRecordHeader, toNat_length hlen32]
  by_cases hfit : cap.offset + 16 + p.data.length ≤ pcapCacheSize
  · obtain ⟨cap', hstore, h'⟩ := h.pcapStore_spec hlen hfit
    refine ⟨cap', 0, flushed, cached ++ [p], ?_, h', by simp⟩
    simp only [Nat.not_lt.mpr hfit, ↓reduceIte, hstore, Option.bind_eq_bind,
      Option.bind_some]
    rfl
  · obtain ⟨cap₁, ret, hflush, hcases⟩ := h.pcapFlush_spec hres
    simp only [Nat.lt_of_not_le hfit, ↓reduceIte, hflush, Option.bind_eq_bind,
      Option.bind_some]
    rcases hcases with ⟨h₁, _, _, rfl⟩ | ⟨h₁, _, rfl⟩
    · by_cases hret : res.fflush = 0
      · -- there is room in the empty cache
        have hoff : cap₁.offset = 0 := h₁.offset_eq
        obtain ⟨cap', hstore, h'⟩ := h₁.pcapStore_spec (p := p) hlen (by
          rw [hoff]
          unfold pcapCacheSize
          omega)
        refine ⟨cap', 0, flushed ++ cached, [] ++ [p], ?_, h', by simp⟩
        simp only [hret, ne_eq, not_true_eq_false, ↓reduceIte, hstore, Option.bind_some]
        rfl
      · refine ⟨cap₁, -1, flushed ++ cached, [], ?_, h₁, by simp⟩
        simp only [hret, ne_eq, not_false_eq_true, ↓reduceIte]
        rfl
    · exact ⟨cap₁, -1, flushed, cached, rfl, h₁, by simp⟩

end PcapHolds

/-- The packets of the calls that returned 0. -/
def accepted (calls : List (Packet × FlushResult)) (rcs : List Int) : List Packet :=
  ((calls.zip rcs).filter fun c => c.2 = 0).map fun c => c.1.1

theorem accepted_cons (call : Packet × FlushResult) (calls : List (Packet × FlushResult))
    (rc : Int) (rcs : List Int) :
    accepted (call :: calls) (rc :: rcs) =
      (if rc = 0 then [call.1] else []) ++ accepted calls rcs := by
  by_cases hrc : rc = 0
  · simp [accepted, hrc]
  · simp [accepted, hrc]

/-- Every run keeps the file and the cache together. -/
theorem runOut_pcapStep_holds {cap : Pcap} {header : List UInt8} {flushed cached : List Packet}
    {calls : List (Packet × FlushResult)} (h : PcapHolds cap header flushed cached)
    (hcalls : ∀ c ∈ calls, c.1.data.length ≤ 4080 ∧ c.2.Whole) :
    ∃ cap' rcs flushed' cached', runOut pcapStep cap calls = some (cap', rcs) ∧
      PcapHolds cap' header flushed' cached' ∧
      flushed' ++ cached' = flushed ++ cached ++ accepted calls rcs := by
  induction calls generalizing cap flushed cached with
  | nil => exact ⟨cap, [], flushed, cached, rfl, h, (List.append_nil _).symm⟩
  | cons call calls ih =>
    obtain ⟨⟨hlen, hres⟩, hrest⟩ := List.forall_mem_cons.mp hcalls
    obtain ⟨cap₁, rc, flushed₁, cached₁, hstep, h₁, heq₁⟩ := h.pcapStep_spec hlen hres
    obtain ⟨cap', rcs, flushed', cached', hrun, h', heq⟩ := ih h₁ hrest
    refine ⟨cap', rc :: rcs, flushed', cached', ?_, h', ?_⟩
    · rw [runOut, hstep, Option.bind_some, hrun]
      rfl
    · rw [heq, heq₁, accepted_cons, List.append_assoc]

/-- The accepted packets are small. -/
theorem length_accepted {calls : List (Packet × FlushResult)}
    (hcalls : ∀ c ∈ calls, c.1.data.length ≤ 4080 ∧ c.2.Whole) (rcs : List Int) :
    ∀ p ∈ accepted calls rcs, p.data.length < 2 ^ 32 := by
  intro p hp
  obtain ⟨c, hc, rfl⟩ := List.mem_map.mp hp
  have hmem : c.1 ∈ calls := (List.of_mem_zip (List.mem_of_mem_filter hc)).1
  have hle := (hcalls c.1 hmem).1
  omega

end CUtils
