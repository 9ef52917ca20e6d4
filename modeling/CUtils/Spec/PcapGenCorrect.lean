import CUtils.ForStd.StepSystem
import CUtils.Native.PcapGen

/-!
# A capture file is the header and the records

The cache holds the records since the last flush, so every flush hands whole records to
the stream.

- `pcapFlush_spec`, `pcapStep_spec`: the effect on the flushed and the cached records.
- `pcap_file_correct`: the bytes of the file after any number of packets, as
  `fileHeader` and `fileRecord` spell them out.
-/

namespace CUtils

open StepSystem

/-- One record of the file. -/
def pcapRecord (p : Packet) : List UInt8 :=
  pcapRecordHeader p.sec p.usec (UInt32.ofNat p.data.length) ++ p.data

/-- The calls of a flush succeed. -/
def FlushResult.Succeeds (res : FlushResult) : Prop := res.fwrite = true ∧ res.fflush = 0

theorem length_pcapRecord (p : Packet) : (pcapRecord p).length = 16 + p.data.length := by
  rw [pcapRecord, List.length_append, length_pcapRecordHeader]

/-- A 32-bit length is passed unchanged. -/
theorem toNat_length {p : Packet} (hlen : p.data.length < 2 ^ 32) :
    (UInt32.ofNat p.data.length).toNat = p.data.length := by
  rw [UInt32.toNat_ofNat']
  exact Nat.mod_eq_of_lt hlen

/-- A record that fits is written behind the used part of the cache. -/
theorem pcapStore_of_le {cap : Pcap} {p : Packet} (hcache : cap.cache.length = pcapCacheSize)
    (hlen : p.data.length < 2 ^ 32) (hfit : cap.offset + 16 + p.data.length ≤ pcapCacheSize) :
    ∃ cache, pcapStore cap p.sec p.usec p.data (UInt32.ofNat p.data.length) =
        some { cap with cache, offset := cap.offset + (pcapRecord p).length,
                        numPackets := cap.numPackets + 1 } ∧
      cache.length = pcapCacheSize ∧
      cache.take (cap.offset + (pcapRecord p).length) =
        cap.cache.take cap.offset ++ pcapRecord p := by
  obtain ⟨rh, hrh⟩ : ∃ rh, rh = pcapRecordHeader p.sec p.usec (UInt32.ofNat p.data.length) :=
    ⟨_, rfl⟩
  have hrh16 : rh.length = 16 := by rw [hrh, length_pcapRecordHeader]
  have hrecord : pcapRecord p = rh ++ p.data := by rw [pcapRecord, ← hrh]
  have hoffset : cap.offset + (pcapRecord p).length =
      cap.offset + rh.length + p.data.length := by
    rw [hrecord, List.length_append, Nat.add_assoc]
  -- first the header, then the packet
  have hin₁ : cap.offset + rh.length ≤ cap.cache.length := by omega
  have hcopy₁ : memcpy cap.cache cap.offset rh rh.length =
      some (splice cap.cache cap.offset rh) := memcpy_length hin₁
  have hin₂ : cap.offset + rh.length + p.data.length ≤
      (splice cap.cache cap.offset rh).length := by
    rw [length_splice hin₁]
    omega
  have hcopy₂ : memcpy (splice cap.cache cap.offset rh) (cap.offset + rh.length) p.data
      p.data.length =
      some (splice (splice cap.cache cap.offset rh) (cap.offset + rh.length) p.data) :=
    memcpy_length hin₂
  refine ⟨splice (splice cap.cache cap.offset rh) (cap.offset + rh.length) p.data, ?_, ?_, ?_⟩
  · simp only [pcapStore, ← hrh, hcopy₁, toNat_length hlen, hcopy₂, Option.bind_eq_bind,
      Option.bind_some, hoffset]
    rfl
  · rw [length_splice hin₂, length_splice hin₁, hcache]
  · rw [hoffset, take_splice hin₂, take_splice hin₁, hrecord, List.append_assoc]

/-- The stream holds the header and the records of `flushed`, one group for each flush,
    and the cache holds the records `cached`. -/
structure PcapRepr (cap : Pcap) (header : List UInt8) (flushed : List (List Packet))
    (cached : List Packet) : Prop where
  writes_eq : cap.file.writes = header :: flushed.map fun g => (g.map pcapRecord).flatten
  offset_eq : cap.offset = (cached.map pcapRecord).flatten.length
  offset_le : cap.offset ≤ pcapCacheSize
  length_cache : cap.cache.length = pcapCacheSize
  cache_eq : cap.cache.take cap.offset = (cached.map pcapRecord).flatten
  numPackets_eq : cap.numPackets = (flushed.flatten ++ cached).length

namespace PcapRepr

variable {cap : Pcap} {header : List UInt8} {flushed : List (List Packet)}
variable {cached : List Packet} {p : Packet} {res : FlushResult}

/-- Without cached records there is nothing to flush. -/
theorem pcapFlush_nil (h : PcapRepr cap header flushed []) (res : FlushResult) :
    pcapFlush cap res = some (cap, -1) := by
  have hoff : cap.offset = 0 := h.offset_eq
  have hread : readAt cap.cache 0 cap.offset = some [] := by
    rw [hoff]
    exact readAt_of_le (by omega)
  simp only [pcapFlush, hread, fwrite, List.length_nil, ↓reduceIte, Option.bind_eq_bind,
    Option.bind_some, ne_eq, not_true_eq_false]
  rfl

/-- A flush hands the cached records to the stream. -/
theorem pcapFlush_spec (h : PcapRepr cap header flushed cached) (hne : cached ≠ [])
    (hres : res.Succeeds) :
    ∃ cap', pcapFlush cap res = some (cap', 0) ∧
      PcapRepr cap' header (flushed ++ [cached]) [] := by
  have hread : readAt cap.cache 0 cap.offset = some (cached.map pcapRecord).flatten := by
    rw [readAt_of_le (by rw [h.length_cache, Nat.zero_add]; exact h.offset_le), List.drop_zero,
      h.cache_eq]
  -- `fwrite` counts an item only if it has bytes
  have hpos : (cached.map pcapRecord).flatten.length ≠ 0 := by
    obtain ⟨p, rest, rfl⟩ := List.exists_cons_of_ne_nil hne
    rw [List.map_cons, List.flatten_cons, List.length_append, length_pcapRecord]
    omega
  refine ⟨{ cap with
    file := { cap.file with writes := cap.file.writes ++ [(cached.map pcapRecord).flatten] },
    offset := 0 }, ?_, ?_⟩
  · simp only [pcapFlush, hread, fwrite, if_neg hpos, hres.1, hres.2, ↓reduceIte,
      Option.bind_eq_bind, Option.bind_some, ne_eq, Nat.one_ne_zero, not_false_eq_true]
    rfl
  · refine ⟨?_, rfl, Nat.zero_le _, h.length_cache, rfl, ?_⟩
    · simp only [h.writes_eq, List.map_append, List.map_cons, List.map_nil, List.cons_append]
    · rw [List.flatten_append, List.flatten_singleton, List.append_nil]
      exact h.numPackets_eq

/-- A record that fits is appended to the cache. -/
theorem pcapStore_spec (h : PcapRepr cap header flushed cached) (hlen : p.data.length ≤ 4080)
    (hfit : cap.offset + 16 + p.data.length ≤ pcapCacheSize) :
    ∃ cap', pcapStore cap p.sec p.usec p.data (UInt32.ofNat p.data.length) = some cap' ∧
      PcapRepr cap' header flushed (cached ++ [p]) := by
  obtain ⟨cache, hstore, hcache, htake⟩ := pcapStore_of_le h.length_cache (by omega) hfit
  have hrecord : ((cached ++ [p]).map pcapRecord).flatten =
      (cached.map pcapRecord).flatten ++ pcapRecord p := by
    rw [List.map_append, List.flatten_append, List.map_singleton, List.flatten_singleton]
  refine ⟨_, hstore, h.writes_eq, ?_, ?_, hcache, ?_, ?_⟩
  · rw [hrecord, List.length_append, ← h.offset_eq]
  · simp only [length_pcapRecord]
    omega
  · rw [htake, h.cache_eq, hrecord]
  · simp only [h.numPackets_eq, List.length_append, List.length_singleton]
    omega

/-- `pcap_add` stores the record, behind the cached ones or after a flush. -/
theorem pcapStep_spec (h : PcapRepr cap header flushed cached) (hlen : p.data.length ≤ 4080)
    (hres : res.Succeeds) :
    ∃ cap' flushed' cached', pcapStep cap (p, res) = some (cap', 0) ∧
      PcapRepr cap' header flushed' cached' ∧
      flushed'.flatten ++ cached' = flushed.flatten ++ cached ++ [p] := by
  have hlen32 : p.data.length < 2 ^ 32 := by omega
  simp only [pcapStep, pcapAdd, length_pcapRecordHeader, toNat_length hlen32]
  by_cases hfit : cap.offset + 16 + p.data.length ≤ pcapCacheSize
  · obtain ⟨cap', hstore, hrepr⟩ := h.pcapStore_spec hlen hfit
    refine ⟨cap', flushed, cached ++ [p], ?_, hrepr, by rw [List.append_assoc]⟩
    rw [if_neg (Nat.not_lt.mpr hfit), hstore]
    rfl
  · -- a packet fits into an empty cache, so there is something to flush
    have hne : cached ≠ [] := by
      rintro rfl
      have hoff : cap.offset = 0 := h.offset_eq
      unfold pcapCacheSize at hfit
      omega
    obtain ⟨cap₁, hflush, hrepr₁⟩ := h.pcapFlush_spec hne hres
    have hoff₁ : cap₁.offset = 0 := hrepr₁.offset_eq
    obtain ⟨cap', hstore, hrepr⟩ := hrepr₁.pcapStore_spec hlen (p := p) (by
      unfold pcapCacheSize
      omega)
    refine ⟨cap', flushed ++ [cached], [p], ?_, hrepr, ?_⟩
    · rw [if_pos (Nat.lt_of_not_le hfit), hflush, Option.bind_eq_bind, Option.bind_some,
        if_neg (fun hret => hret rfl), hstore]
      rfl
    · rw [List.flatten_append, List.flatten_singleton]

/-- What a sequence of calls leaves behind. -/
theorem runOut_pcapStep_spec {calls : List (Packet × FlushResult)}
    (h : PcapRepr cap header flushed cached)
    (hcalls : ∀ c ∈ calls, c.1.data.length ≤ 4080 ∧ c.2.Succeeds) :
    ∃ cap' flushed' cached', runOut pcapStep cap calls =
        some (cap', calls.map fun _ => (0 : Int)) ∧
      PcapRepr cap' header flushed' cached' ∧
      flushed'.flatten ++ cached' = flushed.flatten ++ cached ++ calls.map Prod.fst := by
  induction calls generalizing cap flushed cached with
  | nil => exact ⟨cap, flushed, cached, rfl, h, by rw [List.map_nil, List.append_nil]⟩
  | cons c calls ih =>
    obtain ⟨hlen, hres⟩ := hcalls c List.mem_cons_self
    obtain ⟨cap₁, flushed₁, cached₁, hstep, hrepr₁, hrec₁⟩ := h.pcapStep_spec hlen hres
    obtain ⟨cap', flushed', cached', hrun, hrepr, hrec⟩ :=
      ih hrepr₁ fun c' hc' => hcalls c' (List.mem_cons_of_mem c hc')
    refine ⟨cap', flushed', cached', ?_, hrepr, ?_⟩
    · simp only [runOut, hstep, hrun, Option.bind_some, Option.map_some, List.map_cons]
    · rw [hrec, hrec₁, List.map_cons, List.append_assoc _ [c.1], List.singleton_append]

end PcapRepr

/-- A successful `pcap_start` has written the header. -/
theorem pcapStart_eq {maxPacketSize linkType : UInt32} {res : StartResult} {cap : Pcap}
    (h : pcapStart maxPacketSize linkType res = some cap) :
    cap = ⟨⟨[pcapHeader maxPacketSize linkType], 0⟩, 0, List.replicate pcapCacheSize 0, 0⟩ := by
  have hlen : ¬ (pcapHeader maxPacketSize linkType).length = 0 := by
    rw [length_pcapHeader]
    decide
  simp only [pcapStart, fwrite, if_neg hlen] at h
  -- only the last of the five outcomes is not NULL
  split at h
  · cases h
  split at h
  · cases h
  split at h
  · cases h
  cases hw : res.fwrite.fwrite
  · rw [hw] at h
    cases h
  · rw [hw] at h
    exact (Option.some.inj h).symm

theorem pcapStart_repr {maxPacketSize linkType : UInt32} {res : StartResult} {cap : Pcap}
    (h : pcapStart maxPacketSize linkType res = some cap) :
    PcapRepr cap (pcapHeader maxPacketSize linkType) [] [] := by
  obtain rfl := pcapStart_eq h
  exact ⟨rfl, rfl, Nat.zero_le _, List.length_replicate, rfl, rfl⟩

/-! ## The file -/

/-- The 24 bytes at the beginning of a file: magic number, version 2.4, zone and accuracy,
    maximal packet size and link type, all little-endian. -/
def fileHeader (maxPacketSize linkType : UInt32) : List UInt8 :=
  [0xd4, 0xc3, 0xb2, 0xa1, 2, 0, 4, 0, 0, 0, 0, 0, 0, 0, 0, 0] ++
    leBytes 4 maxPacketSize.toNat ++ leBytes 4 linkType.toNat

/-- The bytes of a packet in a file: the time, its length twice, and the packet. -/
def fileRecord (p : Packet) : List UInt8 :=
  leBytes 4 p.sec.toNat ++ leBytes 4 p.usec.toNat ++ leBytes 4 p.data.length ++
    leBytes 4 p.data.length ++ p.data

theorem pcapHeader_eq (maxPacketSize linkType : UInt32) :
    pcapHeader maxPacketSize linkType = fileHeader maxPacketSize linkType := rfl

theorem pcapRecord_eq {p : Packet} (hlen : p.data.length < 2 ^ 32) :
    pcapRecord p = fileRecord p := by
  rw [pcapRecord, pcapRecordHeader, toNat_length hlen, fileRecord]

/-- What a stream holds that was handed whole records. -/
theorem bytes_of_writes {file : File} {header : List UInt8} {groups : List (List Packet)}
    (h : file.writes = header :: groups.map fun g => (g.map fileRecord).flatten) :
    file.bytes = header ++ (groups.flatten.map fileRecord).flatten := by
  rw [File.bytes, h, List.flatten_cons, List.map_flatten, List.flatten_flatten, List.map_map]
  rfl

/-- The bytes handed to the file are the 24 bytes of the header and one record for each
    packet, in order, and every flush has handed over whole records. -/
theorem pcap_file_correct {maxPacketSize linkType : UInt32} {res : StartResult} {cap₀ : Pcap}
    (hstart : pcapStart maxPacketSize linkType res = some cap₀)
    {calls : List (Packet × FlushResult)}
    (hcalls : ∀ c ∈ calls, c.1.data.length ≤ 4080 ∧ c.2.Succeeds)
    {stop : FlushResult} (hstop : stop.Succeeds) (fclose : Int) :
    ∃ cap file ret, runOut pcapStep cap₀ calls = some (cap, calls.map fun _ => (0 : Int)) ∧
      cap.offset ≤ pcapCacheSize ∧ cap.numPackets = calls.length ∧
      pcapStop cap stop fclose = some (file, ret) ∧
      file.bytes =
        [0xd4, 0xc3, 0xb2, 0xa1, 2, 0, 4, 0, 0, 0, 0, 0, 0, 0, 0, 0] ++
          leBytes 4 maxPacketSize.toNat ++ leBytes 4 linkType.toNat ++
          (calls.map fun c =>
            leBytes 4 c.1.sec.toNat ++ leBytes 4 c.1.usec.toNat ++ leBytes 4 c.1.data.length ++
              leBytes 4 c.1.data.length ++ c.1.data).flatten ∧
      ∃ groups : List (List Packet), groups.flatten = calls.map Prod.fst ∧
        file.writes = fileHeader maxPacketSize linkType ::
          groups.map fun g => (g.map fileRecord).flatten := by
  obtain ⟨cap, flushed, cached, hrun, hrepr, hrec⟩ :=
    (pcapStart_repr hstart).runOut_pcapStep_spec hcalls
  rw [List.flatten_nil, List.nil_append, List.nil_append] at hrec
  have hnum : cap.numPackets = calls.length := by
    rw [hrepr.numPackets_eq, hrec, List.length_map]
  -- the packets are short enough for their lengths to be stored as they are
  have hrecords : ∀ groups : List (List Packet), groups.flatten = calls.map Prod.fst →
      (groups.map fun g => (g.map pcapRecord).flatten) =
        groups.map fun g => (g.map fileRecord).flatten := by
    intro groups hgroups
    refine List.map_congr_left fun g hg => congrArg List.flatten ?_
    refine List.map_congr_left fun p hp => ?_
    have hmem : p ∈ calls.map Prod.fst := hgroups ▸ List.mem_flatten.mpr ⟨g, hg, hp⟩
    obtain ⟨c, hc, rfl⟩ := List.mem_map.mp hmem
    have hlen := (hcalls c hc).1
    exact pcapRecord_eq (by omega)
  -- the bytes follow from the groups of the flushes
  suffices hstopped : ∃ file ret, ∃ groups : List (List Packet),
      pcapStop cap stop fclose = some (file, ret) ∧
      groups.flatten = calls.map Prod.fst ∧ file.writes = pcapHeader maxPacketSize linkType ::
        groups.map fun g => (g.map pcapRecord).flatten by
    obtain ⟨file, ret, groups, hstop, hgroups, hwrites⟩ := hstopped
    rw [hrecords groups hgroups, pcapHeader_eq] at hwrites
    refine ⟨cap, file, ret, hrun, hrepr.offset_le, hnum, hstop, ?_, groups, hgroups, hwrites⟩
    rw [bytes_of_writes hwrites, hgroups, List.map_map]
    rfl
  by_cases hne : cached = []
  · -- nothing is left for the last flush, which then fails
    subst hne
    rw [List.append_nil] at hrec
    refine ⟨cap.file, -1, flushed, ?_, hrec, hrepr.writes_eq⟩
    rw [pcapStop, hrepr.pcapFlush_nil stop]
    rfl
  · obtain ⟨cap', hflush, hrepr'⟩ := hrepr.pcapFlush_spec hne hstop
    refine ⟨{ cap'.file with closes := cap'.file.closes + 1 }, fclose, flushed ++ [cached], ?_, ?_,
      hrepr'.writes_eq⟩
    · rw [pcapStop, hflush]
      rfl
    · rw [List.flatten_append, List.flatten_singleton, hrec]

/-- A packet of 4080 bytes fills the cache, the next one makes `pcap_add` flush. -/
theorem pcap_file_correct_two : ∃ cap₀ cap file ret,
    pcapStart 65535 1 ⟨true, true, true, ⟨true, 0, 0⟩⟩ = some cap₀ ∧
    runOut pcapStep cap₀
        [(⟨1, 2, List.replicate 4080 7⟩, ⟨true, 0, 0⟩), (⟨3, 4, [8]⟩, ⟨true, 0, 0⟩)] =
      some (cap, [0, 0]) ∧
    pcapStop cap ⟨true, 0, 0⟩ 0 = some (file, ret) ∧
    file.bytes =
      [0xd4, 0xc3, 0xb2, 0xa1, 2, 0, 4, 0, 0, 0, 0, 0, 0, 0, 0, 0, 0xff, 0xff, 0, 0, 1, 0, 0, 0] ++
      ([1, 0, 0, 0, 2, 0, 0, 0, 0xf0, 0x0f, 0, 0, 0xf0, 0x0f, 0, 0] ++ List.replicate 4080 7 ++
      [3, 0, 0, 0, 4, 0, 0, 0, 1, 0, 0, 0, 1, 0, 0, 0, 8]) := by
  have hstart : pcapStart 65535 1 ⟨true, true, true, ⟨true, 0, 0⟩⟩ = some _ := rfl
  have hcalls : ∀ c ∈ [((⟨1, 2, List.replicate 4080 7⟩ : Packet), (⟨true, 0, 0⟩ : FlushResult)),
      (⟨3, 4, [8]⟩, ⟨true, 0, 0⟩)], c.1.data.length ≤ 4080 ∧ c.2.Succeeds := by
    intro c hc
    simp only [List.mem_cons, List.not_mem_nil, or_false] at hc
    rcases hc with rfl | rfl
    · exact ⟨Nat.le_of_eq List.length_replicate, rfl, rfl⟩
    · exact ⟨by decide, rfl, rfl⟩
  obtain ⟨cap, file, ret, hrun, _, _, hstop, hbytes, _⟩ :=
    pcap_file_correct hstart hcalls (⟨rfl, rfl⟩ : FlushResult.Succeeds ⟨true, 0, 0⟩) 0
  refine ⟨_, cap, file, ret, hstart, hrun, hstop, hbytes.trans ?_⟩
  rw [List.map_cons, List.map_cons, List.map_nil, List.length_replicate]
  rfl

end CUtils
