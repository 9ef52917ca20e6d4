import CUtils.Spec.PcapGenSafe

/-!
# When a capture is closed

`pcap_stop` closes the file only after a flush that has succeeded, and `pcap_flush` takes
an `fwrite` of zero bytes for a failure.  So a capture without cached records is never
closed, and there are none exactly when `pcap_add` has refused every packet so far.

- `pcapStep_offset`: what one call does to the cache when all writes succeed.
- `pcapStop_closes_iff`: the captures that are closed.
-/

namespace CUtils

open StepSystem

theorem fwrite_closes (file : File) (data : List UInt8) (res : FlushResult) :
    (fwrite file data res).1.closes = file.closes := by
  unfold fwrite
  split
  · rfl
  · split <;> rfl

section Step

variable {cap cap' : Pcap} {p : Packet} {res : FlushResult} {rc : Int}

/-- A flush does not close the file, and stores nothing. -/
theorem pcapFlush_frame (hflush : pcapFlush cap res = some (cap', rc)) :
    cap'.file.closes = cap.file.closes ∧ cap'.offset ≤ cap.offset := by
  simp only [pcapFlush, Option.bind_eq_bind, Option.bind_eq_some_iff, Option.pure_def] at hflush
  obtain ⟨data, _, hflush⟩ := hflush
  split at hflush
  · obtain ⟨rfl, rfl⟩ := Prod.mk.inj (Option.some.inj hflush)
    exact ⟨fwrite_closes cap.file data res, Nat.zero_le _⟩
  · obtain ⟨rfl, rfl⟩ := Prod.mk.inj (Option.some.inj hflush)
    exact ⟨fwrite_closes cap.file data res, Nat.le_refl _⟩

/-- A record that is stored is behind the cached ones. -/
theorem pcapStore_offset (h : CacheInv cap) (hlen : p.data.length < 2 ^ 32)
    (hstore : pcapStore cap p.sec p.usec p.data (UInt32.ofNat p.data.length) = some cap') :
    CacheInv cap' ∧ cap'.file = cap.file ∧ cap'.offset = cap.offset + 16 + p.data.length := by
  by_cases hfit : cap.offset + 16 + p.data.length ≤ pcapCacheSize
  · obtain ⟨cache, hstore', hcache, _⟩ := pcapStore_of_le h.length_cache hlen hfit
    obtain rfl := Option.some.inj (hstore.symm.trans hstore')
    have hoff : cap.offset + (pcapRecord p).length = cap.offset + 16 + p.data.length := by
      rw [length_pcapRecord, Nat.add_assoc]
    refine ⟨⟨?_, hcache⟩, rfl, hoff⟩
    show cap.offset + (pcapRecord p).length ≤ pcapCacheSize
    rwa [hoff]
  · rw [pcapStore_of_gt h hlen (Nat.lt_of_not_le hfit)] at hstore
    cases hstore

/-- A call of `pcap_add` whose writes succeed keeps the file open, and leaves records in
    the cache unless there were none and the packet is longer than the cache. -/
theorem pcapStep_offset (h : CacheInv cap) (hlen : p.data.length < 2 ^ 32) (hres : res.Succeeds)
    (hstep : pcapStep cap (p, res) = some (cap', rc)) :
    CacheInv cap' ∧ cap'.file.closes = cap.file.closes ∧
      (cap'.offset ≠ 0 ↔ cap.offset ≠ 0 ∨ p.data.length ≤ 4080) := by
  simp only [pcapStep, pcapAdd, length_pcapRecordHeader, toNat_length hlen] at hstep
  by_cases hfit : cap.offset + 16 + p.data.length ≤ pcapCacheSize
  · -- no flush
    rw [if_neg (Nat.not_lt.mpr hfit)] at hstep
    obtain ⟨cap₁, hstore, hret⟩ := Option.bind_eq_some_iff.mp hstep
    obtain ⟨rfl, rfl⟩ := Prod.mk.inj (Option.some.inj hret)
    obtain ⟨hinv, hfile, hoff⟩ := pcapStore_offset h hlen hstore
    unfold pcapCacheSize at hfit
    exact ⟨hinv, by rw [hfile], by omega⟩
  · rw [if_pos (Nat.lt_of_not_le hfit)] at hstep
    obtain ⟨cap₁, rc₁, hflush, hinv₁, _, hrc, hzero⟩ := pcapFlush_cases h res
    obtain ⟨hcloses, hle⟩ := pcapFlush_frame hflush
    rw [hflush, Option.bind_eq_bind, Option.bind_some] at hstep
    by_cases hflushed : rc₁ = 0
    · rw [if_neg (by simpa using hflushed)] at hstep
      obtain ⟨cap₂, hstore, hret⟩ := Option.bind_eq_some_iff.mp hstep
      obtain ⟨rfl, rfl⟩ := Prod.mk.inj (Option.some.inj hret)
      obtain ⟨hinv, hfile, hoff⟩ := pcapStore_offset hinv₁ hlen hstore
      have hcached := (hrc.mp hflushed).1
      exact ⟨hinv, by rw [hfile, hcloses], by omega⟩
    · -- the flush of an empty cache has failed
      rw [if_pos (by simpa using hflushed)] at hstep
      have hret : (cap₁, (-1 : Int)) = (cap', rc) := Option.some.inj hstep
      obtain ⟨rfl, rfl⟩ := Prod.mk.inj hret
      have hempty : cap.offset = 0 := by
        by_contra hne
        exact hflushed (hrc.mpr ⟨hne, hres⟩)
      unfold pcapCacheSize at hfit
      exact ⟨hinv₁, hcloses, by omega⟩

end Step

/-- After any number of calls whose writes succeed the file is open, and there are records
    in the cache exactly when there were some or a packet was not too long. -/
theorem run_pcapNext_offset {cap cap' : Pcap} (h : CacheInv cap)
    {calls : List (Packet × FlushResult)}
    (hcalls : ∀ c ∈ calls, c.1.data.length < 2 ^ 32 ∧ c.2.Succeeds)
    (hrun : run pcapNext cap calls = some cap') :
    CacheInv cap' ∧ cap'.file.closes = cap.file.closes ∧
      (cap'.offset ≠ 0 ↔ cap.offset ≠ 0 ∨ ∃ c ∈ calls, c.1.data.length ≤ 4080) := by
  induction calls generalizing cap with
  | nil =>
    obtain rfl := Option.some.inj hrun
    exact ⟨h, rfl, by simp⟩
  | cons call calls ih =>
    obtain ⟨p, res⟩ := call
    obtain ⟨cap₁, hnext, hrest⟩ := (run_cons_eq_some pcapNext cap (p, res) calls cap').mp hrun
    obtain ⟨⟨_, rc⟩, hstep, rfl⟩ := Option.map_eq_some_iff.mp hnext
    obtain ⟨hlen, hres⟩ := hcalls (p, res) List.mem_cons_self
    obtain ⟨hinv₁, hcloses₁, hoff₁⟩ := pcapStep_offset h hlen hres hstep
    obtain ⟨hinv, hcloses, hoff⟩ :=
      ih hinv₁ (fun c hc => hcalls c (List.mem_cons_of_mem _ hc)) hrest
    refine ⟨hinv, hcloses.trans hcloses₁, ?_⟩
    rw [hoff, hoff₁, List.exists_mem_cons_iff, or_assoc]

/-- `pcap_stop` closes a capture with cached records, and no other. -/
theorem pcapStop_iff {cap : Pcap} (h : CacheInv cap) (hopen : cap.file.closes = 0)
    {stop : FlushResult} (hstop : stop.Succeeds) :
    (∃ file, pcapStop cap stop 0 = some (file, 0) ∧ file.closes = 1) ↔ cap.offset ≠ 0 := by
  obtain ⟨cap', rc, hflush, _, _, hrc, _⟩ := pcapFlush_cases h stop
  have hcloses := (pcapFlush_frame hflush).1
  simp only [pcapStop, hflush, Option.bind_eq_bind, Option.bind_some]
  by_cases hoff : cap.offset = 0
  · -- the flush of an empty cache fails, and the file stays open
    have hne : rc ≠ 0 := fun hzero => (hrc.mp hzero).1 hoff
    rw [if_neg hne]
    constructor
    · rintro ⟨file, hret, _⟩
      exact absurd (Prod.mk.inj (Option.some.inj hret)).2 hne
    · intro hcached
      exact absurd hoff hcached
  · rw [if_pos (hrc.mpr ⟨hoff, hstop⟩)]
    constructor
    · intro _
      exact hoff
    · intro _
      refine ⟨_, rfl, ?_⟩
      show cap'.file.closes + 1 = 1
      rw [hcloses, hopen]

/-- A capture after `pcap_start` and any number of calls of `pcap_add`, all of whose writes
    succeed: `pcap_stop` returns 0 and closes the file exactly when some packet was not
    longer than 4080 bytes. -/
theorem pcapStop_closes_iff {maxPacketSize linkType : UInt32} {res : StartResult} {cap₀ cap : Pcap}
    (hstart : pcapStart maxPacketSize linkType res = some cap₀)
    {calls : List (Packet × FlushResult)}
    (hcalls : ∀ c ∈ calls, c.1.data.length < 2 ^ 32 ∧ c.2.Succeeds)
    (hrun : run pcapNext cap₀ calls = some cap) {stop : FlushResult} (hstop : stop.Succeeds) :
    (∃ file, pcapStop cap stop 0 = some (file, 0) ∧ file.closes = 1) ↔
      ∃ c ∈ calls, c.1.data.length ≤ 4080 := by
  have hrepr := pcapStart_repr hstart
  have hempty : cap₀.offset = 0 := hrepr.offset_eq
  obtain ⟨hinv, hcloses, hoff⟩ :=
    run_pcapNext_offset ⟨hrepr.offset_le, hrepr.length_cache⟩ hcalls hrun
  have hopen : cap₀.file.closes = 0 := by rw [pcapStart_eq hstart]
  rw [pcapStop_iff hinv (hcloses.trans hopen) hstop, hoff]
  simp only [hempty, ne_eq, not_true_eq_false, false_or]

/-- A capture right after `pcap_start`. -/
private def freshCapture : Pcap :=
  ⟨⟨[pcapHeader 65535 1], 0⟩, 0, List.replicate pcapCacheSize 0, 0⟩

private theorem freshCapture_start :
    pcapStart 65535 1 ⟨true, true, true, ⟨true, 0, 0⟩⟩ = some freshCapture := rfl

/-- After one packet the file is closed. -/
theorem pcapStop_closes_iff_one : ∃ cap, run pcapNext freshCapture [(⟨1, 2, [8]⟩, ⟨true, 0, 0⟩)] =
      some cap ∧
    ((∃ file, pcapStop cap ⟨true, 0, 0⟩ 0 = some (file, 0) ∧ file.closes = 1) ↔
      ∃ c ∈ [((⟨1, 2, [8]⟩ : Packet), (⟨true, 0, 0⟩ : FlushResult))], c.1.data.length ≤ 4080) := by
  have hcalls : ∀ c ∈ [((⟨1, 2, [8]⟩ : Packet), (⟨true, 0, 0⟩ : FlushResult))],
      c.1.data.length < 2 ^ 32 ∧ c.2.Succeeds := by
    intro c hc
    obtain rfl := List.mem_singleton.mp hc
    exact ⟨by decide, rfl, rfl⟩
  have hfit : (run pcapNext freshCapture [(⟨1, 2, [8]⟩, ⟨true, 0, 0⟩)]).isSome := by
    decide +kernel
  obtain ⟨cap, hrun⟩ := Option.isSome_iff_exists.mp hfit
  exact ⟨cap, hrun, pcapStop_closes_iff freshCapture_start hcalls hrun ⟨rfl, rfl⟩⟩

/-- Without any packet `pcap_stop` returns -1 and does not close the file. -/
theorem pcapStop_leaks :
    pcapStart 65535 1 ⟨true, true, true, ⟨true, 0, 0⟩⟩ = some freshCapture ∧
      run pcapNext freshCapture [] = some freshCapture ∧
      pcapStop freshCapture ⟨true, 0, 0⟩ 0 = some (⟨[pcapHeader 65535 1], 0⟩, -1) := by
  refine ⟨freshCapture_start, rfl, ?_⟩
  rw [pcapStop, (pcapStart_repr freshCapture_start).pcapFlush_nil]
  rfl

end CUtils
