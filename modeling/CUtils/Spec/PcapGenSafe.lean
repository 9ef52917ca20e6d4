import CUtils.Spec.PcapGenCorrect

/-!
# When the capture cache overflows

A record that does not fit behind the cached ones makes `pcap_add` flush the cache, but
not look at the length again.  A flush of an empty cache fails, so a packet longer than
the cache is refused when nothing is cached and overflows the cache when something is.

- `pcapStep_cases`: one call, for a packet of any length and any outcome of the flush.
- `pcap_add_safe_iff`: the sessions that stay inside the cache.
-/

namespace CUtils

open StepSystem

/-- The cache has its size and is used up to `offset`. -/
structure CacheInv (cap : Pcap) : Prop where
  offset_le : cap.offset ≤ pcapCacheSize
  length_cache : cap.cache.length = pcapCacheSize

/-- The record of a packet is the last one in the used part of the cache. -/
def StoredLast (cap : Pcap) (p : Packet) : Prop :=
  ∃ before, cap.cache.take cap.offset = before ++ pcapRecord p

/-- What a call of `pcap_add` may do: store the record, count it and return 0, or return
    -1 and leave the count. -/
def AddSafe (cap cap' : Pcap) (p : Packet) (rc : Int) : Prop :=
  cap'.offset ≤ pcapCacheSize ∧
    ((rc = 0 ∧ StoredLast cap' p ∧ cap'.numPackets = cap.numPackets + 1) ∨
      (rc = -1 ∧ cap'.numPackets = cap.numPackets))

/-- The call does not flush records to make room for a packet that is longer than the
    cache. -/
def PacketFits (cap : Pcap) (call : Packet × FlushResult) : Prop :=
  call.1.data.length ≤ 4080 ∨ cap.offset = 0 ∨ ¬ call.2.Succeeds

/-- `fwrite` counts its item when it has bytes and all are written. -/
theorem fwrite_ne_zero_iff (file : File) (data : List UInt8) (res : FlushResult) :
    (fwrite file data res).2 ≠ 0 ↔ data.length ≠ 0 ∧ res.fwrite = true := by
  unfold fwrite
  split
  · simp_all
  · split <;> simp_all

section Step

variable {cap : Pcap} {p : Packet} {res : FlushResult}

/-- A flush empties the cache, or fails and leaves the cache and the count. -/
theorem pcapFlush_cases (h : CacheInv cap) (res : FlushResult) :
    ∃ cap' rc, pcapFlush cap res = some (cap', rc) ∧ CacheInv cap' ∧
      cap'.numPackets = cap.numPackets ∧ (rc = 0 ↔ cap.offset ≠ 0 ∧ res.Succeeds) ∧
      (rc = 0 → cap'.offset = 0) := by
  have hread : readAt cap.cache 0 cap.offset = some (cap.cache.take cap.offset) := by
    rw [readAt_of_le (by rw [h.length_cache, Nat.zero_add]; exact h.offset_le), List.drop_zero]
  have hlen : (cap.cache.take cap.offset).length = cap.offset := by
    rw [List.length_take, h.length_cache]
    exact Nat.min_eq_left h.offset_le
  have hret := fwrite_ne_zero_iff cap.file (cap.cache.take cap.offset) res
  rw [hlen] at hret
  simp only [pcapFlush, hread, Option.bind_eq_bind, Option.bind_some, Option.pure_def]
  split
  · -- the item was written
    rename_i hne
    obtain ⟨hoff, hw⟩ := hret.mp hne
    refine ⟨_, res.fflush, rfl, ⟨Nat.zero_le _, h.length_cache⟩, rfl, ?_, fun _ => rfl⟩
    simp [FlushResult.Succeeds, hoff, hw]
  · rename_i hne
    rw [hret] at hne
    refine ⟨_, -1, rfl, ⟨h.offset_le, h.length_cache⟩, rfl, ?_, fun hrc => absurd hrc (by decide)⟩
    constructor
    · intro hrc
      exact absurd hrc (by decide)
    · rintro ⟨hoff, hres⟩
      exact absurd ⟨hoff, hres.1⟩ hne

/-- A record that fits is stored and counted. -/
theorem pcapStore_safe (h : CacheInv cap) (hlen : p.data.length < 2 ^ 32)
    (hfit : cap.offset + 16 + p.data.length ≤ pcapCacheSize) :
    ∃ cap', pcapStore cap p.sec p.usec p.data (UInt32.ofNat p.data.length) = some cap' ∧
      CacheInv cap' ∧ StoredLast cap' p ∧ cap'.numPackets = cap.numPackets + 1 := by
  obtain ⟨cache, hstore, hcache, htake⟩ := pcapStore_of_le h.length_cache hlen hfit
  refine ⟨_, hstore, ⟨?_, hcache⟩, ⟨_, htake⟩, rfl⟩
  simp only [length_pcapRecord]
  omega

/-- A record that does not fit is written past the end of the cache. -/
theorem pcapStore_of_gt (h : CacheInv cap) (hlen : p.data.length < 2 ^ 32)
    (hgt : pcapCacheSize < cap.offset + 16 + p.data.length) :
    pcapStore cap p.sec p.usec p.data (UInt32.ofNat p.data.length) = none := by
  obtain ⟨rh, hrh⟩ : ∃ rh, rh = pcapRecordHeader p.sec p.usec (UInt32.ofNat p.data.length) :=
    ⟨_, rfl⟩
  have hrh16 : rh.length = 16 := by rw [hrh, length_pcapRecordHeader]
  have hcache := h.length_cache
  simp only [pcapStore, ← hrh, toNat_length hlen, Option.bind_eq_bind]
  by_cases hin₁ : cap.offset + rh.length ≤ cap.cache.length
  · -- the header still fits
    have hcopy₁ := memcpy_length hin₁
    have hcopy₂ : memcpy (splice cap.cache cap.offset rh) (cap.offset + rh.length) p.data
        p.data.length = none := by
      apply memcpy_of_gt (Nat.le_refl _)
      rw [length_splice hin₁]
      omega
    rw [hcopy₁, Option.bind_some, hcopy₂, Option.bind_none]
  · rw [memcpy_of_gt (Nat.le_refl _) (by omega), Option.bind_none]

/-- One call: it does what it should, or overflows the cache, and the latter exactly for
    the calls that `PacketFits` excludes. -/
theorem pcapStep_cases (h : CacheInv cap) (hlen : p.data.length < 2 ^ 32) (res : FlushResult) :
    (PacketFits cap (p, res) ∧ ∃ cap' rc, pcapStep cap (p, res) = some (cap', rc) ∧
      CacheInv cap' ∧ AddSafe cap cap' p rc) ∨
    (¬PacketFits cap (p, res) ∧ pcapStep cap (p, res) = none) := by
  simp only [pcapStep, pcapAdd, length_pcapRecordHeader, toNat_length hlen]
  by_cases hfit : cap.offset + 16 + p.data.length ≤ pcapCacheSize
  · -- no flush
    obtain ⟨cap', hstore, hinv, hlast, hnum⟩ := pcapStore_safe h hlen hfit
    have hsmall : p.data.length ≤ 4080 := by
      unfold pcapCacheSize at hfit
      omega
    refine .inl ⟨.inl hsmall, cap', 0, ?_, hinv, hinv.offset_le, .inl ⟨rfl, hlast, hnum⟩⟩
    rw [if_neg (Nat.not_lt.mpr hfit), hstore]
    rfl
  · obtain ⟨cap₁, rc, hflush, hinv₁, hnum₁, hrc, hzero⟩ := pcapFlush_cases h res
    rw [if_pos (Nat.lt_of_not_le hfit), hflush, Option.bind_eq_bind, Option.bind_some]
    by_cases hflushed : rc = 0
    · -- the cache is empty now
      obtain ⟨hoff, hres⟩ := hrc.mp hflushed
      have hoff₁ := hzero hflushed
      rw [if_neg (by simpa using hflushed)]
      by_cases hsmall : p.data.length ≤ 4080
      · have hfit₁ : cap₁.offset + 16 + p.data.length ≤ pcapCacheSize := by
          unfold pcapCacheSize
          omega
        obtain ⟨cap', hstore, hinv, hlast, hnum⟩ := pcapStore_safe hinv₁ hlen hfit₁
        refine .inl ⟨.inl hsmall, cap', 0, by rw [hstore]; rfl, hinv, hinv.offset_le,
          .inl ⟨rfl, hlast, by rw [hnum, hnum₁]⟩⟩
      · refine .inr ⟨?_, ?_⟩
        · rintro (hle | hoff' | hres')
          · exact hsmall hle
          · exact hoff hoff'
          · exact hres' hres
        · have hgt : pcapCacheSize < cap₁.offset + 16 + p.data.length := by
            unfold pcapCacheSize
            omega
          rw [pcapStore_of_gt hinv₁ hlen hgt]
          rfl
    · -- the flush failed: the packet is refused
      rw [if_pos (by simpa using hflushed)]
      have hfits : PacketFits cap (p, res) := by
        by_cases hoff : cap.offset = 0
        · exact .inr (.inl hoff)
        · exact .inr (.inr fun hres => hflushed (hrc.mpr ⟨hoff, hres⟩))
      exact .inl ⟨hfits, cap₁, -1, rfl, hinv₁, hinv₁.offset_le, .inr ⟨rfl, hnum₁⟩⟩

end Step

/-! ## Sessions -/

/-- Every call of a session stays inside the cache and does what it may do. -/
def AddsSafe : Pcap → List (Packet × FlushResult) → Prop
  | _, [] => True
  | cap, call :: calls =>
    ∃ cap' rc, pcapStep cap call = some (cap', rc) ∧ AddSafe cap cap' call.1 rc ∧
      AddsSafe cap' calls

/-- The capture after a call. -/
def pcapNext (cap : Pcap) (call : Packet × FlushResult) : Option Pcap :=
  (pcapStep cap call).map Prod.fst

/-- The sessions that stay inside the cache, from any state of it. -/
theorem addsSafe_iff_meets {cap : Pcap} (h : CacheInv cap) {calls : List (Packet × FlushResult)}
    (hlen : ∀ c ∈ calls, c.1.data.length < 2 ^ 32) :
    AddsSafe cap calls ↔ Meets pcapNext PacketFits cap calls := by
  induction calls generalizing cap with
  | nil => exact Iff.rfl
  | cons call calls ih =>
    obtain ⟨p, res⟩ := call
    have hrest : ∀ c ∈ calls, c.1.data.length < 2 ^ 32 :=
      fun c hc => hlen c (List.mem_cons_of_mem _ hc)
    -- either the packet fits and the step succeeds, or it does neither
    rcases pcapStep_cases h (hlen (p, res) List.mem_cons_self) res with
      ⟨hfits, cap', rc, hstep, hinv, hsafe⟩ | ⟨hfits, hstep⟩
    · have hnext : pcapNext cap (p, res) = some cap' := by
        rw [pcapNext, hstep, Option.map_some]
      constructor
      · rintro ⟨cap'', rc', hstep', _, hcalls⟩
        obtain ⟨rfl, rfl⟩ := Prod.mk.inj (Option.some.inj (hstep.symm.trans hstep'))
        refine ⟨hfits, fun m hm => ?_⟩
        obtain rfl := Option.some.inj (hnext.symm.trans hm)
        exact (ih hinv hrest).mp hcalls
      · rintro ⟨_, hmeets⟩
        exact ⟨cap', rc, hstep, hsafe, (ih hinv hrest).mpr (hmeets cap' hnext)⟩
    · constructor
      · rintro ⟨cap', rc, hstep', _⟩
        rw [hstep] at hstep'
        cases hstep'
      · rintro ⟨hfits', _⟩
        exact absurd hfits' hfits

/-- A session after `pcap_start`, with packets of any length and any outcomes of the
    flushes, stays inside the cache exactly when no call flushes cached records to make
    room for a packet of more than 4080 bytes. -/
theorem pcap_add_safe_iff {maxPacketSize linkType : UInt32} {res : StartResult} {cap₀ : Pcap}
    (hstart : pcapStart maxPacketSize linkType res = some cap₀)
    {calls : List (Packet × FlushResult)} (hlen : ∀ c ∈ calls, c.1.data.length < 2 ^ 32) :
    AddsSafe cap₀ calls ↔ Meets pcapNext PacketFits cap₀ calls := by
  have hrepr := pcapStart_repr hstart
  exact addsSafe_iff_meets ⟨hrepr.offset_le, hrepr.length_cache⟩ hlen

/-- A capture right after `pcap_start`. -/
private def startedCapture : Pcap :=
  ⟨⟨[pcapHeader 65535 1], 0⟩, 0, List.replicate pcapCacheSize 0, 0⟩

private theorem startedCapture_start :
    pcapStart 65535 1 ⟨true, true, true, ⟨true, 0, 0⟩⟩ = some startedCapture := rfl

/-- A packet of 4081 bytes is refused while the cache is empty. -/
theorem pcap_add_safe_iff_refused :
    AddsSafe startedCapture [(⟨1, 2, List.replicate 4081 7⟩, ⟨true, 0, 0⟩)] ↔
      Meets pcapNext PacketFits startedCapture [(⟨1, 2, List.replicate 4081 7⟩, ⟨true, 0, 0⟩)] := by
  apply pcap_add_safe_iff startedCapture_start
  intro c hc
  obtain rfl := List.mem_singleton.mp hc
  show (List.replicate 4081 (7 : UInt8)).length < 2 ^ 32
  rw [List.length_replicate]
  decide

/-- After one cached byte the same packet overflows the cache. -/
theorem pcap_add_overflows :
    ¬AddsSafe startedCapture
      [(⟨1, 2, [8]⟩, ⟨true, 0, 0⟩), (⟨3, 4, List.replicate 4081 7⟩, ⟨true, 0, 0⟩)] := by
  have hinv : CacheInv startedCapture := ⟨Nat.zero_le _, List.length_replicate⟩
  have hlong : (List.replicate 4081 (7 : UInt8)).length = 4081 := List.length_replicate
  have hlen : ∀ c ∈ [((⟨1, 2, [8]⟩ : Packet), (⟨true, 0, 0⟩ : FlushResult)),
      (⟨3, 4, List.replicate 4081 7⟩, ⟨true, 0, 0⟩)], c.1.data.length < 2 ^ 32 := by
    intro c hc
    simp only [List.mem_cons, List.not_mem_nil, or_false] at hc
    rcases hc with rfl | rfl
    · decide
    · simp only [hlong]
      decide
  have hoff : (pcapNext startedCapture (⟨1, 2, [8]⟩, ⟨true, 0, 0⟩)).map Pcap.offset = some 17 := by
    decide +kernel
  rw [addsSafe_iff_meets hinv hlen]
  rintro ⟨_, hrest⟩
  obtain ⟨cap, hnext, hcap⟩ := Option.map_eq_some_iff.mp hoff
  rcases (hrest cap hnext).1 with hle | hzero | hfail
  · simp only [hlong] at hle
    omega
  · rw [hcap] at hzero
    cases hzero
  · exact hfail ⟨rfl, rfl⟩

end CUtils
