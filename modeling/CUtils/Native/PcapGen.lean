import CUtils.Native.Utils

/-!
# Packet captures

The capture writer of `pcap_gen.c` with its cache.  A stream is the list of the byte
sequences handed to it, one per `fwrite`, so that it also shows where the cache was
flushed.  The structures are stored as on a little-endian machine, without padding.
A result `none` means that the C code would leave the cache or a packet.
-/

namespace CUtils

/-! ## Streams -/

/-- A stream: what each `fwrite` has stored, and the number of `fclose` calls. -/
structure File where
  writes : List (List UInt8)
  closes : Nat
deriving DecidableEq

/-- All bytes of a stream. -/
def File.bytes (file : File) : List UInt8 := file.writes.flatten

/-- How the calls behave that a flush makes: whether `fwrite` succeeds (otherwise only the
    first `part` bytes are stored), and what `fflush` returns. -/
structure FlushResult where
  fwrite : Bool
  part : Nat
  fflush : Int

/-- `fwrite(data, size, 1, file)` with the number of items written; an item of size zero
    is never counted. -/
def fwrite (file : File) (data : List UInt8) (res : FlushResult) : File × Nat :=
  if data.length = 0 then
    (file, 0)
  else if res.fwrite then
    ({ file with writes := file.writes ++ [data] }, 1)
  else
    ({ file with writes := file.writes ++ [data.take res.part] }, 0)

/-! ## Captures -/

/-- `PCAP_CACHE_SIZE`. -/
def pcapCacheSize : Nat := 4096

/-- `pcap_t`. -/
structure Pcap where
  file : File
  offset : Nat
  cache : List UInt8
  numPackets : Nat
deriving DecidableEq

/-- `struct pcap_header`. -/
def pcapHeader (maxPacketSize linkType : UInt32) : List UInt8 :=
  leBytes 4 0xa1b2c3d4 ++ leBytes 2 2 ++ leBytes 2 4 ++ leBytes 4 0 ++ leBytes 4 0 ++
    leBytes 4 maxPacketSize.toNat ++ leBytes 4 linkType.toNat

/-- `struct pcap_record_header`; `incl_len` and `orig_len` are the same. -/
def pcapRecordHeader (sec usec length : UInt32) : List UInt8 :=
  leBytes 4 sec.toNat ++ leBytes 4 usec.toNat ++ leBytes 4 length.toNat ++
    leBytes 4 length.toNat

/-- Which calls of `pcap_start` succeed. -/
structure StartResult where
  malloc : Bool
  calloc : Bool
  fopen : Bool
  fwrite : FlushResult

/-- `pcap_start(path, max_packet_size, link_type)`; `none` is the NULL that it returns. -/
def pcapStart (maxPacketSize linkType : UInt32) (res : StartResult) : Option Pcap :=
  if ¬ res.malloc then none
  else if ¬ res.calloc then none
  else if ¬ res.fopen then none
  else
    let (file, ret) := fwrite ⟨[], 0⟩ (pcapHeader maxPacketSize linkType) res.fwrite
    if ret = 0 then none
    else some { file, offset := 0, cache := List.replicate pcapCacheSize 0, numPackets := 0 }

/-- `pcap_flush(cap)`. -/
def pcapFlush (cap : Pcap) (res : FlushResult) : Option (Pcap × Int) := do
  let data ← readAt cap.cache 0 cap.offset
  let (file, ret) := fwrite cap.file data res
  if ret ≠ 0 then
    return ({ cap with file, offset := 0 }, res.fflush)
  else
    return ({ cap with file }, -1)

/-- The end of `pcap_add`: store the record in the cache. -/
def pcapStore (cap : Pcap) (sec usec : UInt32) (captureData : List UInt8) (length : UInt32) :
    Option Pcap := do
  let header := pcapRecordHeader sec usec length
  let cache ← memcpy cap.cache cap.offset header header.length
  let offset := cap.offset + header.length
  let cache ← memcpy cache offset captureData length.toNat
  return { cap with cache, offset := offset + length.toNat, numPackets := cap.numPackets + 1 }

/-- `pcap_add(cap, capture_data, length)` at the time `sec`, `usec`. -/
def pcapAdd (cap : Pcap) (sec usec : UInt32) (captureData : List UInt8) (length : UInt32)
    (res : FlushResult) : Option (Pcap × Int) := do
  if cap.offset + (pcapRecordHeader sec usec length).length + length.toNat > pcapCacheSize then
    let (cap, ret) ← pcapFlush cap res
    if ret ≠ 0 then
      return (cap, -1)
    else
      let cap ← pcapStore cap sec usec captureData length
      return (cap, 0)
  else
    let cap ← pcapStore cap sec usec captureData length
    return (cap, 0)

/-- `pcap_stop(cap)`, with what `fclose` returns; the capture is freed. -/
def pcapStop (cap : Pcap) (res : FlushResult) (fclose : Int) : Option (File × Int) := do
  let (cap, ret) ← pcapFlush cap res
  if ret = 0 then
    return ({ cap.file with closes := cap.file.closes + 1 }, fclose)
  else
    return (cap.file, ret)

/-! ## A capture session -/

/-- A packet and the time at which it is added. -/
structure Packet where
  sec : UInt32
  usec : UInt32
  data : List UInt8

/-- One call of `pcap_add`, with the results of its flush. -/
def pcapStep (cap : Pcap) (call : Packet × FlushResult) : Option (Pcap × Int) :=
  pcapAdd cap call.1.sec call.1.usec call.1.data (UInt32.ofNat call.1.data.length) call.2

@[simp] theorem length_pcapHeader (maxPacketSize linkType : UInt32) :
    (pcapHeader maxPacketSize linkType).length = 24 := by
  simp only [pcapHeader, List.length_append, length_leBytes]

@[simp] theorem length_pcapRecordHeader (sec usec length : UInt32) :
    (pcapRecordHeader sec usec length).length = 16 := by
  simp only [pcapRecordHeader, List.length_append, length_leBytes]

end CUtils
