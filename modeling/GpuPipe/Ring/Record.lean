import GpuPipe.Sys.Names

/-!
# Records of the byte ring

The pure parts of `ring.rs`: the parameters `RingQueue::new` fixes, the shared
control block with the ring's bytes, and what a put writes and a pop reads.
Offsets only grow; a position in the ring is an offset modulo `cap`. A record that
would cross the end of the ring is preceded by a pad header and starts at position 0.
-/

namespace GpuPipe.Ring

def recHdr : ℕ := 8

def kindData : ℕ := 1
def kindPad : ℕ := 2
def kindSpill : ℕ := 3
def kindFile : ℕ := 4

def align8 (n : ℕ) : ℕ := (n + 7) / 8 * 8

/-- `HDR`: the control block stands before the ring's bytes. -/
def hdr : ℕ := 4096

/-- What `RingQueue::new` writes once and nobody changes, and the length of the map it asks for. -/
structure Header where
  name : Bytes
  cap : ℕ
  maxsize : ℕ
  spillAt : ℕ
  mapLen : ℕ

/-- `HDR + cap` has not gone round, so the ring lies in its map. -/
def Header.mapped (header : Header) : Bool := hdr + header.cap ≤ header.mapLen

/-- A ring that lies in its map, as those of `RingQueue::new` do whose size does not go round. -/
structure RingQueue extends Header where
  eight_dvd_cap : 8 ∣ cap
  min_le_cap : 65536 ≤ cap
  spillAt_le : spillAt ≤ cap / 4
  name_length_le : name.length ≤ 51
  map_holds : hdr + cap ≤ mapLen

instance : Coe RingQueue Header := ⟨RingQueue.toHeader⟩

namespace RingQueue

variable (maxsize ringBytes : ℕ) (spillAt : Option ℕ) (creator : Sys.Creator)

/-- `RingQueue::new`: the ring is at least 64 KiB, and payloads above a quarter of it spill. Both sums
are of 64-bit words, which go round. -/
def new : Header where
  name := Sys.uniqueName "gpq" creator
  cap := align8 (max ringBytes (64 * 1024)) % 2 ^ 64
  maxsize := maxsize
  spillAt := min (spillAt.getD (align8 (max ringBytes (64 * 1024)) % 2 ^ 64 / 4))
    (align8 (max ringBytes (64 * 1024)) % 2 ^ 64 / 4)
  mapLen := (hdr + align8 (max ringBytes (64 * 1024)) % 2 ^ 64) % 2 ^ 64

/-- Where the size of the map goes round, the map ends before the ring begins. -/
theorem mapLen_lt_hdr (h : (new maxsize ringBytes spillAt creator).mapped = false) :
    (new maxsize ringBytes spillAt creator).mapLen < hdr := by
  have hround := of_decide_eq_false h
  simp only [new, hdr] at hround ⊢
  omega

theorem mapLen_le : (new maxsize ringBytes spillAt creator).mapLen ≤ hdr + align8 (max ringBytes (64 * 1024)) :=
  (Nat.mod_le _ _).trans (Nat.add_le_add_left (Nat.mod_le _ _) _)

variable (h : hdr + align8 (max ringBytes (64 * 1024)) < 2 ^ 64)

/-- What `RingQueue::new` makes of a size that does not go round. -/
def ofNew : RingQueue where
  toHeader := new maxsize ringBytes spillAt creator
  eight_dvd_cap := by
    simp only [new, align8]
    omega
  min_le_cap := by
    simp only [new, align8, hdr] at h ⊢
    omega
  spillAt_le := min_le_right _ _
  name_length_le := Sys.uniqueName_length_le creator
  map_holds := by
    simp only [new, align8, hdr] at h ⊢
    omega

end RingQueue

/-- One record: its kind word and the bytes after its header. -/
structure Record where
  kind : ℕ
  payload : Bytes
  deriving DecidableEq

def Record.size (record : Record) : ℕ := recHdr + align8 record.payload.length

/-- The bytes `write_record` stores: two 32-bit words, then the payload. -/
def Record.bytes (record : Record) : Bytes :=
  leBytes 4 record.payload.length ++ leBytes 4 record.kind ++ record.payload

/-- `write_record`, one byte at a time. -/
def writeRecord (pos : ℕ) (record : Record) : List (ℕ × UInt8) :=
  Memory.copyStores pos record.bytes

/-- `read_header`: length and kind. -/
def readHeader (bytes : Memory) (pos : ℕ) : ℕ × ℕ :=
  (leValue (bytes.read pos 4), leValue (bytes.read (pos + 4) 4))

/-- The mutable part of the control block, and the ring's bytes. -/
structure Shared where
  head : ℕ
  tail : ℕ
  count : ℕ
  bytes : Memory
  pending : ℕ → Option Bytes

/-- A fresh shared-memory object reads as zeros. -/
def Shared.empty : Shared where
  head := 0
  tail := 0
  count := 0
  bytes := fun _ ↦ 0
  pending := fun _ ↦ none

variable (queue : Header) (shared : Shared)

/-- Bytes skipped at the end of the ring when the record does not fit before it. -/
def padding (record : Record) : ℕ :=
  if queue.cap - shared.tail % queue.cap < record.size then queue.cap - shared.tail % queue.cap else 0

def hasSlot : Bool := queue.maxsize == 0 || shared.count < queue.maxsize

def hasRoom (record : Record) : Bool :=
  shared.tail - shared.head + padding queue shared record + record.size ≤ queue.cap

/-- The byte stores of a successful put: a pad header if the record wraps, then the record. -/
def publishStores (record : Record) : List (ℕ × UInt8) :=
  if 0 < padding queue shared record then
    writeRecord (shared.tail % queue.cap) ⟨kindPad, []⟩ ++ writeRecord 0 record
  else writeRecord (shared.tail % queue.cap) record

/-- The offset a successful put stores in `tail`. -/
def nextTail (record : Record) : ℕ := shared.tail + padding queue shared record + record.size

def publish (record : Record) : Shared :=
  { shared with
    bytes := shared.bytes.applyStores (publishStores queue shared record)
    tail := nextTail queue shared record
    count := shared.count + 1 }

/-- The record `pop_locked` copies out of a nonempty ring, and the `head` it stores. -/
def nextRecord : Record × ℕ :=
  let pos := shared.head % queue.cap
  let header := readHeader shared.bytes pos
  if header.2 = kindPad then
    let header := readHeader shared.bytes 0
    (⟨header.2, shared.bytes.read (0 + recHdr) header.1⟩,
      shared.head + (queue.cap - pos) + recHdr + align8 header.1)
  else
    (⟨header.2, shared.bytes.read (pos + recHdr) header.1⟩,
      shared.head + recHdr + align8 header.1)

/-- Address and length of each read `pop_locked` makes in a nonempty ring. -/
def popReads : List (ℕ × ℕ) :=
  let pos := shared.head % queue.cap
  let header := readHeader shared.bytes pos
  if header.2 = kindPad then
    [(pos, recHdr), (0, recHdr), (0 + recHdr, (readHeader shared.bytes 0).1)]
  else [(pos, recHdr), (pos + recHdr, header.1)]

/-! ## Well-formed chains of records -/

variable (cap : ℕ) (bytes : Memory)

/-- A whole record, of a kind a reader accepts, lies inside the ring at this offset. -/
structure RecordAt (offset : ℕ) (record : Record) : Prop where
  kind : record.kind = kindData ∨ record.kind = kindSpill ∨ record.kind = kindFile
  inside : offset % cap + record.size ≤ cap
  header : readHeader bytes (offset % cap) = (record.payload.length, record.kind)
  payload : bytes.read (offset % cap + recHdr) record.payload.length = record.payload

/-- A pad header lies inside the ring at this offset. -/
structure PadAt (offset : ℕ) : Prop where
  inside : offset % cap + recHdr ≤ cap
  header : (readHeader bytes (offset % cap)).2 = kindPad

/-- One published record: at `offset` itself, or at the start of the ring behind a pad. -/
inductive Published (offset : ℕ) (record : Record) : ℕ → Prop
  | direct (hrecord : RecordAt cap bytes offset record) :
      Published offset record (offset + record.size)
  | wrapped (hpad : PadAt cap bytes offset)
      (hrecord : RecordAt cap bytes (offset + (cap - offset % cap)) record) :
      Published offset record (offset + (cap - offset % cap) + record.size)

/-- The bytes between two offsets are exactly these records, in order. -/
inductive Chain (tail : ℕ) : ℕ → List Record → Prop
  | nil : Chain tail tail []
  | cons {offset next : ℕ} {record : Record} {rest : List Record}
      (hfirst : Published cap bytes offset record next) (hrest : Chain tail next rest) :
      Chain tail offset (record :: rest)

end GpuPipe.Ring
