import Nettik.Lib.Loops
import Nettik.Snapshot.Frame

/-!
# Snapshot packets

A `SnapshotStream` is a header entry followed by one entry per frame. `generate` writes the packet
header into the header entry and pads the frames to one length; `result` merges them. The two
`HandleEntSnapshot` handlers share the size test and the partition loop below.

* `SnapshotStream`, `SnapshotHeader`, `generate`, `result`;
* `sizeTest`, `forFrames`, `handleSnapshot`: what a receiver does with a packet;
* `accepted`, `decoded`: the packets that pass, and the frames their receiver sees.
-/

namespace Nettik

open ByteMem Loops

def objectFrameCode : UInt16 := 0xFFFA
def clientOwnershipCode : UInt16 := 0xFFFB

/-! ## Streams -/

/-- `m_Data` is never empty: its first entry is the header. -/
structure SnapshotStream where
  header : Bytes := []
  frames : List Bytes := []
  finished : Bool := false
  deriving DecidableEq, Repr

namespace SnapshotStream

def push (s : SnapshotStream) (entry : Bytes) : SnapshotStream :=
  { s with frames := s.frames ++ [entry] }

def modified (s : SnapshotStream) : Bool := !s.frames.isEmpty

def clear (_ : SnapshotStream) : SnapshotStream := {}

/-- The frames are merged into the header entry the first time only. -/
def result (s : SnapshotStream) : Bytes × SnapshotStream :=
  if s.finished then (s.header, s)
  else (s.header ++ s.frames.flatten, { s with header := s.header ++ s.frames.flatten, finished := true })

/-- The longest of the given entries. -/
def longest (entries : List Bytes) : ℕ := entries.foldl (fun n e => max n e.length) 0

theorem foldl_longest_le {entries : List Bytes} {n : ℕ} (h : ∀ e ∈ entries, e.length ≤ n) (k : ℕ)
    (hk : k ≤ n) : entries.foldl (fun n e => max n e.length) k ≤ n := by
  induction entries generalizing k with
  | nil => exact hk
  | cons e es ih =>
    exact ih (fun b hb => h b (List.mem_cons_of_mem _ hb)) _
      (max_le hk (h e List.mem_cons_self))

theorem le_foldl_longest (entries : List Bytes) (k : ℕ) :
    k ≤ entries.foldl (fun n e => max n e.length) k ∧
      ∀ e ∈ entries, e.length ≤ entries.foldl (fun n e => max n e.length) k := by
  induction entries generalizing k with
  | nil => simp
  | cons e es ih =>
    obtain ⟨h₁, h₂⟩ := ih (max k e.length)
    refine ⟨(le_max_left _ _).trans h₁, fun b hb => ?_⟩
    rcases List.mem_cons.mp hb with rfl | hb
    · exact (le_max_right _ _).trans h₁
    · exact h₂ b hb

theorem longest_le {entries : List Bytes} {n : ℕ} (h : ∀ e ∈ entries, e.length ≤ n) :
    longest entries ≤ n :=
  foldl_longest_le h 0 (Nat.zero_le n)

theorem le_longest {entries : List Bytes} {e : Bytes} (h : e ∈ entries) :
    e.length ≤ longest entries :=
  (le_foldl_longest entries 0).2 e h

end SnapshotStream

/-! ## Headers -/

/-- The fields of `SnapshotHeaderData`, in order. -/
structure SnapshotHeader where
  messageCode : UInt16 := 0
  count : UInt16 := 0
  sequence : UInt32 := 0
  maxMessageLength : UInt32 := 0
  deriving DecidableEq, Repr

namespace SnapshotHeader

def write (h : SnapshotHeader) : Bytes :=
  toLE 2 h.messageCode.toNat ++ (toLE 2 h.count.toNat ++ (toLE 4 h.sequence.toNat ++
    toLE 4 h.maxMessageLength.toNat))

def read (stream : Mem) (streamLen : ℕ) : Except String SnapshotHeader :=
  if streamLen < sizeofHeader then .error "Header read doesn't meet header size, INTERNAL."
  else .ok {
    messageCode := u16Of (stream.read 2)
    count := u16Of ((stream.shift 2).read 2)
    sequence := u32Of ((stream.shift 4).read 4)
    maxMessageLength := u32Of ((stream.shift 8).read 4) }

/-- Pad one entry with zeros. -/
def pad (padding : ℕ) (entry : Bytes) : Bytes := entry ++ List.replicate (padding - entry.length) 0

def copyFrom (s : SnapshotStream) (padding : ℕ) : SnapshotStream :=
  { s with frames := s.frames.map (pad padding) }

def generate (s : SnapshotStream) (sequence : UInt32) (updates : UInt16) (max : UInt32) :
    SnapshotStream :=
  copyFrom { s with header := s.header ++ write ⟨objectFrameCode, updates, sequence, max⟩ } max.toNat

theorem header_generate (s : SnapshotStream) (sequence : UInt32) (updates : UInt16) (max : UInt32) :
    (generate s sequence updates max).header =
      s.header ++ write ⟨objectFrameCode, updates, sequence, max⟩ := rfl

theorem frames_generate (s : SnapshotStream) (sequence : UInt32) (updates : UInt16) (max : UInt32) :
    (generate s sequence updates max).frames = s.frames.map (pad max.toNat) := rfl

theorem result_generate {s : SnapshotStream} (hs : s.finished = false) (sequence : UInt32)
    (updates : UInt16) (max : UInt32) : (generate s sequence updates max).result.1 =
      s.header ++ write ⟨objectFrameCode, updates, sequence, max⟩ ++
        (s.frames.map (pad max.toNat)).flatten := by
  have hfinished : ¬ (generate s sequence updates max).finished = true := by
    show ¬ s.finished = true
    simp [hs]
  rw [SnapshotStream.result, if_neg hfinished]
  dsimp only
  rw [header_generate, frames_generate]

@[simp] theorem length_write (h : SnapshotHeader) : h.write.length = sizeofHeader := by
  simp [write, sizeofHeader]

theorem length_pad {n : ℕ} {e : Bytes} (h : e.length ≤ n) : (pad n e).length = n := by
  simp only [pad, List.length_append, List.length_replicate]
  omega

/-- **A written header is read back**, whatever follows it. -/
theorem read_write (h : SnapshotHeader) (r : Bytes) (past : Mem) {len : ℕ} (hl : sizeofHeader ≤ len) :
    read (Mem.ofList (h.write ++ r) past) len = .ok h := by
  have h₂ := fun (x : ℕ) r => Mem.read_ofList (length_toLE 2 x) r past
  have h₄ := fun (x : ℕ) r => Mem.read_ofList (length_toLE 4 x) r past
  have hs₂ := fun (x : ℕ) r => Mem.shift_ofList (length_toLE 2 x) r past
  have hs₄ := fun (x : ℕ) r => Mem.shift_ofList (length_toLE 4 x) r past
  rw [read, if_neg (by omega)]
  simp only [write, List.append_assoc]
  rw [h₂, show ∀ m : Mem, m.shift 8 = ((m.shift 2).shift 2).shift 4 from fun m => by simp,
    show ∀ m : Mem, m.shift 4 = (m.shift 2).shift 2 from fun m => by simp]
  simp only [hs₂, hs₄, h₂, h₄, u16Of_toLE, u32Of_toLE]

end SnapshotHeader

/-! ## Receiving -/

/-- `header_size != expected_size` fails: the length is the count times the maximum, in 32 bits. -/
def sizeTest (h : SnapshotHeader) (dataLen : ℕ) : Prop :=
  dataLen - sizeofHeader = h.count.toNat * h.maxMessageLength.toNat % 2 ^ 32

instance (h : SnapshotHeader) (dataLen : ℕ) : Decidable (sizeTest h dataLen) :=
  inferInstanceAs (Decidable (_ = _))

/-- The loop over the partitions: each is read into a fresh frame object and handed to `act`. An
exception stops the loop and leaves what was done before it. -/
def forFrames {σ : Type} (act : Frame → σ → Outcome σ) (max : ℕ) : ℕ → Mem → σ → Outcome σ
  | 0, _, s => (.ok (), s)
  | n + 1, partition, s =>
    match ({} : SnapshotEntList).readData partition max with
    | .error e => (.error e, s)
    | .ok frame => (act frame.content s).andThen (forFrames act max n (partition.shift max))

/-- What `HandleEntSnapshot` and `HandleClientEntSnapshot` have in common. -/
def handleSnapshot {σ : Type} (act : Frame → σ → Outcome σ) (data : Mem) (dataLen : ℕ) (s : σ) :
    Outcome σ :=
  match SnapshotHeader.read data dataLen with
  | .error e => (.error e, s)
  | .ok header =>
    if sizeTest header dataLen then
      forFrames act header.maxMessageLength.toNat header.count.toNat (data.shift sizeofHeader) s
    else (.ok (), s)

/-- The receiver's size test passes. -/
def accepted (packet : Bytes) (past : Mem) : Prop :=
  ∃ h, SnapshotHeader.read (Mem.ofList packet past) packet.length = .ok h ∧ sizeTest h packet.length

/-- The `i`-th partition of a packet, read into a fresh frame object. -/
def readPartition (packet : Bytes) (past : Mem) (max i : ℕ) : Except String SnapshotEntList :=
  ({} : SnapshotEntList).readData ((Mem.ofList packet past).shift (sizeofHeader + i * max)) max

end Nettik
