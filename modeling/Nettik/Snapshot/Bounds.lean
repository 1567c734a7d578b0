import Nettik.Snapshot.RoundTrip

/-!
# Bounds of the reads

What `readData` and the partition loop look at, and where it lies.

* `readable`: the length guard of `readData`; `offsetsRead`: the offsets it dereferences behind it,
  the only bytes its result depends on (`readData_congr`);
* **`offsetsRead_lt_iff`**: the offsets stay below the length exactly when the name, its terminator
  and a whole data field fit in it;
* `partitionsRead`: how many partitions of a packet a handler reads without an exception;
  **`partitionsRead_inside`**: all of them lie in the packet, though the size test wraps around;
* `readsInside`: what a handler looks at lies in the packet, too; **`handleSnapshot_safe_iff`**: when it
  does, and no exception is thrown.
-/

namespace Nettik

open ByteMem Loops

namespace SnapshotEntList

/-! ## The guard -/

/-- What the guard of `readData` lets pass. -/
def readable (streamLen : ℕ) : Prop :=
  4 + 4 + 1 + 1 ≤ streamLen ∧ streamLen ≤ sizeofEntry + sizeofHeader

instance (streamLen : ℕ) : Decidable (readable streamLen) :=
  inferInstanceAs (Decidable (_ ∧ _))

theorem readData_error {streamLen : ℕ} (h : ¬ readable streamLen) (stream : Mem)
    (e : SnapshotEntList) :
    e.readData stream streamLen = .error "Buffer underflow / overflow." := by
  unfold readable at h
  rw [readData, if_pos (by omega)]

theorem exists_readData {streamLen : ℕ} (h : readable streamLen) (stream : Mem)
    (e : SnapshotEntList) : ∃ e', e.readData stream streamLen = .ok e' := by
  unfold readable at h
  exact ⟨_, by rw [readData, if_neg (by omega)]⟩

theorem readable_of_ok {stream : Mem} {streamLen : ℕ} {e e' : SnapshotEntList}
    (h : e.readData stream streamLen = .ok e') : readable streamLen := by
  by_contra hnot
  rw [readData_error hnot] at h
  exact absurd h (by simp)

/-! ## What is read -/

/-- The offsets the name loop tests, from `pos` on. The byte behind a full name is skipped without
a test. -/
def nameOffsets (stream : Mem) : ℕ → ℕ → List ℕ
  | _, 0 => []
  | pos, fuel + 1 => if stream pos = 0 then [pos] else pos :: nameOffsets stream (pos + 1) fuel

/-- Where the name begins. -/
def nameOffset : ℕ := 4 + 4 + 4 + 4 + 1

/-- Where the data of a partition begins: behind the name and one skipped byte. -/
def dataOffset (stream : Mem) : ℕ := nameOffset + (stream.shift nameOffset).strlen maxEntvarName + 1

/-- The offsets that `readData` dereferences: the four words and the flag, the name, the data. An
exception of the guard comes before all of them. -/
def offsetsRead (stream : Mem) (streamLen : ℕ) : List ℕ :=
  if readable streamLen then
    List.range nameOffset ++ nameOffsets stream nameOffset maxEntvarName ++
      List.range' (dataOffset stream) maxEntvarData
  else []

theorem mem_nameOffsets {stream : Mem} {pos fuel off : ℕ} :
    off ∈ nameOffsets stream pos fuel ↔
      pos ≤ off ∧ off ≤ pos + (stream.shift pos).strlen fuel ∧ off < pos + fuel := by
  induction fuel generalizing pos with
  | zero =>
    simp only [nameOffsets, List.not_mem_nil, false_iff]
    omega
  | succ fuel ih =>
    have hhead : (stream.shift pos) 0 = stream pos := rfl
    rw [nameOffsets, Mem.strlen, hhead, Mem.shift_shift]
    by_cases hz : stream pos = 0
    · rw [if_pos hz, if_pos hz, List.mem_singleton]
      omega
    · rw [if_neg hz, if_neg hz, List.mem_cons, ih]
      omega

theorem mem_offsetsRead {stream : Mem} {streamLen off : ℕ} (h : readable streamLen) :
    off ∈ offsetsRead stream streamLen ↔
      off < nameOffset ∨ off ∈ nameOffsets stream nameOffset maxEntvarName ∨
        dataOffset stream ≤ off ∧ off < dataOffset stream + maxEntvarData := by
  rw [offsetsRead, if_pos h]
  simp

theorem strlen_congr {m m' : Mem} {pos fuel : ℕ}
    (h : ∀ off ∈ nameOffsets m pos fuel, m off = m' off) :
    (m.shift pos).strlen fuel = (m'.shift pos).strlen fuel := by
  induction fuel generalizing pos with
  | zero => rfl
  | succ fuel ih =>
    have hhead : ∀ m : Mem, (m.shift pos) 0 = m pos := fun m => rfl
    have hpos : m pos = m' pos := h pos (by rw [nameOffsets]; split_ifs <;> simp)
    rw [Mem.strlen, Mem.strlen, hhead, hhead, Mem.shift_shift, Mem.shift_shift, ← hpos]
    by_cases hz : m pos = 0
    · rw [if_pos hz, if_pos hz]
    · rw [if_neg hz, if_neg hz, ih]
      intro off hoff
      exact h off (by rw [nameOffsets, if_neg hz]; exact List.mem_cons_of_mem _ hoff)

/-- **`readData` looks at the offsets of `offsetsRead` only.** -/
theorem readData_congr {m m' : Mem} {streamLen : ℕ}
    (hagree : ∀ off ∈ offsetsRead m streamLen, m off = m' off) (e : SnapshotEntList) :
    e.readData m streamLen = e.readData m' streamLen := by
  by_cases hr : readable streamLen
  swap
  · rw [readData_error hr, readData_error hr]
  have h := fun off hoff => hagree off ((mem_offsetsRead hr).mpr hoff)
  have hname : ∀ off ∈ nameOffsets m nameOffset maxEntvarName, m off = m' off :=
    fun off hoff => h off (Or.inr (Or.inl hoff))
  have hlen := strlen_congr hname
  have hfixed : ∀ pos n, pos + n ≤ nameOffset → (m.shift pos).read n = (m'.shift pos).read n :=
    fun pos n hpos => Mem.read_congr fun i hi => h _ (Or.inl (by omega))
  have hflag : m.shift (4 + 4 + 4 + 4) 0 = m'.shift (4 + 4 + 4 + 4) 0 := h _ (Or.inl (by decide))
  have htext : (m.shift nameOffset).read ((m.shift nameOffset).strlen maxEntvarName) =
      (m'.shift nameOffset).read ((m.shift nameOffset).strlen maxEntvarName) := by
    refine Mem.read_congr fun i hi => hname _ (mem_nameOffsets.mpr ?_)
    have := Mem.strlen_le (m.shift nameOffset) maxEntvarName
    omega
  have hdata : (m.shift (dataOffset m)).read maxEntvarData =
      (m'.shift (dataOffset m)).read maxEntvarData :=
    Mem.read_congr fun i hi => h _ (Or.inr (Or.inr (by omega)))
  have hword : m.read 4 = m'.read 4 := by simpa using hfixed 0 4 (by decide)
  unfold dataOffset nameOffset at hdata
  unfold nameOffset at hlen htext
  simp only [readData, Mem.shift_shift, ← Nat.add_assoc] at hdata ⊢
  rw [← hlen, hword, hfixed 4 4 (by decide), hfixed (4 + 4) 4 (by decide),
    hfixed (4 + 4 + 4) 4 (by decide), hflag, htext, hdata]

/-! ## Reading past the end -/

/-- The reads stay below a bound that leaves room for the name, one byte and a whole data field. -/
theorem forall_offsetsRead_lt_iff (stream : Mem) {streamLen : ℕ} (hr : readable streamLen) (n : ℕ) :
    (∀ off ∈ offsetsRead stream streamLen, off < n) ↔ dataOffset stream + maxEntvarData ≤ n := by
  constructor
  · intro h
    have hlast : dataOffset stream + (maxEntvarData - 1) ∈ offsetsRead stream streamLen :=
      (mem_offsetsRead hr).mpr (Or.inr (Or.inr ⟨by omega, by unfold maxEntvarData; omega⟩))
    have := h _ hlast
    unfold maxEntvarData at this ⊢
    omega
  · intro h off hoff
    unfold dataOffset maxEntvarData at h
    rcases (mem_offsetsRead hr).mp hoff with hfixed | hname | hdata
    · omega
    · have := mem_nameOffsets.mp hname
      omega
    · unfold dataOffset maxEntvarData at hdata
      omega

/-- **The reads stay below the length exactly when it leaves room for the name, one byte and a whole
data field.** The guard asks for less. -/
theorem offsetsRead_lt_iff (stream : Mem) {streamLen : ℕ} (hr : readable streamLen) :
    (∀ off ∈ offsetsRead stream streamLen, off < streamLen) ↔
      dataOffset stream + maxEntvarData ≤ streamLen :=
  forall_offsetsRead_lt_iff stream hr streamLen

/-- A partition that ends with its data, behind an empty name. -/
theorem offsetsRead_lt_iff_exact : readable 146 ∧
    ((∀ off ∈ offsetsRead Mem.zero 146, off < 146) ↔ dataOffset Mem.zero + maxEntvarData ≤ 146) :=
  ⟨by decide, offsetsRead_lt_iff Mem.zero (by decide)⟩

/-- One frame of ten bytes: the size test and the guard pass, and the read goes beyond the packet. -/
def shortFramePacket : Bytes :=
  (SnapshotHeader.mk objectFrameCode 1 0 10).write ++ List.replicate 10 0

theorem not_offsetsRead_lt_shortFrame :
    (sizeTest ⟨objectFrameCode, 1, 0, 10⟩ shortFramePacket.length ∧
      ∃ off ∈ offsetsRead ((Mem.ofList shortFramePacket Mem.zero).shift sizeofHeader) 10,
        shortFramePacket.length ≤ sizeofHeader + off) ∧
    ¬ ∀ (stream : Mem) (streamLen : ℕ), readable streamLen →
      ∀ off ∈ offsetsRead stream streamLen, off < streamLen := by
  have hoff : 145 ∈ offsetsRead ((Mem.ofList shortFramePacket Mem.zero).shift sizeofHeader) 10 := by
    decide
  exact ⟨⟨by decide, 145, hoff, by decide⟩,
    fun h => absurd (h _ 10 (by decide) 145 hoff) (by decide)⟩

end SnapshotEntList

/-! ## The partitions of a packet -/

/-- A loop whose frames cause no exception ends normally exactly when the guard passes, or when it
has no turn. -/
theorem forFrames_ok_iff {σ : Type} {act : Frame → σ → Outcome σ} (hact : ∀ f s, (act f s).1 = .ok ())
    (max n : ℕ) (partition : Mem) (s : σ) :
    (forFrames act max n partition s).1 = .ok () ↔ n = 0 ∨ SnapshotEntList.readable max := by
  induction n generalizing partition s with
  | zero => simp [forFrames]
  | succ n ih =>
    rw [forFrames]
    by_cases hr : SnapshotEntList.readable max
    · obtain ⟨frame, hread⟩ := SnapshotEntList.exists_readData hr partition {}
      simp only [hread, Outcome.andThen, hact]
      rw [ih]
      simp [hr]
    · simp [SnapshotEntList.readData_error hr, hr]

section Partitions

open SnapshotEntList

variable {σ : Type} (act : Frame → σ → Outcome σ)

/-- Count the frames handed to `act`: the partitions that `readData` returned from. -/
def counting (frame : Frame) (s : σ × ℕ) : Outcome (σ × ℕ) :=
  ((act frame s.1).1, (act frame s.1).2, s.2 + 1)

/-- How many partitions of a packet the handler reads without an exception. The loop goes through
them in order, so they are the first ones. -/
def partitionsRead (data : Mem) (dataLen : ℕ) (s : σ) : ℕ :=
  (handleSnapshot (counting act) data dataLen (s, 0)).2.2

/-- Counting does not change what the handler does. -/
theorem forFrames_counting_eq (max n : ℕ) (partition : Mem) (s : σ × ℕ) :
    ((forFrames (counting act) max n partition s).1, (forFrames (counting act) max n partition s).2.1) =
      forFrames act max n partition s.1 := by
  induction n generalizing partition s with
  | zero => rfl
  | succ n ih =>
    rw [forFrames, forFrames]
    cases ({} : SnapshotEntList).readData partition max with
    | error e => rfl
    | ok frame =>
      simp only [counting, Outcome.andThen]
      cases (act frame.content s.1).1 with
      | error e => rfl
      | ok u => exact ih _ _

/-- No partition is read unless the guard passes, and no more than the loop has turns. -/
theorem forFrames_counting (max n : ℕ) (partition : Mem) (s : σ × ℕ) :
    (forFrames (counting act) max n partition s).2.2 ≤ s.2 + n ∧
      (s.2 < (forFrames (counting act) max n partition s).2.2 → readable max) := by
  induction n generalizing partition s with
  | zero => exact ⟨le_rfl, fun h => absurd h (lt_irrefl _)⟩
  | succ n ih =>
    rw [forFrames]
    cases hread : ({} : SnapshotEntList).readData partition max with
    | error e => exact ⟨Nat.le_add_right _ _, fun h => absurd h (lt_irrefl _)⟩
    | ok frame =>
      have hok := readable_of_ok hread
      refine ⟨?_, fun _ => hok⟩
      simp only [counting, Outcome.andThen]
      cases (act frame.content s.1).1 with
      | error e => simp only; omega
      | ok u =>
        have := (ih (partition.shift max) ((act frame.content s.1).2, s.2 + 1)).1
        simp only at this ⊢
        omega

/-- **The partitions that are read lie in the packet**, though the size test multiplies modulo
`2 ^ 32`: the guard bounds the length of a frame, and the count has 16 bits. -/
theorem partitionsRead_inside {data : Mem} {dataLen : ℕ} {header : SnapshotHeader}
    (hheader : SnapshotHeader.read data dataLen = .ok header) (hlen : sizeofHeader ≤ dataLen) (s : σ)
    {i : ℕ} (hi : i < partitionsRead act data dataLen s) :
    sizeofHeader + (i + 1) * header.maxMessageLength.toNat ≤ dataLen := by
  rw [partitionsRead, handleSnapshot, hheader] at hi
  by_cases ht : sizeTest header dataLen
  swap
  · simp [ht] at hi
  simp only [if_pos ht] at hi
  obtain ⟨hcount, hguard⟩ := forFrames_counting act header.maxMessageLength.toNat
    header.count.toNat (data.shift sizeofHeader) (s, 0)
  have hmax := (hguard (Nat.zero_lt_of_lt hi)).2
  have hi' : i + 1 ≤ header.count.toNat := by omega
  have hcount16 := header.count.toNat_lt
  have hbound : header.count.toNat * header.maxMessageLength.toNat < 2 ^ 32 := by
    unfold sizeofEntry sizeofHeader at hmax
    calc header.count.toNat * header.maxMessageLength.toNat
        ≤ 65535 * 224 := Nat.mul_le_mul (by omega) (by omega)
      _ < 2 ^ 32 := by decide
  -- without a wrap the size test is an equation of integers
  rw [sizeTest, Nat.mod_eq_of_lt hbound] at ht
  have hmul := Nat.mul_le_mul_right header.maxMessageLength.toNat hi'
  omega

/-! ## What a handler looks at -/

/-- Whatever the calls of `readData` look at lies in the packet. An exception of `readData` comes before
it looks at anything. -/
def readsInside (packet : Bytes) (past : Mem) (s : σ) : Prop :=
  ∀ header, SnapshotHeader.read (Mem.ofList packet past) packet.length = .ok header →
    ∀ i < partitionsRead act (Mem.ofList packet past) packet.length s,
      ∀ off ∈ offsetsRead ((Mem.ofList packet past).shift
          (sizeofHeader + i * header.maxMessageLength.toNat)) header.maxMessageLength.toNat,
        sizeofHeader + i * header.maxMessageLength.toNat + off < packet.length

/-- From the beginning of each partition there is room in the packet for the fixed fields, the name, one
byte and a whole data field. -/
def SnapshotHeader.Roomy (header : SnapshotHeader) (packet : Bytes) (past : Mem) : Prop :=
  ∀ i < header.count.toNat,
    sizeofHeader + i * header.maxMessageLength.toNat +
      (dataOffset ((Mem.ofList packet past).shift (sizeofHeader + i * header.maxMessageLength.toNat)) +
        maxEntvarData) ≤ packet.length

variable {act} {packet : Bytes} {past : Mem} {header : SnapshotHeader}

/-- Behind the guard every partition is read, if the frames cause no exception. -/
theorem forFrames_counting_all (hact : ∀ f s, (act f s).1 = .ok ()) {max : ℕ} (hr : readable max) (n : ℕ)
    (partition : Mem) (s : σ × ℕ) : (forFrames (counting act) max n partition s).2.2 = s.2 + n := by
  induction n generalizing partition s with
  | zero => rfl
  | succ n ih =>
    obtain ⟨frame, hread⟩ := exists_readData hr partition {}
    rw [forFrames, hread]
    simp only [counting, Outcome.andThen, hact]
    rw [ih]
    omega

theorem readsInside_iff_roomy (hact : ∀ f s, (act f s).1 = .ok ())
    (hheader : SnapshotHeader.read (Mem.ofList packet past) packet.length = .ok header)
    (ht : sizeTest header packet.length) (hr : readable header.maxMessageLength.toNat) (s : σ) :
    readsInside act packet past s ↔ header.Roomy packet past := by
  have hcount : partitionsRead act (Mem.ofList packet past) packet.length s = header.count.toNat := by
    rw [partitionsRead, handleSnapshot, hheader]
    simp only [if_pos ht]
    rw [forFrames_counting_all hact hr, Nat.zero_add]
  have hpartition : ∀ i, (∀ off ∈ offsetsRead ((Mem.ofList packet past).shift
      (sizeofHeader + i * header.maxMessageLength.toNat)) header.maxMessageLength.toNat,
        sizeofHeader + i * header.maxMessageLength.toNat + off < packet.length) ↔
      sizeofHeader + i * header.maxMessageLength.toNat +
        (dataOffset ((Mem.ofList packet past).shift (sizeofHeader + i * header.maxMessageLength.toNat)) +
          maxEntvarData) ≤ packet.length := by
    intro i
    have hbound := forall_offsetsRead_lt_iff ((Mem.ofList packet past).shift
      (sizeofHeader + i * header.maxMessageLength.toNat)) hr
      (packet.length - (sizeofHeader + i * header.maxMessageLength.toNat))
    constructor
    · intro h
      have hle := hbound.mp fun off hoff => by
        have := h off hoff
        omega
      unfold maxEntvarData at hle ⊢
      omega
    · intro h off hoff
      have := hbound.mpr (by omega) off hoff
      omega
  constructor
  · intro h i hi
    exact (hpartition i).mp (h header hheader i (hcount ▸ hi))
  · intro h header' hheader' i hi
    obtain rfl := Except.ok.inj (hheader.symm.trans hheader')
    exact (hpartition i).mpr (h i (hcount ▸ hi))

/-- **When a handler throws no exception and stays in the packet**, if its frames cause no exception. -/
theorem handleSnapshot_safe_iff (hact : ∀ f s, (act f s).1 = .ok ()) (packet : Bytes) (past : Mem) (s : σ) :
    ((handleSnapshot act (Mem.ofList packet past) packet.length s).1 = .ok () ∧
        readsInside act packet past s) ↔
      ∃ header, SnapshotHeader.read (Mem.ofList packet past) packet.length = .ok header ∧
        (sizeTest header packet.length → header.count.toNat = 0 ∨
          readable header.maxMessageLength.toNat ∧ header.Roomy packet past) := by
  cases hread : SnapshotHeader.read (Mem.ofList packet past) packet.length with
  | error e => simp [handleSnapshot, hread]
  | ok header =>
    simp only [Except.ok.injEq, exists_eq_left']
    by_cases ht : sizeTest header packet.length
    swap
    · have hnone : partitionsRead act (Mem.ofList packet past) packet.length s = 0 := by
        simp [partitionsRead, handleSnapshot, hread, ht]
      simp [handleSnapshot, hread, readsInside, hnone, ht]
    have hok : (handleSnapshot act (Mem.ofList packet past) packet.length s).1 = .ok () ↔
        header.count.toNat = 0 ∨ readable header.maxMessageLength.toNat := by
      rw [handleSnapshot, hread]
      simp only [if_pos ht]
      exact forFrames_ok_iff hact _ _ _ s
    rw [hok, imp_iff_right ht]
    by_cases hr : readable header.maxMessageLength.toNat
    · have hroomy : header.count.toNat = 0 → header.Roomy packet past := fun hzero i hi => by omega
      rw [readsInside_iff_roomy hact hread ht hr]
      simp only [hr, or_true, true_and]
      exact ⟨Or.inr, fun h => h.elim hroomy id⟩
    · have hnone : header.count.toNat = 0 → readsInside act packet past s := by
        intro hzero header' _ i hi
        have hturns : partitionsRead act (Mem.ofList packet past) packet.length s = 0 := by
          rw [partitionsRead, handleSnapshot, hread]
          simp only [if_pos ht, hzero, forFrames]
        omega
      simp only [hr, or_false, false_and, and_iff_left_iff_imp]
      exact hnone

end Partitions

/-! ## Packets that are sent -/

theorem SnapshotEntList.dataOffset_wire {f : Frame} (h : f.Fits) (r : Bytes) (past : Mem) :
    dataOffset (Mem.ofList (f.wire ++ r) past) + maxEntvarData = f.wire.length := by
  have hfixed : f.wire ++ r = (toLE 4 f.frameType.toNat ++ toLE 4 f.netID.toNat ++ toLE 4 f.controller.toNat ++
      toLE 4 f.sequence.toNat ++ [f.forced.toUInt8]) ++ (f.name ++ ([0] ++ f.extended.data ++ r)) := by
    simp only [Frame.wire, List.append_assoc]
  have hshift : (Mem.ofList (f.wire ++ r) past).shift nameOffset =
      Mem.ofList (f.name ++ ([0] ++ f.extended.data ++ r)) past := by
    rw [hfixed]
    exact Mem.shift_ofList (by simp [nameOffset]) _ _
  have hlen : (Mem.ofList (f.name ++ ([0] ++ f.extended.data ++ r)) past).strlen maxEntvarName =
      f.name.length :=
    Mem.strlen_eq h.name_nul (Mem.read_ofList rfl _ _) (by simp [Mem.ofList]) h.name_lt
  rw [dataOffset, hshift, hlen, Frame.length_wire h]
  unfold nameOffset
  omega

/-- **In a packet of frames that fit, every partition leaves room.** -/
theorem roomy_packetOf {fs : List Frame} (sequence : UInt32) (hlen : fs.length < 65536)
    (hfit : ∀ f ∈ fs, f.Fits) (past : Mem) {header : SnapshotHeader}
    (hread : SnapshotHeader.read (Mem.ofList (packetOf sequence fs) past) (packetOf sequence fs).length =
      .ok header) : header.Roomy (packetOf sequence fs) past := by
  have h := packable_longest hfit
  have hcount : (UInt16.ofNat fs.length).toNat = fs.length := UInt16.toNat_ofNat_of_lt' hlen
  have hmax := toNat_longest hfit
  rw [packetOf_eq sequence hfit] at hread ⊢
  rw [SnapshotHeader.read_write _ _ _ (by simp)] at hread
  obtain rfl := Except.ok.inj hread
  intro i hi
  rw [hmax]
  replace hi : i < fs.length := hcount ▸ hi
  have hfi := hfit _ (List.getElem_mem hi)
  -- the partition begins with the bytes of its frame
  rw [← Mem.shift_shift, Mem.shift_ofList (SnapshotHeader.length_write _), body,
    Mem.shift_ofList_flatten h.length_entry (by simpa using hi.le), ← List.map_drop,
    List.drop_eq_getElem_cons hi, List.map_cons, List.flatten_cons, SnapshotHeader.pad, List.append_assoc,
    SnapshotEntList.dataOffset_wire hfi, ← body, List.length_append, SnapshotHeader.length_write, length_body h]
  have hle := h.le_max _ (List.getElem_mem hi)
  have hmul := Nat.mul_le_mul_right (SnapshotStream.longest (fs.map Frame.wire)) (Nat.succ_le_of_lt hi)
  rw [Nat.succ_mul] at hmul
  omega

end Nettik
