import Nettik.Snapshot.Packet

/-!
# The packet round trip

* `forFrames_inv`, `handleSnapshot_inv`: what single frames preserve, a whole packet preserves;
* **`handleSnapshot_packet`**: a receiver of a generated packet handles exactly the frames that
  were written, in order, when the size test passes, and nothing otherwise;
* **`packet_round_trip`**: a packet of fewer than 65536 frames passes and gives its frames back.
-/

namespace Nettik

open ByteMem Loops

variable {σ : Type}

/-! ## Invariants of a handler -/

/-- What holds across single frames holds across the loop, whatever exception ends it. -/
theorem forFrames_inv {act : Frame → σ → Outcome σ} {I : σ → Prop}
    (hact : ∀ f s, I s → I (act f s).2) (max n : ℕ) (partition : Mem) {s : σ} (hs : I s) :
    I (forFrames act max n partition s).2 := by
  induction n generalizing partition s with
  | zero => exact hs
  | succ n ih =>
    rw [forFrames]
    cases ({} : SnapshotEntList).readData partition max with
    | error e => exact hs
    | ok frame => exact Outcome.andThen_inv (hact _ s hs) fun s' hs' => ih _ hs'

theorem handleSnapshot_inv {act : Frame → σ → Outcome σ} {I : σ → Prop}
    (hact : ∀ f s, I s → I (act f s).2) (data : Mem) (dataLen : ℕ) {s : σ} (hs : I s) :
    I (handleSnapshot act data dataLen s).2 := by
  unfold handleSnapshot
  cases SnapshotHeader.read data dataLen with
  | error e => exact hs
  | ok header =>
    by_cases ht : sizeTest header dataLen
    · simp only [if_pos ht]
      exact forFrames_inv hact _ _ _ hs
    · simp only [if_neg ht]
      exact hs

/-! ## Generated packets -/

/-- The frames of `fs`, padded to `max`. -/
def body (max : ℕ) (fs : List Frame) : Bytes :=
  (fs.map fun f => SnapshotHeader.pad max f.wire).flatten

/-- Every frame fits its field and the common length, and `readData` takes that length. -/
structure Packable (max : ℕ) (fs : List Frame) : Prop where
  fits : ∀ f ∈ fs, f.Fits
  le_max : ∀ f ∈ fs, f.wire.length ≤ max
  max_le : max ≤ sizeofEntry + sizeofHeader

variable {max : ℕ} {fs : List Frame}

theorem Packable.tail {f : Frame} (h : Packable max (f :: fs)) : Packable max fs :=
  ⟨fun g hg => h.fits g (List.mem_cons_of_mem _ hg),
    fun g hg => h.le_max g (List.mem_cons_of_mem _ hg), h.max_le⟩

theorem Packable.length_entry (h : Packable max fs) :
    ∀ e ∈ fs.map fun f => SnapshotHeader.pad max f.wire, e.length = max := by
  intro e he
  obtain ⟨f, hf, rfl⟩ := List.mem_map.mp he
  exact SnapshotHeader.length_pad (h.le_max f hf)

theorem length_body (h : Packable max fs) : (body max fs).length = fs.length * max := by
  rw [body, Mem.length_flatten_of_forall h.length_entry, List.length_map]

/-- A partition that starts with a padded frame is read as that frame. -/
theorem readData_pad {f : Frame} (hf : f.Fits) (hle : f.wire.length ≤ max)
    (hmax : max ≤ sizeofEntry + sizeofHeader) (r : Bytes) (past : Mem) :
    ∃ e, ({} : SnapshotEntList).readData (Mem.ofList (SnapshotHeader.pad max f.wire ++ r) past) max =
      .ok e ∧ e.content = f.extended := by
  refine Frame.readData_wire hf ?_ hle hmax
  rw [SnapshotHeader.pad, List.append_assoc]
  exact Mem.read_ofList rfl _ _

/-- **The partition loop handles the frames of the body in order.** -/
theorem forFrames_body (act : Frame → σ → Outcome σ) (h : Packable max fs) {n : ℕ}
    (hn : n ≤ fs.length) (past : Mem) (s : σ) :
    forFrames act max n (Mem.ofList (body max fs) past) s =
      throughout act ((fs.take n).map Frame.extended) s := by
  induction fs generalizing n s with
  | nil =>
    obtain rfl : n = 0 := by simpa using hn
    rfl
  | cons f fs ih =>
    cases n with
    | zero => rfl
    | succ n =>
      have hbody : body max (f :: fs) = SnapshotHeader.pad max f.wire ++ body max fs := by simp [body]
      obtain ⟨e, he, hc⟩ := readData_pad (h.fits f List.mem_cons_self)
        (h.le_max f List.mem_cons_self) h.max_le (body max fs) past
      have hnext : throughout act ((fs.take n).map Frame.extended) =
          forFrames act max n (Mem.ofList (body max fs) past) :=
        funext fun s' => (ih h.tail (by simpa using hn) s').symm
      rw [forFrames, hbody, he, List.take_succ_cons, List.map_cons, throughout, hnext, ← hc,
        Mem.shift_ofList (SnapshotHeader.length_pad (h.le_max f List.mem_cons_self))]

/-- **A receiver of a generated packet.** The count may be less than the number of frames, as when
it has wrapped around. -/
theorem handleSnapshot_packet (act : Frame → σ → Outcome σ) (h : Packable max fs)
    {header : SnapshotHeader} (hmax : header.maxMessageLength.toNat = max)
    (hcount : header.count.toNat ≤ fs.length) (past : Mem) (s : σ) :
    handleSnapshot act (Mem.ofList (header.write ++ body max fs) past)
        (header.write ++ body max fs).length s =
      if sizeTest header (header.write ++ body max fs).length then
        throughout act ((fs.take header.count.toNat).map Frame.extended) s
      else (.ok (), s) := by
  rw [handleSnapshot, SnapshotHeader.read_write _ _ _ (by simp),
    Mem.shift_ofList (SnapshotHeader.length_write header)]
  split_ifs with ht
  · simp only [if_pos ht, hmax]
    exact forFrames_body act h hcount past s
  · simp only [if_neg ht]

/-- With an exact count the size test passes. -/
theorem sizeTest_packet (h : Packable max fs) {header : SnapshotHeader}
    (hmax : header.maxMessageLength.toNat = max) (hcount : header.count.toNat = fs.length) :
    sizeTest header (header.write ++ body max fs).length := by
  have hlt := header.count.toNat_lt
  have hle := h.max_le
  unfold sizeofEntry sizeofHeader at hle
  have hbound : fs.length * max < 2 ^ 32 := by
    calc fs.length * max ≤ 65535 * 224 := Nat.mul_le_mul (by omega) (by omega)
      _ < 2 ^ 32 := by decide
  rw [sizeTest, List.length_append, SnapshotHeader.length_write, Nat.add_sub_cancel_left,
    length_body h, hmax, hcount, Nat.mod_eq_of_lt hbound]

/-! ## The round trip -/

/-- Every frame written into its own entry of a fresh stream. -/
def written (fs : List Frame) : SnapshotStream := fs.foldl (fun s f => s.push f.build.write) {}

/-- The packet sent for `fs`: the header is generated with the number of frames and the length of
the longest one. -/
def packetOf (sequence : UInt32) (fs : List Frame) : Bytes :=
  (SnapshotHeader.generate (written fs) sequence (UInt16.ofNat fs.length)
    (UInt32.ofNat (SnapshotStream.longest (written fs).frames))).result.1

theorem written_build (fs : List Frame) : written fs = { frames := fs.map (·.build.write) } := by
  have key : ∀ s : SnapshotStream, fs.foldl (fun s f => s.push f.build.write) s =
      { s with frames := s.frames ++ fs.map (·.build.write) } := by
    induction fs with
    | nil => simp
    | cons f fs ih =>
      intro s
      rw [List.foldl_cons, ih]
      simp [SnapshotStream.push]
  rw [written, key]
  simp

theorem written_eq (hfit : ∀ f ∈ fs, f.Fits) : written fs = { frames := fs.map Frame.wire } := by
  rw [written_build, List.map_congr_left fun f hf => Frame.write_build (hfit f hf)]

theorem packable_longest (hfit : ∀ f ∈ fs, f.Fits) :
    Packable (SnapshotStream.longest (fs.map Frame.wire)) fs where
  fits := hfit
  le_max f hf := SnapshotStream.le_longest (List.mem_map_of_mem hf)
  max_le := by
    refine (SnapshotStream.longest_le (n := 209) fun e he => ?_).trans (by decide)
    obtain ⟨f, hf, rfl⟩ := List.mem_map.mp he
    exact (Frame.length_wire_bounds (hfit f hf)).2

theorem toNat_longest (hfit : ∀ f ∈ fs, f.Fits) :
    (UInt32.ofNat (SnapshotStream.longest (fs.map Frame.wire))).toNat =
      SnapshotStream.longest (fs.map Frame.wire) := by
  have hle := (packable_longest hfit).max_le
  exact UInt32.toNat_ofNat_of_lt' (lt_of_le_of_lt hle (by decide))

/-- A packet is its header followed by its body. -/
theorem packetOf_eq (sequence : UInt32) (hfit : ∀ f ∈ fs, f.Fits) :
    packetOf sequence fs = (SnapshotHeader.mk objectFrameCode (UInt16.ofNat fs.length) sequence
      (UInt32.ofNat (SnapshotStream.longest (fs.map Frame.wire)))).write ++
        body (SnapshotStream.longest (fs.map Frame.wire)) fs := by
  rw [packetOf, written_eq hfit, SnapshotHeader.result_generate rfl, List.nil_append,
    toNat_longest hfit, List.map_map]
  rfl

theorem accepted_packetOf (sequence : UInt32) (hlen : fs.length < 65536) (hfit : ∀ f ∈ fs, f.Fits)
    (past : Mem) : accepted (packetOf sequence fs) past := by
  have hcount : (UInt16.ofNat fs.length).toNat = fs.length := UInt16.toNat_ofNat_of_lt' hlen
  rw [packetOf_eq sequence hfit]
  exact ⟨_, SnapshotHeader.read_write _ _ _ (by simp),
    sizeTest_packet (packable_longest hfit) (toNat_longest hfit) hcount⟩

/-- A receiver handles the frames of a packet in order. -/
theorem handleSnapshot_packetOf (act : Frame → σ → Outcome σ) (sequence : UInt32)
    (hlen : fs.length < 65536) (hfit : ∀ f ∈ fs, f.Fits) (past : Mem) (s : σ) :
    handleSnapshot act (Mem.ofList (packetOf sequence fs) past) (packetOf sequence fs).length s =
      throughout act (fs.map Frame.extended) s := by
  have h := packable_longest hfit
  have hmax := toNat_longest hfit
  have hcount : (UInt16.ofNat fs.length).toNat = fs.length := UInt16.toNat_ofNat_of_lt' hlen
  rw [packetOf_eq sequence hfit, handleSnapshot_packet _ h hmax hcount.le,
    if_pos (sizeTest_packet h hmax hcount),
    show (SnapshotHeader.mk objectFrameCode (UInt16.ofNat fs.length) sequence _).count.toNat =
      fs.length from hcount, List.take_length]

/-- **The packet round trip**: the receiver's size test passes, the `i`-th partition reads back as
the `i`-th frame, and the handler sees exactly the frames written, in order. -/
theorem packet_round_trip (sequence : UInt32) (past : Mem) (hlen : fs.length < 65536)
    (hfit : ∀ f ∈ fs, f.Fits) :
    accepted (packetOf sequence fs) past ∧
      (∀ i (hi : i < fs.length), ∃ e,
        readPartition (packetOf sequence fs) past
          (SnapshotStream.longest (written fs).frames) i = .ok e ∧ e.content = fs[i].extended) ∧
      handleSnapshot (fun f seen => (.ok (), seen ++ [f])) (Mem.ofList (packetOf sequence fs) past)
        (packetOf sequence fs).length [] = (.ok (), fs.map Frame.extended) := by
  refine ⟨accepted_packetOf sequence hlen hfit past, ?_, ?_⟩
  · intro i hi
    have h := packable_longest hfit
    rw [written_eq hfit, packetOf_eq sequence hfit, readPartition, ← Mem.shift_shift,
      Mem.shift_ofList (SnapshotHeader.length_write _), body,
      Mem.shift_ofList_flatten h.length_entry (by simpa using hi.le), ← List.map_drop,
      List.drop_eq_getElem_cons hi, List.map_cons, List.flatten_cons]
    have hi' := List.getElem_mem hi
    exact readData_pad (hfit _ hi') (h.le_max _ hi') h.max_le _ _
  · rw [handleSnapshot_packetOf _ sequence hlen hfit, throughout_collect, List.nil_append]

/-- Two frames with names of different lengths. -/
theorem packet_round_trip_two :
    let fs : List Frame := [⟨kFrameData, 7, netControllerNone, 1, true, [104, 112], [100, 0, 0, 0]⟩,
      ⟨kFrameAlloc, 8, netControllerLocal, 0, false, [112, 108, 97, 121, 101, 114, 115], [119, 0]⟩]
    accepted (packetOf 0 fs) Mem.zero ∧
      (∀ i (hi : i < fs.length), ∃ e,
        readPartition (packetOf 0 fs) Mem.zero (SnapshotStream.longest (written fs).frames) i =
          .ok e ∧ e.content = fs[i].extended) ∧
      handleSnapshot (fun f seen => (.ok (), seen ++ [f])) (Mem.ofList (packetOf 0 fs) Mem.zero)
        (packetOf 0 fs).length [] = (.ok (), fs.map Frame.extended) :=
  packet_round_trip 0 Mem.zero (by decide) (by decide)

end Nettik
