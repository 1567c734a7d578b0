import Nettik.Entity.Roll

/-!
# What packets say about objects

* `newsOf`: the messages about objects in a packet, as a receiver decodes them;
* `Carries`: an aware client processes the packet without an exception, and its roster becomes what
  these messages make of it;
* **`carries_snapshot`**: every packet a snapshot turns into carries its news, also when the count of
  its header wrapped around; `carries_add` for list messages.
-/

namespace Nettik

open ByteMem Loops

variable {pb : Protobuf} {instanceName : Bytes} {names : List Bytes}

/-! ## News -/

/-- The messages about objects a receiver decodes. -/
def newsOf (packet : Bytes) : List EntityMsg :=
  if codeOf packet = objectFrameCode then (decoded packet Mem.zero).filterMap Frame.news else []

def Carries (pb : Protobuf) (instanceName : Bytes) (names : List Bytes) (packet : Bytes) : Prop :=
  ∀ (past : Mem) (server : Peer) (c : NetSystem), Aware instanceName names c →
    ∃ c', c.receive pb past server packet = (.ok (), c') ∧ Aware instanceName names c' ∧
      rosterOf instanceName c' = (newsOf packet).foldl Roster.apply (rosterOf instanceName c)

/-- The handlers `processRecv` runs. -/
theorem receive_of_code {packet : Bytes} (hlen : 2 ≤ packet.length) {c : NetSystem}
    (h : Aware instanceName names c) (past : Mem) (server : Peer) :
    c.receive pb past server packet = throughout
      (NetSystem.runHandler pb (Mem.ofList packet past) packet.length server)
      (c.handlersOf (codeOf packet)) c := by
  have hcode : u16Of ((Mem.ofList packet past).read 2) = codeOf packet := by
    rw [codeOf, ← List.take_append_drop 2 packet]
    rw [Mem.read_ofList (by simpa using hlen), List.take_left' (by simpa using hlen)]
  rw [NetSystem.receive, NetSystem.processRecv, if_neg (by simp [h.running]), if_neg (by omega), hcode]

/-- A packet whose code nobody is bound to. -/
theorem carries_of_unbound {packet : Bytes} (hlen : 2 ≤ packet.length)
    (hcode : ∀ h, (codeOf packet, h) ∉ clientCallbacks) :
    Carries pb instanceName names packet ∧ newsOf packet = [] := by
  have hnews : newsOf packet = [] := by
    rw [newsOf, if_neg]
    intro e
    exact hcode .handleEntSnapshot (by rw [e]; decide)
  refine ⟨?_, hnews⟩
  intro past server c h
  have hhandlers : c.handlersOf (codeOf packet) = [] := by
    rw [NetSystem.handlersOf, h.callbacks, List.filterMap_eq_nil_iff]
    rintro ⟨code, handler⟩ hmem
    rw [if_neg]
    rintro rfl
    exact hcode handler hmem
  refine ⟨c, ?_, h, by rw [hnews]; rfl⟩
  rw [receive_of_code hlen h, hhandlers]
  rfl

theorem codeOf_add (m : MapAdd) : codeOf ((ListMsg.add m).packet pb) = internalEvtListAdd := by
  rw [codeOf, ListMsg.packet, List.take_left' (length_toLE 2 _), u16Of_toLE]

theorem newsOf_add (m : MapAdd) : newsOf ((ListMsg.add m).packet pb) = [] := by
  rw [newsOf, codeOf_add, if_neg (by decide)]

/-- A list message says nothing about objects. -/
theorem carries_add (m : MapAdd) : Carries pb instanceName names ((ListMsg.add m).packet pb) := by
  have hlen : 2 ≤ ((ListMsg.add m).packet pb).length := by
    rw [ListMsg.packet, List.length_append, length_toLE]
    omega
  intro past server c h
  have hhandlers : c.handlersOf internalEvtListAdd = [.onRemoteAdd] := by
    rw [NetSystem.handlersOf, h.callbacks]
    rfl
  have hroster : ∀ msg : MapAdd, rosterOf instanceName (c.onRemoteAdd msg) = rosterOf instanceName c := by
    intro msg
    refine congrArg₂ Roster.mk ?_ rfl
    funext n
    exact NetSystem.roll_modifyList _ _ _ n
  have hreceive : c.receive pb past server ((ListMsg.add m).packet pb) =
      (.ok (), c.onRemoteAdd (pb.parseAdd (NetSystem.protoBytes
        (Mem.ofList ((ListMsg.add m).packet pb) past) ((ListMsg.add m).packet pb).length)).2) := by
    rw [receive_of_code hlen h, codeOf_add, hhandlers]
    rfl
  refine ⟨_, hreceive, ⟨h.running, h.callbacks, ?_⟩, ?_⟩
  · rw [hroster]
    exact h.knows
  · rw [hroster, newsOf_add]
    rfl

/-! ## Snapshot packets -/

section

variable {max : ℕ} {fs : List Frame} {header : SnapshotHeader}

theorem decoded_packet (h : Packable max fs) (hmax : header.maxMessageLength.toNat = max)
    (hcount : header.count.toNat ≤ fs.length) (past : Mem) :
    decoded (header.write ++ body max fs) past =
      if sizeTest header (header.write ++ body max fs).length then
        (fs.take header.count.toNat).map Frame.extended
      else [] := by
  rw [decoded, handleSnapshot_packet _ h hmax hcount]
  split_ifs
  · rw [throughout_collect, List.nil_append]
  · rfl

/-- **A client handles what the size test lets through.** -/
theorem carries_packet (hnul : (0 : UInt8) ∉ instanceName) (h : Packable max fs)
    (hmax : header.maxMessageLength.toNat = max) (hcount : header.count.toNat ≤ fs.length)
    (hmsg : header.messageCode = objectFrameCode) (hfs : ∀ f ∈ fs, f.Proper instanceName names) :
    Carries pb instanceName names (header.write ++ body max fs) := by
  have hcode : codeOf (header.write ++ body max fs) = objectFrameCode := by
    rw [codeOf, SnapshotHeader.write]
    simp only [List.append_assoc]
    rw [List.take_left' (length_toLE 2 _), u16Of_toLE, hmsg]
  have hlen : 2 ≤ (header.write ++ body max fs).length := by
    rw [List.length_append, SnapshotHeader.length_write]
    unfold sizeofHeader
    omega
  intro past server c haware
  have hhandlers : c.handlersOf objectFrameCode = [.handleEntSnapshot] := by
    rw [NetSystem.handlersOf, haware.callbacks]
    rfl
  have hreceive : c.receive pb past server (header.write ++ body max fs) =
      (handleSnapshot NetSystem.actServer (Mem.ofList (header.write ++ body max fs) past)
        (header.write ++ body max fs).length c).andThen fun c => (.ok (), c) := by
    rw [receive_of_code hlen haware, hcode, hhandlers]
    rfl
  have hnews := decoded_packet h hmax hcount Mem.zero
  rw [handleSnapshot_packet _ h hmax hcount] at hreceive
  rw [newsOf, if_pos hcode, hnews, hreceive]
  split_ifs
  · have htaken : ∀ f ∈ fs.take header.count.toNat, f.Proper instanceName names :=
      fun f hf => hfs f (List.mem_of_mem_take hf)
    obtain ⟨c', hc', haware', hroster⟩ := throughout_actServer hnul htaken haware
    exact ⟨c', by rw [hc']; rfl, haware', hroster⟩
  · exact ⟨c, rfl, haware, rfl⟩

/-- With a count that wrapped around the size test fails. -/
theorem not_sizeTest_packet (h : Packable max fs) (hpos : 0 < max)
    (hmax : header.maxMessageLength.toNat = max) (hcount : header.count.toNat < fs.length) :
    ¬ sizeTest header (header.write ++ body max fs).length := by
  rw [sizeTest, List.length_append, SnapshotHeader.length_write, Nat.add_sub_cancel_left,
    length_body h, hmax]
  have hmod := Nat.mod_le (header.count.toNat * max) (2 ^ 32)
  have hlt : header.count.toNat * max < fs.length * max := Nat.mul_lt_mul_of_pos_right hcount hpos
  omega

end

/-- The packet of a stream that holds `fs`: without an update the header is not generated, and the
count has 16 bits. -/
def snapshotPacket (sequence : UInt32) (fs : List Frame) : Bytes :=
  if UInt16.ofNat fs.length = 0 then (written fs).frames.flatten else packetOf sequence fs

/-- The news of a packet that can be read. -/
def legible (fs : List Frame) : List EntityMsg :=
  if fs.length < 65536 then fs.filterMap Frame.news else []

theorem filterMap_news_extended (fs : List Frame) :
    (fs.map Frame.extended).filterMap Frame.news = fs.filterMap Frame.news := by
  rw [List.filterMap_map]
  rfl

/-- The first two bytes of a frame are not a message code. -/
theorem codeOf_wire {f : Frame} (hf : f.Proper instanceName names) (b : Bytes) (h : Handler) :
    (codeOf (f.wire ++ b), h) ∉ clientCallbacks := by
  have hcode : codeOf (f.wire ++ b) = u16Of (toLE 2 f.frameType.toNat) := rfl
  rw [hcode]
  rcases hf with hdata | ⟨e, -, rfl⟩
  · rw [hdata]
    cases h <;> decide
  · cases e with
    | alloc n netID controller =>
      show (u16Of (toLE 2 kFrameAlloc.toNat), h) ∉ clientCallbacks
      cases h <;> decide
    | dealloc n netID =>
      show (u16Of (toLE 2 kFrameDealloc.toNat), h) ∉ clientCallbacks
      cases h <;> decide

variable {fs : List Frame}

/-- **Every snapshot packet carries its news**, which is nothing when the count wrapped around. -/
theorem carries_snapshot (hnul : (0 : UInt8) ∉ instanceName) (sequence : UInt32) (hne : fs ≠ [])
    (hfit : ∀ f ∈ fs, f.Fits) (hfs : ∀ f ∈ fs, f.Proper instanceName names) :
    Carries pb instanceName names (snapshotPacket sequence fs) ∧
      newsOf (snapshotPacket sequence fs) = legible fs := by
  have hpos := List.length_pos_of_ne_nil hne
  have hmod : (UInt16.ofNat fs.length).toNat = fs.length % 65536 := UInt16.toNat_ofNat'
  rw [snapshotPacket]
  split_ifs with hzero
  · -- no header was generated
    rw [hzero] at hmod
    have hlong : ¬ fs.length < 65536 := by
      intro hlt
      rw [Nat.mod_eq_of_lt hlt] at hmod
      exact absurd hmod.symm hpos.ne'
    rw [legible, if_neg hlong, written_eq hfit]
    obtain ⟨f, rest, rfl⟩ := List.exists_cons_of_ne_nil hne
    have hlen := Frame.length_wire_bounds (hfit f List.mem_cons_self)
    apply carries_of_unbound
    · rw [List.map_cons, List.flatten_cons, List.length_append]
      omega
    · exact codeOf_wire (hfs f List.mem_cons_self) _
  · have hpack := packable_longest hfit
    have hmax := toNat_longest hfit
    have hle : (UInt16.ofNat fs.length).toNat ≤ fs.length := by
      rw [hmod]
      exact Nat.mod_le _ _
    rw [packetOf_eq sequence hfit]
    refine ⟨carries_packet hnul hpack hmax hle rfl hfs, ?_⟩
    rw [newsOf, decoded_packet hpack hmax hle, if_pos, legible]
    · by_cases hlt : fs.length < 65536
      · rw [Nat.mod_eq_of_lt hlt] at hmod
        rw [if_pos hlt, if_pos (sizeTest_packet hpack hmax hmod)]
        show (List.map Frame.extended (fs.take (UInt16.ofNat fs.length).toNat)).filterMap _ = _
        rw [hmod, List.take_length, filterMap_news_extended]
      · have hlt' : (UInt16.ofNat fs.length).toNat < fs.length := by
          rw [hmod]
          exact lt_of_lt_of_le (Nat.mod_lt _ (by decide)) (not_lt.mp hlt)
        have hmaxpos : 0 < SnapshotStream.longest (fs.map Frame.wire) := by
          obtain ⟨f, hf⟩ := List.exists_mem_of_ne_nil fs hne
          have hbounds := Frame.length_wire_bounds (hfit f hf)
          have hlongest := SnapshotStream.le_longest (List.mem_map_of_mem (f := Frame.wire) hf)
          omega
        rw [if_neg hlt, if_neg (not_sizeTest_packet hpack hmaxpos hmax hlt')]
        rfl
    · have hcode := codeOf_packetOf sequence hfit []
      rwa [List.append_nil, packetOf_eq sequence hfit] at hcode

/-! ## Streams -/

theorem longest_written (fs gs : List Frame) :
    (gs.map (·.build.write)).foldl (fun n e => max n e.length)
      (SnapshotStream.longest ([] :: fs.map (·.build.write))) =
        SnapshotStream.longest ((fs ++ gs).map (·.build.write)) := by
  rw [SnapshotStream.longest, SnapshotStream.longest, List.map_append, List.foldl_append]
  rfl

/-- **What a snapshot turns a stream into** that already holds `fs`. -/
theorem doSnapshot_written {r bForced : Bool} (i : VirtualInstance) (fs : List Frame) :
    (i.doSnapshot true r bForced (written fs)).2 =
      if UInt16.ofNat (fs ++ i.emitted r bForced).length = 0 then written (fs ++ i.emitted r bForced)
      else SnapshotHeader.generate (written (fs ++ i.emitted r bForced)) i.sequenceID
        (UInt16.ofNat (fs ++ i.emitted r bForced).length)
        (UInt32.ofNat (SnapshotStream.longest (written (fs ++ i.emitted r bForced)).frames)) := by
  have hmax : ((i.emitted r bForced).map (·.build.write)).foldl (fun n e => max n e.length)
      (if (written fs).modified then SnapshotStream.longest ((written fs).header :: (written fs).frames)
        else 0) = SnapshotStream.longest ((fs ++ i.emitted r bForced).map (·.build.write)) := by
    rw [← longest_written, written_build]
    cases fs <;> rfl
  rw [VirtualInstance.doSnapshot_eq]
  simp only [SnapshotAcc.add, hmax]
  simp only [written_build, List.length_map, List.length_append, UInt16.ofNat_add, List.map_append]

theorem result_doSnapshot (r bForced : Bool) (i : VirtualInstance) (fs : List Frame) :
    (i.doSnapshot true r bForced (written fs)).2.modified = !(fs ++ i.emitted r bForced).isEmpty ∧
    (i.doSnapshot true r bForced (written fs)).2.result.1 =
      snapshotPacket i.sequenceID (fs ++ i.emitted r bForced) := by
  rw [doSnapshot_written, snapshotPacket, packetOf]
  generalize fs ++ i.emitted r bForced = gs
  have hempty : ∀ n, (gs.map fun f => SnapshotHeader.pad n f.build.write).isEmpty = gs.isEmpty := by
    intro n
    cases gs <;> rfl
  split_ifs
  · constructor
    · simp [written_build, SnapshotStream.modified]
    · simp [written_build, SnapshotStream.result]
  · constructor
    · rw [written_build]
      simp only [SnapshotHeader.generate, SnapshotHeader.copyFrom, SnapshotStream.modified, List.map_map]
      rw [← hempty]
      rfl
    · rfl

end Nettik
