import Nettik.World.Server

/-!
# Snapshots over several instances

Both loops over the instances keep their two streams from one instance to the next.

* `doSnapshot_fresh`: a fresh stream becomes the packet of the emitted frames;
* `not_accepted_append`: a stream that was sent once turns into a packet no receiver accepts;
* **`announced_iff`**: a loop announces every variable it has to exactly when those variables lie in
  the instance it visits last.
-/

namespace Nettik

open ByteMem Loops

/-! ## What an instance has to announce -/

/-- A variable of a local object that a snapshot emits. -/
def VirtualInstance.Pending (bForced : Bool) (i : VirtualInstance) : Prop :=
  ∃ m ∈ i.managers, ∃ o ∈ m.objects, o.isNetworkLocal = true ∧
    ∃ v ∈ o.vars, bForced = true ∨ v.base.changed = true

/-- The variables keep to the limit of `Constraints.h`. -/
def VirtualInstance.VarNamesFit (i : VirtualInstance) : Prop :=
  ∀ m ∈ i.managers, ∀ o ∈ m.objects, ∀ v ∈ o.vars, v.name.1.length < maxEntvarName

variable {r bForced : Bool} {i : VirtualInstance}

theorem NetVar.emitted_eq (netID : UInt32) (v : NetVar) : v.emitted r bForced netID =
    if v.reliable = r ∧ (bForced = true ∨ v.base.changed = true) then
      [v.frame netID ⟨v.base.data, v.base.sequenceID + 1, v.base.changeForced || bForced⟩]
    else [] := by
  by_cases hr : v.reliable = r
  · by_cases h : bForced = true ∨ v.base.changed = true
    · simp [emitted, hr, h, CNetVarBase.takeVariableSnapshot_some h]
    · have h' : bForced = false ∧ v.base.changed = false := by simpa using h
      have hnone := CNetVarBase.takeVariableSnapshot_none h'
      rw [emitted, if_pos hr, if_neg fun e => h e.2, hnone]
      rfl
  · simp [emitted, hr]

theorem VirtualInstance.mem_emitted {f : Frame} : f ∈ i.emitted r bForced ↔
    ∃ m ∈ i.managers, ∃ o ∈ m.objects, o.isNetworkLocal = true ∧ ∃ v ∈ o.vars, v.reliable = r ∧
      (bForced = true ∨ v.base.changed = true) ∧
      f = v.frame o.netID ⟨v.base.data, v.base.sequenceID + 1, v.base.changeForced || bForced⟩ := by
  simp only [emitted, CEntities.emitted, List.mem_flatMap]
  refine exists_congr fun m => and_congr_right fun _ => exists_congr fun o =>
    and_congr_right fun _ => ?_
  rw [NetObject.emitted]
  by_cases ho : o.isNetworkLocal = true
  · simp only [ho, if_true, List.mem_flatMap, true_and, NetVar.emitted_eq]
    refine exists_congr fun v => and_congr_right fun _ => ?_
    by_cases h : v.reliable = r ∧ (bForced = true ∨ v.base.changed = true)
    · simp [h]
    · rw [if_neg h, ← and_assoc]
      simp [h]
  · simp [ho]

theorem VirtualInstance.pending_iff : i.Pending bForced ↔ ∃ r, i.emitted r bForced ≠ [] := by
  constructor
  · rintro ⟨m, hm, o, ho, hl, v, hv, h⟩
    exact ⟨v.reliable, List.ne_nil_of_mem (mem_emitted.mpr ⟨m, hm, o, ho, hl, v, hv, rfl, h, rfl⟩)⟩
  · rintro ⟨r, hr⟩
    obtain ⟨f, hf⟩ := List.exists_mem_of_ne_nil _ hr
    obtain ⟨m, hm, o, ho, hl, v, hv, -, h, -⟩ := mem_emitted.mp hf
    exact ⟨m, hm, o, ho, hl, v, hv, h⟩

theorem VirtualInstance.VarNamesFit.fits (h : i.VarNamesFit) : ∀ f ∈ i.emitted r bForced, f.Fits := by
  intro f hf
  obtain ⟨m, hm, o, ho, -, v, hv, -, -, rfl⟩ := mem_emitted.mp hf
  exact v.frame_fits _ (h m hm o ho v hv) _

theorem NetVar.emitted_snapped {r' : Bool} (hr : r ≠ r') (netID : UInt32) (v : NetVar) :
    (v.snapped r bForced).emitted r' bForced netID = v.emitted r' bForced netID := by
  by_cases hv : v.reliable = r
  · simp [snapped, emitted, hv, hr]
  · simp [snapped, hv]

theorem NetObject.emitted_snapped {r' : Bool} (hr : r ≠ r') (o : NetObject) :
    (o.snapped r bForced).emitted r' bForced = o.emitted r' bForced := by
  by_cases ho : o.isNetworkLocal = true
  · rw [snapped, if_pos ho, emitted, emitted, if_pos (by exact ho), if_pos ho, List.flatMap_map]
    exact List.flatMap_congr fun v _ => NetVar.emitted_snapped hr o.netID v
  · rw [snapped, if_neg ho]

/-- A snapshot of the other reliability does not touch what this one emits. -/
theorem VirtualInstance.emitted_snapped {r' : Bool} (hr : r ≠ r') (i : VirtualInstance) :
    (i.snapped r bForced).emitted r' bForced = i.emitted r' bForced := by
  simp only [emitted, snapped, List.flatMap_map]
  refine List.flatMap_congr fun m _ => ?_
  simp only [CEntities.emitted, CEntities.snapped, List.flatMap_map]
  exact List.flatMap_congr fun o _ => NetObject.emitted_snapped hr o

/-! ## One stream through the loop -/

/-- The packets one of the two streams turns into. -/
def packetsOf (r bForced : Bool) : List VirtualInstance → SnapshotStream → List Bytes
  | [], _ => []
  | i :: l, stream =>
    let stream' := (i.doSnapshot true r bForced stream).2
    if stream'.modified then stream'.result.1 :: packetsOf r bForced l stream'.result.2
    else packetsOf r bForced l stream'

theorem doSnapshot_quiet (h : i.emitted r bForced = []) :
    (i.doSnapshot true r bForced {}).2 = {} := by
  rw [VirtualInstance.doSnapshot_eq, h]
  rfl

/-- **A fresh stream becomes the packet of the emitted frames.** -/
theorem doSnapshot_fresh (hne : i.emitted r bForced ≠ [])
    (hlen : (i.emitted r bForced).length < 65536) :
    (i.doSnapshot true r bForced {}).2 = SnapshotHeader.generate (written (i.emitted r bForced))
      i.sequenceID (UInt16.ofNat (i.emitted r bForced).length)
      (UInt32.ofNat (SnapshotStream.longest (written (i.emitted r bForced)).frames)) := by
  have hpos := List.length_pos_of_ne_nil hne
  have hcount : UInt16.ofNat (i.emitted r bForced).length ≠ 0 := by
    intro h
    have := congrArg UInt16.toNat h
    rw [UInt16.toNat_ofNat_of_lt' hlen] at this
    exact absurd this (by simp; exact hne)
  have hzero : UInt16.ofNat 0 = 0 := rfl
  rw [VirtualInstance.doSnapshot_eq, written_build]
  simp only [SnapshotAcc.add, SnapshotStream.modified, List.isEmpty_nil, Bool.not_true,
    Bool.false_eq_true, if_false, List.length_nil, hzero, UInt16.zero_add, hcount,
    List.nil_append, SnapshotStream.longest]

/-- A stream after its packet was sent. -/
def sent (sequence : UInt32) (fs : List Frame) : SnapshotStream where
  header := packetOf sequence fs
  frames := fs.map fun f => SnapshotHeader.pad
    (UInt32.ofNat (SnapshotStream.longest (written fs).frames)).toNat f.build.write
  finished := true

theorem result_packetOf (sequence : UInt32) (fs : List Frame) :
    (SnapshotHeader.generate (written fs) sequence (UInt16.ofNat fs.length)
      (UInt32.ofNat (SnapshotStream.longest (written fs).frames))).result.2 = sent sequence fs := by
  rw [sent, packetOf]
  generalize UInt32.ofNat (SnapshotStream.longest (written fs).frames) = max
  have hframes : (written fs).frames.map (SnapshotHeader.pad max.toNat) =
      fs.map fun f => SnapshotHeader.pad max.toNat f.build.write := by
    rw [written_build, List.map_map]
    rfl
  have hfinished : ¬ (SnapshotHeader.generate (written fs) sequence (UInt16.ofNat fs.length)
      max).finished = true := by
    rw [written_build]
    exact Bool.false_ne_true
  rw [SnapshotStream.result, if_neg hfinished]
  dsimp only
  rw [SnapshotHeader.frames_generate, hframes]

/-- A second header behind a packet spoils its size. -/
theorem not_accepted_append {sequence : UInt32} {fs : List Frame} (hfit : ∀ f ∈ fs, f.Fits)
    (hlen : fs.length < 65536) (header : SnapshotHeader) (past : Mem) :
    ¬ accepted (packetOf sequence fs ++ header.write) past := by
  have h := packable_longest hfit
  have hmax := toNat_longest hfit
  have hcount : (UInt16.ofNat fs.length).toNat = fs.length := UInt16.toNat_ofNat_of_lt' hlen
  rintro ⟨header', hread, htest⟩
  rw [packetOf_eq sequence hfit, List.append_assoc,
    SnapshotHeader.read_write _ _ _ (by simp)] at hread
  obtain rfl := Except.ok.inj hread
  have hok : sizeTest (SnapshotHeader.mk objectFrameCode (UInt16.ofNat fs.length) sequence
      (UInt32.ofNat (SnapshotStream.longest (fs.map Frame.wire)))) _ := sizeTest_packet h hmax hcount
  rw [packetOf_eq sequence hfit, sizeTest] at htest
  rw [sizeTest] at hok
  simp only [List.length_append, SnapshotHeader.length_write] at hok htest
  unfold sizeofHeader at hok htest
  omega

/-- A stream that was sent once sends its packet again, with a second header behind it. -/
theorem doSnapshot_sent (sequence : UInt32) {fs : List Frame} (hne : fs ≠ [])
    (hlen : fs.length + (i.emitted r bForced).length < 65536) :
    (i.doSnapshot true r bForced (sent sequence fs)).2.modified = true ∧
      ∃ header : SnapshotHeader, (i.doSnapshot true r bForced (sent sequence fs)).2.result.1 =
        packetOf sequence fs ++ header.write := by
  have hpos := List.length_pos_of_ne_nil hne
  have hcount : UInt16.ofNat fs.length + UInt16.ofNat (i.emitted r bForced).length ≠ 0 := by
    rw [← UInt16.ofNat_add]
    intro h
    have := congrArg UInt16.toNat h
    rw [UInt16.toNat_ofNat_of_lt' hlen] at this
    have hz : (0 : UInt16).toNat = 0 := rfl
    omega
  rw [VirtualInstance.doSnapshot_eq]
  simp only [SnapshotAcc.add, sent, List.length_map, hcount, if_false, SnapshotHeader.generate,
    SnapshotHeader.copyFrom, SnapshotStream.result, SnapshotStream.modified, if_true]
  exact ⟨by simp [hne], _, rfl⟩

theorem packetsOf_append {l : List VirtualInstance} (h : ∀ i ∈ l, i.emitted r bForced = [])
    (l' : List VirtualInstance) : packetsOf r bForced (l ++ l') {} = packetsOf r bForced l' {} := by
  induction l with
  | nil => rfl
  | cons i l ih =>
    rw [List.cons_append, packetsOf, doSnapshot_quiet (h i List.mem_cons_self)]
    exact ih fun j hj => h j (List.mem_cons_of_mem _ hj)

/-- The first instance with something to announce sends one packet of it. -/
theorem packetsOf_fresh (hne : i.emitted r bForced ≠ [])
    (hlen : (i.emitted r bForced).length < 65536) (l : List VirtualInstance) :
    packetsOf r bForced (i :: l) {} = packetOf i.sequenceID (i.emitted r bForced) ::
      packetsOf r bForced l (sent i.sequenceID (i.emitted r bForced)) := by
  have hmod : (i.doSnapshot true r bForced {}).2.modified = true := by
    rw [doSnapshot_fresh hne hlen, SnapshotStream.modified, SnapshotHeader.frames_generate,
      written_build]
    simp [hne]
  rw [packetsOf, if_pos hmod, doSnapshot_fresh hne hlen, result_packetOf]
  rfl

theorem packetsOf_single (hlen : (i.emitted r bForced).length < 65536) :
    packetsOf r bForced [i] {} =
      if i.emitted r bForced = [] then [] else [packetOf i.sequenceID (i.emitted r bForced)] := by
  by_cases hne : i.emitted r bForced = []
  · rw [packetsOf, doSnapshot_quiet hne, if_pos hne]
    rfl
  · rw [packetsOf_fresh hne hlen, if_neg hne]
    rfl

/-- When only the last instance has something to announce, its packet is the one that is sent. -/
theorem mem_packetsOf_quiet {l : List VirtualInstance}
    (hquiet : ∀ i ∈ l.dropLast, i.emitted r bForced = [])
    (hlen : ∀ i ∈ l, (i.emitted r bForced).length < 65536) (packet : Bytes) :
    packet ∈ packetsOf r bForced l {} ↔ ∃ i ∈ l, i.emitted r bForced ≠ [] ∧
      packet = packetOf i.sequenceID (i.emitted r bForced) := by
  rcases List.eq_nil_or_concat' l with rfl | ⟨init, i, rfl⟩
  · simp [packetsOf]
  · rw [List.dropLast_concat] at hquiet
    have hi := hlen i (by simp)
    have hinit : ¬ ∃ j ∈ init, j.emitted r bForced ≠ [] ∧
        packet = packetOf j.sequenceID (j.emitted r bForced) := by
      rintro ⟨j, hj, hne, -⟩
      exact hne (hquiet j hj)
    rw [packetsOf_append hquiet, packetsOf_single hi]
    simp only [List.mem_append, List.mem_singleton, or_and_right, exists_or, hinit, false_or,
      exists_eq_left]
    by_cases hne : i.emitted r bForced = [] <;> simp [hne]

/-- The code `processRecv` reads. -/
def codeOf (packet : Bytes) : UInt16 := u16Of (packet.take 2)

theorem codeOf_packetOf (sequence : UInt32) {fs : List Frame} (hfit : ∀ f ∈ fs, f.Fits) (b : Bytes) :
    codeOf (packetOf sequence fs ++ b) = objectFrameCode := by
  rw [codeOf, packetOf_eq sequence hfit, SnapshotHeader.write]
  simp only [List.append_assoc]
  rw [List.take_left' (length_toLE 2 _), u16Of_toLE]

/-- **An announcement before the last instance makes a later packet fail.** -/
theorem exists_rejected {l : List VirtualInstance}
    (hex : ∃ i ∈ l.dropLast, i.emitted r bForced ≠ []) (hfit : ∀ i ∈ l, i.VarNamesFit)
    (hlen : (l.flatMap (VirtualInstance.emitted r bForced)).length < 65536) :
    ∃ packet ∈ packetsOf r bForced l {}, codeOf packet = objectFrameCode ∧
      ∀ past, ¬ accepted packet past := by
  induction l with
  | nil => simp at hex
  | cons i l ih =>
    rw [List.flatMap_cons, List.length_append] at hlen
    have hfits := fun j hj => hfit j (List.mem_cons_of_mem i hj)
    cases l with
    | nil => simp at hex
    | cons j l =>
      by_cases hne : i.emitted r bForced = []
      · obtain ⟨k, hk, hk'⟩ := hex
        rw [List.dropLast_cons_cons] at hk
        have hkl : k ∈ (j :: l).dropLast := by
          rcases List.mem_cons.mp hk with rfl | hk
          · exact absurd hne hk'
          · exact hk
        have hskip := packetsOf_append (l := [i]) (by simpa using hne) (j :: l)
        rw [List.singleton_append] at hskip
        rw [hskip]
        exact ih ⟨k, hkl, hk'⟩ hfits (by omega)
      · rw [List.flatMap_cons, List.length_append] at hlen
        have hi : ∀ f ∈ i.emitted r bForced, f.Fits := (hfit i List.mem_cons_self).fits
        have hij : (i.emitted r bForced).length + (j.emitted r bForced).length < 65536 := by omega
        obtain ⟨hmod, header, hres⟩ := doSnapshot_sent i.sequenceID hne hij
        refine ⟨packetOf i.sequenceID (i.emitted r bForced) ++ header.write, ?_, ?_, ?_⟩
        · rw [packetsOf_fresh hne (by omega), packetsOf, if_pos hmod, hres]
          exact List.mem_cons_of_mem _ List.mem_cons_self
        · exact codeOf_packetOf i.sequenceID hi _
        · exact not_accepted_append hi (by omega) header

/-! ## Both streams -/

theorem doSnapshot_snapped (stream : SnapshotStream) :
    ((i.snapped true bForced).doSnapshot true false bForced stream).2 =
      (i.doSnapshot true false bForced stream).2 := by
  rw [VirtualInstance.doSnapshot_eq, VirtualInstance.doSnapshot_eq,
    VirtualInstance.emitted_snapped (by decide)]
  rfl

/-- What a loop sends: what precedes the snapshots, and the packets of the two streams. -/
theorem mem_visitInstances {out : SnapshotStream → SnapshotStream × List Send} {wrap : Bytes → Send}
    (hout : ∀ stream, out stream = (stream.result.2, [wrap stream.result.1]))
    (bForced : Bool) (before : VirtualInstance → List Send) (l : List VirtualInstance)
    (acc : LoopAcc) (x : Send) :
    x ∈ (each (NetSystem.visitInstance true bForced before out) l acc).2.sends ↔
      x ∈ acc.sends ∨ x ∈ l.flatMap before ∨
        ∃ packet ∈ packetsOf true bForced l acc.reliableStream ++
          packetsOf false bForced l acc.unreliableStream, x = wrap packet := by
  induction l generalizing acc with
  | nil => simp [each, packetsOf]
  | cons i l ih =>
    rw [each, ih, NetSystem.visitInstance, VirtualInstance.fst_doSnapshot true bForced i,
      doSnapshot_snapped, hout, hout, packetsOf, packetsOf]
    by_cases h₁ : (i.doSnapshot true true bForced acc.reliableStream).2.modified = true <;>
      by_cases h₂ : (i.doSnapshot true false bForced acc.unreliableStream).2.modified = true <;>
      simp only [h₁, h₂, if_true, if_false, List.mem_append, List.mem_flatMap, List.mem_cons,
        List.flatMap_cons, List.not_mem_nil, or_false, exists_eq_left, or_and_right, exists_or,
        Bool.false_eq_true] <;>
      grind

/-! ## Announcements -/

/-- The frames a receiver takes from a packet. -/
def decoded (packet : Bytes) (past : Mem) : List Frame :=
  (handleSnapshot (fun f seen => (.ok (), seen ++ [f])) (Mem.ofList packet past) packet.length []).2

theorem decoded_packetOf (sequence : UInt32) {fs : List Frame} (hlen : fs.length < 65536)
    (hfit : ∀ f ∈ fs, f.Fits) (past : Mem) :
    decoded (packetOf sequence fs) past = fs.map Frame.extended := by
  rw [decoded, handleSnapshot_packetOf _ sequence hlen hfit, throughout_collect, List.nil_append]

/-- **Every snapshot packet passes the receiver's size test, and the decoded frames hold the current
value of every pending variable.** -/
def Announced (past : Mem) (bForced : Bool) (s : NetSystem) (sends : List Send) : Prop :=
  (∀ x ∈ sends, codeOf x.packet = objectFrameCode → accepted x.packet past) ∧
    ∀ i ∈ s.instances, ∀ m ∈ i.managers, ∀ o ∈ m.objects, o.isNetworkLocal = true →
      ∀ v ∈ o.vars, bForced = true ∨ v.base.changed = true →
        ∃ x ∈ sends, ∃ f ∈ decoded x.packet past,
          f.netID = o.netID ∧ f.name = v.name.1 ∧ (v.received f).data = v.base.data

/-- The number of variables a loop has to announce. -/
def NetSystem.pendingCount (bForced : Bool) (s : NetSystem) : ℕ :=
  (s.instances.flatMap (VirtualInstance.emitted true bForced)).length +
    (s.instances.flatMap (VirtualInstance.emitted false bForced)).length

/-- **A loop announces what is pending exactly when that lies in the last instance.** -/
theorem announced_iff {s : NetSystem} (hrun : s.running = true) (hfit : ∀ i ∈ s.instances, i.VarNamesFit)
    (hcount : s.pendingCount bForced < 65536) (past : Mem) (wrap : Bytes → Send)
    {before : VirtualInstance → List Send} {out : SnapshotStream → SnapshotStream × List Send}
    (hwrap : ∀ packet, (wrap packet).packet = packet)
    (hout : ∀ stream, out stream = (stream.result.2, [wrap stream.result.1]))
    (hbefore : ∀ i ∈ s.instances, ∀ x ∈ before i, codeOf x.packet = objectFrameCode →
      accepted x.packet past) :
    Announced past bForced s (s.visitInstances bForced before out).2 ↔
      ∀ i ∈ s.instances.dropLast, ¬ i.Pending bForced := by
  have hmem := fun x => mem_visitInstances hout bForced before s.instances {} x
  rw [NetSystem.visitInstances, hrun]
  constructor
  · rintro ⟨hacc, -⟩ i hi hp
    obtain ⟨r, hr⟩ := VirtualInstance.pending_iff.mp hp
    have hlen : (s.instances.flatMap (VirtualInstance.emitted r bForced)).length < 65536 := by
      unfold NetSystem.pendingCount at hcount
      cases r <;> omega
    obtain ⟨packet, hpacket, hcode, hrej⟩ := exists_rejected ⟨i, hi, hr⟩ hfit hlen
    refine hrej past (hwrap packet ▸ hacc (wrap packet) ((hmem _).mpr ?_) ((hwrap packet).symm ▸ hcode))
    refine Or.inr (Or.inr ⟨packet, ?_, rfl⟩)
    cases r
    · exact List.mem_append_right _ hpacket
    · exact List.mem_append_left _ hpacket
  · intro hquiet
    have hlen : ∀ r, ∀ i ∈ s.instances, (i.emitted r bForced).length < 65536 := by
      intro r i hi
      have hsub := (List.sublist_flatten_of_mem
        (List.mem_map_of_mem (f := VirtualInstance.emitted r bForced) hi)).length_le
      rw [← List.flatMap_def] at hsub
      unfold NetSystem.pendingCount at hcount
      cases r <;> omega
    have hsilent : ∀ r, ∀ i ∈ s.instances.dropLast, i.emitted r bForced = [] := by
      intro r i hi
      by_contra hne
      exact hquiet i hi (VirtualInstance.pending_iff.mpr ⟨r, hne⟩)
    have hpacket := fun r => mem_packetsOf_quiet (hsilent r) (hlen r)
    refine ⟨fun x hx hcode => ?_, fun i hi m hm o ho hl v hv hp => ?_⟩
    · rcases (hmem x).mp hx with hx | hx | ⟨packet, hpkt, rfl⟩
      · exact absurd hx (by simp)
      · obtain ⟨i, hi, hx⟩ := List.mem_flatMap.mp hx
        exact hbefore i hi x hx hcode
      · have hok : ∀ r, packet ∈ packetsOf r bForced s.instances {} → accepted packet past := by
          intro r h
          obtain ⟨i, hi, -, rfl⟩ := (hpacket r packet).mp h
          exact accepted_packetOf _ (hlen r i hi) (hfit i hi).fits past
        rw [hwrap]
        exact (List.mem_append.mp hpkt).elim (hok true) (hok false)
    · -- the frame of the variable is in the packet of its reliability
      have hf : v.frame o.netID ⟨v.base.data, v.base.sequenceID + 1, v.base.changeForced || bForced⟩ ∈
          i.emitted v.reliable bForced :=
        VirtualInstance.mem_emitted.mpr ⟨m, hm, o, ho, hl, v, hv, rfl, hp, rfl⟩
      have hsent := (hpacket v.reliable _).mpr ⟨i, hi, List.ne_nil_of_mem hf, rfl⟩
      have hmemp : packetOf i.sequenceID (i.emitted v.reliable bForced) ∈
          packetsOf true bForced s.instances {} ++ packetsOf false bForced s.instances {} := by
        cases hrel : v.reliable
        · exact List.mem_append_right _ (hrel ▸ hsent)
        · exact List.mem_append_left _ (hrel ▸ hsent)
      refine ⟨_, (hmem _).mpr (Or.inr (Or.inr ⟨_, hmemp, rfl⟩)), (v.frame o.netID
        ⟨v.base.data, v.base.sequenceID + 1, v.base.changeForced || bForced⟩).extended, ?_, rfl, rfl, ?_⟩
      · rw [hwrap, decoded_packetOf _ (hlen _ i hi) (hfit i hi).fits]
        exact List.mem_map_of_mem hf
      · rw [NetVar.received_extended]

/-! ## The two loops -/

/-- The frame that creates an object on a client. -/
def allocFrame (instanceName managerName : Bytes) (netID controller : UInt32) : Frame :=
  ⟨kFrameAlloc, netID, controller, 0, false, managerName, instanceName ++ [0]⟩

theorem creationUpdate_eq (instanceName managerName : Bytes) (netID controller : UInt32) :
    ((NetSystem.creationUpdate instanceName managerName).setNetid netID).setController controller =
      (allocFrame instanceName managerName netID controller).build := rfl

theorem result_single {entry : Bytes} (h : entry.length < 2 ^ 32) :
    (SnapshotStream.single entry).result.1 =
      (SnapshotHeader.mk objectFrameCode 1 0 (UInt32.ofNat entry.length)).write ++ entry := by
  have hpush : ({} : SnapshotStream).push entry = { frames := [entry] } := rfl
  have hmax : (UInt32.ofNat entry.length).toNat = entry.length := UInt32.toNat_ofNat_of_lt' h
  rw [SnapshotStream.single, hpush, SnapshotHeader.result_generate rfl]
  dsimp only
  rw [hmax, List.nil_append]
  simp [SnapshotHeader.pad]

theorem accepted_single {entry : Bytes} (h : entry.length < 2 ^ 32) (past : Mem) :
    accepted (SnapshotStream.single entry).result.1 past := by
  rw [result_single h]
  refine ⟨_, SnapshotHeader.read_write _ _ _ (by simp), ?_⟩
  have hone : (1 : UInt16).toNat = 1 := rfl
  rw [sizeTest, List.length_append, SnapshotHeader.length_write, Nat.add_sub_cancel_left,
    UInt32.toNat_ofNat_of_lt' h, hone, Nat.one_mul, Nat.mod_eq_of_lt h]

theorem length_write_build (f : Frame) :
    f.build.write.length ≤ 213 + maxEntvarData + f.data.length := by
  have hle := Mem.strlen_le f.build.text SnapshotEntList.sizeofText
  have htype : f.build.typesize = f.data.length := rfl
  simp only [SnapshotEntList.write, List.length_append, length_toLE, Mem.length_read,
    List.length_singleton, List.length_replicate, htype]
  unfold SnapshotEntList.sizeofText maxEntvarName maxEntvarData at *
  omega

/-- What the handler sends before the snapshots passes the size test, or is no snapshot. -/
theorem accepted_sendAllObjectLists {pb : Protobuf} {s : NetSystem} {peer : Peer} {x : Send}
    (hname : i.name.length < 2 ^ 31) (hx : x ∈ NetSystem.sendAllObjectLists pb s i peer)
    (hcode : codeOf x.packet = objectFrameCode) (past : Mem) : accepted x.packet past := by
  simp only [NetSystem.sendAllObjectLists, NetSystem.sendObjectLists, List.mem_flatMap,
    List.mem_append] at hx
  obtain ⟨m, -, o, -, hx | hx⟩ := hx
  · rw [creationUpdate_eq] at hx
    set f := allocFrame i.name m.name o.netID
      (if o.peer = some peer then netControllerLocal else netControllerNone)
    have hlen := length_write_build f
    have hdata : f.data.length = i.name.length + 1 := by simp [f, allocFrame]
    unfold maxEntvarData at hlen
    simp only [NetSystem.sendStream, NetSystem.send] at hx
    by_cases hrun : s.running = true
    · obtain rfl : x = _ := by simpa [hrun] using hx
      exact accepted_single (by omega) past
    · simp [hrun] at hx
  · simp only [NetSystem.sendLists, List.mem_flatMap] at hx
    obtain ⟨l, -, msg, -, hx⟩ := hx
    by_cases hrun : s.running = true
    · obtain rfl : x = _ := by simpa [NetSystem.send, hrun] using hx
      have hadd : codeOf ((ListMsg.add msg).packet pb) = internalEvtListAdd := by
        rw [codeOf, ListMsg.packet, List.take_left' (length_toLE 2 _), u16Of_toLE]
      exact absurd (hadd.symm.trans hcode) (by decide)
    · simp [NetSystem.send, hrun] at hx

namespace NetSystem

variable {s : NetSystem} (hrun : s.running = true) (hfit : ∀ i ∈ s.instances, i.VarNamesFit)
  (past : Mem)

include hrun hfit

/-- A tick; a client needs somebody to send to. -/
theorem snapshotUpdate_announced (hpeer : s.server = true ∨ s.peerList ≠ [])
    (hcount : s.pendingCount false < 65536) : Announced past false s s.snapshotUpdate.2 ↔
      ∀ i ∈ s.instances.dropLast, ¬ i.Pending false := by
  have hnil : ∀ i ∈ s.instances, ∀ x ∈ ([] : List Send), codeOf x.packet = objectFrameCode →
      accepted x.packet past := fun _ _ _ hx => absurd hx (by simp)
  by_cases hserver : s.server = true
  · refine announced_iff hrun hfit hcount past (fun b => ⟨0, none, true, b⟩)
      (fun _ => rfl) (fun stream => ?_) hnil
    simp [hserver, broadcastStream, broadcast, hrun]
  · obtain ⟨p, ps, hps⟩ := List.exists_cons_of_ne_nil (hpeer.resolve_left hserver)
    refine announced_iff hrun hfit hcount past (fun b => ⟨1, some p, true, b⟩)
      (fun _ => rfl) (fun stream => ?_) hnil
    simp [hserver, sendStream, send, getFirstPeer, hps, hrun]

/-- A join. -/
theorem connectHandler_announced (pb : Protobuf) (peer : Peer)
    (hname : ∀ i ∈ s.instances, i.name.length < 2 ^ 31) (hcount : s.pendingCount true < 65536) :
    Announced past true s (s.connectHandler pb peer).2 ↔
      ∀ i ∈ s.instances.dropLast, ¬ i.Pending true := by
  refine announced_iff hrun hfit hcount past (fun b => ⟨1, some peer, true, b⟩)
    (fun _ => rfl) (fun stream => ?_)
    fun i hi x hx hcode => accepted_sendAllObjectLists (hname i hi) hx hcode past
  simp [sendStream, send, hrun]

/-- **Both loops announce every pending variable exactly when no instance but the last has any.** -/
theorem loops_announce_last (pb : Protobuf) (peer : Peer) (hpeer : s.server = true ∨ s.peerList ≠ [])
    (hname : ∀ i ∈ s.instances, i.name.length < 2 ^ 31) :
    (s.pendingCount false < 65536 → (Announced past false s s.snapshotUpdate.2 ↔
      ∀ i ∈ s.instances.dropLast, ¬ i.Pending false)) ∧
    (s.pendingCount true < 65536 → (Announced past true s (s.connectHandler pb peer).2 ↔
      ∀ i ∈ s.instances.dropLast, ¬ i.Pending true)) :=
  ⟨snapshotUpdate_announced hrun hfit past hpeer,
    connectHandler_announced hrun hfit past pb peer hname⟩

omit hrun hfit

/-- An instance with one object, whose only variable was set to `7`. -/
def changedInstance (name : Bytes) (netID : UInt32) : VirtualInstance where
  name := name
  managers := [{
    name := [112], name_le := CEntities.p_le, cls := .bare
    objects := [{
      ref := 0, netID := netID, controller := netControllerLocal
      vars := [{ name := CStr.hp, reliable := true, size := 1, size_lt := NetVar.byte_lt,
                 base := { data := Blob.byte 7 } }] }] }]

/-- A server with two instances, each with a changed variable. -/
def twoInstances : NetSystem where
  server := true
  instances := [changedInstance [119] 0, changedInstance [120] 1]

theorem twoInstances_fit : ∀ i ∈ twoInstances.instances, i.VarNamesFit := by
  simp [twoInstances, VirtualInstance.VarNamesFit, changedInstance, maxEntvarName, CStr.hp]

theorem loops_announce_last_two :
    (twoInstances.pendingCount false < 65536 →
      (Announced Mem.zero false twoInstances twoInstances.snapshotUpdate.2 ↔
        ∀ i ∈ twoInstances.instances.dropLast, ¬ i.Pending false)) ∧
    (twoInstances.pendingCount true < 65536 →
      (Announced Mem.zero true twoInstances (twoInstances.connectHandler Protobuf.wire 1).2 ↔
        ∀ i ∈ twoInstances.instances.dropLast, ¬ i.Pending true)) :=
  loops_announce_last rfl twoInstances_fit Mem.zero Protobuf.wire 1 (Or.inl rfl) (by decide)

/-- The second packet of a tick over two changed instances is rejected. -/
theorem twoInstances_not_announced : twoInstances.running = true ∧ twoInstances.server = true ∧
    twoInstances.pendingCount false < 65536 ∧
    ¬ Announced Mem.zero false twoInstances twoInstances.snapshotUpdate.2 := by
  have hcount : twoInstances.pendingCount false < 65536 := by decide
  refine ⟨rfl, rfl, hcount, fun h => ?_⟩
  have hquiet := (snapshotUpdate_announced rfl twoInstances_fit Mem.zero (Or.inl rfl) hcount).mp h
  exact hquiet (changedInstance [119] 0) (by simp [twoInstances])
    (by simp [VirtualInstance.Pending, changedInstance, NetObject.isNetworkLocal])

end NetSystem

end Nettik
