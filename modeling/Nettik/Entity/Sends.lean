import Nettik.Entity.Packets
import Nettik.World.Join

/-!
# What the server says about objects

* `Says`: packets that aware clients process, and their news together;
* `says_announcement`, `says_data`, `says_creations`, `says_join`: the news of what the server sends;
* `build_none`, `build_some`, `freeEntity_eq`: the packets of a `Build` and of a release;
* `Told`: the news a peer is sent, channel by channel; **`told_build`**: those of a `Build`.
-/

namespace Nettik

open ByteMem Loops

variable {pb : Protobuf} {instanceName : Bytes} {names : List Bytes}

/-! ## News of several packets -/

structure Says (pb : Protobuf) (instanceName : Bytes) (names : List Bytes) (packets : List Bytes)
    (es : List EntityMsg) : Prop where
  carries : ∀ b ∈ packets, Carries pb instanceName names b
  news : packets.flatMap newsOf = es

theorem Says.nil : Says pb instanceName names [] [] := ⟨by simp, rfl⟩

theorem Says.append {ps ps' : List Bytes} {es es' : List EntityMsg}
    (h : Says pb instanceName names ps es) (h' : Says pb instanceName names ps' es') :
    Says pb instanceName names (ps ++ ps') (es ++ es') := by
  constructor
  · intro b hb
    exact (List.mem_append.mp hb).elim (h.carries b) (h'.carries b)
  · rw [List.flatMap_append, h.news, h'.news]

theorem Says.singleton {b : Bytes} {es : List EntityMsg} (h : Carries pb instanceName names b)
    (hes : newsOf b = es) : Says pb instanceName names [b] es :=
  ⟨by simpa using h, by simpa using hes⟩

theorem Says.flatMap {β : Type} {l : List β} {f : β → List Bytes} {g : β → List EntityMsg}
    (h : ∀ a ∈ l, Says pb instanceName names (f a) (g a)) :
    Says pb instanceName names (l.flatMap f) (l.flatMap g) := by
  induction l with
  | nil => exact Says.nil
  | cons a l ih =>
    rw [List.flatMap_cons, List.flatMap_cons]
    exact (h a List.mem_cons_self).append (ih fun b hb => h b (List.mem_cons_of_mem _ hb))

/-- **Aware clients process the packets in order.** -/
theorem receive_all {packets : List Bytes} (h : ∀ b ∈ packets, Carries pb instanceName names b)
    (past : Bytes → Mem) (server : Peer) {c : NetSystem} (hc : Aware instanceName names c) :
    ∃ c', throughout (fun b c => c.receive pb (past b) server b) packets c = (.ok (), c') ∧
      Aware instanceName names c' ∧ rosterOf instanceName c' =
        (packets.flatMap newsOf).foldl Roster.apply (rosterOf instanceName c) := by
  induction packets generalizing c with
  | nil => exact ⟨c, rfl, hc, rfl⟩
  | cons b packets ih =>
    obtain ⟨c₁, h₁, hc₁, hroster₁⟩ := h b List.mem_cons_self (past b) server c hc
    obtain ⟨c', h', hc', hroster⟩ := ih (fun b' hb' => h b' (List.mem_cons_of_mem _ hb')) hc₁
    refine ⟨c', ?_, hc', ?_⟩
    · rw [throughout, h₁]
      exact h'
    · rw [hroster, hroster₁, List.flatMap_cons, List.foldl_append]

/-! ## Kinds of packets -/

/-- The packets of a stream that holds `fs`; nothing is sent when it is empty. -/
def streamPackets (sequence : UInt32) (fs : List Frame) : List Bytes :=
  if fs.isEmpty then [] else [snapshotPacket sequence fs]

theorem says_stream (hnul : (0 : UInt8) ∉ instanceName) (sequence : UInt32) {fs : List Frame}
    (hfit : ∀ f ∈ fs, f.Fits) (hfs : ∀ f ∈ fs, f.Proper instanceName names) :
    Says pb instanceName names (streamPackets sequence fs) (legible fs) := by
  cases fs with
  | nil => exact Says.nil
  | cons f fs =>
    obtain ⟨hcarries, hnews⟩ := carries_snapshot hnul sequence (List.cons_ne_nil f fs) hfit hfs
    exact Says.singleton hcarries hnews

/-- Data says nothing about objects. -/
theorem proper_emitted {r bForced : Bool} {i : VirtualInstance} :
    ∀ f ∈ i.emitted r bForced, f.Proper instanceName names := by
  intro f hf
  obtain ⟨m, -, o, -, -, v, -, -, -, rfl⟩ := VirtualInstance.mem_emitted.mp hf
  exact Or.inl rfl

theorem news_emitted (r bForced : Bool) (i : VirtualInstance) :
    (i.emitted r bForced).filterMap Frame.news = [] := by
  rw [List.filterMap_eq_nil_iff]
  intro f hf
  obtain ⟨m, -, o, -, -, v, -, -, -, rfl⟩ := VirtualInstance.mem_emitted.mp hf
  rfl

theorem says_data (hnul : (0 : UInt8) ∉ instanceName) (sequence : UInt32) (r bForced : Bool)
    {i : VirtualInstance} (hfit : i.VarNamesFit) :
    Says pb instanceName names (streamPackets sequence (i.emitted r bForced)) [] := by
  have h : Says pb instanceName names (streamPackets sequence (i.emitted r bForced))
      (legible (i.emitted r bForced)) := says_stream hnul sequence hfit.fits proper_emitted
  rwa [legible, news_emitted, ite_self] at h

theorem EntityMsg.fits {e : EntityMsg} (h : Named instanceName e.managerName) :
    (e.frame instanceName).Fits := by
  cases e with
  | alloc n netID controller => exact allocFrame_fits h netID controller
  | dealloc n netID =>
    have hfit := allocFrame_fits h netID netControllerNone
    exact ⟨hfit.name_nul, hfit.name_lt, hfit.data_le⟩

/-- A message, with the changes that travel with it. -/
theorem says_announcement {e : EntityMsg} (he : e.managerName ∈ names)
    (hnamed : Named instanceName e.managerName) (sequence : UInt32) {i : VirtualInstance}
    (hfit : i.VarNamesFit) : Says pb instanceName names
      (streamPackets sequence (e.frame instanceName :: i.emitted true false))
      (if (i.emitted true false).length < 65535 then [e] else []) := by
  have hfits : ∀ f ∈ e.frame instanceName :: i.emitted true false, f.Fits := by
    intro f hf
    rcases List.mem_cons.mp hf with rfl | hf
    · exact EntityMsg.fits hnamed
    · exact hfit.fits f hf
  have hproper : ∀ f ∈ e.frame instanceName :: i.emitted true false, f.Proper instanceName names := by
    intro f hf
    rcases List.mem_cons.mp hf with rfl | hf
    · exact Or.inr ⟨e, he, rfl⟩
    · exact proper_emitted f hf
  have h : Says pb instanceName names _ _ := says_stream hnamed.instance_nul sequence hfits hproper
  have hnews : (e.frame instanceName).news = some e := e.news_frame instanceName
  rw [legible, List.filterMap_cons_some hnews, news_emitted, List.length_cons] at h
  convert h using 2
  omega

/-- A packet of one frame. -/
theorem says_single {e : EntityMsg} (he : e.managerName ∈ names)
    (hnamed : Named instanceName e.managerName) :
    Says pb instanceName names [packetOf 0 [e.frame instanceName]] [e] := by
  have hfits : ∀ f ∈ [e.frame instanceName], f.Fits := by
    intro f hf
    rw [List.mem_singleton.mp hf]
    exact EntityMsg.fits hnamed
  have hproper : ∀ f ∈ [e.frame instanceName], f.Proper instanceName names := by
    intro f hf
    rw [List.mem_singleton.mp hf]
    exact Or.inr ⟨e, he, rfl⟩
  have h : Says pb instanceName names _ _ := says_stream hnamed.instance_nul 0 hfits hproper
  have hnews : (e.frame instanceName).news = some e := e.news_frame instanceName
  rwa [legible, if_pos (by simp), List.filterMap_cons_some hnews, List.filterMap_nil] at h

theorem says_creation {peer : Peer} {n : Bytes} (hn : n ∈ names) (hnamed : Named instanceName n)
    (o : NetObject) : Says pb instanceName names [packetOf 0 [creation instanceName peer n o]]
      [.alloc n o.netID (if o.peer = some peer then netControllerLocal else netControllerNone)] :=
  says_single (e := .alloc n o.netID _) hn hnamed

/-- The contents of the lists. -/
theorem says_lists (object : AssociatedObject) (lists : List NetVarList) : Says pb instanceName names
    ((listMessages object lists).map fun m => (ListMsg.add m).packet pb) [] := by
  constructor
  · intro b hb
    obtain ⟨m, -, rfl⟩ := List.mem_map.mp hb
    exact carries_add m
  · rw [List.flatMap_map, List.flatMap_eq_nil_iff]
    intro m _
    exact newsOf_add m

theorem says_objectPackets {peer : Peer} {n : Bytes} (hn : n ∈ names) (hnamed : Named instanceName n)
    (o : NetObject) : Says pb instanceName names (objectPackets pb instanceName peer n o)
      [.alloc n o.netID (if o.peer = some peer then netControllerLocal else netControllerNone)] :=
  (says_creation hn hnamed o).append (says_lists _ o.lists)

/-! ## What `Build` and `FreeEntity` send -/

/-- The sends that reach a peer. -/
def sentTo (peer : Peer) (sends : List Send) : List Send :=
  sends.filter fun x => x.target == none || x.target == some peer

/-- A broadcast on channel `0`. -/
def toAll (reliable : Bool) (packet : Bytes) : Send := ⟨0, none, reliable, packet⟩

theorem broadcast_stream {s : NetSystem} (hrun : s.running = true) (r bForced reliable : Bool)
    (i : VirtualInstance) (fs : List Frame) :
    (if (i.doSnapshot true r bForced (written fs)).2.modified then
      (s.broadcastStream (i.doSnapshot true r bForced (written fs)).2 reliable).2 else []) =
      (streamPackets i.sequenceID (fs ++ i.emitted r bForced)).map (toAll reliable) := by
  obtain ⟨hmod, hres⟩ := result_doSnapshot r bForced i fs
  rw [NetSystem.broadcastStream, NetSystem.broadcast, if_pos hrun, hmod, hres, streamPackets]
  cases fs ++ i.emitted r bForced <;> rfl

theorem send_stream {s : NetSystem} (hrun : s.running = true) (r bForced : Bool) (peer : Peer)
    (i : VirtualInstance) :
    (if (i.doSnapshot true r bForced {}).2.modified then
      (s.sendStream (i.doSnapshot true r bForced {}).2 true (some peer)).2 else []) =
      (streamPackets i.sequenceID (i.emitted r bForced)).map (reliably peer) := by
  obtain ⟨hmod, hres⟩ := result_doSnapshot r bForced i []
  have hwritten : written [] = {} := rfl
  rw [hwritten, List.nil_append] at hmod hres
  rw [sendStream_some peer hrun, hmod, hres, streamPackets]
  cases i.emitted r bForced <;> rfl

/-- The instance when `Build` has broadcast the changes made so far. -/
def VirtualInstance.flushed (i : VirtualInstance) : VirtualInstance :=
  (i.snapped true false).snapped false false

/-- A new object of the manager `m`. -/
def NetSystem.newObject (s : NetSystem) (m : CEntities) (owner : Option Peer) : NetObject where
  ref := s.nextRef
  netID := s.totalEntities
  controller := netControllerLocal
  peer := owner
  vars := m.cls.vars
  lists := m.cls.lists

/-- The manager `m` with its new object. -/
def NetSystem.extendedManager (s : NetSystem) (m : CEntities) (owner : Option Peer) : CEntities :=
  let m' := (m.snapped true false).snapped false false
  { m' with objects := m'.objects ++ [s.newObject m owner] }

/-- The instance with the new object. -/
def NetSystem.extendedInstance (s : NetSystem) (i : VirtualInstance) (m : CEntities) (owner : Option Peer) :
    VirtualInstance :=
  i.flushed.modifyManager m.name fun m' => { m' with objects := m'.objects ++ [s.newObject m owner] }

/-- The broadcasts of `Build`: the creation with the reliable changes, then the other changes. -/
def NetSystem.broadcasts (s : NetSystem) (i : VirtualInstance) (managerName : Bytes) : List Send :=
  (streamPackets i.sequenceID (allocFrame i.name managerName s.totalEntities netControllerNone ::
    i.emitted true false)).map (toAll true) ++
  (streamPackets i.sequenceID (i.emitted false false)).map (toAll false)

/-- `Build` on a running server that has the instance and the manager. -/
structure Builds (s : NetSystem) (i : VirtualInstance) (m : CEntities) : Prop where
  server : s.server = true
  running : s.running = true
  instance_eq : s.getInstance i.name = some i
  manager_eq : i.getManager m.name = some m

variable {s : NetSystem} {i : VirtualInstance} {m : CEntities}

/-- The stream of the new object before the snapshot. -/
theorem push_creation (s : NetSystem) (instanceName managerName : Bytes) :
    ({} : SnapshotStream).push (((NetSystem.creationUpdate instanceName managerName).setNetid
      s.totalEntities).setController netControllerNone).write =
        written [allocFrame instanceName managerName s.totalEntities netControllerNone] := rfl

theorem broadcasts_eq (hrun : s.running = true) (managerName : Bytes) :
    (if (i.doSnapshot true true false
        (written [allocFrame i.name managerName s.totalEntities netControllerNone])).2.modified then
      (s.broadcastStream (i.doSnapshot true true false
        (written [allocFrame i.name managerName s.totalEntities netControllerNone])).2 true).2 else []) ++
    (if ((i.snapped true false).doSnapshot true false false {}).2.modified then
      (s.broadcastStream ((i.snapped true false).doSnapshot true false false {}).2 false).2 else []) =
    s.broadcasts i managerName := by
  have hdata := broadcast_stream hrun false false false (i.snapped true false) []
  rw [List.nil_append, VirtualInstance.emitted_snapped (by decide)] at hdata
  rw [broadcast_stream hrun true false true i]
  exact congrArg _ hdata

theorem build_none (h : Builds s i m) : s.build pb i.name m.name none =
    ({ s with
        totalEntities := s.totalEntities + 1
        nextRef := s.nextRef + 1
        instances := modifyFirst (·.name == i.name) (fun _ => s.extendedInstance i m none) s.instances },
      s.broadcasts i m.name) := by
  rw [← broadcasts_eq h.running, NetSystem.build, h.instance_eq]
  simp only [h.manager_eq, h.server, if_true, h.running, push_creation, VirtualInstance.fst_doSnapshot]
  rfl

/-- The packets for the owner of a new object: the objects of its manager and their lists. -/
def NetSystem.objectSends (pb : Protobuf) (s : NetSystem) (i : VirtualInstance) (m : CEntities)
    (owner : Peer) : List Send :=
  ((s.extendedManager m (some owner)).objects.flatMap (objectPackets pb i.name owner m.name)).map
    (reliably owner)

/-- Every variable of an instance, for one peer. -/
def VirtualInstance.fullSends (i : VirtualInstance) (peer : Peer) : List Send :=
  (streamPackets i.sequenceID (i.emitted true true) ++
    streamPackets i.sequenceID (i.emitted false true)).map (reliably peer)

theorem CEntities.roll_snapped (r bForced : Bool) (m : CEntities) : (m.snapped r bForced).roll = m.roll := by
  rw [roll, roll, snapped, List.map_map]
  apply List.map_congr_left
  intro o _
  rw [Function.comp_apply, NetObject.snapped]
  split_ifs <;> rfl

theorem roll_extendedManager (s : NetSystem) (m : CEntities) (owner : Option Peer) :
    (s.extendedManager m owner).roll = m.roll ++ [(s.totalEntities, netControllerLocal)] := by
  have hroll : (s.extendedManager m owner).roll =
      ((m.snapped true false).snapped false false).roll ++ [(s.totalEntities, netControllerLocal)] :=
    List.map_append
  rw [hroll, CEntities.roll_snapped, CEntities.roll_snapped]

theorem getManager_snapped (r bForced : Bool) (i : VirtualInstance) (n : Bytes) :
    (i.snapped r bForced).getManager n = (i.getManager n).map (CEntities.snapped r bForced) :=
  List.find?_map

theorem getManager_flushed (h : i.getManager m.name = some m) :
    i.flushed.getManager m.name = some ((m.snapped true false).snapped false false) := by
  rw [VirtualInstance.flushed, getManager_snapped, getManager_snapped, h]
  rfl

theorem getManager_extendedInstance (h : i.getManager m.name = some m) (owner : Option Peer) :
    (s.extendedInstance i m owner).getManager m.name = some (s.extendedManager m owner) := by
  have hflushed := getManager_flushed h
  rw [NetSystem.extendedInstance, VirtualInstance.getManager, VirtualInstance.modifyManager]
  rw [VirtualInstance.getManager] at hflushed
  rw [find?_modifyFirst_self (fun _ => by rfl), hflushed]
  rfl

theorem build_some (h : Builds s i m) (owner : Peer) : s.build pb i.name m.name (some owner) =
    ({ s with
        totalEntities := s.totalEntities + 1
        nextRef := s.nextRef + 1
        instances := modifyFirst (·.name == i.name) (fun _ =>
          ((s.extendedInstance i m (some owner)).snapped true true).snapped false true) s.instances },
      s.objectSends pb i m owner ++
        (s.broadcasts i m.name ++ (s.extendedInstance i m (some owner)).fullSends owner)) := by
  have hget : (((i.snapped true false).snapped false false).modifyManager m.name fun m' =>
      { m' with objects := m'.objects ++ [s.newObject m (some owner)] }).getManager m.name =
        some (s.extendedManager m (some owner)) := getManager_extendedInstance h.manager_eq (some owner)
  have hlists : NetSystem.sendObjectLists pb s i.name (s.extendedManager m (some owner)) owner =
      s.objectSends pb i m owner := sendObjectLists_eq pb i.name owner h.running _
  have hfull : (s.extendedInstance i m (some owner)).fullSends owner = _ ++ _ := List.map_append
  rw [← send_stream h.running true true owner] at hfull
  have hother := send_stream h.running false true owner
    ((s.extendedInstance i m (some owner)).snapped true true)
  rw [VirtualInstance.emitted_snapped (by decide)] at hother
  have hsequence : ((s.extendedInstance i m (some owner)).snapped true true).sequenceID =
    (s.extendedInstance i m (some owner)).sequenceID := rfl
  rw [hsequence] at hother
  rw [← hother] at hfull
  rw [hfull, ← hlists, ← broadcasts_eq h.running, NetSystem.build, h.instance_eq]
  simp only [h.manager_eq, h.server, if_true, h.running, push_creation, VirtualInstance.fst_doSnapshot]
  simp only [NetSystem.newObject] at hget
  simp only [hget]
  rfl

theorem freeEntity_eq (hserver : s.server = true) (hrun : s.running = true) (managerName : Bytes)
    (o : NetObject) : s.freeEntity instanceName managerName o =
      [toAll true (packetOf 0 [deallocFrame instanceName managerName o.netID])] := by
  have hsingle := single_build (deallocFrame instanceName managerName o.netID)
  simp only [NetSystem.freeEntity, if_pos hserver, NetSystem.broadcastStream, NetSystem.broadcast,
    if_pos hrun, toAll, ← hsingle]
  rfl

/-! ## The news of a `Build` -/

/-- Names that travel. -/
structure Buildable (s : NetSystem) (i : VirtualInstance) (m : CEntities) : Prop extends
    Builds s i m where
  named : Named i.name m.name
  varNames : i.VarNamesFit
  classNames : ∀ v ∈ m.cls.vars, v.name.1.length < maxEntvarName

theorem NetVar.name_snapped (r bForced : Bool) (v : NetVar) : (v.snapped r bForced).name = v.name := by
  unfold NetVar.snapped
  split_ifs <;> rfl

theorem CEntities.varNames_snapped {m : CEntities}
    (h : ∀ o ∈ m.objects, ∀ v ∈ o.vars, v.name.1.length < maxEntvarName) (r bForced : Bool) :
    ∀ o ∈ (m.snapped r bForced).objects, ∀ v ∈ o.vars, v.name.1.length < maxEntvarName := by
  intro o' ho' v' hv'
  obtain ⟨o, ho, rfl⟩ := List.mem_map.mp ho'
  rw [NetObject.snapped] at hv'
  split_ifs at hv'
  · obtain ⟨v, hv, rfl⟩ := List.mem_map.mp hv'
    rw [NetVar.name_snapped]
    exact h o ho v hv
  · exact h o ho v' hv'

theorem VirtualInstance.VarNamesFit.snapped (h : i.VarNamesFit) (r bForced : Bool) :
    (i.snapped r bForced).VarNamesFit := by
  intro m' hm'
  obtain ⟨m, hm, rfl⟩ := List.mem_map.mp hm'
  exact CEntities.varNames_snapped (h m hm) r bForced

theorem Buildable.extended (h : Buildable s i m) (owner : Option Peer) :
    (s.extendedInstance i m owner).VarNamesFit := by
  have hflushed : i.flushed.VarNamesFit := (h.varNames.snapped true false).snapped false false
  intro m' hm' o ho v hv
  rcases mem_modifyFirst hm' with hm' | ⟨m₁, hm₁, rfl⟩
  · exact hflushed m' hm' o ho v hv
  · rcases List.mem_append.mp ho with ho | ho
    · exact hflushed m₁ (List.mem_of_find?_eq_some hm₁) o ho v hv
    · rw [List.mem_singleton.mp ho] at hv
      exact h.classNames v hv

theorem Buildable.says_full (h : Buildable s i m) (owner : Peer) : Says pb i.name names
    (streamPackets (s.extendedInstance i m (some owner)).sequenceID
        ((s.extendedInstance i m (some owner)).emitted true true) ++
      streamPackets (s.extendedInstance i m (some owner)).sequenceID
        ((s.extendedInstance i m (some owner)).emitted false true)) [] := by
  have hfit := h.extended (some owner)
  exact (says_data h.named.instance_nul _ true true hfit).append
    (says_data h.named.instance_nul _ false true hfit)

/-- What `SendObjectLists` says of the objects of a manager. -/
def creations (peer : Peer) (managerName : Bytes) (objects : List NetObject) : List EntityMsg :=
  objects.map fun o => .alloc managerName o.netID
    (if o.peer = some peer then netControllerLocal else netControllerNone)

theorem says_creations {n : Bytes} (hn : n ∈ names) (hnamed : Named instanceName n) (peer : Peer)
    (objects : List NetObject) : Says pb instanceName names
      (objects.flatMap (objectPackets pb instanceName peer n)) (creations peer n objects) := by
  rw [creations, List.map_eq_flatMap]
  exact Says.flatMap fun o _ => says_objectPackets hn hnamed o

/-! ## The news of a join -/

theorem packetsOf_eq (r bForced : Bool) (i : VirtualInstance) :
    packetsOf r bForced [i] {} = streamPackets i.sequenceID (i.emitted r bForced) := by
  obtain ⟨hmod, hres⟩ := result_doSnapshot r bForced i []
  have hwritten : written [] = {} := rfl
  rw [hwritten, List.nil_append] at hmod hres
  rw [packetsOf, hmod, hres, streamPackets]
  cases i.emitted r bForced <;> rfl

theorem says_join (hfit : i.VarNamesFit)
    (hnamed : ∀ m ∈ i.managers, m.name ∈ names ∧ Named i.name m.name) (peer : Peer) :
    Says pb i.name names (joinPackets pb peer i)
      (i.managers.flatMap fun m => creations peer m.name m.objects) := by
  have hobjects : Says pb i.name names
      (i.managers.flatMap fun m => m.objects.flatMap (objectPackets pb i.name peer m.name))
      (i.managers.flatMap fun m => creations peer m.name m.objects) :=
    Says.flatMap fun m hm => says_creations (hnamed m hm).1 (hnamed m hm).2 peer m.objects
  have hdata : ∀ r, Says pb i.name names (streamPackets i.sequenceID (i.emitted r true)) [] := by
    intro r
    cases hm : i.managers with
    | nil =>
      rw [VirtualInstance.emitted, hm]
      exact Says.nil
    | cons m ms =>
      have hmem : m ∈ i.managers := by
        rw [hm]
        exact List.mem_cons_self
      exact says_data (hnamed m hmem).2.instance_nul i.sequenceID r true hfit
  rw [joinPackets, packetsOf_eq, packetsOf_eq]
  simpa using hobjects.append ((hdata true).append (hdata false))

/-! ## Where the sends go -/

/-- What reaches a peer on one channel. -/
def queued (peer : Peer) (channel : ℕ) (sends : List Send) : List Bytes :=
  ((sentTo peer sends).filter (·.channel == channel)).map Send.packet

theorem queued_append (peer : Peer) (channel : ℕ) (xs ys : List Send) :
    queued peer channel (xs ++ ys) = queued peer channel xs ++ queued peer channel ys := by
  simp [queued, sentTo]

theorem queued_toAll (peer : Peer) (channel : ℕ) (reliable : Bool) (packets : List Bytes) :
    queued peer channel (packets.map (toAll reliable)) = if channel = 0 then packets else [] := by
  induction packets with
  | nil => simp [queued, sentTo]
  | cons b packets ih =>
    rw [← List.singleton_append, List.map_append, queued_append, ih]
    by_cases h : channel = 0
    · simp [h, queued, sentTo, toAll]
    · simp [h, Ne.symm h, queued, sentTo, toAll]

theorem queued_reliably (peer target : Peer) (channel : ℕ) (packets : List Bytes) :
    queued peer channel (packets.map (reliably target)) =
      if target = peer ∧ channel = 1 then packets else [] := by
  induction packets with
  | nil => simp [queued, sentTo]
  | cons b packets ih =>
    rw [← List.singleton_append, List.map_append, queued_append, ih]
    by_cases ht : target = peer
    · by_cases h : channel = 1
      · simp [ht, h, queued, sentTo, reliably]
      · simp [ht, h, Ne.symm h, queued, sentTo, reliably]
    · simp [ht, queued, sentTo, reliably]

/-- The news that reach a peer on channel `0` and on channel `1`. -/
structure Told (pb : Protobuf) (instanceName : Bytes) (names : List Bytes) (peer : Peer)
    (sends : List Send) (fast slow : List EntityMsg) : Prop where
  fast : Says pb instanceName names (queued peer 0 sends) fast
  slow : Says pb instanceName names (queued peer 1 sends) slow
  rest : ∀ channel, 1 < channel → queued peer channel sends = []

variable {peer target : Peer} {sends sends' : List Send} {packets : List Bytes}
  {fast fast' slow slow' es : List EntityMsg}

theorem Told.nil (peer : Peer) : Told pb instanceName names peer [] [] [] :=
  ⟨Says.nil, Says.nil, fun _ _ => rfl⟩

theorem Told.append (h : Told pb instanceName names peer sends fast slow)
    (h' : Told pb instanceName names peer sends' fast' slow') :
    Told pb instanceName names peer (sends ++ sends') (fast ++ fast') (slow ++ slow') := by
  constructor
  · rw [queued_append]
    exact h.fast.append h'.fast
  · rw [queued_append]
    exact h.slow.append h'.slow
  · intro channel hchannel
    rw [queued_append, h.rest channel hchannel, h'.rest channel hchannel, List.nil_append]

theorem Told.toAll (h : Says pb instanceName names packets es) (peer : Peer) (reliable : Bool) :
    Told pb instanceName names peer (packets.map (toAll reliable)) es [] := by
  constructor
  · rwa [queued_toAll, if_pos rfl]
  · rw [queued_toAll, if_neg (by decide)]
    exact Says.nil
  · intro channel hchannel
    rw [queued_toAll, if_neg (by omega)]

theorem Told.reliably (h : Says pb instanceName names packets es) (peer target : Peer) :
    Told pb instanceName names peer (packets.map (reliably target)) []
      (if target = peer then es else []) := by
  constructor
  · rw [queued_reliably, if_neg (fun e => absurd e.2 (by decide))]
    exact Says.nil
  · rw [queued_reliably]
    by_cases ht : target = peer
    · rwa [if_pos ⟨ht, rfl⟩, if_pos ht]
    · rw [if_neg (fun e => ht e.1), if_neg ht]
      exact Says.nil
  · intro channel hchannel
    rw [queued_reliably, if_neg (by omega)]


/-- **What a `Build` tells a peer.** -/
theorem told_build (h : Buildable s i m) (hn : m.name ∈ names) (pOwner : Option Peer) (peer : Peer) :
    Told pb i.name names peer (s.build pb i.name m.name pOwner).2
      (if (i.emitted true false).length < 65535 then [.alloc m.name s.totalEntities netControllerNone]
        else [])
      (if pOwner = some peer then creations peer m.name (s.extendedManager m pOwner).objects else []) := by
  have hcreate : Says pb i.name names (streamPackets i.sequenceID
      ((EntityMsg.alloc m.name s.totalEntities netControllerNone).frame i.name :: i.emitted true false)) _ :=
    says_announcement hn h.named i.sequenceID h.varNames
  have hdata : Says pb i.name names (streamPackets i.sequenceID (i.emitted false false)) [] :=
    says_data h.named.instance_nul i.sequenceID false false h.varNames
  have hbroadcasts : Told pb i.name names peer (s.broadcasts i m.name) _ _ :=
    (Told.toAll hcreate peer true).append (Told.toAll hdata peer false)
  rw [List.append_nil] at hbroadcasts
  cases pOwner with
  | none =>
    rw [build_none h.toBuilds]
    simpa using hbroadcasts
  | some owner =>
    have hobjects : Told pb i.name names peer (s.objectSends pb i m owner) _ _ :=
      Told.reliably (says_creations hn h.named owner _) peer owner
    have hfull : Told pb i.name names peer ((s.extendedInstance i m (some owner)).fullSends owner) [] _ :=
      Told.reliably (h.says_full owner) peer owner
    have hall := hobjects.append (hbroadcasts.append hfull)
    rw [build_some h.toBuilds]
    by_cases ho : owner = peer <;> simpa [ho] using hall

end Nettik
