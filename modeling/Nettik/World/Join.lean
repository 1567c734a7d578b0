import Nettik.World.Mirror

/-!
# Joining

* `Settled`, `Newcomer`: the server and the client before the join;
* `mirrors_object`: the packets of one object;
* **`join_complete`**: a newcomer that processes what the connect handler sends it holds the
  server's objects, variables and lists.
-/

namespace Nettik

open ByteMem Loops

/-! ## What the handler sends -/

theorem single_build (f : Frame) : (SnapshotStream.single f.build.write).result.1 = packetOf 0 [f] := by
  rw [packetOf, written_build]
  simp [SnapshotStream.single, SnapshotStream.push, SnapshotStream.longest]

variable (pb : Protobuf) (instanceName : Bytes) (peer : Peer)

/-- What the handler tells a peer of an object. -/
def creation (managerName : Bytes) (o : NetObject) : Frame :=
  allocFrame instanceName managerName o.netID
    (if o.peer = some peer then netControllerLocal else netControllerNone)

def objectPackets (managerName : Bytes) (o : NetObject) : List Bytes :=
  packetOf 0 [creation instanceName peer managerName o] ::
    (listMessages ⟨instanceName, managerName, o.netID⟩ o.lists).map fun m =>
      (ListMsg.add m).packet pb

/-- The reliable sends to one peer. -/
def reliably (packet : Bytes) : Send := ⟨1, some peer, true, packet⟩

theorem sendStream_some {s : NetSystem} (hrun : s.running = true) (stream : SnapshotStream) :
    s.sendStream stream true (some peer) = (stream.result.2, [reliably peer stream.result.1]) := by
  simp [NetSystem.sendStream, NetSystem.send, hrun, reliably]

theorem sendObjectLists_eq {s : NetSystem} (hrun : s.running = true) (m : CEntities) :
    NetSystem.sendObjectLists pb s instanceName m peer =
      (m.objects.flatMap (objectPackets pb instanceName peer m.name)).map (reliably peer) := by
  rw [NetSystem.sendObjectLists, List.map_flatMap]
  refine List.flatMap_congr fun o _ => ?_
  have hmsgs : ∀ l : List MapAdd, (l.flatMap fun msg => s.send ((ListMsg.add msg).packet pb)
      (some peer) true 1) = l.map fun msg => reliably peer ((ListMsg.add msg).packet pb) := by
    intro l
    simp only [NetSystem.send, hrun, if_true]
    exact (List.map_eq_flatMap ..).symm
  simp only [objectPackets, creationUpdate_eq, sendStream_some peer hrun, NetSystem.sendLists, hmsgs,
    listMessages, List.map_cons, List.map_map, List.map_flatMap, single_build]
  rfl

/-- The packets of a join on a server with one instance. -/
def joinPackets (i : VirtualInstance) : List Bytes :=
  (i.managers.flatMap fun m => m.objects.flatMap (objectPackets pb i.name peer m.name)) ++
    (packetsOf true true [i] {} ++ packetsOf false true [i] {})

theorem connectHandler_sends {s : NetSystem} (hrun : s.running = true) {i : VirtualInstance}
    (hs : s.instances = [i]) :
    (s.connectHandler pb peer).2 = (joinPackets pb peer i).map (reliably peer) := by
  have hlists : NetSystem.sendAllObjectLists pb s i peer = (i.managers.flatMap fun m =>
      m.objects.flatMap (objectPackets pb i.name peer m.name)).map (reliably peer) := by
    rw [NetSystem.sendAllObjectLists, List.map_flatMap]
    exact List.flatMap_congr fun m _ => sendObjectLists_eq pb i.name peer hrun m
  simp only [NetSystem.connectHandler, NetSystem.visitInstances, hs, hrun, each,
    NetSystem.visitInstance, hlists, VirtualInstance.fst_doSnapshot,
    doSnapshot_snapped, sendStream_some peer hrun, joinPackets,
    packetsOf]
  split_ifs <;> simp

/-! ## One object -/

section

variable {pb instanceName peer} {cms : List CEntities} {objs : Bytes → List NetObject} {c : NetSystem}

/-- The lists of an object that holds everything. -/
abbrev SameLists (o : NetObject) (ls : List NetVarList) : Prop := List.Forall₂ SameList o.lists ls

/-- The lists while the object `id` has received the messages `ms`. -/
def Receiving (id : UInt32) (ms : List MapAdd) (o : NetObject) (ls : List NetVarList) : Prop :=
  if o.netID = id then ∃ ls₀, List.Forall₂ EmptyOf o.lists ls₀ ∧
    ls = ms.foldl (fun ls m => ls.modify m.listID.toNat (·.added m)) ls₀
  else SameLists o ls

theorem Copy.mono {RV : NetObject → NetVar → NetVar → Prop} {RL RL' : NetObject → List NetVarList → Prop}
    {o o' : NetObject} (h : Copy peer RV RL o o') (hl : RL' o o'.lists) : Copy peer RV RL' o o' :=
  ⟨h.netID, h.controller, h.peer, h.vars, hl⟩

theorem mirrors_messages (hpb : pb.RoundTrips) (past : Bytes → Mem) (server : Peer)
    (hcms : (cms.map CEntities.name).Nodup) (hd : DistinctBy objs) {managerName : Bytes}
    {o : NetObject} (ho : o ∈ objs managerName) (ms : List MapAdd)
    (hms : ∀ m ∈ ms, m.target = ⟨instanceName, managerName, o.netID⟩) (done : List MapAdd)
    (h : Mirrors instanceName cms (Copy peer (Tracks []) (Receiving o.netID done)) objs c) :
    ∃ c', throughout (fun b c => c.receive pb (past b) server b)
        (ms.map fun m => (ListMsg.add m).packet pb) c = (.ok (), c') ∧
      Mirrors instanceName cms (Copy peer (Tracks []) (Receiving o.netID (done ++ ms))) objs c' := by
  induction ms generalizing done c with
  | nil => exact ⟨c, rfl, by simpa using h⟩
  | cons m ms ih =>
    have ht := hms m List.mem_cons_self
    have hstep : Mirrors instanceName cms
        (Copy peer (Tracks []) (Receiving o.netID (done ++ [m]))) objs (c.onRemoteAdd m) := by
      refine mirrors_add h hcms (fun _ _ hr => hr.netID) (fun _ _ hr => hr.peer) hd (by rw [ht]) ?_ ?_ ?_
      · intro n hn a ha
        rw [ht] at hn ⊢
        exact hd.across n managerName hn a ha o ho
      · intro a a' hr hid
        have hl := hr.lists
        rw [ht] at hid
        rw [Receiving, if_pos hid] at hl
        obtain ⟨ls₀, h₀, hl⟩ := hl
        refine ⟨hr.netID, hr.controller, hr.peer, hr.vars, ?_⟩
        rw [Receiving, if_pos hid]
        refine ⟨ls₀, h₀, ?_⟩
        rw [List.foldl_append, ← hl]
        rfl
      · intro a a' hr hid
        have hl := hr.lists
        rw [ht] at hid
        rw [Receiving, if_neg hid] at hl
        exact hr.mono (by rw [Receiving, if_neg hid]; exact hl)
    obtain ⟨c', hc', hm⟩ := ih (fun m' hm' => hms m' (List.mem_cons_of_mem _ hm')) _ hstep
    refine ⟨c', ?_, by simpa using hm⟩
    rw [List.map_cons, throughout, receive_add hpb _ _ h.running h.callbacks]
    exact hc'

/-- An object of a class, as `Build` makes it and the application may have changed it since. -/
structure Built (cls : ObjectClass) (o : NetObject) : Prop where
  controller : o.controller = netControllerLocal
  vars : List.Forall₂ (fun v v' : NetVar =>
    v'.name = v.name ∧ v'.reliable = v.reliable ∧ v'.size = v.size) cls.vars o.vars
  lists : List.Forall₂ (fun l l' : NetVarList => l'.size = l.size) cls.lists o.lists
  names_nodup : (o.vars.map NetVar.name).Nodup
  names_lt : ∀ v ∈ o.vars, v.name.1.length < maxEntvarName

/-- A freshly constructed object stands for one of its class. -/
theorem Built.tracks {cls : ObjectClass} {o : NetObject} (h : Built cls o)
    (hunlocked : ∀ v ∈ cls.vars, v.base.locked = false) :
    List.Forall₂ (Tracks [] o) o.vars cls.vars := by
  refine forall₂_imp_mem h.vars.flip fun v _ v' hv' hvv' => ?_
  exact ⟨hvv'.1.symm, hvv'.2.1.symm, hvv'.2.2.symm, hunlocked v' hv', Or.inl (cls.fresh v' hv'),
    by simp⟩

theorem Built.emptyOf {cls : ObjectClass} {o : NetObject} (h : Built cls o) :
    List.Forall₂ EmptyOf o.lists cls.lists :=
  forall₂_imp_mem h.lists.flip fun _ _ l' hl' hll' => ⟨hll'.symm, cls.empty l' hl'⟩

/-- **The packets of one object give the client a copy of it.** -/
theorem mirrors_object (hpb : pb.RoundTrips) (past : Bytes → Mem) (server : Peer)
    (hcms : (cms.map CEntities.name).Nodup) {cm : CEntities} (hcm : cm ∈ cms)
    (hnamed : Named instanceName cm.name) (hunlocked : ∀ v ∈ cm.cls.vars, v.base.locked = false)
    {o : NetObject} (ho : Built cm.cls o)
    (hd : DistinctBy fun n => objs n ++ if n = cm.name then [o] else [])
    (h : Mirrors instanceName cms (Copy peer (Tracks []) SameLists) objs c) :
    ∃ c', throughout (fun b c => c.receive pb (past b) server b)
        (objectPackets pb instanceName peer cm.name o) c = (.ok (), c') ∧
      Mirrors instanceName cms (Copy peer (Tracks []) SameLists)
        (fun n => objs n ++ if n = cm.name then [o] else []) c' := by
  have hmem : o ∈ objs cm.name ++ if cm.name = cm.name then [o] else [] := by simp
  have hnew : ∀ n, ∀ a ∈ objs n, a.netID ≠ o.netID := by
    intro n a ha
    by_cases hn : n = cm.name
    · have hpair := hd.within n
      simp only [hn, if_true] at hpair ha
      exact (List.pairwise_append.mp hpair).2.2 a ha o (by simp)
    · exact hd.across n cm.name hn a (List.mem_append_left _ ha) o hmem
  -- the creation
  have h₀ : Mirrors instanceName cms (Copy peer (Tracks []) (Receiving o.netID [])) objs c :=
    h.imp fun n a ha _ hr => hr.mono (by rw [Receiving, if_neg (hnew n a ha)]; exact hr.lists)
  have hfresh : ∀ ref, Copy peer (Tracks []) (Receiving o.netID []) o
      ⟨ref, o.netID, if o.peer = some peer then netControllerLocal else netControllerNone, none,
        cm.cls.vars, cm.cls.lists⟩ := by
    intro ref
    refine ⟨rfl, rfl, rfl, ho.tracks hunlocked, ?_⟩
    rw [Receiving, if_pos rfl]
    exact ⟨_, ho.emptyOf, rfl⟩
  obtain ⟨c₁, halloc, h₁⟩ := mirrors_alloc h₀ hcms (fun _ _ hr => hr.netID) hcm hnamed.instance_nul
    (hnew cm.name) hfresh
  have hreceive : ∀ past, c.receive pb past server
      (packetOf 0 [creation instanceName peer cm.name o]) = (.ok (), c₁) := by
    intro past
    have hfit : ∀ f ∈ [creation instanceName peer cm.name o], f.Fits := by
      intro f hf
      rw [List.mem_singleton.mp hf]
      exact allocFrame_fits hnamed _ _
    rw [receive_packetOf pb past server h.running h.callbacks 0 (by simp) hfit, List.map_singleton]
    have hact : NetSystem.actServer (creation instanceName peer cm.name o).extended c =
        (.ok (), c₁) := halloc
    rw [throughout, hact]
    rfl
  -- the lists
  obtain ⟨c₂, hmsgs, h₂⟩ := mirrors_messages hpb past server hcms hd hmem
    (listMessages ⟨instanceName, cm.name, o.netID⟩ o.lists) (fun m hm => by
      obtain ⟨l, -, hm⟩ := List.mem_flatMap.mp hm
      obtain ⟨item, -, rfl⟩ := List.mem_map.mp hm
      rfl) [] h₁
  refine ⟨c₂, ?_, h₂.imp fun n a ha a' hr => hr.mono ?_⟩
  · rw [objectPackets, throughout, hreceive]
    exact hmsgs
  · have hl := hr.lists
    by_cases hid : a.netID = o.netID
    · obtain rfl := hd.eq ha hmem hid
      rw [Receiving, if_pos rfl] at hl
      obtain ⟨ls₀, hempty, hl⟩ := hl
      have hlt : a.lists.length < 2 ^ 32 := by
        rw [← ho.lists.length_eq]
        exact cm.cls.lists_lt
      rw [SameLists, hl]
      exact foldl_listMessages _ hempty hlt
    · rwa [Receiving, if_neg hid] at hl

/-! ## All objects -/

/-- The objects of the managers of one name. -/
def VirtualInstance.objectsOf (i : VirtualInstance) (n : Bytes) : List NetObject :=
  (i.managers.filter (·.name == n)).flatMap CEntities.objects

def VirtualInstance.pairs (i : VirtualInstance) : List (CEntities × NetObject) :=
  i.managers.flatMap fun m => m.objects.map fun o => (m, o)

/-- The objects of the manager named `n` among some. -/
def underName (ps : List (CEntities × NetObject)) (n : Bytes) : List NetObject :=
  (ps.filter fun x => x.1.name == n).map Prod.snd

theorem underName_append (ps : List (CEntities × NetObject)) (m : CEntities) (o : NetObject) :
    underName (ps ++ [(m, o)]) = fun n => underName ps n ++ if n = m.name then [o] else [] := by
  funext n
  by_cases h : m.name = n
  · subst h
    simp [underName]
  · have h' : ¬ n = m.name := fun e => h e.symm
    simp [underName, h, h']

theorem underName_pairs (i : VirtualInstance) : underName i.pairs = i.objectsOf := by
  funext n
  rw [underName, VirtualInstance.pairs, VirtualInstance.objectsOf]
  induction i.managers with
  | nil => rfl
  | cons m ms ih =>
    rw [List.flatMap_cons, List.filter_append, List.map_append, ih, List.filter_cons]
    by_cases h : m.name = n
    · simp [h, List.filter_map, Function.comp_def]
    · simp [h, List.filter_map, Function.comp_def]

theorem distinctBy_underName {ps : List (CEntities × NetObject)}
    (h : ps.Pairwise fun x y => x.2.netID ≠ y.2.netID) : DistinctBy (underName ps) where
  within n := List.pairwise_map.mpr (h.filter _)
  across n n' hn a ha b hb hab := by
    obtain ⟨x, hx, rfl⟩ := List.mem_map.mp ha
    obtain ⟨y, hy, rfl⟩ := List.mem_map.mp hb
    obtain ⟨hx, hxn⟩ := List.mem_filter.mp hx
    obtain ⟨hy, hyn⟩ := List.mem_filter.mp hy
    have hnodup : (ps.map fun x => x.2.netID).Nodup := List.pairwise_map.mpr h
    obtain rfl : x = y := List.inj_on_of_nodup_map hnodup hx hy hab
    exact hn ((beq_iff_eq.mp hxn).symm.trans (beq_iff_eq.mp hyn))

/-- What a client needs to know to hold an object. -/
structure Known (instanceName : Bytes) (cms : List CEntities) (x : CEntities × NetObject) : Prop where
  manager : ∃ cm ∈ cms, cm.name = x.1.name ∧ cm.cls = x.1.cls
  named : Named instanceName x.1.name
  unlocked : ∀ v ∈ x.1.cls.vars, v.base.locked = false
  built : Built x.1.cls x.2

theorem mirrors_objects (hpb : pb.RoundTrips) (past : Bytes → Mem) (server : Peer)
    (hcms : (cms.map CEntities.name).Nodup) (todo done : List (CEntities × NetObject))
    (hd : (done ++ todo).Pairwise fun x y => x.2.netID ≠ y.2.netID)
    (hknown : ∀ x ∈ todo, Known instanceName cms x)
    (h : Mirrors instanceName cms (Copy peer (Tracks []) SameLists) (underName done) c) :
    ∃ c', throughout (fun b c => c.receive pb (past b) server b)
        (todo.flatMap fun x => objectPackets pb instanceName peer x.1.name x.2) c = (.ok (), c') ∧
      Mirrors instanceName cms (Copy peer (Tracks []) SameLists) (underName (done ++ todo)) c' := by
  induction todo generalizing done c with
  | nil => exact ⟨c, rfl, by simpa using h⟩
  | cons x todo ih =>
    obtain ⟨m, o⟩ := x
    have hx := hknown (m, o) List.mem_cons_self
    obtain ⟨cm, hcm, hname, hcls⟩ := hx.manager
    rw [← List.singleton_append, ← List.append_assoc] at hd
    have hd₁ := distinctBy_underName (List.pairwise_append.mp hd).1
    rw [underName_append, ← hname] at hd₁
    obtain ⟨c₁, hc₁, h₁⟩ := mirrors_object hpb past server hcms hcm (hname ▸ hx.named)
      (hcls ▸ hx.unlocked) (hcls ▸ hx.built) hd₁ h
    rw [hname, ← underName_append] at h₁
    obtain ⟨c₂, hc₂, h₂⟩ := ih (done ++ [(m, o)]) hd
      (fun y hy => hknown y (List.mem_cons_of_mem _ hy)) h₁
    refine ⟨c₂, ?_, by simpa using h₂⟩
    rw [List.flatMap_cons, throughout_append, ← hname, hc₁]
    exact hc₂

/-! ## The snapshots -/

/-- **The packet of one reliability brings the values of its variables.** -/
theorem mirrors_snapshot {r : Bool} {i : VirtualInstance} (past : Bytes → Mem) (server : Peer)
    (hcms : (cms.map CEntities.name).Nodup) (hd : DistinctBy objs)
    (hnames : ∀ n, ∀ o ∈ objs n, (o.vars.map NetVar.name).Nodup)
    (hfull : ∀ f ∈ (i.emitted r true).map Frame.extended, FullFrameOf objs f)
    (hfit : ∀ f ∈ i.emitted r true, f.Fits) (hlen : (i.emitted r true).length < 65536)
    {fs : List Frame} (h : Mirrors instanceName cms (Copy peer (Tracks fs) SameLists) objs c) :
    ∃ c', throughout (fun b c => c.receive pb (past b) server b) (packetsOf r true [i] {}) c =
        (.ok (), c') ∧ Mirrors instanceName cms
          (Copy peer (Tracks (((i.emitted r true).map Frame.extended).reverse ++ fs)) SameLists) objs c' := by
  obtain ⟨c', hc', hm⟩ := mirrors_takeAll h hcms hd hnames hfull
  refine ⟨c', ?_, hm⟩
  rw [packetsOf_single hlen]
  by_cases hne : i.emitted r true = []
  · rw [if_pos hne]
    rw [hne] at hc'
    exact hc'
  · rw [if_neg hne, throughout, receive_packetOf pb _ server h.running h.callbacks _ hlen hfit, hc']
    rfl

end

/-- The variables of one reliability. -/
def VirtualInstance.variables (r : Bool) (i : VirtualInstance) : List NetVar :=
  (i.objects.flatMap NetObject.vars).filter (·.reliable == r)

theorem length_emitted_le (r : Bool) (i : VirtualInstance) :
    (i.emitted r true).length ≤ (i.variables r).length := by
  have hobj : ∀ o : NetObject, (o.emitted r true).length ≤ (o.vars.filter (·.reliable == r)).length := by
    intro o
    rw [NetObject.emitted]
    split_ifs
    · induction o.vars with
      | nil => exact le_rfl
      | cons v vs ih =>
        rw [List.flatMap_cons, List.length_append, NetVar.emitted_eq, List.filter_cons]
        by_cases hv : v.reliable = r
        · simpa [hv, Nat.add_comm] using ih
        · simpa [hv] using ih
    · exact Nat.zero_le _
  have hflat : i.emitted r true = i.objects.flatMap (NetObject.emitted r true) := by
    rw [VirtualInstance.objects, List.flatMap_assoc]
    rfl
  rw [hflat, VirtualInstance.variables]
  induction i.objects with
  | nil => exact le_rfl
  | cons o os ih =>
    rw [List.flatMap_cons, List.flatMap_cons, List.filter_append, List.length_append,
      List.length_append]
    exact Nat.add_le_add (hobj o) ih

/-! ## The join -/

/-- A running server with one instance, whose objects were made by `Build`. -/
structure Settled (s : NetSystem) (i : VirtualInstance) : Prop where
  server : s.server = true
  running : s.running = true
  instances : s.instances = [i]
  ids : s.DistinctIDs
  named : ∀ m ∈ i.managers, Named i.name m.name
  unlocked : ∀ m ∈ i.managers, ∀ v ∈ m.cls.vars, v.base.locked = false
  built : ∀ m ∈ i.managers, ∀ o ∈ m.objects, Built m.cls o
  count : ∀ r, (i.variables r).length < 65536

/-- A connected client that knows the instance, its managers and their classes, and has no object;
`cms` are its managers. -/
structure Newcomer (i : VirtualInstance) (cms : List CEntities) (c : NetSystem) : Prop where
  running : c.running = true
  callbacks : c.callbacks = clientCallbacks
  instances : ∃ sequenceID, c.instances = [⟨i.name, cms, sequenceID⟩]
  names : (cms.map CEntities.name).Nodup
  empty : ∀ cm ∈ cms, cm.objects = []
  managers : ∀ m ∈ i.managers, ∃ cm ∈ cms, cm.name = m.name ∧ cm.cls = m.cls

structure SameVar (v v' : NetVar) : Prop where
  name : v'.name = v.name
  reliable : v'.reliable = v.reliable
  data : v'.base.data.toList = v.base.data.toList

/-- The client's object for an object of the server. -/
structure Replica (peer : Peer) (o o' : NetObject) : Prop where
  netID : o'.netID = o.netID
  controller : o'.controller =
    if o.peer = some peer then netControllerLocal else netControllerNone
  vars : List.Forall₂ SameVar o.vars o'.vars
  lists : List.Forall₂ SameList o.lists o'.lists

theorem Settled.pairwise {s : NetSystem} {i : VirtualInstance} (hs : Settled s i) :
    i.pairs.Pairwise fun x y => x.2.netID ≠ y.2.netID := by
  have hobjs : s.objects = i.pairs.map Prod.snd := by
    simp [NetSystem.objects, hs.instances, VirtualInstance.objects, VirtualInstance.pairs,
      List.map_flatMap, Function.comp_def]
  have h := hs.ids
  rwa [NetSystem.DistinctIDs, hobjs, List.pairwise_map] at h

theorem Settled.varNamesFit {s : NetSystem} {i : VirtualInstance} (hs : Settled s i) :
    i.VarNamesFit :=
  fun m hm o ho => (hs.built m hm o ho).names_lt

theorem mem_objectsOf {i : VirtualInstance} {n : Bytes} {o : NetObject} :
    o ∈ i.objectsOf n ↔ ∃ m ∈ i.managers, m.name = n ∧ o ∈ m.objects := by
  simp [VirtualInstance.objectsOf, and_assoc]

/-- The frames of the two snapshots are full frames of the objects. -/
theorem VirtualInstance.fullFrames (r : Bool) (i : VirtualInstance) :
    ∀ f ∈ (i.emitted r true).map Frame.extended, FullFrameOf i.objectsOf f := by
  intro f hf
  obtain ⟨g, hg, rfl⟩ := List.mem_map.mp hf
  obtain ⟨m, hm, o, ho, -, v, hv, -, -, rfl⟩ := mem_emitted.mp hg
  refine ⟨m.name, o, mem_objectsOf.mpr ⟨m, hm, rfl, ho⟩, v, hv, ?_⟩
  rw [fullFrame, Bool.or_true]

/-- Every variable has its frame in one of the two snapshots. -/
theorem Settled.announces {s : NetSystem} {i : VirtualInstance} (hs : Settled s i) {n : Bytes}
    {o : NetObject} (ho : o ∈ i.objectsOf n) {v : NetVar} (hv : v ∈ o.vars) :
    fullFrame o.netID v ∈ (i.emitted v.reliable true).map Frame.extended := by
  obtain ⟨m, hm, -, ho⟩ := mem_objectsOf.mp ho
  have hlocal : o.isNetworkLocal = true := beq_iff_eq.mpr (hs.built m hm o ho).controller
  have hmem := VirtualInstance.mem_emitted.mpr ⟨m, hm, o, ho, hlocal, v, hv, rfl, Or.inl rfl, rfl⟩
  rw [Bool.or_true] at hmem
  exact List.mem_map_of_mem hmem

theorem Newcomer.known {s c : NetSystem} {i : VirtualInstance} {cms : List CEntities}
    (hs : Settled s i) (hc : Newcomer i cms c) : ∀ x ∈ i.pairs, Known i.name cms x := by
  intro x hx
  obtain ⟨m, hm, hx⟩ := List.mem_flatMap.mp hx
  obtain ⟨o, ho, rfl⟩ := List.mem_map.mp hx
  exact ⟨hc.managers m hm, hs.named m hm, hs.unlocked m hm, hs.built m hm o ho⟩

theorem Newcomer.mirrors (peer : Peer) {c : NetSystem} {i : VirtualInstance} {cms : List CEntities}
    (hc : Newcomer i cms c) :
    Mirrors i.name cms (Copy peer (Tracks []) SameLists) (underName []) c := by
  obtain ⟨sequenceID, hinst⟩ := hc.instances
  refine ⟨hc.running, hc.callbacks, cms, sequenceID, hinst, List.forall₂_same.mpr fun cm hcm => ?_⟩
  refine ⟨rfl, rfl, ?_⟩
  rw [hc.empty cm hcm]
  exact .nil

/-- **Join completeness.** Everything the connect handler sends goes to the new peer, reliably and on
one channel; a newcomer that processes it in order ends, without an exception, with replicas of
exactly the server's objects under the same managers. -/
theorem join_complete {pb : Protobuf} (hpb : pb.RoundTrips) (past : Bytes → Mem) {peer server : Peer}
    {s c : NetSystem} {i : VirtualInstance} {cms : List CEntities} (hs : Settled s i)
    (hc : Newcomer i cms c) :
    (∀ x ∈ (s.connectHandler pb peer).2, x.target = some peer ∧ x.reliable = true ∧ x.channel = 1) ∧
    ∃ c', throughout (fun b c => c.receive pb (past b) server b)
        ((s.connectHandler pb peer).2.map Send.packet) c = (.ok (), c') ∧
      Mirrors i.name cms (Replica peer) i.objectsOf c' := by
  rw [connectHandler_sends pb peer hs.running hs.instances]
  constructor
  · intro x hx
    obtain ⟨packet, -, rfl⟩ := List.mem_map.mp hx
    exact ⟨rfl, rfl, rfl⟩
  -- the objects and their lists
  have hd := distinctBy_underName hs.pairwise
  obtain ⟨c₁, hc₁, h₁⟩ := mirrors_objects hpb past server hc.names i.pairs [] hs.pairwise
    (hc.known hs) (hc.mirrors peer)
  rw [List.nil_append, underName_pairs] at h₁
  rw [underName_pairs] at hd
  -- the variables, the reliable ones first
  have hnames : ∀ n, ∀ o ∈ i.objectsOf n, (o.vars.map NetVar.name).Nodup := by
    intro n o ho
    obtain ⟨m, hm, -, ho⟩ := mem_objectsOf.mp ho
    exact (hs.built m hm o ho).names_nodup
  have hlen : ∀ r, (i.emitted r true).length < 65536 :=
    fun r => lt_of_le_of_lt (length_emitted_le r i) (hs.count r)
  obtain ⟨c₂, hc₂, h₂⟩ := mirrors_snapshot past server hc.names hd hnames (i.fullFrames true)
    hs.varNamesFit.fits (hlen true) h₁
  obtain ⟨c₃, hc₃, h₃⟩ := mirrors_snapshot past server hc.names hd hnames (i.fullFrames false)
    hs.varNamesFit.fits (hlen false) h₂
  refine ⟨c₃, ?_, h₃.imp fun n o ho o' hr => ⟨hr.netID, hr.controller, ?_, hr.lists⟩⟩
  · have hpackets : ((joinPackets pb peer i).map (reliably peer)).map Send.packet =
        (i.pairs.flatMap fun x => objectPackets pb i.name peer x.1.name x.2) ++
          (packetsOf true true [i] {} ++ packetsOf false true [i] {}) := by
      simp [joinPackets, reliably, VirtualInstance.pairs, List.flatMap_assoc, List.flatMap_map,
        Function.comp_def]
    rw [hpackets, throughout_append, hc₁, Outcome.andThen_ok, throughout_append, hc₂,
      Outcome.andThen_ok, hc₃]
  · refine forall₂_imp_mem hr.vars fun v hv v' _ ht => ⟨ht.name, ht.reliable, ht.data ?_⟩
    have hmem := hs.announces ho hv
    refine ⟨fullFrame o.netID v, ?_, rfl, rfl⟩
    cases hrel : v.reliable <;> rw [hrel] at hmem <;> simp [hmem]

/-- A class with a one-byte variable and a list of bytes. -/
def joinClass : ObjectClass where
  vars := [{ name := CStr.hp, reliable := true, size := 1, size_lt := NetVar.byte_lt,
             base := { data := Blob.byte 0 } }]
  lists := [{ size := 1, initial := Blob.byte 0 }]

def joinManager (objects : List NetObject) : CEntities where
  name := [112]
  name_le := CEntities.p_le
  cls := joinClass
  objects := objects

/-- One object, owned by peer `1`, with the value `7` and an element `5` under the key `3`. -/
def joinInstance : VirtualInstance where
  name := [119]
  managers := [joinManager [{
    ref := 0, netID := 0, controller := netControllerLocal, peer := some 1
    vars := [{ name := CStr.hp, reliable := true, size := 1, size_lt := NetVar.byte_lt,
               base := { data := Blob.byte 7 } }]
    lists := [{ size := 1, initial := Blob.byte 0, data := AList.singleton 3 (Blob.byte 5) }] }]]

def joinServer : NetSystem where
  server := true
  instances := [joinInstance]

def joinClient : NetSystem where
  server := false
  instances := [⟨[119], [joinManager []], 0⟩]
  callbacks := clientCallbacks

theorem joinServer_settled : Settled joinServer joinInstance where
  server := rfl
  running := rfl
  instances := rfl
  ids := by simp [NetSystem.DistinctIDs, NetSystem.objects, VirtualInstance.objects, joinServer,
    joinInstance, joinManager]
  named := by
    intro m hm
    obtain rfl := List.mem_singleton.mp hm
    exact ⟨by decide, by decide, by decide, by decide⟩
  unlocked := by simp [joinInstance, joinManager, joinClass]
  built := by
    intro m hm o ho
    obtain rfl := List.mem_singleton.mp hm
    obtain rfl := List.mem_singleton.mp ho
    exact ⟨rfl, .cons ⟨rfl, rfl, rfl⟩ .nil, .cons rfl .nil, by simp, by simp [maxEntvarName, CStr.hp]⟩
  count := by simp [VirtualInstance.variables, VirtualInstance.objects, joinInstance, joinManager]

theorem joinClient_newcomer : Newcomer joinInstance [joinManager []] joinClient where
  running := rfl
  callbacks := rfl
  instances := ⟨0, rfl⟩
  names := by simp
  empty := by simp [joinManager]
  managers := by simp [joinInstance, joinManager]

theorem join_complete_one :
    (∀ x ∈ (joinServer.connectHandler Protobuf.wire 1).2,
      x.target = some 1 ∧ x.reliable = true ∧ x.channel = 1) ∧
    ∃ c', throughout (fun b c => c.receive Protobuf.wire Mem.zero 0 b)
        ((joinServer.connectHandler Protobuf.wire 1).2.map Send.packet) joinClient = (.ok (), c') ∧
      Mirrors joinInstance.name [joinManager []] (Replica 1) joinInstance.objectsOf c' :=
  join_complete Protobuf.wire_roundTrips (fun _ => Mem.zero) joinServer_settled joinClient_newcomer

end Nettik
