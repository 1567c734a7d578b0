import Nettik.Entity.World

/-!
# Containers made and removed

* `createInstance`, `deleteInstance`, `createManager`, `destroyManager`: what a controller holds objects in;
* `InTouch.delete`: the deletion of an instance, seen by one client;
* **`deletion_settles`**: what the clients end up with once the server deleted its instance.
-/

namespace Nettik

open ByteMem Loops Links Channels

/-! ## Containers -/

namespace NetSystem

/-- The destructor of a manager lets go of its objects; those nobody else holds are freed. -/
def freeManager (instanceName : Bytes) (held : ObjRef → Bool) (s : NetSystem) (m : CEntities) :
    List Send :=
  (m.freed held).flatMap (s.freeEntity instanceName m.name)

def freeInstance (held : ObjRef → Bool) (s : NetSystem) (i : VirtualInstance) : List Send :=
  i.managers.flatMap (s.freeManager i.name held)

/-- An instance of that name is replaced. -/
def createInstance (name : Bytes) (held : ObjRef → Bool) (s : NetSystem) : NetSystem × List Send :=
  match s.getInstance name with
  | some i => (s.modifyInstance name fun _ => { name := name }, s.freeInstance held i)
  | none => ({ s with instances := s.instances ++ [{ name := name }] }, [])

def deleteInstance (name : Bytes) (held : ObjRef → Bool) (s : NetSystem) : NetSystem × List Send :=
  match s.getInstance name with
  | some i => ({ s with instances := s.instances.eraseP (·.name == name) }, s.freeInstance held i)
  | none => (s, [])

/-- `m_EntManagers.insert` leaves a manager of that name as it is. -/
def createManager (instanceName name : Bytes) (cls : ObjectClass) (s : NetSystem) : Outcome NetSystem :=
  if h : name.length ≤ maxEntmgrName then
    (.ok (), s.modifyInstance instanceName fun i =>
      if (i.getManager name).isSome then i
      else { i with managers := i.managers ++ [{ name := name, name_le := h, cls := cls }] })
  else (.error "Entity manager name length exceeds MAX_ENTMGR_NAME.", s)

/-- `DestroyEntityManager`, once `DoPostUpdate` processed it. An unknown name does nothing here; the source
queues the end of the map for it, and uses that. -/
def destroyManager (instanceName name : Bytes) (held : ObjRef → Bool) (s : NetSystem) :
    NetSystem × List Send :=
  match (s.getInstance instanceName).bind (·.getManager name) with
  | some m =>
    (s.modifyInstance instanceName fun i => { i with managers := i.managers.eraseP (·.name == name) },
      s.freeManager instanceName held m)
  | none => (s, [])

/-- The entities of an instance whose objects somebody else holds. -/
def heldEntities (instanceName : Bytes) (held : ObjRef → Bool) (s : NetSystem) : Set (Bytes × UInt32) :=
  {x | ∃ m, s.managerOf instanceName x.1 = some m ∧
    ∃ o ∈ m.objects, o.netID = x.2 ∧ held o.handle = true}

end NetSystem

/-! ## The deletion of an instance -/

variable {pb : Protobuf} {instanceName : Bytes} {names : List Bytes} {i : VirtualInstance}
  {s : NetSystem} {l : Link} {live : Set (Bytes × UInt32)}

/-- The objects that a deletion frees. -/
def VirtualInstance.freed (held : ObjRef → Bool) (i : VirtualInstance) : List (Bytes × UInt32) :=
  i.managers.flatMap fun m => (m.freed held).map fun o => (m.name, o.netID)

theorem Serving.managerOf (h : Serving names s i) (n : Bytes) :
    s.managerOf i.name n = i.getManager n := by
  rw [NetSystem.managerOf, h.getInstance, Option.bind_some]

theorem Serving.deleteInstance (h : Serving names s i) (held : ObjRef → Bool) :
    s.deleteInstance i.name held = ({ s with instances := [] }, (i.freed held).map fun x =>
      toAll true (packetOf 0 [deallocFrame i.name x.1 x.2])) := by
  have hfree : ∀ n, ∀ o : NetObject, s.freeEntity i.name n o = _ := freeEntity_eq h.server h.running
  rw [NetSystem.deleteInstance, h.getInstance]
  refine Prod.ext ?_ ?_
  · simp [h.instances]
  · show s.freeInstance held i = _
    rw [NetSystem.freeInstance, VirtualInstance.freed, List.map_flatMap]
    refine List.flatMap_congr fun m _ => ?_
    rw [NetSystem.freeManager, List.map_map, List.map_eq_flatMap]
    exact List.flatMap_congr fun o _ => hfree m.name o

/-- **What is not freed is held.** -/
theorem Serving.entities_sdiff_freed (h : Serving names s i) (held : ObjRef → Bool) :
    s.entities i.name \ {x | x ∈ i.freed held} = s.heldEntities i.name held := by
  ext ⟨n, id⟩
  have hfreed : ∀ m, i.getManager n = some m →
      ((n, id) ∈ i.freed held ↔ id ∈ (m.freed held).map NetObject.netID) := by
    intro m hm
    obtain ⟨hmem, rfl⟩ := h.getManager_iff.mp hm
    rw [VirtualInstance.freed, List.mem_flatMap]
    constructor
    · rintro ⟨m', hm', hx⟩
      obtain ⟨o, ho, heq⟩ := List.mem_map.mp hx
      obtain ⟨hname, rfl⟩ := Prod.mk.inj heq
      obtain rfl : m' = m := Option.some.inj ((h.getManager_iff.mpr ⟨hm', hname⟩).symm.trans hm)
      exact List.mem_map_of_mem ho
    · intro hx
      obtain ⟨o, ho, rfl⟩ := List.mem_map.mp hx
      exact ⟨m, hmem, List.mem_map_of_mem ho⟩
  simp only [NetSystem.heldEntities, Set.mem_sdiff, Set.mem_ofPred_eq, h.managerOf]
  cases hm : i.getManager n with
  | none =>
    have hnot : (n, id) ∉ s.entities i.name := by
      rintro ⟨m, hm', -⟩
      rw [h.managerOf, hm] at hm'
      simp at hm'
    simp [hnot]
  | some m =>
    have hkept := mem_roll_kept (h.fit m (h.getManager_iff.mp hm).1).distinct held id
    rw [h.mem_entities hm, hfreed m hm, ← hkept]
    simp [and_left_comm, and_comm]

/-- **The deletion of an instance**, seen by one client. -/
theorem InTouch.delete (h : InTouch pb i.name names (s.entities i.name) l) (hs : Serving names s i)
    (held : ObjRef → Bool) : InTouch pb i.name names (s.heldEntities i.name held)
      (l.post (s.deleteInstance i.name held).2) := by
  have hknown : ∀ x ∈ i.freed held, x.1 ∈ names ∧ Named i.name x.1 := by
    intro x hx
    obtain ⟨m, hm, hx⟩ := List.mem_flatMap.mp hx
    obtain ⟨o, -, rfl⟩ := List.mem_map.mp hx
    rw [← hs.names_eq]
    exact ⟨List.mem_map_of_mem hm, (hs.fit m hm).named⟩
  have hsays : Says pb i.name names
      ((i.freed held).map fun x => packetOf 0 [deallocFrame i.name x.1 x.2])
      ((i.freed held).map fun x => .dealloc x.1 x.2) := by
    rw [List.map_eq_flatMap, List.map_eq_flatMap]
    exact Says.flatMap fun x hx =>
      says_single (e := .dealloc x.1 x.2) (hknown x hx).1 (hknown x hx).2
  have hevents : ((i.freed held).map fun x => EntityMsg.dealloc x.1 x.2).map EntityMsg.event =
      (i.freed held).map Event.remove := by
    rw [List.map_map]
    rfl
  have htold := Told.toAll hsays l.peer true
  rw [List.map_map] at htold
  rw [hs.deleteInstance]
  refine h.post htold ?_ (by simp) (by simp) ?_
  · intro e he
    obtain ⟨x, hx, rfl⟩ := List.mem_map.mp he
    exact (hknown x hx).1
  · rw [hevents, List.map_nil, List.append_nil, final_announce, h.settles, after_map_remove,
      hs.entities_sdiff_freed]

namespace World

variable {w : World} {orphans : Set (Bytes × UInt32)} {old : List Peer}

/-- The server has no instance; the clients that were connected keep `orphans`, the others hold nothing. -/
structure Gone (pb : Protobuf) (instanceName : Bytes) (names : List Bytes) (orphans : Set (Bytes × UInt32))
    (old : List Peer) (w : World) : Prop where
  instances : w.server.instances = []
  links : ∀ l ∈ w.links, InTouch pb instanceName names (if l.peer ∈ old then orphans else ∅) l
  old : ∀ p ∈ old, ∃ l ∈ w.links, l.peer = p

/-- The server says nothing. -/
theorem Gone.quiet (h : w.Gone pb instanceName names orphans old) :
    (w.send (w.server, [])).Gone pb instanceName names orphans old := by
  refine ⟨h.instances, ?_, fun p hp => ?_⟩
  · intro l' hl'
    obtain ⟨l, hl, rfl⟩ := List.mem_map.mp hl'
    exact (h.links l hl).post_quiet (Told.nil l.peer)
  · obtain ⟨l, hl, rfl⟩ := h.old p hp
    exact ⟨l.post [], List.mem_map_of_mem hl, rfl⟩

theorem connectHandler_nil (hs : s.instances = []) (peer : Peer) : s.connectHandler pb peer = (s, []) := by
  obtain ⟨server, running, peerList, instances, totalEntities, controlled, callbacks, nextRef⟩ := s
  obtain rfl : instances = [] := hs
  rfl

theorem Gone.connect (h : w.Gone pb instanceName names orphans old) {peer : Peer} {client : NetSystem}
    (hpeer : ∀ l ∈ w.links, l.peer ≠ peer) (hc : Aware instanceName names client)
    (hempty : client.entities instanceName = ∅) (past : Bytes → Mem) (host : Peer) :
    (w.step pb past host instanceName (.connect peer client)).Gone pb instanceName names orphans old := by
  have hnew : peer ∉ old := by
    intro hp
    obtain ⟨l, hl, hlp⟩ := h.old peer hp
    exact hpeer l hl hlp
  have hjoined : InTouch pb instanceName names ∅ ⟨peer, client, fun _ => []⟩ := by
    refine ⟨hc, by simp, by simp [Link.news], fun _ _ => rfl, by simp [Link.events, Link.news], ?_⟩
    rw [hempty]
    rfl
  have hall : ({ w with links := w.links ++ [⟨peer, client, fun _ => []⟩] } : World).Gone pb instanceName
      names orphans old := by
    refine ⟨h.instances, fun l hl => ?_, fun p hp => ?_⟩
    · rcases List.mem_append.mp hl with hl | hl
      · exact h.links l hl
      · rw [List.mem_singleton.mp hl, if_neg hnew]
        exact hjoined
    · obtain ⟨l, hl, hlp⟩ := h.old p hp
      exact ⟨l, List.mem_append_left _ hl, hlp⟩
  rw [step, connectHandler_nil h.instances]
  exact hall.quiet

theorem Gone.deliver (h : w.Gone pb instanceName names orphans old) (past : Bytes → Mem) (host : Peer)
    (k channel : ℕ) (hok : w.InSequence instanceName (.deliver k channel)) :
    (w.step pb past host instanceName (.deliver k channel)).Gone pb instanceName names orphans old := by
  have hpeer : ∀ l : Link, (l.deliver pb past host channel).peer = l.peer := by
    intro l
    rw [Link.deliver]
    cases l.inFlight channel <;> rfl
  refine ⟨h.instances, ?_, fun p hp => ?_⟩
  · refine forall_mem_modify h.links fun l hl => ?_
    rw [hpeer]
    refine (h.links l (List.mem_of_getElem? hl)).deliver past host channel ?_
    rintro rfl
    exact hok l hl
  · obtain ⟨l, hl, rfl⟩ := h.old p hp
    obtain ⟨n, hn, rfl⟩ := List.mem_iff_getElem.mp hl
    have hn' : n < (w.links.modify k (Link.deliver pb past host channel)).length := by simpa using hn
    refine ⟨_, List.getElem_mem hn', ?_⟩
    rw [List.getElem_modify]
    split_ifs
    · exact hpeer _
    · rfl

/-- **Nothing brings an instance back to the clients.** -/
theorem gone_step (past : Bytes → Mem) (host : Peer) (w : World) (a : WorldAct)
    (h : w.Gone pb instanceName names orphans old)
    (hok : w.Proper instanceName names a ∧ w.InSequence instanceName a) :
    (w.step pb past host instanceName a).Gone pb instanceName names orphans old := by
  have hnone : ∀ n, w.server.getInstance n = none := fun n => by
    rw [NetSystem.getInstance, h.instances]
    rfl
  cases a with
  | build managerName pOwner =>
    have hbuild : w.server.build pb instanceName managerName pOwner = (w.server, []) := by
      rw [NetSystem.build, hnone]
    rw [step, hbuild]
    exact h.quiet
  | release managerName held =>
    have hrelease : w.server.postUpdate instanceName managerName held = (w.server, []) := by
      rw [NetSystem.postUpdate, hnone]
      rfl
    rw [step, hrelease]
    exact h.quiet
  | connect peer client => exact h.connect hok.1.1 hok.1.2.1 hok.1.2.2 past host
  | deliver k channel => exact h.deliver past host k channel hok.2

/-- **Deletions settle.** The server deletes its instance in the course of a run. A client that was
connected then, and has processed everything, holds the objects that the application still held; one that
connects later holds none. -/
theorem deletion_settles (hs : Serving names s i) (past : Bytes → Mem) (host : Peer)
    {before after : List WorldAct} (held : ObjRef → Bool)
    (hbefore : Along (step pb past host i.name)
      (fun w a => w.Proper i.name names a ∧ w.InSequence i.name a) ⟨s, []⟩ before)
    {w w' : World} (hw : w = run (step pb past host i.name) ⟨s, []⟩ before)
    (hw' : w' = w.send (w.server.deleteInstance i.name held))
    (hafter : Along (step pb past host i.name)
      (fun w a => w.Proper i.name names a ∧ w.InSequence i.name a) w' after) :
    ∀ l ∈ (run (step pb past host i.name) w' after).links, (∀ channel, l.inFlight channel = []) →
      l.client.entities i.name =
        if l.peer ∈ w.links.map Link.peer then w.server.heldEntities i.name held else ∅ := by
  have hstart : Agrees pb i.name names ⟨s, []⟩ := ⟨⟨i, rfl, hs⟩, by simp⟩
  have h : w.Agrees pb i.name names := by
    rw [hw]
    exact run_inv (agrees_step past host) hstart hbefore
  obtain ⟨i', hname, hs'⟩ := h.serving
  have hgone : w'.Gone pb i.name names (w.server.heldEntities i.name held) (w.links.map Link.peer) := by
    rw [hw', ← hname]
    refine ⟨?_, ?_, ?_⟩
    · show (w.server.deleteInstance i'.name held).1.instances = []
      rw [hs'.deleteInstance]
    · intro l' hl'
      obtain ⟨l, hl, rfl⟩ := List.mem_map.mp hl'
      have hlink := h.links l hl
      rw [← hname] at hlink
      have hpeer : (l.post (w.server.deleteInstance i'.name held).2).peer = l.peer := rfl
      rw [hpeer, if_pos (List.mem_map_of_mem hl)]
      exact hlink.delete hs' held
    · intro p hp
      obtain ⟨l, hl, rfl⟩ := List.mem_map.mp hp
      exact ⟨l.post _, List.mem_map_of_mem hl, rfl⟩
  intro l hl hidle
  have hsettles := ((run_inv (gone_step past host) hgone hafter).links l hl).settles
  rw [Link.events, Link.events, Link.news, Link.news, hidle, hidle] at hsettles
  exact hsettles

/-- An object is built, and a client joins and hears of it. -/
def joined : World :=
  run (step Protobuf.wire (fun _ => Mem.zero) 0 grantInstance.name) ⟨grantServer, []⟩ lateJoin

def deleted : World := joined.send (joined.server.deleteInstance grantInstance.name fun _ => false)

theorem deletion_settles_joined : (deleted.links.map fun l => (l.inFlight 0).length) = [1] ∧
    ∀ l ∈ (run (step Protobuf.wire (fun _ => Mem.zero) 0 grantInstance.name) deleted [.deliver 0 0]).links,
      (∀ channel, l.inFlight channel = []) → l.client.entities grantInstance.name =
        if l.peer ∈ joined.links.map Link.peer then
          joined.server.heldEntities grantInstance.name fun _ => false else ∅ := by
  refine ⟨by decide +kernel, ?_⟩
  apply deletion_settles grantServer_serving (fun _ => Mem.zero) 0 (fun _ => false) ?_ rfl rfl ?_
  · refine ⟨⟨trivial, ?_, ?_⟩, ⟨⟨?_, grantClient_aware, entities_of_bare rfl⟩, trivial⟩,
      ⟨trivial, trivial⟩, trivial⟩
    · rw [entities_of_bare rfl]
      exact Set.notMem_empty _
    · intro i _ l hl
      exact absurd hl List.not_mem_nil
    · intro l hl
      exact absurd hl List.not_mem_nil
  · refine ⟨⟨trivial, fun l hl b _ n id _ controller => ?_⟩, trivial⟩
    have hempty : (deleted.links.map fun l => l.inFlight 1) = [[]] := by decide +kernel
    have hlink : l.inFlight 1 ∈ [[]] := hempty ▸ List.mem_map_of_mem (List.mem_of_getElem? hl)
    rw [Link.news, List.mem_singleton.mp hlink]
    exact List.not_mem_nil

end World

end Nettik
