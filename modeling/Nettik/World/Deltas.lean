import Nettik.World.Outline
import Nettik.World.Updates

/-!
# Deltas of the lists

What `DoListUpdate` sends, and where a controller keeps its lists.

* `listUpdate`: the walk over the lists, with the packets they send;
* `Shelf`, `shelves`: the lists of each object, under the name that messages give it; `Keyed` when a
  name finds one object; **`shelves_modifyList`**: what a change of a named list does;
* **`shelves_listUpdate`**, `listUpdate_snd`: what the walk leaves of the lists, and what it sends;
* `Addressed`: lists queue only messages that name them; `Keeps`, `Silent`: a controller keeps a list, or
  has nothing to say about it; **`LeavesList`**: what a controller does elsewhere leaves a list alone.
-/

namespace Nettik

open ByteMem Loops Links

/-! ## The walk over the lists -/

/-- `UpdateListDelta`; `SetReliable` puts the packets on channel 1. -/
def NetObject.updateListDelta (pb : Protobuf) (s : NetSystem) (players : List Peer) (o : NetObject) :
    NetObject × List Send :=
  let r := o.lists.map (NetVarList.updateListDelta players s.getFirstPeer)
  ({ o with lists := r.map Prod.fst },
    r.flatMap fun l => l.2.flatMap fun x => s.send (x.2.packet pb) (some x.1) true 1)

def CEntities.listUpdate (pb : Protobuf) (s : NetSystem) (m : CEntities) : CEntities × List Send :=
  let r := m.objects.map (NetObject.updateListDelta pb s m.getPlayers)
  ({ m with objects := r.map Prod.fst }, r.flatMap Prod.snd)

/-- `DoListUpdate`. -/
def VirtualInstance.listUpdate (pb : Protobuf) (s : NetSystem) (i : VirtualInstance) :
    VirtualInstance × List Send :=
  let r := i.managers.map (CEntities.listUpdate pb s)
  ({ i with managers := r.map Prod.fst }, r.flatMap Prod.snd)

/-- The `DoListUpdate` of every instance, as either half of `Update` makes it. -/
def NetSystem.listUpdate (pb : Protobuf) (s : NetSystem) : NetSystem × List Send :=
  let r := s.instances.map (VirtualInstance.listUpdate pb s)
  ({ s with instances := r.map Prod.fst }, r.flatMap Prod.snd)

/-- Without its packets the walk is that of `doPostUpdate`. -/
theorem VirtualInstance.listUpdate_fst (pb : Protobuf) (s : NetSystem) (i : VirtualInstance) :
    (i.listUpdate pb s).1 = i.doListUpdate s := by
  have hobject : ∀ (m : CEntities) (o : NetObject), (o.updateListDelta pb s m.getPlayers).1 =
      { o with lists := o.lists.map fun l => (l.updateListDelta m.getPlayers s.getFirstPeer).1 } :=
    fun m o => by rw [NetObject.updateListDelta, List.map_map]; rfl
  have hmanager : ∀ m : CEntities, (m.listUpdate pb s).1 = { m with
      objects := m.objects.map fun o => (o.updateListDelta pb s m.getPlayers).1 } := fun m => by
    rw [CEntities.listUpdate, List.map_map]
    rfl
  simp only [listUpdate, doListUpdate, List.map_map, Function.comp_def, hmanager, hobject]

/-! ## Shelves -/

/-- The lists of an object, the name that messages give it, and what its lists read from it. -/
structure Shelf where
  object : AssociatedObject
  players : List Peer
  peer : Option Peer
  lists : List NetVarList

namespace Shelf

def context (listID : UInt32) (x : Shelf) : ListContext := ⟨x.object, x.players, x.peer, listID⟩

def modify (listID : UInt32) (f : ListContext → NetVarList → NetVarList) (x : Shelf) : Shelf :=
  { x with lists := x.lists.modify listID.toNat (f (x.context listID)) }

/-- What the walk sends for the lists of an object. -/
def delta (firstPeer : Option Peer) (x : Shelf) : List (Peer × ListMsg) :=
  x.lists.flatMap fun l => (l.updateListDelta x.players firstPeer).2

def sends (pb : Protobuf) (s : NetSystem) (x : Shelf) : List Send :=
  (x.delta s.getFirstPeer).flatMap fun d => s.send (d.2.packet pb) (some d.1) true 1

/-- What it leaves. -/
def flushed (firstPeer : Option Peer) (x : Shelf) : Shelf :=
  { x with lists := x.lists.map fun l => (l.updateListDelta x.players firstPeer).1 }

end Shelf

def NetObject.shelf (instanceName managerName : Bytes) (players : List Peer) (o : NetObject) : Shelf :=
  ⟨⟨instanceName, managerName, o.netID⟩, players, o.peer, o.lists⟩

def CEntities.shelves (instanceName : Bytes) (m : CEntities) : List Shelf :=
  m.objects.map (NetObject.shelf instanceName m.name m.getPlayers)

def VirtualInstance.shelves (i : VirtualInstance) : List Shelf :=
  i.managers.flatMap (CEntities.shelves i.name)

namespace NetSystem

def shelves (s : NetSystem) : List Shelf := s.instances.flatMap VirtualInstance.shelves

/-- A view of the objects with the names of their containers. -/
def catalog {β : Type} (view : NetObject → β) (s : NetSystem) : List (Bytes × List (Bytes × List β)) :=
  s.instances.map fun i => (i.name, i.managers.map fun m => (m.name, m.objects.map view))

/-- A name finds at most one object. -/
structure Keyed (s : NetSystem) : Prop where
  instances : ((s.catalog NetObject.netID).map Prod.fst).Nodup
  managers : ∀ i ∈ s.catalog NetObject.netID, (i.2.map Prod.fst).Nodup
  objects : ∀ i ∈ s.catalog NetObject.netID, ∀ m ∈ i.2, m.2.Nodup

variable {s s' : NetSystem}

theorem Keyed.congr (h : s.Keyed) (hs : s'.catalog NetObject.netID = s.catalog NetObject.netID) :
    s'.Keyed := by
  refine ⟨?_, ?_, ?_⟩ <;> rw [hs]
  exacts [h.instances, h.managers, h.objects]

/-- What the lists see of an object. -/
def shelved (o : NetObject) : UInt32 × Option Peer × List NetVarList := (o.netID, o.peer, o.lists)

theorem shelves_eq (s : NetSystem) : s.shelves = (s.catalog shelved).flatMap fun i => i.2.flatMap fun m =>
    m.2.map fun o => ⟨⟨i.1, m.1, o.1⟩, m.2.filterMap fun o => o.2.1, o.2.1, o.2.2⟩ := by
  simp only [shelves, catalog, List.flatMap_map, List.map_map, List.filterMap_map]
  rfl

theorem shelves_congr (h : s'.catalog shelved = s.catalog shelved) : s'.shelves = s.shelves := by
  rw [shelves_eq, shelves_eq, h]

theorem catalog_netID_eq (s : NetSystem) : s.catalog NetObject.netID =
    (s.catalog shelved).map fun i => (i.1, i.2.map fun m => (m.1, m.2.map Prod.fst)) := by
  simp only [catalog, List.map_map, Function.comp_def]
  rfl

/-! ### What leaves the lists alone -/

section

variable {β : Type} {view : NetObject → β}

theorem catalog_updateVar
    (hview : ∀ (o : NetObject) (vars : List NetVar), view { o with vars := vars } = view o)
    (address : UInt32 × Bytes) (f : UInt32 → NetVar → NetVar) (s : NetSystem) :
    (s.updateVar address f).catalog view = s.catalog view := by
  refine map_modifyFirst fun i _ => congrArg (Prod.mk i.name) ?_
  refine map_modifyFirst fun (m : CEntities) _ => congrArg (Prod.mk m.name) ?_
  exact map_modifyFirst fun o _ => hview o _

theorem catalog_mapObjects {g : NetObject → NetObject} (hg : ∀ o, view (g o) = view o) (s : NetSystem) :
    (s.mapObjects g).catalog view = s.catalog view := by
  rw [catalog, mapObjects, List.map_map]
  refine List.map_congr_left fun i _ => congrArg (Prod.mk i.name) ?_
  show (i.managers.map (CEntities.mapObjects g)).map _ = _
  rw [List.map_map]
  refine List.map_congr_left fun m _ => congrArg (Prod.mk m.name) ?_
  show (m.objects.map g).map view = _
  rw [List.map_map]
  exact List.map_congr_left fun o _ => hg o

theorem catalog_modifyList
    (hview : ∀ (o : NetObject) (lists : List NetVarList), view { o with lists := lists } = view o)
    (target : AssociatedObject) (listID : UInt32) (f : ListContext → NetVarList → NetVarList)
    (s : NetSystem) : (s.modifyList target listID f).catalog view = s.catalog view := by
  refine map_modifyFirst fun i _ => congrArg (Prod.mk i.name) ?_
  refine map_modifyFirst fun (m : CEntities) _ => congrArg (Prod.mk m.name) ?_
  exact map_modifyFirst fun o _ => hview o _

theorem catalog_listUpdate
    (hview : ∀ (o : NetObject) (lists : List NetVarList), view { o with lists := lists } = view o)
    (pb : Protobuf) (s : NetSystem) : (s.listUpdate pb).1.catalog view = s.catalog view := by
  rw [catalog, listUpdate, List.map_map, List.map_map]
  refine List.map_congr_left fun i _ => congrArg (Prod.mk i.name) ?_
  show ((i.managers.map (CEntities.listUpdate pb s)).map Prod.fst).map _ = _
  rw [List.map_map, List.map_map]
  refine List.map_congr_left fun m _ => congrArg (Prod.mk m.name) ?_
  show ((m.objects.map (NetObject.updateListDelta pb s m.getPlayers)).map Prod.fst).map view = _
  rw [List.map_map, List.map_map]
  exact List.map_congr_left fun o _ => hview o _

/-- The outline is in the catalog of the outlines of the objects. -/
theorem outline_congr (h : s'.catalog NetObject.outline = s.catalog NetObject.outline)
    (hserver : s'.server = s.server) (hrun : s'.running = s.running) (hpeers : s'.peerList = s.peerList)
    (hcb : s'.callbacks = s.callbacks) : s'.outline = s.outline := by
  have hinstances : ∀ s : NetSystem, s.outline.instances =
      (s.catalog NetObject.outline).map fun i => i.2.map Prod.snd := fun s => by
    simp only [catalog, List.map_map, Function.comp_def]
    rfl
  have hsame := hinstances s'
  rw [h, ← hinstances s] at hsame
  rw [show s'.outline = { s'.outline with instances := s'.outline.instances } from rfl, hsame]
  show Outline.mk s'.server s'.running s'.peerList s'.callbacks s.outline.instances = s.outline
  rw [hserver, hrun, hpeers, hcb]
  rfl

theorem outline_modifyList (target : AssociatedObject) (listID : UInt32)
    (f : ListContext → NetVarList → NetVarList) (s : NetSystem) :
    (s.modifyList target listID f).outline = s.outline :=
  outline_congr (catalog_modifyList (fun _ _ => rfl) target listID f s) rfl rfl rfl rfl

theorem outline_listUpdate (pb : Protobuf) (s : NetSystem) : (s.listUpdate pb).1.outline = s.outline :=
  outline_congr (catalog_listUpdate (fun _ _ => rfl) pb s) rfl rfl rfl rfl

end

theorem catalog_readEntityUpdate (f : Frame) (owner : Option Peer) (s : NetSystem) :
    (s.readEntityUpdate f owner).catalog shelved = s.catalog shelved := by
  have hupdate : (s.updateVar f.variable fun c => NetVar.readUpdate c f).catalog shelved =
      s.catalog shelved := catalog_updateVar (fun _ _ => rfl) _ _ s
  cases owner with
  | none => rwa [readEntityUpdate_none_eq]
  | some p =>
    rw [readEntityUpdate_some_eq]
    split_ifs
    · exact hupdate
    · rfl

theorem catalog_snapshotUpdate (hrun : s.running = true) :
    s.snapshotUpdate.1.catalog shelved = s.catalog shelved := by
  rw [snapshotUpdate_fst hrun]
  refine catalog_mapObjects (fun o => ?_) s
  rw [NetObject.ticked_eq]
  rfl

theorem catalog_foldl (fs : List Frame) (owner : Option Peer) (s : NetSystem) :
    (fs.foldl (fun s f => s.readEntityUpdate f owner) s).catalog shelved = s.catalog shelved := by
  induction fs generalizing s with
  | nil => rfl
  | cons f fs ih => rw [List.foldl_cons, ih, catalog_readEntityUpdate]

/-! ### A list that is named -/

theorem Keyed.instanceNames (h : s.Keyed) : (s.instances.map VirtualInstance.name).Nodup := by
  have hnames := h.instances
  rwa [catalog, List.map_map] at hnames

theorem Keyed.managerNames (h : s.Keyed) {i : VirtualInstance} (hi : i ∈ s.instances) :
    (i.managers.map CEntities.name).Nodup := by
  have hnames := h.managers _ (List.mem_map_of_mem hi)
  rwa [List.map_map] at hnames

theorem Keyed.netIDs (h : s.Keyed) {i : VirtualInstance} (hi : i ∈ s.instances) {m : CEntities}
    (hm : m ∈ i.managers) : (m.objects.map NetObject.netID).Nodup :=
  h.objects _ (List.mem_map_of_mem hi) _ (List.mem_map_of_mem hm)

end NetSystem

section

variable {target : AssociatedObject} {listID : UInt32} {f : ListContext → NetVarList → NetVarList}

/-- What a change of a named list makes of a shelf. -/
def Shelf.modifyAt (target : AssociatedObject) (listID : UInt32) (f : ListContext → NetVarList → NetVarList)
    (x : Shelf) : Shelf :=
  if x.object = target then x.modify listID f else x

theorem CEntities.map_modifyAt_shelves {n : Bytes} {m : CEntities}
    (h : ¬ (n = target.instanceName ∧ m.name = target.managerName)) :
    (m.shelves n).map (Shelf.modifyAt target listID f) = m.shelves n := by
  rw [shelves, List.map_map]
  refine List.map_congr_left fun o _ => if_neg fun e => h ?_
  exact ⟨congrArg AssociatedObject.instanceName e, congrArg AssociatedObject.managerName e⟩

/-- The change a list message makes in the manager it names. -/
theorem CEntities.shelves_modifyObject {m : CEntities} (hname : m.name = target.managerName)
    (h : (m.objects.map NetObject.netID).Nodup) :
    (m.modifyObject target.networkCode fun o => { o with
      lists := o.lists.modify listID.toNat
        (f ⟨⟨target.instanceName, m.name, o.netID⟩, m.getPlayers, o.peer, listID⟩) }).shelves
        target.instanceName = (m.shelves target.instanceName).map (Shelf.modifyAt target listID f) := by
  set g : NetObject → NetObject := fun o => { o with
    lists := o.lists.modify listID.toNat
      (f ⟨⟨target.instanceName, m.name, o.netID⟩, m.getPlayers, o.peer, listID⟩) } with hg
  have hplayers : (m.modifyObject target.networkCode g).getPlayers = m.getPlayers := by
    have hpeers : (modifyFirst (·.netID == target.networkCode) g m.objects).map NetObject.peer =
        m.objects.map NetObject.peer := map_modifyFirst fun _ _ => rfl
    have hmap := congrArg (List.filterMap id) hpeers
    rwa [List.filterMap_map, List.filterMap_map] at hmap
  have hshelf : ∀ o : NetObject, o.netID = target.networkCode →
      (g o).shelf target.instanceName m.name m.getPlayers =
        (o.shelf target.instanceName m.name m.getPlayers).modifyAt target listID f := fun o ho =>
    (if_pos (by rw [NetObject.shelf, hname, ho])).symm
  have hparts := flatMap_modifyFirst_of_key (F := g) (g := Shelf.modifyAt target listID f)
    (f := fun o => [o.shelf target.instanceName m.name m.getPlayers]) h
    (fun o _ ho => congrArg (fun x => [x]) (hshelf o ho))
    fun o _ ho => congrArg (fun x => [x]) (if_neg fun e => ho (congrArg AssociatedObject.networkCode e))
  rw [← List.map_eq_flatMap, ← List.map_eq_flatMap] at hparts
  rw [shelves, hplayers]
  exact hparts

/-- **A change of a named list changes the shelf of that name.** -/
theorem NetSystem.shelves_modifyList {s : NetSystem} (h : s.Keyed) :
    (s.modifyList target listID f).shelves = s.shelves.map (Shelf.modifyAt target listID f) := by
  refine flatMap_modifyFirst_of_key h.instanceNames (fun i hi hname => ?_) fun i _ hname => ?_
  · refine flatMap_modifyFirst_of_key (f := CEntities.shelves i.name) (h.managerNames hi)
      (fun m hm hmanager => ?_) fun m _ hmanager => ?_
    · rw [hname]
      exact CEntities.shelves_modifyObject hmanager (h.netIDs hi hm)
    · exact CEntities.map_modifyAt_shelves fun e => hmanager e.2
  · rw [VirtualInstance.shelves, List.map_flatMap]
    exact List.flatMap_congr fun m _ => CEntities.map_modifyAt_shelves fun e => hname e.1

/-! ### The walk -/

theorem CEntities.shelves_listUpdate (pb : Protobuf) (s : NetSystem) (n : Bytes) (m : CEntities) :
    (m.listUpdate pb s).1.shelves n = (m.shelves n).map (Shelf.flushed s.getFirstPeer) := by
  have hplayers : (m.listUpdate pb s).1.getPlayers = m.getPlayers := by
    rw [listUpdate, getPlayers, getPlayers, List.filterMap_map, List.filterMap_map]
    rfl
  have hobject : ∀ o : NetObject, ((o.updateListDelta pb s m.getPlayers).1).shelf n m.name m.getPlayers =
      (o.shelf n m.name m.getPlayers).flushed s.getFirstPeer := fun o => by
    rw [NetObject.updateListDelta, List.map_map]
    rfl
  rw [shelves, hplayers, shelves, listUpdate]
  show ((m.objects.map _).map Prod.fst).map (NetObject.shelf n m.name m.getPlayers) = _
  rw [List.map_map, List.map_map, List.map_map]
  exact List.map_congr_left fun o _ => hobject o

/-- **What the walk leaves of the lists.** -/
theorem NetSystem.shelves_listUpdate (pb : Protobuf) (s : NetSystem) :
    (s.listUpdate pb).1.shelves = s.shelves.map (Shelf.flushed s.getFirstPeer) := by
  have hinstance : ∀ i : VirtualInstance, (i.listUpdate pb s).1.shelves =
      i.shelves.map (Shelf.flushed s.getFirstPeer) := fun i => by
    rw [VirtualInstance.shelves, VirtualInstance.listUpdate, List.map_map, List.flatMap_map,
      VirtualInstance.shelves, List.map_flatMap]
    exact List.flatMap_congr fun m _ => m.shelves_listUpdate pb s i.name
  rw [shelves, listUpdate, List.map_map, List.flatMap_map, shelves, List.map_flatMap]
  exact List.flatMap_congr fun i _ => hinstance i

/-- **What the walk sends.** -/
theorem NetSystem.listUpdate_snd (pb : Protobuf) (s : NetSystem) :
    (s.listUpdate pb).2 = s.shelves.flatMap (Shelf.sends pb s) := by
  have hobject : ∀ (n managerName : Bytes) (players : List Peer) (o : NetObject),
      (o.updateListDelta pb s players).2 = (o.shelf n managerName players).sends pb s := by
    intro n managerName players o
    rw [NetObject.updateListDelta, Shelf.sends, Shelf.delta, List.flatMap_assoc]
    exact List.flatMap_map ..
  have hmanager : ∀ (n : Bytes) (m : CEntities),
      (m.listUpdate pb s).2 = (m.shelves n).flatMap (Shelf.sends pb s) := by
    intro n m
    rw [CEntities.listUpdate, List.flatMap_map, CEntities.shelves, List.flatMap_map]
    exact List.flatMap_congr fun o _ => hobject n m.name m.getPlayers o
  have hinstance : ∀ i : VirtualInstance, (i.listUpdate pb s).2 = i.shelves.flatMap (Shelf.sends pb s) := by
    intro i
    rw [VirtualInstance.listUpdate, List.flatMap_map, VirtualInstance.shelves, List.flatMap_assoc]
    exact List.flatMap_congr fun m _ => hmanager i.name m
  rw [listUpdate, List.flatMap_map, shelves, List.flatMap_assoc]
  exact List.flatMap_congr fun i _ => hinstance i

end

/-! ## What the queues name -/

/-- The queue of the list at a position holds messages about this list. -/
def NetVarList.Addressed (object : AssociatedObject) (n : ℕ) (l : NetVarList) : Prop :=
  ∀ q ∈ l.updateQueue, q.msg.target = object ∧ q.msg.listID.toNat = n

namespace NetVarList.Addressed

variable {ctx : ListContext} {l : NetVarList}

theorem relay (h : l.Addressed ctx.object ctx.listID.toNat) {msg : ListMsg}
    (htarget : msg.target = ctx.object) (hid : msg.listID = ctx.listID) :
    (l.relay ctx msg).Addressed ctx.object ctx.listID.toNat := by
  rw [NetVarList.relay]
  split_ifs
  · exact h
  · intro q hq
    rcases List.mem_append.mp hq with hq | hq
    · exact h q hq
    · rw [List.mem_singleton.mp hq]
      exact ⟨htarget, congrArg UInt32.toNat hid⟩

/-- What a list passes on names the list. -/
theorem onRemote (h : l.Addressed ctx.object ctx.listID.toNat) (msg : ListMsg) :
    (l.onRemote ctx msg).Addressed ctx.object ctx.listID.toNat := by
  cases msg with
  | add m =>
    show (l.onRemoteAdd ctx m).Addressed _ _
    rw [onRemoteAdd]
    split_ifs
    · exact relay (l := ((l.subscript m.key).overwrite m.key m.value).subscript m.key) h rfl rfl
    · exact h
  | update m =>
    show (l.onRemoteUpdate ctx m).Addressed _ _
    rw [onRemoteUpdate]
    split_ifs
    · exact relay (l := (l.overwrite m.key m.value).subscript m.key) h rfl rfl
    · exact h
  | remove m => exact relay (l := l.subscript m.key) h rfl rfl

theorem logs {l' : NetVarList} {ms : List ListMsg} (h : l.Addressed ctx.object ctx.listID.toNat)
    (log : NetVarList.Logs ctx l l' ms) : l'.Addressed ctx.object ctx.listID.toNat := by
  intro q hq
  rw [log.queue] at hq
  rcases List.mem_append.mp hq with hq | hq
  · exact h q hq
  · obtain ⟨msg, hmsg, rfl⟩ := List.mem_map.mp hq
    exact ⟨(log.addressed msg hmsg).1, congrArg UInt32.toNat (log.addressed msg hmsg).2⟩

end NetVarList.Addressed

namespace NetSystem

def Addressed (s : NetSystem) : Prop :=
  ∀ x ∈ s.shelves, ∀ n l, x.lists[n]? = some l → NetVarList.Addressed x.object n l

variable {s s' : NetSystem}

theorem Addressed.congr (h : s.Addressed) (hs : s'.shelves = s.shelves) : s'.Addressed := by
  rwa [Addressed, hs]

/-- What a change of the list at a position queues names the list. -/
def Addresses (listID : UInt32) (f : ListContext → NetVarList → NetVarList) : Prop :=
  ∀ ctx l, ctx.listID = listID → NetVarList.Addressed ctx.object ctx.listID.toNat l →
    NetVarList.Addressed ctx.object ctx.listID.toNat (f ctx l)

theorem Addressed.modifyList (h : s.Addressed) (hkeyed : s.Keyed) {target : AssociatedObject}
    {listID : UInt32} {f : ListContext → NetVarList → NetVarList} (hf : Addresses listID f) :
    (s.modifyList target listID f).Addressed := by
  rw [Addressed, shelves_modifyList hkeyed]
  intro y hy n l hl
  obtain ⟨x, hx, rfl⟩ := List.mem_map.mp hy
  rw [Shelf.modifyAt] at hl ⊢
  split_ifs at hl ⊢
  · by_cases hn : listID.toNat = n
    · subst hn
      rw [Shelf.modify, List.getElem?_modify_eq, Option.map_eq_map, Option.map_eq_some_iff] at hl
      obtain ⟨l', hl', rfl⟩ := hl
      exact hf (x.context listID) l' rfl (h x hx _ l' hl')
    · rw [Shelf.modify, List.getElem?_modify_ne _ _ hn] at hl
      exact h x hx n l hl
  · exact h x hx n l hl

theorem Addressed.listUpdate (pb : Protobuf) (s : NetSystem) : (s.listUpdate pb).1.Addressed := by
  rw [Addressed, shelves_listUpdate]
  intro y hy n l hl q hq
  obtain ⟨x, -, rfl⟩ := List.mem_map.mp hy
  rw [Shelf.flushed, List.getElem?_map, Option.map_eq_some_iff] at hl
  obtain ⟨l', -, rfl⟩ := hl
  exact absurd hq List.not_mem_nil

end NetSystem

/-! ## Lists that are kept -/

namespace NetSystem

/-- The controller keeps the list `l`, and a message for it finds what `ctx` says. -/
def Keeps (ctx : ListContext) (l : NetVarList) (s : NetSystem) : Prop :=
  ∃ x ∈ s.shelves, x.context ctx.listID = ctx ∧ x.lists[ctx.listID.toNat]? = some l

variable {s s' : NetSystem} {ctx : ListContext} {l : NetVarList}

theorem Keeps.congr (h : s.Keeps ctx l) (hs : s'.shelves = s.shelves) : s'.Keeps ctx l := by
  rwa [Keeps, hs]

theorem Keeps.modifyList (h : s.Keeps ctx l) (hkeyed : s.Keyed) (target : AssociatedObject)
    (listID : UInt32) (f : ListContext → NetVarList → NetVarList) : (s.modifyList target listID f).Keeps ctx
      (if target = ctx.object ∧ listID = ctx.listID then f ctx l else l) := by
  obtain ⟨x, hx, hctx, hl⟩ := h
  have hobject : x.object = ctx.object := congrArg ListContext.object hctx
  refine ⟨x.modifyAt target listID f, ?_, ?_, ?_⟩
  · rw [shelves_modifyList hkeyed]
    exact List.mem_map_of_mem hx
  · rw [Shelf.modifyAt]
    split_ifs <;> exact hctx
  · rw [Shelf.modifyAt, hobject]
    by_cases ht : ctx.object = target
    · rw [if_pos ht, Shelf.modify]
      by_cases hid : listID = ctx.listID
      · subst hid
        rw [List.getElem?_modify_eq, hl, if_pos ⟨ht.symm, rfl⟩, hctx]
        rfl
      · rw [List.getElem?_modify_ne _ _ fun e => hid (UInt32.toNat_inj.mp e), if_neg fun e => hid e.2]
        exact hl
    · rw [if_neg ht, if_neg fun e => ht e.1.symm]
      exact hl

theorem Keeps.listUpdate (h : s.Keeps ctx l) (pb : Protobuf) :
    (s.listUpdate pb).1.Keeps ctx (l.updateListDelta ctx.players s.getFirstPeer).1 := by
  obtain ⟨x, hx, hctx, hl⟩ := h
  refine ⟨x.flushed s.getFirstPeer, ?_, hctx, ?_⟩
  · rw [shelves_listUpdate]
    exact List.mem_map_of_mem hx
  · have hplayers : x.players = ctx.players := congrArg ListContext.players hctx
    rw [Shelf.flushed, List.getElem?_map, hl, ← hplayers]
    rfl

/-- A message finds the list it names. -/
theorem Keeps.findList (h : s.Keeps ctx l) (hkeyed : s.Keyed) :
    s.findList ctx.object ctx.listID = some l := by
  obtain ⟨x, hx, hctx, hl⟩ := h
  obtain ⟨i, hi, hx⟩ := List.mem_flatMap.mp hx
  obtain ⟨m, hm, hx⟩ := List.mem_flatMap.mp hx
  obtain ⟨o, ho, rfl⟩ := List.mem_map.mp hx
  have hobject : ctx.object = ⟨i.name, m.name, o.netID⟩ := (congrArg ListContext.object hctx).symm
  have hinstance : s.getInstance i.name = some i := find?_of_key hkeyed.instanceNames hi
  have hmanager : i.getManager m.name = some m := find?_of_key (hkeyed.managerNames hi) hm
  have hfound : m.getByNetID o.netID = some o := find?_of_key (hkeyed.netIDs hi hm) ho
  rw [NetSystem.findList, hobject, hinstance, Option.bind_some, hmanager, Option.bind_some, hfound]
  exact hl

/-- Names of objects are distinct. -/
theorem Keyed.nodup_shelves (h : s.Keyed) : (s.shelves.map Shelf.object).Nodup := by
  have hmem : ∀ (i : VirtualInstance) (m : CEntities) (t : AssociatedObject),
      t ∈ (m.shelves i.name).map Shelf.object → t.instanceName = i.name ∧ t.managerName = m.name := by
    intro i m t ht
    rw [CEntities.shelves, List.map_map] at ht
    obtain ⟨o, -, rfl⟩ := List.mem_map.mp ht
    exact ⟨rfl, rfl⟩
  rw [shelves, List.map_flatMap, List.nodup_flatMap]
  constructor
  · intro i hi
    rw [VirtualInstance.shelves, List.map_flatMap, List.nodup_flatMap]
    constructor
    · intro m hm
      rw [CEntities.shelves, List.map_map]
      refine List.Nodup.map_on ?_ (List.Nodup.of_map NetObject.netID (h.netIDs hi hm))
      exact fun o ho o' ho' e => List.inj_on_of_nodup_map (h.netIDs hi hm) ho ho'
        (congrArg AssociatedObject.networkCode e)
    · refine (List.pairwise_map.mp (h.managerNames hi)).imp fun hne => ?_
      exact List.disjoint_left.mpr fun t ht ht' => hne ((hmem i _ t ht).2.symm.trans (hmem i _ t ht').2)
  · refine (List.pairwise_map.mp h.instanceNames).imp fun hne => ?_
    refine List.disjoint_left.mpr fun t ht ht' => ?_
    simp only [VirtualInstance.shelves, List.map_flatMap, List.mem_flatMap] at ht ht'
    obtain ⟨m, -, ht⟩ := ht
    obtain ⟨m', -, ht'⟩ := ht'
    exact hne ((hmem _ m t ht).1.symm.trans (hmem _ m' t ht').1)

/-! ## What leaves a list alone -/

/-- Names find one object, and the queues are addressed. -/
structure Shelved (s : NetSystem) : Prop where
  keyed : s.Keyed
  addressed : s.Addressed

theorem Shelved.congr (h : s.Shelved) (hs : s'.catalog shelved = s.catalog shelved) : s'.Shelved :=
  ⟨h.keyed.congr (by rw [catalog_netID_eq, catalog_netID_eq, hs]), h.addressed.congr (shelves_congr hs)⟩

theorem Shelved.modifyList (h : s.Shelved) (target : AssociatedObject) {listID : UInt32}
    {f : ListContext → NetVarList → NetVarList} (hf : Addresses listID f) :
    (s.modifyList target listID f).Shelved :=
  ⟨h.keyed.congr (catalog_modifyList (fun _ _ => rfl) target listID f s), h.addressed.modifyList h.keyed hf⟩

theorem Shelved.listUpdate (h : s.Shelved) (pb : Protobuf) : (s.listUpdate pb).1.Shelved :=
  ⟨h.keyed.congr (catalog_listUpdate (fun _ _ => rfl) pb s), Addressed.listUpdate pb s⟩

/-- The copies of a list, if there are any, have an empty queue and pass nothing on. -/
def Silent (object : AssociatedObject) (listID : UInt32) (s : NetSystem) : Prop :=
  ∀ x ∈ s.shelves, x.object = object → x.players = [] ∧
    ∀ l, x.lists[listID.toNat]? = some l → l.updateQueue = []

variable {object target : AssociatedObject} {listID listID' : UInt32}
  {f : ListContext → NetVarList → NetVarList}

/-- A copy stays silent as long as what is done to it queues nothing. -/
theorem Silent.modifyList (h : s.Silent object listID) (hkeyed : s.Keyed)
    (hf : target = object → listID' = listID → ∀ ctx l, ctx.players = [] → l.updateQueue = [] →
      (f ctx l).updateQueue = []) : (s.modifyList target listID' f).Silent object listID := by
  rw [Silent, shelves_modifyList hkeyed]
  intro y hy
  obtain ⟨x, hx, rfl⟩ := List.mem_map.mp hy
  rw [Shelf.modifyAt]
  split_ifs with ht
  · intro hobject
    obtain ⟨hplayers, hqueue⟩ := h x hx hobject
    refine ⟨hplayers, fun l hl => ?_⟩
    by_cases hid : listID' = listID
    · subst hid
      rw [Shelf.modify, List.getElem?_modify_eq, Option.map_eq_map, Option.map_eq_some_iff] at hl
      obtain ⟨l', hl', rfl⟩ := hl
      exact hf (ht.symm.trans hobject) rfl _ l' hplayers (hqueue l' hl')
    · rw [Shelf.modify, List.getElem?_modify_ne _ _ fun e => hid (UInt32.toNat_inj.mp e)] at hl
      exact hqueue l hl
  · exact h x hx

theorem Silent.listUpdate (h : s.Silent object listID) (pb : Protobuf) :
    (s.listUpdate pb).1.Silent object listID := by
  rw [Silent, shelves_listUpdate]
  intro y hy hobject
  obtain ⟨x, hx, rfl⟩ := List.mem_map.mp hy
  refine ⟨(h x hx hobject).1, fun l hl => ?_⟩
  rw [Shelf.flushed, List.getElem?_map, Option.map_eq_some_iff] at hl
  obtain ⟨l', -, rfl⟩ := hl
  rfl

/-- What happened has nothing to do with the list. -/
structure LeavesList (object : AssociatedObject) (listID : UInt32) (s s' : NetSystem) : Prop where
  shelved : s'.Shelved
  keeps : ∀ ctx l, ctx.object = object → ctx.listID = listID → s.Keeps ctx l → s'.Keeps ctx l
  silent : s.Silent object listID → s'.Silent object listID

theorem LeavesList.refl (h : s.Shelved) : LeavesList object listID s s := ⟨h, fun _ _ _ _ => id, id⟩

/-- The lists are not touched. -/
theorem LeavesList.of_catalog (h : s.Shelved)
    (hs : s'.catalog NetSystem.shelved = s.catalog NetSystem.shelved) : LeavesList object listID s s' where
  shelved := h.congr hs
  keeps _ _ _ _ hkeeps := hkeeps.congr (shelves_congr hs)
  silent hsilent := by rwa [Silent, shelves_congr hs]

/-- The walk leaves a silent list as it is. -/
theorem LeavesList.listUpdate (h : s.Shelved) (hs : s.Silent object listID) (pb : Protobuf) :
    LeavesList object listID s (s.listUpdate pb).1 where
  shelved := h.listUpdate pb
  keeps ctx l hobject hid hkeeps := by
    have hqueue : l.updateQueue = [] := by
      obtain ⟨x, hx, hctx, hl⟩ := hkeeps
      exact (hs x hx ((congrArg ListContext.object hctx).trans hobject)).2 l (hid ▸ hl)
    have hupdate := hkeeps.listUpdate pb
    rwa [show (l.updateListDelta ctx.players s.getFirstPeer).1 = { l with updateQueue := [] } from rfl,
      ← hqueue] at hupdate
  silent hsilent := hsilent.listUpdate pb

/-- **Another list is changed.** -/
theorem LeavesList.modifyList (h : s.Shelved) (hf : Addresses listID' f)
    (hother : ¬ (target = object ∧ listID' = listID)) :
    LeavesList object listID s (s.modifyList target listID' f) where
  shelved := h.modifyList target hf
  keeps ctx l hobject hid hkeeps := by
    have hmod := hkeeps.modifyList h.keyed target listID' f
    rwa [if_neg (by rwa [hobject, hid])] at hmod
  silent hsilent := hsilent.modifyList h.keyed fun ht hid => absurd ⟨ht, hid⟩ hother

end NetSystem

end Nettik
