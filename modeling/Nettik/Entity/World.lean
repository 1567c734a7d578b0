import Nettik.Entity.Grant
import Nettik.Entity.InTouch
import Nettik.Lib.Links

/-!
# The server and its clients

* `World`: the server and the connected clients; `step` is a `Build`, a release, a join or a delivery;
* `Proper`, `InSequence`: the joins that can happen, and the condition on builds and deliveries;
* **`sets_agree`**: once all packets are processed the clients hold the server's objects.
-/

namespace Nettik

open ByteMem Loops Links Channels

variable {pb : Protobuf} {instanceName : Bytes} {names : List Bytes} {i : VirtualInstance} {m : CEntities}

/-! ## Runs -/

structure World where
  server : NetSystem
  links : List Link := []

inductive WorldAct where
  | build (managerName : Bytes) (pOwner : Option Peer)
  | release (managerName : Bytes) (held : ObjRef → Bool)
  | connect (peer : Peer) (client : NetSystem)
  | deliver (k channel : ℕ)

namespace World

/-- The server does something, and the transport carries what it sends. -/
def send (w : World) (r : NetSystem × List Send) : World := ⟨r.1, w.links.map (Link.post r.2)⟩

/-- `host` is the server's peer at the clients, `past` what lies behind a packet in memory. -/
def step (pb : Protobuf) (past : Bytes → Mem) (host : Peer) (instanceName : Bytes) (w : World) :
    WorldAct → World
  | .build managerName pOwner => w.send (w.server.build pb instanceName managerName pOwner)
  | .release managerName held => w.send (w.server.postUpdate instanceName managerName held)
  | .connect peer client =>
    let w' : World := { w with links := w.links ++ [⟨peer, client, fun _ => []⟩] }
    w'.send (w.server.connectHandler pb peer)
  | .deliver k channel => { w with links := w.links.modify k (Link.deliver pb past host channel) }

/-- A client that connects is a new peer, knows the instance and its managers, and has no object. -/
def Proper (instanceName : Bytes) (names : List Bytes) (w : World) : WorldAct → Prop
  | .connect peer client => (∀ l ∈ w.links, l.peer ≠ peer) ∧ Aware instanceName names client ∧
      client.entities instanceName = ∅
  | _ => True

/-- The new net id is not in use, and every client is told of it: by an announcement that can be read,
or as the owner, when no deletion of that net id is on its way to it. -/
def BuildsInOrder (instanceName managerName : Bytes) (pOwner : Option Peer) (w : World) : Prop :=
  (managerName, w.server.totalEntities) ∉ w.server.entities instanceName ∧
  ∀ i, w.server.getInstance instanceName = some i → ∀ l ∈ w.links,
    (i.emitted true false).length < 65535 ∨
      (pOwner = some l.peer ∧ .dealloc managerName w.server.totalEntities ∉ l.news 0)

/-- Builds are in order, and no deletion overtakes the creation of its object. -/
def InSequence (instanceName : Bytes) (w : World) : WorldAct → Prop
  | .build managerName pOwner => w.BuildsInOrder instanceName managerName pOwner
  | .deliver k 0 => ∀ l ∈ w.links[k]?, l.NoOvertaking
  | _ => True

/-- The server serves, and every client is in touch. -/
structure Agrees (pb : Protobuf) (instanceName : Bytes) (names : List Bytes) (w : World) : Prop where
  serving : ∃ i, i.name = instanceName ∧ Serving names w.server i
  links : ∀ l ∈ w.links, InTouch pb instanceName names (w.server.entities instanceName) l


variable {w : World}

/-- A step whose messages keep every client in touch. -/
theorem agrees_send {r : NetSystem × List Send} (hs : ∃ i, i.name = instanceName ∧ Serving names r.1 i)
    (hlinks : ∀ l ∈ w.links, InTouch pb instanceName names (r.1.entities instanceName) (l.post r.2)) :
    (w.send r).Agrees pb instanceName names := by
  refine ⟨hs, ?_⟩
  intro l' hl'
  obtain ⟨l, hl, rfl⟩ := List.mem_map.mp hl'
  exact hlinks l hl

/-- A step without an effect. -/
theorem agrees_quiet (h : w.Agrees pb instanceName names) :
    (w.send (w.server, [])).Agrees pb instanceName names :=
  agrees_send h.serving fun l hl => (h.links l hl).post_quiet (Told.nil l.peer)

theorem agrees_build (h : w.Agrees pb instanceName names) (managerName : Bytes) (pOwner : Option Peer)
    (hok : w.BuildsInOrder instanceName managerName pOwner) :
    (w.send (w.server.build pb instanceName managerName pOwner)).Agrees pb instanceName names := by
  obtain ⟨i, rfl, hs⟩ := h.serving
  cases hm : i.getManager managerName with
  | none =>
    -- an unknown manager
    have hnone : w.server.build pb i.name managerName pOwner = (w.server, []) := by
      rw [NetSystem.build, hs.getInstance]
      simp only [hm]
    rw [hnone]
    exact agrees_quiet h
  | some m =>
    obtain rfl := name_of_getManager hm
    have hmem := List.mem_of_find?_eq_some hm
    have hfit := hs.fit m hmem
    have hnew : w.server.totalEntities ∉ m.roll.map Prod.fst := by
      rw [← hs.mem_entities hm]
      exact hok.1
    have hbuildable : Buildable w.server i m :=
      ⟨⟨hs.server, hs.running, hs.getInstance, hm⟩, hfit.named, hs.varNamesFit, hfit.classNames⟩
    have hn : m.name ∈ names := by
      rw [← hs.names_eq]
      exact List.mem_map_of_mem hmem
    obtain ⟨i', hname, hs', hentities⟩ := hs.build pb hm hnew pOwner
    refine agrees_send ⟨i', hname, hs'⟩ fun l hl => ?_
    rw [hentities]
    apply (h.links l hl).build hbuildable hn _ pOwner (hok.2 i hs.getInstance l hl)
    intro o ho
    rw [hs.mem_entities hm, CEntities.roll, List.map_map]
    exact List.mem_map_of_mem ho

theorem agrees_release (h : w.Agrees pb instanceName names) (managerName : Bytes) (held : ObjRef → Bool) :
    (w.send (w.server.postUpdate instanceName managerName held)).Agrees pb instanceName names := by
  obtain ⟨i, rfl, hs⟩ := h.serving
  cases hm : i.getManager managerName with
  | none =>
    have hnone : w.server.postUpdate i.name managerName held = (w.server, []) := by
      rw [NetSystem.postUpdate, hs.getInstance, Option.bind_some, hm]
    rw [hnone]
    exact agrees_quiet h
  | some m =>
    obtain rfl := name_of_getManager hm
    have hn : m.name ∈ names := by
      rw [← hs.names_eq]
      exact List.mem_map_of_mem (List.mem_of_find?_eq_some hm)
    obtain ⟨i', hname, hs', hentities⟩ := hs.release hm held
    refine agrees_send ⟨i', hname, hs'⟩ fun l hl => ?_
    rw [hentities]
    exact (h.links l hl).release hs hm hn held

theorem agrees_connect (h : w.Agrees pb instanceName names) {peer : Peer} {client : NetSystem}
    (hpeer : ∀ l ∈ w.links, l.peer ≠ peer) (hc : Aware instanceName names client)
    (hempty : client.entities instanceName = ∅) (past : Bytes → Mem) (host : Peer) :
    (w.step pb past host instanceName (.connect peer client)).Agrees pb instanceName names := by
  obtain ⟨i, rfl, hs⟩ := h.serving
  obtain ⟨i', hname, hs', hentities⟩ := hs.connect pb peer
  refine agrees_send ⟨i', hname, hs'⟩ fun l hl => ?_
  rw [hentities]
  rcases List.mem_append.mp hl with hl | hl
  · apply (h.links l hl).post_quiet
    have htold : Told pb i.name names l.peer _ _ _ := hs.told_join l.peer peer
    rwa [if_neg (hpeer l hl).symm] at htold
  · rw [List.mem_singleton.mp hl]
    exact InTouch.connect hs hc hempty

theorem agrees_deliver (h : w.Agrees pb instanceName names) (past : Bytes → Mem) (host : Peer)
    (k channel : ℕ) (hok : w.InSequence instanceName (.deliver k channel)) :
    (w.step pb past host instanceName (.deliver k channel)).Agrees pb instanceName names := by
  refine ⟨h.serving, ?_⟩
  intro l hl
  obtain ⟨n, hn, rfl⟩ := List.mem_iff_getElem.mp hl
  have hn' : n < w.links.length := by simpa [step] using hn
  have hget := h.links w.links[n] (List.getElem_mem hn')
  simp only [step, List.getElem_modify]
  split_ifs with hk
  · apply hget.deliver past host channel
    rintro rfl
    apply hok
    rw [hk, List.getElem?_eq_getElem hn']
    rfl
  · exact hget

/-- **Every step keeps the clients in touch.** -/
theorem agrees_step (past : Bytes → Mem) (host : Peer) (w : World) (a : WorldAct)
    (h : w.Agrees pb instanceName names)
    (hok : w.Proper instanceName names a ∧ w.InSequence instanceName a) :
    (w.step pb past host instanceName a).Agrees pb instanceName names := by
  cases a with
  | build managerName pOwner => exact agrees_build h managerName pOwner hok.2
  | release managerName held => exact agrees_release h managerName held
  | connect peer client => exact agrees_connect h hok.1.1 hok.1.2.1 hok.1.2.2 past host
  | deliver k channel => exact agrees_deliver h past host k channel hok.2

/-- **Entity sets agree.** In a run in which no deletion overtakes the creation of its object, and
every `Build` has a new net id and is announced to every client, a client that processed everything
holds exactly the objects of the server. -/
theorem sets_agree {s : NetSystem} {i : VirtualInstance} (hs : Serving names s i)
    (past : Bytes → Mem) (host : Peer) {acts : List WorldAct}
    (hok : Along (step pb past host i.name)
      (fun w a => w.Proper i.name names a ∧ w.InSequence i.name a) ⟨s, []⟩ acts) :
    ∀ l ∈ (run (step pb past host i.name) ⟨s, []⟩ acts).links, (∀ channel, l.inFlight channel = []) →
      l.client.entities i.name =
        (run (step pb past host i.name) ⟨s, []⟩ acts).server.entities i.name := by
  have hstart : Agrees pb i.name names ⟨s, []⟩ := ⟨⟨i, rfl, hs⟩, by simp⟩
  have h : Agrees pb i.name names (run (step pb past host i.name) ⟨s, []⟩ acts) :=
    run_inv (agrees_step past host) hstart hok
  intro l hl hidle
  have hsettles := (h.links l hl).settles
  rw [Link.events, Link.events, Link.news, Link.news, hidle, hidle] at hsettles
  exact hsettles

theorem grantServer_serving : Serving [grantManager.name] grantServer grantInstance where
  server := rfl
  running := rfl
  instances := rfl
  names_eq := rfl
  names_nodup := List.nodup_singleton _
  fit := by
    intro m hm
    rw [List.mem_singleton.mp hm]
    exact ⟨⟨by decide, by decide, by decide, by decide⟩, by simp [grantManager],
      by simp [grantManager, ObjectClass.bare], List.nodup_nil⟩

theorem entities_of_bare {s : NetSystem} (hs : s.instances = [grantInstance]) :
    s.entities grantInstance.name = ∅ := by
  ext ⟨n, id⟩
  have hm : ∀ m, s.managerOf grantInstance.name n = some m → m = grantManager := by
    intro m hm
    have hinst : s.getInstance grantInstance.name = some grantInstance := by
      simp [NetSystem.getInstance, hs]
    rw [NetSystem.managerOf, hinst, Option.bind_some] at hm
    exact List.mem_singleton.mp (List.mem_of_find?_eq_some hm)
  simp only [NetSystem.entities, Set.mem_ofPred_eq, Set.mem_empty_iff_false, iff_false]
  rintro ⟨m, hmanager, o, ho, -⟩
  rw [hm m hmanager] at ho
  exact List.not_mem_nil ho

/-- A client joins after the object is built, and hears of it. -/
def lateJoin : List WorldAct :=
  [.build grantManager.name none, .connect 1 grantClient, .deliver 0 1]

theorem sets_agree_lateJoin :
    (run (step Protobuf.wire (fun _ => Mem.zero) 0 grantInstance.name) ⟨grantServer, []⟩
      lateJoin).links.length = 1 ∧
    ∀ l ∈ (run (step Protobuf.wire (fun _ => Mem.zero) 0 grantInstance.name) ⟨grantServer, []⟩ lateJoin).links,
      (∀ channel, l.inFlight channel = []) → l.client.entities grantInstance.name =
        (run (step Protobuf.wire (fun _ => Mem.zero) 0 grantInstance.name) ⟨grantServer, []⟩
          lateJoin).server.entities grantInstance.name := by
  refine ⟨rfl, ?_⟩
  apply sets_agree grantServer_serving
  refine ⟨⟨trivial, ?_, ?_⟩, ⟨⟨?_, grantClient_aware, entities_of_bare rfl⟩, trivial⟩,
    ⟨trivial, trivial⟩, trivial⟩
  · rw [entities_of_bare rfl]
    exact Set.notMem_empty _
  · intro i _ l hl
    exact absurd hl List.not_mem_nil
  · intro l hl
    exact absurd hl List.not_mem_nil

/-- A client joins; the object is freed, and the deletion arrives before the creation. -/
def ghost : List WorldAct :=
  [.build grantManager.name none, .connect 1 grantClient, .release grantManager.name (fun _ => false),
    .deliver 0 0, .deliver 0 1]

/-- The frames of the two packets. -/
def ghostCreation : Bytes :=
  packetOf 0 [(EntityMsg.alloc grantManager.name 0 netControllerNone).frame grantInstance.name]

def ghostDeletion : Bytes :=
  packetOf 0 [(EntityMsg.dealloc grantManager.name 0).frame grantInstance.name]

theorem ghost_sent : (run (step Protobuf.wire (fun _ => Mem.zero) 0 grantInstance.name) ⟨grantServer, []⟩
    (ghost.take 3)).links = [⟨1, grantClient, fun channel =>
      if channel = 0 then [ghostDeletion] else if channel = 1 then [ghostCreation] else []⟩] := by
  set s₁ := (grantServer.build Protobuf.wire grantInstance.name grantManager.name none).1 with hs₁
  set s₂ := (s₁.connectHandler Protobuf.wire 1).1 with hs₂
  have hjoin : (s₁.connectHandler Protobuf.wire 1).2 = [ghostCreation].map (reliably 1) := by
    have hinst : s₁.instances = [grantServer.extendedInstance grantInstance grantManager none] := by
      rw [hs₁, build_none grantServer_buildable.toBuilds]
      rfl
    have hrun : s₁.running = true := by
      rw [hs₁, build_none grantServer_buildable.toBuilds]
      rfl
    rw [connectHandler_sends Protobuf.wire 1 hrun hinst]
    rfl
  have hfree : (s₂.postUpdate grantInstance.name grantManager.name fun _ => false).2 =
      [ghostDeletion].map (toAll true) := by
    rfl
  have hlinks : (run (step Protobuf.wire (fun _ => Mem.zero) 0 grantInstance.name) ⟨grantServer, []⟩
      (ghost.take 3)).links = [⟨1, grantClient, fun channel =>
        ([] ++ queued 1 channel (s₁.connectHandler Protobuf.wire 1).2) ++ queued 1 channel
          (s₂.postUpdate grantInstance.name grantManager.name fun _ => false).2⟩] := rfl
  rw [hlinks, hjoin, hfree]
  congr 2
  funext channel
  rw [queued_reliably, queued_toAll]
  by_cases h₀ : channel = 0
  · simp [h₀]
  · by_cases h₁ : channel = 1 <;> simp [h₀, h₁]

theorem ghost_proper : Along (step Protobuf.wire (fun _ => Mem.zero) 0 grantInstance.name)
    (Proper grantInstance.name [grantManager.name]) ⟨grantServer, []⟩ ghost := by
  refine ⟨trivial, ⟨?_, grantClient_aware, entities_of_bare rfl⟩, trivial, trivial, trivial, trivial⟩
  intro l hl
  exact absurd hl List.not_mem_nil

/-- The client that is told of the deletion first keeps the freed object. -/
theorem not_sets_agree_ghost :
    ¬ ∀ acts, Along (step Protobuf.wire (fun _ => Mem.zero) 0 grantInstance.name)
        (Proper grantInstance.name [grantManager.name]) ⟨grantServer, []⟩ acts →
      ∀ l ∈ (run (step Protobuf.wire (fun _ => Mem.zero) 0 grantInstance.name) ⟨grantServer, []⟩ acts).links,
        (∀ channel, l.inFlight channel = []) → l.client.entities grantInstance.name =
          (run (step Protobuf.wire (fun _ => Mem.zero) 0 grantInstance.name) ⟨grantServer, []⟩
            acts).server.entities grantInstance.name := by
  intro hall
  set l : Link := ⟨1, grantClient, fun channel =>
    if channel = 0 then [ghostDeletion] else if channel = 1 then [ghostCreation] else []⟩
  have hnamed : Named grantInstance.name grantManager.name :=
    (grantServer_serving.fit grantManager List.mem_cons_self).named
  have hdelete : Says Protobuf.wire grantInstance.name [grantManager.name] [ghostDeletion]
      [.dealloc grantManager.name 0] := says_single List.mem_cons_self hnamed
  have hcreate : Says Protobuf.wire grantInstance.name [grantManager.name] [ghostCreation]
      [.alloc grantManager.name 0 netControllerNone] := says_single List.mem_cons_self hnamed
  have hdeleteNews : newsOf ghostDeletion = [.dealloc grantManager.name 0] := by
    simpa using hdelete.news
  have hcreateNews : newsOf ghostCreation = [.alloc grantManager.name 0 netControllerNone] := by
    simpa using hcreate.news
  -- the deletion is ignored, and the creation builds the object
  have hqueue₀ : l.inFlight 0 = [ghostDeletion] := rfl
  obtain ⟨c₁, hl₁, hc₁, he₁⟩ := Link.deliver_cons grantClient_aware (fun _ => Mem.zero) 0 hqueue₀
    (hdelete.carries _ List.mem_cons_self) (by simp [hdeleteNews, EntityMsg.managerName])
  set l₁ := l.deliver Protobuf.wire (fun _ => Mem.zero) 0 0
  have hqueue₁ : l₁.inFlight 1 = [ghostCreation] := by
    rw [hl₁]
    rfl
  have haware₁ : Aware grantInstance.name [grantManager.name] l₁.client := by
    rwa [hl₁]
  obtain ⟨c₂, hl₂, hc₂, he₂⟩ := Link.deliver_cons haware₁ (fun _ => Mem.zero) 0 hqueue₁
    (hcreate.carries _ List.mem_cons_self) (by simp [hcreateNews, EntityMsg.managerName])
  set l₂ := l₁.deliver Protobuf.wire (fun _ => Mem.zero) 0 1
  have hlinks : (run (step Protobuf.wire (fun _ => Mem.zero) 0 grantInstance.name) ⟨grantServer, []⟩
      ghost).links = [l₂] := by
    show (((run (step Protobuf.wire (fun _ => Mem.zero) 0 grantInstance.name) ⟨grantServer, []⟩
      (ghost.take 3)).links.modify 0 _).modify 0 _) = _
    rw [ghost_sent]
    rfl
  have hidle : ∀ channel, l₂.inFlight channel = [] := by
    intro channel
    rw [hl₂, hl₁]
    by_cases h₁ : channel = 1
    · rw [h₁]
      rfl
    · by_cases h₀ : channel = 0
      · rw [h₀]
        rfl
      · simp [l, h₀, h₁]
  have hheld : (grantManager.name, 0) ∈ l₂.client.entities grantInstance.name := by
    rw [hl₂, he₂, hcreateNews]
    exact Set.mem_insert _ _
  have hroll : (rosterOf grantInstance.name (run (step Protobuf.wire (fun _ => Mem.zero) 0
      grantInstance.name) ⟨grantServer, []⟩ ghost).server).roll grantManager.name = some [] := rfl
  rw [hall ghost ghost_proper l₂ (by rw [hlinks]; exact List.mem_cons_self) hidle, ← entities_rosterOf,
    Roster.mem_entities hroll] at hheld
  exact List.not_mem_nil hheld

end World

end Nettik
