import Nettik.Lib.Simulation
import Nettik.Sync.Relay
import Nettik.World.Outline

/-!
# Whole sessions

A server and its clients, whole controllers that exchange the packets they really send, byte for byte.

* `Session`, `step`: applications write, controllers tick, and packets are received; a client may also
  send the server packets of its own making;
* `Fit`: what a session needs to work; **`fit_step`**: every action keeps it, so no packet ends in an
  exception, where those of a client's own making do not throw at the server.
-/

namespace Nettik

open ByteMem Loops Links

/-! ## The parties -/

/-- A client behind its link, and the packets on their way from it to the server. -/
structure Connection where
  peer : Peer
  client : Inbox NetSystem Bytes
  uplink : List Bytes := []

def Connection.post (packets : List Bytes) (l : Connection) : Connection := { l with client := l.client.post packets }

/-- `failed` when a packet ended in an exception. -/
structure Session where
  server : NetSystem
  links : List Connection
  failed : Bool := false

/-- `none` is the server, `some k` the client behind the `k`-th link. -/
inductive SessionAct where
  | write (who : Option ℕ) (address : UInt32 × Bytes) (w : Write)
  | tick (who : Option ℕ)
  | toServer (k : ℕ)
  | toClient (k : ℕ)
  | inject (k : ℕ) (packet : Bytes)
  deriving DecidableEq

/-- `enet_host_broadcast` reaches every peer. -/
def Send.reaches (p : Peer) (x : Send) : Bool := x.target == none || x.target == some p

namespace Session

variable (pb : Protobuf) (past : Mem) (host : Peer)

/-- The server's tick broadcasts; a client's goes to the server. -/
def tick (who : Option ℕ) (s : Session) : Session :=
  match who with
  | none =>
    let r := s.server.snapshotUpdate
    { s with
      server := r.1
      links := s.links.map fun l => l.post ((r.2.filter (Send.reaches l.peer)).map Send.packet) }
  | some k =>
    { s with links := s.links.modify k fun l =>
        let r := l.client.state.snapshotUpdate
        { l with
          client := l.client.update fun _ => r.1
          uplink := l.uplink ++ (r.2.filter (Send.reaches host)).map Send.packet } }

/-- The server processes the next packet of a client. -/
def toServer (k : ℕ) (s : Session) : Session :=
  match s.links[k]? with
  | none => s
  | some l =>
    match l.uplink with
    | [] => s
    | packet :: rest =>
      let r := s.server.receive pb past l.peer packet
      { server := r.2
        links := s.links.modify k fun l => { l with uplink := rest }
        failed := s.failed || !r.1.isOk }

/-- A client processes the next packet of the server. -/
def toClient (k : ℕ) (s : Session) : Session :=
  match s.links[k]? with
  | none => s
  | some l =>
    match l.client.pending with
    | [] => s
    | packet :: rest =>
      let r := l.client.state.receive pb past host packet
      { s with
        links := s.links.modify k fun l => { l with client := ⟨r.2, rest⟩ }
        failed := s.failed || !r.1.isOk }

def step (s : Session) : SessionAct → Session
  | .write none address w => { s with server := s.server.write address w }
  | .write (some k) address w =>
    { s with links := s.links.modify k fun l =>
        { l with client := l.client.update (NetSystem.write address w) } }
  | .tick who => s.tick host who
  | .toServer k => s.toServer pb past k
  | .toClient k => s.toClient pb past host k
  | .inject k packet =>
    { s with links := s.links.modify k fun l => { l with uplink := l.uplink ++ [packet] } }

end Session

/-! ## Sessions that work -/

structure Outline.ServerFit (l : Outline) : Prop extends l.Fit where
  server : l.server = true
  callbacks : l.callbacks = serverCallbacks

structure Outline.ClientFit (host : Peer) (l : Outline) : Prop extends l.Fit where
  server : l.server = false
  callbacks : l.callbacks = clientCallbacks
  host : l.peerList.head? = some host

/-- A packet of data frames as `DoSnapshot` writes it. -/
structure IsSnapshot (fs : List Frame) : Prop where
  few : fs.length < 65536
  fits : ∀ f ∈ fs, f.Fits
  data : ∀ f ∈ fs, f.frameType = kFrameData

namespace Session

variable {pb : Protobuf} {past : Mem} {host : Peer} {s : Session}

structure Fit (past : Mem) (host : Peer) (s : Session) : Prop where
  server : s.server.outline.ServerFit
  clients : ∀ l ∈ s.links, l.client.state.outline.ClientFit host
  peers : (s.links.map Connection.peer).Nodup
  downlinks : ∀ l ∈ s.links, ∀ packet ∈ l.client.pending, ∃ sequence fs,
    packet = packetOf sequence fs ∧ IsSnapshot fs
  uplinks : ∀ l ∈ s.links, ∀ packet ∈ l.uplink, harmless packet past
  alive : s.failed = false

/-- What clients send of their own making does not make the server throw, or read behind the packet. -/
def Harmless (past : Mem) : SessionAct → Prop
  | .inject _ packet => harmless packet past
  | _ => True

/-! ### Packets -/

theorem receive_harmless (pb : Protobuf) {s : NetSystem} (h : s.outline.ServerFit) (p : Peer) {packet : Bytes}
    (hp : harmless packet past) : (s.receive pb past p packet).1 = .ok () := by
  have hrun : s.running = true := h.running
  exact ((receive_safe_iff h.callbacks hrun pb past p packet).mpr hp).1

/-- A snapshot is harmless. -/
theorem harmless_packetOf {fs : List Frame} (h : IsSnapshot fs) (sequence : UInt32) (past : Mem) :
    harmless (packetOf sequence fs) past := by
  refine ⟨?_, fun _ => ?_⟩
  · rw [packetOf_eq sequence h.fits, List.length_append, SnapshotHeader.length_write]
    unfold sizeofHeader
    omega
  · obtain ⟨header, hread, -⟩ := accepted_packetOf sequence h.few h.fits past
    refine ⟨header, hread, fun ht => ?_⟩
    have hok : (handleSnapshot (fun f (seen : List Frame) => (.ok (), seen ++ [f]))
        (Mem.ofList (packetOf sequence fs) past) (packetOf sequence fs).length []).1 = .ok () := by
      rw [handleSnapshot_packetOf _ sequence h.few h.fits, throughout_collect]
    rw [handleSnapshot, hread] at hok
    simp only [if_pos ht] at hok
    refine ((forFrames_ok_iff (fun f s' => rfl) _ _ _ _).mp hok).imp_right fun hr => ?_
    exact ⟨hr, roomy_packetOf sequence h.few h.fits past hread⟩

theorem isSnapshot_emitted {s : NetSystem} (h : s.outline.Fit) {i : VirtualInstance}
    (hi : s.instances = [i]) (r : Bool) : IsSnapshot (i.emitted r false) where
  few := NetSystem.length_emitted_lt h hi r false
  fits := (NetSystem.varNamesFit h hi).fits
  data := NetSystem.emitted_data

/-- What the server broadcasts. -/
theorem sends_server {s : NetSystem} (h : s.outline.ServerFit) {i : VirtualInstance}
    (hi : s.instances = [i]) (p : Peer) : (s.snapshotUpdate.2.filter (Send.reaches p)).map Send.packet =
      NetSystem.streamPackets true i ++ NetSystem.streamPackets false i := by
  have hserver : s.server = true := h.server
  have hrun : s.running = true := h.running
  rw [NetSystem.snapshotUpdate_single h.toFit hi (fun packet => ⟨0, none, true, packet⟩)
    fun stream => by simp [hserver, NetSystem.broadcastStream, NetSystem.broadcast, hrun]]
  rw [List.filter_eq_self.mpr, List.map_map]
  · exact List.map_id _
  · intro x hx
    obtain ⟨packet, -, rfl⟩ := List.mem_map.mp hx
    rfl

/-- What a client sends to the server. -/
theorem sends_client {s : NetSystem} (h : s.outline.ClientFit host) {i : VirtualInstance}
    (hi : s.instances = [i]) : (s.snapshotUpdate.2.filter (Send.reaches host)).map Send.packet =
      NetSystem.streamPackets true i ++ NetSystem.streamPackets false i := by
  have hserver : s.server = false := h.server
  have hrun : s.running = true := h.running
  have hpeer : s.peerList.head? = some host := h.host
  rw [NetSystem.snapshotUpdate_single h.toFit hi (fun packet => ⟨1, some host, true, packet⟩)
    fun stream => by
      simp [hserver, NetSystem.sendStream, NetSystem.send, NetSystem.getFirstPeer, hrun, hpeer]]
  rw [List.filter_eq_self.mpr, List.map_map]
  · exact List.map_id _
  · intro x hx
    obtain ⟨packet, -, rfl⟩ := List.mem_map.mp hx
    simp [Send.reaches]

theorem streamPackets_isSnapshot {s : NetSystem} (h : s.outline.Fit) {i : VirtualInstance}
    (hi : s.instances = [i]) : ∀ packet ∈ NetSystem.streamPackets true i ++ NetSystem.streamPackets false i,
      ∃ sequence fs, packet = packetOf sequence fs ∧ IsSnapshot fs := by
  have hstream : ∀ r, ∀ packet ∈ NetSystem.streamPackets r i,
      ∃ sequence fs, packet = packetOf sequence fs ∧ IsSnapshot fs := by
    intro r packet hpacket
    rw [NetSystem.streamPackets] at hpacket
    split_ifs at hpacket
    · exact absurd hpacket List.not_mem_nil
    · exact ⟨_, _, List.mem_singleton.mp hpacket, isSnapshot_emitted h hi r⟩
  intro packet hpacket
  exact (List.mem_append.mp hpacket).elim (hstream true packet) (hstream false packet)

/-! ### Actions -/

/-- A change behind one link. -/
theorem Fit.modify (h : s.Fit past host) (k : ℕ) {f : Connection → Connection}
    (hf : ∀ l, s.links[k]? = some l → (f l).peer = l.peer ∧
      (f l).client.state.outline = l.client.state.outline ∧
      (∀ packet ∈ (f l).client.pending, packet ∈ l.client.pending) ∧
      ∀ packet ∈ (f l).uplink, packet ∈ l.uplink ∨ harmless packet past) :
    ({ s with links := s.links.modify k f } : Session).Fit past host := by
  have hmem : ∀ l, s.links[k]? = some l → l ∈ s.links := fun l hl => List.mem_of_getElem? hl
  refine ⟨h.server, ?_, ?_, ?_, ?_, h.alive⟩
  · refine forall_mem_modify h.clients fun l hl => ?_
    rw [(hf l hl).2.1]
    exact h.clients l (hmem l hl)
  · have hpeers : (s.links.modify k f).map Connection.peer = s.links.map Connection.peer :=
      map_modify_iff.mpr fun l hl => (hf l hl).1
    rw [hpeers]
    exact h.peers
  · exact forall_mem_modify h.downlinks fun l hl packet hp =>
      h.downlinks l (hmem l hl) packet ((hf l hl).2.2.1 packet hp)
  · exact forall_mem_modify h.uplinks fun l hl packet hp =>
      ((hf l hl).2.2.2 packet hp).elim (h.uplinks l (hmem l hl) packet) id

theorem fit_tick (h : s.Fit past host) (who : Option ℕ) : (s.tick host who).Fit past host := by
  cases who with
  | none =>
    obtain ⟨i, hi⟩ := NetSystem.exists_instance h.server.toFit
    have houtline : s.server.snapshotUpdate.1.outline = s.server.outline :=
      NetSystem.outline_snapshotUpdate h.server.running
    have hlinks : ∀ l ∈ (s.tick host none).links, ∃ l' ∈ s.links,
        l = l'.post (NetSystem.streamPackets true i ++ NetSystem.streamPackets false i) := by
      intro l hl
      obtain ⟨l', hl', rfl⟩ := List.mem_map.mp hl
      exact ⟨l', hl', by rw [sends_server h.server hi]⟩
    refine ⟨?_, ?_, ?_, ?_, ?_, h.alive⟩
    · show s.server.snapshotUpdate.1.outline.ServerFit
      rw [houtline]
      exact h.server
    · intro l hl
      obtain ⟨l', hl', rfl⟩ := hlinks l hl
      exact h.clients l' hl'
    · show ((s.links.map _).map Connection.peer).Nodup
      rw [List.map_map]
      exact h.peers
    · intro l hl packet hp
      obtain ⟨l', hl', rfl⟩ := hlinks l hl
      rcases List.mem_append.mp hp with hp | hp
      · exact h.downlinks l' hl' packet hp
      · exact streamPackets_isSnapshot h.server.toFit hi packet hp
    · intro l hl packet hp
      obtain ⟨l', hl', rfl⟩ := hlinks l hl
      exact h.uplinks l' hl' packet hp
  | some k =>
    refine h.modify k fun l hl => ?_
    have hclient := h.clients l (List.mem_of_getElem? hl)
    obtain ⟨i, hi⟩ := NetSystem.exists_instance hclient.toFit
    refine ⟨rfl, NetSystem.outline_snapshotUpdate hclient.running, fun _ hp => hp, fun packet hp => ?_⟩
    rcases List.mem_append.mp hp with hp | hp
    · exact Or.inl hp
    · rw [sends_client hclient hi] at hp
      obtain ⟨sequence, fs, rfl, hfs⟩ := streamPackets_isSnapshot hclient.toFit hi packet hp
      exact Or.inr (harmless_packetOf hfs sequence past)

theorem fit_toServer (h : s.Fit past host) (k : ℕ) : (s.toServer pb past k).Fit past host := by
  rw [toServer]
  cases hl : s.links[k]? with
  | none => exact h
  | some l =>
    dsimp only
    cases hup : l.uplink with
    | nil => exact h
    | cons packet rest =>
      have hmem : ∀ p ∈ l.uplink, harmless p past := h.uplinks l (List.mem_of_getElem? hl)
      have hok := receive_harmless pb h.server l.peer (hmem packet (hup ▸ List.mem_cons_self))
      have hmod := h.modify k (f := fun l => { l with uplink := rest }) fun l' hl' => by
        obtain rfl := Option.some.inj (hl.symm.trans hl')
        exact ⟨rfl, rfl, fun _ hp => hp, fun p hp => Or.inl (hup ▸ List.mem_cons_of_mem packet hp)⟩
      refine ⟨?_, hmod.clients, hmod.peers, hmod.downlinks, hmod.uplinks, ?_⟩
      · show (s.server.receive pb past l.peer packet).2.outline.ServerFit
        rw [(NetSystem.receive_others h.server.callbacks pb past packet).1]
        exact h.server
      · show (s.failed || !(s.server.receive pb past l.peer packet).1.isOk) = false
        rw [hok, h.alive]
        rfl

theorem fit_toClient (h : s.Fit past host) (k : ℕ) : (s.toClient pb past host k).Fit past host := by
  rw [toClient]
  cases hl : s.links[k]? with
  | none => exact h
  | some l =>
    dsimp only
    cases hdown : l.client.pending with
    | nil => exact h
    | cons packet rest =>
      have hmem := List.mem_of_getElem? hl
      have hclient := h.clients l hmem
      obtain ⟨sequence, fs, rfl, hfs⟩ := h.downlinks l hmem packet (hdown ▸ List.mem_cons_self)
      have hreceive := NetSystem.receive_client pb past sequence hfs.few hfs.fits hfs.data
        hclient.running hclient.callbacks host
      have hmod := h.modify k (f := fun l => { l with client := ⟨_, rest⟩ }) fun l' hl' => by
        obtain rfl := Option.some.inj (hl.symm.trans hl')
        exact ⟨rfl, NetSystem.outline_foldl (fs.map Frame.extended) none l.client.state,
          fun p hp => hdown ▸ List.mem_cons_of_mem _ hp, fun _ hp => Or.inl hp⟩
      dsimp only
      rw [hreceive]
      exact ⟨hmod.server, hmod.clients, hmod.peers, hmod.downlinks, hmod.uplinks, by
        show (s.failed || !true) = false
        rw [h.alive]
        rfl⟩

/-- **Every action keeps a session fit.** -/
theorem fit_step (s : Session) (a : SessionAct) (h : s.Fit past host) (ha : Harmless past a) :
    (s.step pb past host a).Fit past host := by
  cases a with
  | write who address w =>
    cases who with
    | none =>
      refine ⟨?_, h.clients, h.peers, h.downlinks, h.uplinks, h.alive⟩
      show (s.server.write address w).outline.ServerFit
      rw [NetSystem.outline_write]
      exact h.server
    | some k =>
      exact h.modify k fun l _ => ⟨rfl, NetSystem.outline_write address w _,
        fun _ hp => hp, fun _ hp => Or.inl hp⟩
  | tick who => exact fit_tick h who
  | toServer k => exact fit_toServer h k
  | toClient k => exact fit_toClient h k
  | inject k packet =>
    refine h.modify k fun l _ => ⟨rfl, rfl, fun _ hp => hp, fun p hp => ?_⟩
    rcases List.mem_append.mp hp with hp | hp
    · exact Or.inl hp
    · exact Or.inr (List.mem_singleton.mp hp ▸ ha)

end Session

end Nettik
