import Nettik.Sync.ListSession

/-!
# Sessions, seen through one list

A list of an object that a client owns, in a session with any other objects, lists and variables.

* `Ready`: what a session needs for the list; `exchange`: the copies of the list behind the packets that
  name it; `Shows` relates a session to an exchange;
* `view`, **`shows_step`**: an action of the session is what it is to the list;
* **`lists_refine`**: a run of the session is a run of the exchange of the list;
* **`lists_settle`**: at rest the observer holds the list of the server, and so does the owner for every
  key on which no two calls crossed.
-/

namespace Nettik

open ByteMem Loops Links

/-- A call by the server, or by the owner. -/
def ListSetting.callOf (g : ListSetting) (c : ListCall) : Option ℕ → ListAct g.size
  | none => .callServer (c.op g.size)
  | some _ => .callOwner (c.op g.size)

namespace ListSession

/-- All queues hold list packets. -/
def Wrapped (pb : Protobuf) (queues : ℕ → List Bytes) : Prop :=
  ∀ i, ∀ packet ∈ queues i, ∃ msg : ListMsg, packet = msg.packet pb

variable (pb : Protobuf) (past : Mem) (host : Peer) (g : ListSetting) (k j : ℕ)

/-- The client behind the `k`-th link owns the list and the one behind the `j`-th observes it. Nobody
else but the server has anything to say about the list, and the queues of list packets hold no others. -/
structure Ready (s : ListSession) : Prop where
  fit : s.session.Fit past host
  server : g.server = host
  first : s.session.server.getFirstPeer = g.first
  owner : (s.session.links[k]?).map Connection.peer = some g.owner
  observer : (s.session.links[j]?).map Connection.peer = some g.observer
  shelved : ∀ who c, s.session.controller who = some c → c.Shelved
  silent : ∀ i c, i ≠ k → s.session.controller (some i) = some c → c.Silent g.object g.listID
  uplinks : ∀ l ∈ s.session.links, named pb g.object g.listID l.uplink = []
  quiet : ∀ i, i ≠ k → named pb g.object g.listID (s.up i) = []
  wrappedUp : Wrapped pb s.up
  wrappedDown : Wrapped pb s.down

/-- The session shows the exchange of the list. -/
structure Shows (s : ListSession) (x : ListExchange) : Prop extends Ready pb past host g k j s where
  keepsServer : s.session.Keeps none g.serverContext x.server.state
  keepsOwner : s.session.Keeps (some k) g.clientContext x.owner.state
  keepsObserver : s.session.Keeps (some j) g.clientContext x.observer.state
  toServer : named pb g.object g.listID (s.up k) = x.server.pending
  toOwner : named pb g.object g.listID (s.down k) = x.owner.pending
  toObserver : named pb g.object g.listID (s.down j) = x.observer.pending
  sound : x.Sound g

/-- What an action is to the list. -/
def view (s : ListSession) : ListSessionAct → List (ListAct g.size)
  | .session _ => []
  | .call who object listID c =>
    if object = g.object ∧ listID = g.listID then [g.callOf c who] else []
  | .listUpdate none => [.updateServer]
  | .listUpdate (some i) => if i = k then [.updateOwner] else []
  | .toServer i =>
    if i = k then (named pb g.object g.listID ((s.up i).take 1)).map fun _ => .deliverServer else []
  | .toClient i =>
    if i = k then (named pb g.object g.listID ((s.down i).take 1)).map fun _ => .deliverOwner
    else if i = j then (named pb g.object g.listID ((s.down i).take 1)).map fun _ => .deliverObserver
    else []

/-- Clients make up harmless packets that are not about the list, and no client but the owner calls it. -/
def Allowed : ListSessionAct → Prop
  | .session a => Session.Harmless past a ∧ a.Spares pb g.object g.listID
  | .call (some i) object listID _ => object = g.object ∧ listID = g.listID → i = k
  | _ => True

variable {pb past host g k j} {s : ListSession} {x : ListExchange}

namespace Wrapped

variable {queues : ℕ → List Bytes} {i : ℕ} {packet : Bytes} {rest : List Bytes}

theorem update (h : Wrapped pb queues) {packets : List Bytes}
    (hnew : ∀ packet ∈ packets, ∃ msg : ListMsg, packet = msg.packet pb) :
    Wrapped pb (Function.update queues i packets) := by
  intro n packet hp
  by_cases hn : n = i
  · subst hn
    rw [Function.update_self] at hp
    exact hnew packet hp
  · rw [Function.update_of_ne hn] at hp
    exact h n packet hp

theorem head (h : Wrapped pb queues) (hqueue : queues i = packet :: rest) :
    ∃ msg : ListMsg, packet = msg.packet pb :=
  h i packet (hqueue ▸ List.mem_cons_self)

/-- A packet is taken off its queue. -/
theorem pop (h : Wrapped pb queues) (hqueue : queues i = packet :: rest) :
    Wrapped pb (Function.update queues i rest) :=
  h.update fun packet hp => h i packet (hqueue ▸ List.mem_cons_of_mem _ hp)

end Wrapped

/-! ## Elsewhere -/

/-- What is in the other queues stays. -/
theorem named_update_of_ne {queues : ℕ → List Bytes} {packets : List Bytes} {i n : ℕ} (hn : n ≠ i) :
    named pb g.object g.listID (Function.update queues i packets n) =
      named pb g.object g.listID (queues n) := by
  rw [Function.update_of_ne hn]

theorem Ready.serverShelved (h : Ready pb past host g k j s) : s.session.server.Shelved :=
  h.shelved none _ rfl

theorem Ready.clientsShelved (h : Ready pb past host g k j s) :
    ∀ l ∈ s.session.links, l.client.state.Shelved := by
  intro l hl
  obtain ⟨i, hi⟩ := List.getElem?_of_mem hl
  exact h.shelved (some i) _ (by rw [Session.controller, hi]; rfl)

/-- The owner is not the observer. -/
theorem Ready.ne (h : Ready pb past host g k j s) : j ≠ k := by
  rintro rfl
  exact g.distinct (Option.some.inj (h.owner.symm.trans h.observer))

/-- **What leaves the list alone is not seen.** -/
theorem Shows.leaves (h : Shows pb past host g k j s x) {session : Session} (hfit : session.Fit past host)
    (hleaves : Session.Leaves pb g.object g.listID s.session session) :
    Shows pb past host g k j { s with session := session } x := by
  have hpeers : ∀ i : ℕ,
      (session.links[i]?).map Connection.peer = (s.session.links[i]?).map Connection.peer := by
    intro i
    rw [← List.getElem?_map, ← List.getElem?_map, map_eq_of_forall₂ hleaves.links fun _ _ hl => hl.peer]
  refine { h with
    fit := hfit
    first := hleaves.first.trans h.first
    owner := (hpeers k).trans h.owner
    observer := (hpeers j).trans h.observer
    shelved := fun who c hc => ?_
    silent := fun i c hi hc => ?_
    uplinks := fun l hl => ?_
    keepsServer := h.keepsServer.leaves hleaves
    keepsOwner := h.keepsOwner.leaves hleaves
    keepsObserver := h.keepsObserver.leaves hleaves }
  · obtain ⟨c₀, -, hlist⟩ := hleaves.exists_controller hc
    exact hlist.shelved
  · obtain ⟨c₀, hc₀, hlist⟩ := hleaves.exists_controller hc
    exact hlist.silent (h.silent i c₀ hi hc₀)
  · obtain ⟨l₀, hl₀, hlink⟩ := forall₂_exists_left hleaves.links hl
    exact hlink.uplink (h.uplinks l₀ hl₀)

/-- An action of one controller that leaves its list alone. -/
theorem Shows.leaves_act (h : Shows pb past host g k j s x) {who : Option ℕ} {f : NetSystem → NetSystem}
    (hout : ∀ c, (f c).outline = c.outline)
    (hf : ∀ c, s.session.controller who = some c → NetSystem.LeavesList g.object g.listID c (f c)) :
    Shows pb past host g k j { s with session := s.session.act who f } x :=
  h.leaves (h.fit.act hout)
    (Session.leaves_act h.toReady.serverShelved h.toReady.clientsShelved hout hf)

/-- Packets about other lists come and go. -/
theorem Shows.requeue (h : Shows pb past host g k j s x) {up down : ℕ → List Bytes}
    (hup : ∀ i, named pb g.object g.listID (up i) = named pb g.object g.listID (s.up i))
    (hdown : ∀ i, named pb g.object g.listID (down i) = named pb g.object g.listID (s.down i))
    (hwrappedUp : Wrapped pb up) (hwrappedDown : Wrapped pb down) :
    Shows pb past host g k j { s with up := up, down := down } x :=
  { h with
    quiet := fun i hi => (hup i).trans (h.quiet i hi)
    wrappedUp := hwrappedUp
    wrappedDown := hwrappedDown
    toServer := (hup k).trans h.toServer
    toOwner := (hdown k).trans h.toOwner
    toObserver := (hdown j).trans h.toObserver }

/-- An action of one controller that may change its list, and packets that come and go. -/
theorem Ready.act (h : Ready pb past host g k j s) {who : Option ℕ} {f : NetSystem → NetSystem}
    (hout : ∀ c, (f c).outline = c.outline)
    (hshelved : ∀ c, s.session.controller who = some c → (f c).Shelved)
    (hsilent : ∀ i c, who = some i → i ≠ k → s.session.controller who = some c →
      (f c).Silent g.object g.listID) {up down : ℕ → List Bytes}
    (hquiet : ∀ i, i ≠ k → named pb g.object g.listID (up i) = [])
    (hup : Wrapped pb up) (hdown : Wrapped pb down) :
    Ready pb past host g k j { session := s.session.act who f, up := up, down := down } := by
  have hpeers : ∀ i : ℕ, ((s.session.act who f).links[i]?).map Connection.peer =
      (s.session.links[i]?).map Connection.peer := by
    intro i
    rw [← List.getElem?_map, ← List.getElem?_map, Session.peers_act]
  have hcontroller : ∀ who' c, (s.session.act who f).controller who' = some c →
      (who ≠ who' ∧ s.session.controller who' = some c) ∨
        (who = who' ∧ ∃ c₀, s.session.controller who = some c₀ ∧ c = f c₀) := by
    intro who' c hc
    by_cases hwho : who = who'
    · subst hwho
      rw [Session.controller_act_self, Option.map_eq_some_iff] at hc
      obtain ⟨c₀, hc₀, rfl⟩ := hc
      exact Or.inr ⟨rfl, c₀, hc₀, rfl⟩
    · rw [Session.controller_act_of_ne hwho] at hc
      exact Or.inl ⟨hwho, hc⟩
  refine {
    fit := h.fit.act hout
    server := h.server
    first := ?_
    owner := (hpeers k).trans h.owner
    observer := (hpeers j).trans h.observer
    shelved := fun who' c hc => ?_
    silent := fun i c hi hc => ?_
    uplinks := fun l hl => ?_
    quiet := hquiet
    wrappedUp := hup
    wrappedDown := hdown }
  · cases who with
    | none =>
      have hpeerList := congrArg (fun o : Outline => o.peerList.head?) (hout s.session.server)
      exact hpeerList.trans h.first
    | some i => exact h.first
  · rcases hcontroller who' c hc with ⟨-, hc⟩ | ⟨-, c₀, hc₀, rfl⟩
    · exact h.shelved who' c hc
    · exact hshelved c₀ hc₀
  · rcases hcontroller (some i) c hc with ⟨-, hc⟩ | ⟨hwho, c₀, hc₀, rfl⟩
    · exact h.silent i c hi hc
    · exact hsilent i c₀ hwho hi hc₀
  · have hmem : l.uplink ∈ s.session.links.map Connection.uplink := by
      rw [← Session.uplinks_act who f]
      exact List.mem_map_of_mem hl
    obtain ⟨l₀, hl₀, huplink⟩ := List.mem_map.mp hmem
    rw [← huplink]
    exact h.uplinks l₀ hl₀

/-! ## Calls and walks -/

/-- What a call queues names the list. -/
theorem addresses_call (listID : UInt32) (c : ListCall) :
    NetSystem.Addresses listID fun ctx l => l.call ctx (c.op l.size) := by
  intro ctx l _ h
  obtain ⟨ms, log⟩ := NetVarList.logs_call ctx rfl (c.op l.size)
  exact h.logs log

theorem sound_run (h : x.Sound g) (acts : List (ListAct g.size)) :
    (run (ListExchange.step g) x acts).Sound g := by
  refine run_inv (I := ListExchange.Sound g) (fun x a hx _ => ?_) h
    (along_of_forall (fun _ _ => trivial) x)
  obtain ⟨mv, hmv, -⟩ := ListExchange.move_step hx a
  exact hmv.sound

/-- A call, of whoever makes it, on the copy that a party keeps. -/
theorem keeps_call {who : Option ℕ} {ctx : ListContext} {l : NetVarList} {session : Session}
    (hshelved : ∀ c, session.controller who = some c → c.Shelved) (h : session.Keeps who ctx l)
    (hsize : l.size = g.size) (c : ListCall) :
    (session.act who (NetSystem.callList ctx.object ctx.listID c)).Keeps who ctx
      (l.call ctx (c.op g.size)) := by
  refine h.act_self fun c₀ hc₀ hkeeps => ?_
  have hcall := hkeeps.modifyList (hshelved c₀ hc₀).keyed ctx.object ctx.listID fun ctx l =>
    l.call ctx (c.op l.size)
  rw [if_pos ⟨rfl, rfl⟩, hsize] at hcall
  exact hcall

theorem shows_call (h : Shows pb past host g k j s x) (who : Option ℕ) (object : AssociatedObject)
    (listID : UInt32) (c : ListCall) (ha : Allowed pb past g k (.call who object listID c)) :
    Shows pb past host g k j (s.step pb past host (.call who object listID c))
      (run (ListExchange.step g) x (s.view pb g k j (.call who object listID c))) := by
  have hout : ∀ c₀ : NetSystem, (c₀.callList object listID c).outline = c₀.outline :=
    NetSystem.outline_modifyList object listID _
  by_cases hlist : object = g.object ∧ listID = g.listID
  · obtain ⟨rfl, rfl⟩ := hlist
    have hready : who = none ∨ who = some k → Ready pb past host g k j
        { s with session := s.session.act who (NetSystem.callList g.object g.listID c) } := fun hwho =>
      h.toReady.act hout (fun c₀ hc₀ => (h.shelved who c₀ hc₀).modifyList _ (addresses_call _ c))
        (fun i c₀ hi hne _ => by
          rcases hwho with rfl | rfl
          · exact absurd hi (by simp)
          · exact absurd (Option.some.inj hi).symm hne)
        h.quiet h.wrappedUp h.wrappedDown
    have hsound := sound_run h.sound (s.view pb g k j (.call who g.object g.listID c))
    rw [view, if_pos ⟨rfl, rfl⟩] at hsound ⊢
    cases who with
    | none =>
      exact { hready (Or.inl rfl) with
        keepsServer := keeps_call (h.shelved none) h.keepsServer h.sound.serverSize c
        keepsOwner := h.keepsOwner.act_of_ne (by simp)
        keepsObserver := h.keepsObserver.act_of_ne (by simp)
        toServer := h.toServer
        toOwner := h.toOwner
        toObserver := h.toObserver
        sound := hsound }
    | some i =>
      obtain rfl := ha ⟨rfl, rfl⟩
      exact { hready (Or.inr rfl) with
        keepsServer := h.keepsServer.act_of_ne (by simp)
        keepsOwner := keeps_call (h.shelved (some i)) h.keepsOwner h.sound.ownerSize c
        keepsObserver := h.keepsObserver.act_of_ne fun e => h.toReady.ne (Option.some.inj e).symm
        toServer := h.toServer
        toOwner := h.toOwner
        toObserver := h.toObserver
        sound := hsound }
  · rw [view, if_neg hlist]
    refine h.leaves_act hout fun c₀ hc₀ => ?_
    exact .modifyList (h.shelved who c₀ hc₀) (addresses_call listID c) hlist

/-- A walk sends list packets. -/
theorem wrapped_gets {c : NetSystem} (hrun : c.running = true) (pb : Protobuf) (p : Peer) :
    ∀ packet ∈ gets p (c.listUpdate pb).2, ∃ msg : ListMsg, packet = msg.packet pb := by
  rw [gets_listUpdate hrun]
  intro packet hpacket
  obtain ⟨msg, -, rfl⟩ := List.mem_map.mp hpacket
  exact ⟨msg, rfl⟩

/-- The walk of the server. -/
theorem shows_listUpdateServer (hpb : pb.RoundTrips) (h : Shows pb past host g k j s x) :
    Shows pb past host g k j (s.step pb past host (.listUpdate none)) (x.step g .updateServer) := by
  have hrun : s.session.server.running = true := h.fit.server.running
  have hshelved := h.toReady.serverShelved
  have hkeeps : s.session.server.Keeps g.serverContext x.server.state := by
    obtain ⟨c, hc, hkeeps⟩ := h.keepsServer
    obtain rfl := Option.some.inj hc
    exact hkeeps
  have hstep : s.step pb past host (.listUpdate none) =
      { s with
        session := s.session.act none fun c => (c.listUpdate pb).1
        down := fun i => s.down i ++
          (s.session.links[i]?.map fun l => gets l.peer (s.session.server.listUpdate pb).2).getD [] } := rfl
  -- what goes out to a client
  have hgets : ∀ {i : ℕ} {p : Peer}, (s.session.links[i]?).map Connection.peer = some p →
      (s.session.links[i]?.map fun l => gets l.peer (s.session.server.listUpdate pb).2).getD [] =
        gets p (s.session.server.listUpdate pb).2 := by
    intro i p hp
    obtain ⟨l, hl, rfl⟩ := Option.map_eq_some_iff.mp hp
    rw [hl]
    rfl
  have hsent : ∀ p, named pb g.object g.listID (gets p (s.session.server.listUpdate pb).2) =
      sentToPeer p (x.server.state.updateListDelta g.players g.first).2 := by
    intro p
    rw [← h.first]
    exact named_listUpdate hpb hrun hshelved hkeeps p
  have hready : Ready pb past host g k j (s.step pb past host (.listUpdate none)) := by
    rw [hstep]
    refine h.toReady.act (NetSystem.outline_listUpdate pb)
      (fun c hc => (h.shelved none c hc).listUpdate pb)
      (fun i c hi _ _ => absurd hi (by simp)) h.quiet h.wrappedUp fun i packet hp => ?_
    rcases List.mem_append.mp hp with hp | hp
    · exact h.wrappedDown i packet hp
    · cases hl : s.session.links[i]? with
      | none => simp [hl] at hp
      | some l =>
        rw [hl] at hp
        exact wrapped_gets hrun pb l.peer packet hp
  rw [hstep] at hready ⊢
  refine { hready with
    keepsServer := h.keepsServer.act_self fun c hc hk => ?_
    keepsOwner := h.keepsOwner.act_of_ne (by simp)
    keepsObserver := h.keepsObserver.act_of_ne (by simp)
    toServer := h.toServer
    toOwner := ?_
    toObserver := ?_
    sound := sound_run h.sound [.updateServer] }
  · obtain rfl := Option.some.inj hc
    have hupdate := hk.listUpdate pb
    rwa [h.first] at hupdate
  · dsimp only
    rw [named_append, h.toOwner, hgets h.owner, hsent]
    rfl
  · dsimp only
    rw [named_append, h.toObserver, hgets h.observer, hsent]
    rfl

theorem listUpdate_client {c : NetSystem} {i : ℕ} (hc : s.session.controller (some i) = some c) :
    s.listUpdate pb host (some i) =
      { s with
        session := s.session.act (some i) fun c => (c.listUpdate pb).1
        up := Function.update s.up i (s.up i ++ gets host (c.listUpdate pb).2) } := by
  rw [listUpdate, hc]
  rfl

theorem Ready.wrapped_listUpdate (h : Ready pb past host g k j s) {c : NetSystem} {i : ℕ}
    (hc : s.session.controller (some i) = some c) :
    Wrapped pb (Function.update s.up i (s.up i ++ gets host (c.listUpdate pb).2)) := by
  have hrun := (h.fit.controller hc).1
  refine h.wrappedUp.update fun packet hp => ?_
  exact (List.mem_append.mp hp).elim (h.wrappedUp i packet) (wrapped_gets hrun pb host packet)

/-- The walk of the owner. -/
theorem shows_listUpdateOwner (hpb : pb.RoundTrips) (h : Shows pb past host g k j s x) :
    Shows pb past host g k j (s.step pb past host (.listUpdate (some k))) (x.step g .updateOwner) := by
  have hout : ∀ c : NetSystem, (c.listUpdate pb).1.outline = c.outline := NetSystem.outline_listUpdate pb
  obtain ⟨c, hc, hkeeps⟩ := h.keepsOwner
  have hrun := (h.fit.controller hc).1
  have hfirst : c.getFirstPeer = some g.server := by
    obtain ⟨l, hl, rfl⟩ := Option.map_eq_some_iff.mp hc
    exact (h.fit.clients l (List.mem_of_getElem? hl)).host.trans (congrArg some h.server.symm)
  have hsent : named pb g.object g.listID (gets host (c.listUpdate pb).2) =
      sentToPeer g.server (x.owner.state.updateListDelta [] (some g.server)).2 := by
    rw [← hfirst, ← h.server]
    exact named_listUpdate hpb hrun (h.shelved _ c hc) hkeeps g.server
  have hready : Ready pb past host g k j { s with
      session := s.session.act (some k) fun c => (c.listUpdate pb).1
      up := Function.update s.up k (s.up k ++ gets host (c.listUpdate pb).2) } := by
    refine h.toReady.act hout (fun c hc => (h.shelved _ c hc).listUpdate pb) ?_ ?_
      (h.toReady.wrapped_listUpdate hc) h.wrappedDown
    · exact fun i c' hi hne _ => absurd (Option.some.inj hi).symm hne
    · exact fun n hn => (named_update_of_ne hn).trans (h.quiet n hn)
  rw [step, listUpdate_client hc]
  refine { hready with
    keepsServer := h.keepsServer.act_of_ne (by simp)
    keepsOwner := h.keepsOwner.act_self fun c' hc' hk => ?_
    keepsObserver := h.keepsObserver.act_of_ne fun e => h.toReady.ne (Option.some.inj e).symm
    toServer := ?_
    toOwner := h.toOwner
    toObserver := h.toObserver
    sound := sound_run h.sound [.updateOwner] }
  · obtain rfl := Option.some.inj (hc.symm.trans hc')
    have hupdate := hk.listUpdate pb
    rwa [hfirst] at hupdate
  · show named pb g.object g.listID (Function.update s.up k _ k) =
      x.server.pending ++ sentToPeer g.server _
    rw [Function.update_self, named_append, h.toServer, hsent]

/-- The walk of a client that has nothing to say about the list. -/
theorem shows_listUpdateSilent (hpb : pb.RoundTrips) (h : Shows pb past host g k j s x) {i : ℕ}
    (hi : i ≠ k) : Shows pb past host g k j (s.step pb past host (.listUpdate (some i))) x := by
  have hout : ∀ c : NetSystem, (c.listUpdate pb).1.outline = c.outline := NetSystem.outline_listUpdate pb
  have hwalk : Shows pb past host g k j
      { s with session := s.session.act (some i) fun c => (c.listUpdate pb).1 } x :=
    h.leaves_act hout fun c hc => .listUpdate (h.shelved _ c hc) (h.silent i c hi hc) pb
  cases hc : s.session.controller (some i) with
  | none =>
    -- there is no such client
    have hsame : s.step pb past host (.listUpdate (some i)) =
        { s with session := s.session.act (some i) fun c => (c.listUpdate pb).1 } := by
      rw [step, listUpdate, hc]
      simp [gets]
    rw [hsame]
    exact hwalk
  | some c =>
    have hrun := (h.fit.controller hc).1
    rw [step, listUpdate_client hc]
    refine hwalk.requeue (fun n => ?_) (fun _ => rfl) (h.toReady.wrapped_listUpdate hc) h.wrappedDown
    by_cases hn : n = i
    · subst hn
      rw [Function.update_self, named_append,
        named_silent hpb hrun (h.shelved _ c hc) (h.silent n c hi hc), List.append_nil]
    · exact named_update_of_ne hn

/-- The walk of a client. -/
theorem shows_listUpdateClient (hpb : pb.RoundTrips) (h : Shows pb past host g k j s x) (i : ℕ) :
    Shows pb past host g k j (s.step pb past host (.listUpdate (some i)))
      (run (ListExchange.step g) x (s.view pb g k j (.listUpdate (some i)))) := by
  rw [view]
  split_ifs with hi
  · subst hi
    exact shows_listUpdateOwner hpb h
  · exact shows_listUpdateSilent hpb h hi

/-! ## Deliveries -/

/-- A list message, of whoever receives it, on the copy that a party keeps. -/
theorem keeps_onRemote {who : Option ℕ} {ctx : ListContext} {l : NetVarList} {session : Session}
    (hshelved : ∀ c, session.controller who = some c → c.Shelved) (h : session.Keeps who ctx l)
    {msg : ListMsg} (hobject : msg.target = ctx.object) (hid : msg.listID = ctx.listID) :
    (session.act who (NetSystem.onRemote msg)).Keeps who ctx (l.onRemote ctx msg) := by
  refine h.act_self fun c hc hkeeps => ?_
  have hremote := hkeeps.modifyList (hshelved c hc).keyed msg.target msg.listID fun ctx l =>
    l.onRemote ctx msg
  rw [if_pos ⟨hobject, hid⟩] at hremote
  exact hremote

/-- A message about another list. -/
theorem Shows.onRemote_other (h : Shows pb past host g k j s x) (who : Option ℕ) {msg : ListMsg}
    (hother : ¬ (msg.target = g.object ∧ msg.listID = g.listID)) :
    Shows pb past host g k j { s with session := s.session.act who (NetSystem.onRemote msg) } x := by
  have hout : ∀ c : NetSystem, (c.onRemote msg).outline = c.outline := NetSystem.outline_onRemote msg
  exact h.leaves_act hout fun c hc => .modifyList (h.shelved who c hc) (addresses_onRemote msg) hother

/-- A controller processes a message about the list: what else the session needs stays. -/
theorem Ready.onRemote (h : Ready pb past host g k j s) (who : Option ℕ) (msg : ListMsg)
    {up down : ℕ → List Bytes} (hquiet : ∀ i, i ≠ k → named pb g.object g.listID (up i) = [])
    (hup : Wrapped pb up) (hdown : Wrapped pb down) :
    Ready pb past host g k j
      { session := s.session.act who (NetSystem.onRemote msg), up := up, down := down } := by
  refine h.act (NetSystem.outline_onRemote msg)
    (fun c hc => (h.shelved who c hc).modifyList _ (addresses_onRemote msg)) ?_ hquiet hup hdown
  rintro i c rfl hi hc
  refine (h.silent i c hi hc).modifyList (h.shelved _ c hc).keyed fun _ _ ctx l hplayers hqueue => ?_
  have hfew : ctx.players.length ≤ 1 := by rw [hplayers]; exact Nat.zero_le 1
  exact (NetVarList.updateQueue_onRemote hfew msg l).trans hqueue

/-- The server gets a message about the list. -/
theorem shows_fromOwner (h : Shows pb past host g k j s x) {msg : ListMsg} {rest : List Bytes}
    (hnamed : msg.target = g.object ∧ msg.listID = g.listID)
    (hcons : named pb g.object g.listID (s.up k) = msg :: named pb g.object g.listID rest)
    (hrest : Wrapped pb (Function.update s.up k rest)) :
    Shows pb past host g k j { s with
      session := s.session.act none (NetSystem.onRemote msg)
      up := Function.update s.up k rest } (x.step g .deliverServer) := by
  have hpending : x.server.pending = msg :: named pb g.object g.listID rest :=
    h.toServer.symm.trans hcons
  have hready : Ready pb past host g k j { s with
      session := s.session.act none (NetSystem.onRemote msg)
      up := Function.update s.up k rest } := by
    refine h.toReady.onRemote none msg (fun n hn => ?_) hrest h.wrappedDown
    exact (named_update_of_ne hn).trans (h.quiet n hn)
  have hstep : x.step g .deliverServer =
      { x with
        server := ⟨x.server.state.onRemote g.serverContext msg, named pb g.object g.listID rest⟩ } := by
    rw [ListExchange.step, Inbox.deliver_cons _ hpending]
  have hsound : (x.step g .deliverServer).Sound g := sound_run h.sound [.deliverServer]
  rw [hstep] at hsound ⊢
  exact { hready with
    keepsServer := keeps_onRemote (h.shelved none) h.keepsServer hnamed.1 hnamed.2
    keepsOwner := h.keepsOwner.act_of_ne (by simp)
    keepsObserver := h.keepsObserver.act_of_ne (by simp)
    toServer := by dsimp only; rw [Function.update_self]
    toOwner := h.toOwner
    toObserver := h.toObserver
    sound := hsound }

theorem shows_toServer (hpb : pb.RoundTrips) (h : Shows pb past host g k j s x) (i : ℕ) :
    Shows pb past host g k j (s.step pb past host (.toServer i))
      (run (ListExchange.step g) x (s.view pb g k j (.toServer i))) := by
  rw [view, step, toServer]
  cases hl : s.session.links[i]? with
  | none =>
    have hne : i ≠ k := by
      rintro rfl
      exact absurd h.owner (by simp [hl])
    rw [if_neg hne]
    exact h
  | some l =>
    cases hup : s.up i with
    | nil =>
      rw [List.take_nil, named_nil, List.map_nil, ite_self]
      exact h
    | cons packet rest =>
      obtain ⟨msg, rfl⟩ := h.wrappedUp.head hup
      have hrest : Wrapped pb (Function.update s.up i rest) := h.wrappedUp.pop hup
      dsimp only
      rw [Session.receives_packet hpb h.fit, List.take_succ_cons, List.take_zero, named_cons hpb,
        named_nil]
      have hcons : named pb g.object g.listID (s.up i) = _ := hup ▸ named_cons hpb msg rest
      by_cases hnamed : msg.target = g.object ∧ msg.listID = g.listID
      · -- only the owner sends it
        rw [if_pos hnamed] at hcons ⊢
        have hi : i = k := by
          by_contra hne
          exact absurd (hcons.symm.trans (h.quiet i hne)) (List.cons_ne_nil _ _)
        subst hi
        rw [if_pos rfl]
        exact shows_fromOwner h hnamed hcons hrest
      · rw [if_neg hnamed] at hcons ⊢
        rw [List.map_nil, ite_self]
        refine (h.onRemote_other none hnamed).requeue (fun n => ?_) (fun _ => rfl) hrest h.wrappedDown
        by_cases hn : n = i
        · subst hn
          rw [Function.update_self, hcons]
        · exact named_update_of_ne hn

/-- The owner gets a message about the list. -/
theorem shows_toOwner (h : Shows pb past host g k j s x) {msg : ListMsg} {rest : List Bytes}
    (hnamed : msg.target = g.object ∧ msg.listID = g.listID)
    (hcons : named pb g.object g.listID (s.down k) = msg :: named pb g.object g.listID rest)
    (hrest : Wrapped pb (Function.update s.down k rest)) :
    Shows pb past host g k j { s with
      session := s.session.act (some k) (NetSystem.onRemote msg)
      down := Function.update s.down k rest } (x.step g .deliverOwner) := by
  have hpending : x.owner.pending = msg :: named pb g.object g.listID rest :=
    h.toOwner.symm.trans hcons
  have hstep : x.step g .deliverOwner =
      { x with
        owner := ⟨x.owner.state.onRemote g.clientContext msg, named pb g.object g.listID rest⟩ } := by
    rw [ListExchange.step, Inbox.deliver_cons _ hpending]
  have hsound : (x.step g .deliverOwner).Sound g := sound_run h.sound [.deliverOwner]
  have hne := h.toReady.ne
  rw [hstep] at hsound ⊢
  exact { h.toReady.onRemote (some k) msg h.quiet h.wrappedUp hrest with
    keepsServer := h.keepsServer.act_of_ne (by simp)
    keepsOwner := keeps_onRemote (h.shelved _) h.keepsOwner hnamed.1 hnamed.2
    keepsObserver := h.keepsObserver.act_of_ne fun e => hne (Option.some.inj e).symm
    toServer := h.toServer
    toOwner := by dsimp only; rw [Function.update_self]
    toObserver := (named_update_of_ne hne).trans h.toObserver
    sound := hsound }

/-- The observer gets a message about the list. -/
theorem shows_toObserver (h : Shows pb past host g k j s x) {msg : ListMsg} {rest : List Bytes}
    (hnamed : msg.target = g.object ∧ msg.listID = g.listID)
    (hcons : named pb g.object g.listID (s.down j) = msg :: named pb g.object g.listID rest)
    (hrest : Wrapped pb (Function.update s.down j rest)) :
    Shows pb past host g k j { s with
      session := s.session.act (some j) (NetSystem.onRemote msg)
      down := Function.update s.down j rest } (x.step g .deliverObserver) := by
  have hpending : x.observer.pending = msg :: named pb g.object g.listID rest :=
    h.toObserver.symm.trans hcons
  have hstep : x.step g .deliverObserver =
      { x with
        observer := ⟨x.observer.state.onRemote g.clientContext msg, named pb g.object g.listID rest⟩ } := by
    rw [ListExchange.step, Inbox.deliver_cons _ hpending]
  have hsound : (x.step g .deliverObserver).Sound g := sound_run h.sound [.deliverObserver]
  have hne := h.toReady.ne
  rw [hstep] at hsound ⊢
  exact { h.toReady.onRemote (some j) msg h.quiet h.wrappedUp hrest with
    keepsServer := h.keepsServer.act_of_ne (by simp)
    keepsOwner := h.keepsOwner.act_of_ne fun e => hne (Option.some.inj e)
    keepsObserver := keeps_onRemote (h.shelved _) h.keepsObserver hnamed.1 hnamed.2
    toServer := h.toServer
    toOwner := (named_update_of_ne hne.symm).trans h.toOwner
    toObserver := by dsimp only; rw [Function.update_self]
    sound := hsound }

/-- Another client gets a message about the list. -/
theorem shows_toOther (h : Shows pb past host g k j s x) {i : ℕ} (hik : i ≠ k) (hij : i ≠ j)
    (msg : ListMsg) {rest : List Bytes} (hrest : Wrapped pb (Function.update s.down i rest)) :
    Shows pb past host g k j { s with
      session := s.session.act (some i) (NetSystem.onRemote msg)
      down := Function.update s.down i rest } x :=
  { h.toReady.onRemote (some i) msg h.quiet h.wrappedUp hrest with
    keepsServer := h.keepsServer.act_of_ne (by simp)
    keepsOwner := h.keepsOwner.act_of_ne fun e => hik (Option.some.inj e)
    keepsObserver := h.keepsObserver.act_of_ne fun e => hij (Option.some.inj e)
    toServer := h.toServer
    toOwner := (named_update_of_ne hik.symm).trans h.toOwner
    toObserver := (named_update_of_ne hij.symm).trans h.toObserver
    sound := h.sound }

theorem shows_toClient (hpb : pb.RoundTrips) (h : Shows pb past host g k j s x) (i : ℕ) :
    Shows pb past host g k j (s.step pb past host (.toClient i))
      (run (ListExchange.step g) x (s.view pb g k j (.toClient i))) := by
  rw [view, step, toClient]
  cases hdown : s.down i with
  | nil =>
    rw [List.take_nil, named_nil, List.map_nil, List.map_nil, ite_self, ite_self]
    exact h
  | cons packet rest =>
    obtain ⟨msg, rfl⟩ := h.wrappedDown.head hdown
    have hrest : Wrapped pb (Function.update s.down i rest) := h.wrappedDown.pop hdown
    dsimp only
    rw [Session.receives_packet hpb h.fit, List.take_succ_cons, List.take_zero, named_cons hpb,
      named_nil]
    have hcons : named pb g.object g.listID (s.down i) = _ := hdown ▸ named_cons hpb msg rest
    by_cases hnamed : msg.target = g.object ∧ msg.listID = g.listID
    · rw [if_pos hnamed] at hcons ⊢
      split_ifs with hik hij
      · subst hik
        exact shows_toOwner h hnamed hcons hrest
      · subst hij
        exact shows_toObserver h hnamed hcons hrest
      · exact shows_toOther h hik hij msg hrest
    · rw [if_neg hnamed] at hcons ⊢
      rw [List.map_nil, List.map_nil, ite_self, ite_self]
      refine (h.onRemote_other (some i) hnamed).requeue (fun _ => rfl) (fun n => ?_) h.wrappedUp hrest
      by_cases hn : n = i
      · subst hn
        rw [Function.update_self, hcons]
      · exact named_update_of_ne hn

/-! ## The exchange of a list -/

/-- **Every action of a session is what it is to the list.** -/
theorem shows_step (hpb : pb.RoundTrips) (h : Shows pb past host g k j s x) (a : ListSessionAct)
    (ha : Allowed pb past g k a) :
    Shows pb past host g k j (s.step pb past host a)
      (run (ListExchange.step g) x (s.view pb g k j a)) := by
  cases a with
  | session a =>
    exact h.leaves (Session.fit_step s.session a h.fit ha.1)
      (Session.leaves_step h.fit h.toReady.serverShelved h.toReady.clientsShelved h.uplinks ha.2)
  | call who object listID c => exact shows_call h who object listID c ha
  | listUpdate who =>
    cases who with
    | none => exact shows_listUpdateServer hpb h
    | some i => exact shows_listUpdateClient hpb h i
  | toServer i => exact shows_toServer hpb h i
  | toClient i => exact shows_toClient hpb h i

/-- The list that a message for it finds. -/
def listOf (g : ListSetting) (who : Option ℕ) (s : Session) : NetVarList :=
  ((s.controller who).bind (NetSystem.findList g.object g.listID)).getD
    ⟨0, Blob.ofMem 0 Mem.zero, ∅, []⟩

/-- The copies of the list, each behind the messages about it. -/
def exchange (pb : Protobuf) (g : ListSetting) (k j : ℕ) (s : ListSession) : ListExchange where
  server := ⟨listOf g none s.session, named pb g.object g.listID (s.up k)⟩
  owner := ⟨listOf g (some k) s.session, named pb g.object g.listID (s.down k)⟩
  observer := ⟨listOf g (some j) s.session, named pb g.object g.listID (s.down j)⟩

theorem listOf_eq {who : Option ℕ} {ctx : ListContext} {l : NetVarList} {session : Session}
    (hshelved : ∀ c, session.controller who = some c → c.Shelved) (h : session.Keeps who ctx l)
    (hobject : ctx.object = g.object) (hid : ctx.listID = g.listID) : listOf g who session = l := by
  obtain ⟨c, hc, hkeeps⟩ := h
  rw [listOf, hc, Option.bind_some, ← hobject, ← hid, hkeeps.findList (hshelved c hc).keyed]
  rfl

theorem Shows.exchange_eq (h : Shows pb past host g k j s x) : s.exchange pb g k j = x := by
  rw [exchange, listOf_eq (h.shelved none) h.keepsServer rfl rfl,
    listOf_eq (h.shelved _) h.keepsOwner rfl rfl, listOf_eq (h.shelved _) h.keepsObserver rfl rfl,
    h.toServer, h.toOwner, h.toObserver]

/-- A session that shows the exchange of the list. -/
def Serves (pb : Protobuf) (past : Mem) (host : Peer) (g : ListSetting) (k j : ℕ) (s : ListSession) :
    Prop :=
  Shows pb past host g k j s (s.exchange pb g k j)

/-- What an action is to the list is no crossing for the key. -/
def NoCrossing (pb : Protobuf) (g : ListSetting) (k j : ℕ) (key : UInt32) (s : ListSession)
    (a : ListSessionAct) : Prop :=
  ∀ b ∈ s.view pb g k j a, (s.exchange pb g k j).NoCrossing g key b

/-- An action is at most one to the list. -/
theorem view_cases (hpb : pb.RoundTrips) (h : Shows pb past host g k j s x) (a : ListSessionAct) :
    s.view pb g k j a = [] ∨ ∃ b, s.view pb g k j a = [b] := by
  have hone : ∀ {queues : ℕ → List Bytes} {b : ListAct g.size}, Wrapped pb queues → ∀ i : ℕ,
      (named pb g.object g.listID ((queues i).take 1)).map (fun _ => b) = [] ∨
        ∃ b', (named pb g.object g.listID ((queues i).take 1)).map (fun _ => b) = [b'] := by
    intro queues b hqueues i
    cases hqueue : queues i with
    | nil => exact Or.inl rfl
    | cons packet rest =>
      obtain ⟨msg, rfl⟩ := hqueues.head hqueue
      rw [List.take_succ_cons, List.take_zero, named_cons hpb, named_nil]
      split_ifs
      · exact Or.inr ⟨b, rfl⟩
      · exact Or.inl rfl
  cases a with
  | session a => exact Or.inl rfl
  | call who object listID c =>
    rw [view]
    split_ifs
    · exact Or.inr ⟨_, rfl⟩
    · exact Or.inl rfl
  | listUpdate who =>
    cases who with
    | none => exact Or.inr ⟨_, rfl⟩
    | some i =>
      rw [view]
      split_ifs
      · exact Or.inr ⟨_, rfl⟩
      · exact Or.inl rfl
  | toServer i =>
    rw [view]
    split_ifs
    · exact hone h.wrappedUp i
    · exact Or.inl rfl
  | toClient i =>
    rw [view]
    split_ifs
    · exact hone h.wrappedDown i
    · exact hone h.wrappedDown i
    · exact Or.inl rfl

open ListExchange (byteSetting emptyLists_level)

/-- A controller with an object of each of two clients; the first object has a list of bytes. -/
def keeper (server : Bool) (callbacks : List (UInt16 × Handler)) (peers : List Peer)
    (owner other : Option Peer) : NetSystem where
  server := server
  callbacks := callbacks
  peerList := peers
  instances := [{
    name := [119]
    managers := [{
      name := [112], name_le := CEntities.p_le, cls := .bare
      objects := [
        { ref := 0, netID := 0, controller := netControllerLocal, peer := owner,
          lists := [{ size := 1, initial := Vector.replicate 1 0 }] },
        { ref := 1, netID := 1, controller := netControllerLocal, peer := other }] }] }]

theorem keeper_fit (server : Bool) (callbacks : List (UInt16 × Handler)) (peers : List Peer)
    (owner other : Option Peer) : (keeper server callbacks peers owner other).outline.Fit where
  running := rfl
  single := rfl
  ids := by simp [Outline.objects, NetSystem.outline, keeper, NetObject.outline]
  names := by simp [Outline.objects, NetSystem.outline, keeper, NetObject.outline]
  fits := by simp [Outline.objects, NetSystem.outline, keeper, NetObject.outline]
  few := by simp [Outline.objects, NetSystem.outline, keeper, NetObject.outline]

theorem shelves_keeper (server : Bool) (callbacks : List (UInt16 × Handler)) (peers : List Peer)
    (owner other : Option Peer) : (keeper server callbacks peers owner other).shelves =
      [⟨⟨[119], [112], 0⟩, [owner, other].filterMap id, owner,
          [{ size := 1, initial := Vector.replicate 1 0 }]⟩,
        ⟨⟨[119], [112], 1⟩, [owner, other].filterMap id, other, []⟩] := rfl

theorem keeper_shelved (server : Bool) (callbacks : List (UInt16 × Handler)) (peers : List Peer)
    (owner other : Option Peer) : (keeper server callbacks peers owner other).Shelved where
  keyed := by constructor <;> simp [NetSystem.catalog, keeper]
  addressed := by
    intro x hx n l hl
    rw [shelves_keeper] at hx
    have hqueue : l.updateQueue = [] := by
      simp only [List.mem_cons, List.not_mem_nil, or_false] at hx
      rcases hx with rfl | rfl
      · rw [List.getElem?_singleton] at hl
        split_ifs at hl
        exact Option.some.inj hl ▸ rfl
      · exact absurd hl (by simp)
    rw [NetVarList.Addressed, hqueue]
    simp

/-- A server and two clients. -/
def keepers : ListSession where
  session := {
    server := keeper true serverCallbacks [1, 2] (some 1) (some 2)
    links := [⟨1, ⟨keeper false clientCallbacks [0] none none, []⟩, []⟩,
      ⟨2, ⟨keeper false clientCallbacks [0] none none, []⟩, []⟩] }

theorem keepers_fit : keepers.session.Fit Mem.zero 0 where
  server := ⟨keeper_fit _ _ _ _ _, rfl, rfl⟩
  clients := by
    intro l hl
    simp only [keepers, List.mem_cons, List.not_mem_nil, or_false] at hl
    rcases hl with rfl | rfl <;> exact ⟨keeper_fit _ _ _ _ _, rfl, rfl, rfl⟩
  peers := by decide
  downlinks := by simp [keepers]
  uplinks := by simp [keepers]
  alive := rfl

theorem keepers_controller {who : Option ℕ} {c : NetSystem}
    (hc : keepers.session.controller who = some c) :
    (who = none ∧ c = keeper true serverCallbacks [1, 2] (some 1) (some 2)) ∨
      (who ≠ none ∧ c = keeper false clientCallbacks [0] none none) := by
  match who with
  | none => exact Or.inl ⟨rfl, (Option.some.inj hc).symm⟩
  | some 0 => exact Or.inr ⟨by simp, (Option.some.inj hc).symm⟩
  | some 1 => exact Or.inr ⟨by simp, (Option.some.inj hc).symm⟩
  | some (n + 2) => exact absurd hc (by simp [Session.controller, keepers])

theorem keepers_serves : keepers.Serves Protobuf.wire Mem.zero 0 byteSetting 0 1 where
  fit := keepers_fit
  server := rfl
  first := rfl
  owner := rfl
  observer := rfl
  shelved who c hc := by
    rcases keepers_controller hc with ⟨-, rfl⟩ | ⟨-, rfl⟩ <;> exact keeper_shelved _ _ _ _ _
  silent i c _ hc := by
    rcases keepers_controller hc with ⟨hi, -⟩ | ⟨-, rfl⟩
    · exact absurd hi (by simp)
    · intro x hx _
      rw [shelves_keeper] at hx
      simp only [List.mem_cons, List.not_mem_nil, or_false] at hx
      rcases hx with rfl | rfl
      · refine ⟨rfl, fun l hl => ?_⟩
        obtain rfl := Option.some.inj hl
        rfl
      · exact ⟨rfl, fun l hl => absurd hl (by simp)⟩
  uplinks := by simp [keepers]
  quiet _ _ := rfl
  wrappedUp _ packet hp := absurd hp List.not_mem_nil
  wrappedDown _ packet hp := absurd hp List.not_mem_nil
  keepsServer := ⟨_, rfl, _, List.mem_cons_self, rfl, rfl⟩
  keepsOwner := ⟨_, rfl, _, List.mem_cons_self, rfl, rfl⟩
  keepsObserver := ⟨_, rfl, _, List.mem_cons_self, rfl, rfl⟩
  toServer := rfl
  toOwner := rfl
  toObserver := rfl
  sound := emptyLists_level.flowing.sound

/-- The owner makes an element, and it reaches the other client. -/
def newElement : List ListSessionAct :=
  [.call (some 0) ⟨[119], [112], 0⟩ 0 (.create 5 [7]), .listUpdate (some 0), .toServer 0, .listUpdate none,
    .toClient 1]

theorem newElement_allowed : ∀ a ∈ newElement, Allowed Protobuf.wire Mem.zero byteSetting 0 a := by
  intro a ha
  simp only [newElement, List.mem_cons, List.not_mem_nil, or_false] at ha
  rcases ha with rfl | rfl | rfl | rfl | rfl
  exacts [fun _ => rfl, trivial, trivial, trivial, trivial]

theorem newElement_uncrossed : Along (step Protobuf.wire Mem.zero 0)
    (NoCrossing Protobuf.wire byteSetting 0 1 5) keepers newElement := by
  have hone : ∀ {l : List ListMsg} {a b : ListAct 1}, b ∈ l.map (fun _ => a) → b = a := fun hb => by
    obtain ⟨-, -, rfl⟩ := List.mem_map.mp hb
    rfl
  refine ⟨fun b hb => ?_, fun b hb => ?_, fun b hb => ?_, fun b hb => ?_, fun b hb => ?_, trivial⟩
  · rw [List.mem_singleton.mp hb]
    exact fun _ msg hmsg => absurd hmsg List.not_mem_nil
  · rw [List.mem_singleton.mp hb]
    trivial
  · rw [hone hb]
    trivial
  · rw [List.mem_singleton.mp hb]
    trivial
  · rw [hone hb]
    trivial

theorem newElement_atRest :
    ((run (step Protobuf.wire Mem.zero 0) keepers newElement).exchange Protobuf.wire byteSetting 0
      1).AtRest := by
  constructor <;> decide +kernel

/-- What the session has become. -/
def delivered : Session := (run (step Protobuf.wire Mem.zero 0) keepers newElement).session

end ListSession

end Nettik
