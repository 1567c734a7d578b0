import Nettik.Sync.Session

/-!
# One variable of a session

A session seen through one variable of an object that a client owns is an exchange of updates.

* `Session.view`: what an action of the session is to the variable;
* `Conveys`: the updates of the variable that the packets of a queue hold;
* `Shows`: the copies of the variable and their queues; **`shows_step`**, **`refines`**: every run of a
  session is a run of the exchange, whatever else travels in its packets.
-/

namespace Nettik

open ByteMem Loops Links

/-! ## The variable -/

/-- The variable with another state. -/
def NetVar.withBase (v : NetVar) (base : CNetVarBase (Blob v.size)) : NetVar := { v with base := base }

/-- A write to a variable of `n` bytes. -/
def Write.on {n : ℕ} : Write → CNetVarBase (Blob n) → CNetVarBase (Blob n)
  | .set active data => CNetVarBase.set active (Blob.ofMem n (Mem.ofList data Mem.zero))
  | .invalidate => CNetVarBase.invalidate

def Write.act (n : ℕ) (p : Party) : Write → Act (Blob n)
  | .set active data => .set p active (Blob.ofMem n (Mem.ofList data Mem.zero))
  | .invalidate => .invalidate p

theorem NetVar.write_withBase (w : Write) (v : NetVar) (base : CNetVarBase (Blob v.size)) :
    (v.withBase base).write w = v.withBase (w.on base) := by
  cases w <;> rfl

theorem Write.step_act {n : ℕ} (p : Party) (w : Write) (x : Exchange (Blob n)) :
    x.step (w.act n p) = x.modify p (Inbox.update w.on) := by
  cases w <;> rfl

/-- Frames for a variable, one after the other. -/
theorem NetVar.foldl_withBase (controller : UInt32) (fs : List Frame) (v : NetVar)
    (base : CNetVarBase (Blob v.size)) :
    fs.foldl (fun v f => NetVar.readUpdate controller f v) (v.withBase base) =
      v.withBase ((fs.map v.received).foldl (readAs controller) base) := by
  induction fs generalizing base with
  | nil => rfl
  | cons f fs ih => exact ih _

section

variable (address : UInt32 × Bytes) (v : NetVar)

/-- The updates of the variable in the frames of a packet. -/
def updatesIn (fs : List Frame) : List (Update (Blob v.size)) :=
  ((fs.filter (·.variable = address)).map Frame.extended).map v.received

/-- The packets of a queue, and the updates of the variable they hold. -/
inductive Conveys : List Bytes → List (Update (Blob v.size)) → Prop
  | nil : Conveys [] []
  | cons {sequence : UInt32} {fs : List Frame} {queue : List Bytes} {us : List (Update (Blob v.size))}
      (hfs : IsSnapshot fs) (hrest : Conveys queue us) :
      Conveys (packetOf sequence fs :: queue) (updatesIn address v fs ++ us)

/-- The number of updates of the variable in a packet. -/
def countIn (past : Mem) (packet : Bytes) : ℕ :=
  (decoded packet past).countP (·.variable = address)

/-- The party an owner, an observer or the server is, when the `k`-th client owns the object. -/
def partyOf (k : ℕ) : Option ℕ → Party
  | none => .server
  | some j => if j = k then .owner else .observer (skip k j)

/-- What an action of the session is to the variable. -/
def Session.view (past : Mem) (k : ℕ) (s : Session) : SessionAct → List (Act (Blob v.size))
  | .write who address' w => if address' = address then [w.act v.size (partyOf k who)] else []
  | .tick who => [.tick (partyOf k who)]
  | .toServer j =>
    if j = k then
      List.replicate (((s.links[k]?.bind (·.uplink.head?)).map (countIn address past)).getD 0)
        (.deliver .server)
    else []
  | .toClient j =>
    List.replicate (((s.links[j]?.bind (·.client.pending.head?)).map (countIn address past)).getD 0)
      (.deliver (partyOf k (some j)))
  | .inject _ _ => []

/-- A client's copy, and the updates on their way to it. -/
structure Downlink (controller : UInt32) (l : Connection) (y : Copies (Blob v.size)) : Prop where
  state : l.client.state.findVar address = some (controller, v.withBase y.state)
  pending : Conveys address v l.client.pending y.pending

/-- The session shows the exchange to the variable. -/
structure Shows (k : ℕ) (s : Session) (x : Exchange (Blob v.size)) : Prop where
  server : s.server.findVar address = some (netControllerLocal, v.withBase x.server.state)
  owner : ∃ l, s.links[k]? = some l ∧ s.server.outline.owner address.1 = some l.peer ∧
    Downlink address v netControllerLocal l x.owner ∧ Conveys address v l.uplink x.server.pending
  observers : List.Forall₂ (Downlink address v netControllerNone) (s.links.eraseIdx k) x.observers

end

/-! ## Packets and updates -/

section

variable {address : UInt32 × Bytes} {v : NetVar}

theorem Conveys.append {queue queue' : List Bytes} {us us' : List (Update (Blob v.size))}
    (h : Conveys address v queue us) (h' : Conveys address v queue' us') :
    Conveys address v (queue ++ queue') (us ++ us') := by
  induction h with
  | nil => exact h'
  | cons hfs _ ih =>
    rw [List.append_assoc]
    exact .cons hfs ih

theorem Conveys.nil_iff {us : List (Update (Blob v.size))} (h : Conveys address v [] us) : us = [] := by
  cases h
  rfl

theorem Conveys.cons_inv {packet : Bytes} {queue : List Bytes} {us : List (Update (Blob v.size))}
    (h : Conveys address v (packet :: queue) us) : ∃ sequence fs us', packet = packetOf sequence fs ∧
      IsSnapshot fs ∧ us = updatesIn address v fs ++ us' ∧ Conveys address v queue us' := by
  cases h with
  | cons hfs hrest => exact ⟨_, _, _, rfl, hfs, rfl, hrest⟩

/-- The frames a receiver decodes are those of the packet. -/
theorem countIn_packetOf {fs : List Frame} (hfs : IsSnapshot fs) (sequence : UInt32) (past : Mem) :
    countIn address past (packetOf sequence fs) = (updatesIn address v fs).length := by
  rw [countIn, decoded_packetOf sequence hfs.few hfs.fits, List.countP_map, updatesIn, List.length_map,
    List.length_map, List.countP_eq_length_filter]
  rfl

theorem filter_extended (fs : List Frame) : (fs.map Frame.extended).filter (·.variable = address) =
    (fs.filter (·.variable = address)).map Frame.extended := by
  rw [List.filter_map]
  rfl

theorem conveys_stream {s : NetSystem} (h : s.outline.Fit) {i : VirtualInstance}
    (hi : s.instances = [i]) (r : Bool) : Conveys address v (NetSystem.streamPackets r i)
      (updatesIn address v (i.emitted r false)) := by
  rw [NetSystem.streamPackets]
  split_ifs with hnil
  · rw [hnil]
    exact .nil
  · have hone : Conveys address v [packetOf i.sequenceID (i.emitted r false)]
        (updatesIn address v (i.emitted r false) ++ []) := .cons (Session.isSnapshot_emitted h hi r) .nil
    rwa [List.append_nil] at hone

theorem updatesIn_emitted {s : NetSystem} (h : s.outline.Fit) {i : VirtualInstance}
    (hi : s.instances = [i]) (r : Bool) {controller : UInt32} {base : CNetVarBase (Blob v.size)}
    (hv : s.findVar address = some (controller, v.withBase base)) :
    updatesIn address v (i.emitted r false) = if controller = netControllerLocal then
      ((((v.withBase base).emitted r false address.1).map Frame.extended).map v.received) else [] := by
  rw [updatesIn, NetSystem.filter_emitted h hi, hv]
  simp only [Option.map_some, Option.getD_some]
  split_ifs <;> rfl

/-- **The packets of a tick carry the snapshot of the variable.** -/
theorem conveys_tick {s : NetSystem} (h : s.outline.Fit) {i : VirtualInstance}
    (hi : s.instances = [i]) {controller : UInt32} {base : CNetVarBase (Blob v.size)}
    (hv : s.findVar address = some (controller, v.withBase base)) :
    Conveys address v (NetSystem.streamPackets true i ++ NetSystem.streamPackets false i)
      (if controller = netControllerLocal then (base.takeVariableSnapshot false).1.toList else []) := by
  have hstream : ∀ r, Conveys address v (NetSystem.streamPackets r i)
      (updatesIn address v (i.emitted r false)) := fun r => conveys_stream h hi r
  have hconveys := (hstream true).append (hstream false)
  rw [updatesIn_emitted h hi true hv, updatesIn_emitted h hi false hv] at hconveys
  have hupdates : (((v.withBase base).emitted true false address.1 ++
      (v.withBase base).emitted false false address.1).map Frame.extended).map v.received =
        (base.takeVariableSnapshot false).1.toList := by
    rw [NetVar.emitted_both, List.map_map, List.map_map]
    refine (List.map_congr_left fun u _ => ?_).trans (List.map_id _)
    exact NetVar.received_extended address.1 (v.withBase base) u
  split_ifs at hconveys ⊢
  · rwa [← List.map_append, ← List.map_append, hupdates] at hconveys
  · exact hconveys

/-- A client that processes a packet. -/
theorem Downlink.receive {pb : Protobuf} {past : Mem} {host : Peer} {l : Connection} {controller : UInt32}
    {y : Copies (Blob v.size)} (hl : Downlink address v controller l y)
    (hclient : l.client.state.outline.ClientFit host) {packet : Bytes} {rest : List Bytes}
    (hp : l.client.pending = packet :: rest) :
    Downlink address v controller
      { l with client := ⟨(l.client.state.receive pb past host packet).2, rest⟩ }
      ((Inbox.deliver (readAs controller))^[countIn address past packet] y) := by
  have hpending := hl.pending
  rw [hp] at hpending
  obtain ⟨sequence, fs, us, rfl, hfs, hus, hrest⟩ := hpending.cons_inv
  obtain ⟨base, pending⟩ := y
  obtain rfl : pending = updatesIn address v fs ++ us := hus
  rw [countIn_packetOf (v := v) hfs, Inbox.iterate_deliver]
  refine ⟨?_, hrest⟩
  show (NetSystem.receive pb past host _ l.client.state).2.findVar address = _
  rw [NetSystem.receive_client pb past sequence hfs.few hfs.fits hfs.data hclient.running
    hclient.callbacks host, NetSystem.findVar_foldl, hl.state, Option.map_some, filter_extended,
    NetVar.foldl_withBase]
  rfl

end

/-! ## The server -/

namespace NetSystem

variable {s : NetSystem}

/-- The frames of its owner reach a variable, in the order of the packet. -/
theorem findVar_foldl_owner {address : UInt32 × Bytes} {p : Peer}
    (hp : s.outline.owner address.1 = some p) (fs : List Frame) :
    (fs.foldl (fun s f => s.readEntityUpdate f (some p)) s).findVar address =
      (s.findVar address).map fun x =>
        (x.1, (fs.filter (·.variable = address)).foldl (fun v f => NetVar.readUpdate x.1 f v) x.2) := by
  induction fs generalizing s with
  | nil => simp
  | cons f fs ih =>
    have hstep : (s.readEntityUpdate f (some p)).findVar address = (s.findVar address).map fun x =>
        (x.1, if f.variable = address then x.2.readUpdate x.1 f else x.2) := by
      rw [readEntityUpdate_some_eq]
      by_cases ho : s.outline.owner f.netID = some p
      · rw [if_pos ho]
        exact findVar_updateVar (f := fun c => NetVar.readUpdate c f) (fun _ _ => rfl) f.variable address s
      · have hne : f.variable ≠ address := fun e => ho (by
          have hid : f.netID = address.1 := congrArg Prod.fst e
          rw [hid, hp])
        simp [ho, hne]
    rw [List.foldl_cons, ih (by rw [outline_readEntityUpdate, hp]), hstep, Option.map_map]
    by_cases hf : f.variable = address
    · simp only [hf, List.filter_cons, decide_true, if_true, List.foldl_cons]
      rfl
    · simp only [hf, List.filter_cons, decide_false, Bool.false_eq_true, if_false]
      rfl

end NetSystem

/-! ## Actions -/

namespace Exchange

variable {α : Type}

theorem modify_id (p : Party) (x : Exchange α) : x.modify p id = x := by
  cases p with
  | server => rfl
  | owner => rfl
  | observer n => rw [modify, List.modify_id]

theorem modify_modify (p : Party) (f g : Copies α → Copies α) (x : Exchange α) :
    (x.modify p f).modify p g = x.modify p (g ∘ f) := by
  cases p with
  | server => rfl
  | owner => rfl
  | observer n => simp only [modify, List.modify_modify_eq]

theorem run_deliver [BEq α] (p : Party) (n : ℕ) (x : Exchange α) :
    run step x (List.replicate n (.deliver p)) =
      x.modify p (Inbox.deliver (readAs p.controller))^[n] := by
  induction n generalizing x with
  | zero => exact (modify_id p x).symm
  | succ n ih =>
    rw [Function.iterate_succ, ← modify_modify]
    exact ih _

end Exchange

/-- A client only sends the server packets of its own making if it does not own the object. -/
def SessionAct.Honest (k : ℕ) : SessionAct → Prop
  | .inject j _ => j ≠ k
  | _ => True

/-- The copy behind a link after a tick of its client. -/
theorem Downlink.tick {address : UInt32 × Bytes} {v : NetVar} {controller : UInt32} {l : Connection} {y : Copies (Blob v.size)}
    (hl : Downlink address v controller l y) (hrun : l.client.state.running = true) (up : List Bytes) :
    Downlink address v controller
      { l with client := l.client.update fun _ => l.client.state.snapshotUpdate.1, uplink := up }
      (if controller = netControllerLocal then
        y.update fun _ => (y.state.takeVariableSnapshot false).2 else y) := by
  have hstate := NetSystem.findVar_snapshotUpdate hrun address
  rw [hl.state, Option.map_some] at hstate
  split_ifs at hstate ⊢
  · exact ⟨hstate, hl.pending⟩
  · exact ⟨hstate, hl.pending⟩

namespace Shows

variable {pb : Protobuf} {past : Mem} {host : Peer} {address : UInt32 × Bytes} {v : NetVar} {k : ℕ}
  {s : Session} {x : Exchange (Blob v.size)}

/-- A change behind one link. -/
theorem modify (h : Shows address v k s x) (j : ℕ) {f : Connection → Connection}
    {g : Copies (Blob v.size) → Copies (Blob v.size)} (hpeer : ∀ l, (f l).peer = l.peer)
    (hup : j = k → ∀ l, (f l).uplink = l.uplink)
    (hf : ∀ l y, s.links[j]? = some l → Downlink address v (partyOf k (some j)).controller l y →
      Downlink address v (partyOf k (some j)).controller (f l) (g y)) :
    Shows address v k { s with links := s.links.modify j f } (x.modify (partyOf k (some j)) g) := by
  obtain ⟨l, hl, howner, hdown, huplink⟩ := h.owner
  by_cases hj : j = k
  · subst hj
    have hparty : partyOf j (some j) = .owner := if_pos rfl
    rw [hparty] at hf ⊢
    refine ⟨h.server, ⟨f l, ?_, ?_, hf l _ hl hdown, ?_⟩, ?_⟩
    · rw [List.getElem?_modify_eq, hl]
      rfl
    · rw [hpeer]
      exact howner
    · rw [hup rfl]
      exact huplink
    · rw [eraseIdx_modify_self]
      exact h.observers
  · have hparty : partyOf k (some j) = .observer (skip k j) := if_neg hj
    rw [hparty] at hf ⊢
    refine ⟨h.server, ⟨l, ?_, howner, hdown, huplink⟩, ?_⟩
    · rw [List.getElem?_modify_ne _ _ hj, hl]
    · rw [eraseIdx_modify_of_ne hj]
      exact forall₂_modify h.observers fun l y hl' _ hly => hf l y (getElem?_eraseIdx_skip hj s.links ▸ hl') hly

/-- A change behind one link that the copies do not see. -/
theorem modify_unseen (h : Shows address v k s x) (j : ℕ) {f : Connection → Connection}
    (hpeer : ∀ l, (f l).peer = l.peer) (hup : j = k → ∀ l, (f l).uplink = l.uplink)
    (hf : ∀ l y, s.links[j]? = some l → Downlink address v (partyOf k (some j)).controller l y →
      Downlink address v (partyOf k (some j)).controller (f l) y) :
    Shows address v k { s with links := s.links.modify j f } x := by
  have hmod := h.modify j (g := id) hpeer hup hf
  rwa [Exchange.modify_id] at hmod

theorem write (h : Shows address v k s x) (who : Option ℕ) (address' : UInt32 × Bytes) (w : Write) :
    Shows address v k (s.step pb past host (.write who address' w))
      (run Exchange.step x (s.view address v past k (.write who address' w))) := by
  by_cases ha : address' = address
  · have hrun : run Exchange.step x (s.view address v past k (.write who address' w)) =
        x.modify (partyOf k who) (Inbox.update w.on) := by
      rw [Session.view, if_pos ha]
      exact Write.step_act _ w x
    rw [hrun]
    cases who with
    | none =>
      obtain ⟨l, hl, howner, hdown, hup⟩ := h.owner
      refine ⟨?_, ⟨l, hl, ?_, hdown, hup⟩, h.observers⟩
      · show (s.server.write address' w).findVar address = _
        rw [NetSystem.findVar_write, h.server, Option.map_some, if_pos ha, NetVar.write_withBase]
        rfl
      · show (s.server.write address' w).outline.owner address.1 = some l.peer
        rw [NetSystem.outline_write, howner]
    | some j =>
      refine h.modify j (fun _ => rfl) (fun _ _ => rfl) fun l y _ hly => ⟨?_, hly.pending⟩
      show (l.client.state.write address' w).findVar address = _
      rw [NetSystem.findVar_write, hly.state, Option.map_some, if_pos ha, NetVar.write_withBase]
      rfl
  · have hrun : run Exchange.step x (s.view address v past k (.write who address' w)) = x := by
      rw [Session.view, if_neg ha]
      rfl
    rw [hrun]
    cases who with
    | none =>
      obtain ⟨l, hl, howner, hdown, hup⟩ := h.owner
      refine ⟨?_, ⟨l, hl, ?_, hdown, hup⟩, h.observers⟩
      · show (s.server.write address' w).findVar address = _
        rw [NetSystem.findVar_write, h.server, Option.map_some, if_neg ha]
      · show (s.server.write address' w).outline.owner address.1 = some l.peer
        rw [NetSystem.outline_write, howner]
    | some j =>
      refine h.modify_unseen j (fun _ => rfl) (fun _ _ => rfl) fun l y _ hly => ⟨?_, hly.pending⟩
      show (l.client.state.write address' w).findVar address = _
      rw [NetSystem.findVar_write, hly.state, Option.map_some, if_neg ha]

theorem tickServer (h : Shows address v k s x) (hfit : s.Fit past host) :
    Shows address v k (s.tick host none) (x.tick .server) := by
  obtain ⟨i, hi⟩ := NetSystem.exists_instance hfit.server.toFit
  obtain ⟨l, hl, howner, hdown, hup⟩ := h.owner
  have hconveys := conveys_tick hfit.server.toFit hi h.server
  rw [if_pos rfl] at hconveys
  have hstate := NetSystem.findVar_snapshotUpdate hfit.server.running address
  rw [h.server, Option.map_some, if_pos rfl] at hstate
  have hpost : ∀ {controller : UInt32} {l : Connection} {y : Copies (Blob v.size)},
      Downlink address v controller l y → Downlink address v controller
        (l.post ((s.server.snapshotUpdate.2.filter (Send.reaches l.peer)).map Send.packet))
        (y.post (x.server.state.takeVariableSnapshot false).1.toList) := by
    intro controller l y hly
    rw [Session.sends_server hfit.server hi]
    exact ⟨hly.state, hly.pending.append hconveys⟩
  refine ⟨hstate, ⟨_, ?_, ?_, hpost hdown, hup⟩, ?_⟩
  · show (s.links.map _)[k]? = _
    rw [List.getElem?_map, hl]
    rfl
  · show s.server.snapshotUpdate.1.outline.owner address.1 = _
    rw [NetSystem.outline_snapshotUpdate hfit.server.running, howner]
    rfl
  · show List.Forall₂ _ ((s.links.map _).eraseIdx k) (x.observers.map _)
    rw [List.eraseIdx_map, List.forall₂_map_left_iff, List.forall₂_map_right_iff]
    exact h.observers.imp fun _ _ hly => hpost hly

theorem tickClient (h : Shows address v k s x) (hfit : s.Fit past host) (j : ℕ) :
    Shows address v k (s.tick host (some j)) (x.tick (partyOf k (some j))) := by
  obtain ⟨l, hl, howner, hdown, hup⟩ := h.owner
  by_cases hj : j = k
  · subst hj
    have hparty : partyOf j (some j) = .owner := if_pos rfl
    have hclient := hfit.clients l (List.mem_of_getElem? hl)
    obtain ⟨i, hi⟩ := NetSystem.exists_instance hclient.toFit
    have hconveys := conveys_tick hclient.toFit hi hdown.state
    rw [if_pos rfl] at hconveys
    rw [hparty]
    refine ⟨h.server, ⟨{ l with
        client := l.client.update fun _ => l.client.state.snapshotUpdate.1
        uplink := l.uplink ++ (NetSystem.streamPackets true i ++ NetSystem.streamPackets false i) },
      ?_, howner, ?_, hup.append hconveys⟩, ?_⟩
    · show (s.links.modify j _)[j]? = _
      rw [List.getElem?_modify_eq, hl, ← Session.sends_client hclient hi]
      rfl
    · have htick := hdown.tick hclient.running
        (l.uplink ++ (NetSystem.streamPackets true i ++ NetSystem.streamPackets false i))
      rwa [if_pos rfl] at htick
    · show List.Forall₂ _ ((s.links.modify j _).eraseIdx j) x.observers
      rw [eraseIdx_modify_self]
      exact h.observers
  · have hparty : partyOf k (some j) = .observer (skip k j) := if_neg hj
    have hmod := h.modify_unseen j (f := fun l => { l with
        client := l.client.update fun _ => l.client.state.snapshotUpdate.1
        uplink := l.uplink ++ (l.client.state.snapshotUpdate.2.filter (Send.reaches host)).map Send.packet })
      (fun _ => rfl) (fun e => absurd e hj) fun l y hl' hly => by
        have htick := hly.tick (hfit.clients l (List.mem_of_getElem? hl')).running
          (l.uplink ++ (l.client.state.snapshotUpdate.2.filter (Send.reaches host)).map Send.packet)
        rw [hparty] at htick hly ⊢
        rwa [if_neg (by show netControllerNone ≠ netControllerLocal; decide)] at htick
    rw [hparty]
    exact hmod

theorem toClient (h : Shows address v k s x) (hfit : s.Fit past host) (j : ℕ) :
    Shows address v k (s.toClient pb past host j)
      (run Exchange.step x (s.view address v past k (.toClient j))) := by
  rw [Session.view, Exchange.run_deliver, Session.toClient]
  cases hl : s.links[j]? with
  | none => exact (Exchange.modify_id _ x).symm ▸ h
  | some l =>
    dsimp only [Option.bind_some]
    cases hp : l.client.pending with
    | nil => exact (Exchange.modify_id _ x).symm ▸ h
    | cons packet rest =>
      have hclient := hfit.clients l (List.mem_of_getElem? hl)
      have hmod := h.modify j (f := fun l' => { l' with client :=
          ⟨(l.client.state.receive pb past host packet).2, rest⟩ })
        (g := (Inbox.deliver (readAs (partyOf k (some j)).controller))^[countIn address past packet])
        (fun _ => rfl) (fun _ _ => rfl) fun l' y hl' hly => by
          obtain rfl := Option.some.inj (hl.symm.trans hl')
          exact hly.receive hclient hp
      exact ⟨hmod.server, hmod.owner, hmod.observers⟩

theorem toServer (h : Shows address v k s x) (hfit : s.Fit past host) (j : ℕ) :
    Shows address v k (s.toServer pb past j)
      (run Exchange.step x (s.view address v past k (.toServer j))) := by
  obtain ⟨l, hl, howner, hdown, hup⟩ := h.owner
  by_cases hj : j = k
  · subst hj
    rw [Session.view, if_pos rfl, Exchange.run_deliver, Session.toServer, hl]
    dsimp only [Option.bind_some]
    cases hp : l.uplink with
    | nil => exact (Exchange.modify_id _ x).symm ▸ h
    | cons packet rest =>
      rw [hp] at hup
      obtain ⟨sequence, fs, us, rfl, hfs, hus, hrest⟩ := hup.cons_inv
      have hreceive := NetSystem.receive_peer pb past sequence hfs.few hfs.fits hfs.data
        hfit.server.running hfit.server.callbacks l.peer
      have houtline := NetSystem.outline_foldl (fs.map Frame.extended) (some l.peer) s.server
      have hserver : x.server = ⟨x.server.state, updatesIn address v fs ++ us⟩ := by rw [← hus]
      have hdeliver : (Inbox.deliver (readAs netControllerLocal))^[(updatesIn address v fs).length] x.server =
          ⟨(updatesIn address v fs).foldl (readAs netControllerLocal) x.server.state, us⟩ := by
        conv_lhs => rw [hserver]
        exact Inbox.iterate_deliver _ _ _ _
      have hrun : x.modify .server (Inbox.deliver (readAs netControllerLocal))^[(updatesIn address v fs).length] =
          { x with server := ⟨(updatesIn address v fs).foldl (readAs netControllerLocal) x.server.state, us⟩ } := by
        rw [Exchange.modify, hdeliver]
      dsimp only [List.head?_cons, Option.map_some, Option.getD_some]
      rw [hreceive, countIn_packetOf (v := v) hfs, Party.controller, hrun]
      refine ⟨?_, ⟨{ l with uplink := rest }, ?_, ?_, ⟨hdown.state, hdown.pending⟩, hrest⟩, ?_⟩
      · show NetSystem.findVar address (List.foldl _ s.server _) = _
        rw [NetSystem.findVar_foldl_owner howner, h.server, Option.map_some, filter_extended,
          NetVar.foldl_withBase]
        rfl
      · show (s.links.modify j _)[j]? = _
        rw [List.getElem?_modify_eq, hl]
        rfl
      · show (List.foldl _ s.server _).outline.owner address.1 = some l.peer
        rw [houtline, howner]
      · show List.Forall₂ _ ((s.links.modify j _).eraseIdx j) x.observers
        rw [eraseIdx_modify_self]
        exact h.observers
  · rw [Session.view, if_neg hj, Session.toServer]
    show Shows address v k _ x
    cases hl' : s.links[j]? with
    | none => exact h
    | some l' =>
      dsimp only
      cases hp : l'.uplink with
      | nil => exact h
      | cons packet rest =>
        -- another peer's packet leaves the variable alone
        have hne : s.server.outline.owner address.1 ≠ some l'.peer := by
          rw [howner]
          intro e
          have hpeer : (s.links.map Connection.peer)[j]? = (s.links.map Connection.peer)[k]? := by
            rw [List.getElem?_map, List.getElem?_map, hl, hl']
            exact e.symm
          have hlt : j < (s.links.map Connection.peer).length := by
            rw [List.length_map]
            exact (List.getElem?_eq_some_iff.mp hl').1
          exact hj ((List.getElem?_inj hlt hfit.peers).mp hpeer)
        obtain ⟨houtline, hvars⟩ :=
          NetSystem.receive_others hfit.server.callbacks pb past (p := l'.peer) packet
        have hmod := h.modify_unseen j (f := fun l => { l with uplink := rest }) (fun _ => rfl)
          (fun e => absurd e hj) fun l y _ hly => ⟨hly.state, hly.pending⟩
        obtain ⟨l₁, hl₁, howner₁, hdown₁, hup₁⟩ := hmod.owner
        refine ⟨?_, ⟨l₁, hl₁, ?_, hdown₁, hup₁⟩, hmod.observers⟩
        · show (s.server.receive pb past l'.peer packet).2.findVar address = _
          rw [hvars address hne, h.server]
        · show (s.server.receive pb past l'.peer packet).2.outline.owner address.1 = _
          rw [houtline, howner₁]

end Shows

/-! ## Runs -/

namespace Session

variable {pb : Protobuf} {past : Mem} {host : Peer} {address : UInt32 × Bytes} {v : NetVar} {k : ℕ}

/-- The packets that clients make up are harmless, and none of them comes from the owner. -/
def Allowed (past : Mem) (k : ℕ) (a : SessionAct) : Prop := Harmless past a ∧ a.Honest k

/-- **Every action of a session is what it is to the variable.** -/
theorem shows_step {s : Session} {x : Exchange (Blob v.size)} (a : SessionAct) (hfit : s.Fit past host)
    (h : Shows address v k s x) (ha : a.Honest k) :
    Shows address v k (s.step pb past host a) (run Exchange.step x (s.view address v past k a)) := by
  cases a with
  | write who address' w => exact h.write who address' w
  | tick who =>
    cases who with
    | none => exact h.tickServer hfit
    | some j => exact h.tickClient hfit j
  | toServer j => exact h.toServer hfit j
  | toClient j => exact h.toClient hfit j
  | inject j packet =>
    exact h.modify_unseen j (fun _ => rfl) (fun e => absurd e ha) fun l y _ hly => ⟨hly.state, hly.pending⟩

def hitPoints : NetVar where
  name := CStr.hp
  reliable := true
  size := 1
  size_lt := NetVar.byte_lt
  base := { data := Blob.byte 1, changed := false }

def position : NetVar where
  name := CStr.x
  reliable := false
  size := 1
  size_lt := NetVar.byte_lt
  base := { data := Blob.byte 2 }

/-- A controller that holds one object with two variables. -/
def player (server : Bool) (callbacks : List (UInt16 × Handler)) (peers : List Peer) (controller : UInt32)
    (peer : Option Peer) : NetSystem where
  server := server
  callbacks := callbacks
  peerList := peers
  instances := [{
    name := [119]
    managers := [{
      name := [112], name_le := CEntities.p_le, cls := .bare
      objects := [{ ref := 0, netID := 7, controller := controller, peer := peer,
                    vars := [hitPoints, position] }] }] }]

theorem player_fit (server : Bool) (callbacks : List (UInt16 × Handler)) (peers : List Peer)
    (controller : UInt32) (peer : Option Peer) :
    (player server callbacks peers controller peer).outline.Fit where
  running := rfl
  single := rfl
  ids := by simp [Outline.objects, NetSystem.outline, player]
  names := by
    simp [Outline.objects, NetSystem.outline, player, NetObject.outline, hitPoints, position, CStr.hp, CStr.x]
  fits := by
    simp [Outline.objects, NetSystem.outline, player, NetObject.outline, hitPoints, position, CStr.hp,
      CStr.x, maxEntvarName]
  few := by simp [Outline.objects, NetSystem.outline, player, NetObject.outline]

/-- The object belongs to the first of two clients. -/
def twoPlayers : Session where
  server := player true serverCallbacks [5, 6] netControllerLocal (some 5)
  links := [⟨5, ⟨player false clientCallbacks [0] netControllerLocal none, []⟩, []⟩,
    ⟨6, ⟨player false clientCallbacks [0] netControllerNone none, []⟩, []⟩]

theorem twoPlayers_fit : twoPlayers.Fit Mem.zero 0 where
  server := ⟨player_fit _ _ _ _ _, rfl, rfl⟩
  clients := by
    intro l hl
    simp only [twoPlayers, List.mem_cons, List.not_mem_nil, or_false] at hl
    rcases hl with rfl | rfl <;> exact ⟨player_fit _ _ _ _ _, rfl, rfl, rfl⟩
  peers := by decide
  downlinks := by simp [twoPlayers]
  uplinks := by simp [twoPlayers]
  alive := rfl

/-- The hit points of both clients and the server. -/
def threeCopies : Exchange (Blob hitPoints.size) where
  server := { state := hitPoints.base }
  owner := { state := hitPoints.base }
  observers := [{ state := hitPoints.base }]

theorem twoPlayers_shows : Shows (7, [104, 112]) hitPoints 0 twoPlayers threeCopies where
  server := rfl
  owner := ⟨_, rfl, rfl, ⟨rfl, .nil⟩, .nil⟩
  observers := .cons ⟨rfl, .nil⟩ .nil

/-- The owner writes; meanwhile the other client sends two bytes that no handler is bound to. -/
def played : List SessionAct :=
  [.write (some 0) (7, [104, 112]) (.set true [9]), .tick (some 0), .inject 1 [1, 2], .toServer 0,
    .toServer 1, .tick none, .toClient 0, .toClient 1]

theorem played_allowed : ∀ a ∈ played, Allowed Mem.zero 0 a := by
  have hinject : harmless [1, 2] Mem.zero := ⟨le_rfl, fun h => absurd h (by decide)⟩
  simp [played, Allowed, Harmless, SessionAct.Honest, hinject]

end Session

end Nettik
