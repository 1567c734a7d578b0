import Nettik.Sync.Settle

/-!
# The traffic of a session

* `tickPackets`: the packets a tick hands to the transport; `framesSent`: the frames for one variable in
  the packets of a run;
* `sum_countIn`, `emitted_view`: they are the updates that the exchange of the variable emits;
* **`traffic_bounded`**: every write is worth two frames at most.
-/

namespace Nettik

open ByteMem Loops Links

/-! ## The account of an exchange -/

namespace Exchange

variable {α : Type}

/-- What both sides may still emit. -/
def credit (x : Exchange α) : ℕ := effort x.server + effort x.owner

theorem potential_eq (x : Exchange α) : x.potential = x.emitted + x.credit := by
  rw [potential, credit, Nat.add_assoc]

theorem emitted_modify (p : Party) (f : Copies α → Copies α) (x : Exchange α) :
    (x.modify p f).emitted = x.emitted := by
  cases p <;> rfl

/-- Deliveries emit nothing. -/
theorem emitted_deliver [BEq α] (p : Party) (n : ℕ) (x : Exchange α) :
    (run step x (List.replicate n (.deliver p))).emitted = x.emitted := by
  rw [run_deliver, emitted_modify]

theorem Following.credit_eq {x : Exchange α} (h : x.Following) : x.credit = 0 := by
  obtain ⟨hps, hpo, -⟩ := h.quiet
  simp [credit, effort, h.serverClean, h.ownerClean, hps, hpo]

end Exchange

/-! ## The packets of a tick -/

namespace Session

/-- A broadcast counts once. -/
def tickPackets (s : Session) : SessionAct → List Bytes
  | .tick none => s.server.snapshotUpdate.2.map Send.packet
  | .tick (some k) => ((s.links[k]?.map fun l => l.client.state.snapshotUpdate.2).getD []).map Send.packet
  | _ => []

/-- The frames for one variable that the controllers send in the course of a run. -/
def framesSent (address : UInt32 × Bytes) (pb : Protobuf) (past : Mem) (host : Peer) (s : Session)
    (acts : List SessionAct) : ℕ :=
  ((shown (step pb past host) tickPackets s acts).map (countIn address past)).sum

/-- Whether an application writes the variable. -/
def writesVar (address : UInt32 × Bytes) : SessionAct → Bool
  | .write _ address' _ => address' == address
  | _ => false

variable {pb : Protobuf} {past : Mem} {host : Peer} {address : UInt32 × Bytes} {v : NetVar} {k : ℕ}
  {s : Session} {x : Exchange (Blob v.size)}

theorem sum_countIn {queue : List Bytes} {us : List (Update (Blob v.size))} (h : Conveys address v queue us)
    (past : Mem) : (queue.map (countIn address past)).sum = us.length := by
  induction h with
  | nil => rfl
  | @cons sequence fs queue us hfs hrest ih =>
    have hcount : countIn address past (packetOf sequence fs) = (updatesIn address v fs).length :=
      countIn_packetOf hfs sequence past
    rw [List.map_cons, List.sum_cons, ih, List.length_append, hcount]

theorem packets_server {c : NetSystem} (h : c.outline.ServerFit) {i : VirtualInstance}
    (hi : c.instances = [i]) : c.snapshotUpdate.2.map Send.packet =
      NetSystem.streamPackets true i ++ NetSystem.streamPackets false i := by
  have hserver : c.server = true := h.server
  have hrun : c.running = true := h.running
  rw [NetSystem.snapshotUpdate_single h.toFit hi (fun packet => ⟨0, none, true, packet⟩)
    fun stream => by simp [hserver, NetSystem.broadcastStream, NetSystem.broadcast, hrun], List.map_map]
  exact List.map_id _

theorem packets_client {c : NetSystem} (h : c.outline.ClientFit host) {i : VirtualInstance}
    (hi : c.instances = [i]) : c.snapshotUpdate.2.map Send.packet =
      NetSystem.streamPackets true i ++ NetSystem.streamPackets false i := by
  have hserver : c.server = false := h.server
  have hrun : c.running = true := h.running
  have hpeer : c.peerList.head? = some host := h.host
  rw [NetSystem.snapshotUpdate_single h.toFit hi (fun packet => ⟨1, some host, true, packet⟩)
    fun stream => by
      simp [hserver, NetSystem.sendStream, NetSystem.send, NetSystem.getFirstPeer, hrun, hpeer], List.map_map]
  exact List.map_id _

/-- What a client's tick says of the variable. -/
theorem countIn_tickClient (hfit : s.Fit past host) {l : Connection} (hl : l ∈ s.links)
    {controller : UInt32} {y : Copies (Blob v.size)} (hdown : Downlink address v controller l y) :
    ((l.client.state.snapshotUpdate.2.map Send.packet).map (countIn address past)).sum =
      if controller = netControllerLocal then (y.state.takeVariableSnapshot false).1.toList.length else 0 := by
  have hclient := hfit.clients l hl
  obtain ⟨i, hi⟩ := NetSystem.exists_instance hclient.toFit
  have hconveys := conveys_tick hclient.toFit hi hdown.state
  rw [packets_client hclient hi, sum_countIn hconveys]
  split_ifs <;> rfl

/-- **What a step sends is what the exchange emits.** -/
theorem emitted_view (hfit : s.Fit past host) (h : Shows address v k s x) (a : SessionAct) :
    (run Exchange.step x (s.view address v past k a)).emitted =
      x.emitted + ((s.tickPackets a).map (countIn address past)).sum := by
  cases a with
  | write who address' w =>
    rw [view]
    split_ifs
    · cases w <;> exact Exchange.emitted_modify _ _ x
    · rfl
  | tick who =>
    cases who with
    | none =>
      obtain ⟨i, hi⟩ := NetSystem.exists_instance hfit.server.toFit
      have hconveys := conveys_tick hfit.server.toFit hi h.server
      rw [if_pos rfl] at hconveys
      rw [tickPackets, packets_server hfit.server hi, sum_countIn hconveys]
      rfl
    | some j =>
      obtain ⟨l, hl, -, hdown, -⟩ := h.owner
      by_cases hj : j = k
      · subst hj
        have hparty : partyOf j (some j) = .owner := if_pos rfl
        have hcount := countIn_tickClient hfit (List.mem_of_getElem? hl) hdown
        rw [if_pos rfl] at hcount
        rw [tickPackets, hl, Option.map_some, Option.getD_some, hcount, view, hparty]
        rfl
      · have hparty : partyOf k (some j) = .observer (skip k j) := if_neg hj
        rw [view, hparty, tickPackets]
        cases hlj : s.links[j]? with
        | none => rfl
        | some l' =>
          rw [← getElem?_eraseIdx_skip hj s.links] at hlj
          obtain ⟨y, -, hly⟩ := forall₂_getElem? h.observers hlj
          have hmem : l' ∈ s.links := List.mem_of_mem_eraseIdx (List.mem_of_getElem? hlj)
          rw [Option.map_some, Option.getD_some, countIn_tickClient hfit hmem hly, if_neg (by decide)]
          rfl
  | toServer j =>
    rw [view]
    split_ifs
    · exact Exchange.emitted_deliver _ _ x
    · rfl
  | toClient j => exact Exchange.emitted_deliver _ _ x
  | inject j packet => rfl

/-- A write is worth two frames, and nothing else is worth anything. -/
theorem cost_view (s : Session) (a : SessionAct) :
    ((s.view address v past k a).map fun b => if b.writer.isSome then 2 else 0).sum ≤
      if writesVar address a then 2 else 0 := by
  have hdeliver : ∀ (p : Party) (n : ℕ), ((List.replicate n (Act.deliver p : Act (Blob v.size))).map
      fun b => if b.writer.isSome then 2 else 0).sum = 0 := by
    intro p n
    rw [List.map_replicate]
    simp [Act.writer]
  cases a with
  | write who address' w =>
    rw [view, writesVar]
    by_cases ha : address' = address
    · rw [if_pos ha, if_pos (beq_iff_eq.mpr ha)]
      cases w <;> exact le_rfl
    · rw [if_neg ha]
      exact Nat.zero_le _
  | tick who => exact le_rfl
  | toServer j =>
    rw [view]
    by_cases hj : j = k
    · rw [if_pos hj]
      exact (hdeliver _ _).le
    · rw [if_neg hj]
      exact le_rfl
  | toClient j => exact (hdeliver _ _).le
  | inject j packet => exact le_rfl

theorem answered_allowed : ∀ a ∈ answered, Allowed Mem.zero 0 a := by
  have hreply : ∀ a ∈ reply, Allowed Mem.zero 0 a := by
    simp [reply, Allowed, Harmless, SessionAct.Honest]
  exact List.forall_mem_append.mpr ⟨played_allowed, hreply⟩

end Session

end Nettik
