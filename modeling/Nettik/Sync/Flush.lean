import Nettik.Sync.Lists
import Nettik.World.Failures

/-!
# Who gets the updates of a list

`UpdateListDelta` addresses the queued updates (`SendDelta`) and dispatches them by clearing the queue
(`Flush`); an update without an address goes to the first peer.

* `ReachesOnce`: each update reaches every owner but the one it is kept from once, and nobody else;
  **`reachesOnce_iff`** the managers and queues for which it does;
* `Flushing`: a list whose application works between the two calls; **`delivered_iff`**: every update
  reaches the owners exactly as long as none is queued there.
-/

namespace Nettik

open ByteMem Links ListExchange Loops

/-! ## One call of `UpdateListDelta` -/

/-- A change that waits to be sent, and the peer it is kept from. -/
abbrev ListUpdate := ListMsg × Option Peer

/-- A packet that no `SendDelta` has addressed. -/
def QueuedPacket.fresh (u : ListUpdate) : QueuedPacket := ⟨u.1, u.2, []⟩

def QueuedPacket.update (q : QueuedPacket) : ListUpdate := (q.msg, q.filter)

/-- The objects' peers that an update is not kept from. -/
def targets (players : List Peer) (filter : Option Peer) : List Peer :=
  players.filter fun p => some p != filter

/-- **The law of `SendDelta` and `Flush`.** What reaches a peer that owns an object are the updates not
kept from it, each once and in their order; nothing reaches the others. -/
def ReachesOnce (players : List Peer) (firstPeer : Option Peer) (l : NetVarList) : Prop :=
  ∀ p, sentToPeer p (l.updateListDelta players firstPeer).2 =
    if p ∈ players then queuedFor p l.updateQueue else []

/-- How often an update is sent to a peer. -/
def copies (players : List Peer) (firstPeer : Option Peer) (p : Peer) (u : ListUpdate) : ℕ :=
  if (targets players u.2).isEmpty then firstPeer.toList.count p else (targets players u.2).count p

section

variable {players : List Peer} {firstPeer : Option Peer} {p : Peer}

theorem mem_targets {filter : Option Peer} :
    p ∈ targets players filter ↔ p ∈ players ∧ some p ≠ filter := by
  simp [targets]

theorem sentToPeer_fresh (players : List Peer) (firstPeer : Option Peer) (p : Peer) (u : ListUpdate) :
    sentToPeer p (QueuedPacket.dispatch firstPeer { QueuedPacket.fresh u with
      peers := (QueuedPacket.fresh u).peers ++ targets players u.2 }) =
        List.replicate (copies players firstPeer p u) u.1 := by
  have hsent : ∀ ps : List Peer, sentToPeer p (ps.map fun p => (p, u.1)) =
      List.replicate (ps.count p) u.1 := by
    intro ps
    rw [sentToPeer, List.filter_map, List.map_map, List.count_eq_length_filter]
    exact List.map_const ..
  rw [QueuedPacket.dispatch, QueuedPacket.fresh, List.nil_append]
  dsimp only
  rw [hsent, copies]
  split_ifs <;> rfl

theorem sentToPeer_updates (updates : List ListUpdate) (l : NetVarList) :
    sentToPeer p ({ l with updateQueue := updates.map .fresh }.updateListDelta players firstPeer).2 =
      updates.flatMap fun u => List.replicate (copies players firstPeer p u) u.1 := by
  rw [sentToPeer_updateListDelta, List.flatMap_map]
  exact List.flatMap_congr fun u _ => sentToPeer_fresh players firstPeer p u

theorem queuedFor_fresh (updates : List ListUpdate) :
    (if p ∈ players then queuedFor p (updates.map .fresh) else []) =
      updates.flatMap fun u => List.replicate (if p ∈ targets players u.2 then 1 else 0) u.1 := by
  simp only [mem_targets]
  by_cases hp : p ∈ players
  · rw [if_pos hp]
    induction updates with
    | nil => rfl
    | cons u us ih =>
      rw [List.flatMap_cons, ← ih]
      by_cases hu : some p = u.2 <;> simp [queuedFor, QueuedPacket.fresh, hp, hu]
  · rw [if_neg hp]
    simp [hp]

theorem le_copies (u : ListUpdate) :
    (if p ∈ targets players u.2 then 1 else 0) ≤ copies players firstPeer p u := by
  split_ifs with h
  · have hne : (targets players u.2).isEmpty = false := by
      rw [List.isEmpty_eq_false_iff]
      exact List.ne_nil_of_mem h
    rw [copies, hne]
    exact List.count_pos_iff.mpr h
  · exact Nat.zero_le _

/-- **When an update reaches its targets once**: they are distinct, and there is one unless there is no
first peer. -/
theorem copies_eq_iff (u : ListUpdate) :
    (∀ p, copies players firstPeer p u = if p ∈ targets players u.2 then 1 else 0) ↔
      (targets players u.2).Nodup ∧ (targets players u.2 = [] → firstPeer = none) := by
  unfold copies
  by_cases hnil : targets players u.2 = []
  · rw [hnil]
    cases firstPeer with
    | none => simp
    | some f =>
      refine iff_of_false (fun h => ?_) fun h => absurd (h.2 rfl) (by simp)
      simpa using h f
  · have hne : (targets players u.2).isEmpty = false := by
      rwa [List.isEmpty_eq_false_iff]
    rw [hne, List.nodup_iff_count]
    simp only [Bool.false_eq_true, if_false, hnil, false_imp_iff, and_true]
    refine forall_congr' fun p => ?_
    by_cases hp : p ∈ targets players u.2
    · have hpos := List.count_pos_iff.mpr hp
      rw [if_pos hp]
      omega
    · rw [if_neg hp, List.count_eq_zero_of_not_mem hp]
      simp

end

/-- **Which updates reach each peer once.** Of the objects' peers that an update is not kept from none
owns two objects, and there is one, or nobody is connected. -/
theorem reachesOnce_iff (s : NetSystem) (m : CEntities) (l : NetVarList) (updates : List ListUpdate) :
    ReachesOnce m.getPlayers s.getFirstPeer { l with updateQueue := updates.map .fresh } ↔
      ∀ u ∈ updates, (targets m.getPlayers u.2).Nodup ∧
        (targets m.getPlayers u.2 = [] → s.peerList = []) := by
  have hfirst : s.peerList = [] ↔ s.getFirstPeer = none := List.head?_eq_none_iff.symm
  simp only [ReachesOnce, sentToPeer_updates, queuedFor_fresh, hfirst,
    flatMap_replicate_eq_iff fun u _ => le_copies u]
  rw [forall_comm]
  refine forall_congr' fun u => ?_
  rw [forall_comm]
  exact imp_congr_right fun _ => copies_eq_iff u

/-- A peer with two objects. -/
def twinManager : CEntities where
  name := [112]
  name_le := CEntities.p_le
  cls := .bare
  objects := [
    { ref := 0, netID := 0, controller := netControllerLocal, peer := some 1,
      lists := [{ size := 1, initial := Vector.replicate 1 0 }] },
    { ref := 1, netID := 1, controller := netControllerLocal, peer := some 1 }]

/-- An update of that peer, which the relay keeps from it. -/
def ownUpdate : ListUpdate := (.update ⟨⟨[119], [112], 0⟩, 5, [7], 0⟩, some 1)

/-- The peer gets its own update back. -/
theorem not_reachesOnce_own : ¬ ∀ (s : NetSystem) (m : CEntities) (l : NetVarList)
    (updates : List ListUpdate), s.server = true →
      ReachesOnce m.getPlayers s.getFirstPeer { l with updateQueue := updates.map .fresh } := by
  intro h
  have hown := h { server := true, peerList := [1] } twinManager emptyList [ownUpdate] rfl 1
  exact absurd hown (by decide)

/-! ## Calls between `SendDelta` and `Flush` -/

/-- A list of the server while one thread runs `UpdateListDelta` over and over and another calls it.
`between` holds from `SendDelta` to `Flush`; `queued` and `dispatched` are what was queued and dispatched
so far. -/
structure Flushing where
  list : NetVarList
  between : Bool := false
  queued : List ListUpdate
  dispatched : List QueuedPacket := []

/-- A call of the application, or the next step of `UpdateListDelta`. -/
inductive FlushAct (size : ℕ) where
  | call (op : ListOp size)
  | next
  deriving DecidableEq, Repr

/-! ### What a call queues -/

namespace NetVarList

variable {size : ℕ} {ctx : ListContext} {l : NetVarList}

theorem call_idle {op : ListOp size} (h : Idle l op) : l.call ctx op = l := by
  have hcall := callIn_some ctx op l
  rw [callIn_idle h] at hcall
  exact (Prod.mk.inj hcall).2.symm

@[simp] theorem length_updateQueue_schedule (msg : ListMsg) (l : NetVarList) :
    (l.schedule msg).updateQueue.length = l.updateQueue.length + 1 := List.length_append

@[simp] theorem length_updateQueue_removeItem (ctx : ListContext) (key : UInt32) (l : NetVarList) :
    (l.removeItem ctx key).2.updateQueue.length = l.updateQueue.length + 1 := List.length_append

theorem length_updateQueue_remove_le (ctx : ListContext) (key : UInt32) (l : NetVarList) :
    l.updateQueue.length ≤ (l.remove ctx key).2.updateQueue.length := by
  rw [remove]
  split_ifs
  · exact (length_updateQueue_removeItem ctx key l).symm ▸ Nat.le_succ _
  · exact Nat.le_refl _

/-- A loop that only queues. -/
theorem length_updateQueue_foldl_le {f : NetVarList → UInt32 → NetVarList}
    (hf : ∀ l key, l.updateQueue.length ≤ (f l key).updateQueue.length) (keys : List UInt32)
    (l : NetVarList) : l.updateQueue.length ≤ (keys.foldl f l).updateQueue.length := by
  induction keys generalizing l with
  | nil => exact Nat.le_refl _
  | cons key keys ih => exact (hf l key).trans (ih (f l key))

theorem length_updateQueue_call_lt (ctx : ListContext) {op : ListOp size} (h : ¬ Idle l op) :
    l.updateQueue.length < (l.call ctx op).updateQueue.length := by
  cases op with
  | create key data =>
    show _ < (l.create ctx key data.toList).2.updateQueue.length
    rw [create, if_neg (show key ∉ l.data from h), length_updateQueue_schedule]
    exact Nat.lt_succ_self _
  | set key data =>
    show _ < (l.set ctx key data.toList).updateQueue.length
    rw [set, if_pos (not_not.mp h), length_updateQueue_schedule]
    exact Nat.lt_succ_self _
  | remove key =>
    show _ < (l.remove ctx key).2.updateQueue.length
    rw [remove, if_pos (not_not.mp h), length_updateQueue_removeItem]
    exact Nat.lt_succ_self _
  | removeAll order =>
    obtain ⟨key, keys, hw, hkey⟩ := walk_cons h order
    have hrest := length_updateQueue_foldl_le (fun l key => length_updateQueue_remove_le ctx key l)
      keys (l.removeItem ctx key).2
    rw [length_updateQueue_removeItem] at hrest
    show _ < (l.removeAll ctx order).updateQueue.length
    rw [removeAll, hw, List.foldl_cons, remove, if_pos hkey]
    exact hrest
  | clear order =>
    obtain ⟨key, keys, hw, -⟩ := walk_cons h order
    have hrest := length_updateQueue_foldl_le (f := fun l key => (l.removeItem ctx key).2)
      (fun l key => by simp) keys (l.removeItem ctx key).2
    rw [length_updateQueue_removeItem] at hrest
    show _ < (l.clear ctx order).updateQueue.length
    rw [clear, hw, List.foldl_cons]
    exact hrest

end NetVarList

/-! ### Runs -/

namespace Flushing

variable {size : ℕ} (ctx : ListContext) (firstPeer : Option Peer)

def start (updates : List ListUpdate) (l : NetVarList) : Flushing where
  list := { l with updateQueue := updates.map .fresh }
  queued := updates

def next (s : Flushing) : Flushing :=
  if s.between then
    { s with
      list := (s.list.flush firstPeer).1
      between := false
      dispatched := s.dispatched ++ s.list.updateQueue }
  else { s with list := s.list.sendDelta ctx.players, between := true }

def step (s : Flushing) : FlushAct size → Flushing
  | .call op =>
    { s with
      list := s.list.call ctx op
      queued := s.queued ++
        ((s.list.call ctx op).updateQueue.drop s.list.updateQueue.length).map QueuedPacket.update }
  | .next => s.next ctx firstPeer

/-- The `Flush` that is due, and one more `UpdateListDelta`. -/
def finish (s : Flushing) : Flushing :=
  (((if s.between then s.next ctx firstPeer else s).next ctx firstPeer).next ctx firstPeer)

/-- **The law of `UpdateListDelta`.** All that was queued is dispatched, to every peer that owns an
object but the one it is kept from. -/
structure Delivered (s : Flushing) : Prop where
  complete : (s.finish ctx firstPeer).dispatched.map QueuedPacket.update = s.queued
  reached : ∀ q ∈ (s.finish ctx firstPeer).dispatched, ∀ p ∈ targets ctx.players q.filter,
    (p, q.msg) ∈ q.dispatch firstPeer

/-- Between `SendDelta` and `Flush` a call queues nothing. -/
def NoGap (s : Flushing) : FlushAct size → Prop
  | .call op => s.between = true → Idle s.list op
  | .next => True

/-- What was dispatched reached its targets. What waits is addressed from `SendDelta` to `Flush`, and
not before. -/
structure Addressed (size : ℕ) (s : Flushing) : Prop where
  sized : s.list.size = size
  complete : (s.dispatched ++ s.list.updateQueue).map QueuedPacket.update = s.queued
  reached : ∀ q ∈ s.dispatched, q.peers = targets ctx.players q.filter
  waiting : ∀ q ∈ s.list.updateQueue,
    q.peers = if s.between then targets ctx.players q.filter else []

variable {ctx : ListContext} {firstPeer : Option Peer} {s : Flushing}

theorem next_between (h : s.between = true) : s.next ctx firstPeer =
    { s with
      list := (s.list.flush firstPeer).1
      between := false
      dispatched := s.dispatched ++ s.list.updateQueue } := if_pos h

theorem next_before (h : s.between = false) : s.next ctx firstPeer =
    { s with list := s.list.sendDelta ctx.players, between := true } :=
  if_neg (by rw [h]; exact Bool.false_ne_true)

theorem addressed_next (h : s.Addressed ctx size) : (s.next ctx firstPeer).Addressed ctx size := by
  cases hb : s.between with
  | true =>
    rw [next_between hb]
    refine ⟨h.sized, ?_, ?_, fun q hq => absurd hq List.not_mem_nil⟩
    · rw [← h.complete]
      exact congrArg _ (List.append_nil _)
    · intro q hq
      rcases List.mem_append.mp hq with hq | hq
      · exact h.reached q hq
      · rw [h.waiting q hq, hb, if_pos rfl]
  | false =>
    rw [next_before hb]
    refine ⟨h.sized, ?_, h.reached, fun q hq => ?_⟩
    · rw [← h.complete, List.map_append, List.map_append, NetVarList.sendDelta, List.map_map]
      rfl
    · obtain ⟨q', hq', rfl⟩ := List.mem_map.mp hq
      have hnone : q'.peers = [] := by rw [h.waiting q' hq', hb]; rfl
      rw [if_pos rfl, hnone]
      rfl

theorem addressed_call (h : s.Addressed ctx size) {op : ListOp size}
    (hok : s.between = true → Idle s.list op) : (s.step ctx firstPeer (.call op)).Addressed ctx size := by
  cases hb : s.between with
  | true =>
    have hsame : s.step ctx firstPeer (.call op) = s := by
      rw [step, NetVarList.call_idle (hok hb)]
      simp
    rwa [hsame]
  | false =>
    obtain ⟨ms, log⟩ := NetVarList.logs_call ctx h.sized op
    rw [step]
    refine ⟨log.size_eq.trans h.sized, ?_, h.reached, fun q hq => ?_⟩
    · dsimp only
      rw [← h.complete, log.queue, List.drop_left, ← List.append_assoc, List.map_append]
    · dsimp only at hq ⊢
      rw [log.queue, List.mem_append] at hq
      rcases hq with hq | hq
      · exact h.waiting q hq
      · obtain ⟨m, -, rfl⟩ := List.mem_map.mp hq
        rw [hb]
        rfl

theorem addressed_step (h : s.Addressed ctx size) {a : FlushAct size} (hok : s.NoGap a) :
    (s.step ctx firstPeer a).Addressed ctx size := by
  cases a with
  | call op => exact addressed_call h hok
  | next => exact addressed_next h

theorem addressed_start (ctx : ListContext) (l : NetVarList) (updates : List ListUpdate) :
    (start updates l).Addressed ctx l.size where
  sized := rfl
  complete := by
    rw [start, List.nil_append, List.map_map]
    exact updates.map_id
  reached q hq := absurd hq List.not_mem_nil
  waiting q hq := by
    obtain ⟨u, -, rfl⟩ := List.mem_map.mp hq
    rfl

/-- What was dispatched stays dispatched. -/
theorem dispatched_next (s : Flushing) : s.dispatched ⊆ (s.next ctx firstPeer).dispatched := by
  cases hb : s.between with
  | true =>
    rw [next_between hb]
    exact List.subset_append_left _ _
  | false =>
    rw [next_before hb]
    exact List.Subset.refl _

/-- Two steps that start with `SendDelta` empty the queue. -/
theorem next_next (h : s.between = false) :
    ((s.next ctx firstPeer).next ctx firstPeer).list.updateQueue = [] ∧
      ((s.next ctx firstPeer).next ctx firstPeer).queued = s.queued := by
  rw [next_before h, next_between rfl]
  exact ⟨rfl, rfl⟩

theorem finish_spec (ctx : ListContext) (firstPeer : Option Peer) (s : Flushing) :
    (s.finish ctx firstPeer).list.updateQueue = [] ∧ (s.finish ctx firstPeer).queued = s.queued := by
  cases hb : s.between with
  | true =>
    rw [finish, hb, if_pos rfl, next_between hb]
    exact next_next rfl
  | false =>
    rw [finish, hb, if_neg Bool.false_ne_true]
    exact next_next hb

theorem delivered_of_addressed (h : s.Addressed ctx size) : s.Delivered ctx firstPeer := by
  have hend : (s.finish ctx firstPeer).Addressed ctx size := by
    rw [finish]
    split_ifs
    · exact addressed_next (addressed_next (addressed_next h))
    · exact addressed_next (addressed_next h)
  obtain ⟨hempty, hqueued⟩ := finish_spec ctx firstPeer s
  refine ⟨?_, fun q hq p hp => ?_⟩
  · rw [← hqueued, ← hend.complete, hempty, List.append_nil]
  · rw [← hend.reached q hq] at hp
    have hne : q.peers.isEmpty = false := by
      rw [List.isEmpty_eq_false_iff]
      exact List.ne_nil_of_mem hp
    rw [QueuedPacket.dispatch, hne]
    exact List.mem_map_of_mem hp

/-- An update that is queued in between goes to the first peer alone. -/
theorem not_delivered_of_gap (htwo : ∃ p ∈ ctx.players, ∃ p' ∈ ctx.players, p ≠ p')
    (h : s.Addressed ctx size) {a : FlushAct size} (hbad : ¬ s.NoGap a) :
    ¬ (s.step ctx firstPeer a).Delivered ctx firstPeer := by
  cases a with
  | next => exact absurd trivial hbad
  | call op =>
    obtain ⟨hb, hidle⟩ : s.between = true ∧ ¬ Idle s.list op := Classical.not_imp.mp hbad
    obtain ⟨ms, log⟩ := NetVarList.logs_call ctx h.sized op
    have hlt := NetVarList.length_updateQueue_call_lt ctx hidle
    rw [log.queue, List.length_append, List.length_map] at hlt
    obtain ⟨m, hm⟩ := List.exists_mem_of_length_pos (show 0 < ms.length by omega)
    -- the packet of that message is dispatched without an address
    have hq : (⟨m, none, []⟩ : QueuedPacket) ∈
        ((s.step ctx firstPeer (.call op)).finish ctx firstPeer).dispatched := by
      have hb' : (s.step ctx firstPeer (.call op)).between = true := hb
      rw [finish, if_pos hb']
      refine dispatched_next _ (dispatched_next _ ?_)
      rw [next_between hb']
      refine List.mem_append_right _ ?_
      show _ ∈ (s.list.call ctx op).updateQueue
      rw [log.queue]
      exact List.mem_append_right _ (List.mem_map_of_mem hm)
    rintro ⟨-, hreached⟩
    have hfirst : ∀ p ∈ ctx.players, some p = firstPeer := by
      intro p hp
      have hsent := hreached _ hq p (mem_targets.mpr ⟨hp, by simp⟩)
      simpa [QueuedPacket.dispatch, eq_comm] using hsent
    obtain ⟨p, hp, p', hp', hne⟩ := htwo
    exact hne (Option.some.inj ((hfirst p hp).trans (hfirst p' hp').symm))

/-- **No update is flushed unaddressed exactly as long as no call queues one between `SendDelta` and
`Flush`.** -/
theorem delivered_iff (ctx : ListContext) (firstPeer : Option Peer)
    (htwo : ∃ p ∈ ctx.players, ∃ p' ∈ ctx.players, p ≠ p') (l : NetVarList) (updates : List ListUpdate)
    (acts : List (FlushAct l.size)) :
    (∀ n, (run (step ctx firstPeer) (start updates l) (acts.take n)).Delivered ctx firstPeer) ↔
      Along (step ctx firstPeer) NoGap (start updates l) acts :=
  forall_run_iff_along (I := Addressed ctx l.size) (fun _ => delivered_of_addressed)
    (fun _ _ h hok => addressed_step h hok) (fun _ _ h hbad => not_delivered_of_gap htwo h hbad)
    (addressed_start ctx l updates) acts

/-- The application creates an element between the two calls. -/
def hastyCreate : List (FlushAct emptyList.size) :=
  [.next, .call (.create 1 (Vector.replicate 1 3)), .next]

def pairContext : ListContext := ⟨⟨[119], [112], 0⟩, [1, 2], none, 0⟩

theorem delivered_iff_hasty : (∃ p ∈ pairContext.players, ∃ p' ∈ pairContext.players, p ≠ p') ∧
    ((∀ n, (run (step pairContext (some 1)) (start [] emptyList) (hastyCreate.take n)).Delivered
        pairContext (some 1)) ↔
      Along (step pairContext (some 1)) NoGap (start [] emptyList) hastyCreate) := by
  have htwo : ∃ p ∈ pairContext.players, ∃ p' ∈ pairContext.players, p ≠ p' := by decide
  exact ⟨htwo, delivered_iff pairContext (some 1) htwo emptyList [] hastyCreate⟩

/-- The second peer does not hear of that element. -/
theorem not_delivered_hasty : ¬ ∀ (ctx : ListContext) (firstPeer : Option Peer),
    (∃ p ∈ ctx.players, ∃ p' ∈ ctx.players, p ≠ p') → ∀ (l : NetVarList) (updates : List ListUpdate)
      (acts : List (FlushAct l.size)) (n : ℕ),
        (run (step ctx firstPeer) (start updates l) (acts.take n)).Delivered ctx firstPeer := by
  intro h
  have hreached := (h pairContext (some 1) (by decide) emptyList [] hastyCreate 3).reached
  exact absurd hreached (by decide)

end Flushing

end Nettik
