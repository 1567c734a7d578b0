import Nettik.Sync.Agree

/-!
# Relays and echoes

The owner's updates reach the observers through the server, whose own updates then come back to the
owner.

* `Relayed`: the invariant while only the owner writes; **`relay_converges`**;
* `potential`: what is still to be emitted; **`echoes_die_out`**.
-/

namespace Nettik

open Links CNetVarBase

variable {α : Type}

/-- Only the application of the owner may write. -/
def Act.ByOwner (a : Act α) : Prop := a.writer = none ∨ a.writer = some .owner

namespace Exchange

/-! ## A single writer -/

/-- The server catches up with the owner and the observers with the server; what the server sends
is never forced. -/
structure Relayed (s : Exchange α) : Prop where
  serverPlain : Plain s.server.state
  observersPlain : ∀ x ∈ s.observers, Plain x.state
  serverUnforced : s.server.state.changeForced = false
  ownerForced : s.owner.state.changed = true → s.owner.state.changeForced = true
  toServer : ∀ u ∈ s.server.pending, u.forced = true
  toOwner : ¬ ForcedIn s.owner.pending
  serverValue : s.owner.state.changed = false → (settledLocal s.server).data = s.owner.state.data
  observersValue : s.server.state.changed = false →
    ∀ x ∈ s.observers, (x.settled (readAs netControllerNone)).data = s.server.state.data

namespace Relayed

variable {s : Exchange α}

theorem write (h : s.Relayed) {f : CNetVarBase α → CNetVarBase α}
    (hf : Wrote s.owner.state (f s.owner.state)) : (s.modify .owner (Inbox.update f)).Relayed := by
  rcases hf.cases with he | ⟨hc, hforced⟩
  · have hs : s.modify .owner (Inbox.update f) = s := by
      rw [modify, Inbox.update, he]
    rwa [hs]
  · exact { h with
      ownerForced := fun _ => hforced
      serverValue := fun hn => absurd (hn.symm.trans hc) Bool.false_ne_true }

theorem tickServer (h : s.Relayed) : (s.tick .server).Relayed := by
  have hplain := h.serverPlain.snapshot false
  by_cases hc : s.server.state.changed = true
  · have hsnap : s.server.state.takeVariableSnapshot false = _ := takeVariableSnapshot_some (Or.inr hc)
    rw [h.serverUnforced, Bool.or_self] at hsnap
    rw [hsnap] at hplain
    rw [tick, hsnap]
    set u : Update α := ⟨s.server.state.data, s.server.state.sequenceID + 1, false⟩
    have hobs : ∀ x ∈ s.observers.map (Inbox.post [u]), ∃ y ∈ s.observers, x = y.post [u] := by
      intro x hx
      obtain ⟨y, hy, rfl⟩ := List.mem_map.mp hx
      exact ⟨y, hy, rfl⟩
    refine ⟨hplain, ?_, rfl, h.ownerForced, h.toServer, ?_, ?_, ?_⟩
    · intro x hx
      obtain ⟨y, hy, rfl⟩ := hobs x hx
      exact h.observersPlain y hy
    · show ¬ ForcedIn (s.owner.pending ++ [u])
      rw [forcedIn_append, not_or]
      exact ⟨h.toOwner, by simp [u]⟩
    · -- what is on its way to the server stays, and it is forced
      intro hn
      have hv := h.serverValue hn
      by_cases hp : ForcedIn s.server.pending
      · exact (foldl_forced hp hplain h.serverPlain).trans hv
      · rw [settledLocal, Inbox.settled, foldl_unforced hp] at hv
        exact (congrArg _ (foldl_unforced hp _)).trans hv
    · intro _ x hx
      obtain ⟨y, hy, rfl⟩ := hobs x hx
      have hy' := plain_settled (h.observersPlain y hy) netControllerNone
      have hpost := Inbox.settled_post (readAs netControllerNone) [u] y
      rw [hpost]
      show (readAs netControllerNone _ u).data = s.server.state.data
      rw [hy'.readAs (Or.inl (by decide))]
  · rwa [tick_server_none (by simpa using hc)]

theorem tickOwner (h : s.Relayed) : (s.tick .owner).Relayed := by
  by_cases hc : s.owner.state.changed = true
  · have hsnap : s.owner.state.takeVariableSnapshot false = _ := takeVariableSnapshot_some (Or.inr hc)
    rw [h.ownerForced hc, Bool.true_or] at hsnap
    rw [tick, hsnap]
    set u : Update α := ⟨s.owner.state.data, s.owner.state.sequenceID + 1, true⟩
    refine { h with
      ownerForced := fun hn => absurd hn Bool.false_ne_true
      toServer := ?_
      serverValue := ?_ }
    · intro w hw
      rcases List.mem_append.mp hw with hw | hw
      · exact h.toServer w hw
      · rw [List.mem_singleton.mp hw]
    · intro _
      have hplain := plain_settled h.serverPlain netControllerLocal
      have hpost := Inbox.settled_post (readAs netControllerLocal) [u] s.server
      show ((s.server.post [u]).settled (readAs netControllerLocal)).data = s.owner.state.data
      rw [hpost]
      show (readAs netControllerLocal _ u).data = s.owner.state.data
      rw [hplain.readAs (Or.inr rfl)]
  · rwa [tick_owner_none (by simpa using hc)]

/-- An owner's update reaches the server. -/
theorem deliverServer (h : s.Relayed) :
    (s.modify .server (Inbox.deliver (readAs netControllerLocal))).Relayed := by
  cases hp : s.server.pending with
  | nil =>
    rw [modify, Inbox.deliver_nil _ hp]
    exact h
  | cons u us =>
    have hu : u.forced = true := h.toServer u (hp ▸ List.mem_cons_self)
    have hsettled := Inbox.settled_deliver (readAs netControllerLocal) s.server
    rw [modify, Inbox.deliver_cons _ hp]
    rw [Inbox.deliver_cons _ hp] at hsettled
    refine ⟨h.serverPlain.read _ u, h.observersPlain, ?_, h.ownerForced, ?_, h.toOwner, ?_, ?_⟩
    · exact (changeForced_readAs _ _ u).trans h.serverUnforced
    · exact fun w hw => h.toServer w (hp ▸ List.mem_cons_of_mem u hw)
    · intro hn
      exact (congrArg CNetVarBase.data hsettled).trans (h.serverValue hn)
    · -- the server is now marked changed
      intro hn
      have hc : (readAs netControllerLocal s.server.state u).changed = true := by
        rw [h.serverPlain.readAs (Or.inr hu)]
      exact absurd (hn.symm.trans hc) Bool.false_ne_true

/-- **The echo does not change the copy of the owner.** -/
theorem deliver_owner_state (h : s.Relayed) :
    (s.owner.deliver (readAs netControllerLocal)).state = s.owner.state := by
  refine Inbox.deliver_cases (C := fun x => x.state = s.owner.state) _ rfl fun u us hp => ?_
  have hn := h.toOwner
  rw [hp, forcedIn_cons, not_or, Bool.not_eq_true] at hn
  exact readAs_unforced _ hn.1

theorem deliverOwner (h : s.Relayed) :
    (s.modify .owner (Inbox.deliver (readAs netControllerLocal))).Relayed := by
  have hstate := h.deliver_owner_state
  have hpending : ∀ u ∈ (s.owner.deliver (readAs netControllerLocal)).pending,
      u ∈ s.owner.pending := by
    refine Inbox.deliver_cases (C := fun x => ∀ u ∈ x.pending, u ∈ s.owner.pending) _
      (fun _ hu => hu) fun w ws hp u hu => ?_
    rw [hp]
    exact List.mem_cons_of_mem w hu
  refine ⟨h.serverPlain, h.observersPlain, h.serverUnforced, ?_, h.toServer, ?_, ?_, h.observersValue⟩
  · show (s.owner.deliver _).state.changed = true → (s.owner.deliver _).state.changeForced = true
    rw [hstate]
    exact h.ownerForced
  · rintro ⟨u, hu, hforced⟩
    exact h.toOwner ⟨u, hpending u hu, hforced⟩
  · show (s.owner.deliver _).state.changed = false → _ = (s.owner.deliver _).state.data
    rw [hstate]
    exact h.serverValue

theorem deliverObserver (h : s.Relayed) (k : ℕ) :
    (s.modify (.observer k) (Inbox.deliver (readAs netControllerNone))).Relayed := by
  have hobs : ∀ x ∈ s.observers.modify k (Inbox.deliver (readAs netControllerNone)),
      ∃ y ∈ s.observers, x = y ∨ x = y.deliver (readAs netControllerNone) := by
    intro x hx
    obtain ⟨n, hn, rfl⟩ := List.mem_iff_getElem.mp hx
    rw [List.length_modify] at hn
    refine ⟨s.observers[n], List.getElem_mem hn, ?_⟩
    rw [List.getElem_modify]
    split_ifs
    · exact Or.inr rfl
    · exact Or.inl rfl
  refine { h with observersPlain := ?_, observersValue := ?_ }
  · intro x hx
    obtain ⟨y, hy, rfl | rfl⟩ := hobs x hx
    · exact h.observersPlain x hy
    · exact Inbox.deliver_cases (C := fun x => Plain x.state) _ (h.observersPlain y hy)
        fun u _ _ => (h.observersPlain y hy).read netControllerNone u
  · intro hn x hx
    obtain ⟨y, hy, rfl | rfl⟩ := hobs x hx
    · exact h.observersValue hn x hy
    · rw [Inbox.settled_deliver]
      exact h.observersValue hn y hy

end Relayed

/-- **Every action keeps the relay invariant.** -/
theorem relayed_step [BEq α] (s : Exchange α) (a : Act α) (h : s.Relayed) (ha : a.ByOwner) :
    (s.step a).Relayed := by
  cases a with
  | set p active data =>
    obtain rfl : p = .owner := by simpa [Act.ByOwner, Act.writer] using ha
    exact h.write (wrote_set active data _)
  | invalidate p =>
    obtain rfl : p = .owner := by simpa [Act.ByOwner, Act.writer] using ha
    exact h.write (wrote_invalidate _)
  | tick p =>
    cases p with
    | server => exact h.tickServer
    | owner => exact h.tickOwner
    | observer k => exact h
  | deliver p =>
    cases p with
    | server => exact h.deliverServer
    | owner => exact h.deliverOwner
    | observer k => exact h.deliverObserver k

/-- The observers hold the same value as the owner. -/
structure Following (s : Exchange α) : Prop extends s.AtRest where
  observersPlain : ∀ x ∈ s.observers, Plain x.state
  observersSame : ∀ x ∈ s.observers, x.state.data = s.owner.state.data

theorem Following.relayed {s : Exchange α} (h : s.Following) : s.Relayed := by
  obtain ⟨hs, ho, hobs⟩ := h.quiet
  refine ⟨h.serverPlain, h.observersPlain, h.serverClean.2, ?_, ?_, ?_, ?_, ?_⟩
  · exact fun hc => absurd (h.ownerClean.1.symm.trans hc) Bool.false_ne_true
  · simp [hs]
  · simp [ho]
  · intro _
    rw [settledLocal, Inbox.settled_nil _ hs]
    exact h.same
  · intro _ x hx
    rw [Inbox.settled_nil _ (hobs x hx)]
    exact (h.observersSame x hx).trans h.same.symm

/-- **A single writer's relay converges.** In every state a run reaches, an update that comes back to
the owner leaves its copy as it is; and when nothing is left to do, all hold the owner's value. -/
theorem relay_converges [BEq α] {s : Exchange α} (hs : s.Following) {acts : List (Act α)}
    (hacts : ∀ a ∈ acts, a.ByOwner) :
    ((run step s acts).step (.deliver .owner)).owner.state = (run step s acts).owner.state ∧
    ((run step s acts).Quiet → (run step s acts).owner.state.changed = false →
      (run step s acts).server.state.changed = false →
        (run step s acts).server.state.data = (run step s acts).owner.state.data ∧
        ∀ x ∈ (run step s acts).observers, x.state.data = (run step s acts).owner.state.data) := by
  have h : (run step s acts).Relayed :=
    run_inv relayed_step hs.relayed (along_of_forall hacts s)
  refine ⟨h.deliver_owner_state, fun hquiet howner hserver => ?_⟩
  obtain ⟨hps, -, hobs⟩ := hquiet
  have hvalue := h.serverValue howner
  rw [settledLocal, Inbox.settled_nil _ hps] at hvalue
  refine ⟨hvalue, fun x hx => ?_⟩
  have hx' := h.observersValue hserver x hx
  rw [Inbox.settled_nil _ (hobs x hx)] at hx'
  exact hx'.trans hvalue

/-- An owner, a server and one observer. -/
def watched : Exchange UInt8 where
  server := { state := { data := 0, changed := false } }
  owner := { state := { data := 0, changed := false } }
  observers := [{ state := { data := 0 } }]

theorem watched_following : watched.Following where
  quiet := ⟨rfl, rfl, by simp [watched]⟩
  serverPlain := ⟨rfl, rfl⟩
  ownerPlain := ⟨rfl, rfl⟩
  serverClean := ⟨rfl, rfl⟩
  ownerClean := ⟨rfl, rfl⟩
  same := rfl
  observersPlain := by
    intro x hx
    obtain rfl := List.mem_singleton.mp hx
    exact ⟨rfl, rfl⟩
  observersSame := by simp [watched]

/-- The owner writes, and its update makes both hops. -/
def relayedWrite : List (Act UInt8) :=
  [.set .owner true 1, .tick .owner, .deliver .server, .tick .server, .deliver (.observer 0),
    .deliver .owner]

theorem relay_converges_write :
    ((run step watched relayedWrite).step (.deliver .owner)).owner.state =
      (run step watched relayedWrite).owner.state ∧
    ((run step watched relayedWrite).Quiet →
      (run step watched relayedWrite).owner.state.changed = false →
      (run step watched relayedWrite).server.state.changed = false →
        (run step watched relayedWrite).server.state.data =
          (run step watched relayedWrite).owner.state.data ∧
        ∀ x ∈ (run step watched relayedWrite).observers,
          x.state.data = (run step watched relayedWrite).owner.state.data) :=
  relay_converges watched_following (by simp [relayedWrite, Act.ByOwner, Act.writer])

/-! ## Echoes -/

/-- What one side may still emit or make the other emit. -/
def effort (x : Copies α) : ℕ :=
  x.state.changed.toNat + x.state.changeForced.toNat + x.pending.countP (·.forced)

def potential (s : Exchange α) : ℕ := s.emitted + effort s.server + effort s.owner

/-- The writes of the applications. -/
def writes (acts : List (Act α)) : ℕ := acts.countP fun a => a.writer.isSome

theorem effort_write {x : Copies α} {f : CNetVarBase α → CNetVarBase α}
    (hf : Wrote x.state (f x.state)) : effort (x.update f) ≤ effort x + 2 := by
  rcases hf.cases with he | ⟨hc, hforced⟩
  · rw [Inbox.update, he]
    exact Nat.le_add_right _ _
  · simp only [effort, Inbox.update_state, Inbox.update_pending, hc, hforced, Bool.toNat_true]
    omega

/-- **A tick only moves effort**: the change is emitted, a forced one is on its way. -/
theorem effort_tick (x y : Copies α) :
    (x.state.takeVariableSnapshot false).1.toList.length +
      effort (x.update fun _ => (x.state.takeVariableSnapshot false).2) +
      effort (y.post (x.state.takeVariableSnapshot false).1.toList) ≤ effort x + effort y := by
  by_cases hc : x.state.changed = true
  · rw [takeVariableSnapshot_some (Or.inr hc)]
    simp only [effort, Inbox.update_state, Inbox.update_pending, Inbox.post_state, Inbox.post_pending,
      Option.toList_some, List.countP_append, List.countP_singleton, List.length_singleton, hc,
      Bool.or_false, Bool.toNat_true, Bool.toNat_false]
    cases x.state.changeForced with
    | false => simp only [Bool.toNat_false, Bool.false_eq_true, if_false]; omega
    | true => simp only [Bool.toNat_true, if_true]; omega
  · rw [takeVariableSnapshot_none ⟨rfl, by simpa using hc⟩, Option.toList_none, Inbox.post_nil]
    exact le_of_eq (by simp [effort])

/-- A side takes forced updates only, and each pays for the change it makes. -/
theorem effort_deliver (x : Copies α) :
    effort (x.deliver (readAs netControllerLocal)) ≤ effort x := by
  refine Inbox.deliver_cases (C := fun y => effort y ≤ effort x) _ le_rfl fun u us hp => ?_
  simp only [effort, hp, List.countP_cons, changeForced_readAs]
  by_cases hu : u.forced = true
  · have hle := Bool.toNat_le (readAs netControllerLocal x.state u).changed
    simp only [hu, if_true]
    omega
  · rw [readAs_unforced _ (by simpa using hu)]
    omega

theorem potential_write (p : Party) {f : CNetVarBase α → CNetVarBase α} (hf : ∀ v, Wrote v (f v))
    (s : Exchange α) : (s.modify p (Inbox.update f)).potential ≤ s.potential + 2 := by
  cases p with
  | server =>
    have := effort_write (hf s.server.state)
    simp only [modify, potential]
    omega
  | owner =>
    have := effort_write (hf s.owner.state)
    simp only [modify, potential]
    omega
  | observer k => exact Nat.le_add_right _ _

theorem potential_step [BEq α] (s : Exchange α) (a : Act α) :
    (s.step a).potential ≤ s.potential + if a.writer.isSome then 2 else 0 := by
  cases a with
  | set p active data => exact potential_write p (wrote_set active data) s
  | invalidate p => exact potential_write p wrote_invalidate s
  | tick p =>
    cases p with
    | server =>
      have := effort_tick s.server s.owner
      simp only [step, tick, potential, Act.writer, Option.isSome_none, Bool.false_eq_true, if_false]
      omega
    | owner =>
      have := effort_tick s.owner s.server
      simp only [step, tick, potential, Act.writer, Option.isSome_none, Bool.false_eq_true, if_false]
      omega
    | observer k => exact Nat.le_add_right _ _
  | deliver p =>
    cases p with
    | server => exact Nat.add_le_add_right (Nat.add_le_add_left (effort_deliver s.server) _) _
    | owner => exact Nat.add_le_add_left (effort_deliver s.owner) _
    | observer k => exact Nat.le_add_right _ _

/-- As both sides start out: marked changed, with nothing in flight and nothing emitted. -/
structure Constructed (s : Exchange α) : Prop where
  quiet : s.Quiet
  server : s.server.state.changed = true ∧ s.server.state.changeForced = false
  owner : s.owner.state.changed = true ∧ s.owner.state.changeForced = false
  emitted : s.emitted = 0

/-- **Echoes die out.** -/
theorem echoes_die_out [BEq α] {s : Exchange α} (hs : s.Constructed) (acts : List (Act α)) :
    (run step s acts).emitted ≤ 2 + 2 * writes acts := by
  obtain ⟨hps, hpo, -⟩ := hs.quiet
  have hstart : s.potential = 2 := by
    simp [potential, effort, hs.emitted, hs.server, hs.owner, hps, hpo]
  have hcost : (acts.map fun a => if a.writer.isSome then 2 else 0).sum = 2 * writes acts := by
    rw [writes]
    induction acts with
    | nil => rfl
    | cons a acts ih =>
      rw [List.map_cons, List.sum_cons, ih, List.countP_cons]
      split_ifs <;> omega
  calc (run step s acts).emitted
      ≤ (run step s acts).potential := by
        unfold potential
        omega
    _ ≤ s.potential + (acts.map fun a => if a.writer.isSome then 2 else 0).sum :=
        run_potential potential_step s acts
    _ = 2 + 2 * writes acts := by rw [hstart, hcost]

/-- Freshly built copies with one observer. -/
def freshCopies : Exchange UInt8 where
  server := { state := { data := 0 } }
  owner := { state := { data := 0 } }
  observers := [{ state := { data := 0 } }]

theorem freshCopies_constructed : freshCopies.Constructed where
  quiet := ⟨rfl, rfl, by simp [freshCopies]⟩
  server := ⟨rfl, rfl⟩
  owner := ⟨rfl, rfl⟩
  emitted := rfl

theorem echoes_die_out_oneWrite :
    (run step freshCopies oneWrite).emitted ≤ 2 + 2 * writes oneWrite :=
  echoes_die_out freshCopies_constructed oneWrite

end Exchange

end Nettik
