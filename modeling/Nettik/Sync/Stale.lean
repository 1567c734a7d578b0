import Nettik.Sync.Relay

/-!
# Sequence numbers and joining peers

Server and owner check sequence numbers. `m_iSequenceID` counts what a side has sent and is also the
number of the last update it took, and a joining peer's full snapshot raises it on the server alone.

* `JoinAct`, `stepJoin`: the actions of the exchange and a peer that joins;
* `built`: right after the owner has processed the full snapshot of `Build`;
* `Timely`: a join leaves the server's number at most at that of the owner's next update;
* `Ahead`: the invariant of the runs whose joins are timely; **`fresh_updates_pass`**.
-/

namespace Nettik

open Links CNetVarBase

variable {α : Type}

/-! ## Joins -/

inductive JoinAct (α : Type) where
  | act (a : Act α)
  | join (fresh : CNetVarBase α)
  deriving DecidableEq, Repr

/-- Only the application of the owner may write. -/
def JoinAct.ByOwner : JoinAct α → Prop
  | .act a => a.ByOwner
  | .join _ => True

namespace Exchange

/-- The full snapshot of the connect handler, for the joining peer alone. -/
def join (fresh : CNetVarBase α) (s : Exchange α) : Exchange α :=
  let r := s.server.state.takeVariableSnapshot true
  { s with
    server := s.server.update fun _ => r.2
    observers := s.observers ++ [⟨fresh, r.1.toList⟩]
    emitted := s.emitted + r.1.toList.length }

def stepJoin [BEq α] (s : Exchange α) : JoinAct α → Exchange α
  | .act a => s.step a
  | .join fresh => s.join fresh

/-- `Build` sent its full snapshot of `v` to the owner, whose copy was `fresh`. -/
def built (v fresh : CNetVarBase α) (others : List (Copies α)) : Exchange α where
  server := { state := (v.takeVariableSnapshot true).2 }
  owner := { state := (v.takeVariableSnapshot true).1.toList.foldl (readAs netControllerLocal) fresh }
  observers := others

/-- An owner's update that the server processes next is not dropped for its number. -/
def Passes (s : Exchange α) : Prop :=
  ∀ u ∈ s.server.pending.head?, u.forced = true → s.server.state.checkSequence u.sequence = true

instance (s : Exchange α) : Decidable s.Passes := by
  unfold Passes
  infer_instance

/-- The number of the next forced update the server gets from the owner. -/
def nextNumber (s : Exchange α) : UInt32 :=
  ((s.server.pending.find? Update.forced).map Update.sequence).getD (s.owner.state.sequenceID + 1)

/-- A join does not take the server past the owner's next number, and the owner's counter does not
wrap. -/
def Timely (s : Exchange α) : JoinAct α → Prop
  | .join _ => s.server.state.sequenceID + 1 ≤ s.nextNumber
  | .act (.tick .owner) => s.owner.state.changed = true → s.owner.state.sequenceID + 1 ≠ 0
  | .act _ => True

instance : ∀ (s : Exchange α) (a : JoinAct α), Decidable (s.Timely a)
  | _, .join _ => inferInstanceAs (Decidable (_ ≤ _))
  | _, .act (.tick .owner) => inferInstanceAs (Decidable (_ → _))
  | _, .act (.tick .server) => isTrue trivial
  | _, .act (.tick (.observer _)) => isTrue trivial
  | _, .act (.set _ _ _) => isTrue trivial
  | _, .act (.invalidate _) => isTrue trivial
  | _, .act (.deliver _) => isTrue trivial

/-- Either nothing on its way to the server is forced, or there is a first forced update. -/
theorem pending_cases (us : List (Update α)) : (∀ u ∈ us, u.forced = false) ∨
    ∃ before u rest, us = before ++ u :: rest ∧ (∀ w ∈ before, w.forced = false) ∧ u.forced = true := by
  cases hf : us.find? Update.forced with
  | none => exact Or.inl fun u hu => by simpa using List.find?_eq_none.mp hf u hu
  | some u =>
    obtain ⟨hu, before, rest, hus, hbefore⟩ := List.find?_eq_some_iff_append.mp hf
    exact Or.inr ⟨before, u, rest, hus, fun w hw => by simpa using hbefore w hw, hu⟩

theorem nextNumber_of_unforced {s : Exchange α} (h : ∀ u ∈ s.server.pending, u.forced = false) :
    s.nextNumber = s.owner.state.sequenceID + 1 := by
  have hf : s.server.pending.find? Update.forced = none := by
    rw [List.find?_eq_none]
    intro u hu
    simp [h u hu]
  rw [nextNumber, hf]
  rfl

theorem nextNumber_of_forced {s : Exchange α} {before rest : List (Update α)} {u : Update α}
    (hp : s.server.pending = before ++ u :: rest) (hbefore : ∀ w ∈ before, w.forced = false)
    (hu : u.forced = true) : s.nextNumber = u.sequence := by
  have hf : s.server.pending.find? Update.forced = some u := by
    rw [List.find?_eq_some_iff_append]
    exact ⟨hu, before, rest, hp, fun w hw => by simp [hbefore w hw]⟩
  rw [nextNumber, hf]
  rfl

/-! ## The invariant -/

/-- The owner's updates carry growing numbers, and the server's own number is below those it still
has to take. A server that relays has room for the number of the relay. -/
structure Ahead (s : Exchange α) : Prop where
  checked : s.server.state.sequenceCheck = true
  serverUnforced : s.server.state.changeForced = false
  toOwner : ∀ u ∈ s.owner.pending, u.forced = false
  growing : s.server.pending.Pairwise fun u w => u.sequence < w.sequence
  sent : ∀ u ∈ s.server.pending, u.sequence ≤ s.owner.state.sequenceID
  passes : ∀ u ∈ s.server.pending, u.forced = true → s.server.state.sequenceID ≤ u.sequence
  next : s.server.state.sequenceID.toNat ≤ s.owner.state.sequenceID.toNat + 1
  room : s.server.state.changed = true → s.server.state.sequenceID ≤ s.owner.state.sequenceID ∧
    ∀ u ∈ s.server.pending, u.forced = true → s.server.state.sequenceID < u.sequence

namespace Ahead

variable {s : Exchange α}

theorem head_passes (h : s.Ahead) : s.Passes := by
  intro u hu hforced
  have hmem : u ∈ s.server.pending := List.mem_of_mem_head? hu
  simp [checkSequence, h.passes u hmem hforced]

/-- A write of the owner changes no number. -/
theorem write (h : s.Ahead) {f : CNetVarBase α → CNetVarBase α}
    (hf : (f s.owner.state).sequenceID = s.owner.state.sequenceID) :
    (s.modify .owner (Inbox.update f)).Ahead := by
  refine { h with sent := ?_, next := ?_, room := ?_ }
  · show ∀ u ∈ s.server.pending, u.sequence ≤ (f s.owner.state).sequenceID
    rw [hf]
    exact h.sent
  · show s.server.state.sequenceID.toNat ≤ (f s.owner.state).sequenceID.toNat + 1
    rw [hf]
    exact h.next
  · show _ → s.server.state.sequenceID ≤ (f s.owner.state).sequenceID ∧ _
    rw [hf]
    exact h.room

/-- A snapshot of the server, for whoever takes it, needs room for its number. -/
theorem serverSnapshot (h : s.Ahead) {t : Exchange α} (us : List (Update α))
    (hserver : t.server = s.server.update fun v =>
      { v with sequenceID := v.sequenceID + 1, changed := false, changeForced := false })
    (howner : t.owner = s.owner.post us) (hus : ∀ u ∈ us, u.forced = false)
    (hroom : ∀ u ∈ s.server.pending, u.forced = true → s.server.state.sequenceID + 1 ≤ u.sequence)
    (hnext : (s.server.state.sequenceID + 1).toNat ≤ s.owner.state.sequenceID.toNat + 1) :
    t.Ahead := by
  have hto : ∀ u ∈ s.owner.pending ++ us, u.forced = false := by
    intro u hu
    exact (List.mem_append.mp hu).elim (h.toOwner u) (hus u)
  refine ⟨?_, ?_, ?_, ?_, ?_, ?_, ?_, ?_⟩ <;>
    simp only [hserver, howner, Inbox.update_state, Inbox.update_pending, Inbox.post_state,
      Inbox.post_pending]
  · exact h.checked
  · exact hto
  · exact h.growing
  · exact h.sent
  · exact hroom
  · exact hnext
  · exact fun hc => absurd hc Bool.false_ne_true

theorem tickServer (h : s.Ahead) : (s.tick .server).Ahead := by
  by_cases hc : s.server.state.changed = true
  · have hsnap : s.server.state.takeVariableSnapshot false = _ := takeVariableSnapshot_some (Or.inr hc)
    obtain ⟨howner, hpending⟩ := h.room hc
    refine h.serverSnapshot [⟨s.server.state.data, s.server.state.sequenceID + 1, false⟩]
      ?_ ?_ (by simp) ?_ ?_
    · simp only [tick, hsnap, Inbox.update]
    · simp only [tick, hsnap, h.serverUnforced, Bool.or_self, Option.toList_some]
    · intro u hu hforced
      have hlt := UInt32.lt_iff_toNat_lt.mp (hpending u hu hforced)
      rw [UInt32.le_iff_toNat_le, UInt32.toNat_add, UInt32.toNat_one]
      exact le_trans (Nat.mod_le _ _) hlt
    · have hle := UInt32.le_iff_toNat_le.mp howner
      rw [UInt32.toNat_add, UInt32.toNat_one]
      exact le_trans (Nat.mod_le _ _) (Nat.succ_le_succ hle)
  · rwa [tick_server_none (by simpa using hc)]

theorem tickOwner (h : s.Ahead)
    (hwrap : s.owner.state.changed = true → s.owner.state.sequenceID + 1 ≠ 0) :
    (s.tick .owner).Ahead := by
  by_cases hc : s.owner.state.changed = true
  · have hsnap : s.owner.state.takeVariableSnapshot false = _ := takeVariableSnapshot_some (Or.inr hc)
    have hnumber : (s.owner.state.sequenceID + 1).toNat = s.owner.state.sequenceID.toNat + 1 := by
      have hne : (s.owner.state.sequenceID + 1).toNat ≠ 0 := fun h0 =>
        hwrap hc (UInt32.toNat_inj.mp h0)
      have hlt := s.owner.state.sequenceID.toNat_lt
      rw [UInt32.toNat_add, UInt32.toNat_one] at hne ⊢
      omega
    have hgrows : s.owner.state.sequenceID < s.owner.state.sequenceID + 1 := by
      rw [UInt32.lt_iff_toNat_lt, hnumber]
      exact Nat.lt_succ_self _
    rw [tick, hsnap]
    set u : Update α := ⟨s.owner.state.data, s.owner.state.sequenceID + 1,
      s.owner.state.changeForced || false⟩
    refine ⟨h.checked, h.serverUnforced, h.toOwner, ?_, ?_, ?_, ?_, ?_⟩
    · show (s.server.pending ++ [u]).Pairwise _
      refine List.pairwise_append.mpr ⟨h.growing, List.pairwise_singleton _ _, ?_⟩
      intro w hw u' hu'
      rw [List.mem_singleton.mp hu']
      exact UInt32.lt_of_le_of_lt (h.sent w hw) hgrows
    · intro w hw
      rcases List.mem_append.mp hw with hw | hw
      · exact UInt32.le_trans (h.sent w hw) (UInt32.le_of_lt hgrows)
      · rw [List.mem_singleton.mp hw]
        exact UInt32.le_refl _
    · intro w hw hforced
      rcases List.mem_append.mp hw with hw | hw
      · exact h.passes w hw hforced
      · rw [List.mem_singleton.mp hw, UInt32.le_iff_toNat_le]
        exact hnumber ▸ h.next
    · show s.server.state.sequenceID.toNat ≤ (s.owner.state.sequenceID + 1).toNat + 1
      rw [hnumber]
      exact Nat.le_succ_of_le h.next
    · intro hchanged
      obtain ⟨howner, hpending⟩ := h.room hchanged
      have hlt := UInt32.lt_of_le_of_lt howner hgrows
      refine ⟨UInt32.le_of_lt hlt, fun w hw hforced => ?_⟩
      rcases List.mem_append.mp hw with hw | hw
      · exact hpending w hw hforced
      · rw [List.mem_singleton.mp hw]
        exact hlt
  · rwa [tick_owner_none (by simpa using hc)]

/-- The server takes the owner's next update, and its number with it. -/
theorem deliverServer (h : s.Ahead) :
    (s.modify .server (Inbox.deliver (readAs netControllerLocal))).Ahead := by
  refine Inbox.deliver_cases (C := fun x => Ahead { s with server := x }) _ h fun u us hp => ?_
  have hmem : ∀ w ∈ us, w ∈ s.server.pending := fun w hw => hp ▸ List.mem_cons_of_mem _ hw
  have hgrowing := h.growing
  rw [hp, List.pairwise_cons] at hgrowing
  by_cases hforced : u.forced = true
  · have hu : u ∈ s.server.pending := hp ▸ List.mem_cons_self
    have hcheck : s.server.state.checkSequence u.sequence = true := by
      simp [checkSequence, h.passes u hu hforced]
    have hconfig := readUpdate_config netControllerLocal u s.server.state
    have hnumber : (readAs netControllerLocal s.server.state u).sequenceID = u.sequence := by
      rw [readAs, readUpdate_apply (Or.inr hforced) hcheck, setRaw]
      split_ifs <;> rfl
    refine ⟨hconfig.2.trans h.checked, (changeForced_readAs _ _ _).trans h.serverUnforced, h.toOwner,
      hgrowing.2, fun w hw => h.sent w (hmem w hw), ?_, ?_, ?_⟩
    · intro w hw _
      rw [hnumber]
      exact UInt32.le_of_lt (hgrowing.1 w hw)
    · show (readAs netControllerLocal s.server.state u).sequenceID.toNat ≤ _
      rw [hnumber]
      exact Nat.le_succ_of_le (UInt32.le_iff_toNat_le.mp (h.sent u hu))
    · intro _
      show (readAs netControllerLocal s.server.state u).sequenceID ≤ _ ∧ ∀ w ∈ us, _
      rw [hnumber]
      exact ⟨h.sent u hu, fun w hw _ => hgrowing.1 w hw⟩
  · rw [readAs_unforced _ (by simpa using hforced)]
    exact ⟨h.checked, h.serverUnforced, h.toOwner, hgrowing.2, fun w hw => h.sent w (hmem w hw),
      fun w hw => h.passes w (hmem w hw), h.next,
      fun hc => ⟨(h.room hc).1, fun w hw => (h.room hc).2 w (hmem w hw)⟩⟩

/-- The owner skips what the server sends. -/
theorem deliverOwner (h : s.Ahead) :
    (s.modify .owner (Inbox.deliver (readAs netControllerLocal))).Ahead := by
  refine Inbox.deliver_cases (C := fun x => Ahead { s with owner := x }) _ h fun u us hp => ?_
  have hu : u.forced = false := h.toOwner u (hp ▸ List.mem_cons_self)
  rw [readAs_unforced _ hu]
  exact { h with toOwner := fun w hw => h.toOwner w (hp ▸ List.mem_cons_of_mem _ hw) }

theorem join (h : s.Ahead) (fresh : CNetVarBase α)
    (hok : s.server.state.sequenceID + 1 ≤ s.nextNumber) : (s.join fresh).Ahead := by
  have hsnap : s.server.state.takeVariableSnapshot true = _ := takeVariableSnapshot_some (Or.inl rfl)
  have hroom : (∀ u ∈ s.server.pending, u.forced = true →
      s.server.state.sequenceID + 1 ≤ u.sequence) ∧
      (s.server.state.sequenceID + 1).toNat ≤ s.owner.state.sequenceID.toNat + 1 := by
    rcases pending_cases s.server.pending with hnone | ⟨before, u, rest, hp, hbefore, hu⟩
    · rw [nextNumber_of_unforced hnone, UInt32.le_iff_toNat_le] at hok
      refine ⟨fun u hu hforced => absurd ((hnone u hu).symm.trans hforced) Bool.false_ne_true,
        le_trans hok ?_⟩
      rw [UInt32.toNat_add, UInt32.toNat_one]
      exact Nat.mod_le _ _
    · rw [nextNumber_of_forced hp hbefore hu] at hok
      have hgrowing := h.growing
      rw [hp, List.pairwise_append, List.pairwise_cons] at hgrowing
      refine ⟨fun w hw hforced => ?_, ?_⟩
      · rw [hp, List.mem_append, List.mem_cons] at hw
        rcases hw with hw | rfl | hw
        · exact absurd ((hbefore w hw).symm.trans hforced) Bool.false_ne_true
        · exact hok
        · exact UInt32.le_trans hok (UInt32.le_of_lt (hgrowing.2.1.1 w hw))
      · have hsent := h.sent u (by simp [hp])
        exact Nat.le_succ_of_le (UInt32.le_iff_toNat_le.mp (UInt32.le_trans hok hsent))
  refine h.serverSnapshot [] ?_ (Inbox.post_nil _).symm (by simp) hroom.1 hroom.2
  simp only [Exchange.join, hsnap, Inbox.update]

end Ahead

/-! ## Runs -/

/-- **What keeps the server behind the owner's numbers.** -/
theorem ahead_step [BEq α] (s : Exchange α) (a : JoinAct α) (h : s.Ahead)
    (hok : s.Timely a ∧ a.ByOwner) : (s.stepJoin a).Ahead := by
  cases a with
  | join fresh => exact h.join fresh hok.1
  | act a =>
    cases a with
    | set p active data =>
      obtain rfl : p = .owner := by simpa [JoinAct.ByOwner, Act.ByOwner, Act.writer] using hok.2
      exact h.write (sequenceID_set active data _)
    | invalidate p =>
      obtain rfl : p = .owner := by simpa [JoinAct.ByOwner, Act.ByOwner, Act.writer] using hok.2
      exact h.write rfl
    | tick p =>
      cases p with
      | server => exact h.tickServer
      | owner => exact h.tickOwner hok.1
      | observer k => exact h
    | deliver p =>
      cases p with
      | server => exact h.deliverServer
      | owner => exact h.deliverOwner
      | observer k => exact ⟨h.checked, h.serverUnforced, h.toOwner, h.growing, h.sent, h.passes,
          h.next, h.room⟩

theorem built_ahead {v fresh : CNetVarBase α} (hv : v.sequenceCheck = true)
    (hfresh : fresh.sequenceID = 0) (others : List (Copies α)) : (built v fresh others).Ahead := by
  have hsnap : v.takeVariableSnapshot true = _ := takeVariableSnapshot_some (Or.inl rfl)
  set u : Update α := ⟨v.data, v.sequenceID + 1, v.changeForced || true⟩
  have hu : u.forced = true := Bool.or_true _
  have hcheck : fresh.checkSequence u.sequence = true := by
    simp [checkSequence, hfresh]
  have howner : (readAs netControllerLocal fresh u).sequenceID = u.sequence := by
    rw [readAs, readUpdate_apply (Or.inr hu) hcheck, setRaw]
    split_ifs <;> rfl
  refine ⟨?_, ?_, ?_, ?_, ?_, ?_, ?_, ?_⟩ <;>
    simp only [built, hsnap, Option.toList_some, List.foldl_cons, List.foldl_nil]
  · exact hv
  · simp
  · simp
  · simp
  · simp
  · show u.sequence.toNat ≤ (readAs netControllerLocal fresh u).sequenceID.toNat + 1
    rw [howner]
    exact Nat.le_succ _
  · exact fun hc => absurd hc Bool.false_ne_true

/-- The server skips what is not forced. -/
theorem run_deliver_unforced [BEq α] {s : Exchange α} {before rest : List (Update α)}
    (hp : s.server.pending = before ++ rest) (hbefore : ∀ u ∈ before, u.forced = false) :
    run stepJoin s (List.replicate before.length (.act (.deliver .server))) =
      { s with server := ⟨s.server.state, rest⟩ } := by
  induction before generalizing s with
  | nil =>
    rw [List.nil_append] at hp
    rw [← hp]
    rfl
  | cons u before ih =>
    rw [List.cons_append] at hp
    have hstep : s.stepJoin (.act (.deliver .server)) =
        { s with server := ⟨s.server.state, before ++ rest⟩ } := by
      show s.modify .server (Inbox.deliver (readAs netControllerLocal)) = _
      rw [modify, Inbox.deliver_cons _ hp, readAs_unforced _ (hbefore u List.mem_cons_self)]
    rw [List.length_cons, List.replicate_succ]
    show run stepJoin (s.stepJoin (.act (.deliver .server))) _ = _
    have hrest := ih (s := { s with server := ⟨s.server.state, before ++ rest⟩ }) rfl
      fun w hw => hbefore w (List.mem_cons_of_mem _ hw)
    rw [hstep, hrest]

theorem not_passes_of_stale [BEq α] {s : Exchange α} {before rest : List (Update α)} {u : Update α}
    (hp : s.server.pending = before ++ u :: rest) (hbefore : ∀ w ∈ before, w.forced = false)
    (hu : u.forced = true) (hstale : s.server.state.checkSequence u.sequence = false) :
    ¬ (run stepJoin s (List.replicate before.length (.act (.deliver .server)))).Passes := by
  rw [run_deliver_unforced hp hbefore]
  intro hpass
  have hcheck : s.server.state.checkSequence u.sequence = true := hpass u rfl hu
  exact absurd (hstale.symm.trans hcheck) Bool.false_ne_true

/-- **After a join that is not timely the owner's next update is dropped.** -/
theorem stale_of_not_timely [BEq α] {s : Exchange α} (hs : s.server.state.sequenceCheck = true)
    {fresh : CNetVarBase α} (hlate : ¬ s.Timely (.join fresh)) :
    ∃ more : List (JoinAct α), (∀ a ∈ more, a.ByOwner) ∧
      ¬ (run stepJoin (s.stepJoin (.join fresh)) more).Passes := by
  have hsnap : s.server.state.takeVariableSnapshot true = _ := takeVariableSnapshot_some (Or.inl rfl)
  have hlate' : ¬ s.server.state.sequenceID + 1 ≤ s.nextNumber := hlate
  have hdeliver : ∀ n, ∀ a ∈ List.replicate n (JoinAct.act (Act.deliver Party.server) : JoinAct α),
      a.ByOwner := by
    intro n a ha
    rw [List.eq_of_mem_replicate ha]
    exact Or.inl rfl
  have hstale : ∀ n, s.nextNumber = n → (s.join fresh).server.state.checkSequence n = false := by
    intro n hn
    rw [hn] at hlate'
    simp [Exchange.join, hsnap, checkSequence, hs, hlate']
  rcases pending_cases s.server.pending with hnone | ⟨before, u, rest, hp, hbefore, hu⟩
  · -- the owner writes and ticks
    let writes : List (JoinAct α) := [.act (.invalidate .owner), .act (.tick .owner)]
    let u : Update α := ⟨s.owner.state.data, s.owner.state.sequenceID + 1, true⟩
    have hp : (run stepJoin (s.join fresh) writes).server = (s.join fresh).server.post [u] := rfl
    refine ⟨writes ++ List.replicate s.server.pending.length (.act (.deliver .server)), ?_, ?_⟩
    · intro a ha
      rcases List.mem_append.mp ha with ha | ha
      · simp only [writes, List.mem_cons, List.not_mem_nil, or_false] at ha
        rcases ha with rfl | rfl
        · exact Or.inr rfl
        · exact Or.inl rfl
      · exact hdeliver _ a ha
    · have hstate : (run stepJoin (s.join fresh) writes).server.state = (s.join fresh).server.state := by
        rw [hp]
        rfl
      rw [run, List.foldl_append]
      have hpending : (run stepJoin (s.join fresh) writes).server.pending = s.server.pending ++ [u] :=
        congrArg Inbox.pending hp
      refine not_passes_of_stale hpending hnone rfl ?_
      show (run stepJoin (s.join fresh) writes).server.state.checkSequence u.sequence = false
      rw [hstate]
      exact hstale _ (nextNumber_of_unforced hnone)
  · have hjoin : (s.join fresh).server.pending = before ++ u :: rest := hp
    exact ⟨_, hdeliver before.length, not_passes_of_stale hjoin hbefore hu
      (hstale _ (nextNumber_of_forced hp hbefore hu))⟩

/-- **Fresh updates pass.** As long as joins are timely, the server never drops an update of the
owner for its number; the first join that is not lets it. -/
theorem fresh_updates_pass [BEq α] {v fresh : CNetVarBase α} (hv : v.sequenceCheck = true)
    (hfresh : fresh.sequenceID = 0) (others : List (Copies α)) {acts : List (JoinAct α)}
    (howner : ∀ a ∈ acts, a.ByOwner) (hok : Along stepJoin Timely (built v fresh others) acts) :
    (run stepJoin (built v fresh others) acts).Passes ∧
      ∀ peer, ¬ (run stepJoin (built v fresh others) acts).Timely (.join peer) →
        ∃ more : List (JoinAct α), (∀ a ∈ more, a.ByOwner) ∧
          ¬ (run stepJoin (built v fresh others) (acts ++ .join peer :: more)).Passes := by
  have h := run_inv ahead_step (built_ahead hv hfresh others) (hok.and (along_of_forall howner _))
  refine ⟨h.head_passes, fun peer hlate => ?_⟩
  obtain ⟨more, hmore, hdrop⟩ := stale_of_not_timely h.checked hlate
  refine ⟨more, hmore, ?_⟩
  rw [run, List.foldl_append]
  exact hdrop

/-- A byte that is checked, on the server and fresh at the owner. -/
def checkedByte : CNetVarBase UInt8 where
  data := 0
  sequenceCheck := true

def oneJoin : List (JoinAct UInt8) :=
  [.join checkedByte, .act (.set .owner true 1), .act (.tick .owner)]

/-- The owner's next number is as high as the server's, which is enough; a second join is one too
many. -/
theorem fresh_updates_pass_oneJoin :
    (run stepJoin (built checkedByte checkedByte []) oneJoin).Passes ∧
      ∃ more : List (JoinAct UInt8), (∀ a ∈ more, a.ByOwner) ∧
        ¬ (run stepJoin (built checkedByte checkedByte [])
          (oneJoin ++ .join checkedByte :: more)).Passes := by
  have howner : ∀ a ∈ oneJoin, a.ByOwner := by
    simp [oneJoin, JoinAct.ByOwner, Act.ByOwner, Act.writer]
  have h := fresh_updates_pass rfl rfl [] howner
    (show Along stepJoin Timely (built checkedByte checkedByte []) oneJoin by decide)
  exact ⟨h.1, h.2 checkedByte (by decide)⟩

def twoJoins : List (JoinAct UInt8) := .join checkedByte :: oneJoin

/-- Two peers join, and the owner's next update is dropped. -/
theorem not_fresh_updates_pass_twoJoins : (∀ a ∈ twoJoins, a.ByOwner) ∧
    (run stepJoin (built checkedByte checkedByte []) twoJoins).owner.state.sequenceCheck = true ∧
    (run stepJoin (built checkedByte checkedByte []) twoJoins).server.state.sequenceCheck = true ∧
    ¬ (run stepJoin (built checkedByte checkedByte []) twoJoins).Passes := by
  refine ⟨?_, by decide, by decide, by decide⟩
  simp [twoJoins, oneJoin, JoinAct.ByOwner, Act.ByOwner, Act.writer]

end Exchange

end Nettik
