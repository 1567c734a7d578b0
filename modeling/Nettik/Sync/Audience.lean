import Nettik.Sync.Exchange

/-!
# One variable between a server and the peers that join

A variable of an object that no peer owns; every peer holds the object as `NONE`, once it processed
its creation.

* `Audience`: the server's copy, and the peers behind their links; `step` is a write, a tick, a join
  or a delivery;
* `Heard`: what a peer has been sent is the server's value, unless the variable is marked changed;
* **`no_update_lost`**: without a join over an unannounced change, no update is lost.
-/

namespace Nettik

open Links CNetVarBase

variable {α : Type}

/-! ## The parties -/

/-- What a packet says about one object: its creation, or an update of the variable. -/
inductive Notice (α : Type) where
  | alloc
  | data (u : Update α)
  deriving DecidableEq, Repr

/-- What a client does with a notice; `fresh` is what its class constructs. A repeated creation
leaves the object as it is, an update of an unknown object is dropped. -/
def take (fresh : CNetVarBase α) (copy : Option (CNetVarBase α)) : Notice α → Option (CNetVarBase α)
  | .alloc => some (copy.getD fresh)
  | .data u => copy.map fun v => readAs netControllerNone v u

structure Audience (α : Type) where
  server : CNetVarBase α
  peers : List (Inbox (Option (CNetVarBase α)) (Notice α)) := []
  deriving DecidableEq, Repr

/-- The object after `Build`, whose creation is on its way to the `n` peers connected then. -/
def built (fresh : CNetVarBase α) (n : ℕ) : Audience α where
  server := fresh
  peers := List.replicate n ⟨none, [.alloc]⟩

inductive ServerAct (α : Type) where
  | set (active : Bool) (data : α)
  | tick
  | connect
  | deliver (k : ℕ)
  deriving DecidableEq, Repr

namespace Audience

/-- A tick broadcasts; the connect handler sends to the new peer alone, the creation first. -/
def step [BEq α] (fresh : CNetVarBase α) (s : Audience α) : ServerAct α → Audience α
  | .set active data => { s with server := s.server.set active data }
  | .tick =>
    let r := s.server.takeVariableSnapshot false
    { server := r.2, peers := s.peers.map (Inbox.post (r.1.toList.map Notice.data)) }
  | .connect =>
    let r := s.server.takeVariableSnapshot true
    { server := r.2, peers := s.peers ++ [⟨none, .alloc :: r.1.toList.map Notice.data⟩] }
  | .deliver k => { s with peers := s.peers.modify k (Inbox.deliver (take fresh)) }

/-- The next update does not wrap a sequence number that is checked. -/
def NoWrap (fresh : CNetVarBase α) (s : Audience α) : Prop :=
  fresh.sequenceCheck = true → s.server.sequenceID + 1 ≠ 0

/-- A join finds no unannounced change, or nobody who would miss it. -/
def JoinsClean (fresh : CNetVarBase α) (s : Audience α) : ServerAct α → Prop
  | .tick => s.server.changed = true → s.NoWrap fresh
  | .connect => (s.server.changed = false ∨ s.peers = []) ∧ s.NoWrap fresh
  | _ => True

/-! ## What the peers have been sent -/

/-- The copy of a peer that processed all it was sent. -/
structure Heard (fresh server : CNetVarBase α) (v : CNetVarBase α) : Prop where
  unlocked : v.locked = false
  sequenceCheck : v.sequenceCheck = fresh.sequenceCheck
  sequence : fresh.sequenceCheck = true → v.sequenceID ≤ server.sequenceID
  value : server.changed = false → v.data = server.data

def Informed (fresh : CNetVarBase α) (s : Audience α) : Prop :=
  ∀ x ∈ s.peers, ∃ v, x.settled (take fresh) = some v ∧ Heard fresh s.server v

theorem le_add_one {a b : UInt32} (h : a ≤ b) (hb : b + 1 ≠ 0) : a ≤ b + 1 := by
  rw [UInt32.le_iff_toNat_le] at h ⊢
  have hlt := b.toNat_lt
  have hne : b.toNat + 1 ≠ 2 ^ 32 := by
    intro e
    apply hb
    rw [← UInt32.toNat_inj, UInt32.toNat_add]
    simp [e]
  rw [UInt32.toNat_add, UInt32.toNat_one, Nat.mod_eq_of_lt (by omega)]
  omega

variable {fresh : CNetVarBase α} {s : Audience α}

/-- **The update a snapshot emits informs whoever was within reach.** -/
theorem heard_snapshot (hwrap : s.NoWrap fresh) {v : CNetVarBase α} (hl : v.locked = false)
    (hc : v.sequenceCheck = fresh.sequenceCheck)
    (hs : fresh.sequenceCheck = true → v.sequenceID ≤ s.server.sequenceID) (forced : Bool) :
    Heard fresh { s.server with
        sequenceID := s.server.sequenceID + 1, changed := false, changeForced := false }
      (readAs netControllerNone v ⟨s.server.data, s.server.sequenceID + 1, forced⟩) := by
  have hcheck : v.checkSequence (s.server.sequenceID + 1) = true := by
    by_cases hf : fresh.sequenceCheck = true
    · simp [checkSequence, le_add_one (hs hf) (hwrap hf)]
    · have hv : v.sequenceCheck = false := by simpa [hc] using hf
      simp [checkSequence, hv]
  have hn : netControllerNone ≠ netControllerLocal := by decide
  have happly := readUpdate_apply (u := ⟨s.server.data, s.server.sequenceID + 1, forced⟩) (Or.inl hn) hcheck
  rw [readAs, happly, setRaw, if_neg (by simp [setSequence, hl])]
  exact ⟨hl, hc, fun _ => UInt32.le_refl _, fun _ => rfl⟩

theorem informed_set [BEq α] (h : s.Informed fresh) (active : Bool) (data : α) :
    (s.step fresh (.set active data)).Informed fresh := by
  intro x hx
  obtain ⟨v, hv, hheard⟩ := h x hx
  refine ⟨v, hv, ?_⟩
  show Heard fresh (s.server.set active data) v
  rcases set_cases active data s.server with he | he <;> rw [he]
  · exact hheard
  · exact ⟨hheard.unlocked, hheard.sequenceCheck, hheard.sequence,
      fun hn => absurd hn.symm Bool.false_ne_true⟩

theorem informed_tick [BEq α] (h : s.Informed fresh)
    (hok : s.server.changed = true → s.NoWrap fresh) : (s.step fresh .tick).Informed fresh := by
  by_cases hc : s.server.changed = true
  · rw [step, takeVariableSnapshot_some (Or.inr hc)]
    intro x hx
    obtain ⟨y, hy, rfl⟩ := List.mem_map.mp hx
    obtain ⟨v, hv, hheard⟩ := h y hy
    refine ⟨_, ?_, heard_snapshot (hok hc) hheard.unlocked hheard.sequenceCheck hheard.sequence
      (s.server.changeForced || false)⟩
    rw [Inbox.settled_post, hv]
    rfl
  · have hn : s.server.changed = false := by simpa using hc
    rw [step, takeVariableSnapshot_none ⟨rfl, hn⟩]
    intro x hx
    obtain ⟨y, hy, rfl⟩ := List.mem_map.mp hx
    rw [Option.toList_none, List.map_nil, Inbox.post_nil]
    exact h y hy

/-- A join informs the new peer; the others need nothing when there was nothing to announce. -/
theorem informed_connect [BEq α] (hunlocked : fresh.locked = false) (hseq : fresh.sequenceID = 0)
    (h : s.Informed fresh) (hok : s.server.changed = false ∨ s.peers = []) (hwrap : s.NoWrap fresh) :
    (s.step fresh .connect).Informed fresh := by
  rw [step, takeVariableSnapshot_some (Or.inl rfl)]
  intro x hx
  rcases List.mem_append.mp hx with hx | hx
  · obtain ⟨v, hv, hheard⟩ := h x hx
    rcases hok with hn | hnil
    · refine ⟨v, hv, hheard.unlocked, hheard.sequenceCheck, ?_, fun _ => hheard.value hn⟩
      exact fun hf => le_add_one (hheard.sequence hf) (hwrap hf)
    · rw [hnil] at hx
      exact absurd hx List.not_mem_nil
  · rw [List.mem_singleton.mp hx]
    have hzero : fresh.sequenceCheck = true → fresh.sequenceID ≤ s.server.sequenceID := by
      rw [hseq]
      exact fun _ => UInt32.zero_le
    exact ⟨_, rfl, heard_snapshot hwrap hunlocked rfl hzero (s.server.changeForced || true)⟩

theorem informed_deliver [BEq α] (h : s.Informed fresh) (k : ℕ) :
    (s.step fresh (.deliver k)).Informed fresh := by
  intro x hx
  obtain ⟨n, hn, rfl⟩ := List.mem_iff_getElem.mp hx
  have hn' : n < s.peers.length := by simpa [step] using hn
  have hget := h s.peers[n] (List.getElem_mem hn')
  simp only [step, List.getElem_modify]
  split_ifs
  · rwa [Inbox.settled_deliver]
  · exact hget

/-- **Every action keeps the peers informed.** -/
theorem informed_step [BEq α] (hunlocked : fresh.locked = false) (hseq : fresh.sequenceID = 0)
    (s : Audience α) (a : ServerAct α) (h : s.Informed fresh) (hok : s.JoinsClean fresh a) :
    (s.step fresh a).Informed fresh := by
  cases a with
  | set active data => exact informed_set h active data
  | tick => exact informed_tick h hok
  | connect => exact informed_connect hunlocked hseq h hok.1 hok.2
  | deliver k => exact informed_deliver h k

theorem informed_built (hunlocked : fresh.locked = false) (n : ℕ) :
    (built fresh n).Informed fresh := by
  intro x hx
  rw [List.eq_of_mem_replicate hx]
  exact ⟨fresh, rfl, hunlocked, rfl, fun _ => UInt32.le_refl _, fun _ => rfl⟩

/-- **No update is lost to a join.** While the variable is not marked changed, every connected peer
has been sent the current value, and one with nothing in flight holds it. -/
theorem no_update_lost [BEq α] (hunlocked : fresh.locked = false) (hseq : fresh.sequenceID = 0)
    (n : ℕ) {acts : List (ServerAct α)}
    (hok : Along (step fresh) (JoinsClean fresh) (built fresh n) acts)
    (hn : (run (step fresh) (built fresh n) acts).server.changed = false) :
    ∀ x ∈ (run (step fresh) (built fresh n) acts).peers,
      ((x.settled (take fresh)).map CNetVarBase.data =
        some (run (step fresh) (built fresh n) acts).server.data) ∧
      (x.pending = [] → x.state.map CNetVarBase.data =
        some (run (step fresh) (built fresh n) acts).server.data) := by
  have h : (run (step fresh) (built fresh n) acts).Informed fresh :=
    run_inv (informed_step hunlocked hseq) (informed_built hunlocked n) hok
  intro x hx
  obtain ⟨v, hv, hheard⟩ := h x hx
  have hsent : (x.settled (take fresh)).map CNetVarBase.data =
      some (run (step fresh) (built fresh n) acts).server.data := by
    rw [hv, Option.map_some, hheard.value hn]
  refine ⟨hsent, fun hp => ?_⟩
  rwa [Inbox.settled_nil _ hp] at hsent

/-- A byte whose sequence numbers are checked. -/
def checkedByte : CNetVarBase UInt8 where
  data := 0
  sequenceCheck := true

/-- The value is announced before the second peer joins. -/
def tickedJoin : List (ServerAct UInt8) :=
  [.set true 1, .tick, .connect, .deliver 0, .deliver 0, .deliver 1, .deliver 1]

theorem no_update_lost_ticked :
    (run (step checkedByte) (built checkedByte 1) tickedJoin).server.data = 1 ∧
    ∀ x ∈ (run (step checkedByte) (built checkedByte 1) tickedJoin).peers,
      ((x.settled (take checkedByte)).map CNetVarBase.data =
        some (run (step checkedByte) (built checkedByte 1) tickedJoin).server.data) ∧
      (x.pending = [] → x.state.map CNetVarBase.data =
        some (run (step checkedByte) (built checkedByte 1) tickedJoin).server.data) := by
  have hok : Along (step checkedByte) (JoinsClean checkedByte) (built checkedByte 1) tickedJoin :=
    ⟨trivial, fun _ _ => by decide, ⟨Or.inl (by decide), fun _ => by decide⟩, trivial, trivial, trivial,
      trivial, trivial⟩
  exact ⟨by decide, no_update_lost rfl rfl 1 hok (by decide)⟩

/-- The join comes first: it clears the flag, and the first peer keeps the old value. -/
def hastyJoin : List (ServerAct UInt8) :=
  [.set true 1, .connect, .deliver 0, .deliver 1, .deliver 1]

theorem hastyJoin_loses :
    let s := run (step checkedByte) (built checkedByte 1) hastyJoin
    s.server.changed = false ∧ s.server.data = 1 ∧ (∀ x ∈ s.peers, x.pending = []) ∧
      s.peers.map (fun x => x.state.map CNetVarBase.data) = [some 0, some 1] := by
  decide

end Audience

end Nettik
