import Nettik.Lib.Links
import Nettik.World.Var

/-!
# One variable between a server, an owner and observers

A variable of an object whose `m_pPeer` is a client. Server and owner hold the object as `LOCAL`,
any number of observers as `NONE`; each link delivers in order.

* `Exchange`: the copies of the variable and the updates on their way;
* `step`: an application writes, a party ticks, or a party processes the next update;
* `Wrote`, `readAs`: what a write and an update do to a copy;
* `Plain`: the copies that never refuse an update; writes, snapshots and updates leave them so.
-/

namespace Nettik

open Links

variable {α : Type}

/-! ## The parties -/

inductive Party where
  | server
  | owner
  | observer (k : ℕ)
  deriving DecidableEq, Repr

abbrev Copies (α : Type) := Inbox (CNetVarBase α) (Update α)

/-- The three kinds of copies, each behind its queue, and how many updates were emitted. -/
structure Exchange (α : Type) where
  server : Copies α
  owner : Copies α
  observers : List (Copies α) := []
  emitted : ℕ := 0
  deriving DecidableEq, Repr

namespace Exchange

def modify (p : Party) (f : Copies α → Copies α) (s : Exchange α) : Exchange α :=
  match p with
  | .server => { s with server := f s.server }
  | .owner => { s with owner := f s.owner }
  | .observer k => { s with observers := s.observers.modify k f }

/-- `SnapshotUpdate`, not forced. The server broadcasts and the owner sends to the server; an
observer holds the object as `NONE`, which `GetSnapshot` skips. -/
def tick (p : Party) (s : Exchange α) : Exchange α :=
  match p with
  | .server =>
    let r := s.server.state.takeVariableSnapshot false
    { server := s.server.update fun _ => r.2
      owner := s.owner.post r.1.toList
      observers := s.observers.map (Inbox.post r.1.toList)
      emitted := s.emitted + r.1.toList.length }
  | .owner =>
    let r := s.owner.state.takeVariableSnapshot false
    { s with
      server := s.server.post r.1.toList
      owner := s.owner.update fun _ => r.2
      emitted := s.emitted + r.1.toList.length }
  | .observer _ => s

end Exchange

/-- `ReadEntityUpdate` at a copy with this controller. -/
def readAs (controller : UInt32) (v : CNetVarBase α) (u : Update α) : CNetVarBase α :=
  v.readUpdate controller u

def Party.controller : Party → UInt32
  | .server | .owner => netControllerLocal
  | .observer _ => netControllerNone

/-! ### Ticks -/

namespace Exchange

theorem post_nil_eq : Inbox.post ([] : List (Update α)) = (id : Copies α → Copies α) := by
  funext x
  exact Inbox.post_nil x

/-- Without a change a tick does nothing. -/
theorem tick_server_none {s : Exchange α} (h : s.server.state.changed = false) :
    s.tick .server = s := by
  rw [tick, CNetVarBase.takeVariableSnapshot_none ⟨rfl, h⟩, Option.toList_none, post_nil_eq, List.map_id]
  rfl

theorem tick_owner_none {s : Exchange α} (h : s.owner.state.changed = false) :
    s.tick .owner = s := by
  rw [tick, CNetVarBase.takeVariableSnapshot_none ⟨rfl, h⟩, Option.toList_none, post_nil_eq]
  rfl

end Exchange

/-! ## Runs -/

inductive Act (α : Type) where
  | set (p : Party) (active : Bool) (data : α)
  | invalidate (p : Party)
  | tick (p : Party)
  | deliver (p : Party)
  deriving DecidableEq, Repr

/-- The party whose application writes. -/
def Act.writer : Act α → Option Party
  | .set p _ _ | .invalidate p => some p
  | .tick _ | .deliver _ => none

namespace Exchange

def step [BEq α] (s : Exchange α) : Act α → Exchange α
  | .set p active data => s.modify p (Inbox.update (CNetVarBase.set active data))
  | .invalidate p => s.modify p (Inbox.update CNetVarBase.invalidate)
  | .tick p => s.tick p
  | .deliver p => s.modify p (Inbox.deliver (readAs p.controller))

/-- Nothing is in flight. -/
def Quiet (s : Exchange α) : Prop :=
  s.server.pending = [] ∧ s.owner.pending = [] ∧ ∀ x ∈ s.observers, x.pending = []

instance [DecidableEq α] (s : Exchange α) : Decidable s.Quiet := by
  unfold Quiet
  infer_instance

end Exchange

/-! ## Writes and updates -/

namespace CNetVarBase

/-- A write of the application. -/
structure Wrote (v v' : CNetVarBase α) : Prop where
  locked : v'.locked = v.locked
  sequenceCheck : v'.sequenceCheck = v.sequenceCheck
  cases : v' = v ∨ (v'.changed = true ∧ v'.changeForced = true)

theorem wrote_set [BEq α] (active : Bool) (data : α) (v : CNetVarBase α) :
    Wrote v (v.set active data) := by
  rcases set_cases active data v with h | h <;> rw [h]
  · exact ⟨rfl, rfl, Or.inl rfl⟩
  · exact ⟨rfl, rfl, Or.inr ⟨rfl, rfl⟩⟩

theorem wrote_invalidate (v : CNetVarBase α) : Wrote v v.invalidate :=
  ⟨rfl, rfl, Or.inr ⟨rfl, rfl⟩⟩

/-- A copy that never refuses an update for its lock or its sequence number. -/
structure Plain (v : CNetVarBase α) : Prop where
  unlocked : v.locked = false
  unchecked : v.sequenceCheck = false

theorem Plain.wrote {v v' : CNetVarBase α} (h : Plain v) (hw : Wrote v v') : Plain v' :=
  ⟨hw.locked.trans h.unlocked, hw.sequenceCheck.trans h.unchecked⟩

theorem Plain.snapshot {v : CNetVarBase α} (h : Plain v) (bForced : Bool) :
    Plain (v.takeVariableSnapshot bForced).2 := by
  unfold takeVariableSnapshot
  split_ifs
  · exact h
  · exact ⟨h.unlocked, h.unchecked⟩

/-- An update that is not skipped is applied. -/
theorem Plain.readAs {v : CNetVarBase α} (h : Plain v) {controller : UInt32} {u : Update α}
    (hu : controller ≠ netControllerLocal ∨ u.forced = true) : readAs controller v u =
      { v with data := u.data, changes := v.changes + 1, sequenceID := u.sequence, changed := true } := by
  have hs : v.checkSequence u.sequence = true := by simp [checkSequence, h.unchecked]
  rw [Nettik.readAs, readUpdate_apply hu hs, setRaw, if_neg (by simp [setSequence, h.unlocked])]
  rfl

theorem Plain.read {v : CNetVarBase α} (h : Plain v) (controller : UInt32) (u : Update α) :
    Plain (Nettik.readAs controller v u) := by
  obtain ⟨hl, hs⟩ := readUpdate_config controller u v
  exact ⟨hl.trans h.unlocked, hs.trans h.unchecked⟩

theorem readAs_unforced (v : CNetVarBase α) {u : Update α} (hu : u.forced = false) :
    Nettik.readAs netControllerLocal v u = v :=
  readUpdate_local hu v

theorem changeForced_readAs (controller : UInt32) (v : CNetVarBase α) (u : Update α) :
    (Nettik.readAs controller v u).changeForced = v.changeForced := by
  unfold Nettik.readAs readUpdate setRaw setSequence
  split_ifs <;> rfl

end CNetVarBase

end Nettik
