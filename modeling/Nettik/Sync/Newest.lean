import Mathlib.Data.List.Induction
import Mathlib.Data.List.Nodup
import Nettik.Sync.Exchange

/-!
# Sequence numbers over an unreliable link

A variable of an object that no peer owns: the server's copy changes by the application only, and every
snapshot that emits an update gives it the next number.

* `SnapshotCall`, `serve`: what a server does with the variable, and the updates it emits;
* `map_sequence_serve`: their numbers, one after the other;
* `Newest`: a copy that has seen some updates and holds the newest of them;
* **`newest_wins`**: whatever is lost, repeated or reordered, a copy that checks sequence numbers holds
  the newest update delivered.
-/

namespace Nettik

open CNetVarBase

variable {α : Type}

/-! ## The server -/

/-- A `Set` of the application, a tick (`forced` is false) or a full snapshot. -/
inductive SnapshotCall (α : Type) where
  | set (active : Bool) (data : α)
  | snapshot (forced : Bool)
  deriving DecidableEq, Repr

namespace CNetVarBase

/-- The updates a server emits. -/
def serve [BEq α] (v : CNetVarBase α) : List (SnapshotCall α) → List (Update α)
  | [] => []
  | .set active data :: calls => (v.set active data).serve calls
  | .snapshot forced :: calls =>
    (v.takeVariableSnapshot forced).1.toList ++ (v.takeVariableSnapshot forced).2.serve calls

variable {v : CNetVarBase α}

/-- **The updates are numbered one after the other**, as long as the counter does not wrap. -/
theorem map_sequence_serve [BEq α] (calls : List (SnapshotCall α))
    (h : v.sequenceID.toNat + (v.serve calls).length < 2 ^ 32) :
    (v.serve calls).map (fun u => u.sequence.toNat) =
      List.range' (v.sequenceID.toNat + 1) (v.serve calls).length := by
  induction calls generalizing v with
  | nil => rfl
  | cons call calls ih =>
    cases call with
    | set active data =>
      rw [serve] at h ⊢
      rw [← sequenceID_set active data v] at h ⊢
      exact ih h
    | snapshot forced =>
      by_cases hc : forced = true ∨ v.changed = true
      · rw [serve, takeVariableSnapshot_some hc] at h ⊢
        simp only [Option.toList_some, List.singleton_append, List.length_cons] at h ⊢
        have hnext : (v.sequenceID + 1).toNat = v.sequenceID.toNat + 1 := by
          rw [UInt32.toNat_add, UInt32.toNat_one, Nat.mod_eq_of_lt (by omega)]
        rw [List.map_cons, List.range'_succ, ih (by rw [hnext]; omega), hnext]
      · rw [not_or, Bool.not_eq_true, Bool.not_eq_true] at hc
        rw [serve, takeVariableSnapshot_none hc] at h ⊢
        exact ih h

/-! ## The observer -/

/-- The copy `v` checks sequence numbers; it has seen the updates `us`, none of them newer than its own
number, and holds one of them, unless it has seen none and is what it was. -/
structure Newest (start v : CNetVarBase α) (us : List (Update α)) : Prop where
  unlocked : v.locked = false
  checked : v.sequenceCheck = true
  bound : ∀ u ∈ us, u.sequence ≤ v.sequenceID
  held : (us = [] ∧ v = start) ∨ ∃ top ∈ us, v.sequenceID = top.sequence ∧ v.data = top.data

/-- A copy that checks numbers takes an update that is no older than its own. -/
theorem readAs_checked (hl : v.locked = false) (hc : v.sequenceCheck = true) (u : Update α) :
    readAs netControllerNone v u =
      if v.sequenceID ≤ u.sequence then
        { v with data := u.data, changes := v.changes + 1, sequenceID := u.sequence, changed := true }
      else v := by
  have hn : ¬ (netControllerNone = netControllerLocal ∧ u.forced = false) := by
    rintro ⟨h, -⟩
    exact absurd h (by decide)
  rw [readAs, readUpdate, if_neg hn, checkSequence, hc]
  by_cases hs : v.sequenceID ≤ u.sequence <;> simp [hs, setRaw, setSequence, hl, hc]

theorem Newest.read {start : CNetVarBase α} {us : List (Update α)} (h : Newest start v us) {u : Update α}
    (hstart : start.sequenceID ≤ u.sequence) :
    Newest start (readAs netControllerNone v u) (us ++ [u]) ∧
      v.sequenceID ≤ (readAs netControllerNone v u).sequenceID := by
  rw [readAs_checked h.unlocked h.checked]
  by_cases hs : v.sequenceID ≤ u.sequence
  · rw [if_pos hs]
    refine ⟨⟨h.unlocked, h.checked, ?_, Or.inr ⟨u, by simp, rfl, rfl⟩⟩, hs⟩
    intro w hw
    rcases List.mem_append.mp hw with hw | hw
    · exact UInt32.le_trans (h.bound w hw) hs
    · rw [List.mem_singleton.mp hw]
      exact UInt32.le_refl _
  · rw [if_neg hs]
    have hold : u.sequence ≤ v.sequenceID := (UInt32.le_total v.sequenceID u.sequence).resolve_left hs
    refine ⟨⟨h.unlocked, h.checked, ?_, Or.inr ?_⟩, UInt32.le_refl _⟩
    · intro w hw
      rcases List.mem_append.mp hw with hw | hw
      · exact h.bound w hw
      · rwa [List.mem_singleton.mp hw]
    · -- a copy that has seen nothing takes everything
      rcases h.held with ⟨-, rfl⟩ | ⟨top, htop, hheld⟩
      · exact absurd hstart hs
      · exact ⟨top, List.mem_append_left _ htop, hheld⟩

theorem newest_foldl {start : CNetVarBase α} (hl : start.locked = false)
    (hc : start.sequenceCheck = true) {us : List (Update α)}
    (hstart : ∀ u ∈ us, start.sequenceID ≤ u.sequence) :
    Newest start (us.foldl (readAs netControllerNone) start) us := by
  induction us using List.reverseRecOn with
  | nil => exact ⟨hl, hc, by simp, Or.inl ⟨rfl, rfl⟩⟩
  | append_singleton us u ih =>
    rw [List.foldl_append]
    have hus := ih fun w hw => hstart w (List.mem_append_left _ hw)
    exact (hus.read (hstart u (by simp))).1

end CNetVarBase

/-- **Newest wins.** Of the updates a server emits, any are delivered, in any order and any number of
times. After each delivery the observer holds the data of the one with the highest number, and its
number never goes back. -/
theorem newest_wins [BEq α] (server observer : CNetVarBase α) (hl : observer.locked = false)
    (hc : observer.sequenceCheck = true) (hstart : observer.sequenceID ≤ server.sequenceID)
    (calls : List (SnapshotCall α))
    (hcount : server.sequenceID.toNat + (server.serve calls).length < 2 ^ 32)
    (delivered : List (Update α)) (u : Update α)
    (hsent : ∀ w ∈ delivered ++ [u], w ∈ server.serve calls) :
    (∀ top ∈ delivered ++ [u], (∀ w ∈ delivered ++ [u], w.sequence ≤ top.sequence) →
      ((delivered ++ [u]).foldl (readAs netControllerNone) observer).data = top.data) ∧
    (delivered.foldl (readAs netControllerNone) observer).sequenceID ≤
      ((delivered ++ [u]).foldl (readAs netControllerNone) observer).sequenceID := by
  have hnumbers := map_sequence_serve calls hcount
  -- every update is newer than the state the observer starts from
  have hnewer : ∀ w ∈ delivered ++ [u], observer.sequenceID ≤ w.sequence := by
    intro w hw
    have hmem : w.sequence.toNat ∈ (server.serve calls).map fun u => u.sequence.toNat :=
      List.mem_map_of_mem (hsent w hw)
    rw [hnumbers, List.mem_range'_1] at hmem
    rw [UInt32.le_iff_toNat_le] at hstart ⊢
    omega
  have hbefore := newest_foldl hl hc fun w hw => hnewer w (List.mem_append_left _ hw)
  have hread := hbefore.read (hnewer u (by simp))
  rw [List.foldl_append]
  refine ⟨fun top htop hmax => ?_, hread.2⟩
  obtain ⟨held, hheld, hsequence, hdata⟩ := hread.1.held.resolve_left fun h => by simp at h
  -- no two updates share a number
  have hsame : held.sequence.toNat = top.sequence.toNat := by
    have hle := hmax held hheld
    have hge := hread.1.bound top htop
    rw [hsequence] at hge
    exact congrArg UInt32.toNat (UInt32.le_antisymm hle hge)
  have hnodup : ((server.serve calls).map fun u => u.sequence.toNat).Nodup := by
    rw [hnumbers]
    exact List.nodup_range'
  have heq : held = top := List.inj_on_of_nodup_map hnodup (hsent held hheld) (hsent top htop) hsame
  exact hdata.trans (congrArg Update.data heq)

def byteServer : CNetVarBase UInt8 where
  data := 0

def byteObserver : CNetVarBase UInt8 where
  data := 0
  sequenceCheck := true

def byteCalls : List (SnapshotCall UInt8) :=
  [.set true 1, .snapshot false, .snapshot true, .set true 3, .snapshot false]

/-- Three updates of a byte; the second is lost, and the first comes again behind the third. -/
theorem newest_wins_reordered :
    (([⟨3, 3, true⟩, ⟨1, 1, true⟩] : List (Update UInt8)).foldl (readAs netControllerNone)
        byteObserver).data = 3 ∧
      (([⟨3, 3, true⟩] : List (Update UInt8)).foldl (readAs netControllerNone)
          byteObserver).sequenceID ≤
        (([⟨3, 3, true⟩, ⟨1, 1, true⟩] : List (Update UInt8)).foldl (readAs netControllerNone)
          byteObserver).sequenceID := by
  have h := newest_wins byteServer byteObserver rfl rfl (by decide) byteCalls (by decide)
    [⟨3, 3, true⟩] ⟨1, 1, true⟩ (by decide)
  exact ⟨h.1 ⟨3, 3, true⟩ (by decide) (by decide), h.2⟩

end Nettik
