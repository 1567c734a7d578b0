import Nettik.Snapshot.Frame

/-!
# Network variables

`CNetVarBase α` is one networked variable with value type `α`, together with the counters and
flags it inherits from `NetVar`. `NetVar` packs a variable with its name, reliability and size, as
an object lists it.

* `set`, `setRaw`, `invalidate`, `takeVariableSnapshot`: the operations on one variable;
* `readUpdate`: what `ReadEntityUpdate` does once it has found the variable;
* `NetVar`, `NetVar.frame`: the frame a snapshot writes for a variable.
-/

namespace Nettik

open ByteMem

/-! ## The variable -/

/-- What a data frame carries for its variable. -/
structure Update (α : Type) where
  data : α
  sequence : UInt32
  forced : Bool
  deriving DecidableEq, Repr

structure CNetVarBase (α : Type) where
  data : α
  changes : UInt32 := 0
  sequenceID : UInt32 := 0
  sequenceCheck : Bool := false
  changed : Bool := true
  locked : Bool := false
  changeForced : Bool := false
  deriving DecidableEq, Repr

namespace CNetVarBase

variable {α : Type}

def invalidate (v : CNetVarBase α) : CNetVarBase α := { v with changed := true, changeForced := true }

/-- `active` is false when the parent is inactive; a variable without a parent counts as active. -/
def setGuard [BEq α] (active : Bool) (data : α) (v : CNetVarBase α) : Bool × CNetVarBase α :=
  if !active then (false, v)
  else if v.data == data then (false, v)
  else (true, { v with changed := true, changeForced := true })

/-- The typed `Set` of the application. -/
def set [BEq α] (active : Bool) (data : α) (v : CNetVarBase α) : CNetVarBase α :=
  if (v.setGuard active data).1 then
    { (v.setGuard active data).2 with
      data := data, changes := v.changes + 1, changeForced := true }
  else (v.setGuard active data).2

/-- The raw `Set` of a received frame. -/
def setRaw (data : α) (v : CNetVarBase α) : CNetVarBase α :=
  if v.locked then v else { v with data := data, changes := v.changes + 1, changed := true }

/-- The update a snapshot emits, if it emits one. -/
def takeVariableSnapshot (bForced : Bool) (v : CNetVarBase α) :
    Option (Update α) × CNetVarBase α :=
  if !bForced && !v.changed then (none, v)
  else
    (some ⟨v.data, v.sequenceID + 1, v.changeForced || bForced⟩,
      { v with sequenceID := v.sequenceID + 1, changed := false, changeForced := false })

def checkSequence (sequence : UInt32) (v : CNetVarBase α) : Bool :=
  !v.sequenceCheck || decide (v.sequenceID ≤ sequence)

def setSequence (sequence : UInt32) (v : CNetVarBase α) : CNetVarBase α :=
  { v with sequenceID := sequence }

/-- The end of `ReadEntityUpdate`: a `LOCAL` object takes forced frames only, and a variable may
reject sequence numbers below the one it has processed. -/
def readUpdate (controller : UInt32) (u : Update α) (v : CNetVarBase α) : CNetVarBase α :=
  if controller = netControllerLocal ∧ u.forced = false then v
  else if v.checkSequence u.sequence then (v.setSequence u.sequence).setRaw u.data
  else v

/-! ### What each operation does -/

theorem set_cases [BEq α] (active : Bool) (data : α) (v : CNetVarBase α) :
    v.set active data = v ∨ v.set active data =
      { v with data := data, changes := v.changes + 1, changed := true, changeForced := true } := by
  unfold set setGuard
  cases active <;> cases v.data == data <;> simp

theorem sequenceID_set [BEq α] (active : Bool) (data : α) (v : CNetVarBase α) :
    (v.set active data).sequenceID = v.sequenceID := by
  rcases set_cases active data v with h | h <;> rw [h]

theorem takeVariableSnapshot_none {bForced : Bool} {v : CNetVarBase α}
    (h : bForced = false ∧ v.changed = false) : v.takeVariableSnapshot bForced = (none, v) := by
  simp [takeVariableSnapshot, h]

theorem takeVariableSnapshot_some {bForced : Bool} {v : CNetVarBase α}
    (h : bForced = true ∨ v.changed = true) : v.takeVariableSnapshot bForced =
      (some ⟨v.data, v.sequenceID + 1, v.changeForced || bForced⟩,
        { v with sequenceID := v.sequenceID + 1, changed := false, changeForced := false }) := by
  rcases h with h | h <;> simp [takeVariableSnapshot, h]

theorem readUpdate_local {u : Update α} (h : u.forced = false) (v : CNetVarBase α) :
    v.readUpdate netControllerLocal u = v := by
  simp [readUpdate, h]

/-- A frame that is neither filtered nor stale is applied. -/
theorem readUpdate_apply {controller : UInt32} {u : Update α} {v : CNetVarBase α}
    (hc : controller ≠ netControllerLocal ∨ u.forced = true)
    (hs : v.checkSequence u.sequence = true) :
    v.readUpdate controller u = (v.setSequence u.sequence).setRaw u.data := by
  rw [readUpdate, if_neg (by rintro ⟨h₁, h₂⟩; simp_all), if_pos hs]

theorem readUpdate_config (controller : UInt32) (u : Update α) (v : CNetVarBase α) :
    (v.readUpdate controller u).locked = v.locked ∧
      (v.readUpdate controller u).sequenceCheck = v.sequenceCheck := by
  unfold readUpdate setRaw setSequence
  split_ifs <;> simp_all

end CNetVarBase

/-! ## Variables as an object lists them -/

/-- A C string. -/
abbrev CStr := { s : Bytes // (0 : UInt8) ∉ s }

def CStr.hp : CStr := ⟨[104, 112], by decide⟩

def CStr.x : CStr := ⟨[120], by decide⟩

/-- A variable of any type whose size passes the `static_assert`. -/
structure NetVar where
  name : CStr
  reliable : Bool
  size : ℕ
  size_lt : size < maxEntvarData
  base : CNetVarBase (Blob size)

namespace NetVar

theorem byte_lt : 1 < maxEntvarData := by decide

def frame (netID : UInt32) (v : NetVar) (u : Update (Blob v.size)) : Frame where
  frameType := kFrameData
  netID := netID
  controller := netControllerNone
  sequence := u.sequence
  forced := u.forced
  name := v.name.1
  data := u.data.toList

theorem frame_fits (netID : UInt32) {v : NetVar} (h : v.name.1.length < maxEntvarName)
    (u : Update (Blob v.size)) : (v.frame netID u).Fits where
  name_nul := v.name.2
  name_lt := h
  data_le := by simpa [frame] using v.size_lt.le

/-- The update a received frame holds for this variable: `sizeof(VarType)` bytes of the data. -/
def received (f : Frame) (v : NetVar) : Update (Blob v.size) :=
  ⟨Blob.ofMem v.size (Mem.ofList f.data Mem.zero), f.sequence, f.forced⟩

def readUpdate (controller : UInt32) (f : Frame) (v : NetVar) : NetVar :=
  { v with base := v.base.readUpdate controller (v.received f) }

/-- **A frame carries its update over the wire.** -/
theorem received_extended (netID : UInt32) (v : NetVar) (u : Update (Blob v.size)) :
    v.received (v.frame netID u).extended = u := by
  simp only [received, Frame.extended, frame]
  rw [Blob.ofMem_ofList]

end NetVar

end Nettik
