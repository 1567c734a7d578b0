import Nettik.World.System

/-!
# Authorisation of client snapshots

* `others p`: a server without the variables of the objects of `p`;
* **`handleClientEntSnapshot_others`**: a snapshot from `p` leaves `others p` as it was, whatever
  its bytes and wherever an exception stops it.
-/

namespace Nettik

open ByteMem Loops

variable (p : Peer)

/-! ## What a peer does not own -/

def NetObject.others (o : NetObject) : NetObject :=
  if o.peer = some p then { o with vars := [] } else o

def CEntities.others (m : CEntities) : CEntities :=
  { m with objects := m.objects.map (NetObject.others p) }

def VirtualInstance.others (i : VirtualInstance) : VirtualInstance :=
  { i with managers := i.managers.map (CEntities.others p) }

/-- The whole server but for the variables of the objects whose peer is `p`: every other variable,
and every object, list, manager and instance. -/
def NetSystem.others (s : NetSystem) : NetSystem :=
  { s with instances := s.instances.map (VirtualInstance.others p) }

/-! ## Updates of the found object -/

variable {p} {id : UInt32} {f : NetObject → NetObject}

theorem CEntities.others_modifyObject {m : CEntities}
    (h : ∀ o, m.getByNetID id = some o → (f o).others p = o.others p) :
    (m.modifyObject id f).others p = m.others p := by
  unfold modifyObject others
  exact congrArg (fun l => { m with objects := l }) (map_modifyFirst h)

theorem VirtualInstance.others_modifyObject {i : VirtualInstance}
    (h : ∀ o, i.findObject id = some o → (f o).others p = o.others p) :
    (i.modifyObject id f).others p = i.others p := by
  have key : (modifyFirst (fun m => (m.getByNetID id).isSome) (CEntities.modifyObject id f)
      i.managers).map (CEntities.others p) = i.managers.map (CEntities.others p) :=
    map_modifyFirst fun m hm => CEntities.others_modifyObject fun o ho =>
      h o ((findSome?_of_find? hm).trans ho)
  exact congrArg (fun l => { i with managers := l }) key

namespace NetSystem

variable {s : NetSystem}

theorem others_modifyObject (h : ∀ o, s.findObject id = some o → (f o).others p = o.others p) :
    (s.modifyObject id f).others p = s.others p := by
  have key : (modifyFirst (fun i => (i.findObject id).isSome) (VirtualInstance.modifyObject id f)
      s.instances).map (VirtualInstance.others p) = s.instances.map (VirtualInstance.others p) :=
    map_modifyFirst fun i hi => VirtualInstance.others_modifyObject fun o ho =>
      h o ((findSome?_of_find? hi).trans ho)
  exact congrArg (fun l => { s with instances := l }) key

/-! ## Frames and packets -/

/-- A frame that passes the owner test names an object of `p`. -/
theorem others_readEntityUpdate (frame : Frame) (s : NetSystem) :
    (s.readEntityUpdate frame (some p)).others p = s.others p := by
  unfold readEntityUpdate
  cases hfind : s.findObject frame.netID with
  | none => rfl
  | some target =>
    by_cases hp : target.peer = some p
    · simp only [Option.isSome_some, Bool.true_and, bne_iff_ne, ne_eq, hp, not_true_eq_false,
        if_false]
      refine others_modifyObject fun o ho => ?_
      obtain rfl : target = o := Option.some.inj (hfind.symm.trans ho)
      rw [NetObject.others, NetObject.others, if_pos hp, if_pos (by exact hp)]
      rfl
    · simp [hp]

/-- **A client's snapshot touches nothing but variables of its own objects.** -/
theorem handleClientEntSnapshot_others (s : NetSystem) (p : Peer) (data : Mem) (dataLen : ℕ) :
    (s.handleClientEntSnapshot data dataLen (some p)).2.others p = s.others p := by
  refine handleSnapshot_inv (I := fun s' : NetSystem => s'.others p = s.others p) ?_ data dataLen rfl
  intro frame s' hs'
  rw [actClient]
  split_ifs
  · exact (others_readEntityUpdate frame s').trans hs'
  · exact hs'

end NetSystem

end Nettik
