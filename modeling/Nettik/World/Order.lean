import Mathlib.Data.List.Perm.Basic
import Nettik.World.System

/-!
# The order of data frames

A snapshot writes its frames in the order of an unordered map, and promises none.

* `readUpdate_comm`, `modifyObject_comm`: updates of different variables commute, in one object or in
  two; `findObject_modifyObject_ite`: what a search finds after an update;
* **`readEntityUpdate_perm`**: what a client makes of frames for different variables does not depend on
  their order.
-/

namespace Nettik

open ByteMem Loops

/-! ## Updates that commute -/

/-- Frames for two names. -/
theorem NetObject.readUpdate_comm {f g : Frame} (hname : f.name ≠ g.name) (o : NetObject) :
    (o.readUpdate f).readUpdate g = (o.readUpdate g).readUpdate f := by
  refine congrArg (fun vars => { o with vars := vars }) ?_
  refine modifyFirst_comm (fun _ => by rfl) (fun _ => by rfl) ?_ o.vars
  intro v hg hf
  rw [beq_iff_eq] at hf hg
  exact absurd (hf.symm.trans hg) hname

section

variable {id id' : UInt32} {F G : NetObject → NetObject}

theorem CEntities.isSome_getByNetID_modifyObject (hF : ∀ o, (F o).netID = o.netID) (m : CEntities) :
    ((m.modifyObject id F).getByNetID id').isSome = (m.getByNetID id').isSome := by
  rw [getByNetID, getByNetID, List.isSome_find?, List.isSome_find?]
  exact any_modifyFirst (fun o => by rw [hF]) m.objects

theorem CEntities.modifyObject_comm (hF : ∀ o, (F o).netID = o.netID) (hG : ∀ o, (G o).netID = o.netID)
    (hFG : id = id' → ∀ o, F (G o) = G (F o)) (m : CEntities) :
    (m.modifyObject id' G).modifyObject id F = (m.modifyObject id F).modifyObject id' G := by
  refine congrArg (fun objects => { m with objects := objects }) ?_
  refine modifyFirst_comm (fun o => by rw [hG]) (fun o => by rw [hF]) ?_ m.objects
  intro o h h'
  rw [beq_iff_eq] at h h'
  exact hFG (h.symm.trans h') o

theorem VirtualInstance.isSome_findObject_modifyObject (hF : ∀ o, (F o).netID = o.netID)
    (i : VirtualInstance) :
    ((i.modifyObject id F).findObject id').isSome = (i.findObject id').isSome := by
  rw [findObject, findObject, List.isSome_findSome?, List.isSome_findSome?]
  exact any_modifyFirst (CEntities.isSome_getByNetID_modifyObject hF) i.managers

theorem VirtualInstance.modifyObject_comm (hF : ∀ o, (F o).netID = o.netID)
    (hG : ∀ o, (G o).netID = o.netID) (hFG : id = id' → ∀ o, F (G o) = G (F o)) (i : VirtualInstance) :
    (i.modifyObject id' G).modifyObject id F = (i.modifyObject id F).modifyObject id' G := by
  refine congrArg (fun managers => { i with managers := managers }) ?_
  exact modifyFirst_comm (CEntities.isSome_getByNetID_modifyObject hG)
    (CEntities.isSome_getByNetID_modifyObject hF)
    (fun m _ _ => CEntities.modifyObject_comm hF hG hFG m) i.managers

theorem NetSystem.modifyObject_comm (hF : ∀ o, (F o).netID = o.netID) (hG : ∀ o, (G o).netID = o.netID)
    (hFG : id = id' → ∀ o, F (G o) = G (F o)) (s : NetSystem) :
    (s.modifyObject id' G).modifyObject id F = (s.modifyObject id F).modifyObject id' G := by
  refine congrArg (fun instances => { s with instances := instances }) ?_
  exact modifyFirst_comm (VirtualInstance.isSome_findObject_modifyObject hG)
    (VirtualInstance.isSome_findObject_modifyObject hF)
    (fun i _ _ => VirtualInstance.modifyObject_comm hF hG hFG i) s.instances

/-- What a search finds after an update: the object of the id is the updated one. -/
theorem CEntities.getByNetID_modifyObject_ite (hF : ∀ o, (F o).netID = o.netID) (m : CEntities) :
    (m.modifyObject id F).getByNetID id' =
      (m.getByNetID id').map fun o => if id = id' then F o else o := by
  rw [getByNetID, getByNetID, modifyObject]
  by_cases hid : id = id'
  · subst hid
    simp only [if_true]
    exact find?_modifyFirst_self (fun o => by rw [hF]) m.objects
  · simp only [if_neg hid, Option.map_id']
    refine find?_modifyFirst_of_disjoint (fun o => by rw [hF]) (fun o ho => ?_) m.objects
    rw [beq_eq_false_iff_ne, beq_iff_eq.mp ho]
    exact hid

theorem VirtualInstance.findObject_modifyObject_ite (hF : ∀ o, (F o).netID = o.netID)
    (i : VirtualInstance) : (i.modifyObject id F).findObject id' =
      (i.findObject id').map fun o => if id = id' then F o else o := by
  have h : ∀ m : CEntities, (m.modifyObject id F).getByNetID id' =
      (m.getByNetID id').map fun o => if id = id' then F o else o :=
    CEntities.getByNetID_modifyObject_ite hF
  rw [findObject, findObject, modifyObject]
  by_cases hid : id = id'
  · subst hid
    exact findSome?_modifyFirst_self h i.managers
  · simp only [if_neg hid, Option.map_id'] at h ⊢
    exact findSome?_modifyFirst_of_same h i.managers

theorem NetSystem.findObject_modifyObject_ite (hF : ∀ o, (F o).netID = o.netID) (s : NetSystem) :
    (s.modifyObject id F).findObject id' =
      (s.findObject id').map fun o => if id = id' then F o else o := by
  have h : ∀ i : VirtualInstance, (i.modifyObject id F).findObject id' =
      (i.findObject id').map fun o => if id = id' then F o else o :=
    VirtualInstance.findObject_modifyObject_ite hF
  rw [findObject, findObject, modifyObject]
  by_cases hid : id = id'
  · subst hid
    exact findSome?_modifyFirst_self h s.instances
  · simp only [if_neg hid, Option.map_id'] at h ⊢
    exact findSome?_modifyFirst_of_same h s.instances

end

/-! ## Data frames -/

/-- What a data frame addresses: the net id of an object and the name of a variable. -/
def Frame.variable (f : Frame) : UInt32 × Bytes := (f.netID, f.name)

namespace NetSystem

/-- An update of an object that nobody knows changes nothing. -/
theorem modifyObject_of_none {id : UInt32} {f : NetObject → NetObject} {s : NetSystem}
    (h : s.findObject id = none) : s.modifyObject id f = s := by
  have hnone : ∀ i ∈ s.instances, i.findObject id = none := List.findSome?_eq_none_iff.mp h
  have hself := modifyFirst_eq_self (p := fun i => (i.findObject id).isSome)
    (f := VirtualInstance.modifyObject id f) (l := s.instances) fun i hi => by
      have hsome := List.find?_some hi
      rw [hnone i (List.mem_of_find?_eq_some hi)] at hsome
      exact absurd hsome (by simp)
  exact congrArg (fun instances => { s with instances := instances }) hself

/-- Without an owner a data frame updates the object of its id, if there is one. -/
theorem readEntityUpdate_none (frame : Frame) (s : NetSystem) :
    s.readEntityUpdate frame none = s.modifyObject frame.netID (NetObject.readUpdate frame) := by
  rw [readEntityUpdate]
  cases h : s.findObject frame.netID with
  | none => exact (modifyObject_of_none h).symm
  | some target => rfl

/-- **Frames for different variables commute.** -/
theorem readEntityUpdate_comm {f g : Frame} (h : f.variable ≠ g.variable) (s : NetSystem) :
    (s.readEntityUpdate f none).readEntityUpdate g none =
      (s.readEntityUpdate g none).readEntityUpdate f none := by
  simp only [readEntityUpdate_none]
  refine modifyObject_comm (fun _ => by rfl) (fun _ => by rfl) (fun hid o => ?_) s
  exact NetObject.readUpdate_comm (fun hname => h (Prod.ext hid.symm hname)) o

/-- **The order of data frames does not matter.** For every client, frames of which no two name the
same variable of the same object leave it in one state, whatever their order. -/
theorem readEntityUpdate_perm {fs gs : List Frame} (hperm : fs.Perm gs)
    (hkeys : (fs.map Frame.variable).Nodup) (c : NetSystem) :
    fs.foldl (fun c f => c.readEntityUpdate f none) c =
      gs.foldl (fun c f => c.readEntityUpdate f none) c := by
  refine hperm.foldl_eq' (fun f hf g hg c => ?_) c
  by_cases hfg : f = g
  · rw [hfg]
  · exact readEntityUpdate_comm (fun h => hfg (List.inj_on_of_nodup_map hkeys hf hg h)) c

/-- A client with an object of two variables. -/
def pairClient : NetSystem where
  server := false
  instances := [{
    name := [119]
    managers := [{
      name := [112], name_le := CEntities.p_le, cls := .bare
      objects := [{
        ref := 0, netID := 7
        vars := [
          { name := CStr.hp, reliable := true, size := 1, size_lt := NetVar.byte_lt,
            base := { data := Blob.byte 1 } },
          { name := CStr.x, reliable := false, size := 1, size_lt := NetVar.byte_lt,
            base := { data := Blob.byte 2 } }] }] }] }]

/-- A value for each of the variables, and one for an object that is not there. -/
def pairFrames : List Frame :=
  [⟨kFrameData, 7, 0, 3, false, [104, 112], [5]⟩, ⟨kFrameData, 7, 0, 3, false, [120], [6]⟩,
    ⟨kFrameData, 8, 0, 3, false, [120], [9]⟩]

theorem readEntityUpdate_perm_reversed : pairFrames.Perm pairFrames.reverse ∧
    (pairFrames.map Frame.variable).Nodup ∧
    pairFrames.foldl (fun c f => c.readEntityUpdate f none) pairClient =
      pairFrames.reverse.foldl (fun c f => c.readEntityUpdate f none) pairClient := by
  have hperm : pairFrames.Perm pairFrames.reverse := pairFrames.reverse_perm.symm
  have hkeys : (pairFrames.map Frame.variable).Nodup := by decide
  exact ⟨hperm, hkeys, readEntityUpdate_perm hperm hkeys pairClient⟩

end NetSystem

end Nettik
