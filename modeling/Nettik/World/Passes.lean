import Mathlib.Data.List.Perm.Basic
import Nettik.World.Tick

/-!
# What a pass announces

A snapshot clears the changed flags before it is known whether its packet is well formed.

* `due`: the variables a snapshot has to announce, `Announces` the law of one snapshot of an instance;
  **`announces_iff`**: it holds exactly while a 16-bit number counts those variables;
* `invalidateVars`: `InvalidateVars` of an object, `Resends` the law of the two passes that follow;
  **`resends_iff`**: it holds exactly when every variable was changed anyway.
-/

namespace Nettik

open ByteMem Loops

/-! ## One snapshot of an instance -/

/-- The update a snapshot writes for a variable. -/
def NetVar.current (bForced : Bool) (v : NetVar) : Update (Blob v.size) :=
  ⟨v.base.data, v.base.sequenceID + 1, v.base.changeForced || bForced⟩

/-- Of the reliability of the snapshot, and changed unless the snapshot is forced. -/
def NetVar.isDue (r bForced : Bool) (v : NetVar) : Bool :=
  v.reliable == r && (bForced || v.base.changed)

def NetVar.cleared (v : NetVar) : NetVar :=
  { v with base :=
    { v.base with sequenceID := v.base.sequenceID + 1, changed := false, changeForced := false } }

namespace VirtualInstance

/-- The variables a snapshot has to announce, each with the net id of its object. -/
def due (r bForced : Bool) (i : VirtualInstance) : List (UInt32 × NetVar) :=
  i.managers.flatMap fun m => (m.objects.filter NetObject.isNetworkLocal).flatMap fun o =>
    (o.vars.filter (NetVar.isDue r bForced)).map fun v => (o.netID, v)

/-- Update every variable. -/
def mapVars (f : NetObject → NetVar → NetVar) (i : VirtualInstance) : VirtualInstance :=
  { i with managers := i.managers.map fun m =>
    { m with objects := m.objects.map fun o => { o with vars := o.vars.map (f o) } } }

/-- The entries of the variables that are due, before they are padded. -/
def dueEntries (r bForced : Bool) (i : VirtualInstance) : List Bytes :=
  (i.due r bForced).map fun d => (d.2.frame d.1 (d.2.current bForced)).build.write

/-- **The law of a snapshot on a fresh stream.** One entry for each variable that is due, the flags of
those variables cleared and nothing else changed, and a header with the number of the entries and the
length of the longest, so that the packet passes the receiver's size test. -/
structure Announces (r bForced : Bool) (i : VirtualInstance) : Prop where
  entries : ∃ padding, (i.doSnapshot true r bForced {}).2.frames =
    (i.dueEntries r bForced).map (SnapshotHeader.pad padding)
  flags : (i.doSnapshot true r bForced {}).1 =
    i.mapVars fun o v => if o.isNetworkLocal && v.isDue r bForced then v.cleared else v
  header : i.due r bForced ≠ [] → ∃ header : SnapshotHeader,
    (i.doSnapshot true r bForced {}).2.header = header.write ∧
      header.count.toNat = (i.doSnapshot true r bForced {}).2.frames.length ∧
      header.maxMessageLength.toNat = SnapshotStream.longest (i.dueEntries r bForced)
  passes : i.due r bForced ≠ [] → ∀ past, accepted (i.doSnapshot true r bForced {}).2.result.1 past

end VirtualInstance

/-! ### The walk in terms of what is due -/

section

variable {r bForced : Bool}

theorem NetVar.isDue_iff {v : NetVar} :
    v.isDue r bForced = true ↔ v.reliable = r ∧ (bForced = true ∨ v.base.changed = true) := by
  simp [isDue]

theorem NetVar.emitted_eq_due (netID : UInt32) (v : NetVar) : v.emitted r bForced netID =
    if v.isDue r bForced then [v.frame netID (v.current bForced)] else [] := by
  rw [emitted_eq]
  simp only [isDue_iff]
  rfl

theorem NetVar.snapped_eq_due (v : NetVar) :
    v.snapped r bForced = if v.isDue r bForced then v.cleared else v := by
  rw [snapped]
  simp only [isDue_iff]
  by_cases hr : v.reliable = r
  · by_cases h : bForced = true ∨ v.base.changed = true
    · rw [if_pos hr, if_pos ⟨hr, h⟩, CNetVarBase.takeVariableSnapshot_some h]
      rfl
    · have hnone : bForced = false ∧ v.base.changed = false := by simpa using h
      rw [if_pos hr, if_neg fun e => h e.2, CNetVarBase.takeVariableSnapshot_none hnone]
  · rw [if_neg hr, if_neg fun e => hr e.1]

theorem NetObject.emitted_eq_due {o : NetObject} (ho : o.isNetworkLocal = true) : o.emitted r bForced =
    (o.vars.filter (NetVar.isDue r bForced)).map fun v => v.frame o.netID (v.current bForced) := by
  rw [emitted, if_pos ho]
  induction o.vars with
  | nil => rfl
  | cons v vs ih =>
    rw [List.flatMap_cons, ih, NetVar.emitted_eq_due, List.filter_cons]
    split_ifs <;> rfl

theorem NetObject.snapped_eq_due (o : NetObject) : o.snapped r bForced =
    { o with
      vars := o.vars.map fun v => if o.isNetworkLocal && v.isDue r bForced then v.cleared else v } := by
  rw [snapped]
  by_cases ho : o.isNetworkLocal = true
  · simp only [ho, if_true, Bool.true_and]
    exact congrArg (fun vars => { o with vars := vars })
      (List.map_congr_left fun v _ => NetVar.snapped_eq_due v)
  · simp [ho]

end

namespace VirtualInstance

variable {r bForced : Bool} {i : VirtualInstance}

theorem emitted_eq_due (i : VirtualInstance) : i.emitted r bForced =
    (i.due r bForced).map fun d => d.2.frame d.1 (d.2.current bForced) := by
  rw [emitted, due, List.map_flatMap]
  refine List.flatMap_congr fun m _ => ?_
  rw [CEntities.emitted, List.map_flatMap]
  induction m.objects with
  | nil => rfl
  | cons o os ih =>
    rw [List.flatMap_cons, ih, List.filter_cons]
    by_cases ho : o.isNetworkLocal = true
    · rw [if_pos ho, List.flatMap_cons, NetObject.emitted_eq_due ho, List.map_map]
      rfl
    · rw [if_neg ho, NetObject.emitted, if_neg ho, List.nil_append]

theorem snapped_eq_due (i : VirtualInstance) : i.snapped r bForced =
    i.mapVars fun o v => if o.isNetworkLocal && v.isDue r bForced then v.cleared else v := by
  have hman : ∀ m : CEntities, m.snapped r bForced =
      { m with
        objects := m.objects.map fun o =>
          { o with
            vars := o.vars.map fun v =>
              if o.isNetworkLocal && v.isDue r bForced then v.cleared else v } } := by
    intro m
    exact congrArg (fun objects => { m with objects := objects })
      (List.map_congr_left fun o _ => NetObject.snapped_eq_due o)
  exact congrArg (fun managers => { i with managers := managers })
    (List.map_congr_left fun m _ => hman m)

theorem emitted_eq_nil_iff : i.emitted r bForced = [] ↔ i.due r bForced = [] := by
  rw [emitted_eq_due, List.map_eq_nil_iff]

theorem length_emitted (i : VirtualInstance) :
    (i.emitted r bForced).length = (i.due r bForced).length := by
  rw [emitted_eq_due, List.length_map]

theorem length_dueEntries (i : VirtualInstance) :
    (i.dueEntries r bForced).length = (i.due r bForced).length := List.length_map ..

theorem frames_written (i : VirtualInstance) :
    (written (i.emitted r bForced)).frames = i.dueEntries r bForced := by
  rw [written_build, emitted_eq_due, dueEntries, List.map_map]
  rfl

theorem length_dueEntry_lt {e : Bytes} (he : e ∈ i.dueEntries r bForced) : e.length < 2 ^ 16 := by
  obtain ⟨d, -, rfl⟩ := List.mem_map.mp he
  have hle := length_write_build (d.2.frame d.1 (d.2.current bForced))
  have hdata : (d.2.frame d.1 (d.2.current bForced)).data.length = d.2.size := by simp [NetVar.frame]
  have hsize := d.2.size_lt
  unfold maxEntvarData at hle hsize
  omega

theorem longest_dueEntries_lt (r bForced : Bool) (i : VirtualInstance) :
    SnapshotStream.longest (i.dueEntries r bForced) < 2 ^ 16 := by
  have hle : SnapshotStream.longest (i.dueEntries r bForced) ≤ 2 ^ 16 - 1 :=
    SnapshotStream.longest_le fun e he => Nat.le_sub_one_of_lt (length_dueEntry_lt he)
  omega

end VirtualInstance

/-- **A header with the right count and maximum passes the size test.** -/
theorem accepted_generate {entries : List Bytes} (hcount : entries.length < 65536) {n : ℕ}
    (hle : ∀ e ∈ entries, e.length ≤ n) (hn : n < 2 ^ 16) (sequence : UInt32) (past : Mem) :
    accepted (SnapshotHeader.generate { frames := entries } sequence (UInt16.ofNat entries.length)
      (UInt32.ofNat n)).result.1 past := by
  have hmax : (UInt32.ofNat n).toNat = n := UInt32.toNat_ofNat_of_lt' (hn.trans (by decide))
  have hupdates : (UInt16.ofNat entries.length).toNat = entries.length :=
    UInt16.toNat_ofNat_of_lt' hcount
  have hlen : (entries.map (SnapshotHeader.pad n)).flatten.length = entries.length * n := by
    rw [Mem.length_flatten_of_forall, List.length_map]
    intro e he
    obtain ⟨entry, hentry, rfl⟩ := List.mem_map.mp he
    exact SnapshotHeader.length_pad (hle entry hentry)
  have hbound : entries.length * n < 2 ^ 32 :=
    calc entries.length * n
        ≤ 65535 * 65535 := Nat.mul_le_mul (by omega) (by omega)
      _ < 2 ^ 32 := by decide
  rw [SnapshotHeader.result_generate rfl, List.nil_append, hmax]
  refine ⟨_, SnapshotHeader.read_write _ _ _ (by simp), ?_⟩
  rw [sizeTest, List.length_append, SnapshotHeader.length_write, Nat.add_sub_cancel_left, hlen]
  dsimp only
  rw [hmax, hupdates, Nat.mod_eq_of_lt hbound]

namespace VirtualInstance

variable {r bForced : Bool} {i : VirtualInstance}

theorem Announces.length_lt (h : i.Announces r bForced) : (i.due r bForced).length < 65536 := by
  by_cases hne : i.due r bForced = []
  · simp [hne]
  · obtain ⟨header, -, hcount, -⟩ := h.header hne
    obtain ⟨padding, hframes⟩ := h.entries
    rw [hframes, List.length_map, dueEntries, List.length_map] at hcount
    have hlt := header.count.toNat_lt
    omega

theorem announces_of_length_lt (hlen : (i.due r bForced).length < 65536) : i.Announces r bForced := by
  have hflags := (fst_doSnapshot r bForced i {}).trans (snapped_eq_due i)
  by_cases hne : i.due r bForced = []
  · have hquiet := doSnapshot_quiet (emitted_eq_nil_iff.mpr hne)
    refine ⟨⟨0, ?_⟩, hflags, fun h => absurd hne h, fun h => absurd hne h⟩
    rw [hquiet, dueEntries, hne]
    rfl
  · have hlongest := longest_dueEntries_lt r bForced i
    have hle : ∀ e ∈ i.dueEntries r bForced,
        e.length ≤ SnapshotStream.longest (i.dueEntries r bForced) :=
      fun e he => SnapshotStream.le_longest he
    have hentries : (i.dueEntries r bForced).length < 65536 := by
      rwa [length_dueEntries]
    have hstream : written (i.emitted r bForced) = { frames := i.dueEntries r bForced } := by
      rw [written_build, ← frames_written, written_build]
    have hfresh := doSnapshot_fresh (fun h => hne (emitted_eq_nil_iff.mp h))
      (by rw [length_emitted]; exact hlen)
    rw [hstream, length_emitted, ← length_dueEntries] at hfresh
    generalize hn : SnapshotStream.longest (i.dueEntries r bForced) = n at hlongest hle hfresh
    have hmax : (UInt32.ofNat n).toNat = n := UInt32.toNat_ofNat_of_lt' (hlongest.trans (by decide))
    refine ⟨⟨n, ?_⟩, hflags, fun _ => ⟨⟨objectFrameCode, UInt16.ofNat (i.dueEntries r bForced).length,
      i.sequenceID, UInt32.ofNat n⟩, ?_, ?_, hmax.trans hn.symm⟩, fun _ past => ?_⟩
    · rw [hfresh, SnapshotHeader.frames_generate, hmax]
    · rw [hfresh, SnapshotHeader.header_generate, List.nil_append]
    · rw [hfresh, SnapshotHeader.frames_generate, List.length_map]
      exact UInt16.toNat_ofNat_of_lt' hentries
    · rw [hfresh]
      exact accepted_generate hentries hle hlongest _ past

/-- **A snapshot announces what it wrote exactly while a 16-bit number counts what is due.** -/
theorem announces_iff (r bForced : Bool) (i : VirtualInstance) :
    i.Announces r bForced ↔ (i.due r bForced).length < 65536 :=
  ⟨Announces.length_lt, announces_of_length_lt⟩

/-- Objects with one changed variable each. -/
def crowdedInstance (n : ℕ) : VirtualInstance where
  name := [119]
  managers := [{
    name := [112], name_le := CEntities.p_le, cls := .bare
    objects := (List.range n).map fun k => {
      ref := k, netID := UInt32.ofNat k, controller := netControllerLocal
      vars := [{ name := CStr.hp, reliable := true, size := 1, size_lt := NetVar.byte_lt,
                 base := { data := Blob.byte 7 } }] } }]

theorem length_due_crowdedInstance (n : ℕ) : ((crowdedInstance n).due true false).length = n := by
  have hlocal : (List.range n).filter (NetObject.isNetworkLocal ∘ fun k : ℕ => {
      ref := k, netID := UInt32.ofNat k, controller := netControllerLocal
      vars := [{ name := CStr.hp, reliable := true, size := 1, size_lt := NetVar.byte_lt,
                 base := { data := Blob.byte 7 } }] }) = List.range n :=
    List.filter_eq_self.mpr fun k _ => rfl
  simp only [due, crowdedInstance, List.flatMap_cons, List.flatMap_nil, List.append_nil, List.filter_map,
    hlocal, List.flatMap_map, List.length_flatMap]
  simp [NetVar.isDue]

/-- The count of `65536` variables is `0`, and no header is written. -/
theorem not_announces_crowded : ¬ ∀ (r bForced : Bool) (i : VirtualInstance), i.Announces r bForced := by
  intro h
  have hlt := (h true false (crowdedInstance 65536)).length_lt
  rw [length_due_crowdedInstance] at hlt
  exact Nat.lt_irrefl _ hlt

end VirtualInstance

/-! ## `InvalidateVars` -/

/-- `InvalidateChanges`. -/
def NetVar.invalidateChanges (v : NetVar) : NetVar :=
  { v with base := { v.base with changes := v.base.changes + 1 } }

namespace NetObject

/-- `InvalidateVars` counts a change of every variable and sends the contents of the lists to the
players of the manager. -/
def invalidateVars (object : AssociatedObject) (players : List Peer) (o : NetObject) :
    NetObject × List (Peer × MapAdd) :=
  ({ o with vars := o.vars.map NetVar.invalidateChanges },
    o.lists.zipIdx.flatMap fun l => players.flatMap fun p =>
      (l.1.sendContents object (UInt32.ofNat l.2)).map fun msg => (p, msg))

/-- What a frame says of its variable. -/
def carries (f : Frame) : UInt32 × Bytes × Bytes := (f.netID, f.name, f.data)

/-- **The law of `InvalidateVars`.** The reliable and the unreliable pass that follow, neither of them
forced, write one frame for each variable, with its current data. -/
def Resends (o : NetObject) : Prop :=
  ∀ (object : AssociatedObject) (players : List Peer) (acc acc' : SnapshotAcc),
    ∃ reliable unreliable : List Frame,
      (((o.invalidateVars object players).1.takeObjectSnapshot true false acc).2 = acc.add reliable ∧
        ((((o.invalidateVars object players).1.takeObjectSnapshot true false acc).1).takeObjectSnapshot
          false false acc').2 = acc'.add unreliable) ∧
      ((reliable ++ unreliable).map carries).Perm
        (o.vars.map fun v => (o.netID, v.name.1, v.base.data.toList))

variable {o : NetObject}

/-- The two passes write a frame for every changed variable. -/
theorem passes_perm (ho : o.isNetworkLocal = true) :
    ((o.emitted true false ++ o.emitted false false).map carries).Perm
      ((o.vars.filter fun v => v.base.changed).map fun v => (o.netID, v.name.1, v.base.data.toList)) := by
  have hvar : ∀ v : NetVar, v.emitted true false o.netID ++ v.emitted false false o.netID =
      if v.base.changed then [v.frame o.netID (v.current false)] else [] := by
    intro v
    rw [NetVar.emitted_eq_due, NetVar.emitted_eq_due]
    cases hr : v.reliable <;> simp [NetVar.isDue, hr]
  have hperm := List.flatMap_append_perm o.vars (NetVar.emitted true false o.netID)
    (NetVar.emitted false false o.netID)
  rw [emitted, emitted, if_pos ho, if_pos ho]
  refine (hperm.map carries).trans (List.Perm.of_eq ?_)
  simp only [hvar]
  induction o.vars with
  | nil => rfl
  | cons v vs ih =>
    rw [List.flatMap_cons, List.map_append, ih, List.filter_cons]
    split_ifs <;> rfl

/-- The two passes after `InvalidateVars`. -/
theorem passes_eq (ho : o.isNetworkLocal = true) (object : AssociatedObject) (players : List Peer)
    (acc acc' : SnapshotAcc) :
    ((o.invalidateVars object players).1.takeObjectSnapshot true false acc).2 =
        acc.add ((o.invalidateVars object players).1.emitted true false) ∧
      ((((o.invalidateVars object players).1.takeObjectSnapshot true false acc).1).takeObjectSnapshot
        false false acc').2 = acc'.add ((o.invalidateVars object players).1.emitted false false) := by
  have ho' : (o.invalidateVars object players).1.isNetworkLocal = true := ho
  have hsnapped : ((o.invalidateVars object players).1.snapped true false).isNetworkLocal = true := by
    rw [snapped, if_pos ho']
    exact ho
  rw [takeObjectSnapshot_eq true false ho']
  refine ⟨rfl, ?_⟩
  dsimp only
  rw [takeObjectSnapshot_eq false false hsnapped, emitted_snapped (by decide)]

/-- Counting a change does not make a variable changed. -/
theorem passes_invalidated (ho : o.isNetworkLocal = true) (object : AssociatedObject)
    (players : List Peer) :
    (((o.invalidateVars object players).1.emitted true false ++
        (o.invalidateVars object players).1.emitted false false).map carries).Perm
      ((o.vars.filter fun v => v.base.changed).map fun v => (o.netID, v.name.1, v.base.data.toList)) := by
  have ho' : (o.invalidateVars object players).1.isNetworkLocal = true := ho
  refine (passes_perm ho').trans (List.Perm.of_eq ?_)
  show ((o.vars.map NetVar.invalidateChanges).filter fun v => v.base.changed).map _ = _
  rw [List.filter_map, List.map_map]
  rfl

theorem Resends.changed (h : o.Resends) (ho : o.isNetworkLocal = true) :
    ∀ v ∈ o.vars, v.base.changed = true := by
  obtain ⟨reliable, unreliable, ⟨hr, hu⟩, hperm⟩ := h ⟨[], [], 0⟩ [] ⟨0, 0, {}⟩ ⟨0, 0, {}⟩
  obtain ⟨hr', hu'⟩ := passes_eq ho ⟨[], [], 0⟩ [] ⟨0, 0, {}⟩ ⟨0, 0, {}⟩
  have hlen : ∀ {fs gs : List Frame} {acc : SnapshotAcc}, acc.add fs = acc.add gs →
      fs.length = gs.length := by
    intro fs gs acc hadd
    have hframes := congrArg (fun acc => acc.stream.frames.length) hadd
    simpa [SnapshotAcc.add] using hframes
  have hreliable := hlen (hr.symm.trans hr')
  have hunreliable := hlen (hu.symm.trans hu')
  have hcount := (passes_invalidated ho ⟨[], [], 0⟩ []).length_eq
  have hall := hperm.length_eq
  simp only [List.length_map, List.length_append] at hcount hall
  refine List.length_filter_eq_length_iff.mp ?_
  omega

theorem resends_of_changed (ho : o.isNetworkLocal = true) (h : ∀ v ∈ o.vars, v.base.changed = true) :
    o.Resends := by
  intro object players acc acc'
  refine ⟨_, _, passes_eq ho object players acc acc', ?_⟩
  have hperm := passes_invalidated ho object players
  rwa [List.filter_eq_self.mpr h] at hperm

/-- **`InvalidateVars` resends every variable exactly when all of them were changed already.** -/
theorem resends_iff (ho : o.isNetworkLocal = true) :
    o.Resends ↔ ∀ v ∈ o.vars, v.base.changed = true :=
  ⟨fun h => h.changed ho, resends_of_changed ho⟩

/-- An object of the server with a health that was sent and a position that was not. -/
def halfSent : NetObject where
  ref := 0
  netID := 0
  controller := netControllerLocal
  vars := [
    { name := CStr.hp, reliable := true, size := 1, size_lt := NetVar.byte_lt,
      base := { data := Blob.byte 7, changed := false } },
    { name := CStr.x, reliable := false, size := 1, size_lt := NetVar.byte_lt,
      base := { data := Blob.byte 9 } }]

theorem resends_iff_halfSent : halfSent.isNetworkLocal = true ∧
    (halfSent.Resends ↔ ∀ v ∈ halfSent.vars, v.base.changed = true) :=
  ⟨by decide, resends_iff (by decide)⟩

/-- The health is not sent again. -/
theorem not_resends_halfSent : ¬ ∀ o : NetObject, o.isNetworkLocal = true → o.Resends := by
  intro h
  have hchanged := (h halfSent (by decide)).changed (by decide)
  simp [halfSent] at hchanged

end NetObject

end Nettik
