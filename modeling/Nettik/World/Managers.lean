import Mathlib.Data.List.Nodup
import Mathlib.Data.Set.List
import Nettik.Lib.Links
import Nettik.Snapshot.Frame

/-!
# The managers of an instance

`m_EntManagers` maps names to managers, `m_PendingDeletes` holds iterators into it that the next
`DoPostUpdate` deletes.

* `ManagerTable`: the two containers, and what was seen of them; `create`, `destroy`, `doPostUpdate`;
* `Kept`: the law of their lifecycle;
* **`kept_iff`**: the calls that keep it.
-/

namespace Nettik

open ByteMem Links

/-! ## The table -/

/-- An iterator: behind the last entry, at the entry of a manager, or invalidated by a rehash. -/
inductive MgrIterator where
  | pastEnd
  | entry (mgr : ℕ)
  | invalidated
  deriving DecidableEq, Repr

/-- A manager is its address; every `new` has its own. What follows `next` is not in the code: whether
it has done something undefined, the managers it has deleted, those `CreateManager` has returned, what
each of those names owes, and the names destroyed since the last `DoPostUpdate`. -/
structure ManagerTable where
  entries : List (Bytes × ℕ) := []
  pending : List MgrIterator := []
  next : ℕ := 0
  undefined : Bool := false
  deleted : List ℕ := []
  returned : List ℕ := []
  owed : List (Bytes × ℕ) := []
  destroyed : List Bytes := []
  deriving DecidableEq, Repr

/-- The calls of the application. An insertion may rehash. -/
inductive ManagerAct where
  | create (name : Bytes) (rehashes : Bool)
  | destroy (name : Bytes)
  | doPostUpdate
  deriving DecidableEq, Repr

namespace ManagerTable

/-- `m_EntManagers.find`. -/
def find (name : Bytes) (s : ManagerTable) : Option (Bytes × ℕ) := s.entries.find? (·.1 == name)

def getManager (name : Bytes) (s : ManagerTable) : Option ℕ := (s.find name).map Prod.snd

/-- `SetName` throws before the insertion; an insertion under a name that is there does nothing. -/
def create (name : Bytes) (rehashes : Bool) (s : ManagerTable) : Except String ℕ × ManagerTable :=
  let mgr := s.next
  let s := { s with next := s.next + 1 }
  if maxEntmgrName < name.length then (.error "Entity manager name length exceeds MAX_ENTMGR_NAME.", s)
  else
    let returning := { s with returned := s.returned ++ [mgr], owed := s.owed ++ [(name, mgr)] }
    if (s.find name).isSome then (.ok mgr, returning)
    else
      (.ok mgr, { returning with
        entries := s.entries ++ [(name, mgr)]
        pending := if rehashes then s.pending.map fun _ => .invalidated else s.pending })

/-- What `find` returns is stored as it is. -/
def destroy (name : Bytes) (s : ManagerTable) : ManagerTable :=
  let it := match s.find name with
    | some e => .entry e.2
    | none => .pastEnd
  { s with pending := s.pending ++ [it], destroyed := s.destroyed ++ [name] }

/-- The loop of `DoPostUpdate` over the pending deletions. -/
def deletePending : List MgrIterator → ManagerTable → ManagerTable
  | [], s => { s with pending := [] }
  | .entry mgr :: its, s =>
    if mgr ∈ s.entries.map Prod.snd then
      deletePending its { s with
        entries := s.entries.filter (·.2 != mgr), deleted := s.deleted ++ [mgr] }
    else { s with undefined := true }
  | _ :: _, s => { s with undefined := true }

/-- The names that were destroyed owe nothing any more. -/
def doPostUpdate (s : ManagerTable) : ManagerTable :=
  let s' := deletePending s.pending s
  { s' with owed := s'.owed.filter (·.1 ∉ s'.destroyed), destroyed := [] }

def step (s : ManagerTable) (a : ManagerAct) : ManagerTable :=
  if s.undefined then s
  else match a with
    | .create name rehashes => (s.create name rehashes).2
    | .destroy name => s.destroy name
    | .doPostUpdate => s.doPostUpdate

/-- **The law of the managers.** Every pending deletion is at a manager that is present, no manager has
two; a manager that was returned is present or deleted, and nothing is twice in that; a name that was
created finds its manager until it is destroyed and `DoPostUpdate` runs. -/
structure Kept (s : ManagerTable) : Prop where
  defined : s.undefined = false
  present : ∀ it ∈ s.pending, ∃ mgr ∈ s.entries.map Prod.snd, it = .entry mgr
  distinct : s.pending.Nodup
  once : (s.deleted ++ s.entries.map Prod.snd).Nodup
  accounted : ∀ mgr ∈ s.returned, mgr ∈ s.deleted ++ s.entries.map Prod.snd
  found : ∀ x ∈ s.owed, s.getManager x.1 = some x.2

/-- A name is created while it is free, and no insertion rehashes while a deletion is pending; a name is
destroyed while it is there, and once. -/
def Proper (s : ManagerTable) : ManagerAct → Prop
  | .create name rehashes => name.length ≤ maxEntmgrName →
    s.getManager name = none ∧ (rehashes = true → s.pending = [])
  | .destroy name => ∃ mgr, s.getManager name = some mgr ∧ .entry mgr ∉ s.pending
  | .doPostUpdate => True

/-- What the law needs to be kept. -/
structure Inv (s : ManagerTable) : Prop extends Kept s where
  names : (s.entries.map Prod.fst).Nodup
  fresh : ∀ mgr ∈ s.deleted ++ s.entries.map Prod.snd, mgr < s.next
  named : ∀ mgr, .entry mgr ∈ s.pending → ∃ name ∈ s.destroyed, (name, mgr) ∈ s.entries

variable {s : ManagerTable} {name : Bytes}

/-! ## Searches -/

theorem getManager_eq_some (h : (s.entries.map Prod.fst).Nodup) {mgr : ℕ} :
    s.getManager name = some mgr ↔ (name, mgr) ∈ s.entries := by
  rw [getManager, find, Option.map_eq_some_iff]
  constructor
  · rintro ⟨e, he, rfl⟩
    have hname : e.1 = name := by simpa using List.find?_some he
    exact hname ▸ List.mem_of_find?_eq_some he
  · intro hmem
    obtain ⟨e, he⟩ : ∃ e, s.entries.find? (·.1 == name) = some e := by
      rw [← Option.isSome_iff_exists, List.find?_isSome]
      exact ⟨_, hmem, by simp⟩
    have hname : e.1 = name := by simpa using List.find?_some he
    have heq : e = (name, mgr) :=
      List.inj_on_of_nodup_map h (List.mem_of_find?_eq_some he) hmem hname
    exact ⟨e, he, by rw [heq]⟩

theorem getManager_eq_none : s.getManager name = none ↔ name ∉ s.entries.map Prod.fst := by
  rw [getManager, find, Option.map_eq_none_iff, List.find?_eq_none, List.mem_map, not_exists]
  simp only [beq_iff_eq, not_and]

/-! ## The ends of `create` -/

variable {rehashes : Bool}

theorem create_long (h : maxEntmgrName < name.length) :
    (s.create name rehashes).2 = { s with next := s.next + 1 } := by
  simp only [create, if_pos h]

theorem create_taken (h : name.length ≤ maxEntmgrName) {mgr : ℕ} (ht : s.getManager name = some mgr) :
    (s.create name rehashes).2 = { s with
      next := s.next + 1
      returned := s.returned ++ [s.next]
      owed := s.owed ++ [(name, s.next)] } := by
  have hfind : (s.entries.find? (·.1 == name)).isSome = true := by
    rw [← Option.isSome_map (f := Prod.snd)]
    exact Option.isSome_iff_exists.mpr ⟨mgr, ht⟩
  simp only [create, if_neg (Nat.not_lt.mpr h), find, if_pos hfind]

theorem create_free (h : name.length ≤ maxEntmgrName) (hf : s.getManager name = none) :
    (s.create name rehashes).2 = { s with
      entries := s.entries ++ [(name, s.next)]
      pending := if rehashes then s.pending.map fun _ => .invalidated else s.pending
      next := s.next + 1
      returned := s.returned ++ [s.next]
      owed := s.owed ++ [(name, s.next)] } := by
  have hfind : (s.entries.find? (·.1 == name)).isSome = false := by
    rw [← Option.isSome_map (f := Prod.snd)]
    exact Option.isSome_eq_false_iff.mpr (Option.isNone_iff_eq_none.mpr hf)
  simp only [create, if_neg (Nat.not_lt.mpr h), find, hfind, Bool.false_eq_true, if_false]

/-! ## The deletions -/

/-- **Distinct managers that are present are all deleted.** -/
theorem deletePending_entries {mgrs : List ℕ} (hd : mgrs.Nodup)
    (hp : ∀ mgr ∈ mgrs, mgr ∈ s.entries.map Prod.snd) :
    deletePending (mgrs.map .entry) s =
      { s with
        entries := s.entries.filter (·.2 ∉ mgrs)
        pending := []
        deleted := s.deleted ++ mgrs } := by
  induction mgrs generalizing s with
  | nil => simp [deletePending]
  | cons mgr mgrs ih =>
    obtain ⟨hnot, hd⟩ := List.nodup_cons.mp hd
    rw [List.map_cons, deletePending, if_pos (hp mgr List.mem_cons_self), ih hd]
    · have hfilter : (s.entries.filter (·.2 != mgr)).filter (·.2 ∉ mgrs) =
          s.entries.filter (·.2 ∉ mgr :: mgrs) := by
        rw [List.filter_filter]
        refine List.filter_congr fun e _ => ?_
        rw [Bool.eq_iff_iff]
        simp [and_comm]
      rw [hfilter, List.append_assoc]
      rfl
    · intro m hm
      obtain ⟨e, he, rfl⟩ := List.mem_map.mp (hp m (List.mem_cons_of_mem mgr hm))
      refine List.mem_map.mpr ⟨e, List.mem_filter.mpr ⟨he, ?_⟩, rfl⟩
      exact bne_iff_ne.mpr fun heq => hnot (heq ▸ hm)

theorem exists_pending (h : s.Kept) : ∃ mgrs : List ℕ, s.pending = mgrs.map .entry ∧ mgrs.Nodup ∧
    ∀ mgr ∈ mgrs, mgr ∈ s.entries.map Prod.snd := by
  have hrange : s.pending ∈ Set.range (List.map MgrIterator.entry) := by
    rw [Set.range_list_map]
    intro it hit
    obtain ⟨mgr, -, rfl⟩ := h.present it hit
    exact ⟨mgr, rfl⟩
  obtain ⟨mgrs, hmgrs⟩ := hrange
  refine ⟨mgrs, hmgrs.symm, List.Nodup.of_map _ (hmgrs ▸ h.distinct), fun mgr hmgr => ?_⟩
  obtain ⟨m, hm, heq⟩ := h.present (.entry mgr) (hmgrs ▸ List.mem_map_of_mem hmgr)
  exact MgrIterator.entry.inj heq ▸ hm

/-! ## What a call preserves -/

theorem inv_create (h : s.Inv) (hfree : s.getManager name = none) :
    Inv { s with
      entries := s.entries ++ [(name, s.next)]
      next := s.next + 1
      returned := s.returned ++ [s.next]
      owed := s.owed ++ [(name, s.next)] } := by
  have hnames : ((s.entries ++ [(name, s.next)]).map Prod.fst).Nodup := by
    rw [List.map_append, List.map_singleton, ← List.concat_eq_append]
    exact h.names.concat (getManager_eq_none.mp hfree)
  have hvalues : s.deleted ++ (s.entries ++ [(name, s.next)]).map Prod.snd =
      (s.deleted ++ s.entries.map Prod.snd) ++ [s.next] := by simp
  refine ⟨⟨h.defined, ?_, h.distinct, ?_, ?_, ?_⟩, hnames, ?_, ?_⟩
  · intro it hit
    obtain ⟨mgr, hmgr, rfl⟩ := h.present it hit
    exact ⟨mgr, by rw [List.map_append]; exact List.mem_append_left _ hmgr, rfl⟩
  · rw [hvalues, ← List.concat_eq_append]
    exact h.once.concat fun hmem => lt_irrefl _ (h.fresh s.next hmem)
  · intro mgr hmgr
    rw [hvalues]
    rcases List.mem_append.mp hmgr with hmgr | hmgr
    · exact List.mem_append_left _ (h.accounted mgr hmgr)
    · exact List.mem_append_right _ hmgr
  · intro x hx
    rw [getManager_eq_some hnames]
    rcases List.mem_append.mp hx with hx | hx
    · exact List.mem_append_left _ ((getManager_eq_some h.names).mp (h.found x hx))
    · exact List.mem_append_right _ hx
  · intro mgr hmgr
    rw [hvalues] at hmgr
    rcases List.mem_append.mp hmgr with hmgr | hmgr
    · exact Nat.lt_succ_of_lt (h.fresh mgr hmgr)
    · rw [List.mem_singleton.mp hmgr]
      exact Nat.lt_succ_self _
  · intro mgr hmgr
    obtain ⟨n, hn, hmem⟩ := h.named mgr hmgr
    exact ⟨n, hn, List.mem_append_left _ hmem⟩

theorem inv_destroy (h : s.Inv) {mgr : ℕ} (hmgr : s.getManager name = some mgr)
    (hnot : .entry mgr ∉ s.pending) :
    Inv { s with
      pending := s.pending ++ [.entry mgr]
      destroyed := s.destroyed ++ [name] } := by
  have hmem := (getManager_eq_some h.names).mp hmgr
  refine ⟨⟨h.defined, ?_, ?_, h.once, h.accounted, h.found⟩, h.names, h.fresh, ?_⟩
  · intro it hit
    rcases List.mem_append.mp hit with hit | hit
    · exact h.present it hit
    · exact ⟨mgr, List.mem_map.mpr ⟨_, hmem, rfl⟩, List.mem_singleton.mp hit⟩
  · rw [← List.concat_eq_append]
    exact h.distinct.concat hnot
  · intro m hm
    rcases List.mem_append.mp hm with hm | hm
    · obtain ⟨n, hn, hent⟩ := h.named m hm
      exact ⟨n, List.mem_append_left _ hn, hent⟩
    · rw [MgrIterator.entry.inj (List.mem_singleton.mp hm)]
      exact ⟨name, by simp, hmem⟩

theorem inv_doPostUpdate (h : s.Inv) : s.doPostUpdate.Inv := by
  obtain ⟨mgrs, hpending, hd, hp⟩ := exists_pending h.toKept
  have hdelete := deletePending_entries hd hp
  rw [← hpending] at hdelete
  have hnames : ((s.entries.filter (·.2 ∉ mgrs)).map Prod.fst).Nodup :=
    (List.filter_sublist.map Prod.fst).nodup h.names
  have hvalues : ∀ mgr, mgr ∈ (s.deleted ++ mgrs) ++ (s.entries.filter (·.2 ∉ mgrs)).map Prod.snd ↔
      mgr ∈ s.deleted ++ s.entries.map Prod.snd := by
    intro mgr
    by_cases hmgr : mgr ∈ mgrs
    · have := hp mgr hmgr
      simp only [List.mem_append, hmgr, this, or_true, true_or]
    · simp [hmgr]
  obtain ⟨hdel, hent, hdisjoint⟩ := List.nodup_append.mp h.once
  rw [doPostUpdate, hdelete]
  refine ⟨⟨h.defined, by simp, List.nodup_nil, ?_, ?_, ?_⟩, hnames, ?_, by simp⟩
  · -- what is deleted now was present, and is not any more
    refine List.nodup_append.mpr ⟨List.nodup_append.mpr ⟨hdel, hd, fun a ha b hb => ?_⟩,
      (List.filter_sublist.map Prod.snd).nodup hent, fun a ha b hb => ?_⟩
    · exact hdisjoint a ha b (hp b hb)
    · obtain ⟨e, he, rfl⟩ := List.mem_map.mp hb
      obtain ⟨hmem, hnot⟩ := List.mem_filter.mp he
      rcases List.mem_append.mp ha with ha | ha
      · exact hdisjoint a ha e.2 (List.mem_map_of_mem hmem)
      · rintro rfl
        exact of_decide_eq_true hnot ha
  · intro mgr hmgr
    exact (hvalues mgr).mpr (h.accounted mgr hmgr)
  · intro x hx
    obtain ⟨howed, hname⟩ := List.mem_filter.mp hx
    have hmem := (getManager_eq_some h.names).mp (h.found x howed)
    rw [getManager_eq_some hnames]
    refine List.mem_filter.mpr ⟨hmem, decide_eq_true fun hmgr => ?_⟩
    -- a pending deletion is at a name that was destroyed
    obtain ⟨n, hn, hent'⟩ := h.named x.2 (hpending ▸ List.mem_map_of_mem hmgr)
    have heq := List.inj_on_of_nodup_map hent hent' hmem rfl
    exact of_decide_eq_true hname ((congrArg Prod.fst heq) ▸ hn)
  · intro mgr hmgr
    exact h.fresh mgr ((hvalues mgr).mp hmgr)

theorem step_of_defined (h : s.undefined = false) (a : ManagerAct) : s.step a = match a with
    | .create name rehashes => (s.create name rehashes).2
    | .destroy name => s.destroy name
    | .doPostUpdate => s.doPostUpdate := by
  unfold step
  exact if_neg (by simp [h])

theorem destroy_of_some {mgr : ℕ} (h : s.getManager name = some mgr) : s.destroy name =
    { s with pending := s.pending ++ [.entry mgr], destroyed := s.destroyed ++ [name] } := by
  obtain ⟨e, he, rfl⟩ := Option.map_eq_some_iff.mp h
  simp only [destroy, he]

theorem destroy_of_none (h : s.getManager name = none) : s.destroy name =
    { s with pending := s.pending ++ [.pastEnd], destroyed := s.destroyed ++ [name] } := by
  simp only [destroy, Option.map_eq_none_iff.mp h]

theorem inv_step {a : ManagerAct} (h : s.Inv) (hok : s.Proper a) : (s.step a).Inv := by
  rw [step_of_defined h.defined]
  cases a with
  | create name rehashes =>
    rcases Nat.lt_or_ge maxEntmgrName name.length with hlong | hle
    · simp only [create_long hlong]
      exact { h with fresh := fun mgr hmgr => Nat.lt_succ_of_lt (h.fresh mgr hmgr) }
    · obtain ⟨hfree, hrehash⟩ := hok hle
      have hpending : (if rehashes then s.pending.map fun _ => MgrIterator.invalidated else s.pending) =
          s.pending := by
        split_ifs with hr
        · rw [hrehash hr, List.map_nil]
        · rfl
      simp only [create_free hle hfree, hpending]
      exact inv_create h hfree
  | destroy name =>
    obtain ⟨mgr, hmgr, hnot⟩ := hok
    simp only [destroy_of_some hmgr]
    exact inv_destroy h hmgr hnot
  | doPostUpdate => exact inv_doPostUpdate h

/-- **Any other call breaks the law at once.** -/
theorem not_kept_step {a : ManagerAct} (h : s.Inv) (hbad : ¬ s.Proper a) : ¬ (s.step a).Kept := by
  rw [step_of_defined h.defined]
  intro hkept
  cases a with
  | create name rehashes =>
    obtain ⟨hle, hbad⟩ := Classical.not_imp.mp hbad
    cases hmgr : s.getManager name with
    | some mgr =>
      -- the older manager stays, the new one was returned
      simp only [create_taken hle hmgr] at hkept
      have hfound := hkept.found (name, s.next) (by simp)
      have hsame : s.getManager name = some s.next := hfound
      have hmem := (getManager_eq_some h.names).mp hsame
      exact lt_irrefl _ (h.fresh s.next (List.mem_append_right _ (List.mem_map_of_mem hmem)))
    | none =>
      obtain ⟨hr, hne⟩ := Classical.not_imp.mp (not_and.mp hbad hmgr)
      simp only [create_free hle hmgr, hr, if_true] at hkept
      obtain ⟨it, hit⟩ := List.exists_mem_of_ne_nil _ hne
      obtain ⟨mgr, -, heq⟩ := hkept.present .invalidated (List.mem_map.mpr ⟨it, hit, rfl⟩)
      exact absurd heq (by simp)
  | destroy name =>
    cases hmgr : s.getManager name with
    | some mgr =>
      simp only [destroy_of_some hmgr] at hkept
      have hmem : .entry mgr ∈ s.pending := not_not.mp fun hnot => hbad ⟨mgr, hmgr, hnot⟩
      exact (List.nodup_append.mp hkept.distinct).2.2 _ hmem _ List.mem_cons_self rfl
    | none =>
      simp only [destroy_of_none hmgr] at hkept
      obtain ⟨mgr, -, heq⟩ := hkept.present .pastEnd (by simp)
      exact absurd heq (by simp)
  | doPostUpdate => exact hbad trivial

theorem inv_empty : Inv {} := by
  refine ⟨⟨rfl, ?_, List.nodup_nil, List.nodup_nil, ?_, ?_⟩, List.nodup_nil, ?_, ?_⟩ <;> simp

/-- **Which calls keep the law.** A name that is created is free (or too long, and `SetName` throws); a
name that is destroyed is there and not yet destroyed; and nothing rehashes the map while a deletion is
pending. -/
theorem kept_iff (acts : List ManagerAct) :
    (∀ n, (run step ({} : ManagerTable) (acts.take n)).Kept) ↔ Along step Proper {} acts :=
  forall_run_iff_along (fun _ h => h.toKept) (fun _ _ h hok => inv_step h hok)
    (fun _ _ h hbad => not_kept_step h hbad) inv_empty acts

/-- A name is destroyed twice before `DoPostUpdate`. -/
theorem not_kept_twice : ¬ ∀ (acts : List ManagerAct) (n : ℕ),
    (run step ({} : ManagerTable) (acts.take n)).Kept := by
  intro h
  have hdefined := (h [.create [97] false, .destroy [97], .destroy [97], .doPostUpdate] 4).defined
  exact absurd hdefined (by decide)

end ManagerTable

end Nettik
