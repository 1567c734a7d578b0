import Nettik.Sync.Numbers

/-!
# Vectors and strings

Two classes over `CNetVarBase` hide its typed `Set` with one of their own.

* `CNetVarVector.set`, `CNetVarString.set`;
* `SetLaw`: what a local `Set` owes the flags and the counter; **`setLaw_iff`**: when the three kinds
  keep it;
* `StringAct`: what happens to a string; **`terminated_iff`**: it keeps a NUL exactly as long as every
  frame that is applied has one.
-/

namespace Nettik

open ByteMem Links

/-! ## Vectors -/

/-- `F` stands for `float`, its `==` for the comparison of floats. -/
structure CVector3 (F : Type) where
  x : F
  y : F
  z : F
  deriving DecidableEq, Repr

instance {F : Type} [BEq F] : BEq (CVector3 F) where
  beq v₁ v₂ := v₁.x == v₂.x && v₁.y == v₂.y && v₁.z == v₂.z

abbrev CNetVarVector (F : Type) := CNetVarBase (CVector3 F)

/-- The guard is that of `CNetVarBase`; the counter is not touched. -/
def CNetVarVector.set {F : Type} [BEq F] (active : Bool) (x y z : F) (v : CNetVarVector F) :
    CNetVarVector F :=
  if (v.setGuard active ⟨x, y, z⟩).1 then { (v.setGuard active ⟨x, y, z⟩).2 with data := ⟨x, y, z⟩ }
  else (v.setGuard active ⟨x, y, z⟩).2

/-! ## Strings -/

/-- An array of `n` elements of `w` bytes: one for `char`, two for `wchar_t`. -/
abbrev CNetVarString (w n : ℕ) := CNetVarBase (Vector (Blob w) n)

def nul {w : ℕ} : Blob w := Vector.replicate w 0

namespace CNetVarString

variable {w n : ℕ}

/-- The constructor fills the array with zeros. -/
def new : CNetVarString w n where
  data := Vector.replicate n nul

/-- Truncate, clear the array, copy. Neither the parent nor the old contents are looked at. -/
def set (data : List (Blob w)) (v : CNetVarString w n) : CNetVarString w n :=
  let data := if n < data.length + 1 then data.take (n - 1) else data
  let cleared : Vector (Blob w) n := v.data.map fun _ => nul
  ({ v with data := Vector.ofFn fun i : Fin n => data.getD i cleared[i] } :
    CNetVarString w n).invalidate

/-- **`Set` leaves what fits of the string, and NULs behind it.** -/
theorem toList_set (s : List (Blob w)) (v : CNetVarString w n) :
    (set s v).data.toList = s.take (n - 1) ++ List.replicate (n - (s.take (n - 1)).length) nul := by
  have hdata : (if n < s.length + 1 then s.take (n - 1) else s) = s.take (n - 1) := by
    split_ifs with h
    · rfl
    · rw [List.take_of_length_le (by omega)]
  have hlen : (s.take (n - 1)).length ≤ n - 1 := List.length_take_le (n - 1) s
  refine List.ext_getElem ?_ fun i h₁ h₂ => ?_
  · simp only [Vector.length_toList, List.length_append, List.length_replicate]
    omega
  · have hi : i < n := by simpa using h₁
    simp only [set, CNetVarBase.invalidate, hdata, Vector.getElem_toList, Vector.getElem_ofFn]
    rcases Nat.lt_or_ge i (s.take (n - 1)).length with h | h
    · rw [List.getD_eq_getElem _ _ h, List.getElem_append_left h]
    · rw [List.getD_eq_default _ _ h, List.getElem_append_right h, List.getElem_replicate]
      simp

/-- The array of elements that the bytes of a frame make. -/
def elements (data : Blob (n * w)) : Vector (Blob w) n :=
  Vector.ofFn fun i : Fin n => Blob.ofMem w ((Mem.ofList data.toList Mem.zero).shift (i * w))

def received (u : Update (Blob (n * w))) : Update (Vector (Blob w) n) :=
  ⟨elements u.data, u.sequence, u.forced⟩

end CNetVarString

/-! ## What a local `Set` owes -/

/-- **The law of a local `Set`.** New data marks the variable and counts; the same data leaves both
marks and the counter alone. -/
structure SetLaw {α : Type} (v v' : CNetVarBase α) : Prop where
  counts : v'.data ≠ v.data → v'.changed = true ∧ v'.changes.toNat = v.changes.toNat + 1
  idle : v'.data = v.data →
    v'.changed = v.changed ∧ v'.changeForced = v.changeForced ∧ v'.changes = v.changes

theorem SetLaw.refl {α : Type} (v : CNetVarBase α) : SetLaw v v :=
  ⟨fun h => absurd rfl h, fun _ => ⟨rfl, rfl, rfl⟩⟩

theorem toNat_add_one_iff {c : UInt32} : (c + 1).toNat = c.toNat + 1 ↔ c.toNat + 1 < 2 ^ 32 := by
  have hlt := c.toNat_lt
  rw [UInt32.toNat_add, UInt32.toNat_one]
  omega

theorem add_one_ne (c : UInt32) : c + 1 ≠ c := by
  intro h
  have hlt := c.toNat_lt
  have hnat := congrArg UInt32.toNat h
  rw [UInt32.toNat_add, UInt32.toNat_one] at hnat
  omega

section SetLaw

variable {α F : Type} {w n : ℕ}

/-- A write that counts keeps the law if it writes something new. -/
theorem setLaw_counted_iff {v v' : CNetVarBase α} (hcount : v'.changes = v.changes + 1)
    (hmark : v'.changed = true) :
    SetLaw v v' ↔ v.data ≠ v'.data ∧ v.changes.toNat + 1 < 2 ^ 32 := by
  constructor
  · intro h
    have hne : v'.data ≠ v.data := fun he => add_one_ne v.changes (hcount ▸ (h.idle he).2.2)
    exact ⟨hne.symm, toNat_add_one_iff.mp (hcount ▸ (h.counts hne).2)⟩
  · rintro ⟨hne, hlt⟩
    exact ⟨fun _ => ⟨hmark, hcount ▸ toNat_add_one_iff.mpr hlt⟩, fun he => absurd he.symm hne⟩

/-- A write that does not count keeps the law if it writes what is there and the marks are set. -/
theorem setLaw_uncounted_iff {v v' : CNetVarBase α} (hcount : v'.changes = v.changes)
    (hmark : v'.changed = true ∧ v'.changeForced = true) :
    SetLaw v v' ↔ v.data = v'.data ∧ v.changed = true ∧ v.changeForced = true := by
  constructor
  · intro h
    have heq : v'.data = v.data := by
      by_contra hne
      have hgrows := (h.counts hne).2
      rw [hcount] at hgrows
      omega
    obtain ⟨hc, hf, -⟩ := h.idle heq
    exact ⟨heq.symm, hc ▸ hmark.1, hf ▸ hmark.2⟩
  · rintro ⟨heq, hc, hf⟩
    exact ⟨fun hne => absurd heq.symm hne, fun _ => ⟨hmark.1.trans hc.symm, hmark.2.trans hf.symm, hcount⟩⟩

theorem setLaw_base_iff [BEq α] (v : CNetVarBase α) (data : α) :
    SetLaw v (v.set true data) ↔
      (v.data == data) = true ∨ v.data ≠ data ∧ v.changes.toNat + 1 < 2 ^ 32 := by
  cases h : v.data == data with
  | true =>
    have hset : v.set true data = v := by simp [CNetVarBase.set, CNetVarBase.setGuard, h]
    rw [hset]
    exact iff_of_true (SetLaw.refl v) (Or.inl rfl)
  | false =>
    have hset : v.set true data =
        { v with data := data, changes := v.changes + 1, changed := true, changeForced := true } := by
      simp [CNetVarBase.set, CNetVarBase.setGuard, h]
    rw [hset, setLaw_counted_iff rfl rfl]
    simp

theorem setLaw_vector_iff [BEq F] (v : CNetVarVector F) (x y z : F) :
    SetLaw v (CNetVarVector.set true x y z v) ↔ (v.data == ⟨x, y, z⟩) = true ∨
      v.data = ⟨x, y, z⟩ ∧ v.changed = true ∧ v.changeForced = true := by
  cases h : v.data == ⟨x, y, z⟩ with
  | true =>
    have hset : CNetVarVector.set true x y z v = v := by
      simp [CNetVarVector.set, CNetVarBase.setGuard, h]
    rw [hset]
    exact iff_of_true (SetLaw.refl v) (Or.inl rfl)
  | false =>
    have hset : CNetVarVector.set true x y z v =
        { v with data := ⟨x, y, z⟩, changed := true, changeForced := true } := by
      simp [CNetVarVector.set, CNetVarBase.setGuard, h]
    rw [hset]
    exact Iff.trans (setLaw_uncounted_iff rfl ⟨rfl, rfl⟩) (by simp)

theorem setLaw_string_iff (v : CNetVarString w n) (s : List (Blob w)) :
    SetLaw v (CNetVarString.set s v) ↔
      v.data.toList = s.take (n - 1) ++ List.replicate (n - (s.take (n - 1)).length) nul ∧
        v.changed = true ∧ v.changeForced = true := by
  have hsame : v.data = (CNetVarString.set s v).data ↔
      v.data.toList = s.take (n - 1) ++ List.replicate (n - (s.take (n - 1)).length) nul := by
    rw [← CNetVarString.toList_set s v, Vector.toList_inj]
  rw [← hsame]
  exact setLaw_uncounted_iff rfl ⟨rfl, rfl⟩

/-- **When the three kinds keep the law.** A plain variable breaks it for a value that is not equal to
itself and where the counter wraps; a vector whenever its data changes; a string unless it holds what
fits of the new one with NULs behind it, and both marks are up. -/
theorem setLaw_iff [BEq α] [BEq F] (v : CNetVarBase α) (data : α) (p : CNetVarVector F) (x y z : F)
    (t : CNetVarString w n) (s : List (Blob w)) :
    (SetLaw v (v.set true data) ↔
      (v.data == data) = true ∨ v.data ≠ data ∧ v.changes.toNat + 1 < 2 ^ 32) ∧
    (SetLaw p (CNetVarVector.set true x y z p) ↔ (p.data == ⟨x, y, z⟩) = true ∨
      p.data = ⟨x, y, z⟩ ∧ p.changed = true ∧ p.changeForced = true) ∧
    (SetLaw t (CNetVarString.set s t) ↔
      t.data.toList = s.take (n - 1) ++ List.replicate (n - (s.take (n - 1)).length) nul ∧
        t.changed = true ∧ t.changeForced = true) :=
  ⟨setLaw_base_iff v data, setLaw_vector_iff p x y z, setLaw_string_iff t s⟩

/-- A new vector is moved to `(1, 0, 0)`. -/
theorem not_setLaw_vector : ¬ ∀ (p : CNetVarVector ℤ) (x y z : ℤ),
    SetLaw p (CNetVarVector.set true x y z p) := by
  intro h
  exact absurd ((h { data := ⟨0, 0, 0⟩ } 1 0 0).counts (by decide)).2 (by decide)

end SetLaw

/-! ## What a string holds -/

namespace CNetVarString

variable {w n : ℕ}

theorem nul_mem_set (s : List (Blob w)) (v : CNetVarString w (n + 1)) : nul ∈ (set s v).data := by
  have hlen : (s.take n).length ≤ n := List.length_take_le n s
  rw [← Vector.mem_toList_iff, toList_set, Nat.add_sub_cancel]
  exact List.mem_append_right _ (List.mem_replicate.mpr ⟨by omega, rfl⟩)

end CNetVarString

/-- What happens to a string. -/
inductive StringAct (w n : ℕ) where
  | set (s : List (Blob w))
  | frame (controller : UInt32) (u : Update (Blob (n * w)))
  | snapshot (forced : Bool)
  | lock
  | unlock
  | sequenceCheck (on : Bool)
  deriving DecidableEq, Repr

namespace CNetVarString

variable {w n : ℕ}

def step (v : CNetVarString w n) : StringAct w n → CNetVarString w n
  | .set s => set s v
  | .frame controller u => v.readUpdate controller (received u)
  | .snapshot forced => (v.takeVariableSnapshot forced).2
  | .lock => v.lock
  | .unlock => v.unlock
  | .sequenceCheck on => { v with sequenceCheck := on }

/-- A frame that is applied has a NUL among its elements. -/
def KeepsNul (v : CNetVarString w n) : StringAct w n → Prop
  | .frame controller u =>
    v.accepts controller (received u) = true → v.locked = false → nul ∈ elements u.data
  | _ => True

theorem data_frame (controller : UInt32) (u : Update (Blob (n * w))) (v : CNetVarString w n) :
    (v.readUpdate controller (received u)).data =
      if v.accepts controller (received u) = true ∧ v.locked = false then elements u.data else v.data := by
  rw [CNetVarBase.readUpdate_eq, CNetVarBase.setRaw, CNetVarBase.setSequence]
  cases v.accepts controller (received u) <;> cases v.locked <;> rfl

theorem data_snapshot (forced : Bool) (v : CNetVarString w n) :
    (v.takeVariableSnapshot forced).2.data = v.data := by
  rw [CNetVarBase.takeVariableSnapshot]
  split_ifs <;> rfl

theorem nul_mem_step_iff {v : CNetVarString w (n + 1)} (h : nul ∈ v.data) (a : StringAct w (n + 1)) :
    nul ∈ (v.step a).data ↔ v.KeepsNul a := by
  cases a with
  | set s => exact iff_of_true (nul_mem_set s v) trivial
  | frame controller u =>
    rw [step, data_frame, KeepsNul]
    split_ifs with hok
    · exact ⟨fun hmem _ _ => hmem, fun hmem => hmem hok.1 hok.2⟩
    · exact iff_of_true h fun ha hl => absurd ⟨ha, hl⟩ hok
  | snapshot forced => exact iff_of_true (by rw [step, data_snapshot]; exact h) trivial
  | lock => exact iff_of_true h trivial
  | unlock => exact iff_of_true h trivial
  | sequenceCheck on => exact iff_of_true h trivial

/-- **A string keeps a NUL exactly as long as every frame that is applied has one**; its own `Set`
always leaves what fits, with NULs behind it. -/
theorem terminated_iff (acts : List (StringAct w (n + 1))) :
    ((∀ k, nul ∈ (run step (new : CNetVarString w (n + 1)) (acts.take k)).data ∧
        ∀ s, acts[k]? = some (.set s) →
          (run step (new : CNetVarString w (n + 1)) (acts.take (k + 1))).data.toList =
            s.take n ++ List.replicate (n + 1 - (s.take n).length) nul) ↔
      Along step KeepsNul (new : CNetVarString w (n + 1)) acts) := by
  have hnew : nul ∈ (new : CNetVarString w (n + 1)).data := by simp [new]
  rw [← forall_run_iff_along (I := fun v => nul ∈ v.data) (P := fun v => nul ∈ v.data) (fun _ h => h)
    (fun v a h => (nul_mem_step_iff h a).mpr)
    (fun v a h hbad hmem => hbad ((nul_mem_step_iff h a).mp hmem)) hnew acts]
  refine forall_congr' fun k => and_iff_left fun s hs => ?_
  rw [List.take_add_one, hs, run, List.foldl_append]
  exact toList_set s _

/-- The owner's frame fills a string of two characters. -/
theorem not_terminated_full : ¬ ∀ (acts : List (StringAct 1 2)) (k : ℕ),
    nul ∈ (run step (new : CNetVarString 1 2) (acts.take k)).data := by
  intro h
  have hmem := h [.frame netControllerNone ⟨#v[65, 66], 1, false⟩] 1
  rw [← Vector.mem_toList_iff] at hmem
  exact absurd hmem (by decide)

end CNetVarString

end Nettik
