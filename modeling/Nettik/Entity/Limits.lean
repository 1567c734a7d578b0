import Mathlib.Data.List.Induction
import Nettik.Entity.Roll
import Nettik.Snapshot.Residue

/-!
# Names and the fields they are written to

* `SnapshotEntList.nameStores`, `dataStores`: the single bytes `set_name` and `set_data` write, by their
  index in the two arrays;
* `FrameSite`: the call sites that construct a frame, and the frame each of them builds;
* **`inside_iff`**: which names keep all of their writes inside the arrays.
-/

namespace Nettik

open ByteMem

/-! ## Single writes -/

namespace SnapshotEntList

/-- The loop, then the NUL. -/
def nameStores (data : Bytes) : List (ℕ × UInt8) :=
  data.zipIdx.map Prod.swap ++ [(data.length + 1, 0)]

def dataStores (stream : Bytes) : List (ℕ × UInt8) := stream.zipIdx.map Prod.swap

/-- Write bytes into an array that begins at `base`. -/
def store (base : ℕ) (text : Mem) (writes : List (ℕ × UInt8)) : Mem :=
  writes.foldl (fun m w => Function.update m (base + w.1) w.2) text

theorem store_append (base : ℕ) (text : Mem) (l₁ l₂ : List (ℕ × UInt8)) :
    store base text (l₁ ++ l₂) = store base (store base text l₁) l₂ := List.foldl_append

theorem store_single (base : ℕ) (text : Mem) (i : ℕ) (b : UInt8) :
    store base text [(i, b)] = text.write (base + i) [b] := by
  funext j
  rcases Nat.lt_trichotomy j (base + i) with h | rfl | h
  · rw [Mem.write_apply_lt _ _ h]
    exact Function.update_of_ne h.ne _ _
  · rw [Mem.write_apply_mem _ _ le_rfl (by simp)]
    simp [store]
  · rw [Mem.write_apply_ge _ _ (Nat.succ_le_of_lt h)]
    exact Function.update_of_ne h.ne' _ _

/-- A loop over single bytes writes the block. -/
theorem store_dataStores (base : ℕ) (text : Mem) (bs : Bytes) :
    store base text (dataStores bs) = text.write base bs := by
  induction bs using List.reverseRecOn with
  | nil =>
    funext j
    simp [dataStores, store, Mem.write]
  | append_singleton bs b ih =>
    have hstores : dataStores (bs ++ [b]) = dataStores bs ++ [(bs.length, b)] := by
      simp [dataStores, List.zipIdx_append]
    rw [hstores, store_append, ih, store_single]
    funext j
    rcases Nat.lt_trichotomy j (base + bs.length) with h | rfl | h
    · rw [Mem.write_apply_lt _ _ h]
      rcases Nat.lt_or_ge j base with hj | hj
      · rw [Mem.write_apply_lt _ _ hj, Mem.write_apply_lt _ _ hj]
      · rw [Mem.write_apply_mem _ _ hj (by omega),
          Mem.write_apply_mem _ _ hj (by rw [List.length_append]; omega),
          List.getElem_append_left (by omega)]
    · rw [Mem.write_apply_mem _ _ le_rfl (by simp), Mem.write_apply_mem _ _ (by omega) (by simp)]
      simp
    · have hlen : base + (bs ++ [b]).length ≤ j := by
        rw [List.length_append, List.length_singleton]
        omega
      rw [Mem.write_apply_ge _ _ (Nat.succ_le_of_lt h), Mem.write_apply_ge _ _ h.le,
        Mem.write_apply_ge _ _ hlen]

/-- **`set_name` makes the writes of `nameStores`**, in the array at the beginning of `text`. -/
theorem text_setName (e : SnapshotEntList) (data : Bytes) :
    (e.setName data).text = store 0 e.text (nameStores data) := by
  show _ = store 0 e.text (dataStores data ++ [(data.length + 1, 0)])
  rw [store_append, store_dataStores, store_single, Nat.zero_add]
  rfl

/-- **`set_data` makes the writes of `dataStores`**, in the array behind the name. -/
theorem text_setData (e : SnapshotEntList) (stream : Bytes) :
    (e.setData stream).text = store maxEntvarName e.text (dataStores stream) :=
  (store_dataStores maxEntvarName e.text stream).symm

theorem dataStores_lt_iff (stream : Bytes) (n : ℕ) :
    (∀ w ∈ dataStores stream, w.1 < n) ↔ stream.length ≤ n := by
  constructor
  · intro h
    rcases stream.eq_nil_or_concat with rfl | ⟨l, b, rfl⟩
    · exact Nat.zero_le _
    · have hlast := h (l.length, b) (by simp [dataStores, List.zipIdx_append])
      rw [List.concat_eq_append, List.length_append]
      exact Nat.succ_le_of_lt hlast
  · intro h w hw
    obtain ⟨⟨b, i⟩, hb, rfl⟩ := List.mem_map.mp hw
    have hi := (List.mem_zipIdx hb).2.1
    rw [Prod.swap_prod_mk]
    omega

theorem nameStores_lt_iff (data : Bytes) (n : ℕ) :
    (∀ w ∈ nameStores data, w.1 < n) ↔ data.length + 1 < n := by
  have happend : nameStores data = dataStores data ++ [(data.length + 1, 0)] := rfl
  simp only [happend, List.forall_mem_append, List.forall_mem_singleton, dataStores_lt_iff]
  omega

end SnapshotEntList

/-! ## Call sites -/

/-- `SetName` of a manager. -/
def CEntities.setName (name : Bytes) (m : CEntities) : Except String CEntities :=
  if h : name.length ≤ maxEntmgrName then .ok { m with name := name, name_le := h }
  else .error "Entity manager name length exceeds MAX_ENTMGR_NAME."

theorem CEntities.setName_ok_iff (name : Bytes) (m : CEntities) :
    (∃ m', m.setName name = .ok m') ↔ name.length ≤ maxEntmgrName := by
  rw [setName]
  split_ifs with h <;> simp [h]

/-- The functions that construct a frame. -/
inductive FrameSite where
  | build
  | sendObjectLists
  | freeEntity
  | takeVariableSnapshot
  deriving DecidableEq, Repr

namespace FrameSite

/-- The frame of an object `netID` in a manager of an instance, or of a variable of the object. -/
def frame (i : VirtualInstance) (m : CEntities) (v : NetVar) (netID controller : UInt32)
    (u : Update (Blob v.size)) : FrameSite → Frame
  | .build => allocFrame i.name m.name netID netControllerNone
  | .sendObjectLists => allocFrame i.name m.name netID controller
  | .freeEntity => deallocFrame i.name m.name netID
  | .takeVariableSnapshot => v.frame netID u

/-- The frame object as the function fills it. -/
def entry (i : VirtualInstance) (m : CEntities) (v : NetVar) (netID controller : UInt32)
    (u : Update (Blob v.size)) : FrameSite → SnapshotEntList
  | .build => ((NetSystem.creationUpdate i.name m.name).setNetid netID).setController netControllerNone
  | .sendObjectLists =>
    ((NetSystem.creationUpdate i.name m.name).setNetid netID).setController controller
  | .freeEntity => (((({} : SnapshotEntList).setFrametype kFrameDealloc).setName m.name).setNetid
      netID).setData (i.name ++ [0])
  | .takeVariableSnapshot => (v.frame netID u).build

theorem entry_eq (i : VirtualInstance) (m : CEntities) (v : NetVar) (netID controller : UInt32)
    (u : Update (Blob v.size)) (site : FrameSite) :
    site.entry i m v netID controller u = (site.frame i m v netID controller u).build := by
  cases site <;> rfl

end FrameSite

namespace Frame

/-- **The law of a call site.** Every write of the two setters is inside its array, and `read_data`
accepts the length of the frame. -/
structure Inside (f : Frame) (entry : SnapshotEntList) : Prop where
  name : ∀ w ∈ SnapshotEntList.nameStores f.name, w.1 < maxEntvarName
  data : ∀ w ∈ SnapshotEntList.dataStores f.data, w.1 < maxEntvarData
  length : entry.write.length ≤ sizeofEntry + sizeofHeader

/-- A name may hold a NUL; then the frame is shorter. -/
theorem strlen_build_le {f : Frame} (h : f.name.length < maxEntvarName) :
    f.build.text.strlen SnapshotEntList.sizeofText ≤ f.name.length := by
  by_contra hlt
  exact Mem.ne_zero_of_lt_strlen (not_le.mp hlt) (fill_text_name h {}).2

theorem inside_frame_iff (f : Frame) :
    f.Inside f.build ↔ f.name.length + 1 < maxEntvarName ∧ f.data.length ≤ maxEntvarData := by
  constructor
  · intro h
    exact ⟨(SnapshotEntList.nameStores_lt_iff _ _).mp h.name,
      (SnapshotEntList.dataStores_lt_iff _ _).mp h.data⟩
  · rintro ⟨hname, hdata⟩
    refine ⟨(SnapshotEntList.nameStores_lt_iff _ _).mpr hname,
      (SnapshotEntList.dataStores_lt_iff _ _).mpr hdata, ?_⟩
    have hstrlen := strlen_build_le (f := f) (by omega)
    have htype : f.build.typesize = f.data.length := rfl
    rw [SnapshotEntList.length_write, htype, Nat.max_eq_right hdata]
    unfold maxEntvarName at hname
    unfold maxEntvarData sizeofEntry sizeofHeader
    omega

end Frame

/-- **Which names fit.** A manager has a name that `SetName` accepted; the names of instances and
variables are not checked. All writes of the four call sites are inside the arrays exactly when the
instance name has at most 127 bytes and the name of the variable at most 62. -/
theorem inside_iff (i : VirtualInstance) (m : CEntities) (v : NetVar) (netID controller : UInt32)
    (u : Update (Blob v.size)) :
    (∀ site : FrameSite, (site.frame i m v netID controller u).Inside
      (site.entry i m v netID controller u)) ↔
      i.name.length < maxEntvarData ∧ v.name.1.length + 1 < maxEntvarName := by
  have hmanager : m.name.length + 1 < maxEntvarName := by
    have hle := m.name_le
    unfold maxEntmgrName at hle
    unfold maxEntvarName
    omega
  have hsize : u.data.toList.length ≤ maxEntvarData := by simpa using v.size_lt.le
  have hobject : ∀ f : Frame, f.name = m.name → f.data = i.name ++ [0] →
      (f.Inside f.build ↔ i.name.length < maxEntvarData) := by
    intro f hn hd
    rw [Frame.inside_frame_iff, hn, hd, List.length_append, List.length_singleton]
    exact ⟨And.right, fun h => ⟨hmanager, h⟩⟩
  have hvar : (v.frame netID u).Inside (v.frame netID u).build ↔ v.name.1.length + 1 < maxEntvarName := by
    rw [Frame.inside_frame_iff]
    exact ⟨And.left, fun h => ⟨h, hsize⟩⟩
  simp only [FrameSite.entry_eq]
  constructor
  · intro h
    exact ⟨(hobject _ rfl rfl).mp (h .build), hvar.mp (h .takeVariableSnapshot)⟩
  · rintro ⟨hi, hv⟩ site
    cases site with
    | build => exact (hobject _ rfl rfl).mpr hi
    | sendObjectLists => exact (hobject _ rfl rfl).mpr hi
    | freeEntity => exact (hobject _ rfl rfl).mpr hi
    | takeVariableSnapshot => exact hvar.mpr hv

/-- An instance whose name fills the data array. -/
theorem not_inside_long : ¬ ∀ (i : VirtualInstance) (m : CEntities) (v : NetVar)
    (netID controller : UInt32) (u : Update (Blob v.size)) (site : FrameSite),
      (site.frame i m v netID controller u).Inside (site.entry i m v netID controller u) := by
  intro h
  have hinside := h { name := List.replicate 128 65 }
    { name := [109], name_le := by decide, cls := {} }
    { name := ⟨[97], by decide⟩, reliable := true, size := 1, size_lt := by decide, base := { data := #v[0] } }
    0 netControllerNone ⟨#v[0], 1, false⟩ .build
  exact absurd (hinside.data (128, 0) (by decide)) (by decide)

end Nettik
