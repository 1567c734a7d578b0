import Nettik.Lib.ByteMem

/-!
# Snapshot frames

`SnapshotEntList` holds one frame: a fixed entry in memory, `write` to put it on a stream and
`readData` to take it off a received partition.

* `SnapshotEntList`, its setters, `write`, `readData`;
* `Frame`: what the getters return, `Frame.build` the object a caller fills, `Frame.wire` its bytes;
* **`readData_wire`**: reading a partition that starts with the bytes of a frame gives the frame
  back, with its data extended by zeros.
-/

namespace Nettik

open ByteMem

/-! ## Constants -/

/-- Maximum name for a variable name. -/
def maxEntvarName : ℕ := 64

/-- Maximum data for variables. -/
def maxEntvarData : ℕ := 128

/-- Maximum name for an entity manager. -/
def maxEntmgrName : ℕ := 16

def netControllerLocal : UInt32 := 256
def netControllerNone : UInt32 := 512

/-- A `FrameType` on the wire can hold any 32-bit value; the enumerators are the three below. -/
abbrev FrameType := UInt32

def kFrameData : FrameType := 0xDADADADA
def kFrameAlloc : FrameType := 0xACACACAC
def kFrameDealloc : FrameType := 0xDEDEDEDE

/-- `sizeof(SnapshotEntListDataEntry)`, as its `static_assert` has it. -/
def sizeofEntry : ℕ := 68 + 128 + 4 + 4 + 4 + 4

/-- `sizeof(SnapshotHeaderData)`, as its `static_assert` has it. -/
def sizeofHeader : ℕ := 12

/-! ## The frame object -/

/-- A frame object. `text` is the tail of the entry in memory order: `name` at `0`, `data` at
`maxEntvarName`, then the three padding bytes. -/
structure SnapshotEntList where
  frameType : FrameType := 0
  netID : UInt32 := 0
  controller : UInt32 := netControllerNone
  sequence : UInt32 := 0
  forced : Bool := false
  text : Mem := Mem.zero
  typesize : ℕ := 0

namespace SnapshotEntList

/-- The bytes of `text`. -/
def sizeofText : ℕ := maxEntvarName + maxEntvarData + 3

def setFrametype (e : SnapshotEntList) (type : FrameType) : SnapshotEntList :=
  { e with frameType := type }

def setNetid (e : SnapshotEntList) (netid : UInt32) : SnapshotEntList := { e with netID := netid }

def setController (e : SnapshotEntList) (cid : UInt32) : SnapshotEntList :=
  { e with controller := cid }

def setSequence (e : SnapshotEntList) (seq : UInt32) : SnapshotEntList := { e with sequence := seq }

def setForced (e : SnapshotEntList) (val : Bool) : SnapshotEntList := { e with forced := val }

/-- The NUL goes one byte behind the end of the name's terminator. -/
def setName (e : SnapshotEntList) (data : Bytes) : SnapshotEntList :=
  { e with text := (e.text.write 0 data).write (data.length + 1) [0] }

def setData (e : SnapshotEntList) (stream : Bytes) : SnapshotEntList :=
  { e with text := e.text.write maxEntvarName stream, typesize := stream.length }

/-- The bytes `write` appends to a stream. -/
def write (e : SnapshotEntList) : Bytes :=
  toLE 4 e.frameType.toNat ++ toLE 4 e.netID.toNat ++ toLE 4 e.controller.toNat ++
    toLE 4 e.sequence.toNat ++ [e.forced.toUInt8] ++
    e.text.read (e.text.strlen sizeofText + 1) ++
    (e.text.shift maxEntvarName).read e.typesize ++
    List.replicate (maxEntvarData - e.typesize) 0

/-- The name is copied up to its NUL or to the size of the field; then one byte is skipped and
`maxEntvarData` bytes are copied. Nothing here looks at `streamLen` after the guard. -/
def readData (e : SnapshotEntList) (stream : Mem) (streamLen : ℕ) :
    Except String SnapshotEntList :=
  if streamLen < 4 + 4 + 1 + 1 ∨ sizeofEntry + sizeofHeader < streamLen then
    .error "Buffer underflow / overflow."
  else
    let netIDPtr := stream.shift 4
    let controllerPtr := netIDPtr.shift 4
    let sequencePtr := controllerPtr.shift 4
    let forcedPtr := sequencePtr.shift 4
    let namePtr := forcedPtr.shift 1
    let nameLen := namePtr.strlen maxEntvarName
    let dataPtr := namePtr.shift (nameLen + 1)
    let named := e.text.write 0 (namePtr.read nameLen)
    let filled := named.write maxEntvarName (dataPtr.read maxEntvarData)
    .ok { e with
      frameType := u32Of (stream.read 4)
      netID := u32Of (netIDPtr.read 4)
      controller := u32Of (controllerPtr.read 4)
      sequence := u32Of (sequencePtr.read 4)
      forced := forcedPtr 0 != 0
      text := filled.write (maxEntvarName + (maxEntvarData + 1)) [0] }

end SnapshotEntList

/-! ## Frames as values -/

/-- What the getters of a frame object return: the name as a C string, the data as the data field. -/
structure Frame where
  frameType : FrameType
  netID : UInt32
  controller : UInt32
  sequence : UInt32
  forced : Bool
  name : Bytes
  data : Bytes
  deriving DecidableEq, Repr

def SnapshotEntList.content (e : SnapshotEntList) : Frame where
  frameType := e.frameType
  netID := e.netID
  controller := e.controller
  sequence := e.sequence
  forced := e.forced
  name := e.text.cstr sizeofText
  data := (e.text.shift maxEntvarName).read maxEntvarData

/-- All fields are set. As at every call site, the name is set before the data. -/
def SnapshotEntList.fill (f : Frame) (e : SnapshotEntList) : SnapshotEntList :=
  ((((((e.setFrametype f.frameType).setName f.name).setNetid f.netID).setController
    f.controller).setData f.data).setSequence f.sequence).setForced f.forced

namespace Frame

/-- A name of fewer than `maxEntvarName` non-NUL bytes, and data that fits its field. -/
structure Fits (f : Frame) : Prop where
  name_nul : (0 : UInt8) ∉ f.name
  name_lt : f.name.length < maxEntvarName
  data_le : f.data.length ≤ maxEntvarData

instance (f : Frame) : Decidable f.Fits :=
  decidable_of_iff ((0 : UInt8) ∉ f.name ∧ f.name.length < maxEntvarName ∧
      f.data.length ≤ maxEntvarData)
    ⟨fun h => ⟨h.1, h.2.1, h.2.2⟩, fun h => ⟨h.name_nul, h.name_lt, h.data_le⟩⟩

/-- A fresh frame object filled with `f`. -/
def build (f : Frame) : SnapshotEntList := ({} : SnapshotEntList).fill f

/-- The data field once the rest of it is zero. -/
def extended (f : Frame) : Frame :=
  { f with data := f.data ++ List.replicate (maxEntvarData - f.data.length) 0 }

/-- The bytes of a frame. -/
def wire (f : Frame) : Bytes :=
  toLE 4 f.frameType.toNat ++ (toLE 4 f.netID.toNat ++ (toLE 4 f.controller.toNat ++
    (toLE 4 f.sequence.toNat ++ ([f.forced.toUInt8] ++ (f.name ++ ([0] ++ f.extended.data))))))

variable {f : Frame}

theorem length_extended (h : f.Fits) : f.extended.data.length = maxEntvarData := by
  have := h.data_le
  simp only [extended, List.length_append, List.length_replicate]
  omega

theorem length_wire (h : f.Fits) : f.wire.length = 18 + f.name.length + maxEntvarData := by
  simp only [wire, List.length_append, length_toLE, List.length_singleton, length_extended h]
  omega

theorem length_wire_bounds (h : f.Fits) : 146 ≤ f.wire.length ∧ f.wire.length ≤ 209 := by
  have h₁ := length_wire h
  have h₂ := h.name_lt
  unfold maxEntvarName at h₂
  unfold maxEntvarData at h₁
  omega

/-- A frame that was filled holds its name; the byte behind it is left as it is. -/
theorem fill_text_name (hlt : f.name.length < maxEntvarName) (e : SnapshotEntList) :
    (e.fill f).text.read f.name.length = f.name ∧ (e.fill f).text f.name.length = e.text f.name.length := by
  have hfill : (e.fill f).text = ((e.text.write 0 f.name).write (f.name.length + 1) [0]).write
      maxEntvarName f.data := rfl
  constructor
  · rw [hfill, Mem.read_write_of_le _ _ hlt.le, Mem.read_write_of_le _ _ (Nat.le_succ _)]
    simpa using Mem.read_shift_write e.text 0 f.name
  · rw [hfill, Mem.write_apply_lt _ _ hlt, Mem.write_apply_lt _ _ (Nat.lt_succ_self _),
      Mem.write_apply_ge _ _ (Nat.zero_add _).le]

theorem fill_text_data (f : Frame) (e : SnapshotEntList) :
    ((e.fill f).text.shift maxEntvarName).read f.data.length = f.data :=
  Mem.read_shift_write _ _ _

/-- **`write` puts the bytes of the frame on the stream**, if there is a NUL behind the name. -/
theorem write_fill (h : f.Fits) {e : SnapshotEntList} (hz : e.text f.name.length = 0) :
    (e.fill f).write = f.wire := by
  obtain ⟨hn, hbehind⟩ := fill_text_name h.name_lt e
  rw [hz] at hbehind
  have hlt := h.name_lt
  have hlen : (e.fill f).text.strlen SnapshotEntList.sizeofText = f.name.length :=
    Mem.strlen_eq h.name_nul hn hbehind (by unfold SnapshotEntList.sizeofText; omega)
  have hname : (e.fill f).text.read (f.name.length + 1) = f.name ++ [0] := by
    rw [Mem.read_add, hn]
    simp [Mem.read, Mem.shift, hbehind]
  have hdata : ((e.fill f).text.shift maxEntvarName).read (e.fill f).typesize = f.data :=
    fill_text_data f e
  rw [SnapshotEntList.write, hlen, hname, hdata]
  simp only [wire, extended, List.append_assoc]
  rfl

theorem write_build (h : f.Fits) : f.build.write = f.wire :=
  write_fill h rfl

/-- The text a received frame leaves in a fresh object. -/
def receivedText (f : Frame) : Mem :=
  ((Mem.zero.write 0 f.name).write maxEntvarName f.extended.data).write
    (maxEntvarName + (maxEntvarData + 1)) [0]

theorem cstr_receivedText (h : f.Fits) :
    f.receivedText.cstr SnapshotEntList.sizeofText = f.name := by
  have hlt := h.name_lt
  refine Mem.cstr_eq h.name_nul ?_ ?_ (by unfold SnapshotEntList.sizeofText; omega)
  · refine List.ext_getElem (by simp) fun i h₁ h₂ => ?_
    rw [Mem.getElem_read, receivedText, Mem.write_apply_lt _ _ (by omega),
      Mem.write_apply_lt _ _ (by omega), Mem.write_apply_mem _ _ (by omega) (by omega)]
    simp
  · rw [receivedText, Mem.write_apply_lt _ _ (by omega), Mem.write_apply_lt _ _ hlt,
      Mem.write_apply_ge _ _ (by omega)]
    rfl

theorem read_receivedText (h : f.Fits) :
    (f.receivedText.shift maxEntvarName).read maxEntvarData = f.extended.data := by
  have hlen := length_extended h
  refine List.ext_getElem (by simp [hlen]) fun i h₁ h₂ => ?_
  rw [hlen] at h₂
  rw [Mem.getElem_read, Mem.shift, receivedText, Mem.write_apply_lt _ _ (by omega),
    Mem.write_apply_mem _ _ (by omega) (by omega)]
  simp

/-- **Reading a partition that starts with the bytes of a frame gives the frame back**, whatever
follows in memory. -/
theorem readData_wire (h : f.Fits) {m : Mem} {len : ℕ} (hm : m.read f.wire.length = f.wire)
    (h₁ : f.wire.length ≤ len) (h₂ : len ≤ sizeofEntry + sizeofHeader) :
    ∃ e, ({} : SnapshotEntList).readData m len = .ok e ∧ e.content = f.extended := by
  have hb := length_wire_bounds h
  rw [Mem.eq_ofList hm]
  generalize m.shift f.wire.length = past
  unfold wire
  have hone : [f.forced.toUInt8].length = 1 := rfl
  have hforced : ∀ r, Mem.ofList ([f.forced.toUInt8] ++ r) past 0 = f.forced.toUInt8 := fun r => rfl
  -- the name ends at its NUL, and the data begins behind it
  have hname := Mem.read_ofList (l := f.name) rfl ([0] ++ f.extended.data) past
  have hlen : (Mem.ofList (f.name ++ ([0] ++ f.extended.data)) past).strlen maxEntvarName =
      f.name.length := Mem.strlen_eq h.name_nul hname (by simp [Mem.ofList]) h.name_lt
  have hdata : ((Mem.ofList (f.name ++ ([0] ++ f.extended.data)) past).shift
      (f.name.length + 1)).read maxEntvarData = f.extended.data := by
    rw [← List.append_assoc, Mem.shift_ofList (by simp)]
    simpa using Mem.read_ofList (length_extended h) [] past
  refine ⟨_, by rw [SnapshotEntList.readData, if_neg (by omega)], ?_⟩
  simp only [Mem.shift_ofList (length_toLE 4 _), Mem.read_ofList (length_toLE 4 _),
    Mem.shift_ofList hone, hforced, hlen, hname, hdata, u32Of_toLE]
  have hn := cstr_receivedText h
  have hd := read_receivedText h
  unfold receivedText at hn hd
  have hf : (f.forced.toUInt8 != 0) = f.forced := by cases f.forced <;> rfl
  simp only [SnapshotEntList.content, hn, hd, hf]
  rfl

end Frame

end Nettik
