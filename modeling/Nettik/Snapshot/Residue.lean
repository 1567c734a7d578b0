import Nettik.Snapshot.Bounds

/-!
# Frame objects that are used again

`set_name` puts its NUL one byte behind the terminator, and `read_data` puts none; the byte behind a name
is what an earlier call left there.

* `FieldCall`: the calls that write the fields; `mark` what one of them writes at a position of the name;
* **`clean_iff`**: when an object shows nothing of its past.
-/

namespace Nettik

open ByteMem Loops

namespace SnapshotEntList

/-! ## Calls -/

inductive FieldCall where
  | setName (name : Bytes)
  | setData (stream : Bytes)
  | readData (stream : Mem) (streamLen : ℕ)

/-- The name in a partition. -/
def nameLen (stream : Mem) : ℕ := (stream.shift nameOffset).strlen maxEntvarName

namespace FieldCall

/-- Names of less than 63 bytes without a NUL, data that fits. -/
def Short : FieldCall → Prop
  | .setName name => (0 : UInt8) ∉ name ∧ name.length < maxEntvarName - 1
  | .setData stream => stream.length ≤ maxEntvarData
  | .readData stream streamLen => readable streamLen → nameLen stream < maxEntvarName - 1

/-- What a call writes at position `k` of the name: a byte of a name, or a NUL. -/
def mark (k : ℕ) : FieldCall → Option Bool
  | .setName name =>
    if k < name.length then some true else if k = name.length + 1 then some false else none
  | .setData _ => none
  | .readData stream streamLen =>
    if readable streamLen ∧ k < nameLen stream then some true else none

end FieldCall

/-- An exception comes before the first write. -/
def call (e : SnapshotEntList) : FieldCall → SnapshotEntList
  | .setName name => e.setName name
  | .setData stream => e.setData stream
  | .readData stream streamLen =>
    match e.readData stream streamLen with
    | .ok e' => e'
    | .error _ => e

/-- **The law of reuse.** What is written and what the getters return is as on a fresh object. -/
structure Clean (f : Frame) (e : SnapshotEntList) : Prop where
  written : (e.fill f).write = (({} : SnapshotEntList).fill f).write
  received : ∀ stream streamLen,
    stream.read (({} : SnapshotEntList).fill f).write.length = (({} : SnapshotEntList).fill f).write →
    (e.readData stream streamLen).map content =
      (({} : SnapshotEntList).readData stream streamLen).map content

/-! ## The byte behind a name -/

theorem text_readData {stream : Mem} {streamLen : ℕ} {e e' : SnapshotEntList}
    (h : e.readData stream streamLen = .ok e') :
    e'.text = ((e.text.write 0 ((stream.shift nameOffset).read (nameLen stream))).write maxEntvarName
      ((stream.shift (dataOffset stream)).read maxEntvarData)).write
        (maxEntvarName + (maxEntvarData + 1)) [0] := by
  have hr := readable_of_ok h
  unfold readable at hr
  rw [readData, if_neg (by omega)] at h
  obtain rfl := Except.ok.inj h
  simp only [Mem.shift_shift, ← Nat.add_assoc]
  rfl

/-- **What one call does to a byte of the name field.** -/
theorem text_call {k : ℕ} (hk : k < maxEntvarName) {c : FieldCall} (hc : c.Short)
    (e : SnapshotEntList) :
    ((e.call c).text k != 0) = (c.mark k).getD (e.text k != 0) := by
  cases c with
  | setName name =>
    show (((e.text.write 0 name).write (name.length + 1) [0]) k != 0) = _
    rw [FieldCall.mark]
    split_ifs with h₁ h₂
    · rw [Mem.write_apply_lt _ _ (by omega), Mem.write_apply_mem _ _ (by omega) (by omega)]
      have hne : name[k - 0] ≠ 0 := fun h0 => hc.1 (h0 ▸ List.getElem_mem _)
      simpa using hne
    · subst h₂
      rw [Mem.write_apply_mem _ _ le_rfl (by simp)]
      simp
    · rw [Option.getD_none]
      rcases Nat.lt_or_ge k (name.length + 1) with h | h
      · rw [Mem.write_apply_lt _ _ h, Mem.write_apply_ge _ _ (by omega)]
      · rw [Mem.write_apply_ge _ _ (by rw [List.length_singleton]; omega),
          Mem.write_apply_ge _ _ (by omega)]
  | setData stream =>
    show ((e.text.write maxEntvarName stream) k != 0) = _
    rw [Mem.write_apply_lt _ _ hk]
    rfl
  | readData stream streamLen =>
    rw [FieldCall.mark]
    by_cases hr : readable streamLen
    · obtain ⟨e', he'⟩ := exists_readData hr stream e
      have hcall : e.call (.readData stream streamLen) = e' := by rw [call, he']
      rw [hcall, text_readData he', Mem.write_apply_lt _ _ (by omega), Mem.write_apply_lt _ _ hk]
      split_ifs with h
      · have hlen : k - 0 < ((stream.shift nameOffset).read (nameLen stream)).length := by
          rw [Mem.length_read]
          exact h.2
        rw [Mem.write_apply_mem _ _ (Nat.zero_le k) hlen, Mem.getElem_read]
        simpa using Mem.ne_zero_of_lt_strlen h.2
      · rw [Mem.write_apply_ge _ _ (by rw [Mem.length_read]; have := not_and.mp h hr; omega)]
        rfl
    · have hcall : e.call (.readData stream streamLen) = e := by rw [call, readData_error hr]
      rw [hcall, if_neg fun h => hr h.1]
      rfl

/-- **What a run leaves at a position of the name**: what the last call wrote that wrote there. -/
theorem text_calls {k : ℕ} (hk : k < maxEntvarName) {calls : List FieldCall}
    (hcalls : ∀ c ∈ calls, c.Short) :
    ((calls.foldl call {}).text k != 0) = (calls.filterMap (FieldCall.mark k)).getLast?.getD false :=
  foldl_last (fun e : SnapshotEntList => e.text k != 0)
    (fun c hc e => text_call hk (hcalls c hc) e) {}

/-! ## What is shown of the past -/

theorem length_write (e : SnapshotEntList) :
    e.write.length = 18 + e.text.strlen sizeofText + max e.typesize maxEntvarData := by
  simp only [write, List.length_append, length_toLE, List.length_singleton, Mem.length_read,
    List.length_replicate]
  omega

theorem fill_written_iff {f : Frame} (h : f.Fits) (e : SnapshotEntList) :
    (e.fill f).write = (({} : SnapshotEntList).fill f).write ↔ e.text f.name.length = 0 := by
  have hfresh : (({} : SnapshotEntList).fill f).write = f.wire := Frame.write_fill h rfl
  rw [hfresh]
  refine ⟨fun heq => ?_, Frame.write_fill h⟩
  by_contra hne
  obtain ⟨hname, hbehind⟩ := Frame.fill_text_name h.name_lt e
  -- the string goes on behind the name
  have hlong : f.name.length < (e.fill f).text.strlen sizeofText := by
    refine Mem.lt_strlen (fun i hi => ?_) (Nat.lt_trans h.name_lt (by decide))
    rcases Nat.lt_or_eq_of_le hi with hlt | rfl
    · intro hz
      refine h.name_nul ?_
      rw [← hname]
      exact List.mem_map.mpr ⟨i, List.mem_range.mpr hlt, hz⟩
    · rwa [hbehind]
  have hlen := congrArg List.length heq
  have htype : (e.fill f).typesize = f.data.length := rfl
  rw [length_write, Frame.length_wire h, htype, Nat.max_eq_right h.data_le] at hlen
  omega

theorem nameLen_wire {f : Frame} (h : f.Fits) {stream : Mem} (hs : stream.read f.wire.length = f.wire) :
    nameLen stream = f.name.length := by
  rw [nameLen, Mem.eq_ofList hs]
  generalize stream.shift f.wire.length = past
  have hone : [f.forced.toUInt8].length = 1 := rfl
  have hname := Mem.read_ofList (l := f.name) rfl ([0] ++ f.extended.data) past
  simp only [nameOffset, ← Mem.shift_shift, Frame.wire, Mem.shift_ofList (length_toLE 4 _),
    Mem.shift_ofList hone]
  exact Mem.strlen_eq h.name_nul hname (by simp [Mem.ofList]) h.name_lt

/-- What the getters return after a read, if there is a NUL behind the name. -/
theorem content_readData {stream : Mem} {streamLen : ℕ} {e e' : SnapshotEntList}
    (he : e.readData stream streamLen = .ok e') (hlt : nameLen stream < maxEntvarName)
    (hz : e.text (nameLen stream) = 0) :
    e'.content.name = (stream.shift nameOffset).read (nameLen stream) ∧
      e'.content.data = (stream.shift (dataOffset stream)).read maxEntvarData := by
  have hnul : (0 : UInt8) ∉ (stream.shift nameOffset).read (nameLen stream) := by
    intro hmem
    obtain ⟨i, hi, hzero⟩ := List.mem_map.mp hmem
    exact Mem.ne_zero_of_lt_strlen (List.mem_range.mp hi) hzero
  have hname : ((stream.shift nameOffset).read (nameLen stream)).length = nameLen stream :=
    Mem.length_read _ _
  have hdata : ((stream.shift (dataOffset stream)).read maxEntvarData).length = maxEntvarData :=
    Mem.length_read _ _
  have hle : nameLen stream ≤ maxEntvarName + (maxEntvarData + 1) := by omega
  constructor
  · refine Mem.cstr_eq hnul ?_ ?_ ?_
    · rw [hname, text_readData he, Mem.read_write_of_le _ _ hle, Mem.read_write_of_le _ _ hlt.le]
      simpa [hname] using
        Mem.read_shift_write e.text 0 ((stream.shift nameOffset).read (nameLen stream))
    · rw [hname, text_readData he, Mem.write_apply_lt _ _ (by omega), Mem.write_apply_lt _ _ hlt,
        Mem.write_apply_ge _ _ (by omega), hz]
    · rw [hname]
      exact Nat.lt_trans hlt (by decide)
  · refine List.ext_getElem (by simp [content]) fun i h₁ h₂ => ?_
    rw [hdata] at h₂
    simp only [content, Mem.getElem_read, Mem.shift]
    rw [text_readData he, Mem.write_apply_lt _ _ (by omega), Mem.write_apply_mem _ _ (by omega)
      (by rw [hdata]; omega), Mem.getElem_read]
    simp [Mem.shift]

/-- The other getters return what is in the stream. -/
theorem content_readData_rest {stream : Mem} {streamLen : ℕ} {e₁ e₂ e₁' e₂' : SnapshotEntList}
    (h₁ : e₁.readData stream streamLen = .ok e₁') (h₂ : e₂.readData stream streamLen = .ok e₂')
    (hname : e₁'.content.name = e₂'.content.name) (hdata : e₁'.content.data = e₂'.content.data) :
    e₁'.content = e₂'.content := by
  have hr := readable_of_ok h₁
  unfold readable at hr
  rw [readData, if_neg (by omega)] at h₁ h₂
  obtain rfl := Except.ok.inj h₁
  obtain rfl := Except.ok.inj h₂
  simp only [content] at hname hdata ⊢
  rw [hname, hdata]

/-- **An object shows nothing of its past exactly when it holds a NUL behind the name.** -/
theorem clean_iff_text {f : Frame} (h : f.Fits) (e : SnapshotEntList) :
    e.Clean f ↔ e.text f.name.length = 0 := by
  refine ⟨fun hclean => (fill_written_iff h e).mp hclean.written, fun hz => ?_⟩
  refine ⟨(fill_written_iff h e).mpr hz, fun stream streamLen hs => ?_⟩
  rw [show (({} : SnapshotEntList).fill f).write = f.wire from Frame.write_fill h rfl] at hs
  by_cases hr : readable streamLen
  · obtain ⟨e₁, h₁⟩ := exists_readData hr stream e
    obtain ⟨e₂, h₂⟩ := exists_readData hr stream {}
    have hlen := nameLen_wire h hs
    have hlt : nameLen stream < maxEntvarName := hlen ▸ h.name_lt
    obtain ⟨hname₁, hdata₁⟩ := content_readData h₁ hlt (hlen ▸ hz)
    obtain ⟨hname₂, hdata₂⟩ := content_readData h₂ hlt rfl
    rw [h₁, h₂]
    exact congrArg Except.ok (content_readData_rest h₁ h₂ (hname₁.trans hname₂.symm)
      (hdata₁.trans hdata₂.symm))
  · rw [readData_error hr, readData_error hr]

/-- **When an object that was used shows nothing of its past**: the last call that wrote behind the new
name did not write a longer name. -/
theorem clean_iff {calls : List FieldCall} (hcalls : ∀ c ∈ calls, c.Short) {f : Frame} (h : f.Fits) :
    (calls.foldl call {}).Clean f ↔
      (calls.filterMap (FieldCall.mark f.name.length)).getLast? ≠ some true := by
  have hbyte : (calls.foldl call {}).text f.name.length = 0 ↔
      ((calls.foldl call {}).text f.name.length != 0) = false := by simp
  rw [clean_iff_text h, hbyte, text_calls h.name_lt hcalls]
  cases (calls.filterMap (FieldCall.mark f.name.length)).getLast? with
  | none => simp
  | some b => cases b <;> simp

/-- The frame of a variable `a`. -/
def shortFrame : Frame where
  frameType := kFrameData
  netID := 1
  controller := netControllerNone
  sequence := 1
  forced := false
  name := [97]
  data := [7]

/-- The names before. -/
def names (l : List Bytes) : List FieldCall := l.map FieldCall.setName

theorem short_names {l : List Bytes} (h : ∀ n ∈ l, (0 : UInt8) ∉ n ∧ n.length < maxEntvarName - 1) :
    ∀ c ∈ names l, c.Short :=
  List.forall_mem_map.mpr h

/-- The names before were `xyz` and the empty one, whose NUL lies behind the `a`. -/
theorem clean_iff_wiped : (∀ c ∈ names [[120, 121, 122], []], c.Short) ∧ shortFrame.Fits ∧
    (((names [[120, 121, 122], []]).foldl call {}).Clean shortFrame ↔
      ((names [[120, 121, 122], []]).filterMap (FieldCall.mark 1)).getLast? ≠ some true) ∧
    (names [[120, 121, 122], []]).filterMap (FieldCall.mark 1) = [true, false] := by
  have hshort := short_names (l := [[120, 121, 122], []]) (by decide)
  have hfits : shortFrame.Fits := by decide
  exact ⟨hshort, hfits, clean_iff hshort hfits, by decide⟩

/-- The name before was `xyz`: the frame goes out under the name `ay`. -/
theorem not_clean_longer : ¬ ∀ calls : List FieldCall, (∀ c ∈ calls, c.Short) → ∀ f : Frame, f.Fits →
    f.name.length < maxEntvarName - 1 → (calls.foldl call {}).Clean f := by
  intro h
  have hshort := short_names (l := [[120, 121, 122]]) (by decide)
  have hwritten := (h _ hshort shortFrame (by decide) (by decide)).written
  exact absurd hwritten (by decide)

end SnapshotEntList

end Nettik
