import Nettik.World.Coded
import Nettik.World.Recv

/-!
# Generated messages

What `protoc` generates for `EntityMessages.proto`: every message is read by the loop over its own cases,
and written field after field.

* `MessageClass`: a generated class; `parseFromArray`;
* `iNetworkAssociatedObject`, `iNetworkMapAdd`, `iNetworkMapUpdate`, `iNetworkMapRemove`: the classes;
* **`jumps`**, **`accepted_ended`**, **`byteSize_announces`**, **`parse_parts`**: what the classes do;
* **`listMsgOf_generated`**: the packets of lists.
-/

namespace Nettik

open ByteMem Wire CodedInputStream

/-! ## Writing -/

theorem shiftRight_lt {value : UInt32} (h : 0x80 ≤ value) : (value >>> 7).toNat < value.toNat := by
  rw [UInt32.le_iff_toNat_le] at h
  rw [UInt32.toNat_shiftRight]
  show value.toNat >>> 7 < value.toNat
  rw [Nat.shiftRight_eq_div_pow]
  exact Nat.div_lt_self (Nat.lt_of_lt_of_le (by decide) h) (by decide)

def writeVarint32ToArray (value : UInt32) : Bytes :=
  if 0x80 ≤ value then (value ||| 0x80).toUInt8 :: writeVarint32ToArray (value >>> 7) else [value.toUInt8]
termination_by value.toNat
decreasing_by exact shiftRight_lt ‹_›

def makeTag (fieldNumber wireType : UInt32) : UInt32 := fieldNumber <<< 3 ||| wireType

def writeUInt32ToArray (fieldNumber value : UInt32) : Bytes :=
  writeVarint32ToArray (makeTag fieldNumber 0) ++ writeVarint32ToArray value

/-- The text behind its size. -/
def writeSizedToArray (fieldNumber : UInt32) (size : ℕ) (text : Bytes) : Bytes :=
  writeVarint32ToArray (makeTag fieldNumber 2) ++ (writeVarint32ToArray (UInt32.ofNat size) ++ text)

def writeStringToArray (fieldNumber : UInt32) (value : Bytes) : Bytes :=
  writeSizedToArray fieldNumber value.length value

variable (lib : CodedLib)

def varintSize32 (value : UInt32) : ℕ :=
  if value < 0x80 then 1 else lib.varintSize32Fallback value

def lengthDelimitedSize (length : ℕ) : ℕ := varintSize32 lib (UInt32.ofNat length) + length

/-! ## Classes -/

structure MessageClass (M : Type) where
  clear : M
  mergePartialFromCodedStream : M → CodedInputStream → Bool × M × CodedInputStream
  serializeWithCachedSizesToArray : M → Bytes
  byteSize : M → ℕ
  mergeFrom : M → M → M

variable {M : Type}

/-- A message is cleared and read, and has to end with the array. -/
def MessageClass.parseFromArray (c : MessageClass M) (data : Bytes) : Bool × M :=
  let (ok, m, s) := c.mergePartialFromCodedStream c.clear ⟨data, false⟩
  (ok && s.legitimateMessageEnd, m)

def readString (get : M → Bytes) (set : Bytes → M → M) (m : M) (s : CodedInputStream) :
    Bool × M × CodedInputStream :=
  let (ok, value, rest) := lib.readBytes (get m) s.buffer
  (ok, set value m, { s with buffer := rest })

def readUInt32 (set : UInt32 → M → M) (m : M) (s : CodedInputStream) : Bool × M × CodedInputStream :=
  let (ok, value, s) := s.readVarint32 lib
  (ok, set value m, s)

/-! ### `INetworkAssociatedObject` -/

namespace AssociatedObject

def clear : AssociatedObject := ⟨[], [], 0⟩

def cases : List (FieldCase AssociatedObject) :=
  [⟨10, readString lib instanceName fun b o => { o with instanceName := b }⟩,
    ⟨18, readString lib managerName fun b o => { o with managerName := b }⟩,
    ⟨24, readUInt32 lib fun n o => { o with networkCode := n }⟩]

theorem tagged : Tagged [10, 18, 24] := ⟨by simp, by simp, by decide⟩

def schema : Schema AssociatedObject := ⟨cases lib, tagged⟩

def serializeWithCachedSizesToArray (o : AssociatedObject) : Bytes :=
  (if 0 < o.instanceName.length then writeStringToArray 1 o.instanceName else []) ++
    ((if 0 < o.managerName.length then writeStringToArray 2 o.managerName else []) ++
      (if o.networkCode ≠ 0 then writeUInt32ToArray 3 o.networkCode else []))

def byteSize (o : AssociatedObject) : ℕ :=
  (if 0 < o.instanceName.length then 1 + lengthDelimitedSize lib o.instanceName.length else 0) +
    ((if 0 < o.managerName.length then 1 + lengthDelimitedSize lib o.managerName.length else 0) +
      (if o.networkCode ≠ 0 then 1 + varintSize32 lib o.networkCode else 0))

def mergeFrom (o «from» : AssociatedObject) : AssociatedObject where
  instanceName := if 0 < «from».instanceName.length then «from».instanceName else o.instanceName
  managerName := if 0 < «from».managerName.length then «from».managerName else o.managerName
  networkCode := if «from».networkCode ≠ 0 then «from».networkCode else o.networkCode

end AssociatedObject

/-- With the loop that jumps or the one that does not. -/
def associatedObjectWith (parse : Parse AssociatedObject) : MessageClass AssociatedObject where
  clear := .clear
  mergePartialFromCodedStream := mergePartial lib parse (AssociatedObject.schema lib)
  serializeWithCachedSizesToArray := AssociatedObject.serializeWithCachedSizesToArray
  byteSize := AssociatedObject.byteSize lib
  mergeFrom := AssociatedObject.mergeFrom

def iNetworkAssociatedObject : MessageClass AssociatedObject := associatedObjectWith lib parseFrom

/-! ### Messages with a target -/

/-- `mutable_target_object` makes the object that is read into. -/
def readTarget (object : MessageClass AssociatedObject) (get : M → Option AssociatedObject)
    (set : Option AssociatedObject → M → M) (m : M) (s : CodedInputStream) :
    Bool × M × CodedInputStream :=
  let (ok, target, s) :=
    s.readMessageNoVirtual lib object.mergePartialFromCodedStream ((get m).getD object.clear)
  (ok, set (some target) m, s)

/-- The size in front of the object is the one that `ByteSize` cached in it. -/
def writeTargetToArray (object : MessageClass AssociatedObject) : Option AssociatedObject → Bytes
  | some o => writeSizedToArray 1 (object.byteSize o) (object.serializeWithCachedSizesToArray o)
  | none => []

def targetSize (object : MessageClass AssociatedObject) : Option AssociatedObject → ℕ
  | some o => 1 + lengthDelimitedSize lib (object.byteSize o)
  | none => 0

def mergeTarget (object : MessageClass AssociatedObject) (target : Option AssociatedObject) :
    Option AssociatedObject → Option AssociatedObject
  | some o => some (object.mergeFrom (target.getD object.clear) o)
  | none => target

/-! ### `INetworkMapAdd` -/

structure INetworkMapAdd where
  targetObject : Option AssociatedObject
  key : UInt32
  value : Bytes
  listID : UInt32
  deriving DecidableEq, Repr

namespace INetworkMapAdd

def clear : INetworkMapAdd := ⟨none, 0, [], 0⟩

def cases (object : MessageClass AssociatedObject) : List (FieldCase INetworkMapAdd) :=
  [⟨10, readTarget lib object targetObject fun t m => { m with targetObject := t }⟩,
    ⟨16, readUInt32 lib fun n m => { m with key := n }⟩,
    ⟨26, readString lib value fun b m => { m with value := b }⟩,
    ⟨32, readUInt32 lib fun n m => { m with listID := n }⟩]

theorem tagged : Tagged [10, 16, 26, 32] := ⟨by simp, by simp, by decide⟩

def schema (object : MessageClass AssociatedObject) : Schema INetworkMapAdd := ⟨cases lib object, tagged⟩

def serializeWithCachedSizesToArray (object : MessageClass AssociatedObject) (m : INetworkMapAdd) :
    Bytes :=
  writeTargetToArray object m.targetObject ++
    ((if m.key ≠ 0 then writeUInt32ToArray 2 m.key else []) ++
      ((if 0 < m.value.length then writeStringToArray 3 m.value else []) ++
        (if m.listID ≠ 0 then writeUInt32ToArray 4 m.listID else [])))

def byteSize (object : MessageClass AssociatedObject) (m : INetworkMapAdd) : ℕ :=
  targetSize lib object m.targetObject +
    ((if m.key ≠ 0 then 1 + varintSize32 lib m.key else 0) +
      ((if 0 < m.value.length then 1 + lengthDelimitedSize lib m.value.length else 0) +
        (if m.listID ≠ 0 then 1 + varintSize32 lib m.listID else 0)))

def mergeFrom (object : MessageClass AssociatedObject) (m «from» : INetworkMapAdd) : INetworkMapAdd where
  targetObject := mergeTarget object m.targetObject «from».targetObject
  key := if «from».key ≠ 0 then «from».key else m.key
  value := if 0 < «from».value.length then «from».value else m.value
  listID := if «from».listID ≠ 0 then «from».listID else m.listID

end INetworkMapAdd

def mapAddWith (object : MessageClass AssociatedObject) (parse : Parse INetworkMapAdd) :
    MessageClass INetworkMapAdd where
  clear := .clear
  mergePartialFromCodedStream := mergePartial lib parse (INetworkMapAdd.schema lib object)
  serializeWithCachedSizesToArray := INetworkMapAdd.serializeWithCachedSizesToArray object
  byteSize := INetworkMapAdd.byteSize lib object
  mergeFrom := INetworkMapAdd.mergeFrom object

def iNetworkMapAdd : MessageClass INetworkMapAdd := mapAddWith lib (iNetworkAssociatedObject lib) parseFrom

/-- `INetworkMapUpdate` has the fields of `INetworkMapAdd`. -/
abbrev INetworkMapUpdate := INetworkMapAdd

def iNetworkMapUpdate : MessageClass INetworkMapUpdate :=
  mapAddWith lib (iNetworkAssociatedObject lib) parseFrom

/-! ### `INetworkMapRemove` -/

structure INetworkMapRemove where
  targetObject : Option AssociatedObject
  key : UInt32
  listID : UInt32
  deriving DecidableEq, Repr

namespace INetworkMapRemove

def clear : INetworkMapRemove := ⟨none, 0, 0⟩

def cases (object : MessageClass AssociatedObject) : List (FieldCase INetworkMapRemove) :=
  [⟨10, readTarget lib object targetObject fun t m => { m with targetObject := t }⟩,
    ⟨16, readUInt32 lib fun n m => { m with key := n }⟩,
    ⟨24, readUInt32 lib fun n m => { m with listID := n }⟩]

theorem tagged : Tagged [10, 16, 24] := ⟨by simp, by simp, by decide⟩

def schema (object : MessageClass AssociatedObject) : Schema INetworkMapRemove :=
  ⟨cases lib object, tagged⟩

def serializeWithCachedSizesToArray (object : MessageClass AssociatedObject) (m : INetworkMapRemove) :
    Bytes :=
  writeTargetToArray object m.targetObject ++
    ((if m.key ≠ 0 then writeUInt32ToArray 2 m.key else []) ++
      (if m.listID ≠ 0 then writeUInt32ToArray 3 m.listID else []))

def byteSize (object : MessageClass AssociatedObject) (m : INetworkMapRemove) : ℕ :=
  targetSize lib object m.targetObject +
    ((if m.key ≠ 0 then 1 + varintSize32 lib m.key else 0) +
      (if m.listID ≠ 0 then 1 + varintSize32 lib m.listID else 0))

def mergeFrom (object : MessageClass AssociatedObject) (m «from» : INetworkMapRemove) :
    INetworkMapRemove where
  targetObject := mergeTarget object m.targetObject «from».targetObject
  key := if «from».key ≠ 0 then «from».key else m.key
  listID := if «from».listID ≠ 0 then «from».listID else m.listID

end INetworkMapRemove

def mapRemoveWith (object : MessageClass AssociatedObject) (parse : Parse INetworkMapRemove) :
    MessageClass INetworkMapRemove where
  clear := .clear
  mergePartialFromCodedStream := mergePartial lib parse (INetworkMapRemove.schema lib object)
  serializeWithCachedSizesToArray := INetworkMapRemove.serializeWithCachedSizesToArray object
  byteSize := INetworkMapRemove.byteSize lib object
  mergeFrom := INetworkMapRemove.mergeFrom object

def iNetworkMapRemove : MessageClass INetworkMapRemove :=
  mapRemoveWith lib (iNetworkAssociatedObject lib) parseFrom

variable {lib}

/-! ## The jumps -/

theorem readString_le (h : lib.Reads) (get : M → Bytes) (set : Bytes → M → M) (m : M)
    (s : CodedInputStream) : (readString lib get set m s).2.2.buffer.length ≤ s.buffer.length :=
  h.bytes_le (get m) s.buffer

theorem readUInt32_le (h : lib.Reads) (set : UInt32 → M → M) (m : M) (s : CodedInputStream) :
    (readUInt32 lib set m s).2.2.buffer.length ≤ s.buffer.length :=
  readVarint32_le h s

/-- A message that reads forwards within its limit does so in the message around it. -/
theorem readMessageNoVirtual_le (h : lib.Reads)
    {merge : M → CodedInputStream → Bool × M × CodedInputStream}
    (hmerge : ∀ m s, (merge m s).2.2.buffer.length ≤ s.buffer.length) (m : M) (s : CodedInputStream) :
    (s.readMessageNoVirtual lib merge m).2.2.buffer.length ≤ s.buffer.length := by
  have hlength := readVarint32_le h s
  rw [readMessageNoVirtual]
  generalize s.readVarint32 lib = r at hlength ⊢
  obtain ⟨ok, length, s'⟩ := r
  dsimp only at hlength ⊢
  split_ifs
  · exact hlength
  · have hinner := hmerge m { s' with buffer := s'.buffer.take length.toNat }
    generalize merge m { s' with buffer := s'.buffer.take length.toNat } = r at hinner ⊢
    obtain ⟨ok', m', inner⟩ := r
    have hlen : inner.buffer.length ≤ min length.toNat s'.buffer.length :=
      hinner.trans_eq List.length_take
    have happend : (inner.buffer ++ s'.buffer.drop length.toNat).length ≤ s.buffer.length := by
      rw [List.length_append, List.length_drop]
      omega
    exact happend

theorem object_forwards (h : lib.Reads) : Forwards (AssociatedObject.cases lib) := by
  simp only [Forwards, AssociatedObject.cases, List.forall_mem_cons]
  exact ⟨readString_le h _ _, readString_le h _ _, readUInt32_le h _, by simp⟩

/-- A class that reads forwards. -/
def MessageClass.Forwards (c : MessageClass M) : Prop :=
  ∀ m s, (c.mergePartialFromCodedStream m s).2.2.buffer.length ≤ s.buffer.length

theorem associatedObject_forwards (h : lib.Reads) : (iNetworkAssociatedObject lib).Forwards := by
  have hparse : ∀ fs, fs <:+ AssociatedObject.cases lib → ∀ m s,
      (parseFrom fs m s).stream.buffer.length ≤ s.buffer.length := fun fs hfs m s =>
    parseFrom_le (fun f hf => object_forwards h f (hfs.subset hf)) m s
  exact fun m s => mergeWith_le h hparse _ m s

variable {object : MessageClass AssociatedObject}

theorem readTarget_le (h : lib.Reads) (hobject : object.Forwards) (get : M → Option AssociatedObject)
    (set : Option AssociatedObject → M → M) (m : M) (s : CodedInputStream) :
    (readTarget lib object get set m s).2.2.buffer.length ≤ s.buffer.length :=
  readMessageNoVirtual_le h hobject _ s

theorem mapAdd_forwards (h : lib.Reads) (hobject : object.Forwards) :
    Forwards (INetworkMapAdd.cases lib object) := by
  simp only [Forwards, INetworkMapAdd.cases, List.forall_mem_cons]
  exact ⟨readTarget_le h hobject _ _, readUInt32_le h _, readString_le h _ _, readUInt32_le h _, by simp⟩

theorem mapRemove_forwards (h : lib.Reads) (hobject : object.Forwards) :
    Forwards (INetworkMapRemove.cases lib object) := by
  simp only [Forwards, INetworkMapRemove.cases, List.forall_mem_cons]
  exact ⟨readTarget_le h hobject _ _, readUInt32_le h _, readUInt32_le h _, by simp⟩

theorem associatedObject_plain (h : lib.Reads) :
    iNetworkAssociatedObject lib = associatedObjectWith lib parseOne :=
  congrArg (fun merge => { iNetworkAssociatedObject lib with mergePartialFromCodedStream := merge })
    (mergePartial_eq_plain h (object_forwards h))

theorem mapAddWith_plain (h : lib.Reads) (hobject : object.Forwards) :
    mapAddWith lib object parseFrom = mapAddWith lib object parseOne :=
  congrArg (fun merge => { mapAddWith lib object parseOne with mergePartialFromCodedStream := merge })
    (mergePartial_eq_plain h (mapAdd_forwards h hobject))

theorem mapAdd_plain (h : lib.Reads) :
    iNetworkMapAdd lib = mapAddWith lib (associatedObjectWith lib parseOne) parseOne := by
  rw [← associatedObject_plain h]
  exact mapAddWith_plain h (associatedObject_forwards h)

theorem mapRemoveWith_plain (h : lib.Reads) (hobject : object.Forwards) :
    mapRemoveWith lib object parseFrom = mapRemoveWith lib object parseOne :=
  congrArg (fun merge => { mapRemoveWith lib object parseOne with mergePartialFromCodedStream := merge })
    (mergePartial_eq_plain h (mapRemove_forwards h hobject))

theorem mapRemove_plain (h : lib.Reads) :
    iNetworkMapRemove lib = mapRemoveWith lib (associatedObjectWith lib parseOne) parseOne := by
  rw [← associatedObject_plain h]
  exact mapRemoveWith_plain h (associatedObject_forwards h)

/-- **The jumps from one field to the next change nothing**: every generated class is the one whose loop
goes back to reading a tag after each field, in the message and in its target. -/
theorem jumps (h : lib.Reads) :
    iNetworkAssociatedObject lib = associatedObjectWith lib parseOne ∧
      iNetworkMapAdd lib = mapAddWith lib (associatedObjectWith lib parseOne) parseOne ∧
      iNetworkMapUpdate lib = mapAddWith lib (associatedObjectWith lib parseOne) parseOne ∧
      iNetworkMapRemove lib = mapRemoveWith lib (associatedObjectWith lib parseOne) parseOne :=
  ⟨associatedObject_plain h, mapAdd_plain h, mapAdd_plain h, mapRemove_plain h⟩

/-! ## The end of a message -/

/-- Accepted data was read to its end. -/
def MessageClass.ReadsAll (c : MessageClass M) : Prop :=
  ∀ data m, c.parseFromArray data = (true, m) →
    (c.mergePartialFromCodedStream c.clear ⟨data, false⟩).2.2.buffer = []

theorem readVarint32_open {s : CodedInputStream} (hs : s.legitimateMessageEnd = false) :
    (s.readVarint32 lib).2.2.legitimateMessageEnd = false := by
  rw [readVarint32]
  split
  · split_ifs <;> exact hs
  · exact hs

theorem readUInt32_open (set : UInt32 → M → M) (m : M) {s : CodedInputStream}
    (hs : s.legitimateMessageEnd = false) : (readUInt32 lib set m s).2.2.legitimateMessageEnd = false :=
  readVarint32_open hs

theorem readTarget_open (get : M → Option AssociatedObject) (set : Option AssociatedObject → M → M) (m : M)
    {s : CodedInputStream} (hs : s.legitimateMessageEnd = false) :
    (readTarget lib object get set m s).2.2.legitimateMessageEnd = false := by
  have hlength : (s.readVarint32 lib).2.2.legitimateMessageEnd = false := readVarint32_open hs
  rw [readTarget, readMessageNoVirtual]
  generalize s.readVarint32 lib = r at hlength ⊢
  obtain ⟨ok, length, s'⟩ := r
  cases ok with
  | false => exact hlength
  | true => rfl

/-- A loop whose cases keep the message open. -/
theorem readsAll_of (h : lib.Reads) {c : MessageClass M} {schema : Schema M}
    (hkeeps : KeepsOpen schema.cases)
    (hmerge : c.mergePartialFromCodedStream = mergePartial lib parseFrom schema) : c.ReadsAll := by
  intro data m hparse
  have hboth : ((c.mergePartialFromCodedStream c.clear ⟨data, false⟩).1 &&
      (c.mergePartialFromCodedStream c.clear ⟨data, false⟩).2.2.legitimateMessageEnd) = true :=
    congrArg Prod.fst hparse
  obtain ⟨hok, hlegitimate⟩ := Bool.and_eq_true_iff.mp hboth
  rw [hmerge] at hok hlegitimate ⊢
  exact mergeWith_ended h hkeeps _ c.clear rfl hok hlegitimate

/-- **What is accepted was read to its end.** -/
theorem accepted_ended (h : lib.Reads) :
    (iNetworkAssociatedObject lib).ReadsAll ∧ (iNetworkMapAdd lib).ReadsAll ∧
      (iNetworkMapUpdate lib).ReadsAll ∧ (iNetworkMapRemove lib).ReadsAll := by
  have hobject : KeepsOpen (AssociatedObject.cases lib) := by
    simp only [KeepsOpen, AssociatedObject.cases, List.forall_mem_cons]
    exact ⟨fun _ _ hs => hs, fun _ _ hs => hs, fun m s => readUInt32_open _ m, by simp⟩
  have hadd : KeepsOpen (INetworkMapAdd.cases lib (iNetworkAssociatedObject lib)) := by
    simp only [KeepsOpen, INetworkMapAdd.cases, List.forall_mem_cons]
    exact ⟨fun m s => readTarget_open _ _ m, fun m s => readUInt32_open _ m, fun _ _ hs => hs,
      fun m s => readUInt32_open _ m, by simp⟩
  have hremove : KeepsOpen (INetworkMapRemove.cases lib (iNetworkAssociatedObject lib)) := by
    simp only [KeepsOpen, INetworkMapRemove.cases, List.forall_mem_cons]
    exact ⟨fun m s => readTarget_open _ _ m, fun m s => readUInt32_open _ m,
      fun m s => readUInt32_open _ m, by simp⟩
  exact ⟨readsAll_of h hobject rfl, readsAll_of h hadd rfl, readsAll_of h hadd rfl,
    readsAll_of h hremove rfl⟩

/-! ## Sizes -/

theorem writeVarint32ToArray_eq (value : UInt32) : writeVarint32ToArray value = varint value.toNat := by
  induction hn : value.toNat using Nat.strong_induction_on generalizing value with
  | _ n ih =>
    subst hn
    rw [writeVarint32ToArray, varint]
    by_cases h : 0x80 ≤ value
    · have hle : 128 ≤ value.toNat := UInt32.le_iff_toNat_le.mp h
      have hbyte : ∀ i < 256, i ||| 128 = i % 128 + 128 := by decide +kernel
      have hhead : (value ||| 0x80).toUInt8 = UInt8.ofNat (value.toNat % 128 + 128) := by
        rw [← UInt8.toNat_inj, UInt32.toNat_toUInt8, UInt32.toNat_or, toNat_byte (by omega)]
        show (value.toNat ||| 128) % 2 ^ 8 = _
        rw [Nat.or_mod_two_pow, show 128 % 2 ^ 8 = 128 from rfl, hbyte _ (Nat.mod_lt _ (by decide))]
        omega
      have htail : (value >>> 7).toNat = value.toNat / 128 := by
        rw [UInt32.toNat_shiftRight]
        exact Nat.shiftRight_eq_div_pow value.toNat 7
      rw [if_pos h, if_neg (Nat.not_lt.mpr hle), hhead, ih _ (shiftRight_lt h) _ rfl, htail]
    · have hlt : value.toNat < 128 := Nat.not_le.mp fun hle => h (UInt32.le_iff_toNat_le.mpr hle)
      rw [if_neg h, if_pos hlt]
      rfl

theorem varintSize32_eq (h : lib.Documented) (value : UInt32) :
    varintSize32 lib value = (writeVarint32ToArray value).length := by
  rw [writeVarint32ToArray_eq, varintSize32]
  split_ifs with hlow
  · rw [varint_of_lt (UInt32.lt_iff_toNat_lt.mp hlow)]
    rfl
  · exact h.varint_size value (Nat.not_lt.mp fun hlt => hlow (UInt32.lt_iff_toNat_lt.mpr hlt))

section

variable {tag number : UInt32}

/-- A tag of one byte. -/
theorem length_tag (h : tag.toNat < 128) : (writeVarint32ToArray tag).length = 1 := by
  rw [writeVarint32ToArray_eq, varint_of_lt h]
  rfl

theorem length_writeSized (h : lib.Documented) (hn : (makeTag number 2).toNat < 128) (text : Bytes) :
    (writeSizedToArray number text.length text).length = 1 + lengthDelimitedSize lib text.length := by
  rw [writeSizedToArray, List.length_append, List.length_append, length_tag hn, lengthDelimitedSize,
    varintSize32_eq h]

theorem length_string (h : lib.Documented) (hn : (makeTag number 2).toNat < 128) (b : Bytes) :
    (if 0 < b.length then writeStringToArray number b else []).length =
      if 0 < b.length then 1 + lengthDelimitedSize lib b.length else 0 := by
  rw [apply_ite List.length, writeStringToArray, length_writeSized h hn]
  rfl

theorem length_uint (h : lib.Documented) (hn : (makeTag number 0).toNat < 128) (value : UInt32) :
    (if value ≠ 0 then writeUInt32ToArray number value else []).length =
      if value ≠ 0 then 1 + varintSize32 lib value else 0 := by
  rw [apply_ite List.length, writeUInt32ToArray, List.length_append, length_tag hn, varintSize32_eq h]
  rfl

end

/-- `ByteSize` is the length of what is written. -/
def MessageClass.Announces (c : MessageClass M) : Prop :=
  ∀ m, c.byteSize m = (c.serializeWithCachedSizesToArray m).length

theorem length_target (h : lib.Documented) (hobject : object.Announces)
    (target : Option AssociatedObject) : (writeTargetToArray object target).length = targetSize lib object target := by
  cases target with
  | none => rfl
  | some o =>
    rw [writeTargetToArray, targetSize, hobject o]
    exact length_writeSized h (by decide) _

theorem associatedObject_announces (h : lib.Documented) (parse : Parse AssociatedObject) :
    (associatedObjectWith lib parse).Announces := by
  intro o
  show o.byteSize lib = o.serializeWithCachedSizesToArray.length
  rw [AssociatedObject.byteSize, AssociatedObject.serializeWithCachedSizesToArray, List.length_append,
    List.length_append, length_string h (by decide), length_string h (by decide),
    length_uint h (by decide)]

theorem mapAdd_announces (h : lib.Documented) (hobject : object.Announces) (parse : Parse INetworkMapAdd) :
    (mapAddWith lib object parse).Announces := by
  intro m
  show m.byteSize lib object = (m.serializeWithCachedSizesToArray object).length
  rw [INetworkMapAdd.byteSize, INetworkMapAdd.serializeWithCachedSizesToArray, List.length_append,
    List.length_append, List.length_append, length_target h hobject, length_uint h (by decide),
    length_string h (by decide), length_uint h (by decide)]

theorem mapRemove_announces (h : lib.Documented) (hobject : object.Announces)
    (parse : Parse INetworkMapRemove) : (mapRemoveWith lib object parse).Announces := by
  intro m
  show m.byteSize lib object = (m.serializeWithCachedSizesToArray object).length
  rw [INetworkMapRemove.byteSize, INetworkMapRemove.serializeWithCachedSizesToArray, List.length_append,
    List.length_append, length_target h hobject, length_uint h (by decide), length_uint h (by decide)]

/-- **`ByteSize` announces the length**, also that of the target, whose cached size is written in front
of it. -/
theorem byteSize_announces (h : lib.Documented) :
    (iNetworkAssociatedObject lib).Announces ∧ (iNetworkMapAdd lib).Announces ∧
      (iNetworkMapUpdate lib).Announces ∧ (iNetworkMapRemove lib).Announces :=
  have hobject := associatedObject_announces h parseFrom
  ⟨hobject, mapAdd_announces h hobject _, mapAdd_announces h hobject _, mapRemove_announces h hobject _⟩

/-! ## Messages as rows of fields -/

theorem encode_append (fs gs : List Field) : encode (fs ++ gs) = encode fs ++ encode gs :=
  List.flatMap_append ..

section

variable {tag number : UInt32} {k : ℕ}

theorem writeSized_eq (hn : (makeTag number 2).toNat = 8 * k + 2) {text : Bytes}
    (htext : text.length < 2 ^ 32) :
    writeSizedToArray number text.length text = (Field.bytes k text).encode := by
  rw [writeSizedToArray, writeVarint32ToArray_eq, writeVarint32ToArray_eq, hn, toNat_tag htext]
  rfl

theorem string_eq (hn : (makeTag number 2).toNat = 8 * k + 2) {b : Bytes} (hb : b.length < 2 ^ 32) :
    (if 0 < b.length then writeStringToArray number b else []) = encode (putBytes k b) := by
  rw [putBytes]
  by_cases hnil : b = []
  · rw [if_pos hnil, hnil]
    rfl
  · rw [if_neg hnil, if_pos (List.length_pos_of_ne_nil hnil), writeStringToArray, writeSized_eq hn hb]
    exact (List.append_nil _).symm

theorem uint_eq (hn : (makeTag number 0).toNat = 8 * k) (value : UInt32) :
    (if value ≠ 0 then writeUInt32ToArray number value else []) = encode (putUInt k value) := by
  rw [putUInt]
  by_cases hzero : value = 0
  · rw [if_pos hzero, if_neg (not_not.mpr hzero)]
    rfl
  · rw [if_neg hzero, if_pos hzero, writeUInt32ToArray, writeVarint32ToArray_eq,
      writeVarint32ToArray_eq, hn]
    exact (List.append_nil _).symm

theorem foldl_putBytes (set : M → Field → M) (b : Bytes) (m : M) :
    (putBytes k b).foldl set m = if 0 < b.length then set m (.bytes k b) else m := by
  rw [putBytes]
  by_cases hnil : b = []
  · rw [if_pos hnil, hnil]
    rfl
  · rw [if_neg hnil, if_pos (List.length_pos_of_ne_nil hnil)]
    rfl

theorem foldl_putUInt (set : M → Field → M) (value : UInt32) (m : M) :
    (putUInt k value).foldl set m = if value ≠ 0 then set m (.uint k value.toNat) else m := by
  rw [putUInt]
  by_cases hzero : value = 0
  · rw [if_pos hzero, if_neg (not_not.mpr hzero)]
    rfl
  · rw [if_neg hzero, if_pos hzero]
    rfl

theorem bytes_or_nil (b : Bytes) : (if 0 < b.length then b else []) = b := by
  by_cases hnil : b = []
  · rw [hnil]
    rfl
  · exact if_pos (List.length_pos_of_ne_nil hnil)

theorem uint_or_zero (value : UInt32) : (if value ≠ 0 then value else 0) = value := by
  by_cases hzero : value = 0
  · rw [hzero]
    rfl
  · exact if_pos hzero

theorem mem_putBytes {b : Bytes} {f : Field} (hf : f ∈ putBytes k b) : f = .bytes k b := by
  rw [putBytes] at hf
  split_ifs at hf
  · exact absurd hf List.not_mem_nil
  · exact List.mem_singleton.mp hf

theorem mem_putUInt {value : UInt32} {f : Field} (hf : f ∈ putUInt k value) : f = .uint k value.toNat := by
  rw [putUInt] at hf
  split_ifs at hf
  · exact absurd hf List.not_mem_nil
  · exact List.mem_singleton.mp hf

/-- A number of 32 bits under a field number of one digit. -/
theorem legible_uint (hpos : 0 < k) (hk : k < 16) (value : UInt32) : Legible (.uint k value.toNat) :=
  ⟨hpos, by omega, value.toNat_lt.trans (by decide)⟩

theorem legible_bytes (hpos : 0 < k) (hk : k < 16) {b : Bytes} (hb : b.length < kDefaultTotalBytesLimit) :
    Legible (.bytes k b) :=
  ⟨hpos, by omega, hb.trans (by decide)⟩

/-- Reading what is written under a tag. -/
theorem readString_payload (h : lib.Documented) (get : M → Bytes) (set : Bytes → M → M) (m : M) {b : Bytes}
    (hb : b.length < 2 ^ 31) (r : Bytes) :
    readString lib get set m ⟨varint b.length ++ b ++ r, false⟩ = (true, set b m, ⟨r, false⟩) := by
  rw [readString, List.append_assoc, h.bytes_read (get m) b r hb]

theorem readUInt32_payload (h : lib.Documented) (set : UInt32 → M → M) (m : M) {n : ℕ} (hn : n < 2 ^ 64)
    (r : Bytes) :
    readUInt32 lib set m ⟨varint n ++ r, false⟩ = (true, set (UInt32.ofNat n) m, ⟨r, false⟩) := by
  rw [readUInt32, readVarint32_varint h hn]

end

/-- A class whose messages are rows of fields: the `fields` that are written, what a field does when it
is read (`set`), and the fields that its loop reads. -/
structure Rows (lib : CodedLib) (c : MessageClass M) (schema : Schema M) (set : M → Field → M)
    (fields : M → List Field) (Known : Field → Prop) (last : ℕ) : Prop where
  merge_eq : c.mergePartialFromCodedStream = mergePartial lib parseOne schema
  takes : ∀ f, Known f → Legible f → ∀ m, Takes lib schema.cases f m (set m f)
  serialize_eq : ∀ m, c.byteSize m < kDefaultTotalBytesLimit →
    c.serializeWithCachedSizesToArray m = encode (fields m)
  known : ∀ m, c.byteSize m < kDefaultTotalBytesLimit → ∀ f ∈ fields m, Known f ∧ Legible f
  unknown : ∀ f, last < numberOf f → Known f ∧ ∀ m, set m f = m
  foldl_set : ∀ a b, (fields b).foldl set a = c.mergeFrom a b
  clear : ∀ a, c.mergeFrom c.clear a = a

/-- What two parts written one after the other are read as, with fields between them that the class does
not have. -/
def MessageClass.ReadsParts (c : MessageClass M) (last : ℕ) : Prop :=
  ∀ a b : M, ∀ others : List Field, (∀ f ∈ others, Legible f ∧ last < numberOf f) →
    let data := c.serializeWithCachedSizesToArray a ++
      (encode others ++ c.serializeWithCachedSizesToArray b)
    data.length < kDefaultTotalBytesLimit → c.parseFromArray data = (true, c.mergeFrom a b)

section

variable {c : MessageClass M} {schema : Schema M} {set : M → Field → M} {fields : M → List Field}
  {Known : Field → Prop} {last : ℕ}

/-- A row of fields, read whole. -/
theorem Rows.merge_encode (h : lib.Reads) (hrows : Rows lib c schema set fields Known last)
    {fs : List Field} (hfs : ∀ f ∈ fs, Known f ∧ Legible f) (m : M) :
    c.mergePartialFromCodedStream m ⟨encode fs, false⟩ = (true, fs.foldl set m, ⟨[], true⟩) := by
  have htakes : ∀ f ∈ fs, ∀ m, Takes lib schema.cases f m (set m f) := fun f hf =>
    hrows.takes f (hfs f hf).1 (hfs f hf).2
  rw [hrows.merge_eq]
  exact mergeWith_encode h htakes (Nat.lt_succ_of_le (length_le_encode fs)) m

/-- Fields that the class does not have change nothing. -/
theorem Rows.foldl_others (hrows : Rows lib c schema set fields Known last) {others : List Field}
    (hothers : ∀ f ∈ others, last < numberOf f) (m : M) : others.foldl set m = m := by
  induction others with
  | nil => rfl
  | cons f others ih =>
    rw [List.foldl_cons, (hrows.unknown f (hothers f List.mem_cons_self)).2]
    exact ih fun g hg => hothers g (List.mem_cons_of_mem _ hg)

theorem Rows.readsParts (h : lib.Reads) (hrows : Rows lib c schema set fields Known last)
    (hsize : c.Announces) : c.ReadsParts last := by
  intro a b others hothers data hdata
  have hlength : data.length = c.byteSize a + ((encode others).length + c.byteSize b) := by
    rw [List.length_append, List.length_append, ← hsize, ← hsize]
  have ha : c.byteSize a < kDefaultTotalBytesLimit := by omega
  have hb : c.byteSize b < kDefaultTotalBytesLimit := by omega
  have hdata_eq : data = encode (fields a ++ (others ++ fields b)) := by
    rw [encode_append, encode_append, ← hrows.serialize_eq a ha, ← hrows.serialize_eq b hb]
  have hread : ∀ f ∈ fields a ++ (others ++ fields b), Known f ∧ Legible f := by
    simp only [List.forall_mem_append]
    exact ⟨hrows.known a ha, fun f hf => ⟨(hrows.unknown f (hothers f hf).2).1, (hothers f hf).1⟩,
      hrows.known b hb⟩
  have hfold : (fields a ++ (others ++ fields b)).foldl set c.clear = c.mergeFrom a b := by
    rw [List.foldl_append, List.foldl_append, hrows.foldl_set, hrows.foldl_set, hrows.clear,
      hrows.foldl_others fun f hf => (hothers f hf).2]
  rw [MessageClass.parseFromArray, hdata_eq, hrows.merge_encode h hread, hfold]
  rfl

end

/-! ### `INetworkAssociatedObject` -/

namespace AssociatedObject

/-- What a field does to an object. -/
def set (o : AssociatedObject) : Field → AssociatedObject
  | .bytes 1 b => { o with instanceName := b }
  | .bytes 2 b => { o with managerName := b }
  | .uint 3 n => { o with networkCode := UInt32.ofNat n }
  | _ => o

/-- A field of an object, or one that it does not have. -/
inductive Known : Field → Prop where
  | instanceName (b : Bytes) : Known (.bytes 1 b)
  | managerName (b : Bytes) : Known (.bytes 2 b)
  | networkCode (n : ℕ) : Known (.uint 3 n)
  | unknown {f : Field} (h : 3 < numberOf f) : Known f

theorem set_unknown {f : Field} (h : 3 < numberOf f) (o : AssociatedObject) : o.set f = o := by
  rw [set.eq_def]
  split <;> simp_all [numberOf]

theorem takes (h : lib.Documented) {f : Field} (hknown : Known f) (hlegible : Legible f)
    (o : AssociatedObject) : Takes lib (schema lib).cases f o (o.set f) := by
  cases hknown with
  | instanceName b =>
    have hcase : (schema lib).cases = [] ++ _ :: _ := rfl
    exact takes_case hcase rfl rfl (by decide) fun r =>
      readString_payload h instanceName (fun b o => { o with instanceName := b }) o hlegible.2.2 r
  | managerName b =>
    have hcase : (schema lib).cases = [_] ++ _ :: _ := rfl
    exact takes_case hcase rfl rfl (by decide) fun r =>
      readString_payload h managerName (fun b o => { o with managerName := b }) o hlegible.2.2 r
  | networkCode n =>
    have hcase : (schema lib).cases = [_, _] ++ _ :: _ := rfl
    exact takes_case hcase rfl rfl (by decide) fun r =>
      readUInt32_payload h (fun n o => { o with networkCode := n }) o hlegible.2.2 r
  | unknown hnumber =>
    have hnone : ∀ c ∈ (schema lib).cases, (numberOfTag c.tag).toNat ≠ numberOf f := by
      simp only [schema, cases, List.forall_mem_cons]
      refine ⟨?_, ?_, ?_, by simp⟩ <;> exact Nat.ne_of_lt (Nat.lt_of_le_of_lt (by decide) hnumber)
    rw [set_unknown hnumber]
    exact takes_unknown h hlegible hnone o

theorem length_le_byteSize (lib : CodedLib) (o : AssociatedObject) :
    o.instanceName.length ≤ o.byteSize lib ∧ o.managerName.length ≤ o.byteSize lib := by
  simp only [byteSize, lengthDelimitedSize]
  constructor <;> split_ifs <;> omega

theorem serialize_eq {o : AssociatedObject} (ho : o.byteSize lib < kDefaultTotalBytesLimit) :
    o.serializeWithCachedSizesToArray = encode o.fields := by
  obtain ⟨hinstance, hmanager⟩ := o.length_le_byteSize lib
  have hlimit : kDefaultTotalBytesLimit < 2 ^ 32 := by decide
  rw [serializeWithCachedSizesToArray, fields, encode_append, encode_append,
    string_eq (k := 1) rfl (by omega), string_eq (k := 2) rfl (by omega), uint_eq (k := 3) rfl]

theorem known_fields {o : AssociatedObject} (ho : o.byteSize lib < kDefaultTotalBytesLimit) :
    ∀ f ∈ o.fields, Known f ∧ Legible f := by
  obtain ⟨hinstance, hmanager⟩ := o.length_le_byteSize lib
  simp only [fields, List.forall_mem_append]
  refine ⟨fun f hf => ?_, fun f hf => ?_, fun f hf => ?_⟩
  · rw [mem_putBytes hf]
    exact ⟨.instanceName _, legible_bytes (by decide) (by decide) (hinstance.trans_lt ho)⟩
  · rw [mem_putBytes hf]
    exact ⟨.managerName _, legible_bytes (by decide) (by decide) (hmanager.trans_lt ho)⟩
  · rw [mem_putUInt hf]
    exact ⟨.networkCode _, legible_uint (by decide) (by decide) _⟩

theorem foldl_fields (a b : AssociatedObject) : b.fields.foldl set a = a.mergeFrom b := by
  rw [fields, mergeFrom, List.foldl_append, List.foldl_append, foldl_putBytes, foldl_putBytes,
    foldl_putUInt]
  split_ifs <;> simp [set]

theorem mergeFrom_clear (o : AssociatedObject) : clear.mergeFrom o = o := by
  rw [mergeFrom, clear, bytes_or_nil, bytes_or_nil, uint_or_zero]

end AssociatedObject

theorem associatedObject_rows (h : lib.Documented) :
    Rows lib (associatedObjectWith lib parseOne) (AssociatedObject.schema lib) AssociatedObject.set
      AssociatedObject.fields AssociatedObject.Known 3 where
  merge_eq := rfl
  takes _ hknown hlegible := AssociatedObject.takes h hknown hlegible
  serialize_eq _ := AssociatedObject.serialize_eq
  known _ := AssociatedObject.known_fields
  unknown _ hf := ⟨.unknown hf, AssociatedObject.set_unknown hf⟩
  foldl_set := AssociatedObject.foldl_fields
  clear := AssociatedObject.mergeFrom_clear

/-! ### Targets -/

/-- The bytes of an object. -/
def ObjectBytes (b : Bytes) : Prop :=
  ∃ fs, b = encode fs ∧ ∀ f ∈ fs, AssociatedObject.Known f ∧ Legible f

/-- What the bytes of an object do to a target. -/
def setTarget (target : Option AssociatedObject) (b : Bytes) : AssociatedObject :=
  (decode b).2.foldl AssociatedObject.set (target.getD .clear)

def putTarget : Option AssociatedObject → List Field
  | some o => [.bytes 1 (encode o.fields)]
  | none => []

theorem setTarget_fields (target : Option AssociatedObject) (o : AssociatedObject) :
    setTarget target (encode o.fields) = (target.getD .clear).mergeFrom o := by
  rw [setTarget, decode_encode, AssociatedObject.foldl_fields]

theorem foldl_putTarget (set : M → Field → M) (target : Option AssociatedObject) (m : M) :
    (putTarget target).foldl set m =
      (target.map fun o => set m (.bytes 1 (encode o.fields))).getD m := by
  cases target <;> rfl

/-- The target is read up to its limit, and nothing behind it. -/
theorem readTarget_payload (h : lib.Documented) (get : M → Option AssociatedObject)
    (set : Option AssociatedObject → M → M) (m : M) {b : Bytes} (hb : ObjectBytes b)
    (hlength : b.length < 2 ^ 31) (r : Bytes) :
    readTarget lib (associatedObjectWith lib parseOne) get set m ⟨varint b.length ++ b ++ r, false⟩ =
      (true, set (some (setTarget (get m) b)) m, ⟨r, false⟩) := by
  obtain ⟨fs, rfl, hfs⟩ := hb
  have hread := (associatedObject_rows h).merge_encode h.toReads hfs ((get m).getD .clear)
  rw [readTarget, setTarget, decode_encode]
  exact congrArg (fun t => (t.1, set (some t.2.1) m, t.2.2))
    (readMessageNoVirtual_payload h hlength hread r)

/-- The size of a target that is written is below the limit. -/
theorem byteSize_lt {o : AssociatedObject}
    (ht : targetSize lib object (some o) < kDefaultTotalBytesLimit) :
    object.byteSize o < kDefaultTotalBytesLimit := by
  rw [targetSize, lengthDelimitedSize] at ht
  omega

theorem length_encode (h : lib.Documented) {o : AssociatedObject}
    (ho : o.byteSize lib < kDefaultTotalBytesLimit) : (encode o.fields).length = o.byteSize lib := by
  rw [← AssociatedObject.serialize_eq ho]
  exact (associatedObject_announces h parseOne o).symm

theorem target_eq (h : lib.Documented) {target : Option AssociatedObject}
    (ht : targetSize lib (associatedObjectWith lib parseOne) target < kDefaultTotalBytesLimit) :
    writeTargetToArray (associatedObjectWith lib parseOne) target = encode (putTarget target) := by
  cases target with
  | none => rfl
  | some o =>
    have ho : o.byteSize lib < kDefaultTotalBytesLimit := byteSize_lt ht
    have hlimit : kDefaultTotalBytesLimit < 2 ^ 32 := by decide
    have hlength := length_encode h ho
    show writeSizedToArray 1 (o.byteSize lib) o.serializeWithCachedSizesToArray = _
    rw [AssociatedObject.serialize_eq ho, ← hlength, writeSized_eq (k := 1) rfl (by omega)]
    exact (List.append_nil _).symm

/-- A target that is written is one that is read. -/
theorem mem_putTarget (h : lib.Documented) {target : Option AssociatedObject}
    (ht : targetSize lib (associatedObjectWith lib parseOne) target < kDefaultTotalBytesLimit) {f : Field}
    (hf : f ∈ putTarget target) : ∃ b, f = .bytes 1 b ∧ ObjectBytes b ∧ Legible f := by
  cases target with
  | none => exact absurd hf List.not_mem_nil
  | some o =>
    have ho : o.byteSize lib < kDefaultTotalBytesLimit := byteSize_lt ht
    obtain rfl := List.mem_singleton.mp hf
    exact ⟨_, rfl, ⟨_, rfl, AssociatedObject.known_fields ho⟩,
      legible_bytes (by decide) (by decide) ((length_encode h ho).trans_lt ho)⟩

theorem mergeTarget_none (target : Option AssociatedObject) :
    mergeTarget (associatedObjectWith lib parseOne) none target = target := by
  cases target with
  | none => rfl
  | some o => exact congrArg some o.mergeFrom_clear

/-! ### `INetworkMapAdd` -/

namespace INetworkMapAdd

def set (m : INetworkMapAdd) : Field → INetworkMapAdd
  | .bytes 1 b => { m with targetObject := some (setTarget m.targetObject b) }
  | .uint 2 n => { m with key := UInt32.ofNat n }
  | .bytes 3 b => { m with value := b }
  | .uint 4 n => { m with listID := UInt32.ofNat n }
  | _ => m

def fields (m : INetworkMapAdd) : List Field :=
  putTarget m.targetObject ++ (putUInt 2 m.key ++ (putBytes 3 m.value ++ putUInt 4 m.listID))

/-- A field of a message, or one that it does not have. -/
inductive Known : Field → Prop where
  | targetObject {b : Bytes} (h : ObjectBytes b) : Known (.bytes 1 b)
  | key (n : ℕ) : Known (.uint 2 n)
  | value (b : Bytes) : Known (.bytes 3 b)
  | listID (n : ℕ) : Known (.uint 4 n)
  | unknown {f : Field} (h : 4 < numberOf f) : Known f

theorem set_unknown {f : Field} (h : 4 < numberOf f) (m : INetworkMapAdd) : m.set f = m := by
  rw [set.eq_def]
  split <;> simp_all [numberOf]

theorem takes (h : lib.Documented) {f : Field} (hknown : Known f) (hlegible : Legible f)
    (m : INetworkMapAdd) :
    Takes lib (schema lib (associatedObjectWith lib parseOne)).cases f m (m.set f) := by
  cases hknown with
  | targetObject hb =>
    have hcase : (schema lib (associatedObjectWith lib parseOne)).cases = [] ++ _ :: _ := rfl
    exact takes_case hcase rfl rfl (by decide) fun r =>
      readTarget_payload h targetObject (fun t m => { m with targetObject := t }) m hb hlegible.2.2 r
  | key n =>
    have hcase : (schema lib (associatedObjectWith lib parseOne)).cases = [_] ++ _ :: _ := rfl
    exact takes_case hcase rfl rfl (by decide) fun r =>
      readUInt32_payload h (fun n m => { m with key := n }) m hlegible.2.2 r
  | value b =>
    have hcase : (schema lib (associatedObjectWith lib parseOne)).cases = [_, _] ++ _ :: _ := rfl
    exact takes_case hcase rfl rfl (by decide) fun r =>
      readString_payload h value (fun b m => { m with value := b }) m hlegible.2.2 r
  | listID n =>
    have hcase : (schema lib (associatedObjectWith lib parseOne)).cases = [_, _, _] ++ _ :: _ := rfl
    exact takes_case hcase rfl rfl (by decide) fun r =>
      readUInt32_payload h (fun n m => { m with listID := n }) m hlegible.2.2 r
  | unknown hnumber =>
    have hnone : ∀ c ∈ (schema lib (associatedObjectWith lib parseOne)).cases,
        (numberOfTag c.tag).toNat ≠ numberOf f := by
      simp only [schema, cases, List.forall_mem_cons]
      refine ⟨?_, ?_, ?_, ?_, by simp⟩ <;> exact Nat.ne_of_lt (Nat.lt_of_le_of_lt (by decide) hnumber)
    rw [set_unknown hnumber]
    exact takes_unknown h hlegible hnone m

theorem le_byteSize (lib : CodedLib) (object : MessageClass AssociatedObject) (m : INetworkMapAdd) :
    m.value.length ≤ m.byteSize lib object ∧
      targetSize lib object m.targetObject ≤ m.byteSize lib object := by
  simp only [byteSize, lengthDelimitedSize]
  constructor <;> split_ifs <;> omega

theorem foldl_fields (a b : INetworkMapAdd) :
    b.fields.foldl set a = a.mergeFrom (associatedObjectWith lib parseOne) b := by
  rw [fields, mergeFrom, List.foldl_append, List.foldl_append, List.foldl_append, foldl_putTarget,
    foldl_putUInt, foldl_putBytes, foldl_putUInt]
  cases b.targetObject <;> split_ifs <;> simp [set, mergeTarget, setTarget_fields] <;> rfl

theorem rows (h : lib.Documented) :
    Rows lib (mapAddWith lib (associatedObjectWith lib parseOne) parseOne)
      (schema lib (associatedObjectWith lib parseOne)) set fields Known 4 where
  merge_eq := rfl
  takes _ hknown hlegible := takes h hknown hlegible
  serialize_eq m hm := by
    obtain ⟨hvalue, htarget⟩ := m.le_byteSize lib (associatedObjectWith lib parseOne)
    have hbytes := (hvalue.trans_lt hm).trans (by decide : kDefaultTotalBytesLimit < 2 ^ 32)
    show m.serializeWithCachedSizesToArray _ = _
    rw [serializeWithCachedSizesToArray, fields, encode_append, encode_append, encode_append,
      target_eq h (htarget.trans_lt hm), uint_eq (k := 2) rfl, string_eq (k := 3) rfl hbytes,
      uint_eq (k := 4) rfl]
  known m hm := by
    obtain ⟨hvalue, htarget⟩ := m.le_byteSize lib (associatedObjectWith lib parseOne)
    simp only [fields, List.forall_mem_append]
    refine ⟨fun f hf => ?_, fun f hf => ?_, fun f hf => ?_, fun f hf => ?_⟩
    · obtain ⟨b, rfl, hb, hlegible⟩ := mem_putTarget h (htarget.trans_lt hm) hf
      exact ⟨.targetObject hb, hlegible⟩
    · rw [mem_putUInt hf]
      exact ⟨.key _, legible_uint (by decide) (by decide) _⟩
    · rw [mem_putBytes hf]
      exact ⟨.value _, legible_bytes (by decide) (by decide) (hvalue.trans_lt hm)⟩
    · rw [mem_putUInt hf]
      exact ⟨.listID _, legible_uint (by decide) (by decide) _⟩
  unknown _ hf := ⟨.unknown hf, set_unknown hf⟩
  foldl_set := foldl_fields
  clear m := by
    show clear.mergeFrom _ m = m
    rw [mergeFrom, clear, mergeTarget_none, uint_or_zero, bytes_or_nil, uint_or_zero]

end INetworkMapAdd

/-! ### `INetworkMapRemove` -/

namespace INetworkMapRemove

def set (m : INetworkMapRemove) : Field → INetworkMapRemove
  | .bytes 1 b => { m with targetObject := some (setTarget m.targetObject b) }
  | .uint 2 n => { m with key := UInt32.ofNat n }
  | .uint 3 n => { m with listID := UInt32.ofNat n }
  | _ => m

def fields (m : INetworkMapRemove) : List Field :=
  putTarget m.targetObject ++ (putUInt 2 m.key ++ putUInt 3 m.listID)

/-- A field of a message, or one that it does not have. -/
inductive Known : Field → Prop where
  | targetObject {b : Bytes} (h : ObjectBytes b) : Known (.bytes 1 b)
  | key (n : ℕ) : Known (.uint 2 n)
  | listID (n : ℕ) : Known (.uint 3 n)
  | unknown {f : Field} (h : 3 < numberOf f) : Known f

theorem set_unknown {f : Field} (h : 3 < numberOf f) (m : INetworkMapRemove) : m.set f = m := by
  rw [set.eq_def]
  split <;> simp_all [numberOf]

theorem takes (h : lib.Documented) {f : Field} (hknown : Known f) (hlegible : Legible f)
    (m : INetworkMapRemove) :
    Takes lib (schema lib (associatedObjectWith lib parseOne)).cases f m (m.set f) := by
  cases hknown with
  | targetObject hb =>
    have hcase : (schema lib (associatedObjectWith lib parseOne)).cases = [] ++ _ :: _ := rfl
    exact takes_case hcase rfl rfl (by decide) fun r =>
      readTarget_payload h targetObject (fun t m => { m with targetObject := t }) m hb hlegible.2.2 r
  | key n =>
    have hcase : (schema lib (associatedObjectWith lib parseOne)).cases = [_] ++ _ :: _ := rfl
    exact takes_case hcase rfl rfl (by decide) fun r =>
      readUInt32_payload h (fun n m => { m with key := n }) m hlegible.2.2 r
  | listID n =>
    have hcase : (schema lib (associatedObjectWith lib parseOne)).cases = [_, _] ++ _ :: _ := rfl
    exact takes_case hcase rfl rfl (by decide) fun r =>
      readUInt32_payload h (fun n m => { m with listID := n }) m hlegible.2.2 r
  | unknown hnumber =>
    have hnone : ∀ c ∈ (schema lib (associatedObjectWith lib parseOne)).cases,
        (numberOfTag c.tag).toNat ≠ numberOf f := by
      simp only [schema, cases, List.forall_mem_cons]
      refine ⟨?_, ?_, ?_, by simp⟩ <;> exact Nat.ne_of_lt (Nat.lt_of_le_of_lt (by decide) hnumber)
    rw [set_unknown hnumber]
    exact takes_unknown h hlegible hnone m

theorem targetSize_le (lib : CodedLib) (object : MessageClass AssociatedObject) (m : INetworkMapRemove) :
    targetSize lib object m.targetObject ≤ m.byteSize lib object :=
  Nat.le_add_right _ _

theorem foldl_fields (a b : INetworkMapRemove) :
    b.fields.foldl set a = a.mergeFrom (associatedObjectWith lib parseOne) b := by
  rw [fields, mergeFrom, List.foldl_append, List.foldl_append, foldl_putTarget, foldl_putUInt,
    foldl_putUInt]
  cases b.targetObject <;> split_ifs <;> simp [set, mergeTarget, setTarget_fields] <;> rfl

theorem rows (h : lib.Documented) :
    Rows lib (mapRemoveWith lib (associatedObjectWith lib parseOne) parseOne)
      (schema lib (associatedObjectWith lib parseOne)) set fields Known 3 where
  merge_eq := rfl
  takes _ hknown hlegible := takes h hknown hlegible
  serialize_eq m hm := by
    have htarget := (m.targetSize_le lib (associatedObjectWith lib parseOne)).trans_lt hm
    show m.serializeWithCachedSizesToArray _ = _
    rw [serializeWithCachedSizesToArray, fields, encode_append, encode_append, target_eq h htarget,
      uint_eq (k := 2) rfl, uint_eq (k := 3) rfl]
  known m hm := by
    have htarget := (m.targetSize_le lib (associatedObjectWith lib parseOne)).trans_lt hm
    simp only [fields, List.forall_mem_append]
    refine ⟨fun f hf => ?_, fun f hf => ?_, fun f hf => ?_⟩
    · obtain ⟨b, rfl, hb, hlegible⟩ := mem_putTarget h htarget hf
      exact ⟨.targetObject hb, hlegible⟩
    · rw [mem_putUInt hf]
      exact ⟨.key _, legible_uint (by decide) (by decide) _⟩
    · rw [mem_putUInt hf]
      exact ⟨.listID _, legible_uint (by decide) (by decide) _⟩
  unknown _ hf := ⟨.unknown hf, set_unknown hf⟩
  foldl_set := foldl_fields
  clear m := by
    show clear.mergeFrom _ m = m
    rw [mergeFrom, clear, mergeTarget_none, uint_or_zero, uint_or_zero]

end INetworkMapRemove

/-! ## Parts -/

theorem associatedObject_parts (h : lib.Documented) : (iNetworkAssociatedObject lib).ReadsParts 3 := by
  rw [associatedObject_plain h.toReads]
  exact (associatedObject_rows h).readsParts h.toReads (associatedObject_announces h parseOne)

theorem mapAdd_parts (h : lib.Documented) : (iNetworkMapAdd lib).ReadsParts 4 := by
  rw [mapAdd_plain h.toReads]
  exact (INetworkMapAdd.rows h).readsParts h.toReads
    (mapAdd_announces h (associatedObject_announces h parseOne) parseOne)

theorem mapRemove_parts (h : lib.Documented) : (iNetworkMapRemove lib).ReadsParts 3 := by
  rw [mapRemove_plain h.toReads]
  exact (INetworkMapRemove.rows h).readsParts h.toReads
    (mapRemove_announces h (associatedObject_announces h parseOne) parseOne)

/-- **Messages are read as they were written.** A message, fields that its class does not have, and another
message of its class are read as the first message with the second one merged into it. -/
theorem parse_parts (h : lib.Documented) :
    (iNetworkAssociatedObject lib).ReadsParts 3 ∧ (iNetworkMapAdd lib).ReadsParts 4 ∧
      (iNetworkMapUpdate lib).ReadsParts 4 ∧ (iNetworkMapRemove lib).ReadsParts 3 :=
  ⟨associatedObject_parts h, mapAdd_parts h, mapAdd_parts h, mapRemove_parts h⟩

/-! ## Packets of lists -/

/-- A message alone. -/
theorem MessageClass.ReadsParts.parse_serialize {c : MessageClass M} {last : ℕ} (h : c.ReadsParts last)
    (hclear : c.serializeWithCachedSizesToArray c.clear = []) (hmerge : ∀ m, c.mergeFrom m c.clear = m)
    {m : M} (hm : (c.serializeWithCachedSizesToArray m).length < kDefaultTotalBytesLimit) :
    c.parseFromArray (c.serializeWithCachedSizesToArray m) = (true, m) := by
  have hparts := h m c.clear [] (fun f hf => absurd hf List.not_mem_nil)
  rw [hclear, hmerge] at hparts
  simpa [encode, hm] using hparts

/-- The messages the code makes have a target; `target_object` of one that has none is the default one. -/
def MapAdd.toMessage (m : MapAdd) : INetworkMapAdd := ⟨some m.target, m.key, m.value, m.listID⟩

def MapAdd.ofMessage (m : INetworkMapAdd) : MapAdd :=
  ⟨m.targetObject.getD .clear, m.key, m.value, m.listID⟩

def MapRemove.toMessage (m : MapRemove) : INetworkMapRemove := ⟨some m.target, m.key, m.listID⟩

def MapRemove.ofMessage (m : INetworkMapRemove) : MapRemove :=
  ⟨m.targetObject.getD .clear, m.key, m.listID⟩

/-- The generated classes as what the rest of the code uses of them. -/
def Protobuf.generated (lib : CodedLib) : Protobuf where
  serializeAdd m := (iNetworkMapAdd lib).serializeWithCachedSizesToArray m.toMessage
  serializeUpdate m := (iNetworkMapUpdate lib).serializeWithCachedSizesToArray m.toMessage
  serializeRemove m := (iNetworkMapRemove lib).serializeWithCachedSizesToArray m.toMessage
  parseAdd bs := ((iNetworkMapAdd lib).parseFromArray bs).map id MapAdd.ofMessage
  parseUpdate bs := ((iNetworkMapUpdate lib).parseFromArray bs).map id MapAdd.ofMessage
  parseRemove bs := ((iNetworkMapRemove lib).parseFromArray bs).map id MapRemove.ofMessage

theorem generated_add (h : lib.Documented) {m : MapAdd}
    (hm : ((Protobuf.generated lib).serializeAdd m).length < kDefaultTotalBytesLimit) :
    (Protobuf.generated lib).parseAdd ((Protobuf.generated lib).serializeAdd m) = (true, m) :=
  congrArg (Prod.map id MapAdd.ofMessage) ((mapAdd_parts h).parse_serialize rfl (fun _ => rfl) hm)

theorem generated_remove (h : lib.Documented) {m : MapRemove}
    (hm : ((Protobuf.generated lib).serializeRemove m).length < kDefaultTotalBytesLimit) :
    (Protobuf.generated lib).parseRemove ((Protobuf.generated lib).serializeRemove m) = (true, m) :=
  congrArg (Prod.map id MapRemove.ofMessage) ((mapRemove_parts h).parse_serialize rfl (fun _ => rfl) hm)

/-- **A list message that the generated code writes is the one that arrives.** -/
theorem listMsgOf_generated (h : lib.Documented) {msg : ListMsg}
    (hmsg : (msg.packet (.generated lib)).length < kDefaultTotalBytesLimit) :
    listMsgOf (.generated lib) (msg.packet (.generated lib)) = some msg := by
  cases msg with
  | add m =>
    rw [ListMsg.packet, List.length_append] at hmsg
    rw [ListMsg.packet, listMsgOf, codeOf_append, drop_code, if_pos rfl, generated_add h (by omega)]
  | update m =>
    rw [ListMsg.packet, List.length_append] at hmsg
    have hm : ((Protobuf.generated lib).serializeAdd m).length < kDefaultTotalBytesLimit :=
      (Nat.le_add_left _ _).trans_lt hmsg
    rw [ListMsg.packet, listMsgOf, codeOf_append, drop_code, if_neg (by decide), if_pos rfl]
    exact congrArg (fun r => some (ListMsg.update r.2)) (generated_add h hm)
  | remove m =>
    rw [ListMsg.packet, List.length_append] at hmsg
    rw [ListMsg.packet, listMsgOf, codeOf_append, drop_code, if_neg (by decide), if_neg (by decide),
      if_pos rfl, generated_remove h (by omega)]

/-! ## A library -/

theorem readVarint_length {bs : Bytes} {n : ℕ} {r : Bytes} (h : readVarint bs = some (n, r)) :
    r.length < bs.length := by
  induction bs generalizing n r with
  | nil => cases h
  | cons b bs ih =>
    rw [readVarint] at h
    split_ifs at h
    · cases h
      exact Nat.lt_succ_self _
    · obtain ⟨⟨n', r'⟩, hread, heq⟩ := Option.map_eq_some_iff.mp h
      cases heq
      exact (ih hread).trans (Nat.lt_succ_self _)

namespace CodedLib

/-- Skip `n` bytes. -/
def skipBytes (n : ℕ) (bs : Bytes) : Bool × Bytes := (decide (n ≤ bs.length), bs.drop n)

/-- The functions of the library, for base-128 numbers of any length. -/
def wire : CodedLib where
  readVarint32Fallback bs :=
    match readVarint bs with
    | some (n, r) => (some (UInt32.ofNat n), r)
    | none => (none, bs)
  readTagFallback bs :=
    match readVarint bs with
    | some (n, r) => (UInt32.ofNat n, false, r)
    | none => (0, bs.isEmpty, bs)
  readBytes old bs :=
    match readVarint bs with
    | some (n, r) => if n ≤ r.length then (true, r.take n, r.drop n) else (false, old, r)
    | none => (false, old, bs)
  skipField tag bs :=
    if getTagWireType tag = 0 then
      match readVarint bs with
      | some (_, r) => (true, r)
      | none => (false, bs)
    else if getTagWireType tag = 2 then
      match readVarint bs with
      | some (n, r) => skipBytes n r
      | none => (false, bs)
    else if getTagWireType tag = 1 then skipBytes 8 bs
    else if getTagWireType tag = 5 then skipBytes 4 bs
    else (false, bs)
  varintSize32Fallback value := (varint value.toNat).length

theorem skipBytes_le (n : ℕ) (bs : Bytes) : (skipBytes n bs).2.length ≤ bs.length :=
  (List.length_drop ..).trans_le (Nat.sub_le ..)

theorem wire_reads : wire.Reads where
  varint_le bs := by
    simp only [wire]
    split
    · next hread => exact (readVarint_length hread).le
    · exact le_rfl
  tag_le bs := by
    simp only [wire]
    split
    · next hread => exact (readVarint_length hread).le
    · exact le_rfl
  tag_lt bs h := by
    simp only [wire] at h ⊢
    split
    · next hread => exact readVarint_length hread
    · next hread => exact absurd (by simp [hread]) h
  tag_nil := rfl
  tag_end bs h := by
    simp only [wire] at h ⊢
    split at h
    · exact absurd h Bool.false_ne_true
    · next hread => simpa [hread] using h
  bytes_le old bs := by
    simp only [wire]
    split
    · next hread =>
      split_ifs
      · exact ((List.length_drop ..).trans_le (Nat.sub_le ..)).trans (readVarint_length hread).le
      · exact (readVarint_length hread).le
    · exact le_rfl
  skip_le tag bs := by
    simp only [wire]
    split_ifs
    · split
      · next hread => exact (readVarint_length hread).le
      · exact le_rfl
    · split
      · next hread => exact (skipBytes_le ..).trans (readVarint_length hread).le
      · exact le_rfl
    · exact skipBytes_le ..
    · exact skipBytes_le ..
    · exact le_rfl

theorem wire_documented : wire.Documented where
  toReads := wire_reads
  varint_read n r _ _ := by
    simp only [wire, readVarint_varint]
  tag_read n r _ _ := by
    simp only [wire, readVarint_varint]
  bytes_read old b r _ := by
    simp [wire, readVarint_varint]
  skip_varint tag n r h _ := by
    simp [wire, readVarint_varint, h]
  skip_bytes tag b r h _ := by
    simp [wire, readVarint_varint, h, skipBytes]
  varint_size _ _ := rfl

end CodedLib

theorem jumps_wire : CodedLib.wire.Reads ∧
    iNetworkAssociatedObject .wire = associatedObjectWith .wire parseOne ∧
      iNetworkMapAdd .wire = mapAddWith .wire (associatedObjectWith .wire parseOne) parseOne ∧
      iNetworkMapUpdate .wire = mapAddWith .wire (associatedObjectWith .wire parseOne) parseOne ∧
      iNetworkMapRemove .wire = mapRemoveWith .wire (associatedObjectWith .wire parseOne) parseOne :=
  ⟨CodedLib.wire_reads, jumps CodedLib.wire_reads⟩

theorem accepted_ended_wire : CodedLib.wire.Reads ∧
    (iNetworkAssociatedObject .wire).ReadsAll ∧ (iNetworkMapAdd .wire).ReadsAll ∧
      (iNetworkMapUpdate .wire).ReadsAll ∧ (iNetworkMapRemove .wire).ReadsAll :=
  ⟨CodedLib.wire_reads, accepted_ended CodedLib.wire_reads⟩

theorem byteSize_announces_wire : CodedLib.wire.Documented ∧
    (iNetworkAssociatedObject .wire).Announces ∧ (iNetworkMapAdd .wire).Announces ∧
      (iNetworkMapUpdate .wire).Announces ∧ (iNetworkMapRemove .wire).Announces :=
  ⟨CodedLib.wire_documented, byteSize_announces CodedLib.wire_documented⟩

theorem parse_parts_wire : CodedLib.wire.Documented ∧
    (iNetworkAssociatedObject .wire).ReadsParts 3 ∧ (iNetworkMapAdd .wire).ReadsParts 4 ∧
      (iNetworkMapUpdate .wire).ReadsParts 4 ∧ (iNetworkMapRemove .wire).ReadsParts 3 :=
  ⟨CodedLib.wire_documented, parse_parts CodedLib.wire_documented⟩

/-- The removal of an element that is not there. -/
theorem listMsgOf_generated_wire : CodedLib.wire.Documented ∧
    (ListMsg.packet (.generated .wire) (.remove ⟨⟨[119, 115], [112], 0⟩, 5, 0⟩)).length <
      kDefaultTotalBytesLimit ∧
    listMsgOf (.generated .wire)
        (ListMsg.packet (.generated .wire) (.remove ⟨⟨[119, 115], [112], 0⟩, 5, 0⟩)) =
      some (.remove ⟨⟨[119, 115], [112], 0⟩, 5, 0⟩) :=
  ⟨CodedLib.wire_documented, by decide +kernel,
    listMsgOf_generated CodedLib.wire_documented (by decide +kernel)⟩

/-- A removal, and a target cut short by its limit. -/
example : (iNetworkMapRemove .wire).parseFromArray [10, 4, 10, 2, 119, 115, 16, 5] =
      (true, ⟨some ⟨[119, 115], [], 0⟩, 5, 0⟩) ∧
    ((iNetworkMapRemove .wire).parseFromArray [10, 3, 10, 2, 119, 115, 16, 5]).1 = false := by
  decide +kernel

end Nettik
