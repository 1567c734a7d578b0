import Nettik.World.Recv

/-!
# Codes in front of messages

* `MessageType`: a generated message class, as far as the packet factory calls it;
* `Dispatch`: the two ways to send, `sent` the bytes that go to `Send`; `getCode`;
* `invoked`: the callbacks `ProcessRecv` calls, for callbacks of any kind;
* `Decodes`, `ReadsCode`: what framing owes; **`framed_iff`**: which packets decode to what was sent, and
  that `getCode` fails for all of them.
-/

namespace Nettik

open ByteMem Loops

variable {T κ : Type}

/-! ## Sending -/

/-- `parse` is what a message holds after `ParseFromArray`. -/
structure MessageType (T : Type) where
  serialize : T → Bytes
  byteSize : T → ℕ
  parse : Bytes → T

/-- Parsing undoes serialisation, and `ByteSize` announces the length. -/
structure MessageType.Lawful (p : MessageType T) : Prop where
  byteSize_eq : ∀ m, p.byteSize m = (p.serialize m).length
  parse_serialize : ∀ m, p.parse (p.serialize m) = m

namespace IPacketFactory

/-- The stream and the length that is returned. -/
def generateStream (p : MessageType T) (msg : T) (code : UInt16) : Bytes × ℕ :=
  (toLE 2 code.toNat ++ p.serialize msg, p.byteSize msg + 2)

def generateRaw (buffer : Bytes) (code : UInt16) : Bytes × ℕ :=
  (toLE 2 code.toNat ++ buffer, buffer.length + 2)

/-- A `char` of the string, converted to a code: it is signed. -/
def charToCode (c : UInt8) : UInt16 := c.toInt8.toInt16.toUInt16

/-- `stack` is the memory from the variable `result` on, which is what the call returns; the second part is
what the call leaves there. The loop counts bytes and moves in steps of a whole code: its second turn
writes behind the variable, which has two bytes. `at` throws for a string that is too short. -/
def getCode (stack : Mem) (data : Bytes) : Option (UInt16 × Mem) :=
  let write (stack : Mem) (i : ℕ) : Option Mem :=
    data[i]?.map fun c => stack.write (2 * i) (toLE 2 (charToCode c).toNat)
  ((List.range 2).foldlM write stack).map fun stack => (u16Of (stack.read 2), stack)

/-- `Send` takes as many bytes from the stream as it is told. -/
def dispatchPacket (p : MessageType T) (past : Mem) (msg : T) (code : UInt16) : Bytes :=
  let (stream, streamLen) := generateStream p msg code
  (Mem.ofList stream past).read streamLen

/-- The stream with the code is made and not sent. -/
def dispatchRaw (buffer : Bytes) (code : UInt16) : Bytes :=
  let (_stream, _streamLen) := generateRaw buffer code
  buffer

end IPacketFactory

open IPacketFactory

/-- What is handed to the packet factory. -/
inductive Dispatch (T : Type) where
  | packet (msg : T)
  | raw (buffer : Bytes)
  deriving DecidableEq, Repr

namespace Dispatch

def sent (p : MessageType T) (past : Mem) (code : UInt16) : Dispatch T → Bytes
  | .packet msg => dispatchPacket p past msg code
  | .raw buffer => dispatchRaw buffer code

def payload (p : MessageType T) : Dispatch T → Bytes
  | .packet msg => p.serialize msg
  | .raw buffer => buffer

end Dispatch

/-! ## Receiving -/

/-- The callbacks bound to a code, in the order of their binding. -/
def bound (code : UInt16) (callbacks : List (UInt16 × κ)) : List κ :=
  callbacks.filterMap fun c => if c.1 = code then some c.2 else none

/-- The callbacks `ProcessRecv` of a running system calls. -/
def invoked (callbacks : List (UInt16 × κ)) (data : Mem) (dataLen : ℕ) : Except String (List κ) :=
  if dataLen < 2 then
    .error "Cannot parse data that has less than the code data type size (out of bounds prevention)"
  else .ok (bound (u16Of (data.read 2)) callbacks)

/-- `Read` of a message. -/
def MessageType.read (p : MessageType T) (data : Mem) (dataLen : ℕ) : T :=
  p.parse (NetSystem.protoBytes data dataLen)

/-- A running system handles a packet with the callbacks of `invoked`. -/
theorem processRecv_eq {s : NetSystem} (hrun : s.running = true) (pb : Protobuf) (data : Mem)
    (dataLen : ℕ) (peer : Peer) : s.processRecv pb data dataLen peer =
      match invoked s.callbacks data dataLen with
      | .error e => (.error e, s)
      | .ok hs => throughout (NetSystem.runHandler pb data dataLen peer) hs s := by
  rw [NetSystem.processRecv, if_neg (by simp [hrun]), invoked]
  split_ifs <;> rfl

/-- The receiver calls the callbacks of the code, on what was sent, and a message is read back. `past` and
`behind` lie behind the stream and behind the packet. -/
structure Decodes (p : MessageType T) (callbacks : List (UInt16 × κ)) (past : Mem) (code : UInt16)
    (d : Dispatch T) : Prop where
  calls : ∀ behind, invoked callbacks (Mem.ofList (d.sent p past code) behind)
    (d.sent p past code).length = .ok (bound code callbacks)
  body : ∀ behind, NetSystem.protoBytes (Mem.ofList (d.sent p past code) behind)
    (d.sent p past code).length = d.payload p
  message : ∀ behind msg, d = .packet msg →
    p.read (Mem.ofList (d.sent p past code) behind) (d.sent p past code).length = msg

/-- `getCode` returns the code that `ProcessRecv` reads, and writes to nothing but its variable. -/
def ReadsCode (p : MessageType T) (past : Mem) (code : UInt16) (d : Dispatch T) : Prop :=
  ∀ behind stack, ∃ stack', getCode stack (d.sent p past code) =
    some (u16Of ((Mem.ofList (d.sent p past code) behind).read 2), stack') ∧ ∀ i, 2 ≤ i → stack' i = stack i

/-- **The law of framing.** -/
structure Framed (p : MessageType T) (callbacks : List (UInt16 × κ)) (past : Mem) (code : UInt16)
    (d : Dispatch T) : Prop extends Decodes p callbacks past code d where
  code : ReadsCode p past code d

/-! ## Which packets decode -/

/-- What the second turn of `getCode` writes lies behind the variable. -/
theorem getCode_behind {stack stack' : Mem} {data : Bytes} {code : UInt16}
    (h : getCode stack data = some (code, stack')) :
    ∃ c, data[1]? = some c ∧ stack' 2 = UInt8.ofNat (charToCode c).toNat := by
  rw [getCode] at h
  cases h₀ : data[0]? with
  | none => simp [List.range_succ, h₀] at h
  | some c₀ =>
    cases h₁ : data[1]? with
    | none => simp [List.range_succ, h₀, h₁] at h
    | some c =>
      simp only [List.range_succ, List.range_zero, List.nil_append, List.cons_append, List.foldlM_cons,
        List.foldlM_nil, h₀, h₁, Option.map_some, Option.bind_eq_bind, Option.bind_some, Option.pure_def,
        Option.some.injEq, Prod.mk.injEq] at h
      refine ⟨c, rfl, ?_⟩
      rw [← h.2]
      rfl

/-- **`getCode` never keeps to its variable**, whatever it is given. -/
theorem not_readsCode (p : MessageType T) (past : Mem) (code : UInt16) (d : Dispatch T) :
    ¬ ReadsCode p past code d := by
  intro h
  cases hc : (d.sent p past code)[1]? with
  | none =>
    obtain ⟨stack', hcode, -⟩ := h Mem.zero Mem.zero
    obtain ⟨c, hc', -⟩ := getCode_behind hcode
    exact absurd (hc.symm.trans hc') (by simp)
  | some c =>
    -- a variable whose neighbour holds another byte
    obtain ⟨stack', hcode, hkeeps⟩ := h Mem.zero fun _ => UInt8.ofNat (charToCode c).toNat + 1
    obtain ⟨c', hc', hwritten⟩ := getCode_behind hcode
    obtain rfl := Option.some.inj (hc.symm.trans hc')
    have hsame := hwritten.symm.trans (hkeeps 2 le_rfl)
    exact absurd hsame (by simp)

/-- A message goes out whole, behind its code. -/
theorem sent_packet {p : MessageType T} (h : p.Lawful) (past : Mem) (code : UInt16) (msg : T) :
    (Dispatch.packet msg).sent p past code = toLE 2 code.toNat ++ p.serialize msg := by
  show (Mem.ofList (toLE 2 code.toNat ++ p.serialize msg) past).read (p.byteSize msg + 2) = _
  rw [h.byteSize_eq]
  have hlen : (toLE 2 code.toNat ++ p.serialize msg).length = (p.serialize msg).length + 2 := by
    rw [List.length_append, length_toLE, Nat.add_comm]
  simpa using Mem.read_ofList hlen [] past

section Decoding

variable {callbacks : List (UInt16 × κ)} {code : UInt16} {body : Bytes}

/-- **A packet that begins with its code decodes.** -/
theorem invoked_append (behind : Mem) :
    invoked callbacks (Mem.ofList (toLE 2 code.toNat ++ body) behind) (toLE 2 code.toNat ++ body).length =
      .ok (bound code callbacks) := by
  have hlen : 2 ≤ (toLE 2 code.toNat ++ body).length := by
    rw [List.length_append, length_toLE]
    omega
  rw [invoked, if_neg (by omega), read_code hlen, codeOf_append]

theorem protoBytes_append (behind : Mem) :
    NetSystem.protoBytes (Mem.ofList (toLE 2 code.toNat ++ body) behind)
      (toLE 2 code.toNat ++ body).length = body := by
  have hlen : 2 ≤ (toLE 2 code.toNat ++ body).length := by
    rw [List.length_append, length_toLE]
    omega
  rw [protoBytes_ofList hlen, drop_code]

theorem sent_raw (p : MessageType T) (past : Mem) (code : UInt16) (buffer : Bytes) :
    (Dispatch.raw buffer).sent p past code = buffer := rfl

/-- A buffer that is sent as it is loses its first two bytes, or is too short to be handled. -/
theorem not_decodes_raw (p : MessageType T) (callbacks : List (UInt16 × κ)) (past : Mem) (code : UInt16)
    (buffer : Bytes) : ¬ Decodes p callbacks past code (.raw buffer) := by
  intro h
  rcases Nat.lt_or_ge buffer.length 2 with hlen | hlen
  · have hcalls := h.calls Mem.zero
    rw [sent_raw, invoked, if_pos hlen] at hcalls
    exact absurd hcalls (by simp)
  · have hbody : (NetSystem.protoBytes (Mem.ofList buffer Mem.zero) buffer.length) = buffer :=
      h.body Mem.zero
    rw [protoBytes_ofList hlen] at hbody
    have hdrop := congrArg List.length hbody
    rw [List.length_drop] at hdrop
    omega

end Decoding

/-- **Which packets decode to what was sent**: those of `DispatchPacket`. `getCode` writes behind its
variable for every packet. -/
theorem framed_iff {p : MessageType T} (h : p.Lawful) (callbacks : List (UInt16 × κ)) (past : Mem)
    (code : UInt16) (d : Dispatch T) :
    (Decodes p callbacks past code d ↔ ∃ msg, d = .packet msg) ∧ ¬ ReadsCode p past code d := by
  refine ⟨?_, not_readsCode p past code d⟩
  cases d with
  | raw buffer => exact iff_of_false (not_decodes_raw p callbacks past code buffer) (by simp)
  | packet msg =>
    have hsent := sent_packet h past code msg
    refine iff_of_true ⟨fun behind => ?_, fun behind => ?_, fun behind msg' hmsg => ?_⟩ ⟨msg, rfl⟩
    · rw [hsent, invoked_append]
    · rw [hsent, protoBytes_append]
      rfl
    · obtain rfl := Dispatch.packet.inj hmsg
      rw [hsent, MessageType.read, protoBytes_append, h.parse_serialize]

/-- The message of `EntityMessages.proto` that removes an element. -/
def mapRemove : MessageType MapRemove where
  serialize := Protobuf.wire.serializeRemove
  byteSize m := (Protobuf.wire.serializeRemove m).length
  parse bs := (Protobuf.wire.parseRemove bs).2

theorem mapRemove_lawful : mapRemove.Lawful where
  byteSize_eq _ := rfl
  parse_serialize m := congrArg Prod.snd (Protobuf.wire_roundTrips.remove m)

/-- A removal of a list element, under its own code. -/
theorem framed_iff_remove : mapRemove.Lawful ∧
    (Decodes mapRemove serverCallbacks Mem.zero internalEvtListRemove (.packet ⟨⟨[119], [112], 0⟩, 5, 0⟩) ↔
      ∃ msg, Dispatch.packet ⟨⟨[119], [112], 0⟩, 5, 0⟩ = .packet (msg : MapRemove)) ∧
    ¬ ReadsCode mapRemove Mem.zero internalEvtListRemove (.packet ⟨⟨[119], [112], 0⟩, 5, 0⟩) :=
  ⟨mapRemove_lawful, framed_iff mapRemove_lawful serverCallbacks Mem.zero internalEvtListRemove _⟩

/-- A raw buffer under the code `300`: its first two bytes are taken for the code. Of the message of the
same code `getCode` makes `44`, and writes a `1` behind its variable. -/
theorem not_framed_wide :
    (¬ ∀ (p : MessageType MapRemove), p.Lawful → ∀ (d : Dispatch MapRemove),
      Framed p [(300, ())] Mem.zero 300 d) ∧
    ∀ msg, (getCode Mem.zero ((Dispatch.packet msg).sent mapRemove Mem.zero 300)).map
      (fun r => (r.1, r.2 2)) = some (44, 1) := by
  refine ⟨fun h => ?_, fun msg => ?_⟩
  · have hcalls := (h mapRemove mapRemove_lawful (.raw [1, 2, 3])).calls Mem.zero
    exact absurd hcalls (by decide)
  · rw [sent_packet mapRemove_lawful]
    rfl

end Nettik
