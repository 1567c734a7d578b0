import Nettik.Entity.Sends

/-!
# Who controls a new object

* `granted`: the controller of the first creation of an object in a packet;
* `receive_granted`: a client without the object gets it with the controller granted first;
* **`grant_iff`**: for which delivery orders the owner controls the object of a `Build`.
-/

namespace Nettik

open ByteMem Loops

variable {pb : Protobuf} {instanceName : Bytes} {names : List Bytes}

/-! ## Controllers -/

/-- The controller of the object `id` of the manager `n`. -/
def NetSystem.controllerOf (instanceName n : Bytes) (id : UInt32) (s : NetSystem) : Option UInt32 :=
  ((s.managerOf instanceName n).bind (·.getByNetID id)).map NetObject.controller

def EntityMsg.granted (n : Bytes) (id : UInt32) : EntityMsg → Option UInt32
  | .alloc n' id' controller => if n' = n ∧ id' = id then some controller else none
  | .dealloc _ _ => none

def granted (n : Bytes) (id : UInt32) (packet : Bytes) : Option UInt32 :=
  (newsOf packet).findSome? (EntityMsg.granted n id)

namespace Roster

def controllerOf (n : Bytes) (id : UInt32) (r : Roster) : Option UInt32 :=
  (r.roll n).bind fun l => (l.find? (·.1 == id)).map Prod.snd

/-- The manager is known, and the object is in `m_ControlledObjects` when it is local. -/
structure Faithful (n : Bytes) (id : UInt32) (r : Roster) : Prop where
  known : (r.roll n).isSome = true
  controlled : r.controllerOf n id = some netControllerLocal → r.controlled id

variable {n : Bytes} {id : UInt32} {r : Roster}

theorem controllerOf_alloc {l : List (UInt32 × UInt32)} (hl : r.roll n = some l) (id' controller : UInt32) :
    (r.apply (.alloc n id' controller)).controllerOf n id =
      (r.controllerOf n id).or (if id' = id then some controller else none) := by
  by_cases hid : id' ∈ l.map Prod.fst
  · rw [apply_alloc_of_mem hl hid]
    split_ifs with hsame
    · -- the object is known, and keeps its controller
      obtain ⟨x, hx, hxid⟩ := List.mem_map.mp hid
      have hfound : (l.find? (·.1 == id)).isSome = true := by
        rw [List.find?_isSome]
        exact ⟨x, hx, beq_iff_eq.mpr (hxid.trans hsame)⟩
      obtain ⟨y, hy⟩ := Option.isSome_iff_exists.mp hfound
      simp [controllerOf, hl, hy]
    · rw [Option.or_none]
  · rw [apply_alloc_of_notMem hl hid]
    simp only [controllerOf, Function.update_self, Option.bind_some, hl, List.find?_append]
    cases l.find? (·.1 == id) with
    | some y => simp
    | none => by_cases hsame : id' = id <;> simp [hsame]

/-- **One creation.** -/
theorem Faithful.alloc (h : r.Faithful n id) (id' controller : UInt32) :
    (r.apply (.alloc n id' controller)).Faithful n id ∧
      (r.apply (.alloc n id' controller)).controllerOf n id =
        (r.controllerOf n id).or ((EntityMsg.alloc n id' controller).granted n id) := by
  obtain ⟨l, hl⟩ := Option.isSome_iff_exists.mp h.known
  have hctl : _ = (r.controllerOf n id).or _ := controllerOf_alloc hl id' controller
  have hgranted : (EntityMsg.alloc n id' controller).granted n id =
      if id' = id then some controller else none := by
    simp [EntityMsg.granted]
  rw [hgranted]
  refine ⟨?_, hctl⟩
  by_cases hid : id' ∈ l.map Prod.fst
  · rwa [apply_alloc_of_mem hl hid]
  · rw [apply_alloc_of_notMem hl hid] at hctl ⊢
    constructor
    · simp
    · intro hlocal
      rw [hctl] at hlocal
      cases hold : r.controllerOf n id with
      | some c =>
        rw [hold, Option.some_or] at hlocal
        exact Or.inr (h.controlled (hold.trans hlocal))
      | none =>
        rw [hold, Option.none_or] at hlocal
        split_ifs at hlocal with hsame
        exact Or.inl ⟨hsame.symm, Option.some.inj hlocal⟩

/-- **A run of creations**: the first one of the object decides. -/
theorem Faithful.allocs {es : List EntityMsg}
    (hes : ∀ e ∈ es, ∃ id' controller, e = .alloc n id' controller) (h : r.Faithful n id) :
    (es.foldl apply r).Faithful n id ∧
      (es.foldl apply r).controllerOf n id =
        (r.controllerOf n id).or (es.findSome? (EntityMsg.granted n id)) := by
  induction es generalizing r with
  | nil => exact ⟨h, by simp⟩
  | cons e es ih =>
    obtain ⟨id', controller, rfl⟩ := hes e List.mem_cons_self
    obtain ⟨h₁, hctl₁⟩ := h.alloc id' controller
    obtain ⟨h₂, hctl₂⟩ := ih (fun e he => hes e (List.mem_cons_of_mem _ he)) h₁
    refine ⟨h₂, ?_⟩
    rw [List.foldl_cons, hctl₂, hctl₁, List.findSome?_cons, Option.or_assoc]
    cases EntityMsg.granted n id (.alloc n id' controller) <;> rfl

end Roster

theorem controllerOf_rosterOf (c : NetSystem) (n : Bytes) (id : UInt32) :
    (rosterOf instanceName c).controllerOf n id = c.controllerOf instanceName n id := by
  have hroll : (rosterOf instanceName c).roll n = (c.managerOf instanceName n).map CEntities.roll := rfl
  rw [Roster.controllerOf, hroll, NetSystem.controllerOf]
  cases c.managerOf instanceName n with
  | none => rfl
  | some m =>
    rw [Option.map_some, Option.bind_some, Option.bind_some, CEntities.roll, List.find?_map,
      Option.map_map]
    rfl

/-- **A client that lacks the object gets it from the first packet that grants it.** -/
theorem receive_granted {n : Bytes} {id : UInt32} {packets : List Bytes}
    (hcarries : ∀ b ∈ packets, Carries pb instanceName names b)
    (hallocs : ∀ b ∈ packets, ∀ e ∈ newsOf b, ∃ id' controller, e = .alloc n id' controller)
    (past : Bytes → Mem) (server : Peer) {c : NetSystem} (hc : Aware instanceName names c)
    (hn : n ∈ names) (hnew : c.controllerOf instanceName n id = none) :
    ∃ c', throughout (fun b c => c.receive pb (past b) server b) packets c = (.ok (), c') ∧
      c'.controllerOf instanceName n id = packets.findSome? (granted n id) ∧
      (c'.controllerOf instanceName n id = some netControllerLocal → id ∈ c'.controlledObjects) := by
  obtain ⟨c', hc', haware, hroster⟩ := receive_all hcarries past server hc
  have hfaithful : (rosterOf instanceName c).Faithful n id := by
    constructor
    · exact hc.knows.known n hn
    · intro hlocal
      rw [controllerOf_rosterOf, hnew] at hlocal
      exact absurd hlocal.symm (Option.some_ne_none _)
  have hes : ∀ e ∈ packets.flatMap newsOf, ∃ id' controller, e = .alloc n id' controller := by
    intro e he
    obtain ⟨b, hb, he⟩ := List.mem_flatMap.mp he
    exact hallocs b hb e he
  obtain ⟨hfaithful', hctl⟩ := hfaithful.allocs hes
  rw [← hroster] at hfaithful' hctl
  rw [controllerOf_rosterOf, controllerOf_rosterOf, hnew, Option.none_or] at hctl
  refine ⟨c', hc', ?_, fun hlocal => ?_⟩
  · rw [hctl, findSome?_flatMap]
    rfl
  · exact hfaithful'.controlled ((controllerOf_rosterOf c' n id).trans hlocal)

/-! ## The packets of a `Build` -/

/-- A packet that creates objects of one manager, among them `id` with the controller `v`. -/
structure Creates (pb : Protobuf) (instanceName n : Bytes) (id : UInt32) (packet : Bytes)
    (v : Option UInt32) : Prop where
  carries : Carries pb instanceName [n] packet
  allocs : ∀ e ∈ newsOf packet, ∃ id' controller, e = .alloc n id' controller
  granted : granted n id packet = v

theorem Creates.single {n : Bytes} {id controller : UInt32} {packet : Bytes}
    (h : Says pb instanceName [n] [packet] [.alloc n id controller]) :
    Creates pb instanceName n id packet (some controller) := by
  have hnews : newsOf packet = [.alloc n id controller] := by
    simpa using h.news
  constructor
  · exact h.carries packet List.mem_cons_self
  · intro e he
    rw [hnews] at he
    exact ⟨id, controller, List.mem_singleton.mp he⟩
  · simp [Nettik.granted, hnews, EntityMsg.granted]

theorem Creates.others {n : Bytes} {id : UInt32} {packets : List Bytes} {es : List EntityMsg}
    (h : Says pb instanceName [n] packets es)
    (hes : ∀ e ∈ es, ∃ id' controller, e = .alloc n id' controller ∧ id' ≠ id) :
    ∀ packet ∈ packets, Creates pb instanceName n id packet none := by
  intro packet hpacket
  have hnews : ∀ e ∈ newsOf packet, ∃ id' controller, e = .alloc n id' controller ∧ id' ≠ id := by
    intro e he
    apply hes
    rw [← h.news]
    exact List.mem_flatMap.mpr ⟨packet, hpacket, he⟩
  constructor
  · exact h.carries packet hpacket
  · intro e he
    obtain ⟨id', controller, he, -⟩ := hnews e he
    exact ⟨id', controller, he⟩
  · rw [Nettik.granted, List.findSome?_eq_none_iff]
    intro e he
    obtain ⟨id', controller, rfl, hid⟩ := hnews e he
    exact if_neg fun h => hid h.2

/-- The send that tells the owner of a new object that it controls the object. -/
def NetSystem.creationSend (s : NetSystem) (i : VirtualInstance) (m : CEntities) (owner : Peer) : Send :=
  reliably owner (packetOf 0 [creation i.name owner m.name (s.newObject m (some owner))])

/-- The send that tells everybody of a new object. -/
def NetSystem.announcementSend (s : NetSystem) (i : VirtualInstance) (m : CEntities) : Send :=
  toAll true (snapshotPacket i.sequenceID (allocFrame i.name m.name s.totalEntities netControllerNone ::
    i.emitted true false))

variable {s : NetSystem} {i : VirtualInstance} {m : CEntities}

theorem broadcasts_cons (s : NetSystem) (i : VirtualInstance) (m : CEntities) :
    s.broadcasts i m.name = s.announcementSend i m ::
      (streamPackets i.sequenceID (i.emitted false false)).map (toAll false) := rfl

section

variable (pb) (owner : Peer) (h : Buildable s i m) (hunused : ∀ o ∈ m.objects, o.netID ≠ s.totalEntities)

include h

theorem creates_creationSend : Creates pb i.name m.name s.totalEntities
    (s.creationSend i m owner).packet (some netControllerLocal) := by
  have hsays : Says pb i.name [m.name]
      [packetOf 0 [creation i.name owner m.name (s.newObject m (some owner))]] _ :=
    says_creation (List.mem_singleton.mpr rfl) h.named (s.newObject m (some owner))
  have hlocal : (if (s.newObject m (some owner)).peer = some owner then netControllerLocal
    else netControllerNone) = netControllerLocal := if_pos rfl
  rw [hlocal] at hsays
  exact Creates.single hsays

theorem creates_announcementSend : Creates pb i.name m.name s.totalEntities
    (s.announcementSend i m).packet
    (if (i.emitted true false).length < 65535 then some netControllerNone else none) := by
  have hsays : Says pb i.name [m.name] [(s.announcementSend i m).packet] (if _ then _ else _) :=
    says_announcement (e := .alloc m.name s.totalEntities netControllerNone)
      (List.mem_singleton.mpr rfl) h.named i.sequenceID h.varNames
  split_ifs at hsays ⊢
  · exact Creates.single hsays
  · exact Creates.others hsays (by simp) _ List.mem_cons_self

theorem creates_broadcasts : ∀ x ∈ s.broadcasts i m.name, x = s.announcementSend i m ∨
    Creates pb i.name m.name s.totalEntities x.packet none := by
  intro x hx
  rw [broadcasts_cons] at hx
  rcases List.mem_cons.mp hx with rfl | hx
  · exact Or.inl rfl
  · obtain ⟨b, hb, rfl⟩ := List.mem_map.mp hx
    have hdata : Says pb i.name [m.name] _ _ :=
      says_data h.named.instance_nul i.sequenceID false false h.varNames
    exact Or.inr (Creates.others hdata (by simp) b hb)

include hunused

/-- The packets for the owner alone. -/
theorem creates_toOwner : ∀ x ∈ s.objectSends pb i m owner ++
      (s.extendedInstance i m (some owner)).fullSends owner,
    Creates pb i.name m.name s.totalEntities x.packet
      (if x = s.creationSend i m owner then some netControllerLocal else none) := by
  have hcreation := creates_creationSend pb owner h
  -- a packet that does not create the object is not the creation
  have hother : ∀ x : Send, Creates pb i.name m.name s.totalEntities x.packet none →
      Creates pb i.name m.name s.totalEntities x.packet
        (if x = s.creationSend i m owner then some netControllerLocal else none) := by
    intro x hx
    rwa [if_neg]
    rintro rfl
    exact absurd (hx.granted.symm.trans hcreation.granted) (by simp)
  intro x hx
  rcases List.mem_append.mp hx with hx | hx
  · obtain ⟨b, hb, rfl⟩ := List.mem_map.mp hx
    obtain ⟨o, ho, hb⟩ := List.mem_flatMap.mp hb
    rcases List.mem_append.mp ho with ho | ho
    · apply hother
      have hnew : o.netID ≠ s.totalEntities := by
        have hroll : (o.netID, o.controller) ∈ ((m.snapped true false).snapped false false).roll :=
          List.mem_map_of_mem ho
        rw [CEntities.roll_snapped, CEntities.roll_snapped] at hroll
        obtain ⟨o', ho', he⟩ := List.mem_map.mp hroll
        rw [← (Prod.mk.inj he).1]
        exact hunused o' ho'
      have hsays : Says pb i.name [m.name] (objectPackets pb i.name owner m.name o) _ :=
        says_objectPackets (List.mem_singleton.mpr rfl) h.named o
      exact Creates.others hsays (by simpa using hnew) b hb
    · rw [List.mem_singleton.mp ho] at hb
      rcases List.mem_cons.mp hb with rfl | hb
      · have hself : reliably owner _ = s.creationSend i m owner := rfl
        rw [if_pos hself]
        exact hcreation
      · apply hother
        exact Creates.others (says_lists _ _) (by simp) b hb
  · apply hother
    obtain ⟨b, hb, rfl⟩ := List.mem_map.mp hx
    exact Creates.others (h.says_full owner) (by simp) b hb

end

/-! ## Delivery -/

/-- `order` delivers `sent`, each channel in order. -/
def InOrder (sent order : List Send) : Prop :=
  ∀ channel, order.filter (·.channel == channel) = sent.filter (·.channel == channel)

theorem InOrder.mem_iff {sent order : List Send} (h : InOrder sent order) (x : Send) :
    x ∈ order ↔ x ∈ sent := by
  have hx := congrArg (x ∈ ·) (h x.channel)
  simpa using hx

/-- The owner controls the new object, everybody else has it with the controller `NONE`. -/
def Granted (pb : Protobuf) (past : Bytes → Mem) (server : Peer) (instanceName n : Bytes) (id : UInt32)
    (owner : Peer) (clients : List (Peer × NetSystem)) (order : Peer → List Send) : Prop :=
  ∀ x ∈ clients, ∃ c', throughout (fun b c => c.receive pb (past b) server b)
      ((order x.1).map Send.packet) x.2 = (.ok (), c') ∧
    if x.1 = owner then
      c'.controllerOf instanceName n id = some netControllerLocal ∧ id ∈ c'.controlledObjects
    else c'.controllerOf instanceName n id = some netControllerNone

theorem channel_broadcasts {x : Send} (hx : x ∈ s.broadcasts i m.name) : x.channel = 0 := by
  rcases List.mem_append.mp hx with hx | hx <;> obtain ⟨b, -, rfl⟩ := List.mem_map.mp hx <;> rfl

theorem filter_reliably (peer : Peer) (packets : List Bytes) :
    (packets.map (reliably peer)).filter (·.channel == 0) = [] := by
  rw [List.filter_eq_nil_iff]
  intro x hx
  obtain ⟨b, -, rfl⟩ := List.mem_map.mp hx
  simp [reliably]

theorem sentTo_owner (h : Buildable s i m) (owner : Peer) :
    sentTo owner (s.build pb i.name m.name (some owner)).2 = s.objectSends pb i m owner ++
      (s.broadcasts i m.name ++ (s.extendedInstance i m (some owner)).fullSends owner) := by
  rw [build_some h.toBuilds, sentTo, List.filter_eq_self]
  intro x hx
  rcases List.mem_append.mp hx with hx | hx
  · obtain ⟨b, -, rfl⟩ := List.mem_map.mp hx
    simp [reliably]
  · rcases List.mem_append.mp hx with hx | hx
    · rcases List.mem_append.mp hx with hx | hx <;> obtain ⟨b, -, rfl⟩ := List.mem_map.mp hx <;> rfl
    · obtain ⟨b, -, rfl⟩ := List.mem_map.mp hx
      simp [reliably]

theorem sentTo_other (h : Buildable s i m) {owner peer : Peer} (hne : peer ≠ owner) :
    sentTo peer (s.build pb i.name m.name (some owner)).2 = s.broadcasts i m.name := by
  rw [build_some h.toBuilds, sentTo, List.filter_append, List.filter_append]
  have hskip : ∀ l : List Bytes, (l.map (reliably owner)).filter
      (fun x => x.target == none || x.target == some peer) = [] := by
    intro l
    rw [List.filter_eq_nil_iff]
    intro x hx
    obtain ⟨b, -, rfl⟩ := List.mem_map.mp hx
    simp [reliably, hne.symm]
  have hkeep : (s.broadcasts i m.name).filter
      (fun x => x.target == none || x.target == some peer) = s.broadcasts i m.name := by
    rw [List.filter_eq_self]
    intro x hx
    rcases List.mem_append.mp hx with hx | hx <;> obtain ⟨b, -, rfl⟩ := List.mem_map.mp hx <;> rfl
  rw [NetSystem.objectSends, VirtualInstance.fullSends, hskip, hskip, hkeep, List.nil_append,
    List.append_nil]

theorem creationSend_mem (owner : Peer) : s.creationSend i m owner ∈ s.objectSends pb i m owner := by
  apply List.mem_map_of_mem
  rw [List.mem_flatMap]
  exact ⟨s.newObject m (some owner), List.mem_append_right _ List.mem_cons_self, List.mem_cons_self⟩

section

variable {owner : Peer} (h : Buildable s i m) (hunused : ∀ o ∈ m.objects, o.netID ≠ s.totalEntities)
  {order : List Send}

include h hunused

theorem creates_sentTo {peer : Peer}
    (horder : InOrder (sentTo peer (s.build pb i.name m.name (some owner)).2) order) :
    ∀ x ∈ order, ∃ v, Creates pb i.name m.name s.totalEntities x.packet v := by
  have hbroadcast : ∀ x ∈ s.broadcasts i m.name, ∃ v,
      Creates pb i.name m.name s.totalEntities x.packet v := by
    intro x hx
    rcases creates_broadcasts pb h x hx with rfl | hx
    · exact ⟨_, creates_announcementSend pb h⟩
    · exact ⟨_, hx⟩
  intro x hx
  rw [horder.mem_iff] at hx
  by_cases hpeer : peer = owner
  · rw [hpeer, sentTo_owner h, List.mem_append, List.mem_append] at hx
    have hown := creates_toOwner pb owner h hunused x
    rcases hx with hx | hx | hx
    · exact ⟨_, hown (List.mem_append_left _ hx)⟩
    · exact hbroadcast x hx
    · exact ⟨_, hown (List.mem_append_right _ hx)⟩
  · rw [sentTo_other h hpeer] at hx
    exact hbroadcast x hx

/-- **The owner of a new object** gets it from its own packet, or from the broadcast. -/
theorem first_owner (horder : InOrder (sentTo owner (s.build pb i.name m.name (some owner)).2) order) :
    order.findSome? (fun x => granted m.name s.totalEntities x.packet) =
      if (i.emitted true false).length < 65535 ∧
          s.creationSend i m owner ∉ order.takeWhile (fun x => !(x.channel == 0)) then
        some netControllerNone
      else some netControllerLocal := by
  have hown := fun x hx => (creates_toOwner pb owner h hunused x hx).granted
  have hannounce := (creates_announcementSend pb h).granted
  have hcases : ∀ x ∈ order, x ∈ s.broadcasts i m.name ∨ granted m.name s.totalEntities x.packet =
      if x = s.creationSend i m owner then some netControllerLocal else none := by
    intro x hx
    rw [horder.mem_iff, sentTo_owner h, List.mem_append, List.mem_append] at hx
    rcases hx with hx | hx | hx
    · exact Or.inr (hown x (List.mem_append_left _ hx))
    · exact Or.inl hx
    · exact Or.inr (hown x (List.mem_append_right _ hx))
  by_cases hlen : (i.emitted true false).length < 65535
  · have hslow : ∀ x ∈ order, (x.channel == 0) = false → granted m.name s.totalEntities x.packet =
        if x = s.creationSend i m owner then some netControllerLocal else none := by
      intro x hx hchannel
      refine (hcases x hx).resolve_left fun hb => ?_
      rw [channel_broadcasts hb] at hchannel
      exact Bool.noConfusion hchannel
    have hfast : order.filter (·.channel == 0) = s.announcementSend i m ::
        (streamPackets i.sequenceID (i.emitted false false)).map (toAll false) := by
      rw [horder 0, sentTo_owner h, List.filter_append, List.filter_append, NetSystem.objectSends,
        VirtualInstance.fullSends, filter_reliably, filter_reliably, List.nil_append, List.append_nil,
        ← broadcasts_cons, List.filter_eq_self]
      intro x hx
      exact beq_iff_eq.mpr (channel_broadcasts hx)
    rw [if_pos hlen] at hannounce
    rw [findSome?_race hslow hfast hannounce]
    split_ifs <;> simp_all
  · rw [if_neg (fun hboth => hlen hboth.1)]
    rw [if_neg hlen] at hannounce
    apply findSome?_eq_of_forall
    · intro x hx
      rcases hcases x hx with hb | hx
      · rcases creates_broadcasts pb h x hb with rfl | hb
        · exact Or.inl hannounce
        · exact Or.inl hb.granted
      · rw [hx]
        split_ifs
        · exact Or.inr rfl
        · exact Or.inl rfl
    · refine ⟨s.creationSend i m owner, ?_, (creates_creationSend pb owner h).granted⟩
      rw [horder.mem_iff, sentTo_owner h]
      exact List.mem_append_left _ (creationSend_mem owner)

omit hunused in
/-- **Everybody else** gets it from the broadcast. -/
theorem first_other {peer : Peer} (hne : peer ≠ owner)
    (horder : InOrder (sentTo peer (s.build pb i.name m.name (some owner)).2) order) :
    order.findSome? (fun x => granted m.name s.totalEntities x.packet) =
      if (i.emitted true false).length < 65535 then some netControllerNone else none := by
  have hannounce := (creates_announcementSend pb h).granted
  have hcases : ∀ x ∈ order, x = s.announcementSend i m ∨
      granted m.name s.totalEntities x.packet = none := by
    intro x hx
    rw [horder.mem_iff, sentTo_other h hne] at hx
    exact (creates_broadcasts pb h x hx).imp_right Creates.granted
  split_ifs with hlen
  · rw [if_pos hlen] at hannounce
    apply findSome?_eq_of_forall
    · intro x hx
      rcases hcases x hx with rfl | hx
      · exact Or.inr hannounce
      · exact Or.inl hx
    · refine ⟨s.announcementSend i m, ?_, hannounce⟩
      rw [horder.mem_iff, sentTo_other h hne]
      exact List.mem_cons_self
  · rw [if_neg hlen] at hannounce
    rw [List.findSome?_eq_none_iff]
    intro x hx
    rcases hcases x hx with rfl | hx
    · exact hannounce
    · exact hx

end

/-- A client that gets the packets in some order. -/
theorem deliver_creates {n : Bytes} {id : UInt32} {order : List Send}
    (h : ∀ x ∈ order, ∃ v, Creates pb instanceName n id x.packet v) (past : Bytes → Mem) (server : Peer)
    {c : NetSystem} (hc : Aware instanceName [n] c) (hlacks : c.controllerOf instanceName n id = none) :
    ∃ c', throughout (fun b c => c.receive pb (past b) server b) (order.map Send.packet) c = (.ok (), c') ∧
      c'.controllerOf instanceName n id = order.findSome? (fun x => granted n id x.packet) ∧
      (c'.controllerOf instanceName n id = some netControllerLocal → id ∈ c'.controlledObjects) := by
  have hpacket : ∀ b ∈ order.map Send.packet, ∃ v, Creates pb instanceName n id b v := by
    intro b hb
    obtain ⟨x, hx, rfl⟩ := List.mem_map.mp hb
    exact h x hx
  have hcarries : ∀ b ∈ order.map Send.packet, Carries pb instanceName [n] b := by
    intro b hb
    obtain ⟨v, hv⟩ := hpacket b hb
    exact hv.carries
  have hallocs : ∀ b ∈ order.map Send.packet, ∀ e ∈ newsOf b,
      ∃ id' controller, e = .alloc n id' controller := by
    intro b hb
    obtain ⟨v, hv⟩ := hpacket b hb
    exact hv.allocs
  obtain ⟨c', hc', hctl, hcontrolled⟩ :=
    receive_granted hcarries hallocs past server hc List.mem_cons_self hlacks
  refine ⟨c', hc', ?_, hcontrolled⟩
  rw [hctl, List.findSome?_map]
  rfl

/-- What each client ends with is the first controller it is told. -/
theorem granted_iff_first (past : Bytes → Mem) (server : Peer) {owner : Peer}
    {clients : List (Peer × NetSystem)} {order : Peer → List Send} (h : Buildable s i m)
    (hunused : ∀ o ∈ m.objects, o.netID ≠ s.totalEntities)
    (haware : ∀ x ∈ clients, Aware i.name [m.name] x.2)
    (hlacks : ∀ x ∈ clients, x.2.controllerOf i.name m.name s.totalEntities = none)
    (horder : ∀ x ∈ clients,
      InOrder (sentTo x.1 (s.build pb i.name m.name (some owner)).2) (order x.1)) :
    Granted pb past server i.name m.name s.totalEntities owner clients order ↔
      ∀ x ∈ clients, (order x.1).findSome? (fun y => granted m.name s.totalEntities y.packet) =
        if x.1 = owner then some netControllerLocal else some netControllerNone := by
  refine forall₂_congr fun x hx => ?_
  obtain ⟨c', hc', hctl, hcontrolled⟩ := deliver_creates (creates_sentTo h hunused (horder x hx))
    past server (haware x hx) (hlacks x hx)
  rw [hc', ← hctl]
  constructor
  · rintro ⟨c'', he, hvalue⟩
    obtain rfl : c' = c'' := (Prod.mk.inj he).2
    split_ifs at hvalue ⊢ with howner
    · exact hvalue.1
    · exact hvalue
  · intro hvalue
    refine ⟨c', rfl, ?_⟩
    split_ifs at hvalue ⊢ with howner
    · exact ⟨hvalue, hcontrolled hvalue⟩
    · exact hvalue

/-- **When the owner controls a new object.** Every client processes the packets of a `Build` without
an exception. The owner then controls the object and the others hold it with the controller `NONE`
exactly when the owner's own creation packet arrives before the first packet of channel `0`; with
65535 or more pending changes the broadcast cannot be read, which is no harm to an owner who is alone. -/
theorem grant_iff (past : Bytes → Mem) (server : Peer) {owner : Peer}
    {clients : List (Peer × NetSystem)} {order : Peer → List Send} (h : Buildable s i m)
    (hunused : ∀ o ∈ m.objects, o.netID ≠ s.totalEntities)
    (hconnected : owner ∈ clients.map Prod.fst) (haware : ∀ x ∈ clients, Aware i.name [m.name] x.2)
    (hlacks : ∀ x ∈ clients, x.2.controllerOf i.name m.name s.totalEntities = none)
    (horder : ∀ x ∈ clients,
      InOrder (sentTo x.1 (s.build pb i.name m.name (some owner)).2) (order x.1)) :
    Granted pb past server i.name m.name s.totalEntities owner clients order ↔
      ((i.emitted true false).length < 65535 ∧
        s.creationSend i m owner ∈ (order owner).takeWhile fun x => !(x.channel == 0)) ∨
      (65535 ≤ (i.emitted true false).length ∧ ∀ x ∈ clients, x.1 = owner) := by
  have hfirst := granted_iff_first past server h hunused haware hlacks horder
  have hothers : ∀ x ∈ clients, x.1 ≠ owner →
      (order x.1).findSome? (fun y => granted m.name s.totalEntities y.packet) =
        if (i.emitted true false).length < 65535 then some netControllerNone else none :=
    fun x hx hne => first_other h hne (horder x hx)
  have hown : InOrder (sentTo owner (s.build pb i.name m.name (some owner)).2) (order owner) := by
    obtain ⟨x, hx, rfl⟩ := List.mem_map.mp hconnected
    exact horder x hx
  have howns := first_owner h hunused hown
  have hne : some netControllerNone ≠ some netControllerLocal := by decide
  rw [hfirst]
  constructor
  · intro hall
    obtain ⟨x, hx, hxo⟩ := List.mem_map.mp hconnected
    have hown := hall x hx
    rw [hxo, if_pos rfl, howns] at hown
    by_cases hlen : (i.emitted true false).length < 65535
    · refine Or.inl ⟨hlen, ?_⟩
      by_contra hlate
      rw [if_pos ⟨hlen, hlate⟩] at hown
      exact hne hown
    · refine Or.inr ⟨not_lt.mp hlen, fun y hy => ?_⟩
      by_contra hyo
      have hother := hall y hy
      rw [hothers y hy hyo, if_neg hlen, if_neg hyo] at hother
      exact Option.some_ne_none _ hother.symm
  · intro hcond x hx
    by_cases hxo : x.1 = owner
    · rw [if_pos hxo, hxo, howns, if_neg]
      rintro ⟨hlen, hlate⟩
      rcases hcond with ⟨-, hearly⟩ | ⟨hlong, -⟩
      · exact hlate hearly
      · omega
    · rw [if_neg hxo, hothers x hx hxo, if_pos]
      rcases hcond with ⟨hlen, -⟩ | ⟨-, halone⟩
      · exact hlen
      · exact absurd (halone x hx) hxo

/-- A manager of objects without variables. -/
def grantManager : CEntities where
  name := [112]
  name_le := CEntities.p_le
  cls := .bare

def grantInstance : VirtualInstance where
  name := [119]
  managers := [grantManager]

def grantServer : NetSystem where
  server := true
  instances := [grantInstance]

def grantClient : NetSystem where
  server := false
  instances := [grantInstance]
  callbacks := clientCallbacks

/-- Peer `1` is to own the object. -/
def grantClients : List (Peer × NetSystem) := [(1, grantClient), (2, grantClient)]

/-- Channel `1` is the faster one for everybody. -/
def creationFirst (peer : Peer) : List Send :=
  if peer = 1 then
    [grantServer.creationSend grantInstance grantManager 1,
      grantServer.announcementSend grantInstance grantManager]
  else [grantServer.announcementSend grantInstance grantManager]

/-- Channel `0` is the faster one. -/
def broadcastFirst (peer : Peer) : List Send :=
  if peer = 1 then
    [grantServer.announcementSend grantInstance grantManager,
      grantServer.creationSend grantInstance grantManager 1]
  else [grantServer.announcementSend grantInstance grantManager]

theorem grantServer_buildable : Buildable grantServer grantInstance grantManager where
  server := rfl
  running := rfl
  instance_eq := rfl
  manager_eq := rfl
  named := ⟨by decide, by decide, by decide, by decide⟩
  varNames := by simp [VirtualInstance.VarNamesFit, grantInstance, grantManager]
  classNames := by simp [grantManager, ObjectClass.bare]

theorem grantClient_aware : Aware grantInstance.name [grantManager.name] grantClient := by
  apply Aware.of_empty (i := grantInstance) rfl rfl rfl
  · intro n hn
    rw [List.mem_singleton.mp hn]
    rfl
  · intro m hm
    rw [List.mem_singleton.mp hm]
    rfl

theorem broadcasts_grantServer : grantServer.broadcasts grantInstance grantManager.name =
    [grantServer.announcementSend grantInstance grantManager] := rfl

theorem sentTo_grantServer : sentTo 1
    (grantServer.build Protobuf.wire grantInstance.name grantManager.name (some 1)).2 =
      [grantServer.creationSend grantInstance grantManager 1,
        grantServer.announcementSend grantInstance grantManager] := by
  rw [sentTo_owner grantServer_buildable, broadcasts_grantServer]
  rfl

/-- The two packets for the owner travel on different channels. -/
theorem inOrder_swap {x y : Send} (h : x.channel ≠ y.channel) : InOrder [x, y] [y, x] := by
  intro channel
  by_cases hx : x.channel = channel
  · have hy : y.channel ≠ channel := fun e => h (hx.trans e.symm)
    simp [hx, hy]
  · simp [hx, List.filter_cons]

theorem creationFirst_inOrder : ∀ x ∈ grantClients, InOrder (sentTo x.1
    (grantServer.build Protobuf.wire grantInstance.name grantManager.name (some 1)).2)
      (creationFirst x.1) := by
  intro x hx
  rcases List.mem_cons.mp hx with rfl | hx
  · rw [sentTo_grantServer]
    exact fun _ => rfl
  · rw [List.mem_singleton.mp hx, sentTo_other grantServer_buildable (by decide), broadcasts_grantServer]
    exact fun _ => rfl

theorem broadcastFirst_inOrder : ∀ x ∈ grantClients, InOrder (sentTo x.1
    (grantServer.build Protobuf.wire grantInstance.name grantManager.name (some 1)).2)
      (broadcastFirst x.1) := by
  intro x hx
  rcases List.mem_cons.mp hx with rfl | hx
  · rw [sentTo_grantServer]
    exact inOrder_swap (by decide)
  · rw [List.mem_singleton.mp hx, sentTo_other grantServer_buildable (by decide), broadcasts_grantServer]
    exact fun _ => rfl

theorem grantClients_cases {x : Peer × NetSystem} (hx : x ∈ grantClients) : x.2 = grantClient := by
  rcases List.mem_cons.mp hx with rfl | hx
  · rfl
  · rw [List.mem_singleton.mp hx]

theorem grant_iff_creationFirst :
    Granted Protobuf.wire (fun _ => Mem.zero) 0 grantInstance.name grantManager.name 0 1 grantClients
      creationFirst := by
  apply (grant_iff (fun _ => Mem.zero) 0 grantServer_buildable (by simp [grantManager])
    (by simp [grantClients]) ?_ ?_ creationFirst_inOrder).mpr
  · exact Or.inl ⟨by decide, List.mem_cons_self⟩
  · intro x hx
    rw [grantClients_cases hx]
    exact grantClient_aware
  · intro x hx
    rw [grantClients_cases hx]
    rfl

/-- When the broadcast arrives first, the owner does not control its object. -/
theorem not_granted_broadcastFirst :
    ¬ ∀ order : Peer → List Send, (∀ x ∈ grantClients, InOrder (sentTo x.1
        (grantServer.build Protobuf.wire grantInstance.name grantManager.name (some 1)).2) (order x.1)) →
      Granted Protobuf.wire (fun _ => Mem.zero) 0 grantInstance.name grantManager.name 0 1 grantClients
        order := by
  intro hall
  have hunused : ∀ o ∈ grantManager.objects, o.netID ≠ grantServer.totalEntities := by
    simp [grantManager]
  have horder := broadcastFirst_inOrder (1, grantClient) List.mem_cons_self
  obtain ⟨c', hc', hctl, -⟩ := hall broadcastFirst broadcastFirst_inOrder (1, grantClient) List.mem_cons_self
  obtain ⟨c'', hc'', hfirst, -⟩ := deliver_creates
    (creates_sentTo grantServer_buildable hunused horder) (fun _ => Mem.zero) 0 grantClient_aware rfl
  obtain rfl : c' = c'' := (Prod.mk.inj (hc'.symm.trans hc'')).2
  rw [first_owner grantServer_buildable hunused horder, if_pos ⟨by decide, List.not_mem_nil⟩] at hfirst
  have hcontra : some netControllerNone = some netControllerLocal := hfirst.symm.trans hctl
  exact absurd hcontra (by decide)

end Nettik
