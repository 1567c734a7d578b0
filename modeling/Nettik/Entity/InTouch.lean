import Nettik.Entity.Sets

/-!
# A client behind two channels

* `Link`: a connected client, and the packets on their way to it on every channel;
* `InTouch`: what the client ends up with once it processed them is the server's set;
* `InTouch.build`, `InTouch.release`, `InTouch.connect`: the server's actions, seen by a client;
* **`InTouch.deliver`**: a delivery keeps a client in touch, unless a deletion overtakes the creation
  of its object.
-/

namespace Nettik

open ByteMem Loops Channels

variable {pb : Protobuf} {instanceName : Bytes} {names : List Bytes} {i : VirtualInstance} {m : CEntities}

/-! ## Clients behind two channels -/

/-- A connected client, and the packets on their way to it on every channel. -/
structure Link where
  peer : Peer
  client : NetSystem
  inFlight : ℕ → List Bytes := fun _ => []

namespace Link

def post (sends : List Send) (l : Link) : Link :=
  { l with inFlight := fun channel => l.inFlight channel ++ queued l.peer channel sends }

/-- The client processes the next packet of a channel, if there is one. -/
def deliver (pb : Protobuf) (past : Bytes → Mem) (server : Peer) (channel : ℕ) (l : Link) : Link :=
  match l.inFlight channel with
  | [] => l
  | b :: rest =>
    { l with
      client := (l.client.receive pb (past b) server b).2
      inFlight := Function.update l.inFlight channel rest }

/-- The messages on their way. -/
def news (channel : ℕ) (l : Link) : List EntityMsg := (l.inFlight channel).flatMap newsOf

def events (channel : ℕ) (l : Link) : List (Event (Bytes × UInt32)) :=
  (l.news channel).map EntityMsg.event

end Link

/-- The client processes what is on its way, and then holds `live`: what is on channel `1` first, and
then what is on channel `0`. -/
structure InTouch (pb : Protobuf) (instanceName : Bytes) (names : List Bytes)
    (live : Set (Bytes × UInt32)) (l : Link) : Prop where
  aware : Aware instanceName names l.client
  carries : ∀ channel, ∀ b ∈ l.inFlight channel, Carries pb instanceName names b
  known : ∀ channel, ∀ e ∈ l.news channel, e.managerName ∈ names
  rest : ∀ channel, 1 < channel → l.inFlight channel = []
  slow : ∀ e ∈ l.events 1, ∃ x, e = .add x
  settles : final (l.events 0) (l.events 1) (l.client.entities instanceName) = live

variable {live live' : Set (Bytes × UInt32)} {l : Link}

theorem InTouch.post {sends : List Send} {fast slow : List EntityMsg}
    (h : InTouch pb instanceName names live l) (ht : Told pb instanceName names l.peer sends fast slow)
    (hfast : ∀ e ∈ fast, e.managerName ∈ names) (hslow : ∀ e ∈ slow, e.managerName ∈ names)
    (hadds : ∀ e ∈ slow.map EntityMsg.event, ∃ x, e = .add x)
    (hlive : final (l.events 0 ++ fast.map EntityMsg.event)
      (l.events 1 ++ slow.map EntityMsg.event) (l.client.entities instanceName) = live') :
    InTouch pb instanceName names live' (l.post sends) := by
  have hnews : ∀ channel, (l.post sends).news channel =
      l.news channel ++ (queued l.peer channel sends).flatMap newsOf :=
    fun channel => List.flatMap_append
  have hnews₀ : (l.post sends).news 0 = l.news 0 ++ fast := by
    rw [hnews, ht.fast.news]
  have hnews₁ : (l.post sends).news 1 = l.news 1 ++ slow := by
    rw [hnews, ht.slow.news]
  have hrest : ∀ channel, 1 < channel → (l.post sends).inFlight channel = [] := by
    intro channel hchannel
    show l.inFlight channel ++ queued l.peer channel sends = []
    rw [h.rest channel hchannel, ht.rest channel hchannel, List.nil_append]
  have hcases : ∀ channel, channel = 0 ∨ channel = 1 ∨ 1 < channel := by
    intro channel
    omega
  refine ⟨h.aware, ?_, ?_, hrest, ?_, ?_⟩
  · intro channel b hb
    rcases hcases channel with rfl | rfl | hchannel
    · exact (List.mem_append.mp hb).elim (h.carries 0 b) (ht.fast.carries b)
    · exact (List.mem_append.mp hb).elim (h.carries 1 b) (ht.slow.carries b)
    · rw [hrest channel hchannel] at hb
      exact absurd hb List.not_mem_nil
  · intro channel e he
    rcases hcases channel with rfl | rfl | hchannel
    · rw [hnews₀] at he
      exact (List.mem_append.mp he).elim (h.known 0 e) (hfast e)
    · rw [hnews₁] at he
      exact (List.mem_append.mp he).elim (h.known 1 e) (hslow e)
    · rw [Link.news, hrest channel hchannel] at he
      exact absurd he List.not_mem_nil
  · intro e he
    rw [Link.events, hnews₁, List.map_append] at he
    exact (List.mem_append.mp he).elim (h.slow e) (hadds e)
  · rw [Link.events, Link.events, hnews₀, hnews₁, List.map_append, List.map_append]
    exact hlive

theorem remove_mem_events {es : List EntityMsg} {n : Bytes} {id : UInt32} :
    .remove (n, id) ∈ es.map EntityMsg.event ↔ .dealloc n id ∈ es := by
  rw [List.mem_map]
  constructor
  · rintro ⟨_ | ⟨n', id'⟩, he, hevent⟩
    · exact absurd hevent (by simp [EntityMsg.event])
    · obtain ⟨rfl, rfl⟩ : n' = n ∧ id' = id := by simpa [EntityMsg.event] using hevent
      exact he
  · intro he
    exact ⟨_, he, rfl⟩

theorem add_mem_events {es : List EntityMsg} {n : Bytes} {id : UInt32} :
    .add (n, id) ∈ es.map EntityMsg.event ↔ ∃ controller, .alloc n id controller ∈ es := by
  rw [List.mem_map]
  constructor
  · rintro ⟨⟨n', id', controller⟩ | _, he, hevent⟩
    · obtain ⟨rfl, rfl⟩ : n' = n ∧ id' = id := by simpa [EntityMsg.event] using hevent
      exact ⟨controller, he⟩
    · exact absurd hevent (by simp [EntityMsg.event])
  · rintro ⟨controller, he⟩
    exact ⟨_, he, rfl⟩

theorem mem_of_mem_update {f : ℕ → List Bytes} {channel channel' : ℕ} {b b' : Bytes} {rest : List Bytes}
    (hf : f channel = b :: rest) (hb' : b' ∈ Function.update f channel rest channel') : b' ∈ f channel' := by
  by_cases hne : channel' = channel
  · subst hne
    rw [Function.update_self] at hb'
    rw [hf]
    exact List.mem_cons_of_mem b hb'
  · rwa [Function.update_of_ne hne] at hb'

/-- The next packet of channel `0` deletes no object whose creation is on its way on channel `1`. -/
def Link.NoOvertaking (l : Link) : Prop :=
  ∀ b ∈ (l.inFlight 0).head?, ∀ n id, .dealloc n id ∈ newsOf b → ∀ controller, .alloc n id controller ∉ l.news 1

/-- What a client makes of a packet. -/
theorem Link.deliver_cons (hc : Aware instanceName names l.client) (past : Bytes → Mem) (server : Peer)
    {channel : ℕ} {b : Bytes} {rest : List Bytes} (hb : l.inFlight channel = b :: rest)
    (hcarries : Carries pb instanceName names b) (hknown : ∀ e ∈ newsOf b, e.managerName ∈ names) :
    ∃ c', l.deliver pb past server channel =
        { l with client := c', inFlight := Function.update l.inFlight channel rest } ∧
      Aware instanceName names c' ∧ c'.entities instanceName =
        after ((newsOf b).map EntityMsg.event) (l.client.entities instanceName) := by
  obtain ⟨c', hc', haware, hroster⟩ := hcarries (past b) server l.client hc
  refine ⟨c', ?_, haware, ?_⟩
  · rw [Link.deliver, hb]
    simp only [hc']
  · rw [← entities_rosterOf, hroster, Roster.entities_foldl hc.knows hknown, entities_rosterOf]

/-- **A delivery** changes what is on its way, and not what the client ends up with. -/
theorem InTouch.deliver (h : InTouch pb instanceName names live l) (past : Bytes → Mem) (server : Peer)
    (channel : ℕ) (hok : channel = 0 → l.NoOvertaking) :
    InTouch pb instanceName names live (l.deliver pb past server channel) := by
  cases hb : l.inFlight channel with
  | nil =>
    rw [Link.deliver, hb]
    exact h
  | cons b rest =>
    have hmem : b ∈ l.inFlight channel := by
      rw [hb]
      exact List.mem_cons_self
    obtain ⟨c', hdeliver, haware, hentities⟩ := Link.deliver_cons h.aware past server hb
      (h.carries channel b hmem) fun e he => h.known channel e (List.mem_flatMap.mpr ⟨b, hmem, he⟩)
    set l' := l.deliver pb past server channel
    have hqueue : l'.inFlight = Function.update l.inFlight channel rest := by
      rw [hdeliver]
    have hsub : ∀ channel', ∀ b' ∈ l'.inFlight channel', b' ∈ l.inFlight channel' := by
      intro channel' b' hb'
      rw [hqueue] at hb'
      exact mem_of_mem_update hb hb'
    have hnews : ∀ channel', ∀ e ∈ l'.news channel', e ∈ l.news channel' := by
      intro channel' e he
      obtain ⟨b', hb', he⟩ := List.mem_flatMap.mp he
      exact List.mem_flatMap.mpr ⟨b', hsub channel' b' hb', he⟩
    -- the events of the packet leave the one channel, the other one is as before
    have hself : l.events channel = (newsOf b).map EntityMsg.event ++ l'.events channel := by
      rw [Link.events, Link.events, Link.news, Link.news, hqueue, Function.update_self, hb,
        List.flatMap_cons, List.map_append]
    have hother : ∀ channel', channel' ≠ channel → l'.events channel' = l.events channel' := by
      intro channel' hne
      rw [Link.events, Link.events, Link.news, Link.news, hqueue, Function.update_of_ne hne]
    have hfinal : final (l'.events 0) (l'.events 1) (c'.entities instanceName) = live := by
      rw [hentities, ← h.settles]
      have hchannel : channel = 0 ∨ channel = 1 := by
        by_contra hne
        rw [h.rest channel (by omega)] at hb
        exact absurd hb (by simp)
      rcases hchannel with rfl | rfl
      · rw [hother 1 (by decide), hself]
        apply final_fast h.slow
        rintro ⟨n, id⟩ hremove hadd
        obtain ⟨controller, hadd⟩ := add_mem_events.mp hadd
        exact hok rfl b (by rw [hb]; rfl) n id (remove_mem_events.mp hremove) controller hadd
      · rw [hother 0 (by decide), hself]
        exact final_slow _
    have hclient : l'.client = c' := by
      rw [hdeliver]
    refine ⟨by rwa [hclient], ?_, ?_, ?_, ?_, by rwa [hclient]⟩
    · exact fun channel' b' hb' => h.carries channel' b' (hsub channel' b' hb')
    · exact fun channel' e he => h.known channel' e (hnews channel' e he)
    · intro channel' hchannel'
      apply List.eq_nil_iff_forall_not_mem.mpr
      intro b' hb'
      have hold := hsub channel' b' hb'
      rw [h.rest channel' hchannel'] at hold
      exact List.not_mem_nil hold
    · intro e he
      obtain ⟨e', he', rfl⟩ := List.mem_map.mp he
      exact h.slow _ (List.mem_map_of_mem (hnews 1 e' he'))

theorem events_creations (peer : Peer) (n : Bytes) (objects : List NetObject) :
    (creations peer n objects).map EntityMsg.event =
      (objects.map fun o => (n, o.netID)).map Event.add := by
  rw [creations, List.map_map, List.map_map]
  rfl

/-- A packet that says nothing, or goes to somebody else. -/
theorem InTouch.post_quiet {sends : List Send} (h : InTouch pb instanceName names live l)
    (ht : Told pb instanceName names l.peer sends [] []) :
    InTouch pb instanceName names live (l.post sends) := by
  refine h.post ht (by simp) (by simp) (by simp) ?_
  simpa using h.settles

/-- **A `Build`**, seen by one client. -/
theorem InTouch.build {s : NetSystem} (h : InTouch pb i.name names live l) (hb : Buildable s i m)
    (hn : m.name ∈ names) (hm : ∀ o ∈ m.objects, (m.name, o.netID) ∈ live) (pOwner : Option Peer)
    (hok : (i.emitted true false).length < 65535 ∨
      (pOwner = some l.peer ∧ .dealloc m.name s.totalEntities ∉ l.news 0)) :
    InTouch pb i.name names (insert (m.name, s.totalEntities) live)
      (l.post (s.build pb i.name m.name pOwner).2) := by
  have hids : (s.extendedManager m pOwner).objects.map (fun o => (m.name, o.netID)) =
      m.objects.map (fun o => (m.name, o.netID)) ++ [(m.name, s.totalEntities)] := by
    have hroll := congrArg (List.map fun x => (m.name, x.1)) (roll_extendedManager s m pOwner)
    rw [List.map_append, CEntities.roll, CEntities.roll, List.map_map, List.map_map] at hroll
    exact hroll
  have hslow : ∀ e ∈ (if pOwner = some l.peer then
      creations l.peer m.name (s.extendedManager m pOwner).objects else []),
        e.managerName = m.name ∧ ∃ x, e.event = .add x := by
    intro e he
    split_ifs at he
    · obtain ⟨o, -, rfl⟩ := List.mem_map.mp he
      exact ⟨rfl, _, rfl⟩
    · exact absurd he List.not_mem_nil
  refine h.post (told_build hb hn pOwner l.peer) ?_ ?_ ?_ ?_
  · intro e he
    split_ifs at he
    · rwa [List.mem_singleton.mp he]
    · exact absurd he List.not_mem_nil
  · intro e he
    rwa [(hslow e he).1]
  · intro e he
    obtain ⟨e', he', rfl⟩ := List.mem_map.mp he
    exact (hslow e' he').2
  · by_cases hlen : (i.emitted true false).length < 65535
    · -- the announcement is read
      have hlive : final (l.events 0 ++ [.add (m.name, s.totalEntities)]) (l.events 1)
          (l.client.entities i.name) = insert (m.name, s.totalEntities) live := by
        rw [final_announce, h.settles]
        rfl
      rw [if_pos hlen]
      by_cases ho : pOwner = some l.peer
      · rw [if_pos ho, events_creations, hids, ← hlive]
        apply final_inform
        intro x hx
        rw [List.map_singleton]
        show x ∈ final (l.events 0 ++ [.add (m.name, s.totalEntities)]) _ _
        rw [hlive]
        rcases List.mem_append.mp hx with hx | hx
        · obtain ⟨o, ho, rfl⟩ := List.mem_map.mp hx
          exact Set.mem_insert_of_mem _ (hm o ho)
        · rw [List.mem_singleton.mp hx]
          exact Set.mem_insert _ _
      · rw [if_neg ho, List.map_nil, List.append_nil]
        exact hlive
    · -- the owner hears of the object on channel 1 alone
      obtain ⟨ho, hdealloc⟩ := hok.resolve_left hlen
      rw [if_neg hlen, if_pos ho, events_creations, hids, List.map_nil, List.append_nil,
        List.map_append, ← List.append_assoc, List.map_singleton]
      have hremove : .remove (m.name, s.totalEntities) ∉ l.events 0 :=
        fun hmem => hdealloc (remove_mem_events.mp hmem)
      rw [final_inform_new hremove, final_inform, h.settles]
      intro x hx
      obtain ⟨o, ho, rfl⟩ := List.mem_map.mp hx
      rw [h.settles]
      exact hm o ho

theorem postUpdate_snd {s : NetSystem} (h : Serving names s i) (hm : i.getManager m.name = some m)
    (held : ObjRef → Bool) : (s.postUpdate i.name m.name held).2 =
      ((m.freed held).map fun o => packetOf 0 [deallocFrame i.name m.name o.netID]).map (toAll true) := by
  have hfree : ∀ o : NetObject, s.freeEntity i.name m.name o = _ := freeEntity_eq h.server h.running m.name
  rw [NetSystem.postUpdate, h.getInstance, Option.bind_some, hm]
  simp only [h.running, h.server, Bool.and_self, if_true, hfree]
  rw [List.map_map, List.map_eq_flatMap]
  rfl

/-- **A release**, seen by one client. -/
theorem InTouch.release {s : NetSystem} (h : InTouch pb i.name names live l) (hs : Serving names s i)
    (hm : i.getManager m.name = some m) (hn : m.name ∈ names) (held : ObjRef → Bool) :
    InTouch pb i.name names (live \ {x | x ∈ (m.freed held).map fun o => (m.name, o.netID)})
      (l.post (s.postUpdate i.name m.name held).2) := by
  have hnamed := (hs.fit m (List.mem_of_find?_eq_some hm)).named
  have hsays : Says pb i.name names
      ((m.freed held).map fun o => packetOf 0 [deallocFrame i.name m.name o.netID])
      ((m.freed held).map fun o => .dealloc m.name o.netID) := by
    rw [List.map_eq_flatMap, List.map_eq_flatMap]
    exact Says.flatMap fun o _ => says_single (e := .dealloc m.name o.netID) hn hnamed
  have hevents : ((m.freed held).map fun o => EntityMsg.dealloc m.name o.netID).map EntityMsg.event =
      ((m.freed held).map fun o => (m.name, o.netID)).map Event.remove := by
    rw [List.map_map, List.map_map]
    rfl
  rw [postUpdate_snd hs hm]
  refine h.post (Told.toAll hsays l.peer true) ?_ (by simp) (by simp) ?_
  · intro e he
    obtain ⟨o, -, rfl⟩ := List.mem_map.mp he
    exact hn
  · rw [hevents, List.map_nil, List.append_nil, final_announce, h.settles, after_map_remove]

/-- What a join tells a peer. -/
theorem Serving.told_join {s : NetSystem} (hs : Serving names s i) (peer target : Peer) :
    Told pb i.name names peer (s.connectHandler pb target).2 []
      (if target = peer then i.managers.flatMap fun m => creations target m.name m.objects else []) := by
  have hnamed : ∀ m ∈ i.managers, m.name ∈ names ∧ Named i.name m.name := by
    intro m hm
    rw [← hs.names_eq]
    exact ⟨List.mem_map_of_mem hm, (hs.fit m hm).named⟩
  rw [connectHandler_sends pb target hs.running hs.instances]
  exact Told.reliably (says_join hs.varNamesFit hnamed target) peer target

/-- **A join**, seen by the new client. -/
theorem InTouch.connect {s : NetSystem} (hs : Serving names s i) {peer : Peer} {c : NetSystem}
    (hc : Aware i.name names c) (hempty : c.entities i.name = ∅) :
    InTouch pb i.name names (s.entities i.name)
      (Link.post (s.connectHandler pb peer).2 ⟨peer, c, fun _ => []⟩) := by
  have hnil : InTouch pb i.name names ∅ ⟨peer, c, fun _ => []⟩ := by
    refine ⟨hc, by simp, by simp [Link.news], fun _ _ => rfl, by simp [Link.events, Link.news], ?_⟩
    rw [hempty]
    rfl
  have hevents : (i.managers.flatMap fun m => creations peer m.name m.objects).map EntityMsg.event =
      (i.managers.flatMap fun m => m.objects.map fun o => (m.name, o.netID)).map Event.add := by
    rw [List.map_flatMap, List.map_flatMap]
    exact List.flatMap_congr fun m _ => events_creations peer m.name m.objects
  have htold : Told pb i.name names peer _ _ _ := hs.told_join peer peer
  rw [if_pos rfl] at htold
  refine hnil.post htold (by simp) ?_ ?_ ?_
  · intro e he
    obtain ⟨m, hm, he⟩ := List.mem_flatMap.mp he
    obtain ⟨o, -, rfl⟩ := List.mem_map.mp he
    rw [← hs.names_eq]
    exact List.mem_map_of_mem hm
  · rw [hevents]
    intro e he
    obtain ⟨x, -, rfl⟩ := List.mem_map.mp he
    exact ⟨x, rfl⟩
  · show final [] ([] ++ (i.managers.flatMap fun m => creations peer m.name m.objects).map EntityMsg.event)
      (c.entities i.name) = _
    rw [hevents, hempty, List.nil_append, final, after_nil, after_map_add, Set.empty_union, hs.entities_eq]

end Nettik
