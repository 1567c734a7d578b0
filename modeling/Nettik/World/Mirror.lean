import Nettik.World.Client

/-!
# Copies on a client

* `Mirrors`: the managers of a client hold, by name, copies of given objects;
* `mirrors_alloc`, `mirrors_add`, `mirrors_update`: what a creation, a list message and a data frame
  do to the copies;
* **`foldl_listMessages`**: the lists of a fresh object receive the contents of others;
* **`mirrors_takeAll`**: the variables take the frames of a full snapshot.
-/

namespace Nettik

open ByteMem Loops

/-! ## Copies -/

structure SameList (l l' : NetVarList) : Prop where
  size : l'.size = l.size
  find : ∀ k, l'.find k = l.find k

/-- What a client holds of an object: `RV` relates the variables and `RL` the lists. -/
structure Copy (peer : Peer) (RV : NetObject → NetVar → NetVar → Prop)
    (RL : NetObject → List NetVarList → Prop) (o o' : NetObject) : Prop where
  netID : o'.netID = o.netID
  controller : o'.controller =
    if o.peer = some peer then netControllerLocal else netControllerNone
  peer : o'.peer = none
  vars : List.Forall₂ (RV o) o.vars o'.vars
  lists : RL o o'.lists

/-- A manager of the client and what it was before the join: it holds copies of `objs`. -/
abbrev Held (R : NetObject → NetObject → Prop) (objs : Bytes → List NetObject) (cm m : CEntities) :
    Prop :=
  m.name = cm.name ∧ m.cls = cm.cls ∧ List.Forall₂ R (objs cm.name) m.objects

/-- The managers of the client are those of `cms`, and hold copies of `objs`. -/
structure Mirrors (instanceName : Bytes) (cms : List CEntities) (R : NetObject → NetObject → Prop)
    (objs : Bytes → List NetObject) (c : NetSystem) : Prop where
  running : c.running = true
  callbacks : c.callbacks = clientCallbacks
  managers : ∃ ms sequenceID, c.instances = [⟨instanceName, ms, sequenceID⟩] ∧
    List.Forall₂ (Held R objs) cms ms

/-- Objects of different managers, or at different places of one, have different ids. -/
structure DistinctBy (objs : Bytes → List NetObject) : Prop where
  within : ∀ n, (objs n).Pairwise fun a b => a.netID ≠ b.netID
  across : ∀ n n', n ≠ n' → ∀ a ∈ objs n, ∀ b ∈ objs n', a.netID ≠ b.netID

variable {instanceName : Bytes} {cms : List CEntities} {R R' : NetObject → NetObject → Prop}
  {objs objs' : Bytes → List NetObject} {c c' : NetSystem}

theorem pairwise_netID (hid : ∀ o o', R o o' → o'.netID = o.netID) {os os' : List NetObject}
    (h : List.Forall₂ R os os') (hos : os.Pairwise fun a b => a.netID ≠ b.netID) :
    os'.Pairwise fun a b => a.netID ≠ b.netID := by
  induction h with
  | nil => exact .nil
  | cons hab hl ih =>
    obtain ⟨ha, hos⟩ := List.pairwise_cons.mp hos
    refine .cons (fun b' hb' => ?_) (ih hos)
    obtain ⟨b, hb, hb'⟩ := forall₂_exists_left hl hb'
    rw [hid _ _ hab, hid _ _ hb']
    exact ha b hb

section Managers

variable {ms : List CEntities} {sequenceID : UInt32}

theorem names_of_held (h : List.Forall₂ (Held R objs) cms ms) :
    ms.map CEntities.name = cms.map CEntities.name :=
  map_eq_of_forall₂ h fun _ _ hm => hm.1

theorem distinct_of_held (hid : ∀ o o', R o o' → o'.netID = o.netID) (hd : DistinctBy objs)
    (hcms : (cms.map CEntities.name).Nodup) (h : List.Forall₂ (Held R objs) cms ms) :
    (ms.flatMap CEntities.objects).Pairwise fun a b => a.netID ≠ b.netID := by
  induction h with
  | nil => exact .nil
  | @cons cm m cms ms hab hl ih =>
    obtain ⟨hnot, hcms⟩ := List.nodup_cons.mp hcms
    rw [List.flatMap_cons, List.pairwise_append]
    refine ⟨pairwise_netID hid hab.2.2 (hd.within _), ih hcms, fun a' ha' b' hb' => ?_⟩
    obtain ⟨m', hm', hb'⟩ := List.mem_flatMap.mp hb'
    obtain ⟨cm', hcm', -, -, hm'⟩ := forall₂_exists_left hl hm'
    obtain ⟨a, ha, hra⟩ := forall₂_exists_left hab.2.2 ha'
    obtain ⟨b, hb, hrb⟩ := forall₂_exists_left hm' hb'
    have hne : cm.name ≠ cm'.name := fun e => hnot (e ▸ List.mem_map_of_mem hcm')
    rw [hid _ _ hra, hid _ _ hrb]
    exact hd.across _ _ hne a ha b hb

/-- A manager is found by its name. -/
theorem exists_getManager (instanceName : Bytes) (sequenceID : UInt32)
    (h : List.Forall₂ (Held R objs) cms ms) {cm : CEntities} (hcm : cm ∈ cms) :
    ∃ m, (⟨instanceName, ms, sequenceID⟩ : VirtualInstance).getManager cm.name = some m ∧
      List.Forall₂ R (objs cm.name) m.objects := by
  obtain ⟨m₀, hm₀, hname, -⟩ := forall₂_exists_right h hcm
  have hsome : (ms.find? (·.name == cm.name)).isSome = true :=
    List.find?_isSome.mpr ⟨m₀, hm₀, beq_iff_eq.mpr hname⟩
  obtain ⟨m, hm⟩ := Option.isSome_iff_exists.mp hsome
  obtain ⟨cm', -, hname', -, hobjs⟩ := forall₂_exists_left h (List.mem_of_find?_eq_some hm)
  have hfound : m.name = cm.name := by simpa using List.find?_some hm
  exact ⟨m, hm, hfound ▸ hname' ▸ hobjs⟩

/-- An update of the manager named `n`. -/
theorem held_modifyManager (instanceName : Bytes) (sequenceID : UInt32)
    (h : List.Forall₂ (Held R objs) cms ms)
    (hcms : (cms.map CEntities.name).Nodup) {n : Bytes} {f : CEntities → CEntities}
    (hf : ∀ cm ∈ cms, ∀ m, Held R objs cm m → cm.name = n → Held R' objs' cm (f m))
    (hother : ∀ cm ∈ cms, ∀ m, Held R objs cm m → cm.name ≠ n → Held R' objs' cm m) :
    ∃ ms', (⟨instanceName, ms, sequenceID⟩ : VirtualInstance).modifyManager n f =
        ⟨instanceName, ms', sequenceID⟩ ∧ List.Forall₂ (Held R' objs') cms ms' := by
  refine ⟨_, VirtualInstance.modifyManager_eq (by rwa [names_of_held h]), ?_⟩
  refine List.forall₂_map_right_iff.mpr (forall₂_imp_mem h fun cm hcm m _ hm => ?_)
  by_cases hn : m.name == n
  · rw [if_pos hn]
    exact hf cm hcm m hm (hm.1 ▸ beq_iff_eq.mp hn)
  · rw [if_neg hn]
    exact hother cm hcm m hm fun e => hn (beq_iff_eq.mpr (hm.1.trans e))

end Managers

theorem getInstance_singleton {i : VirtualInstance} (h : c.instances = [i]) :
    c.getInstance i.name = some i := by
  simp [NetSystem.getInstance, h]

theorem modifyInstance_singleton {i : VirtualInstance} {f : VirtualInstance → VirtualInstance}
    (h : c.instances = [i]) : (c.modifyInstance i.name f).instances = [f i] := by
  simp [NetSystem.modifyInstance, h, modifyFirst]

/-! ## The packets of one object -/

/-- **A creation frame adds a fresh object to its manager.** -/
theorem mirrors_alloc (h : Mirrors instanceName cms R objs c) (hcms : (cms.map CEntities.name).Nodup)
    (hid : ∀ o o', R o o' → o'.netID = o.netID) {cm : CEntities} (hcm : cm ∈ cms)
    (hnul : (0 : UInt8) ∉ instanceName) {o : NetObject} (hnew : ∀ a ∈ objs cm.name, a.netID ≠ o.netID)
    {controller : UInt32}
    (hR : ∀ ref, R o ⟨ref, o.netID, controller, none, cm.cls.vars, cm.cls.lists⟩) :
    ∃ c', c.entAllocate (allocFrame instanceName cm.name o.netID controller).extended =
        (.ok (), c') ∧
      Mirrors instanceName cms R (fun n => objs n ++ if n = cm.name then [o] else []) c' := by
  obtain ⟨ms, sequenceID, hinst, hms⟩ := h.managers
  obtain ⟨m, hm, hobjs⟩ := exists_getManager instanceName sequenceID hms hcm
  have hdata : (allocFrame instanceName cm.name o.netID controller).extended.dataStr = instanceName :=
    dataStr_extended rfl hnul
  have hnone : m.getByNetID o.netID = none := by
    rw [← Option.not_isSome_iff_eq_none, CEntities.getByNetID_isSome]
    rintro ⟨o', ho', e⟩
    obtain ⟨a, ha, hra⟩ := forall₂_exists_left hobjs ho'
    exact hnew a ha ((hid _ _ hra).symm.trans e)
  have hfound : c.getInstance (allocFrame instanceName cm.name o.netID controller).extended.dataStr =
      some ⟨instanceName, ms, sequenceID⟩ := by
    rw [hdata]
    exact getInstance_singleton hinst
  have hbuild : ∀ cm' ∈ cms, ∀ m', Held R objs cm' m' → cm'.name = cm.name →
      Held R (fun n => objs n ++ if n = cm.name then [o] else []) cm'
        (m'.buildLocal c.nextRef o.netID controller) := by
    intro cm' hcm' m' hm' hn
    obtain rfl : cm' = cm := List.inj_on_of_nodup_map hcms hcm' hcm hn
    refine ⟨hm'.1, hm'.2.1, ?_⟩
    simp only [if_true, CEntities.buildLocal, hm'.2.1]
    exact List.rel_append hm'.2.2 (.cons (hR _) .nil)
  have hother : ∀ cm' ∈ cms, ∀ m', Held R objs cm' m' → cm'.name ≠ cm.name →
      Held R (fun n => objs n ++ if n = cm.name then [o] else []) cm' m' := by
    rintro cm' - m' ⟨hname, hcls, hm'⟩ hn
    exact ⟨hname, hcls, by simpa [hn] using hm'⟩
  obtain ⟨ms', hmod, hms'⟩ := held_modifyManager instanceName sequenceID hms hcms hbuild hother
  refine ⟨_, entAllocate_new hfound hm hnone, h.running, h.callbacks, ms', sequenceID, ?_, hms'⟩
  rw [hdata]
  exact (modifyInstance_singleton hinst).trans (congrArg (fun i => [i]) hmod)

/-- Update the list a message names. -/
def addTo (msg : MapAdd) (o : NetObject) : NetObject :=
  { o with lists := o.lists.modify msg.listID.toNat (·.added msg) }

/-- **A list message updates the list of one object.** -/
theorem mirrors_add (h : Mirrors instanceName cms R objs c) (hcms : (cms.map CEntities.name).Nodup)
    (hid : ∀ o o', R o o' → o'.netID = o.netID) (hpeer : ∀ o o', R o o' → o'.peer = none)
    (hd : DistinctBy objs) {msg : MapAdd} (hinst : msg.target.instanceName = instanceName)
    (honly : ∀ n ≠ msg.target.managerName, ∀ o ∈ objs n, o.netID ≠ msg.target.networkCode)
    (hR : ∀ o o', R o o' → o.netID = msg.target.networkCode → R' o (addTo msg o'))
    (hother : ∀ o o', R o o' → o.netID ≠ msg.target.networkCode → R' o o') :
    Mirrors instanceName cms R' objs (c.onRemoteAdd msg) := by
  obtain ⟨ms, sequenceID, hc, hms⟩ := h.managers
  have hadd : ∀ object peer listID (l : NetVarList),
      l.onRemoteAdd ⟨object, [], peer, listID⟩ msg = l.added msg :=
    fun _ _ _ l => NetVarList.onRemoteAdd_eq (by simp) msg l
  have hupdate : ∀ cm ∈ cms, ∀ m, Held R objs cm m → cm.name = msg.target.managerName →
      Held R' objs cm (m.modifyObject msg.target.networkCode fun o =>
        { o with lists := o.lists.modify msg.listID.toNat fun l =>
          l.onRemoteAdd ⟨⟨instanceName, m.name, o.netID⟩, m.getPlayers, o.peer, msg.listID⟩ msg }) := by
    rintro cm - m ⟨hname, hcls, hm⟩ hn
    have hplayers : m.getPlayers = [] := by
      rw [CEntities.getPlayers, List.filterMap_eq_nil_iff]
      intro o' ho'
      obtain ⟨o, -, hr⟩ := forall₂_exists_left hm ho'
      exact hpeer _ _ hr
    rw [CEntities.modifyObject_eq (pairwise_netID hid hm (hd.within _))]
    refine ⟨hname, hcls, List.forall₂_map_right_iff.mpr (hm.imp fun o o' hr => ?_)⟩
    by_cases ho : o.netID = msg.target.networkCode
    · rw [atID, if_pos ((hid _ _ hr).trans ho)]
      simp only [hplayers, hadd]
      exact hR o o' hr ho
    · rw [atID, if_neg fun e => ho ((hid _ _ hr).symm.trans e)]
      exact hother o o' hr ho
  have hrest : ∀ cm ∈ cms, ∀ m, Held R objs cm m → cm.name ≠ msg.target.managerName →
      Held R' objs cm m := by
    rintro cm - m ⟨hname, hcls, hm⟩ hn
    exact ⟨hname, hcls, forall₂_imp_mem hm fun o ho o' _ hr => hother o o' hr (honly _ hn o ho)⟩
  obtain ⟨ms', hmod, hms'⟩ := held_modifyManager instanceName sequenceID hms hcms hupdate hrest
  refine ⟨h.running, h.callbacks, ms', sequenceID, ?_, hms'⟩
  rw [NetSystem.onRemoteAdd, NetSystem.modifyList, hinst]
  exact (modifyInstance_singleton hc).trans (congrArg (fun i => [i]) hmod)

theorem Mirrors.imp (h : Mirrors instanceName cms R objs c)
    (hi : ∀ n, ∀ o ∈ objs n, ∀ o', R o o' → R' o o') : Mirrors instanceName cms R' objs c := by
  obtain ⟨ms, sequenceID, hc, hms⟩ := h.managers
  exact ⟨h.running, h.callbacks, ms, sequenceID, hc, hms.imp fun cm m hm =>
    ⟨hm.1, hm.2.1, forall₂_imp_mem hm.2.2 fun o ho o' _ hr => hi _ o ho o' hr⟩⟩

/-- **A data frame updates the object of its net id.** -/
theorem mirrors_update (h : Mirrors instanceName cms R objs c) (hcms : (cms.map CEntities.name).Nodup)
    (hid : ∀ o o', R o o' → o'.netID = o.netID) (hd : DistinctBy objs) (frame : Frame)
    (hR : ∀ n, ∀ o ∈ objs n, ∀ o', R o o' → o.netID = frame.netID → R' o (o'.readUpdate frame))
    (hother : ∀ o o', R o o' → o.netID ≠ frame.netID → R' o o') :
    Mirrors instanceName cms R' objs (c.readEntityUpdate frame none) := by
  obtain ⟨ms, sequenceID, hc, hms⟩ := h.managers
  have hdist : c.DistinctIDs := by
    rw [NetSystem.DistinctIDs, NetSystem.objects, hc, List.flatMap_singleton]
    exact distinct_of_held hid hd hcms hms
  rw [NetSystem.readEntityUpdate_eq_map hdist]
  refine ⟨h.running, h.callbacks, ms.map (CEntities.mapObjects
    (atID frame.netID (NetObject.readUpdate frame))), sequenceID, ?_, ?_⟩
  · rw [NetSystem.mapObjects, hc]
    rfl
  · refine List.forall₂_map_right_iff.mpr (hms.imp fun cm m hm => ⟨hm.1, hm.2.1, ?_⟩)
    refine List.forall₂_map_right_iff.mpr (forall₂_imp_mem hm.2.2 fun o ho o' _ hr => ?_)
    by_cases hf : o.netID = frame.netID
    · rw [atID, if_pos ((hid _ _ hr).trans hf)]
      exact hR _ o ho o' hr hf
    · rw [atID, if_neg fun e => hf ((hid _ _ hr).symm.trans e)]
      exact hother o o' hr hf

/-! ## The lists of one object -/

/-- The messages `sendLists` puts in packets. -/
def listMessages (object : AssociatedObject) (ls : List NetVarList) : List MapAdd :=
  ls.zipIdx.flatMap fun l => l.1.sendContents object (UInt32.ofNat l.2)

/-- A list of a fresh object. -/
def EmptyOf (l l' : NetVarList) : Prop := l'.size = l.size ∧ l'.data = ∅

theorem foldl_modify (ms : List MapAdd) {k : ℕ} (hk : ∀ m ∈ ms, m.listID.toNat = k)
    (pre : List NetVarList) (hpre : pre.length = k) (l : NetVarList) (post : List NetVarList) :
    ms.foldl (fun ls m => ls.modify m.listID.toNat (·.added m)) (pre ++ l :: post) =
      pre ++ ms.foldl (fun l m => l.added m) l :: post := by
  induction ms generalizing l with
  | nil => rfl
  | cons m ms ih =>
    have hmod : (pre ++ l :: post).modify m.listID.toNat (·.added m) = pre ++ l.added m :: post := by
      rw [hk m List.mem_cons_self, ← hpre]
      simp [List.modify_eq_take_drop]
    rw [List.foldl_cons, hmod, ih fun m' hm' => hk m' (List.mem_cons_of_mem _ hm')]
    rfl

/-- **The lists of a fresh object receive the contents of the lists they stand for.** -/
theorem foldl_listMessages (object : AssociatedObject) {ls ls' : List NetVarList}
    (h : List.Forall₂ EmptyOf ls ls') (hlt : ls.length < 2 ^ 32) :
    List.Forall₂ SameList ls ((listMessages object ls).foldl
      (fun ls m => ls.modify m.listID.toNat (·.added m)) ls') := by
  have key : ∀ k, k + ls.length < 2 ^ 32 → ∀ pre : List NetVarList, pre.length = k →
      ∃ ls'', List.Forall₂ SameList ls ls'' ∧
        ((ls.zipIdx k).flatMap fun l => l.1.sendContents object (UInt32.ofNat l.2)).foldl
          (fun ls m => ls.modify m.listID.toNat (·.added m)) (pre ++ ls') = pre ++ ls'' := by
    clear hlt
    induction h with
    | nil => exact fun k _ pre _ => ⟨[], .nil, rfl⟩
    | @cons l l' ls ls' hl _ ih =>
      intro k hk pre hpre
      rw [List.length_cons] at hk
      have hids : ∀ m ∈ l.sendContents object (UInt32.ofNat k), m.listID.toNat = k := by
        intro m hm
        obtain ⟨item, -, rfl⟩ := List.mem_map.mp hm
        have hlt : k < 2 ^ 32 := by omega
        exact UInt32.toNat_ofNat_of_lt' hlt
      set filled := (l.sendContents object (UInt32.ofNat k)).foldl (fun l m => l.added m) l'
      have hsame : SameList l filled :=
        ⟨(NetVarList.size_addAll _ _).trans hl.1, NetVarList.find_sendContents hl.1 hl.2⟩
      obtain ⟨ls'', hrel, hfold⟩ := ih (k + 1) (by omega) (pre ++ [filled]) (by simp [hpre])
      refine ⟨filled :: ls'', .cons hsame hrel, ?_⟩
      rw [List.zipIdx_cons, List.flatMap_cons, List.foldl_append, foldl_modify _ hids pre hpre]
      simpa using hfold
  obtain ⟨ls'', hrel, hfold⟩ := key 0 (by omega) [] rfl
  rw [listMessages]
  simpa using hfold ▸ hrel

/-! ## The variables of one object -/

/-- A variable of the client that has taken the frames `fs`, all forced. -/
structure Tracks (fs : List Frame) (o : NetObject) (v v' : NetVar) : Prop where
  name : v'.name = v.name
  reliable : v'.reliable = v.reliable
  size : v'.size = v.size
  unlocked : v'.base.locked = false
  sequence : v'.base.sequenceID = 0 ∨ v'.base.sequenceID = v.base.sequenceID + 1
  data : (∃ f ∈ fs, f.netID = o.netID ∧ f.name = v.name.1) →
    v'.base.data.toList = v.base.data.toList

/-- The frame a full snapshot of the server writes for a variable, as the client reads it. -/
def fullFrame (netID : UInt32) (v : NetVar) : Frame :=
  (v.frame netID ⟨v.base.data, v.base.sequenceID + 1, true⟩).extended

theorem NetVar.readUpdate_forced {v : NetVar} {f : Frame} (controller : UInt32)
    (hf : f.forced = true) (hl : v.base.locked = false) (hs : v.base.sequenceID ≤ f.sequence) :
    (v.readUpdate controller f).base.locked = false ∧
      (v.readUpdate controller f).base.sequenceID = f.sequence ∧
      (v.readUpdate controller f).base.data.toList = (Mem.ofList f.data Mem.zero).read v.size := by
  have hcheck : v.base.checkSequence (v.received f).sequence = true := by
    simp [CNetVarBase.checkSequence, NetVar.received, hs]
  have happly : v.base.readUpdate controller (v.received f) = _ :=
    CNetVarBase.readUpdate_apply (Or.inr hf) hcheck
  have hset : (v.readUpdate controller f).base = { v.base with
      data := (v.received f).data, sequenceID := f.sequence, changes := v.base.changes + 1,
      changed := true } := by
    refine happly.trans ?_
    rw [CNetVarBase.setRaw, if_neg (by simp [CNetVarBase.setSequence, hl])]
    rfl
  rw [hset]
  exact ⟨hl, rfl, Blob.toList_ofMem _ _⟩

/-- **Taking the frame of a variable brings its value.** -/
theorem Tracks.take {fs : List Frame} {o : NetObject} {v v' : NetVar} (h : Tracks fs o v v')
    (controller : UInt32) : Tracks (fullFrame o.netID v :: fs) o v
      (v'.readUpdate controller (fullFrame o.netID v)) := by
  have hle : v'.base.sequenceID ≤ (fullFrame o.netID v).sequence := by
    rcases h.sequence with e | e
    · rw [e]
      exact UInt32.zero_le
    · rw [e]
      exact UInt32.le_refl _
  obtain ⟨hl, hs, hd⟩ := NetVar.readUpdate_forced controller (f := fullFrame o.netID v) rfl
    h.unlocked hle
  refine ⟨h.name, h.reliable, h.size, hl, Or.inr hs, fun _ => ?_⟩
  have hread := Mem.read_ofList (l := v.base.data.toList) (k := v.size) (by simp)
    (List.replicate (maxEntvarData - v.base.data.toList.length) 0) Mem.zero
  rw [hd, h.size]
  exact hread

theorem Tracks.skip {fs : List Frame} {o : NetObject} {v v' : NetVar} (h : Tracks fs o v v') {f : Frame}
    (hf : f.netID = o.netID → f.name ≠ v.name.1) : Tracks (f :: fs) o v v' where
  name := h.name
  reliable := h.reliable
  size := h.size
  unlocked := h.unlocked
  sequence := h.sequence
  data := by
    rintro ⟨g, hg, hid, hname⟩
    rcases List.mem_cons.mp hg with rfl | hg
    · exact absurd hname (hf hid)
    · exact h.data ⟨g, hg, hid, hname⟩

theorem DistinctBy.eq (hd : DistinctBy objs) {n n' : Bytes} {a b : NetObject} (ha : a ∈ objs n)
    (hb : b ∈ objs n') (h : a.netID = b.netID) : a = b := by
  by_cases hn : n = n'
  · subst hn
    exact List.inj_on_of_nodup_map (List.pairwise_map.mpr (hd.within n)) ha hb h
  · exact absurd h (hd.across n n' hn a ha b hb)

variable {peer : Peer} {RL : NetObject → List NetVarList → Prop}

theorem Copy.take {fs : List Frame} {o o' : NetObject} (h : Copy peer (Tracks fs) RL o o')
    (hnames : (o.vars.map NetVar.name).Nodup) {v : NetVar} (hv : v ∈ o.vars) :
    Copy peer (Tracks (fullFrame o.netID v :: fs)) RL o (o'.readUpdate (fullFrame o.netID v)) := by
  have hnames' : o'.vars.map NetVar.name = o.vars.map NetVar.name :=
    map_eq_of_forall₂ h.vars fun _ _ hv => hv.name
  have huniq : o'.vars.Pairwise fun a b => (a.name.1 == v.name.1) = true →
      (b.name.1 == v.name.1) = false := by
    refine (List.pairwise_map.mp (hnames' ▸ hnames)).imp fun hab ha => ?_
    rw [beq_eq_false_iff_ne]
    exact fun hb => hab (Subtype.ext ((beq_iff_eq.mp ha).trans hb.symm))
  have hvars : (o'.readUpdate (fullFrame o.netID v)).vars = o'.vars.map fun a =>
      if a.name.1 == v.name.1 then a.readUpdate o'.controller (fullFrame o.netID v) else a :=
    modifyFirst_eq_map huniq
  refine ⟨h.netID, h.controller, h.peer, ?_, h.lists⟩
  rw [hvars]
  refine List.forall₂_map_right_iff.mpr (forall₂_imp_mem h.vars fun w hw w' _ hww' => ?_)
  by_cases hn : w'.name.1 = v.name.1
  · obtain rfl : w = v :=
      List.inj_on_of_nodup_map hnames hw hv (hww'.name.symm.trans (Subtype.ext hn))
    rw [if_pos (beq_iff_eq.mpr hn)]
    exact hww'.take o'.controller
  · rw [if_neg fun e => hn (beq_iff_eq.mp e)]
    exact hww'.skip fun _ e => hn (hww'.name ▸ e.symm)

/-- The frames of a full snapshot of `objs`. -/
def FullFrameOf (objs : Bytes → List NetObject) (f : Frame) : Prop :=
  ∃ n, ∃ o ∈ objs n, ∃ v ∈ o.vars, f = fullFrame o.netID v

/-- **A client takes the frames of a full snapshot.** -/
theorem mirrors_take {fs : List Frame}
    (h : Mirrors instanceName cms (Copy peer (Tracks fs) RL) objs c)
    (hcms : (cms.map CEntities.name).Nodup) (hd : DistinctBy objs)
    (hnames : ∀ n, ∀ o ∈ objs n, (o.vars.map NetVar.name).Nodup) {f : Frame}
    (hf : FullFrameOf objs f) : Mirrors instanceName cms (Copy peer (Tracks (f :: fs)) RL) objs
      (c.readEntityUpdate f none) := by
  obtain ⟨n₀, o₀, ho₀, v, hv, rfl⟩ := hf
  refine mirrors_update h hcms (fun _ _ hr => hr.netID) hd _ ?_ ?_
  · intro n o ho o' hr hid
    obtain rfl : o = o₀ := hd.eq ho ho₀ hid
    exact hr.take (hnames n o ho) hv
  · intro o o' hr hid
    exact ⟨hr.netID, hr.controller, hr.peer,
      hr.vars.imp fun _ _ hw => hw.skip fun e => absurd e.symm hid, hr.lists⟩

theorem mirrors_takeAll {gs fs : List Frame}
    (h : Mirrors instanceName cms (Copy peer (Tracks fs) RL) objs c)
    (hcms : (cms.map CEntities.name).Nodup) (hd : DistinctBy objs)
    (hnames : ∀ n, ∀ o ∈ objs n, (o.vars.map NetVar.name).Nodup)
    (hgs : ∀ f ∈ gs, FullFrameOf objs f) : ∃ c', throughout NetSystem.actServer gs c = (.ok (), c') ∧
      Mirrors instanceName cms (Copy peer (Tracks (gs.reverse ++ fs)) RL) objs c' := by
  induction gs generalizing fs c with
  | nil => exact ⟨c, rfl, h⟩
  | cons f gs ih =>
    have hf := hgs f List.mem_cons_self
    obtain ⟨c', hc', hm⟩ := ih (mirrors_take h hcms hd hnames hf)
      fun g hg => hgs g (List.mem_cons_of_mem _ hg)
    have hact : NetSystem.actServer f c = (.ok (), c.readEntityUpdate f none) := by
      obtain ⟨n, o, ho, v, hv, rfl⟩ := hf
      rfl
    refine ⟨c', ?_, ?_⟩
    · rw [throughout, hact]
      exact hc'
    · rwa [List.reverse_cons, List.append_assoc]

end Nettik
