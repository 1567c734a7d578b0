import Mathlib.Data.List.Perm.Subperm
import Mathlib.Logic.Function.Basic
import Nettik.Lib.Links
import Nettik.World.List

/-!
# Player realms

A realm numbers its players. A new number comes from the free list, or is the count of players when
the list is empty.

* `CPlayerRealm`, `RealmState`: a realm and the objects it shares with the rest of the program;
* `add`, `remove`, `removeByNetID`, `processRealmDeletes`: its operations;
* `Numbered`: the invariant; **`realm_ids`**: the numbers in use and the free ones are those below the
  largest count of players so far.
-/

namespace Nettik

open Links

/-! ## The realm -/

/-- A pointer to a `NetObject`; the project is built for Win32. -/
abbrev ContainedObject := UInt32

/-- The members of a `NetObject` that a realm reads or sets. -/
structure RealmObject where
  netID : UInt32
  realmID : UInt32
  peer : Option Peer := none
  deriving DecidableEq, Repr

structure CPlayerRealm where
  playerList : Std.TreeMap UInt32 ContainedObject := ∅
  freeList : List UInt32 := []
  deletionQueue : List UInt32 := []

/-- A realm and the objects in memory. -/
structure RealmState where
  realm : CPlayerRealm := {}
  objects : ContainedObject → RealmObject

namespace CPlayerRealm

/-- `m_PlayerList.size()` is cast to 32 bits. -/
def getFreeID (r : CPlayerRealm) : UInt32 × CPlayerRealm :=
  match r.freeList with
  | [] => (UInt32.ofNat r.playerList.size, r)
  | i :: rest => (i, { r with freeList := rest })

def processRealmDeletes (r : CPlayerRealm) : CPlayerRealm :=
  { r with
    playerList := r.deletionQueue.foldl (fun players id => players.erase id) r.playerList
    deletionQueue := [] }

/-- What both removals do with the entry they find. -/
def release (id realmID : UInt32) (r : CPlayerRealm) : CPlayerRealm :=
  { r with
    freeList := r.freeList ++ [realmID]
    playerList := r.playerList.erase id }

def players (r : CPlayerRealm) : List ContainedObject := r.playerList.toList.map Prod.snd

end CPlayerRealm

namespace RealmState

def add (object : ContainedObject) (peer : Option Peer) (s : RealmState) : RealmState :=
  let (newID, realm) := s.realm.getFreeID
  { realm := { realm with playerList := realm.playerList.insert newID object }
    objects := Function.update s.objects object
      { s.objects object with realmID := newID, peer := peer } }

def remove (id : UInt32) (s : RealmState) : Bool × RealmState :=
  match s.realm.playerList[id]? with
  | none => (false, s)
  | some object => (true, { s with realm := s.realm.release id (s.objects object).realmID })

/-- The first player in key order that has the net id. -/
def removeByNetID (netID : UInt32) (s : RealmState) : Bool × RealmState :=
  match s.realm.playerList.toList.find? (fun entry => (s.objects entry.2).netID == netID) with
  | none => (false, s)
  | some entry =>
    (true, { s with realm := s.realm.release entry.1 (s.objects entry.2).realmID })

end RealmState

/-! ## Runs -/

/-- `outside` is the rest of the program, which writes the members of an object. -/
inductive RealmAct where
  | add (object : ContainedObject) (peer : Option Peer)
  | remove (id : UInt32)
  | removeByNetID (netID : UInt32)
  | processRealmDeletes
  | outside (object : ContainedObject) (contents : RealmObject)
  deriving DecidableEq, Repr

namespace RealmState

def step (s : RealmState) : RealmAct → RealmState
  | .add object peer => s.add object peer
  | .remove id => (s.remove id).2
  | .removeByNetID netID => (s.removeByNetID netID).2
  | .processRealmDeletes => { s with realm := s.realm.processRealmDeletes }
  | .outside object contents => { s with objects := Function.update s.objects object contents }

/-- No object is added twice, and nothing else changes the realm id of a player. -/
def Admitted (s : RealmState) : RealmAct → Prop
  | .add object _ => object ∉ s.realm.players
  | .outside object contents =>
    object ∈ s.realm.players → contents.realmID = (s.objects object).realmID
  | _ => True

instance : ∀ (s : RealmState) (a : RealmAct), Decidable (s.Admitted a)
  | _, .add _ _ => inferInstanceAs (Decidable (¬ _))
  | _, .outside _ _ => inferInstanceAs (Decidable (_ → _))
  | _, .remove _ => isTrue trivial
  | _, .removeByNetID _ => isTrue trivial
  | _, .processRealmDeletes => isTrue trivial

/-- How many players are present. -/
def count (s : RealmState) : ℕ := s.realm.playerList.size

theorem mem_players {r : CPlayerRealm} {object : ContainedObject} :
    object ∈ r.players ↔ ∃ id : UInt32, r.playerList[id]? = some object := by
  simp only [CPlayerRealm.players, List.mem_map, Prod.exists, exists_eq_right,
    Std.TreeMap.mem_toList_iff_getElem?_eq_some]

/-! ### The map -/

section

variable {β : Type} {t : Std.TreeMap UInt32 β} {id k : UInt32}

theorem mem_erase_iff : k ∈ t.erase id ↔ id ≠ k ∧ k ∈ t := by
  rw [Std.TreeMap.mem_erase, ne_eq, Std.LawfulEqCmp.compare_eq_iff_eq]

theorem mem_insert_iff {v : β} : k ∈ t.insert id v ↔ id = k ∨ k ∈ t := by
  rw [Std.TreeMap.mem_insert, Std.LawfulEqCmp.compare_eq_iff_eq]

theorem mem_of_getElem? {v : β} (h : t[id]? = some v) : id ∈ t := by
  rw [Std.TreeMap.mem_iff_isSome_getElem?, h]
  rfl

theorem size_erase_add_one (h : id ∈ t) : (t.erase id).size + 1 = t.size := by
  have hpos : t.size ≠ 0 := by
    intro hzero
    refine Std.TreeMap.not_mem_of_isEmpty ?_ h
    rw [Std.TreeMap.isEmpty_eq_size_eq_zero, hzero]
    rfl
  rw [Std.TreeMap.size_erase, if_pos (Std.TreeMap.contains_iff_mem.mpr h)]
  omega

theorem size_insert_new {v : β} (h : id ∉ t) : (t.insert id v).size = t.size + 1 := by
  rw [Std.TreeMap.size_insert, if_neg (by rwa [Std.TreeMap.contains_iff_mem])]

end

/-! ## The invariant -/

/-- The players and the free list share out the numbers below `n`. -/
structure Numbered (n : ℕ) (s : RealmState) : Prop where
  keyed : ∀ {id : UInt32} {object : ContainedObject}, s.realm.playerList[id]? = some object →
    (s.objects object).realmID = id
  freeNodup : s.realm.freeList.Nodup
  freeApart : ∀ id ∈ s.realm.freeList, id ∉ s.realm.playerList
  shared : ∀ id : UInt32, id ∈ s.realm.playerList ∨ id ∈ s.realm.freeList ↔ id.toNat < n
  sizes : s.realm.playerList.size + s.realm.freeList.length = n
  queue : s.realm.deletionQueue = []
  bounded : n ≤ 2 ^ 32

namespace Numbered

variable {n : ℕ} {s : RealmState}

/-- Players have different numbers, so none is listed twice. -/
theorem players_nodup (h : Numbered n s) : s.realm.players.Nodup := by
  have hkeys := Std.TreeMap.distinct_keys_toList (t := s.realm.playerList)
  refine List.pairwise_map.mpr (hkeys.imp_of_mem ?_)
  rintro ⟨id, object⟩ ⟨id', object'⟩ ha hb hne (rfl : object = object')
  rw [Std.TreeMap.mem_toList_iff_getElem?_eq_some] at ha hb
  have hid : id = id' := (h.keyed ha).symm.trans (h.keyed hb)
  exact hne (by simp [hid])

/-- There are fewer players than pointers while some object is not a player. -/
theorem count_lt (h : Numbered n s) {object : ContainedObject} (hnew : object ∉ s.realm.players) :
    s.count < 2 ^ 32 := by
  have hnodup : ((object :: s.realm.players).map UInt32.toNat).Nodup :=
    List.Nodup.map (fun _ _ => UInt32.toNat_inj.mp) (List.nodup_cons.mpr ⟨hnew, h.players_nodup⟩)
  have hsub : (object :: s.realm.players).map UInt32.toNat ⊆ List.range (2 ^ 32) := by
    intro k hk
    obtain ⟨x, -, rfl⟩ := List.mem_map.mp hk
    exact List.mem_range.mpr x.toNat_lt
  have hle := (List.subperm_of_subset hnodup hsub).length_le
  simp only [List.length_map, List.length_cons, CPlayerRealm.players, Std.TreeMap.length_toList,
    List.length_range] at hle
  exact hle

/-- A removal turns the number of a player into a free one. -/
theorem release (h : Numbered n s) {id : UInt32} {object : ContainedObject}
    (hfound : s.realm.playerList[id]? = some object) :
    Numbered n { s with realm := s.realm.release id (s.objects object).realmID } := by
  have hmem : id ∈ s.realm.playerList := mem_of_getElem? hfound
  have hfree : id ∉ s.realm.freeList := fun hid => h.freeApart id hid hmem
  rw [h.keyed hfound]
  refine ⟨?_, ?_, ?_, ?_, ?_, h.queue, h.bounded⟩ <;> simp only [CPlayerRealm.release]
  · intro k x hk
    rw [Std.TreeMap.getElem?_erase] at hk
    split_ifs at hk
    exact h.keyed hk
  · rw [List.nodup_append]
    refine ⟨h.freeNodup, List.nodup_singleton id, fun k hk k' hk' => ?_⟩
    rw [List.mem_singleton.mp hk']
    exact fun he => hfree (he ▸ hk)
  · intro k hk
    rw [mem_erase_iff]
    rintro ⟨hne, hplayer⟩
    rcases List.mem_append.mp hk with hk | hk
    · exact h.freeApart k hk hplayer
    · exact hne (List.mem_singleton.mp hk).symm
  · intro k
    rw [← h.shared k, mem_erase_iff, List.mem_append, List.mem_singleton]
    by_cases hk : id = k
    · subst hk
      simp [hmem]
    · simp [hk, Ne.symm hk]
  · have hsize := size_erase_add_one hmem
    have hsizes := h.sizes
    rw [List.length_append, List.length_singleton]
    omega

/-- The number is nobody's, and the others are shared out with it. -/
structure Drawn (n : ℕ) (s : RealmState) (id : UInt32) (r : CPlayerRealm) : Prop where
  fresh : id ∉ s.realm.playerList
  players : r.playerList = s.realm.playerList
  queue : r.deletionQueue = []
  nodup : (id :: r.freeList).Nodup
  apart : ∀ k ∈ r.freeList, k ∉ s.realm.playerList
  shared : ∀ k, k ∈ s.realm.playerList ∨ k ∈ id :: r.freeList ↔ k.toNat < max n (s.count + 1)
  sizes : s.count + 1 + r.freeList.length = max n (s.count + 1)

theorem getFreeID (h : Numbered n s) (hroom : s.count < 2 ^ 32) :
    Drawn n s s.realm.getFreeID.1 s.realm.getFreeID.2 := by
  have hsizes := h.sizes
  have hshared := h.shared
  cases hf : s.realm.freeList with
  | nil =>
    -- all numbers are in use, and the count of players is the next one
    have hget : s.realm.getFreeID = (UInt32.ofNat s.count, s.realm) := by
      rw [CPlayerRealm.getFreeID, hf]
      rfl
    simp only [hf, List.not_mem_nil, or_false] at hshared
    rw [hf, List.length_nil, Nat.add_zero] at hsizes
    have hcount : s.count = n := hsizes
    have hid : (UInt32.ofNat s.count).toNat = n := by
      rw [UInt32.toNat_ofNat_of_lt' hroom, hcount]
    rw [hget]
    refine ⟨?_, rfl, h.queue, ?_, ?_, ?_, ?_⟩ <;> dsimp only
    · rw [hshared, hid]
      exact Nat.lt_irrefl n
    · rw [hf]
      exact List.nodup_singleton _
    · simp [hf]
    · intro k
      rw [hf, hshared, List.mem_singleton, ← UInt32.toNat_inj, hid, hcount]
      omega
    · rw [hf, hcount, List.length_nil]
      omega
  | cons i rest =>
    have hget : s.realm.getFreeID = (i, { s.realm with freeList := rest }) := by
      rw [CPlayerRealm.getFreeID, hf]
    have hnodup := h.freeNodup
    have hapart := h.freeApart
    rw [hf] at hnodup hshared hapart hsizes
    rw [List.length_cons] at hsizes
    have hmax : max n (s.count + 1) = n := by
      rw [count]
      omega
    rw [hget]
    refine ⟨hapart i List.mem_cons_self, rfl, h.queue, hnodup,
      fun k hk => hapart k (List.mem_cons_of_mem _ hk), ?_, ?_⟩
    · rwa [hmax]
    · rw [hmax, count]
      dsimp only
      omega

/-- A new player takes the number. -/
theorem add (h : Numbered n s) {object : ContainedObject} (hnew : object ∉ s.realm.players)
    (peer : Option Peer) : Numbered (max n (s.add object peer).count) (s.add object peer) := by
  have hroom := h.count_lt hnew
  have hdrawn := h.getFreeID hroom
  have hadd : s.add object peer = ⟨{ s.realm.getFreeID.2 with
      playerList := s.realm.playerList.insert s.realm.getFreeID.1 object },
      Function.update s.objects object
        { s.objects object with realmID := s.realm.getFreeID.1, peer := peer }⟩ := by
    rw [RealmState.add, ← hdrawn.players]
  have hsize := size_insert_new (v := object) hdrawn.fresh
  have hcount : (s.add object peer).count = s.count + 1 := by
    rw [hadd]
    exact hsize
  rw [hcount, hadd]
  obtain ⟨hout, hnodup⟩ := List.nodup_cons.mp hdrawn.nodup
  refine ⟨?_, hnodup, ?_, ?_, ?_, hdrawn.queue, Nat.max_le.mpr ⟨h.bounded, hroom⟩⟩ <;> dsimp only
  · intro k x hk
    rw [Std.TreeMap.getElem?_insert] at hk
    split_ifs at hk with he
    · rw [← Option.some.inj hk, Function.update_self]
      exact Std.LawfulEqCmp.compare_eq_iff_eq.mp he
    · have hx : x ≠ object := fun hx => hnew (mem_players.mpr ⟨k, hx ▸ hk⟩)
      rw [Function.update_of_ne hx]
      exact h.keyed hk
  · intro k hk
    rw [mem_insert_iff]
    rintro (rfl | hplayer)
    · exact hout hk
    · exact hdrawn.apart k hk hplayer
  · intro k
    rw [← hdrawn.shared k, mem_insert_iff, List.mem_cons, eq_comm, or_assoc]
    exact or_left_comm
  · rw [hsize]
    exact hdrawn.sizes

/-- Writes from outside leave the realm ids of the players. -/
theorem outside (h : Numbered n s) {object : ContainedObject} {contents : RealmObject}
    (hok : s.Admitted (.outside object contents)) :
    Numbered n { s with objects := Function.update s.objects object contents } := by
  refine { h with keyed := fun {id x} (hfound : s.realm.playerList[id]? = some x) => ?_ }
  show (Function.update s.objects object contents x).realmID = id
  by_cases hx : x = object
  · have hplayer : object ∈ s.realm.players := mem_players.mpr ⟨id, hx ▸ hfound⟩
    rw [hx, Function.update_self, hok hplayer, ← hx]
    exact h.keyed hfound
  · rw [Function.update_of_ne hx]
    exact h.keyed hfound

theorem count_le (h : Numbered n s) : s.count ≤ n := by
  have hsizes := h.sizes
  rw [count]
  omega

theorem raise (h : Numbered n s) : Numbered (max n s.count) s := by
  rwa [Nat.max_eq_left h.count_le]

end Numbered

/-- **What every operation keeps.** -/
theorem numbered_step (n : ℕ) (s : RealmState) (a : RealmAct) (h : Numbered n s)
    (hok : s.Admitted a) : Numbered (max n (s.step a).count) (s.step a) := by
  cases a with
  | add object peer => exact h.add hok peer
  | remove id =>
    rw [step, remove]
    cases hfound : s.realm.playerList[id]? with
    | none => exact h.raise
    | some object => exact (h.release hfound).raise
  | removeByNetID netID =>
    rw [step, removeByNetID]
    cases hfound : s.realm.playerList.toList.find?
        (fun entry => (s.objects entry.2).netID == netID) with
    | none => exact h.raise
    | some entry =>
      have hmem := Std.TreeMap.mem_toList_iff_getElem?_eq_some.mp (List.mem_of_find?_eq_some hfound)
      exact (h.release hmem).raise
  | processRealmDeletes =>
    -- nothing ever enters the queue
    have hsame : s.realm.processRealmDeletes = s.realm := by
      rw [CPlayerRealm.processRealmDeletes, h.queue]
      exact congrArg (fun queue => { s.realm with deletionQueue := queue }) h.queue.symm
    rw [step, hsame]
    exact h.raise
  | outside object contents => exact (h.outside hok).raise

/-! ## The main result -/

/-- A realm right after its construction. -/
def empty (objects : ContainedObject → RealmObject) : RealmState where
  objects := objects

theorem numbered_empty (objects : ContainedObject → RealmObject) : Numbered 0 (empty objects) := by
  refine ⟨?_, List.nodup_nil, ?_, ?_, rfl, rfl, Nat.zero_le _⟩ <;> simp [empty]

/-- **Realm ids.** In every run, with `n` the largest count of players so far: a player's realm id is
its key, the free list has no duplicates and no id of a player, both together are the ids below `n`,
and the id `Add` takes is nobody's. -/
theorem realm_ids (objects : ContainedObject → RealmObject) (acts : List RealmAct)
    (hok : Along step Admitted (empty objects) acts) :
    (∀ (id : UInt32) (object : ContainedObject),
      (run step (empty objects) acts).realm.playerList[id]? = some object →
        ((run step (empty objects) acts).objects object).realmID = id) ∧
    (run step (empty objects) acts).realm.freeList.Nodup ∧
    (∀ id ∈ (run step (empty objects) acts).realm.freeList,
      id ∉ (run step (empty objects) acts).realm.playerList) ∧
    (∀ k, k < peak step count (empty objects) acts ↔ ∃ id : UInt32, id.toNat = k ∧
      (id ∈ (run step (empty objects) acts).realm.playerList ∨
        id ∈ (run step (empty objects) acts).realm.freeList)) ∧
    ∀ object ∉ (run step (empty objects) acts).realm.players,
      (run step (empty objects) acts).realm.getFreeID.1 ∉
        (run step (empty objects) acts).realm.playerList := by
  have h := run_peak numbered_step (numbered_empty objects) (numbered_empty objects).count_le hok
  rw [Nat.zero_max] at h
  refine ⟨fun id object => h.keyed, h.freeNodup, h.freeApart, fun k => ?_,
    fun object hnew => (h.getFreeID (h.count_lt hnew)).fresh⟩
  constructor
  · intro hk
    have hid : (UInt32.ofNat k).toNat = k := UInt32.toNat_ofNat_of_lt' (lt_of_lt_of_le hk h.bounded)
    exact ⟨UInt32.ofNat k, hid, (h.shared _).mpr (hid.symm ▸ hk)⟩
  · rintro ⟨id, rfl, hid⟩
    exact (h.shared id).mp hid

/-- Three players, one removed by its id and one by its net id, and a fourth that takes the first
free number. -/
def fourPlayers : List RealmAct :=
  [.add 100 none, .add 200 none, .add 300 none, .remove 1, .outside 300 ⟨7, 2, none⟩,
    .removeByNetID 7, .processRealmDeletes, .add 400 none]

theorem realm_ids_fourPlayers :
    ((run step (empty fun _ => ⟨0, 0, none⟩) fourPlayers).objects 400).realmID = 1 ∧
      ∃ id : UInt32, id.toNat = 2 ∧
        (id ∈ (run step (empty fun _ => ⟨0, 0, none⟩) fourPlayers).realm.playerList ∨
          id ∈ (run step (empty fun _ => ⟨0, 0, none⟩) fourPlayers).realm.freeList) := by
  have h := realm_ids (fun _ => ⟨0, 0, none⟩) fourPlayers (by decide)
  exact ⟨h.1 1 400 (by decide), (h.2.2.2.1 2).mp (by decide)⟩

end RealmState

end Nettik
