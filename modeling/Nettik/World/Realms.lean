import Nettik.World.Realm

/-!
# Two realms

Realms share no container, but an object has one realm id, whichever realms it is in.

* `RealmCall`, `call`: a call of a realm and its result; `keys`: the ids that further players get;
* `Realms`: two realms and the objects; `Paired`: beside them the first realm with its own calls alone;
* **`unaffected_iff`**: when the calls of the second realm make no difference to the first.
-/

namespace Nettik

open Links

/-! ## Calls -/

inductive RealmCall where
  | add (object : ContainedObject) (peer : Option Peer)
  | remove (id : UInt32)
  | removeByNetID (netID : UInt32)
  deriving DecidableEq, Repr

/-- `Add` shows its key in the realm id of the object. -/
inductive RealmResult where
  | key (id : UInt32)
  | removed (found : Bool)
  deriving DecidableEq, Repr

namespace RealmState

def call (s : RealmState) : RealmCall → RealmResult × RealmState
  | .add object peer => (.key ((s.add object peer).objects object).realmID, s.add object peer)
  | .remove id => (.removed (s.remove id).1, (s.remove id).2)
  | .removeByNetID netID => (.removed (s.removeByNetID netID).1, (s.removeByNetID netID).2)

def getPlayer (id : UInt32) (s : RealmState) : Option ContainedObject := s.realm.playerList[id]?

/-- The first player in key order that has the net id. -/
def findByNetID (netID : UInt32) (s : RealmState) : Option (UInt32 × ContainedObject) :=
  s.realm.playerList.toList.find? fun entry => (s.objects entry.2).netID == netID

def getPlayerByNetID (netID : UInt32) (s : RealmState) : Option ContainedObject :=
  (s.findByNetID netID).map Prod.snd

/-- The keys that objects get if they are added next. -/
def keys : List ContainedObject → RealmState → List UInt32
  | [], _ => []
  | object :: objects, s => s.realm.getFreeID.1 :: (s.add object none).keys objects

/-- The entry a call removes. -/
def taken (s : RealmState) : RealmCall → Option (UInt32 × ContainedObject)
  | .add _ _ => none
  | .remove id => (s.getPlayer id).map fun object => (id, object)
  | .removeByNetID netID => s.findByNetID netID

end RealmState

/-! ## Runs -/

structure Realms where
  a : CPlayerRealm := {}
  b : CPlayerRealm := {}
  objects : ContainedObject → RealmObject

namespace Realms

def first (s : Realms) : RealmState := ⟨s.a, s.objects⟩

def second (s : Realms) : RealmState := ⟨s.b, s.objects⟩

end Realms

inductive RealmsAct where
  | first (c : RealmCall)
  | second (c : RealmCall)
  deriving DecidableEq, Repr

/-- Two realms, and the first one as its own calls alone leave it; the results of these calls in both
runs. -/
structure Paired where
  joint : Realms
  alone : RealmState
  results : List RealmResult := []
  aloneResults : List RealmResult := []

namespace Paired

def start (a b : CPlayerRealm) (objects : ContainedObject → RealmObject) : Paired where
  joint := ⟨a, b, objects⟩
  alone := ⟨a, objects⟩

def step (s : Paired) : RealmsAct → Paired
  | .first c =>
    { joint := ⟨(s.joint.first.call c).2.realm, s.joint.b, (s.joint.first.call c).2.objects⟩
      alone := (s.alone.call c).2
      results := s.results ++ [(s.joint.first.call c).1]
      aloneResults := s.aloneResults ++ [(s.alone.call c).1] }
  | .second c =>
    { s with joint := ⟨s.joint.a, (s.joint.second.call c).2.realm, (s.joint.second.call c).2.objects⟩ }

/-- **The law of independence.** The results so far, the players that are found and the keys of the next
ones are those of the first realm's calls alone. -/
structure Unaffected (s : Paired) : Prop where
  results : s.results = s.aloneResults
  byID : ∀ id, s.joint.first.getPlayer id = s.alone.getPlayer id
  byNetID : ∀ netID, s.joint.first.getPlayerByNetID netID = s.alone.getPlayerByNetID netID
  next : ∀ objects, s.joint.first.keys objects = s.alone.keys objects

/-- An object leaves the first realm with the realm id it was given there last. -/
def Own (s : Paired) : RealmsAct → Prop
  | .first c => ∀ entry, s.joint.first.taken c = some entry →
    (s.joint.objects entry.2).realmID = (s.alone.objects entry.2).realmID
  | .second _ => True

end Paired

/-! ## One call -/

namespace RealmState

variable {s t : RealmState} {c : RealmCall} {entry : UInt32 × ContainedObject}

/-- A removal puts the realm id of the object on the free list. -/
theorem call_of_taken (h : s.taken c = some entry) : s.call c = (.removed true,
    { s with realm := s.realm.release entry.1 (s.objects entry.2).realmID }) := by
  cases c with
  | add object peer => exact absurd h (by simp [taken])
  | remove id =>
    obtain ⟨object, hobject, rfl⟩ := Option.map_eq_some_iff.mp h
    rw [getPlayer] at hobject
    rw [call, remove, hobject]
  | removeByNetID netID =>
    rw [taken, findByNetID] at h
    rw [call, removeByNetID, h]

/-- A call that takes nothing and adds nobody changes nothing. -/
theorem call_of_not_taken (h : s.taken c = none) (hadd : ∀ object peer, c ≠ .add object peer) :
    s.call c = (.removed false, s) := by
  cases c with
  | add object peer => exact absurd rfl (hadd object peer)
  | remove id =>
    rw [taken, getPlayer, Option.map_eq_none_iff] at h
    rw [call, remove, h]
  | removeByNetID netID =>
    rw [taken, findByNetID] at h
    rw [call, removeByNetID, h]

theorem call_add (object : ContainedObject) (peer : Option Peer) (s : RealmState) :
    s.call (.add object peer) = (.key s.realm.getFreeID.1, s.add object peer) := by
  rw [call]
  show (RealmResult.key (Function.update s.objects object _ object).realmID, _) = _
  rw [Function.update_self]
  rfl

/-- No call changes a net id. -/
theorem netID_call (c : RealmCall) (s : RealmState) (object : ContainedObject) :
    ((s.call c).2.objects object).netID = (s.objects object).netID := by
  cases c with
  | add added peer =>
    show (Function.update s.objects added _ object).netID = _
    by_cases ho : object = added
    · rw [ho, Function.update_self]
    · rw [Function.update_of_ne ho]
  | remove id =>
    rw [call, remove]
    cases s.realm.playerList[id]? <;> rfl
  | removeByNetID netID =>
    rw [call, removeByNetID]
    split <;> rfl

/-- States with one realm and one set of net ids. -/
structure Alike (s t : RealmState) : Prop where
  realm : s.realm = t.realm
  netID : ∀ object, (s.objects object).netID = (t.objects object).netID

namespace Alike

theorem findByNetID (h : Alike s t) (netID : UInt32) : s.findByNetID netID = t.findByNetID netID := by
  rw [RealmState.findByNetID, RealmState.findByNetID, h.realm]
  simp only [h.netID]

theorem getPlayer (h : Alike s t) (id : UInt32) : s.getPlayer id = t.getPlayer id := by
  rw [RealmState.getPlayer, RealmState.getPlayer, h.realm]

theorem taken (h : Alike s t) (c : RealmCall) : s.taken c = t.taken c := by
  cases c with
  | add object peer => rfl
  | remove id => rw [RealmState.taken, RealmState.taken, h.getPlayer]
  | removeByNetID netID => exact h.findByNetID netID

theorem add (h : Alike s t) (object : ContainedObject) (peer : Option Peer) :
    (s.add object peer).realm = (t.add object peer).realm := by
  rw [RealmState.add, RealmState.add, h.realm]

theorem keys (h : Alike s t) (objects : List ContainedObject) : s.keys objects = t.keys objects := by
  induction objects generalizing s t with
  | nil => rfl
  | cons object objects ih =>
    have hadd : Alike (s.add object none) (t.add object none) :=
      ⟨h.add object none, fun x => (netID_call (.add object none) s x).trans
        ((h.netID x).trans (netID_call (.add object none) t x).symm)⟩
    rw [RealmState.keys, RealmState.keys, ih hadd, h.realm]

/-- **A call on two states that are alike** differs in the realm id it releases only. -/
theorem call (h : Alike s t) (c : RealmCall) (hown : ∀ entry, s.taken c = some entry →
    (s.objects entry.2).realmID = (t.objects entry.2).realmID) :
    (s.call c).1 = (t.call c).1 ∧ Alike (s.call c).2 (t.call c).2 := by
  have hid : ∀ x, ((s.call c).2.objects x).netID = ((t.call c).2.objects x).netID := fun x =>
    (netID_call c s x).trans ((h.netID x).trans (netID_call c t x).symm)
  suffices hsame : (s.call c).1 = (t.call c).1 ∧ (s.call c).2.realm = (t.call c).2.realm from
    ⟨hsame.1, hsame.2, hid⟩
  by_cases hadd : ∃ object peer, c = .add object peer
  · obtain ⟨object, peer, rfl⟩ := hadd
    rw [call_add, call_add]
    exact ⟨by rw [h.realm], h.add object peer⟩
  have hremove : ∀ object peer, c ≠ .add object peer := fun object peer hc => hadd ⟨object, peer, hc⟩
  cases htaken : s.taken c with
  | none =>
    rw [call_of_not_taken htaken hremove, call_of_not_taken ((h.taken c).symm.trans htaken) hremove]
    exact ⟨rfl, h.realm⟩
  | some entry =>
    rw [call_of_taken htaken, call_of_taken ((h.taken c).symm.trans htaken)]
    exact ⟨rfl, by rw [h.realm, hown entry htaken]⟩

end Alike

/-- The first keys are those on the free list. -/
theorem keys_eq_take (objects : List ContainedObject) (h : objects.length ≤ s.realm.freeList.length) :
    s.keys objects = s.realm.freeList.take objects.length := by
  induction objects generalizing s with
  | nil => rfl
  | cons object objects ih =>
    cases hf : s.realm.freeList with
    | nil =>
      rw [hf] at h
      exact absurd h (by simp)
    | cons i rest =>
      have hget : s.realm.getFreeID = (i, { s.realm with freeList := rest }) := by
        rw [CPlayerRealm.getFreeID, hf]
      have hrest : (s.add object none).realm.freeList = rest := by
        rw [RealmState.add, hget]
      rw [hf, List.length_cons, List.length_cons] at h
      rw [keys, ih (by rw [hrest]; omega), hget, hrest]
      rfl

/-- The keys of enough further players tell the free lists of one length apart. -/
theorem freeList_eq_of_keys (hlen : s.realm.freeList.length = t.realm.freeList.length)
    (h : ∀ objects, s.keys objects = t.keys objects) : s.realm.freeList = t.realm.freeList := by
  have hkeys := h (List.replicate s.realm.freeList.length 0)
  rw [keys_eq_take _ (by rw [List.length_replicate]), keys_eq_take _ (by rw [List.length_replicate, hlen]),
    List.length_replicate, List.take_length, hlen, List.take_length] at hkeys
  exact hkeys

end RealmState

namespace Paired

variable {s : Paired} {a : RealmsAct}

/-! ## Runs -/

/-- The first realm is the same in both runs. -/
structure Inv (s : Paired) : Prop where
  results : s.results = s.aloneResults
  alike : s.joint.first.Alike s.alone

theorem Inv.unaffected (h : s.Inv) : s.Unaffected where
  results := h.results
  byID := h.alike.getPlayer
  byNetID netID := congrArg (Option.map Prod.snd) (h.alike.findByNetID netID)
  next := h.alike.keys

theorem inv_step (h : s.Inv) (hown : s.Own a) : (s.step a).Inv := by
  cases a with
  | first c =>
    obtain ⟨hresult, halike⟩ := h.alike.call c hown
    refine ⟨?_, halike⟩
    show s.results ++ [_] = s.aloneResults ++ [_]
    rw [h.results, hresult]
  | second c =>
    exact ⟨h.results, h.alike.realm, fun x =>
      (RealmState.netID_call c s.joint.second x).trans (h.alike.netID x)⟩

/-- An object that leaves with another id leaves another free list. -/
theorem not_unaffected_step (h : s.Inv) (hbad : ¬ s.Own a) : ¬ (s.step a).Unaffected := by
  intro hsame
  cases a with
  | second c => exact hbad trivial
  | first c =>
    refine hbad fun entry htaken => ?_
    have halone := (h.alike.taken c).symm.trans htaken
    have hjoint : (s.step (.first c)).joint.first.realm =
        s.joint.first.realm.release entry.1 (s.joint.objects entry.2).realmID := by
      show (s.joint.first.call c).2.realm = _
      rw [RealmState.call_of_taken htaken]
      rfl
    have hrest : (s.step (.first c)).alone.realm =
        s.joint.first.realm.release entry.1 (s.alone.objects entry.2).realmID := by
      show (s.alone.call c).2.realm = _
      rw [RealmState.call_of_taken halone, h.alike.realm]
    have hfree := RealmState.freeList_eq_of_keys (by rw [hjoint, hrest]; simp [CPlayerRealm.release])
      hsame.next
    rw [hjoint, hrest] at hfree
    simpa [CPlayerRealm.release] using hfree

/-- **When two realms are independent.** In every run of calls on two realms the first one answers as it
does to its own calls alone, exactly when every object that leaves it has the realm id it was given there
last. -/
theorem unaffected_iff (a b : CPlayerRealm) (objects : ContainedObject → RealmObject)
    (acts : List RealmsAct) :
    (∀ n, (run step (start a b objects) (acts.take n)).Unaffected) ↔
      Along step Own (start a b objects) acts :=
  forall_run_iff_along (fun _ h => h.unaffected) (fun _ _ => inv_step)
    (fun _ _ => not_unaffected_step) ⟨rfl, rfl, fun _ => rfl⟩ acts

/-- A player joins the second realm, as number one there, before it leaves the first. -/
def moved : List RealmsAct :=
  [.first (.add 100 none), .second (.add 200 none), .second (.add 100 none), .first (.remove 0),
    .first (.add 300 none)]

theorem not_unaffected_moved : ¬ ∀ (a b : CPlayerRealm) (objects : ContainedObject → RealmObject)
    (acts : List RealmsAct) (n : ℕ), (run step (start a b objects) (acts.take n)).Unaffected := by
  intro h
  have hresults := (h {} {} (fun _ => ⟨0, 0, none⟩) moved 5).results
  exact absurd hresults (by decide)

end Paired

end Nettik
