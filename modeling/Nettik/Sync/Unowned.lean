import Nettik.Lib.Feeds
import Nettik.Sync.Settle

/-!
# Variables that no client owns

Variables of the objects that the server keeps to itself, in a session.

* **`server_decides`**: the server's copies are what the server alone makes of them;
* `Follows`, `Feeds`: what the server publishes is a log that every client reads; `feeds_step`;
* **`clients_follow`**: a client holds what the server published, and never an older value than before.
-/

namespace Nettik

open ByteMem Loops Links CNetVarBase

/-! ## The server's copies -/

/-- What the server does on its own. -/
def SessionAct.byServer : SessionAct → Bool
  | .write none _ _ | .tick none => true
  | .write (some _) _ _ | .tick (some _) | .toServer _ | .toClient _ | .inject _ _ => false

namespace Session

variable {pb : Protobuf} {past : Mem} {host : Peer}

/-- Two servers with this outline and the same variables, as far as no client owns them. -/
structure SameUnowned (outline : Outline) (s t : Session) : Prop where
  left : s.server.outline = outline
  right : t.server.outline = outline
  vars : ∀ address : UInt32 × Bytes, outline.owner address.1 = none →
    s.server.findVar address = t.server.findVar address

theorem SameUnowned.byServer {outline : Outline} (hrun : outline.running = true) {s t : Session}
    (h : SameUnowned outline s t) {a : SessionAct} (ha : a.byServer = true) :
    SameUnowned outline (s.step pb past host a) (t.step pb past host a) := by
  rcases a with ⟨_ | k, address, w⟩ | ⟨_ | k⟩ | k | k | ⟨k, packet⟩
  · refine ⟨?_, ?_, fun address' ho => ?_⟩
    · exact (NetSystem.outline_write address w s.server).trans h.left
    · exact (NetSystem.outline_write address w t.server).trans h.right
    · show (s.server.write address w).findVar address' = (t.server.write address w).findVar address'
      rw [NetSystem.findVar_write, NetSystem.findVar_write, h.vars address' ho]
  · exact absurd ha Bool.false_ne_true
  · have hrs : s.server.running = true := (congrArg Outline.running h.left).trans hrun
    have hrt : t.server.running = true := (congrArg Outline.running h.right).trans hrun
    refine ⟨?_, ?_, fun address' ho => ?_⟩
    · exact (NetSystem.outline_snapshotUpdate hrs).trans h.left
    · exact (NetSystem.outline_snapshotUpdate hrt).trans h.right
    · show s.server.snapshotUpdate.1.findVar address' = t.server.snapshotUpdate.1.findVar address'
      rw [NetSystem.findVar_snapshotUpdate hrs, NetSystem.findVar_snapshotUpdate hrt, h.vars address' ho]
  all_goals exact absurd ha Bool.false_ne_true

/-- What the clients do, and what they send, leaves these variables alone. -/
theorem SameUnowned.byOthers {outline : Outline} (hcb : outline.callbacks = serverCallbacks) {s t : Session}
    (h : SameUnowned outline s t) {a : SessionAct} (ha : a.byServer = false) :
    SameUnowned outline (s.step pb past host a) t := by
  have hsame : ∀ s' : Session, s'.server = s.server → SameUnowned outline s' t := fun s' hs =>
    ⟨hs ▸ h.left, h.right, hs ▸ h.vars⟩
  rcases a with ⟨_ | k, address, w⟩ | ⟨_ | k⟩ | k | k | ⟨k, packet⟩
  · exact absurd ha.symm Bool.false_ne_true
  · exact hsame _ rfl
  · exact absurd ha.symm Bool.false_ne_true
  · exact hsame _ rfl
  · rw [step, toServer]
    cases hl : s.links[k]? with
    | none => exact h
    | some l =>
      dsimp only
      cases l.uplink with
      | nil => exact h
      | cons packet rest =>
        have hcb' : s.server.callbacks = serverCallbacks := (congrArg Outline.callbacks h.left).trans hcb
        obtain ⟨houtline, hvars⟩ := NetSystem.receive_others hcb' pb past (p := l.peer) packet
        refine ⟨houtline.trans h.left, h.right, fun address ho => ?_⟩
        refine (hvars address ?_).trans (h.vars address ho)
        rw [h.left, ho]
        exact Option.some_ne_none l.peer |>.symm
  · refine hsame _ ?_
    rw [step, toClient]
    cases s.links[k]? with
    | none => rfl
    | some l =>
      dsimp only
      cases l.client.pending <;> rfl
  · exact hsame _ rfl

/-- **The server decides.** Its copy of a variable that no client owns is what its own writes and ticks
make of it, whatever the clients do and send. -/
theorem server_decides (pb : Protobuf) (past : Mem) (host : Peer) {s : Session}
    (hrun : s.server.running = true) (hcb : s.server.callbacks = serverCallbacks) (acts : List SessionAct)
    {address : UInt32 × Bytes} (ho : s.server.outline.owner address.1 = none) :
    (run (step pb past host) s acts).server.findVar address =
      (run (step pb past host) s (acts.filter SessionAct.byServer)).server.findVar address := by
  have hsame : SameUnowned s.server.outline s s := ⟨rfl, rfl, fun _ _ => rfl⟩
  have hrunning : s.server.outline.running = true := hrun
  have hboth : ∀ t t' a, SameUnowned s.server.outline t t' → a.byServer = true →
      SameUnowned s.server.outline (t.step pb past host a) (t'.step pb past host a) :=
    fun t t' a h ha => h.byServer hrunning ha
  have hone : ∀ t t' a, SameUnowned s.server.outline t t' → a.byServer = false →
      SameUnowned s.server.outline (t.step pb past host a) t' := fun t t' a h ha => h.byOthers hcb ha
  exact (run_filter hboth hone hsame acts).vars address ho

/-- A server that holds an object of its own, and two clients. -/
def serverOwned : Session where
  server := player true serverCallbacks [5, 6] netControllerLocal none
  links := [⟨5, ⟨player false clientCallbacks [0] netControllerNone none, []⟩, []⟩,
    ⟨6, ⟨player false clientCallbacks [0] netControllerNone none, []⟩, []⟩]

theorem server_decides_played :
    (run (step Protobuf.wire Mem.zero 0) serverOwned played).server.findVar (7, [104, 112]) =
      (run (step Protobuf.wire Mem.zero 0) serverOwned
        (played.filter SessionAct.byServer)).server.findVar (7, [104, 112]) :=
  server_decides Protobuf.wire Mem.zero 0 rfl rfl played rfl

/-! ## The log of the server -/

section

variable (address : UInt32 × Bytes) (v : NetVar)

/-- The server's copy, what it published, and how far each client is. -/
abbrev Publication (n : ℕ) := Feed (CNetVarBase (Blob n)) (Update (Blob n))

def publishStep {n : ℕ} : Publication n → FeedAct Write → Publication n :=
  Feed.step Write.on fun b => ((b.takeVariableSnapshot false).1.toList, (b.takeVariableSnapshot false).2)

/-- What an action of the session is to the log. -/
def feedView (past : Mem) (s : Session) : SessionAct → List (FeedAct Write)
  | .write none address' w => if address' = address then [.write w] else []
  | .tick none => [.publish]
  | .toClient j => [.read j (((s.links[j]?.bind (·.client.pending.head?)).map (countIn address past)).getD 0)]
  | .write (some _) _ _ | .tick (some _) | .toServer _ | .inject _ _ => []

/-- The value that a tick of the server publishes. -/
def publishes (s : Session) : SessionAct → List Bytes
  | .tick none =>
    match s.server.findVar address with
    | some x => if x.2.base.changed then [x.2.base.data.toList] else []
    | none => []
  | .write _ _ _ | .tick (some _) | .toServer _ | .toClient _ | .inject _ _ => []

/-- The values the server publishes in a run. -/
def published (pb : Protobuf) (past : Mem) (host : Peer) : Session → List SessionAct → List Bytes :=
  shown (step pb past host) (publishes address)

/-- A client that started from the value of `v` and read `i` updates of the log; the others are on
their way to it. -/
def Follows (log : List (Update (Blob v.size))) (l : Connection) (i : ℕ) : Prop :=
  i ≤ log.length ∧ ∃ start : CNetVarBase (Blob v.size), Plain start ∧ start.data = v.base.data ∧
    Downlink address v netControllerNone l
      ⟨(log.take i).foldl (readAs netControllerNone) start, log.drop i⟩

/-- The session shows the log of the variable. -/
structure Feeds (s : Session) (x : Publication v.size) : Prop where
  unowned : s.server.outline.owner address.1 = none
  server : s.server.findVar address = some (netControllerLocal, v.withBase x.source)
  latest : x.source.changed = false → x.source.data = ((x.log.map Update.data).getLast?).getD v.base.data
  clients : List.Forall₂ (Follows address v x.log) s.links x.cursors

end

/-! ## Actions -/

section

variable {address : UInt32 × Bytes} {v : NetVar} {s : Session} {x : Publication v.size}

/-- What is published is on its way to the client. -/
theorem Follows.publish {log us : List (Update (Blob v.size))} {l : Connection} {i : ℕ} {packets : List Bytes}
    (h : Follows address v log l i) (hus : Conveys address v packets us) :
    Follows address v (log ++ us) (l.post packets) i := by
  obtain ⟨hi, start, hplain, hdata, hdown⟩ := h
  refine ⟨hi.trans (by rw [List.length_append]; exact Nat.le_add_right _ _), start, hplain, hdata, ?_⟩
  rw [List.take_append_of_le_length hi, List.drop_append_of_le_length hi]
  exact ⟨hdown.state, hdown.pending.append hus⟩

/-- A client that processes a packet reads on. -/
theorem Follows.hear {log : List (Update (Blob v.size))} {l : Connection} {i : ℕ}
    (h : Follows address v log l i) (hclient : l.client.state.outline.ClientFit host) {packet : Bytes}
    {rest : List Bytes} (hp : l.client.pending = packet :: rest) :
    Follows address v log { l with client := ⟨(l.client.state.receive pb past host packet).2, rest⟩ }
      (i + countIn address past packet) := by
  obtain ⟨hi, start, hplain, hdata, hdown⟩ := h
  have hpending := hdown.pending
  rw [hp] at hpending
  obtain ⟨sequence, fs, us, rfl, hfs, hus, -⟩ := hpending.cons_inv
  have hcount : countIn address past (packetOf sequence fs) = (updatesIn address v fs).length :=
    countIn_packetOf hfs sequence past
  have hlog : log.drop i = updatesIn address v fs ++ us := hus
  have hlen : i + (updatesIn address v fs).length ≤ log.length := by
    have hdrop := congrArg List.length hlog
    rw [List.length_drop, List.length_append] at hdrop
    omega
  have hreceive : Downlink address v _
      { l with client := ⟨(l.client.state.receive pb past host _).2, rest⟩ } _ := hdown.receive hclient hp
  rw [hcount, hlog, Inbox.iterate_deliver] at hreceive
  rw [hcount]
  refine ⟨hlen, start, hplain, hdata, ?_⟩
  have htake : log.take (i + (updatesIn address v fs).length) = log.take i ++ updatesIn address v fs := by
    rw [List.take_add, hlog, List.take_left]
  have hdrop : log.drop (i + (updatesIn address v fs).length) = us := by
    rw [← List.drop_drop, hlog, List.drop_left]
  rw [htake, hdrop, List.foldl_append]
  exact hreceive

/-- A change of the client that the copy does not see. -/
theorem Follows.unseen {log : List (Update (Blob v.size))} {l l' : Connection} {i : ℕ}
    (h : Follows address v log l i)
    (hl : l'.client.state.findVar address = l.client.state.findVar address)
    (hp : l'.client.pending = l.client.pending) : Follows address v log l' i := by
  obtain ⟨hi, start, hplain, hdata, hdown⟩ := h
  exact ⟨hi, start, hplain, hdata, hl.trans hdown.state, hp ▸ hdown.pending⟩

/-- A change behind one link that the copies do not see. -/
theorem Feeds.modify_unseen (h : Feeds address v s x) (j : ℕ) {f : Connection → Connection}
    (hf : ∀ l i, s.links[j]? = some l → Follows address v x.log l i → Follows address v x.log (f l) i) :
    Feeds address v { s with links := s.links.modify j f } x := by
  have hmod := forall₂_modify (g := id) (n := j) h.clients fun l i hl _ hli => hf l i hl hli
  rw [List.modify_id] at hmod
  exact ⟨h.unowned, h.server, h.latest, hmod⟩

theorem Write.wrote_on {n : ℕ} (w : Write) (b : CNetVarBase (Blob n)) : Wrote b (w.on b) := by
  cases w with
  | set active data => exact wrote_set active _ b
  | invalidate => exact wrote_invalidate b

theorem Feeds.writeServer (h : Feeds address v s x) (address' : UInt32 × Bytes) (w : Write) :
    Feeds address v (s.step pb past host (.write none address' w))
      (run publishStep x (s.feedView address past (.write none address' w))) := by
  have hunowned : (s.server.write address' w).outline.owner address.1 = none := by
    rw [NetSystem.outline_write, h.unowned]
  have hfind := NetSystem.findVar_write address' address w s.server
  rw [h.server, Option.map_some] at hfind
  rw [feedView]
  split_ifs with ha
  · rw [if_pos ha, NetVar.write_withBase] at hfind
    refine ⟨hunowned, hfind, fun hc => ?_, h.clients⟩
    rcases (Write.wrote_on w x.source).cases with he | ⟨hchanged, -⟩
    · show (w.on x.source).data = _
      rw [he]
      exact h.latest (he ▸ hc)
    · exact absurd (hc.symm.trans hchanged) Bool.false_ne_true
  · rw [if_neg ha] at hfind
    exact ⟨hunowned, hfind, h.latest, h.clients⟩

theorem Feeds.tickServer (h : Feeds address v s x) (hfit : s.Fit past host) :
    Feeds address v (s.tick host none) (publishStep x .publish) := by
  obtain ⟨i, hi⟩ := NetSystem.exists_instance hfit.server.toFit
  have hconveys := conveys_tick hfit.server.toFit hi h.server
  rw [if_pos rfl] at hconveys
  have hstate := NetSystem.findVar_snapshotUpdate hfit.server.running address
  rw [h.server, Option.map_some, if_pos rfl] at hstate
  refine ⟨?_, hstate, fun _ => ?_, ?_⟩
  · show s.server.snapshotUpdate.1.outline.owner address.1 = none
    rw [NetSystem.outline_snapshotUpdate hfit.server.running, h.unowned]
  · show (x.source.takeVariableSnapshot false).2.data = (((x.log ++
      (x.source.takeVariableSnapshot false).1.toList).map Update.data).getLast?).getD v.base.data
    by_cases hc : x.source.changed = true
    · rw [takeVariableSnapshot_some (Or.inr hc)]
      simp
    · have hclean : x.source.changed = false := by simpa using hc
      rw [takeVariableSnapshot_none ⟨rfl, hclean⟩, Option.toList_none, List.append_nil]
      exact h.latest hclean
  · show List.Forall₂ _ (s.links.map _) x.cursors
    rw [List.forall₂_map_left_iff]
    refine h.clients.imp fun l i hli => ?_
    rw [sends_server hfit.server hi]
    exact hli.publish hconveys

theorem Feeds.tickClient (h : Feeds address v s x) (hfit : s.Fit past host) (j : ℕ) :
    Feeds address v (s.tick host (some j)) x := by
  refine h.modify_unseen j fun l i hl hli => hli.unseen ?_ rfl
  have hclient := hfit.clients l (List.mem_of_getElem? hl)
  obtain ⟨-, start, -, -, hdown⟩ := hli
  have hstate := NetSystem.findVar_snapshotUpdate hclient.running address
  rw [hdown.state, Option.map_some,
    if_neg (by show netControllerNone ≠ netControllerLocal; decide)] at hstate
  exact hstate.trans hdown.state.symm

theorem Feeds.toServer (h : Feeds address v s x) (hfit : s.Fit past host) (j : ℕ) :
    Feeds address v (s.toServer pb past j) x := by
  rw [Session.toServer]
  cases hl : s.links[j]? with
  | none => exact h
  | some l =>
    dsimp only
    cases l.uplink with
    | nil => exact h
    | cons packet rest =>
      obtain ⟨houtline, hvars⟩ :=
        NetSystem.receive_others hfit.server.callbacks pb past (p := l.peer) packet
      have hmod := h.modify_unseen j (f := fun l => { l with uplink := rest })
        fun l i _ hli => hli.unseen rfl rfl
      refine ⟨?_, ?_, h.latest, hmod.clients⟩
      · show (s.server.receive pb past l.peer packet).2.outline.owner address.1 = none
        rw [houtline, h.unowned]
      · show (s.server.receive pb past l.peer packet).2.findVar address = _
        rw [hvars address (by rw [h.unowned]; exact (Option.some_ne_none l.peer).symm), h.server]

theorem Feeds.toClient (h : Feeds address v s x) (hfit : s.Fit past host) (j : ℕ) :
    Feeds address v (s.toClient pb past host j)
      (run publishStep x (s.feedView address past (.toClient j))) := by
  have hidle : x.cursors.modify j (· + 0) = x.cursors := List.modify_id j x.cursors
  rw [feedView, Session.toClient]
  show Feeds address v _ { x with cursors := x.cursors.modify j (· + _) }
  cases hl : s.links[j]? with
  | none =>
    show Feeds address v s { x with cursors := x.cursors.modify j (· + 0) }
    rw [hidle]
    exact h
  | some l =>
    dsimp only [Option.bind_some]
    cases hp : l.client.pending with
    | nil =>
      show Feeds address v s { x with cursors := x.cursors.modify j (· + 0) }
      rw [hidle]
      exact h
    | cons packet rest =>
      refine ⟨h.unowned, h.server, h.latest, ?_⟩
      refine forall₂_modify h.clients fun l' i hl' _ hli => ?_
      obtain rfl := Option.some.inj (hl.symm.trans hl')
      exact hli.hear (hfit.clients l (List.mem_of_getElem? hl)) hp

/-- **Every action of a session is what it is to the log**, if the clients do not write the variable
themselves. -/
theorem feeds_step (a : SessionAct) (hfit : s.Fit past host) (h : Feeds address v s x)
    (ha : a.WrittenBy address none) : Feeds address v (s.step pb past host a)
      (run publishStep x (s.feedView address past a)) := by
  cases a with
  | write who address' w =>
    cases who with
    | none => exact h.writeServer address' w
    | some j =>
      have hne : address' ≠ address := fun e => absurd (ha e) (Option.some_ne_none j)
      refine h.modify_unseen j fun l i _ hli => hli.unseen ?_ rfl
      show (l.client.state.write address' w).findVar address = _
      rw [NetSystem.findVar_write]
      simp only [if_neg hne, Prod.mk.eta, Option.map_id']
  | tick who =>
    cases who with
    | none => exact h.tickServer hfit
    | some j => exact h.tickClient hfit j
  | toServer j => exact h.toServer hfit j
  | toClient j => exact h.toClient hfit j
  | inject j packet => exact h.modify_unseen j fun l i _ hli => hli.unseen rfl rfl

/-! ## Runs -/

/-- The log holds what the server published. -/
theorem log_published {acts : List SessionAct} (hfit : s.Fit past host) (h : Feeds address v s x)
    (hacts : ∀ a ∈ acts, Harmless past a ∧ a.WrittenBy address none) :
    (run publishStep x (shown (step pb past host) (feedView address past) s acts)).log.map (·.data.toList) =
      x.log.map (·.data.toList) ++ published address pb past host s acts := by
  induction acts generalizing s x with
  | nil => exact (List.append_nil _).symm
  | cons a acts ih =>
    obtain ⟨hharmless, hwritten⟩ := hacts a List.mem_cons_self
    have hstep : (run publishStep x (s.feedView address past a)).log.map (·.data.toList) =
        x.log.map (·.data.toList) ++ s.publishes address a := by
      rcases a with ⟨_ | j, address', w⟩ | ⟨_ | j⟩ | j | j | ⟨j, packet⟩
      case tick.none =>
        show (x.log ++ (x.source.takeVariableSnapshot false).1.toList).map (·.data.toList) = _
        rw [publishes, h.server, List.map_append]
        refine congrArg _ ?_
        by_cases hc : x.source.changed = true
        · rw [takeVariableSnapshot_some (Or.inr hc)]
          exact (if_pos hc).symm
        · have hclean : x.source.changed = false := by simpa using hc
          rw [takeVariableSnapshot_none ⟨rfl, hclean⟩]
          exact (if_neg hc).symm
      case write.none =>
        rw [publishes, feedView, List.append_nil]
        split_ifs <;> rfl
      all_goals
        rw [publishes, List.append_nil]
        rfl
    rw [shown, run_append, ih (fit_step s a hfit hharmless) (feeds_step a hfit h hwritten)
      fun b hb => hacts b (List.mem_cons_of_mem a hb), hstep, published, shown, List.append_assoc]

/-- What a client made of the updates it read. -/
theorem data_foldl_readAs {start : CNetVarBase (Blob v.size)} (hstart : Plain start)
    (us : List (Update (Blob v.size))) : (us.foldl (readAs netControllerNone) start).data =
      ((us.map Update.data).getLast?).getD start.data := by
  induction us generalizing start with
  | nil => rfl
  | cons u us ih =>
    have hother : netControllerNone ≠ netControllerLocal ∨ u.forced = true := Or.inl (by decide)
    have hread := hstart.readAs hother
    rw [List.foldl_cons, ih (hstart.read _ u), hread]
    cases us <;> simp [List.getLast?_cons]

theorem Follows.value {log : List (Update (Blob v.size))} {l : Connection} {i : ℕ}
    (h : Follows address v log l i) : ∃ data : Blob v.size,
      (v.base.data :: log.map Update.data)[i]? = some data ∧
      l.client.state.valueAt address = some data.toList ∧
      (l.client.pending = [] → data = ((log.map Update.data).getLast?).getD v.base.data) := by
  obtain ⟨hi, start, hplain, hdata, hdown⟩ := h
  refine ⟨_, ?_, valueAt_withBase hdown.state, fun hp => ?_⟩
  · rw [data_foldl_readAs hplain, List.map_take, List.getLast?_take, hdata]
    cases i with
    | zero => rfl
    | succ i =>
      have hlt : i < (log.map Update.data).length := by
        rw [List.length_map]
        exact hi
      rw [List.getElem?_cons_succ, if_neg (Nat.succ_ne_zero i), Nat.add_sub_cancel,
        List.getElem?_eq_getElem hlt]
      rfl
  · have hpending := hdown.pending
    rw [hp] at hpending
    have hall : log.take i = log := List.take_of_length_le (List.drop_eq_nil_iff.mp hpending.nil_iff)
    rw [data_foldl_readAs hplain, hall, hdata]

end

/-- A variable that no client owns, in a session with nothing in flight: every client holds the object
and the server's value. -/
structure Shared (address : UInt32 × Bytes) (v : NetVar) (s : Session) : Prop where
  unowned : s.server.outline.owner address.1 = none
  quiet : s.Quiet
  server : s.server.findVar address = some (netControllerLocal, v)
  clients : ∀ l ∈ s.links, ∃ base, l.client.state.HoldsAt address v netControllerNone base

variable {address : UInt32 × Bytes} {v : NetVar} {s : Session}

theorem Shared.feeds (h : s.Shared address v) :
    Feeds address v s ⟨v.base, [], s.links.map fun _ => 0⟩ := by
  refine ⟨h.unowned, h.server, fun _ => rfl, ?_⟩
  rw [List.forall₂_map_right_iff, List.forall₂_same]
  intro l hl
  obtain ⟨base, hstate, hplain, hdata⟩ := h.clients l hl
  refine ⟨le_rfl, base, hplain, hdata, hstate, ?_⟩
  rw [(h.quiet l hl).1]
  exact .nil

/-- The server writes twice; the second client sends two bytes that no handler is bound to. -/
def told : List SessionAct :=
  [.write none (7, [104, 112]) (.set true [9]), .tick none, .toClient 0, .inject 1 [1, 2], .toServer 1,
    .write none (7, [104, 112]) (.set true [3]), .tick none, .toClient 0, .toClient 1, .toClient 1]

theorem serverOwned_fit : serverOwned.Fit Mem.zero 0 where
  server := ⟨player_fit _ _ _ _ _, rfl, rfl⟩
  clients := by
    intro l hl
    simp only [serverOwned, List.mem_cons, List.not_mem_nil, or_false] at hl
    rcases hl with rfl | rfl <;> exact ⟨player_fit _ _ _ _ _, rfl, rfl, rfl⟩
  peers := by decide
  downlinks := by simp [serverOwned]
  uplinks := by simp [serverOwned]
  alive := rfl

theorem serverOwned_shared : serverOwned.Shared (7, [104, 112]) hitPoints where
  unowned := rfl
  quiet := by simp [Quiet, serverOwned]
  server := rfl
  clients := by
    intro l hl
    simp only [serverOwned, List.mem_cons, List.not_mem_nil, or_false] at hl
    rcases hl with rfl | rfl <;> exact ⟨hitPoints.base, rfl, ⟨rfl, rfl⟩, rfl⟩

end Session

end Nettik
