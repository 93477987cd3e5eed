import ToyRaft.Daemon.Fleet
import ToyRaft.Properties.StateMachineSafety
import ToyRaft.Properties.WireRoundTrip
import ToyRaft.Runtime.WireTypes

/-!
# A fleet of daemons is a cluster

The cluster has one network, on which a message stays from the moment it is handed to a transport
and from which it is taken as it was sent.  Between two daemons there are a queue that overflows, a
call that is repeated or given up, a text that is written and read, and an address book.  All of
this a cluster can imitate step by step: what a fleet does to its nodes is what some schedule does
to the nodes of the cluster (`fleet_refines`).

The schedule is `events`: an act of a node is itself, the handling of a request is the delivery of
the message in it, and the steps of a transport are nothing.  What carries the proof is that every
message on its way between two daemons has been sent in the cluster, and is on its way to the
daemon it is addressed to (`Mirrors`).

Two things can break this.  A counter that has outgrown the wire's 64 bits is not read back as it
was (`Message.Fits`), and a `Step` that panics ends a node of the cluster, while the server of a
daemon recovers (`Recovers`).
-/

namespace ToyRaft

open Daemon Http

/-! ## Reading back what was sent -/

lemma MessageType.ofCode_code {t : MessageType} (h : t.visible = true) : ofCode t.code = t := by
  cases t <;> first | rfl | cases h

/-- The counters of the message fit the fields of the wire. -/
def Message.Fits (m : Message) : Prop :=
  (∀ k ∈ [m.term, m.lastLogIndex, m.lastLogTerm, m.prevLogIndex, m.prevLogTerm, m.leaderCommit,
    m.matchIndex, m.conflictTerm, m.conflictIndex], k < 2 ^ 64) ∧
  ∀ e ∈ m.entries, e.term < 2 ^ 64 ∧ e.index < 2 ^ 64

instance (m : Message) : Decidable m.Fits := inferInstanceAs (Decidable (_ ∧ _))

namespace Wire

lemma entryToCore_ofEntry {e : Entry} (h : e.term < 2 ^ 64 ∧ e.index < 2 ^ 64) :
    entryToCore (ofEntry e) = e := by
  rw [entryToCore, ofEntry]
  dsimp only
  rw [UInt64.toNat_ofNat_of_lt' h.1, UInt64.toNat_ofNat_of_lt' h.2]
  rfl

lemma toCore_ofMessage {m : Message} (hfits : m.Fits) (hv : m.Visible) :
    toCore (ofMessage m) = m := by
  obtain ⟨hk, hes⟩ := hfits
  have hentries : (m.entries.map ofEntry).map entryToCore = m.entries := by
    rw [List.map_map]
    exact (List.map_congr_left fun e he => entryToCore_ofEntry (hes e he)).trans (List.map_id _)
  simp only [List.forall_mem_cons] at hk
  obtain ⟨h1, h2, h3, h4, h5, h6, h7, h8, h9, -⟩ := hk
  simp only [toCore, ofMessage, MessageType.ofCode_code hv, hentries, UInt64.toNat_ofNat_of_lt' h1,
    UInt64.toNat_ofNat_of_lt' h2, UInt64.toNat_ofNat_of_lt' h3, UInt64.toNat_ofNat_of_lt' h4,
    UInt64.toNat_ofNat_of_lt' h5, UInt64.toNat_ofNat_of_lt' h6, UInt64.toNat_ofNat_of_lt' h7,
    UInt64.toNat_ofNat_of_lt' h8, UInt64.toNat_ofNat_of_lt' h9]

lemma decodeMessage_bodyOf {m : Message} (hfits : m.Fits) (hv : m.Visible) {r : RaftMessage}
    (h : decodeMessage (bodyOf m) = .ok r) : toCore r = m := by
  rw [bodyOf, decodeMessage_marshal (MessageType.code_le hv)] at h
  cases h
  exact toCore_ofMessage hfits hv

end Wire

namespace Daemon

/-! ## What a transport holds -/

/-- Every message in a queue has the one property, every call in progress the other. -/
def AsyncTransport.Carries (N : Message → Prop) (Q : Sending → Prop) (a : AsyncTransport) : Prop :=
  ∀ p, (∀ m ∈ (a.peer p).queue, N m) ∧ ∀ s, (a.peer p).drainer = .sending s → Q s

namespace AsyncTransport

variable {N : Message → Prop} {Q : Sending → Prop} {a : AsyncTransport}

lemma posting_eq_some {p : NodeID} {s : Sending} :
    a.posting p = some s ↔ (a.peer p).drainer = .sending s := by
  unfold posting
  split
  · rename_i s' heq
    rw [heq]
    simp
  · rename_i hne
    simp only [reduceCtorEq, false_iff]
    exact hne s

lemma carries_empty : Carries N Q {} := by
  intro p
  refine ⟨fun m hm => ?_, fun s hs => ?_⟩
  · cases hm
  · cases hs

lemma Carries.mono {N' : Message → Prop} {Q' : Sending → Prop} (h : Carries N Q a)
    (hN : ∀ m, N m → N' m) (hQ : ∀ s, Q s → Q' s) : Carries N' Q' a :=
  fun p => ⟨fun m hm => hN m ((h p).1 m hm), fun s hs => hQ s ((h p).2 s hs)⟩

lemma Carries.setPeer (h : Carries N Q a) (p : NodeID) {q : PeerQueue}
    (hq : ∀ m ∈ q.queue, N m) (hs : ∀ s, q.drainer = .sending s → Q s) :
    Carries N Q (a.setPeer p q) := by
  intro p'
  by_cases hp : p' = p
  · subst hp
    rw [peer_setPeer]
    exact ⟨hq, hs⟩
  · rw [peer_setPeer_of_ne _ hp]
    exact h p'

lemma Carries.send (h : Carries N Q a) {m : Message} (hm : N m) : Carries N Q (a.send m) := by
  unfold AsyncTransport.send queueFor
  extract_lets a₁
  have h₁ : Carries N Q a₁ := h
  split
  · exact h₁
  · rename_i a₂ q heq
    split_ifs at heq
    cases heq
    have h₂ := h₁.setPeer m.toNode (h₁ m.toNode).1 (h₁ m.toNode).2
    split_ifs
    · refine h₂.setPeer _ (fun x hx => ?_) (h₁ m.toNode).2
      rcases List.mem_append.mp hx with hx | hx
      · exact (h₁ m.toNode).1 x hx
      · rw [List.mem_singleton.mp hx]
        exact hm
    · exact h₂

lemma Carries.foldl_send (h : Carries N Q a) {ms : List Message} (hms : ∀ m ∈ ms, N m) :
    Carries N Q (ms.foldl AsyncTransport.send a) := by
  induction ms generalizing a with
  | nil => exact h
  | cons m ms ih =>
      obtain ⟨hm, hms⟩ := List.forall_mem_cons.mp hms
      exact ih (h.send hm) hms

lemma peer_of_lookup {p : NodeID} {q : PeerQueue} (h : a.queues.lookup p = some q) :
    a.peer p = q := by
  rw [peer, h, Option.getD_some]

lemma Carries.take (h : Carries N Q a) {urls : NodeID → Option String} (p : NodeID)
    (hbegin : ∀ m s, N m → beginSend urls m = .ok s → Q s) : Carries N Q (a.take urls p) := by
  unfold AsyncTransport.take
  split
  · rename_i msg rest heq
    have hq := (h p).1
    rw [peer_of_lookup heq] at hq
    obtain ⟨hmsg, hrest⟩ := List.forall_mem_cons.mp hq
    split
    · exact h.setPeer p hrest fun s hs => by cases hs
    · rename_i s hs
      refine h.setPeer p hrest fun s' hs' => ?_
      cases hs'
      exact hbegin msg s hmsg hs
  · exact h

lemma Carries.posted (h : Carries N Q a) (maxAttempts : ℤ) (p : NodeID) (o : PostOutcome)
    (hretry : ∀ s k, Q s → Q { s with attempt := k }) : Carries N Q (a.posted maxAttempts p o) := by
  unfold AsyncTransport.posted
  split
  · exact h
  · rename_i s heq
    have hs := (h p).2 s (posting_eq_some.mp heq)
    split
    · rename_i s' hafter
      refine h.setPeer p (h p).1 fun s'' hs'' => ?_
      cases hs''
      unfold Sending.after at hafter
      dsimp only at hafter
      split_ifs at hafter
      cases hafter
      exact hretry s _ hs
    · exact h.setPeer p (h p).1 fun s hs => by cases hs

lemma Carries.giveUp (h : Carries N Q a) (p : NodeID) : Carries N Q (a.giveUp p) := by
  unfold AsyncTransport.giveUp
  split
  · exact h
  · exact h.setPeer p (h p).1 fun s hs => by cases hs

lemma Carries.exit (h : Carries N Q a) (p : NodeID) : Carries N Q (a.exit p) := by
  unfold AsyncTransport.exit
  split
  · rename_i queue heq
    have hq := (h p).1
    rw [peer_of_lookup heq] at hq
    split_ifs
    · exact h.setPeer p hq fun s hs => by cases hs
    · exact h
  · exact h

lemma Carries.received (h : Carries N Q a) (m : Message) : Carries N Q (a.received m) := by
  unfold AsyncTransport.received
  split_ifs <;> exact h

end AsyncTransport

namespace Fleet

variable {ρ : Type} (F : Fleet)

/-! ## The schedule of the cluster -/

/-- The act that changes nothing: in a cluster no save fails. -/
def stutter (i : NodeID) : Event ρ := ⟨i, .save true⟩

/-- What the event is in the cluster. -/
def event (w : FleetWorld ρ) (e : FleetEvent ρ) : Event ρ :=
  match e.act with
  | .run a => if isLocal a then ⟨e.node, a⟩ else stutter e.node
  | .send => ⟨e.node, .send⟩
  | .handle k cancelled env =>
      match F.request w e.node k, cancelled with
      | some m, false => ⟨e.node, .step m env⟩
      | _, _ => stutter e.node
  | .handleCrash k draw restore =>
      match F.request w e.node k with
      | some m => ⟨e.node, .restartMidMirror m draw restore⟩
      | none => stutter e.node
  | _ => stutter e.node

lemma event_node (w : FleetWorld ρ) (e : FleetEvent ρ) : (F.event w e).node = e.node := by
  obtain ⟨i, a⟩ := e
  unfold event
  cases a with
  | run a =>
      dsimp only
      split_ifs <;> rfl
  | handle k cancelled env =>
      dsimp only
      split <;> rfl
  | handleCrash k draw restore =>
      dsimp only
      split <;> rfl
  | _ => rfl

/-- The schedule of the cluster that imitates the fleet. -/
def events (ev : ℕ → FleetEvent ρ) (t : ℕ) : Event ρ := F.event (F.world ev t) (ev t)

/-- The messages the event hands to a transport. -/
def handed (w : FleetWorld ρ) (e : FleetEvent ρ) : List Message :=
  match e.act with
  | .send => ((w.daemons e.node).host.act (F.cluster.cfg e.node) .send).2
  | _ => []

/-- The message the event hands to the `Step` of a member. -/
def steps (w : FleetWorld ρ) (e : FleetEvent ρ) : Option (Message × Env) :=
  match e.act with
  | .handle k false env =>
      if e.node ∈ F.cluster.peers then (F.request w e.node k).map (·, env) else none
  | _ => none

/-- In the event the server recovers from a panic of `Step`. -/
def Recovers (w : FleetWorld ρ) (e : FleetEvent ρ) : Prop :=
  ∃ x ∈ F.steps w e, recovers (w.daemons e.node) x.1 x.2 = true

instance (w : FleetWorld ρ) (e : FleetEvent ρ) : Decidable (F.Recovers w e) :=
  inferInstanceAs (Decidable (∃ x ∈ F.steps w e, _))

/-! ## The simulation -/

/-- The request is one for the text of a sent message, at the address it is sent to. -/
def Bound (net : List Message) (r : String × Json) : Prop :=
  ∃ m ∈ net, m.toNode ∈ F.cluster.peers ∧ r.1 = F.peerURL m.toNode ++ raftMessagePath ∧
    r.2 = Wire.bodyOf m

/-- The world of the cluster imitates the fleet. -/
structure Mirrors (w : FleetWorld ρ) (v : World ρ) : Prop where
  hosts : ∀ i, (w.daemons i).host = v.hosts i
  queues : ∀ i, (w.daemons i).transport.Carries (· ∈ v.net) fun s => F.Bound v.net (s.url, s.body)
  wire : ∀ r ∈ w.wire, F.Bound v.net r
  fits : ∀ m ∈ v.net, m.Fits
  visible : v.Visible

variable {F}

/-- What a member reads off a request was sent to it. -/
lemma Mirrors.request {w : FleetWorld ρ} {v : World ρ} (h : F.Mirrors w v) {i : NodeID}
    (hi : i ∈ F.cluster.peers) {k : ℕ} {m : Message} (hr : F.request w i k = some m) :
    m ∈ v.net ∧ m.toNode = i := by
  unfold Fleet.request at hr
  split at hr
  · cases hr
  · rename_i url body hk
    split_ifs at hr with hurl hsize
    split at hr
    · cases hr
    · rename_i r hdec
      cases hr
      obtain ⟨x, hx, hto, hxurl, rfl⟩ := h.wire _ (List.mem_of_getElem? hk)
      rw [Wire.decodeMessage_bodyOf (h.fits x hx) (h.visible.2 x hx) hdec]
      -- the addresses of two members differ, so the server is the one of the addressee
      rw [not_not.mp hurl, String.append_left_inj, peerURL, peerURL, String.append_right_inj]
        at hxurl
      exact ⟨hx, (F.apart i hi _ hto hxurl).symm⟩

lemma Bound.mono {net net' : List Message} (hsub : ∀ m ∈ net, m ∈ net') {r : String × Json}
    (h : F.Bound net r) : F.Bound net' r := by
  obtain ⟨m, hm, hr⟩ := h
  exact ⟨m, hsub m hm, hr⟩

lemma Mirrors.update {w : FleetWorld ρ} {v v' : World ρ} (h : F.Mirrors w v) {i : NodeID}
    {d : Daemon ρ} {posted : List (String × Json)}
    (hhosts : v'.hosts = Function.update v.hosts i d.host) (hsub : ∀ m ∈ v.net, m ∈ v'.net)
    (hqueues : d.transport.Carries (· ∈ v'.net) fun s => F.Bound v'.net (s.url, s.body))
    (hposted : ∀ r ∈ posted, F.Bound v'.net r) (hfits : ∀ m ∈ v'.net, m.Fits)
    (hvisible : v'.Visible) :
    F.Mirrors { daemons := Function.update w.daemons i d, wire := w.wire ++ posted } v' := by
  refine ⟨fun j => ?_, fun j => ?_, fun r hr => ?_, hfits, hvisible⟩ <;> dsimp only at *
  · rw [hhosts]
    by_cases hj : j = i
    · subst hj
      rw [Function.update_self, Function.update_self]
    · rw [Function.update_of_ne hj, Function.update_of_ne hj, h.hosts]
  · by_cases hj : j = i
    · subst hj
      rw [Function.update_self]
      exact hqueues
    · rw [Function.update_of_ne hj]
      exact (h.queues j).mono hsub fun s hs => hs.mono hsub
  · rcases List.mem_append.mp hr with hr | hr
    · exact (h.wire r hr).mono hsub
    · exact hposted r hr

/-- A step of a transport, while the cluster does nothing. -/
lemma Mirrors.stutter {w : FleetWorld ρ} {v : World ρ} (h : F.Mirrors w v) {i : NodeID}
    {a : Act ρ} (hfault : a.faultless = false) {d : Daemon ρ} {posted : List (String × Json)}
    (hhost : d.host = (w.daemons i).host)
    (hqueues : d.transport.Carries (· ∈ v.net) fun s => F.Bound v.net (s.url, s.body))
    (hposted : ∀ r ∈ posted, F.Bound v.net r) :
    F.Mirrors { daemons := Function.update w.daemons i d, wire := w.wire ++ posted }
      (F.cluster.exec v ⟨i, a⟩) := by
  have hexec : F.cluster.exec v ⟨i, a⟩ = v := by
    refine if_neg fun hen => ?_
    have htrue : a.faultless = true := hen.2.1
    rw [hfault] at htrue
    cases htrue
  rw [hexec]
  refine h.update ?_ (fun m hm => hm) hqueues hposted h.fits h.visible
  rw [hhost, h.hosts, Function.update_eq_self]

lemma Mirrors.act {w : FleetWorld ρ} {v : World ρ} (h : F.Mirrors w v) {i : NodeID} {a : Act ρ}
    (hen : F.cluster.Enabled v ⟨i, a⟩) {d : Daemon ρ} {out : List Message}
    (hact : (w.daemons i).host.act (F.cluster.cfg i) a = (d.host, out))
    (hqueues : d.transport.Carries (· ∈ v.net ++ out)
      fun s => F.Bound (v.net ++ out) (s.url, s.body))
    (hfits : ∀ m ∈ out, m.Fits) :
    F.Mirrors { daemons := Function.update w.daemons i d, wire := w.wire ++ [] }
      (F.cluster.exec v ⟨i, a⟩) := by
  have hvisible := F.cluster.visible_exec h.visible ⟨i, a⟩
  have hexec : F.cluster.exec v ⟨i, a⟩ =
      { hosts := Function.update v.hosts i d.host, net := v.net ++ out } := by
    rw [Cluster.exec, if_pos hen]
    dsimp only
    rw [← h.hosts, hact]
  rw [hexec] at hvisible ⊢
  refine h.update rfl (fun m hm => List.mem_append_left _ hm) hqueues (by simp) (fun m hm => ?_)
    hvisible
  rcases List.mem_append.mp hm with hm | hm
  · exact h.fits m hm
  · exact hfits m hm

lemma bound_of_beginSend {net : List Message} {i : NodeID} {m : Message} {s : Sending}
    (hm : m ∈ net) (h : beginSend (F.peerURLs i) m = .ok s) : F.Bound net (s.url, s.body) := by
  unfold beginSend at h
  split at h
  · cases h
  · rename_i base hbase
    unfold peerURLs at hbase
    split_ifs at hbase with hmem
    cases hbase
    cases h
    exact ⟨m, hm, hmem.1, rfl, rfl⟩

/-- Only the driver's `Send` hands messages to the transport. -/
lemma act_out_eq_nil (cfg : Config) (h : Host ρ) {a : Act ρ} (ha : a ≠ .send) :
    (h.act cfg a).2 = [] := by
  have hfires := Host.fires_of_act cfg h a
  generalize (h.act cfg a).1 = h', (h.act cfg a).2 = out at hfires ⊢
  cases hfires with
  | send => exact (ha rfl).elim
  | _ => rfl

/-- An act that sends nothing, of a daemon whose transport is kept or made anew. -/
lemma Mirrors.runAct {w : FleetWorld ρ} {v : World ρ} (h : F.Mirrors w v) {i : NodeID} {a : Act ρ}
    (hen : F.cluster.Enabled v ⟨i, a⟩) (ha : a ≠ .send) {d : Daemon ρ}
    (hhost : d.host = ((w.daemons i).host.act (F.cluster.cfg i) a).1)
    (hqueues : d.transport.Carries (· ∈ v.net) fun s => F.Bound v.net (s.url, s.body)) :
    F.Mirrors { daemons := Function.update w.daemons i d, wire := w.wire ++ [] }
      (F.cluster.exec v ⟨i, a⟩) := by
  have hact : (w.daemons i).host.act (F.cluster.cfg i) a = (d.host, []) := by
    rw [hhost, ← act_out_eq_nil (F.cluster.cfg i) (w.daemons i).host ha]
  refine h.act hen hact ?_ (by simp)
  rwa [List.append_nil]

lemma Mirrors.runAct_queues {w : FleetWorld ρ} {v : World ρ} (h : F.Mirrors w v) (i : NodeID)
    (a : Act ρ) :
    (Fleet.runAct (F.cluster.cfg i) (w.daemons i) a).transport.Carries (· ∈ v.net)
      fun s => F.Bound v.net (s.url, s.body) := by
  unfold Fleet.runAct
  dsimp only
  split_ifs
  · exact AsyncTransport.carries_empty
  · exact h.queues i

lemma Mirrors.handle {w : FleetWorld ρ} {v : World ρ} (h : F.Mirrors w v) {i : NodeID}
    (hi : i ∈ F.cluster.peers) {k : ℕ} {cancelled : Bool} {env : Env}
    (hcalm : ¬ F.Recovers w ⟨i, .handle k cancelled env⟩) :
    F.Mirrors
      { daemons := Function.update w.daemons i (F.step w i (.handle k cancelled env)).1
        wire := w.wire ++ (F.step w i (.handle k cancelled env)).2 }
      (F.cluster.exec v (F.event w ⟨i, .handle k cancelled env⟩)) := by
  have hq := h.queues i
  unfold Fleet.step event
  dsimp only
  cases hr : F.request w i k with
  | none => exact h.stutter rfl rfl hq (by simp)
  | some m =>
      dsimp only
      cases cancelled with
      | true =>
          split_ifs
          · exact h.stutter rfl rfl hq (by simp)
          · exact h.stutter rfl rfl (hq.received m) (by simp)
      | false =>
          split_ifs with hfault
          · refine h.stutter ?_ rfl hq (by simp)
            show (!env.truncateErr && !env.appendErr) = false
            rw [← Bool.not_or, hfault, Bool.not_true]
          · refine h.runAct ⟨hi, ?_, ?_⟩ (by simp) ?_ (hq.received m)
            · show (!env.truncateErr && !env.appendErr) = true
              rw [← Bool.not_or, Bool.eq_false_of_not_eq_true hfault, Bool.not_false]
            · intro x hx
              cases hx
              exact h.request hi hr
            · unfold callback
              dsimp only
              rw [if_neg (by decide), if_neg]
              refine fun hrec => hcalm ⟨(m, env), ?_, hrec⟩
              rw [Option.mem_def, steps]
              dsimp only
              rw [if_pos hi, hr, Option.map_some]

theorem Mirrors.exec {w : FleetWorld ρ} {v : World ρ} (h : F.Mirrors w v) {e : FleetEvent ρ}
    (hfits : ∀ m ∈ F.handed w e, m.Fits) (hcalm : ¬ F.Recovers w e) :
    F.Mirrors (F.exec w e) (F.cluster.exec v (F.event w e)) := by
  obtain ⟨i, a⟩ := e
  by_cases hi : i ∈ F.cluster.peers
  · unfold Fleet.exec
    rw [if_pos hi]
    dsimp only
    have hq := h.queues i
    cases a with
    | run a =>
        unfold Fleet.step event
        dsimp only
        cases hloc : isLocal a with
        | false => exact h.stutter rfl rfl hq (by simp)
        | true =>
            cases hfault : a.faultless with
            | false => exact h.stutter hfault rfl hq (by simp)
            | true =>
                refine h.runAct ⟨hi, hfault, ?_⟩ ?_ rfl (h.runAct_queues i a)
                · intro m hm
                  cases a <;> cases hm <;> cases hloc
                · rintro rfl
                  cases hloc
    | send =>
        refine h.act ⟨hi, rfl, by simp [Act.inbound]⟩ rfl ?_ hfits
        refine (hq.mono (fun m hm => List.mem_append_left _ hm) fun s hs => ?_).foldl_send
          fun m hm => List.mem_append_right _ hm
        exact hs.mono fun m hm => List.mem_append_left _ hm
    | take p =>
        refine h.stutter rfl rfl (hq.take p fun m s hm hs => ?_) (by simp [Fleet.step])
        exact bound_of_beginSend hm hs
    | post p =>
        refine h.stutter rfl rfl hq fun r hr => ?_
        obtain ⟨s, hs, rfl⟩ := List.mem_map.mp hr
        exact (hq p).2 s (AsyncTransport.posting_eq_some.mp (Option.mem_toList.mp hs))
    | posted p o =>
        exact h.stutter rfl rfl (hq.posted _ p o fun s k hs => hs) (by simp [Fleet.step])
    | giveUp p => exact h.stutter rfl rfl (hq.giveUp p) (by simp [Fleet.step])
    | exit p => exact h.stutter rfl rfl (hq.exit p) (by simp [Fleet.step])
    | close =>
        unfold Fleet.step event
        dsimp only
        split_ifs
        · exact h.stutter rfl rfl hq (by simp)
        · exact h.stutter rfl rfl hq (by simp)
    | handle k cancelled env => exact h.handle hi hcalm
    | handleCrash k draw restore =>
        unfold Fleet.step event
        dsimp only
        cases hr : F.request w i k with
        | none => exact h.stutter rfl rfl hq (by simp)
        | some m =>
            refine h.runAct ⟨hi, rfl, fun x hx => ?_⟩ (by simp) rfl (h.runAct_queues i _)
            cases hx
            exact h.request hi hr
  · have hidle : ¬ F.cluster.Enabled v (F.event w ⟨i, a⟩) := by
      intro hen
      have hmem := hen.1
      rw [event_node] at hmem
      exact hi hmem
    rw [Fleet.exec, if_neg hi, Cluster.exec, if_neg hidle]
    exact h

lemma mirrors_init (F : Fleet) : F.Mirrors (F.init : FleetWorld ρ) F.cluster.init where
  hosts _ := rfl
  queues _ := AsyncTransport.carries_empty
  wire _ hr := (List.not_mem_nil hr).elim
  fits _ hm := (List.not_mem_nil hm).elim
  visible := F.cluster.visible_world (fun _ => stutter "") 0

variable (F) (ev : ℕ → FleetEvent ρ)

/-- A whole run. -/
lemma mirrors_world {t : ℕ} (hfits : ∀ s < t, ∀ m ∈ F.handed (F.world ev s) (ev s), m.Fits)
    (hcalm : ∀ s < t, ¬ F.Recovers (F.world ev s) (ev s)) :
    F.Mirrors (F.world ev t) (F.cluster.world (F.events ev) t) := by
  induction t with
  | zero => exact F.mirrors_init
  | succ t ih =>
      have hprev := ih (fun s hs => hfits s (Nat.lt_succ_of_lt hs))
        fun s hs => hcalm s (Nat.lt_succ_of_lt hs)
      exact hprev.exec (hfits t (Nat.lt_succ_self t)) (hcalm t (Nat.lt_succ_self t))

/-- **A fleet is a cluster.**  As long as no counter outgrows the wire and no server has to recover
a panic, the nodes of the fleet are those of the cluster on the schedule `events`. -/
theorem fleet_refines {t : ℕ} (hfits : ∀ s < t, ∀ m ∈ F.handed (F.world ev s) (ev s), m.Fits)
    (hcalm : ∀ s < t, ¬ F.Recovers (F.world ev s) (ev s)) (i : NodeID) :
    (F.daemon ev t i).host = F.cluster.host (F.events ev) t i :=
  (F.mirrors_world ev hfits hcalm).hosts i

/-- Three daemons on hosts of their own. -/
def demo : Fleet where
  cluster := .trio
  peerAddr i := i ++ ".local:7001"
  apart := by decide

def idle : FleetEvent Unit := ⟨"", .close⟩

/-- One `flush` of `i` that sends `k` messages. -/
def flush (i : NodeID) (k : ℕ) : List (FleetEvent Unit) :=
  [⟨i, .run .ready⟩, ⟨i, .run (.save false)⟩] ++ List.replicate k ⟨i, .send⟩ ++
    [⟨i, .run .drainBegin⟩, ⟨i, .run (.drain false)⟩]

/-- The next message in the queue of `i` for `p` is posted as request `k`, and handled. -/
def carry (i p : NodeID) (k : ℕ) : List (FleetEvent Unit) :=
  [⟨i, .take p⟩, ⟨i, .post p⟩, ⟨p, .handle k false {}⟩, ⟨i, .posted p (.status 204)⟩]

/-- Daemon `a` is elected by the vote of `b`; nothing is carried to `c`. -/
def elected : List (FleetEvent Unit) :=
  List.replicate 3 ⟨"a", .run (.tick {})⟩ ++ flush "a" 2 ++ carry "a" "b" 0 ++ flush "b" 1 ++
    carry "b" "a" 1

theorem fleet_refines_elected :
    (demo.daemon (Machine.schedule idle elected) 22 "a").host.node.role = .leader ∧
      (demo.daemon (Machine.schedule idle elected) 22 "a").host =
        demo.cluster.host (demo.events (Machine.schedule idle elected)) 22 "a" :=
  ⟨by decide +kernel, demo.fleet_refines (Machine.schedule idle elected) (by decide +kernel)
    (by decide +kernel) "a"⟩

/-! ## Committed entries -/

/-- In the event a running node is handed an `AppendEntries` that it accepts over a stale tail. -/
def AcceptsStaleTail (w : FleetWorld ρ) (e : FleetEvent ρ) : Prop :=
  ∃ x ∈ F.steps w e, ∃ m ∈ (w.daemons e.node).host.delivered (.step x.1 x.2),
    (w.daemons e.node).host.node.KeepsStaleTail m

instance (w : FleetWorld ρ) (e : FleetEvent ρ) : Decidable (F.AcceptsStaleTail w e) :=
  inferInstanceAs (Decidable (∃ x ∈ F.steps w e, _))

variable {F ev}

/-- What `Step` is handed was sent to the node. -/
lemma Mirrors.steps {w : FleetWorld ρ} {v : World ρ} (h : F.Mirrors w v) {e : FleetEvent ρ}
    {x : Message × Env} (hx : x ∈ F.steps w e) :
    e.node ∈ F.cluster.peers ∧ x.1 ∈ v.net ∧ x.1.toNode = e.node := by
  unfold Fleet.steps at hx
  split at hx
  · split_ifs at hx with hmem
    · obtain ⟨m, hm, rfl⟩ := Option.map_eq_some_iff.mp hx
      exact ⟨hmem, h.request hmem hm⟩
    · cases hx
  · cases hx

variable (F ev)

end Fleet

end Daemon

end ToyRaft
