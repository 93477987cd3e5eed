import ToyRaft.Properties.KvMachines

/-!
# What clients see of the key-value service

`Explains` says what the answers of all daemons have to do with each other.  One list of writes is
behind them: a write that was answered with 200 stands in it, and a `GET` has the answer due after
the first so many of its entries.  Writes stand in it in real-time order, and no `GET` sees a write
that arrives after its answer.

What is missing for linearizability is that a `GET` sees every write that was answered before it
arrived.  That holds within one lifetime of one daemon only: a leader that has been replaced answers
from its own machine, and so does one that was started again and has not caught up.
-/

namespace ToyRaft

namespace Kv

open Json Kvsm

namespace Handler

variable {h : Handler} {m : Method} {r : Request}

lemma role_of_refusal (hrefusal : h.refusal m r = none) : h.role = .leader := by
  by_contra hrole
  rw [refusal, leaderGate, if_neg hrole] at hrefusal
  cases hrefusal

lemma redirect_status (hint : NodeID) :
    (h.redirect hint r).status ≠ 200 ∧ (h.redirect hint r).status ≠ 404 := by
  unfold redirect
  split_ifs
  · exact ⟨by decide, by decide⟩
  · exact ⟨(by decide : 307 ≠ 200), (by decide : 307 ≠ 404)⟩

lemma status_of_refusal {resp : Response} (hrefusal : h.refusal m r = some resp) :
    resp.status ≠ 200 ∧ resp.status ≠ 404 := by
  by_cases hrole : h.role = .leader
  · rw [refusal, leaderGate, if_pos hrole] at hrefusal
    dsimp only at hrefusal
    split_ifs at hrefusal
    cases hrefusal
    exact ⟨by decide, by decide⟩
  · rw [refusal, leaderGate, if_neg hrole] at hrefusal
    cases hrefusal
    exact redirect_status _

lemma handleGet_of_role (hrole : h.role = .leader) : h.handleGet r = h.read r := by
  have hrefusal : h.refusal .get r = none := by
    rw [refusal, leaderGate, if_pos hrole]
    exact if_neg fun hcon => by cases hcon.1
  have heq := h.handle_eq .get r
  rw [hrefusal] at heq
  exact congrArg Prod.fst heq

lemma err_of_serve {op : Op Data} (hop : m.op r = some op)
    (hstatus : (h.serve m r).1.status = 200) : (h.propose op.marshal).1 = none := by
  rw [serve, hop] at hstatus
  dsimp only at hstatus
  unfold proposeOp at hstatus
  split at hstatus
  · exact ((redirect_status _).1 hstatus).elim
  · cases hstatus
  · rename_i hpropose
    rw [hpropose]

end Handler

namespace Service

variable {ε : Type} (S : Service ε) (ev : ℕ → ServiceEvent)

/-! ## The way of a request -/

/-- A request reaches daemon `(ev a).node` at moment `a`. -/
structure Arrives (a : ℕ) (m : Method) (r : Request) : Prop where
  mem : (ev a).node ∈ S.cluster.peers
  act : (ev a).act = .request m r
  running : (S.cluster.host (S.events ev) a (ev a).node).crashed = false

/-- The place of the request that arrives at moment `a` among those of its daemon. -/
def ticket (a : ℕ) : ℕ := (S.requests ev a (ev a).node).length

/-- Daemon `i` is not started again from moment `s` to moment `t`. -/
def Lives (i : NodeID) (s t : ℕ) : Prop :=
  ∀ w < t, s ≤ w → ¬ S.cluster.RebootsAt (S.events ev) w i

instance (i : NodeID) (s t : ℕ) : Decidable (S.Lives ev i s t) :=
  inferInstanceAs (Decidable (∀ w < t, s ≤ w → _))

/-- The request that arrives at moment `a` has been answered by moment `v`. -/
structure Answered (a v : ℕ) (m : Method) (r : Request) (resp : Response) : Prop where
  arrives : S.Arrives ev a m r
  lt : a < v
  life : S.Lives ev (ev a).node a v
  answer : (S.requests ev v (ev a).node)[S.ticket ev a]? = some ⟨m, r, .answered resp⟩

/-- At moment `u` the handler goes on with the request that arrived at moment `a`. -/
structure ServedAt (a u : ℕ) (m : Method) (r : Request) : Prop where
  arrives : S.Arrives ev a m r
  lt : a < u
  life : S.Lives ev (ev a).node a u
  enabled : S.Enabled (S.world ev u) (ev u)
  node : (ev u).node = (ev a).node
  act : ∃ env, (ev u).act = .serve (S.ticket ev a) env
  running : (S.cluster.host (S.events ev) u (ev a).node).crashed = false
  admitted : (S.requests ev u (ev a).node)[S.ticket ev a]? = some ⟨m, r, .admitted⟩

lemma exec_requests (w : ServiceWorld) (e : ServiceEvent) :
    (S.exec w e).requests =
      if S.Enabled w e then Function.update w.requests e.node (S.handled w e)
      else w.requests := by
  unfold exec
  split_ifs
  · cases S.event w e with
    | none => rfl
    | some c => rfl
  · rfl

lemma requests_succ (t : ℕ) (i : NodeID) :
    S.requests ev (t + 1) i =
      if S.Enabled (S.world ev t) (ev t) ∧ (ev t).node = i then S.handled (S.world ev t) (ev t)
      else S.requests ev t i := by
  show (S.exec (S.world ev t) (ev t)).requests i = _
  rw [exec_requests]
  by_cases hen : S.Enabled (S.world ev t) (ev t)
  · rw [if_pos hen]
    by_cases hi : (ev t).node = i
    · rw [if_pos ⟨hen, hi⟩, ← hi, Function.update_self]
    · rw [if_neg fun h => hi h.2, Function.update_of_ne (Ne.symm hi)]
      rfl
  · rw [if_neg hen, if_neg fun h => hen h.1]
    rfl

variable {S} in
/-- What a step that is not a new start makes of a request. -/
lemma handled_cases {w : ServiceWorld} {e : ServiceEvent} {k : ℕ} {m : Method} {r : Request}
    {stage : Stage} (hk : (w.requests e.node)[k]? = some ⟨m, r, stage⟩)
    (hre : ∀ a, e.act = .run a → (w.raft.hosts e.node).reboots (S.cluster.cfg e.node)
      (S.answered (w.raft.hosts e.node) (w.sm e.node) a) = false) :
    ∃ stage', (S.handled w e)[k]? = some ⟨m, r, stage'⟩ ∧
      (stage' = stage ∨
      (stage = .admitted ∧ (w.raft.hosts e.node).crashed = false ∧
        (∃ env, e.act = .serve k env) ∧ stage' = S.served w e.node m r) ∨
      ∃ ticket c ret, stage = .proposing ticket ∧ (w.raft.hosts e.node).crashed = false ∧
        (w.raft.hosts e.node).calls[ticket]? = some c ∧ c.ret = some ret ∧
        stage' = .answered ((S.handler w e.node ret.err).serve m r).1) := by
  have hlt := (List.getElem?_eq_some_iff.mp hk).1
  have hset : ∀ {k' : ℕ} {x : Exchange}, k' ≠ k →
      ((w.requests e.node).set k' x)[k]? = some ⟨m, r, stage⟩ := fun hne => by
    rw [List.getElem?_set_ne hne, hk]
  unfold handled
  cases hact : e.act with
  | run a =>
      dsimp only
      rw [hre a hact, if_neg Bool.false_ne_true]
      exact ⟨stage, hk, .inl rfl⟩
  | request m' r' =>
      dsimp only
      split_ifs
      · exact ⟨stage, hk, .inl rfl⟩
      · split
        · exact ⟨stage, by rw [List.getElem?_append_left hlt, hk], .inl rfl⟩
        · exact ⟨stage, by rw [List.getElem?_append_left hlt, hk], .inl rfl⟩
  | serve k' env =>
      dsimp only
      split
      · rename_i m' r' hup hk'
        by_cases hkk : k' = k
        · subst hkk
          rw [hk] at hk'
          cases hk'
          exact ⟨_, List.getElem?_set_self hlt, .inr (.inl ⟨rfl, hup, ⟨env, rfl⟩, rfl⟩)⟩
        · exact ⟨stage, hset hkk, .inl rfl⟩
      · exact ⟨stage, hk, .inl rfl⟩
  | respond k' =>
      dsimp only
      split
      · rename_i m' r' ticket hup hk'
        split
        · rename_i ret hc
          by_cases hkk : k' = k
          · subst hkk
            rw [hk] at hk'
            cases hk'
            exact ⟨_, List.getElem?_set_self hlt,
              .inr (.inr ⟨ticket, _, ret, rfl, hup, hc, rfl, rfl⟩)⟩
          · exact ⟨stage, hset hkk, .inl rfl⟩
        · exact ⟨stage, hk, .inl rfl⟩
      · exact ⟨stage, hk, .inl rfl⟩

variable {S ev} in
lemma rebootsAt_of_run {t : ℕ} (hen : S.Enabled (S.world ev t) (ev t)) {a : Act (Option Data)}
    (hact : (ev t).act = .run a)
    (hre : ((S.world ev t).raft.hosts (ev t).node).reboots (S.cluster.cfg (ev t).node)
      (S.answered ((S.world ev t).raft.hosts (ev t).node) ((S.world ev t).sm (ev t).node) a) =
        true) :
    S.cluster.RebootsAt (S.events ev) t (ev t).node := by
  have hevent : S.event (S.world ev t) (ev t) = some ⟨(ev t).node,
      S.answered ((S.world ev t).raft.hosts (ev t).node) ((S.world ev t).sm (ev t).node) a⟩ := by
    rw [event, hact]
    cases a with
    | propose data env => cases hre
    | _ => rfl
  obtain ⟨heq, hc⟩ := cluster_of_enabled hen hevent
  refine ⟨hc, S.events_node ev t, ?_⟩
  rw [heq, ← raft_host]
  exact hre

lemma request_succ {t k : ℕ} {i : NodeID} {m : Method} {r : Request} {stage : Stage}
    (hk : (S.requests ev t i)[k]? = some ⟨m, r, stage⟩)
    (hlife : ¬ S.cluster.RebootsAt (S.events ev) t i) :
    ∃ stage', (S.requests ev (t + 1) i)[k]? = some ⟨m, r, stage'⟩ ∧
      (stage' = stage ∨
      (stage = .admitted ∧ S.Enabled (S.world ev t) (ev t) ∧ (ev t).node = i ∧
        (S.cluster.host (S.events ev) t i).crashed = false ∧
        (∃ env, (ev t).act = .serve k env) ∧ stage' = S.served (S.world ev t) i m r) ∨
      ∃ ticket c ret, stage = .proposing ticket ∧
        (S.cluster.host (S.events ev) t i).calls[ticket]? = some c ∧ c.ret = some ret ∧
        stage' = .answered ((S.handler (S.world ev t) i ret.err).serve m r).1) := by
  rw [requests_succ]
  split_ifs with hact
  · obtain ⟨hen, rfl⟩ := hact
    obtain ⟨stage', hstage', hcases⟩ := handled_cases (S := S) hk fun a ha => by
      rw [← Bool.not_eq_true]
      exact fun hre => hlife (rebootsAt_of_run hen ha hre)
    refine ⟨stage', hstage', ?_⟩
    rw [raft_host] at hcases
    rcases hcases with h | ⟨h, hup, hact, h'⟩ | ⟨ticket, c, ret, h, -, hc, hret, h'⟩
    · exact .inl h
    · exact .inr (.inl ⟨h, hen, rfl, hup, hact, h'⟩)
    · exact .inr (.inr ⟨ticket, c, ret, h, hc, hret, h'⟩)
  · exact ⟨stage, hk, .inl rfl⟩

variable {S ev}

lemma Arrives.enabled {a : ℕ} {m : Method} {r : Request} (h : S.Arrives ev a m r) :
    S.Enabled (S.world ev a) (ev a) := by
  refine ⟨h.mem, fun c hc => ?_⟩
  rw [event, h.act] at hc
  cases hc

/-- A request that arrives is turned away, or admitted by a daemon whose node leads. -/
lemma Arrives.first {a : ℕ} {m : Method} {r : Request} (h : S.Arrives ev a m r) :
    ∃ stage, (S.requests ev (a + 1) (ev a).node)[S.ticket ev a]? = some ⟨m, r, stage⟩ ∧
      ((stage = .admitted ∧ (S.cluster.node (S.events ev) a (ev a).node).role = .leader) ∨
      ∃ resp, stage = .answered resp ∧ resp.status ≠ 200 ∧ resp.status ≠ 404) := by
  have hup : ((S.world ev a).raft.hosts (ev a).node).crashed = false := by
    rw [raft_host]
    exact h.running
  rw [requests_succ, if_pos ⟨h.enabled, rfl⟩, handled, h.act]
  dsimp only
  rw [hup, if_neg Bool.false_ne_true]
  cases hrefusal : (S.handler (S.world ev a) (ev a).node none).refusal m r with
  | none =>
      refine ⟨.admitted, List.getElem?_concat_length, .inl ⟨rfl, ?_⟩⟩
      have hrole := Handler.role_of_refusal hrefusal
      rw [handler, raft_host] at hrole
      exact hrole
  | some resp =>
      exact ⟨.answered resp, List.getElem?_concat_length,
        .inr ⟨resp, rfl, Handler.status_of_refusal hrefusal⟩⟩

/-- As long as the daemon runs, a request is turned away, or its node led when it arrived, and it
is admitted or has been served. -/
lemma Arrives.way {a t : ℕ} {m : Method} {r : Request} (h : S.Arrives ev a m r) (hat : a < t)
    (hlife : S.Lives ev (ev a).node a t) :
    ∃ stage, (S.requests ev t (ev a).node)[S.ticket ev a]? = some ⟨m, r, stage⟩ ∧
      ((∃ resp, stage = .answered resp ∧ resp.status ≠ 200 ∧ resp.status ≠ 404) ∨
      ((S.cluster.node (S.events ev) a (ev a).node).role = .leader ∧
        (stage = .admitted ∨ ∃ u < t, S.ServedAt ev a u m r))) := by
  induction t, hat using Nat.le_induction with
  | base =>
      obtain ⟨stage, hk, ⟨hstage, hrole⟩ | hstage⟩ := h.first
      · exact ⟨stage, hk, .inr ⟨hrole, .inl hstage⟩⟩
      · exact ⟨stage, hk, .inl hstage⟩
  | succ t hat ih =>
      have hlt : a < t := hat
      have hlife' : S.Lives ev (ev a).node a t := fun w hw haw => hlife w (by omega) haw
      obtain ⟨stage, hk, hstage⟩ := ih hlife'
      obtain ⟨stage', hk', hcases⟩ := S.request_succ ev hk (hlife t (Nat.lt_succ_self t) hlt.le)
      refine ⟨stage', hk', ?_⟩
      rcases hstage with ⟨resp, rfl, hstatus⟩ | ⟨hrole, rfl | ⟨u, hu, hserved⟩⟩
      · rcases hcases with rfl | ⟨hcon, -⟩ | ⟨ticket, c, ret, hcon, -⟩
        · exact .inl ⟨resp, rfl, hstatus⟩
        · cases hcon
        · cases hcon
      · rcases hcases with rfl | ⟨-, hen, hnode, hup, hact, -⟩ | ⟨ticket, c, ret, hcon, -⟩
        · exact .inr ⟨hrole, .inl rfl⟩
        · exact .inr ⟨hrole, .inr
            ⟨t, Nat.lt_succ_self t, h, hlt, hlife', hen, hnode, hact, hup, hk⟩⟩
        · cases hcon
      · exact .inr ⟨hrole, .inr ⟨u, Nat.lt_succ_of_lt hu, hserved⟩⟩

lemma ServedAt.next {a u : ℕ} {m : Method} {r : Request} (h : S.ServedAt ev a u m r) :
    (S.requests ev (u + 1) (ev a).node)[S.ticket ev a]? =
      some ⟨m, r, S.served (S.world ev u) (ev a).node m r⟩ := by
  obtain ⟨env, hact⟩ := h.act
  have hup : ((S.world ev u).raft.hosts (ev a).node).crashed = false := by
    rw [raft_host]
    exact h.running
  have hk : ((S.world ev u).requests (ev a).node)[S.ticket ev a]? = some ⟨m, r, .admitted⟩ :=
    h.admitted
  rw [requests_succ, if_pos ⟨h.enabled, h.node⟩, handled, hact]
  dsimp only
  rw [h.node, hup, hk]
  exact List.getElem?_set_self (List.getElem?_eq_some_iff.mp hk).1

/-- A `GET` that has read the machine is answered with what it has read. -/
lemma ServedAt.read {a u t : ℕ} {m : Method} {r : Request} (h : S.ServedAt ev a u m r)
    (hop : m.op r = none) (hut : u < t) (hlife : S.Lives ev (ev a).node a t) :
    (S.requests ev t (ev a).node)[S.ticket ev a]? =
      some ⟨m, r, .answered ((S.handler (S.world ev u) (ev a).node none).read r)⟩ := by
  induction t, hut using Nat.le_induction with
  | base => rw [h.next, served, hop]
  | succ t hut ih =>
      have hk := ih fun w hw haw => hlife w (by omega) haw
      obtain ⟨stage', hk', hcases⟩ := S.request_succ ev hk
        (hlife t (Nat.lt_succ_self t) (h.lt.trans hut).le)
      rcases hcases with rfl | ⟨hcon, -⟩ | ⟨ticket, c, ret, hcon, -⟩
      · exact hk'
      · cases hcon
      · cases hcon

/-- A write that has called `Propose` waits for the call, or is answered with what it has
returned. -/
lemma ServedAt.write {a u t : ℕ} {m : Method} {r : Request} {op : Op Data}
    (h : S.ServedAt ev a u m r) (hop : m.op r = some op) (hut : u < t)
    (hlife : S.Lives ev (ev a).node a t) :
    ∃ stage, (S.requests ev t (ev a).node)[S.ticket ev a]? = some ⟨m, r, stage⟩ ∧
      (stage = .proposing (S.cluster.host (S.events ev) u (ev a).node).calls.length ∨
      ∃ v ret, v < t ∧ S.cluster.Returns (S.events ev) (ev a).node u v op.marshal ret ∧
        stage = .answered ((S.handler (S.world ev v) (ev a).node ret.err).serve m r).1) := by
  obtain ⟨env, hact⟩ := h.act
  have hevent : S.event (S.world ev u) (ev u) = some ⟨(ev u).node, .propose op.marshal env⟩ := by
    have hup : ((S.world ev u).raft.hosts (ev a).node).crashed = false := by
      rw [raft_host]
      exact h.running
    have hk : ((S.world ev u).requests (ev a).node)[S.ticket ev a]? = some ⟨m, r, .admitted⟩ :=
      h.admitted
    rw [event, hact]
    dsimp only
    rw [h.node, hup, hk]
    dsimp only
    rw [hop]
    rfl
  obtain ⟨heq, hen⟩ := cluster_of_enabled h.enabled hevent
  induction t, hut using Nat.le_induction with
  | base =>
      refine ⟨_, h.next, .inl ?_⟩
      rw [served, hop, raft_host]
  | succ t hut ih =>
      obtain ⟨stage, hk, hstage⟩ := ih fun w hw haw => hlife w (by omega) haw
      obtain ⟨stage', hk', hcases⟩ := S.request_succ ev hk
        (hlife t (Nat.lt_succ_self t) (h.lt.trans hut).le)
      refine ⟨stage', hk', ?_⟩
      rcases hstage with rfl | ⟨v, ret, hv, hret, rfl⟩
      · rcases hcases with rfl | ⟨hcon, -⟩ | ⟨ticket, c, ret, htick, hc, hret, rfl⟩
        · exact .inl rfl
        · cases hcon
        · cases htick
          refine .inr ⟨t, ret, Nat.lt_succ_self t, ?_, rfl⟩
          exact ⟨hen, (S.events_node ev u).trans h.node, ⟨env, by rw [heq]⟩, h.running, hut,
            fun w hw huw => hlife w (by omega) (h.lt.trans huw).le, c, hc, hret⟩
      · rcases hcases with rfl | ⟨hcon, -⟩ | ⟨ticket, c, ret, hcon, -⟩
        · exact .inr ⟨v, ret, by omega, hret, rfl⟩
        · cases hcon
        · cases hcon

/-- A request is served once. -/
lemma ServedAt.unique {a u u' : ℕ} {m m' : Method} {r r' : Request} (h : S.ServedAt ev a u m r)
    (h' : S.ServedAt ev a u' m' r') : u = u' := by
  have hno : ∀ {u u' m m' r r'}, S.ServedAt ev a u m r → S.ServedAt ev a u' m' r' → ¬ u < u' := by
    intro u u' m m' r r' h h' hlt
    cases hop : m.op r with
    | none =>
        have hk := h.read hop hlt h'.life
        rw [h'.admitted] at hk
        cases hk
    | some op =>
        obtain ⟨stage, hk, hstage⟩ := h.write hop hlt h'.life
        rw [h'.admitted] at hk
        cases hk
        rcases hstage with hcon | ⟨v, ret, -, -, hcon⟩
        · cases hcon
        · cases hcon
  have hle := hno h h'
  have hge := hno h' h
  omega

variable (S ev)

/-- By moment `b`, the request that arrived at moment `a` to write `op` has been answered with 200,
at moment `v` at the latest. -/
structure Writes (b a v : ℕ) (op : Op Data) : Prop where
  answered : ∃ m r resp, S.Answered ev a v m r resp ∧ m.op r = some op ∧ resp.status = 200
  le : v ≤ b

/-- By moment `b`, the `GET` that arrived at moment `a` has been answered and not turned away. -/
structure Reads (b a v : ℕ) (r : Request) (resp : Response) : Prop where
  answered : S.Answered ev a v .get r resp
  status : resp.status = 200 ∨ resp.status = 404
  le : v ≤ b

/-- A leader's handler over the machine `k`. -/
def leaderWith (k : KV) : Handler where
  role := .leader
  leaderHint := ""
  propose _ := (none, k)
  sm := k
  clientURLs := S.clientURLs

/-- The list `order` explains what clients have been answered by moment `b`, with the request that
arrived at moment `a` at `place a`. -/
structure Explains (b : ℕ) (order : List Entry) (place : ℕ → ℕ) : Prop where
  /-- The list holds what clients have asked for. -/
  asked : ∀ p e, order[p]? = some e → e.index = p + 1 ∧ ∃ a < b, ∃ m r op,
    S.Arrives ev a m r ∧ m.op r = some op ∧ e.data = op.marshal
  /-- A write that was answered with 200 stands in the list, and succeeds after the entries
  before it. -/
  write : ∀ a v op, S.Writes ev b a v op → ∃ term value,
    order[place a]? = some ⟨term, place a + 1, op.marshal⟩ ∧
    ((S.effect (order.take (place a))).apply S.parse ⟨term, place a + 1, op.marshal⟩).1 = .ok value
  /-- A `GET` has the answer due after the entries before its place, and its daemon led when it
  arrived. -/
  read : ∀ a v r resp, S.Reads ev b a v r resp →
    (S.cluster.node (S.events ev) a (ev a).node).role = .leader ∧ place a ≤ order.length ∧
    resp = (S.leaderWith (S.effect (order.take (place a)))).handleGet r
  /-- Writes do not share a place. -/
  apart : ∀ a v op a' v' op', S.Writes ev b a v op → S.Writes ev b a' v' op' →
    place a = place a' → a = a'
  /-- Writes stand in real-time order. -/
  write_write : ∀ a v op a' v' op', S.Writes ev b a v op → S.Writes ev b a' v' op' →
    v ≤ a' → place a < place a'
  /-- A `GET` does not see a write that arrives after its answer. -/
  read_write : ∀ a v r resp a' v' op, S.Reads ev b a v r resp → S.Writes ev b a' v' op →
    v ≤ a' → place a ≤ place a'
  /-- Within a lifetime of a daemon, a `GET` sees the writes that were answered before it. -/
  write_read : ∀ a v op a' v' r resp, S.Writes ev b a v op → S.Reads ev b a' v' r resp →
    v ≤ a' → (ev a).node = (ev a').node → S.Lives ev (ev a).node a a' → place a < place a'
  /-- Within a lifetime of a daemon, a `GET` sees what earlier ones have seen. -/
  read_read : ∀ a v r resp a' v' r' resp', S.Reads ev b a v r resp →
    S.Reads ev b a' v' r' resp' → v ≤ a' → (ev a).node = (ev a').node →
    S.Lives ev (ev a).node a a' → place a ≤ place a'

/-- The place of a request that is served at moment `u`: the entries its machine has seen, or the
index its write is given. -/
def placeAt (i : NodeID) (m : Method) (u : ℕ) : ℕ :=
  if m = .get then (S.cluster.host (S.events ev) u i).seen
  else (S.cluster.node (S.events ev) u i).log.length

open Classical in
/-- The place of the request that arrives at moment `a`. -/
noncomputable def place (a : ℕ) : ℕ :=
  if h : ∃ u m r, S.ServedAt ev a u m r then S.placeAt ev (ev a).node h.choose_spec.choose h.choose
  else 0

variable {S ev}

lemma place_eq {a u : ℕ} {m : Method} {r : Request} (h : S.ServedAt ev a u m r) :
    S.place ev a = S.placeAt ev (ev a).node m u := by
  have hex : ∃ u m r, S.ServedAt ev a u m r := ⟨u, m, r, h⟩
  obtain ⟨r', h'⟩ := hex.choose_spec.choose_spec
  have hm := h'.arrives.act.symm.trans h.arrives.act
  rw [ServiceAct.request.injEq] at hm
  rw [place, dif_pos hex, hm.1, h'.unique h]

lemma ServedAt.arrival_unique {a a' u : ℕ} {m m' : Method} {r r' : Request}
    (h : S.ServedAt ev a u m r) (h' : S.ServedAt ev a' u m' r') : a = a' := by
  have hno : ∀ {a a' m m' r r'}, S.ServedAt ev a u m r → S.ServedAt ev a' u m' r' → ¬ a < a' := by
    intro a a' m m' r r' h h' hlt
    obtain ⟨env, hact⟩ := h.act
    obtain ⟨env', hact'⟩ := h'.act
    have hnode : (ev a).node = (ev a').node := h.node.symm.trans h'.node
    have htick : S.ticket ev a = S.ticket ev a' := (ServiceAct.serve.inj (hact.symm.trans hact')).1
    -- the earlier request is among those there when the later one arrives
    obtain ⟨stage, hk, -⟩ := h.arrives.way hlt fun w hw haw => h.life w (hw.trans h'.lt) haw
    rw [htick, hnode] at hk
    exact lt_irrefl _ (List.getElem?_eq_some_iff.mp hk).1
  have hle := hno h h'
  have hge := hno h' h
  omega

lemma Writes.returns {b a v : ℕ} {op : Op Data} (h : S.Writes ev b a v op)
    (hown : ∀ u < b, ∀ i, ¬ S.cluster.MisdeliversAt (S.events ev) u i) :
    ∃ u v' ret, (∃ m r, S.ServedAt ev a u m r) ∧ v' < v ∧
      S.cluster.Returns (S.events ev) (ev a).node u v' op.marshal ret ∧ ret.err = none ∧
      ret.idx = S.place ev a + 1 := by
  obtain ⟨⟨m, r, resp, hans, hop, hstatus⟩, hv⟩ := h
  obtain ⟨stage, hk, hway⟩ := hans.arrives.way hans.lt hans.life
  rw [hans.answer] at hk
  cases hk
  rcases hway with ⟨resp', hresp, hne, -⟩ | ⟨-, hcon | ⟨u, hu, hserved⟩⟩
  · cases hresp
    exact (hne hstatus).elim
  · cases hcon
  · obtain ⟨stage, hk, hwrite⟩ := hserved.write hop hu hans.life
    rw [hans.answer] at hk
    cases hk
    rcases hwrite with hcon | ⟨v', ret, hv', hret, hresp⟩
    · cases hcon
    · cases hresp
      have herr : ret.err = none := Option.map_eq_none_iff.mp (Handler.err_of_serve hop hstatus)
      obtain ⟨hprop, -⟩ := hret.applied (fun s hs => hown s (by omega) _) herr
      refine ⟨u, v', ret, ⟨m, r, hserved⟩, hv', hret, herr, ?_⟩
      have hget : m ≠ .get := by
        rintro rfl
        cases hop
      rw [place_eq hserved, placeAt, if_neg hget]
      exact hprop.index

lemma Reads.served {b a v : ℕ} {r : Request} {resp : Response} (h : S.Reads ev b a v r resp) :
    ∃ u < v, S.ServedAt ev a u .get r ∧
      (S.cluster.node (S.events ev) a (ev a).node).role = .leader ∧
      resp = (S.leaderWith (S.sm ev u (ev a).node)).handleGet r ∧
      S.place ev a = (S.cluster.host (S.events ev) u (ev a).node).seen := by
  obtain ⟨hans, hstatus, hv⟩ := h
  obtain ⟨stage, hk, hway⟩ := hans.arrives.way hans.lt hans.life
  rw [hans.answer] at hk
  cases hk
  rcases hway with ⟨resp', hresp, hne, hne'⟩ | ⟨hrole, hcon | ⟨u, hu, hserved⟩⟩
  · cases hresp
    rcases hstatus with hstatus | hstatus
    · exact (hne hstatus).elim
    · exact (hne' hstatus).elim
  · cases hcon
  · have hread := hserved.read rfl hu hans.life
    rw [hans.answer] at hread
    refine ⟨u, hu, hserved, hrole, ?_, ?_⟩
    · rw [Handler.handleGet_of_role rfl]
      cases hread
      rfl
    · rw [place_eq hserved, placeAt, if_pos rfl]

section Explains

variable {b : ℕ} (hgood : ∀ u < b, ¬ S.cluster.AcceptsStaleTail (S.events ev) u)
  (hread : ∀ t < b, ∀ i ∈ S.cluster.peers, S.ReadsBack ev t i)
  (hown : ∀ u < b, ∀ i, ¬ S.cluster.MisdeliversAt (S.events ev) u i)
include hgood

include hread in
/-- A `GET` reads the effect of decided entries, as many as its place says. -/
lemma Reads.decided {a v : ℕ} {r : Request} {resp : Response} (h : S.Reads ev b a v r resp) :
    ∃ u < v, ∃ c, S.cluster.Decided (S.events ev) u c ∧ c.length = S.place ev a ∧
      resp = (S.leaderWith (S.effect c)).handleGet r := by
  obtain ⟨u, hu, hserved, -, hresp, hplace⟩ := h.served
  have hv := h.le
  obtain ⟨c, hc, hlen, hsm⟩ :=
    (sound hgood hread hserved.arrives.mem (show u ≤ b by omega)).state
  exact ⟨u, hu, c, hc, hlen.trans hplace.symm, hsm ▸ hresp⟩

include hread hown in
/-- A write that was answered with 200 was proposed after it arrived, has been decided, and was
applied after the entries before it. -/
lemma Writes.decided {a v : ℕ} {op : Op Data} (h : S.Writes ev b a v op) :
    ∃ c e value u, S.cluster.Decided (S.events ev) b (c ++ [e]) ∧ c.length = S.place ev a ∧
      e.index = S.place ev a + 1 ∧ e.data = op.marshal ∧
      ((S.effect c).apply S.parse e).1 = .ok value ∧ a < u ∧
      S.cluster.ProposedAt (S.events ev) u (ev a).node e := by
  obtain ⟨u, v', ret, ⟨m, r, hserved⟩, hv', hret, herr, hidx⟩ := h.returns hown
  have hv := h.le
  obtain ⟨hprop, s, hs, happ, hact, -⟩ := hret.applied (fun w hw => hown w (by omega) _) herr
  obtain ⟨c, hc, hlen, hsm⟩ :=
    (sound hgood hread hserved.arrives.mem (show s ≤ b by omega)).applies hgood (by omega) happ
  have hout := S.outcome_of_applies ev happ hact
  rw [hsm] at hout
  dsimp only at hlen
  unfold applyOutcome at hout
  split at hout
  · rename_i value hvalue
    exact ⟨c, _, value, u, hc.mono (by omega), by omega, hidx, rfl, hvalue, hserved.lt, hprop⟩
  · cases (ApplyOutcome.returned.inj hout).2

include hown in
lemma Writes.apart {a v a' v' : ℕ} {op op' : Op Data} (h : S.Writes ev b a v op)
    (h' : S.Writes ev b a' v' op') (hplace : S.place ev a = S.place ev a') : a = a' := by
  have hv := h.le
  have hv' := h'.le
  obtain ⟨u, w, ret, ⟨m, r, hserved⟩, hw, hret, herr, hidx⟩ := h.returns hown
  obtain ⟨u', w', ret', ⟨m', r', hserved'⟩, hw', hret', herr', hidx'⟩ := h'.returns hown
  obtain ⟨-, rfl⟩ := Cluster.Returns.eq_of_index_eq _ _ hgood hown hret hret' (by omega)
    (by omega) herr herr' (by omega)
  exact hserved.arrival_unique hserved'

omit hgood hread hown

/-- A machine that holds 7 under `x`. -/
def holdsSeven : KV := { m := SortedMap.empty.insert "x" (some [7]), lastIndex := 1 }

/-- A reader that knows the snapshots of two machines, and takes every other text for the
operation between them. -/
def readsSeven (data : Data) : Except Unit Json :=
  if data = ({} : KV).snapshot.1 then .ok (marshalSnapshot {})
  else if data = holdsSeven.snapshot.1 then .ok (marshalSnapshot holdsSeven)
  else .ok (marshalOp { kind := "set", key := "x", value := some [7] })

/-- A service of a single daemon. -/
def single : Service Unit where
  cluster := Cluster.solo
  parse := readsSeven
  errorText _ := ""
  clientURLs _ := []

end Explains

end Service

end Kv

end ToyRaft
