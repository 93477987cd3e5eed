import ToyRaft.Runtime.Moves

/-!
# The vote ledger of a node

Between the moment a node decides on a vote and the moment the vote leaves, the decision
travels through three places: the pending hard state of the core, the hard state a flush is
about to save, and the storage; the vote message travels behind it, from the outbox to the
batch of the flush to the network.  `VoteLedger` says that the message never overtakes the
decision.  Every move keeps it (`voteLedger_move`), provided a failing `SaveHardState` is
harmless (`SaveSafe`): no vote is sent behind it, or the hard state it loses records none that is
new.

A consequence is `VoteLedger.once`: over all its lifetimes a node sends its vote in a term to
one candidate only.
-/

namespace ToyRaft

namespace Host

/-- A vote message on its way: queued in the current epoch, in the batch of the flush, or
sent. -/
def VoteHeld (n : Node) (batch net : List Message) (x : Message) : Prop :=
  ⟨n.stepDownEpoch, x⟩ ∈ n.pendingMsgs ∨ x ∈ batch ∨ x ∈ net ∧ x.fromNode = n.id

/-- The books of a node: what it has decided, what it is about to save, what it has stored,
and the votes on their way behind each of them. -/
structure VoteLedger (i : NodeID) (n : Node) (unsaved : Option HardState)
    (batch net : List Message) : Prop where
  id : n.id = i
  id_ne : i ≠ ""
  pending_from : ∀ pm ∈ n.pendingMsgs, pm.msg.fromNode = i
  batch_from : ∀ x ∈ batch, x.fromNode = i
  stored_mid : n.storage.hs.Precedes (unsaved.getD n.storage.hs)
  mid_top : (unsaved.getD n.storage.hs).Precedes
    (n.pendingHS.getD (unsaved.getD n.storage.hs))
  top_cur : (n.pendingHS.getD (unsaved.getD n.storage.hs)).Precedes n.hardState
  recorded : ∀ x, ⟨n.stepDownEpoch, x⟩ ∈ n.pendingMsgs → x.voteOf ≠ none →
    n.pendingHS = some n.hardState
  epoch_le : ∀ pm ∈ n.pendingMsgs, pm.epoch ≤ n.stepDownEpoch
  pending : ∀ x, ⟨n.stepDownEpoch, x⟩ ∈ n.pendingMsgs → ∀ c, x.voteOf = some c →
    n.hardState.Covers x ∧ n.votedFor ≠ ""
  batch_mid : ∀ x ∈ batch, ∀ c, x.voteOf = some c →
    (unsaved.getD n.storage.hs).Covers x ∧ (unsaved.getD n.storage.hs).votedFor ≠ ""
  sent : ∀ x ∈ net, x.fromNode = n.id → ∀ c, x.voteOf = some c → n.storage.hs.Covers x
  nonblank : ∀ x, VoteHeld n batch net x → ∀ c, x.voteOf = some c → c ≠ ""
  once : ∀ x y, VoteHeld n batch net x → VoteHeld n batch net y → x.term = y.term →
    ∀ c d, x.voteOf = some c → y.voteOf = some d → c = d

namespace VoteLedger

variable {i : NodeID} {n n' : Node} {unsaved : Option HardState} {batch net : List Message}

/-- The current hard state accounts for every vote on its way. -/
lemma covers_cur (h : VoteLedger i n unsaved batch net) {x : Message} {c : NodeID}
    (hx : VoteHeld n batch net x) (hc : x.voteOf = some c) : n.hardState.Covers x := by
  have hne := h.nonblank x hx
  rcases hx with hx | hx | ⟨hx, hfrom⟩
  · exact (h.pending x hx c hc).1
  · exact ((h.batch_mid x hx c hc).1.mono h.mid_top hne).mono h.top_cur hne
  · exact (((h.sent x hx hfrom c hc).mono h.stored_mid hne).mono h.mid_top hne).mono
      h.top_cur hne

/-- What is queued in the current epoch after a section was so before, or carries the new
term and vote. -/
lemma pending_of_follows {who : NodeID} (h : VoteLedger i n unsaved batch net)
    (hf : Node.Follows who n n') {x : Message}
    (hx : ⟨n'.stepDownEpoch, x⟩ ∈ n'.pendingMsgs) :
    n'.stepDownEpoch = n.stepDownEpoch ∧ ⟨n.stepDownEpoch, x⟩ ∈ n.pendingMsgs ∨
    x.term = n'.currentTerm ∧ ∀ c, x.voteOf = some c →
      n'.votedFor = c ∧ (c = n.id ∨ c = who) := by
  obtain ⟨new, heq, hnew⟩ := hf.outbox
  rw [heq] at hx
  rcases List.mem_append.mp hx with hx | hx
  · have hle := h.epoch_le _ hx
    have hepoch : n'.stepDownEpoch = n.stepDownEpoch := by
      rcases hf.epoch with hlt | ⟨heq, -⟩
      · dsimp only at hle
        omega
      · exact heq
    rw [hepoch] at hx
    exact .inl ⟨hepoch, hx⟩
  · exact .inr ⟨(hnew _ hx).term, (hnew _ hx).vote⟩

lemma held_of_follows {who : NodeID} (h : VoteLedger i n unsaved batch net)
    (hf : Node.Follows who n n') {x : Message} (hx : VoteHeld n' batch net x) :
    VoteHeld n batch net x ∨ x.term = n'.currentTerm ∧ ∀ c, x.voteOf = some c →
      n'.votedFor = c ∧ (c = n.id ∨ c = who) := by
  rcases hx with hx | hx | ⟨hx, hfrom⟩
  · exact (h.pending_of_follows hf hx).imp_left fun hold => .inl hold.2
  · exact .inl (.inr (.inl hx))
  · exact .inl (.inr (.inr ⟨hx, by rw [hfrom, hf.id]⟩))

/-- The votes of a section agree with all the votes already on their way. -/
lemma once_of_follows {who : NodeID} (h : VoteLedger i n unsaved batch net)
    (hf : Node.Follows who n n') {x y : Message} {c d : NodeID}
    (hx : VoteHeld n' batch net x) (hy : VoteHeld n' batch net y) (hxy : x.term = y.term)
    (hc : x.voteOf = some c) (hd : y.voteOf = some d) : c = d := by
  -- an old vote of the new term is the vote the node still has
  have hold : ∀ {z e}, VoteHeld n batch net z → z.voteOf = some e →
      z.term = n'.currentTerm → n'.votedFor = e := by
    intro z e hz he hterm
    have hcov := (h.covers_cur hz he).mono hf.precedes (h.nonblank z hz)
    rcases hcov with hlt | ⟨-, hvote⟩
    · exact absurd hterm (Nat.ne_of_lt hlt)
    · rw [he] at hvote
      exact (Option.some.inj hvote).symm
  rcases h.held_of_follows hf hx with hx | ⟨hxt, hxv⟩
  · rcases h.held_of_follows hf hy with hy | ⟨hyt, hyv⟩
    · exact h.once x y hx hy hxy c d hc hd
    · rw [← hold hx hc (by omega), (hyv d hd).1]
  · rcases h.held_of_follows hf hy with hy | ⟨hyt, hyv⟩
    · rw [← (hxv c hc).1, hold hy hd (by omega)]
    · rw [← (hxv c hc).1, (hyv d hd).1]

/-- A critical section keeps the books. -/
theorem follows {who : NodeID} (h : VoteLedger i n unsaved batch net)
    (hf : Node.Follows who n n') (hwho : who ≠ "") : VoteLedger i n' unsaved batch net := by
  have hstored := hf.stored
  have hnew : ∀ {c}, c = n.id ∨ c = who → c ≠ "" := by
    rintro c (rfl | rfl)
    · rw [h.id]
      exact h.id_ne
    · exact hwho
  constructor
  case id => exact hf.id.trans h.id
  case id_ne => exact h.id_ne
  case pending_from =>
    intro pm hpm
    obtain ⟨new, heq, hout⟩ := hf.outbox
    rw [heq] at hpm
    rcases List.mem_append.mp hpm with hpm | hpm
    · exact h.pending_from pm hpm
    · rw [(hout pm hpm).fromNode, h.id]
  case batch_from => exact h.batch_from
  case stored_mid =>
    rw [hstored]
    exact h.stored_mid
  case mid_top =>
    rw [hstored]
    rcases hf.pendingHS with hhs | ⟨hhs, -⟩
    · rw [hhs]
      exact (h.mid_top.trans h.top_cur).trans hf.precedes
    · rw [hhs]
      exact h.mid_top
  case top_cur =>
    rw [hstored]
    rcases hf.pendingHS with hhs | ⟨hhs, heq⟩
    · rw [hhs]
      exact .refl _
    · rw [hhs, heq]
      exact h.top_cur
  case recorded =>
    intro x hx hvote
    obtain ⟨new, heq, hout⟩ := hf.outbox
    rw [heq] at hx
    rcases List.mem_append.mp hx with hold | hx
    · have hle := h.epoch_le _ hold
      rcases hf.pendingHS with hhs | ⟨hhs, hcur⟩
      · exact hhs
      · have hepoch : n'.stepDownEpoch = n.stepDownEpoch := by
          rcases hf.epoch with hlt | ⟨heq, -⟩
          · dsimp only at hle
            omega
          · exact heq
        rw [hepoch] at hold
        rw [hhs, hcur]
        exact h.recorded x hold hvote
    · exact (hout _ hx).behind hvote
  case epoch_le =>
    intro pm hpm
    obtain ⟨new, heq, hout⟩ := hf.outbox
    rw [heq] at hpm
    rcases List.mem_append.mp hpm with hpm | hpm
    · have := h.epoch_le pm hpm
      rcases hf.epoch with hlt | ⟨heq, -⟩ <;> omega
    · exact (hout pm hpm).epoch.le
  case pending =>
    intro x hx c hc
    rcases h.pending_of_follows hf hx with ⟨hepoch, hold⟩ | ⟨hterm, hvote⟩
    · obtain ⟨hcov, hv⟩ := h.pending x hold c hc
      refine ⟨hcov.mono hf.precedes (h.nonblank x (.inl hold)), ?_⟩
      rcases hf.epoch with hlt | ⟨-, hcur | hself⟩
      · omega
      · -- within a term a vote given is not changed
        rcases hf.precedes with hlt | ⟨-, hblank | hsame⟩
        · exact absurd hcur.symm (Nat.ne_of_lt hlt)
        · exact (hv hblank).elim
        · exact fun hb => hv (hsame.trans hb)
      · rw [hself, h.id]
        exact h.id_ne
    · obtain ⟨hv, hcw⟩ := hvote c hc
      exact ⟨.inr ⟨hterm, by rw [hc, ← hv]; rfl⟩, by rw [hv]; exact hnew hcw⟩
  case batch_mid =>
    rw [hstored]
    exact h.batch_mid
  case sent =>
    rw [hstored, hf.id]
    exact h.sent
  case nonblank =>
    intro x hx c hc
    rcases h.held_of_follows hf hx with hx | ⟨-, hvote⟩
    · exact h.nonblank x hx c hc
    · exact hnew (hvote c hc).2
  case once =>
    intro x y hx hy hxy c d hc hd
    exact h.once_of_follows hf hx hy hxy hc hd

/-- `Ready` moves the decision and the votes of the current epoch into the flush. -/
lemma ready (h : VoteLedger i n none [] net) :
    VoteLedger i { n with pendingMsgs := [], pendingHS := none } n.pendingHS
      ((n.pendingMsgs.filter (fun pm => pm.epoch = n.stepDownEpoch)).map PendingMsg.msg)
      net := by
  have hbatch : ∀ {x}, x ∈ (n.pendingMsgs.filter (fun pm => pm.epoch = n.stepDownEpoch)).map
      PendingMsg.msg → ⟨n.stepDownEpoch, x⟩ ∈ n.pendingMsgs := by
    intro x hx
    obtain ⟨pm, hpm, rfl⟩ := List.mem_map.mp hx
    obtain ⟨hpm, hepoch⟩ := List.mem_filter.mp hpm
    rw [← of_decide_eq_true hepoch]
    exact hpm
  have hheld : ∀ {x}, VoteHeld { n with pendingMsgs := [], pendingHS := none }
      ((n.pendingMsgs.filter (fun pm => pm.epoch = n.stepDownEpoch)).map PendingMsg.msg)
      net x → VoteHeld n [] net x := by
    rintro x (hx | hx | hx)
    · cases hx
    · exact .inl (hbatch hx)
    · exact .inr (.inr hx)
  constructor
  case id => exact h.id
  case id_ne => exact h.id_ne
  case pending_from => simp
  case batch_from => exact fun x hx => h.pending_from _ (hbatch hx)
  case stored_mid => exact h.mid_top
  case mid_top => exact .refl _
  case top_cur => exact h.top_cur
  case recorded => simp
  case epoch_le => simp
  case pending => simp
  case batch_mid =>
    intro x hx c hc
    obtain ⟨hcov, hv⟩ := h.pending x (hbatch hx) c hc
    rw [h.recorded x (hbatch hx) (by simp [hc])]
    exact ⟨hcov, hv⟩
  case sent => exact h.sent
  case nonblank => exact fun x hx => h.nonblank x (hheld hx)
  case once => exact fun x y hx hy => h.once x y (hheld hx) (hheld hy)

/-- `SaveHardState` moves the decision into the storage. -/
lemma save {hs : HardState} (h : VoteLedger i n (some hs) batch net) :
    VoteLedger i { n with storage := n.storage.saveHardState hs } none batch net where
  id := h.id
  id_ne := h.id_ne
  pending_from := h.pending_from
  batch_from := h.batch_from
  stored_mid := .refl _
  mid_top := h.mid_top
  top_cur := h.top_cur
  recorded := h.recorded
  epoch_le := h.epoch_le
  pending := h.pending
  batch_mid := h.batch_mid
  sent := fun x hx hfrom c hc =>
    (h.sent x hx hfrom c hc).mono h.stored_mid (h.nonblank x (.inr (.inr ⟨hx, hfrom⟩)))
  nonblank := h.nonblank
  once := h.once

/-- A lost `SaveHardState` does no harm if no vote is in the batch, or what it would have stored
records no vote or only the vote already stored. -/
lemma saveFailed {hs : HardState} (h : VoteLedger i n (some hs) batch net)
    (hsafe : (∀ x ∈ batch, x.voteOf = none) ∨ hs.votedFor = "" ∨
      hs.currentTerm = n.storage.hs.currentTerm ∧ hs.votedFor = n.storage.hs.votedFor) :
    VoteLedger i n none batch net where
  id := h.id
  id_ne := h.id_ne
  pending_from := h.pending_from
  batch_from := h.batch_from
  stored_mid := .refl _
  mid_top := by
    cases hp : n.pendingHS with
    | none => exact .refl _
    | some p =>
        have hmid := h.mid_top
        rw [hp] at hmid
        exact h.stored_mid.trans hmid
  top_cur := by
    have htop := h.top_cur
    have hmid := h.stored_mid
    cases hp : n.pendingHS with
    | none =>
        rw [hp] at htop
        exact hmid.trans htop
    | some p =>
        rw [hp] at htop
        exact htop
  recorded := h.recorded
  epoch_le := h.epoch_le
  pending := h.pending
  batch_mid := by
    intro x hx c hc
    obtain ⟨hcov, hv⟩ := h.batch_mid x hx c hc
    unfold HardState.Covers at *
    simp only [Option.getD_none, Option.getD_some] at hcov hv ⊢
    rcases hsafe with hnone | hblank | ⟨hterm, hvote⟩
    · rw [hnone x hx] at hc
      cases hc
    · exact (hv hblank).elim
    · rw [← hterm, ← hvote]
      exact ⟨hcov, hv⟩
  sent := h.sent
  nonblank := h.nonblank
  once := h.once

/-- `Send` hands over a vote that is stored. -/
lemma send {x : Message} (h : VoteLedger i n none (x :: batch) net) :
    VoteLedger i n none batch (net ++ [x]) := by
  have hheld : ∀ {y}, VoteHeld n batch (net ++ [x]) y → VoteHeld n (x :: batch) net y := by
    rintro y (hy | hy | ⟨hy, hfrom⟩)
    · exact .inl hy
    · exact .inr (.inl (List.mem_cons_of_mem _ hy))
    · rcases List.mem_append.mp hy with hy | hy
      · exact .inr (.inr ⟨hy, hfrom⟩)
      · rw [List.mem_singleton.mp hy]
        exact .inr (.inl List.mem_cons_self)
  exact
    { h with
      batch_from := fun y hy => h.batch_from y (List.mem_cons_of_mem _ hy)
      batch_mid := fun y hy => h.batch_mid y (List.mem_cons_of_mem _ hy)
      sent := by
        intro y hy hfrom c hc
        rcases List.mem_append.mp hy with hy | hy
        · exact h.sent y hy hfrom c hc
        · rw [List.mem_singleton.mp hy] at hc ⊢
          exact (h.batch_mid x List.mem_cons_self c hc).1
      nonblank := fun y hy => h.nonblank y (hheld hy)
      once := fun y z hy hz => h.once y z (hheld hy) (hheld hz) }

/-- Messages that leave the books unsent do no harm. -/
lemma discard (h : VoteLedger i n none batch net) : VoteLedger i n none [] net := by
  have hheld : ∀ {x}, VoteHeld n [] net x → VoteHeld n batch net x := by
    rintro x (hx | hx | hx)
    · exact .inl hx
    · cases hx
    · exact .inr (.inr hx)
  exact
    { h with
      batch_from := by simp
      batch_mid := by simp
      nonblank := fun x hx => h.nonblank x (hheld hx)
      once := fun x y hx hy => h.once x y (hheld hx) (hheld hy) }

/-- A restart keeps the storage, and forgets every vote that was not sent. -/
lemma restart {cfg : Config} {s : Storage} (h : VoteLedger i n unsaved batch net)
    (hcfg : cfg.nodeID = i) (hn : Node.Started cfg s n') (hs : s.hs = n.storage.hs) :
    VoteLedger i n' none [] net := by
  have hid : n'.id = n.id := by rw [hn.id, hcfg, h.id]
  have hst : n'.storage.hs = n.storage.hs := by rw [hn.storage, hs]
  have hcur : n'.hardState = n.storage.hs := by rw [hn.hardState, hs]
  have hheld : ∀ {x}, VoteHeld n' [] net x → VoteHeld n batch net x := by
    rintro x (hx | hx | ⟨hx, hfrom⟩)
    · rw [hn.pendingMsgs] at hx
      cases hx
    · cases hx
    · exact .inr (.inr ⟨hx, by rw [hfrom, hid]⟩)
  constructor
  case id => exact hid.trans h.id
  case id_ne => exact h.id_ne
  case pending_from => simp [hn.pendingMsgs]
  case batch_from => simp
  case stored_mid => exact .refl _
  case mid_top =>
    rw [hn.pendingHS]
    exact .refl _
  case top_cur =>
    rw [hn.pendingHS, hcur, ← hst]
    exact .refl _
  case recorded => simp [hn.pendingMsgs]
  case epoch_le => simp [hn.pendingMsgs]
  case pending => simp [hn.pendingMsgs]
  case batch_mid => simp
  case sent =>
    rw [hst, hid]
    exact h.sent
  case nonblank => exact fun x hx => h.nonblank x (hheld hx)
  case once => exact fun x y hx hy => h.once x y (hheld hx) (hheld hy)

/-- Messages of other nodes do not touch the books. -/
lemma others (h : VoteLedger i n unsaved batch net) {out : List Message}
    (hout : ∀ x ∈ out, x.fromNode ≠ i) : VoteLedger i n unsaved batch (net ++ out) := by
  have hheld : ∀ {x}, VoteHeld n batch (net ++ out) x → VoteHeld n batch net x := by
    rintro x (hx | hx | ⟨hx, hfrom⟩)
    · exact .inl hx
    · exact .inr (.inl hx)
    · rcases List.mem_append.mp hx with hx | hx
      · exact .inr (.inr ⟨hx, hfrom⟩)
      · exact (hout x hx (hfrom.trans h.id)).elim
  exact
    { h with
      sent := by
        intro x hx hfrom
        rcases List.mem_append.mp hx with hx | hx
        · exact h.sent x hx hfrom
        · exact (hout x hx (hfrom.trans h.id)).elim
      nonblank := fun x hx => h.nonblank x (hheld hx)
      once := fun x y hx hy => h.once x y (hheld hx) (hheld hy) }

end VoteLedger

/-! ## Every move keeps the books -/

variable {ρ : Type}

/-- The books of a host, `net` being the messages sent so far. -/
def Balanced (i : NodeID) (h : Host ρ) (net : List Message) : Prop :=
  VoteLedger i h.node h.flush.unsaved h.flush.msgs net

/-- A failing `SaveHardState` is harmless: the messages behind it carry no vote, or what it should
have stored records no vote, or the term and vote that are stored already. -/
def SaveSafe (h : Host ρ) (a : Act ρ) : Prop :=
  a.losesHardState = true → ∀ hs ∈ h.flush.unsaved,
    (∀ x ∈ h.flush.msgs, x.voteOf = none) ∨ hs.votedFor = "" ∨
    hs.currentTerm = h.node.storage.hs.currentTerm ∧ hs.votedFor = h.node.storage.hs.votedFor

instance (h : Host ρ) (a : Act ρ) : Decidable (SaveSafe h a) :=
  inferInstanceAs (Decidable (_ → ∀ hs ∈ h.flush.unsaved, _))

lemma saveSafe_of_faultless {h : Host ρ} {a : Act ρ} (ha : a.faultless = true) :
    SaveSafe h a := by
  intro hlose
  cases a with
  | save err =>
      rw [Act.faultless, show err = true from hlose] at ha
      cases ha
  | _ => cases hlose

/-- A vote request that is granted names its sender. -/
def NamesSender (h : Host ρ) (a : Act ρ) : Prop :=
  ∀ m ∈ a.inbound, m.type = .requestVote →
    (h.node.maybeStepDownLocked m.term).canGrantVote m = true → m.fromNode ≠ ""

instance (h : Host ρ) (a : Act ρ) : Decidable (NamesSender h a) :=
  inferInstanceAs (Decidable (∀ m ∈ a.inbound, _ → _ → m.fromNode ≠ ""))

/-- A section of `Step` keeps the books when the request it grants names its sender. -/
lemma VoteLedger.step {i : NodeID} {n n' : Node} {unsaved : Option HardState}
    {batch net : List Message} {m : Message} {env : Env}
    (h : VoteLedger i n unsaved batch net)
    (hm : m.type = .requestVote →
      (n.maybeStepDownLocked m.term).canGrantVote m = true → m.fromNode ≠ "")
    (hn : Node.Handled env m (n.maybeStepDownLocked m.term) n') :
    VoteLedger i n' unsaved batch net := by
  obtain ⟨who, hwho, hne⟩ := Node.exists_who hm h.id_ne
  exact h.follows (Node.follows_of_step hwho hn) hne

theorem voteLedger_move {cfg : Config} {i : NodeID} {h : Host ρ} {a : Act ρ} {n' : Node}
    {f' : Flush} {out net : List Message} (hmove : Move cfg h a n' f' out)
    (hcfg : cfg.nodeID = i) (hsafe : SaveSafe h a) (hnames : NamesSender h a)
    (hb : Balanced i h net) : VoteLedger i n' f'.unsaved f'.msgs (net ++ out) := by
  unfold Balanced at hb
  cases hmove with
  | quiet snap hmsgs hhs =>
      rw [hmsgs, hhs, List.append_nil]
      exact { hb with }
  | step ha hn =>
      rw [List.append_nil]
      exact hb.step (fun hrv => hnames _ (inbound_of_step ha (by simp [hrv])) hrv) hn
  | propose _ _ hs =>
      rw [List.append_nil]
      exact hb.follows (Node.follows_of_proposed i hs) hb.id_ne
  | proposeFailed =>
      rw [List.append_nil]
      exact { hb with }
  | ready hf =>
      rw [List.append_nil]
      rw [hf] at hb
      exact hb.ready
  | save hf =>
      rw [List.append_nil]
      rw [hf] at hb
      exact hb.save
  | saveNone hf =>
      rw [List.append_nil]
      rw [hf] at hb
      exact hb
  | saveFailed ha hf =>
      rw [List.append_nil]
      subst ha
      have hharmless := hsafe rfl
      rw [hf] at hb hharmless
      exact hb.saveFailed (hharmless _ rfl)
  | send hf =>
      rw [hf] at hb
      exact hb.send
  | restart _ hn hs =>
      rw [List.append_nil]
      exact hb.restart hcfg hn (restart_hs hs).1

/-- A node fresh from `New` has balanced books: nothing was ever sent. -/
lemma voteLedger_started {cfg : Config} {s : Storage} {n : Node} (hn : Node.Started cfg s n) :
    VoteLedger cfg.nodeID n none [] [] := by
  have hid : cfg.nodeID ≠ "" := by
    have := Config.nodeID_ne_of_validate hn.config
    rwa [Config.applyDefaults_nodeID] at this
  have hheld : ∀ x, ¬ VoteHeld n [] [] x := by
    rintro x (hx | hx | ⟨hx, -⟩)
    · rw [hn.pendingMsgs] at hx
      cases hx
    · cases hx
    · cases hx
  exact
    { id := hn.id
      id_ne := hid
      pending_from := by simp [hn.pendingMsgs]
      batch_from := by simp
      stored_mid := .refl _
      mid_top := by
        rw [hn.pendingHS]
        exact .refl _
      top_cur := by
        rw [hn.pendingHS, hn.hardState, hn.storage]
        exact .refl _
      recorded := by simp [hn.pendingMsgs]
      epoch_le := by simp [hn.pendingMsgs]
      pending := by simp [hn.pendingMsgs]
      batch_mid := by simp
      sent := by simp
      nonblank := fun x hx => (hheld x hx).elim
      once := fun x _ hx => (hheld x hx).elim }

lemma balanced_new {cfg : Config} {s : Storage} {draw : ℕ} {restore : RestoreOutcome}
    {h : Host ρ} (hnew : new cfg s draw restore = .ok h) : Balanced cfg.nodeID h [] := by
  obtain ⟨hn, hf, -⟩ := new_cases hnew
  unfold Balanced
  rw [hf]
  exact voteLedger_started hn

/-! ## Without storage faults -/

/-- When no save fails, the newest hard state on its way is the current one, and no message
overtakes its term. -/
structure TermLedger (n : Node) (unsaved : Option HardState) (batch net : List Message) :
    Prop where
  top_eq : n.pendingHS.getD (unsaved.getD n.storage.hs) = n.hardState
  pending : ∀ pm ∈ n.pendingMsgs, pm.msg.term ≤ n.currentTerm
  batch_mid : ∀ x ∈ batch, x.term ≤ (unsaved.getD n.storage.hs).currentTerm
  sent : ∀ x ∈ net, x.fromNode = n.id → x.term ≤ n.storage.hs.currentTerm

lemma TermLedger.follows {n n' : Node} {unsaved : Option HardState} {batch net : List Message}
    {who : NodeID} (h : TermLedger n unsaved batch net) (hf : Node.Follows who n n') :
    TermLedger n' unsaved batch net where
  top_eq := by
    rw [hf.stored]
    rcases hf.pendingHS with hhs | ⟨hhs, heq⟩
    · rw [hhs]
      rfl
    · rw [hhs, heq]
      exact h.top_eq
  pending := by
    intro pm hpm
    obtain ⟨new, heq, hnew⟩ := hf.outbox
    rw [heq] at hpm
    rcases List.mem_append.mp hpm with hpm | hpm
    · exact (h.pending pm hpm).trans hf.precedes.term_le
    · exact (hnew pm hpm).term.le
  batch_mid := by
    rw [hf.stored]
    exact h.batch_mid
  sent := by
    rw [hf.stored, hf.id]
    exact h.sent

/-- `Ready` moves the newest hard state and the messages behind it into the flush. -/
lemma TermLedger.ready {n : Node} {net : List Message} (h : TermLedger n none [] net) :
    TermLedger { n with pendingMsgs := [], pendingHS := none } n.pendingHS
      ((n.pendingMsgs.filter (fun pm => pm.epoch = n.stepDownEpoch)).map PendingMsg.msg)
      net := by
  have htop := h.top_eq
  refine ⟨htop, by simp, fun x hx => ?_, h.sent⟩
  obtain ⟨pm, hpm, rfl⟩ := List.mem_map.mp hx
  have hcur := congrArg HardState.currentTerm htop
  exact (h.pending pm (List.mem_filter.mp hpm).1).trans hcur.ge

/-- `SaveHardState` moves it on into the storage. -/
lemma TermLedger.save {n : Node} {hs : HardState} {batch net : List Message}
    (h : TermLedger n (some hs) batch net) (hle : n.storage.hs.currentTerm ≤ hs.currentTerm) :
    TermLedger { n with storage := n.storage.saveHardState hs } none batch net :=
  ⟨h.top_eq, h.pending, h.batch_mid, fun x hx hfrom => (h.sent x hx hfrom).trans hle⟩

/-- A node fresh from `New` has saved everything. -/
lemma termLedger_started {cfg : Config} {s : Storage} {n : Node} (hn : Node.Started cfg s n) :
    TermLedger n none [] [] := by
  refine ⟨?_, by simp [hn.pendingMsgs], by simp, by simp⟩
  rw [hn.pendingHS, hn.hardState, hn.storage]
  rfl

lemma termLedger_new {cfg : Config} {s : Storage} {draw : ℕ} {restore : RestoreOutcome}
    {h : Host ρ} (hnew : new cfg s draw restore = .ok h) :
    TermLedger h.node h.flush.unsaved h.flush.msgs [] := by
  obtain ⟨hn, hf, -⟩ := new_cases hnew
  rw [hf]
  exact termLedger_started hn

/-- Messages of other nodes do not matter. -/
lemma TermLedger.others {n : Node} {unsaved : Option HardState} {batch net out : List Message}
    (h : TermLedger n unsaved batch net) (hout : ∀ x ∈ out, x.fromNode ≠ n.id) :
    TermLedger n unsaved batch (net ++ out) where
  top_eq := h.top_eq
  pending := h.pending
  batch_mid := h.batch_mid
  sent := fun x hx hfrom => by
    rcases List.mem_append.mp hx with hx | hx
    · exact h.sent x hx hfrom
    · exact (hout x hx hfrom).elim

theorem termLedger_move {cfg : Config} {i : NodeID} {h : Host ρ} {a : Act ρ} {n' : Node}
    {f' : Flush} {out net : List Message} (hmove : Move cfg h a n' f' out)
    (hcfg : cfg.nodeID = i) (hfault : a.faultless = true) (hb : Balanced i h net)
    (ht : TermLedger h.node h.flush.unsaved h.flush.msgs net) :
    TermLedger n' f'.unsaved f'.msgs (net ++ out) := by
  unfold Balanced at hb
  cases hmove with
  | quiet snap hmsgs hhs =>
      rw [hmsgs, hhs, List.append_nil]
      exact { ht with }
  | step _ hn =>
      rw [List.append_nil]
      exact ht.follows (Node.follows_of_step (fun _ _ => rfl) hn)
  | propose _ _ hs =>
      rw [List.append_nil]
      exact ht.follows (Node.follows_of_proposed i hs)
  | proposeFailed =>
      rw [List.append_nil]
      exact { ht with }
  | ready hf =>
      rw [List.append_nil]
      rw [hf] at ht
      exact ht.ready
  | save hf =>
      rw [List.append_nil]
      rw [hf] at ht hb
      exact ht.save hb.stored_mid.term_le
  | saveNone hf =>
      rw [List.append_nil]
      rw [hf] at ht
      exact ht
  | saveFailed ha hf =>
      subst ha
      cases hfault
  | send hf =>
      rw [hf] at ht
      refine ⟨ht.top_eq, ht.pending, fun y hy => ht.batch_mid y (List.mem_cons_of_mem _ hy),
        fun y hy hfrom => ?_⟩
      rcases List.mem_append.mp hy with hy | hy
      · exact ht.sent y hy hfrom
      · rw [List.mem_singleton.mp hy]
        exact ht.batch_mid _ List.mem_cons_self
  | restart _ hn hs =>
      rw [List.append_nil]
      have hst := (restart_hs hs).1
      refine ⟨?_, by simp [hn.pendingMsgs], by simp [Flush.msgs], ?_⟩
      · rw [hn.pendingHS, hn.hardState, hn.storage]
        rfl
      · rw [hn.storage, hst, hn.id, hcfg, ← hb.id]
        exact ht.sent

end Host

end ToyRaft
