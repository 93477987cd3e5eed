import ToyRaft.Properties.Refinement

/-!
# What the leader knows of its followers' logs

A follower that accepts an `AppendEntries` answers with the last index of its own log, not
with the last index the message has verified.  The two differ when the follower writes
nothing and its log goes on beyond the batch.  If the entries there are of the leader's own
term they are the leader's, and the answer is right; if not (`KeepsStaleTail`), the leader
records as matching what nobody has compared.

`matchIndex_sound` says that this is the only way for `matchIndex` to be wrong:
as long as no such answer is given, what a leader has recorded for a follower is a prefix the
two logs share.  `matchIndex_beyond_log` is the run in which it is wrong.
-/

namespace ToyRaft

/-- Both logs reach `m`, and they are identical up to it. -/
def Log.AgreeUpTo (l l' : Log) (m : ℕ) : Prop :=
  m ≤ l.lastIndex ∧ m ≤ l'.lastIndex ∧ l.take m = l'.take m

/-- The node accepts `m` and writes nothing, although beyond the batch its log holds an entry
of another term than the message's. -/
def Node.KeepsStaleTail (n : Node) (m : Message) : Prop :=
  m.type = .appendEntries ∧ n.currentTerm ≤ m.term ∧
    n.log.hasEntry m.prevLogIndex m.prevLogTerm = true ∧ n.firstConflictIndex m.entries = 0 ∧
    ∃ e ∈ n.log, m.prevLogIndex + m.entries.length < e.index ∧ e.term ≠ m.term

instance (n : Node) (m : Message) : Decidable (n.KeepsStaleTail m) :=
  inferInstanceAs (Decidable (_ ∧ _ ∧ _ ∧ _ ∧ _))

namespace Cluster

variable {ρ : Type} (C : Cluster) (ev : ℕ → Event ρ)

/-- At moment `t` a running node is delivered an `AppendEntries` that it accepts over a stale
tail. -/
def AcceptsStaleTail (t : ℕ) : Prop :=
  C.Enabled (C.world ev t) (ev t) ∧
    ∃ m ∈ (C.host ev t (ev t).node).delivered (ev t).act,
      (C.node ev t (ev t).node).KeepsStaleTail m

instance (t : ℕ) : Decidable (C.AcceptsStaleTail ev t) :=
  inferInstanceAs (Decidable (_ ∧ _))

lemma not_keepsStaleTail {t : ℕ} {i : NodeID} {sent : List Message} {m : Message}
    (hm : C.MovesAt ev t i sent) (hdel : m ∈ (C.host ev t i).delivered (ev t).act)
    (hgood : ¬ C.AcceptsStaleTail ev t) : ¬ (C.node ev t i).KeepsStaleTail m := by
  intro hstale
  obtain rfl := hm.node
  exact hgood ⟨⟨hm.mem, hm.faultless, hm.inbound⟩, m, hdel, hstale⟩

/-- The response `x` of `F` tells the leader `L` of term `T` that their logs match up
to `m`. -/
structure Reports (x : Message) (F L : NodeID) (T m : ℕ) : Prop where
  type : x.type = .appendEntriesResp
  success : x.success = true
  sender : x.fromNode = F
  dest : x.toNode = L
  term : x.term = T
  matchIndex : x.matchIndex = m

/-! ## An accepted batch -/

section Accepted

variable (hcard : 1 < C.peers.toFinset.card)
include hcard

/-- After an accepted `AppendEntries` the receiver's log starts with the sender's, to the end
of the batch; it ends there too, unless nothing was written. -/
lemma accepted_take_eq {t : ℕ} {i : NodeID} {m : Message} (hi : i ∈ C.peers)
    (hnet : m ∈ C.net ev t) (hp : ((C.node ev t i).maybeStepDownLocked m.term).Passes m)
    (hlog : ((C.node ev t i).maybeStepDownLocked m.term).firstConflictIndex m.entries = 0 ∧
        (C.node ev (t + 1) i).log = ((C.node ev t i).maybeStepDownLocked m.term).log ∨
      ((C.node ev t i).maybeStepDownLocked m.term).firstConflictIndex m.entries ≠ 0 ∧
        (C.node ev (t + 1) i).log =
          ((C.node ev t i).maybeStepDownLocked m.term).writtenLog m) :
    ∃ s ≤ t, C.BuiltAt ev m s ∧
      (C.node ev (t + 1) i).log.take (m.prevLogIndex + m.entries.length) =
        (C.node ev s m.fromNode).log.take (m.prevLogIndex + m.entries.length) ∧
      m.prevLogIndex + m.entries.length ≤ (C.node ev (t + 1) i).log.length ∧
      ((C.node ev (t + 1) i).log.length = m.prevLogIndex + m.entries.length ∨
        (C.node ev t i).firstConflictIndex m.entries = 0 ∧
          (C.node ev (t + 1) i).log = (C.node ev t i).log) := by
  obtain ⟨s, hs, hb⟩ := C.builtAt ev hnet hp.type
  have hwf := C.wellFormed ev hnet hp.type
  have hshape := C.shaped ev hi t
  obtain ⟨-, -, hlog₀, -⟩ := (C.node ev t i).maybeStepDownLocked_frame m.term
  have hfc := Node.firstConflictIndex_congr hlog₀ m.entries
  have hprev := hp.prev
  rw [hlog₀] at hprev
  refine ⟨s, hs, hb, ?_⟩
  rcases Node.receiver_cases hshape.contiguous hwf hprev with ⟨h0, hle, hall⟩ | ⟨k, hk, hw, hsuf⟩
  · rw [hfc, h0, hlog₀] at hlog
    have hsame : (C.node ev (t + 1) i).log = (C.node ev t i).log := by
      rcases hlog with ⟨-, h⟩ | ⟨hne, -⟩
      · exact h
      · exact (hne rfl).elim
    rw [hsame]
    refine ⟨?_, hle, .inr ⟨h0, rfl⟩⟩
    by_cases hzero : m.prevLogIndex + m.entries.length = 0
    · rw [hzero, List.take_zero, List.take_zero]
    · have hagree := hb.termAgree hi hprev (Nat.le_add_right _ _) hzero hall
      have h := (C.execution ev hcard).log_matching hagree
      rwa [Nat.sub_add_cancel (Nat.one_le_iff_ne_zero.mpr hzero)] at h
  · -- what is written is the sender's log itself
    obtain ⟨hgraft, hdrop⟩ := hb.graft hi hprev hw
    have hwritten : (C.node ev (t + 1) i).log =
        (C.node ev t i).log.take k ++ m.entries.drop (k - m.prevLogIndex) := by
      rcases hlog with ⟨h0, -⟩ | ⟨-, h⟩
      · omega
      · rw [h, Node.writtenLog_eq (by rw [hlog₀]; exact hshape.contiguous) (hfc.trans hk) hsuf,
          hlog₀]
    have hlen := (Node.written_contiguous hshape.contiguous hwf.contiguous hw).2
    have hsource : (C.node ev (t + 1) i).log = (C.node ev s m.fromNode).log := by
      rw [hwritten, hdrop]
      exact (C.execution ev hcard).grafted_log ((C.execution ev hcard).sourced t i)
        ((C.execution ev hcard).sourced s m.fromNode) hgraft
    rw [← hwritten] at hlen
    exact ⟨by rw [hsource], hlen.ge, .inl hlen⟩

/-- Unless a stale tail is kept, a success response speaks of a log that is a prefix of the
leader's. -/
lemma ack_sound {s : ℕ} {F : NodeID} {x : Message} (hx : x ∈ C.queued ev s F)
    (ht : x.type = .appendEntriesResp) (hs : x.success = true)
    (hgood : ¬ C.AcceptsStaleTail ev s) :
    x.matchIndex = (C.node ev (s + 1) F).log.length ∧
      x.term = (C.node ev (s + 1) F).currentTerm ∧
      ∃ u ≤ s + 1, C.LeaderAt ev u x.toNode x.term ∧
        (C.node ev (s + 1) F).log <+: (C.node ev u x.toNode).log := by
  obtain ⟨⟨sent, hm⟩, m, hmsg, hsp⟩ := spokenAt_of_queued hx
  obtain ⟨hp, hcur, hterm, hto, hmatch, hlog⟩ := hsp.of_ack ht hs
  rcases hmsg with rfl | ⟨hnet, -, hdel⟩
  · cases hp.type
  have hxterm : x.term = m.term := hterm.trans (hcur.trans hp.term.symm)
  rw [Log.lastIndex_eq_length (C.shaped ev hm.mem (s + 1)).contiguous] at hmatch
  refine ⟨hmatch, hterm, ?_⟩
  rw [hto, hxterm]
  obtain ⟨u, hu, hb, htake, hle, hcases⟩ := C.accepted_take_eq ev hcard hm.mem hnet hp hlog
  by_cases hend : (C.node ev (s + 1) F).log.length = m.prevLogIndex + m.entries.length
  · refine ⟨u, by omega, hb.leader, ?_⟩
    rw [← hend, List.take_length] at htake
    rw [htake]
    exact List.take_prefix _ _
  · -- the log goes on beyond the batch: its last entry is of the leader's term
    obtain ⟨h0, hsame⟩ := hcases.resolve_left hend
    obtain ⟨-, -, hlog₀, -, -, -, -, hle₀, -⟩ :=
      (C.node ev s F).maybeStepDownLocked_frame m.term
    have hprev := hp.prev
    rw [hlog₀] at hprev
    rw [hsame] at hle hend ⊢
    obtain ⟨e, he⟩ : ∃ e, (C.node ev s F).log[(C.node ev s F).log.length - 1]? = some e :=
      ⟨_, List.getElem?_eq_getElem (by omega)⟩
    have hidx := (C.shaped ev hm.mem s).contiguous _ _ he
    have heterm : e.term = m.term := by
      by_contra hne
      exact C.not_keepsStaleTail ev hm hdel hgood ⟨hp.type, hle₀.trans hp.term.ge, hprev, h0, e,
        List.mem_of_getElem? he, by omega, hne⟩
    obtain ⟨v, j, hv, hlead, hpre⟩ := (C.execution ev hcard).sourced s F _ e he
    have hlead' : C.LeaderAt ev v j m.term := heterm ▸ hlead
    obtain rfl := C.leader_unique ev hlead' hb.leader
    refine ⟨v, by omega, hlead', ?_⟩
    rwa [Nat.sub_add_cancel (by omega), show ((C.execution ev hcard).log s F) =
      (C.node ev s F).log from rfl, List.take_length] at hpre

end Accepted

/-! ## Recorded progress -/

/-- What a leader has recorded for another member it was told in a response. -/
structure Recorded (t : ℕ) (L : NodeID) : Prop where
  keys : ∀ p ∈ (C.node ev t L).matchIndex, p ∈ C.peers
  reported : (C.node ev t L).role = .leader → ∀ F ∈ C.peers, F ≠ L →
    (C.node ev t L).matchIndex.get F = 0 ∨
      ∃ x ∈ C.net ev t, Reports x F L (C.node ev t L).currentTerm
        ((C.node ev t L).matchIndex.get F)

theorem recorded {L : NodeID} (hL : L ∈ C.peers) (t : ℕ) : C.Recorded ev t L := by
  induction t with
  | zero =>
      have hn := C.started_zero ev hL
      refine ⟨fun p hp => ?_, fun hl => ?_⟩
      · rw [hn.matchIndex] at hp
        exact (AList.notMem_empty p hp).elim
      · rw [hn.role] at hl
        cases hl
  | succ t ih =>
      have hkept : (C.node ev t L).role = .leader →
          (C.node ev (t + 1) L).currentTerm = (C.node ev t L).currentTerm → ∀ F ∈ C.peers,
          F ≠ L → (C.node ev (t + 1) L).matchIndex.get F = (C.node ev t L).matchIndex.get F →
          (C.node ev (t + 1) L).matchIndex.get F = 0 ∨
            ∃ x ∈ C.net ev (t + 1), Reports x F L (C.node ev (t + 1) L).currentTerm
              ((C.node ev (t + 1) L).matchIndex.get F) := by
        intro hl hcur F hF hne hget
        rw [hcur, hget]
        refine (ih.reported hl F hF hne).imp_right fun ⟨x, hx, hrep⟩ => ?_
        exact ⟨x, C.net_mono ev (Nat.le_succ t) hx, hrep⟩
      rcases C.step_cases ev t L with ⟨sent, hm⟩ | ⟨heq, -⟩
      · have hid : (C.host ev t L).node.id = L := C.node_id ev hL t
        cases hm.move.matchIndex with
        | same h hrole =>
            refine ⟨by rw [h]; exact ih.keys, fun hl F hF hne => ?_⟩
            obtain ⟨hl', hcur⟩ := hrole hl
            exact hkept hl' hcur F hF hne (by rw [h]; rfl)
        | restart h hrole =>
            refine ⟨fun p hp => ?_, fun hl => ?_⟩
            · rw [h] at hp
              exact (AList.notMem_empty p hp).elim
            · rw [hrole] at hl
              cases hl
        | elected h =>
            have hpeers : ∀ {p}, p ∈ (C.host ev t L).node.peers ↔ p ∈ C.peers :=
              C.mem_node_peers ev hL t
            refine ⟨fun p hp => ?_, fun _ F hF _ => ?_⟩
            · rw [h] at hp
              rcases PeerMap.mem_foldl_insert _ _ _ hp with hp | hp
              · exact hpeers.mp hp
              · exact ih.keys p hp
            · left
              rw [h]
              exact PeerMap.get_foldl_insert _ _ _ (hpeers.mpr hF)
        | reported m hin ht hs hterm hrole hcur h =>
            obtain ⟨hnet, hto⟩ := hm.inbound m hin
            refine ⟨fun p hp => ?_, fun _ F hF hne => ?_⟩
            · rw [h, AList.mem_insert] at hp
              rcases hp with rfl | hp
              · exact C.net_from ev hnet
              · exact ih.keys p hp
            · by_cases hFm : F = m.fromNode
              · right
                refine ⟨m, C.net_mono ev (Nat.le_succ t) hnet, ht, hs, hFm.symm, hto, ?_, ?_⟩
                · rw [hcur]
                  exact hterm
                · rw [h, hFm, PeerMap.get_insert]
              · refine hkept hrole hcur F hF hne ?_
                rw [h, PeerMap.get_insert_ne _ _ hFm]
                rfl
        | proposed k hrole hcur h =>
            refine ⟨fun p hp => ?_, fun _ F hF hne => ?_⟩
            · rw [h, AList.mem_insert] at hp
              rcases hp with rfl | hp
              · rw [hid]
                exact hL
              · exact ih.keys p hp
            · refine hkept hrole hcur F hF hne ?_
              rw [h, hid, PeerMap.get_insert_ne _ _ hne]
              rfl
      · have hnode : C.node ev (t + 1) L = C.node ev t L := by rw [node, heq]; rfl
        refine ⟨by rw [hnode]; exact ih.keys, fun hl F hF hne => ?_⟩
        rw [hnode] at hl
        exact hkept hl (by rw [hnode]) F hF hne (by rw [hnode])

/-! ## Soundness -/

/-- A response the leader of its term may count: the follower's log was a prefix of the
leader's when it was queued. -/
lemma Reports.sound (hcard : 1 < C.peers.toFinset.card) {x : Message} {F L : NodeID}
    {T m s t : ℕ} (h : Reports x F L T m) (hx : x ∈ C.queued ev s F) (hst : s < t)
    (hgood : ¬ C.AcceptsStaleTail ev s) (hL : C.LeaderAt ev t L T) :
    m = (C.node ev (s + 1) F).log.length ∧ C.LeaderAt ev (s + 1) L T ∧
      (C.node ev (s + 1) F).log <+: (C.node ev (s + 1) L).log := by
  obtain ⟨hmatch, -, u, hu, hlead, hpre⟩ := C.ack_sound ev hcard hx h.type h.success hgood
  rw [h.dest, h.term] at hlead
  rw [h.dest] at hpre
  have hbetween : C.LeaderAt ev (s + 1) L T :=
    (C.execution ev hcard).leaderAt_between hlead hL hu hst
  refine ⟨h.matchIndex.symm.trans hmatch, hbetween, hpre.trans ?_⟩
  exact (C.execution ev hcard).leader_log_grows hlead hbetween hu

/-- **Soundness of `matchIndex`.**  As long as no `AppendEntries` is accepted over a stale
tail, what the leader of term `T` has recorded for a follower lies inside its own log; if it
is not the initial `0` the follower has reported it in a response of term `T`; and whenever the
follower queued a response that reports it, the two logs agreed entry for entry up to it. -/
theorem matchIndex_sound {t : ℕ} {L F : NodeID} {T : ℕ}
    (hgood : ∀ s < t, ¬ C.AcceptsStaleTail ev s) (hL : C.LeaderAt ev t L T) (hF : F ∈ C.peers)
    (hne : F ≠ L) :
    (C.node ev t L).matchIndex.get F ≤ (C.node ev t L).log.lastIndex ∧
    ((C.node ev t L).matchIndex.get F ≠ 0 → ∃ s < t, ∃ x ∈ C.queued ev s F,
      Reports x F L T ((C.node ev t L).matchIndex.get F)) ∧
    ∀ s < t, ∀ x ∈ C.queued ev s F, Reports x F L T ((C.node ev t L).matchIndex.get F) →
      Log.AgreeUpTo (C.node ev (s + 1) F).log (C.node ev (s + 1) L).log
        ((C.node ev t L).matchIndex.get F) := by
  have hcard : 1 < C.peers.toFinset.card :=
    Finset.one_lt_card.mpr ⟨F, List.mem_toFinset.mpr hF, L, List.mem_toFinset.mpr hL.mem, hne⟩
  have hsource : (C.node ev t L).matchIndex.get F ≠ 0 → ∃ s < t, ∃ x ∈ C.queued ev s F,
      Reports x F L T ((C.node ev t L).matchIndex.get F) := by
    intro h0
    obtain ⟨x, hx, hrep⟩ := ((C.recorded ev hL.mem t).reported hL.1 F hF hne).resolve_left h0
    rw [hL.2] at hrep
    obtain ⟨s, hs, hq, -⟩ := provenance_net hx
    rw [hrep.sender] at hq
    exact ⟨s, hs, x, hq, hrep⟩
  refine ⟨?_, hsource, fun s hs x hx hrep => ?_⟩
  · by_cases h0 : (C.node ev t L).matchIndex.get F = 0
    · rw [h0]
      exact Nat.zero_le _
    · obtain ⟨s, hs, x, hx, hrep⟩ := hsource h0
      obtain ⟨hm, hlead, hpre⟩ := hrep.sound C ev hcard hx hs (hgood s hs) hL
      have hgrow := (C.execution ev hcard).leader_log_grows hlead hL hs
      rw [Log.lastIndex_eq_length (C.shaped ev hL.mem t).contiguous, hm]
      exact (hpre.trans hgrow).length_le
  · obtain ⟨hm, hlead, hpre⟩ := hrep.sound C ev hcard hx hs (hgood s hs) hL
    rw [hm]
    refine ⟨?_, ?_, ?_⟩
    · rw [Log.lastIndex_eq_length (C.shaped ev hF (s + 1)).contiguous]
    · rw [Log.lastIndex_eq_length (C.shaped ev hL.mem (s + 1)).contiguous]
      exact hpre.length_le
    · rw [List.take_length]
      exact List.prefix_iff_eq_take.mp hpre

/-- Node `a` leads term 1, and `b` acknowledges its first command. -/
def acknowledged : List (Event Unit) :=
  elect 1 "a" "b" 0 0 ++ propose "a" [1] ++ flush "a" 4 ++
    deliver (appendRequest 1 "a" "b" 0 0 [⟨1, 1, [1]⟩] 0) ++ flush "b" 1 ++
    deliver (appendResponse 1 "b" "a" true 1)

theorem matchIndex_sound_acknowledged :
    (trio.node (Machine.schedule idle acknowledged) 32 "a").matchIndex.get "b" = 1 ∧
      Log.AgreeUpTo (trio.node (Machine.schedule idle acknowledged) 26 "b").log
        (trio.node (Machine.schedule idle acknowledged) 26 "a").log 1 := by
  have hmatch : (trio.node (Machine.schedule idle acknowledged) 32 "a").matchIndex.get "b" =
      1 := by
    decide +kernel
  have h := trio.matchIndex_sound (Machine.schedule idle acknowledged) (t := 32) (L := "a")
    (F := "b") (T := 1) (by decide +kernel) (by decide +kernel) (by decide) (by decide)
  rw [hmatch] at h
  exact ⟨hmatch, h.2.2 25 (by decide) (appendResponse 1 "b" "a" true 1) (by decide +kernel)
    ⟨rfl, rfl, rfl, rfl, rfl, rfl⟩⟩

/-- Node `a` keeps an entry of term 1 that nobody else has.  The new leader `b`, whose log is
empty, sends it a heartbeat, and `a` answers with the last index of its own log. -/
def staleAck : List (Event Unit) :=
  elect 1 "a" "b" 0 0 ++ propose "a" [1] ++ elect 2 "b" "c" 0 0 ++ flush "b" 2 ++
    deliver (appendRequest 2 "b" "a" 0 0 [] 0) ++ flush "a" 1 ++
    deliver (appendResponse 2 "a" "b" true 1)

/-- The leader has recorded a match beyond the end of its own log. -/
theorem matchIndex_beyond_log :
    trio.LeaderAt (Machine.schedule idle staleAck) 46 "b" 2 ∧ "a" ∈ trio.peers ∧ "a" ≠ "b" ∧
      ¬ (trio.node (Machine.schedule idle staleAck) 46 "b").matchIndex.get "a" ≤
        (trio.node (Machine.schedule idle staleAck) 46 "b").log.lastIndex := by
  decide +kernel

end Cluster

end ToyRaft
