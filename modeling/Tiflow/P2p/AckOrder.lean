import Tiflow.P2p.RoundTrip
import Tiflow.P2p.Tick

/-!
# The acks of a stream never go backwards

A sender drops what the server acknowledged: it reads each response as "everything of this
topic up to this sequence has been processed". That reading is consistent only if a later
response never acknowledges less than an earlier one. `tick` sends the current acks of the
table, and no other step sends an ack, so the acks a stream is sent follow the table: they
never decrease on the runs where the table does not, those where no two handles hold one ack
at once (`Exclusive`).

* `AckLe`, `AckOrdered` — on every stream, a later response acknowledges no less than an
  earlier one for a topic they share, and no ack sent is above the table's current ack for the
  stream's sender;
* `AppendsNoAcks` — what every step but a tick does to the streams: it appends responses
  without acks, errors only;
* `AckOrdered.tick`, `AckOrdered.step`, `ackOrdered_of_reachableWithin` — the step lemmas and
  the run lemma;
* `acks_sent_never_decrease` — the invariant, on every stream of every such run.
-/

namespace Tiflow.P2p

namespace MessageServer

/-- The response `r'` acknowledges no less than `r` for any topic they share. -/
def AckLe (r r' : SendMessageResponse) : Prop :=
  ∀ a ∈ r.Ack, ∀ b ∈ r'.Ack, a.Topic = b.Topic → a.LastSeq ≤ b.LastSeq

/-- **The acks of every stream are in order**, and none is above the table's ack for the
stream's sender. -/
structure AckOrdered (m : MessageServer) : Prop where
  ordered : ∀ s, (m.streams.getD s default).sent.Pairwise AckLe
  bounded : ∀ s, ∀ r ∈ (m.streams.getD s default).sent, ∀ a ∈ r.Ack,
    a.LastSeq ≤ m.ackOf ((m.streams.getD s default).streamMeta.SenderId, a.Topic)

/-- What a step other than a tick does to the streams: each is appended responses without
acks, and a stream that was sent something keeps its meta. -/
def AppendsNoAcks (m m' : MessageServer) : Prop :=
  ∀ s, ∃ rs, (m'.streams.getD s default).sent = (m.streams.getD s default).sent ++ rs ∧
    (∀ r ∈ rs, r.Ack = []) ∧
    ((m.streams.getD s default).sent ≠ [] →
      (m'.streams.getD s default).streamMeta = (m.streams.getD s default).streamMeta)

variable {m m' : MessageServer}

theorem ErrorSends.appendsNoAcks (h : ErrorSends m m') : AppendsNoAcks m m' := fun s =>
  have ⟨rs, hs, hr⟩ := h.sent s
  ⟨rs, hs, hr, fun _ => h.meta s⟩

theorem StreamsKeep.appendsNoAcks (h : StreamsKeep m m') : AppendsNoAcks m m' := fun s =>
  have ⟨rs, hs, he⟩ := (h.2 s).1
  ⟨rs, hs, fun r hr => by obtain ⟨e, -, rfl⟩ := he r hr; exact errorToRPCResponse_ack e,
    fun hs' => (h.2 s).2 (by
      by_contra hge
      exact hs' (by rw [List.getD_eq_default _ _ (Nat.le_of_not_lt hge)]; rfl))⟩

theorem appendsNoAcks_of_streams (h : m'.streams = m.streams) : AppendsNoAcks m m' :=
  fun _ => ⟨[], (by rw [h, List.append_nil]), (fun _ h => nomatch h), fun _ => by rw [h]⟩

/-- A step that appends no ack keeps the acks in order, and keeps them under the table when no
ack of the table decreases. -/
theorem AckOrdered.of_appends (h : m.AckOrdered) (ha : AppendsNoAcks m m')
    (hm : ∀ k, m.ackOf k ≤ m'.ackOf k) : m'.AckOrdered where
  ordered s := by
    obtain ⟨rs, hs, hr, -⟩ := ha s
    rw [hs, List.pairwise_append]
    refine ⟨h.ordered s, List.pairwise_of_forall_mem_list fun r hr' _ _ a ha => ?_,
      fun _ _ r' hr' _ _ b hb => ?_⟩
    · rw [hr r hr'] at ha; cases ha
    · rw [hr r' hr'] at hb; cases hb
  bounded s r hr' a ha' := by
    obtain ⟨rs, hs, hr, hmeta⟩ := ha s
    rw [hs] at hr'
    rcases List.mem_append.1 hr' with hr' | hr'
    · rw [hmeta (List.ne_nil_of_mem hr')]
      exact (h.bounded s r hr' a ha').trans (hm _)
    · rw [hr r hr'] at ha'; cases ha'

/-- The acks `tick` sends a peer are the table's current acks for its ID. -/
theorem ackOf_of_mem_ackList {S : NodeID} {a : Ack} (h : a ∈ m.ackList S) :
    m.ackOf (S, a.Topic) = a.LastSeq := by
  simp only [ackOf, ackGet, (mem_ackList m).1 h, Option.getD_some]

/-- **A tick keeps the acks in order**: on a stream, it appends responses that carry the
table's current acks for the stream's sender, which are at least every ack sent before. -/
theorem AckOrdered.tick (h : m.AckOrdered) (hv : m.PeersValid) (hp : m.PeerStreams)
    (ht : m.tick = .ok m') : m'.AckOrdered := by
  obtain ⟨ss, ht', -, hg⟩ := m.tick_eq fun x hx => (hp _ (hv.entry hx).1).1
  obtain rfl := Except.ok.inj (ht.symm.trans ht')
  have hnew : ∀ s, ∀ r ∈ (m.peers.entries.filter fun x =>
      m.tickSends x && (m.peerAt x.2).sender == s).map fun x =>
        ({ Ack := m.ackList (m.peerAt x.2).PeerID, ExitReason := .ok } : SendMessageResponse),
      ∀ a ∈ r.Ack, a.LastSeq = m.ackOf ((m.streams.getD s default).streamMeta.SenderId, a.Topic) := by
    intro s r hr a ha
    obtain ⟨x, hx, rfl⟩ := List.mem_map.1 hr
    obtain ⟨hx, hs⟩ := List.mem_filter.1 hx
    have hs : (m.peerAt x.2).sender = s := by
      simp only [Bool.and_eq_true, beq_iff_eq] at hs
      exact hs.2
    rw [← hs, (hp _ (hv.entry hx).1).2, ackOf_of_mem_ackList ha]
  refine ⟨fun s => ?_, fun s r hr a ha => ?_⟩
  · show (ss.getD s default).sent.Pairwise AckLe
    rw [hg s, List.pairwise_append]
    refine ⟨h.ordered s, List.pairwise_of_forall_mem_list fun r hr r' hr' a ha b hb hab => ?_,
      fun r hr r' hr' a ha b hb hab => ?_⟩
    · rw [hnew s r hr a ha, hnew s r' hr' b hb, hab]
    · rw [hnew s r' hr' b hb, ← hab]
      exact h.bounded s r hr a ha
  · change r ∈ (ss.getD s default).sent at hr
    show a.LastSeq ≤ m.ackOf ((ss.getD s default).streamMeta.SenderId, a.Topic)
    rw [hg s] at hr ⊢
    rcases List.mem_append.1 hr with hr | hr
    · exact h.bounded s r hr a ha
    · exact (hnew s r hr a ha).le

/-- **The step lemma**: on a run where no two handles hold one ack at once, no step lowers an
ack of the table, a tick sends its current acks, and every other step sends none. -/
theorem AckOrdered.step (h : m.AckOrdered) (hr : ReachableWithin Exclusive m) {l : Label}
    (hs : m.step l = some m') (hx : m'.Exclusive) : m'.AckOrdered := by
  have hm : ∀ k, m.ackOf k ≤ m'.ackOf k := fun k =>
    (AckInv.step (fun k => ackInv_of_reachableWithin hr k) hr.holds hx hs).mono
  have hr' := hr.reachable
  rcases step_cases hs with ⟨hl, -⟩ | ⟨order, task, rest, hq, -, rfl⟩ | rfl | rfl
  · exact h.of_appends (step_callerEffect hl hs).streams.appendsNoAcks hm
  · cases ht : ({ m with taskQueue := rest } : MessageServer).runTask order task with
    | ok m₁ =>
      rw [ht] at hm
      exact h.of_appends (errorSends_runTask (m := { m with taskQueue := rest })
        (fun s hs => (ackSafe_of_reachable hr').queued s
        (by rw [hq, hs]; exact List.mem_cons_self _ _)) ht).appendsNoAcks hm
    | error p =>
      rw [ht] at hm
      exact h.of_appends (appendsNoAcks_of_streams rfl) hm
  · cases ht : m.tick with
    | ok m₁ => exact h.tick (peersValid_of_reachable hr') (ackSafe_of_reachable hr').peers ht
    | error p =>
      rw [ht] at hm
      exact h.of_appends (appendsNoAcks_of_streams rfl) hm
  · exact h.of_appends (appendsNoAcks_of_streams rfl) hm

theorem ackOrdered_init (serverID : NodeID) (config : MessageServerConfig) :
    (newMessageServer serverID config).AckOrdered :=
  ⟨fun _ => List.Pairwise.nil, fun _ _ hr => nomatch hr⟩

theorem ackOrdered_of_reachableWithin (hr : ReachableWithin Exclusive m) : m.AckOrdered := by
  induction hr with
  | init s c _ => exact ackOrdered_init s c
  | step l hr hs hx ih => exact ih.step hr hs hx

end MessageServer

open MessageServer

/-- **The acks of a stream never go backwards**: on the runs where no two handles hold one ack
at once, a response sent on a stream acknowledges, for every topic, no less than any response
sent on it before, and no ack sent is above the server's current ack for the stream's sender
and that topic. -/
theorem acks_sent_never_decrease {m : MessageServer} (hr : ReachableWithin Exclusive m) (s : Nat) :
    (m.streams.getD s default).sent.Pairwise (fun r r' =>
      ∀ a ∈ r.Ack, ∀ b ∈ r'.Ack, a.Topic = b.Topic → a.LastSeq ≤ b.LastSeq) ∧
    ∀ r ∈ (m.streams.getD s default).sent, ∀ a ∈ r.Ack,
      a.LastSeq ≤ m.ackOf ((m.streams.getD s default).streamMeta.SenderId, a.Topic) :=
  ⟨(ackOrdered_of_reachableWithin hr).ordered s, (ackOrdered_of_reachableWithin hr).bounded s⟩

theorem acks_sent_never_decrease_two_ticks :
    let m := ((newMessageServer "s" ⟨4, 4⟩).execWithin Exclusive [.addHandler "t" true,
      .runTask [], .sendMessage (some ⟨"a", "s", 1⟩), .runTask [], .recvPacket 0 [⟨"t", 1, 0⟩],
      .runTask [], .runHandle 0 true, .runHandle 0 true, .runHandle 0 true, .runTick,
      .recvPacket 0 [⟨"t", 2, 0⟩], .runTask [], .runHandle 0 true, .runHandle 0 true,
      .runHandle 0 true, .runTick]).get (by decide)
    (m.streams.getD 0 default).sent.Pairwise (fun r r' =>
      ∀ a ∈ r.Ack, ∀ b ∈ r'.Ack, a.Topic = b.Topic → a.LastSeq ≤ b.LastSeq) ∧
    ∀ r ∈ (m.streams.getD 0 default).sent, ∀ a ∈ r.Ack,
      a.LastSeq ≤ m.ackOf ((m.streams.getD 0 default).streamMeta.SenderId, a.Topic) :=
  acks_sent_never_decrease ((ReachableWithin.init _ _ (by decide)).execWithin
    (Option.some_get _).symm) 0

end Tiflow.P2p
