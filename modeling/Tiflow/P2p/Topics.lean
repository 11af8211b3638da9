import Mathlib.Data.List.Nodup
import Tiflow.P2p.Delivery
import Tiflow.P2p.Pending

/-!
# One handle per topic keeps the acks exclusive

A handle only ever holds entries of its own topic: `handleMessage` hands an entry to the
handler the table gives for the entry's topic, and `registerHandler` puts in the table the handle
that `AddHandler` added for that topic. A handle that has read an ack read the one of the entry it
runs. So two handles hold one ack at once only if they were added for the same topic and both
are live: each is in the middle of an event, or may start one.

* `EventHandle.Topical` — the entries queued on a handle, and the ack it holds, are of its topic;
* `TopicInv` — every handle is topical, and the handler table and the registrations still queued
  point at handles of their topic; one lemma per operation, then `TopicInv.step`;
* `EventHandle.Live`, `DistinctTopics` — no two live handles are of one topic;
* `TopicInv.exclusive`, `reachableWithin_exclusive` — the invariant and distinct topics give
  `Exclusive`, in every state of a run that keeps the topics of the live handles distinct;
* `ack_le_of_distinct_topics` — so on every such run, among them those that remove a handler and
  add one for its topic again once the first is done, no step lowers an ack and the calls of
  `fn` are for consecutive sequences.
-/

namespace Tiflow.P2p

/-- A handle that may still read or write an ack: it is in the middle of an event, or it may
start one, being neither cancelled nor removed from the pool. A handle `GracefulUnregister` gave
up on while `fn` ran stays live until that event is done. -/
def EventHandle.Live (hd : EventHandle) : Prop :=
  hd.phase ≠ .idle ∨ hd.cancelled = false ∧ hd.unregistered = false

instance : DecidablePred EventHandle.Live := fun hd =>
  inferInstanceAs (Decidable (hd.phase ≠ .idle ∨ hd.cancelled = false ∧ hd.unregistered = false))

/-- The entries queued on a handle, and the ack it holds, are of its topic. -/
def EventHandle.Topical (hd : EventHandle) : Prop :=
  (∀ sm e, PoolEvent.args sm e ∈ hd.queue → e.Topic = hd.topic) ∧
    ∀ k, hd.phase.ackKey = some k → k.2 = hd.topic

theorem EventHandle.topical_of_idle {hd : EventHandle} (hq : hd.queue = []) (hp : hd.phase = .idle) :
    hd.Topical :=
  ⟨fun _ _ h => (by rw [hq] at h; cases h), fun _ h => (by rw [hp] at h; cases h)⟩

/-- A handle of the same topic with fewer queued events is topical if the ack it holds is of
that topic. -/
theorem EventHandle.Topical.of_queue {hd₀ hd : EventHandle} (hT : hd₀.Topical)
    (ht : hd.topic = hd₀.topic) (hq : hd.queue ⊆ hd₀.queue)
    (hk : ∀ k, hd.phase.ackKey = some k → k.2 = hd₀.topic) : hd.Topical :=
  ⟨fun sm e hm => ht ▸ hT.1 sm e (hq hm), fun k h => ht ▸ hk k h⟩

namespace MessageServer

/-- **The invariant of topics**: every handle of the pool is topical, and the handler table and
the registrations still queued point at handles of the pool added for their topic. -/
structure TopicInv (m : MessageServer) : Prop where
  handles : ∀ hd ∈ m.pool, hd.Topical
  handlers : ∀ t h, m.handlers.lookup t = some h → h < m.pool.length ∧ (m.handleAt h).topic = t
  tasks : ∀ t h, ServerTask.onRegisterHandler t h ∈ m.taskQueue →
    h < m.pool.length ∧ (m.handleAt h).topic = t

variable {m m' : MessageServer}

theorem topicInv_init (serverID : NodeID) (config : MessageServerConfig) :
    (newMessageServer serverID config).TopicInv :=
  ⟨by simp [newMessageServer], by simp [newMessageServer], by simp [newMessageServer]⟩

theorem TopicInv.topical (hi : m.TopicInv) (i : Nat) : (m.handleAt i).Topical := by
  unfold handleAt
  by_cases h : i < m.pool.length
  · rw [List.getD_eq_getElem _ _ h]; exact hi.handles _ (List.getElem_mem h)
  · rw [List.getD_eq_default _ _ (Nat.le_of_not_lt h)]; exact EventHandle.topical_of_idle rfl rfl

/-- A state with the pool and the handler table of `m`, and its queue followed by tasks that
register handles of their topic. -/
theorem TopicInv.append (hi : m.TopicInv) {tasks : List ServerTask} (hp : m'.pool = m.pool)
    (hh : m'.handlers = m.handlers) (hq : m'.taskQueue = m.taskQueue ++ tasks)
    (ht : ∀ t h, ServerTask.onRegisterHandler t h ∈ tasks →
      h < m.pool.length ∧ (m.handleAt h).topic = t) : m'.TopicInv := by
  have ha : ∀ i, m'.handleAt i = m.handleAt i := fun i => by simp only [handleAt, hp]
  refine ⟨hp ▸ hi.handles, fun t h hl => ?_, fun t h hm => ?_⟩
  · rw [hp, ha]; exact hi.handlers t h (hh ▸ hl)
  · rw [hp, ha]
    rcases List.mem_append.1 (hq ▸ hm) with hm | hm
    · exact hi.tasks t h hm
    · exact ht t h hm

/-- A state with the pool, the handler table and the queue of `m`. -/
theorem TopicInv.congr (hi : m.TopicInv) (hp : m'.pool = m.pool) (hh : m'.handlers = m.handlers)
    (ht : m'.taskQueue = m.taskQueue) : m'.TopicInv :=
  hi.append hp hh (by rw [ht, List.append_nil]) fun _ _ h => absurd h (List.not_mem_nil _)

/-- Replacing a handle by a topical one of the same topic. -/
theorem TopicInv.setHandle (hi : m.TopicInv) {h : Nat} {hd : EventHandle}
    (ht : hd.topic = (m.handleAt h).topic) (hT : hd.Topical) : (m.setHandle h hd).TopicInv := by
  have htopic : ∀ i, ((m.setHandle h hd).handleAt i).topic = (m.handleAt i).topic := fun i => by
    rw [handleAt_setHandle]
    split
    · rename_i hi'; rw [ht, hi'.1]
    · rfl
  have hlen : (m.setHandle h hd).pool.length = m.pool.length := List.length_set _ _ _
  refine ⟨fun x hx => ?_, fun t i hl => ?_, fun t i hm => ?_⟩
  · rcases List.mem_or_eq_of_mem_set hx with hx | rfl
    · exact hi.handles x hx
    · exact hT
  · rw [hlen, htopic]; exact hi.handlers t i hl
  · rw [hlen, htopic]; exact hi.tasks t i hm

/-! ### The task loop -/

/-- `AddEvent` of an event of the handle's topic. -/
theorem TopicInv.addEvent {h : Nat} {ev : PoolEvent} (ha : m.addEvent h ev = .ok m') (hi : m.TopicInv)
    (hev : ∀ sm e, ev = .args sm e → e.Topic = (m.handleAt h).topic) : m'.TopicInv := by
  simp only [MessageServer.addEvent] at ha
  split at ha
  · cases ha
  · cases ha
    refine TopicInv.setHandle (m := m) hi rfl ⟨fun sm e hm => ?_, (hi.topical h).2⟩
    rcases List.mem_append.1 hm with hm | hm
    · exact (hi.topical h).1 sm e hm
    · exact hev sm e (List.mem_singleton.1 hm).symm

theorem TopicInv.deregisterPeer {p : Nat} {err : Option PeerError}
    (hd : m.deregisterPeer p err = .ok m') (hi : m.TopicInv) : m'.TopicInv := by
  rcases deregisterPeer_ok hd with ⟨-, rfl⟩ | ⟨-, e, ss, -, rfl⟩ <;> exact hi.congr rfl rfl rfl

/-- `handleMessage` hands an entry only to the handler of its topic. -/
theorem TopicInv.handleMessage {sm : StreamMeta} {e : MessageEntry} (h : m.handleMessage sm e = .ok m')
    (hi : m.TopicInv) : m'.TopicInv := by
  rcases handleMessage_ok h with ⟨rfl, -⟩ | ⟨p, -, -, -, ⟨-, -, rfl⟩ | ⟨-, -, hd⟩ | ⟨hdl, hl, ha | ⟨err, -, hd⟩⟩⟩
  · exact hi.congr rfl rfl rfl
  · exact hi.congr rfl rfl rfl
  · rw [logOverflow_eq] at hd
    exact TopicInv.deregisterPeer hd (hi.congr rfl rfl rfl)
  · exact TopicInv.addEvent ha (hi.congr rfl rfl rfl) fun _ _ he => by
      cases he; exact ((hi.handlers _ _ hl).2).symm
  · exact TopicInv.deregisterPeer hd (hi.congr rfl rfl rfl)

theorem TopicInv.handleRawMessage (hi : m.TopicInv) (e : RawMessageEntry) :
    (m.handleRawMessage e).TopicInv := by
  simp only [MessageServer.handleRawMessage]
  split
  · split
    · rw [logOverflow_eq]; exact hi.congr rfl rfl rfl
    · exact hi.congr rfl rfl rfl
  · split
    · rename_i ha
      exact TopicInv.addEvent ha (hi.congr rfl rfl rfl) fun _ _ he => by cases he
    · exact hi.congr rfl rfl rfl

theorem TopicInv.handlePendingEntry {x : PendingMessageEntry} (h : m.handlePendingEntry x = .ok m')
    (hi : m.TopicInv) : m'.TopicInv := by
  cases x with
  | remote sm e => exact TopicInv.handleMessage h hi
  | raw e => cases h; exact hi.handleRawMessage e

theorem TopicInv.handlePendingMessages {t : Topic} {order : List TopicSenderPair}
    (h : m.handlePendingMessages t order = .ok m') (hi : m.TopicInv) : m'.TopicInv := by
  refine foldlM_inv TopicInv (fun k _ u u' hu hd => ?_) hi h
  unfold MessageServer.drainKey at hd
  split at hd
  · cases hd; exact hu
  · split at hd
    · rename_i hf
      cases hd
      exact (foldlM_inv TopicInv (fun _ _ _ _ hv hp => TopicInv.handlePendingEntry hp hv) hu hf).congr
        rfl rfl rfl
    · cases hd

/-- `registerHandler` of a handle added for its topic. -/
theorem TopicInv.registerHandler {t : Topic} {h : Nat} {order : List TopicSenderPair}
    (hr : m.registerHandler t h order = .ok m') (hi : m.TopicInv)
    (hh : h < m.pool.length ∧ (m.handleAt h).topic = t) : m'.TopicInv := by
  unfold MessageServer.registerHandler at hr
  split at hr
  · cases hr
  · refine TopicInv.handlePendingMessages hr ⟨hi.handles, ?_, hi.tasks⟩
    exact forall_lookup_insert (P := fun t h => h < m.pool.length ∧ (m.handleAt h).topic = t)
      hi.handlers hh

theorem TopicInv.onDeregisterHandler (hi : m.TopicInv) (t : Topic) :
    (m.onDeregisterHandler t).TopicInv := by
  unfold MessageServer.onDeregisterHandler
  split
  · rename_i h _
    have hs : (m.setHandle h { m.handleAt h with unregistering := true }).TopicInv :=
      hi.setHandle rfl ⟨(hi.topical h).1, (hi.topical h).2⟩
    exact ⟨hs.handles, forall_lookup_erase hs.handlers, hs.tasks⟩
  · exact hi

theorem TopicInv.registerPeer {s : Nat} {r : MessageServer × Option PeerError}
    (hr : m.registerPeer s = .ok r) (hi : m.TopicInv) : r.1.TopicInv := by
  rcases registerPeer_ok hr with ⟨-, -, rfl⟩ | ⟨-, -, rfl⟩ | ⟨_, -, -, rfl⟩ |
    ⟨_, _, -, -, hd, rfl⟩ | ⟨_, -, -, rfl⟩
  · exact hi.congr rfl rfl rfl
  · exact hi
  · exact hi
  · exact (TopicInv.deregisterPeer hd hi).congr rfl rfl rfl
  · exact hi

theorem TopicInv.onRegisterPeer {s : Nat} (h : m.onRegisterPeer s = .ok m') (hi : m.TopicInv) :
    m'.TopicInv := by
  obtain ⟨r, hreg, ⟨ss, rfl⟩ | ⟨err, rfl⟩⟩ := onRegisterPeer_ok h <;>
    exact (TopicInv.registerPeer hreg hi).congr rfl rfl rfl

theorem TopicInv.tick (ht : m.tick = .ok m') (hi : m.TopicInv) : m'.TopicInv := by
  unfold MessageServer.tick at ht
  obtain ⟨ss, hss⟩ := foldl_tickPeer_fst (m := m) m.peers.entries []
  refine foldlM_inv TopicInv (fun _ _ _ _ hu hd => TopicInv.deregisterPeer hd hu) ?_ ht
  rw [hss]; exact hi.congr rfl rfl rfl

/-- One entry of a batch from a stream. -/
theorem TopicInv.dispatch {sm : StreamMeta} {e : MessageEntry} (hi : m.TopicInv)
    (hm : (m.logDispatched ⟨e.Topic, sm.SenderId⟩).handleMessage sm { e with tag := m.ghost.nextTag } =
      .ok m') : m'.TopicInv :=
  TopicInv.handleMessage hm (hi.congr rfl rfl rfl)

/-- One entry of a batch from the local channel. -/
theorem TopicInv.dispatchRaw {e : RawMessageEntry} (hi : m.TopicInv) :
    ((m.logDispatched ⟨e.topic, m.serverID⟩).handleRawMessage { e with tag := m.ghost.nextTag }).TopicInv :=
  have h₁ : (m.logDispatched ⟨e.topic, m.serverID⟩).TopicInv := hi.congr rfl rfl rfl
  h₁.handleRawMessage _

/-- **A task keeps the invariant**, given that a registration it makes is of a handle of its
topic. -/
theorem TopicInv.runTask {order : List TopicSenderPair} {task : ServerTask}
    (hr : m.runTask order task = .ok m') (hi : m.TopicInv)
    (ht : ∀ t h, task = .onRegisterHandler t h → h < m.pool.length ∧ (m.handleAt h).topic = t) :
    m'.TopicInv := by
  cases task with
  | onMessageBatch sm es =>
    simp only [MessageServer.runTask, handleMessageBatch] at hr
    exact foldlM_inv TopicInv (fun _ _ _ _ hu he => hu.dispatch he) hi hr
  | onRawMessageBatch es =>
    cases hr
    clear ht
    induction es generalizing m with
    | nil => exact hi
    | cons e es ih => exact ih hi.dispatchRaw
  | onRegisterPeer s => exact TopicInv.onRegisterPeer hr hi
  | onDeregisterPeer id =>
    simp only [MessageServer.runTask, deregisterPeerByID] at hr
    split at hr
    · cases hr; exact hi
    · exact TopicInv.deregisterPeer hr hi
  | onRegisterHandler t h => exact TopicInv.registerHandler hr hi (ht t h rfl)
  | onDeregisterHandler t => cases hr; exact hi.onDeregisterHandler t
  | debugDelay => cases hr; exact hi

/-! ### The other steps -/

/-- A step of a handle: it keeps or drops the head of its queue, or moves to the next phase of
the entry at the head. -/
theorem TopicInv.runHandle (hi : m.TopicInv) {h : Nat} {ok : Bool} (hs : m.runHandle h ok = some m') :
    m'.TopicInv := by
  have hT := hi.topical h
  obtain ⟨-, hd, hc, ht, hq, -⟩ := runHandle_cases hs
  replace hq := hq.subset
  have hidle : hd.phase = .idle → hd.Topical := fun hp =>
    hT.of_queue ht hq fun _ hk => by rw [hp] at hk; cases hk
  rcases hc with ⟨rfl, hp, -⟩ | ⟨sm, e, rfl, -, hm, -, hp⟩ | ⟨sm, e, rfl, hdec, hp⟩ | ⟨sm, e, rfl, -, hp⟩
  · exact hi.setHandle ht (hidle hp)
  · -- `acks.Get` on an event it had queued
    exact hi.setHandle ht (hT.of_queue ht hq fun k hk => by rw [hp] at hk; cases hk; exact hT.1 sm e hm)
  · -- the call of `fn`, for the ack it read
    have h₁ : (m.setHandle h hd).TopicInv := hi.setHandle ht (hT.of_queue ht hq fun k hk => by
      rw [hp] at hk; cases hk; exact hT.2 _ (by rw [hdec]; rfl))
    exact h₁.congr rfl rfl rfl
  · have h₁ : (m.ackSet sm.SenderId e.Topic e.Sequence).TopicInv := hi.congr rfl rfl rfl
    exact h₁.setHandle ht (hidle hp)

/-- `AddHandler`'s new handle, idle and with nothing queued, of the topic it was added for. -/
theorem TopicInv.addHandle (hi : m.TopicInv) (t : Topic) :
    ({ m with pool := m.pool ++ [{ topic := t }] } : MessageServer).TopicInv := by
  have htopic : ∀ i < m.pool.length,
      (({ m with pool := m.pool ++ [{ topic := t }] } : MessageServer).handleAt i).topic =
        (m.handleAt i).topic := fun i hi' => by
    simp only [handleAt, List.getD_append _ _ _ _ hi']
  refine ⟨fun x hx => ?_, fun t' h hl => ?_, fun t' h hm => ?_⟩
  · rcases List.mem_append.1 hx with hx | hx
    · exact hi.handles x hx
    · rw [List.mem_singleton.1 hx]; exact EventHandle.topical_of_idle rfl rfl
  · obtain ⟨hlt, ht⟩ := hi.handlers t' h hl
    exact ⟨by simp only [List.length_append]; omega, by rw [htopic h hlt, ht]⟩
  · obtain ⟨hlt, ht⟩ := hi.tasks t' h hm
    exact ⟨by simp only [List.length_append]; omega, by rw [htopic h hlt, ht]⟩

/-- A step of a caller of the API, a stream goroutine or the worker pool's callbacks: the only
registration it queues is the one of the handle `AddHandler` added, and a handle it replaces
keeps its topic and phase and drops queued events. -/
theorem TopicInv.caller (hi : m.TopicInv) {l : Label} (hl : l.isLoop = false)
    (hr : ∀ h ok, l ≠ .runHandle h ok) (hs : m.step l = some m') : m'.TopicInv := by
  rcases caller_cases hl hr hs with
    ⟨t, tasks, ht, rfl⟩ | ⟨pl, ss, tasks, ⟨ht, -⟩, rfl | ⟨h, hd, rfl, htopic, hp, hq⟩, rfl⟩
  · refine (hi.addHandle t).append rfl rfl rfl fun t' h hm => ?_
    cases List.mem_singleton.1 (ht hm)
    exact ⟨by simp, by simp [handleAt, List.getD_eq_getElem]⟩
  · exact hi.append rfl rfl rfl fun t h hm => absurd hm (ht t h)
  · have hT := (hi.topical h).of_queue htopic hq fun k hk => (hi.topical h).2 k (hp ▸ hk)
    exact (hi.setHandle htopic hT).append rfl rfl rfl fun t h hm => absurd hm (ht t h)

/-- **Every step keeps the invariant of topics.** -/
theorem TopicInv.step (hi : m.TopicInv) {l : Label} (hs : m.step l = some m') : m'.TopicInv := by
  cases hloop : l.isLoop with
  | true =>
    rcases step_cases hs with ⟨hl', -⟩ | ⟨order, task, rest, hq, -, rfl⟩ | rfl | rfl
    · rw [hloop] at hl'; cases hl'
    · -- `run` dequeues a task; a registration comes from `AddHandler`
      have h₀ : ({ m with taskQueue := rest } : MessageServer).TopicInv :=
        ⟨hi.handles, hi.handlers, fun t h hm => hi.tasks t h (by rw [hq]; exact .tail _ hm)⟩
      unfold settle
      split
      · exact TopicInv.runTask ‹_› h₀ fun t h he => hi.tasks t h (by rw [hq, he]; exact .head _)
      · exact h₀.congr rfl rfl rfl
    · unfold settle
      split
      · exact TopicInv.tick ‹_› hi
      · exact hi.congr rfl rfl rfl
    · exact hi.congr rfl rfl rfl
  | false =>
    by_cases hr : ∃ h ok, l = .runHandle h ok
    · obtain ⟨h, ok, rfl⟩ := hr
      exact hi.runHandle (step_runHandle hs)
    · push_neg at hr
      exact hi.caller hloop hr hs

/-- No two live handles of the pool are of one topic. `AddHandler` appends a handle of its topic
and nothing else changes the topic of a handle, so a run keeps this as long as `AddHandler` is
never called for a topic whose earlier handle is still live: not yet cancelled nor removed from
the pool by `GracefulUnregister`, or still inside the event it was in when the pool gave up on
it. -/
def DistinctTopics (m : MessageServer) : Prop :=
  ∀ i < m.pool.length, ∀ j < m.pool.length, (m.handleAt i).Live → (m.handleAt j).Live →
    (m.handleAt i).topic = (m.handleAt j).topic → i = j

instance : DecidablePred DistinctTopics := fun m =>
  inferInstanceAs (Decidable (∀ i < m.pool.length, ∀ j < m.pool.length, (m.handleAt i).Live →
    (m.handleAt j).Live → (m.handleAt i).topic = (m.handleAt j).topic → i = j))

/-- **Live handles of distinct topics never hold one ack at once**: a handle that holds an ack is
in the middle of an event, and the ack is of its topic. -/
theorem TopicInv.exclusive (hi : m.TopicInv) (hd : m.DistinctTopics) : m.Exclusive := by
  intro i hi' j hj hsome heq
  obtain ⟨k, hk⟩ := Option.isSome_iff_exists.1 hsome
  have live : ∀ x, (m.handleAt x).phase.ackKey = some k → (m.handleAt x).Live := fun x hx =>
    .inl fun hp => by rw [hp] at hx; cases hx
  exact hd i hi' j hj (live i hk) (live j (heq ▸ hk))
    (((hi.topical i).2 k hk).symm.trans ((hi.topical j).2 k (heq ▸ hk)))

end MessageServer

open MessageServer

/-- Along a run that keeps the topics of the live handles distinct, the invariant of topics holds,
and so does `Exclusive`. -/
theorem reachableWithin_exclusive {m : MessageServer} (hr : ReachableWithin DistinctTopics m) :
    m.TopicInv ∧ ReachableWithin Exclusive m := by
  induction hr with
  | init s c hd => exact ⟨topicInv_init s c, .init s c ((topicInv_init s c).exclusive hd)⟩
  | step l _ hs hd ih =>
    have hi := ih.1.step hs
    exact ⟨hi, ih.2.step l hs (hi.exclusive hd)⟩

/-- **When no topic ever has two live handles, the acks behave**: on every run that keeps the
topics of the live handles distinct, no step lowers an ack, and the calls of `fn` that returned
nil, which a step only extends, are for consecutive sequences. Such runs may remove a topic's
handler and add one again, once the first handle has left the pool and finished its event. -/
theorem ack_le_of_distinct_topics {m m' : MessageServer} {l : Label}
    (hr : ReachableWithin DistinctTopics m) (hs : m.step l = some m') (hd : m'.DistinctTopics)
    (k : NodeID × Topic) :
    m.ackOf k ≤ m'.ackOf k ∧ m.deliveredOf k <+: m'.deliveredOf k ∧
      (m'.deliveredOf k).Chain' fun a b => b = a + 1 := by
  obtain ⟨hi, hx⟩ := reachableWithin_exclusive hr
  have h := AckInv.step (k := k) (ackInv_of_reachableWithin hx) hx.holds
    ((hi.step hs).exclusive hd) hs
  exact ⟨h.mono, h.grows, h.inv.chain⟩

/-- The handler of `t` is removed once it has acknowledged `1`, and added again; the new handle
takes `2`. -/
theorem ack_le_of_distinct_topics_readded :
    let m := ((newMessageServer "s" ⟨4, 4⟩).execWithin DistinctTopics [.addHandler "t" true,
      .runTask [], .sendMessage (some ⟨"a", "s", 1⟩), .runTask [], .recvPacket 0 [⟨"t", 1, 0⟩],
      .runTask [], .runHandle 0 true, .runHandle 0 true, .runHandle 0 true,
      .removeHandler "t" true, .runTask [], .finishUnregister 0, .addHandler "t" true, .runTask [],
      .recvPacket 0 [⟨"t", 2, 0⟩], .runTask [], .runHandle 1 true]).get (by decide)
    let m' := (m.step (.runHandle 1 true)).get (by decide)
    m.ackOf ("a", "t") ≤ m'.ackOf ("a", "t") ∧ m.deliveredOf ("a", "t") <+: m'.deliveredOf ("a", "t") ∧
      (m'.deliveredOf ("a", "t")).Chain' fun a b => b = a + 1 :=
  ack_le_of_distinct_topics ((ReachableWithin.init _ _ (by decide)).execWithin (Option.some_get _).symm)
    (Option.some_get _).symm (by decide) _

end Tiflow.P2p
