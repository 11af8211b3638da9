import Tiflow.P2p.Callers
import Tiflow.P2p.PeerRegistry

/-!
# The server acknowledges only what its handlers processed

`tick` sends each registered peer the acks of its ID, and the sender drops what was
acknowledged: an ack for a message whose handler never returned nil would lose that message. The
handler writes an ack (`acks.Set`) only after `fn` returned nil on the message; the task loop
sends on a stream only the acks of the peer created for that stream, and, outside `tick`, only
errors, which carry no ack. None of this needs the handles to keep off each other's acks.

* `PeerStreams` — every peer object was created for a stream of the server whose sender is the
  peer's ID;
* `SentDelivered` — every ack a stream was sent is one on which `fn` returned nil, for a message
  of that stream's sender;
* `ErrorSends` — what the task loop, outside `tick`, does to the streams and the peer objects: it
  appends responses without acks and keeps each peer with its stream;
* `AckSafe`, `ackSafe_of_reachable` — the invariant, and that every reachable state keeps it;
* `acks_sent_delivered` — on every run, the server acknowledges to a sender only sequences on
  which `fn` returned nil for that sender.
-/

namespace Tiflow.P2p

namespace MessageServer

variable (m : MessageServer)

/-- Every peer object was created for a stream of the server whose sender is the peer's ID. -/
def PeerStreams : Prop :=
  ∀ p < m.peerObjs.length, (m.peerAt p).sender < m.streams.length ∧
    (m.streams.getD (m.peerAt p).sender default).streamMeta.SenderId = (m.peerAt p).PeerID

/-- Every ack a stream was sent is one on which `fn` returned nil, for that stream's sender. -/
def SentDelivered : Prop :=
  ∀ s, ∀ r ∈ (m.streams.getD s default).sent, ∀ a ∈ r.Ack,
    ((m.streams.getD s default).streamMeta.SenderId, a.Topic, a.LastSeq) ∈ m.ghost.delivered

/-- **The invariant of the acks**: a stored ack, and the ack a handle is about to store, are of
calls of `fn` that returned nil; a queued registration of a peer is for a stream that exists;
peers keep their streams; and the acks sent were delivered. -/
structure AckSafe : Prop where
  acked : ∀ k v, m.acks.lookup k = some v → (k.1, k.2, v) ∈ m.ghost.delivered
  called : ∀ i sm e, (m.handleAt i).phase = .called sm e →
    (sm.SenderId, e.Topic, e.Sequence) ∈ m.ghost.delivered
  queued : ∀ s, ServerTask.onRegisterPeer s ∈ m.taskQueue → s < m.streams.length
  peers : m.PeerStreams
  sent : m.SentDelivered

variable {m} {m' : MessageServer}

theorem PeerStreams.of_streams (h : m.PeerStreams) (hl : m.streams.length ≤ m'.streams.length)
    (hm : ∀ s < m.streams.length,
      (m'.streams.getD s default).streamMeta = (m.streams.getD s default).streamMeta)
    (hp : ∀ p, (m'.peerAt p).PeerID = (m.peerAt p).PeerID ∧ (m'.peerAt p).sender = (m.peerAt p).sender)
    (hn : m'.peerObjs.length = m.peerObjs.length) : m'.PeerStreams := by
  intro p hp'
  rw [hn] at hp'
  obtain ⟨hs, hid⟩ := h p hp'
  rw [(hp p).1, (hp p).2]
  exact ⟨lt_of_lt_of_le hs hl, by rw [hm _ hs]; exact hid⟩

/-! ### Sends -/

/-- `send` appends its response to the stream it is given, which exists. -/
theorem send_eq {s : Nat} {r : SendMessageResponse} (h : m.send s r = .ok m') :
    s < m.streams.length ∧ m' = { m with streams := (m.streams.set s
      { (m.streams.getD s default) with sent := (m.streams.getD s default).sent ++ [r] }) } := by
  unfold send at h
  split at h
  · rename_i sh hsh
    split at h
    · cases h
    · cases h
      obtain ⟨hs, rfl⟩ := List.getElem?_eq_some_iff.1 hsh
      rw [List.getD_eq_getElem _ _ hs]
      exact ⟨hs, rfl⟩
  · cases h

theorem getD_send {s : Nat} {r : SendMessageResponse} (h : m.send s r = .ok m') (i : Nat) :
    m'.streams.getD i default = if s = i then { (m.streams.getD s default) with
      sent := (m.streams.getD s default).sent ++ [r] } else m.streams.getD i default := by
  obtain ⟨hs, rfl⟩ := send_eq h
  rw [getD_set]
  simp only [hs, and_true]

theorem streamMeta_send {s : Nat} {r : SendMessageResponse} (h : m.send s r = .ok m') (i : Nat) :
    (m'.streams.getD i default).streamMeta = (m.streams.getD i default).streamMeta := by
  rw [getD_send h]; split
  · subst i; rfl
  · rfl

theorem sent_send {s : Nat} {r : SendMessageResponse} (h : m.send s r = .ok m') (i : Nat) :
    (m'.streams.getD i default).sent =
      (m.streams.getD i default).sent ++ if s = i then [r] else [] := by
  rw [getD_send h]; split
  · subst i; rfl
  · rw [List.append_nil]

theorem length_send {s : Nat} {r : SendMessageResponse} (h : m.send s r = .ok m') :
    m'.streams.length = m.streams.length := by
  rw [(send_eq h).2, List.length_set]

/-- A send keeps the acks sent delivered when the acks it sends are. -/
theorem SentDelivered.send (hd : m.SentDelivered) {s : Nat} {r : SendMessageResponse}
    (h : m.send s r = .ok m') (hr : ∀ a ∈ r.Ack,
      ((m.streams.getD s default).streamMeta.SenderId, a.Topic, a.LastSeq) ∈ m.ghost.delivered) :
    m'.SentDelivered := by
  have hg : m'.ghost = m.ghost := by obtain ⟨_, rfl⟩ := send_ok h; rfl
  intro i r' hr' a ha
  rw [sent_send h] at hr'
  rw [streamMeta_send h, hg]
  rcases List.mem_append.1 hr' with hr' | hr'
  · exact hd i r' hr' a ha
  · by_cases hsi : s = i
    · subst hsi
      rw [if_pos rfl, List.mem_singleton] at hr'
      subst hr'
      exact hr a ha
    · rw [if_neg hsi] at hr'; cases hr'

/-! ### The task loop outside `tick` -/

/-- What the task loop, outside `tick`, does to the streams and the peer objects: it appends
responses without acks to the streams, and keeps each peer with its stream. -/
structure ErrorSends (m m' : MessageServer) : Prop where
  length : m'.streams.length = m.streams.length
  meta : ∀ s, (m'.streams.getD s default).streamMeta = (m.streams.getD s default).streamMeta
  sent : ∀ s, ∃ rs, (m'.streams.getD s default).sent = (m.streams.getD s default).sent ++ rs ∧
    ∀ r ∈ rs, r.Ack = []
  peers : m.PeerStreams → m'.PeerStreams

/-- A state with the streams of `m` that keeps each peer with its stream. -/
theorem ErrorSends.of_streams_eq (hs : m'.streams = m.streams) (hp : m.PeerStreams → m'.PeerStreams) :
    ErrorSends m m' :=
  ⟨by rw [hs], fun _ => by rw [hs], fun _ => ⟨[], by rw [hs, List.append_nil], fun _ h => nomatch h⟩, hp⟩

theorem ErrorSends.refl (m : MessageServer) : ErrorSends m m := .of_streams_eq rfl id

theorem ErrorSends.trans {m₁ m₂ m₃ : MessageServer} (a : ErrorSends m₁ m₂) (b : ErrorSends m₂ m₃) :
    ErrorSends m₁ m₃ where
  length := b.length.trans a.length
  meta s := (b.meta s).trans (a.meta s)
  sent s := by
    obtain ⟨rs, h, hr⟩ := a.sent s
    obtain ⟨rs', h', hr'⟩ := b.sent s
    exact ⟨rs ++ rs', by rw [h', h, List.append_assoc],
      fun r hm => (List.mem_append.1 hm).elim (hr r) (hr' r)⟩
  peers h := b.peers (a.peers h)

/-- A state with the streams and the peer objects of `m`. -/
theorem ErrorSends.of_eq (hs : m'.streams = m.streams) (hp : m'.peerObjs = m.peerObjs) :
    ErrorSends m m' :=
  .of_streams_eq hs fun h => h.of_streams (by rw [hs]) (fun _ _ => by rw [hs])
    (fun _ => by unfold peerAt; rw [hp]; exact ⟨rfl, rfl⟩) (by rw [hp])

theorem errorSends_send {s : Nat} {r : SendMessageResponse} (hr : r.Ack = [])
    (h : m.send s r = .ok m') : ErrorSends m m' := by
  have hp : m'.peerObjs = m.peerObjs := by obtain ⟨_, rfl⟩ := send_ok h; rfl
  refine ⟨length_send h, streamMeta_send h, fun i => ⟨_, sent_send h i, ?_⟩,
    fun h' => h'.of_streams (length_send h).ge (fun i _ => streamMeta_send h i)
      (fun _ => by unfold peerAt; rw [hp]; exact ⟨rfl, rfl⟩) (by rw [hp])⟩
  split <;> simp [hr]

theorem errorSends_sendIgnoringError {s : Nat} {r : SendMessageResponse} (hr : r.Ack = []) :
    ErrorSends m (m.sendIgnoringError s r) := by
  unfold sendIgnoringError
  split
  · exact errorSends_send hr ‹_›
  · exact .refl m

theorem errorSends_abort {p : Nat} {e : PeerError} (h : m.abort p e = .ok m') : ErrorSends m m' := by
  simp only [abort] at h
  split at h
  · cases h
  · cases h
    have h₁ := errorSends_sendIgnoringError (m := m) (s := (m.peerAt p).sender)
      (errorToRPCResponse_ack e)
    obtain ⟨ss, hss⟩ := sendIgnoringError_eq (m := m) (m.peerAt p).sender (errorToRPCResponse e)
    rw [hss] at h₁ ⊢
    refine h₁.trans (.of_streams_eq rfl
      fun hp => hp.of_streams le_rfl (fun _ _ => rfl) (fun q => ?_) (List.length_set ..))
    unfold peerAt
    rw [getD_set]
    split
    · obtain ⟨rfl, -⟩ := ‹_ ∧ _›; exact ⟨rfl, rfl⟩
    · exact ⟨rfl, rfl⟩

theorem errorSends_deregisterPeer {p : Nat} {err : Option PeerError}
    (h : m.deregisterPeer p err = .ok m') : ErrorSends m m' := by
  unfold deregisterPeer at h
  cases err with
  | none => cases h; exact .of_eq rfl rfl
  | some e => refine ErrorSends.trans ?_ (errorSends_abort h); exact .of_eq rfl rfl

theorem errorSends_handleMessage {sm : StreamMeta} {e : MessageEntry}
    (h : m.handleMessage sm e = .ok m') : ErrorSends m m' := by
  rcases handleMessage_ok h with
    ⟨rfl, -⟩ | ⟨p, -, -, -, ⟨-, -, rfl⟩ | ⟨-, -, hd⟩ | ⟨hdl, hl, ha | ⟨err, -, hd⟩⟩⟩
  · exact .of_eq rfl rfl
  · exact .of_eq rfl rfl
  · rw [logOverflow_eq] at hd
    refine ErrorSends.trans ?_ (errorSends_deregisterPeer hd); exact .of_eq rfl rfl
  · obtain ⟨pl, rfl⟩ := addEvent_ok ha; exact .of_eq rfl rfl
  · refine ErrorSends.trans ?_ (errorSends_deregisterPeer hd); exact .of_eq rfl rfl

theorem errorSends_handleRawMessage (e : RawMessageEntry) : ErrorSends m (m.handleRawMessage e) := by
  obtain ⟨_, _, _, h⟩ := handleRawMessage_frame (m := m) e
  rw [h]; exact .of_eq rfl rfl

theorem errorSends_handlePendingMessages {t : Topic} {order : List TopicSenderPair}
    (h : m.handlePendingMessages t order = .ok m') : ErrorSends m m' := by
  refine foldlM_inv (ErrorSends m) (fun k _ t₁ t₂ h₁ hk => h₁.trans ?_) (.refl m) h
  unfold drainKey at hk
  split at hk
  · cases hk; exact .refl _
  · split at hk
    · rename_i hf
      cases hk
      refine ErrorSends.trans (foldlM_inv (ErrorSends t₁) (fun pe _ _ _ hu he => hu.trans ?_)
        (.refl _) hf) (.of_eq rfl rfl)
      cases pe with
      | remote sm e => exact errorSends_handleMessage he
      | raw e => cases he; exact errorSends_handleRawMessage e
    · cases hk

/-- `registerPeer` creates the peer of a stream that exists for that stream. -/
theorem errorSends_installPeer {sm : StreamMeta} {s : Nat} (hs : s < m.streams.length)
    (hsm : (m.streams.getD s default).streamMeta.SenderId = sm.SenderId) :
    ErrorSends m (m.installPeer sm s) := by
  refine .of_streams_eq rfl fun h p hp => ?_
  simp only [installPeer, List.length_append, List.length_singleton] at hp
  unfold peerAt
  simp only [installPeer]
  rcases Nat.lt_or_ge p m.peerObjs.length with hlt | hge
  · rw [List.getD_append _ _ _ _ hlt]; exact h p hlt
  · obtain rfl : p = m.peerObjs.length := by omega
    rw [List.getD_eq_getElem _ _ hs] at hsm
    simp [List.getD_append_right, newCDCPeer, hs, hsm]

theorem errorSends_registerPeer {s : Nat} {r : MessageServer × Option PeerError}
    (hs : s < m.streams.length) (hr : m.registerPeer s = .ok r) : ErrorSends m r.1 := by
  rcases registerPeer_ok hr with ⟨-, -, rfl⟩ | ⟨-, -, rfl⟩ | ⟨_, -, -, rfl⟩ |
    ⟨_, _, -, -, hd, rfl⟩ | ⟨_, -, -, rfl⟩
  · exact errorSends_installPeer hs rfl
  · exact .refl _
  · exact .refl _
  · have h₁ := errorSends_deregisterPeer hd
    exact h₁.trans (errorSends_installPeer (by rw [h₁.length]; exact hs) (by rw [h₁.meta]))
  · exact .refl _

theorem errorSends_onRegisterPeer {s : Nat} (hs : s < m.streams.length)
    (h : m.onRegisterPeer s = .ok m') : ErrorSends m m' := by
  unfold onRegisterPeer at h
  split at h
  · cases h
  · rename_i hr; cases h; exact errorSends_registerPeer hs hr
  · rename_i hr
    have h₁ := errorSends_registerPeer hs hr
    split at h
    · split at h
      · rename_i hsend
        cases h; exact h₁.trans (errorSends_send (errorToRPCResponse_ack _) hsend)
      · cases h; exact h₁.trans (.of_eq rfl rfl)
    · cases h; exact h₁.trans (.of_eq rfl rfl)

/-- **Every task, outside `tick`, sends only errors and keeps the peers with their streams**, when
the stream of a peer it registers exists. -/
theorem errorSends_runTask {order : List TopicSenderPair} {task : ServerTask}
    (hq : ∀ s, task = .onRegisterPeer s → s < m.streams.length)
    (hr : m.runTask order task = .ok m') : ErrorSends m m' := by
  cases task with
  | onMessageBatch sm es =>
    simp only [runTask, handleMessageBatch] at hr
    refine foldlM_inv (ErrorSends m) (fun e _ t₁ t₂ h₁ he => h₁.trans ?_) (.refl m) hr
    refine ErrorSends.trans ?_ (errorSends_handleMessage he); exact .of_eq rfl rfl
  | onRawMessageBatch es =>
    cases hr
    obtain ⟨_, _, _, _, _, h⟩ := handleRawMessageBatch_frame (m := m) es
    rw [h]; exact .of_eq rfl rfl
  | onRegisterPeer s => exact errorSends_onRegisterPeer (hq s rfl) hr
  | onDeregisterPeer id =>
    simp only [runTask, deregisterPeerByID] at hr
    split at hr
    · cases hr; exact .refl _
    · exact errorSends_deregisterPeer hr
  | onRegisterHandler t hd =>
    simp only [runTask, registerHandler] at hr
    split at hr
    · cases hr
    · refine ErrorSends.trans ?_ (errorSends_handlePendingMessages hr); exact .of_eq rfl rfl
  | onDeregisterHandler t =>
    cases hr
    simp only [onDeregisterHandler]
    split <;> exact .of_eq rfl rfl
  | debugDelay => cases hr; exact .refl _

/-! ### The invariant under each kind of step -/

/-- A step of the task loop that keeps the frame of the loop and sends only errors. -/
theorem AckSafe.loop (hi : m.AckSafe) (hl : LoopFrame m m') (he : ErrorSends m m') : m'.AckSafe where
  acked k v h := by rw [hl.delivered]; rw [hl.acks] at h; exact hi.acked k v h
  called i sm e h := by rw [hl.delivered]; rw [(hl.pool i).2.1] at h; exact hi.called i sm e h
  queued s h := by rw [he.length]; rw [hl.taskQueue] at h; exact hi.queued s h
  peers := he.peers hi.peers
  sent s r hr a ha := by
    obtain ⟨rs, hs, hrs⟩ := he.sent s
    rw [hs] at hr
    rw [he.meta, hl.delivered]
    rcases List.mem_append.1 hr with hr | hr
    · exact hi.sent s r hr a ha
    · rw [hrs r hr] at ha; cases ha

theorem AckSafe.dequeue (hi : m.AckSafe) {task : ServerTask} {rest : List ServerTask}
    (hq : m.taskQueue = task :: rest) : ({ m with taskQueue := rest } : MessageServer).AckSafe :=
  ⟨hi.acked, hi.called, fun s h => hi.queued s (hq ▸ List.mem_cons_of_mem _ h), hi.peers, hi.sent⟩

theorem AckSafe.status (hi : m.AckSafe) (st : RunStatus) :
    ({ m with status := st } : MessageServer).AckSafe :=
  ⟨hi.acked, hi.called, hi.queued, hi.peers, hi.sent⟩

/-- The acks of a peer, as `tick` sends them, were delivered. -/
theorem AckSafe.ackList (hi : m.AckSafe) {id : NodeID} {a : Ack} (ha : a ∈ m.ackList id) :
    (id, a.Topic, a.LastSeq) ∈ m.ghost.delivered := by
  obtain ⟨⟨⟨id', t⟩, v⟩, he, hf⟩ := List.mem_filterMap.1 ha
  dsimp only at hf
  split at hf
  · cases hf
    rename_i hid
    subst hid
    exact hi.acked (id', t) v (AList.mem_lookup_iff.2 he)
  · cases hf

/-- One round of `tick`'s loop: the acks of a registered peer, sent on its stream. -/
theorem AckSafe.tickPeer (hi : m.AckSafe) (hv : m.PeersValid) {x : (_ : NodeID) × Nat}
    (hx : x ∈ m.peers.entries) (acc : List Nat) : (MessageServer.tickPeer (m, acc) x).1.AckSafe := by
  obtain ⟨id, p⟩ := x
  have hp : p < m.peerObjs.length := (hv id p (AList.mem_lookup_iff.2 hx)).1
  simp only [MessageServer.tickPeer]
  split
  · exact hi
  · split
    · rename_i m₁ hsend
      obtain ⟨ss, rfl⟩ := send_ok hsend
      refine ⟨hi.acked, hi.called, fun s h => ?_, ?_, hi.sent.send hsend fun a ha => ?_⟩
      · rw [length_send hsend]; exact hi.queued s h
      · exact hi.peers.of_streams (length_send hsend).ge (fun i _ => streamMeta_send hsend i)
          (fun _ => ⟨rfl, rfl⟩) rfl
      · rw [(hi.peers p hp).2]; exact hi.ackList ha
    · split <;> exact hi

theorem AckSafe.foldl_tickPeer (l : List ((_ : NodeID) × Nat)) (hl : ∀ x ∈ l, x ∈ m.peers.entries)
    (hi : m.AckSafe) (hv : m.PeersValid) (acc : List Nat) :
    (l.foldl MessageServer.tickPeer (m, acc)).1.AckSafe := by
  induction l generalizing m acc with
  | nil => exact hi
  | cons x l ih =>
    rw [List.foldl_cons, ← Prod.mk.eta (p := MessageServer.tickPeer (m, acc) x)]
    have h₁ := hi.tickPeer hv (hl x (List.mem_cons_self _ _)) acc
    obtain ⟨ss, hss⟩ := tickPeer_fst (m := m) acc x
    rw [hss] at h₁ ⊢
    exact ih (m := { m with streams := ss }) (fun y hy => hl y (List.mem_cons_of_mem _ hy)) h₁
      (hv.congr rfl rfl) _

theorem AckSafe.tick (hi : m.AckSafe) (hv : m.PeersValid) (ht : m.tick = .ok m') : m'.AckSafe := by
  unfold MessageServer.tick at ht
  refine foldlM_inv AckSafe (fun _ _ _ _ h₁ hd =>
    h₁.loop (loopFrame_deregisterPeer hd) (errorSends_deregisterPeer hd)) ?_ ht
  exact hi.foldl_tickPeer _ (fun _ => id) hv []

/-- A step of a handle: `acks.Set` stores the ack of the call of `fn` it follows. -/
theorem AckSafe.runHandle (hi : m.AckSafe) {h : Nat} {ok : Bool} (hs : m.runHandle h ok = some m') :
    m'.AckSafe := by
  obtain ⟨-, hd, hc, -, -⟩ := runHandle_cases hs
  have other : ∀ i sm e, ((m.setHandle h hd).handleAt i).phase = .called sm e →
      hd.phase = .called sm e ∨ (m.handleAt i).phase = .called sm e := by
    intro i sm e hp
    rw [handleAt_setHandle] at hp
    split at hp
    · exact .inl hp
    · exact .inr hp
  rcases hc with ⟨rfl, hp, -⟩ | ⟨sm, e, rfl, -, -, -, hp⟩ | ⟨sm, e, rfl, -, hp⟩ |
    ⟨sm, e, rfl, hcalled, hp⟩
  · refine ⟨hi.acked, fun i sm e h' => ?_, hi.queued, hi.peers, hi.sent⟩
    rcases other i sm e h' with h' | h'
    · rw [hp] at h'; cases h'
    · exact hi.called i sm e h'
  · refine ⟨hi.acked, fun i sm' e' h' => ?_, hi.queued, hi.peers, hi.sent⟩
    rcases other i sm' e' h' with h' | h'
    · rw [hp] at h'; cases h'
    · exact hi.called i sm' e' h'
  · have grow : ∀ d, d ∈ m.ghost.delivered →
        d ∈ ((m.setHandle h hd).logDelivered sm.SenderId e.Topic e.Sequence).ghost.delivered :=
      fun d hd' => List.mem_append_left _ hd'
    refine ⟨fun k v h' => grow _ (hi.acked k v h'), fun i sm' e' h' => ?_, hi.queued, hi.peers,
      fun s r hr a ha => grow _ (hi.sent s r hr a ha)⟩
    rcases other i sm' e' h' with h' | h'
    · rw [hp] at h'; cases h'
      exact List.mem_append_right _ (List.mem_singleton_self _)
    · exact grow _ (hi.called i sm' e' h')
  · refine ⟨fun k v h' => ?_, fun i sm' e' h' => ?_, hi.queued, hi.peers, hi.sent⟩
    · simp only [setHandle, ackSet] at h'
      by_cases hk : k = (sm.SenderId, e.Topic)
      · subst hk
        rw [AList.lookup_insert] at h'
        cases h'
        exact hi.called h sm e hcalled
      · rw [AList.lookup_insert_ne hk] at h'
        exact hi.acked k v h'
    · rw [handleAt_setHandle] at h'
      split at h'
      · rw [hp] at h'; cases h'
      · exact hi.called i sm' e' h'

/-- A step of a caller, a stream goroutine or the worker pool's callbacks: it sends no ack, and
queues the registration of a peer only for a stream that exists. -/
theorem AckSafe.caller (hi : m.AckSafe) {l : Label} (hf : CallerFrame m m') (he : CallerEffect l m m') :
    m'.AckSafe := by
  obtain ⟨⟨tq, pl, ss, rfl⟩, hph⟩ := hf
  obtain ⟨-, ⟨tasks, hq, -, hpeer⟩, hlen, hkeep⟩ := he
  refine ⟨hi.acked, fun i sm e h => hi.called i sm e ((hph i) ▸ h), fun s h => ?_,
    hi.peers.of_streams hlen (fun s hs => (hkeep s).2 hs) (fun _ => ⟨rfl, rfl⟩) rfl,
    fun s r hr a ha => ?_⟩
  · rw [hq] at h
    rcases List.mem_append.1 h with h | h
    · exact lt_of_lt_of_le (hi.queued s h) hlen
    · exact hpeer s h
  · obtain ⟨rs, hrs, he⟩ := (hkeep s).1
    rw [hrs] at hr
    rcases List.mem_append.1 hr with hr | hr
    · have hs : s < m.streams.length := by
        by_contra hge
        rw [List.getD_eq_default _ _ (Nat.le_of_not_lt hge)] at hr
        cases hr
      rw [(hkeep s).2 hs]
      exact hi.sent s r hr a ha
    · obtain ⟨e, -, rfl⟩ := he r hr
      rw [errorToRPCResponse_ack] at ha; cases ha

/-- **The step lemma.** -/
theorem AckSafe.step (hi : m.AckSafe) (hv : m.PeersValid) {l : Label} (hs : m.step l = some m') :
    m'.AckSafe := by
  rcases step_cases hs with ⟨hl, -⟩ | ⟨order, task, rest, hq, -, rfl⟩ | rfl | rfl
  · cases l with
    | runHandle h ok => exact hi.runHandle (step_runHandle hs)
    | _ =>
      exact hi.caller (step_caller hl (fun _ _ h => Label.noConfusion h) hs) (step_callerEffect hl hs)
  · have h₀ := hi.dequeue hq
    cases hr : ({ m with taskQueue := rest } : MessageServer).runTask order task with
    | ok m₁ =>
      exact h₀.loop (loopFrame_runTask hr) (errorSends_runTask
        (fun s hs => hi.queued s (by rw [hq, hs]; exact List.mem_cons_self _ _)) hr)
    | error p => exact h₀.status _
  · cases ht : m.tick with
    | ok m₁ => exact hi.tick hv ht
    | error p => exact hi.status _
  · exact hi.status _

theorem ackSafe_init (serverID : NodeID) (config : MessageServerConfig) :
    (newMessageServer serverID config).AckSafe where
  acked k v h := by
    rw [show (newMessageServer serverID config).acks = ∅ from rfl, AList.lookup_empty] at h
    cases h
  called i sm e h := by cases h
  queued s h := by cases h
  peers p hp := by cases hp
  sent s r hr := by cases hr

end MessageServer

open MessageServer

theorem ackSafe_of_reachable {m : MessageServer} (h : Reachable m) : m.AckSafe := by
  induction h with
  | init s c => exact ackSafe_init s c
  | step l hr hs ih => exact ih.step (peersValid_of_reachable hr) hs

/-- **The server acknowledges only what its handlers processed**: on every run, every ack sent on
a stream, for a topic and a sequence, is one on which `fn` returned nil for a message of that
topic and sequence from the stream's sender. The ack covers that sequence only: a handle that
reads `initAck` checks no gap, so after a re-add of the topic's handler the ack `2` can be sent
while `fn` never took `1`. -/
theorem acks_sent_delivered {m : MessageServer} (h : Reachable m) (s : Nat) :
    ∀ r ∈ (m.streams.getD s default).sent, ∀ a ∈ r.Ack,
      ((m.streams.getD s default).streamMeta.SenderId, a.Topic, a.LastSeq) ∈ m.ghost.delivered :=
  (ackSafe_of_reachable h).sent s

theorem acks_sent_delivered_after_tick :
    let m := ((newMessageServer "s" ⟨4, 4⟩).exec [.addHandler "t" true, .runTask [],
      .sendMessage (some ⟨"a", "s", 1⟩), .runTask [], .recvPacket 0 [⟨"t", 1, 0⟩], .runTask [],
      .runHandle 0 true, .runHandle 0 true, .runHandle 0 true, .runTick]).get (by decide)
    ∀ r ∈ (m.streams.getD 0 default).sent, ∀ a ∈ r.Ack,
      ((m.streams.getD 0 default).streamMeta.SenderId, a.Topic, a.LastSeq) ∈ m.ghost.delivered :=
  acks_sent_delivered (Reachable.exec_get _ _ _ _) 0

end Tiflow.P2p
