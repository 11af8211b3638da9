import Mathlib.Data.List.GetD
import Tiflow.P2p.System

/-!
# What each step of the server touches

* `foldlM_inv`, `foldlM_ok` — the two facts about a fold in `Except` that every loop of the
  server needs: an invariant of its body holds at its end, and a body that never fails gives a
  fold that never fails;
* `send_ok`, `sendIgnoringError_eq`, `addEvent_ok`, `logOverflow_eq` — the fields the small
  operations of the task loop change;
* `caller_cases`, `step_caller` — what a step of a caller of the API, a stream goroutine or the
  worker pool's callbacks does: it changes only the queue, the streams and the pool, and no
  handle's phase or topic;
* `step_env` — a step of a handle, a stream or a caller of the API leaves the peers, the
  pending buffer, the handler table, the status of `run` and the ghost history of the task loop
  as they were.
-/

namespace Tiflow.P2p

section Fold

variable {α σ ε : Type} {f : σ → α → Except ε σ}

/-- An invariant of every round of a fold in `Except` holds at its end. -/
theorem foldlM_inv (P : σ → Prop) :
    ∀ {l : List α} {s s' : σ}, (∀ a ∈ l, ∀ t t', P t → f t a = .ok t' → P t') → P s →
      l.foldlM f s = .ok s' → P s'
  | [], s, s', _, hs, h => by cases h; exact hs
  | a :: l, s, s', hf, hs, h => by
    simp only [List.foldlM_cons] at h
    cases hfa : f s a with
    | error e => rw [hfa] at h; cases h
    | ok t =>
      rw [hfa] at h
      exact foldlM_inv P (fun b hb => hf b (List.mem_cons_of_mem _ hb))
        (hf a (List.mem_cons_self _ _) s t hs hfa) h

/-- A fold whose rounds succeed from every state of an invariant succeeds. -/
theorem foldlM_ok (P : σ → Prop) :
    ∀ {l : List α} {s : σ}, (∀ a ∈ l, ∀ t, P t → ∃ t', f t a = .ok t' ∧ P t') → P s →
      ∃ s', l.foldlM f s = .ok s' ∧ P s'
  | [], s, _, hs => ⟨s, rfl, hs⟩
  | a :: l, s, hf, hs => by
    obtain ⟨t, hfa, ht⟩ := hf a (List.mem_cons_self _ _) s hs
    obtain ⟨s', h, hs'⟩ := foldlM_ok P (fun b hb => hf b (List.mem_cons_of_mem _ hb)) ht
    exact ⟨s', by simp only [List.foldlM_cons, hfa]; exact h, hs'⟩

end Fold

namespace MessageServer

variable {m m' : MessageServer}

/-! ### The small operations -/

theorem send_ok {s : Nat} {r : SendMessageResponse} (h : m.send s r = .ok m') :
    ∃ ss, m' = { m with streams := ss } := by
  unfold send at h
  split at h
  · split at h
    · cases h
    · cases h; exact ⟨_, rfl⟩
  · cases h

theorem sendIgnoringError_eq (s : Nat) (r : SendMessageResponse) :
    ∃ ss, m.sendIgnoringError s r = { m with streams := ss } := by
  unfold sendIgnoringError
  split
  · exact send_ok ‹_›
  · exact ⟨m.streams, rfl⟩

theorem addEvent_ok {h : Nat} {ev : PoolEvent} (hm : m.addEvent h ev = .ok m') :
    ∃ pl, m' = { m with pool := pl } := by
  simp only [addEvent] at hm
  split at hm
  · cases hm
  · cases hm; exact ⟨_, rfl⟩

theorem abort_ok {p : Nat} {e : PeerError} (h : m.abort p e = .ok m') :
    (m.peerAt p).valid = true ∧ ∃ ss, m' = { m with
      streams := ss
      peerObjs := m.peerObjs.set p { m.peerAt p with valid := false }
      ghost := { m.ghost with aborted := m.ghost.aborted ++ [p] } } := by
  simp only [abort] at h
  split at h
  · cases h
  · rename_i hv
    obtain ⟨ss, hss⟩ := sendIgnoringError_eq (m := m) (m.peerAt p).sender (errorToRPCResponse e)
    rw [hss] at h
    cases h
    exact ⟨by simpa using hv, ss, rfl⟩

theorem abort_ok_of_valid {p : Nat} (e : PeerError) (h : (m.peerAt p).valid = true) :
    ∃ m', m.abort p e = .ok m' := by
  simp [abort, h]

/-- **What `deregisterPeer` does**: it deletes the peer's ID and, given an error, aborts the
peer, which must be valid. -/
theorem deregisterPeer_ok {p : Nat} {err : Option PeerError} (h : m.deregisterPeer p err = .ok m') :
    (err = none ∧ m' = { m with peers := m.peers.erase (m.peerAt p).PeerID }) ∨
    ((m.peerAt p).valid = true ∧ ∃ e ss, err = some e ∧ m' = { m with
      peers := m.peers.erase (m.peerAt p).PeerID
      streams := ss
      peerObjs := m.peerObjs.set p { m.peerAt p with valid := false }
      ghost := { m.ghost with aborted := m.ghost.aborted ++ [p] } }) := by
  unfold deregisterPeer at h
  cases err with
  | none => cases h; exact .inl ⟨rfl, rfl⟩
  | some e =>
    obtain ⟨hv, ss, rfl⟩ := abort_ok h
    exact .inr ⟨hv, e, ss, rfl, rfl⟩

theorem deregisterPeer_ok_of_valid {p : Nat} (err : Option PeerError)
    (h : (m.peerAt p).valid = true) : ∃ m', m.deregisterPeer p err = .ok m' := by
  unfold deregisterPeer
  cases err with
  | none => exact ⟨_, rfl⟩
  | some e => exact abort_ok_of_valid (m := { m with peers := _ }) e h

theorem foldl_logFate (key : TopicSenderPair) (f : Fate) (es : List PendingMessageEntry) :
    es.foldl (fun m e => m.logFate e.tag key f) m = { m with ghost := { m.ghost with
      fates := m.ghost.fates ++ es.map fun e => (e.tag, key, f) } } := by
  induction es generalizing m with
  | nil => simp
  | cons e es ih => rw [List.foldl_cons, ih]; simp [logFate]

theorem logOverflow_eq (key : TopicSenderPair) (es : List PendingMessageEntry) :
    m.logOverflow key es = { m with ghost := { m.ghost with
      fates := m.ghost.fates ++ es.map fun e => (e.tag, key, Fate.overflow es.length) } } :=
  foldl_logFate key _ es

/-- **The five outcomes of `registerPeer`**, as the table of the design lists them. -/
theorem registerPeer_ok {s : Nat} {r : MessageServer × Option PeerError}
    (h : m.registerPeer s = .ok r) :
    let sm := (m.streams.getD s default).streamMeta
    (m.peers.lookup sm.SenderId = none ∧ (m.peers.entries.length : Int) ≤ m.config.MaxPeerCount ∧
      r = (m.installPeer sm s, none)) ∨
    (m.peers.lookup sm.SenderId = none ∧ (m.peers.entries.length : Int) > m.config.MaxPeerCount ∧
      r = (m, some (.toManyPeers m.peers.entries.length))) ∨
    (∃ p, m.peers.lookup sm.SenderId = some p ∧ sm.Epoch < (m.peerAt p).Epoch ∧
      r = (m, some (.staleConnection sm.Epoch (m.peerAt p).Epoch))) ∨
    (∃ p m₁, m.peers.lookup sm.SenderId = some p ∧ (m.peerAt p).Epoch < sm.Epoch ∧
      m.deregisterPeer p (some (.staleConnection (m.peerAt p).Epoch sm.Epoch)) = .ok m₁ ∧
      r = (m₁.installPeer sm s, none)) ∨
    (∃ p, m.peers.lookup sm.SenderId = some p ∧ (m.peerAt p).Epoch = sm.Epoch ∧
      r = (m, some (.duplicateConnection sm.Epoch))) := by
  dsimp only
  simp only [registerPeer] at h
  split at h
  · rename_i hl
    split at h
    · cases h; exact .inr (.inl ⟨hl, by omega, rfl⟩)
    · cases h; exact .inl ⟨hl, by omega, rfl⟩
  · rename_i p hl
    split at h
    · cases h; exact .inr (.inr (.inl ⟨p, hl, by omega, rfl⟩))
    split at h
    · split at h
      · cases h; exact .inr (.inr (.inr (.inl ⟨p, _, hl, by omega, ‹_›, rfl⟩)))
      · cases h
    · cases h; exact .inr (.inr (.inr (.inr ⟨p, hl, by omega, rfl⟩)))

/-- **What `run` does on `taskOnRegisterPeer`**, as far as the fields go: `registerPeer`, then a
send on the stream, or the end of `run` with an error. -/
theorem onRegisterPeer_ok {s : Nat} (h : m.onRegisterPeer s = .ok m') :
    ∃ r, m.registerPeer s = .ok r ∧
      ((∃ ss, m' = { r.1 with streams := ss }) ∨ ∃ err, m' = { r.1 with status := .returned err }) := by
  unfold onRegisterPeer at h
  split at h
  · cases h
  · rename_i hr; cases h; exact ⟨_, hr, .inl ⟨_, rfl⟩⟩
  · rename_i hr
    split at h
    · split at h
      · rename_i hs; cases h; obtain ⟨ss, rfl⟩ := send_ok hs; exact ⟨_, hr, .inl ⟨ss, rfl⟩⟩
      · cases h; exact ⟨_, hr, .inr ⟨_, rfl⟩⟩
    · cases h; exact ⟨_, hr, .inr ⟨_, rfl⟩⟩

/-- **The outcomes of `handleMessage`**: dropped for want of a valid peer with the stream's
epoch; buffered; buffer dropped and peer deregistered on overflow; handed to the handler,
whose refusal deregisters the peer. -/
theorem handleMessage_ok {sm : StreamMeta} {e : MessageEntry} (h : m.handleMessage sm e = .ok m') :
    let key : TopicSenderPair := ⟨e.Topic, sm.SenderId⟩
    let pend := (m.pendingMessages.lookup key).getD []
    (m' = m.logFate e.tag key (.noPeer sm.Epoch ((m.peers.lookup sm.SenderId).map m.peerAt)) ∧
      ∀ p, m.peers.lookup sm.SenderId = some p →
        (m.peerAt p).Epoch ≠ sm.Epoch ∨ (m.peerAt p).valid = false) ∨
    ∃ p, m.peers.lookup sm.SenderId = some p ∧ (m.peerAt p).Epoch = sm.Epoch ∧
      (m.peerAt p).valid = true ∧
      ((m.handlers.lookup e.Topic = none ∧ (pend.length : Int) ≤ m.config.MaxPendingMessageCountPerTopic ∧
        m' = { m with pendingMessages := m.pendingMessages.insert key (pend ++ [.remote sm e]) }) ∨
       (m.handlers.lookup e.Topic = none ∧ (pend.length : Int) > m.config.MaxPendingMessageCountPerTopic ∧
        ((({ m with pendingMessages := m.pendingMessages.erase key } : MessageServer).logOverflow key
          pend).logFate e.tag key (.congestedTrigger pend.length)).deregisterPeer p
          (some .topicCongested) = .ok m') ∨
       (∃ hd, m.handlers.lookup e.Topic = some hd ∧
        ((m.logFate e.tag key (.handed hd)).addEvent hd (.args sm e) = .ok m' ∨
         ∃ err, (m.logFate e.tag key (.handed hd)).addEvent hd (.args sm e) = .error err ∧
          (m.logFate e.tag key (.handed hd)).deregisterPeer p (some err) = .ok m'))) := by
  dsimp only
  simp only [handleMessage] at h
  split at h
  · rename_i hl
    cases h; exact .inl ⟨by rw [hl]; rfl, fun p hp => by simp [hl] at hp⟩
  · rename_i p hl
    split at h
    · rename_i hep
      cases h; exact .inl ⟨by rw [hl]; rfl, fun q hq => by rw [hl] at hq; cases hq; exact .inl hep⟩
    split at h
    · rename_i hv
      cases h
      exact .inl ⟨by rw [hl]; rfl, fun q hq => by rw [hl] at hq; cases hq; exact .inr (by simpa using hv)⟩
    rename_i hep hv
    have hv' : (m.peerAt p).valid = true := by simpa using hv
    have hep' : (m.peerAt p).Epoch = sm.Epoch := by simpa using hep
    refine .inr ⟨p, hl, hep', hv', ?_⟩
    split at h
    · rename_i hh
      split at h
      · exact .inr (.inl ⟨hh, ‹_›, h⟩)
      · cases h; exact .inl ⟨hh, by omega, rfl⟩
    · rename_i hd hh
      split at h
      · cases h; exact .inr (.inr ⟨hd, hh, .inl ‹_›⟩)
      · exact .inr (.inr ⟨hd, hh, .inr ⟨_, ‹_›, h⟩⟩)

/-- `handleMessage` never panics: the only peer it aborts is one it has just seen valid. -/
theorem handleMessage_exists (sm : StreamMeta) (e : MessageEntry) :
    ∃ m', m.handleMessage sm e = .ok m' := by
  simp only [handleMessage]
  split
  · exact ⟨_, rfl⟩
  · rename_i p _
    split
    · exact ⟨_, rfl⟩
    split
    · exact ⟨_, rfl⟩
    rename_i hv
    have hv' : (m.peerAt p).valid = true := by simpa using hv
    split
    · split
      · exact deregisterPeer_ok_of_valid _ (by simpa [logOverflow_eq, logFate, peerAt] using hv')
      · exact ⟨_, rfl⟩
    · split
      · exact ⟨_, rfl⟩
      · exact deregisterPeer_ok_of_valid _ (by simpa [logFate, peerAt] using hv')

/-- `handleRawMessage` changes only the pending buffer, the pool and the fates of entries. -/
theorem handleRawMessage_frame (e : RawMessageEntry) :
    ∃ pm pl fs, m.handleRawMessage e = { m with
      pendingMessages := pm
      pool := pl
      ghost := { m.ghost with fates := fs } } := by
  simp only [handleRawMessage]
  split
  · split
    · rw [logOverflow_eq]; exact ⟨_, _, _, rfl⟩
    · exact ⟨_, _, _, rfl⟩
  · split
    · rename_i h
      obtain ⟨pl, rfl⟩ := addEvent_ok h
      exact ⟨_, _, _, rfl⟩
    · exact ⟨_, _, _, rfl⟩

theorem handleRawMessageBatch_frame (es : List RawMessageEntry) :
    ∃ pm pl fs ds nt, m.handleRawMessageBatch es = { m with
      pendingMessages := pm
      pool := pl
      ghost := { m.ghost with fates := fs, dispatched := ds, nextTag := nt } } := by
  induction es generalizing m with
  | nil => exact ⟨_, _, _, _, _, rfl⟩
  | cons e es ih =>
    simp only [handleRawMessageBatch, List.foldl_cons] at ih ⊢
    obtain ⟨pm, pl, fs, h⟩ := handleRawMessage_frame (m := m.logDispatched ⟨e.topic, m.serverID⟩)
      { e with tag := m.ghost.nextTag }
    rw [h]
    obtain ⟨pm', pl', fs', ds', nt', h'⟩ := ih (m := { m.logDispatched ⟨e.topic, m.serverID⟩ with
      pendingMessages := pm, pool := pl
      ghost := { (m.logDispatched ⟨e.topic, m.serverID⟩).ghost with fates := fs } })
    rw [h']
    exact ⟨_, _, _, _, _, rfl⟩

theorem tickPeer_fst (acc : List Nat) (x : (_ : NodeID) × Nat) :
    ∃ ss, (tickPeer (m, acc) x).1 = { m with streams := ss } := by
  obtain ⟨id, p⟩ := x
  simp only [tickPeer]
  split
  · exact ⟨_, rfl⟩
  · split
    · exact send_ok ‹_›
    · split <;> exact ⟨_, rfl⟩

theorem foldl_tickPeer_fst (l : List ((_ : NodeID) × Nat)) (acc : List Nat) :
    ∃ ss, (l.foldl tickPeer (m, acc)).1 = { m with streams := ss } := by
  induction l generalizing m acc with
  | nil => exact ⟨_, rfl⟩
  | cons x l ih =>
    simp only [List.foldl_cons]
    obtain ⟨ss, h⟩ := tickPeer_fst (m := m) acc x
    obtain ⟨ss', h'⟩ := ih (m := (tickPeer (m, acc) x).1) (tickPeer (m, acc) x).2
    rw [Prod.mk.eta, h] at h'
    exact ⟨ss', h'⟩

/-! ### What the task loop leaves alone -/

theorem getD_set {α : Type} (l : List α) (i j : Nat) (a d : α) :
    (l.set i a).getD j d = if i = j ∧ i < l.length then a else l.getD j d := by
  simp only [List.getD_eq_getElem?_getD, List.getElem?_set]
  by_cases h : i = j
  · subst h
    by_cases h' : i < l.length
    · simp [h']
    · simp [h', List.getElem?_eq_none (Nat.le_of_not_lt h')]
  · simp [h]

/-- A handle as the task loop may leave it: events appended, `GracefulUnregister` started. -/
def HandleGrows (h h' : EventHandle) : Prop :=
  h'.topic = h.topic ∧ h'.phase = h.phase ∧ h'.cancelled = h.cancelled ∧
  h'.exitErr = h.exitErr ∧ h'.unregistered = h.unregistered ∧ h.queue <+: h'.queue ∧
  (h.unregistering = true → h'.unregistering = true)

theorem HandleGrows.refl (h : EventHandle) : HandleGrows h h :=
  ⟨rfl, rfl, rfl, rfl, rfl, List.prefix_rfl, id⟩

theorem HandleGrows.trans {h₁ h₂ h₃ : EventHandle} (a : HandleGrows h₁ h₂) (b : HandleGrows h₂ h₃) :
    HandleGrows h₁ h₃ :=
  ⟨b.1.trans a.1, b.2.1.trans a.2.1, b.2.2.1.trans a.2.2.1, b.2.2.2.1.trans a.2.2.2.1,
    b.2.2.2.2.1.trans a.2.2.2.2.1, a.2.2.2.2.2.1.trans b.2.2.2.2.2.1,
    fun h => b.2.2.2.2.2.2 (a.2.2.2.2.2.2 h)⟩

/-- **What the task loop leaves alone**: it may stop `run` with an error, append events to
handles and start their unregistration, and nothing more outside the registry, the pending
buffer, the handler table, the streams and the ghost history of entries and aborts. -/
structure LoopFrame (m m' : MessageServer) : Prop where
  status : m'.status = m.status ∨ ∃ e, m'.status = .returned e
  serverID : m'.serverID = m.serverID
  config : m'.config = m.config
  acks : m'.acks = m.acks
  taskQueue : m'.taskQueue = m.taskQueue
  delivered : m'.ghost.delivered = m.ghost.delivered
  poolLength : m'.pool.length = m.pool.length
  pool : ∀ i, HandleGrows (m.handleAt i) (m'.handleAt i)

theorem LoopFrame.refl (m : MessageServer) : LoopFrame m m :=
  ⟨.inl rfl, rfl, rfl, rfl, rfl, rfl, rfl, fun _ => HandleGrows.refl _⟩

theorem LoopFrame.trans {m₁ m₂ m₃ : MessageServer} (a : LoopFrame m₁ m₂) (b : LoopFrame m₂ m₃) :
    LoopFrame m₁ m₃ where
  status := by
    rcases b.status with h | h
    · rw [h]; exact a.status
    · exact .inr h
  serverID := b.serverID.trans a.serverID
  config := b.config.trans a.config
  acks := b.acks.trans a.acks
  taskQueue := b.taskQueue.trans a.taskQueue
  delivered := b.delivered.trans a.delivered
  poolLength := b.poolLength.trans a.poolLength
  pool i := (a.pool i).trans (b.pool i)

/-- A state that differs from `m` only in fields the frame does not constrain. -/
theorem LoopFrame.of_eq (h1 : m'.status = m.status) (h2 : m'.serverID = m.serverID)
    (h3 : m'.config = m.config) (h4 : m'.acks = m.acks) (h5 : m'.taskQueue = m.taskQueue)
    (h6 : m'.ghost.delivered = m.ghost.delivered) (h7 : m'.pool = m.pool) : LoopFrame m m' :=
  ⟨.inl h1, h2, h3, h4, h5, h6, by rw [h7], fun i => by unfold handleAt; rw [h7]; exact HandleGrows.refl _⟩

theorem loopFrame_addEvent {h : Nat} {ev : PoolEvent} (ha : m.addEvent h ev = .ok m') :
    LoopFrame m m' := by
  simp only [addEvent] at ha
  split at ha
  · cases ha
  · cases ha
    refine ⟨.inl rfl, rfl, rfl, rfl, rfl, rfl, by simp, fun i => ?_⟩
    simp only [handleAt, getD_set]
    split
    · rename_i hi; rw [← hi.1]
      exact ⟨rfl, rfl, rfl, rfl, rfl, List.prefix_append _ _, id⟩
    · exact HandleGrows.refl _

theorem loopFrame_deregisterPeer {p : Nat} {err : Option PeerError}
    (hd : m.deregisterPeer p err = .ok m') : LoopFrame m m' := by
  rcases deregisterPeer_ok hd with ⟨-, rfl⟩ | ⟨-, e, ss, -, rfl⟩ <;>
    exact LoopFrame.of_eq rfl rfl rfl rfl rfl rfl rfl

theorem loopFrame_handleMessage {sm : StreamMeta} {e : MessageEntry}
    (hm : m.handleMessage sm e = .ok m') : LoopFrame m m' := by
  rcases handleMessage_ok hm with ⟨rfl, -⟩ | ⟨p, -, -, -, hcase⟩
  · exact LoopFrame.of_eq rfl rfl rfl rfl rfl rfl rfl
  rcases hcase with ⟨-, -, rfl⟩ | ⟨-, -, hd⟩ | ⟨hd, -, ha | ⟨err, -, hd'⟩⟩
  · exact LoopFrame.of_eq rfl rfl rfl rfl rfl rfl rfl
  · rw [logOverflow_eq] at hd
    refine LoopFrame.trans ?_ (loopFrame_deregisterPeer hd)
    exact LoopFrame.of_eq rfl rfl rfl rfl rfl rfl rfl
  · refine LoopFrame.trans ?_ (loopFrame_addEvent ha)
    exact LoopFrame.of_eq rfl rfl rfl rfl rfl rfl rfl
  · refine LoopFrame.trans ?_ (loopFrame_deregisterPeer hd')
    exact LoopFrame.of_eq rfl rfl rfl rfl rfl rfl rfl

theorem loopFrame_handleRawMessage (e : RawMessageEntry) : LoopFrame m (m.handleRawMessage e) := by
  simp only [handleRawMessage]
  split
  · split
    · rw [logOverflow_eq]; exact LoopFrame.of_eq rfl rfl rfl rfl rfl rfl rfl
    · exact LoopFrame.of_eq rfl rfl rfl rfl rfl rfl rfl
  · split
    · refine LoopFrame.trans ?_ (loopFrame_addEvent ‹_›)
      exact LoopFrame.of_eq rfl rfl rfl rfl rfl rfl rfl
    · exact LoopFrame.of_eq rfl rfl rfl rfl rfl rfl rfl

theorem loopFrame_handlePendingEntry {pe : PendingMessageEntry}
    (he : m.handlePendingEntry pe = .ok m') : LoopFrame m m' := by
  cases pe with
  | remote sm e => exact loopFrame_handleMessage he
  | raw e => cases he; exact loopFrame_handleRawMessage e

theorem loopFrame_handlePendingMessages {t : Topic} {order : List TopicSenderPair}
    (hd : m.handlePendingMessages t order = .ok m') : LoopFrame m m' := by
  unfold handlePendingMessages at hd
  refine foldlM_inv (LoopFrame m) (fun k _ t₁ t₂ h₁ hk => h₁.trans ?_) (LoopFrame.refl m) hd
  unfold drainKey at hk
  split at hk
  · cases hk; exact LoopFrame.refl _
  · split at hk
    · rename_i hf
      cases hk
      exact (foldlM_inv (LoopFrame t₁) (fun _ _ _ _ hu he => hu.trans (loopFrame_handlePendingEntry he))
        (LoopFrame.refl _) hf).trans (LoopFrame.of_eq rfl rfl rfl rfl rfl rfl rfl)
    · cases hk

theorem loopFrame_registerPeer {s : Nat} {r : MessageServer × Option PeerError}
    (hr : m.registerPeer s = .ok r) : LoopFrame m r.1 := by
  rcases registerPeer_ok hr with ⟨-, -, rfl⟩ | ⟨-, -, rfl⟩ | ⟨_, -, -, rfl⟩ |
    ⟨_, _, -, -, hd, rfl⟩ | ⟨_, -, -, rfl⟩
  · exact LoopFrame.of_eq rfl rfl rfl rfl rfl rfl rfl
  · exact LoopFrame.refl _
  · exact LoopFrame.refl _
  · exact (loopFrame_deregisterPeer hd).trans (LoopFrame.of_eq rfl rfl rfl rfl rfl rfl rfl)
  · exact LoopFrame.refl _

/-- **Every task leaves alone what the frame says.** -/
theorem loopFrame_runTask {order : List TopicSenderPair} {task : ServerTask}
    (hr : m.runTask order task = .ok m') : LoopFrame m m' := by
  cases task with
  | onMessageBatch sm es =>
    simp only [runTask, handleMessageBatch] at hr
    refine foldlM_inv (LoopFrame m) (fun e _ t₁ t₂ h₁ he => h₁.trans ?_) (LoopFrame.refl m) hr
    refine LoopFrame.trans ?_ (loopFrame_handleMessage he)
    exact LoopFrame.of_eq rfl rfl rfl rfl rfl rfl rfl
  | onRawMessageBatch es =>
    cases hr
    induction es generalizing m with
    | nil => exact LoopFrame.refl _
    | cons e es ih =>
      simp only [handleRawMessageBatch, List.foldl_cons] at ih ⊢
      refine LoopFrame.trans ?_ ih
      refine LoopFrame.trans ?_ (loopFrame_handleRawMessage _)
      exact LoopFrame.of_eq rfl rfl rfl rfl rfl rfl rfl
  | onRegisterPeer s =>
    obtain ⟨r, hreg, ⟨ss, rfl⟩ | ⟨err, rfl⟩⟩ := onRegisterPeer_ok hr
    · exact (loopFrame_registerPeer hreg).trans (LoopFrame.of_eq rfl rfl rfl rfl rfl rfl rfl)
    · exact (loopFrame_registerPeer hreg).trans
        ⟨.inr ⟨_, rfl⟩, rfl, rfl, rfl, rfl, rfl, rfl, fun _ => HandleGrows.refl _⟩
  | onDeregisterPeer id =>
    simp only [runTask, deregisterPeerByID] at hr
    split at hr
    · cases hr; exact LoopFrame.refl _
    · exact loopFrame_deregisterPeer hr
  | onRegisterHandler t hd =>
    simp only [runTask, registerHandler] at hr
    split at hr
    · cases hr
    · refine LoopFrame.trans ?_ (loopFrame_handlePendingMessages hr)
      exact LoopFrame.of_eq rfl rfl rfl rfl rfl rfl rfl
  | onDeregisterHandler t =>
    cases hr
    simp only [onDeregisterHandler]
    split
    · refine ⟨.inl rfl, rfl, rfl, rfl, rfl, rfl, by simp, fun i => ?_⟩
      simp only [handleAt, getD_set]
      split
      · rename_i hi; rw [← hi.1]
        exact ⟨rfl, rfl, rfl, rfl, rfl, List.prefix_rfl, fun _ => rfl⟩
      · exact HandleGrows.refl _
    · exact LoopFrame.refl _
  | debugDelay => cases hr; exact LoopFrame.refl _

theorem loopFrame_tick (ht : m.tick = .ok m') : LoopFrame m m' := by
  unfold tick at ht
  obtain ⟨ss, hss⟩ := foldl_tickPeer_fst (m := m) m.peers.entries []
  refine foldlM_inv (LoopFrame m) (fun _ _ _ _ h₁ hd => h₁.trans (loopFrame_deregisterPeer hd)) ?_ ht
  rw [hss]
  exact LoopFrame.of_eq rfl rfl rfl rfl rfl rfl rfl

/-! ### Steps outside the task loop -/

/-- The fields a step outside the task loop may change. -/
def EnvFrame (m m' : MessageServer) : Prop :=
  ∃ tq pl ss ak dl, m' = { m with
    taskQueue := tq
    pool := pl
    streams := ss
    acks := ak
    ghost := { m.ghost with delivered := dl } }

theorem envFrame_setHandle (h : Nat) (e : EventHandle) : EnvFrame m (m.setHandle h e) :=
  ⟨_, _, _, _, _, rfl⟩

theorem handleAt_setHandle (h i : Nat) (hd : EventHandle) :
    (m.setHandle h hd).handleAt i = if h = i ∧ h < m.pool.length then hd else m.handleAt i :=
  getD_set _ _ _ _ _

theorem phase_addHandle (t : Topic) (i : Nat) :
    ((m.pool ++ [({ topic := t } : EventHandle)]).getD i default).phase = (m.handleAt i).phase := by
  unfold handleAt
  rcases lt_trichotomy i m.pool.length with hi | rfl | hi
  · rw [List.getD_append _ _ _ _ hi]
  · rw [List.getD_eq_default _ _ le_rfl]; simp; rfl
  · rw [List.getD_eq_default _ _ (by simp; omega), List.getD_eq_default _ _ hi.le]

/-- What a step of a caller of the API, a stream goroutine or the worker pool's callbacks
changes: the queue, the streams and the pool, every handle keeping its phase. -/
structure CallerFrame (m m' : MessageServer) : Prop where
  fields : ∃ tq pl ss, m' = { m with taskQueue := tq, pool := pl, streams := ss }
  phase : ∀ i, (m'.handleAt i).phase = (m.handleAt i).phase

theorem callerFrame_setHandle {h : Nat} {hd : EventHandle} (hp : hd.phase = (m.handleAt h).phase) :
    CallerFrame m (m.setHandle h hd) :=
  ⟨⟨_, _, _, rfl⟩, fun i => by rw [handleAt_setHandle]; split <;> simp_all⟩

theorem CallerFrame.envFrame (hf : CallerFrame m m') : EnvFrame m m' := by
  obtain ⟨⟨tq, pl, ss, rfl⟩, -⟩ := hf
  exact ⟨_, _, _, _, _, rfl⟩

theorem runHandle_envFrame {h : Nat} {ok : Bool} (hs : m.runHandle h ok = some m') :
    EnvFrame m m' := by
  simp only [runHandle] at hs
  split at hs
  · cases hs
  split at hs
  · cases hs
  · cases hs; exact envFrame_setHandle _ _
  · split at hs
    · cases hs; exact envFrame_setHandle _ _
    split at hs
    · cases hs; exact envFrame_setHandle _ _
    split at hs <;> (cases hs; exact envFrame_setHandle _ _)
  · split at hs <;> cases hs
    · exact ⟨_, _, _, _, _, rfl⟩
    · exact envFrame_setHandle _ _
  · cases hs; exact ⟨_, _, _, _, _, rfl⟩

end MessageServer

/-- The steps of the task loop itself. -/
def Label.isLoop : Label → Bool
  | .runTask _ | .runTick | .runCancel => true
  | _ => false

namespace MessageServer

variable {m m' : MessageServer}

theorem step_runHandle {h : Nat} {ok : Bool} (hs : m.step (.runHandle h ok) = some m') :
    m.runHandle h ok = some m' := by
  unfold step at hs
  split at hs
  · cases hs
  · exact hs

theorem step_runTask {order : List TopicSenderPair} (hs : m.step (.runTask order) = some m') :
    ∃ task rest, m.taskQueue = task :: rest ∧ order.Perm m.pendingMessages.keys ∧
      m' = ({ m with taskQueue := rest } : MessageServer).settle
        (({ m with taskQueue := rest } : MessageServer).runTask order task) := by
  unfold step at hs
  split at hs
  · cases hs
  simp only [runNext] at hs
  split at hs
  · cases hs
  · split at hs
    · cases hs; exact ⟨_, _, ‹_›, ‹_›, rfl⟩
    · cases hs

/-- **What a step of a caller of the API, a stream goroutine or the worker pool's callbacks
does**: `AddHandler` appends a handle of its topic and may queue its registration; every other
such step may replace the streams, may replace one handle by one of the same topic and phase
with fewer queued events, and may queue tasks that register no handler, and no batch of the
local channel unless it is the flush of that batch. -/
theorem caller_cases {l : Label} (hl : l.isLoop = false) (hr : ∀ h ok, l ≠ .runHandle h ok)
    (hs : m.step l = some m') :
    (∃ t tasks, tasks ⊆ [.onRegisterHandler t m.pool.length] ∧
      m' = { m with pool := m.pool ++ [{ topic := t }], taskQueue := m.taskQueue ++ tasks }) ∨
    ∃ pl ss tasks, ((∀ t h, ServerTask.onRegisterHandler t h ∉ tasks) ∧
        ∀ es, ServerTask.onRawMessageBatch es ∈ tasks → l = .localBatch es) ∧
      (pl = m.pool ∨ ∃ h hd, pl = m.pool.set h hd ∧ hd.topic = (m.handleAt h).topic ∧
        hd.phase = (m.handleAt h).phase ∧ hd.queue ⊆ (m.handleAt h).queue) ∧
      m' = { m with pool := pl, streams := ss, taskQueue := m.taskQueue ++ tasks } := by
  unfold step at hs
  split at hs
  · cases hs
  cases l with
  | runTask | runTick | runCancel => cases hl
  | runHandle h ok => exact absurd rfl (hr h ok)
  | addHandler t a =>
    cases hs; unfold addHandler; cases a
    · exact .inl ⟨t, [], List.nil_subset _, by rw [List.append_nil]; rfl⟩
    · exact .inl ⟨t, _, List.Subset.refl _, rfl⟩
  | removeHandler t a =>
    cases hs; unfold removeHandler; cases a
    · exact .inr ⟨_, _, [], by simp, .inl rfl, by rw [List.append_nil]; rfl⟩
    · exact .inr ⟨_, _, [_], by simp, .inl rfl, rfl⟩
  | scheduleDeregisterPeer p a =>
    cases hs; unfold scheduleDeregisterPeerTask; cases a
    · exact .inr ⟨_, _, [], by simp, .inl rfl, by rw [List.append_nil]; rfl⟩
    · exact .inr ⟨_, _, [_], by simp, .inl rfl, rfl⟩
  | sendMessage sm =>
    cases hs; unfold sendMessage; split
    · exact .inr ⟨_, _, [], by simp, .inl rfl, by rw [List.append_nil]⟩
    · exact .inr ⟨_, _, [_], by simp, .inl rfl, rfl⟩
  | recvPacket s es =>
    simp only [receivePacket] at hs; split at hs
    · cases hs
    · split at hs
      · cases hs
      split at hs
      · cases hs; exact .inr ⟨_, _, [], by simp, .inl rfl, by rw [List.append_nil]⟩
      · cases hs; exact .inr ⟨_, _, [_], by simp, .inl rfl, rfl⟩
  | closeStream s =>
    simp only [closeStream] at hs; split at hs
    · cases hs
    · split at hs
      · cases hs
      · cases hs; exact .inr ⟨_, _, [], by simp, .inl rfl, by rw [List.append_nil]⟩
  | localBatch es =>
    simp only [localBatch] at hs; split at hs
    · cases hs
    · cases hs; exact .inr ⟨_, _, [_], by simp, .inl rfl, rfl⟩
  | onExit h a =>
    simp only [onExit] at hs; split at hs
    · cases hs
    · cases hs
      split
      · exact .inr ⟨_, _, [_], by simp,
          .inr ⟨h, { m.handleAt h with exitErr := none }, rfl, rfl, rfl, fun _ => id⟩, rfl⟩
      · exact .inr ⟨_, _, [], by simp,
          .inr ⟨h, { m.handleAt h with exitErr := none }, rfl, rfl, rfl, fun _ => id⟩,
          by rw [List.append_nil]; rfl⟩
  | finishUnregister h =>
    simp only [finishUnregister] at hs; split at hs
    · cases hs
      exact .inr ⟨_, _, [], by simp,
        .inr ⟨h, { m.handleAt h with unregistered := true, queue := [] }, rfl, rfl, rfl, List.nil_subset _⟩,
        by rw [List.append_nil]; rfl⟩
    · cases hs

/-- **A step of a caller, a stream goroutine or the worker pool's callbacks** changes only the
queue, the streams and the pool, and leaves every handle in its phase. -/
theorem step_caller {l : Label} (hl : l.isLoop = false) (hr : ∀ h ok, l ≠ .runHandle h ok)
    (hs : m.step l = some m') : CallerFrame m m' := by
  rcases caller_cases hl hr hs with ⟨t, -, -, rfl⟩ | ⟨_, _, _, -, rfl | ⟨h, hd, rfl, -, hp, -⟩, rfl⟩
  · exact ⟨⟨_, _, _, rfl⟩, phase_addHandle t⟩
  · exact ⟨⟨_, _, _, rfl⟩, fun _ => rfl⟩
  · exact ⟨⟨_, _, _, rfl⟩, (callerFrame_setHandle hp).phase⟩

/-- **A step outside the task loop** changes only the queue, the pool, the streams, the acks
and the ghost records of entries and deliveries. -/
theorem step_env {l : Label} (hl : l.isLoop = false) (h : m.step l = some m') : EnvFrame m m' := by
  cases l with
  | runHandle hd ok => exact runHandle_envFrame (step_runHandle h)
  | _ => exact (step_caller hl (fun _ _ h => Label.noConfusion h) h).envFrame

theorem step_running {l : Label} (hs : m.step l = some m') : m.status = .running := by
  unfold step at hs
  split at hs
  · cases hs
  · rename_i h; simpa using h

/-- **The four kinds of step**: one outside the task loop, a task dequeued by `run` (the order
given for `pendingMessages` being one of its keys), a tick, or the cancellation of `run`. -/
theorem step_cases {l : Label} (hs : m.step l = some m') :
    (l.isLoop = false ∧ EnvFrame m m') ∨
    (∃ order task rest, m.taskQueue = task :: rest ∧ order.Perm m.pendingMessages.keys ∧
      m' = ({ m with taskQueue := rest } : MessageServer).settle
        (({ m with taskQueue := rest } : MessageServer).runTask order task)) ∨
    m' = m.settle m.tick ∨ m' = { m with status := .returned .contextCanceled } := by
  cases hl : l.isLoop with
  | false => exact .inl ⟨rfl, step_env hl hs⟩
  | true =>
    unfold step at hs
    split at hs
    · cases hs
    cases l with
    | runTask order =>
      simp only [runNext] at hs
      split at hs
      · cases hs
      · split at hs
        · cases hs; exact .inr (.inl ⟨order, _, _, ‹_›, ‹_›, rfl⟩)
        · cases hs
    | runTick => cases hs; exact .inr (.inr (.inl rfl))
    | runCancel => cases hs; exact .inr (.inr (.inr rfl))
    | _ => cases hl

/-- No step changes the configuration or the ID of the server. -/
theorem step_config {l : Label} (hs : m.step l = some m') :
    m'.config = m.config ∧ m'.serverID = m.serverID := by
  rcases step_cases hs with ⟨-, _, _, _, _, _, rfl⟩ | ⟨order, task, rest, -, -, rfl⟩ | rfl | rfl
  · exact ⟨rfl, rfl⟩
  · cases hr : MessageServer.runTask _ order task with
    | ok m₁ => exact ⟨(loopFrame_runTask hr).config, (loopFrame_runTask hr).serverID⟩
    | error p => exact ⟨rfl, rfl⟩
  · cases ht : m.tick with
    | ok m₁ => exact ⟨(loopFrame_tick ht).config, (loopFrame_tick ht).serverID⟩
    | error p => exact ⟨rfl, rfl⟩
  · exact ⟨rfl, rfl⟩

end MessageServer

end Tiflow.P2p
