import Tiflow.P2p.Frame

/-!
# The peer registry

* `PeersValid` — every pointer of `peers` designates a valid `cdcPeer` created for that ID;
  it holds in every reachable state (`peersValid_of_reachable`);
* `abort_only_on_registered_peers` — every `abort` of a step is on a peer registered when the
  step began, so the `log.Panic` of `abort` is never reached.
-/

namespace Tiflow.P2p

namespace MessageServer

variable {m m' : MessageServer}

theorem lookup_erase_eq_some {K V : Type} [DecidableEq K] {s : Map K V} {a b : K} {v : V} :
    (s.erase a).lookup b = some v ↔ b ≠ a ∧ s.lookup b = some v := by
  by_cases h : b = a
  · subst h; simp
  · simp [AList.lookup_erase_ne h, h]

theorem erase_of_lookup_none {K V : Type} [DecidableEq K] {s : Map K V} {a : K}
    (h : s.lookup a = none) : s.erase a = s :=
  AList.ext (List.kerase_of_not_mem_keys (AList.lookup_eq_none.1 h))

theorem lookup_insert_eq_some {K V : Type} [DecidableEq K] {s : Map K V} {a b : K} {v w : V} :
    (s.insert a w).lookup b = some v ↔ (b = a ∧ w = v) ∨ (b ≠ a ∧ s.lookup b = some v) := by
  by_cases h : b = a
  · subst h; simp
  · simp [AList.lookup_insert_ne h, h]

/-! ### Registered peers are valid -/

/-- Every pointer of `peers` designates a valid peer created for its ID. -/
def PeersValid (m : MessageServer) : Prop :=
  ∀ id p, m.peers.lookup id = some p →
    p < m.peerObjs.length ∧ (m.peerAt p).PeerID = id ∧ (m.peerAt p).valid = true

theorem PeersValid.congr (h : PeersValid m) (hp : m'.peers = m.peers)
    (ho : m'.peerObjs = m.peerObjs) : PeersValid m' := by
  intro id p hl
  rw [hp] at hl
  unfold peerAt
  rw [ho]
  exact h id p hl

theorem PeersValid.erase (h : PeersValid m) (id : NodeID) :
    PeersValid { m with peers := m.peers.erase id } := fun id' p hl =>
  h id' p (lookup_erase_eq_some.1 hl).2

/-- Deregistering keeps the registered peers valid: the aborted pointer is no longer
registered, since its ID was the one deleted. -/
theorem PeersValid.deregisterPeer {p : Nat} {err : Option PeerError} (h : PeersValid m)
    (hd : m.deregisterPeer p err = .ok m') : PeersValid m' := by
  rcases deregisterPeer_ok hd with ⟨-, rfl⟩ | ⟨-, e, ss, -, rfl⟩
  · exact h.erase _
  · intro id q hl
    obtain ⟨hne, hq⟩ := lookup_erase_eq_some.1 hl
    obtain ⟨hlt, hid, hv⟩ := h id q hq
    have hqp : p ≠ q := by rintro rfl; exact hne hid.symm
    simp only [peerAt, List.length_set, List.getD_eq_getElem?_getD, List.getElem?_set_ne hqp] at hlt hid hv ⊢
    exact ⟨hlt, hid, hv⟩

theorem PeersValid.installPeer (h : PeersValid m) (sm : StreamMeta) (s : Nat) :
    PeersValid (m.installPeer sm s) := by
  intro id q hl
  simp only [MessageServer.installPeer, lookup_insert_eq_some] at hl
  rcases hl with ⟨rfl, rfl⟩ | ⟨-, hq⟩
  · simp [MessageServer.installPeer, peerAt, newCDCPeer]
  · obtain ⟨hlt, hid, hv⟩ := h id q hq
    simp only [peerAt, List.getD_eq_getElem?_getD] at hid hv
    simp only [MessageServer.installPeer, peerAt, List.length_append, List.getD_eq_getElem?_getD,
      List.getElem?_append_left hlt]
    exact ⟨by omega, hid, hv⟩

theorem PeersValid.logFate (h : PeersValid m) (t : Nat) (k : TopicSenderPair) (f : Fate) :
    PeersValid (m.logFate t k f) := h.congr rfl rfl

theorem PeersValid.logDispatched (h : PeersValid m) {k : TopicSenderPair} :
    PeersValid (m.logDispatched k) := h.congr rfl rfl

theorem PeersValid.handleMessage {sm : StreamMeta} {e : MessageEntry} (h : PeersValid m)
    (hm : m.handleMessage sm e = .ok m') : PeersValid m' := by
  rcases handleMessage_ok hm with ⟨rfl, -⟩ | ⟨p, -, -, -, hcase⟩
  · exact h.logFate _ _ _
  rcases hcase with ⟨-, -, rfl⟩ | ⟨-, -, hd⟩ | ⟨hd, -, ha | ⟨err, -, hd'⟩⟩
  · exact h.congr rfl rfl
  · refine PeersValid.deregisterPeer ?_ hd
    exact h.congr (by simp [logOverflow_eq, MessageServer.logFate]) (by simp [logOverflow_eq, MessageServer.logFate])
  · obtain ⟨pl, rfl⟩ := addEvent_ok ha
    exact h.congr rfl rfl
  · exact (h.logFate _ _ _).deregisterPeer hd'

theorem PeersValid.handleRawMessage (h : PeersValid m) (e : RawMessageEntry) :
    PeersValid (m.handleRawMessage e) := by
  obtain ⟨pm, pl, fs, he⟩ := handleRawMessage_frame (m := m) e
  rw [he]
  exact h.congr rfl rfl

theorem PeersValid.handlePendingEntry {pe : PendingMessageEntry} (h : PeersValid m)
    (he : m.handlePendingEntry pe = .ok m') : PeersValid m' := by
  cases pe with
  | remote sm e => exact h.handleMessage he
  | raw e => cases he; exact h.handleRawMessage e

theorem PeersValid.drainKey {t : Topic} {k : TopicSenderPair} (h : PeersValid m)
    (hd : m.drainKey t k = .ok m') : PeersValid m' := by
  unfold MessageServer.drainKey at hd
  split at hd
  · cases hd; exact h
  · split at hd
    · rename_i hf
      cases hd
      exact (foldlM_inv PeersValid (fun _ _ _ _ => PeersValid.handlePendingEntry) h hf).congr rfl rfl
    · cases hd

theorem PeersValid.registerHandler {t : Topic} {hd : Nat} {order : List TopicSenderPair}
    (h : PeersValid m) (hr : m.registerHandler t hd order = .ok m') : PeersValid m' := by
  unfold MessageServer.registerHandler at hr
  split at hr
  · cases hr
  · unfold handlePendingMessages at hr
    refine foldlM_inv PeersValid (fun _ _ _ _ ht hd => ht.drainKey hd) ?_ hr
    exact h.congr rfl rfl

theorem PeersValid.registerPeer {s : Nat} {r : MessageServer × Option PeerError}
    (h : PeersValid m) (hr : m.registerPeer s = .ok r) : PeersValid r.1 := by
  rcases registerPeer_ok hr with ⟨-, -, rfl⟩ | ⟨-, -, rfl⟩ | ⟨_, -, -, rfl⟩ |
    ⟨_, _, -, -, hd, rfl⟩ | ⟨_, -, -, rfl⟩
  · exact h.installPeer _ _
  · exact h
  · exact h
  · exact (h.deregisterPeer hd).installPeer _ _
  · exact h

theorem PeersValid.onRegisterPeer {s : Nat} (h : PeersValid m) (hr : m.onRegisterPeer s = .ok m') :
    PeersValid m' := by
  obtain ⟨r, hreg, ⟨ss, rfl⟩ | ⟨err, rfl⟩⟩ := onRegisterPeer_ok hr <;>
    exact (h.registerPeer hreg).congr rfl rfl

theorem PeersValid.tick (h : PeersValid m) (ht : m.tick = .ok m') : PeersValid m' := by
  unfold MessageServer.tick at ht
  obtain ⟨ss, hss⟩ := foldl_tickPeer_fst (m := m) m.peers.entries []
  refine foldlM_inv PeersValid (fun _ _ _ _ ht hd => ht.deregisterPeer hd) ?_ ht
  rw [hss]
  exact h.congr rfl rfl

theorem PeersValid.runTask {order : List TopicSenderPair} {task : ServerTask} (h : PeersValid m)
    (hr : m.runTask order task = .ok m') : PeersValid m' := by
  cases task with
  | onMessageBatch sm es =>
    simp only [MessageServer.runTask, handleMessageBatch] at hr
    refine foldlM_inv PeersValid (fun _ _ _ _ ht hs => ?_) h hr
    exact ht.logDispatched.handleMessage hs
  | onRawMessageBatch es =>
    cases hr
    obtain ⟨pm, pl, fs, ds, nt, he⟩ := handleRawMessageBatch_frame (m := m) es
    rw [he]; exact h.congr rfl rfl
  | onRegisterPeer s => exact h.onRegisterPeer hr
  | onDeregisterPeer id =>
    simp only [MessageServer.runTask, deregisterPeerByID] at hr
    split at hr
    · cases hr; exact h
    · exact h.deregisterPeer hr
  | onRegisterHandler t hd => exact h.registerHandler hr
  | onDeregisterHandler t =>
    cases hr; simp only [MessageServer.onDeregisterHandler]; split <;> exact h.congr rfl rfl
  | debugDelay => cases hr; exact h

theorem PeersValid.settle {r : Except Panic MessageServer} (h : PeersValid m)
    (hr : ∀ m', r = .ok m' → PeersValid m') : PeersValid (m.settle r) := by
  cases r with
  | ok m' => exact hr m' rfl
  | error p => exact h.congr rfl rfl

/-- **Every step keeps the registered peers valid.** -/
theorem PeersValid.step {l : Label} (h : PeersValid m) (hs : m.step l = some m') : PeersValid m' := by
  rcases step_cases hs with ⟨-, _, _, _, _, _, rfl⟩ | ⟨order, task, rest, -, -, rfl⟩ | rfl | rfl
  · exact h.congr rfl rfl
  · exact PeersValid.settle (h.congr rfl rfl) fun _ => PeersValid.runTask (h.congr rfl rfl)
  · exact h.settle fun _ => h.tick
  · exact h.congr rfl rfl

/-! ### The task loop never reaches the panic of `abort` -/

theorem handleMessageBatch_exists (sm : StreamMeta) (es : List MessageEntry) :
    ∃ m', m.handleMessageBatch sm es = .ok m' := by
  obtain ⟨m', h, -⟩ := foldlM_ok (l := es) (s := m) (fun _ => True)
    (fun e _ t _ => (handleMessage_exists (m := t.logDispatched ⟨e.Topic, sm.SenderId⟩) sm _).imp
      fun _ h => ⟨h, trivial⟩) trivial
  exact ⟨m', h⟩

theorem handlePendingMessages_exists (t : Topic) (order : List TopicSenderPair) :
    ∃ m', m.handlePendingMessages t order = .ok m' := by
  have hpe : ∀ (pe : PendingMessageEntry) (m : MessageServer), ∃ m', m.handlePendingEntry pe = .ok m' := by
    intro pe m; cases pe with
    | remote sm e => exact handleMessage_exists sm e
    | raw e => exact ⟨_, rfl⟩
  have hdk : ∀ (k : TopicSenderPair) (m : MessageServer), ∃ m', m.drainKey t k = .ok m' := by
    intro k m
    unfold MessageServer.drainKey
    split
    · exact ⟨_, rfl⟩
    · obtain ⟨m₁, h, -⟩ := foldlM_ok (l := (m.pendingMessages.lookup k).getD []) (s := m)
        (fun _ => True) (fun pe _ t _ => (hpe pe t).imp fun _ h => ⟨h, trivial⟩) trivial
      rw [h]; exact ⟨_, rfl⟩
  obtain ⟨m', h, -⟩ := foldlM_ok (l := order) (s := m) (f := fun m k => m.drainKey t k)
    (fun _ => True) (fun k _ t _ => (hdk k t).imp fun _ h => ⟨h, trivial⟩) trivial
  exact ⟨m', h⟩

theorem registerPeer_exists (h : PeersValid m) (s : Nat) : ∃ r, m.registerPeer s = .ok r := by
  simp only [MessageServer.registerPeer]
  split
  · split <;> exact ⟨_, rfl⟩
  · rename_i p hl
    split
    · exact ⟨_, rfl⟩
    split
    · obtain ⟨m₁, h₁⟩ := deregisterPeer_ok_of_valid (m := m) (p := p)
        (some (.staleConnection (m.peerAt p).Epoch (m.streams.getD s default).streamMeta.Epoch))
        (h _ _ hl).2.2
      rw [h₁]; exact ⟨_, rfl⟩
    · exact ⟨_, rfl⟩

theorem tick_exists : ∃ m', m.tick = .ok m' := by
  unfold MessageServer.tick
  obtain ⟨m', h, -⟩ := foldlM_ok (l := (m.peers.entries.foldl tickPeer (m, [])).2)
    (s := (m.peers.entries.foldl tickPeer (m, [])).1) (f := fun m p => m.deregisterPeer p none)
    (fun _ => True) (fun _ _ _ _ => ⟨_, rfl, trivial⟩) trivial
  exact ⟨m', h⟩

/-- Under `PeersValid`, the only panic of a task is a second handler for a topic. -/
theorem runTask_error {order : List TopicSenderPair} {task : ServerTask} {p : Panic}
    (h : PeersValid m) (hr : m.runTask order task = .error p) : ∃ t, p = .duplicateHandlers t := by
  cases task with
  | onMessageBatch sm es =>
    obtain ⟨m', h'⟩ := handleMessageBatch_exists (m := m) sm es
    simp only [MessageServer.runTask, h'] at hr; cases hr
  | onRawMessageBatch es => cases hr
  | onRegisterPeer s =>
    obtain ⟨⟨m₁, err⟩, hr'⟩ := registerPeer_exists h s
    simp only [MessageServer.runTask, MessageServer.onRegisterPeer, hr'] at hr
    cases err with
    | none => cases hr
    | some e =>
      simp only at hr
      split at hr
      · split at hr <;> cases hr
      · cases hr
  | onDeregisterPeer id =>
    simp only [MessageServer.runTask, deregisterPeerByID] at hr
    split at hr
    · cases hr
    · simp [MessageServer.deregisterPeer] at hr
  | onRegisterHandler t hd =>
    simp only [MessageServer.runTask, MessageServer.registerHandler] at hr
    split at hr
    · cases hr; exact ⟨t, rfl⟩
    · obtain ⟨m', h'⟩ := handlePendingMessages_exists (m := { m with handlers := m.handlers.insert t hd }) t order
      rw [h'] at hr; cases hr
  | onDeregisterHandler t => cases hr
  | debugDelay => cases hr

/-! ### What a task does to the registry -/

/-- The ID and epoch of every `cdcPeer` created so far, in creation order: the streams the
registry has accepted. -/
def accepted (m : MessageServer) : List (NodeID × Int) :=
  m.peerObjs.map fun q => (q.PeerID, q.Epoch)

theorem accepted_installPeer (sm : StreamMeta) (s : Nat) :
    (m.installPeer sm s).accepted = m.accepted ++ [(sm.SenderId, sm.Epoch)] := by
  simp [MessageServer.installPeer, accepted, newCDCPeer]

/-- Marking a peer invalid keeps the accepted streams. -/
theorem accepted_set_invalid (m : MessageServer) (p : Nat) :
    (m.peerObjs.set p { m.peerAt p with valid := false }).map (fun q => (q.PeerID, q.Epoch)) =
      m.accepted := by
  refine List.ext_getElem? fun j => ?_
  simp only [accepted, List.getElem?_map, List.getElem?_set]
  split
  · next h =>
    subst h
    split
    · next hp => simp [peerAt, List.getElem?_eq_getElem hp]
    · next hp => simp [List.getElem?_eq_none (Nat.le_of_not_lt hp)]
  · rfl

/-- Every `abort` between `m₀` and `m` was on a peer registered at `m₀`. -/
def AbortedFrom (m₀ m : MessageServer) : Prop :=
  ∃ new, m.ghost.aborted = m₀.ghost.aborted ++ new ∧ ∀ p ∈ new, ∃ id, m₀.peers.lookup id = some p

/-- Between `m₀` and `m` the registry only lost IDs: no ID received a new pointer, no stream
was accepted, and every `abort` was on a peer registered at `m₀`. -/
structure AbortsFrom (m₀ m : MessageServer) : Prop where
  sub : ∀ id p, m.peers.lookup id = some p → m₀.peers.lookup id = some p
  accepted : m.accepted = m₀.accepted
  aborted : AbortedFrom m₀ m

theorem AbortsFrom.refl (m : MessageServer) : AbortsFrom m m :=
  ⟨fun _ _ h => h, rfl, [], by simp, by simp⟩

theorem AbortsFrom.congr {m₀ : MessageServer} (h : AbortsFrom m₀ m) (hp : m'.peers = m.peers)
    (ho : m'.peerObjs = m.peerObjs) (ha : m'.ghost.aborted = m.ghost.aborted) :
    AbortsFrom m₀ m' :=
  ⟨by rw [hp]; exact h.sub, by rw [MessageServer.accepted, ho]; exact h.accepted,
    by rw [AbortedFrom, ha]; exact h.aborted⟩

theorem AbortsFrom.deregisterPeer {m₀ : MessageServer} {p : Nat} {err : Option PeerError}
    (h : AbortsFrom m₀ m) (hp : err = none ∨ ∃ id, m.peers.lookup id = some p)
    (hd : m.deregisterPeer p err = .ok m') : AbortsFrom m₀ m' := by
  obtain ⟨hsub, hacc, new, hnew, hreg⟩ := h
  have hsub' : ∀ id q, (m.peers.erase (m.peerAt p).PeerID).lookup id = some q →
      m₀.peers.lookup id = some q := fun id q hl => hsub id q (lookup_erase_eq_some.1 hl).2
  rcases deregisterPeer_ok hd with ⟨-, rfl⟩ | ⟨-, e, ss, rfl, rfl⟩
  · exact ⟨hsub', hacc, new, hnew, hreg⟩
  · obtain ⟨id, hid⟩ := hp.resolve_left (by simp)
    refine ⟨hsub', (accepted_set_invalid m p).trans hacc, new ++ [p], by simp [hnew], ?_⟩
    intro q hq
    rcases List.mem_append.1 hq with hq | hq
    · exact hreg q hq
    · rw [List.mem_singleton.1 hq]; exact ⟨id, hsub id p hid⟩

theorem AbortsFrom.handleMessage {m₀ : MessageServer} {sm : StreamMeta} {e : MessageEntry}
    (h : AbortsFrom m₀ m) (hm : m.handleMessage sm e = .ok m') : AbortsFrom m₀ m' := by
  rcases handleMessage_ok hm with ⟨rfl, -⟩ | ⟨p, hl, -, -, hcase⟩
  · exact h.congr rfl rfl rfl
  rcases hcase with ⟨-, -, rfl⟩ | ⟨-, -, hd⟩ | ⟨hd, -, ha | ⟨err, -, hd'⟩⟩
  · exact h.congr rfl rfl rfl
  · rw [logOverflow_eq] at hd
    refine AbortsFrom.deregisterPeer ?_ ?_ hd
    · exact h.congr rfl rfl rfl
    · exact .inr ⟨sm.SenderId, hl⟩
  · obtain ⟨pl, rfl⟩ := addEvent_ok ha
    exact h.congr rfl rfl rfl
  · refine AbortsFrom.deregisterPeer (m := m.logFate _ _ _) ?_ (.inr ⟨sm.SenderId, hl⟩) hd'
    exact h.congr rfl rfl rfl

theorem AbortsFrom.handleRawMessage {m₀ : MessageServer} (h : AbortsFrom m₀ m)
    (e : RawMessageEntry) : AbortsFrom m₀ (m.handleRawMessage e) := by
  obtain ⟨pm, pl, fs, he⟩ := handleRawMessage_frame (m := m) e
  rw [he]
  exact h.congr rfl rfl rfl

theorem AbortsFrom.handlePendingMessages {m₀ : MessageServer} {t : Topic}
    {order : List TopicSenderPair} (h : AbortsFrom m₀ m)
    (hd : m.handlePendingMessages t order = .ok m') : AbortsFrom m₀ m' := by
  unfold MessageServer.handlePendingMessages at hd
  refine foldlM_inv (AbortsFrom m₀) (fun k _ t₁ t₂ h₁ hk => ?_) h hd
  unfold MessageServer.drainKey at hk
  split at hk
  · cases hk; exact h₁
  · split at hk
    · rename_i hf
      cases hk
      refine (foldlM_inv (AbortsFrom m₀) (fun pe _ u₁ u₂ hu he => ?_) h₁ hf).congr rfl rfl rfl
      cases pe with
      | remote sm e => exact hu.handleMessage he
      | raw e => cases he; exact hu.handleRawMessage e
    · cases hk

/-- `m'` is `m` after `registerPeer` accepted the stream `sm`: its sender points at a new
peer, in place of no peer while at most `MaxPeerCount` were registered, or of a peer with an
older epoch, which was aborted. -/
structure Accepts (m m' : MessageServer) (sm : StreamMeta) : Prop where
  accepted : m'.accepted = m.accepted ++ [(sm.SenderId, sm.Epoch)]
  peers : m'.peers = (m.peers.erase sm.SenderId).insert sm.SenderId m.peerObjs.length
  rule : (m.peers.lookup sm.SenderId = none ∧ (m.peers.entries.length : Int) ≤ m.config.MaxPeerCount) ∨
    ∃ p, m.peers.lookup sm.SenderId = some p ∧ (m.peerAt p).Epoch < sm.Epoch
  aborted : AbortedFrom m m'

/-- **What `registerPeer` does to the registry**: nothing, with an error, or it accepts the
stream. -/
theorem registerPeer_registry {s : Nat} {r : MessageServer × Option PeerError} (hv : PeersValid m)
    (hr : m.registerPeer s = .ok r) :
    (r.1 = m ∧ r.2 ≠ none) ∨ (r.2 = none ∧ Accepts m r.1 (m.streams.getD s default).streamMeta) := by
  rcases registerPeer_ok hr with ⟨hl, hc, rfl⟩ | ⟨-, -, rfl⟩ | ⟨_, -, -, rfl⟩ |
    ⟨p, m₁, hl, he, hd, rfl⟩ | ⟨_, -, -, rfl⟩
  · refine .inr ⟨rfl, accepted_installPeer _ _, ?_, .inl ⟨hl, hc⟩, (AbortsFrom.refl m).aborted⟩
    rw [erase_of_lookup_none hl]; rfl
  · exact .inl ⟨rfl, by simp⟩
  · exact .inl ⟨rfl, by simp⟩
  · have h₁ := (AbortsFrom.refl m).deregisterPeer (.inr ⟨_, hl⟩) hd
    have hpeers : m₁.peers = m.peers.erase (m.streams.getD s default).streamMeta.SenderId := by
      rw [← (hv _ _ hl).2.1]
      rcases deregisterPeer_ok hd with ⟨-, rfl⟩ | ⟨-, e, ss, -, rfl⟩ <;> rfl
    have hlen : m₁.peerObjs.length = m.peerObjs.length := by
      simpa [accepted] using congrArg List.length h₁.accepted
    refine .inr ⟨rfl, ?_, ?_, .inr ⟨p, hl, he⟩, h₁.aborted⟩
    · rw [accepted_installPeer, h₁.accepted]
    · rw [MessageServer.installPeer, hpeers, hlen]
  · exact .inl ⟨rfl, by simp⟩

/-- **What a task does to the registry**: it deletes IDs and aborts registered peers, or it is
`taskOnRegisterPeer` and accepts its stream. -/
theorem runTask_registry {order : List TopicSenderPair} {task : ServerTask} (hv : PeersValid m)
    (hr : m.runTask order task = .ok m') :
    AbortsFrom m m' ∨ ∃ s, task = .onRegisterPeer s ∧
      Accepts m m' (m.streams.getD s default).streamMeta := by
  cases task with
  | onMessageBatch sm es =>
    simp only [MessageServer.runTask, handleMessageBatch] at hr
    refine .inl (foldlM_inv (AbortsFrom m) (fun e _ t₁ t₂ h₁ he => ?_) (AbortsFrom.refl m) hr)
    refine AbortsFrom.handleMessage ?_ he
    exact h₁.congr rfl rfl rfl
  | onRawMessageBatch es =>
    cases hr
    obtain ⟨pm, pl, fs, ds, nt, he⟩ := handleRawMessageBatch_frame (m := m) es
    rw [he]
    exact .inl ((AbortsFrom.refl m).congr rfl rfl rfl)
  | onRegisterPeer s =>
    obtain ⟨⟨m₁, err⟩, hreg, hm⟩ := onRegisterPeer_ok hr
    rcases registerPeer_registry hv hreg with ⟨rfl, -⟩ | ⟨-, h⟩
    · -- refused: the registry is as it was
      rcases hm with ⟨ss, rfl⟩ | ⟨e, rfl⟩ <;> exact .inl ((AbortsFrom.refl _).congr rfl rfl rfl)
    · -- accepted, whatever the loop then does with the stream or the status
      rcases hm with ⟨ss, rfl⟩ | ⟨e, rfl⟩ <;>
        exact .inr ⟨s, rfl, h.accepted, h.peers, h.rule, h.aborted⟩
  | onDeregisterPeer id =>
    simp only [MessageServer.runTask, deregisterPeerByID] at hr
    split at hr
    · cases hr; exact .inl (AbortsFrom.refl m)
    · exact .inl ((AbortsFrom.refl m).deregisterPeer (.inl rfl) hr)
  | onRegisterHandler t hd =>
    simp only [MessageServer.runTask, MessageServer.registerHandler] at hr
    split at hr
    · cases hr
    · refine .inl (AbortsFrom.handlePendingMessages ?_ hr)
      exact (AbortsFrom.refl m).congr rfl rfl rfl
  | onDeregisterHandler t =>
    cases hr; simp only [MessageServer.onDeregisterHandler]
    split <;> exact .inl ((AbortsFrom.refl m).congr rfl rfl rfl)
  | debugDelay => cases hr; exact .inl (AbortsFrom.refl m)

/-- The status after a step of a server whose registered peers are valid: still running, or
`run` returned, or it panicked on a second handler for a topic. -/
theorem step_status {l : Label} (hv : PeersValid m) (hs : m.step l = some m') :
    m'.status = .running ∨ (∃ e, m'.status = .returned e) ∨
      ∃ t, m'.status = .panicked (.duplicateHandlers t) := by
  have hrun := step_running hs
  rcases step_cases hs with ⟨-, _, _, _, _, _, rfl⟩ | ⟨order, task, rest, -, -, rfl⟩ | rfl | rfl
  · exact .inl hrun
  · cases hr : MessageServer.runTask _ order task with
    | ok m₁ =>
      rcases (loopFrame_runTask hr).status with h | h
      · exact .inl (h.trans hrun)
      · exact .inr (.inl h)
    | error p =>
      obtain ⟨t, rfl⟩ := runTask_error (by exact hv.congr rfl rfl) hr
      exact .inr (.inr ⟨t, rfl⟩)
  · obtain ⟨m₁, ht⟩ := tick_exists (m := m)
    rw [ht]
    rcases (loopFrame_tick ht).status with h | h
    · exact .inl (h.trans hrun)
    · exact .inr (.inl h)
  · exact .inr (.inl ⟨_, rfl⟩)

/-- **What a step does to the registry**: it deletes IDs and aborts registered peers, or it
accepts one stream. -/
theorem step_registry {l : Label} (hv : PeersValid m) (hs : m.step l = some m') :
    AbortsFrom m m' ∨ ∃ sm, Accepts m m' sm := by
  rcases step_cases hs with ⟨-, _, _, _, _, _, rfl⟩ | ⟨order, task, rest, -, -, rfl⟩ | rfl | rfl
  · exact .inl ((AbortsFrom.refl m).congr rfl rfl rfl)
  · cases hr : MessageServer.runTask _ order task with
    | ok m₁ =>
      rcases runTask_registry (by exact hv.congr rfl rfl) hr with h | ⟨s, -, h⟩
      · exact .inl ⟨h.sub, h.accepted, h.aborted⟩
      · exact .inr ⟨_, h.accepted, h.peers, h.rule, h.aborted⟩
    | error p => exact .inl ((AbortsFrom.refl m).congr rfl rfl rfl)
  · obtain ⟨m₁, ht⟩ := tick_exists (m := m)
    rw [ht]
    unfold MessageServer.tick at ht
    obtain ⟨ss, hss⟩ := foldl_tickPeer_fst (m := m) m.peers.entries []
    refine .inl (foldlM_inv (AbortsFrom m) (fun _ _ _ _ h₁ hd => h₁.deregisterPeer (.inl rfl) hd) ?_ ht)
    rw [hss]
    exact (AbortsFrom.refl m).congr rfl rfl rfl
  · exact .inl ((AbortsFrom.refl m).congr rfl rfl rfl)

/-- The aborts of a step are on peers registered when the step began. -/
theorem step_aborts {l : Label} (hv : PeersValid m) (hs : m.step l = some m') :
    AbortedFrom m m' := by
  rcases step_registry hv hs with h | ⟨_, h⟩
  · exact h.aborted
  · exact h.aborted

end MessageServer

theorem peersValid_of_reachable {m : MessageServer} (h : Reachable m) : m.PeersValid := by
  induction h with
  | init => intro id p hl; simp [newMessageServer] at hl
  | step l _ hs ih => exact ih.step hs

/-- **No `abort` on an invalid peer.** In every reachable state every registered peer is
valid, `run` has not reached the panic of `abort`, and every `abort` a step makes is on a peer
registered when the step began. -/
theorem abort_only_on_registered_peers {m : MessageServer} (hr : Reachable m) :
    m.PeersValid ∧ (∀ id, m.status ≠ .panicked (.abortingInvalidPeer id)) ∧
    ∀ l m', m.step l = some m' → ∃ new, m'.ghost.aborted = m.ghost.aborted ++ new ∧
      ∀ p ∈ new, ∃ id, m.peers.lookup id = some p := by
  refine ⟨peersValid_of_reachable hr, ?_, fun l m' hs => MessageServer.step_aborts (peersValid_of_reachable hr) hs⟩
  induction hr with
  | init => intro id h; simp [newMessageServer] at h
  | step l hr hs _ =>
    intro id h
    rcases MessageServer.step_status (peersValid_of_reachable hr) hs with h' | ⟨e, h'⟩ | ⟨t, h'⟩ <;>
      rw [h'] at h <;> cases h

theorem abort_only_on_registered_peers_after_registration :
    let m := ((newMessageServer "s" ⟨4, 4⟩).exec [.sendMessage (some ⟨"a", "s", 1⟩), .runTask []]).get
      (by decide)
    m.PeersValid ∧ (∀ id, m.status ≠ .panicked (.abortingInvalidPeer id)) ∧
    ∀ l m', m.step l = some m' → ∃ new, m'.ghost.aborted = m.ghost.aborted ++ new ∧
      ∀ p ∈ new, ∃ id, m.peers.lookup id = some p :=
  abort_only_on_registered_peers (Reachable.exec_get _ _ _ _)

end Tiflow.P2p
