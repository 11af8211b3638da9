import Tiflow.P2p.Callers
import Tiflow.P2p.PeerRegistry

/-!
# Registering handlers: when `run` panics

`AddHandler` queues a `taskOnRegisterHandler` without waiting for it; `RemoveHandler` and the
`OnExit` of a handle queue a `taskOnDeregisterHandler`; `run` executes the tasks in queue order,
and `registerHandler` panics when its topic already has a handler. So whether `run` panics is
decided by the order in which the registrations and deregistrations of a topic sit in the queue,
not by when their callers ran: a caller that removes a handler and adds one again without
waiting for the removal is safe, since the deregistration runs first.

* `ServerTask.replayHandler`, `topicAfterQueue` — whether a topic has a handler once `run` has
  executed every queued task, `none` when a queued registration would find it registered;
* `replayHandler_runTask` — a task changes the handler table only as its replay says;
* `runTask_ok` — with valid peers, a task fails only when it registers a handler for a topic
  that has one;
* `ReachableFreeAdds`, `run_never_panics` — on every run where `AddHandler` is called only for a
  topic that is free once the queued tasks have run, no queued registration ever finds its topic
  registered, and `run` never panics.
-/

namespace Tiflow.P2p

/-- Whether topic `t` has a handler after `run` executes a task, from whether it had one before;
`none` when the task registers a handler for `t` while it has one. -/
def ServerTask.replayHandler (t : Topic) (has : Bool) : ServerTask → Option Bool
  | .onRegisterHandler t' _ => if t' = t then (if has then none else some true) else some has
  | .onDeregisterHandler t' => if t' = t then some false else some has
  | _ => some has

namespace MessageServer

variable (m : MessageServer)

/-- Whether topic `t` has a handler once `run` has executed every queued task; `none` when a
queued registration would find `t` registered. -/
def topicAfterQueue (t : Topic) : Option Bool :=
  m.taskQueue.foldlM (ServerTask.replayHandler t) (decide (t ∈ m.handlers))

/-- No queued registration will find its topic registered. -/
def RegistrationsFree : Prop := ∀ t, (m.topicAfterQueue t).isSome

/-! ### The handler table under each operation -/

variable {m} {m' : MessageServer}

theorem handlers_deregisterPeer {p : Nat} {err : Option PeerError}
    (hd : m.deregisterPeer p err = .ok m') : m'.handlers = m.handlers := by
  rcases deregisterPeer_ok hd with ⟨-, rfl⟩ | ⟨-, _, _, -, rfl⟩ <;> rfl

theorem handlers_handleMessage {sm : StreamMeta} {e : MessageEntry}
    (h : m.handleMessage sm e = .ok m') : m'.handlers = m.handlers := by
  rcases handleMessage_ok h with
    ⟨rfl, -⟩ | ⟨p, -, -, -, ⟨-, -, rfl⟩ | ⟨-, -, hd⟩ | ⟨hdl, hl, ha | ⟨err, -, hd⟩⟩⟩
  · rfl
  · rfl
  · rw [logOverflow_eq] at hd; exact (handlers_deregisterPeer hd).trans rfl
  · obtain ⟨pl, rfl⟩ := addEvent_ok ha; rfl
  · exact (handlers_deregisterPeer hd).trans rfl

theorem handlers_handleRawMessage (e : RawMessageEntry) :
    (m.handleRawMessage e).handlers = m.handlers := by
  simp only [handleRawMessage]
  split
  · split
    · rw [logOverflow_eq]
    · rfl
  · split
    · obtain ⟨pl, rfl⟩ := addEvent_ok ‹_›; rfl
    · rfl

theorem handlers_handleRawMessageBatch (es : List RawMessageEntry) :
    (m.handleRawMessageBatch es).handlers = m.handlers := by
  induction es generalizing m with
  | nil => rfl
  | cons e es ih => exact (ih (m := _)).trans (handlers_handleRawMessage _)

theorem handlers_handlePendingEntry {x : PendingMessageEntry} (h : m.handlePendingEntry x = .ok m') :
    m'.handlers = m.handlers := by
  cases x with
  | remote sm e => exact handlers_handleMessage h
  | raw e => cases h; exact handlers_handleRawMessage e

theorem handlers_handlePendingMessages {t : Topic} {order : List TopicSenderPair}
    (h : m.handlePendingMessages t order = .ok m') : m'.handlers = m.handlers := by
  refine foldlM_inv (fun u => u.handlers = m.handlers) (fun k _ u u' hu hd => ?_) rfl h
  unfold drainKey at hd
  split at hd
  · cases hd; exact hu
  · split at hd
    · rename_i hf
      cases hd
      exact foldlM_inv (fun v => v.handlers = m.handlers)
        (fun _ _ _ _ hv hp => (handlers_handlePendingEntry hp).trans hv) hu hf
    · cases hd

theorem handlers_registerPeer {s : Nat} {r : MessageServer × Option PeerError}
    (hr : m.registerPeer s = .ok r) : r.1.handlers = m.handlers := by
  rcases registerPeer_ok hr with ⟨-, -, rfl⟩ | ⟨-, -, rfl⟩ | ⟨_, -, -, rfl⟩ |
    ⟨_, _, -, -, hd, rfl⟩ | ⟨_, -, -, rfl⟩
  · rfl
  · rfl
  · rfl
  · exact (handlers_deregisterPeer hd).trans rfl
  · rfl

theorem handlers_tick (ht : m.tick = .ok m') : m'.handlers = m.handlers := by
  unfold tick at ht
  obtain ⟨ss, hss⟩ := foldl_tickPeer_fst (m := m) m.peers.entries []
  refine foldlM_inv (fun u => u.handlers = m.handlers)
    (fun _ _ _ _ hu hd => (handlers_deregisterPeer hd).trans hu) ?_ ht
  rw [hss]

/-- **A task changes the handler table only as its replay says**: a registration adds its
topic, a deregistration deletes it, and no other task touches the table. -/
theorem replayHandler_runTask {order : List TopicSenderPair} {task : ServerTask}
    (hr : m.runTask order task = .ok m') (t : Topic) :
    task.replayHandler t (decide (t ∈ m.handlers)) = some (decide (t ∈ m'.handlers)) := by
  have hsame : m'.handlers = m.handlers →
      some (decide (t ∈ m.handlers)) = some (decide (t ∈ m'.handlers)) := fun h => by rw [h]
  cases task with
  | onMessageBatch sm es =>
    simp only [runTask, handleMessageBatch] at hr
    exact hsame (foldlM_inv (fun u => u.handlers = m.handlers)
      (fun _ _ _ _ hu he => (handlers_handleMessage he).trans hu) rfl hr)
  | onRawMessageBatch es => cases hr; exact hsame (handlers_handleRawMessageBatch es)
  | onRegisterPeer s =>
    obtain ⟨r, hreg, ⟨ss, rfl⟩ | ⟨err, rfl⟩⟩ := onRegisterPeer_ok hr <;>
      exact hsame (handlers_registerPeer hreg)
  | onDeregisterPeer id =>
    simp only [runTask, deregisterPeerByID] at hr
    split at hr
    · cases hr; exact hsame rfl
    · exact hsame (handlers_deregisterPeer hr)
  | onRegisterHandler t' h =>
    simp only [runTask, registerHandler] at hr
    split at hr
    · cases hr
    · rename_i hn
      rw [handlers_handlePendingMessages hr]
      by_cases ht : t' = t
      · subst ht; simp [ServerTask.replayHandler, hn]
      · simp [ServerTask.replayHandler, ht, AList.mem_insert, Ne.symm ht]
  | onDeregisterHandler t' =>
    cases hr
    unfold onDeregisterHandler
    cases hl : m.handlers.lookup t' with
    | some h =>
      by_cases ht : t' = t
      · subst ht; simp [ServerTask.replayHandler, AList.mem_erase]
      · simp [ServerTask.replayHandler, ht, AList.mem_erase, Ne.symm ht]
    | none =>
      by_cases ht : t' = t
      · subst ht; simp [ServerTask.replayHandler, AList.lookup_eq_none.1 hl]
      · simp [ServerTask.replayHandler, ht]
  | debugDelay => cases hr; rfl

/-- **With valid peers, a task fails only when it registers a handler for a topic that has
one.** -/
theorem runTask_ok (hv : m.PeersValid) {order : List TopicSenderPair} {task : ServerTask}
    (hfree : ∀ t h, task = .onRegisterHandler t h → t ∉ m.handlers) :
    ∃ m', m.runTask order task = .ok m' := by
  cases task with
  | onMessageBatch sm es => exact handleMessageBatch_exists sm es
  | onRawMessageBatch es => exact ⟨_, rfl⟩
  | onRegisterPeer s =>
    obtain ⟨⟨m₁, err⟩, hr⟩ := registerPeer_exists hv s
    simp only [runTask, onRegisterPeer, hr]
    cases err with
    | none => exact ⟨_, rfl⟩
    | some e =>
      dsimp only
      split
      · split <;> exact ⟨_, rfl⟩
      · exact ⟨_, rfl⟩
  | onDeregisterPeer id => simp only [runTask, deregisterPeerByID]; split <;> exact ⟨_, rfl⟩
  | onRegisterHandler t h =>
    simp only [runTask, registerHandler, if_neg (hfree t h rfl)]
    exact handlePendingMessages_exists t order
  | onDeregisterHandler t => exact ⟨_, rfl⟩
  | debugDelay => exact ⟨_, rfl⟩

/-! ### Replaying the queue -/

theorem foldlM_replayHandler_isSome {tasks : List ServerTask}
    (h : ∀ t n, ServerTask.onRegisterHandler t n ∉ tasks) (t : Topic) (b : Bool) :
    (tasks.foldlM (ServerTask.replayHandler t) b).isSome := by
  induction tasks generalizing b with
  | nil => rfl
  | cons task rest ih =>
    have hr : ∃ b', task.replayHandler t b = some b' := by
      cases task with
      | onRegisterHandler t' n => exact absurd (List.mem_cons_self _ _) (h t' n)
      | onDeregisterHandler t' => simp only [ServerTask.replayHandler]; split <;> exact ⟨_, rfl⟩
      | _ => exact ⟨_, rfl⟩
    obtain ⟨b', hb⟩ := hr
    rw [List.foldlM_cons, hb]
    exact ih (fun t n hm => h t n (List.mem_cons_of_mem _ hm)) b'

theorem topicAfterQueue_append {tasks : List ServerTask} (hh : m'.handlers = m.handlers)
    (hq : m'.taskQueue = m.taskQueue ++ tasks) (t : Topic) :
    m'.topicAfterQueue t = (m.topicAfterQueue t).bind (tasks.foldlM (ServerTask.replayHandler t)) := by
  rw [topicAfterQueue, hh, hq, List.foldlM_append]; rfl

theorem topicAfterQueue_congr (hh : m'.handlers = m.handlers) (hq : m'.taskQueue = m.taskQueue) :
    m'.topicAfterQueue = m.topicAfterQueue := by
  funext t; rw [topicAfterQueue, hh, hq, topicAfterQueue]

/-- The head task of a queue whose registrations are free does not register a topic that has a
handler. -/
theorem RegistrationsFree.head {task : ServerTask} {rest : List ServerTask}
    (hf : m.RegistrationsFree) (hq : m.taskQueue = task :: rest) :
    ∀ t n, task = .onRegisterHandler t n → t ∉ m.handlers := by
  rintro t n rfl hm
  have := hf t
  simp [topicAfterQueue, hq, ServerTask.replayHandler, hm] at this

theorem notPanicked_of_loopFrame (hl : LoopFrame m m') (hrun : m.status = .running) :
    ∀ p, m'.status ≠ .panicked p := by
  rcases hl.status with h | ⟨e, h⟩ <;> simp [h, hrun]

end MessageServer

/-- The topic whose registration a step queues: that of an accepted `AddHandler`. -/
def Label.registers : Label → Option Topic
  | .addHandler t true => some t
  | _ => none

/-- **The discipline of the callers of `AddHandler`**: an accepted call is made only for a topic
that has no handler once the queued tasks have run. -/
def Label.AddsFree (l : Label) (m : MessageServer) : Prop :=
  ∀ t ∈ l.registers, m.topicAfterQueue t = some false

instance (l : Label) (m : MessageServer) : Decidable (l.AddsFree m) :=
  inferInstanceAs (Decidable (∀ t ∈ l.registers, _))

namespace MessageServer

variable {m m' : MessageServer}

/-- **The step lemma**: a step that keeps the discipline, from a state with valid peers whose
queued registrations are free, leads to a state whose queued registrations are free and where
`run` has not panicked. -/
theorem RegistrationsFree.step (hf : m.RegistrationsFree) (hv : m.PeersValid) {l : Label}
    (ha : l.AddsFree m) (hs : m.step l = some m') :
    m'.RegistrationsFree ∧ ∀ p, m'.status ≠ .panicked p := by
  have hrun := step_running hs
  rcases step_cases hs with ⟨hl, hf'⟩ | ⟨order, task, rest, hq, -, rfl⟩ | rfl | rfl
  · have hst : m'.status = m.status := by obtain ⟨_, _, _, _, _, rfl⟩ := hf'; rfl
    refine ⟨fun t => ?_, by simp [hst, hrun]⟩
    obtain ⟨hh, ⟨tasks, hq, ⟨t', rfl, rfl⟩ | hn, -⟩, -⟩ := step_callerEffect hl hs
    · rw [topicAfterQueue_append hh hq]
      by_cases ht : t' = t
      · subst ht; simp [ha t' rfl, ServerTask.replayHandler]
      · obtain ⟨b, hb⟩ := Option.isSome_iff_exists.1 (hf t)
        simp [hb, ServerTask.replayHandler, ht]
    · rw [topicAfterQueue_append hh hq]
      obtain ⟨b, hb⟩ := Option.isSome_iff_exists.1 (hf t)
      rw [hb]; exact foldlM_replayHandler_isSome hn t b
  · obtain ⟨m₁, hr⟩ := runTask_ok (m := { m with taskQueue := rest }) hv (hf.head hq)
    have hl := loopFrame_runTask hr
    rw [hr, settle]
    refine ⟨fun t => ?_, notPanicked_of_loopFrame hl hrun⟩
    have := hf t
    rw [topicAfterQueue, hq, List.foldlM_cons, replayHandler_runTask hr t] at this
    rw [topicAfterQueue, hl.taskQueue]
    exact this
  · obtain ⟨m₁, ht⟩ := tick_exists (m := m)
    have hl := loopFrame_tick ht
    rw [ht, settle]
    exact ⟨fun t => topicAfterQueue_congr (handlers_tick ht) hl.taskQueue ▸ hf t,
      notPanicked_of_loopFrame hl hrun⟩
  · exact ⟨hf, by simp⟩

end MessageServer

open MessageServer

/-- The states of the runs from `newMessageServer` whose every step keeps the discipline of the
callers of `AddHandler`. -/
inductive ReachableFreeAdds : MessageServer → Prop
  | init (serverID : NodeID) (config : MessageServerConfig) :
      ReachableFreeAdds (newMessageServer serverID config)
  | step {m m' : MessageServer} (l : Label) :
      ReachableFreeAdds m → l.AddsFree m → m.step l = some m' → ReachableFreeAdds m'

/-- A run that keeps the discipline, `none` once a step is disabled or breaks it. -/
def MessageServer.execFreeAdds (m : MessageServer) : List Label → Option MessageServer
  | [] => some m
  | l :: ls => if l.AddsFree m then (m.step l).bind fun m' => m'.execFreeAdds ls else none

section FreeAdds

variable {m m' : MessageServer}

theorem ReachableFreeAdds.reachable (h : ReachableFreeAdds m) : Reachable m := by
  induction h with
  | init s c => exact .init s c
  | step l _ _ hs ih => exact ih.step l hs

theorem ReachableFreeAdds.execFreeAdds {ls : List Label} (h : ReachableFreeAdds m)
    (he : m.execFreeAdds ls = some m') : ReachableFreeAdds m' := by
  induction ls generalizing m with
  | nil => cases he; exact h
  | cons l ls ih =>
    simp only [MessageServer.execFreeAdds] at he
    split at he
    · obtain ⟨m₁, h₁, h₂⟩ := Option.bind_eq_some.1 he
      exact ih (h.step l ‹_› h₁) h₂
    · cases he

end FreeAdds

/-- **On every run where `AddHandler` is called only for a topic that is free once the queued
tasks have run, `run` never panics**, and no queued registration will find its topic registered.
A caller may thus remove a handler and add one for the same topic without waiting for the
removal: the deregistration sits before the registration in the queue. -/
theorem run_never_panics {m : MessageServer} (h : ReachableFreeAdds m) :
    m.RegistrationsFree ∧ ∀ p, m.status ≠ .panicked p := by
  induction h with
  | init s c => exact ⟨fun _ => rfl, nofun⟩
  | step l hr ha hs ih => exact ih.1.step (peersValid_of_reachable hr.reachable) ha hs

theorem run_never_panics_readding :
    let m := ((newMessageServer "s" ⟨4, 4⟩).execFreeAdds [.addHandler "t" true,
      .removeHandler "t" true, .addHandler "t" true, .runTask [], .runTask [], .runTask []]).get
      (by decide)
    m.RegistrationsFree ∧ ∀ p, m.status ≠ .panicked p :=
  run_never_panics ((ReachableFreeAdds.init _ _).execFreeAdds (Option.some_get _).symm)

end Tiflow.P2p
