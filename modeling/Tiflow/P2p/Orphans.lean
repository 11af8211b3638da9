import Tiflow.P2p.Handlers
import Tiflow.P2p.Topics

/-!
# Handles the task loop cannot reach

The task loop hands events only to the handles its handler table lists, and starts
`GracefulUnregister` only on the handle of a topic it deregisters. A handle that no entry of the
table and no queued registration points at is out of its reach: only the worker pool's own steps
on that handle change it.

`AddHandler` registers its handle with the worker pool before it schedules the handle's
registration, and when `scheduleTask` refuses the registration it returns the error without
unregistering the handle. Such a handle is out of reach from the start, and stays in the pool as
it was created.

* `Touches` — what a dispatch function of the task loop may do to the pool: append events to a
  handle the table lists, and nothing else; `touches_handleMessage` and the lemmas after it;
* `runTask_unlisted`, `runTask_unregistering` — a task other than a handle's registration leaves
  the handle alone while the table does not list it, and only `taskOnDeregisterHandler` starts
  the unregistration of a handle;
* `OutOfReach`, `OutOfReach.step` — a handle out of reach stays out of reach on every step, and
  only a step of the worker pool on the handle itself changes it;
* `Orphan`, `refused_handle_leaks` — the handle of a refused `AddHandler` stays in the pool for
  the rest of the run as it was created: it is never put in the handler table, never handed an
  event, never cancelled, and never unregistered.
-/

namespace Tiflow.P2p

/-- The handle a step of the worker pool runs or ends. -/
def Label.handle? : Label → Option Nat
  | .runHandle h _ | .onExit h _ | .finishUnregister h => some h
  | _ => none

namespace MessageServer

variable {m m' : MessageServer} {i : Nat}

/-- No entry of the handler table points at the handle `i`. -/
def Unlisted (m : MessageServer) (i : Nat) : Prop := ∀ t, m.handlers.lookup t ≠ some i

/-- **What a dispatch function of the task loop does to the pool**: it keeps the handler table and
the number of handles, leaves alone every handle the table does not list, and changes the others
only by appending events to them. -/
structure Touches (m m' : MessageServer) : Prop where
  handlers : m'.handlers = m.handlers
  poolLength : m'.pool.length = m.pool.length
  away : ∀ i, m.Unlisted i → m'.handleAt i = m.handleAt i
  queues : ∀ i, ∃ q, m'.handleAt i = { m.handleAt i with queue := q }

theorem Touches.refl (m : MessageServer) : Touches m m :=
  ⟨rfl, rfl, fun _ _ => rfl, fun _ => ⟨_, rfl⟩⟩

theorem Touches.unlisted (k : Touches m m') (hi : m.Unlisted i) : m'.Unlisted i :=
  fun t => by rw [k.handlers]; exact hi t

theorem Touches.trans {m₁ : MessageServer} (a : Touches m m₁) (b : Touches m₁ m') :
    Touches m m' where
  handlers := b.handlers.trans a.handlers
  poolLength := b.poolLength.trans a.poolLength
  away i hi := (b.away i (a.unlisted hi)).trans (a.away i hi)
  queues i := by
    obtain ⟨q₁, h₁⟩ := a.queues i
    obtain ⟨q₂, h₂⟩ := b.queues i
    exact ⟨q₂, by rw [h₂, h₁]⟩

theorem Touches.of_pool (hp : m'.pool = m.pool) (hh : m'.handlers = m.handlers) : Touches m m' :=
  ⟨hh, by rw [hp], fun i _ => by simp only [handleAt, hp],
    fun i => ⟨(m.handleAt i).queue, by simp only [handleAt, hp]⟩⟩

theorem Touches.unregistering (k : Touches m m') (i : Nat) :
    (m'.handleAt i).unregistering = (m.handleAt i).unregistering := by
  obtain ⟨q, hq⟩ := k.queues i
  rw [hq]

@[simp] theorem handleAt_enqueue (task : ServerTask) : (m.enqueue task).handleAt = m.handleAt := rfl

/-! ### The task loop touches only the handles of its table -/

theorem touches_addEvent {h : Nat} {ev : PoolEvent} (ha : m.addEvent h ev = .ok m')
    (hl : ¬ m.Unlisted h) : Touches m m' := by
  simp only [addEvent] at ha
  split at ha
  · cases ha
  · cases ha
    refine ⟨rfl, by simp, fun i hi => ?_, fun i => ?_⟩
    · have hne : h ≠ i := by rintro rfl; exact hl hi
      simp only [handleAt, getD_set, hne, false_and, if_false]
    · simp only [handleAt, getD_set]
      split
      · obtain ⟨rfl, -⟩ := ‹_ ∧ _›; exact ⟨_, rfl⟩
      · exact ⟨_, rfl⟩

theorem touches_deregisterPeer {p : Nat} {err : Option PeerError}
    (hd : m.deregisterPeer p err = .ok m') : Touches m m' := by
  rcases deregisterPeer_ok hd with ⟨-, rfl⟩ | ⟨-, _, _, -, rfl⟩ <;> exact .of_pool rfl rfl

theorem touches_handleMessage {sm : StreamMeta} {e : MessageEntry}
    (h : m.handleMessage sm e = .ok m') : Touches m m' := by
  rcases handleMessage_ok h with
    ⟨rfl, -⟩ | ⟨p, -, -, -, ⟨-, -, rfl⟩ | ⟨-, -, hd⟩ | ⟨hdl, hl, ha | ⟨err, -, hd⟩⟩⟩
  · exact .of_pool rfl rfl
  · exact .of_pool rfl rfl
  · refine Touches.trans ?_ (touches_deregisterPeer hd)
    exact .of_pool (by simp only [logFate, logOverflow_eq]) (by simp only [logFate, logOverflow_eq])
  · refine Touches.trans ?_ (touches_addEvent ha fun hu => hu _ hl)
    exact .of_pool rfl rfl
  · refine Touches.trans ?_ (touches_deregisterPeer hd)
    exact .of_pool rfl rfl

theorem touches_handleRawMessage (e : RawMessageEntry) : Touches m (m.handleRawMessage e) := by
  simp only [handleRawMessage]
  split
  · split
    · exact .of_pool (by rw [logOverflow_eq]) (by rw [logOverflow_eq])
    · exact .of_pool rfl rfl
  · rename_i hdl hl
    split
    · next ha =>
      refine Touches.trans ?_ (touches_addEvent ha fun hu => hu _ hl)
      exact .of_pool rfl rfl
    · exact .of_pool rfl rfl

theorem touches_handleMessageBatch {sm : StreamMeta} {es : List MessageEntry}
    (h : m.handleMessageBatch sm es = .ok m') : Touches m m' := by
  unfold handleMessageBatch at h
  refine foldlM_inv (Touches m) (fun _ _ _ _ hu hd => hu.trans ?_) (.refl m) h
  refine Touches.trans ?_ (touches_handleMessage hd)
  exact .of_pool rfl rfl

theorem touches_handleRawMessageBatch (es : List RawMessageEntry) :
    Touches m (m.handleRawMessageBatch es) := by
  induction es generalizing m with
  | nil => exact .refl m
  | cons e es ih =>
    simp only [handleRawMessageBatch, List.foldl_cons] at ih ⊢
    have h₁ : Touches m ((m.logDispatched ⟨e.topic, m.serverID⟩).handleRawMessage
        { e with tag := m.ghost.nextTag }) := by
      refine Touches.trans ?_ (touches_handleRawMessage _)
      exact .of_pool rfl rfl
    exact h₁.trans ih

theorem touches_handlePendingEntry {x : PendingMessageEntry}
    (h : m.handlePendingEntry x = .ok m') : Touches m m' := by
  cases x with
  | remote sm e => exact touches_handleMessage h
  | raw e => cases h; exact touches_handleRawMessage e

theorem touches_drainKey {t : Topic} {k : TopicSenderPair} (h : m.drainKey t k = .ok m') :
    Touches m m' := by
  unfold drainKey at h
  split at h
  · cases h; exact .refl m
  split at h
  · next hf =>
    cases h
    refine (foldlM_inv (Touches m) (fun _ _ _ _ hu hd => hu.trans (touches_handlePendingEntry hd))
      (.refl m) hf).trans (.of_pool rfl rfl)
  · cases h

theorem touches_handlePendingMessages {t : Topic} {order : List TopicSenderPair}
    (h : m.handlePendingMessages t order = .ok m') : Touches m m' :=
  foldlM_inv (Touches m) (fun _ _ _ _ hu hd => hu.trans (touches_drainKey hd)) (.refl m) h

theorem touches_registerPeer {s : Nat} {r : MessageServer × Option PeerError}
    (hr : m.registerPeer s = .ok r) : Touches m r.1 := by
  rcases registerPeer_ok hr with ⟨-, -, rfl⟩ | ⟨-, -, rfl⟩ | ⟨_, -, -, rfl⟩ |
    ⟨_, _, -, -, hd, rfl⟩ | ⟨_, -, -, rfl⟩
  · exact .of_pool rfl rfl
  · exact .refl m
  · exact .refl m
  · exact (touches_deregisterPeer hd).trans (.of_pool rfl rfl)
  · exact .refl m

theorem touches_onRegisterPeer {s : Nat} (h : m.onRegisterPeer s = .ok m') : Touches m m' := by
  obtain ⟨r, hr, ⟨_, rfl⟩ | ⟨_, rfl⟩⟩ := onRegisterPeer_ok h <;>
    exact (touches_registerPeer hr).trans (.of_pool rfl rfl)

theorem touches_deregisterPeerByID {id : NodeID} (h : m.deregisterPeerByID id = .ok m') :
    Touches m m' := by
  unfold deregisterPeerByID at h
  split at h
  · cases h; exact .refl m
  · exact touches_deregisterPeer h

theorem touches_tick (ht : m.tick = .ok m') : Touches m m' := by
  unfold tick at ht
  obtain ⟨ss, hss⟩ := foldl_tickPeer_fst (m := m) m.peers.entries []
  refine foldlM_inv (Touches m) (fun _ _ _ _ h₁ hd => h₁.trans (touches_deregisterPeer hd)) ?_ ht
  rw [hss]
  exact .of_pool rfl rfl

/-- **A task other than the registration of `i` leaves `i` alone** while no entry of the
handler table points at it, and puts no entry pointing at it in the table. -/
theorem runTask_unlisted {order : List TopicSenderPair} {task : ServerTask}
    (h : m.runTask order task = .ok m') (hi : m.Unlisted i)
    (ht : ∀ t, task ≠ .onRegisterHandler t i) : m'.handleAt i = m.handleAt i ∧ m'.Unlisted i := by
  have of_touches : Touches m m' → m'.handleAt i = m.handleAt i ∧ m'.Unlisted i :=
    fun k => ⟨k.away i hi, k.unlisted hi⟩
  cases task with
  | onMessageBatch sm es => exact of_touches (touches_handleMessageBatch h)
  | onRawMessageBatch es => cases h; exact of_touches (touches_handleRawMessageBatch es)
  | onRegisterPeer s => exact of_touches (touches_onRegisterPeer h)
  | onDeregisterPeer id => exact of_touches (touches_deregisterPeerByID h)
  | onRegisterHandler t h' =>
    simp only [runTask, registerHandler] at h
    split at h
    · cases h
    have hu : ({ m with handlers := m.handlers.insert t h' } : MessageServer).Unlisted i :=
      fun t' ht' => by
        rcases lookup_insert_eq_some.1 ht' with ⟨rfl, rfl⟩ | ⟨-, hl⟩
        · exact ht t' rfl
        · exact hi t' hl
    have k := touches_handlePendingMessages h
    exact ⟨k.away i hu, k.unlisted hu⟩
  | onDeregisterHandler t =>
    cases h
    simp only [onDeregisterHandler]
    split
    · rename_i hdl hl
      have hne : hdl ≠ i := fun e => hi t (e ▸ hl)
      exact ⟨by simp only [handleAt, getD_set, hne, false_and, if_false],
        fun t' ht' => hi t' (lookup_erase_eq_some.1 ht').2⟩
    · exact ⟨rfl, hi⟩
  | debugDelay => cases h; exact ⟨rfl, hi⟩

/-- **Only `taskOnDeregisterHandler` starts the unregistration of a handle**: the handle the
table lists for its topic. -/
theorem runTask_unregistering {order : List TopicSenderPair} {task : ServerTask}
    (h : m.runTask order task = .ok m') (hu : (m'.handleAt i).unregistering = true) :
    (m.handleAt i).unregistering = true ∨
      ∃ t, task = .onDeregisterHandler t ∧ m.handlers.lookup t = some i := by
  have of_touches : Touches m m' → (m.handleAt i).unregistering = true :=
    fun k => (k.unregistering i).symm.trans hu
  cases task with
  | onMessageBatch sm es => exact .inl (of_touches (touches_handleMessageBatch h))
  | onRawMessageBatch es => cases h; exact .inl (of_touches (touches_handleRawMessageBatch es))
  | onRegisterPeer s => exact .inl (of_touches (touches_onRegisterPeer h))
  | onDeregisterPeer id => exact .inl (of_touches (touches_deregisterPeerByID h))
  | onRegisterHandler t h' =>
    simp only [runTask, registerHandler] at h
    split at h
    · cases h
    · exact .inl (((touches_handlePendingMessages h).unregistering i).symm.trans hu)
  | onDeregisterHandler t =>
    cases h
    simp only [onDeregisterHandler] at hu
    split at hu
    · rename_i hdl hl
      by_cases hne : hdl = i
      · exact .inr ⟨t, rfl, hne ▸ hl⟩
      · left; simpa only [handleAt, getD_set, hne, false_and, if_false] using hu
    · exact .inl hu
  | debugDelay => cases h; exact .inl hu

/-! ### A handle out of reach -/

/-- **The handle `i` out of the task loop's reach**: it is in the pool, and no entry of the
handler table and no queued registration points at it. -/
structure OutOfReach (m : MessageServer) (i : Nat) : Prop where
  lt : i < m.pool.length
  unlisted : m.Unlisted i
  unqueued : ∀ t, ServerTask.onRegisterHandler t i ∉ m.taskQueue

/-- A step of the task loop keeps a handle out of reach, and leaves it alone. -/
theorem OutOfReach.loop (ho : m.OutOfReach i) {l : Label} (hs : m.step l = some m')
    (hl : l.isLoop = true) : m'.OutOfReach i ∧ m'.handleAt i = m.handleAt i := by
  rcases step_cases hs with ⟨hl', -⟩ | ⟨order, task, rest, hq, -, rfl⟩ | rfl | rfl
  · rw [hl] at hl'; cases hl'
  · have hrest : ∀ t, ServerTask.onRegisterHandler t i ∉ rest :=
      fun t h => ho.unqueued t (hq ▸ List.mem_cons_of_mem _ h)
    cases hr : ({ m with taskQueue := rest } : MessageServer).runTask order task with
    | error p => exact ⟨⟨ho.lt, ho.unlisted, hrest⟩, rfl⟩
    | ok m₁ =>
      obtain ⟨hh, hu⟩ := runTask_unlisted hr ho.unlisted
        fun t e => ho.unqueued t (hq ▸ e ▸ List.mem_cons_self _ _)
      have hf := loopFrame_runTask hr
      exact ⟨⟨hf.poolLength ▸ ho.lt, hu, hf.taskQueue ▸ hrest⟩, hh⟩
  · cases ht : m.tick with
    | error p => exact ⟨⟨ho.lt, ho.unlisted, ho.unqueued⟩, rfl⟩
    | ok m₁ =>
      have k := touches_tick ht
      exact ⟨⟨k.poolLength ▸ ho.lt, k.unlisted ho.unlisted,
        (loopFrame_tick ht).taskQueue ▸ ho.unqueued⟩, k.away i ho.unlisted⟩
  · exact ⟨⟨ho.lt, ho.unlisted, ho.unqueued⟩, rfl⟩

/-- A step outside the task loop removes no handle. -/
theorem poolLength_le_of_caller {l : Label} (hl : l.isLoop = false) (hs : m.step l = some m') :
    m.pool.length ≤ m'.pool.length := by
  cases l with
  | runHandle h ok =>
    obtain ⟨-, hd, hc, -⟩ := runHandle_cases (step_runHandle hs)
    rcases hc with ⟨rfl, -⟩ | ⟨_, _, rfl, -⟩ | ⟨_, _, rfl, -⟩ | ⟨_, _, rfl, -⟩ <;>
      simp [setHandle, logDelivered, ackSet]
  | _ =>
    rcases caller_cases hl (fun _ _ h => Label.noConfusion h) hs with
      ⟨t, tasks, -, rfl⟩ | ⟨pl, ss, tasks, -, rfl | ⟨h, hd, rfl, -⟩, rfl⟩ <;> simp

/-- A step outside the task loop keeps a handle out of reach: it queues a registration only for
the handle `AddHandler` appends, and touches no entry of the handler table. -/
theorem OutOfReach.caller (ho : m.OutOfReach i) {l : Label} (hs : m.step l = some m')
    (hl : l.isLoop = false) : m'.OutOfReach i := by
  obtain ⟨hhs, ⟨tasks, hq, hreg, -⟩, -⟩ := step_callerEffect hl hs
  have htasks : ∀ t, ServerTask.onRegisterHandler t i ∉ tasks := by
    rcases hreg with ⟨-, -, rfl⟩ | hn
    · intro t h
      obtain ⟨-, he⟩ := ServerTask.onRegisterHandler.inj (List.mem_singleton.1 h)
      have := ho.lt; omega
    · exact fun t => hn t i
  refine ⟨lt_of_lt_of_le ho.lt (poolLength_le_of_caller hl hs), fun t => hhs ▸ ho.unlisted t,
    fun t h => ?_⟩
  rw [hq, List.mem_append] at h
  exact h.elim (ho.unqueued t) (htasks t)

/-- **A step outside the task loop leaves alone every handle of the pool but the one the worker
pool runs or ends.** -/
theorem step_handleAt_of_ne {l : Label} (hl : l.isLoop = false) (hs : m.step l = some m')
    (hi : l.handle? ≠ some i) (hlt : i < m.pool.length) : m'.handleAt i = m.handleAt i := by
  have hs' := hs
  unfold MessageServer.step at hs'
  rw [if_neg (by simp [step_running hs])] at hs'
  cases l with
  | runTask | runTick | runCancel => cases hl
  | addHandler t a => cases hs'; unfold addHandler; split <;> exact List.getD_append _ _ _ _ hlt
  | removeHandler t a => cases hs'; unfold removeHandler enqueue; split <;> rfl
  | scheduleDeregisterPeer p a => cases hs'; unfold scheduleDeregisterPeerTask enqueue; split <;> rfl
  | sendMessage sm => cases hs'; unfold sendMessage enqueue; split <;> rfl
  | recvPacket s es =>
    simp only [receivePacket] at hs'
    split at hs'
    · cases hs'
    split at hs'
    · cases hs'
    split at hs' <;> (cases hs'; rfl)
  | closeStream s =>
    simp only [closeStream] at hs'
    split at hs'
    · cases hs'
    split at hs'
    · cases hs'
    · cases hs'; rfl
  | localBatch es =>
    simp only [localBatch] at hs'
    split at hs'
    · cases hs'
    · cases hs'; rfl
  | runHandle h ok =>
    have hne : h ≠ i := by rintro rfl; exact hi rfl
    obtain ⟨-, hd, hc, -⟩ := runHandle_cases hs'
    rcases hc with ⟨rfl, -⟩ | ⟨_, _, rfl, -⟩ | ⟨_, _, rfl, -⟩ | ⟨_, _, rfl, -⟩ <;>
      simp [handleAt_setHandle, hne]
  | onExit h a =>
    have hne : h ≠ i := by rintro rfl; exact hi rfl
    simp only [onExit] at hs'
    split at hs'
    · cases hs'
    · cases hs'; split <;> simp [handleAt_setHandle, hne]
  | finishUnregister h =>
    have hne : h ≠ i := by rintro rfl; exact hi rfl
    simp only [finishUnregister] at hs'
    split at hs'
    · cases hs'; simp [handleAt_setHandle, hne]
    · cases hs'

/-- **A handle out of reach stays out of reach** on every step, and only a step of the worker
pool on the handle itself changes it. -/
theorem OutOfReach.step (ho : m.OutOfReach i) {l : Label} (hs : m.step l = some m') :
    m'.OutOfReach i ∧ (l.handle? ≠ some i → m'.handleAt i = m.handleAt i) := by
  cases hl : l.isLoop
  · exact ⟨ho.caller hs hl, fun hi => step_handleAt_of_ne hl hs hi ho.lt⟩
  · exact (ho.loop hs hl).imp_right fun h _ => h

/-! ### The handle of a refused `AddHandler` -/

/-- **The handle `i`, as `AddHandler` created it for `t`, out of the task loop's reach.** -/
structure Orphan (m : MessageServer) (i : Nat) (t : Topic) extends OutOfReach m i : Prop where
  handle : m.handleAt i = { topic := t }

variable {t : Topic}

/-- The worker pool has nothing to do on an orphan: no event to run, no error for `OnExit`, and
no `GracefulUnregister` to end. -/
theorem Orphan.handle?_ne (ho : m.Orphan i t) {l : Label} (hs : m.step l = some m') :
    l.handle? ≠ some i := by
  intro hh
  have hs' := hs
  unfold MessageServer.step at hs'
  rw [if_neg (by simp [step_running hs])] at hs'
  cases l <;> cases hh
  · simp [runHandle, ho.handle] at hs'
  · simp [onExit, ho.handle] at hs'
  · simp [finishUnregister, ho.handle] at hs'

/-- **An orphan stays an orphan, untouched**, on every step: of the task loop, of the callers of
the API, of the stream goroutines, and of the worker pool. -/
theorem Orphan.step (ho : m.Orphan i t) {l : Label} (hs : m.step l = some m') : m'.Orphan i t :=
  have h := ho.toOutOfReach.step hs
  ⟨h.1, (h.2 (ho.handle?_ne hs)).trans ho.handle⟩

theorem Orphan.exec (ho : m.Orphan i t) {ls : List Label} (he : m.exec ls = some m') :
    m'.Orphan i t := by
  induction ls generalizing m with
  | nil => cases he; exact ho
  | cons l ls ih =>
    simp only [exec, Option.bind_eq_some] at he
    obtain ⟨m₁, h₁, h₂⟩ := he
    exact ih (ho.step h₁) h₂

/-- The handle of a refused `AddHandler` is an orphan: the table and the queued registrations
point only at handles already in the pool. -/
theorem orphan_addHandler (hi : m.TopicInv) (t : Topic) :
    (m.addHandler t false).Orphan m.pool.length t where
  lt := by simp [addHandler]
  handle := by simp [addHandler, handleAt]
  unlisted t' h := by have := (hi.handlers t' _ h).1; omega
  unqueued t' h := by have := (hi.tasks t' _ h).1; omega

end MessageServer

open MessageServer

theorem topicInv_of_reachable {m : MessageServer} (h : Reachable m) : m.TopicInv := by
  induction h with
  | init s c => exact topicInv_init s c
  | step l _ hs ih => exact ih.step hs

/-- **A refused `AddHandler` leaks its handle**: on every run, once `scheduleTask` refuses the
registration `AddHandler` asks for, the handle it has already registered with the worker pool
stays in the pool for the rest of the run, exactly as it was created: no entry of the handler
table ever points at it, it is handed no event, it is never cancelled, and `GracefulUnregister`
never starts on it. -/
theorem refused_handle_leaks {m m₁ m' : MessageServer} {t : Topic} {ls : List Label}
    (hr : Reachable m) (hs : m.step (.addHandler t false) = some m₁) (he : m₁.exec ls = some m') :
    m.pool.length < m'.pool.length ∧ m'.handleAt m.pool.length = { topic := t } ∧
      ∀ t', m'.handlers.lookup t' ≠ some m.pool.length := by
  have hm : m₁ = m.addHandler t false := by
    unfold MessageServer.step at hs
    split at hs
    · cases hs
    · exact (Option.some.inj hs).symm
  subst hm
  have ho := (orphan_addHandler (topicInv_of_reachable hr) t).exec he
  exact ⟨ho.lt, ho.handle, ho.unlisted⟩

theorem refused_handle_leaks_after_delivery :
    let m' := (((newMessageServer "s" ⟨4, 4⟩).addHandler "t" false).exec [.addHandler "t" true,
      .runTask [], .sendMessage (some ⟨"a", "s", 1⟩), .runTask [], .recvPacket 0 [⟨"t", 1, 0⟩],
      .runTask [], .runHandle 1 true, .runHandle 1 true, .runHandle 1 true]).get (by decide)
    0 < m'.pool.length ∧ m'.handleAt 0 = { topic := "t" } ∧ ∀ t', m'.handlers.lookup t' ≠ some 0 :=
  refused_handle_leaks (.init "s" ⟨4, 4⟩) rfl (Option.some_get _).symm

end Tiflow.P2p
