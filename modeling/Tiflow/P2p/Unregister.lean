import Tiflow.P2p.Orphans

/-!
# A removed handler drains what it holds

On `taskOnDeregisterHandler`, `run` deletes the topic's handler from `m.handlers` and only then
starts `GracefulUnregister` on its handle, which runs the events already queued before it
returns, or gives up at its timeout, dropping what is still queued. The timeout can come while
the handler is inside `fn`, and nothing stops `fn`: the handle finishes that event. The task loop
queues no second registration of a handle, and none of a handle the table lists, so from the
removal on the handle is out of the task loop's reach: it only drains.

* `WrapperPhase.Finishes` — the phases the event under way can reach;
* `EventHandle.Drains` — what the worker pool's steps on a handle do to it: keep its topic and
  the progress of its `GracefulUnregister`, drop events from the head of its queue, end
  `GracefulUnregister` only on a handle it was started on, emptying it, and after that only
  finish the event under way; `step_drains` for the three such steps;
* `LifeInv` — the lifecycle of handles: each is queued for registration at most once and only
  while the table does not list it, one whose `GracefulUnregister` has started is out of reach,
  and one whose `GracefulUnregister` has returned holds no event; `lifeInv_of_reachable`;
* `removed_handle_drains` — from the step that removes a handler on, its handle is never listed
  again and never handed a new event: it runs only what it held; once `GracefulUnregister` has
  returned it holds nothing and only finishes the event it was in.
-/

namespace Tiflow.P2p

/-- The handle a task registers. -/
def ServerTask.registers : ServerTask → Option Nat
  | .onRegisterHandler _ h => some h
  | _ => none

theorem mem_registers {tasks : List ServerTask} {h : Nat} :
    h ∈ tasks.filterMap ServerTask.registers ↔ ∃ t, ServerTask.onRegisterHandler t h ∈ tasks := by
  simp only [List.mem_filterMap]
  constructor
  · rintro ⟨task, hm, he⟩
    cases task <;> cases he
    exact ⟨_, hm⟩
  · rintro ⟨t, hm⟩
    exact ⟨_, hm, rfl⟩

/-! ### The worker pool's steps on a handle -/

/-- The phase `p'` is one that the event under way in phase `p` can reach: the same phase, the
call of `fn` after the checks, or the end of the event. From `idle`, only `idle`. -/
def WrapperPhase.Finishes (p p' : WrapperPhase) : Prop :=
  p' = .idle ∨ p' = p ∨ ∃ sm e, p = .decoded sm e ∧ p' = .called sm e

namespace WrapperPhase.Finishes

variable {p p' p'' : WrapperPhase}

theorem refl (p : WrapperPhase) : p.Finishes p := .inr (.inl rfl)

theorem trans (a : p.Finishes p') (b : p'.Finishes p'') : p.Finishes p'' := by
  rcases b with rfl | rfl | ⟨sm, e, rfl, rfl⟩
  · exact .inl rfl
  · exact a
  · rcases a with h | rfl | ⟨_, _, -, h⟩ <;> first | cases h | exact .inr (.inr ⟨sm, e, rfl, rfl⟩)

/-- An idle handle that has left the pool stays idle. -/
theorem idle (h : WrapperPhase.idle.Finishes p) : p = .idle := by
  rcases h with rfl | rfl | ⟨_, _, h, -⟩
  · rfl
  · rfl
  · cases h

end WrapperPhase.Finishes

/-- **What the worker pool's steps do to the handle they run or end**: they keep its topic and the
progress of its `GracefulUnregister`, only drop events from the head of its queue, end
`GracefulUnregister` only on a handle it was started on, which they empty, and after that only
finish the event under way. -/
structure EventHandle.Drains (hd hd' : EventHandle) : Prop where
  topic : hd'.topic = hd.topic
  queue : hd'.queue <:+ hd.queue
  unregistering : hd'.unregistering = hd.unregistering
  ends : hd'.unregistered = true →
    hd.unregistered = true ∨ hd'.unregistering = true ∧ hd'.queue = []
  finishes : hd.unregistered = true → hd'.unregistered = true ∧ hd.phase.Finishes hd'.phase

namespace EventHandle.Drains

variable {hd hd' hd'' : EventHandle}

theorem refl (hd : EventHandle) : hd.Drains hd :=
  ⟨rfl, List.suffix_refl _, rfl, .inl, fun h => ⟨h, .refl _⟩⟩

theorem trans (a : hd.Drains hd') (b : hd'.Drains hd'') : hd.Drains hd'' where
  topic := b.topic.trans a.topic
  queue := b.queue.trans a.queue
  unregistering := b.unregistering.trans a.unregistering
  ends h := by
    rcases b.ends h with h' | hb
    · rcases a.ends h' with h'' | ⟨hu, hq⟩
      · exact .inl h''
      · exact .inr ⟨b.unregistering.trans hu, List.eq_nil_of_suffix_nil (hq ▸ b.queue)⟩
    · exact .inr hb
  finishes h :=
    have ⟨h', hp⟩ := a.finishes h
    ⟨(b.finishes h').1, hp.trans (b.finishes h').2⟩

/-- A step of a handle: it keeps the progress of `GracefulUnregister`, and once that has ended,
it only goes on with the event under way. -/
theorem of_step (ht : hd'.topic = hd.topic) (hq : hd'.queue <:+ hd.queue)
    (hu : hd'.unregistering = hd.unregistering) (hu' : hd'.unregistered = hd.unregistered)
    (hp : hd.unregistered = true → hd.phase.Finishes hd'.phase) : hd.Drains hd' :=
  ⟨ht, hq, hu, fun h => .inl (hu' ▸ h), fun h => ⟨hu' ▸ h, hp h⟩⟩

end EventHandle.Drains

namespace MessageServer

variable {m m' : MessageServer} {i : Nat}

theorem runHandle_drains {h : Nat} {ok : Bool} (hs : m.runHandle h ok = some m') :
    (m.handleAt h).Drains (m'.handleAt h) := by
  obtain ⟨⟨hlt, hg⟩, hd, hc, ht, hq, hu, hu'⟩ := runHandle_cases hs
  have hset (m₁ : MessageServer) (hl : m₁.pool.length = m.pool.length) :
      (m₁.setHandle h hd).handleAt h = hd := by
    rw [handleAt_setHandle, if_pos ⟨rfl, hl ▸ hlt⟩]
  have hm' : m'.handleAt h = hd := by
    rcases hc with ⟨rfl, -⟩ | ⟨_, _, rfl, -⟩ | ⟨_, _, rfl, -⟩ | ⟨_, _, rfl, -⟩
    · exact hset m rfl
    · exact hset m rfl
    · rw [handleAt_logDelivered]; exact hset m rfl
    · exact hset _ rfl
  rw [hm']
  refine .of_step ht hq hu hu' fun hun => ?_
  -- an event starts only on a handle still in the pool; one under way may finish after it left
  rcases hc with ⟨-, hp, -⟩ | ⟨_, _, -, hp, -⟩ | ⟨sm, e, -, hp, hp'⟩ | ⟨_, _, -, -, hp'⟩
  · exact .inl hp
  · exact absurd hp (hg hun)
  · exact .inr (.inr ⟨sm, e, hp, hp'⟩)
  · exact .inl hp'

theorem onExit_drains {h : Nat} {a : Bool} (hs : m.onExit h a = some m') :
    (m.handleAt h).Drains (m'.handleAt h) := by
  simp only [onExit] at hs
  split at hs
  · cases hs
  · cases hs
    rw [apply_ite (fun m₁ : MessageServer => m₁.handleAt h), handleAt_enqueue, ite_self,
      handleAt_setHandle]
    split
    · exact .of_step rfl (List.suffix_refl _) rfl rfl fun _ => .refl _
    · exact .refl _

theorem finishUnregister_drains {h : Nat} (hs : m.finishUnregister h = some m') :
    (m.handleAt h).Drains (m'.handleAt h) := by
  simp only [finishUnregister] at hs
  split at hs
  · rename_i hc
    obtain ⟨hlt, hu, hl⟩ := hc
    cases hs
    rw [handleAt_setHandle, if_pos ⟨rfl, hlt⟩]
    exact ⟨rfl, List.nil_suffix, rfl, fun _ => .inr ⟨hu, rfl⟩, fun h => by rw [hl] at h; cases h⟩
  · cases hs

/-- **The worker pool's steps drain the handle they run or end.** -/
theorem step_drains {l : Label} (hs : m.step l = some m') (hi : l.handle? = some i) :
    (m.handleAt i).Drains (m'.handleAt i) := by
  have hs' := hs
  unfold MessageServer.step at hs'
  rw [if_neg (by simp [step_running hs])] at hs'
  cases l <;> cases hi
  · exact runHandle_drains hs'
  · exact onExit_drains hs'
  · exact finishUnregister_drains hs'

/-- **What a step outside the task loop does to a handle**: the worker pool's step on it drains
it, every other handle of the pool is left alone, and a handle beyond the pool is neither
unregistering nor unregistered. -/
theorem caller_drains {l : Label} (hl : l.isLoop = false) (hs : m.step l = some m') (i : Nat) :
    (m.handleAt i).Drains (m'.handleAt i) ∨
      (m'.handleAt i).unregistering = false ∧ (m'.handleAt i).unregistered = false := by
  by_cases hi : l.handle? = some i
  · exact .inl (step_drains hs hi)
  by_cases hlt : i < m.pool.length
  · exact .inl (step_handleAt_of_ne hl hs hi hlt ▸ .refl _)
  right
  have hd : m.handleAt i = default := List.getD_eq_default _ _ (Nat.le_of_not_lt hlt)
  cases l with
  | runHandle h ok =>
    have hne : h ≠ i := by rintro rfl; exact hi rfl
    obtain ⟨-, hd', hc, -⟩ := runHandle_cases (step_runHandle hs)
    rcases hc with ⟨rfl, -⟩ | ⟨_, _, rfl, -⟩ | ⟨_, _, rfl, -⟩ | ⟨_, _, rfl, -⟩ <;>
      simp only [handleAt_setHandle, handleAt_logDelivered, handleAt_ackSet, hne, false_and,
        if_false, hd] <;> exact ⟨rfl, rfl⟩
  | runTask | runTick | runCancel => cases hl
  | _ =>
    rcases caller_cases hl (fun _ _ h => Label.noConfusion h) hs with
      ⟨t, tasks, -, rfl⟩ | ⟨pl, ss, tasks, -, rfl | ⟨h, hd', rfl, -⟩, rfl⟩
    · simp only [handleAt] at hd ⊢
      rcases Nat.eq_or_lt_of_le (Nat.le_of_not_lt hlt) with rfl | hgt
      · simp
      · rw [List.getD_eq_default _ _ (by simp; omega)]; exact ⟨rfl, rfl⟩
    · simp only [handleAt] at hd ⊢
      rw [hd]; exact ⟨rfl, rfl⟩
    · simp only [handleAt, getD_set] at hd ⊢
      split_ifs with h'
      · exact absurd (h'.1 ▸ h'.2) hlt
      · rw [hd]; exact ⟨rfl, rfl⟩

/-! ### The lifecycle of handles -/

/-- **The lifecycle of handles**: each handle is queued for registration at most once, and only
while no entry of the handler table points at it; a handle whose `GracefulUnregister` has started
is out of the task loop's reach; and one whose `GracefulUnregister` has returned holds no
event. -/
structure LifeInv (m : MessageServer) : Prop where
  nodup : (m.taskQueue.filterMap ServerTask.registers).Nodup
  queued : ∀ t h, ServerTask.onRegisterHandler t h ∈ m.taskQueue → m.Unlisted h
  removed : ∀ h, (m.handleAt h).unregistering = true → m.OutOfReach h
  finished : ∀ h, (m.handleAt h).unregistered = true →
    (m.handleAt h).unregistering = true ∧ (m.handleAt h).queue = []

theorem lifeInv_init (serverID : NodeID) (config : MessageServerConfig) :
    (newMessageServer serverID config).LifeInv :=
  ⟨List.nodup_nil, fun _ _ h => absurd h (List.not_mem_nil _), fun _ h => (by cases h),
    fun _ h => (by cases h)⟩

/-- A step outside the task loop keeps the lifecycle: it queues only the registration of the
handle `AddHandler` appends, and the worker pool's steps drain handles. -/
theorem LifeInv.caller (hi : m.LifeInv) (ht : m.TopicInv) {l : Label} (hs : m.step l = some m')
    (hl : l.isLoop = false) : m'.LifeInv := by
  obtain ⟨hh, ⟨tasks, hq, hreg, -⟩, -⟩ := step_callerEffect hl hs
  have hnew : ∀ h, h ∈ tasks.filterMap ServerTask.registers → h = m.pool.length := by
    intro h hx
    obtain ⟨t, hm⟩ := mem_registers.1 hx
    rcases hreg with ⟨t', -, rfl⟩ | hn
    · exact (ServerTask.onRegisterHandler.inj (List.mem_singleton.1 hm)).2
    · exact absurd hm (hn t h)
  have hfresh : m.Unlisted m.pool.length := fun t h => by have := (ht.handlers t _ h).1; omega
  refine ⟨?_, fun t h hm => ?_, fun h hu => ?_, fun h hu => ?_⟩
  · rw [hq, List.filterMap_append]
    refine List.nodup_append.2 ⟨hi.nodup, ?_, fun x hx hy => ?_⟩
    · rcases hreg with ⟨t, -, rfl⟩ | hn
      · exact List.nodup_singleton _
      · rw [List.eq_nil_iff_forall_not_mem.2 fun x hx => (mem_registers.1 hx).elim fun t hm => hn t x hm]
        exact List.nodup_nil
    · obtain ⟨t, hm⟩ := mem_registers.1 hx
      have := (ht.tasks t x hm).1
      rw [hnew x hy] at this
      omega
  · rw [hq, List.mem_append] at hm
    rcases hm with hm | hm
    · exact fun t' => by rw [hh]; exact hi.queued t h hm t'
    · rw [hnew h (mem_registers.2 ⟨t, hm⟩)]
      exact fun t' => by rw [hh]; exact hfresh t'
  · rcases caller_drains hl hs h with hd | ⟨hf, -⟩
    · exact (hi.removed h (hd.unregistering.symm.trans hu)).caller hs hl
    · rw [hf] at hu; cases hu
  · rcases caller_drains hl hs h with hd | ⟨-, hf⟩
    · rcases hd.ends hu with hu₀ | hfin
      · obtain ⟨hr, he⟩ := hi.finished h hu₀
        exact ⟨hd.unregistering.trans hr, List.eq_nil_of_suffix_nil (he ▸ hd.queue)⟩
      · exact hfin
    · rw [hf] at hu; cases hu

/-- **A step of the task loop starts `GracefulUnregister` only on the handle of the topic it
deregisters**, and ends it on none. -/
theorem loop_flags {l : Label} (hs : m.step l = some m') (hl : l.isLoop = true) (i : Nat) :
    (m'.handleAt i).unregistered = (m.handleAt i).unregistered ∧
    ((m'.handleAt i).unregistering = true → (m.handleAt i).unregistering = true ∨
      ∃ t rest, m.taskQueue = .onDeregisterHandler t :: rest ∧ m.handlers.lookup t = some i ∧
        m' = ({ m with taskQueue := rest } : MessageServer).onDeregisterHandler t) := by
  rcases step_cases hs with ⟨hl', -⟩ | ⟨order, task, rest, hq, -, rfl⟩ | rfl | rfl
  · rw [hl] at hl'; cases hl'
  · cases hr : ({ m with taskQueue := rest } : MessageServer).runTask order task with
    | error p => exact ⟨rfl, .inl⟩
    | ok m₁ =>
      refine ⟨((loopFrame_runTask hr).pool i).2.2.2.2.1, fun hu => ?_⟩
      rcases runTask_unregistering hr hu with h | ⟨t, rfl, hlk⟩
      · exact .inl h
      · cases hr; exact .inr ⟨t, rest, hq, hlk, rfl⟩
  · cases ht : m.tick with
    | error p => exact ⟨rfl, .inl⟩
    | ok m₁ =>
      exact ⟨((loopFrame_tick ht).pool i).2.2.2.2.1,
        fun hu => .inl (((touches_tick ht).unregistering i).symm.trans hu)⟩
  · exact ⟨rfl, .inl⟩

/-- The handle `taskOnDeregisterHandler` removes is out of reach in the state it leaves: the
table lists a handle only under the handle's topic, and no registration of a listed handle is
queued. -/
theorem LifeInv.outOfReach_onDeregisterHandler (hi : m.LifeInv) (ht : m.TopicInv) {t : Topic}
    {rest : List ServerTask} (hq : m.taskQueue = .onDeregisterHandler t :: rest)
    (hl : m.handlers.lookup t = some i) :
    (({ m with taskQueue := rest } : MessageServer).onDeregisterHandler t).OutOfReach i := by
  have hti := ht.handlers t i hl
  simp only [onDeregisterHandler, hl]
  refine ⟨by simpa using hti.1, fun t' ht' => ?_, fun t' hm => ?_⟩
  · obtain ⟨hne, hl'⟩ := lookup_erase_eq_some.1 ht'
    exact hne ((ht.handlers t' i hl').2.symm.trans hti.2)
  · exact hi.queued t' i (hq ▸ List.mem_cons_of_mem _ hm) t hl

/-- A step of the task loop keeps the lifecycle: it runs the head task, which registers a handle
queued once and unlisted, or removes a handle from the table as it starts its unregistration. -/
theorem LifeInv.loop (hi : m.LifeInv) (ht : m.TopicInv) {l : Label} (hs : m.step l = some m')
    (hl : l.isLoop = true) : m'.LifeInv := by
  have keep : ∀ h, (m.handleAt h).unregistering = true →
      m'.OutOfReach h ∧ m'.handleAt h = m.handleAt h :=
    fun h hu => (hi.removed h hu).loop hs hl
  have hrem : ∀ h, (m'.handleAt h).unregistering = true → m'.OutOfReach h := fun h hu => by
    rcases (loop_flags hs hl h).2 hu with hu₀ | ⟨t, rest, hq, hlk, rfl⟩
    · exact (keep h hu₀).1
    · exact hi.outOfReach_onDeregisterHandler ht hq hlk
  have hfin : ∀ h, (m'.handleAt h).unregistered = true → (m'.handleAt h).unregistering = true ∧
      (m'.handleAt h).queue = [] := fun h hu => by
    obtain ⟨hr, he⟩ := hi.finished h ((loop_flags hs hl h).1.symm.trans hu)
    rw [(keep h hr).2]
    exact ⟨hr, he⟩
  suffices (m'.taskQueue.filterMap ServerTask.registers).Nodup ∧
      ∀ t h, ServerTask.onRegisterHandler t h ∈ m'.taskQueue → m'.Unlisted h from
    ⟨this.1, this.2, hrem, hfin⟩
  rcases step_cases hs with ⟨hl', -⟩ | ⟨order, task, rest, hq, -, rfl⟩ | rfl | rfl
  · rw [hl] at hl'; cases hl'
  · have hnd := hi.nodup
    rw [hq] at hnd
    have hrest := hnd.sublist ((List.sublist_cons_self task rest).filterMap _)
    have hnt : ∀ t h, ServerTask.onRegisterHandler t h ∈ rest → ∀ t', task ≠ .onRegisterHandler t' h := by
      rintro t h hm t' rfl
      exact (List.nodup_cons.1 hnd).1 (mem_registers.2 ⟨t, hm⟩)
    cases hr : ({ m with taskQueue := rest } : MessageServer).runTask order task with
    | error p => exact ⟨hrest, fun t h hm => hi.queued t h (hq ▸ List.mem_cons_of_mem _ hm)⟩
    | ok m₁ =>
      have hf := loopFrame_runTask hr
      refine ⟨hf.taskQueue ▸ hrest, fun t h hm => ?_⟩
      change _ ∈ m₁.taskQueue at hm
      rw [hf.taskQueue] at hm
      exact (runTask_unlisted hr (hi.queued t h (hq ▸ List.mem_cons_of_mem _ hm)) (hnt t h hm)).2
  · cases ht : m.tick with
    | error p => exact ⟨hi.nodup, hi.queued⟩
    | ok m₁ =>
      have hf := loopFrame_tick ht
      exact ⟨hf.taskQueue ▸ hi.nodup,
        fun t h hm => (touches_tick ht).unlisted (hi.queued t h (hf.taskQueue ▸ hm))⟩
  · exact ⟨hi.nodup, hi.queued⟩

theorem LifeInv.step (hi : m.LifeInv) (ht : m.TopicInv) {l : Label} (hs : m.step l = some m') :
    m'.LifeInv := by
  cases hl : l.isLoop
  · exact hi.caller ht hs hl
  · exact hi.loop ht hs hl

/-- A handle whose `GracefulUnregister` has started only drains, on every step. -/
theorem LifeInv.unregistering_step (hi : m.LifeInv) (hu : (m.handleAt i).unregistering = true)
    {l : Label} (hs : m.step l = some m') : (m.handleAt i).Drains (m'.handleAt i) := by
  by_cases hl : l.handle? = some i
  · exact step_drains hs hl
  · rw [((hi.removed i hu).step hs).2 hl]
    exact .refl _

end MessageServer

open MessageServer

theorem lifeInv_of_reachable {m : MessageServer} (h : Reachable m) : m.LifeInv := by
  induction h with
  | init s c => exact lifeInv_init s c
  | step l hr hs ih => exact ih.step (topicInv_of_reachable hr) hs

/-- Along a run from a reachable state, a handle whose `GracefulUnregister` has started only
drains. -/
theorem drains_of_exec {m m' : MessageServer} {ls : List Label} {i : Nat} (hr : Reachable m)
    (hu : (m.handleAt i).unregistering = true) (he : m.exec ls = some m') :
    (m.handleAt i).Drains (m'.handleAt i) := by
  induction ls generalizing m with
  | nil => cases he; exact .refl _
  | cons l ls ih =>
    simp only [exec, Option.bind_eq_some] at he
    obtain ⟨m₁, h₁, h₂⟩ := he
    have hd := (lifeInv_of_reachable hr).unregistering_step hu h₁
    exact hd.trans (ih (hr.step l h₁) (hd.unregistering.trans hu) h₂)

/-- **A removed handler drains what it holds**: once `run` has deleted the handler of a topic and
started `GracefulUnregister` on its handle, for the rest of the run no entry of the handler table
points at that handle, which keeps its topic and is never handed a new event, its queue only
losing events from its head. Once `GracefulUnregister` has returned, after draining the queue or
at its timeout, the handle holds no event, and from then on it only finishes the event it was in:
its phase is that event's or idle, so a handle that was idle then never calls `fn` again. -/
theorem removed_handle_drains {m m' : MessageServer} {ls : List Label} {i : Nat}
    (hr : Reachable m) (hu : (m.handleAt i).unregistering = true) (he : m.exec ls = some m') :
    (∀ t, m'.handlers.lookup t ≠ some i) ∧ (m'.handleAt i).topic = (m.handleAt i).topic ∧
      (m'.handleAt i).queue <:+ (m.handleAt i).queue ∧
      ((m'.handleAt i).unregistered = true → (m'.handleAt i).queue = []) ∧
      ((m.handleAt i).unregistered = true →
        (m.handleAt i).phase.Finishes (m'.handleAt i).phase) := by
  have hd := drains_of_exec hr hu he
  have hi := lifeInv_of_reachable (hr.exec he)
  exact ⟨(hi.removed i (hd.unregistering.trans hu)).unlisted, hd.topic, hd.queue,
    fun h => (hi.finished i h).2, fun h => (hd.finishes h).2⟩

/-- `GracefulUnregister` gives up on the removed handle while its handler is inside `fn` on the
message `1`; the call returns and the handle stores its ack. -/
theorem removed_handle_drains_after_timeout :
    let m := ((newMessageServer "s" ⟨4, 4⟩).exec [.addHandler "t" true, .runTask [],
      .sendMessage (some ⟨"a", "s", 1⟩), .runTask [], .recvPacket 0 [⟨"t", 1, 0⟩], .runTask [],
      .runHandle 0 true, .removeHandler "t" true, .runTask [], .finishUnregister 0]).get (by decide)
    let m' := (m.exec [.runHandle 0 true, .runHandle 0 true]).get (by decide)
    (m.handleAt 0).unregistering = true ∧
      ((∀ t, m'.handlers.lookup t ≠ some 0) ∧ (m'.handleAt 0).topic = (m.handleAt 0).topic ∧
        (m'.handleAt 0).queue <:+ (m.handleAt 0).queue ∧
        ((m'.handleAt 0).unregistered = true → (m'.handleAt 0).queue = []) ∧
        ((m.handleAt 0).unregistered = true →
          (m.handleAt 0).phase.Finishes (m'.handleAt 0).phase)) := by
  intro m m'
  have hu : (m.handleAt 0).unregistering = true := by decide
  exact ⟨hu, removed_handle_drains (Reachable.exec_get _ _ _ _) hu (Option.some_get _).symm⟩

end Tiflow.P2p
