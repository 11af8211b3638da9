import Tiflow.P2p.Delivery

/-!
# What the callers of the server queue and open

Outside the task loop, the callers of the API, the stream goroutines and the worker pool only
append tasks to the queue, open and close streams and change handles; `caller_cases` says what
they do to the pool. Here, label by label, is what they queue and what they do to the streams.

* `StreamsKeep` — no stream loses its meta or a response, and a stream is sent nothing but an
  error `SendMessage` reports on its own;
* `CallerEffect`, `step_callerEffect` — an accepted `AddHandler` queues the registration of its
  new handle and no other step queues a registration; the registration of a peer is queued only
  for a stream that exists; no step sends on a stream or touches the handler table.
-/

namespace Tiflow.P2p

namespace MessageServer

variable {m m' : MessageServer}

/-- The responses are errors that `SendMessage` reports on its own. -/
def StreamErrors (rs : List SendMessageResponse) : Prop :=
  ∀ r ∈ rs, ∃ err, err.ofStream = true ∧ r = errorToRPCResponse err

/-- What a step outside the task loop keeps of the streams: no stream loses its meta or a
response, and a stream is sent only errors that `SendMessage` reports on its own. -/
def StreamsKeep (m m' : MessageServer) : Prop :=
  m.streams.length ≤ m'.streams.length ∧ ∀ s,
    (∃ rs, (m'.streams.getD s default).sent = (m.streams.getD s default).sent ++ rs ∧
      StreamErrors rs) ∧
    (s < m.streams.length →
      (m'.streams.getD s default).streamMeta = (m.streams.getD s default).streamMeta)

theorem streamErrors_nil : StreamErrors [] := fun _ h => nomatch h

theorem StreamsKeep.of_eq (h : m'.streams = m.streams) : StreamsKeep m m' :=
  ⟨by rw [h], fun _ => by rw [h]; exact ⟨⟨[], (List.append_nil _).symm, streamErrors_nil⟩, fun _ => rfl⟩⟩

/-- `SendMessage` opens a stream, which has sent nothing or the error of `verifyStreamMeta`. -/
theorem streamsKeep_append {sh : StreamHandle} (hs : StreamErrors sh.sent)
    (h : m'.streams = m.streams ++ [sh]) : StreamsKeep m m' := by
  refine ⟨by simp [h], fun s => ?_⟩
  rw [h]
  rcases Nat.lt_or_ge s m.streams.length with hlt | hge
  · rw [List.getD_append _ _ _ _ hlt]
    exact ⟨⟨[], (List.append_nil _).symm, streamErrors_nil⟩, fun _ => rfl⟩
  refine ⟨⟨((m.streams ++ [sh]).getD s default).sent, ?_, ?_⟩,
    fun hlt => absurd hlt (Nat.not_lt.2 hge)⟩
  · rw [List.getD_eq_default m.streams _ hge]; rfl
  · rcases Nat.eq_or_lt_of_le hge with rfl | hgt
    · simpa [List.getD_append_right] using hs
    · rw [List.getD_eq_default _ _ (by simp; omega)]; exact streamErrors_nil

/-- The receive goroutine closes its stream, after queuing the error of its `Recv`. -/
theorem streamsKeep_close {s : Nat} {sh : StreamHandle} {rs : List SendMessageResponse}
    (hsh : m.streams[s]? = some sh) (hr : StreamErrors rs)
    (h : m'.streams = m.streams.set s { sh with closed := true, sent := sh.sent ++ rs }) :
    StreamsKeep m m' := by
  refine ⟨by simp [h], fun i => ?_⟩
  rw [h, getD_set]
  split
  · obtain ⟨rfl, -⟩ := ‹_ ∧ _›
    have hget : m.streams.getD s default = sh := by rw [List.getD_eq_getElem?_getD, hsh]; rfl
    rw [hget]; exact ⟨⟨rs, rfl, hr⟩, fun _ => rfl⟩
  · exact ⟨⟨[], (List.append_nil _).symm, streamErrors_nil⟩, fun _ => rfl⟩

/-- **What a step outside the task loop does**, besides the pool: an accepted `AddHandler`
queues the registration of its new handle and no other step queues a registration, the
registration of a peer is queued for a stream that exists, and no step sends on a stream or
touches the handler table. -/
structure CallerEffect (l : Label) (m m' : MessageServer) : Prop where
  handlers : m'.handlers = m.handlers
  queue : ∃ tasks, m'.taskQueue = m.taskQueue ++ tasks ∧
    ((∃ t, l = .addHandler t true ∧ tasks = [.onRegisterHandler t m.pool.length]) ∨
      ∀ t h, ServerTask.onRegisterHandler t h ∉ tasks) ∧
    ∀ s, ServerTask.onRegisterPeer s ∈ tasks → s < m'.streams.length
  streams : StreamsKeep m m'

theorem CallerEffect.of_tasks {l : Label} {tasks : List ServerTask} (hh : m'.handlers = m.handlers)
    (hq : m'.taskQueue = m.taskQueue ++ tasks)
    (hr : ∀ t h, ServerTask.onRegisterHandler t h ∉ tasks)
    (hp : ∀ s, ServerTask.onRegisterPeer s ∉ tasks) (hs : StreamsKeep m m') : CallerEffect l m m' :=
  ⟨hh, ⟨tasks, hq, .inr hr, fun s h => absurd h (hp s)⟩, hs⟩

/-- A step that leaves the queue, the streams and the handler table as they were. -/
theorem CallerEffect.of_queue_eq {l : Label} (hh : m'.handlers = m.handlers)
    (hq : m'.taskQueue = m.taskQueue) (hs : m'.streams = m.streams) : CallerEffect l m m' :=
  .of_tasks hh (by rw [hq, List.append_nil]) (fun _ _ => List.not_mem_nil _)
    (fun _ => List.not_mem_nil _) (.of_eq hs)

/-- **What each step outside the task loop does to the queue and the streams.** -/
theorem step_callerEffect {l : Label} (hl : l.isLoop = false) (hs : m.step l = some m') :
    CallerEffect l m m' := by
  unfold step at hs
  split at hs
  · cases hs
  cases l with
  | runTask | runTick | runCancel => cases hl
  | runHandle h ok =>
    obtain ⟨-, hd, hc, -⟩ := runHandle_cases hs
    rcases hc with ⟨rfl, -⟩ | ⟨_, _, rfl, -⟩ | ⟨_, _, rfl, -⟩ | ⟨_, _, rfl, -⟩ <;>
      exact .of_queue_eq rfl rfl rfl
  | addHandler t a =>
    cases hs; cases a
    · exact .of_queue_eq rfl rfl rfl
    · exact ⟨rfl, ⟨_, rfl, .inl ⟨t, rfl, rfl⟩, by simp⟩, .of_eq rfl⟩
  | removeHandler t a =>
    cases hs; cases a
    · exact .of_queue_eq rfl rfl rfl
    · exact .of_tasks rfl rfl (by simp) (by simp) (.of_eq rfl)
  | scheduleDeregisterPeer p a =>
    cases hs; cases a
    · exact .of_queue_eq rfl rfl rfl
    · exact .of_tasks rfl rfl (by simp) (by simp) (.of_eq rfl)
  | sendMessage sm =>
    cases hs; unfold sendMessage; split
    · exact .of_tasks rfl (List.append_nil _).symm (by simp) (by simp)
        (streamsKeep_append (fun r hr => ⟨_, by rename_i h; exact ofStream_verify h,
          List.mem_singleton.1 hr⟩) rfl)
    · exact ⟨rfl, ⟨_, rfl, .inr (by simp), by simp [enqueue]⟩, streamsKeep_append streamErrors_nil rfl⟩
  | recvPacket s es =>
    simp only [receivePacket] at hs; split at hs
    · cases hs
    · split at hs
      · cases hs
      split at hs
      · cases hs; exact .of_queue_eq rfl rfl rfl
      · cases hs; exact .of_tasks rfl rfl (by simp) (by simp) (.of_eq rfl)
  | closeStream s reported =>
    simp only [closeStream] at hs; split at hs
    · cases hs
    · rename_i sh hsh
      split at hs
      · cases hs
      · cases hs
        refine .of_tasks rfl (List.append_nil _).symm (by simp) (by simp) (streamsKeep_close hsh ?_ rfl)
        cases reported
        · exact streamErrors_nil
        · exact fun r hr => ⟨.recvFailed, rfl, List.mem_singleton.1 hr⟩
  | localBatch es =>
    simp only [localBatch] at hs; split at hs
    · cases hs
    · cases hs; exact .of_tasks rfl rfl (by simp) (by simp) (.of_eq rfl)
  | onExit h a =>
    simp only [onExit] at hs; split at hs
    · cases hs
    · cases hs; split
      · exact .of_tasks rfl rfl (by simp) (by simp) (.of_eq rfl)
      · exact .of_queue_eq rfl rfl rfl
  | finishUnregister h =>
    simp only [finishUnregister] at hs; split at hs
    · cases hs; exact .of_queue_eq rfl rfl rfl
    · cases hs

end MessageServer

end Tiflow.P2p
