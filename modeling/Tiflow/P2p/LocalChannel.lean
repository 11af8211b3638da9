import Tiflow.P2p.Delivery

/-!
# The local channel

`receiveLocalMessage` reads the entries the server's own node sends to itself from `localCh`,
gathers them in `batchRawMessages`, and hands a batch to `run` as a `taskOnMessageBatch`
(`sendTaskBlocking`) once it holds 1024 entries or when its ticker fires; it returns when
`localCh` is closed. `run` hands the entries of such a task to `handleRawMessage`, one after
another.

* `rawBatches`, `Label.rawDequeued` — the batches of the local channel in the task queue, and
  the one a step of `run` dequeues; `rawBatches_step` — a step of the server takes at most the
  first of them, and no step but their flush adds one;
* `LocalSystem`, `LocalSystem.step` — the server together with the goroutine of
  `receiveLocalMessage`, whose flushes are the only batches of the local channel, with the
  entries received, the batches enqueued and the batches `run` dequeued as ghost;
* `BatchInv` — the batches enqueued, then the unflushed one, are the entries received; each
  batch enqueued holds 1 to 1024 entries; the batches `run` dequeued, then those still queued,
  are the batches enqueued;
* `local_batches_in_order` — so in every state of every run, and `run` hands the entries of
  each batch to `handleRawMessage` in the order they were received.
-/

namespace Tiflow.P2p

/-- The entries of a `taskOnMessageBatch` of the local channel. -/
def ServerTask.rawEntries : ServerTask → Option (List RawMessageEntry)
  | .onRawMessageBatch es => some es
  | _ => none

/-- The batches of the local channel in a task queue, in order. -/
def rawBatches (q : List ServerTask) : List (List RawMessageEntry) :=
  q.filterMap ServerTask.rawEntries

/-- The batch of the local channel a step of the server dequeues: the first task, when the step
is `run` dequeuing such a batch. -/
def Label.rawDequeued (m : MessageServer) : Label → List (List RawMessageEntry)
  | .runTask _ => rawBatches (m.taskQueue.take 1)
  | _ => []

@[simp] theorem rawBatches_append (q q' : List ServerTask) :
    rawBatches (q ++ q') = rawBatches q ++ rawBatches q' :=
  List.filterMap_append _ _ _

theorem rawBatches_cons (t : ServerTask) (q : List ServerTask) :
    rawBatches (t :: q) = rawBatches [t] ++ rawBatches q :=
  rawBatches_append [t] q

theorem rawBatches_eq_nil {q : List ServerTask} (h : ∀ es, ServerTask.onRawMessageBatch es ∉ q) :
    rawBatches q = [] :=
  List.filterMap_eq_nil_iff.2 fun t ht => by
    cases t <;> first | rfl | exact absurd ht (h _)

theorem Label.rawDequeued_of_isLoop {l : Label} (m : MessageServer) (hl : l.isLoop = false) :
    l.rawDequeued m = [] := by
  cases l <;> first | rfl | cases hl

namespace MessageServer

variable {m m' : MessageServer}

theorem settle_taskQueue {r : Except Panic MessageServer} (h : ∀ m₁, r = .ok m₁ → LoopFrame m m₁) :
    (m.settle r).taskQueue = m.taskQueue := by
  cases r with
  | ok m₁ => exact (h m₁ rfl).taskQueue
  | error p => rfl

/-- **A step of the server and the batches of the local channel**: `run` may dequeue the first
of them, and no step but their flush adds one. -/
theorem rawBatches_step {l : Label} (hl : ∀ es, l ≠ .localBatch es) (hs : m.step l = some m') :
    rawBatches m.taskQueue = l.rawDequeued m ++ rawBatches m'.taskQueue := by
  cases hloop : l.isLoop with
  | false =>
    rw [Label.rawDequeued_of_isLoop m hloop, List.nil_append]
    by_cases hr : ∃ h ok, l = .runHandle h ok
    · -- a handle touches no task
      obtain ⟨h, ok, rfl⟩ := hr
      obtain ⟨-, hd, hc, -⟩ := runHandle_cases (step_runHandle hs)
      rcases hc with ⟨rfl, -⟩ | ⟨_, _, rfl, -⟩ | ⟨_, _, rfl, -⟩ | ⟨_, _, rfl, -⟩ <;> rfl
    · -- a caller queues no batch of the local channel
      push_neg at hr
      rcases caller_cases hloop hr hs with ⟨t, tasks, ht, rfl⟩ | ⟨pl, ss, tasks, ⟨-, ht⟩, -, rfl⟩
      · rw [rawBatches_append, rawBatches_eq_nil (q := tasks) fun es h =>
          (by cases List.mem_singleton.1 (ht h)), List.append_nil]
      · rw [rawBatches_append, rawBatches_eq_nil (q := tasks) fun es h => hl es (ht es h),
          List.append_nil]
  | true =>
    cases l with
    | runTask order =>
      obtain ⟨task, rest, hq, -, rfl⟩ := step_runTask hs
      rw [settle_taskQueue fun _ hr => loopFrame_runTask hr]
      show rawBatches m.taskQueue = rawBatches (m.taskQueue.take 1) ++ rawBatches rest
      rw [hq]
      exact rawBatches_cons task rest
    | runTick =>
      unfold step at hs
      split at hs
      · cases hs
      · cases hs; rw [settle_taskQueue fun _ ht => loopFrame_tick ht]; rfl
    | runCancel =>
      unfold step at hs
      split at hs
      · cases hs
      · cases hs; rfl
    | _ => cases hloop

end MessageServer

/-- The message server, with the goroutine of `receiveLocalMessage` feeding it the entries of
`localCh`. -/
structure LocalSystem where
  server : MessageServer
  /-- `batchRawMessages`: the entries received and not yet flushed -/
  batchRawMessages : List RawMessageEntry := []
  /-- the message of the `ErrPeerMessageServerClosed` that `receiveLocalMessage` returned -/
  returned : Option String := none
  /-- ghost: the entries received from `localCh`, in order -/
  received : List RawMessageEntry := []
  /-- ghost: the batches `sendTaskBlocking` enqueued, in order -/
  enqueued : List (List RawMessageEntry) := []
  /-- ghost: the batches of the local channel `run` dequeued, in order -/
  handed : List (List RawMessageEntry) := []

/-- One step: of the server, or of the loop of `receiveLocalMessage`, whose context is never
cancelled. -/
inductive LocalLabel where
  | server (l : Label)
  /-- `localCh` yields an entry -/
  | recv (entry : RawMessageEntry)
  /-- the ticker fires -/
  | tick
  /-- `localCh` is closed -/
  | close
  deriving DecidableEq, Repr

namespace LocalSystem

/-- The message of the error `receiveLocalMessage` returns once `localCh` is closed. -/
def closedMessage : String := "local server stream closed since the channel is closed"

/-- `sendTaskBlocking`: a non-empty batch becomes a `taskOnMessageBatch`, and the batch starts
again empty. The send waits, forever since the context is not cancelled, once `run` has
stopped. -/
def sendTaskBlocking (s : LocalSystem) : Option LocalSystem :=
  if s.batchRawMessages = [] then some s else
  (s.server.step (.localBatch s.batchRawMessages)).map fun m =>
    { s with server := m, batchRawMessages := [], enqueued := s.enqueued ++ [s.batchRawMessages] }

/-- **One step of the server with `receiveLocalMessage`.** The server takes any step but a flush
of the local channel, which only `receiveLocalMessage` makes; the loop of `receiveLocalMessage`
appends a received entry and flushes at 1024 entries, flushes when its ticker fires, and returns
when `localCh` is closed. -/
def step (s : LocalSystem) : LocalLabel → Option LocalSystem
  | .server (.localBatch _) => none
  | .server l => (s.server.step l).map fun m =>
    { s with server := m, handed := s.handed ++ l.rawDequeued s.server }
  | .recv entry =>
    if s.returned.isSome then none else
    let s := { s with
      batchRawMessages := s.batchRawMessages ++ [entry], received := s.received ++ [entry] }
    if s.batchRawMessages.length ≥ 1024 then s.sendTaskBlocking else some s
  | .tick => if s.returned.isSome then none else s.sendTaskBlocking
  | .close => if s.returned.isSome then none else some { s with returned := some closedMessage }

/-- `NewMessageServer`, before `receiveLocalMessage` receives anything. -/
def init (serverID : NodeID) (config : MessageServerConfig) : LocalSystem :=
  { server := newMessageServer serverID config }

/-- A finite run. -/
def exec (s : LocalSystem) : List LocalLabel → Option LocalSystem
  | [] => some s
  | l :: ls => (s.step l).bind fun s' => s'.exec ls

variable {s s' : LocalSystem}

theorem step_server {l : Label} (hl : ∀ es, l ≠ .localBatch es) :
    s.step (.server l) = (s.server.step l).map fun m =>
      { s with server := m, handed := s.handed ++ l.rawDequeued s.server } := by
  cases l <;> first | rfl | exact absurd rfl (hl _)

/-- **What a flush does**: nothing to an empty batch; otherwise the batch is queued, once `run`
runs, and enqueued. -/
theorem sendTaskBlocking_cases (h : s.sendTaskBlocking = some s') :
    (s.batchRawMessages = [] ∧ s' = s) ∨
    (s.batchRawMessages ≠ [] ∧
      s.server.step (.localBatch s.batchRawMessages) =
        some (s.server.enqueue (.onRawMessageBatch s.batchRawMessages)) ∧
      s' = { s with
        server := s.server.enqueue (.onRawMessageBatch s.batchRawMessages), batchRawMessages := [],
        enqueued := s.enqueued ++ [s.batchRawMessages] }) := by
  unfold sendTaskBlocking at h
  split at h
  · cases h; exact .inl ⟨‹_›, rfl⟩
  · rename_i hne
    obtain ⟨m, hm, rfl⟩ := Option.map_eq_some'.1 h
    have hq : m = s.server.enqueue (.onRawMessageBatch s.batchRawMessages) := by
      unfold MessageServer.step at hm
      split at hm
      · cases hm
      · simp only [MessageServer.localBatch, if_neg hne, Option.some.injEq] at hm
        exact hm.symm
    subst hq
    exact .inr ⟨hne, hm, rfl⟩

/-- **The four kinds of step**: one of the server but a flush of the local channel, recording
the batch `run` dequeues; a received entry, flushed with the batch once it holds 1024; a tick,
which flushes; the closing of `localCh`. -/
theorem step_cases {l : LocalLabel} (hs : s.step l = some s') :
    (∃ l' m, l = .server l' ∧ (∀ es, l' ≠ .localBatch es) ∧ s.server.step l' = some m ∧
      s' = { s with server := m, handed := s.handed ++ l'.rawDequeued s.server }) ∨
    (∃ entry, l = .recv entry ∧ s.returned = none ∧
      let s₁ := { s with
        batchRawMessages := s.batchRawMessages ++ [entry], received := s.received ++ [entry] }
      ((s₁.batchRawMessages.length < 1024 ∧ s' = s₁) ∨ s₁.sendTaskBlocking = some s')) ∨
    (l = .tick ∧ s.returned = none ∧ s.sendTaskBlocking = some s') ∨
    (l = .close ∧ s' = { s with returned := some closedMessage }) := by
  cases l with
  | server l =>
    by_cases hl : ∃ es, l = .localBatch es
    · obtain ⟨es, rfl⟩ := hl; cases hs
    · push_neg at hl
      rw [step_server hl] at hs
      obtain ⟨m, hm, rfl⟩ := Option.map_eq_some'.1 hs
      exact .inl ⟨l, m, rfl, hl, hm, rfl⟩
  | recv entry =>
    simp only [step, Option.isSome_iff_ne_none, ne_eq, ite_not] at hs
    split at hs
    · rename_i hr
      refine .inr (.inl ⟨entry, rfl, hr, ?_⟩)
      dsimp only at hs ⊢
      split at hs
      · exact .inr hs
      · cases hs; exact .inl ⟨by omega, rfl⟩
    · cases hs
  | tick =>
    simp only [step, Option.isSome_iff_ne_none, ne_eq, ite_not] at hs
    split at hs
    · exact .inr (.inr (.inl ⟨rfl, ‹_›, hs⟩))
    · cases hs
  | close =>
    simp only [step, Option.isSome_iff_ne_none, ne_eq, ite_not] at hs
    split at hs
    · cases hs; exact .inr (.inr (.inr ⟨rfl, rfl⟩))
    · cases hs

end LocalSystem

/-- The states of the runs of the server with `receiveLocalMessage`. -/
inductive LocalReachable : LocalSystem → Prop
  | init (serverID : NodeID) (config : MessageServerConfig) :
      LocalReachable (LocalSystem.init serverID config)
  | step {s s' : LocalSystem} (l : LocalLabel) :
      LocalReachable s → s.step l = some s' → LocalReachable s'

theorem LocalReachable.exec {s s' : LocalSystem} {ls : List LocalLabel} (h : LocalReachable s)
    (he : s.exec ls = some s') : LocalReachable s' := by
  induction ls generalizing s with
  | nil => cases he; exact h
  | cons l ls ih =>
    simp only [LocalSystem.exec, Option.bind_eq_some] at he
    obtain ⟨s₁, h₁, h₂⟩ := he
    exact ih (h.step l h₁) h₂

/-! ## The batching -/

/-- What the batching keeps in every state, the bound of the unflushed batch apart. -/
structure Batched (s : LocalSystem) : Prop where
  /-- the batches enqueued, then the unflushed one, are the entries received -/
  received : s.enqueued.flatten ++ s.batchRawMessages = s.received
  /-- every batch enqueued holds 1 to 1024 entries -/
  batches : ∀ b ∈ s.enqueued, b ≠ [] ∧ b.length ≤ 1024
  /-- the batches `run` dequeued, then those still queued, are the batches enqueued -/
  queue : s.enqueued = s.handed ++ rawBatches s.server.taskQueue

/-- **The invariant of the local channel**: the batching, with fewer than 1024 entries unflushed. -/
structure BatchInv (s : LocalSystem) extends Batched s : Prop where
  pending : s.batchRawMessages.length < 1024

section

open LocalSystem

variable {s s' : LocalSystem}

theorem batchInv_init (serverID : NodeID) (config : MessageServerConfig) :
    BatchInv (init serverID config) :=
  ⟨⟨rfl, fun _ h => (nomatch h), rfl⟩, by simp [init]⟩

/-- A flush of at most 1024 entries keeps the batching, and leaves nothing unflushed. -/
theorem Batched.send (hi : Batched s) (hl : s.batchRawMessages.length ≤ 1024)
    (h : s.sendTaskBlocking = some s') : BatchInv s' := by
  rcases sendTaskBlocking_cases h with ⟨he, rfl⟩ | ⟨hne, -, rfl⟩
  · exact ⟨hi, by rw [he]; decide⟩
  refine ⟨⟨?_, fun b hb => ?_, ?_⟩, by simp⟩
  · show (s.enqueued ++ [s.batchRawMessages]).flatten ++ [] = s.received
    rw [List.flatten_append, List.flatten_singleton, List.append_nil, hi.received]
  · rcases List.mem_append.1 hb with hb | hb
    · exact hi.batches b hb
    · rw [List.mem_singleton.1 hb]; exact ⟨hne, hl⟩
  · show s.enqueued ++ [s.batchRawMessages] =
      s.handed ++ rawBatches (s.server.taskQueue ++ [.onRawMessageBatch s.batchRawMessages])
    rw [rawBatches_append, hi.queue, List.append_assoc]; rfl

/-- A step of the server records the batch `run` dequeues. -/
theorem BatchInv.server (hi : BatchInv s) {l : Label} {m : MessageServer}
    (hl : ∀ es, l ≠ .localBatch es) (hm : s.server.step l = some m) :
    BatchInv { s with server := m, handed := s.handed ++ l.rawDequeued s.server } := by
  refine ⟨⟨hi.received, hi.batches, ?_⟩, hi.pending⟩
  show s.enqueued = s.handed ++ l.rawDequeued s.server ++ rawBatches m.taskQueue
  rw [hi.queue, MessageServer.rawBatches_step hl hm, List.append_assoc]

/-- A received entry joins the unflushed batch. -/
theorem BatchInv.recv (hi : BatchInv s) (entry : RawMessageEntry) :
    Batched { s with
      batchRawMessages := s.batchRawMessages ++ [entry], received := s.received ++ [entry] } := by
  refine ⟨?_, hi.batches, hi.queue⟩
  show s.enqueued.flatten ++ (s.batchRawMessages ++ [entry]) = s.received ++ [entry]
  rw [← List.append_assoc, hi.received]

theorem BatchInv.step (hi : BatchInv s) {l : LocalLabel} (hs : s.step l = some s') :
    BatchInv s' := by
  rcases step_cases hs with
    ⟨l', m, -, hl, hm, rfl⟩ | ⟨entry, -, -, ⟨hlt, rfl⟩ | hsend⟩ | ⟨-, -, hsend⟩ | ⟨-, rfl⟩
  · exact hi.server hl hm
  · exact ⟨hi.recv entry, hlt⟩
  · exact (hi.recv entry).send (by simp only [List.length_append]; exact hi.pending) hsend
  · exact hi.toBatched.send hi.pending.le hsend
  · exact ⟨⟨hi.received, hi.batches, hi.queue⟩, hi.pending⟩

/-- **What a step hands to `handleRawMessage`**: a step records a dequeued batch only when `run`
takes a batch of the local channel off the front of its queue, and then it hands that batch's
entries to `handleRawMessage`, one after another. -/
theorem LocalSystem.handed_step {l : LocalLabel} (hs : s.step l = some s') :
    s'.handed = s.handed ∨ ∃ order es rest, l = .server (.runTask order) ∧
      s.server.taskQueue = .onRawMessageBatch es :: rest ∧ s'.handed = s.handed ++ [es] ∧
      s'.server = ({ s.server with taskQueue := rest } : MessageServer).handleRawMessageBatch es := by
  rcases step_cases hs with
    ⟨l', m, rfl, -, hm, rfl⟩ | ⟨_, -, -, ⟨-, rfl⟩ | hsend⟩ | ⟨-, -, hsend⟩ | ⟨-, rfl⟩
  · cases l' with
    | runTask order =>
      obtain ⟨task, rest, hq, -, rfl⟩ := MessageServer.step_runTask hm
      cases task with
      | onRawMessageBatch es =>
        exact .inr ⟨order, es, rest, rfl, hq, by simp [Label.rawDequeued, hq, rawBatches,
          ServerTask.rawEntries], rfl⟩
      | _ => exact .inl (by simp [Label.rawDequeued, hq, rawBatches, ServerTask.rawEntries])
    | _ => exact .inl (List.append_nil _)
  · exact .inl rfl
  · rcases sendTaskBlocking_cases hsend with ⟨-, rfl⟩ | ⟨-, -, rfl⟩ <;> exact .inl rfl
  · rcases sendTaskBlocking_cases hsend with ⟨-, rfl⟩ | ⟨-, -, rfl⟩ <;> exact .inl rfl
  · exact .inl rfl

end

theorem batchInv_of_reachable {s : LocalSystem} (hr : LocalReachable s) : BatchInv s := by
  induction hr with
  | init serverID config => exact batchInv_init serverID config
  | step _ _ hs ih => exact ih.step hs

/-- **The batches of the local channel are the entries received, in order.** In every state of
every run of the server with `receiveLocalMessage`: the batches enqueued as `taskOnMessageBatch`,
then the unflushed batch, are the entries received from `localCh`, in order; every batch
enqueued holds 1 to 1024 entries; the batches `run` has dequeued, then those still in its queue,
are the batches enqueued, so the entries dequeued are the first entries received; and a step
dequeues a batch only when `run` takes it off the front of its queue, handing its entries to
`handleRawMessage` one after another. -/
theorem local_batches_in_order {s : LocalSystem} (hr : LocalReachable s) :
    s.enqueued.flatten ++ s.batchRawMessages = s.received ∧
    (∀ b ∈ s.enqueued, b ≠ [] ∧ b.length ≤ 1024) ∧
    s.enqueued = s.handed ++ rawBatches s.server.taskQueue ∧
    s.handed.flatten <+: s.received ∧
    ∀ l s', s.step l = some s' → s'.handed = s.handed ∨ ∃ order es rest,
      l = .server (.runTask order) ∧ s.server.taskQueue = .onRawMessageBatch es :: rest ∧
      s'.handed = s.handed ++ [es] ∧
      s'.server = ({ s.server with taskQueue := rest } : MessageServer).handleRawMessageBatch es := by
  have hi := batchInv_of_reachable hr
  have hprefix : s.handed.flatten <+: s.received := by
    rw [← hi.received, hi.queue, List.flatten_append, List.append_assoc]
    exact List.prefix_append _ _
  exact ⟨hi.received, hi.batches, hi.queue, hprefix, fun _ _ => LocalSystem.handed_step⟩

/-- Two entries received, flushed by the ticker, and handed to `handleRawMessage` by `run`. -/
theorem local_batches_in_order_two_entries :
    ∃ s, (LocalSystem.init "s" ⟨4, 4⟩).exec
        [.recv ⟨"t", "a", 0⟩, .recv ⟨"t", "b", 0⟩, .tick, .server (.runTask [])] = some s ∧
      s.enqueued = [[⟨"t", "a", 0⟩, ⟨"t", "b", 0⟩]] ∧
      (s.enqueued.flatten ++ s.batchRawMessages = s.received ∧
      (∀ b ∈ s.enqueued, b ≠ [] ∧ b.length ≤ 1024) ∧
      s.enqueued = s.handed ++ rawBatches s.server.taskQueue ∧
      s.handed.flatten <+: s.received ∧
      ∀ l s', s.step l = some s' → s'.handed = s.handed ∨ ∃ order es rest,
        l = .server (.runTask order) ∧ s.server.taskQueue = .onRawMessageBatch es :: rest ∧
        s'.handed = s.handed ++ [es] ∧
        s'.server = ({ s.server with taskQueue := rest } : MessageServer).handleRawMessageBatch es) := by
  obtain ⟨s, h⟩ : ∃ s, (LocalSystem.init "s" ⟨4, 4⟩).exec
      [.recv ⟨"t", "a", 0⟩, .recv ⟨"t", "b", 0⟩, .tick, .server (.runTask [])] = some s := ⟨_, rfl⟩
  have he : s.enqueued = [[⟨"t", "a", 0⟩, ⟨"t", "b", 0⟩]] := by cases h; rfl
  exact ⟨s, h, he, local_batches_in_order ((LocalReachable.init _ _).exec h)⟩

end Tiflow.P2p
