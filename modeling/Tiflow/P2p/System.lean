import Tiflow.P2p.Handler

/-!
# Runs of the message server

A run is any interleaving of the steps of the task loop `run` (a dequeued task, a tick, the
cancellation of its context), of the worker pool's handles, of the streams and of the callers
of the API. Each `Label` names one step together with the outcomes of the environment it
depends on; `step` is `none` when the step is not enabled.

* `step`, `Reachable` — the transition function and the states reachable from
  `newMessageServer`;
* `exec` — a finite run, for runs on given inputs.
-/

namespace Tiflow.P2p

/-- One step of a run. -/
inductive Label where
  /-- `run` dequeues a task; `order` is the iteration order of `pendingMessages` -/
  | runTask (order : List TopicSenderPair)
  | runTick
  | runCancel
  | addHandler (topic : Topic) (accepted : Bool)
  | removeHandler (topic : Topic) (accepted : Bool)
  | scheduleDeregisterPeer (peerID : NodeID) (accepted : Bool)
  | sendMessage (streamMeta : Option StreamMeta)
  | recvPacket (stream : Nat) (entries : List MessageEntry)
  | closeStream (stream : Nat) (reported : Bool)
  | localBatch (entries : List RawMessageEntry)
  | runHandle (handle : Nat) (ok : Bool)
  | onExit (handle : Nat) (accepted : Bool)
  | finishUnregister (handle : Nat)
  deriving DecidableEq, Repr

namespace MessageServer

/-- `run` dequeues the head task and executes it. -/
def runNext (m : MessageServer) (order : List TopicSenderPair) : Option MessageServer :=
  match m.taskQueue with
  | [] => none
  | task :: rest =>
    if order.Perm m.pendingMessages.keys then
      let m' := { m with taskQueue := rest }
      some (m'.settle (m'.runTask order task))
    else none

/-- **The transition function of the server.** Nothing moves once `run` has stopped. -/
def step (m : MessageServer) (l : Label) : Option MessageServer :=
  if m.status ≠ .running then none else
  match l with
  | .runTask order => m.runNext order
  | .runTick => some (m.settle m.tick)
  | .runCancel => some { m with status := .returned .contextCanceled }
  | .addHandler topic accepted => some (m.addHandler topic accepted)
  | .removeHandler topic accepted => some (m.removeHandler topic accepted)
  | .scheduleDeregisterPeer peerID accepted => some (m.scheduleDeregisterPeerTask peerID accepted)
  | .sendMessage sm => some (m.sendMessage sm)
  | .recvPacket s entries => m.receivePacket s entries
  | .closeStream s reported => m.closeStream s reported
  | .localBatch entries => m.localBatch entries
  | .runHandle h ok => m.runHandle h ok
  | .onExit h accepted => m.onExit h accepted
  | .finishUnregister h => m.finishUnregister h

/-- A finite run. -/
def exec (m : MessageServer) : List Label → Option MessageServer
  | [] => some m
  | l :: ls => (m.step l).bind fun m' => exec m' ls

/-- Once `run` has stopped, no step is enabled. -/
theorem step_of_not_running {m : MessageServer} {l : Label} (h : m.status ≠ .running) :
    m.step l = none :=
  if_pos h

end MessageServer

open MessageServer

/-- The states of a run started from `newMessageServer`. -/
inductive Reachable : MessageServer → Prop
  | init (serverID : NodeID) (config : MessageServerConfig) :
      Reachable (newMessageServer serverID config)
  | step {m m' : MessageServer} (l : Label) : Reachable m → m.step l = some m' → Reachable m'

theorem Reachable.exec {m m' : MessageServer} {ls : List Label} (h : Reachable m)
    (he : m.exec ls = some m') : Reachable m' := by
  induction ls generalizing m with
  | nil => cases he; exact h
  | cons l ls ih =>
    simp only [MessageServer.exec, Option.bind_eq_some] at he
    obtain ⟨m₁, h₁, h₂⟩ := he
    exact ih (h.step l h₁) h₂

/-- The state a run on given inputs reaches from `newMessageServer` is reachable. -/
theorem Reachable.exec_get (serverID : NodeID) (config : MessageServerConfig) (ls : List Label)
    (h : ((newMessageServer serverID config).exec ls).isSome) :
    Reachable (((newMessageServer serverID config).exec ls).get h) :=
  (Reachable.init serverID config).exec (Option.some_get h).symm

end Tiflow.P2p
