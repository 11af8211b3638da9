import Tiflow.P2p.Server

/-!
# The handler of `AddHandler`, the worker pool, and the callers of the server

What runs beside the task loop:

* `runHandle` — one step of the handler that `AddHandler` registers with the worker pool
  (`acks.Get`, the duplicate and gap checks and the decoding; the call of `fn`; `acks.Set`).
  A handle runs its events one at a time and in order; different handles interleave at these
  three points, which are the points where the handlers of one topic share the ack table;
* `onExit` and `finishUnregister` — the `OnExit` callback and the end of `GracefulUnregister`,
  which may come at its timeout while the handler is inside `fn`;
* `addHandler`, `removeHandler`, `scheduleDeregisterPeerTask`, `sendMessage`, `receivePacket`
  and `closeStream` — the public API and the stream goroutines: they enqueue tasks, and send
  an error on a stream `verifyStreamMeta` refuses or whose `Recv` fails.

A non-blocking `scheduleTask` may be refused (`accepted = false`) whatever the queue holds,
and blocking enqueues always succeed: the runs of the model include those of every capacity
of `taskQueue`.
-/

namespace Tiflow.P2p

/-- The worker pool cancels a handle whose handler returned `err`: its queue is dropped and
its `OnExit` is due. Modelled from the spec: the worker pool is not in the sources; the spec
(4.4, 7) says an error of the handler terminates it and its `OnExit` schedules the
deregistration of the topic. -/
def EventHandle.exit (handle : EventHandle) (err : PeerError) : EventHandle :=
  { handle with queue := [], phase := .idle, cancelled := true, exitErr := some err }

namespace MessageServer

variable (m : MessageServer)

/-- Replace the handle `h`. -/
def setHandle (h : Nat) (handle : EventHandle) : MessageServer :=
  { m with pool := m.pool.set h handle }

/-- `acks.Set`. Modelled from the spec: `ackManager` is not in the sources; the spec (4.4)
gives the handler's `acks.Set`, which stores the sequence as the ack of `(senderID, topic)`. -/
def ackSet (senderID : NodeID) (topic : Topic) (seq : Seq) : MessageServer :=
  { m with acks := m.acks.insert (senderID, topic) seq }

/-- Ghost: record a call of `fn` that returned nil. -/
def logDelivered (senderID : NodeID) (topic : Topic) (seq : Seq) : MessageServer :=
  { m with ghost := { m.ghost with delivered := m.ghost.delivered ++ [(senderID, topic, seq)] } }

/-- Append a task to `taskQueue`. -/
def enqueue (task : ServerTask) : MessageServer :=
  { m with taskQueue := m.taskQueue ++ [task] }

/-! ### The handler built in `AddHandler` -/

/-- **One step of the handler of handle `h`.** `ok` is the outcome of the external call the
step makes: the decoding of the content when it starts an event from a stream, `fn` when it
calls it. The steps of an event are those of the handler `AddHandler` builds. Modelled from the
spec: the worker pool, which decides when a handle takes a step, is not in the sources. It runs
a handle's events one at a time and in order (spec 5), a cancelled handle runs none, and a handle
the pool has removed starts none, but finishes the one under way: `GracefulUnregister` can give
up at its timeout while the handler is inside `fn` (server.go, `run`; spec 9), and nothing stops
`fn`. -/
def runHandle (h : Nat) (ok : Bool) : Option MessageServer :=
  let handle := m.handleAt h
  if m.pool.length ≤ h || handle.cancelled || (handle.unregistered && handle.phase == .idle) then
    none else
  match handle.phase, handle.queue with
  | .idle, [] => none
  | .idle, .raw _ :: rest =>
    some (m.setHandle h (if ok then { handle with queue := rest } else handle.exit .handlerError))
  | .idle, .args sm entry :: rest =>
    let lastAck := m.ackGet sm.SenderId entry.Topic
    if lastAck ≥ entry.Sequence then some (m.setHandle h { handle with queue := rest })
    else if lastAck ≠ initAck ∧ entry.Sequence > lastAck + 1 then
      some (m.setHandle h (handle.exit (.dataLost entry.Topic (lastAck + 1))))
    else if !ok then some (m.setHandle h (handle.exit .decodeError))
    else some (m.setHandle h { handle with queue := rest, phase := .decoded sm entry })
  | .decoded sm entry, _ =>
    if ok then
      some ((m.setHandle h { handle with phase := .called sm entry }).logDelivered sm.SenderId
        entry.Topic entry.Sequence)
    else some (m.setHandle h (handle.exit .handlerError))
  | .called sm entry, _ =>
    some ((m.ackSet sm.SenderId entry.Topic entry.Sequence).setHandle h { handle with phase := .idle })

/-- The `OnExit` callback of `AddHandler`: it schedules the deregistration of the topic's
handler (`scheduleTask`, whose refusal it ignores). Modelled from the spec: the worker pool,
which calls it, is not in the sources; it calls it once, with the error that cancelled the
handle. -/
def onExit (h : Nat) (accepted : Bool) : Option MessageServer :=
  let handle := m.handleAt h
  match handle.exitErr with
  | none => none
  | some _ =>
    let m' := m.setHandle h { handle with exitErr := none }
    some (if accepted then m'.enqueue (.onDeregisterHandler handle.topic) else m')

/-- `GracefulUnregister` returns: the pool removes the handle, after it has drained its queue
or, at the timeout, whatever the handler is doing, dropping the events still queued. A call of
`fn` under way is not stopped: `runHandle` finishes that event. Modelled from the spec: the
worker pool is not in the sources; the spec (4.4, 9) says `GracefulUnregister` drains in-flight
events and at its timeout forcibly removes the handler, dropping what is queued, and the comment
of `run` (server.go) that it times out on a handler that blocks. -/
def finishUnregister (h : Nat) : Option MessageServer :=
  let handle := m.handleAt h
  if h < m.pool.length ∧ handle.unregistering ∧ handle.unregistered = false then
    some (m.setHandle h { handle with unregistered := true, queue := [] })
  else none

/-! ### Callers of the server -/

/-- `AddHandler`: a new handle in the pool, and the scheduling of its registration. -/
def addHandler (topic : Topic) (accepted : Bool) : MessageServer :=
  let m' : MessageServer := { m with pool := m.pool ++ [{ topic := topic }] }
  if accepted then m'.enqueue (.onRegisterHandler topic m.pool.length) else m'

/-- `RemoveHandler`. -/
def removeHandler (topic : Topic) (accepted : Bool) : MessageServer :=
  if accepted then m.enqueue (.onDeregisterHandler topic) else m

/-- `ScheduleDeregisterPeerTask`. -/
def scheduleDeregisterPeerTask (peerID : NodeID) (accepted : Bool) : MessageServer :=
  if accepted then m.enqueue (.onDeregisterPeer peerID) else m

/-- `SendMessage` on a new stream whose first packet carries `sm?`. If `verifyStreamMeta`
refuses it, the error response is sent on the stream and `SendMessage` returns, which closes the
stream; otherwise a stream handle, and the receive goroutine's `taskOnRegisterPeer`. -/
def sendMessage (sm? : Option StreamMeta) : MessageServer :=
  match verifyStreamMeta m.serverID sm? with
  | some err =>
    { m with streams := m.streams ++
      [{ streamMeta := sm?.getD default, closed := true, sent := [errorToRPCResponse err] }] }
  | none =>
    let m' : MessageServer := { m with streams := m.streams ++ [{ streamMeta := sm?.getD default }] }
    m'.enqueue (.onRegisterPeer m.streams.length)

/-- A packet received by the receive goroutine of stream `s`: a non-empty batch becomes a
`taskOnMessageBatch`. The goroutine has stopped once it closed the handle. -/
def receivePacket (s : Nat) (entries : List MessageEntry) : Option MessageServer :=
  match m.streams[s]? with
  | none => none
  | some sh =>
    if sh.closed then none else
    if entries = [] then some m else
    some (m.enqueue (.onMessageBatch sh.streamMeta entries))

/-- The receive goroutine of stream `s` stops, `receive` having failed: it queues the error's
response for the send goroutine, which sends it unless the stream's context ends or its channel
is full first (`reported`), and closes the handle. -/
def closeStream (s : Nat) (reported : Bool) : Option MessageServer :=
  match m.streams[s]? with
  | none => none
  | some sh =>
    if sh.closed then none else
    some { m with streams := m.streams.set s { sh with
      closed := true
      sent := sh.sent ++ if reported then [errorToRPCResponse .recvFailed] else [] } }

/-- A batch of the local channel flushed by `receiveLocalMessage`. -/
def localBatch (entries : List RawMessageEntry) : Option MessageServer :=
  if entries = [] then none else some (m.enqueue (.onRawMessageBatch entries))

end MessageServer

end Tiflow.P2p
