import Tiflow.P2p.Basic

/-!
# The message server and its task loop

The state of a `MessageServer` and the functions of `server.go` that its task loop `run`
executes, one task at a time:

* the peer registry: `registerPeer`, `deregisterPeer`, `deregisterPeerByID`, `cdcPeer.abort`
  and `tick`;
* message dispatch: `handleMessage`, `handleRawMessage`, and `registerHandler` with its drain
  `handlePendingMessages`;
* `runTask`, the body of `run`'s `switch` over the task it dequeued.

Go pointers are indices: a `cdcPeer` is an element of `peerObjs` (every peer ever created, so a
stale pointer stays meaningful), a stream handle one of `streams`, an event handle one of
`pool`. A `log.Panic` ends the computation with a `Panic`. Maps that Go iterates in an
unspecified order are iterated in the order the caller gives (`handlePendingMessages`) or in
list order where the order cannot matter (`tick` sends to distinct peers).
-/

namespace Tiflow.P2p

/-- `cdcPeer`; `sender` is the index of its stream handle. -/
structure CdcPeer where
  PeerID : NodeID
  Epoch : Int
  sender : Nat
  valid : Bool
  deriving DecidableEq, Repr, Inhabited

/-- `newCDCPeer`. -/
def newCDCPeer (senderID : NodeID) (epoch : Int) (sender : Nat) : CdcPeer :=
  { PeerID := senderID, Epoch := epoch, sender := sender, valid := true }

/-- A `streamHandle`: the immutable meta of its stream, whether the receive side has closed
it, and the responses handed to the send side. -/
structure StreamHandle where
  streamMeta : StreamMeta
  closed : Bool := false
  sent : List SendMessageResponse := []
  deriving DecidableEq, Repr, Inhabited

/-- `pendingMessageEntry`: a message of a stream, or of the local channel (nil `StreamMeta`). -/
inductive PendingMessageEntry where
  | remote (streamMeta : StreamMeta) (entry : MessageEntry)
  | raw (rawEntry : RawMessageEntry)
  deriving DecidableEq, Repr

/-- The ghost tag of a pending entry. -/
def PendingMessageEntry.tag : PendingMessageEntry → Nat
  | .remote _ entry => entry.tag
  | .raw entry => entry.tag

/-- What `AddEvent` hands to a handle: `poolEventArgs`, or the value of a local message. -/
inductive PoolEvent where
  | args (streamMeta : StreamMeta) (entry : MessageEntry)
  | raw (entry : RawMessageEntry)
  deriving DecidableEq, Repr

/-- Where the handler built in `AddHandler` stands in its current event: after `acks.Get`,
the checks and the decoding, before `fn` (`decoded`); after `fn` returned nil, before
`acks.Set` (`called`). -/
inductive WrapperPhase where
  | idle
  | decoded (streamMeta : StreamMeta) (entry : MessageEntry)
  | called (streamMeta : StreamMeta) (entry : MessageEntry)
  deriving DecidableEq, Repr, Inhabited

/-- A `workerpool.EventHandle` registered by `AddHandler` for `topic`: its queue of events,
the phase of the event it runs, whether an error cancelled it (and the error its `OnExit` is
still to receive), and whether `GracefulUnregister` has started and finished. -/
structure EventHandle where
  topic : Topic
  queue : List PoolEvent := []
  phase : WrapperPhase := .idle
  cancelled : Bool := false
  exitErr : Option PeerError := none
  unregistering : Bool := false
  unregistered : Bool := false
  deriving DecidableEq, Repr, Inhabited

/-- The tasks of `taskQueue`. The source builds `taskOnMessageBatch` in two shapes, from a
stream and from the local channel; they are the first two constructors. -/
inductive ServerTask where
  | onMessageBatch (streamMeta : StreamMeta) (messageEntries : List MessageEntry)
  | onRawMessageBatch (rawMessageEntries : List RawMessageEntry)
  | onRegisterPeer (sender : Nat)
  | onDeregisterPeer (peerID : NodeID)
  | onRegisterHandler (topic : Topic) (handler : Nat)
  | onDeregisterHandler (topic : Topic)
  | debugDelay
  deriving DecidableEq, Repr

/-- The two `log.Panic`s of the server. -/
inductive Panic where
  | abortingInvalidPeer (peer : NodeID)
  | duplicateHandlers (topic : Topic)
  deriving DecidableEq, Repr

/-- Whether `run` is still looping, returned an error, or panicked. -/
inductive RunStatus where
  | running
  | returned (err : PeerError)
  | panicked (p : Panic)
  deriving DecidableEq, Repr

/-- Ghost: what became of an entry the task loop dispatched. A drop records what the state
showed when the entry was dropped. -/
inductive Fate where
  /-- `AddEvent` was called with it on this handle -/
  | handed (handle : Nat)
  /-- dropped at dispatch or drain: `peer` is the peer the registry held for its sender
  (`none`: no peer), which is not a valid peer with the stream's epoch `epoch` -/
  | noPeer (epoch : Int) (peer : Option CdcPeer)
  /-- dropped with its buffer, which held `length` entries -/
  | overflow (length : Nat)
  /-- dropped on arrival: its remote buffer held `length` entries, over the bound -/
  | congestedTrigger (length : Nat)
  deriving DecidableEq, Repr

/-- Ghost history of a run. -/
structure Ghost where
  /-- the tag of the next entry the task loop dequeues -/
  nextTag : Nat := 0
  /-- entries in the order the task loop dequeued them, with their pending-buffer key -/
  dispatched : List (Nat × TopicSenderPair) := []
  fates : List (Nat × TopicSenderPair × Fate) := []
  /-- the peers `abort` was called on -/
  aborted : List Nat := []
  /-- `(senderID, topic, seq)` of each call of `fn` that returned nil -/
  delivered : List (NodeID × Topic × Seq) := []
  deriving DecidableEq, Repr

/-- `MessageServer`. -/
structure MessageServer where
  serverID : NodeID
  config : MessageServerConfig
  handlers : Map Topic Nat := ∅
  peers : Map NodeID Nat := ∅
  peerObjs : List CdcPeer := []
  pendingMessages : Map TopicSenderPair (List PendingMessageEntry) := ∅
  acks : Map (NodeID × Topic) Seq := ∅
  taskQueue : List ServerTask := []
  pool : List EventHandle := []
  streams : List StreamHandle := []
  status : RunStatus := .running
  ghost : Ghost := {}

/-- `NewMessageServer`. -/
def newMessageServer (serverID : NodeID) (config : MessageServerConfig) : MessageServer :=
  { serverID := serverID, config := config }

namespace MessageServer

variable (m : MessageServer)

/-! ### Pointers, ghost records and sends -/

/-- The peer a pointer designates. -/
def peerAt (p : Nat) : CdcPeer := m.peerObjs.getD p default

/-- The handle a pointer designates. -/
def handleAt (h : Nat) : EventHandle := m.pool.getD h default

/-- `acks.Get`. Modelled from the spec: `ackManager` is not in the sources; the spec (4.4)
gives the handler's `acks.Get`, which reads the ack of `(senderID, topic)`, `initAck` when none
was set. -/
def ackGet (senderID : NodeID) (topic : Topic) : Seq := (m.acks.lookup (senderID, topic)).getD initAck

/-- Ghost: record the fate of an entry. -/
def logFate (tag : Nat) (key : TopicSenderPair) (f : Fate) : MessageServer :=
  { m with ghost := { m.ghost with fates := m.ghost.fates ++ [(tag, key, f)] } }

/-- Ghost: record the fates of the entries of a dropped buffer. -/
def logOverflow (key : TopicSenderPair) (entries : List PendingMessageEntry) : MessageServer :=
  entries.foldl (fun m e => m.logFate e.tag key (.overflow entries.length)) m

/-- Ghost: record that the task loop dequeued an entry, which gets the tag `nextTag`. -/
def logDispatched (key : TopicSenderPair) : MessageServer :=
  { m with ghost := { m.ghost with
    nextTag := m.ghost.nextTag + 1
    dispatched := m.ghost.dispatched ++ [(m.ghost.nextTag, key)] } }

/-- `streamHandle.Send`: refused with `ErrPeerMessageInternalSenderClosed` once the stream
is closed. Modelled from the spec: `streamHandle` is not in the sources; the spec (4.1, 4.2)
says its send queue reports `InternalSenderClosed` once the receive side has closed the handle.
The bounded channel is left out: a response the handle accepts is sent. -/
def send (s : Nat) (resp : SendMessageResponse) : Except PeerError MessageServer :=
  match m.streams[s]? with
  | some sh =>
    if sh.closed then .error .internalSenderClosed
    else .ok { m with streams := m.streams.set s { sh with sent := sh.sent ++ [resp] } }
  | none => .error .internalSenderClosed

/-- A send whose error the caller only logs. -/
def sendIgnoringError (s : Nat) (resp : SendMessageResponse) : MessageServer :=
  match m.send s resp with
  | .ok m' => m'
  | .error _ => m

/-- `AddEvent` of the worker pool: refused once the handle is cancelled or unregistered.
Modelled from the spec: the worker pool is not in the sources; the spec (4.4) gives only that a
submission can fail, and `AddHandler`'s `OnExit` (server.go) that a handle an error cancelled
runs no more events. -/
def addEvent (h : Nat) (ev : PoolEvent) : Except PeerError MessageServer :=
  let handle := m.handleAt h
  if handle.cancelled || handle.unregistered then .error .handleCancelled
  else .ok { m with pool := m.pool.set h { handle with queue := handle.queue ++ [ev] } }

/-! ### The peer registry -/

/-- `cdcPeer.abort`: panics on an invalid peer, sends the error and marks the peer invalid. -/
def abort (p : Nat) (err : PeerError) : Except Panic MessageServer :=
  let peer := m.peerAt p
  if !peer.valid then .error (.abortingInvalidPeer peer.PeerID) else
  let m' := m.sendIgnoringError peer.sender (errorToRPCResponse err)
  .ok { m' with
    peerObjs := m'.peerObjs.set p { peer with valid := false }
    ghost := { m'.ghost with aborted := m'.ghost.aborted ++ [p] } }

/-- `deregisterPeer`: deletes the entry of the peer's ID, then aborts it when given an error. -/
def deregisterPeer (p : Nat) (err : Option PeerError) : Except Panic MessageServer :=
  let m' := { m with peers := m.peers.erase (m.peerAt p).PeerID }
  match err with
  | none => .ok m'
  | some e => m'.abort p e

/-- `deregisterPeerByID`. -/
def deregisterPeerByID (peerID : NodeID) : Except Panic MessageServer :=
  match m.peers.lookup peerID with
  | none => .ok m
  | some p => m.deregisterPeer p none

/-- `m.peers[SenderId] = newCDCPeer(...)`. -/
def installPeer (sm : StreamMeta) (sender : Nat) : MessageServer :=
  { m with
    peerObjs := m.peerObjs ++ [newCDCPeer sm.SenderId sm.Epoch sender]
    peers := m.peers.insert sm.SenderId m.peerObjs.length }

/-- `registerPeer`: the new state and the error it returns. -/
def registerPeer (sender : Nat) : Except Panic (MessageServer × Option PeerError) :=
  let streamMeta := (m.streams.getD sender default).streamMeta
  match m.peers.lookup streamMeta.SenderId with
  | none =>
    let peerCount := m.peers.entries.length
    if (peerCount : Int) > m.config.MaxPeerCount then .ok (m, some (.toManyPeers peerCount))
    else .ok (m.installPeer streamMeta sender, none)
  | some p =>
    let peer := m.peerAt p
    if peer.Epoch > streamMeta.Epoch then
      .ok (m, some (.staleConnection streamMeta.Epoch peer.Epoch))
    else if peer.Epoch < streamMeta.Epoch then
      match m.deregisterPeer p (some (.staleConnection peer.Epoch streamMeta.Epoch)) with
      | .ok m' => .ok (m'.installPeer streamMeta sender, none)
      | .error e => .error e
    else .ok (m, some (.duplicateConnection streamMeta.Epoch))

/-- The acks of a peer, as `acks.Range` lists them. -/
def ackList (peerID : NodeID) : List Ack :=
  m.acks.entries.filterMap fun e => if e.1.1 = peerID then some ⟨e.1.2, e.2⟩ else none

/-- One round of `tick`'s loop over `m.peers`: send the peer its acks, and remember it when
its sender is closed. -/
def tickPeer : MessageServer × List Nat → (_ : NodeID) × Nat → MessageServer × List Nat
  | (m, toDeregister), ⟨_, p⟩ =>
    let peer := m.peerAt p
    let acks := m.ackList peer.PeerID
    if acks = [] then (m, toDeregister) else
    match m.send peer.sender { Ack := acks, ExitReason := .ok } with
    | .ok m' => (m', toDeregister)
    | .error err => if err = .internalSenderClosed then (m, toDeregister ++ [p]) else (m, toDeregister)

/-- `tick`: acks to every peer, then the deregistration (without error) of closed senders. -/
def tick : Except Panic MessageServer :=
  let (m', peersToDeregister) := m.peers.entries.foldl tickPeer (m, [])
  peersToDeregister.foldlM (fun m p => m.deregisterPeer p none) m'

/-! ### Dispatch -/

/-- `handleMessage`. -/
def handleMessage (streamMeta : StreamMeta) (entry : MessageEntry) : Except Panic MessageServer :=
  let key : TopicSenderPair := ⟨entry.Topic, streamMeta.SenderId⟩
  match m.peers.lookup streamMeta.SenderId with
  | none => .ok (m.logFate entry.tag key (.noPeer streamMeta.Epoch none))
  | some p =>
    let peer := m.peerAt p
    if peer.Epoch ≠ streamMeta.Epoch then
      .ok (m.logFate entry.tag key (.noPeer streamMeta.Epoch (some peer))) else
    if !peer.valid then .ok (m.logFate entry.tag key (.noPeer streamMeta.Epoch (some peer))) else
    match m.handlers.lookup entry.Topic with
    | none =>
      let pendingEntries := (m.pendingMessages.lookup key).getD []
      if (pendingEntries.length : Int) > m.config.MaxPendingMessageCountPerTopic then
        let m' := { m with pendingMessages := m.pendingMessages.erase key }
        ((m'.logOverflow key pendingEntries).logFate entry.tag key
          (.congestedTrigger pendingEntries.length)).deregisterPeer p (some .topicCongested)
      else
        .ok { m with
          pendingMessages := m.pendingMessages.insert key (pendingEntries ++ [.remote streamMeta entry]) }
    | some h =>
      let m' := m.logFate entry.tag key (.handed h)
      match m'.addEvent h (.args streamMeta entry) with
      | .ok m'' => .ok m''
      | .error err => m'.deregisterPeer p (some err)

/-- `handleRawMessage`: buffers under the server's own ID, and drops the buffer once it
reaches the bound; a handler's error is ignored. -/
def handleRawMessage (entry : RawMessageEntry) : MessageServer :=
  let key : TopicSenderPair := ⟨entry.topic, m.serverID⟩
  match m.handlers.lookup entry.topic with
  | none =>
    let pendingEntries := (m.pendingMessages.lookup key).getD [] ++ [.raw entry]
    let m' := { m with pendingMessages := m.pendingMessages.insert key pendingEntries }
    if (pendingEntries.length : Int) ≥ m.config.MaxPendingMessageCountPerTopic then
      { m' with pendingMessages := m'.pendingMessages.erase key }.logOverflow key pendingEntries
    else m'
  | some h =>
    let m' := m.logFate entry.tag key (.handed h)
    match m'.addEvent h (.raw entry) with
    | .ok m'' => m''
    | .error _ => m'

/-- One entry of the drain in `handlePendingMessages`. -/
def handlePendingEntry : PendingMessageEntry → Except Panic MessageServer
  | .remote sm entry => m.handleMessage sm entry
  | .raw entry => .ok (m.handleRawMessage entry)

/-- One key of `handlePendingMessages`' loop over `pendingMessages`. -/
def drainKey (topic : Topic) (key : TopicSenderPair) : Except Panic MessageServer :=
  if key.Topic ≠ topic then .ok m else
  match ((m.pendingMessages.lookup key).getD []).foldlM handlePendingEntry m with
  | .ok m' => .ok { m' with pendingMessages := m'.pendingMessages.erase key }
  | .error e => .error e

/-- `handlePendingMessages`, visiting the keys in the order `order`. -/
def handlePendingMessages (topic : Topic) (order : List TopicSenderPair) :
    Except Panic MessageServer :=
  order.foldlM (fun m key => m.drainKey topic key) m

/-- `registerHandler`: panics on a second handler for a topic, then drains its pending entries. -/
def registerHandler (topic : Topic) (handler : Nat) (order : List TopicSenderPair) :
    Except Panic MessageServer :=
  if topic ∈ m.handlers then .error (.duplicateHandlers topic)
  else { m with handlers := m.handlers.insert topic handler }.handlePendingMessages topic order

/-! ### The task loop -/

/-- `run` on `taskOnDeregisterHandler`: delete the handler and start its `GracefulUnregister`. -/
def onDeregisterHandler (topic : Topic) : MessageServer :=
  match m.handlers.lookup topic with
  | some h =>
    { m with
      handlers := m.handlers.erase topic
      pool := m.pool.set h { m.handleAt h with unregistering := true } }
  | none => m

/-- `run` on `taskOnRegisterPeer`: a stale or duplicate stream is told so and the loop goes
on, unless that send fails; every other error of `registerPeer` ends `run`. -/
def onRegisterPeer (sender : Nat) : Except Panic MessageServer :=
  match m.registerPeer sender with
  | .error p => .error p
  | .ok (m', none) => .ok m'
  | .ok (m', some err) =>
    if err.isStaleOrDuplicate then
      match m'.send sender (errorToRPCResponse err) with
      | .ok m'' => .ok m''
      | .error _ => .ok { m' with status := .returned err }
    else .ok { m' with status := .returned err }

/-- `run` on `taskOnMessageBatch` from a stream. -/
def handleMessageBatch (sm : StreamMeta) (entries : List MessageEntry) :
    Except Panic MessageServer :=
  entries.foldlM (fun m e =>
    (m.logDispatched ⟨e.Topic, sm.SenderId⟩).handleMessage sm { e with tag := m.ghost.nextTag }) m

/-- `run` on `taskOnMessageBatch` from the local channel. -/
def handleRawMessageBatch (entries : List RawMessageEntry) : MessageServer :=
  entries.foldl (fun m e =>
    (m.logDispatched ⟨e.topic, m.serverID⟩).handleRawMessage { e with tag := m.ghost.nextTag }) m

/-- **The body of `run`'s switch** on a dequeued task; `order` is the iteration order of
`pendingMessages` should the task drain it. -/
def runTask (order : List TopicSenderPair) : ServerTask → Except Panic MessageServer
  | .onMessageBatch sm entries => m.handleMessageBatch sm entries
  | .onRawMessageBatch entries => .ok (m.handleRawMessageBatch entries)
  | .onRegisterPeer sender => m.onRegisterPeer sender
  | .onDeregisterPeer peerID => m.deregisterPeerByID peerID
  | .onRegisterHandler topic h => m.registerHandler topic h order
  | .onDeregisterHandler topic => .ok (m.onDeregisterHandler topic)
  | .debugDelay => .ok m

/-- The state after a step of `run`: a panic leaves the state it started from, panicked. -/
def settle : Except Panic MessageServer → MessageServer
  | .ok m' => m'
  | .error p => { m with status := .panicked p }

end MessageServer

end Tiflow.P2p
