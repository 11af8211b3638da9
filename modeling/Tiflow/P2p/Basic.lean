import Mathlib.Data.List.AList

/-!
# The peer-to-peer message server: names, wire records and errors

The data that `pkg/p2p/server.go` reads and writes, as the source declares it:

* `MessageServerConfig` — the options the modelled functions read;
* `StreamMeta`, `MessageEntry`, `RawMessageEntry` — what a stream and the local channel carry;
* `PeerError` and `errorToRPCResponse` — the errors of the server and the exit reason each one
  is reported with;
* `Map` — the Go maps of the server, as association lists with distinct keys.

Entries carry a ghost `tag`, a number the model gives each entry when the task loop dequeues
it, so that the proofs can follow one entry through buffers and handlers.
-/

namespace Tiflow.P2p

/-- A Go map: an association list whose keys are distinct. -/
abbrev Map (K V : Type) := AList (fun _ : K => V)

/-- `NodeID`: the ID of a capture. -/
abbrev NodeID := String
/-- `Topic`: the key of a logical channel. -/
abbrev Topic := String
/-- `Seq`, an `int64`. The server compares sequences and adds one to an ack only after
checking that a larger sequence exists, so no computation of the source wraps around. -/
abbrev Seq := Int

/-- `initAck`: the ack of a pair that has acknowledged nothing. -/
def initAck : Seq := 0

/-- The fields of `MessageServerConfig` that the server's logic reads (Go `int`). -/
structure MessageServerConfig where
  MaxPendingMessageCountPerTopic : Int
  MaxPeerCount : Int
  deriving DecidableEq, Repr

/-- `p2p.StreamMeta`, the first frame of a stream. -/
structure StreamMeta where
  SenderId : NodeID
  ReceiverId : NodeID
  Epoch : Int
  deriving DecidableEq, Repr, Inhabited

/-- `p2p.MessageEntry`; the content is decoded by the handler and its outcome is an input of
the model. -/
structure MessageEntry where
  Topic : Topic
  Sequence : Seq
  /-- ghost: numbers the entry as the task loop dequeues it -/
  tag : Nat := 0
  deriving DecidableEq, Repr

/-- `RawMessageEntry`, a message of the local channel. -/
structure RawMessageEntry where
  topic : Topic
  value : String
  /-- ghost: numbers the entry as the task loop dequeues it -/
  tag : Nat := 0
  deriving DecidableEq, Repr

/-- `topicSenderPair`, the key of the pending buffer. -/
structure TopicSenderPair where
  Topic : Topic
  SenderID : NodeID
  deriving DecidableEq, Repr

/-- The errors the server raises or receives (`cerror.ErrPeerMessage…`, the error a user
callback returns, the worker pool's error for a cancelled handle, the error of a stream's
`Recv`, `ctx.Err()`). -/
inductive PeerError where
  | illegalMeta
  | receiverMismatch (expected actual : NodeID)
  | toManyPeers (count : Nat)
  | staleConnection (old new : Int)
  | duplicateConnection (epoch : Int)
  | topicCongested
  | taskQueueCongested
  | dataLost (topic : Topic) (seq : Seq)
  | decodeError
  | handlerError
  | handleCancelled
  | internalSenderClosed
  /-- the error with which `receive` ends, which its goroutine queues for the stream: that of
  `stream.Recv` (`io.EOF` once the peer has closed its side, or of the transport), or that of
  `scheduleTaskBlocking` once the stream's context is done; the model does not tell them apart -/
  | recvFailed
  | contextCanceled
  deriving DecidableEq, Repr

/-- `p2p.ExitReason`. -/
inductive ExitReason where
  | ok
  | congested
  | staleConnection
  | captureIdMismatch
  | unknown
  deriving DecidableEq, Repr

/-- `p2p.Ack`. -/
structure Ack where
  Topic : Topic
  LastSeq : Seq
  deriving DecidableEq, Repr

/-- `p2p.SendMessageResponse`; `ErrorMessage` keeps the error it renders. -/
structure SendMessageResponse where
  Ack : List Ack := []
  ExitReason : ExitReason
  ErrorMessage : Option PeerError := none
  deriving DecidableEq, Repr

/-- `errorToRPCResponse`. -/
def errorToRPCResponse (err : PeerError) : SendMessageResponse :=
  match err with
  | .topicCongested | .taskQueueCongested => { ExitReason := .congested, ErrorMessage := err }
  | .staleConnection .. => { ExitReason := .staleConnection, ErrorMessage := err }
  | .receiverMismatch .. => { ExitReason := .captureIdMismatch, ErrorMessage := err }
  | _ => { ExitReason := .unknown, ErrorMessage := err }

theorem errorToRPCResponse_ack (e : PeerError) : (errorToRPCResponse e).Ack = [] := by
  cases e <;> rfl

theorem errorToRPCResponse_errorMessage (e : PeerError) :
    (errorToRPCResponse e).ErrorMessage = some e := by
  cases e <;> rfl

/-- `verifyStreamMeta`: `none` when the stream may proceed. -/
def verifyStreamMeta (serverID : NodeID) : Option StreamMeta → Option PeerError
  | none => some .illegalMeta
  | some sm => if sm.ReceiverId ≠ serverID then some (.receiverMismatch serverID sm.ReceiverId)
    else none

/-- Whether `SendMessage` itself reports the error on its stream: an error of
`verifyStreamMeta`, or the error of a failed `Recv`. -/
def PeerError.ofStream : PeerError → Bool
  | .illegalMeta | .receiverMismatch .. | .recvFailed => true
  | _ => false

theorem ofStream_verify {serverID : NodeID} {sm? : Option StreamMeta} {err : PeerError}
    (h : verifyStreamMeta serverID sm? = some err) : err.ofStream = true := by
  unfold verifyStreamMeta at h
  split at h
  · cases h; rfl
  · split at h <;> cases h; rfl

/-- Whether `registerPeer`'s error is one of the two that `run` reports on the stream and
survives (`ErrPeerMessageStaleConnection`, `ErrPeerMessageDuplicateConnection`). -/
def PeerError.isStaleOrDuplicate : PeerError → Bool
  | .staleConnection .. | .duplicateConnection .. => true
  | _ => false

end Tiflow.P2p
