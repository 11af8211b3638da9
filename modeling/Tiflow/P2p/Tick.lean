import Tiflow.P2p.Acks

/-!
# What one tick sends

`tick` walks the peer registry: to every peer whose ID has acks it sends one response that
holds all of them, and it collects the peers whose stream the receive side has closed, which it
then deregisters without an error. In a reachable state two registered peers never share a
stream (a stream carries the ID of its sender, and the registry has one entry per ID), so the
walk sends each stream at most one response.

* `mem_ackList` — the acks of a peer are the entries of the ack table for its ID;
* `tickSends`, `tickDrops` — the registry entries `tick` answers, and those it deregisters;
* `tickPeer_with`, `foldl_tickPeer_with` — one round of the walk, and the whole walk, as the
  responses appended to each stream and the list of peers to drop;
* `tick_eq` — `tick` as one update of the streams and of the registry;
* `registered_senders_inj` — distinct registered peers have distinct streams;
* `TickSpec`, `tick_sends_acks` — on every reachable state, a tick answers each registered
  peer that has acks with all of them on its own stream, drops it instead when that stream is
  closed, and changes nothing else.
-/

namespace Tiflow.P2p

namespace MessageServer

variable (m : MessageServer)

/-- `tick` sends a response to the registry entry `x`: its peer has acks and its stream is
open. -/
def tickSends (x : (_ : NodeID) × Nat) : Bool :=
  !(m.ackList (m.peerAt x.2).PeerID).isEmpty && !(m.streams.getD (m.peerAt x.2).sender default).closed

/-- `tick` deregisters the peer of the registry entry `x`: it has acks and its stream is
closed. -/
def tickDrops (x : (_ : NodeID) × Nat) : Bool :=
  !(m.ackList (m.peerAt x.2).PeerID).isEmpty && (m.streams.getD (m.peerAt x.2).sender default).closed

@[simp] theorem peerAt_with_streams (ss : List StreamHandle) :
    ({ m with streams := ss } : MessageServer).peerAt = m.peerAt := rfl

@[simp] theorem ackList_with_streams (ss : List StreamHandle) :
    ({ m with streams := ss } : MessageServer).ackList = m.ackList := rfl

/-- The acks `tick` sends a peer are exactly the entries of the ack table for its ID. -/
theorem mem_ackList {peerID : NodeID} {a : Ack} :
    a ∈ m.ackList peerID ↔ m.acks.lookup (peerID, a.Topic) = some a.LastSeq := by
  simp only [ackList, List.mem_filterMap]
  constructor
  · rintro ⟨⟨⟨id, t⟩, v⟩, he, hf⟩
    dsimp only at hf
    split at hf
    · cases hf
      subst id
      exact AList.mem_lookup_iff.2 he
    · cases hf
  · exact fun h => ⟨⟨(peerID, a.Topic), a.LastSeq⟩, AList.mem_lookup_iff.1 h, by simp⟩

theorem send_of_open {s : Nat} (r : SendMessageResponse) (hs : s < m.streams.length)
    (ho : (m.streams.getD s default).closed = false) :
    m.send s r = .ok { m with streams := (m.streams.set s
      { (m.streams.getD s default) with sent := (m.streams.getD s default).sent ++ [r] }) } := by
  rw [List.getD_eq_getElem _ _ hs] at ho ⊢
  simp [send, List.getElem?_eq_getElem hs, ho]

theorem send_of_closed {s : Nat} (r : SendMessageResponse)
    (hc : (m.streams.getD s default).closed = true) : m.send s r = .error .internalSenderClosed := by
  unfold send
  split
  · rename_i sh hsh
    rw [List.getD_eq_getElem?_getD, hsh, Option.getD_some] at hc
    rw [if_pos hc]
  · rfl

theorem tickSends_with_streams {ss : List StreamHandle}
    (hc : ∀ s, (ss.getD s default).closed = (m.streams.getD s default).closed) :
    ({ m with streams := ss } : MessageServer).tickSends = m.tickSends :=
  funext fun x => congrArg (fun b => !(m.ackList (m.peerAt x.2).PeerID).isEmpty && !b) (hc _)

theorem tickDrops_with_streams {ss : List StreamHandle}
    (hc : ∀ s, (ss.getD s default).closed = (m.streams.getD s default).closed) :
    ({ m with streams := ss } : MessageServer).tickDrops = m.tickDrops :=
  funext fun x => congrArg (fun b => !(m.ackList (m.peerAt x.2).PeerID).isEmpty && b) (hc _)

theorem tickDrops_eq_false {x : (_ : NodeID) × Nat} (h : m.tickSends x = true) :
    m.tickDrops x = false := by
  unfold tickSends at h
  unfold tickDrops
  cases hc : (m.streams.getD (m.peerAt x.2).sender default).closed
  · exact Bool.and_false _
  · rw [hc] at h
    simp at h

/-- **One round of `tick`'s loop**, on a state that differs from `m` in its streams only: the
peer is sent all its acks when it has some and its stream is open, and is remembered for
deregistration when it has some and its stream is closed. -/
theorem tickPeer_with (ss : List StreamHandle) (acc : List Nat) (x : (_ : NodeID) × Nat)
    (hx : (m.peerAt x.2).sender < ss.length)
    (hc : ∀ s, (ss.getD s default).closed = (m.streams.getD s default).closed) :
    tickPeer ({ m with streams := ss }, acc) x =
      if m.tickSends x then
        ({ m with streams := (ss.set (m.peerAt x.2).sender { ss.getD (m.peerAt x.2).sender default with
            sent := (ss.getD (m.peerAt x.2).sender default).sent ++
              [{ Ack := m.ackList (m.peerAt x.2).PeerID, ExitReason := .ok }] }) }, acc)
      else ({ m with streams := ss }, acc ++ if m.tickDrops x then [x.2] else []) := by
  obtain ⟨id, p⟩ := x
  rw [← tickSends_with_streams m hc, ← tickDrops_with_streams m hc]
  simp only [tickPeer, tickSends, tickDrops, peerAt_with_streams, ackList_with_streams]
  by_cases ha : m.ackList (m.peerAt p).PeerID = []
  · simp [ha]
  · cases hcl : (ss.getD (m.peerAt p).sender default).closed
    · rw [send_of_open { m with streams := ss } _ hx hcl]
      simp [ha, hcl, -List.getD_eq_getElem?_getD]
    · rw [send_of_closed { m with streams := ss } _ hcl]
      simp [ha, hcl, -List.getD_eq_getElem?_getD]

/-- **The walk of `tick`**: from a state that differs from `m` in its streams only (with the
same closed flags), each stream is appended the responses of the entries it answers, in
registry order, and the peers of the entries it drops are collected. -/
theorem foldl_tickPeer_with (L : List ((_ : NodeID) × Nat))
    (hL : ∀ x ∈ L, (m.peerAt x.2).sender < m.streams.length) :
    ∀ (ss : List StreamHandle) (acc : List Nat), ss.length = m.streams.length →
      (∀ s, (ss.getD s default).closed = (m.streams.getD s default).closed) →
      ∃ ss', L.foldl tickPeer ({ m with streams := ss }, acc) =
          ({ m with streams := ss' }, acc ++ (L.filter m.tickDrops).map Sigma.snd) ∧
        ss'.length = ss.length ∧
        ∀ s, ss'.getD s default = { ss.getD s default with sent := ((ss.getD s default).sent ++
          (L.filter fun x => m.tickSends x && (m.peerAt x.2).sender == s).map
            fun x => { Ack := m.ackList (m.peerAt x.2).PeerID, ExitReason := .ok }) } := by
  induction L with
  | nil => exact fun ss acc _ _ => ⟨ss, by simp, rfl, fun s => by simp⟩
  | cons x L ih =>
    intro ss acc hl hc
    have hx := hL x (List.mem_cons_self _ _)
    have ih := ih fun y hy => hL y (List.mem_cons_of_mem _ hy)
    rw [List.foldl_cons, tickPeer_with m ss acc x (hl ▸ hx) hc]
    cases hs : m.tickSends x
    · obtain ⟨ss', h, hl', hg⟩ := ih ss _ hl hc
      refine ⟨ss', ?_, hl', fun s => ?_⟩
      · rw [if_neg (by simp), h]
        cases hd : m.tickDrops x <;> simp [List.filter_cons, hd]
      · rw [hg s]
        simp [List.filter_cons, hs]
    · have hd := m.tickDrops_eq_false hs
      set s₀ := (m.peerAt x.2).sender
      obtain ⟨ss', h, hl', hg⟩ := ih (ss.set s₀ { ss.getD s₀ default with
          sent := (ss.getD s₀ default).sent ++
            [{ Ack := m.ackList (m.peerAt x.2).PeerID, ExitReason := .ok }] }) acc
        (by rw [List.length_set, hl]) fun s => by
          rw [getD_set]
          split_ifs with h
          · rw [← h.1]; exact hc s₀
          · exact hc s
      refine ⟨ss', by rw [if_pos rfl, h]; simp [List.filter_cons, hd], by rw [hl', List.length_set],
        fun s => ?_⟩
      rw [hg s, getD_set]
      by_cases e : s₀ = s
      · subst e
        simp [List.filter_cons, hs, hl ▸ hx]
      · simp [List.filter_cons, hs, e]

/-- `deregisterPeer` without an error, over a list of peers: their IDs are erased from the
registry, one after the other. -/
theorem foldlM_deregisterPeer (D : List Nat) : ∀ m₁ : MessageServer,
    D.foldlM (fun m p => m.deregisterPeer p none) m₁ =
      .ok { m₁ with peers := D.foldl (fun ps p => ps.erase (m₁.peerAt p).PeerID) m₁.peers } := by
  induction D with
  | nil => exact fun _ => rfl
  | cons p D ih => exact fun m₁ => ih { m₁ with peers := m₁.peers.erase (m₁.peerAt p).PeerID }

/-- **`tick`, computed**: one update of the streams, each appended the responses of the
registry entries it answers, and of the registry, without the peers of the entries it drops. -/
theorem tick_eq (hL : ∀ x ∈ m.peers.entries, (m.peerAt x.2).sender < m.streams.length) :
    ∃ ss, m.tick = .ok { m with
        streams := ss
        peers := ((m.peers.entries.filter m.tickDrops).map Sigma.snd).foldl
          (fun ps p => ps.erase (m.peerAt p).PeerID) m.peers } ∧
      ss.length = m.streams.length ∧
      ∀ s, ss.getD s default = { m.streams.getD s default with
        sent := ((m.streams.getD s default).sent ++
          (m.peers.entries.filter fun x => m.tickSends x && (m.peerAt x.2).sender == s).map
            fun x => { Ack := m.ackList (m.peerAt x.2).PeerID, ExitReason := .ok }) } := by
  obtain ⟨ss, h, hl, hg⟩ := m.foldl_tickPeer_with _ hL m.streams [] rfl fun _ => rfl
  refine ⟨ss, ?_, hl, hg⟩
  unfold tick
  rw [h, List.nil_append]
  exact foldlM_deregisterPeer _ _

theorem lookup_foldl_erase (f : Nat → NodeID) (D : List Nat) :
    ∀ (ps : Map NodeID Nat) (S : NodeID),
      (D.foldl (fun ps p => ps.erase (f p)) ps).lookup S = if S ∈ D.map f then none else ps.lookup S := by
  induction D with
  | nil => simp
  | cons p D ih =>
    intro ps S
    rw [List.foldl_cons, ih]
    by_cases h : S = f p
    · subst h
      simp [AList.lookup_erase]
    · simp [h, AList.lookup_erase_ne h]

variable {m : MessageServer}

theorem PeersValid.entry (hv : m.PeersValid) {x : (_ : NodeID) × Nat} (hx : x ∈ m.peers.entries) :
    x.2 < m.peerObjs.length ∧ (m.peerAt x.2).PeerID = x.1 :=
  have h := hv x.1 x.2 (AList.mem_lookup_iff.2 hx)
  ⟨h.1, h.2.1⟩

/-- **Distinct registered peers have distinct streams**: a stream carries the ID of its
sender, and the registry has one entry per ID. -/
theorem registered_senders_inj (hv : m.PeersValid) (hp : m.PeerStreams)
    {x y : (_ : NodeID) × Nat} (hx : x ∈ m.peers.entries) (hy : y ∈ m.peers.entries)
    (h : (m.peerAt x.2).sender = (m.peerAt y.2).sender) : x = y := by
  obtain ⟨hxl, hxi⟩ := hv.entry hx
  obtain ⟨hyl, hyi⟩ := hv.entry hy
  have hid : x.1 = y.1 := by rw [← hxi, ← hyi, ← (hp _ hxl).2, ← (hp _ hyl).2, h]
  exact m.peers.nodupKeys.eq_of_fst_eq hx hy hid

/-- The entries a tick answers on the stream of a registered peer: that peer's, when it
answers it. -/
theorem filter_tickSends_sender (hv : m.PeersValid) (hp : m.PeerStreams) {S : NodeID} {p : Nat}
    (hS : m.peers.lookup S = some p) :
    m.peers.entries.filter (fun x => m.tickSends x && (m.peerAt x.2).sender == (m.peerAt p).sender) =
      if m.tickSends ⟨S, p⟩ then [⟨S, p⟩] else [] := by
  have hm : (⟨S, p⟩ : (_ : NodeID) × Nat) ∈ m.peers.entries := AList.mem_lookup_iff.1 hS
  rw [List.filter_congr (q := fun x => decide (x = ⟨S, p⟩) && m.tickSends ⟨S, p⟩) fun x hx => by
    by_cases e : x = ⟨S, p⟩
    · subst e; simp [Bool.and_comm]
    · have hne : (m.peerAt x.2).sender ≠ (m.peerAt p).sender :=
        fun h' => e (registered_senders_inj hv hp hx hm h')
      simp [e, hne]]
  cases m.tickSends ⟨S, p⟩
  · simp
  · simp only [Bool.and_true]
    rw [List.filter_eq, List.count_eq_one_of_mem m.peers.nodupKeys.nodup hm, List.replicate_one]
    rfl

section Registered

variable (hv : m.PeersValid) {S : NodeID} {p : Nat} (hS : m.peers.lookup S = some p)
include hv hS

theorem tickSends_iff : m.tickSends ⟨S, p⟩ = true ↔
    m.ackList S ≠ [] ∧ (m.streams.getD (m.peerAt p).sender default).closed = false := by
  simp [tickSends, (hv _ _ hS).2.1]

theorem tickDrops_iff : m.tickDrops ⟨S, p⟩ = true ↔
    m.ackList S ≠ [] ∧ (m.streams.getD (m.peerAt p).sender default).closed = true := by
  simp [tickDrops, (hv _ _ hS).2.1]

/-- The IDs `tick` erases from the registry are those of the entries it drops. -/
theorem mem_dropped_iff :
    S ∈ ((m.peers.entries.filter m.tickDrops).map Sigma.snd).map (fun p => (m.peerAt p).PeerID) ↔
      m.tickDrops ⟨S, p⟩ = true := by
  simp only [List.mem_map, List.mem_filter]
  constructor
  · rintro ⟨_, ⟨x, ⟨hx, hd⟩, rfl⟩, hid⟩
    rw [(hv.entry hx).2] at hid
    subst hid
    rwa [Option.some_inj.1 (hS.symm.trans (AList.mem_lookup_iff.2 hx))]
  · exact fun hd => ⟨p, ⟨⟨S, p⟩, ⟨AList.mem_lookup_iff.1 hS, hd⟩, rfl⟩, (hv _ _ hS).2.1⟩

end Registered

end MessageServer

open MessageServer

variable {m m' : MessageServer}

/-- The contract of one tick from `m` to `m'`. -/
structure TickSpec (m m' : MessageServer) : Prop where
  /-- the acks of a peer are the entries of the ack table for its ID -/
  acks : ∀ S t v, (⟨t, v⟩ : Ack) ∈ m.ackList S ↔ m.acks.lookup (S, t) = some v
  /-- a registered peer with acks and an open stream is sent all of them, once -/
  answered : ∀ S p, m.peers.lookup S = some p →
    m'.streams.getD (m.peerAt p).sender default = { m.streams.getD (m.peerAt p).sender default with
      sent := (m.streams.getD (m.peerAt p).sender default).sent ++
        if m.ackList S ≠ [] ∧ (m.streams.getD (m.peerAt p).sender default).closed = false then
          [{ Ack := m.ackList S, ExitReason := .ok }] else [] }
  /-- a registered peer with acks and a closed stream is deregistered -/
  dropped : ∀ S p, m.peers.lookup S = some p →
    m'.peers.lookup S =
      if m.ackList S ≠ [] ∧ (m.streams.getD (m.peerAt p).sender default).closed = true then none
      else some p
  unregistered : ∀ S, m.peers.lookup S = none → m'.peers.lookup S = none
  /-- a stream of no registered peer is sent nothing -/
  others : ∀ s, (∀ S p, m.peers.lookup S = some p → (m.peerAt p).sender ≠ s) →
    m'.streams.getD s default = m.streams.getD s default
  frame : ∃ ss ps, m' = { m with streams := ss, peers := ps } ∧ ss.length = m.streams.length

/-- **What a tick sends.** On every reachable state, a tick answers each registered peer that
has acks with one response holding all the acks of its ID, on its own stream when that stream
is open, and deregisters the peer when it is closed; it sends nothing to any other stream and
changes nothing but the streams and the registry. -/
theorem tick_sends_acks (hr : Reachable m) (hs : m.step .runTick = some m') : TickSpec m m' := by
  have hv := peersValid_of_reachable hr
  have hp := (ackSafe_of_reachable hr).peers
  obtain ⟨ss, ht, hl, hg⟩ := m.tick_eq fun x hx => (hp _ (hv.entry hx).1).1
  have hm' : m' = m.settle m.tick := by
    simpa [step, step_running hs] using hs.symm
  simp only [ht, settle] at hm'
  subst hm'
  refine ⟨fun S t v => m.mem_ackList, fun S p hS => ?_, fun S p hS => ?_, fun S hS => ?_,
    fun s hs => ?_, ⟨_, _, rfl, hl⟩⟩
  · dsimp only
    rw [hg, filter_tickSends_sender hv hp hS]
    by_cases h : m.ackList S ≠ [] ∧ (m.streams.getD (m.peerAt p).sender default).closed = false
    · rw [if_pos ((tickSends_iff hv hS).2 h), if_pos h]
      simp only [List.map_cons, List.map_nil, (hv _ _ hS).2.1]
    · rw [if_neg (mt (tickSends_iff hv hS).1 h), if_neg h]
      rfl
  · show AList.lookup S (List.foldl _ _ _) = _
    rw [lookup_foldl_erase, hS]
    exact if_congr ((mem_dropped_iff hv hS).trans (tickDrops_iff hv hS)) rfl rfl
  · show AList.lookup S (List.foldl _ _ _) = _
    rw [lookup_foldl_erase, hS, ite_self]
  · dsimp only
    rw [hg, List.filter_eq_nil_iff.2 fun x hx => by
      simp [hs x.1 x.2 (AList.mem_lookup_iff.2 hx)]]
    simp

theorem tick_sends_acks_after_delivery :
    let m := ((newMessageServer "s" ⟨4, 4⟩).exec [.addHandler "t" true, .runTask [],
      .sendMessage (some ⟨"a", "s", 1⟩), .runTask [], .recvPacket 0 [⟨"t", 1, 0⟩], .runTask [],
      .runHandle 0 true, .runHandle 0 true, .runHandle 0 true]).get (by decide)
    TickSpec m ((m.step .runTick).get (by decide)) :=
  tick_sends_acks (Reachable.exec_get _ _ _ _) (Option.some_get _).symm

end Tiflow.P2p
