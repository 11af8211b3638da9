import Mathlib.Data.List.Chain
import Mathlib.Data.List.GetD
import Tiflow.P2p.Frame

/-!
# Acks and the calls of `fn`

The handler that `AddHandler` registers reads the ack of `(senderID, topic)` (`acks.Get`),
checks the sequence of the event against it, calls `fn`, and writes the sequence back
(`acks.Set`). The check guards `fn` only while no other handle is between its own `Get` and
`Set` of the same ack. A handle deleted from the table but still draining its queue in
`GracefulUnregister`, next to the handle registered after it for the same topic, breaks that.

* `WrapperPhase.ackKey`, `Exclusive` — the ack a handle has read and not yet written back, and
  that no two handles hold the same one;
* `ReachableWithin P` — the states of the runs whose every state satisfies `P`;
* `AckInv` — the invariant of one ack: the sequences `fn` accepted for it are consecutive, and
  the ack is the last of them, or the one before while the handle that called `fn` has not yet
  written it back;
* `ackInv_of_reachableWithin` — so on the runs that keep `Exclusive`, `AckInv` holds of every
  ack in every state;
* `ack_decreases_with_two_handles` — without it, a run where a removed handler's handle and the
  one registered after it for the same topic interleave their `Get`, `fn` and `Set`, and the ack
  goes down;
* `onExit_removes_later_handler` — the `OnExit` of a removed handle deletes the handler registered
  after it for the same topic.
-/

namespace Tiflow.P2p

/-- The ack a handle has read with `acks.Get` and not yet written back with `acks.Set`. -/
def WrapperPhase.ackKey : WrapperPhase → Option (NodeID × Topic)
  | .idle => none
  | .decoded sm entry | .called sm entry => some (sm.SenderId, entry.Topic)

/-- The checks of the handler pass: `sequence` is above the ack `lastAck` it read, and follows
it unless nothing was acknowledged yet. -/
def Admits (lastAck sequence : Seq) : Prop :=
  lastAck < sequence ∧ (lastAck = initAck ∨ sequence = lastAck + 1)

namespace MessageServer

variable (m : MessageServer)

/-- The ack of `(senderID, topic)`. -/
def ackOf (k : NodeID × Topic) : Seq := m.ackGet k.1 k.2

/-- The sequences of the calls of `fn` for `k` that returned nil, in the order of the calls. -/
def deliveredOf (k : NodeID × Topic) : List Seq :=
  m.ghost.delivered.filterMap fun d => if (d.1, d.2.1) = k then some d.2.2 else none

/-- **No two handles are at once between `acks.Get` and `acks.Set` of one ack.** -/
def Exclusive : Prop :=
  ∀ i < m.pool.length, ∀ j < m.pool.length, (m.handleAt i).phase.ackKey.isSome →
    (m.handleAt i).phase.ackKey = (m.handleAt j).phase.ackKey → i = j

instance : DecidablePred Exclusive := fun m =>
  inferInstanceAs (Decidable (∀ i < m.pool.length, ∀ j < m.pool.length,
    (m.handleAt i).phase.ackKey.isSome → (m.handleAt i).phase.ackKey = (m.handleAt j).phase.ackKey →
      i = j))

/-- A finite run that stops at its first state outside `P`. -/
def execWithin (P : MessageServer → Prop) [DecidablePred P] (m : MessageServer) :
    List Label → Option MessageServer
  | [] => some m
  | l :: ls => (m.step l).bind fun m' => if P m' then m'.execWithin P ls else none

/-! ### The fields a step of a handle touches -/

variable {m} {m' : MessageServer}

theorem phase_setHandle {h : Nat} (hh : h < m.pool.length) (hd : EventHandle) (i : Nat) :
    ((m.setHandle h hd).handleAt i).phase = if i = h then hd.phase else (m.handleAt i).phase := by
  rw [handleAt_setHandle]
  by_cases hi : i = h
  · subst hi; simp [hh]
  · simp [Ne.symm hi, hi]

@[simp] theorem ackOf_setHandle (h : Nat) (hd : EventHandle) (k : NodeID × Topic) :
    (m.setHandle h hd).ackOf k = m.ackOf k := rfl

@[simp] theorem deliveredOf_setHandle (h : Nat) (hd : EventHandle) (k : NodeID × Topic) :
    (m.setHandle h hd).deliveredOf k = m.deliveredOf k := rfl

@[simp] theorem handleAt_logDelivered (s : NodeID) (t : Topic) (q : Seq) :
    (m.logDelivered s t q).handleAt = m.handleAt := rfl

@[simp] theorem ackOf_logDelivered (s : NodeID) (t : Topic) (q : Seq) :
    (m.logDelivered s t q).ackOf = m.ackOf := rfl

theorem deliveredOf_logDelivered (s : NodeID) (t : Topic) (q : Seq) (k : NodeID × Topic) :
    (m.logDelivered s t q).deliveredOf k = m.deliveredOf k ++ if (s, t) = k then [q] else [] := by
  simp only [deliveredOf, logDelivered, List.filterMap_append]
  split <;> simp [*]

@[simp] theorem handleAt_ackSet (s : NodeID) (t : Topic) (q : Seq) :
    (m.ackSet s t q).handleAt = m.handleAt := rfl

@[simp] theorem deliveredOf_ackSet (s : NodeID) (t : Topic) (q : Seq) :
    (m.ackSet s t q).deliveredOf = m.deliveredOf := rfl

theorem ackOf_ackSet (s : NodeID) (t : Topic) (q : Seq) (k : NodeID × Topic) :
    (m.ackSet s t q).ackOf k = if (s, t) = k then q else m.ackOf k := by
  split
  · subst k; simp [ackOf, ackGet, ackSet]
  · simp only [ackOf, ackGet, ackSet]
    rw [AList.lookup_insert_ne (Ne.symm ‹_›)]

theorem lt_of_ackKey {i : Nat} {k : NodeID × Topic} (h : (m.handleAt i).phase.ackKey = some k) :
    i < m.pool.length := by
  by_contra hi
  rw [handleAt, List.getD_eq_default _ _ (Nat.le_of_not_lt hi)] at h
  cases h

/-- Two handles holding the same ack are one. -/
theorem Exclusive.eq (hx : m.Exclusive) {i j : Nat} {k : NodeID × Topic}
    (hi : (m.handleAt i).phase.ackKey = some k) (hj : (m.handleAt j).phase.ackKey = some k) :
    i = j :=
  hx i (lt_of_ackKey hi) j (lt_of_ackKey hj) (by simp [hi]) (hi.trans hj.symm)

/-- **The four kinds of step of a handle**: one that holds no ack before or after (an event of
the local channel, a skipped duplicate, an exit); `acks.Get` and the checks, which pass, on an
event it had queued; the call of `fn`, which returns nil; `acks.Set`. Each replaces the handle
by one of its topic with fewer queued events. -/
theorem runHandle_cases {h : Nat} {ok : Bool} (hs : m.runHandle h ok = some m') :
    (h < m.pool.length ∧ ((m.handleAt h).unregistered = true → (m.handleAt h).phase ≠ .idle)) ∧
    ∃ hd : EventHandle,
      ((m' = m.setHandle h hd ∧ hd.phase = .idle ∧ ∀ sm e, (m.handleAt h).phase ≠ .called sm e) ∨
       (∃ sm e, m' = m.setHandle h hd ∧ (m.handleAt h).phase = .idle ∧
          PoolEvent.args sm e ∈ (m.handleAt h).queue ∧
          Admits (m.ackGet sm.SenderId e.Topic) e.Sequence ∧ hd.phase = .decoded sm e) ∨
       (∃ sm e, m' = (m.setHandle h hd).logDelivered sm.SenderId e.Topic e.Sequence ∧
          (m.handleAt h).phase = .decoded sm e ∧ hd.phase = .called sm e) ∨
       (∃ sm e, m' = (m.ackSet sm.SenderId e.Topic e.Sequence).setHandle h hd ∧
          (m.handleAt h).phase = .called sm e ∧ hd.phase = .idle)) ∧
      hd.topic = (m.handleAt h).topic ∧ hd.queue <:+ (m.handleAt h).queue ∧
      hd.unregistering = (m.handleAt h).unregistering ∧
      hd.unregistered = (m.handleAt h).unregistered := by
  simp only [runHandle] at hs
  split at hs
  · cases hs
  rename_i hg
  simp only [Bool.or_eq_true, Bool.and_eq_true, beq_iff_eq, decide_eq_true_eq, not_or,
    not_and] at hg
  refine ⟨⟨Nat.lt_of_not_le hg.1.1, hg.2⟩, ?_⟩
  have htail : ∀ ev rest, (m.handleAt h).queue = ev :: rest → rest <:+ (m.handleAt h).queue :=
    fun ev rest hq => hq ▸ List.suffix_cons ev rest
  split at hs
  · cases hs
  · rename_i rest hp hq
    cases hs
    cases ok
    · exact ⟨_, .inl ⟨rfl, rfl, by simp [hp]⟩, rfl, List.nil_suffix, rfl, rfl⟩
    · exact ⟨_, .inl ⟨rfl, hp, by simp [hp]⟩, rfl, htail _ _ hq, rfl, rfl⟩
  · rename_i sm e rest hp hq
    simp only [EventHandle.exit] at hs
    split at hs
    · cases hs; exact ⟨_, .inl ⟨rfl, hp, by simp [hp]⟩, rfl, htail _ _ hq, rfl, rfl⟩
    split at hs
    · cases hs; exact ⟨_, .inl ⟨rfl, rfl, by simp [hp]⟩, rfl, List.nil_suffix, rfl, rfl⟩
    split at hs
    · cases hs; exact ⟨_, .inl ⟨rfl, rfl, by simp [hp]⟩, rfl, List.nil_suffix, rfl, rfl⟩
    · cases hs
      exact ⟨_, .inr (.inl ⟨sm, e, rfl, hp, by rw [hq]; exact .head _,
        by unfold Admits Seq at *; omega, rfl⟩), rfl, htail _ _ hq, rfl, rfl⟩
  · rename_i sm e hp
    simp only [EventHandle.exit] at hs
    split at hs
    · cases hs; exact ⟨_, .inr (.inr (.inl ⟨sm, e, rfl, hp, rfl⟩)), rfl, List.suffix_refl _, rfl, rfl⟩
    · cases hs; exact ⟨_, .inl ⟨rfl, rfl, by simp [hp]⟩, rfl, List.nil_suffix, rfl, rfl⟩
  · rename_i sm e hp
    cases hs
    exact ⟨_, .inr (.inr (.inr ⟨sm, e, rfl, hp, rfl⟩)), rfl, List.suffix_refl _, rfl, rfl⟩

/-! ### What the other steps leave alone -/

/-- The acks, the calls of `fn` and the phase of every handle are as they were. -/
structure AckFrame (m m' : MessageServer) : Prop where
  acks : m'.acks = m.acks
  delivered : m'.ghost.delivered = m.ghost.delivered
  phase : ∀ i, (m'.handleAt i).phase = (m.handleAt i).phase

theorem AckFrame.of_loopFrame (hf : LoopFrame m m') : AckFrame m m' :=
  ⟨hf.acks, hf.delivered, fun i => (hf.pool i).2.1⟩

theorem AckFrame.of_callerFrame (hf : CallerFrame m m') : AckFrame m m' := by
  obtain ⟨⟨tq, pl, ss, rfl⟩, hp⟩ := hf
  exact ⟨rfl, rfl, hp⟩

theorem AckFrame.settle {r : Except Panic MessageServer} (hr : ∀ m₁, r = .ok m₁ → LoopFrame m m₁) :
    AckFrame m (m.settle r) := by
  cases r with
  | ok m₁ => exact .of_loopFrame (hr m₁ rfl)
  | error p => exact ⟨rfl, rfl, fun _ => rfl⟩

theorem AckFrame.trans {m₁ : MessageServer} (a : AckFrame m m₁) (b : AckFrame m₁ m') : AckFrame m m' :=
  ⟨b.acks.trans a.acks, b.delivered.trans a.delivered, fun i => (b.phase i).trans (a.phase i)⟩

/-- **A step other than one of a handle leaves the acks alone.** -/
theorem ackFrame_step {l : Label} (hl : ∀ h ok, l ≠ .runHandle h ok) (hs : m.step l = some m') :
    AckFrame m m' := by
  cases hloop : l.isLoop with
  | false => exact .of_callerFrame (step_caller hloop hl hs)
  | true =>
    rcases step_cases hs with ⟨hl', -⟩ | ⟨order, task, rest, -, -, rfl⟩ | rfl | rfl
    · rw [hloop] at hl'; cases hl'
    · refine AckFrame.trans ?_ (AckFrame.settle fun _ hr => loopFrame_runTask hr)
      exact ⟨rfl, rfl, fun _ => rfl⟩
    · exact AckFrame.settle fun _ ht => loopFrame_tick ht
    · exact ⟨rfl, rfl, fun _ => rfl⟩

/-! ### The invariant of an ack -/

/-- **The invariant of the ack `k`.** -/
structure AckInv (m : MessageServer) (k : NodeID × Topic) : Prop where
  /-- `fn` accepted consecutive sequences, all above `initAck` -/
  chain : (m.deliveredOf k).Chain' fun a b => b = a + 1
  above : ∀ s ∈ m.deliveredOf k, initAck < s
  /-- with no `acks.Set` due, the ack is the last sequence accepted -/
  acked : (∀ i sm e, (m.handleAt i).phase = .called sm e → (sm.SenderId, e.Topic) ≠ k) →
    m.ackOf k = (m.deliveredOf k).getLastD initAck
  /-- a handle about to call `fn` read that ack, and its checks passed -/
  decoded : ∀ i sm e, (m.handleAt i).phase = .decoded sm e → (sm.SenderId, e.Topic) = k →
    m.ackOf k = (m.deliveredOf k).getLastD initAck ∧ Admits (m.ackOf k) e.Sequence
  /-- a handle about to call `acks.Set` is the last that `fn` accepted -/
  called : ∀ i sm e, (m.handleAt i).phase = .called sm e → (sm.SenderId, e.Topic) = k →
    ∃ d, m.deliveredOf k = d ++ [e.Sequence] ∧ m.ackOf k = d.getLastD initAck ∧
      Admits (m.ackOf k) e.Sequence

/-- What a step keeps of the ack `k`: the invariant, an ack that does not decrease, and calls of
`fn` that are only appended to. -/
structure AckStep (m m' : MessageServer) (k : NodeID × Topic) : Prop where
  inv : m'.AckInv k
  mono : m.ackOf k ≤ m'.ackOf k
  grows : m.deliveredOf k <+: m'.deliveredOf k

theorem ackInv_init (serverID : NodeID) (config : MessageServerConfig) (k : NodeID × Topic) :
    (newMessageServer serverID config).AckInv k where
  chain := List.chain'_nil
  above := by simp [deliveredOf, newMessageServer]
  acked _ := rfl
  decoded _ _ _ h := by simp [newMessageServer, handleAt] at h
  called _ _ _ h := by simp [newMessageServer, handleAt] at h

theorem initAck_le_getLastD {d : List Seq} (h : ∀ s ∈ d, initAck < s) : initAck ≤ d.getLastD initAck := by
  cases d using List.reverseRecOn with
  | nil => exact le_rfl
  | append_singleton d s _ => simpa using (h s (by simp)).le

theorem AckInv.frame {k : NodeID × Topic} (hi : m.AckInv k) (hf : AckFrame m m') : AckStep m m' k := by
  have ha : m'.ackOf k = m.ackOf k := by simp only [ackOf, ackGet, hf.acks]
  have hd : m'.deliveredOf k = m.deliveredOf k := by simp only [deliveredOf, hf.delivered]
  refine ⟨⟨hd ▸ hi.chain, hd ▸ hi.above, fun hn => ?_, fun i sm e h hk => ?_, fun i sm e h hk => ?_⟩,
    ha.ge, hd ▸ List.prefix_rfl⟩
  · rw [ha, hd]; exact hi.acked fun i sm e h => hn i sm e (by rw [hf.phase]; exact h)
  · rw [ha, hd]; exact hi.decoded i sm e (by rw [← hf.phase]; exact h) hk
  · rw [ha, hd]; exact hi.called i sm e (by rw [← hf.phase]; exact h) hk

/-- A step of handle `h` that leaves the ack `k` and the calls of `fn` for it alone, where `h`
was not about to write `k` back before the step and holds no `k` after it. -/
theorem AckInv.away {k : NodeID × Topic} {h : Nat} (hi : m.AckInv k) (ha : m'.ackOf k = m.ackOf k)
    (hd : m'.deliveredOf k = m.deliveredOf k)
    (hph : ∀ i, i ≠ h → (m'.handleAt i).phase = (m.handleAt i).phase)
    (hold : ∀ sm e, (m.handleAt h).phase = .called sm e → (sm.SenderId, e.Topic) ≠ k)
    (hnew : (m'.handleAt h).phase.ackKey ≠ some k) : AckStep m m' k := by
  refine ⟨⟨hd ▸ hi.chain, hd ▸ hi.above, fun hn => ?_, fun i sm e hc hk => ?_,
    fun i sm e hc hk => ?_⟩, ha.ge, hd ▸ List.prefix_rfl⟩
  · rw [ha, hd]
    refine hi.acked fun i sm e hc => ?_
    by_cases hi' : i = h
    · subst hi'; exact hold sm e hc
    · exact hn i sm e (by rw [hph i hi']; exact hc)
  all_goals
    have hi' : i ≠ h := by rintro rfl; exact hnew (by rw [hc, ← hk]; rfl)
    rw [hph i hi'] at hc
    rw [ha, hd]
  · exact hi.decoded i sm e hc hk
  · exact hi.called i sm e hc hk

/-- A step of a handle that holds no ack before or after it. -/
theorem AckInv.quiet {k : NodeID × Topic} {h : Nat} {hd : EventHandle} (hi : m.AckInv k)
    (hh : h < m.pool.length) (hp : hd.phase = .idle) (hn : ∀ sm e, (m.handleAt h).phase ≠ .called sm e) :
    AckStep m (m.setHandle h hd) k :=
  hi.away rfl rfl (fun i hi' => by rw [phase_setHandle hh, if_neg hi'])
    (fun sm e hc => absurd hc (hn sm e)) (by simp [phase_setHandle hh, hp, WrapperPhase.ackKey])

/-- `acks.Get` with passing checks: the handle reads the last sequence `fn` accepted, since no
other handle holds the ack. -/
theorem AckInv.get {k : NodeID × Topic} {h : Nat} {sm : StreamMeta} {e : MessageEntry}
    {hd : EventHandle} (hi : m.AckInv k) (hh : h < m.pool.length) (hx' : (m.setHandle h hd).Exclusive)
    (hidle : (m.handleAt h).phase = .idle) (ha : Admits (m.ackGet sm.SenderId e.Topic) e.Sequence)
    (hp : hd.phase = .decoded sm e) : AckStep m (m.setHandle h hd) k := by
  have hph := phase_setHandle hh hd
  have hacked : (sm.SenderId, e.Topic) = k → m.ackOf k = (m.deliveredOf k).getLastD initAck :=
    fun hk => hi.acked fun j sm' e' hc hk' => by
      have hj : j ≠ h := by rintro rfl; rw [hidle] at hc; cases hc
      have := hx'.eq (i := j) (j := h) (k := k) (by rw [hph, if_neg hj, hc, ← hk']; rfl)
        (by rw [hph, if_pos rfl, hp, ← hk]; rfl)
      exact hj this
  refine ⟨⟨hi.chain, hi.above, fun hn => hi.acked fun i sm' e' hc => ?_, fun i sm' e' hc hk => ?_,
    fun i sm' e' hc hk => ?_⟩, le_rfl, List.prefix_rfl⟩
  · have hi' : i ≠ h := by rintro rfl; rw [hidle] at hc; cases hc
    exact hn i sm' e' (by rw [hph, if_neg hi']; exact hc)
  · rw [hph] at hc
    split at hc
    · rw [hp] at hc; cases hc
      refine ⟨hacked hk, ?_⟩
      rw [← hk]; exact ha
    · exact hi.decoded i sm' e' hc hk
  · rw [hph] at hc
    split at hc
    · rw [hp] at hc; cases hc
    · exact hi.called i sm' e' hc hk

/-- The call of `fn`: the handle's sequence is appended to those `fn` accepted, and follows the
last of them. -/
theorem AckInv.call {k : NodeID × Topic} {h : Nat} {sm : StreamMeta} {e : MessageEntry}
    {hd : EventHandle} (hi : m.AckInv k) (hh : h < m.pool.length) (hx : m.Exclusive)
    (hdec : (m.handleAt h).phase = .decoded sm e) (hp : hd.phase = .called sm e) :
    AckStep m ((m.setHandle h hd).logDelivered sm.SenderId e.Topic e.Sequence) k := by
  have hph := phase_setHandle hh hd
  have hother : ∀ i, i ≠ h → (m.handleAt i).phase.ackKey ≠ some (sm.SenderId, e.Topic) :=
    fun i hi' hk => hi' (hx.eq hk (by rw [hdec]; rfl))
  rcases eq_or_ne (sm.SenderId, e.Topic) k with rfl | hk
  · obtain ⟨hlast, hadm⟩ := hi.decoded h sm e hdec rfl
    have hd : ((m.setHandle h hd).logDelivered sm.SenderId e.Topic e.Sequence).deliveredOf
        (sm.SenderId, e.Topic) = m.deliveredOf (sm.SenderId, e.Topic) ++ [e.Sequence] := by
      simp [deliveredOf_logDelivered]
    have hle := initAck_le_getLastD hi.above
    refine ⟨⟨?_, ?_, fun hn => absurd rfl (hn h sm e (by simp [hph, hp])), fun i sm' e' hc hk => ?_,
      fun i sm' e' hc hk => ?_⟩, le_rfl, ?_⟩
    · rw [hd, List.chain'_append]
      refine ⟨hi.chain, List.chain'_singleton _, fun x hx y hy => ?_⟩
      rw [Option.mem_def] at hx
      simp only [List.head?_cons, Option.mem_def, Option.some.injEq] at hy
      have hxd := hi.above x (List.mem_of_getLast?_eq_some hx)
      rw [hlast, List.getLastD_eq_getLast?, hx, Option.getD_some] at hadm
      have := hadm.2
      unfold Seq at *; omega
    · rw [hd]; intro s hs
      rcases List.mem_append.1 hs with hs | hs
      · exact hi.above s hs
      · rw [List.mem_singleton] at hs; subst hs
        have := hadm.1; rw [hlast] at this; unfold Seq at *; omega
    · simp only [handleAt_logDelivered, hph] at hc
      split at hc
      · rw [hp] at hc; cases hc
      · exact absurd (by rw [hc, ← hk]; rfl) (hother i ‹_›)
    · simp only [handleAt_logDelivered, hph] at hc
      split at hc
      · subst i; rw [hp] at hc; cases hc
        exact ⟨_, hd, hlast, hadm⟩
      · exact absurd (by rw [hc, ← hk]; rfl) (hother i ‹_›)
    · rw [hd]; exact List.prefix_append _ _
  · exact hi.away (h := h) (by simp) (by simp [deliveredOf_logDelivered, hk]) (fun i hi' => by simp [hph, hi'])
      (fun _ _ hc => by rw [hdec] at hc; cases hc) (by simp [hph, hp, WrapperPhase.ackKey, hk])

/-- `acks.Set`: the ack becomes the sequence `fn` last accepted, above the one it replaces. -/
theorem AckInv.set {k : NodeID × Topic} {h : Nat} {sm : StreamMeta} {e : MessageEntry}
    {hd : EventHandle} (hi : m.AckInv k) (hh : h < m.pool.length) (hx : m.Exclusive)
    (hcal : (m.handleAt h).phase = .called sm e) (hp : hd.phase = .idle) :
    AckStep m ((m.ackSet sm.SenderId e.Topic e.Sequence).setHandle h hd) k := by
  have hph : ∀ i, (((m.ackSet sm.SenderId e.Topic e.Sequence).setHandle h hd).handleAt i).phase =
      if i = h then hd.phase else (m.handleAt i).phase := phase_setHandle (m := m.ackSet _ _ _) hh hd
  have hother : ∀ i, i ≠ h → (m.handleAt i).phase.ackKey ≠ some (sm.SenderId, e.Topic) :=
    fun i hi' hk => hi' (hx.eq hk (by rw [hcal]; rfl))
  rcases eq_or_ne (sm.SenderId, e.Topic) k with rfl | hk
  · obtain ⟨d, hdl, -, hadm⟩ := hi.called h sm e hcal rfl
    have ha : ((m.ackSet sm.SenderId e.Topic e.Sequence).setHandle h hd).ackOf (sm.SenderId, e.Topic) =
        e.Sequence := by simp [ackOf_ackSet]
    refine ⟨⟨hi.chain, hi.above, fun _ => ?_, fun i sm' e' hc hk => ?_, fun i sm' e' hc hk => ?_⟩,
      by rw [ha]; exact hadm.1.le, List.prefix_rfl⟩
    · rw [ha]; show e.Sequence = (m.deliveredOf _).getLastD initAck
      rw [hdl]; simp
    all_goals
      rw [hph] at hc
      split at hc
      · rw [hp] at hc; cases hc
      · exact absurd (by rw [hc, ← hk]; rfl) (hother _ ‹_›)
  · exact hi.away (h := h) (by simp [ackOf_ackSet, hk]) rfl (fun i hi' => by rw [hph, if_neg hi'])
      (fun _ _ hc => by rw [hcal] at hc; cases hc; exact hk) (by simp [hph, hp, WrapperPhase.ackKey])

/-- **One step keeps the invariant of every ack**, when no two handles hold an ack at once
before or after it. -/
theorem AckInv.step {l : Label} {k : NodeID × Topic} (hi : ∀ k, m.AckInv k) (hx : m.Exclusive)
    (hx' : m'.Exclusive) (hs : m.step l = some m') : AckStep m m' k := by
  by_cases hl : ∃ h ok, l = .runHandle h ok
  · obtain ⟨h, ok, rfl⟩ := hl
    obtain ⟨⟨hh, -⟩, hd, ⟨rfl, hp, hn⟩ | ⟨sm, e, rfl, hidle, -, ha, hp⟩ | ⟨sm, e, rfl, hdec, hp⟩ |
      ⟨sm, e, rfl, hcal, hp⟩, -, -⟩ := runHandle_cases (step_runHandle hs)
    · exact (hi k).quiet hh hp hn
    · exact (hi k).get hh hx' hidle ha hp
    · exact (hi k).call hh hx hdec hp
    · exact (hi k).set hh hx hcal hp
  · push_neg at hl
    exact (hi k).frame (ackFrame_step hl hs)

end MessageServer

open MessageServer

/-- The states of the runs from `newMessageServer` whose every state satisfies `P`. -/
inductive ReachableWithin (P : MessageServer → Prop) : MessageServer → Prop
  | init (serverID : NodeID) (config : MessageServerConfig) :
      P (newMessageServer serverID config) → ReachableWithin P (newMessageServer serverID config)
  | step {m m' : MessageServer} (l : Label) :
      ReachableWithin P m → m.step l = some m' → P m' → ReachableWithin P m'

section Within

variable {P : MessageServer → Prop} {m m' : MessageServer}

theorem ReachableWithin.holds (h : ReachableWithin P m) : P m := by
  cases h <;> assumption

theorem ReachableWithin.execWithin [DecidablePred P] {ls : List Label} (h : ReachableWithin P m)
    (he : m.execWithin P ls = some m') : ReachableWithin P m' := by
  induction ls generalizing m with
  | nil => cases he; exact h
  | cons l ls ih =>
    simp only [MessageServer.execWithin, Option.bind_eq_some] at he
    obtain ⟨m₁, h₁, h₂⟩ := he
    split at h₂
    · exact ih (h.step l h₁ ‹_›) h₂
    · cases h₂

end Within

theorem ackInv_of_reachableWithin {m : MessageServer} (hr : ReachableWithin Exclusive m)
    (k : NodeID × Topic) : m.AckInv k := by
  induction hr generalizing k with
  | init s c _ => exact ackInv_init s c k
  | step l hr hs hx' ih => exact (AckInv.step ih hr.holds hx' hs).inv

/-- A topic's handler is removed while its handle holds sequence 1 of `a`, and a new handler for
the topic receives sequence 2. Both handles read the initial ack, the new one calls `fn` and
writes 2, then the old one calls `fn` and writes 1. -/
theorem ack_decreases_with_two_handles :
    ∃ m, Reachable m ∧ ∃ m', m.step (.runHandle 0 true) = some m' ∧
      m'.ackOf ("a", "t") < m.ackOf ("a", "t") ∧ m'.deliveredOf ("a", "t") = [2, 1] :=
  ⟨_, Reachable.exec_get "s" ⟨4, 4⟩ [.addHandler "t" true, .runTask [],
    .sendMessage (some ⟨"a", "s", 1⟩), .runTask [], .recvPacket 0 [⟨"t", 1, 0⟩], .runTask [],
    .removeHandler "t" true, .runTask [], .addHandler "t" true, .runTask [],
    .recvPacket 0 [⟨"t", 2, 0⟩], .runTask [], .runHandle 0 true, .runHandle 1 true,
    .runHandle 1 true, .runHandle 1 true, .runHandle 0 true] (by decide),
    _, (Option.some_get (by decide)).symm, by decide, by decide⟩

/-- A topic's handler is removed while its handle still holds a local message, and a new handler
is registered for the topic. The old handle's handler then fails on the message, its `OnExit`
schedules the deregistration of the topic, and `run` deletes the new handler from the table. -/
theorem onExit_removes_later_handler :
    ∃ m, Reachable m ∧ m.handlers.lookup "t" = some 1 ∧ (m.handleAt 0).topic = "t" ∧
      (m.handleAt 0).unregistering = true ∧
      ∃ m', m.exec [.runHandle 0 false, .onExit 0 true, .runTask []] = some m' ∧
        m'.handlers.lookup "t" = none ∧ (m'.handleAt 1).cancelled = false :=
  ⟨_, Reachable.exec_get "s" ⟨4, 4⟩ [.addHandler "t" true, .runTask [], .localBatch [⟨"t", "v", 0⟩],
    .runTask [], .removeHandler "t" true, .runTask [], .addHandler "t" true, .runTask []] (by decide),
    by decide, by decide, by decide, _, (Option.some_get (by decide)).symm, by decide, by decide⟩

end Tiflow.P2p
