import Tiflow.P2p.PeerRegistry

/-!
# The pending buffers

`handleMessage` and `handleRawMessage` buffer the entries of a topic with no handler under their
key `(topic, senderID)`, and `registerHandler` drains the buffers of its topic into the new
handler. This module follows every entry the task loop dequeues:

* `dispatchedOf`, `handedOf`, `droppedOf`, `pendingTags` — the entries of one key, as the ghost
  history records them: dequeued, handed to `AddEvent`, dropped, still buffered;
* `Accounted` — the entries handed and buffered under a key come in the order they were
  dequeued, and every dequeued entry was handed, is buffered or was dropped;
* `Fate.Dropped`, `DropsCaused` — why an entry was dropped, as the state showed it when the task
  loop dropped it: no valid peer with the stream's epoch, or a buffer over the bound;
* `PendingInv` — the invariant of the buffers, with `Accounted`, the causes of the drops, the
  bound on their length, and no buffer for a topic with a handler; `pendingInv_of_reachable`
  proves it of every reachable state, from one lemma per operation and one for the drain of
  `registerHandler`;
* `pending_handed_in_dispatch_order` — every entry is handed in order, still buffered, or dropped
  for one of these causes.
-/

namespace Tiflow.P2p

/-- The pending-buffer key of an entry. -/
def PendingMessageEntry.key (serverID : NodeID) : PendingMessageEntry → TopicSenderPair
  | .remote sm e => ⟨e.Topic, sm.SenderId⟩
  | .raw e => ⟨e.topic, serverID⟩

/-- Whether a fate is a call of `AddEvent`. -/
def Fate.isHanded : Fate → Bool
  | .handed _ => true
  | _ => false

/-- **Why an entry was dropped**, as the state showed it then: the registry held no peer for its
sender, or one with another epoch than the stream's, or one no longer valid; or the entry was
dropped with its buffer, which held at least `bound` entries; or, arriving, it found its remote
buffer holding more than `bound`. -/
def Fate.Dropped (bound : Int) : Fate → Prop
  | .handed _ => False
  | .noPeer epoch peer => ∀ p ∈ peer, p.Epoch ≠ epoch ∨ p.valid = false
  | .overflow length => bound ≤ length
  | .congestedTrigger length => bound < length

/-- Every drop the fates record has its cause. -/
def DropsCaused (bound : Int) (fates : List (Nat × TopicSenderPair × Fate)) : Prop :=
  ∀ x ∈ fates, x.2.2.isHanded = false → x.2.2.Dropped bound

theorem DropsCaused.append {b : Int} {fs new : List (Nat × TopicSenderPair × Fate)}
    (h : DropsCaused b fs) (hn : DropsCaused b new) : DropsCaused b (fs ++ new) := fun x hx =>
  (List.mem_append.1 hx).elim (h x) (hn x)

theorem dropsCaused_singleton {b : Int} {t : Nat} {k : TopicSenderPair} {f : Fate}
    (hf : f.isHanded = false → f.Dropped b) : DropsCaused b [(t, k, f)] := fun x hx => by
  rw [List.mem_singleton.1 hx]; exact hf

theorem dropsCaused_handed {b : Int} {t : Nat} {k : TopicSenderPair} {h : Nat} :
    DropsCaused b [(t, k, .handed h)] :=
  dropsCaused_singleton fun hf => nomatch hf

/-- The fate of an entry dropped because the peer the registry held for its sender, if any, is
not a valid peer with the stream's epoch. -/
theorem dropsCaused_noPeer {b : Int} {t : Nat} {k : TopicSenderPair} {epoch : Int} {o : Option Nat}
    {peerAt : Nat → CdcPeer} (hp : ∀ p, o = some p → (peerAt p).Epoch ≠ epoch ∨ (peerAt p).valid = false) :
    DropsCaused b [(t, k, .noPeer epoch (o.map peerAt))] :=
  dropsCaused_singleton fun _ q hq => by obtain ⟨p, hl, rfl⟩ := Option.mem_map.1 hq; exact hp p hl

/-- The fates of the entries of a buffer dropped at `length` entries. -/
theorem dropsCaused_overflow {b : Int} {k : TopicSenderPair} {n : Nat} (hn : b ≤ n)
    (es : List PendingMessageEntry) :
    DropsCaused b (es.map fun e => (e.tag, k, Fate.overflow n)) := fun x hx _ => by
  obtain ⟨e, -, rfl⟩ := List.mem_map.1 hx; exact hn

namespace MessageServer

variable (m : MessageServer)

/-! ### The entries of one key -/

/-- The tags the task loop dequeued under key `k`, in the order it dequeued them. -/
def dispatchedOf (k : TopicSenderPair) : List Nat :=
  (m.ghost.dispatched.filter fun d => d.2 == k).map Prod.fst

/-- The tags handed to `AddEvent` under key `k`, in order. -/
def handedOf (k : TopicSenderPair) : List Nat :=
  (m.ghost.fates.filter fun f => f.2.1 == k && f.2.2.isHanded).map Prod.fst

/-- The tags dropped under key `k`. -/
def droppedOf (k : TopicSenderPair) : List Nat :=
  (m.ghost.fates.filter fun f => f.2.1 == k && !f.2.2.isHanded).map Prod.fst


/-- Every entry dispatched under a key is handed, counted in `pend`, or dropped, and the entries
handed followed by those of `pend` come in the order of dispatch. -/
def Accounted (pend : TopicSenderPair → List Nat) : Prop :=
  ∀ k, (m.handedOf k ++ pend k).Sublist (m.dispatchedOf k) ∧
    ∀ t ∈ m.dispatchedOf k, t ∈ m.handedOf k ∨ t ∈ pend k ∨ t ∈ m.droppedOf k

/-- The tags buffered under key `k`, in order. -/
def pendingTags (pm : Map TopicSenderPair (List PendingMessageEntry)) (k : TopicSenderPair) : List Nat :=
  ((pm.lookup k).getD []).map PendingMessageEntry.tag

/-- What the invariant of the buffers reads of a state, besides the fates of entries. -/
def bufferView : Map TopicSenderPair (List PendingMessageEntry) × Map Topic Nat ×
    MessageServerConfig × NodeID × List (Nat × TopicSenderPair) × Nat :=
  (m.pendingMessages, m.handlers, m.config, m.serverID, m.ghost.dispatched, m.ghost.nextTag)

variable {m} {m' : MessageServer} {k k' : TopicSenderPair} {t : Nat} {f : Fate}

theorem handedOf_logFate :
    (m.logFate t k' f).handedOf k = m.handedOf k ++ if k' = k ∧ f.isHanded then [t] else [] := by
  by_cases h : k' = k ∧ f.isHanded <;> simp_all [handedOf, logFate]

theorem droppedOf_logFate :
    (m.logFate t k' f).droppedOf k = m.droppedOf k ++ if k' = k ∧ f.isHanded = false then [t] else [] := by
  by_cases h : k' = k ∧ f.isHanded = false <;> simp_all [droppedOf, logFate]

/-- A dropped entry has a fate that gives the cause of its drop. -/
theorem mem_droppedOf_cause {b : Int} (h : DropsCaused b m.ghost.fates)
    (ht : t ∈ m.droppedOf k) : ∃ f, (t, k, f) ∈ m.ghost.fates ∧ f.Dropped b := by
  obtain ⟨⟨t', k', f⟩, hm, rfl⟩ := List.mem_map.1 ht
  obtain ⟨hmem, hk⟩ := List.mem_filter.1 hm
  simp only [Bool.and_eq_true, beq_iff_eq, Bool.not_eq_true'] at hk
  obtain ⟨rfl, hf⟩ := hk
  exact ⟨f, hmem, h _ hmem hf⟩

theorem dispatchedOf_logDispatched :
    (m.logDispatched k').dispatchedOf k = m.dispatchedOf k ++ if k' = k then [m.ghost.nextTag] else [] := by
  by_cases h : k' = k <;> simp_all [dispatchedOf, logDispatched]

theorem pendingTags_insert (pm : Map TopicSenderPair (List PendingMessageEntry))
    (es : List PendingMessageEntry) :
    pendingTags (pm.insert k es) = Function.update (pendingTags pm) k (es.map PendingMessageEntry.tag) := by
  funext k''
  by_cases h : k'' = k
  · subst h; simp [pendingTags]
  · simp [pendingTags, Function.update_noteq h, AList.lookup_insert_ne h]

theorem pendingTags_erase (pm : Map TopicSenderPair (List PendingMessageEntry)) :
    pendingTags (pm.erase k) = Function.update (pendingTags pm) k [] := by
  funext k''
  by_cases h : k'' = k
  · subst h; simp [pendingTags]
  · simp [pendingTags, Function.update_noteq h, AList.lookup_erase_ne h]

/-! ### Accounting, one operation at a time -/

theorem Accounted.congr {p : TopicSenderPair → List Nat} (h : m.Accounted p)
    (hf : m'.ghost.fates = m.ghost.fates) (hd : m'.ghost.dispatched = m.ghost.dispatched) :
    m'.Accounted p := by
  unfold Accounted handedOf droppedOf dispatchedOf
  rw [hf, hd]; exact h

/-- Dispatching an entry under `k` counts it at the end of `k`'s buffer. -/
theorem Accounted.logDispatched {p : TopicSenderPair → List Nat} (h : m.Accounted p) :
    (m.logDispatched k').Accounted (Function.update p k' (p k' ++ [m.ghost.nextTag])) := by
  intro k
  have hh : (m.logDispatched k').handedOf k = m.handedOf k := rfl
  have hr : (m.logDispatched k').droppedOf k = m.droppedOf k := rfl
  rw [hh, hr, dispatchedOf_logDispatched]
  obtain ⟨hs, hc⟩ := h k
  by_cases hk : k' = k
  · subst hk
    simp only [Function.update_same, if_pos rfl, ← List.append_assoc]
    refine ⟨hs.append (List.Sublist.refl _), fun s hs' => ?_⟩
    rcases List.mem_append.1 hs' with hs' | hs'
    · rcases hc s hs' with h | h | h <;> simp [h]
    · simp_all
  · simp only [Function.update_noteq (Ne.symm hk), if_neg hk, List.append_nil]
    exact ⟨hs, hc⟩

/-- The fate of a counted entry: a handed entry must be the first counted one. -/
theorem Accounted.logFate {p : TopicSenderPair → List Nat} {x y : List Nat}
    (h : m.Accounted (Function.update p k' (x ++ t :: y))) (hf : f.isHanded → x = []) :
    (m.logFate t k' f).Accounted (Function.update p k' (x ++ y)) := by
  intro k
  rw [handedOf_logFate, droppedOf_logFate]
  have hd : (m.logFate t k' f).dispatchedOf k = m.dispatchedOf k := rfl
  rw [hd]
  obtain ⟨hs, hc⟩ := h k
  by_cases hk : k' = k
  · subst hk
    simp only [Function.update_same] at hs hc ⊢
    cases hfh : f.isHanded
    · rw [if_neg (by simp [hfh]), if_pos ⟨trivial, rfl⟩, List.append_nil]
      refine ⟨List.Sublist.trans ?_ hs, fun s hs' => ?_⟩
      · exact (List.Sublist.refl _).append ((List.Sublist.refl _).append (List.sublist_cons_self _ _))
      · rcases hc s hs' with h | h | h
        · exact .inl h
        · rcases List.mem_append.1 h with h | h
          · simp [h]
          · rcases List.mem_cons.1 h with rfl | h <;> simp [h]
        · simp [h]
    · obtain rfl := hf hfh
      rw [if_pos ⟨trivial, rfl⟩, if_neg (by simp [hfh]), List.append_nil]
      simp only [List.nil_append, List.append_assoc, List.singleton_append] at hs hc ⊢
      refine ⟨hs, fun s hs' => ?_⟩
      rcases hc s hs' with h | h | h
      · simp [h]
      · rcases List.mem_cons.1 h with rfl | h <;> simp [h]
      · simp [h]
  · simp only [Function.update_noteq (Ne.symm hk), hk, false_and, if_false, List.append_nil] at hs hc ⊢
    exact ⟨hs, hc⟩

/-- Dropping entries one after the other, the first counted ones. -/
theorem Accounted.logDrops {p : TopicSenderPair → List Nat} {r : List Nat} (hf : f.isHanded = false) :
    ∀ {es : List PendingMessageEntry} {m : MessageServer},
      m.Accounted (Function.update p k (es.map PendingMessageEntry.tag ++ r)) →
      (es.foldl (fun m e => m.logFate e.tag k f) m).Accounted (Function.update p k r)
  | [], _, h => h
  | e :: es, m, h => by
    rw [List.foldl_cons]
    exact Accounted.logDrops hf (m := m.logFate e.tag k f) (Accounted.logFate (x := []) h fun _ => rfl)

theorem Accounted.of_eq {p q : TopicSenderPair → List Nat} (h : m.Accounted p) (hpq : p = q) :
    m.Accounted q :=
  hpq ▸ h

/-- Dropping a buffer on overflow drops its entries, the first counted ones (`logOverflow`, as
`logOverflow_eq` writes it). -/
theorem Accounted.overflow {p : TopicSenderPair → List Nat} {r : List Nat}
    {es : List PendingMessageEntry} {n : Nat}
    (h : m.Accounted (Function.update p k (es.map PendingMessageEntry.tag ++ r))) :
    ({ m with ghost := { m.ghost with
      fates := m.ghost.fates ++ es.map fun e => (e.tag, k, Fate.overflow n) } } : MessageServer).Accounted
      (Function.update p k r) := by
  rw [← foldl_logFate]; exact h.logDrops (f := .overflow n) rfl

/-! ### The invariant of the buffers -/

section Maps

variable {K V : Type} [DecidableEq K] {s : Map K V} {a : K} {b : V} {P : K → V → Prop}

theorem forall_lookup_insert (h : ∀ k v, s.lookup k = some v → P k v) (hb : P a b) :
    ∀ k v, (s.insert a b).lookup k = some v → P k v := by
  intro k v hl
  rcases lookup_insert_eq_some.1 hl with ⟨rfl, rfl⟩ | ⟨-, hl⟩
  · exact hb
  · exact h k v hl

theorem forall_lookup_erase (h : ∀ k v, s.lookup k = some v → P k v) :
    ∀ k v, (s.erase a).lookup k = some v → P k v :=
  fun k v hl => h k v (lookup_erase_eq_some.1 hl).2

theorem forall_lookup_erase_insert (h : ∀ k v, s.lookup k = some v → P k v) :
    ∀ k v, ((s.insert a b).erase a).lookup k = some v → P k v := by
  intro k v hl
  obtain ⟨hne, hl⟩ := lookup_erase_eq_some.1 hl
  exact h k v ((lookup_insert_eq_some.1 hl).resolve_left fun h' => hne h'.1).2

theorem mem_lookup_getD {W : Type} {s : Map K (List W)} {x : W} (hx : x ∈ (s.lookup a).getD []) :
    ∃ l, s.lookup a = some l ∧ x ∈ l := by
  cases hl : s.lookup a with
  | none => simp [hl] at hx
  | some l => exact ⟨l, rfl, by simpa [hl] using hx⟩

end Maps

/-- **The invariant of the pending buffers.** `drain k` holds of the keys that a running drain
of `registerHandler` has yet to visit. -/
structure PendingInv (m : MessageServer) (drain : TopicSenderPair → Prop) : Prop where
  /-- a buffer holds at most `MaxPendingMessageCountPerTopic + 1` entries -/
  bounded : ∀ k es, m.pendingMessages.lookup k = some es →
    (es.length : Int) ≤ max 0 (m.config.MaxPendingMessageCountPerTopic + 1)
  /-- a buffer holds entries of its key -/
  keyed : ∀ k es, m.pendingMessages.lookup k = some es → ∀ e ∈ es, e.key m.serverID = k
  /-- no buffer for a topic with a handler, but those a drain has still to visit -/
  clear : ∀ k, k ∈ m.pendingMessages → k.Topic ∉ m.handlers ∨ drain k
  accounted : m.Accounted (pendingTags m.pendingMessages)
  /-- the task loop tags the entries it dequeues `0, 1, 2, …` -/
  fresh : m.ghost.dispatched.map Prod.fst = List.range m.ghost.nextTag
  dropped : DropsCaused m.config.MaxPendingMessageCountPerTopic m.ghost.fates

theorem PendingInv.weaken {d d' : TopicSenderPair → Prop} (h : PendingInv m d)
    (hd : ∀ k, d k → d' k) : PendingInv m d' :=
  ⟨h.bounded, h.keyed, fun k hk => (h.clear k hk).imp_right (hd k), h.accounted, h.fresh, h.dropped⟩

theorem fresh_logDispatched (h : m.ghost.dispatched.map Prod.fst = List.range m.ghost.nextTag) :
    (m.logDispatched k).ghost.dispatched.map Prod.fst = List.range (m.logDispatched k).ghost.nextTag := by
  simp [logDispatched, List.range_succ, h]

theorem deregisterPeer_buffers {p : Nat} {err : Option PeerError} (hd : m.deregisterPeer p err = .ok m') :
    m'.bufferView = m.bufferView ∧ m'.ghost.fates = m.ghost.fates := by
  rcases deregisterPeer_ok hd with ⟨-, rfl⟩ | ⟨-, e, ss, -, rfl⟩ <;> exact ⟨rfl, rfl⟩

/-- A state that agrees with `m` on what the invariant reads, with its own fates. -/
theorem PendingInv.of_view {d : TopicSenderPair → Prop} (h : PendingInv m d)
    (hv : m'.bufferView = m.bufferView) (ha : m'.Accounted (pendingTags m.pendingMessages))
    (hd : DropsCaused m.config.MaxPendingMessageCountPerTopic m'.ghost.fates) :
    PendingInv m' d := by
  simp only [bufferView, Prod.mk.injEq] at hv
  obtain ⟨h1, h2, h3, h4, h5, h6⟩ := hv
  refine ⟨?_, ?_, ?_, ?_, ?_, ?_⟩
  · rw [h1, h3]; exact h.bounded
  · rw [h1, h4]; exact h.keyed
  · rw [h1, h2]; exact h.clear
  · rw [h1]; exact ha
  · rw [h5, h6]; exact h.fresh
  · rw [h3]; exact hd

theorem PendingInv.congr {d : TopicSenderPair → Prop} (h : PendingInv m d)
    (hv : m'.bufferView = m.bufferView) (hf : m'.ghost.fates = m.ghost.fates) : PendingInv m' d :=
  h.of_view hv (h.accounted.congr hf (by simp only [bufferView, Prod.mk.injEq] at hv; exact hv.2.2.2.2.1))
    (hf ▸ h.dropped)

/-- A key whose topic has a handler buffers nothing, unless a drain has still to visit it. -/
theorem PendingInv.pendingTags_nil {d : TopicSenderPair → Prop} (h : PendingInv m d) (hd : ¬ d k)
    (hk : k.Topic ∈ m.handlers) : pendingTags m.pendingMessages k = [] := by
  by_cases hm : k ∈ m.pendingMessages
  · exact absurd hk ((h.clear k hm).resolve_right hd)
  · simp [pendingTags, AList.lookup_eq_none.2 hm]

/-- Buffering the entry just dequeued under its key, whose topic has no handler, within the
bound. -/
theorem PendingInv.buffer (h : PendingInv m fun _ => False) {x : PendingMessageEntry}
    (hx : x.key m.serverID = k) (ht : x.tag = m.ghost.nextTag) (hh : m.handlers.lookup k.Topic = none)
    (hb : (((m.pendingMessages.lookup k).getD [] ++ [x]).length : Int) ≤
      max 0 (m.config.MaxPendingMessageCountPerTopic + 1)) :
    PendingInv { m.logDispatched k with
      pendingMessages := m.pendingMessages.insert k ((m.pendingMessages.lookup k).getD [] ++ [x]) }
      fun _ => False := by
  refine ⟨forall_lookup_insert h.bounded hb, forall_lookup_insert h.keyed fun y hy => ?_,
    fun k' hk' => ?_, ?_, fresh_logDispatched h.fresh, h.dropped⟩
  · rcases List.mem_append.1 hy with hy | hy
    · obtain ⟨l, hl, hy⟩ := mem_lookup_getD hy
      exact h.keyed _ _ hl y hy
    · rw [List.mem_singleton.1 hy]; exact hx
  · rcases (AList.mem_insert _).1 hk' with rfl | hk'
    · exact .inl (AList.lookup_eq_none.1 hh)
    · exact h.clear k' hk'
  · have hacc : (m.logDispatched k).Accounted _ := h.accounted.logDispatched
    rw [pendingTags_insert]
    simpa [pendingTags, ht] using hacc

/-- Handing the entry just dequeued to the handler of its topic, which buffers nothing. -/
theorem PendingInv.handed (h : PendingInv m fun _ => False) {hdl : Nat}
    (hh : m.handlers.lookup k.Topic = some hdl) :
    PendingInv ((m.logDispatched k).logFate m.ghost.nextTag k (.handed hdl)) fun _ => False := by
  have hnil := h.pendingTags_nil (k := k) id (AList.lookup_isSome.1 (by simp [hh]))
  refine ⟨h.bounded, h.keyed, h.clear, ?_, fresh_logDispatched h.fresh,
    h.dropped.append dropsCaused_handed⟩
  refine (Accounted.logFate (p := pendingTags m.pendingMessages) (x := []) (y := [])
    (h.accounted.logDispatched.of_eq ?_) (fun _ => rfl)).of_eq ?_
  · rw [hnil]
  · simp [hnil, logFate, logDispatched]

/-- **Dispatching an entry of a stream** keeps the invariant. -/
theorem PendingInv.dispatch {sm : StreamMeta} {e : MessageEntry} (h : PendingInv m fun _ => False)
    (hm : (m.logDispatched ⟨e.Topic, sm.SenderId⟩).handleMessage sm { e with tag := m.ghost.nextTag } =
      .ok m') :
    PendingInv m' fun _ => False := by
  have hacc : (m.logDispatched ⟨e.Topic, sm.SenderId⟩).Accounted _ := h.accounted.logDispatched
  have hfr := fresh_logDispatched (k := ⟨e.Topic, sm.SenderId⟩) h.fresh
  rcases handleMessage_ok hm with ⟨rfl, hp⟩ | ⟨p, -, -, -, hcase⟩
  · -- no valid peer with the stream's epoch
    refine ⟨h.bounded, h.keyed, h.clear, ?_, hfr, h.dropped.append (dropsCaused_noPeer hp)⟩
    simpa using hacc.logFate (y := []) (f := .noPeer _ _) (by simp [Fate.isHanded])
  rcases hcase with ⟨hh, hc, rfl⟩ | ⟨-, hc, hd⟩ | ⟨hdl, hh, ha⟩
  · -- buffered
    refine h.buffer rfl rfl hh ?_
    dsimp only [logDispatched] at hc
    simp only [List.length_append, List.length_singleton]; push_cast; omega
  · -- overflow
    obtain ⟨hv, hf⟩ := deregisterPeer_buffers hd
    refine PendingInv.congr ?_ hv hf
    rw [logOverflow_eq]
    refine ⟨forall_lookup_erase h.bounded, forall_lookup_erase h.keyed, fun k hk => ?_, ?_, hfr,
      (h.dropped.append (dropsCaused_overflow hc.le _)).append (dropsCaused_singleton fun _ => hc)⟩
    · exact h.clear k ((AList.mem_erase.1 hk).2)
    · refine (Accounted.logFate (x := []) (y := []) (Accounted.overflow hacc)
        (by simp [Fate.isHanded])).of_eq ?_
      simp [logFate, logDispatched, pendingTags_erase]
  · -- handed to the handler, which may refuse it
    have hw := h.handed (k := ⟨e.Topic, sm.SenderId⟩) hh
    rcases ha with ha | ⟨err, -, hd'⟩
    · obtain ⟨pl, rfl⟩ := addEvent_ok ha; exact hw.congr rfl rfl
    · obtain ⟨hv, hf⟩ := deregisterPeer_buffers hd'; exact hw.congr hv hf

/-- **Dispatching an entry of the local channel** keeps the invariant. -/
theorem PendingInv.dispatchRaw {e : RawMessageEntry} (h : PendingInv m fun _ => False) :
    PendingInv ((m.logDispatched ⟨e.topic, m.serverID⟩).handleRawMessage
      { e with tag := m.ghost.nextTag }) fun _ => False := by
  simp only [handleRawMessage]
  split
  · rename_i hh
    split
    · -- the buffer reached the bound and is dropped
      rename_i hb
      rw [logOverflow_eq]
      refine ⟨forall_lookup_erase_insert h.bounded, forall_lookup_erase_insert h.keyed,
        fun k hk => ?_, ?_, fresh_logDispatched h.fresh, h.dropped.append (dropsCaused_overflow hb _)⟩
      · obtain ⟨hne, hk⟩ := AList.mem_erase.1 hk
        exact h.clear k (((AList.mem_insert _).1 hk).resolve_left hne)
      · refine (Accounted.overflow (p := pendingTags m.pendingMessages) (r := [])
          (h.accounted.logDispatched.of_eq ?_)).of_eq ?_
        · simp [pendingTags, logDispatched, PendingMessageEntry.tag]
        · simp [logDispatched, pendingTags_erase, pendingTags_insert]
    · -- buffered
      exact h.buffer rfl rfl hh (by dsimp only [logDispatched] at *; omega)
  · -- handed to the handler, whose refusal is ignored
    rename_i hdl hh
    have hw := h.handed (k := ⟨e.topic, m.serverID⟩) hh
    split
    · obtain ⟨pl, rfl⟩ := addEvent_ok ‹_›; exact hw.congr rfl rfl
    · exact hw

/-! ### The drain of `registerHandler` -/

/-- In a drain, an entry of a key whose topic has a handler is handed, or dropped for want of a
valid peer, and nothing the invariant reads changes but the fates. -/
theorem handlePendingEntry_drain {x : PendingMessageEntry} (hk : k.Topic ∈ m.handlers)
    (hx : x.key m.serverID = k) (h : m.handlePendingEntry x = .ok m') :
    m'.bufferView = m.bufferView ∧ ∃ f, m'.ghost.fates = m.ghost.fates ++ [(x.tag, k, f)] ∧
      DropsCaused m.config.MaxPendingMessageCountPerTopic [(x.tag, k, f)] := by
  cases x with
  | remote sm e =>
    cases hx
    rcases handleMessage_ok h with ⟨rfl, hp⟩ | ⟨p, -, -, -, hcase⟩
    · exact ⟨rfl, _, rfl, dropsCaused_noPeer hp⟩
    rcases hcase with ⟨hh, -, -⟩ | ⟨hh, -, -⟩ | ⟨hdl, -, ha | ⟨err, -, hd⟩⟩
    · exact absurd hk (AList.lookup_eq_none.1 hh)
    · exact absurd hk (AList.lookup_eq_none.1 hh)
    · obtain ⟨pl, rfl⟩ := addEvent_ok ha; exact ⟨rfl, _, rfl, dropsCaused_handed⟩
    · obtain ⟨hv, hf⟩ := deregisterPeer_buffers hd; exact ⟨hv, _, hf, dropsCaused_handed⟩
  | raw e =>
    cases hx
    cases h
    simp only [handleRawMessage]
    split
    · rename_i hh; exact absurd hk (AList.lookup_eq_none.1 hh)
    · split
      · obtain ⟨pl, rfl⟩ := addEvent_ok ‹_›; exact ⟨rfl, _, rfl, dropsCaused_handed⟩
      · exact ⟨rfl, _, rfl, dropsCaused_handed⟩

/-- The entries of one buffer, handed or dropped one after the other. -/
theorem drainEntries {p : TopicSenderPair → List Nat} :
    ∀ {es : List PendingMessageEntry} {u u' : MessageServer}, k.Topic ∈ u.handlers →
      (∀ x ∈ es, x.key u.serverID = k) →
      u.Accounted (Function.update p k (es.map PendingMessageEntry.tag)) →
      DropsCaused u.config.MaxPendingMessageCountPerTopic u.ghost.fates →
      es.foldlM handlePendingEntry u = .ok u' →
      u'.bufferView = u.bufferView ∧ u'.Accounted (Function.update p k []) ∧
        DropsCaused u.config.MaxPendingMessageCountPerTopic u'.ghost.fates
  | [], u, u', _, _, ha, hd, h => by cases h; exact ⟨rfl, ha, hd⟩
  | x :: es, u, u', hk, hx, ha, hd, h => by
    simp only [List.foldlM_cons] at h
    cases h₁ : u.handlePendingEntry x with
    | error e => rw [h₁] at h; cases h
    | ok u₁ =>
      rw [h₁] at h
      obtain ⟨hv, f, hf, hc⟩ := handlePendingEntry_drain hk (hx x (List.mem_cons_self _ _)) h₁
      have hv' := hv
      simp only [bufferView, Prod.mk.injEq] at hv'
      have ha₁ : u₁.Accounted (Function.update p k (es.map PendingMessageEntry.tag)) :=
        (Accounted.logFate (f := f) (x := []) ha fun _ => rfl).congr hf hv'.2.2.2.2.1
      have hd₁ : DropsCaused u₁.config.MaxPendingMessageCountPerTopic u₁.ghost.fates := by
        rw [hf, hv'.2.2.1]; exact hd.append hc
      obtain ⟨hv₂, ha₂, hd₂⟩ := drainEntries (hv'.2.1 ▸ hk)
        (fun y hy => hv'.2.2.2.1 ▸ hx y (List.mem_cons_of_mem _ hy)) ha₁ hd₁ h
      exact ⟨hv₂.trans hv, ha₂, hv'.2.2.1 ▸ hd₂⟩

/-- Draining one key: a key of another topic is skipped, a key of the topic is handed over and
deleted. -/
theorem PendingInv.drainKey {t : Topic} {rest : List TopicSenderPair} (ht : t ∈ m.handlers)
    (h : PendingInv m fun k' => k'.Topic = t ∧ k' ∈ k :: rest) (hd : m.drainKey t k = .ok m') :
    m'.handlers = m.handlers ∧ PendingInv m' fun k' => k'.Topic = t ∧ k' ∈ rest := by
  unfold MessageServer.drainKey at hd
  split at hd
  · rename_i hne
    cases hd
    refine ⟨rfl, h.weaken fun k' ⟨h1, h2⟩ => ⟨h1, (List.mem_cons.1 h2).resolve_left ?_⟩⟩
    rintro rfl; exact hne h1
  · rename_i hkt
    split at hd
    · rename_i u hf
      cases hd
      have hk : k.Topic ∈ m.handlers := by rw [not_not.1 hkt]; exact ht
      obtain ⟨hv, ha, hdr⟩ := drainEntries (p := pendingTags m.pendingMessages) hk
        (fun x hx => by
          obtain ⟨l, hl, hx⟩ := mem_lookup_getD hx
          exact h.keyed _ _ hl x hx) (h.accounted.of_eq (by simp [pendingTags])) h.dropped hf
      simp only [bufferView, Prod.mk.injEq] at hv
      obtain ⟨h1, h2, h3, h4, h5, h6⟩ := hv
      refine ⟨h2, ?_, ?_, fun k' hk' => ?_, ?_, ?_, ?_⟩
      · rw [h1, h3]; exact forall_lookup_erase h.bounded
      · rw [h1, h4]; exact forall_lookup_erase h.keyed
      · dsimp only at hk' ⊢
        rw [h1] at hk'
        obtain ⟨hne, hk'⟩ := AList.mem_erase.1 hk'
        rw [h2]
        exact (h.clear k' hk').imp_right fun ⟨h1, h2⟩ => ⟨h1, (List.mem_cons.1 h2).resolve_left hne⟩
      · dsimp only
        rw [h1, pendingTags_erase]; exact ha
      · dsimp only
        rw [h5, h6]; exact h.fresh
      · dsimp only
        rw [h3]; exact hdr
    · cases hd

/-- **The drain of `registerHandler`**: once every key has been visited, no buffer of the
topic is left. -/
theorem PendingInv.drain {t : Topic} : ∀ {order : List TopicSenderPair} {m m' : MessageServer},
    t ∈ m.handlers → PendingInv m (fun k => k.Topic = t ∧ k ∈ order) →
    m.handlePendingMessages t order = .ok m' → PendingInv m' fun _ => False
  | [], m, m', _, h, hd => by cases hd; exact h.weaken fun _ h' => by simp at h'
  | k :: rest, m, m', ht, h, hd => by
    simp only [handlePendingMessages, List.foldlM_cons] at hd
    cases hk : m.drainKey t k with
    | error e => rw [hk] at hd; cases hd
    | ok m₁ =>
      rw [hk] at hd
      obtain ⟨hh, h₁⟩ := h.drainKey ht hk
      exact PendingInv.drain (hh ▸ ht) h₁ hd

theorem PendingInv.registerHandler {t : Topic} {hdl : Nat} {order : List TopicSenderPair}
    (h : PendingInv m fun _ => False) (ho : order.Perm m.pendingMessages.keys)
    (hr : m.registerHandler t hdl order = .ok m') : PendingInv m' fun _ => False := by
  unfold MessageServer.registerHandler at hr
  split at hr
  · cases hr
  · refine PendingInv.drain ((AList.mem_insert _).2 (.inl rfl)) ?_ hr
    refine ⟨h.bounded, h.keyed, fun k hk => ?_, h.accounted, h.fresh, h.dropped⟩
    by_cases hkt : k.Topic = t
    · exact .inr ⟨hkt, ho.mem_iff.2 (AList.mem_keys.2 hk)⟩
    · exact .inl fun hm => ((h.clear k hk).resolve_right id) (((AList.mem_insert _).1 hm).resolve_left hkt)

/-! ### Every step keeps the invariant -/

theorem registerPeer_buffers {s : Nat} {r : MessageServer × Option PeerError}
    (hr : m.registerPeer s = .ok r) : r.1.bufferView = m.bufferView ∧ r.1.ghost.fates = m.ghost.fates := by
  rcases registerPeer_ok hr with ⟨-, -, rfl⟩ | ⟨-, -, rfl⟩ | ⟨_, -, -, rfl⟩ |
    ⟨_, _, -, -, hd, rfl⟩ | ⟨_, -, -, rfl⟩
  · exact ⟨rfl, rfl⟩
  · exact ⟨rfl, rfl⟩
  · exact ⟨rfl, rfl⟩
  · obtain ⟨hv, hf⟩ := deregisterPeer_buffers hd; exact ⟨hv, hf⟩
  · exact ⟨rfl, rfl⟩

theorem onRegisterPeer_buffers {s : Nat} (h : m.onRegisterPeer s = .ok m') :
    m'.bufferView = m.bufferView ∧ m'.ghost.fates = m.ghost.fates := by
  obtain ⟨r, hreg, ⟨ss, rfl⟩ | ⟨err, rfl⟩⟩ := onRegisterPeer_ok h <;> exact registerPeer_buffers hreg

theorem tick_buffers (ht : m.tick = .ok m') :
    m'.bufferView = m.bufferView ∧ m'.ghost.fates = m.ghost.fates := by
  unfold MessageServer.tick at ht
  obtain ⟨ss, hss⟩ := foldl_tickPeer_fst (m := m) m.peers.entries []
  refine foldlM_inv (fun u => u.bufferView = m.bufferView ∧ u.ghost.fates = m.ghost.fates)
    (fun _ _ _ _ hu hd => ?_) ?_ ht
  · obtain ⟨hv, hf⟩ := deregisterPeer_buffers hd; exact ⟨hv.trans hu.1, hf.trans hu.2⟩
  · rw [hss]; exact ⟨rfl, rfl⟩

/-- **Every task keeps the invariant.** -/
theorem PendingInv.runTask {order : List TopicSenderPair} {task : ServerTask}
    (h : PendingInv m fun _ => False) (ho : order.Perm m.pendingMessages.keys)
    (hr : m.runTask order task = .ok m') : PendingInv m' fun _ => False := by
  cases task with
  | onMessageBatch sm es =>
    simp only [MessageServer.runTask, handleMessageBatch] at hr
    exact foldlM_inv (PendingInv · fun _ => False) (fun _ _ _ _ hu he => hu.dispatch he) h hr
  | onRawMessageBatch es =>
    cases hr
    clear ho
    induction es generalizing m with
    | nil => exact h
    | cons e es ih => exact ih h.dispatchRaw
  | onRegisterPeer s =>
    obtain ⟨hv, hf⟩ := onRegisterPeer_buffers hr; exact h.congr hv hf
  | onDeregisterPeer id =>
    simp only [MessageServer.runTask, deregisterPeerByID] at hr
    split at hr
    · cases hr; exact h
    · obtain ⟨hv, hf⟩ := deregisterPeer_buffers hr; exact h.congr hv hf
  | onRegisterHandler t hdl => exact h.registerHandler ho hr
  | onDeregisterHandler t =>
    cases hr
    simp only [MessageServer.onDeregisterHandler]
    split
    · refine ⟨h.bounded, h.keyed, fun k hk => .inl fun hm => ?_, h.accounted, h.fresh, h.dropped⟩
      exact ((h.clear k hk).resolve_right id) (AList.mem_erase.1 hm).2
    · exact h
  | debugDelay => cases hr; exact h

theorem PendingInv.step {l : Label} (h : PendingInv m fun _ => False) (hs : m.step l = some m') :
    PendingInv m' fun _ => False := by
  rcases step_cases hs with ⟨-, _, _, _, _, _, rfl⟩ | ⟨order, task, rest, -, ho, rfl⟩ | rfl | rfl
  · exact h.congr rfl rfl
  · cases hr : MessageServer.runTask _ order task with
    | ok m₁ =>
      refine PendingInv.runTask ?_ ?_ hr
      · exact h.congr rfl rfl
      · exact ho
    | error p => exact h.congr rfl rfl
  · cases ht : m.tick with
    | ok m₁ => obtain ⟨hv, hf⟩ := tick_buffers ht; exact h.congr hv hf
    | error p => exact h.congr rfl rfl
  · exact h.congr rfl rfl

end MessageServer

open MessageServer

theorem pendingInv_of_reachable {m : MessageServer} (hr : Reachable m) : PendingInv m fun _ => False := by
  induction hr with
  | init =>
    refine ⟨by simp [newMessageServer], by simp [newMessageServer], by simp [newMessageServer],
      fun k => ?_, by simp [newMessageServer], fun _ h => nomatch h⟩
    simp [newMessageServer, handedOf, dispatchedOf, droppedOf, pendingTags]
  | step l _ hs ih => exact ih.step hs


/-- **The bound the buffers keep**: `MaxPendingMessageCountPerTopic + 1` entries, as
`handleMessage` appends to a buffer of `MaxPendingMessageCountPerTopic` entries and drops it only
when it holds more. -/
theorem pending_length_le {m : MessageServer} (hr : Reachable m) :
    ∀ k es, m.pendingMessages.lookup k = some es →
      (es.length : Int) ≤ max 0 (m.config.MaxPendingMessageCountPerTopic + 1) :=
  (pendingInv_of_reachable hr).bounded

theorem pending_length_le_five_entries :
    let m := ((newMessageServer "s" ⟨4, 4⟩).exec [.sendMessage (some ⟨"p1", "s", 1⟩), .runTask [],
      .recvPacket 0 [⟨"t3", 1, 0⟩, ⟨"t3", 2, 0⟩, ⟨"t3", 3, 0⟩, ⟨"t3", 4, 0⟩, ⟨"t3", 5, 0⟩],
      .runTask []]).get (by decide)
    ∀ k es, m.pendingMessages.lookup k = some es →
      (es.length : Int) ≤ max 0 (m.config.MaxPendingMessageCountPerTopic + 1) :=
  pending_length_le (Reachable.exec_get _ _ _ _)

/-- With `MaxPendingMessageCountPerTopic = 4` and no handler, a peer sends five messages on
`t3`: all five are buffered and the peer stays registered and valid. -/
theorem pending_exceeds_bound_without_deregistration :
    ∃ m, Reachable m ∧ m.config.MaxPendingMessageCountPerTopic = 4 ∧
      pendingTags m.pendingMessages ⟨"t3", "p1"⟩ = [0, 1, 2, 3, 4] ∧
      m.peers.lookup "p1" = some 0 ∧ (m.peerAt 0).valid = true :=
  ⟨_, Reachable.exec_get "s" ⟨4, 4⟩ [.sendMessage (some ⟨"p1", "s", 1⟩), .runTask [],
    .recvPacket 0 [⟨"t3", 1, 0⟩, ⟨"t3", 2, 0⟩, ⟨"t3", 3, 0⟩, ⟨"t3", 4, 0⟩, ⟨"t3", 5, 0⟩],
    .runTask []] (by decide), by decide⟩

/-- **The buffers hand entries over in the order they were dequeued, and drop one only for a
cause.** In every reachable state no key of a topic with a handler buffers anything, and the task
loop gives every entry it dequeues a distinct tag. Under every key, the entries handed to
`AddEvent` (each once) followed by those still buffered come in the order they were dequeued.
Every dequeued entry was handed, is still buffered, or was dropped, and then its fate holds what
the state showed at that moment (`handleMessage_ok`, `logOverflow_eq`): at dispatch or drain, the
registry held no valid peer of the stream's epoch for its sender; or its buffer, dropped with it,
held at least `MaxPendingMessageCountPerTopic` entries; or it is the message whose arrival found
its remote buffer over that bound, which is dropped with the buffer. -/
theorem pending_handed_in_dispatch_order {m : MessageServer} (hr : Reachable m) :
    (∀ k, k ∈ m.pendingMessages → k.Topic ∉ m.handlers) ∧
    (m.ghost.dispatched.map Prod.fst).Nodup ∧
    ∀ k, (m.handedOf k).Nodup ∧
      (m.handedOf k ++ pendingTags m.pendingMessages k).Sublist (m.dispatchedOf k) ∧
      ∀ t ∈ m.dispatchedOf k, t ∈ m.handedOf k ∨ t ∈ pendingTags m.pendingMessages k ∨
        ∃ f, (t, k, f) ∈ m.ghost.fates ∧ f.Dropped m.config.MaxPendingMessageCountPerTopic := by
  have h := pendingInv_of_reachable hr
  have hnd : (m.ghost.dispatched.map Prod.fst).Nodup := h.fresh ▸ List.nodup_range _
  refine ⟨fun k hk => (h.clear k hk).resolve_right id, hnd, fun k =>
    ⟨?_, (h.accounted k).1, fun t ht => ((h.accounted k).2 t ht).imp_right
      (Or.imp_right (mem_droppedOf_cause h.dropped))⟩⟩
  exact hnd.sublist ((List.sublist_append_left _ _).trans
    ((h.accounted k).1.trans ((List.filter_sublist _).map _)))

theorem pending_handed_in_dispatch_order_after_overflow :
    let m := ((newMessageServer "s" ⟨0, 4⟩).exec [.sendMessage (some ⟨"a", "s", 1⟩), .runTask [],
      .recvPacket 0 [⟨"t", 1, 0⟩, ⟨"t", 2, 0⟩], .runTask []]).get (by decide)
    (∀ k, k ∈ m.pendingMessages → k.Topic ∉ m.handlers) ∧
    (m.ghost.dispatched.map Prod.fst).Nodup ∧
    ∀ k, (m.handedOf k).Nodup ∧
      (m.handedOf k ++ pendingTags m.pendingMessages k).Sublist (m.dispatchedOf k) ∧
      ∀ t ∈ m.dispatchedOf k, t ∈ m.handedOf k ∨ t ∈ pendingTags m.pendingMessages k ∨
        ∃ f, (t, k, f) ∈ m.ghost.fates ∧ f.Dropped m.config.MaxPendingMessageCountPerTopic :=
  pending_handed_in_dispatch_order (Reachable.exec_get _ _ _ _)

/-- With `MaxPendingMessageCountPerTopic = 0` and no handler, a valid peer sends two messages on
`t`: the first is buffered, the second finds the buffer over the bound, and both are dropped with
it, the buffer holding one entry. -/
example : ((newMessageServer "s" ⟨0, 4⟩).exec [.sendMessage (some ⟨"a", "s", 1⟩), .runTask [],
    .recvPacket 0 [⟨"t", 1, 0⟩, ⟨"t", 2, 0⟩], .runTask []]).map (·.ghost.fates) =
    some [(0, ⟨"t", "a"⟩, .overflow 1), (1, ⟨"t", "a"⟩, .congestedTrigger 1)] := by
  decide

end Tiflow.P2p
