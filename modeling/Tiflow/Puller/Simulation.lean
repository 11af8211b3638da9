import Tiflow.Puller.Ordering
import Tiflow.Puller.Watermark

/-!
# The job puller's side of a run of the DDL puller

`System.step` interleaves the loop of the job puller, the loop of `ddlPullerImpl.Run` and the
owner's calls in any order. Seen from the job puller, a run is its own loop of `Run` over the
entries it pulled: the other steps leave its state, what it sent and whether it stopped alone.

* `pulls` — the entries the pull steps of a run hand to the job puller;
* `exec_pulls` — the core lemma: a run from a state where the job puller has not stopped is
  `processEntries` from that state over the run's pulls; `exec_of_failed` is the run after it
  stopped, which pulls nothing;
* `reachable_calls_ordered` — so what `processEntries_ordered` says of the loop holds in every
  reachable state of the DDL puller.
-/

namespace Tiflow.Puller

/-- The entry a step hands to the job puller, if it is one of its steps. -/
def Label.pulled : Label → Option RawKVEntry
  | .pull e => some e
  | _ => none

/-- The entries the job puller pulls along a run. -/
def pulls (ls : List Label) : List RawKVEntry := ls.filterMap Label.pulled

theorem pulls_cons (l : Label) (ls : List Label) : pulls (l :: ls) = l.pulled.toList ++ pulls ls := by
  cases h : l.pulled <;> simp [pulls, List.filterMap_cons, h]

namespace System

variable {σ : Type} {c : Collaborators σ} {sys sys' : System σ}

theorem exec_append (ls ls' : List Label) :
    sys.exec c (ls ++ ls') = (sys.exec c ls).bind fun sys₁ => sys₁.exec c ls' := by
  induction ls generalizing sys with
  | nil => rfl
  | cons l ls ih =>
    show ((sys.step c l).bind fun sys₁ => sys₁.exec c (ls ++ ls')) =
      ((sys.step c l).bind fun sys₁ => sys₁.exec c ls).bind _
    simp only [ih, Option.bind_assoc]

/-- A step that is not one of the job puller leaves its side alone. -/
theorem step_jobPuller_side {l : Label} (hs : sys.step c l = some sys') (hl : l.pulled = none) :
    sys'.jobPuller = sys.jobPuller ∧ sys'.sent = sys.sent ∧ sys'.failed = sys.failed := by
  rcases step_cases hs with ⟨e, -, -, rfl, -⟩ | ⟨-, -, -, -, rfl⟩ | ⟨-, rfl⟩ | ⟨-, rfl⟩
  · cases hl
  all_goals exact ⟨rfl, rfl, rfl⟩

/-- Once the job puller has stopped, a run pulls nothing and leaves its side alone. -/
theorem exec_of_failed {ls : List Label} (hf : sys.failed = true) (he : sys.exec c ls = some sys') :
    pulls ls = [] ∧ sys'.jobPuller = sys.jobPuller ∧ sys'.sent = sys.sent ∧ sys'.failed = true := by
  induction ls generalizing sys with
  | nil => cases he; exact ⟨rfl, rfl, rfl, hf⟩
  | cons l ls ih =>
    simp only [exec, Option.bind_eq_some] at he
    obtain ⟨sys₁, h₁, h₂⟩ := he
    have hl : l.pulled = none := by
      rcases step_cases h₁ with ⟨-, -, -, -, hf', -⟩ | ⟨-, -, rfl, -⟩ | ⟨rfl, -⟩ | ⟨rfl, -⟩
      · rw [hf] at hf'; cases hf'
      all_goals rfl
    obtain ⟨hj₁, hs₁, hf₁⟩ := step_jobPuller_side h₁ hl
    obtain ⟨hp, hj, hs, hf'⟩ := ih (hf₁.trans hf) h₂
    exact ⟨by rw [pulls_cons, hl, hp]; rfl, hj.trans hj₁, hs.trans hs₁, hf'⟩

/-- **A run, seen from the job puller, is its loop of `Run`**: from a state where it has not
stopped, `processEntries` over the run's pulls ends in the job puller of the run's last state,
sends what the run added to `sent`, and stops with an error exactly when the run's job puller
has stopped. -/
theorem exec_pulls {ls : List Label} (he : sys.exec c ls = some sys') (hf : sys.failed = false) :
    ∃ sent err, sys.jobPuller.processEntries c (pulls ls) = (sys'.jobPuller, sent, err) ∧
      sys'.sent = sys.sent ++ sent ∧ err.isSome = sys'.failed := by
  induction ls generalizing sys with
  | nil => cases he; exact ⟨[], none, rfl, (List.append_nil _).symm, hf.symm⟩
  | cons l ls ih =>
    simp only [exec, Option.bind_eq_some] at he
    obtain ⟨sys₁, h₁, h₂⟩ := he
    rcases step_cases h₁ with ⟨e, p, r, rfl, -, h, ⟨⟨err, rfl⟩, rfl⟩ | ⟨out, rfl, rfl⟩⟩ |
      ⟨_, _, rfl, -, rfl⟩ | ⟨rfl, rfl⟩ | ⟨rfl, rfl⟩
    · -- the entry fails: the loop stops, and so does the job puller of the run
      obtain ⟨hp, hj, hs, hf'⟩ := exec_of_failed rfl h₂
      refine ⟨[], some err, ?_, by rw [hs, List.append_nil], by rw [hf']; rfl⟩
      rw [pulls_cons, hp]
      show DDLJobPuller.processEntries c sys.jobPuller [e] = _
      rw [DDLJobPuller.processEntries.eq_2, h, hj]
    · -- the entry is handled: the loop goes on from the job puller it leaves
      obtain ⟨sent, err, hpe, hs, hf'⟩ := ih h₂ hf
      refine ⟨out.toList ++ sent, err, ?_, by rw [hs, List.append_assoc], hf'⟩
      rw [pulls_cons]
      show DDLJobPuller.processEntries c sys.jobPuller (e :: pulls ls) = _
      dsimp only at hpe
      rw [DDLJobPuller.processEntries.eq_2, h]
      dsimp only
      rw [hpe]
    all_goals
      obtain ⟨sent, err, hpe, hs, hf'⟩ := ih h₂ hf
      exact ⟨sent, err, hpe, hs, hf'⟩

end System

open System

theorem Reachable.exists_exec {σ : Type} {c : Collaborators σ} {startTs : Nat} {sys : System σ}
    (hr : Reachable c startTs sys) : ∃ s ls, (newSystem s startTs).exec c ls = some sys := by
  induction hr with
  | init s => exact ⟨s, [], rfl⟩
  | step l _ hs ih =>
    obtain ⟨s, ls, he⟩ := ih
    refine ⟨s, ls ++ [l], ?_⟩
    rw [exec_append, he]
    show (System.step c _ l).bind _ = _
    rw [hs]
    rfl

/-- **The job puller keeps the schema storage in commit order in every state of the DDL
puller**: every job handed to the storage has a schema version and commits after every
timestamp handed to it before; unless the job puller has stopped, its `resolvedTs` is at least
every timestamp handed to the storage; and the jobs it sent commit in increasing order. -/
theorem reachable_calls_ordered {σ : Type} {c : Collaborators σ} {startTs : Nat} {sys : System σ}
    (hr : Reachable c startTs sys) :
    CallsOrdered sys.jobPuller.calls ∧ (sys.failed = false → Bounded sys.jobPuller) ∧
    (jobsOf sys.sent).Pairwise (fun j j' => j.BinlogInfo.FinishedTS < j'.BinlogInfo.FinishedTS) := by
  obtain ⟨s, ls, he⟩ := hr.exists_exec
  obtain ⟨sent, err, hpe, hs, hf⟩ := exec_pulls he rfl
  have hb₀ : Bounded (newDDLJobPuller s) := by simp [Bounded, newDDLJobPuller]
  obtain ⟨ho, -, hb, new, hc, hsub⟩ :=
    DDLJobPuller.processEntries_ordered (c := c) callsOrdered_nil hb₀ (pulls ls)
  rw [show (newDDLJobPuller s).processEntries c (pulls ls) = (sys.jobPuller, sent, err) from hpe]
    at ho hb hc hsub
  refine ⟨ho, fun hf' => hb (Option.not_isSome_iff_eq_none.1 (by rw [hf, hf']; decide)), ?_⟩
  have hord := ho.applied
  rw [hc] at hord
  rw [hs]
  exact List.Pairwise.sublist hsub (by simpa [newDDLJobPuller] using hord)

theorem reachable_calls_ordered_single_job :
    ∃ sys, (newSystem () 5).exec singleJobUpstream
        [.pull ⟨.put, "job", "", 10⟩, .receive, .popFrontDDL, .resolvedTs] = some sys ∧
      CallsOrdered sys.jobPuller.calls ∧ (sys.failed = false → Bounded sys.jobPuller) ∧
      (jobsOf sys.sent).Pairwise (fun j j' => j.BinlogInfo.FinishedTS < j'.BinlogInfo.FinishedTS) := by
  obtain ⟨sys, h⟩ : ∃ sys, (newSystem () 5).exec singleJobUpstream
      [.pull ⟨.put, "job", "", 10⟩, .receive, .popFrontDDL, .resolvedTs] = some sys := ⟨_, rfl⟩
  exact ⟨sys, h, reachable_calls_ordered ((Reachable.init ()).exec h)⟩

end Tiflow.Puller
