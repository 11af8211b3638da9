import Tiflow.Puller.JobPuller

/-!
# The owner's DDL puller

`ddlPullerImpl` consumes the output channel of its job puller. A resolved entry past its
resolved ts moves that ts; the job of any other entry is queued, unless it has the ID of the
job queued last. `PopFrontDDL` and `ResolvedTs` report the head of the queue, or the resolved
ts when the queue is empty.

* `DDLPullerImpl` with `addToPending`, `onJobEntry` (a round of the loop of `Run`),
  `PopFrontDDL` and `ResolvedTs`;
* `System`, `Label`, `System.step`, `Reachable` — the loop of the job puller, the channel, the
  loop of `ddlPullerImpl.Run` and the owner's calls, in any interleaving. The channel is
  unbounded: a bounded one only blocks the job puller, which removes runs and adds none.
-/

namespace Tiflow.Puller

/-- `ddlPullerImpl`: its resolved ts, its queue of pending jobs, and the ID of the last job it
queued. -/
structure DDLPullerImpl where
  resolvedTS : Nat
  pendingDDLJobs : List Job := []
  lastDDLJobID : Int := 0
  deriving DecidableEq, Repr

/-- `NewDDLPuller`: the resolved ts starts at `startTs`. -/
def newDDLPuller (startTs : Nat) : DDLPullerImpl := { resolvedTS := startTs }

namespace DDLPullerImpl

variable (h : DDLPullerImpl)

/-- `addToPending`: a job with the ID of the job queued last is dropped. -/
def addToPending : Option Job → DDLPullerImpl
  | none => h
  | some job =>
    if job.ID = h.lastDDLJobID then h
    else { h with pendingDDLJobs := h.pendingDDLJobs ++ [job], lastDDLJobID := job.ID }

/-- One round of the loop of `Run` on an entry received from the job puller. -/
def onJobEntry (e : DDLJobEntry) : DDLPullerImpl :=
  if e.OpType = .resolved ∧ e.CRTs > h.resolvedTS then { h with resolvedTS := e.CRTs }
  else h.addToPending e.Job

/-- `PopFrontDDL`: the head job and its commit, or the resolved ts when none is pending. -/
def PopFrontDDL : (Nat × Option Job) × DDLPullerImpl :=
  match h.pendingDDLJobs with
  | [] => ((h.resolvedTS, none), h)
  | job :: rest => ((job.BinlogInfo.FinishedTS, some job), { h with pendingDDLJobs := rest })

/-- `ResolvedTs`: the commit of the head job, or the resolved ts when none is pending. -/
def ResolvedTs : Nat :=
  match h.pendingDDLJobs with
  | [] => h.resolvedTS
  | job :: _ => job.BinlogInfo.FinishedTS

end DDLPullerImpl

/-- The owner's DDL puller at work: its job puller, whether the job puller's loop has stopped
on an error, the channel between them, the `ddlPullerImpl`, and, as ghost, every entry the job
puller sent and what `PopFrontDDL` and `ResolvedTs` returned (`ResolvedTs` with no job). -/
structure System (σ : Type) where
  jobPuller : DDLJobPuller σ
  failed : Bool := false
  outputCh : List DDLJobEntry := []
  puller : DDLPullerImpl
  sent : List DDLJobEntry := []
  returned : List (Nat × Option Job) := []

/-- `NewDDLPuller` with its job puller. -/
def newSystem {σ : Type} (storage : σ) (startTs : Nat) : System σ :=
  { jobPuller := newDDLJobPuller storage, puller := newDDLPuller startTs }

/-- One step of the DDL puller. -/
inductive Label where
  /-- the job puller's loop handles the next entry of its sorter -/
  | pull (entry : RawKVEntry)
  /-- the loop of `ddlPullerImpl.Run` receives the head of the channel -/
  | receive
  | popFrontDDL
  | resolvedTs
  deriving DecidableEq, Repr

namespace System

variable {σ : Type} (c : Collaborators σ)

/-- **The transition function of the DDL puller.** -/
def step (sys : System σ) : Label → Option (System σ)
  | .pull e =>
    if sys.failed then none else
    match sys.jobPuller.handleRawKVEntry c e with
    | (p, .error _) => some { sys with jobPuller := p, failed := true }
    | (p, .ok out) => some { sys with
        jobPuller := p
        outputCh := sys.outputCh ++ out.toList
        sent := sys.sent ++ out.toList }
  | .receive =>
    match sys.outputCh with
    | [] => none
    | e :: rest => some { sys with outputCh := rest, puller := sys.puller.onJobEntry e }
  | .popFrontDDL =>
    some { sys with puller := sys.puller.PopFrontDDL.2, returned := sys.returned ++ [sys.puller.PopFrontDDL.1] }
  | .resolvedTs => some { sys with returned := sys.returned ++ [(sys.puller.ResolvedTs, none)] }

/-- A finite run. -/
def exec (sys : System σ) : List Label → Option (System σ)
  | [] => some sys
  | l :: ls => (sys.step c l).bind fun sys' => sys'.exec ls

end System

namespace System

variable {σ : Type} {c : Collaborators σ} {sys sys' : System σ} {l : Label}

/-- **What a step can do**: the job puller handles an entry, unless it has stopped, and stops on
an error or sends what it returns; the loop of `Run` handles the head of the channel; the owner
records what `PopFrontDDL` or `ResolvedTs` returns. -/
theorem step_cases (hs : sys.step c l = some sys') :
    (∃ e p r, l = .pull e ∧ sys.failed = false ∧ sys.jobPuller.handleRawKVEntry c e = (p, r) ∧
      ((∃ err, r = .error err) ∧ sys' = { sys with jobPuller := p, failed := true } ∨
        ∃ out, r = .ok out ∧ sys' = { sys with
          jobPuller := p, outputCh := sys.outputCh ++ out.toList, sent := sys.sent ++ out.toList })) ∨
    (∃ e rest, l = .receive ∧ sys.outputCh = e :: rest ∧
      sys' = { sys with outputCh := rest, puller := sys.puller.onJobEntry e }) ∨
    (l = .popFrontDDL ∧ sys' = { sys with
      puller := sys.puller.PopFrontDDL.2, returned := sys.returned ++ [sys.puller.PopFrontDDL.1] }) ∨
    (l = .resolvedTs ∧ sys' = { sys with returned := sys.returned ++ [(sys.puller.ResolvedTs, none)] }) := by
  cases l with
  | pull e =>
    simp only [step] at hs
    split at hs
    · cases hs
    · have hf : sys.failed = false := by simpa using ‹¬sys.failed = true›
      rcases h : sys.jobPuller.handleRawKVEntry c e with ⟨p, err | out⟩ <;> rw [h] at hs <;> cases hs
      · exact .inl ⟨e, p, _, rfl, hf, h, .inl ⟨⟨err, rfl⟩, rfl⟩⟩
      · exact .inl ⟨e, p, _, rfl, hf, h, .inr ⟨out, rfl, rfl⟩⟩
  | receive =>
    simp only [step] at hs
    split at hs
    · cases hs
    · cases hs; exact .inr (.inl ⟨_, _, rfl, ‹_›, rfl⟩)
  | popFrontDDL => cases hs; exact .inr (.inr (.inl ⟨rfl, rfl⟩))
  | resolvedTs => cases hs; exact .inr (.inr (.inr ⟨rfl, rfl⟩))

end System

/-- The states of the DDL puller started at `startTs`. -/
inductive Reachable {σ : Type} (c : Collaborators σ) (startTs : Nat) : System σ → Prop
  | init (storage : σ) : Reachable c startTs (newSystem storage startTs)
  | step {sys sys' : System σ} (l : Label) :
      Reachable c startTs sys → sys.step c l = some sys' → Reachable c startTs sys'

theorem Reachable.exec {σ : Type} {c : Collaborators σ} {startTs : Nat} {sys sys' : System σ}
    {ls : List Label} (h : Reachable c startTs sys) (he : sys.exec c ls = some sys') :
    Reachable c startTs sys' := by
  induction ls generalizing sys with
  | nil => cases he; exact h
  | cons l ls ih =>
    simp only [System.exec, Option.bind_eq_some] at he
    obtain ⟨sys₁, h₁, h₂⟩ := he
    exact ih (h.step l h₁) h₂

end Tiflow.Puller
