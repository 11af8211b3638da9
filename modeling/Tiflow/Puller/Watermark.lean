import Mathlib.Data.List.Basic
import Tiflow.Puller.DDLPuller

/-!
# What the timestamps of the DDL puller promise

A timestamp `PopFrontDDL` or `ResolvedTs` returns is the commit of the head job, or the
resolved ts when no job is pending. It bounds every job returned after it, but the timestamps
returned do not grow: once the last pending job is popped, `ResolvedTs` reports the resolved
ts, which lags behind that job's commit until the job puller sends the next resolved entry.

* `dedupJobs` — the rule of `addToPending`: a job with the ID of the job kept last is dropped,
  the first one compared with ID 0;
* `WatermarkInv` — the invariant of the DDL puller: the jobs in order of commit and above
  `startTs`, the channel, the resolved ts, the bound each returned timestamp puts on the jobs
  still to come, and the account of the jobs sent;
* `returned_ts_bound_later_jobs` — on every run, given that the jobs parsed commit after
  `startTs`;
* `returned_ts_decreases` — a run where `PopFrontDDL` returns 10 and then `ResolvedTs`
  returns 5.
-/

namespace Tiflow.Puller

/-! ### The rule for repeated jobs -/

/-- The jobs `addToPending` keeps: a job with the ID of the job kept last, `last` before the
first, is dropped. -/
def dedupJobs : Int → List Job → List Job
  | _, [] => []
  | last, job :: jobs => if job.ID = last then dedupJobs last jobs else job :: dedupJobs job.ID jobs

/-- The ID of the last of `jobs`, `last` when there is none. -/
def lastJobID (last : Int) (jobs : List Job) : Int := (jobs.getLast?.map Job.ID).getD last

theorem lastJobID_cons (last : Int) (job : Job) (jobs : List Job) :
    lastJobID last (job :: jobs) = lastJobID job.ID jobs := by
  cases jobs using List.reverseRecOn <;> simp [lastJobID, List.getLast?_cons]

theorem lastJobID_append_singleton (last : Int) (jobs : List Job) (job : Job) :
    lastJobID last (jobs ++ [job]) = job.ID := by
  simp [lastJobID]

theorem dedupJobs_append (last : Int) (jobs jobs' : List Job) :
    dedupJobs last (jobs ++ jobs') = dedupJobs last jobs ++ dedupJobs (lastJobID last jobs) jobs' := by
  induction jobs generalizing last with
  | nil => rfl
  | cons job jobs ih =>
    rw [List.cons_append, dedupJobs.eq_2, dedupJobs.eq_2, lastJobID_cons]
    split
    · rename_i h; rw [ih, h]
    · rw [ih, List.cons_append]

theorem lastJobID_append (last : Int) (jobs jobs' : List Job) :
    lastJobID last (jobs ++ jobs') = lastJobID (lastJobID last jobs) jobs' := by
  induction jobs' using List.reverseRecOn with
  | nil => simp [lastJobID]
  | append_singleton jobs' job _ =>
    rw [← List.append_assoc, lastJobID_append_singleton, lastJobID_append_singleton]

theorem dedupJobs_sublist (last : Int) (jobs : List Job) : (dedupJobs last jobs).Sublist jobs := by
  induction jobs generalizing last with
  | nil => exact .slnil
  | cons job jobs ih =>
    rw [dedupJobs.eq_2]
    split
    · exact (ih _).cons _
    · exact (ih _).cons₂ _

namespace DDLPullerImpl

variable (h : DDLPullerImpl) (e : DDLJobEntry)

/-- `addToPending` queues what `dedupJobs` keeps. -/
theorem addToPending_pending (o : Option Job) :
    (h.addToPending o).pendingDDLJobs = h.pendingDDLJobs ++ dedupJobs h.lastDDLJobID o.toList ∧
    (h.addToPending o).lastDDLJobID = lastJobID h.lastDDLJobID o.toList := by
  cases o with
  | none => simp [addToPending, dedupJobs, lastJobID]
  | some job => by_cases hj : job.ID = h.lastDDLJobID <;> simp [addToPending, dedupJobs, lastJobID, hj]

theorem addToPending_resolvedTS (o : Option Job) : (h.addToPending o).resolvedTS = h.resolvedTS := by
  cases o with
  | none => rfl
  | some job => simp only [addToPending]; split <;> rfl

/-- A round of `Run` on an entry that holds no job when it is resolved queues what `dedupJobs`
keeps of its job. -/
theorem onJobEntry_pending (he : e.OpType = .resolved → e.Job = none) :
    (h.onJobEntry e).pendingDDLJobs = h.pendingDDLJobs ++ dedupJobs h.lastDDLJobID e.Job.toList ∧
    (h.onJobEntry e).lastDDLJobID = lastJobID h.lastDDLJobID e.Job.toList := by
  unfold onJobEntry
  split
  · simp [he ‹_ ∧ _›.1, dedupJobs, lastJobID]
  · exact h.addToPending_pending e.Job

/-- A round of `Run` keeps the resolved ts or raises it to a resolved entry's. -/
theorem onJobEntry_resolvedTS :
    (h.onJobEntry e).resolvedTS = h.resolvedTS ∨
      e.OpType = .resolved ∧ h.resolvedTS < e.CRTs ∧ (h.onJobEntry e).resolvedTS = e.CRTs := by
  unfold onJobEntry
  split
  · exact .inr ⟨‹_ ∧ _›.1, ‹_ ∧ _›.2, rfl⟩
  · exact .inl (h.addToPending_resolvedTS e.Job)

theorem PopFrontDDL_resolvedTS : h.PopFrontDDL.2.resolvedTS = h.resolvedTS := by
  unfold PopFrontDDL
  split <;> rfl

end DDLPullerImpl

/-! ### The invariant -/

/-- The jobs of a list of entries. -/
def jobsOf (es : List DDLJobEntry) : List Job := es.filterMap DDLJobEntry.Job

@[simp] theorem jobsOf_nil : jobsOf [] = [] := rfl

@[simp] theorem jobsOf_append (es es' : List DDLJobEntry) :
    jobsOf (es ++ es') = jobsOf es ++ jobsOf es' := List.filterMap_append _ _ _

theorem jobsOf_cons (e : DDLJobEntry) (es : List DDLJobEntry) :
    jobsOf (e :: es) = e.Job.toList ++ jobsOf es := by
  cases h : e.Job <;> simp [jobsOf, List.filterMap_cons, h]

namespace System

variable {σ : Type}

/-- The jobs `PopFrontDDL` returned. -/
def popped (sys : System σ) : List Job := sys.returned.filterMap Prod.snd

/-- The jobs still to be returned: those pending, then those in the channel. -/
def future (sys : System σ) : List Job := sys.puller.pendingDDLJobs ++ jobsOf sys.outputCh

end System

/-! ### What the job puller sends -/

namespace DDLJobPuller

variable {σ : Type} {c : Collaborators σ} {p p' : DDLJobPuller σ}

/-- **What an entry sends, as the DDL puller sees it**: `resolvedTs` never decreases; an entry
sent holds no job, and `resolvedTs` covers it when it is resolved; or it holds the job of a
put, which commits after `resolvedTs` and after `startTs`, and `resolvedTs` moves to that
commit. -/
theorem handleRawKVEntry_sends {startTs : Nat} {e : RawKVEntry}
    {r : Except DDLError (Option DDLJobEntry)}
    (hc : ∀ t e col job, c.ParseDDLJob t e col = .ok (some job) → startTs < job.BinlogInfo.FinishedTS)
    (h : p.handleRawKVEntry c e = (p', r)) :
    p.resolvedTs ≤ p'.resolvedTs ∧ ∀ out, r = .ok (some out) →
      (out.Job = none ∧ (out.OpType = .resolved → out.CRTs ≤ p'.resolvedTs)) ∨
      (∃ j, out.Job = some j ∧ out.OpType ≠ .resolved ∧ p.resolvedTs < j.BinlogInfo.FinishedTS ∧
        startTs < j.BinlogInfo.FinishedTS ∧ p'.resolvedTs = j.BinlogInfo.FinishedTS) := by
  have hp₀ : p.resolvedTs ≤ (if e.OpType = .resolved then p.onResolved c e.CRTs else p).resolvedTs := by
    split
    · rw [onResolved_resolvedTs]; exact le_max_left _ _
    · exact le_rfl
  rcases handleRawKVEntry_spec rfl h with ⟨hr, -, hout⟩ |
    ⟨job, j, hput, ⟨t, col, hparse⟩, hk, hlt, -, -, hres⟩
  · refine ⟨hr ▸ hp₀, fun out hout' => .inl ?_⟩
    rcases hout _ hout' with h' | h' <;> cases h'
    refine ⟨rfl, fun hres => ?_⟩
    rw [hr, if_pos hres, onResolved_resolvedTs]
    exact le_max_right _ _
  · rw [if_neg (by rw [hput]; decide)] at hlt
    rcases hres with ⟨hr, _, he⟩ | ⟨hr, hout⟩
    · exact ⟨hr ▸ hp₀, fun out h' => by rw [he] at h'; cases h'⟩
    refine ⟨by omega, fun out h' => ?_⟩
    rcases hout _ h' with h'' | h'' <;> cases h''
    rw [← hk.finishedTS] at hlt hr
    exact .inr ⟨j, rfl, by simp [hput], hlt, hk.finishedTS ▸ hc _ _ _ _ hparse, hr⟩

end DDLJobPuller

/-! ### The invariant -/

namespace System

variable {σ : Type} {c : Collaborators σ} {startTs : Nat} {sys sys' : System σ}

/-- **The invariant of the DDL puller started at `startTs`.** Every job, returned or still to
come, commits after `startTs` and no later than the job puller's `resolvedTs`, in increasing
order; a resolved entry in the channel holds no job, is covered by `resolvedTs`, and is below
every job after it; the resolved ts is at least `startTs`, at most what the job puller
resolved, and below every job in the channel; every timestamp returned is at least `startTs`
and bounds every job to come, and every job returned after it; and the jobs returned and
pending are those `addToPending` kept of the entries received. -/
structure WatermarkInv (startTs : Nat) (sys : System σ) : Prop where
  ordered : (sys.popped ++ sys.future).Pairwise
    fun j j' => j.BinlogInfo.FinishedTS < j'.BinlogInfo.FinishedTS
  jobs : ∀ j ∈ sys.popped ++ sys.future,
    startTs < j.BinlogInfo.FinishedTS ∧ j.BinlogInfo.FinishedTS ≤ sys.jobPuller.resolvedTs
  resolvedEntries : ∀ e ∈ sys.outputCh, e.OpType = .resolved →
    e.Job = none ∧ e.CRTs ≤ sys.jobPuller.resolvedTs
  channel : sys.outputCh.Pairwise
    fun a b => a.OpType = .resolved → ∀ j, b.Job = some j → a.CRTs < j.BinlogInfo.FinishedTS
  resolvedTS : startTs ≤ sys.puller.resolvedTS ∧
    sys.puller.resolvedTS ≤ max startTs sys.jobPuller.resolvedTs
  below : ∀ j ∈ jobsOf sys.outputCh, sys.puller.resolvedTS < j.BinlogInfo.FinishedTS
  returned : ∀ r ∈ sys.returned, startTs ≤ r.1 ∧ r.1 ≤ max startTs sys.jobPuller.resolvedTs ∧
    ∀ j ∈ sys.future, r.1 ≤ j.BinlogInfo.FinishedTS
  watermark : sys.returned.Pairwise fun a b => ∀ j, b.2 = some j → a.1 ≤ j.BinlogInfo.FinishedTS
  consumed : ∃ consumed, sys.sent = consumed ++ sys.outputCh ∧
    sys.popped ++ sys.puller.pendingDDLJobs = dedupJobs 0 (jobsOf consumed) ∧
    sys.puller.lastDDLJobID = lastJobID 0 (jobsOf consumed)

theorem watermarkInv_init (storage : σ) (startTs : Nat) :
    WatermarkInv startTs (newSystem storage startTs) where
  ordered := by simp [popped, future, newSystem, newDDLPuller]
  jobs := by simp [popped, future, newSystem, newDDLPuller]
  resolvedEntries := by simp [newSystem]
  channel := by simp [newSystem]
  resolvedTS := ⟨le_rfl, le_max_left _ _⟩
  below := by simp [newSystem]
  returned := by simp [newSystem]
  watermark := by simp [newSystem]
  consumed := ⟨[], rfl, rfl, rfl⟩

/-- The head of the queue commits before every job after it. -/
theorem WatermarkInv.head_lt (hi : WatermarkInv startTs sys) {job : Job} {rest : List Job}
    (hp : sys.puller.pendingDDLJobs = job :: rest) :
    ∀ j ∈ rest ++ jobsOf sys.outputCh, job.BinlogInfo.FinishedTS < j.BinlogInfo.FinishedTS := by
  have hord := hi.ordered
  simp only [future, hp, List.cons_append, List.pairwise_append, List.pairwise_cons] at hord
  exact hord.2.1.1

/-- The timestamp `ResolvedTs` reports, which is also the one `PopFrontDDL` returns, is at least
`startTs`, at most what the job puller resolved, and bounds every job to come. -/
theorem WatermarkInv.resolvedTs_bound (hi : WatermarkInv startTs sys) :
    startTs ≤ sys.puller.ResolvedTs ∧ sys.puller.ResolvedTs ≤ max startTs sys.jobPuller.resolvedTs ∧
      ∀ j ∈ sys.future, sys.puller.ResolvedTs ≤ j.BinlogInfo.FinishedTS := by
  unfold DDLPullerImpl.ResolvedTs
  split
  · rename_i hp
    refine ⟨hi.resolvedTS.1, hi.resolvedTS.2, fun j hj => (hi.below j ?_).le⟩
    simpa [future, hp] using hj
  · rename_i job rest hp
    have hmem : job ∈ sys.popped ++ sys.future := by simp [future, hp]
    refine ⟨(hi.jobs job hmem).1.le, (hi.jobs job hmem).2.trans (le_max_right _ _), fun j hj => ?_⟩
    rw [future, hp, List.cons_append, List.mem_cons] at hj
    rcases hj with rfl | hj
    · exact le_rfl
    · exact (hi.head_lt hp j hj).le

/-- A timestamp returned with no job, bounded as `ResolvedTs` is, keeps the invariant. -/
theorem WatermarkInv.report (hi : WatermarkInv startTs sys) {v : Nat} (h₁ : startTs ≤ v)
    (h₂ : v ≤ max startTs sys.jobPuller.resolvedTs) (h₃ : ∀ j ∈ sys.future, v ≤ j.BinlogInfo.FinishedTS) :
    WatermarkInv startTs { sys with returned := sys.returned ++ [(v, none)] } := by
  have hp : ({ sys with returned := sys.returned ++ [(v, none)] } : System σ).popped = sys.popped := by
    simp [popped]
  refine ⟨hp ▸ hi.ordered, hp ▸ hi.jobs, hi.resolvedEntries, hi.channel, hi.resolvedTS, hi.below,
    fun r hr => ?_, List.pairwise_append.2 ⟨hi.watermark, List.pairwise_singleton _ _, by simp⟩,
    hp ▸ hi.consumed⟩
  rcases List.mem_append.1 hr with hr | hr
  · exact hi.returned r hr
  · rw [List.mem_singleton] at hr; subst hr; exact ⟨h₁, h₂, h₃⟩

/-- `PopFrontDDL` with a job pending returns it, with its commit. -/
theorem WatermarkInv.pop (hi : WatermarkInv startTs sys) {job : Job} {rest : List Job}
    (hp : sys.puller.pendingDDLJobs = job :: rest) :
    WatermarkInv startTs { sys with
      puller := { sys.puller with pendingDDLJobs := rest }
      returned := sys.returned ++ [(job.BinlogInfo.FinishedTS, some job)] } := by
  have hpop : ({ sys with
      puller := { sys.puller with pendingDDLJobs := rest }
      returned := sys.returned ++ [(job.BinlogInfo.FinishedTS, some job)] } : System σ).popped =
      sys.popped ++ [job] := by simp [popped]
  have hall : sys.popped ++ [job] ++ (rest ++ jobsOf sys.outputCh) = sys.popped ++ sys.future := by
    simp [future, hp]
  have hb := hi.resolvedTs_bound
  simp only [DDLPullerImpl.ResolvedTs, hp] at hb
  refine ⟨?_, ?_, hi.resolvedEntries, hi.channel, hi.resolvedTS, hi.below, fun r hr => ?_, ?_, ?_⟩
  · simp only [hpop, future]; rw [hall]; exact hi.ordered
  · simp only [hpop, future]; rw [hall]; exact hi.jobs
  · rcases List.mem_append.1 hr with hr | hr
    · obtain ⟨h₁, h₂, h₃⟩ := hi.returned r hr
      exact ⟨h₁, h₂, fun j hj => h₃ j (by rw [future, hp]; exact .tail _ hj)⟩
    · rw [List.mem_singleton] at hr; subst hr
      exact ⟨hb.1, hb.2.1, fun j hj => (hi.head_lt hp j hj).le⟩
  · refine List.pairwise_append.2 ⟨hi.watermark, List.pairwise_singleton _ _, fun a ha b hb' j hj => ?_⟩
    rw [List.mem_singleton] at hb'; subst hb'; cases hj
    exact (hi.returned a ha).2.2 job (by simp [future, hp])
  · obtain ⟨consumed, h₁, h₂, h₃⟩ := hi.consumed
    exact ⟨consumed, h₁, by rw [hpop, ← h₂, hp]; simp, h₃⟩

/-- The loop of `Run` receiving the head of the channel keeps the invariant. -/
theorem WatermarkInv.receive (hi : WatermarkInv startTs sys) {e : DDLJobEntry}
    {rest : List DDLJobEntry} (hch : sys.outputCh = e :: rest) :
    WatermarkInv startTs { sys with outputCh := rest, puller := sys.puller.onJobEntry e } := by
  have he : e.OpType = .resolved → e.Job = none ∧ e.CRTs ≤ sys.jobPuller.resolvedTs :=
    hi.resolvedEntries e (by simp [hch])
  have hchan := hi.channel
  rw [hch, List.pairwise_cons] at hchan
  have hbelow := hi.below
  rw [hch, jobsOf_cons] at hbelow
  obtain ⟨hpend, hlast⟩ := sys.puller.onJobEntry_pending e fun h => (he h).1
  have hfut : (sys.puller.pendingDDLJobs ++ dedupJobs sys.puller.lastDDLJobID e.Job.toList ++
      jobsOf rest).Sublist sys.future := by
    rw [future, hch, jobsOf_cons, ← List.append_assoc]
    exact ((List.Sublist.refl _).append (dedupJobs_sublist _ _)).append (List.Sublist.refl _)
  have hR : startTs ≤ (sys.puller.onJobEntry e).resolvedTS ∧
      (sys.puller.onJobEntry e).resolvedTS ≤ max startTs sys.jobPuller.resolvedTs ∧
      ∀ j ∈ jobsOf rest, (sys.puller.onJobEntry e).resolvedTS < j.BinlogInfo.FinishedTS := by
    rcases sys.puller.onJobEntry_resolvedTS e with hr | ⟨hres, hlt, hr⟩ <;> rw [hr]
    · exact ⟨hi.resolvedTS.1, hi.resolvedTS.2, fun j hj => hbelow j (List.mem_append_right _ hj)⟩
    · refine ⟨hi.resolvedTS.1.trans hlt.le, (he hres).2.trans (le_max_right _ _), fun j hj => ?_⟩
      obtain ⟨b, hb, hbj⟩ := List.mem_filterMap.1 hj
      exact hchan.1 b hb hres j hbj
  obtain ⟨consumed, h₁, h₂, h₃⟩ := hi.consumed
  refine ⟨?_, fun j hj => hi.jobs j ?_, fun e' he' => hi.resolvedEntries e' (by simp [hch, he']),
    hchan.2, ⟨hR.1, hR.2.1⟩, hR.2.2, fun r hr => ?_, hi.watermark, consumed ++ [e], ?_, ?_, ?_⟩
  · simp only [future, hpend]
    exact hi.ordered.sublist ((List.Sublist.refl _).append hfut)
  · simp only [future, hpend] at hj
    exact (List.Sublist.refl _).append hfut |>.subset hj
  · obtain ⟨hr₁, hr₂, hr₃⟩ := hi.returned r hr
    refine ⟨hr₁, hr₂, fun j hj => hr₃ j (hfut.subset ?_)⟩
    simpa only [future, hpend] using hj
  · rw [h₁, hch]; simp
  · show sys.popped ++ (sys.puller.onJobEntry e).pendingDDLJobs = _
    rw [hpend, ← List.append_assoc, h₂, jobsOf_append, dedupJobs_append, ← h₃, jobsOf_cons,
      jobsOf_nil, List.append_nil]
  · show (sys.puller.onJobEntry e).lastDDLJobID = _
    rw [hlast, h₃, jobsOf_append, lastJobID_append, jobsOf_cons, jobsOf_nil, List.append_nil]

/-- The job puller handling an entry keeps the invariant: it never lowers its `resolvedTs`, and
what it sends is as `handleRawKVEntry_sends` says. -/
theorem WatermarkInv.send (hi : WatermarkInv startTs sys) (b : Bool) (out : Option DDLJobEntry)
    {p : DDLJobPuller σ} (hle : sys.jobPuller.resolvedTs ≤ p.resolvedTs)
    (hout : ∀ o, out = some o → (o.Job = none ∧ (o.OpType = .resolved → o.CRTs ≤ p.resolvedTs)) ∨
      (∃ j, o.Job = some j ∧ o.OpType ≠ .resolved ∧
        sys.jobPuller.resolvedTs < j.BinlogInfo.FinishedTS ∧ startTs < j.BinlogInfo.FinishedTS ∧
        p.resolvedTs = j.BinlogInfo.FinishedTS)) :
    WatermarkInv startTs { sys with
      jobPuller := p, failed := b, outputCh := sys.outputCh ++ out.toList,
      sent := sys.sent ++ out.toList } := by
  have hres : ∀ o ∈ out.toList, o.OpType = .resolved → o.Job = none ∧ o.CRTs ≤ p.resolvedTs := by
    intro o ho hr
    rcases hout o (by simpa using ho) with ⟨h₁, h₂⟩ | ⟨j, -, hne, -⟩
    · exact ⟨h₁, h₂ hr⟩
    · exact absurd hr hne
  have hnew : ∀ j ∈ jobsOf out.toList, sys.jobPuller.resolvedTs < j.BinlogInfo.FinishedTS ∧
      startTs < j.BinlogInfo.FinishedTS ∧ j.BinlogInfo.FinishedTS ≤ p.resolvedTs := by
    intro j hj
    obtain ⟨o, ho, hoj⟩ := List.mem_filterMap.1 hj
    rcases hout o (by simpa using ho) with ⟨h₁, -⟩ | ⟨j', hj', -, h₁, h₂, h₃⟩
    · rw [h₁] at hoj; cases hoj
    · rw [hj'] at hoj; cases hoj; exact ⟨h₁, h₂, h₃.ge⟩
  have hpair : ∀ {α : Type} (R : α → α → Prop) (o : Option α), o.toList.Pairwise R := by
    intro α R o; cases o <;> simp
  have hpairNew : (jobsOf out.toList).Pairwise
      fun j j' => j.BinlogInfo.FinishedTS < j'.BinlogInfo.FinishedTS := by
    cases out with
    | none => exact .nil
    | some o => rw [Option.toList_some, jobsOf_cons, jobsOf_nil, List.append_nil]; exact hpair _ _
  have hmax : max startTs sys.jobPuller.resolvedTs ≤ max startTs p.resolvedTs := by omega
  have hfut : ({ sys with
      jobPuller := p, failed := b, outputCh := sys.outputCh ++ out.toList,
      sent := sys.sent ++ out.toList } : System σ).future = sys.future ++ jobsOf out.toList := by
    simp [future]
  obtain ⟨consumed, h₁, h₂, h₃⟩ := hi.consumed
  refine ⟨?_, ?_, fun o ho hr => ?_, ?_, ⟨hi.resolvedTS.1, hi.resolvedTS.2.trans hmax⟩, ?_,
    fun r hr => ?_, hi.watermark, consumed, by rw [h₁, List.append_assoc], h₂, h₃⟩
  · rw [hfut, ← List.append_assoc]
    exact List.pairwise_append.2 ⟨hi.ordered, hpairNew,
      fun a ha b hb => (hi.jobs a ha).2.trans_lt (hnew b hb).1⟩
  · rw [hfut, ← List.append_assoc]
    intro j hj
    rcases List.mem_append.1 hj with hj | hj
    · exact ⟨(hi.jobs j hj).1, (hi.jobs j hj).2.trans hle⟩
    · exact ⟨(hnew j hj).2.1, (hnew j hj).2.2⟩
  · rcases List.mem_append.1 ho with ho | ho
    · exact ⟨(hi.resolvedEntries o ho hr).1, (hi.resolvedEntries o ho hr).2.trans hle⟩
    · exact hres o ho hr
  · refine List.pairwise_append.2 ⟨hi.channel, hpair _ _, fun a ha o ho hr j hj => ?_⟩
    exact (hi.resolvedEntries a ha hr).2.trans_lt (hnew j (List.mem_filterMap.2 ⟨o, ho, hj⟩)).1
  · intro j hj
    rw [jobsOf_append] at hj
    rcases List.mem_append.1 hj with hj | hj
    · exact hi.below j hj
    · exact hi.resolvedTS.2.trans_lt (max_lt (hnew j hj).2.1 (hnew j hj).1)
  · obtain ⟨hr₁, hr₂, hr₃⟩ := hi.returned r hr
    refine ⟨hr₁, hr₂.trans hmax, fun j hj => ?_⟩
    rw [hfut] at hj
    rcases List.mem_append.1 hj with hj | hj
    · exact hr₃ j hj
    · exact (hr₂.trans_lt (max_lt (hnew j hj).2.1 (hnew j hj).1)).le

/-- **Every step keeps the invariant**, given that the jobs parsed commit after `startTs`. -/
theorem WatermarkInv.step
    (hc : ∀ t e col job, c.ParseDDLJob t e col = .ok (some job) → startTs < job.BinlogInfo.FinishedTS)
    (hi : WatermarkInv startTs sys) {l : Label} (hs : sys.step c l = some sys') :
    WatermarkInv startTs sys' := by
  rcases step_cases hs with ⟨e, p, r, -, -, h, ⟨-, rfl⟩ | ⟨out, rfl, rfl⟩⟩ |
    ⟨e, rest, -, hch, rfl⟩ | ⟨-, rfl⟩ | ⟨-, rfl⟩
  · have h' := hi.send true none (DDLJobPuller.handleRawKVEntry_sends hc h).1
      fun _ h => Option.noConfusion h
    rwa [Option.toList_none, List.append_nil, List.append_nil] at h'
  · exact hi.send _ out (DDLJobPuller.handleRawKVEntry_sends hc h).1
      fun o ho => (DDLJobPuller.handleRawKVEntry_sends hc h).2 o (ho ▸ rfl)
  · exact hi.receive hch
  · rcases hp : sys.puller.pendingDDLJobs with _ | ⟨job, rest⟩
    · have hb := hi.resolvedTs_bound
      simp only [DDLPullerImpl.ResolvedTs, hp] at hb
      simp only [DDLPullerImpl.PopFrontDDL, hp]
      exact hi.report hb.1 hb.2.1 hb.2.2
    · simp only [DDLPullerImpl.PopFrontDDL, hp]
      exact hi.pop hp
  · exact hi.report hi.resolvedTs_bound.1 hi.resolvedTs_bound.2.1 hi.resolvedTs_bound.2.2

theorem watermarkInv_of_reachable
    (hc : ∀ t e col job, c.ParseDDLJob t e col = .ok (some job) → startTs < job.BinlogInfo.FinishedTS)
    (hr : Reachable c startTs sys) : WatermarkInv startTs sys := by
  induction hr with
  | init storage => exact watermarkInv_init storage startTs
  | step _ _ hs ih => exact ih.step hc hs

/-- No step lowers the resolved ts of `ddlPullerImpl`. -/
theorem resolvedTS_le_step {l : Label} (hs : sys.step c l = some sys') :
    sys.puller.resolvedTS ≤ sys'.puller.resolvedTS := by
  rcases step_cases hs with ⟨-, -, -, -, -, -, ⟨-, rfl⟩ | ⟨-, -, rfl⟩⟩ | ⟨e, -, -, -, rfl⟩ | ⟨-, rfl⟩ | ⟨-, rfl⟩
  · exact le_rfl
  · exact le_rfl
  · rcases sys.puller.onJobEntry_resolvedTS e with hr | ⟨-, hlt, hr⟩ <;> rw [hr]
    exact hlt.le
  · exact (DDLPullerImpl.PopFrontDDL_resolvedTS _).ge
  · exact le_rfl

end System

open System

/-- **What the timestamps the DDL puller returns promise.** On every run, given that every job
parsed commits after `startTs`: every timestamp `PopFrontDDL` or `ResolvedTs` returns is at least
`startTs`, and at most the commit of every job `PopFrontDDL` returns after it; the jobs returned
commit in increasing order; the jobs returned, those pending, and those the loop of `Run` will
keep of the channel are the jobs the job puller sent, less each job with the ID of the job
before it (the first compared with ID 0); and no step lowers the resolved ts. -/
theorem returned_ts_bound_later_jobs {σ : Type} {c : Collaborators σ} {startTs : Nat} {sys : System σ}
    (hc : ∀ t e col job, c.ParseDDLJob t e col = .ok (some job) → startTs < job.BinlogInfo.FinishedTS)
    (hr : Reachable c startTs sys) :
    (∀ r ∈ sys.returned, startTs ≤ r.1) ∧
    sys.returned.Pairwise (fun a b => ∀ j, b.2 = some j → a.1 ≤ j.BinlogInfo.FinishedTS) ∧
    (sys.returned.filterMap Prod.snd).Pairwise
      (fun j j' => j.BinlogInfo.FinishedTS < j'.BinlogInfo.FinishedTS) ∧
    sys.returned.filterMap Prod.snd ++ sys.puller.pendingDDLJobs ++
      dedupJobs sys.puller.lastDDLJobID (jobsOf sys.outputCh) = dedupJobs 0 (jobsOf sys.sent) ∧
    ∀ l sys', sys.step c l = some sys' → sys.puller.resolvedTS ≤ sys'.puller.resolvedTS := by
  have hi := watermarkInv_of_reachable hc hr
  obtain ⟨consumed, h₁, h₂, h₃⟩ := hi.consumed
  refine ⟨fun r hr => (hi.returned r hr).1, hi.watermark, List.Pairwise.sublist
    (List.sublist_append_left _ _) hi.ordered, ?_, fun _ _ hs => resolvedTS_le_step hs⟩
  show sys.popped ++ _ ++ _ = _
  rw [h₂, h₁, jobsOf_append, dedupJobs_append, h₃]

/-- Collaborators under which the entry with key "job" and a commit past 5 holds job 1,
committed at the entry's `CRTs`, which the filter keeps and the storage applies. -/
def singleJobUpstream : Collaborators Unit where
  schemaStorage :=
    { GetLastSnapshot := fun _ =>
        { FillSchemaName := fun _ => .ok "db"
          PhysicalTableByID := fun _ => none
          SchemaByID := fun _ => none
          IsIneligibleTableID := fun _ => false }
      HandleDDLJob := fun s _ => .ok s
      AdvanceResolvedTs := fun s _ => s }
  ShouldDiscardDDL := fun _ _ _ => false
  IsSchemaDDL := fun _ => true
  IsLegacyFormatJob := fun _ => true
  initJobTableMeta := .error (.external "")
  ParseDDLJob := fun _ e _ =>
    if e.Key = "job" ∧ 5 < e.CRTs then
      .ok (some {
        ID := 1, «Type» := .other 0, BinlogInfo := { SchemaVersion := 1, FinishedTS := e.CRTs } })
    else .ok none
  SplitQueries := fun _ => .ok []
  GetRenameTablesArgs := fun _ => .ok ⟨[]⟩
  GetNewJobWithArgs := fun job _ => .ok job

theorem singleJobUpstream_commits {t : Option TableInfo} {e : RawKVEntry} {col : Int} {job : Job}
    (h : singleJobUpstream.ParseDDLJob t e col = .ok (some job)) :
    5 < job.BinlogInfo.FinishedTS ∧ job.BinlogInfo.FinishedTS ≤ e.CRTs := by
  simp only [singleJobUpstream] at h
  split at h
  · cases h; exact ⟨‹_ ∧ _›.2, le_rfl⟩
  · cases h

theorem returned_ts_bound_later_jobs_single_job :
    ∃ sys, (newSystem () 5).exec singleJobUpstream
        [.pull ⟨.put, "job", "", 10⟩, .receive, .popFrontDDL, .resolvedTs] = some sys ∧
      ((∀ r ∈ sys.returned, 5 ≤ r.1) ∧
      sys.returned.Pairwise (fun a b => ∀ j, b.2 = some j → a.1 ≤ j.BinlogInfo.FinishedTS) ∧
      (sys.returned.filterMap Prod.snd).Pairwise
        (fun j j' => j.BinlogInfo.FinishedTS < j'.BinlogInfo.FinishedTS) ∧
      sys.returned.filterMap Prod.snd ++ sys.puller.pendingDDLJobs ++
        dedupJobs sys.puller.lastDDLJobID (jobsOf sys.outputCh) = dedupJobs 0 (jobsOf sys.sent) ∧
      ∀ l sys', sys.step singleJobUpstream l = some sys' →
        sys.puller.resolvedTS ≤ sys'.puller.resolvedTS) := by
  obtain ⟨sys, h⟩ : ∃ sys, (newSystem () 5).exec singleJobUpstream
      [.pull ⟨.put, "job", "", 10⟩, .receive, .popFrontDDL, .resolvedTs] = some sys := ⟨_, rfl⟩
  exact ⟨sys, h, returned_ts_bound_later_jobs (fun _ _ _ _ h => (singleJobUpstream_commits h).1)
    ((Reachable.init ()).exec h)⟩

/-- **The timestamps returned can decrease**, with every job parsed committing after `startTs`
and no later than its entry: from `startTs` 5, the job puller sends the job of an entry at 10,
the loop of `Run` queues it, `PopFrontDDL` returns it with 10, and then `ResolvedTs` returns the
resolved ts, still 5. -/
theorem returned_ts_decreases :
    (∀ t e col job, singleJobUpstream.ParseDDLJob t e col = .ok (some job) →
      5 < job.BinlogInfo.FinishedTS ∧ job.BinlogInfo.FinishedTS ≤ e.CRTs) ∧
    ∃ sys, (newSystem () 5).exec singleJobUpstream
        [.pull ⟨.put, "job", "", 10⟩, .receive, .popFrontDDL, .resolvedTs] = some sys ∧
      sys.returned.map Prod.fst = [10, 5] :=
  ⟨fun _ _ _ _ h => singleJobUpstream_commits h, _, rfl, rfl⟩

end Tiflow.Puller
