import Tiflow.Puller.JobPuller

/-!
# The job puller applies and sends jobs in commit order

* `CallsOrdered` — every job handed to the schema storage has a schema version, and commits
  after every timestamp handed to the storage before it;
* `Bounded` — `resolvedTs` is at least every timestamp handed to the storage;
* `handleRawKVEntry_ordered` — one entry keeps both, the second unless it fails, and a job it
  sends is one it handed to the storage;
* `processEntries_ordered`, `applied_jobs_in_commit_order` — the same over `Run`'s loop, up to
  and including the entry that fails.
-/

namespace Tiflow.Puller

/-- The job a call hands to the storage, if any. -/
def StorageCall.job? : StorageCall → Option Job
  | .handleDDLJob job => some job
  | .advanceResolvedTs _ => none

/-- **The calls on the storage are in commit order**: every job handed to it has a schema
version, and commits after every timestamp handed to it before. -/
def CallsOrdered (calls : List StorageCall) : Prop :=
  calls.Pairwise (fun a b => ∀ job, b = .handleDDLJob job → a.ts < job.BinlogInfo.FinishedTS) ∧
  ∀ job, .handleDDLJob job ∈ calls → job.BinlogInfo.SchemaVersion ≠ 0

/-- `resolvedTs` is at least every timestamp handed to the storage. -/
def Bounded {σ : Type} (p : DDLJobPuller σ) : Prop := ∀ a ∈ p.calls, a.ts ≤ p.resolvedTs

theorem callsOrdered_nil : CallsOrdered [] := ⟨.nil, by simp⟩

theorem CallsOrdered.advance {calls : List StorageCall} (h : CallsOrdered calls) (ts : Nat) :
    CallsOrdered (calls ++ [.advanceResolvedTs ts]) :=
  ⟨List.pairwise_append.2 ⟨h.1, List.pairwise_singleton _ _, by simp⟩, by simpa using h.2⟩

theorem CallsOrdered.apply {calls : List StorageCall} {job : Job} (h : CallsOrdered calls)
    (hlt : ∀ a ∈ calls, a.ts < job.BinlogInfo.FinishedTS) (hv : job.BinlogInfo.SchemaVersion ≠ 0) :
    CallsOrdered (calls ++ [.handleDDLJob job]) := by
  refine ⟨List.pairwise_append.2 ⟨h.1, List.pairwise_singleton _ _, ?_⟩, ?_⟩
  · simp only [List.mem_singleton]
    rintro a ha b rfl j hj
    cases hj
    exact hlt a ha
  · simp only [List.mem_append, List.mem_singleton, StorageCall.handleDDLJob.injEq]
    rintro j (hj | rfl)
    · exact h.2 j hj
    · exact hv

/-- The jobs handed to an ordered storage commit in increasing order. -/
theorem CallsOrdered.applied {calls : List StorageCall} (h : CallsOrdered calls) :
    (calls.filterMap StorageCall.job?).Pairwise
      (fun j j' => j.BinlogInfo.FinishedTS < j'.BinlogInfo.FinishedTS) := by
  refine List.Pairwise.filterMap _ (fun a b hab j hj j' hj' => ?_) h.1
  cases a <;> cases b <;> cases hj <;> cases hj'
  exact hab _ rfl

namespace DDLJobPuller

variable {σ : Type} {c : Collaborators σ} {p p' : DDLJobPuller σ}

/-- The resolved branch of `handleRawKVEntry` keeps the order and the bound, and hands no job
to the storage. -/
theorem resolvedBranch_ordered (ho : CallsOrdered p.calls) (hb : Bounded p) (e : RawKVEntry) :
    let p₀ := if e.OpType = .resolved then p.onResolved c e.CRTs else p
    CallsOrdered p₀.calls ∧ Bounded p₀ ∧ p.resolvedTs ≤ p₀.resolvedTs ∧
      ∃ pre, p₀.calls = p.calls ++ pre ∧ pre.filterMap StorageCall.job? = [] := by
  intro p₀
  by_cases he : e.OpType = .resolved
  · have hr := onResolved_resolvedTs (c := c) (p := p) e.CRTs
    have hc := onResolved_calls (c := c) (p := p) e.CRTs
    simp only [p₀, if_pos he]
    refine ⟨hc ▸ ho.advance _, fun a ha => ?_, by omega, _, hc, rfl⟩
    rw [hc, List.mem_append, List.mem_singleton] at ha
    rcases ha with ha | rfl
    · have := hb a ha; omega
    · simp only [StorageCall.ts]; omega
  · simp only [p₀, if_neg he]
    exact ⟨ho, hb, le_rfl, [], by simp, rfl⟩

/-- **One entry keeps the calls in commit order and never lowers `resolvedTs`**; unless it
fails, it keeps the bound, and the job it sends, if any, is the one it handed to the
storage. -/
theorem handleRawKVEntry_ordered {e : RawKVEntry} {r : Except DDLError (Option DDLJobEntry)}
    (ho : CallsOrdered p.calls) (hb : Bounded p) (h : p.handleRawKVEntry c e = (p', r)) :
    CallsOrdered p'.calls ∧ p.resolvedTs ≤ p'.resolvedTs ∧ ∃ new, p'.calls = p.calls ++ new ∧
      ∀ out, r = .ok out → Bounded p' ∧
        (out.bind DDLJobEntry.Job).toList.Sublist (new.filterMap StorageCall.job?) := by
  obtain ⟨ho₀, hb₀, hle₀, pre, hpre, hpre'⟩ := resolvedBranch_ordered (c := c) ho hb e
  generalize hq : (if e.OpType = .resolved then p.onResolved c e.CRTs else p) = p₀ at ho₀ hb₀ hle₀ hpre
  rcases handleRawKVEntry_spec hq.symm h with ⟨hr, hc, hout⟩ | ⟨job, j, -, -, hk, hlt, hv, hc, hres⟩
  · refine ⟨hc ▸ ho₀, hr ▸ hle₀, pre, hc.trans hpre, fun out hr' => ⟨?_, ?_⟩⟩
    · intro a ha; rw [hc] at ha; rw [hr]; exact hb₀ a ha
    · rcases hout out hr' with rfl | rfl <;> simp
  · have hlt' : ∀ a ∈ p₀.calls, a.ts < j.BinlogInfo.FinishedTS := fun a ha =>
      hk.finishedTS ▸ lt_of_le_of_lt (hb₀ a ha) hlt
    refine ⟨hc ▸ ho₀.apply hlt' (hk.schemaVersion ▸ hv), ?_, pre ++ [.handleDDLJob j],
      by rw [hc, hpre, List.append_assoc], fun out hr' => ?_⟩
    · rcases hres with ⟨hr, -⟩ | ⟨hr, -⟩ <;> omega
    rcases hres with ⟨-, _, he⟩ | ⟨hr, hout⟩
    · rw [he] at hr'; cases hr'
    refine ⟨fun a ha => ?_, ?_⟩
    · rw [hc, List.mem_append, List.mem_singleton] at ha
      rcases ha with ha | rfl
      · have := hlt' a ha; rw [hr, ← hk.finishedTS]; omega
      · rw [hr, ← hk.finishedTS]; rfl
    · rw [List.filterMap_append, hpre']
      rcases hout out hr' with rfl | rfl <;> simp [StorageCall.job?]

/-- `Run`'s loop continues from where it stopped. -/
theorem processEntries_append (es es' : List RawKVEntry) :
    p.processEntries c (es ++ es') =
      match p.processEntries c es with
      | (p₁, out, none) => let r := p₁.processEntries c es'; (r.1, out ++ r.2.1, r.2.2)
      | r => r := by
  induction es generalizing p with
  | nil => rfl
  | cons e es ih =>
    rw [List.cons_append, processEntries.eq_2, processEntries.eq_2]
    split
    · rfl
    · rw [ih]
      obtain ⟨p₁, out₁, _ | err⟩ := processEntries c _ es <;> simp

/-- **`Run`'s loop keeps the calls in commit order and never lowers `resolvedTs`**, and the
jobs it sends are among those it handed to the storage, in the same order. -/
theorem processEntries_ordered (ho : CallsOrdered p.calls) (hb : Bounded p) (es : List RawKVEntry) :
    let r := p.processEntries c es
    CallsOrdered r.1.calls ∧ p.resolvedTs ≤ r.1.resolvedTs ∧ (r.2.2 = none → Bounded r.1) ∧
      ∃ new, r.1.calls = p.calls ++ new ∧
        (r.2.1.filterMap DDLJobEntry.Job).Sublist (new.filterMap StorageCall.job?) := by
  induction es generalizing p with
  | nil => exact ⟨ho, le_rfl, fun _ => hb, [], by simp [processEntries], by simp [processEntries]⟩
  | cons e es ih =>
    rw [processEntries.eq_2]
    rcases h₁ : p.handleRawKVEntry c e with ⟨p₁, _ | out⟩
    all_goals obtain ⟨ho₁, hle₁, new₁, hc₁, hok⟩ := handleRawKVEntry_ordered ho hb h₁
    · exact ⟨ho₁, hle₁, nofun, new₁, hc₁, by simp⟩
    ·
      obtain ⟨hb₁, hsub₁⟩ := hok out rfl
      obtain ⟨ho₂, hle₂, hb₂, new₂, hc₂, hsub₂⟩ := ih ho₁ hb₁
      refine ⟨ho₂, hle₁.trans hle₂, hb₂, new₁ ++ new₂, by rw [hc₂, hc₁, List.append_assoc], ?_⟩
      rw [List.filterMap_append, List.filterMap_append]
      exact List.Sublist.append (by cases out <;> exact hsub₁) hsub₂

end DDLJobPuller

open DDLJobPuller

/-- **The job puller hands jobs to the storage, and sends them, in commit order.** Over any
entries the sorter outputs and up to the first error: `resolvedTs` never decreases; every job
handed to the schema storage, the one of a failing entry included, has a schema version and
commits after every timestamp handed to the storage before it (the resolved entries' and the
jobs'); and the jobs sent on the output channel commit in increasing order. -/
theorem applied_jobs_in_commit_order {σ : Type} (c : Collaborators σ) (s : σ)
    (es es' : List RawKVEntry) :
    let r := (newDDLJobPuller s).processEntries c es
    let r' := (newDDLJobPuller s).processEntries c (es ++ es')
    r.1.resolvedTs ≤ r'.1.resolvedTs ∧
    r'.1.calls.Pairwise (fun a b => ∀ job, b = .handleDDLJob job → a.ts < job.BinlogInfo.FinishedTS) ∧
    (∀ job, .handleDDLJob job ∈ r'.1.calls → job.BinlogInfo.SchemaVersion ≠ 0) ∧
    (r'.2.1.filterMap DDLJobEntry.Job).Pairwise
      (fun j j' => j.BinlogInfo.FinishedTS < j'.BinlogInfo.FinishedTS) := by
  have hb₀ : Bounded (newDDLJobPuller s) := by simp [Bounded, newDDLJobPuller]
  obtain ⟨ho, -, -, new, hc, hsub⟩ := processEntries_ordered (c := c) callsOrdered_nil hb₀ (es ++ es')
  refine ⟨?_, ho.1, ho.2, List.Pairwise.sublist hsub ?_⟩
  · rw [processEntries_append]
    obtain ⟨ho₁, -, hb₁, -⟩ := processEntries_ordered (c := c) callsOrdered_nil hb₀ es
    rcases h : (newDDLJobPuller s).processEntries c es with ⟨p₁, out, _ | err⟩
    · rw [h] at ho₁ hb₁
      exact (processEntries_ordered ho₁ (hb₁ rfl) es').2.1
    · exact le_rfl
  · have := ho.applied
    rw [hc] at this
    simpa [newDDLJobPuller] using this

end Tiflow.Puller
