import ContractAudit.Audit.Concurrent

/-!
# Every schedule gives the same report

Whatever the order in which the tasks of an audit start and finish, the report is the one of the audit that
takes the stages one after the other. The invariant says of every state what its parts hold: each finished
extraction has the model of its unit, and everything behind the barrier is the analysis of the whole batch.
No schedule gets stuck and none goes on for ever, so every schedule ends with that report.
-/

namespace ContractAudit.Audit.Progress

/-! ## Extractions -/

/-- Of each unit of the batch there is one task, a finished one has the model of its unit, and a permit is
free or held by a task that is running. -/
structure Extracts (units : List SourceUnit) (workers : Nat) (tasks : List ExtractionTask)
    (permits : Nat) : Prop where
  units : tasks.map (·.1) = units
  results : ∀ unit r, (unit, Task.finished r) ∈ tasks → r = unit.contracts
  permits : permits + tasks.countP (·.2.isRunning) = workers

namespace Extracts

variable {units : List SourceUnit} {workers permits : Nat} {before after : List ExtractionTask}
  {unit : SourceUnit}

theorem start (h : Extracts units workers (before ++ (unit, .waiting) :: after) (permits + 1)) :
    Extracts units workers (before ++ (unit, .running) :: after) permits where
  units := by simpa using h.units
  results := by
    intro unit' r hr
    refine h.results unit' r ?_
    simpa using hr
  permits := by
    have hp := h.permits
    simp only [List.countP_append, List.countP_cons, Task.isRunning, Bool.false_eq_true,
      ↓reduceIte] at hp ⊢
    omega

theorem finish (h : Extracts units workers (before ++ (unit, .running) :: after) permits) :
    Extracts units workers (before ++ (unit, .finished unit.contracts) :: after) (permits + 1) where
  units := by simpa using h.units
  results := by
    intro unit' r hr
    rcases List.mem_append.mp hr with hr | hr
    · exact h.results unit' r (List.mem_append_left _ hr)
    · rcases List.mem_cons.mp hr with hr | hr
      · cases hr
        rfl
      · exact h.results unit' r (List.mem_append_right _ (List.mem_cons_of_mem _ hr))
  permits := by
    have hp := h.permits
    simp only [List.countP_append, List.countP_cons, Task.isRunning, Bool.false_eq_true,
      ↓reduceIte] at hp ⊢
    omega

/-- The results stand in the order of the batch. -/
theorem merge_eq {results : List (SourceUnit × Except ParseError (List Contract))}
    (h : Extracts units workers (results.map fun (unit, r) => (unit, .finished r)) permits) :
    Extraction.merge results = .ofUnits units := by
  have hresults : results.map (fun x => (x.1, x.1.contracts)) = results := by
    refine (List.map_congr_left (g := id) fun (unit, r) hx => ?_).trans (List.map_id results)
    have hr := h.results unit r (List.mem_map_of_mem hx)
    rw [← hr]
    rfl
  have hunits : results.map (·.1) = units := by
    rw [← h.units, List.map_map]
    rfl
  rw [Extraction.ofUnits, ← hunits, List.map_map]
  exact congrArg _ hresults.symm

end Extracts

/-! ## States -/

/-- What a state of the audit holds. -/
structure Consistent (s : Settings) (applyFilter : Bool) (batch : Except BatchError (List SourceUnit))
    (extra : List Finding) (units : List SourceUnit) (total : Nat) (p : Progress) : Prop where
  extracts : Extracts units s.extractionWorkers.toNat p.extractions p.permits
  barrier : p.isPastBarrier = true → ∀ x ∈ p.extractions, x.2.isFinished = true
  unresolved : p.resolution = none →
    p.diagnostics = Intake.capDiagnostics s units total ∧ p.stateFlow = .waiting ∧ p.detection = .waiting
  resolved : ∀ e g, p.resolution = some (e, g) →
    e = (analyze s units).extraction ∧ g = (analyze s units).graph ∧
    p.diagnostics = Intake.capDiagnostics s units total ++ e.warnings.map Warning.toDiagnostic ++
      g.unresolved.map unresolvedDiagnostic
  stateFlow : ∀ f, p.stateFlow = .finished f → f = (analyze s units).stateFlow
  detection : ∀ d, p.detection = .finished d → d = (analyze s units).detection
  accepted : p.report = none → Intake.ofBatch s batch = .accepted units total
  report : ∀ r, p.report = some r → r = Audit.report s applyFilter batch extra

variable {s : Settings} {applyFilter : Bool} {batch : Except BatchError (List SourceUnit)}
  {extra : List Finding} {units : List SourceUnit} {total : Nat} {p q : Progress}

theorem extracts_ofUnits (units : List SourceUnit) (workers : Nat) :
    Extracts units workers (units.map fun unit => (unit, .waiting)) workers where
  units := by simp [Function.comp_def]
  results := by simp
  permits := by simp [List.countP_map, Function.comp_def, Task.isRunning]

/-- An audit that has its report before it looks at a unit. -/
theorem consistent_of_report {r : Except ScoreError Report}
    (h : r = Audit.report s applyFilter batch extra) :
    Consistent s applyFilter batch extra [] 0
      { ofUnits [] s.extractionWorkers.toNat [] with report := some r } where
  extracts := extracts_ofUnits [] _
  barrier := by simp [ofUnits]
  unresolved := by simp [ofUnits, Intake.capDiagnostics]
  resolved := by simp [ofUnits]
  stateFlow := by simp [ofUnits]
  detection := by simp [ofUnits]
  accepted := by simp
  report := by simp [h]

theorem exists_consistent_start (s : Settings) (applyFilter : Bool)
    (batch : Except BatchError (List SourceUnit)) (extra : List Finding) :
    ∃ units total, Consistent s applyFilter batch extra units total (start s applyFilter batch) := by
  cases hi : Intake.ofBatch s batch with
  | invalid e =>
    refine ⟨[], 0, ?_⟩
    simp only [start, hi]
    exact consistent_of_report (by simp only [Audit.report, hi])
  | empty =>
    refine ⟨[], 0, ?_⟩
    simp only [start, hi]
    exact consistent_of_report (by simp only [Audit.report, hi])
  | accepted units total =>
    refine ⟨units, total, ?_⟩
    simp only [start, hi]
    exact {
      extracts := extracts_ofUnits units _
      barrier := by simp [ofUnits, isPastBarrier, Task.hasStarted]
      unresolved := by simp [ofUnits]
      resolved := by simp [ofUnits]
      stateFlow := by simp [ofUnits]
      detection := by simp [ofUnits]
      accepted := fun _ => hi
      report := by simp [ofUnits] }

namespace Consistent

variable (h : Consistent s applyFilter batch extra units total p)
include h

theorem units_eq : p.units = units := h.extracts.units

/-- Where the dependencies are resolved, every extraction has finished. -/
theorem finished_of_isSome (hr : p.resolution.isSome = true) :
    ∀ x ∈ p.extractions, x.2.isFinished = true :=
  h.barrier (by simp [isPastBarrier, hr])

/-- While an extraction has not finished, nothing behind the barrier has started. -/
theorem not_isPastBarrier {x : ExtractionTask} (hx : x ∈ p.extractions) (hf : x.2.isFinished = false) :
    p.isPastBarrier = false := by
  rw [Bool.eq_false_iff]
  intro hb
  rw [h.barrier hb x hx] at hf
  cases hf

/-- An extraction that starts or finishes leaves the other stages as they are. -/
theorem setExtractions {x : ExtractionTask} (hx : x ∈ p.extractions) (hf : x.2.isFinished = false)
    {tasks : List ExtractionTask} {permits : Nat}
    (ht : Extracts units s.extractionWorkers.toNat tasks permits) :
    Consistent s applyFilter batch extra units total
      { p with extractions := tasks, permits := permits } where
  extracts := ht
  barrier := by
    intro hb
    have hb : p.isPastBarrier = true := hb
    rw [h.not_isPastBarrier hx hf] at hb
    cases hb
  unresolved := h.unresolved
  resolved := h.resolved
  stateFlow := h.stateFlow
  detection := h.detection
  accepted := h.accepted
  report := h.report

theorem setStateFlow {task : Task StateFlow} (hr : p.resolution.isSome = true)
    (ht : ∀ f, task = .finished f → f = (analyze s units).stateFlow) :
    Consistent s applyFilter batch extra units total { p with stateFlow := task } where
  extracts := h.extracts
  barrier _ := h.finished_of_isSome hr
  unresolved hn := by
    have hn : p.resolution = none := hn
    rw [hn] at hr
    cases hr
  resolved := h.resolved
  stateFlow := ht
  detection := h.detection
  accepted := h.accepted
  report := h.report

theorem setDetection {task : Task Detection} (hr : p.resolution.isSome = true)
    (ht : ∀ d, task = .finished d → d = (analyze s units).detection) :
    Consistent s applyFilter batch extra units total { p with detection := task } where
  extracts := h.extracts
  barrier _ := h.finished_of_isSome hr
  unresolved hn := by
    have hn : p.resolution = none := hn
    rw [hn] at hr
    cases hr
  resolved := h.resolved
  stateFlow := h.stateFlow
  detection := ht
  accepted := h.accepted
  report := h.report

/-- The report made of what the stages hold is the report of the audit. -/
theorem report_eq {e : Extraction} {g : DependencyGraph} {f : StateFlow} {d : Detection}
    (hr : p.resolution = some (e, g)) (hf : p.stateFlow = .finished f) (hd : p.detection = .finished d)
    (hn : p.report = none) :
    (ReportPolicy.ofSettings s applyFilter).report (f.findings ++ d.findings ++ extra)
        (p.diagnostics ++ f.diagnostics ++ d.diagnostics) (Analysis.mk p.units e g f d).metadata =
      Audit.report s applyFilter batch extra := by
  obtain ⟨he, hg, hdiag⟩ := h.resolved e g hr
  have hanalysis : Analysis.mk p.units e g f d = analyze s units := by
    rw [h.units_eq, he, hg, h.stateFlow f hf, h.detection d hd]
    rfl
  simp only [Audit.report, h.accepted hn, ← hanalysis, hdiag, Analysis.findings, Analysis.diagnostics,
    List.append_assoc]

end Consistent

/-- What one step keeps. -/
theorem Step.consistent (hs : Step s applyFilter extra p q)
    (h : Consistent s applyFilter batch extra units total p) :
    Consistent s applyFilter batch extra units total q := by
  cases hs with
  | startExtraction before after unit permits task free =>
    have hx := h.extracts
    rw [task, free] at hx
    exact h.setExtractions (x := (unit, .waiting)) (by simp [task]) rfl hx.start
  | finishExtraction before after unit task =>
    have hx := h.extracts
    rw [task] at hx
    exact h.setExtractions (x := (unit, .running)) (by simp [task]) rfl hx.finish
  | resolve results all resolution report =>
    have hx := h.extracts
    rw [all] at hx
    have hmerge := hx.merge_eq
    obtain ⟨hdiag, hflow, hdet⟩ := h.unresolved resolution
    exact {
      extracts := h.extracts
      barrier := by
        intro _ x hmem
        have hmem : x ∈ p.extractions := hmem
        rw [all] at hmem
        obtain ⟨y, -, rfl⟩ := List.mem_map.mp hmem
        rfl
      unresolved := by simp
      resolved := by
        intro e g heq
        simp only [Option.some.injEq, Prod.mk.injEq] at heq
        obtain ⟨rfl, rfl⟩ := heq
        rw [hmerge, hdiag]
        exact ⟨rfl, rfl, rfl⟩
      stateFlow := h.stateFlow
      detection := h.detection
      accepted := h.accepted
      report := h.report }
  | startStateFlow resolution task => exact h.setStateFlow resolution (by simp)
  | finishStateFlow e g resolution task =>
    obtain ⟨he, hg, -⟩ := h.resolved e g resolution
    refine h.setStateFlow (by simp [resolution]) fun f hf => ?_
    cases hf
    rw [he, hg]
    rfl
  | startDetection resolution task => exact h.setDetection resolution (by simp)
  | finishDetection e g resolution task =>
    obtain ⟨he, -, -⟩ := h.resolved e g resolution
    refine h.setDetection (by simp [resolution]) fun d hd => ?_
    cases hd
    rw [he]
    rfl
  | makeReport e g f d resolution stateFlow detection report =>
    exact {
      extracts := h.extracts
      barrier := fun _ => h.finished_of_isSome (by simp [resolution])
      unresolved := h.unresolved
      resolved := h.resolved
      stateFlow := h.stateFlow
      detection := h.detection
      accepted := by simp
      report := by
        intro r hr
        cases hr
        exact h.report_eq resolution stateFlow detection report }

/-! ## Progress -/

/-- How many steps a task still takes. -/
def remainingOf {α : Type} : Task α → Nat
  | .waiting => 2
  | .running => 1
  | .finished _ => 0

def remainingIn : List ExtractionTask → Nat
  | [] => 0
  | x :: tasks => remainingOf x.2 + remainingIn tasks

/-- How many steps are still to be taken. -/
def remaining (p : Progress) : Nat :=
  remainingIn p.extractions + (if p.resolution.isSome then 0 else 1) + remainingOf p.stateFlow +
    remainingOf p.detection + (if p.report.isSome then 0 else 1)

theorem remainingIn_append (tasks tasks' : List ExtractionTask) :
    remainingIn (tasks ++ tasks') = remainingIn tasks + remainingIn tasks' := by
  induction tasks with
  | nil => simp [remainingIn]
  | cons x tasks ih => simp only [List.cons_append, remainingIn, ih]; omega

/-- Each step is one step less to take. -/
theorem Step.remaining_eq (hs : Step s applyFilter extra p q) : p.remaining = q.remaining + 1 := by
  cases hs with
  | startExtraction before after unit permits task free =>
    simp only [remaining, task, remainingIn_append, remainingIn, remainingOf]
    omega
  | finishExtraction before after unit task =>
    simp only [remaining, task, remainingIn_append, remainingIn, remainingOf]
    omega
  | resolve results all resolution report =>
    simp only [remaining, resolution, Option.isSome_none, Option.isSome_some, Bool.false_eq_true,
      ↓reduceIte]
    omega
  | startStateFlow resolution task =>
    simp only [remaining, task, remainingOf]
    omega
  | finishStateFlow e g resolution task =>
    simp only [remaining, task, remainingOf]
    omega
  | startDetection resolution task =>
    simp only [remaining, task, remainingOf]
    omega
  | finishDetection e g resolution task =>
    simp only [remaining, task, remainingOf]
    omega
  | makeReport e g f d resolution stateFlow detection report =>
    simp only [remaining, report, Option.isSome_none, Option.isSome_some, Bool.false_eq_true, ↓reduceIte]

/-- A task that does not wait and does not run has finished. -/
theorem exists_results {tasks : List ExtractionTask}
    (h : ∀ x ∈ tasks, x.2.isFinished = true) :
    ∃ results : List (SourceUnit × Except ParseError (List Contract)),
      tasks = results.map fun (unit, result) => (unit, .finished result) := by
  induction tasks with
  | nil => exact ⟨[], rfl⟩
  | cons x tasks ih =>
    obtain ⟨hx, htasks⟩ := List.forall_mem_cons.mp h
    obtain ⟨results, rfl⟩ := ih htasks
    obtain ⟨unit, task⟩ := x
    cases task with
    | waiting => cases hx
    | running => cases hx
    | finished result => exact ⟨(unit, result) :: results, rfl⟩

namespace Consistent

variable (h : Consistent s applyFilter batch extra units total p)
include h

/-- With a worker at least, an extraction that has not finished can go on or leaves a permit free. -/
theorem exists_extraction_step (hw : 1 ≤ s.extractionWorkers) {x : ExtractionTask}
    (hx : x ∈ p.extractions) (hf : x.2.isFinished = false) : ∃ q, Step s applyFilter extra p q := by
  by_cases hrun : ∃ y ∈ p.extractions, y.2.isRunning = true
  · obtain ⟨⟨unit, task⟩, hy, hrun⟩ := hrun
    cases task with
    | waiting => cases hrun
    | finished r => cases hrun
    | running =>
      obtain ⟨before, after, htask⟩ := List.append_of_mem hy
      exact ⟨_, .finishExtraction p before after unit htask⟩
  · obtain ⟨unit, task⟩ := x
    cases task with
    | finished r => cases hf
    | running => exact absurd ⟨_, hx, rfl⟩ hrun
    | waiting =>
      obtain ⟨before, after, htask⟩ := List.append_of_mem hx
      have hidle : p.extractions.countP (·.2.isRunning) = 0 := by
        rw [List.countP_eq_zero]
        exact fun y hy hr => hrun ⟨y, hy, hr⟩
      have hfree := h.extracts.permits
      obtain ⟨permits, hpermits⟩ := Nat.exists_eq_add_of_le' (show 1 ≤ p.permits by omega)
      exact ⟨_, .startExtraction p before after unit permits htask hpermits⟩

/-- Without a report there is a step to take. -/
theorem exists_step (hw : 1 ≤ s.extractionWorkers) (hn : p.report = none) :
    ∃ q, Step s applyFilter extra p q := by
  by_cases hopen : ∃ x ∈ p.extractions, x.2.isFinished = false
  · obtain ⟨x, hx, hf⟩ := hopen
    exact h.exists_extraction_step hw hx hf
  have hall : ∀ x ∈ p.extractions, x.2.isFinished = true := by
    intro x hx
    rw [← Bool.not_eq_false]
    exact fun hf => hopen ⟨x, hx, hf⟩
  cases hr : p.resolution with
  | none =>
    obtain ⟨results, hresults⟩ := exists_results hall
    exact ⟨_, .resolve p results hresults hr hn⟩
  | some resolution =>
    obtain ⟨e, g⟩ := resolution
    have hsome : p.resolution.isSome = true := by rw [hr]; rfl
    cases hf : p.stateFlow with
    | waiting => exact ⟨_, .startStateFlow p hsome hf⟩
    | running => exact ⟨_, .finishStateFlow p e g hr hf⟩
    | finished f =>
      cases hd : p.detection with
      | waiting => exact ⟨_, .startDetection p hsome hd⟩
      | running => exact ⟨_, .finishDetection p e g hr hd⟩
      | finished d => exact ⟨_, .makeReport p e g f d hr hf hd hn⟩

end Consistent

/-! ## Runs -/

variable {n : Nat}

/-- What a run keeps. -/
theorem Run.consistent (hr : Run s applyFilter extra p n q)
    (h : Consistent s applyFilter batch extra units total p) :
    Consistent s applyFilter batch extra units total q := by
  induction hr with
  | refl => exact h
  | step head _ ih => exact ih (head.consistent h)

theorem Run.remaining_eq (hr : Run s applyFilter extra p n q) : p.remaining = q.remaining + n := by
  induction hr with
  | refl => rfl
  | step head _ ih =>
    have := head.remaining_eq
    omega

/-- From every state some schedule leads to the report. -/
theorem Consistent.exists_run (hw : 1 ≤ s.extractionWorkers)
    (h : Consistent s applyFilter batch extra units total p) :
    ∃ n q, Run s applyFilter extra p n q ∧ q.report = some (Audit.report s applyFilter batch extra) := by
  induction hm : p.remaining generalizing p with
  | zero =>
    cases hreport : p.report with
    | none => simp [remaining, hreport] at hm
    | some r => exact ⟨0, p, .refl p, by rw [hreport, h.report r hreport]⟩
  | succ m ih =>
    cases hreport : p.report with
    | none =>
      obtain ⟨q, hq⟩ := h.exists_step hw hreport
      have hqm : q.remaining = m := by have := hq.remaining_eq; omega
      obtain ⟨n, r, hr, hrep⟩ := ih (hq.consistent h) hqm
      exact ⟨n + 1, r, .step hq hr, hrep⟩
    | some r => exact ⟨0, p, .refl p, by rw [hreport, h.report r hreport]⟩

/-- What holds wherever the schedule of an audit has come to. -/
structure Agrees (s : Settings) (applyFilter : Bool) (batch : Except BatchError (List SourceUnit))
    (extra : List Finding) (p : Progress) : Prop where
  inFlight : (p.inFlight : Int) ≤ s.extractionWorkers
  barrier : p.isPastBarrier = true → ∀ x ∈ p.extractions, x.2.isFinished = true
  report : ∀ r, p.report = some r → r = Audit.report s applyFilter batch extra
  /-- A schedule that has come to its end has the report. -/
  complete : (∀ q, ¬ Step s applyFilter extra p q) →
    p.report = some (Audit.report s applyFilter batch extra)
  /-- Any other can go on to the report. -/
  completes : ∃ n q, Run s applyFilter extra p n q ∧
    q.report = some (Audit.report s applyFilter batch extra)

/-- With a worker at least, every schedule of an audit ends, and with the report of the audit. -/
theorem run_agrees (hw : 1 ≤ s.extractionWorkers)
    (hr : Run s applyFilter extra (start s applyFilter batch) n p) :
    Agrees s applyFilter batch extra p ∧ n + p.remaining = (start s applyFilter batch).remaining := by
  obtain ⟨units, total, hstart⟩ := exists_consistent_start s applyFilter batch extra
  have h := hr.consistent hstart
  refine ⟨{ inFlight := ?_, barrier := h.barrier, report := h.report, complete := ?_,
            completes := h.exists_run hw }, ?_⟩
  · have hpermits := h.extracts.permits
    rw [inFlight]
    omega
  · intro hstuck
    cases hreport : p.report with
    | none =>
      obtain ⟨q, hq⟩ := h.exists_step hw hreport
      exact absurd hq (hstuck q)
    | some r => rw [h.report r hreport]
  · rw [hr.remaining_eq, Nat.add_comm]

def vaultUnit : SourceUnit := ⟨"Vault.sol", "", "contract Vault \x7b Token token; \x7d"⟩

def tokenUnit : SourceUnit := ⟨"Token.sol", "", "contract Token \x7b \x7d"⟩

/-- One worker that takes the second unit first, and detectors that start and finish before the flows: the
schedule has the report in ten steps. -/
theorem run_agrees_oneWorker :
    ∃ p, Run { extractionWorkers := 1 } true []
        (start { extractionWorkers := 1 } true (.ok [vaultUnit, tokenUnit])) 10 p ∧
      p.report.isSome = true ∧
      Agrees { extractionWorkers := 1 } true (.ok [vaultUnit, tokenUnit]) [] p ∧
      10 + p.remaining =
        (start { extractionWorkers := 1 } true (.ok [vaultUnit, tokenUnit])).remaining := by
  have hstart : start { extractionWorkers := 1 } true (.ok [vaultUnit, tokenUnit]) =
      ofUnits [vaultUnit, tokenUnit] 1 [] := rfl
  have hrun : ∃ p, Run { extractionWorkers := 1 } true [] (ofUnits [vaultUnit, tokenUnit] 1 []) 10 p ∧
      p.report.isSome = true :=
    ⟨_, .step (.startExtraction _ [(vaultUnit, .waiting)] [] tokenUnit 0 rfl rfl) <|
      .step (.finishExtraction _ [(vaultUnit, .waiting)] [] tokenUnit rfl) <|
      .step (.startExtraction _ [] [(tokenUnit, .finished tokenUnit.contracts)] vaultUnit 0 rfl rfl) <|
      .step (.finishExtraction _ [] [(tokenUnit, .finished tokenUnit.contracts)] vaultUnit rfl) <|
      .step (.resolve _ [(vaultUnit, vaultUnit.contracts), (tokenUnit, tokenUnit.contracts)] rfl rfl rfl) <|
      .step (.startDetection _ rfl rfl) <| .step (.startStateFlow _ rfl rfl) <|
      .step (.finishDetection _ _ _ rfl rfl) <| .step (.finishStateFlow _ _ _ rfl rfl) <|
      .step (.makeReport _ _ _ _ _ rfl rfl rfl rfl) <| .refl _, rfl⟩
  obtain ⟨p, hp, hreport⟩ := hrun
  rw [← hstart] at hp
  obtain ⟨hagrees, hsteps⟩ := run_agrees (by decide) hp
  exact ⟨p, hp, hreport, hagrees, hsteps⟩

end ContractAudit.Audit.Progress
