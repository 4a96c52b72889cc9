import RootTrace.Proofs.Batch.Interleaving
import RootTrace.Proofs.Path.Chain
import RootTrace.Solver

/-!
# Reports on seeds

What a batch reports on a seed is a function of that seed: the seeds beside it, their
order and the order in which they are worked on play no part. A report agrees with
itself and with what following the path from its seed alone comes to. Only constants
that are turned down fail a whole batch.
-/

namespace RootTrace

universe u v

theorem Run.outcome_mapM
    {α : Type u} {β : Type*} {γ : Type v}
    {run : β → Run α γ}
    {value : β → γ}
    (succeeds : ∀ item, (run item).outcome = .ok (value item))
    (items : List β) :
    (items.mapM run).outcome = .ok (items.map value) := by
  induction items with
  | nil => rfl
  | cons item items inductionHypothesis =>
      rw [List.mapM_cons, outcome_bind, succeeds]
      change (items.mapM run >>= fun rest => pure (value item :: rest)).outcome = _
      rw [outcome_bind, inductionHypothesis]
      rfl

namespace Report

/-- Report on what following the path from a seed has come to. -/
def ofOutcome {n : Nat} (name : String) :
    Except (Failure Float) (Track Float n) → Report
  | .ok track => ofTrack name track
  | .error failure => ofFailure name failure

/-- Report on work that has come to an end. -/
def ofWork? {n : Nat} (name : String) : Problem.Work Float n → Option Report
  | .finished outcome => some (ofOutcome name outcome)
  | _ => none

/-- A report that agrees with itself and with following the path from its seed. -/
structure Coherent (system : RootSystem Float) (settings : Settings Float)
    (path : List (Complex Float)) (seed : Seed) (report : Report) : Prop where
  name : report.name = seed.name
  ofOk : ∀ trajectory,
    ((Problem.ofList system settings seed.roots).trajectory path).outcome =
        .ok trajectory →
      report.trajectory = some trajectory ∧ trajectory.start = .ok report.start ∧
        trajectory.finish = .ok report.finish ∧ report.error = none
  ofError : ∀ failure,
    ((Problem.ofList system settings seed.roots).trajectory path).outcome =
        .error failure →
      report.trajectory = none ∧ report.start = none ∧ report.finish = none ∧
        report.error = some failure.text
  isOk_iff : report.isOk = true ↔ report.trajectory.isSome = true
  ofNoPoints : path = [] → report.isOk = true →
    report.trajectory.isSome = true ∧ report.start = none ∧ report.finish = none

end Report

namespace Batch

variable (system : RootSystem Float) (settings : Settings Float)
  (path : List (Complex Float))

/-- What is reported on a seed, whatever stands beside it. -/
def reportOn (seed : Seed) : Report :=
  .ofOutcome seed.name ((Problem.ofList system settings seed.roots).trace path).outcome

theorem outcome_traceSeed (seed : Seed) :
    (traceSeed system settings path seed).outcome =
      .ok (reportOn system settings path seed) := by
  rw [traceSeed, Run.outcome_bind, Run.outcome_attempt, reportOn]
  cases ((Problem.ofList system settings seed.roots).trace path).outcome with
  | error failure => rfl
  | ok track => rfl

theorem outcome_trace (seeds : List Seed) :
    (trace system settings path seeds).outcome =
      .ok (seeds.map (reportOn system settings path)) := by
  rw [trace, Run.outcome_bind, Run.outcome_emit]
  change ((seeds.mapM (traceSeed system settings path)) >>= fun reports => _).outcome = _
  rw [Run.outcome_bind, Run.outcome_mapM (outcome_traceSeed system settings path)]
  rfl

/-- A report agrees with the run of its seed. -/
theorem coherent_reportOn (seed : Seed) :
    (reportOn system settings path seed).Coherent system settings path seed := by
  have comesTo : ((Problem.ofList system settings seed.roots).trajectory path).outcome =
      Track.trajectory <$>
        ((Problem.ofList system settings seed.roots).trace path).outcome :=
    Run.outcome_map _ _
  cases followed : ((Problem.ofList system settings seed.roots).trace path).outcome with
  | error failure =>
      have report : reportOn system settings path seed =
          .ofFailure seed.name failure := by
        rw [reportOn, followed]
        rfl
      rw [report]
      refine ⟨rfl, ?_, ?_, by simp [Report.isOk, Report.ofFailure], ?_⟩
      · intro trajectory succeeded
        rw [comesTo, followed] at succeeded
        cases succeeded
      · intro other failed
        rw [comesTo, followed] at failed
        cases failed
        exact ⟨rfl, rfl, rfl, rfl⟩
      · intro _ ok
        cases ok
  | ok track =>
      obtain ⟨accepted, reached⟩ := (Problem.outcome_trace_eq_ok_iff _ _ _).mp followed
      have nonempty := (Corrector.check_eq_ok_iff.mp accepted).1
      have report : reportOn system settings path seed = .ofTrack seed.name track := by
        rw [reportOn, followed]
        rfl
      rw [report]
      refine ⟨rfl, ?_, ?_, by simp [Report.isOk, Report.ofTrack], ?_⟩
      · intro trajectory succeeded
        rw [comesTo, followed] at succeeded
        cases succeeded
        exact ⟨rfl, track.start_trajectory nonempty, track.finish_trajectory nonempty, rfl⟩
      · intro failure failed
        rw [comesTo, followed] at failed
        cases failed
      · rintro rfl _
        cases reached
        exact ⟨rfl, rfl, rfl⟩

/-- Work on a seed that has come to an end is what is reported on it, and enough turns
bring it there. -/
theorem report_of_interleave
    (seeds : List Seed)
    (schedule : List (Fin seeds.length))
    (i : Fin seeds.length) :
    (∀ report,
      Report.ofWork? (seeds.get i).name
          (interleave system settings path seeds schedule i) = some report →
        report = reportOn system settings path (seeds.get i)) ∧
      (path.length + 2 ≤ schedule.count i →
        Report.ofWork? (seeds.get i).name
            (interleave system settings path seeds schedule i) =
          some (reportOn system settings path (seeds.get i))) := by
  rw [interleave_apply]
  constructor
  · intro report reported
    cases ended : ((Problem.ofList system settings (seeds.get i).roots).turn path)^[
        schedule.count i] .waiting with
    | waiting =>
        rw [ended] at reported
        cases reported
    | following track rest =>
        rw [ended] at reported
        cases reported
    | finished outcome =>
        rw [ended] at reported
        cases reported
        rw [reportOn, ← Problem.outcome_of_iterate_turn_finished _ _ ended]
  · intro enough
    rw [Problem.iterate_turn_waiting_of_le _ _ enough]
    rfl

end Batch

namespace Solver

/-- A call for many seeds fails only if the constants are turned down, and otherwise returns the
report of each seed on its own. -/
theorem outcome_traceSeeds
    (config : Config (Complex Float))
    (settings : Settings Float)
    (path : List (Complex Float))
    (seeds : List Seed) :
    (traceSeeds config settings path seeds).outcome =
      (config.check.mapError Failure.ofFault).map fun _ =>
        seeds.map (Batch.reportOn (RootSystem.ofProductForm config.productForm)
          settings path) := by
  rw [traceSeeds, Run.outcome_bind, Run.outcome_ofCheck, system, Config.equations]
  cases config.check with
  | error fault => rfl
  | ok accepted =>
      exact Batch.outcome_trace _ settings path seeds

/-- A batch fails as a whole exactly if its constants are turned down, and then for that
reason. Otherwise there is one report per seed, each a function of its seed alone and
coherent with what following the path from it comes to. Working on the seeds in turns,
in whatever order, makes no other report on any of them, and makes one on each that gets
enough turns. -/
theorem reports_are_isolated
    (config : Config (Complex Float))
    (settings : Settings Float)
    (path : List (Complex Float)) :
    (∀ seeds failure,
      (traceSeeds config settings path seeds).outcome = .error failure ↔
        ∃ fault, config.check = .error fault ∧ failure = .ofFault fault) ∧
    (config.check = .ok ⟨⟩ →
      ∃ report : Seed → Report,
        (∀ seed, (report seed).Coherent (RootSystem.ofProductForm config.productForm)
          settings path seed) ∧
        ∀ seeds : List Seed,
          (traceSeeds config settings path seeds).outcome = .ok (seeds.map report) ∧
          ∀ (schedule : List (Fin seeds.length)) (i : Fin seeds.length),
            (∀ early,
              Report.ofWork? (seeds.get i).name
                  (Batch.interleave (RootSystem.ofProductForm config.productForm)
                    settings path seeds schedule i) = some early →
                early = report (seeds.get i)) ∧
            (path.length + 2 ≤ schedule.count i →
              Report.ofWork? (seeds.get i).name
                  (Batch.interleave (RootSystem.ofProductForm config.productForm)
                    settings path seeds schedule i) =
                some (report (seeds.get i)))) := by
  constructor
  · intro seeds failure
    rw [outcome_traceSeeds]
    cases config.check with
    | error fault => simp [Except.mapError, Except.map, eq_comm]
    | ok accepted => simp [Except.mapError, Except.map]
  · intro accepted
    refine ⟨Batch.reportOn (RootSystem.ofProductForm config.productForm) settings path,
      Batch.coherent_reportOn _ settings path, ?_⟩
    intro seeds
    refine ⟨?_, Batch.report_of_interleave _ settings path seeds⟩
    rw [outcome_traceSeeds, accepted]
    rfl

end Solver
end RootTrace
