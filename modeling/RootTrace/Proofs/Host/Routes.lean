import RootTrace.Proofs.Batch.Reports
import RootTrace.Proofs.Host.Reading
import RootTrace.Proofs.Host.Rounds

/-!
# Three routes along a path

A host application can follow a path in one call, in a batch of seeds, or with a runner
that it drives in rounds. The arguments are the same each time, but they are read at
different moments, failures are announced in different words, and a runner keeps a state
in between. The routes agree nevertheless: they all hand out the same trajectory, or all
tell of the same failure.
-/

namespace RootTrace
namespace Host

/-- Reports on a batch of seeds are handed out, and those on seeds with the given roots are
as expected. -/
def ReportsOn (bench : Workbench) (seeds : List Seed) (answer : Run Float (Workbench × Reply))
    (roots : List (Complex Float)) (expected : Report → Prop) : Prop :=
  ∃ reports : List Report,
    answer.outcome = .ok (bench, .value (.array (reports.map .ofReport))) ∧
      List.Forall₂ (fun seed report => seed.roots = roots → expected report) seeds reports

/-- All routes hand out the trajectory. -/
structure RoutesSucceed (bench : Workbench) (config settings seed path : Value)
    (roots points : List (Complex Float)) (trajectory : Trajectory Float) : Prop where
  solvePath : (bench.call (.solvePath seed path)).outcome =
    .ok (bench, .value (.ofTrajectory trajectory))
  traceSeeds : ∀ seeds read, Record.list? Record.seed.read? seeds = some read →
    ReportsOn bench read (bench.call (.traceSeeds seeds path)) roots fun report =>
      report.trajectory = some trajectory ∧ report.error = none
  runner : ∃ started,
    (bench.call (.createRunner config settings seed path)).outcome =
        .ok (started, .value .undefined) ∧
      ∀ sizes : Nat → Nat, (∀ round, 0 < sizes round) → ∃ rounds,
        (started.calls (drive sizes rounds ++ [.isDone, .result])).outcome =
          .ok (driveReplies points.length sizes rounds ++
            [.value (.bool true), .value (.ofTrajectory trajectory)])

/-- All routes tell of the failure. -/
structure RoutesFail (bench : Workbench) (config settings seed path : Value)
    (roots points : List (Complex Float)) (chain : String) : Prop where
  solvePath : ∃ reply,
    (bench.call (.solvePath seed path)).outcome = .ok (bench, reply) ∧
      reply.Throws ("Continuation failed: " ++ chain)
  traceSeeds : ∀ seeds read, Record.list? Record.seed.read? seeds = some read →
    ReportsOn bench read (bench.call (.traceSeeds seeds path)) roots fun report =>
      report.trajectory = none ∧ report.error = some chain
  /-- A runner without roots is not set up. -/
  noRoots : roots = [] → ∃ reply,
    (bench.call (.createRunner config settings seed path)).outcome = .ok (bench, reply) ∧
      reply.Throws ("Continuation init failed: " ++ chain)
  /-- Any other runner fails in one of its rounds. -/
  runner : roots ≠ [] → ∃ started,
    (bench.call (.createRunner config settings seed path)).outcome =
        .ok (started, .value .undefined) ∧
      ∀ sizes : Nat → Nat, (∀ round, 0 < sizes round) → ∃ rounds reply,
        (started.calls (drive sizes rounds ++ [.isDone, .runSteps (sizes rounds)])).outcome =
            .ok (driveReplies points.length sizes rounds ++ [.value (.bool false), reply]) ∧
          reply.Throws ("Continuation step failed: " ++ chain)

/-! ## Each route -/

section
variable {bench : Workbench} {bound : BoundSystem} {seed path : Value}
  {roots points : List (Complex Float)}

theorem replyOf_map
    {β γ : Type}
    (activity : Activity)
    (write : γ → Value)
    (f : β → γ)
    (outcome : Except (Failure Float) β) :
    replyOf activity write (outcome.map f) = replyOf activity (fun result => write (f result))
      outcome := by
  cases outcome with
  | error failure => rfl
  | ok result => rfl

/-- Following a path in one call. -/
theorem outcome_call_solvePath
    (onBench : bench.system = some bound)
    (readSeed : Record.vector? seed = some roots)
    (readPath : Record.vector? path = some points) :
    (bench.call (.solvePath seed path)).outcome =
      .ok (bench, replyOf .followPath .ofTrajectory
        ((Problem.ofList bound.system bound.settings roots).trajectory points).outcome) := by
  have seedArgument : readArgument .seed Record.vector? seed = .ok roots :=
    readArgument_eq_ok_iff.mpr readSeed
  have pathArgument : readArgument .path Record.vector? path = .ok points :=
    readArgument_eq_ok_iff.mpr readPath
  have comesTo :
      ((Problem.ofList bound.system bound.settings roots).trajectory points).outcome =
        ((Problem.ofList bound.system bound.settings roots).trace points).outcome.map
          Track.trajectory :=
    Run.outcome_map _ _
  rw [Workbench.call, onBench, comesTo, replyOf_map, Run.outcome_bind, BoundSystem.reply,
    seedArgument, pathArgument]
  rfl

/-- Following a path in a batch of seeds. -/
theorem reportsOn_call_traceSeeds
    {expected : Report → Prop}
    (onBench : bench.system = some bound)
    (readPath : Record.vector? path = some points)
    (told : ∀ entry : Seed, entry.roots = roots →
      expected (Batch.reportOn bound.system bound.settings points entry))
    (seeds : Value)
    (read : List Seed)
    (readSeeds : Record.list? Record.seed.read? seeds = some read) :
    ReportsOn bench read (bench.call (.traceSeeds seeds path)) roots expected := by
  have seedsArgument : readArgument .seeds (Record.list? Record.seed.read?) seeds = .ok read :=
    readArgument_eq_ok_iff.mpr readSeeds
  have pathArgument : readArgument .path Record.vector? path = .ok points :=
    readArgument_eq_ok_iff.mpr readPath
  refine ⟨read.map (Batch.reportOn bound.system bound.settings points), ?_, ?_⟩
  · rw [Workbench.call, onBench, Run.outcome_bind, BoundSystem.reply, seedsArgument,
      pathArgument, withArgument, withArgument, Run.outcome_bind, Batch.outcome_trace]
    rfl
  · rw [List.forall₂_map_right_iff]
    exact List.forall₂_same.mpr fun entry _ => told entry

variable {config settings : Value}

/-- Setting up a runner reads the same arguments as setting up a system. -/
theorem readRunner_of_readBoundSystem
    (readSystem : readBoundSystem config settings = .ok bound)
    (readSeed : Record.vector? seed = some roots)
    (readPath : Record.vector? path = some points) :
    readRunner config settings seed path =
      (Runner.create (.ofList bound.system bound.settings roots) points).mapError
        fun fault => .failed .createRunner (.ofFault fault) := by
  obtain ⟨sameSystem, sameSettings, _⟩ := readBoundSystem_eq_ok_iff.mp readSystem
  rw [readRunner, sameSystem, sameSettings, readArgument, readSeed, readArgument, readPath]
  rfl

/-- A problem without roots is turned down. -/
theorem trajectory_of_no_roots
    (system : RootSystem Float)
    (settings : Settings Float)
    (points : List (Complex Float)) :
    ((Problem.ofList system settings []).trajectory points).outcome =
      .error (.ofFault .emptySeed) :=
  Problem.trajectory_of_check_error rfl points

/-- A system that was set up accepts all problems that have roots. -/
theorem check_of_readBoundSystem
    (readSystem : readBoundSystem config settings = .ok bound)
    (nonempty : roots ≠ []) :
    Corrector.check roots.length bound.settings = .ok ⟨⟩ := by
  obtain ⟨_, _, valid⟩ := readBoundSystem_eq_ok_iff.mp readSystem
  exact Corrector.check_eq_ok_iff.mpr ⟨mt List.length_eq_zero_iff.mp nonempty, valid⟩

/-- A runner with roots can be set up, and answers as the course of its problem says. -/
theorem exists_started
    {course : Course}
    (readSystem : readBoundSystem config settings = .ok bound)
    (readSeed : Record.vector? seed = some roots)
    (readPath : Record.vector? path = some points)
    (describes : course.Describes (.ofList bound.system bound.settings roots) points) :
    ∃ started,
      (bench.call (.createRunner config settings seed path)).outcome =
          .ok (started, .value .undefined) ∧
        ∀ calls, (∀ call ∈ calls, call.OnRunner) →
          (started.calls calls).outcome = .ok (course.replies (.standing 0) calls) := by
  have created : readRunner config settings seed path =
      .ok (.following (.ofList bound.system bound.settings roots) points Track.empty) := by
    rw [readRunner_of_readBoundSystem readSystem readSeed readPath]
    exact mapError_eq_ok_iff.mpr
      ((Runner.create_eq_ok_iff _ _ _).mpr ⟨describes.accepted, rfl⟩)
  refine ⟨_, outcome_createRunner_eq_value_iff.mpr ⟨_, created, rfl, rfl⟩, ?_⟩
  intro calls onRunner
  have shown : course.Shows (.ofList bound.system bound.settings roots) points (.standing 0)
      (.active (.following (.ofList bound.system bound.settings roots) points
        Track.empty)) :=
    .standing .empty (Nat.zero_le _)
  exact shown.outcome_calls describes rfl onRunner

theorem onRunner_of_mem_drive_append
    {sizes : Nat → Nat}
    {rounds : Nat}
    {last call : Call}
    (onRunner : last.OnRunner)
    (member : call ∈ drive sizes rounds ++ [.isDone, last]) :
    call.OnRunner := by
  rcases List.mem_append.mp member with driven | ended
  · exact onRunner_of_mem_drive sizes driven
  · rw [List.mem_pair] at ended
    rcases ended with rfl | rfl
    · exact .isDone
    · exact onRunner

/-! ## All routes -/

/-- Where the path can be followed, all routes succeed. -/
theorem routesSucceed_of_trajectory
    {trajectory : Trajectory Float}
    (onBench : bench.system = some bound)
    (readSystem : readBoundSystem config settings = .ok bound)
    (readSeed : Record.vector? seed = some roots)
    (readPath : Record.vector? path = some points)
    (nonempty : roots ≠ [])
    (followed : ((Problem.ofList bound.system bound.settings roots).trajectory points).outcome =
      .ok trajectory) :
    RoutesSucceed bench config settings seed path roots points trajectory := by
  have accepted := check_of_readBoundSystem readSystem nonempty
  obtain ⟨course, describes⟩ := Course.exists_describes
    (Problem.ofList bound.system bound.settings roots) points accepted
  constructor
  case solvePath =>
    rw [outcome_call_solvePath onBench readSeed readPath, followed]
    rfl
  case traceSeeds =>
    apply reportsOn_call_traceSeeds onBench readPath
    rintro entry rfl
    have report := Batch.coherent_reportOn bound.system bound.settings points entry
    obtain ⟨told, _, _, unfailing⟩ := report.ofOk trajectory followed
    exact ⟨told, unfailing⟩
  case runner =>
    obtain ⟨whole, unfailing, last⟩ := describes.whole_of_trajectory followed
    obtain ⟨started, created, answered⟩ :=
      exists_started readSystem readSeed readPath describes
    refine ⟨started, created, ?_⟩
    intro sizes positive
    obtain ⟨rounds, replied⟩ := course.exists_drive_of_whole whole unfailing positive
    refine ⟨rounds, ?_⟩
    rw [answered _ fun call => onRunner_of_mem_drive_append .result, replied, last,
      describes.total]

/-- Where the path cannot be followed, all routes fail. -/
theorem routesFail_of_failure
    {failure : Failure Float}
    (onBench : bench.system = some bound)
    (readSystem : readBoundSystem config settings = .ok bound)
    (readSeed : Record.vector? seed = some roots)
    (readPath : Record.vector? path = some points)
    (failed : ((Problem.ofList bound.system bound.settings roots).trajectory points).outcome =
      .error failure) :
    RoutesFail bench config settings seed path roots points failure.text := by
  constructor
  case solvePath =>
    rw [outcome_call_solvePath onBench readSeed readPath, failed]
    exact ⟨_, rfl, throws_failed .followPath failure⟩
  case traceSeeds =>
    apply reportsOn_call_traceSeeds onBench readPath
    rintro entry rfl
    have report := Batch.coherent_reportOn bound.system bound.settings points entry
    obtain ⟨untold, _, _, told⟩ := report.ofError failure failed
    exact ⟨untold, told⟩
  case noRoots =>
    rintro rfl
    have announced : readRunner config settings seed path =
        .error (.failed .createRunner (.ofFault .emptySeed)) := by
      rw [readRunner_of_readBoundSystem readSystem readSeed readPath,
        (Runner.create_eq_error_iff _ _ _).mpr rfl]
      rfl
    have cause : failure = .ofFault .emptySeed :=
      Except.error.inj
        (failed.symm.trans (trajectory_of_no_roots bound.system bound.settings points))
    rw [Workbench.call, announced, cause]
    exact ⟨_, rfl, throws_failed .createRunner _⟩
  case runner =>
    intro nonempty
    have accepted := check_of_readBoundSystem readSystem nonempty
    obtain ⟨course, describes⟩ := Course.exists_describes
      (Problem.ofList bound.system bound.settings roots) points accepted
    obtain ⟨blocked, failing⟩ := describes.blocked_of_failure failed
    obtain ⟨started, created, answered⟩ :=
      exists_started readSystem readSeed readPath describes
    refine ⟨started, created, ?_⟩
    intro sizes positive
    obtain ⟨rounds, replied⟩ := course.exists_drive_of_blocked blocked failing positive
    refine ⟨rounds, _, ?_, throws_failed .runSteps failure⟩
    rw [answered _ fun call => onRunner_of_mem_drive_append (.runSteps _), replied,
      describes.total]

theorem RoutesSucceed.not_routesFail
    {trajectory : Trajectory Float}
    {chain : String}
    (succeed : RoutesSucceed bench config settings seed path roots points trajectory) :
    ¬ RoutesFail bench config settings seed path roots points chain := by
  intro fail
  obtain ⟨reply, replied, throws⟩ := fail.solvePath
  rw [succeed.solvePath] at replied
  cases replied
  exact not_throws_value _ _ throws

end

/-- Once a system has been set up, exactly one of two things happens to a seed and a path
that can be read. Either following the path in one call, in any batch that holds the seed,
and with a runner in rounds of any sizes all come to the same trajectory, or all three are
stopped by the same failure. -/
theorem routes_agree
    {bench ready : Workbench}
    {config settings seed path : Value}
    {roots points : List (Complex Float)}
    (created : (bench.call (.createSystem config settings)).outcome =
      .ok (ready, .value .undefined))
    (readSeed : Record.vector? seed = some roots)
    (readPath : Record.vector? path = some points) :
    Xor
      (∃ trajectory, RoutesSucceed ready config settings seed path roots points trajectory)
      (∃ chain, RoutesFail ready config settings seed path roots points chain) := by
  obtain ⟨bound, readSystem, rfl, _⟩ := outcome_createSystem_eq_value_iff.mp created
  have onBench : ({ bench with system := some bound } : Workbench).system = some bound := rfl
  cases followed :
      ((Problem.ofList bound.system bound.settings roots).trajectory points).outcome with
  | ok trajectory =>
      have nonempty : roots ≠ [] := by
        rintro rfl
        cases (trajectory_of_no_roots bound.system bound.settings points).symm.trans followed
      have succeed :=
        routesSucceed_of_trajectory onBench readSystem readSeed readPath nonempty followed
      refine .inl ⟨⟨trajectory, succeed⟩, ?_⟩
      rintro ⟨chain, fail⟩
      exact succeed.not_routesFail fail
  | error failure =>
      have fail := routesFail_of_failure onBench readSystem readSeed readPath followed
      refine .inr ⟨⟨failure.text, fail⟩, ?_⟩
      rintro ⟨trajectory, succeed⟩
      exact succeed.not_routesFail fail

/-- Where the second parameter makes the equation singular, all routes are stopped. -/
theorem routes_agree_on_blockedPath :
    ∃ ready chain,
      (Workbench.empty.call (.createSystem linearConfig .undefined)).outcome =
          .ok (ready, .value .undefined) ∧
        RoutesFail ready linearConfig .undefined fiveSeed blockedPath
          [⟨5, 0⟩] [⟨2, 0⟩, ⟨1, 0⟩] chain := by
  have readSeed : Record.vector? fiveSeed = some [⟨5, 0⟩] := by
    decide +kernel
  have readPath : Record.vector? blockedPath = some [⟨2, 0⟩, ⟨1, 0⟩] := by
    decide +kernel
  have blocked : (match readBoundSystem linearConfig .undefined with
      | .error _ => true
      | .ok bound => ((Problem.ofList bound.system bound.settings [⟨5, 0⟩]).trajectory
          [⟨2, 0⟩, ⟨1, 0⟩]).outcome.toBool) = false := by
    decide +kernel
  cases readSystem : readBoundSystem linearConfig .undefined with
  | error refusal =>
      rw [readSystem] at blocked
      cases blocked
  | ok bound =>
      simp only [readSystem] at blocked
      have created : (Workbench.empty.call (.createSystem linearConfig .undefined)).outcome =
          .ok ({ Workbench.empty with system := some bound }, .value .undefined) :=
        outcome_createSystem_eq_value_iff.mpr ⟨bound, readSystem, rfl, rfl⟩
      rcases routes_agree created readSeed readPath with
        ⟨⟨trajectory, succeed⟩, _⟩ | ⟨⟨chain, fail⟩, _⟩
      · have solved := succeed.solvePath
        rw [outcome_call_solvePath rfl readSeed readPath] at solved
        cases followed : ((Problem.ofList bound.system bound.settings [⟨5, 0⟩]).trajectory
            [⟨2, 0⟩, ⟨1, 0⟩]).outcome with
        | error failure =>
            rw [followed] at solved
            cases solved
        | ok other =>
            rw [followed] at blocked
            cases blocked
      · exact ⟨_, chain, created, fail⟩

end Host
end RootTrace
