import RootTrace.Proofs.Batch.Reports
import RootTrace.Proofs.Path.Batches
import RootTrace.Proofs.Places.Corrections

/-!
# Paths by places

A path is followed point by point. A runner reads the next point by the number of points it
has followed, and a trajectory is read out of the vectors of roots place by place. All
vectors have the length of the seed, so every place that is asked for is there, and paths,
runners and batches come to what they come to over vectors.
-/

namespace RootTrace

universe u

/-- A report that shows an error and nothing else is the report of a failure. -/
theorem Report.eq_ofFailure
    {report : Report}
    {name : String}
    {failure : Failure Float}
    (sameName : report.name = name)
    (trajectory : report.trajectory = none)
    (start : report.start = none)
    (finish : report.finish = none)
    (error : report.error = some failure.text) :
    report = .ofFailure name failure := by
  cases report
  cases sameName
  cases trajectory
  cases start
  cases finish
  cases error
  rfl

namespace Places

variable {α : Type u} {n : Nat}

/-! ## Roots along a path -/

/-- Lists of roots along a path. -/
structure Trail (α : Type u) where
  /-- One list of roots per step. -/
  steps : List (List (Complex α))
  /-- Steps at which the iterations were used up. -/
  unconverged : List Nat

namespace Trail

/-- The same track with its roots as lists. -/
def of (track : Track α n) : Trail α :=
  ⟨track.steps.map Vector.toList, track.unconverged⟩

/-- Roots at the last step, or the seed if there are no steps. -/
def latest (trail : Trail α) (seed : List (Complex α)) : List (Complex α) :=
  trail.steps.getLast?.getD seed

/-- Append a correction as the next step. -/
def record (trail : Trail α) (correction : Listed α) : Trail α where
  steps := trail.steps ++ [correction.roots]
  unconverged :=
    if correction.converged then trail.unconverged
    else trail.unconverged ++ [trail.steps.length]

/-- Read one list per root, with one value per step, out of the lists of roots. -/
def trajectory (trail : Trail α) (dimension : Nat) : Except (Stop α) (Trajectory α) := do
  let components ← (List.range dimension).mapM fun place =>
    trail.steps.mapM fun roots => readAt roots place
  pure ⟨components, trail.unconverged⟩

theorem length_steps_of (track : Track α n) : (of track).steps.length = track.length :=
  List.length_map _

theorem latest_of (track : Track α n) (seed : Vector (Complex α) n) :
    (of track).latest seed.toList = (track.latest seed).toList := by
  rw [latest, of, Track.latest, List.getLast?_map]
  cases track.steps.getLast? with
  | none => rfl
  | some roots => rfl

theorem record_of (track : Track α n) (correction : Correction α n) :
    (of track).record (.of correction) = of (track.record correction) := by
  simp [record, of, Track.record, Listed.of, Track.length]

/-- Every list of roots has an entry at every place of the seed. -/
theorem trajectory_of (track : Track α n) :
    (of track).trajectory n = .ok track.trajectory := by
  have column : ∀ k : Fin n,
      (track.steps.map Vector.toList).mapM (fun roots => readAt roots k) =
        (.ok (track.steps.map fun roots => roots.get k) : Except (Stop α) _) := by
    intro k
    have everywhere : ((fun roots : List (Complex α) => readAt roots k) ∘ Vector.toList) =
        fun roots : Vector (Complex α) n =>
          (pure (roots.get k) : Except (Stop α) (Complex α)) := by
      funext roots
      exact readAt_toList roots k
    rw [List.mapM_map, everywhere, List.mapM_pure]
    rfl
  have columns : (fun k : Fin n =>
      (track.steps.map Vector.toList).mapM fun roots => readAt roots k) =
      fun k => (pure (track.steps.map fun roots => roots.get k) : Except (Stop α) _) := by
    funext k
    exact column k
  rw [trajectory, of, range_eq_map_finRange, List.mapM_map, Function.comp_def, columns,
    List.mapM_pure]
  rfl

end Trail

variable [Zero α] [One α] [Add α] [Sub α] [Mul α] [Neg α] [Div α] [BEq α]
  [LT α] [DecidableLT α] [Magnitude α]

/-- Correct the roots at the next point of a path. -/
def point (config : Config (Complex α)) (settings : Settings α) (seed : List (Complex α))
    (trail : Trail α) (q : Complex α) : Except (Stop α) (Trail α) :=
  ((correct config settings (trail.latest seed) q).mapError
    (Stop.within (.pathStep trail.steps.length q))).map trail.record

/-- Follow the roots along a path. -/
def continueAlong (config : Config (Complex α)) (settings : Settings α)
    (seed path : List (Complex α)) : Except (Stop α) (Trajectory α) :=
  match Corrector.check seed.length settings with
  | .error fault => .error (.failed (.ofFault fault))
  | .ok _ => do
      let trail ← path.foldlM (point config settings seed) ⟨[], []⟩
      trail.trajectory seed.length

/-! ## Batches of points -/

/-- A path that is being followed. -/
structure Runner (α : Type u) where
  /-- Where the first point starts. -/
  seed : List (Complex α)
  /-- All points of the path. -/
  path : List (Complex α)
  /-- The roots at the points that have been followed. -/
  trail : Trail α

namespace Runner

/-- The same runner with its roots as lists. -/
def of (runner : RootTrace.Runner α) : Runner α :=
  ⟨runner.problem.seed.toList, runner.path, .of runner.track⟩

/-- A runner at the beginning of a path. -/
def create (settings : Settings α) (seed path : List (Complex α)) :
    Except (Stop α) (Runner α) :=
  match Corrector.check seed.length settings with
  | .error fault => .error (.failed (.ofFault fault))
  | .ok _ => .ok ⟨seed, path, ⟨[], []⟩⟩

/-- Follow at most so many further points. What stopped the runner stands beside it. -/
def runSteps (config : Config (Complex α)) (settings : Settings α) :
    Nat → Runner α → Runner α × Option (Stop α)
  | 0, runner => (runner, none)
  | batch + 1, runner =>
      if runner.path.length ≤ runner.trail.steps.length then
        (runner, none)
      else
        match readAt runner.path runner.trail.steps.length >>=
            point config settings runner.seed runner.trail with
        | .error stop => (runner, some stop)
        | .ok trail => runSteps config settings batch { runner with trail }

variable {config : Config (Complex α)} {settings : Settings α} {runner : Runner α}
  {q : Complex α} {batch : Nat}

theorem runSteps_of_done (done : runner.path.length ≤ runner.trail.steps.length) :
    runSteps config settings (batch + 1) runner = (runner, none) := by
  rw [runSteps, if_pos done]

/-- A point that fails stops the batch, and the runner stays where it is. -/
theorem runSteps_of_error
    {stop : Stop α}
    (next : runner.path[runner.trail.steps.length]? = some q)
    (stopped : point config settings runner.seed runner.trail q = .error stop) :
    runSteps config settings (batch + 1) runner = (runner, some stop) := by
  have inside := (List.getElem?_eq_some_iff.mp next).1
  have asked : readAt runner.path runner.trail.steps.length >>=
      point config settings runner.seed runner.trail = .error stop := by
    rw [readAt_of_getElem? next]
    exact stopped
  rw [runSteps, if_neg (Nat.not_le.mpr inside), asked]

/-- Behind a point that is passed the batch goes on with one point less to ask for. -/
theorem runSteps_of_ok
    {trail : Trail α}
    (next : runner.path[runner.trail.steps.length]? = some q)
    (went : point config settings runner.seed runner.trail q = .ok trail) :
    runSteps config settings (batch + 1) runner =
      runSteps config settings batch { runner with trail } := by
  have inside := (List.getElem?_eq_some_iff.mp next).1
  have asked : readAt runner.path runner.trail.steps.length >>=
      point config settings runner.seed runner.trail = .ok trail := by
    rw [readAt_of_getElem? next]
    exact went
  rw [runSteps, if_neg (Nat.not_le.mpr inside), asked]

/-- The runner after batches of the given sizes, whether or not some failed. -/
def runBatches (config : Config (Complex α)) (settings : Settings α) (runner : Runner α)
    (batches : List Nat) : Runner α :=
  batches.foldl (fun runner batch => (runSteps config settings batch runner).1) runner

/-- The roots at the points that have been followed. -/
def result (runner : Runner α) : Except (Stop α) (Trajectory α) :=
  runner.trail.trajectory runner.seed.length

end Runner

/-! ## Agreement -/

section Agreement

variable {config : Config (Complex α)} {settings : Settings α}
  (paired : config.constants.left.length = config.constants.right.length)
  (seed : Vector (Complex α) n)

/-- The problem that is solved by places. -/
def problemOf (config : Config (Complex α)) (settings : Settings α)
    (seed : Vector (Complex α) n) : Problem α n :=
  ⟨.ofProductForm config.productForm, settings, seed⟩

include paired

/-- A point over places answers what the point over vectors comes to. -/
theorem point_eq (track : Track α n) (q : Complex α) :
    point config settings seed.toList (.of track) q =
      answerOf Trail.of ((problemOf config settings seed).point track q) := by
  rw [point, Trail.latest_of, correct_eq paired, Trail.length_steps_of, Problem.point, Problem.advance,
    Run.outcome_map, Run.outcome_within]
  change ((answerOf Listed.of (Corrector.correct (.ofProductForm config.productForm) settings
    (track.latest seed) q).outcome).mapError _).map _ = answerOf Trail.of (_ <$>
      (Corrector.correct (.ofProductForm config.productForm) settings
        (track.latest seed) q).outcome.mapError _)
  cases (Corrector.correct (.ofProductForm config.productForm) settings
    (track.latest seed) q).outcome with
  | error failure => rfl
  | ok correction => exact congrArg Except.ok (Trail.record_of track correction)

theorem foldlM_point_eq (path : List (Complex α)) (track : Track α n) :
    path.foldlM (point config settings seed.toList) (.of track) =
      answerOf Trail.of ((problemOf config settings seed).follow track path) := by
  induction path generalizing track with
  | nil => rfl
  | cons q path inductionHypothesis =>
      rw [List.foldlM_cons, point_eq paired, Problem.follow_cons]
      cases (problemOf config settings seed).point track q with
      | error failure => rfl
      | ok next => exact inductionHypothesis next

/-- Following a path over places answers what following it over vectors comes to. -/
theorem continueAlong_eq (path : List (Complex α)) :
    continueAlong config settings seed.toList path =
      answerOf id ((problemOf config settings seed).trajectory path).outcome := by
  rw [continueAlong, Vector.length_toList]
  cases checked : Corrector.check n settings with
  | error fault =>
      rw [Problem.trajectory_of_check_error checked]
      rfl
  | ok accepted =>
      rw [Problem.outcome_trajectory _ checked]
      change (path.foldlM (point config settings seed.toList)
        (.of (Track.empty : Track α n)) >>= _) = _
      rw [foldlM_point_eq paired]
      cases (problemOf config settings seed).follow Track.empty path with
      | error failure => rfl
      | ok track => exact Trail.trajectory_of track

/-- The runner asks for a point of the path only if there is one left. The induction is on the
points asked for, and the track says which one is next. -/
theorem runSteps_eq
    (path : List (Complex α))
    (batch : Nat)
    (track : Track α n) :
    ∃ next answer,
      ((RootTrace.Runner.following (problemOf config settings seed) path track).runSteps
          batch).outcome =
        .ok (.following (problemOf config settings seed) path next, answer) ∧
      Runner.runSteps config settings batch
          (.of (.following (problemOf config settings seed) path track)) =
        (.of (.following (problemOf config settings seed) path next),
          answer.map Stop.failed) := by
  induction batch generalizing track with
  | zero => exact ⟨track, none, rfl, rfl⟩
  | succ batch inductionHypothesis =>
      rw [RootTrace.Runner.outcome_runSteps]
      by_cases done : path.length ≤ track.length
      · rw [List.drop_of_length_le done]
        refine ⟨track, none, rfl, Runner.runSteps_of_done ?_⟩
        exact done.trans_eq (Trail.length_steps_of track).symm
      · have inside : track.length < path.length := Nat.lt_of_not_le done
        have next : path[(Trail.of track).steps.length]? = some path[track.length] := by
          rw [Trail.length_steps_of, List.getElem?_eq_getElem inside]
        have called : point config settings seed.toList (.of track) path[track.length] = _ :=
          point_eq paired seed track path[track.length]
        rw [List.drop_eq_getElem_cons inside, List.take_succ_cons,
          Problem.outcome_advanceWhile_cons]
        cases corrected : (problemOf config settings seed).point track path[track.length] with
        | error failure =>
            rw [corrected] at called
            exact ⟨track, some failure, rfl, Runner.runSteps_of_error next called⟩
        | ok between =>
            rw [corrected] at called
            obtain ⟨reached, answer, ran, agrees⟩ := inductionHypothesis between
            rw [RootTrace.Runner.outcome_runSteps, Problem.length_of_point corrected] at ran
            exact ⟨reached, answer, ran, (Runner.runSteps_of_ok next called).trans agrees⟩

/-- After any batches both runners stand at the same point of the path. -/
theorem runBatches_eq
    (path : List (Complex α))
    (batches : List Nat)
    (track : Track α n) :
    ∃ reached,
      ((RootTrace.Runner.following (problemOf config settings seed) path track).runBatches
          batches).outcome =
        .ok (.following (problemOf config settings seed) path reached) ∧
      Runner.runBatches config settings
          (.of (.following (problemOf config settings seed) path track)) batches =
        .of (.following (problemOf config settings seed) path reached) := by
  induction batches generalizing track with
  | nil => exact ⟨track, rfl, rfl⟩
  | cons batch batches inductionHypothesis =>
      obtain ⟨next, answer, ran, agrees⟩ := runSteps_eq paired seed path batch track
      obtain ⟨reached, rest, agreesRest⟩ := inductionHypothesis next
      refine ⟨reached, ?_, ?_⟩
      · unfold RootTrace.Runner.runBatches
        rw [List.foldlM_cons, Run.outcome_bind, Run.outcome_map, ran]
        exact rest
      · rw [Runner.runBatches, List.foldl_cons, agrees]
        exact agreesRest

omit [Div α] [BEq α] [Magnitude α] paired in
theorem create_eq
    (config : Config (Complex α))
    (settings : Settings α)
    (path : List (Complex α)) :
    Runner.create settings seed.toList path =
      answerOf Runner.of
        ((RootTrace.Runner.create (problemOf config settings seed) path).mapError
          Failure.ofFault) := by
  rw [Runner.create, RootTrace.Runner.create, Vector.length_toList]
  change _ = answerOf Runner.of (((Corrector.check n settings).map _).mapError _)
  cases Corrector.check n settings with
  | error fault => rfl
  | ok accepted => rfl

end Agreement

/-! ## Batches of seeds -/

/-- Follow one seed, read the first and the last step, and report on it. -/
def report (config : Config (Complex Float)) (settings : Settings Float)
    (path : List (Complex Float)) (seed : Seed) : Except (Stop Float) Report :=
  match continueAlong config settings seed.roots path with
  | .error .outOfRange => .error .outOfRange
  | .error (.failed failure) => .ok (.ofFailure seed.name failure)
  | .ok trajectory => do
      let start ← trajectory.start.mapError fun _ => .outOfRange
      let finish ← trajectory.finish.mapError fun _ => .outOfRange
      pure ⟨seed.name, some trajectory, start, finish, none⟩

/-- Follow every seed and report on each in its place. -/
def traceSeeds (config : Config (Complex Float)) (settings : Settings Float)
    (path : List (Complex Float)) (seeds : List Seed) : Except (Stop Float) (List Report) :=
  seeds.mapM (report config settings path)

section Reports

variable {config : Config (Complex Float)} {settings : Settings Float}
  (paired : config.constants.left.length = config.constants.right.length)
  (path : List (Complex Float))

include paired

/-- Every component of a trajectory has the steps of the first one. -/
theorem report_eq_ok (seed : Seed) :
    report config settings path seed =
      .ok (Batch.reportOn (.ofProductForm config.productForm) settings path seed) := by
  have coherent :=
    Batch.coherent_reportOn (.ofProductForm config.productForm) settings path seed
  have followed : continueAlong config settings seed.roots path =
      answerOf id ((Problem.ofList (.ofProductForm config.productForm) settings
        seed.roots).trajectory path).outcome :=
    continueAlong_eq paired (rootVector seed.roots) path
  obtain ⟨name, ofOk, ofError, _, _⟩ := coherent
  rw [report, followed]
  cases outcome : ((Problem.ofList (.ofProductForm config.productForm) settings
      seed.roots).trajectory path).outcome with
  | error failure =>
      obtain ⟨trajectory, start, finish, error⟩ := ofError failure outcome
      exact congrArg Except.ok (Report.eq_ofFailure name trajectory start finish error).symm
  | ok trajectory =>
      obtain ⟨same, start, finish, error⟩ := ofOk trajectory outcome
      change ((trajectory.start.mapError _) >>= _) = _
      rw [start]
      change ((trajectory.finish.mapError _) >>= _) = _
      rw [finish, ← name, id_eq, ← same, ← error]
      rfl

theorem traceSeeds_eq_ok (seeds : List Seed) :
    traceSeeds config settings path seeds =
      .ok (seeds.map (Batch.reportOn (.ofProductForm config.productForm) settings path)) := by
  have everywhere : report config settings path = fun seed =>
      pure (Batch.reportOn (.ofProductForm config.productForm) settings path seed) := by
    funext seed
    exact report_eq_ok paired path seed
  rw [traceSeeds, everywhere, List.mapM_pure]
  rfl

end Reports

end Places
end RootTrace
