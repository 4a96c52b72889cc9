import RootTrace.Proofs.Batch.Reports
import RootTrace.Proofs.Newton.Records

/-!
# What paths and batches record

Every call of the corrector that hands out roots which are still changing leaves one warning,
and the step is noted in the track. So the warnings along a path are as many as the steps that
a trajectory lists, and the closing record of the path gives their number. In a batch every
report on a seed that failed stands beside one warning with the same words, and the closing
record counts the reports of both kinds. Both are counts, so they do not depend on the order
in which records of different seeds are written down.
-/

namespace RootTrace

universe u v

namespace Event

variable {α : Type u}

/-- Whether roots were handed out that were still changing. -/
def isExhausted : Event α → Bool
  | .exhausted .. => true
  | _ => false

/-- The number of steps that did not converge, from the closing record of a path. -/
def unconverged? : Event α → Option Nat
  | .pathFinished unconverged => some unconverged
  | _ => none

/-- Name of a seed that failed, and why it failed. -/
def failedSeed? : Event Float → Option (String × String)
  | .seedFailed name failure => some (name, failure.text)
  | _ => none

/-- The numbers of seeds that succeeded and that failed, from the closing record of a batch. -/
def tally? : Event α → Option (Nat × Nat)
  | .batchFinished succeeded failed => some (succeeded, failed)
  | _ => none

/-- Whether a correction can record an event. -/
def ofCorrection : Event α → Bool
  | .iteration .. => true
  | .exhausted .. => true
  | _ => false

/-- Whether following a path can record an event. -/
def ofPath : Event α → Bool
  | .pathStarted .. => true
  | .pathFinished .. => true
  | event => event.ofCorrection

theorem ofPath_of_ofCorrection {event : Event α} (inside : event.ofCorrection = true) :
    event.ofPath = true := by
  cases event with
  | iteration | exhausted => rfl
  | pathStarted | pathFinished | batchStarted | seedFailed | batchFinished => cases inside

theorem unconverged?_of_ofCorrection {event : Event α} (inside : event.ofCorrection = true) :
    event.unconverged? = none := by
  cases event with
  | iteration | exhausted => rfl
  | pathStarted | pathFinished | batchStarted | seedFailed | batchFinished => cases inside

theorem failedSeed?_of_ofPath {event : Event Float} (inside : event.ofPath = true) :
    event.failedSeed? = none := by
  cases event with
  | iteration | exhausted | pathStarted | pathFinished => rfl
  | batchStarted | seedFailed | batchFinished => cases inside

theorem tally?_of_ofPath {event : Event α} (inside : event.ofPath = true) :
    event.tally? = none := by
  cases event with
  | iteration | exhausted | pathStarted | pathFinished => rfl
  | batchStarted | seedFailed | batchFinished => cases inside

end Event

theorem Run.events_mapM
    {α : Type u} {β : Type*} {γ : Type v}
    {run : β → Run α γ}
    {value : β → γ}
    (succeeds : ∀ item, (run item).outcome = .ok (value item))
    (items : List β) :
    (items.mapM run).events = items.flatMap fun item => (run item).events := by
  induction items with
  | nil => rfl
  | cons item items inductionHypothesis =>
      rw [List.mapM_cons, bind_of_ok (succeeds item), List.flatMap_cons, ← inductionHypothesis]
      rw [bind_of_ok (outcome_mapM succeeds items), events_pure, List.append_nil]

/-! ## One correction -/

namespace Corrector

variable {α : Type u} {n : Nat}

theorem ofCorrection_of_mem_iterationRecords
    {completed : Nat}
    {changes : List α}
    {event : Event α}
    (member : event ∈ iterationRecords completed changes) :
    event.ofCorrection = true := by
  induction changes generalizing completed with
  | nil => cases member
  | cons change changes inductionHypothesis =>
      cases member with
      | head => rfl
      | tail _ later => exact inductionHypothesis later

theorem countP_isExhausted_iterationRecords (completed : Nat) (changes : List α) :
    (iterationRecords completed changes).countP Event.isExhausted = 0 := by
  induction changes generalizing completed with
  | nil => rfl
  | cons change changes inductionHypothesis =>
      rw [iterationRecords_cons, List.countP_cons, inductionHypothesis]
      rfl

variable {maxSteps completed : Nat} {q : Complex α}
  {outcome : Except (Failure α) (Correction α n)} {correction : Correction α n}
  {events : List (Event α)}

/-- A correction records nothing but what belongs to corrections. -/
theorem Recorded.ofCorrection
    (recorded : Recorded maxSteps q completed outcome events) :
    ∀ event ∈ events, event.ofCorrection = true := by
  intro event member
  cases recorded with
  | converged | failed => exact ofCorrection_of_mem_iterationRecords member
  | exhausted =>
      rcases List.mem_append.mp member with earlier | last
      · exact ofCorrection_of_mem_iterationRecords earlier
      · cases List.mem_singleton.mp last
        rfl

/-- One warning exactly if the roots that are handed out have not converged. -/
theorem Recorded.countP_isExhausted
    (recorded : Recorded maxSteps q completed (.ok correction) events) :
    events.countP Event.isExhausted = if correction.converged then 0 else 1 := by
  cases recorded with
  | converged _ converged =>
      rw [countP_isExhausted_iterationRecords, if_pos converged]
  | exhausted _ converged =>
      rw [List.countP_append, countP_isExhausted_iterationRecords, converged]
      rfl

end Corrector

/-! ## Paths -/

namespace Problem

variable {α : Type u} {n : Nat}

/-- A run that goes on with a track and leaves one warning for every step that it notes. -/
structure Warns (track : Track α n) (run : Run α (Track α n)) : Prop where
  ofCorrection : ∀ event ∈ run.events, event.ofCorrection = true
  warnings : ∀ next, run.outcome = .ok next →
    next.unconverged.length =
      track.unconverged.length + run.events.countP Event.isExhausted

/-- The record of a path that agrees with what it comes to. -/
structure Logged (run : Run α (Trajectory α)) : Prop where
  ofPath : ∀ event ∈ run.events, event.ofPath = true
  warnings : ∀ trajectory, run.outcome = .ok trajectory →
    run.events.countP Event.isExhausted = trajectory.unconvergedSteps.length
  finished : ∀ trajectory, run.outcome = .ok trajectory →
    run.events.filterMap Event.unconverged? = [trajectory.unconvergedSteps.length]
  unfinished : ∀ failure, run.outcome = .error failure →
    run.events.filterMap Event.unconverged? = []

/-- A path that fails records neither its end nor a warning for the step that failed. -/
theorem Logged.of_error
    {run : Run α (Trajectory α)}
    {failure : Failure α}
    (failed : run.outcome = .error failure)
    (ofPath : ∀ event ∈ run.events, event.ofPath = true)
    (unfinished : run.events.filterMap Event.unconverged? = []) :
    Logged run where
  ofPath := ofPath
  warnings trajectory reached := by
    rw [failed] at reached
    cases reached
  finished trajectory reached := by
    rw [failed] at reached
    cases reached
  unfinished _ _ := unfinished

theorem filterMap_unconverged?_eq_nil
    {events : List (Event α)}
    (inside : ∀ event ∈ events, event.ofCorrection = true) :
    events.filterMap Event.unconverged? = [] :=
  List.filterMap_eq_nil_iff.mpr fun event member =>
    Event.unconverged?_of_ofCorrection (inside event member)

variable [Zero α] [One α] [Add α] [Sub α] [Mul α] [Neg α] [Div α] [BEq α]
  [LT α] [DecidableLT α] [Magnitude α]

/-- A step leaves a warning exactly if it is noted as unconverged. -/
theorem warns_advance (problem : Problem α n) (track : Track α n) (q : Complex α) :
    Warns track (problem.advance track q) := by
  have recorded := Corrector.recorded_correct problem.system problem.settings
    (track.latest problem.seed) q
  cases corrected : (problem.correct (track.latest problem.seed) q).outcome with
  | error failure =>
      rw [advance_of_error corrected]
      refine ⟨recorded.ofCorrection, ?_⟩
      intro next reached
      cases reached
  | ok correction =>
      rw [advance_of_ok corrected]
      refine ⟨recorded.ofCorrection, ?_⟩
      intro next reached
      cases reached
      rw [correct] at corrected
      rw [corrected] at recorded
      change _ = _ + (Corrector.correct _ _ _ _).events.countP _
      rw [recorded.countP_isExhausted, Track.record]
      cases correction.converged with
      | true => rfl
      | false => exact List.length_append

/-- Along any points there are as many warnings as unconverged steps are noted. -/
theorem warns_foldlM
    (problem : Problem α n)
    (track : Track α n)
    (points : List (Complex α)) :
    Warns track (points.foldlM problem.advance track) := by
  induction points generalizing track with
  | nil =>
      refine ⟨List.forall_mem_nil _, ?_⟩
      intro next reached
      cases reached
      rfl
  | cons q points inductionHypothesis =>
      rw [List.foldlM_cons]
      have first := problem.warns_advance track q
      cases advanced : (problem.advance track q).outcome with
      | error failure =>
          rw [Run.bind_of_error advanced]
          refine ⟨first.ofCorrection, ?_⟩
          intro next reached
          cases reached
      | ok next =>
          have rest := inductionHypothesis next
          rw [Run.bind_of_ok advanced]
          refine ⟨List.forall_mem_append.mpr ⟨first.ofCorrection, rest.ofCorrection⟩, ?_⟩
          intro final reached
          rw [rest.warnings final reached, first.warnings next advanced, List.countP_append,
            Nat.add_assoc]

/-- The log of a path agrees with what the path comes to. -/
theorem logged_trajectory (problem : Problem α n) (path : List (Complex α)) :
    Logged (problem.trajectory path) := by
  cases checked : Corrector.check n problem.settings with
  | error fault =>
      have nothing : problem.trajectory path = ⟨[], .error (.ofFault fault)⟩ := by
        rw [trajectory, trace, Run.ofCheck, checked]
        rfl
      rw [nothing]
      exact .of_error rfl (List.forall_mem_nil _) rfl
  | ok accepted =>
      have warns := problem.warns_foldlM Track.empty path
      rcases followed : path.foldlM problem.advance Track.empty with ⟨events, failure | track⟩
      all_goals
        rw [followed] at warns
        have quiet := filterMap_unconverged?_eq_nil warns.ofCorrection
        have inside : ∀ event ∈ .pathStarted n path.length :: events,
            event.ofPath = true := by
          intro event member
          cases member with
          | head => rfl
          | tail _ later => exact Event.ofPath_of_ofCorrection (warns.ofCorrection event later)
      · rw [trajectory_of_error checked followed]
        exact .of_error rfl inside quiet
      · have counted := warns.warnings track rfl
        rw [trajectory_of_ok checked followed]
        refine ⟨?_, ?_, ?_, ?_⟩
        · intro event member
          rcases List.mem_append.mp member with early | last
          · exact inside event early
          · cases List.mem_singleton.mp last
            rfl
        · intro trajectory reached
          cases reached
          rw [List.countP_append]
          change _ + 0 = track.unconverged.length
          rw [counted, Nat.add_zero]
          exact (Nat.zero_add _).symm
        · intro trajectory reached
          cases reached
          rw [List.filterMap_append]
          change events.filterMap Event.unconverged? ++ _ = _
          rw [quiet]
          rfl
        · intro failure reached
          cases reached

end Problem

/-! ## Batches -/

namespace Batch

variable (system : RootSystem Float) (settings : Settings Float)
  (path : List (Complex Float))

/-- The records of following one seed and of its failure, if it fails. -/
theorem events_traceSeed (seed : Seed) :
    (traceSeed system settings path seed).events =
      ((Problem.ofList system settings seed.roots).trajectory path).events ++
        match ((Problem.ofList system settings seed.roots).trace path).outcome with
        | .ok _ => []
        | .error failure => [.seedFailed seed.name failure] := by
  rw [traceSeed, Problem.trajectory, Run.map_eq, Run.bind_of_ok (Run.outcome_attempt _)]
  cases ((Problem.ofList system settings seed.roots).trace path).outcome with
  | ok track => rfl
  | error failure => rfl

/-- One warning for a seed that failed, in the words of its report, and none for one that
did not. -/
theorem filterMap_failedSeed?_traceSeed (seed : Seed) :
    (traceSeed system settings path seed).events.filterMap Event.failedSeed? =
      ((reportOn system settings path seed).error.map (seed.name, ·)).toList := by
  have inside :=
    ((Problem.ofList system settings seed.roots).logged_trajectory path).ofPath
  rw [events_traceSeed, List.filterMap_append,
    List.filterMap_eq_nil_iff.mpr fun event member =>
      Event.failedSeed?_of_ofPath (inside event member),
    List.nil_append, reportOn]
  cases ((Problem.ofList system settings seed.roots).trace path).outcome with
  | ok track => rfl
  | error failure => rfl

theorem filterMap_tally?_traceSeed (seed : Seed) :
    (traceSeed system settings path seed).events.filterMap Event.tally? = [] := by
  have inside :=
    ((Problem.ofList system settings seed.roots).logged_trajectory path).ofPath
  rw [events_traceSeed, List.filterMap_append,
    List.filterMap_eq_nil_iff.mpr fun event member =>
      Event.tally?_of_ofPath (inside event member),
    List.nil_append]
  cases ((Problem.ofList system settings seed.roots).trace path).outcome with
  | ok track => rfl
  | error failure => rfl

/-- The reports that are not failures are those that are left. -/
theorem length_sub_countP_failed (reports : List Report) :
    reports.length - reports.countP (fun report => !report.isOk) =
      reports.countP Report.isOk := by
  rw [List.length_eq_countP_add_countP Report.isOk]
  simp

/-- All records of a batch whose seeds are followed one after the other. -/
theorem events_trace (seeds : List Seed) :
    (trace system settings path seeds).events =
      .batchStarted seeds.length path.length ::
        (seeds.flatMap fun seed => (traceSeed system settings path seed).events) ++
        [.batchFinished
          ((seeds.map (reportOn system settings path)).countP Report.isOk)
          ((seeds.map (reportOn system settings path)).countP fun report => !report.isOk)] := by
  have succeeds := Run.outcome_mapM (outcome_traceSeed system settings path) seeds
  rw [trace, Run.bind_of_ok (Run.outcome_emit _)]
  rw [Run.bind_of_ok succeeds]
  rw [Run.events_mapM (outcome_traceSeed system settings path),
    ← length_sub_countP_failed]
  rfl

/-- One warning for every report on a seed that failed, in the order of the seeds. -/
theorem filterMap_failedSeed?_trace (seeds : List Seed) :
    (trace system settings path seeds).events.filterMap Event.failedSeed? =
      (seeds.map (reportOn system settings path)).filterMap fun report =>
        report.error.map (report.name, ·) := by
  have named : ∀ seed, (reportOn system settings path seed).name = seed.name := fun seed =>
    (coherent_reportOn system settings path seed).name
  rw [events_trace, List.filterMap_append, List.filterMap_map]
  change List.filterMap _ (List.flatMap _ _) ++ [] = _
  rw [List.append_nil, List.filterMap_flatMap, List.filterMap_eq_flatMap_toList]
  simp only [filterMap_failedSeed?_traceSeed, Function.comp_apply, named]

/-- Only the closing record gives numbers of seeds. -/
theorem filterMap_tally?_trace (seeds : List Seed) :
    (trace system settings path seeds).events.filterMap Event.tally? =
      [((seeds.map (reportOn system settings path)).countP Report.isOk,
        (seeds.map (reportOn system settings path)).countP fun report => !report.isOk)] := by
  rw [events_trace, List.filterMap_append]
  change List.filterMap _ (List.flatMap _ _) ++ [_] = _
  rw [List.filterMap_flatMap, List.flatMap_eq_nil_iff.mpr fun seed _ =>
    filterMap_tally?_traceSeed system settings path seed]
  rfl

/-- The log of a batch that agrees with the reports. -/
structure Logged (seeds : List Seed) (reports : List Report) (log : List (Event Float)) :
    Prop where
  failures : (log.filterMap Event.failedSeed?).Perm
    (reports.filterMap fun report => report.error.map (report.name, ·))
  tally : log.filterMap Event.tally? =
    [(reports.countP Report.isOk, reports.countP fun report => !report.isOk)]
  total : reports.countP Report.isOk + reports.countP (fun report => !report.isOk) =
    seeds.length

/-- The records may be written down in any order, as if the seeds took turns. -/
theorem logged_of_perm
    {seeds : List Seed}
    {log : List (Event Float)}
    (order : log.Perm (trace system settings path seeds).events) :
    Logged seeds (seeds.map (reportOn system settings path)) log := by
  refine ⟨?_, ?_, ?_⟩
  · rw [← filterMap_failedSeed?_trace]
    exact order.filterMap _
  · rw [← List.perm_singleton, ← filterMap_tally?_trace]
    exact order.filterMap _
  · rw [← length_sub_countP_failed, Nat.sub_add_cancel List.countP_le_length,
      List.length_map]

end Batch

/-- The log agrees with the results. A correction leaves one record for each of its
iterations, numbered in order, and a warning exactly if it hands out roots that have not
converged. A path that succeeds leaves as many warnings as its trajectory lists steps, and a
closing record with their number, and one that fails leaves no closing record. A batch leaves
one warning for every report on a seed that failed, and a closing record with the numbers of
reports of both kinds, in whatever order the records are written down. -/
theorem log_agrees_with_results (system : RootSystem Float) (settings : Settings Float) :
    (∀ {n : Nat} (seed : Vector (Complex Float) n) (q : Complex Float),
      Corrector.Recorded settings.maxSteps q 0
        (Corrector.correct system settings seed q).outcome
        (Corrector.correct system settings seed q).events) ∧
    (∀ seed path, Problem.Logged ((Problem.ofList system settings seed).trajectory path)) ∧
    (∀ path seeds, ∃ reports,
      (Batch.trace system settings path seeds).outcome = .ok reports ∧
        ∀ log, log.Perm (Batch.trace system settings path seeds).events →
          Batch.Logged seeds reports log) := by
  refine ⟨?_, ?_, ?_⟩
  · intro n seed q
    exact Corrector.recorded_correct system settings seed q
  · intro seed path
    exact Problem.logged_trajectory _ path
  · intro path seeds
    exact ⟨_, Batch.outcome_trace system settings path seeds, fun _ order =>
      Batch.logged_of_perm system settings path order⟩

end RootTrace
