/-
# Runs that leave no trace

A session answers calls one after another, and a call is a run, a compilation or a
transformation. This module proves what every sequence of calls shows: the reports are
numbered from one, in the order of the runs and whatever came between them, and apart
from its number a report is that of the same run on a session that answers nothing else.
So neither the log of a failed run nor anything else of it reaches a later one.

What a report says of its own run is `Tells`. The compile stage decides first. Where it
rejects the code, its error is all there is in the log, and the executor plays no part:
any other one would give the same report. Where it gives a unit, the executor is asked
about this unit in the session's context, and about nothing else.
-/

import Mathlib.Data.List.Basic
import Offside.Session

namespace Offside

namespace Session

/-- Something that is asked of a session. -/
inductive Call
  /-- Run a document. -/
  | run (source : List Char)
  /-- Transform and compile a document. -/
  | compile (source : List Char)
  /-- Transform a document. -/
  | generate (source : List Char)
  deriving DecidableEq, Repr

/-- The answer to a call. -/
inductive Answer
  /-- The report of a run. -/
  | ran (report : Report)
  /-- The unit that a document compiles to, or the error. -/
  | compiled (result : Except DelimiterError CodeUnit)
  /-- The generated code of a document. -/
  | generated (code : List Char)

/-- The document that a call runs. -/
def Call.document? : Call → Option (List Char)
  | run source => some source
  | _ => none

/-- The report that an answer brings. -/
def Answer.report? : Answer → Option Report
  | ran report => some report
  | _ => none

/-- The documents that calls run, in order. -/
def documents (calls : List Call) : List (List Char) := calls.filterMap Call.document?

/-- The reports that answers bring, in order. -/
def reports (answers : List Answer) : List Report := answers.filterMap Answer.report?

/-- Answer a call. Only a run leaves another session behind. -/
def answer (session : Session) : Call → Answer × Session
  | .run source => (.ran (session.run source).1, (session.run source).2)
  | .compile source => (.compiled (session.compile source), session)
  | .generate source => (.generated (session.generate source), session)

/-- The answers to calls that follow each other. -/
def answers (session : Session) : List Call → List Answer
  | [] => []
  | call :: calls => (session.answer call).1 :: (session.answer call).2.answers calls

/-- What a report tells of the run of a document. -/
structure Tells (session : Session) (source : List Char) (report : Report) : Prop where
  /-- It shows the generated code of the document. -/
  generated : report.generated = session.generate source
  /-- The compile stage ended the run exactly if compiling the document fails. -/
  rejected : report.outcome = .compileFailed ↔ ∃ error, session.compile source = .error error
  /-- The error of the compile stage is then the whole log. -/
  logOfRejected : ∀ error, session.compile source = .error error →
    report.log = [error.message.toList]
  /-- The run stage ended the run exactly if the executor fails on the unit. -/
  failed : report.outcome = .runtimeFailed ↔ ∃ unit error,
    session.compile source = .ok unit ∧
      (session.executor.run unit session.context).error = some error
  /-- Behind what the executor printed stands its error, if it has one, and nothing
  else. -/
  logOfRun : ∀ unit, session.compile source = .ok unit →
    report.log = (session.executor.run unit session.context).printed ++
      ((session.executor.run unit session.context).error.map RunError.message).toList
  /-- The run succeeded exactly if no stage failed. -/
  succeeded : report.succeeded = true ↔ ∃ unit, session.compile source = .ok unit ∧
    (session.executor.run unit session.context).error = none
  /-- The executor counts only for what it does with the unit of the document, and not
  at all if there is none. -/
  asked : ∀ executor : Executor,
    (∀ unit, session.compile source = .ok unit →
      executor.run unit session.context = session.executor.run unit session.context) →
    ({ session with executor } : Session).report report.revision source = report

/-- What the answers of a new session to a sequence of calls show. -/
structure RunsApart (session : Session) (calls : List Call) : Prop where
  /-- There is an answer to each call. -/
  answered : (session.answers calls).length = calls.length
  /-- There is a report for each run. -/
  reported : (reports (session.answers calls)).length = (documents calls).length
  /-- The reports are numbered from one. -/
  numbered : ∀ (k : Nat) report, (reports (session.answers calls))[k]? = some report →
    report.revision = k + 1
  /-- A report tells of the document that was run. -/
  told : ∀ (k : Nat) report source, (reports (session.answers calls))[k]? = some report →
    (documents calls)[k]? = some source → session.Tells source report
  /-- But for its number, a report is that of a session that runs nothing else. -/
  alone : ∀ (k : Nat) report source, (reports (session.answers calls))[k]? = some report →
    (documents calls)[k]? = some source →
      session.answers [.run source] = [.ran { report with revision := 1 }]
  /-- What a compilation answers does not depend on the calls around it. -/
  compiled : ∀ (i : Nat) source, calls[i]? = some (.compile source) →
    (session.answers calls)[i]? = some (.compiled (session.compile source))
  /-- Nor does what a transformation answers. -/
  generated : ∀ (i : Nat) source, calls[i]? = some (.generate source) →
    (session.answers calls)[i]? = some (.generated (session.generate source))

variable {session : Session} {source : List Char}

/-! ## One run -/

/-- What a run gives depends on the session only through its stages. -/
theorem run_eq (session : Session) (revision : Nat) (source : List Char) :
    ({ session with revision } : Session).run source =
      (session.report (revision + 1) source, { session with revision := revision + 1 }) := rfl

theorem report_of_error {error : DelimiterError} (hcompile : session.compile source = .error error)
    (revision : Nat) :
    session.report revision source =
      ⟨revision, .compileFailed, session.generate source, [error.message.toList]⟩ := by
  simp only [report, hcompile]

/-- The error of the run stage, if there is one, decides the outcome and ends the log. -/
theorem report_of_ok {unit : CodeUnit} (hcompile : session.compile source = .ok unit)
    (revision : Nat) :
    session.report revision source =
      ⟨revision,
        if (session.executor.run unit session.context).error.isSome then .runtimeFailed
          else .completed,
        session.generate source,
        (session.executor.run unit session.context).printed ++
          ((session.executor.run unit session.context).error.map RunError.message).toList⟩ := by
  simp only [report, hcompile]
  cases (session.executor.run unit session.context).error with
  | none => simp
  | some error => rfl

/-- The number of a run is all that its report knows of the runs before it. -/
theorem report_withRevision (session : Session) (first second : Nat) (source : List Char) :
    { session.report first source with revision := second } = session.report second source := by
  cases hcompile : session.compile source with
  | error error => rw [report_of_error hcompile, report_of_error hcompile]
  | ok unit => rw [report_of_ok hcompile, report_of_ok hcompile]

theorem report_revision (session : Session) (revision : Nat) (source : List Char) :
    (session.report revision source).revision = revision := by
  rw [← report_withRevision session 0 revision source]

/-- Two executors that do the same with the unit of a document give the same report. -/
theorem report_withExecutor {executor : Executor}
    (hexecutor : ∀ unit, session.compile source = .ok unit →
      executor.run unit session.context = session.executor.run unit session.context)
    (revision : Nat) :
    ({ session with executor } : Session).report revision source =
      session.report revision source := by
  have hsame : ({ session with executor } : Session).compile source = session.compile source := rfl
  cases hcompile : session.compile source with
  | error error =>
      rw [report_of_error hcompile, report_of_error (hsame.trans hcompile)]
      rfl
  | ok unit =>
      have hrun : ({ session with executor } : Session).executor.run unit
          ({ session with executor } : Session).context =
            session.executor.run unit session.context := hexecutor unit hcompile
      rw [report_of_ok hcompile, report_of_ok (hsame.trans hcompile), hrun]
      rfl

/-- A report tells of its own run. -/
theorem tells_report (session : Session) (revision : Nat) (source : List Char) :
    session.Tells source (session.report revision source) := by
  have hasked : ∀ executor : Executor,
      (∀ unit, session.compile source = .ok unit →
        executor.run unit session.context = session.executor.run unit session.context) →
      ({ session with executor } : Session).report (session.report revision source).revision
        source = session.report revision source := by
    intro executor hexecutor
    rw [report_revision, report_withExecutor hexecutor]
  cases hcompile : session.compile source with
  | error error =>
      have hreport := report_of_error hcompile revision
      exact {
        generated := by rw [hreport]
        rejected := by simp [hreport, hcompile]
        logOfRejected := by
          intro other hother
          rw [hcompile] at hother
          rw [hreport, Except.error.inj hother]
        failed := by simp [hreport, hcompile]
        logOfRun := by simp [hcompile]
        succeeded := by simp [hreport, hcompile, Report.succeeded]
        asked := hasked }
  | ok unit =>
      have hreport := report_of_ok hcompile revision
      exact {
        generated := by rw [hreport]
        rejected := by
          rw [hreport]
          cases (session.executor.run unit session.context).error <;> simp [hcompile]
        logOfRejected := by simp [hcompile]
        failed := by
          rw [hreport]
          cases herror : (session.executor.run unit session.context).error <;>
            simp [hcompile, herror]
        logOfRun := by
          intro other hother
          rw [hcompile] at hother
          rw [hreport, ← Except.ok.inj hother]
        succeeded := by
          rw [hreport]
          cases herror : (session.executor.run unit session.context).error <;>
            simp [hcompile, herror, Report.succeeded]
        asked := hasked }

/-! ## A sequence of calls -/

@[simp]
theorem documents_cons (call : Call) (calls : List Call) :
    documents (call :: calls) = call.document?.toList ++ documents calls := by
  cases call <;> rfl

@[simp]
theorem reports_cons (first : Answer) (answers : List Answer) :
    reports (first :: answers) = first.report?.toList ++ reports answers := by
  cases first <;> rfl

theorem length_answers (session : Session) (calls : List Call) :
    (session.answers calls).length = calls.length := by
  induction calls generalizing session with
  | nil => rfl
  | cons call calls ih => rw [answers, List.length_cons, ih, List.length_cons]

/-- A call changes nothing about a session but the number of its runs. -/
theorem exists_answer_eq (session : Session) (revision : Nat) (call : Call) :
    ∃ later, (({ session with revision } : Session).answer call).2 =
      { session with revision := later } := by
  cases call with
  | run source => exact ⟨revision + 1, rfl⟩
  | compile source => exact ⟨revision, rfl⟩
  | generate source => exact ⟨revision, rfl⟩

/-- The reports of a session are those of its documents, numbered on from its last
run. -/
theorem reports_answers (session : Session) (revision : Nat) (calls : List Call) :
    reports (({ session with revision } : Session).answers calls) =
      (documents calls).mapIdx fun k source => session.report (revision + 1 + k) source := by
  induction calls generalizing revision with
  | nil => rfl
  | cons call calls ih =>
      cases call with
      | run source =>
          have hanswers : ({ session with revision } : Session).answers (.run source :: calls) =
              .ran (session.report (revision + 1) source) ::
                ({ session with revision := revision + 1 } : Session).answers calls := rfl
          rw [hanswers, reports_cons, ih, documents_cons]
          simp only [Answer.report?, Call.document?, Option.toList_some, List.singleton_append,
            List.mapIdx_cons, Nat.add_zero, List.cons.injEq, true_and]
          congr 1
          funext k document
          rw [Nat.add_assoc (revision + 1), Nat.add_comm 1 k]
      | compile source =>
          show reports (_ :: ({ session with revision } : Session).answers calls) = _
          rw [reports_cons, ih, documents_cons]
          rfl
      | generate source =>
          show reports (_ :: ({ session with revision } : Session).answers calls) = _
          rw [reports_cons, ih, documents_cons]
          rfl

/-- A call that is no run is answered as if it were the first. -/
theorem getElem?_answers {call : Call} (hcall : call.document? = none) (session : Session)
    (revision : Nat) {calls : List Call} {i : Nat} (hi : calls[i]? = some call) :
    (({ session with revision } : Session).answers calls)[i]? = some (session.answer call).1 := by
  induction calls generalizing revision i with
  | nil => simp at hi
  | cons first calls ih =>
      cases i with
      | zero =>
          obtain rfl : first = call := by simpa using hi
          cases first with
          | run source => simp [Call.document?] at hcall
          | compile source => rfl
          | generate source => rfl
      | succ i =>
          obtain ⟨later, hlater⟩ := exists_answer_eq session revision first
          rw [answers, List.getElem?_cons_succ, hlater]
          exact ih later (by simpa using hi)

/-- Whatever is asked of a new session, its reports are numbered from one, each tells of
its own document, and but for the numbers no call bears on another. -/
theorem answers_runsApart (compiler : Compiler) (executor : Executor) (registry : Registry)
    (transpileOptions : TranspileOptions) (compileOptions : CompileOptions) (calls : List Call) :
    RunsApart { compiler, executor, registry, transpileOptions, compileOptions } calls := by
  set session : Session := { compiler, executor, registry, transpileOptions, compileOptions }
  have hreports : reports (session.answers calls) =
      (documents calls).mapIdx fun k source => session.report (1 + k) source :=
    reports_answers session 0 calls
  have hget : ∀ k report, (reports (session.answers calls))[k]? = some report →
      ∃ source, (documents calls)[k]? = some source ∧ report = session.report (1 + k) source := by
    intro k report hreport
    rw [hreports, List.getElem?_mapIdx, Option.map_eq_some_iff] at hreport
    obtain ⟨source, hsource, rfl⟩ := hreport
    exact ⟨source, hsource, rfl⟩
  exact {
    answered := length_answers session calls
    reported := by rw [hreports, List.length_mapIdx]
    numbered := by
      intro k report hreport
      obtain ⟨source, -, rfl⟩ := hget k report hreport
      rw [report_revision, Nat.add_comm]
    told := by
      intro k report source hreport hsource
      obtain ⟨other, hother, rfl⟩ := hget k report hreport
      obtain rfl : source = other := Option.some_inj.mp (hsource.symm.trans hother)
      exact tells_report session (1 + k) source
    alone := by
      intro k report source hreport hsource
      obtain ⟨other, hother, rfl⟩ := hget k report hreport
      obtain rfl : source = other := Option.some_inj.mp (hsource.symm.trans hother)
      rw [report_withRevision]
      rfl
    compiled := fun i source hcall => getElem?_answers rfl session 0 hcall
    generated := fun i source hcall => getElem?_answers rfl session 0 hcall }

end Session

end Offside
