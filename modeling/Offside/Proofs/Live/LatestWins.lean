/-
# Latest wins

A live session is used from several sides at once: documents are submitted, the worker
goes through its phases, and reports are read. This module lets these steps follow each
other in any order, records what happens, and proves what every such record shows. One
run is in progress at a time; the documents that are run are ever newer; a report is
published only if its document was the newest one when the worker looked; and what is
published, and what is read, is newer each time. All of this is true whether or not some
of the runs break down.

Two facts carry the proof. Between a run and its publication the worker marks no
document as seen, so the version that it saw last is the number of the document that it
runs. And everything later is picked, in order, from what is earlier: the published
reports from those of the runs that ended, and the returned reports from the published
ones. Their order is therefore that of the runs.
-/

import Mathlib.Data.List.Basic
import Offside.Live
import Offside.Proofs.Session.Runs

namespace Offside

namespace Live

/-- Something that happens in a live session. Documents are numbered from one, in the
order in which they are submitted. -/
inductive Event
  /-- A document was submitted. -/
  | submitted (source : List Char)
  /-- The worker took the newest document, the one with this number, and runs it. -/
  | started (number : Nat) (source : List Char)
  /-- The run of the document with this number ended. -/
  | ended (number : Nat) (report : Report)
  /-- The run of the document with this number broke down, without a report. -/
  | brokeDown (number : Nat)
  /-- The worker, done with this document, looked for a newer one. -/
  | checked (number : Nat)
  /-- The report of the document with this number was published. -/
  | published (number : Nat) (report : Report)
  /-- A report was returned to the reader. -/
  | returned (report : Report)
  deriving DecidableEq, Repr

namespace Event

/-- The submitted document. -/
def submission? : Event → Option (List Char)
  | submitted source => some source
  | _ => none

/-- The document of a run that started, with its number. -/
def start? : Event → Option (Nat × List Char)
  | started number source => some (number, source)
  | _ => none

/-- The report of a run that ended, with the number of its document. -/
def end? : Event → Option (Nat × Report)
  | ended number report => some (number, report)
  | _ => none

/-- The number of the document of a run that is over, with a report or without. -/
def finish? : Event → Option Nat
  | ended number _ | brokeDown number => some number
  | _ => none

/-- The published report, with the number of its document. -/
def publication? : Event → Option (Nat × Report)
  | published number report => some (number, report)
  | _ => none

/-- The report that the reader got. -/
def reading? : Event → Option Report
  | returned report => some report
  | _ => none

end Event

/-- The submitted documents, in order. -/
def submissions (events : List Event) : List (List Char) := events.filterMap Event.submission?

/-- The documents that were run, in order and with their numbers. -/
def starts (events : List Event) : List (Nat × List Char) := events.filterMap Event.start?

/-- The reports of the runs that ended, in order and with the numbers of their documents. -/
def ends (events : List Event) : List (Nat × Report) := events.filterMap Event.end?

/-- The numbers of the documents whose runs are over, in order. -/
def finishes (events : List Event) : List Nat := events.filterMap Event.finish?

/-- The published reports, in order and with the numbers of their documents. -/
def publications (events : List Event) : List (Nat × Report) :=
  events.filterMap Event.publication?

/-- The reports that the reader got, in order. -/
def readings (events : List Event) : List Report := events.filterMap Event.reading?

/-- One step of one of the sides. -/
inductive Action
  /-- A document is submitted. -/
  | submit (source : List Char)
  /-- The worker takes its next step, if it has one. -/
  | work
  /-- The run in progress, if there is one, breaks down. -/
  | breakDown
  /-- The reader asks for a report without waiting. -/
  | poll
  /-- The reader, waiting for the next report, is called by a change. -/
  | wake
  /-- The reader, called by a change, takes the newest report. -/
  | take
  deriving DecidableEq, Repr

/-- A live session with the record of what happened in it. -/
structure Recorded where
  /-- The live session. -/
  live : Live
  /-- The reader was called by a change and has not taken the report yet. -/
  awake : Bool := false
  /-- What happened, in order. -/
  events : List Event := []

/-- What the worker's next step is recorded as. -/
def workerEvent? (live : Live) : Option Event :=
  match live.phase with
  | .waiting => none
  | .called => live.documents.newest.map (.started live.documents.version)
  | .running source number => some (.ended number (live.session.run source).1)
  | .finished _ number => some (.checked number)
  | .publishing report number => some (.published number report)

/-- What a breakdown of the run in progress is recorded as. -/
def breakDownEvent? (live : Live) : Option Event :=
  match live.phase with
  | .running _ number => some (.brokeDown number)
  | _ => none

namespace Recorded

/-- One more step. A step that is not possible now changes nothing: the worker waits,
and so does the reader, who does one thing at a time. -/
def act (recorded : Recorded) : Action → Recorded
  | .submit source =>
    { recorded with
      live := recorded.live.submit source
      events := recorded.events ++ [.submitted source] }
  | .work =>
    match recorded.live.workerStep? with
    | none => recorded
    | some next =>
      { recorded with
        live := next
        events := recorded.events ++ recorded.live.workerEvent?.toList }
  | .breakDown =>
    { recorded with
      live := recorded.live.breakDown
      events := recorded.events ++ recorded.live.breakDownEvent?.toList }
  | .poll =>
    if recorded.awake then recorded
    else
      { recorded with
        live := recorded.live.poll.2
        events := recorded.events ++ (recorded.live.poll.1.map Event.returned).toList }
  | .wake =>
    if recorded.awake || recorded.live.readerSeen == recorded.live.reports.version then recorded
    else
      { recorded with
        live := { recorded.live with readerSeen := recorded.live.reports.version }
        awake := true }
  | .take =>
    if recorded.awake then
      { live := { recorded.live with readerSeen := recorded.live.reports.version }
        awake := false
        events := recorded.events ++ (recorded.live.reports.newest.map Event.returned).toList }
    else recorded

end Recorded

/-- The record of a live session around `session` that goes through these steps. -/
def record (session : Session) (actions : List Action) : Recorded :=
  actions.foldl Recorded.act { live := { session } }

/-- The document with this number was the newest one when the worker, after the run that
ended with this report, looked for a newer one. -/
def NewestAtCheck (events : List Event) (number : Nat) (report : Report) : Prop :=
  ∃ earlier later, events = earlier ++ .checked number :: later ∧
    .ended number report ∈ earlier ∧ (submissions earlier).length = number

/-- What every record of a live session around `session` shows. -/
structure LatestWins (session : Session) (events : List Event) : Prop where
  /-- All runs but at most one are over, in the order in which they started. -/
  oneRun : ∃ current, current.length ≤ 1 ∧
    (starts events).map Prod.fst = finishes events ++ current
  /-- Where no run broke down, every run that is over has ended with a report. -/
  reported : (∀ number, .brokeDown number ∉ events) →
    finishes events = (ends events).map Prod.fst
  /-- Each document that is run is newer than the ones before it. -/
  newerRuns : (starts events).Pairwise fun first second => first.1 < second.1
  /-- A run is of the document that was submitted under its number. -/
  ofSubmission : ∀ start ∈ starts events,
    0 < start.1 ∧ (submissions events)[start.1 - 1]? = some start.2
  /-- A report is what the session says of the document that was run. -/
  ofRun : ∀ result ∈ ends events, ∃ source, (result.1, source) ∈ starts events ∧
    result.2 = session.report result.2.revision source
  /-- A report is published only if its document was the newest one at the check. -/
  newestAtCheck : ∀ before number report,
    before ++ [.published number report] <+: events → NewestAtCheck before number report
  /-- Each published report is of a newer document and a later run. -/
  newerPublications : (publications events).Pairwise fun first second =>
    first.1 < second.1 ∧ first.2.revision < second.2.revision
  /-- The reader gets published reports, in order and none of them twice. -/
  ofPublication : ∃ picked : List (Nat × Report), picked.Sublist (publications events) ∧
    readings events = picked.map Prod.snd
  /-- Each returned report is of a later run. -/
  newerReadings : (readings events).Pairwise fun first second =>
    first.revision < second.revision

/-! ## The record grows by one event -/

section Concat

variable (events : List Event) (event : Event)

theorem submissions_concat :
    submissions (events ++ [event]) = submissions events ++ event.submission?.toList := by
  cases event <;> simp [submissions, Event.submission?]

theorem starts_concat : starts (events ++ [event]) = starts events ++ event.start?.toList := by
  cases event <;> simp [starts, Event.start?]

theorem ends_concat : ends (events ++ [event]) = ends events ++ event.end?.toList := by
  cases event <;> simp [ends, Event.end?]

theorem finishes_concat :
    finishes (events ++ [event]) = finishes events ++ event.finish?.toList := by
  cases event <;> simp [finishes, Event.finish?]

theorem publications_concat :
    publications (events ++ [event]) = publications events ++ event.publication?.toList := by
  cases event <;> simp [publications, Event.publication?]

theorem readings_concat :
    readings (events ++ [event]) = readings events ++ event.reading?.toList := by
  cases event <;> simp [readings, Event.reading?]

variable {event}

theorem submissions_concat_of_none (hnone : event.submission? = none) :
    submissions (events ++ [event]) = submissions events := by
  rw [submissions_concat, hnone, Option.toList_none, List.append_nil]

theorem starts_concat_of_none (hnone : event.start? = none) :
    starts (events ++ [event]) = starts events := by
  rw [starts_concat, hnone, Option.toList_none, List.append_nil]

theorem ends_concat_of_none (hnone : event.end? = none) :
    ends (events ++ [event]) = ends events := by
  rw [ends_concat, hnone, Option.toList_none, List.append_nil]

theorem finishes_concat_of_none (hnone : event.finish? = none) :
    finishes (events ++ [event]) = finishes events := by
  rw [finishes_concat, hnone, Option.toList_none, List.append_nil]

theorem publications_concat_of_none (hnone : event.publication? = none) :
    publications (events ++ [event]) = publications events := by
  rw [publications_concat, hnone, Option.toList_none, List.append_nil]

end Concat

theorem Event.end?_eq_none_of_finish? {event : Event} (hnone : event.finish? = none) :
    event.end? = none := by
  cases event <;> simp_all [Event.finish?, Event.end?]

/-- A run that ended is over. -/
theorem map_fst_ends_sublist (events : List Event) :
    ((ends events).map Prod.fst).Sublist (finishes events) := by
  induction events with
  | nil => exact List.Sublist.refl _
  | cons event events ih =>
      cases event with
      | ended number report => exact ih.cons_cons number
      | brokeDown number => exact ih.cons number
      | submitted | started | checked | published | returned => exact ih

theorem finishes_eq_map_fst_ends {events : List Event}
    (hnone : ∀ number, .brokeDown number ∉ events) :
    finishes events = (ends events).map Prod.fst := by
  induction events with
  | nil => rfl
  | cons event events ih =>
      have hrest := ih fun number hmem => hnone number (List.mem_cons_of_mem _ hmem)
      cases event with
      | brokeDown number => exact absurd List.mem_cons_self (hnone number)
      | ended number report => exact congrArg (number :: ·) hrest
      | submitted | started | checked | published | returned => exact hrest

theorem NewestAtCheck.concat {events : List Event} {number : Nat} {report : Report}
    (hcheck : NewestAtCheck events number report) (event : Event) :
    NewestAtCheck (events ++ [event]) number report := by
  obtain ⟨earlier, later, rfl, hended, hnewest⟩ := hcheck
  exact ⟨earlier, later ++ [event], by simp, hended, hnewest⟩

theorem submissions_getElem?_concat {events : List Event} {index : Nat} {source : List Char}
    (hsource : (submissions events)[index]? = some source) (event : Event) :
    (submissions (events ++ [event]))[index]? = some source := by
  obtain ⟨hbound, -⟩ := List.getElem?_eq_some_iff.mp hsource
  rwa [submissions_concat, List.getElem?_append_left hbound]

/-- What holds of the record by itself at any time, when the last run had this revision. -/
structure RecordFits (session : Session) (revision : Nat) (events : List Event) : Prop where
  newerRuns : (starts events).Pairwise fun first second => first.1 < second.1
  ofSubmission : ∀ start ∈ starts events,
    0 < start.1 ∧ (submissions events)[start.1 - 1]? = some start.2
  ofRun : ∀ result ∈ ends events, ∃ source, (result.1, source) ∈ starts events ∧
    result.2 = session.report result.2.revision source
  revisions : ∀ result ∈ ends events, result.2.revision ≤ revision
  laterRuns : (ends events).Pairwise fun first second => first.2.revision < second.2.revision
  newestAtCheck : ∀ before number report,
    before ++ [.published number report] <+: events → NewestAtCheck before number report

theorem pairwise_toList {α : Type _} (r : α → α → Prop) (a? : Option α) : a?.toList.Pairwise r := by
  cases a? <;> simp

/-- What may be recorded next: the start of a newer run, the end of a run that started,
the publication of a report that was the newest one at the check, and anything else. -/
theorem RecordFits.concat {session : Session} {revision revision' : Nat} {events : List Event}
    (hfits : RecordFits session revision events) (hrevision : revision ≤ revision') {event : Event}
    (hstart : ∀ start ∈ event.start?, (∀ earlier ∈ starts events, earlier.1 < start.1) ∧
      0 < start.1 ∧ (submissions events)[start.1 - 1]? = some start.2)
    (hend : ∀ result ∈ event.end?, (∃ source, (result.1, source) ∈ starts events ∧
      result.2 = session.report result.2.revision source) ∧
        (∀ earlier ∈ ends events, earlier.2.revision < result.2.revision) ∧
          result.2.revision ≤ revision')
    (hpublication : ∀ number report, event = .published number report →
      NewestAtCheck events number report) :
    RecordFits session revision' (events ++ [event]) where
  newerRuns := by
    rw [starts_concat, List.pairwise_append]
    refine ⟨hfits.newerRuns, pairwise_toList _ _, fun earlier hearlier start hmem => ?_⟩
    exact (hstart start (Option.mem_toList.mp hmem)).1 earlier hearlier
  ofSubmission := by
    intro start hmem
    rw [starts_concat, List.mem_append, Option.mem_toList] at hmem
    rcases hmem with hmem | hmem
    · exact (hfits.ofSubmission start hmem).imp_right (submissions_getElem?_concat · event)
    · exact (hstart start hmem).2.imp_right (submissions_getElem?_concat · event)
  ofRun := by
    intro result hmem
    rw [ends_concat, List.mem_append, Option.mem_toList] at hmem
    have hrun : ∃ source, (result.1, source) ∈ starts events ∧
        result.2 = session.report result.2.revision source :=
      hmem.elim (hfits.ofRun result) fun hmem => (hend result hmem).1
    obtain ⟨source, hsource, hreport⟩ := hrun
    exact ⟨source, by rw [starts_concat]; exact List.mem_append_left _ hsource, hreport⟩
  revisions := by
    intro result hmem
    rw [ends_concat, List.mem_append, Option.mem_toList] at hmem
    rcases hmem with hmem | hmem
    · exact Nat.le_trans (hfits.revisions result hmem) hrevision
    · exact (hend result hmem).2.2
  laterRuns := by
    rw [ends_concat, List.pairwise_append]
    refine ⟨hfits.laterRuns, pairwise_toList _ _, fun earlier hearlier result hmem => ?_⟩
    exact (hend result (Option.mem_toList.mp hmem)).2.1 earlier hearlier
  newestAtCheck := by
    intro before number report hprefix
    rcases List.prefix_concat_iff.mp hprefix with heq | hprefix
    · obtain ⟨rfl, hlast⟩ := List.append_inj' heq rfl
      exact hpublication number report (List.cons.inj hlast).1.symm
    · exact hfits.newestAtCheck before number report hprefix

/-! ## What the worker knows -/

/-- What the phase of the worker says of the record, when `seen` is the version of the
documents that it saw last. -/
def FitsPhase (seen : Nat) (events : List Event) : Phase → Prop
  | .waiting =>
    (starts events).map Prod.fst = finishes events ∧
      (publications events).Sublist (ends events)
  | .called =>
    (starts events).map Prod.fst = finishes events ∧
      (publications events).Sublist (ends events) ∧ ∀ start ∈ starts events, start.1 < seen
  | .running source number =>
    number = seen ∧ (publications events).Sublist (ends events) ∧
      ∃ before, starts events = before ++ [(number, source)] ∧
        before.map Prod.fst = finishes events
  | .finished report number =>
    number = seen ∧ (starts events).map Prod.fst = finishes events ∧
      (∃ before, ends events = before ++ [(number, report)] ∧
        (publications events).Sublist before) ∧ .ended number report ∈ events
  | .publishing report number =>
    number = seen ∧ (starts events).map Prod.fst = finishes events ∧
      (∃ before, ends events = before ++ [(number, report)] ∧
        (publications events).Sublist before) ∧ NewestAtCheck events number report

/-- What holds of the documents, the worker and the record at any time. -/
structure WorkerFits (session : Session) (live : Live) (events : List Event) : Prop where
  version : live.documents.version = (submissions events).length
  newest : live.documents.newest = (submissions events).getLast?
  seen : live.workerSeen ≤ live.documents.version
  stages : live.session = { session with revision := live.session.revision }
  startsSeen : ∀ start ∈ starts events, start.1 ≤ live.workerSeen
  phase : FitsPhase live.workerSeen events live.phase
  record : RecordFits session live.session.revision events

theorem workerFits_init (session : Session) : WorkerFits session { session } [] where
  version := rfl
  newest := rfl
  seen := Nat.le_refl _
  stages := rfl
  startsSeen := by simp [starts]
  phase := ⟨rfl, List.nil_sublist _⟩
  record := by constructor <;> simp [starts, ends]

variable {session : Session} {live : Live} {events : List Event}

/-- Between a start, an end and a publication, what the phase says of the record stays. -/
theorem FitsPhase.concat {seen : Nat} {phase : Phase} (hphase : FitsPhase seen events phase)
    {event : Event} (hstart : event.start? = none) (hfinish : event.finish? = none)
    (hpublication : event.publication? = none) : FitsPhase seen (events ++ [event]) phase := by
  have hstarts := starts_concat_of_none events hstart
  have hends := ends_concat_of_none events (Event.end?_eq_none_of_finish? hfinish)
  have hfinishes := finishes_concat_of_none events hfinish
  have hpublications := publications_concat_of_none events hpublication
  cases phase with
  | waiting | called | running =>
      simpa only [FitsPhase, hstarts, hends, hfinishes, hpublications] using hphase
  | finished report number =>
      obtain ⟨hnumber, hruns, hlast, hended⟩ := hphase
      simp only [FitsPhase, hstarts, hends, hfinishes, hpublications]
      exact ⟨hnumber, hruns, hlast, List.mem_append_left _ hended⟩
  | publishing report number =>
      obtain ⟨hnumber, hruns, hlast, hcheck⟩ := hphase
      simp only [FitsPhase, hstarts, hends, hfinishes, hpublications]
      exact ⟨hnumber, hruns, hlast, hcheck.concat event⟩

/-- An event that is neither the start nor the end nor the publication of a run. -/
theorem RecordFits.concat_other {revision : Nat} (hfits : RecordFits session revision events)
    {event : Event} (hstart : event.start? = none) (hend : event.end? = none)
    (hpublication : event.publication? = none) :
    RecordFits session revision (events ++ [event]) := by
  refine hfits.concat (Nat.le_refl _) (by simp [hstart]) (by simp [hend]) ?_
  rintro number report rfl
  cases hpublication

/-- A submission changes nothing of what the worker has seen and done. -/
theorem WorkerFits.submit (hfits : WorkerFits session live events) (source : List Char) :
    WorkerFits session (live.submit source) (events ++ [.submitted source]) where
  version := by
    rw [submissions_concat, List.length_append, ← hfits.version]
    rfl
  newest := by
    rw [submissions_concat]
    exact (List.getLast?_concat).symm
  seen := Nat.le_succ_of_le hfits.seen
  stages := hfits.stages
  startsSeen := by
    rw [starts_concat_of_none events rfl]
    exact hfits.startsSeen
  phase := hfits.phase.concat rfl rfl rfl
  record := hfits.record.concat_other rfl rfl rfl

/-- What a reader sees and gets changes nothing for the worker. -/
theorem WorkerFits.read (hfits : WorkerFits session live events) (seen : Nat)
    (report? : Option Report) :
    WorkerFits session { live with readerSeen := seen }
      (events ++ (report?.map Event.returned).toList) := by
  cases report? with
  | none =>
      rw [Option.map_none, Option.toList_none, List.append_nil]
      exact ⟨hfits.version, hfits.newest, hfits.seen, hfits.stages, hfits.startsSeen,
        hfits.phase, hfits.record⟩
  | some report =>
      rw [Option.map_some, Option.toList_some]
      constructor
      · rw [submissions_concat_of_none events rfl]
        exact hfits.version
      · rw [submissions_concat_of_none events rfl]
        exact hfits.newest
      · exact hfits.seen
      · exact hfits.stages
      · rw [starts_concat_of_none events rfl]
        exact hfits.startsSeen
      · exact hfits.phase.concat rfl rfl rfl
      · exact hfits.record.concat_other rfl rfl rfl

/-- The worker is called by a change. What it runs next is newer than all it has run. -/
theorem WorkerFits.call (hfits : WorkerFits session live events) (hphase : live.phase = .waiting)
    (hnew : live.workerSeen ≠ live.documents.version) :
    WorkerFits session { live with phase := .called, workerSeen := live.documents.version }
      events where
  version := hfits.version
  newest := hfits.newest
  seen := Nat.le_refl _
  stages := hfits.stages
  startsSeen start hstart := Nat.le_trans (hfits.startsSeen start hstart) hfits.seen
  phase := by
    have hwaiting := hfits.phase
    rw [hphase] at hwaiting
    refine ⟨hwaiting.1, hwaiting.2, fun start hstart => ?_⟩
    exact Nat.lt_of_le_of_lt (hfits.startsSeen start hstart) (Nat.lt_of_le_of_ne hfits.seen hnew)
  record := hfits.record

/-- The worker takes the newest document, the last one submitted. -/
theorem WorkerFits.start (hfits : WorkerFits session live events) (hphase : live.phase = .called)
    {source : List Char} (hnewest : live.documents.newest = some source) :
    WorkerFits session
      { live with
        phase := .running source live.documents.version
        workerSeen := live.documents.version }
      (events ++ [.started live.documents.version source]) := by
  have hcalled := hfits.phase
  rw [hphase] at hcalled
  have hlast : (submissions events)[live.documents.version - 1]? = some source := by
    rw [hfits.version, ← List.getLast?_eq_getElem?, ← hfits.newest, hnewest]
  have hpos : 0 < live.documents.version := by
    obtain ⟨hbound, -⟩ := List.getElem?_eq_some_iff.mp hlast
    rw [hfits.version] at hbound ⊢
    omega
  have hstarts : starts (events ++ [.started live.documents.version source]) =
      starts events ++ [(live.documents.version, source)] := starts_concat _ _
  constructor
  · rw [submissions_concat_of_none events rfl]
    exact hfits.version
  · rw [submissions_concat_of_none events rfl]
    exact hfits.newest
  · exact Nat.le_refl _
  · exact hfits.stages
  · intro start hstart
    rw [hstarts, List.mem_append, List.mem_singleton] at hstart
    rcases hstart with hstart | rfl
    · exact Nat.le_trans (hfits.startsSeen start hstart) hfits.seen
    · exact Nat.le_refl _
  · refine ⟨rfl, ?_, starts events, hstarts, ?_⟩
    · rw [publications_concat_of_none events rfl, ends_concat_of_none events rfl]
      exact hcalled.2.1
    · rw [finishes_concat_of_none events rfl]
      exact hcalled.1
  · refine hfits.record.concat (Nat.le_refl _) (fun start hstart => ?_) (by simp [Event.end?]) ?_
    · obtain rfl : (live.documents.version, source) = start := Option.some_inj.mp hstart
      refine ⟨fun earlier hearlier => ?_, hpos, hlast⟩
      exact Nat.lt_of_lt_of_le (hcalled.2.2 earlier hearlier) hfits.seen
    · intro number report heq
      cases heq

/-- Without a document there is nothing to run. -/
theorem WorkerFits.skip (hfits : WorkerFits session live events) (hphase : live.phase = .called) :
    WorkerFits session { live with phase := .waiting, workerSeen := live.documents.version }
      events where
  version := hfits.version
  newest := hfits.newest
  seen := Nat.le_refl _
  stages := hfits.stages
  startsSeen start hstart := Nat.le_trans (hfits.startsSeen start hstart) hfits.seen
  phase := by
    have hcalled := hfits.phase
    rw [hphase] at hcalled
    exact ⟨hcalled.1, hcalled.2.1⟩
  record := hfits.record

/-- A run ends with a report of a later revision than all before it. -/
theorem WorkerFits.finish (hfits : WorkerFits session live events) {source : List Char}
    {number : Nat} (hphase : live.phase = .running source number) :
    WorkerFits session
      { live with
        phase := .finished (live.session.run source).1 number
        session := (live.session.run source).2 }
      (events ++ [.ended number (live.session.run source).1]) := by
  have hrunning := hfits.phase
  rw [hphase] at hrunning
  obtain ⟨hnumber, hpublished, before, hbefore, hruns⟩ := hrunning
  have hrun : live.session.run source =
      (session.report (live.session.revision + 1) source,
        { session with revision := live.session.revision + 1 }) := by
    rw [← Session.run_eq, ← hfits.stages]
  have hrevision : (session.report (live.session.revision + 1) source).revision =
      live.session.revision + 1 := Session.report_revision _ _ _
  rw [hrun]
  set report := session.report (live.session.revision + 1) source with hreport
  have hends : ends (events ++ [.ended number report]) = ends events ++ [(number, report)] :=
    ends_concat _ _
  have hfinishes : finishes (events ++ [.ended number report]) = finishes events ++ [number] :=
    finishes_concat _ _
  constructor
  · rw [submissions_concat_of_none events rfl]
    exact hfits.version
  · rw [submissions_concat_of_none events rfl]
    exact hfits.newest
  · exact hfits.seen
  · rfl
  · rw [starts_concat_of_none events rfl]
    exact hfits.startsSeen
  · refine ⟨hnumber, ?_, ⟨ends events, hends, ?_⟩, by simp⟩
    · rw [starts_concat_of_none events rfl, hfinishes, hbefore, List.map_append, hruns]
      rfl
    · rw [publications_concat_of_none events rfl]
      exact hpublished
  · refine hfits.record.concat (Nat.le_succ _) (by simp [Event.start?]) ?_ nofun
    intro result hresult
    obtain rfl := Option.some_inj.mp hresult
    refine ⟨⟨source, by simp [hbefore], ?_⟩, fun earlier hearlier => ?_, ?_⟩
    · rw [hrevision]
    · rw [hrevision]
      exact Nat.lt_succ_of_le (hfits.record.revisions earlier hearlier)
    · exact Nat.le_of_eq hrevision

/-- A run that breaks down is over, but it counts. -/
theorem WorkerFits.breakDown (hfits : WorkerFits session live events) :
    WorkerFits session live.breakDown (events ++ live.breakDownEvent?.toList) := by
  unfold Live.breakDown breakDownEvent?
  cases hphase : live.phase with
  | running source number =>
      have hrunning := hfits.phase
      rw [hphase] at hrunning
      obtain ⟨-, hpublished, before, hbefore, hruns⟩ := hrunning
      have hrun : (live.session.run source).2 =
          { session with revision := live.session.revision + 1 } := by
        rw [hfits.stages]
        rfl
      have hfinishes : finishes (events ++ [.brokeDown number]) = finishes events ++ [number] :=
        finishes_concat _ _
      rw [Option.toList_some]
      constructor
      · rw [submissions_concat_of_none events rfl]
        exact hfits.version
      · rw [submissions_concat_of_none events rfl]
        exact hfits.newest
      · exact hfits.seen
      · exact hrun
      · rw [starts_concat_of_none events rfl]
        exact hfits.startsSeen
      · refine ⟨?_, ?_⟩
        · rw [starts_concat_of_none events rfl, hfinishes, hbefore, List.map_append, hruns]
          rfl
        · rw [publications_concat_of_none events rfl, ends_concat_of_none events rfl]
          exact hpublished
      · have hlater : live.session.revision ≤ (live.session.run source).2.revision :=
          Nat.le_succ _
        exact hfits.record.concat hlater (by simp [Event.start?]) (by simp [Event.end?]) nofun
  | waiting | called | finished | publishing =>
      simpa using hfits

/-- The worker looks for a newer document, and publishes only if there is none. -/
theorem WorkerFits.check (hfits : WorkerFits session live events) {report : Report} {number : Nat}
    (hphase : live.phase = .finished report number) :
    WorkerFits session
      { live with
        phase := if live.workerSeen = live.documents.version then .publishing report number
          else .waiting }
      (events ++ [.checked number]) where
  version := by
    rw [submissions_concat_of_none events rfl]
    exact hfits.version
  newest := by
    rw [submissions_concat_of_none events rfl]
    exact hfits.newest
  seen := hfits.seen
  stages := hfits.stages
  startsSeen := by
    rw [starts_concat_of_none events rfl]
    exact hfits.startsSeen
  phase := by
    have hfinished := hfits.phase
    rw [hphase] at hfinished
    obtain ⟨hnumber, hruns, ⟨before, hbefore, hpublished⟩, hended⟩ := hfinished
    have hends : ends (events ++ [.checked number]) = ends events := ends_concat_of_none events rfl
    have hpublications : publications (events ++ [.checked number]) = publications events :=
      publications_concat_of_none events rfl
    split
    · rename_i hnone
      refine ⟨hnumber, ?_, ⟨before, hends.trans hbefore, ?_⟩, events, [], rfl, hended, ?_⟩
      · rw [starts_concat_of_none events rfl, finishes_concat_of_none events rfl, hruns]
      · rw [hpublications]
        exact hpublished
      · rw [← hfits.version, ← hnone, hnumber]
    · have hwaiting : FitsPhase live.workerSeen events .waiting := by
        refine ⟨hruns, ?_⟩
        rw [hbefore]
        exact hpublished.trans (List.sublist_append_left _ _)
      exact hwaiting.concat rfl rfl rfl
  record := hfits.record.concat_other rfl rfl rfl

/-- The worker publishes a report that nothing had overtaken at the check. -/
theorem WorkerFits.publish (hfits : WorkerFits session live events) {report : Report} {number : Nat}
    (hphase : live.phase = .publishing report number) :
    WorkerFits session { live with phase := .waiting, reports := live.reports.send report }
      (events ++ [.published number report]) := by
  have hpublishing := hfits.phase
  rw [hphase] at hpublishing
  obtain ⟨hnumber, hruns, ⟨before, hbefore, hpublished⟩, hcheck⟩ := hpublishing
  constructor
  · rw [submissions_concat_of_none events rfl]
    exact hfits.version
  · rw [submissions_concat_of_none events rfl]
    exact hfits.newest
  · exact hfits.seen
  · exact hfits.stages
  · rw [starts_concat_of_none events rfl]
    exact hfits.startsSeen
  · refine ⟨?_, ?_⟩
    · rw [starts_concat_of_none events rfl, finishes_concat_of_none events rfl]
      exact hruns
    · rw [publications_concat, ends_concat_of_none events rfl, hbefore]
      exact hpublished.append (List.Sublist.refl _)
  · refine hfits.record.concat (Nat.le_refl _) (by simp [Event.start?]) (by simp [Event.end?]) ?_
    intro number' report' heq
    obtain ⟨rfl, rfl⟩ := Event.published.inj heq
    exact hcheck

/-- Every step of the worker. -/
theorem WorkerFits.work (hfits : WorkerFits session live events) {next : Live}
    (hstep : live.workerStep? = some next) :
    WorkerFits session next (events ++ live.workerEvent?.toList) := by
  unfold workerStep? at hstep
  unfold workerEvent?
  cases hphase : live.phase with
  | waiting =>
      simp only [hphase, Option.ite_none_left_eq_some, Option.some_inj] at hstep
      obtain ⟨hnew, rfl⟩ := hstep
      simpa using hfits.call hphase hnew
  | called =>
      cases hnewest : live.documents.newest with
      | none =>
          simp only [hphase, hnewest, Option.some_inj] at hstep
          obtain rfl := hstep
          simpa using hfits.skip hphase
      | some source =>
          simp only [hphase, hnewest, Option.some_inj] at hstep
          obtain rfl := hstep
          exact hfits.start hphase hnewest
  | running source number =>
      simp only [hphase, Option.some_inj] at hstep
      obtain rfl := hstep
      exact hfits.finish hphase
  | finished report number =>
      have hcheck := hfits.check hphase
      simp only [hphase] at hstep
      split at hstep
      · rename_i hnone
        obtain rfl := Option.some_inj.mp hstep
        rwa [if_pos hnone] at hcheck
      · rename_i hnew
        obtain rfl := Option.some_inj.mp hstep
        rwa [if_neg hnew] at hcheck
  | publishing report number =>
      simp only [hphase, Option.some_inj] at hstep
      obtain rfl := hstep
      exact hfits.publish hphase

/-! ## What the reader has -/

/-- The reports that the reader got are those of some of the first `done` publications,
and the channel holds the report of the last one. -/
structure Reads (reports : Channel Report) (done : Nat) (events : List Event) : Prop where
  version : reports.version = (publications events).length
  newest : reports.newest = (publications events).getLast?.map Prod.snd
  picked : ∃ picked : List (Nat × Report), picked.Sublist ((publications events).take done) ∧
    readings events = picked.map Prod.snd

variable {reports : Channel Report} {done : Nat}

theorem Reads.concat (hreads : Reads reports done events) {event : Event}
    (hpublication : event.publication? = none) (hreading : event.reading? = none) :
    Reads reports done (events ++ [event]) := by
  have hpublications := publications_concat_of_none events hpublication
  have hreadings : readings (events ++ [event]) = readings events := by
    rw [readings_concat, hreading, Option.toList_none, List.append_nil]
  constructor
  · rw [hpublications]
    exact hreads.version
  · rw [hpublications]
    exact hreads.newest
  · rw [hpublications, hreadings]
    exact hreads.picked

theorem Reads.mono (hreads : Reads reports done events) {done' : Nat} (hle : done ≤ done') :
    Reads reports done' events := by
  obtain ⟨picked, hpicked, hreadings⟩ := hreads.picked
  exact ⟨hreads.version, hreads.newest, picked,
    hpicked.trans (List.take_prefix_take_left hle).sublist, hreadings⟩

theorem Reads.publish (hreads : Reads reports done events) (number : Nat) (report : Report) :
    Reads (reports.send report) done (events ++ [.published number report]) := by
  have hpublications : publications (events ++ [.published number report]) =
      publications events ++ [(number, report)] := publications_concat _ _
  obtain ⟨picked, hpicked, hreadings⟩ := hreads.picked
  constructor
  · rw [hpublications, List.length_append, ← hreads.version]
    rfl
  · rw [hpublications, List.getLast?_concat]
    rfl
  · refine ⟨picked, ?_, ?_⟩
    · rw [hpublications, List.take_append]
      exact hpicked.trans (List.sublist_append_left _ _)
    · rw [readings_concat, hreadings]
      exact List.append_nil _

/-- The reader takes the newest report, of which it has nothing yet. -/
theorem Reads.take (hreads : Reads reports done events) (hnew : done < reports.version) :
    Reads reports reports.version
      (events ++ (reports.newest.map Event.returned).toList) := by
  obtain ⟨picked, hpicked, hreadings⟩ := hreads.picked
  rcases List.eq_nil_or_concat' (publications events) with hnil | ⟨before, last, hlast⟩
  · have hzero := hreads.version
    rw [hnil, List.length_nil] at hzero
    omega
  have hversion : reports.version = before.length + 1 := by
    rw [hreads.version, hlast, List.length_append, List.length_singleton]
  have hnewest : reports.newest = some last.2 := by
    rw [hreads.newest, hlast, List.getLast?_concat, Option.map_some]
  have hpublications : publications (events ++ [.returned last.2]) = publications events :=
    publications_concat_of_none events rfl
  rw [hnewest, Option.map_some, Option.toList_some]
  constructor
  · rw [hpublications]
    exact hreads.version
  · rw [hpublications, ← hreads.newest, hnewest]
  · refine ⟨picked ++ [last], ?_, ?_⟩
    · rw [hpublications, hreads.version, List.take_length, hlast]
      rw [hlast, List.take_append_of_le_length (by omega)] at hpicked
      exact (hpicked.trans (List.take_sublist _ _)).append (List.Sublist.refl _)
    · rw [readings_concat, hreadings, List.map_append]
      rfl

/-- A step of the worker leaves the reports as they are, or it publishes one. -/
theorem reports_of_workerStep? {next : Live} (hstep : live.workerStep? = some next) :
    next.readerSeen = live.readerSeen ∧
      ((∃ number report, live.workerEvent? = some (.published number report) ∧
          next.reports = live.reports.send report) ∨
        next.reports = live.reports ∧
          ∀ event ∈ live.workerEvent?, event.publication? = none ∧ event.reading? = none) := by
  unfold workerStep? at hstep
  unfold workerEvent?
  cases hphase : live.phase with
  | waiting =>
      simp only [hphase, Option.ite_none_left_eq_some, Option.some_inj] at hstep
      obtain ⟨-, rfl⟩ := hstep
      exact ⟨rfl, .inr ⟨rfl, by simp⟩⟩
  | called =>
      simp only [hphase, Option.some_inj] at hstep
      obtain rfl := hstep
      refine ⟨rfl, .inr ⟨rfl, ?_⟩⟩
      cases live.documents.newest <;> simp [Event.publication?, Event.reading?]
  | running source number =>
      simp only [hphase, Option.some_inj] at hstep
      obtain rfl := hstep
      exact ⟨rfl, .inr ⟨rfl, by simp [Event.publication?, Event.reading?]⟩⟩
  | finished report number =>
      simp only [hphase] at hstep
      split at hstep <;> obtain rfl := Option.some_inj.mp hstep <;>
        exact ⟨rfl, .inr ⟨rfl, by simp [Event.publication?, Event.reading?]⟩⟩
  | publishing report number =>
      simp only [hphase, Option.some_inj] at hstep
      obtain rfl := hstep
      exact ⟨rfl, .inl ⟨number, report, rfl, rfl⟩⟩

/-- A breakdown leaves the reports as they are. -/
theorem reports_of_breakDown (live : Live) :
    live.breakDown.readerSeen = live.readerSeen ∧ live.breakDown.reports = live.reports ∧
      ∀ event ∈ live.breakDownEvent?, event.publication? = none ∧ event.reading? = none := by
  unfold breakDown breakDownEvent?
  cases live.phase <;> simp [Event.publication?, Event.reading?]

/-- What is neither published nor returned changes nothing for the reader. -/
theorem Reads.append (hreads : Reads reports done events) {event? : Option Event}
    (hother : ∀ event ∈ event?, event.publication? = none ∧ event.reading? = none) :
    Reads reports done (events ++ event?.toList) := by
  cases event? with
  | none => simpa using hreads
  | some event => exact hreads.concat (hother event rfl).1 (hother event rfl).2

theorem Reads.work (hreads : Reads live.reports done events) {next : Live}
    (hstep : live.workerStep? = some next) :
    Reads next.reports done (events ++ live.workerEvent?.toList) := by
  obtain ⟨-, ⟨number, report, hevent, hreports⟩ | ⟨hreports, hother⟩⟩ :=
    reports_of_workerStep? hstep
  · rw [hreports, hevent]
    exact hreads.publish number report
  · rw [hreports]
    exact hreads.append hother

/-! ## Every step, and every run -/

/-- The number of publications that the reader is done with. One that it was called by
is not among them. -/
def Recorded.taken (recorded : Recorded) : Nat :=
  if recorded.awake then recorded.live.readerSeen - 1 else recorded.live.readerSeen

/-- What holds at any time. -/
structure Fits (session : Session) (recorded : Recorded) : Prop where
  worker : WorkerFits session recorded.live recorded.events
  reads : Reads recorded.live.reports recorded.taken recorded.events
  seen : recorded.live.readerSeen ≤ recorded.live.reports.version
  called : recorded.awake = true → 0 < recorded.live.readerSeen

/-- What the reader is done with is less than what it has seen as long as it has a call
to answer, and so there is a report for it. -/
theorem Fits.taken_lt {recorded : Recorded} (hfits : Fits session recorded)
    (hawake : recorded.awake = true) : recorded.taken < recorded.live.reports.version := by
  have hseen := hfits.seen
  have hcalled := hfits.called hawake
  rw [Recorded.taken, if_pos hawake]
  omega

theorem fits_init (session : Session) : Fits session { live := { session } } where
  worker := workerFits_init session
  reads := ⟨rfl, rfl, [], List.nil_sublist _, rfl⟩
  seen := Nat.le_refl _
  called := by simp

/-- A step of the worker. What it publishes only adds to what the reader may see. -/
theorem Fits.work {live next : Live} {awake : Bool} {events : List Event}
    (hfits : Fits session ⟨live, awake, events⟩) (hstep : live.workerStep? = some next) :
    Fits session ⟨next, awake, events ++ live.workerEvent?.toList⟩ := by
  obtain ⟨hreader, hreports⟩ := reports_of_workerStep? hstep
  have hseen := hfits.seen
  have hcalled := hfits.called
  refine ⟨hfits.worker.work hstep, ?_, ?_, ?_⟩
  · simpa only [Recorded.taken, hreader] using hfits.reads.work hstep
  · rw [hreader]
    rcases hreports with ⟨number, report, -, hreports⟩ | ⟨hreports, -⟩
    · rw [hreports]
      exact Nat.le_succ_of_le hseen
    · rw [hreports]
      exact hseen
  · simpa only [hreader] using hcalled

/-- One step of any side. -/
theorem Fits.act {recorded : Recorded} (hfits : Fits session recorded) (action : Action) :
    Fits session (recorded.act action) := by
  obtain ⟨live, awake, events⟩ := recorded
  cases action with
  | submit source =>
      exact ⟨hfits.worker.submit source, hfits.reads.concat rfl rfl, hfits.seen, hfits.called⟩
  | work =>
      cases hstep : live.workerStep? with
      | none => simpa only [Recorded.act, hstep] using hfits
      | some next =>
          simpa only [Recorded.act, hstep] using hfits.work hstep
  | breakDown =>
      obtain ⟨hreader, hreports⟩ := reports_of_breakDown live
      have hreads := hfits.reads.append hreports.2
      refine ⟨hfits.worker.breakDown, ?_, ?_, ?_⟩
      · simpa only [Recorded.act, Recorded.taken, hreader, hreports.1] using hreads
      · simpa only [Recorded.act, hreader, hreports.1] using hfits.seen
      · simpa only [Recorded.act, hreader] using hfits.called
  | poll =>
      cases awake with
      | true => exact hfits
      | false =>
          simp only [Recorded.act, poll, Bool.false_eq_true, if_false]
          split
          · simpa using hfits
          · rename_i hnew
            have htaken : live.readerSeen < live.reports.version :=
              Nat.lt_of_le_of_ne hfits.seen hnew
            exact ⟨hfits.worker.read _ _, hfits.reads.take htaken, Nat.le_refl _, nofun⟩
  | wake =>
      cases awake with
      | true => exact hfits
      | false =>
          simp only [Recorded.act, Bool.false_or, beq_iff_eq]
          split
          · exact hfits
          · rename_i hnew
            have hlt : live.readerSeen < live.reports.version :=
              Nat.lt_of_le_of_ne hfits.seen hnew
            have hworker := hfits.worker.read live.reports.version none
            rw [Option.map_none, Option.toList_none, List.append_nil] at hworker
            refine ⟨hworker, hfits.reads.mono ?_, Nat.le_refl _, fun _ => ?_⟩
            · exact Nat.le_sub_one_of_lt hlt
            · exact Nat.zero_lt_of_lt hlt
  | take =>
      cases awake with
      | false => exact hfits
      | true =>
          have htaken := hfits.taken_lt rfl
          exact ⟨hfits.worker.read _ _, hfits.reads.take htaken, Nat.le_refl _, nofun⟩

theorem fits_record (session : Session) (actions : List Action) :
    Fits session (record session actions) := by
  suffices h : ∀ recorded, Fits session recorded →
      Fits session (actions.foldl Recorded.act recorded) from h _ (fits_init session)
  induction actions with
  | nil => exact fun _ hfits => hfits
  | cons action actions ih => exact fun recorded hfits => ih _ (hfits.act action)

/-! ## What the record shows -/

/-- At most one run is not over. -/
theorem FitsPhase.oneRun {seen : Nat} {phase : Phase} (hphase : FitsPhase seen events phase) :
    ∃ current, current.length ≤ 1 ∧
      (starts events).map Prod.fst = finishes events ++ current := by
  cases phase with
  | waiting | called => exact ⟨[], Nat.zero_le _, by rw [List.append_nil, hphase.1]⟩
  | running source number =>
      obtain ⟨-, -, before, hstarts, hfinishes⟩ := hphase
      exact ⟨[number], Nat.le_refl _, by rw [hstarts, List.map_append, hfinishes]; rfl⟩
  | finished | publishing => exact ⟨[], Nat.zero_le _, by rw [List.append_nil, hphase.2.1]⟩

/-- The published reports are picked from those of the runs that ended. -/
theorem FitsPhase.publications_sublist {seen : Nat} {phase : Phase}
    (hphase : FitsPhase seen events phase) : (publications events).Sublist (ends events) := by
  cases phase with
  | waiting => exact hphase.2
  | called | running => exact hphase.2.1
  | finished report number | publishing report number =>
      obtain ⟨-, -, ⟨before, hends, hpublished⟩, -⟩ := hphase
      rw [hends]
      exact hpublished.trans (List.sublist_append_left _ _)

/-- The documents of the runs that ended are as new as those of the runs, each newer
than the ones before it. -/
theorem RecordFits.newerEnds {revision : Nat} (hfits : RecordFits session revision events)
    {current : List Nat}
    (hruns : (starts events).map Prod.fst = finishes events ++ current) :
    (ends events).Pairwise fun first second => first.1 < second.1 := by
  have hnumbers : ((starts events).map Prod.fst).Pairwise (· < ·) :=
    List.pairwise_map.mpr hfits.newerRuns
  rw [hruns, List.pairwise_append] at hnumbers
  exact List.pairwise_map.mp (hnumbers.1.sublist (map_fst_ends_sublist events))

/-- Whatever the order of the steps of all sides, the newest document wins. A poll is a
single step here, because only the reader marks reports as seen: what is published
between its look and its reading is what it gets, as if the look came after. -/
theorem record_latestWins (session : Session) (actions : List Action) :
    LatestWins session (record session actions).events := by
  obtain ⟨hworker, hreads, -, -⟩ := fits_record session actions
  obtain ⟨current, hcurrent, hruns⟩ := hworker.phase.oneRun
  obtain ⟨picked, hpicked, hreadings⟩ := hreads.picked
  have hpublications : (publications (record session actions).events).Pairwise
      fun first second => first.1 < second.1 ∧ first.2.revision < second.2.revision :=
    ((hworker.record.newerEnds hruns).and hworker.record.laterRuns).sublist
      hworker.phase.publications_sublist
  have hpublished := hpicked.trans (List.take_sublist _ _)
  exact {
    oneRun := ⟨current, hcurrent, hruns⟩
    reported := finishes_eq_map_fst_ends
    newerRuns := hworker.record.newerRuns
    ofSubmission := hworker.record.ofSubmission
    ofRun := hworker.record.ofRun
    newestAtCheck := hworker.record.newestAtCheck
    newerPublications := hpublications
    ofPublication := ⟨picked, hpublished, hreadings⟩
    newerReadings := by
      rw [hreadings, List.pairwise_map]
      exact (hpublications.sublist hpublished).imp And.right }

end Live

end Offside
