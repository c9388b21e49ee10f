/-
# No final edit is lost

A live session drops documents and discards reports, and still the last document comes
through: whenever the worker waits and has seen every document, the newest report is
that of the document submitted last, unless just the run of this document broke down.

What could go wrong is a submission that nobody notices, because it comes after the
worker has looked for a newer document and before the worker waits again. One
invariant excludes it. Only a call and the taking of a document mark documents as seen,
so a worker that waits with nothing unseen has seen nothing since it took its last
document; and that document is then the newest one, which the check let pass. Whatever
is submitted later, and whatever made the check discard a report, is still unseen when
the worker comes back to waiting.

Waiting is also where the worker ends up. Each of its steps leaves fewer of them to be
taken, at most eight in all, as long as nothing else is submitted.
-/

import Mathlib.Data.List.Induction
import Offside.Proofs.Live.LatestWins

namespace Offside

namespace Live

/-- The worker waits, and has seen every document. -/
def Idle (live : Live) : Prop :=
  live.phase = .waiting ∧ live.workerSeen = live.documents.version

/-- There is a document that the worker has not seen. -/
def Pending (live : Live) : Prop := live.workerSeen < live.documents.version

/-- What no order of the steps takes from the document submitted last. -/
structure KeepsFinalEdit (session : Session) (actions : List Action) : Prop where
  /-- When the worker waits and has seen every document, the newest report is that of the
  last document, published under its number, unless the run of just this document broke
  down. -/
  latest : (record session actions).live.Idle → ∀ source,
    (submissions (record session actions).events).getLast? = some source →
    .brokeDown (submissions (record session actions).events).length ∉
      (record session actions).events →
      ∃ report, (record session actions).live.latest = some report ∧
        report = session.report report.revision source ∧
        (publications (record session actions).events).getLast? =
          some ((submissions (record session actions).events).length, report)
  /-- No run is on record as broken down unless one did break down. -/
  unbroken : .breakDown ∉ actions → ∀ number, .brokeDown number ∉ (record session actions).events
  /-- When the check sends the worker back to waiting, and the report with it, a document
  is pending until the worker takes its next step. -/
  discarded : ∀ report number, (record session actions).live.phase = .finished report number →
    (record session (actions ++ [.work])).live.phase = .waiting →
      ∀ others, .work ∉ others →
        (record session (actions ++ .work :: others)).live.Pending ∧
          ¬ (record session (actions ++ .work :: others)).live.Idle
  /-- A document submitted between the check and the publication is pending at once, and
  behind the publication until the worker takes its next step. -/
  overtaken : ∀ report number, (record session actions).live.phase = .publishing report number →
    ∀ before, .work ∉ before → (∃ source, .submit source ∈ before) →
      (record session (actions ++ before)).live.Pending ∧
        ∀ others, .work ∉ others →
          (record session (actions ++ before ++ .work :: others)).live.Pending ∧
            ¬ (record session (actions ++ before ++ .work :: others)).live.Idle
  /-- Left alone, the worker comes to wait with nothing unseen. -/
  settles : (record session (actions ++ List.replicate 10 .work)).live.Idle

variable {session : Session} {live : Live} {recorded : Recorded}

theorem Pending.not_idle (hpending : live.Pending) : ¬ live.Idle := by
  intro hidle
  exact Nat.ne_of_lt hpending hidle.2

theorem record_append (session : Session) (actions others : List Action) :
    record session (actions ++ others) = others.foldl Recorded.act (record session actions) :=
  List.foldl_append

/-! ## What only the worker changes -/

/-- The steps of the reader concern the reader alone. -/
theorem exists_act_of_reader (recorded : Recorded) {action : Action}
    (hsubmit : ∀ source, action ≠ .submit source) (hwork : action ≠ .work)
    (hbreak : action ≠ .breakDown) :
    (∃ seen, (recorded.act action).live = { recorded.live with readerSeen := seen }) ∧
      submissions (recorded.act action).events = submissions recorded.events ∧
      publications (recorded.act action).events = publications recorded.events := by
  have hsame : (∃ seen, recorded.live = { recorded.live with readerSeen := seen }) ∧
      submissions recorded.events = submissions recorded.events ∧
      publications recorded.events = publications recorded.events :=
    ⟨⟨recorded.live.readerSeen, rfl⟩, rfl, rfl⟩
  have hreturned : ∀ report? : Option Report,
      submissions (recorded.events ++ (report?.map Event.returned).toList) =
          submissions recorded.events ∧
        publications (recorded.events ++ (report?.map Event.returned).toList) =
          publications recorded.events := by
    intro report?
    cases report? with
    | none => simp
    | some report =>
        exact ⟨submissions_concat_of_none _ rfl, publications_concat_of_none _ rfl⟩
  cases action with
  | submit source => exact absurd rfl (hsubmit source)
  | work => exact absurd rfl hwork
  | breakDown => exact absurd rfl hbreak
  | poll =>
      by_cases hawake : recorded.awake = true
      · simpa only [Recorded.act, hawake, if_true] using hsame
      · simp only [Recorded.act, if_neg hawake]
        refine ⟨?_, hreturned _⟩
        by_cases hseen : recorded.live.readerSeen = recorded.live.reports.version
        · exact ⟨recorded.live.readerSeen, by rw [poll, if_pos hseen]⟩
        · exact ⟨recorded.live.reports.version, by rw [poll, if_neg hseen]⟩
  | wake =>
      simp only [Recorded.act]
      split
      · exact hsame
      · exact ⟨⟨_, rfl⟩, rfl, rfl⟩
  | take =>
      by_cases hawake : recorded.awake = true
      · simp only [Recorded.act, hawake, if_true]
        exact ⟨⟨_, rfl⟩, hreturned _⟩
      · simpa only [Recorded.act, if_neg hawake] using hsame

/-- Nothing but a breakdown is recorded as one. -/
theorem brokeDown_mem_of_act {action : Action} (hbreak : action ≠ .breakDown) {number : Nat}
    (hmem : .brokeDown number ∈ (recorded.act action).events) :
    .brokeDown number ∈ recorded.events := by
  cases action with
  | breakDown => exact absurd rfl hbreak
  | submit source => simpa [Recorded.act] using hmem
  | work =>
      cases hstep : recorded.live.workerStep? with
      | none => simpa only [Recorded.act, hstep] using hmem
      | some next =>
          simp only [Recorded.act, hstep, List.mem_append, Option.mem_toList] at hmem
          refine hmem.resolve_right fun hevent => ?_
          unfold workerEvent? at hevent
          split at hevent <;> simp at hevent
  | poll | wake | take =>
      simp only [Recorded.act] at hmem
      split at hmem <;> simpa using hmem

theorem unbroken_record (session : Session) {actions : List Action}
    (hnone : .breakDown ∉ actions) (number : Nat) :
    .brokeDown number ∉ (record session actions).events := by
  induction actions using List.reverseRecOn with
  | nil => exact List.not_mem_nil
  | append_singleton actions action ih =>
      rw [List.mem_append, not_or, List.mem_singleton] at hnone
      rw [record_append]
      exact fun hmem => ih hnone.1 (brokeDown_mem_of_act (Ne.symm hnone.2) hmem)

/-- What was recorded stays on record. -/
theorem events_prefix_act (recorded : Recorded) (action : Action) :
    recorded.events <+: (recorded.act action).events := by
  cases action with
  | submit | breakDown => exact List.prefix_append _ _
  | work | poll | wake | take =>
      simp only [Recorded.act]
      split <;> first | exact List.prefix_append _ _ | exact List.prefix_refl _

/-- Without a run in progress nothing breaks down. -/
theorem act_breakDown (hrun : ∀ source number, recorded.live.phase ≠ .running source number) :
    recorded.act .breakDown = recorded := by
  have hlive : recorded.live.breakDown = recorded.live := by
    unfold breakDown
    split
    · rename_i source number hphase
      exact absurd hphase (hrun source number)
    · rfl
  have hevent : recorded.live.breakDownEvent? = none := by
    unfold breakDownEvent?
    split
    · rename_i source number hphase
      exact absurd hphase (hrun source number)
    · rfl
  simp [Recorded.act, hlive, hevent]

/-- Between two steps of a worker that is not in a run, its phase and what it has seen
stay, and each submission brings a newer version. -/
theorem foldl_act_of_work_notMem {others : List Action} (hothers : .work ∉ others)
    (recorded : Recorded)
    (hrun : ∀ source number, recorded.live.phase ≠ .running source number) :
    (others.foldl Recorded.act recorded).live.phase = recorded.live.phase ∧
      (others.foldl Recorded.act recorded).live.workerSeen = recorded.live.workerSeen ∧
      recorded.live.documents.version ≤
        (others.foldl Recorded.act recorded).live.documents.version ∧
      ((∃ source, .submit source ∈ others) → recorded.live.documents.version <
        (others.foldl Recorded.act recorded).live.documents.version) := by
  induction others generalizing recorded with
  | nil => exact ⟨rfl, rfl, Nat.le_refl _, by simp⟩
  | cons action others ih =>
      rw [List.mem_cons, not_or] at hothers
      rw [List.foldl_cons]
      by_cases hsubmit : ∃ source, action = .submit source
      · obtain ⟨source, rfl⟩ := hsubmit
        obtain ⟨hphase, hseen, hle, hlt⟩ := ih hothers.2 (recorded.act (.submit source)) hrun
        rw [hphase, hseen]
        have hnew : recorded.live.documents.version <
            (others.foldl Recorded.act (recorded.act (.submit source))).live.documents.version :=
          hle
        exact ⟨rfl, rfl, Nat.le_of_lt hnew, fun _ => hnew⟩
      rw [not_exists] at hsubmit
      have hlater : (∃ source, .submit source ∈ action :: others) →
          ∃ source, .submit source ∈ others := by
        rintro ⟨source, hmem⟩
        exact ⟨source, (List.mem_cons.mp hmem).resolve_left (Ne.symm (hsubmit source))⟩
      by_cases hbreak : action = .breakDown
      · rw [hbreak, act_breakDown hrun]
        obtain ⟨hphase, hseen, hle, hlt⟩ := ih hothers.2 recorded hrun
        exact ⟨hphase, hseen, hle, fun hex => hlt (hlater (by rwa [hbreak]))⟩
      · obtain ⟨⟨reader, hlive⟩, -⟩ :=
          exists_act_of_reader recorded hsubmit (Ne.symm hothers.1) hbreak
        obtain ⟨hphase, hseen, hle, hlt⟩ := ih hothers.2 (recorded.act action) (by rwa [hlive])
        rw [hphase, hseen]
        rw [hlive] at hle hlt ⊢
        exact ⟨rfl, rfl, hle, fun hex => hlt (hlater hex)⟩

/-- A pending document stays pending until the worker takes a step. -/
theorem Pending.foldl_act (hpending : recorded.live.Pending) {others : List Action}
    (hothers : .work ∉ others)
    (hrun : ∀ source number, recorded.live.phase ≠ .running source number) :
    (others.foldl Recorded.act recorded).live.Pending := by
  obtain ⟨-, hseen, hle, -⟩ := foldl_act_of_work_notMem hothers recorded hrun
  rw [Pending, hseen]
  exact Nat.lt_of_lt_of_le hpending hle

/-! ## The last publication of a worker with nothing to do -/

/-- If the worker is idle after a submission, the last publication is of the document
that it saw last, unless the run of that document broke down. -/
def Delivered (recorded : Recorded) : Prop :=
  recorded.live.Idle → submissions recorded.events ≠ [] →
    .brokeDown recorded.live.workerSeen ∉ recorded.events →
    ∃ report, (publications recorded.events).getLast? = some (recorded.live.workerSeen, report)

/-- A step of the worker makes it idle only by a publication, or if there was no
document at all. -/
theorem delivered_work {events : List Event} (hfits : WorkerFits session live events)
    {next : Live} (hstep : live.workerStep? = some next) (awake : Bool) :
    Delivered ⟨next, awake, events ++ live.workerEvent?.toList⟩ := by
  rintro ⟨hwaits, hseen⟩ hsubmissions -
  have hworker := hfits.phase
  unfold workerStep? at hstep
  unfold workerEvent? at hsubmissions ⊢
  cases hphase : live.phase with
  | waiting =>
      simp only [hphase, Option.ite_none_left_eq_some, Option.some_inj] at hstep
      obtain ⟨-, rfl⟩ := hstep
      cases hwaits
  | called =>
      simp only [hphase, Option.some_inj] at hstep
      obtain rfl := hstep
      cases hnewest : live.documents.newest with
      | some source =>
          simp only [hnewest] at hwaits
          cases hwaits
      | none =>
          have hnone := hfits.newest.symm.trans hnewest
          rw [List.getLast?_eq_none_iff] at hnone
          simp only [hphase, hnewest, Option.map_none, Option.toList_none, List.append_nil]
            at hsubmissions
          exact absurd hnone hsubmissions
  | running source number =>
      simp only [hphase, Option.some_inj] at hstep
      obtain rfl := hstep
      cases hwaits
  | finished report number =>
      simp only [hphase] at hstep
      split at hstep
      · obtain rfl := Option.some_inj.mp hstep
        cases hwaits
      · rename_i hnew
        obtain rfl := Option.some_inj.mp hstep
        exact absurd hseen hnew
  | publishing report number =>
      simp only [hphase, Option.some_inj] at hstep
      obtain rfl := hstep
      rw [hphase] at hworker
      refine ⟨report, ?_⟩
      rw [Option.toList_some, publications_concat, hworker.1]
      exact List.getLast?_concat

/-- A breakdown makes the worker idle, but it is one of the run of the document that the
worker saw last. -/
theorem Delivered.breakDown (hdelivered : Delivered recorded)
    (hfits : WorkerFits session recorded.live recorded.events) :
    Delivered (recorded.act .breakDown) := by
  cases hphase : recorded.live.phase with
  | running source number =>
      have hworker := hfits.phase
      rw [hphase] at hworker
      intro _ _ hnone
      simp [Recorded.act, Live.breakDown, breakDownEvent?, hphase, hworker.1] at hnone
  | waiting | called | finished | publishing =>
      rwa [act_breakDown (by simp [hphase])]

/-- Every step keeps the invariant. A submission leaves nothing to show, because what it
brings is unseen. -/
theorem Delivered.act (hdelivered : Delivered recorded) (hfits : Fits session recorded)
    (action : Action) : Delivered (recorded.act action) := by
  by_cases hsubmit : ∃ source, action = .submit source
  · obtain ⟨source, rfl⟩ := hsubmit
    intro hidle
    have hpending : (recorded.live.submit source).Pending := Nat.lt_succ_of_le hfits.worker.seen
    exact absurd hidle hpending.not_idle
  by_cases hwork : action = .work
  · subst hwork
    cases hstep : recorded.live.workerStep? with
    | none => simpa only [Recorded.act, hstep] using hdelivered
    | some next => simpa only [Recorded.act, hstep] using delivered_work hfits.worker hstep _
  by_cases hbreak : action = .breakDown
  · subst hbreak
    exact hdelivered.breakDown hfits.worker
  · obtain ⟨⟨seen, hlive⟩, hsubmissions, hpublications⟩ :=
      exists_act_of_reader recorded (not_exists.mp hsubmit) hwork hbreak
    rw [Delivered, hlive, hsubmissions, hpublications]
    intro hidle hne hnone
    refine hdelivered hidle hne fun hmem => hnone ?_
    exact (events_prefix_act recorded action).subset hmem

theorem delivered_record (session : Session) (actions : List Action) :
    Delivered (record session actions) := by
  induction actions using List.reverseRecOn with
  | nil =>
      intro _ hsubmissions
      exact absurd rfl hsubmissions
  | append_singleton actions action ih =>
      rw [record_append]
      exact ih.act (fits_record session actions) action

/-- What was published last is the report of the document under whose number it was
published. -/
theorem Fits.report_of_publication (hfits : Fits session recorded) {number : Nat} {report : Report}
    (hlast : (publications recorded.events).getLast? = some (number, report)) :
    recorded.live.latest = some report ∧
      ∃ source, (submissions recorded.events)[number - 1]? = some source ∧
        report = session.report report.revision source := by
  have hnewest : recorded.live.latest = some report := by
    rw [latest, hfits.reads.newest, hlast, Option.map_some]
  have hended : (number, report) ∈ ends recorded.events :=
    hfits.worker.phase.publications_sublist.subset (List.mem_of_getLast? hlast)
  obtain ⟨source, hstarted, hreport⟩ := hfits.worker.record.ofRun _ hended
  exact ⟨hnewest, source, (hfits.worker.record.ofSubmission _ hstarted).2, hreport⟩

/-! ## The worker comes to rest -/

/-- The number of steps that the worker has left, at most: up to five for what it is
doing, and five more if there is a document that it has not seen. -/
def remaining (live : Live) : Nat :=
  let pending := if live.workerSeen = live.documents.version then 0 else 5
  match live.phase with
  | .waiting => pending
  | .called => 4
  | .running _ _ => pending + 3
  | .finished _ _ => pending + 2
  | .publishing _ _ => pending + 1

theorem remaining_le (live : Live) : live.remaining ≤ 8 := by
  unfold remaining
  by_cases hseen : live.workerSeen = live.documents.version <;> cases live.phase <;> simp [hseen]

/-- The worker has no step exactly if it has nothing to do. -/
theorem workerStep?_eq_none_iff : live.workerStep? = none ↔ live.Idle := by
  unfold workerStep? Idle
  cases live.phase with
  | waiting => simp
  | called | running | publishing => simp
  | finished =>
      dsimp only
      split <;> simp

theorem remaining_lt_of_workerStep? {next : Live} (hstep : live.workerStep? = some next) :
    next.remaining < live.remaining := by
  unfold workerStep? at hstep
  cases hphase : live.phase with
  | waiting =>
      simp only [hphase, Option.ite_none_left_eq_some, Option.some_inj] at hstep
      obtain ⟨hnew, rfl⟩ := hstep
      simp [remaining, hphase, hnew]
  | called =>
      simp only [hphase, Option.some_inj] at hstep
      obtain rfl := hstep
      cases live.documents.newest <;> simp [remaining, hphase]
  | running source number =>
      simp only [hphase, Option.some_inj] at hstep
      obtain rfl := hstep
      simp [remaining, hphase]
  | finished report number =>
      simp only [hphase] at hstep
      split at hstep <;> rename_i hseen <;> obtain rfl := Option.some_inj.mp hstep <;>
        simp [remaining, hphase, hseen]
  | publishing report number =>
      simp only [hphase, Option.some_inj] at hstep
      obtain rfl := hstep
      simp [remaining, hphase]

/-- As many steps as the worker has left bring it to rest. -/
theorem idle_work {steps : Nat} (hsteps : live.remaining ≤ steps) : (live.work steps).Idle := by
  induction steps generalizing live with
  | zero =>
      cases hstep : live.workerStep? with
      | none => exact workerStep?_eq_none_iff.mp hstep
      | some next =>
          have hless := remaining_lt_of_workerStep? hstep
          omega
  | succ steps ih =>
      rw [work]
      cases hstep : live.workerStep? with
      | none => exact workerStep?_eq_none_iff.mp hstep
      | some next =>
          have hless := remaining_lt_of_workerStep? hstep
          exact ih (by omega)

theorem idle_settle (live : Live) : live.settle.Idle :=
  idle_work (Nat.le_trans (remaining_le live) (by decide))

theorem work_of_workerStep?_eq_none (hnone : live.workerStep? = none) (steps : Nat) :
    live.work steps = live := by
  cases steps with
  | zero => rfl
  | succ steps => rw [work, hnone]

/-- Recording does not change what the worker does. -/
theorem live_foldl_act_replicate (recorded : Recorded) (steps : Nat) :
    ((List.replicate steps .work).foldl Recorded.act recorded).live = recorded.live.work steps := by
  induction steps generalizing recorded with
  | zero => rfl
  | succ steps ih =>
      rw [List.replicate_succ, List.foldl_cons, ih, work]
      cases hstep : recorded.live.workerStep? with
      | none =>
          simp only [Recorded.act, hstep]
          exact work_of_workerStep?_eq_none hstep steps
      | some next => simp only [Recorded.act, hstep]

/-! ## The last document -/

/-- The check discards a report only if there is a document that the worker has not
seen. -/
theorem Fits.pending_of_discarded (hfits : Fits session recorded) {report : Report} {number : Nat}
    (hfinished : recorded.live.phase = .finished report number)
    (hwaits : (recorded.act .work).live.phase = .waiting) : (recorded.act .work).live.Pending := by
  have hseen := hfits.worker.seen
  by_cases hnone : recorded.live.workerSeen = recorded.live.documents.version
  · simp only [Recorded.act, workerStep?, hfinished, if_pos hnone] at hwaits
    cases hwaits
  · simp only [Recorded.act, workerStep?, hfinished, if_neg hnone]
    exact Nat.lt_of_le_of_ne hseen hnone

/-- Behind a publication the worker waits. -/
theorem phase_act_of_publishing {report : Report} {number : Nat}
    (hpublishing : recorded.live.phase = .publishing report number) :
    (recorded.act .work).live.phase = .waiting := by
  simp only [Recorded.act, workerStep?, hpublishing]

/-- A publication marks no document as seen. -/
theorem Pending.publish (hpending : recorded.live.Pending) {report : Report} {number : Nat}
    (hpublishing : recorded.live.phase = .publishing report number) :
    (recorded.act .work).live.Pending := by
  simp only [Recorded.act, workerStep?, hpublishing]
  exact hpending

/-- Whatever the order of the steps of all sides, the document submitted last is the one
whose report is there in the end. -/
theorem record_keepsFinalEdit (session : Session) (actions : List Action) :
    KeepsFinalEdit session actions where
  latest := by
    intro hidle source hsource hunbroken
    have hfits := fits_record session actions
    have hne : submissions (record session actions).events ≠ [] := by
      intro hnil
      rw [hnil] at hsource
      cases hsource
    rw [← hfits.worker.version, ← hidle.2] at hunbroken
    obtain ⟨report, hlast⟩ := delivered_record session actions hidle hne hunbroken
    rw [hidle.2, hfits.worker.version] at hlast
    obtain ⟨hnewest, source', hsource', hreport⟩ := hfits.report_of_publication hlast
    rw [← List.getLast?_eq_getElem?, hsource, Option.some_inj] at hsource'
    exact ⟨report, hnewest, hsource' ▸ hreport, hlast⟩
  unbroken := unbroken_record session
  discarded := by
    intro report number hfinished hwaits others hothers
    rw [record_append, List.foldl_cons, List.foldl_nil] at hwaits
    have hpending := (fits_record session actions).pending_of_discarded hfinished hwaits
    rw [record_append, List.foldl_cons]
    have hlater := hpending.foldl_act hothers (by simp [hwaits])
    exact ⟨hlater, hlater.not_idle⟩
  overtaken := by
    intro report number hpublishing before hbefore hsubmit
    have hfits := fits_record session actions
    obtain ⟨hphase, hseen, -, hversion⟩ :=
      foldl_act_of_work_notMem hbefore (record session actions) (by simp [hpublishing])
    have hpending : (record session (actions ++ before)).live.Pending := by
      rw [record_append, Pending, hseen]
      exact Nat.lt_of_le_of_lt hfits.worker.seen (hversion hsubmit)
    refine ⟨hpending, fun others hothers => ?_⟩
    rw [← record_append] at hphase
    have hpublished := hpending.publish (hphase.trans hpublishing)
    have hwaits := phase_act_of_publishing (hphase.trans hpublishing)
    rw [record_append _ (actions ++ before), List.foldl_cons]
    have hlater := hpublished.foldl_act hothers (by simp [hwaits])
    exact ⟨hlater, hlater.not_idle⟩
  settles := by
    rw [record_append, live_foldl_act_replicate]
    exact idle_settle _

/-- Three documents, of which the second comes while the first is running and the third
between the check of the second and its publication. The first report is discarded, the
second is published too late, and the third is the one that stays. -/
theorem record_keepsFinalEdit_overtaken :
    let session : Session := { executor := ⟨fun unit _ => ⟨[unit.code], none⟩⟩ }
    let actions : List Action :=
      [.submit ['a'], .work, .work, .submit ['b'], .work, .work, .work, .work, .work, .work,
        .submit ['c']] ++ List.replicate 10 .work
    (record session actions).live.Idle ∧
      (ends (record session actions).events).map Prod.fst = [1, 2, 3] ∧
      (publications (record session actions).events).map Prod.fst = [2, 3] ∧
      ∃ report, (record session actions).live.latest = some report ∧
        report = session.report report.revision ['c'] := by
  intro session actions
  have hidle : (record session actions).live.Idle := (record_keepsFinalEdit session _).settles
  have hlast : (submissions (record session actions).events).getLast? = some ['c'] := by
    decide +kernel
  obtain ⟨report, hlatest, hreport, -⟩ :=
    (record_keepsFinalEdit session actions).latest hidle ['c'] hlast
      ((record_keepsFinalEdit session actions).unbroken (by decide) _)
  exact ⟨hidle, by decide +kernel, by decide +kernel, report, hlatest, hreport⟩

end Live

end Offside
