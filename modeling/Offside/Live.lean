/-
# Live sessions

An editor submits documents faster than they can be run. A live session runs one
document at a time and always the newest: what was submitted in between is dropped,
and a report that a newer document has overtaken is not published.

Submissions and reports travel through channels that keep their newest value
together with a version, which counts the values sent. Every receiver remembers
the version that it saw last, and so knows whether there is something new.

The worker goes through five phases. It waits for a change, takes the newest
document, runs it, looks whether a newer one has come, and publishes. A submission
may come between any two of these steps. The version of the document goes along
with it, so that what was overtaken can be told from what was not.

A run may also break down. It then leaves no report, and the worker waits for the next
change.
-/

import Offside.Session

namespace Offside

/-- A channel that keeps its newest value. -/
structure Channel (α : Type) where
  /-- The newest value, if one was sent. -/
  newest : Option α := none
  /-- The number of values sent. -/
  version : Nat := 0
  deriving DecidableEq, Repr

/-- Send a value. -/
def Channel.send {α : Type} (channel : Channel α) (value : α) : Channel α :=
  ⟨some value, channel.version + 1⟩

/-- What the worker of a live session is doing. -/
inductive Phase
  /-- Waiting for a document. -/
  | waiting
  /-- Called by a change, and about to take the newest document. -/
  | called
  /-- Running a document, the one with this number. -/
  | running (source : List Char) (number : Nat)
  /-- Done with a run, and about to look for a newer document. -/
  | finished (report : Report) (number : Nat)
  /-- About to publish a report that nothing had overtaken. -/
  | publishing (report : Report) (number : Nat)
  deriving DecidableEq, Repr

/-- A live session. -/
structure Live where
  /-- The stages, and the number of runs so far. -/
  session : Session
  /-- The submitted documents. -/
  documents : Channel (List Char) := {}
  /-- The version of the documents that the worker saw last. -/
  workerSeen : Nat := 0
  /-- What the worker is doing. -/
  phase : Phase := .waiting
  /-- The published reports. -/
  reports : Channel Report := {}
  /-- The version of the reports that the reader saw last. -/
  readerSeen : Nat := 0

namespace Live

/-- Submit a document. -/
def submit (live : Live) (source : List Char) : Live :=
  { live with documents := live.documents.send source }

/-- The next step of the worker, if there is one. It has none only while it waits
and has seen every document. A run that it is in comes to its end. -/
def workerStep? (live : Live) : Option Live :=
  match live.phase with
  | .waiting =>
    if live.workerSeen = live.documents.version then none
    else some { live with phase := .called, workerSeen := live.documents.version }
  | .called =>
    let phase := match live.documents.newest with
      | some source => Phase.running source live.documents.version
      | none => .waiting
    some { live with phase, workerSeen := live.documents.version }
  | .running source number =>
    let (report, session) := live.session.run source
    some { live with phase := .finished report number, session }
  | .finished report number =>
    if live.workerSeen = live.documents.version then
      some { live with phase := .publishing report number }
    else some { live with phase := .waiting }
  | .publishing report _ =>
    some { live with phase := .waiting, reports := live.reports.send report }

/-- The run in progress, if there is one, breaks down: there is no report of it, and the
worker is back to waiting. In the session the run counts all the same. -/
def breakDown (live : Live) : Live :=
  match live.phase with
  | .running source _ =>
    { live with phase := .waiting, session := (live.session.run source).2 }
  | _ => live

/-- The report published last. -/
def latest (live : Live) : Option Report := live.reports.newest

/-- A report published since the last one read, if there is one. -/
def poll (live : Live) : Option Report × Live :=
  if live.readerSeen = live.reports.version then (none, live)
  else (live.reports.newest, { live with readerSeen := live.reports.version })

/-- Let the worker take at most `steps` steps. -/
def work (live : Live) : (steps : Nat) → Live
  | 0 => live
  | steps + 1 =>
    match live.workerStep? with
    | some next => next.work steps
    | none => live

/-- Let the worker go on until it has nothing left to do. Five steps finish what it
is doing, and five more deal with the newest document. -/
def settle (live : Live) : Live := live.work 10

/-- Submit a document and wait for the next report. -/
def submitAndWait (live : Live) (source : List Char) : Option Report × Live :=
  (live.submit source).settle.poll

/-- Submit a document, submit others while it is running, and wait for the next
report. Two steps bring the worker from waiting to running. -/
def burst (live : Live) (first : List Char) (others : List (List Char)) :
    Option Report × Live :=
  (others.foldl submit ((live.submit first).work 2)).settle.poll

end Live

end Offside
