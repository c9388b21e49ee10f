/-
# The command line

A command reads its document and prints what it makes of it. The settings are put
together before anything else is looked at, and a document is read before the program
that runs it is looked for, so the first of several mistakes is the one reported.

The exit status is zero if all went well, two if the arguments make no sense, and one
if something failed, a document's own run included.
-/

import Offside.Cli.Usage
import Offside.Files
import Offside.Fragment
import Offside.Report.Json
import Offside.Report.Yaml
import Offside.Run.Program
import Offside.Settings

namespace Offside.Cli

/-- What a command leaves behind. -/
structure Result where
  /-- What it printed. -/
  output : List Char := []
  /-- What it complains about, if it failed itself. -/
  complaint : Option (List Char) := none
  /-- The exit status. -/
  status : Nat := 0
  deriving DecidableEq, Repr

namespace Result

/-- A command that printed a text. -/
def printed (output : List Char) : Result := { output }

/-- A command that failed. -/
def failed (complaint : List Char) : Result := { complaint := some complaint, status := 1 }

/-- Arguments that make no sense. -/
def misused : Result := { status := 2 }

/-- The complaint as it is shown. -/
def complaintLine? (result : Result) : Option (List Char) :=
  result.complaint.map ("Error: ".toList ++ ·)

end Result

/-- The answer to the request for the version. -/
def versionText : List Char := "unv 0.1.0\n".toList

/-- The complaint about a missing terminal. -/
def noTerminal : List Char := "No such device or address (os error 6)".toList

/-! ## Settings -/

/-- The path of a settings file whose extension was left out: the usual extension is
added to the last name of the path. Slashes and single points behind that name do not
count, and a path that ends by leading back has no last name. -/
def withExtension? (path : List Char) : Option (List Char) :=
  match (path.splitOn '/').reverse.dropWhile fun name => name = [] || name = ['.'] with
  | [] | ['.', '.'] :: _ => none
  | names => some (List.intercalate ['/'] names.reverse ++ ".toml".toList)

/-- The settings file of a path: the file itself, or else the file with the usual
extension. A file whose bytes are not text counts as missing. -/
def settingsFile (files : Files) (path : List Char) : Settings.File :=
  let content := (files.content? path).or ((withExtension? path).bind files.content?)
  { text := content.bind Text.ofUtf8?, optional := false }

/-- The settings for an invocation. -/
def settingsOf (files : Files) (config : Option (List Char)) : Except SettingsError Settings :=
  Settings.load (config.map (settingsFile files)).toList []

/-- The complaint about settings. -/
def settingsComplaint : SettingsError → String
  | .missingFile => "invalid configuration: the file is missing"
  | .malformedFile => "invalid configuration: the file is malformed"
  | .malformedPath => "invalid configuration: a key is malformed"
  | .unsuitableValue => "invalid configuration: a value is unsuitable"
  | .unsuitableForm => "invalid configuration: a section is unsuitable"

/-! ## Commands -/

/-- Read a document. -/
def readDocument (files : Files) (path : List Char) : Except (List Char) (List Char) :=
  match files.read path with
  | .ok document => .ok document
  | .error error =>
    .error ("cannot read ".toList ++ path ++ [':', ' '] ++ error.message.toList)

/-- The executor that the settings ask for. -/
def executorOf (host : Host) (settings : Settings) : Except (List Char) Executor :=
  match Program.locate host settings.runtime.node with
  | .ok program => .ok ({ program with limit := settings.runtime.timeoutMs }.executor host)
  | .error error => .error error.message

/-- The compiled unit of a document. -/
def compileDocument (settings : Settings) (document : List Char) :
    Except (List Char) CodeUnit :=
  match compile settings.compile (transpile settings.transpile document) with
  | .ok unit => .ok unit
  | .error error => .error ("compile error: ".toList ++ error.message.toList)

/-- A report in a format. -/
def Format.render (format : Format) (report : Report) : List Char :=
  match format with
  | text => report.log.flatMap fun entry => entry ++ ['\n']
  | json => Report.Json.render report
  | yaml => Report.Yaml.render report

/-- The report of the only run of a document. -/
def reportOf (settings : Settings) (executor : Executor) (document : List Char) : Report :=
  let session : Session :=
    { executor
      transpileOptions := settings.transpile
      compileOptions := settings.compile }
  (session.run document).1

/-- The document that the playground starts with. A file that is not there yet starts
with the document for beginners. -/
def startingDocument (files : Files) (path fragment : Option (List Char)) :
    Except (List Char) (List Char) :=
  match path with
  | none => .ok (Fragment.restore fragment)
  | some path =>
    if files.contains path then readDocument files path else .ok Fragment.starterDocument

/-- Carry out a command, which answers what it prints and its exit status. -/
def execute (host : Host) (files : Files) (settings : Settings) :
    Command → Except (List Char) (List Char × Nat)
  | .transpile path => do
    return (transpile settings.transpile (← readDocument files path), 0)
  | .compile path => do
    return ((← compileDocument settings (← readDocument files path)).code, 0)
  | .run path format => do
    let document ← readDocument files path
    let executor ← executorOf host settings
    let report := reportOf settings executor document
    return (format.render report, if report.succeeded then 0 else 1)
  | .share path base => do
    let document ← readDocument files path
    let shared := match base with
      | some base => Fragment.shareUrl base document
      | none => '#' :: Fragment.encode document
    return (shared ++ ['\n'], 0)
  | .restore fragment =>
    match Fragment.decode fragment with
    | .ok document => .ok (document, 0)
    | .error error => .error error.message.toList
  | .play path fragment => do
    let _ ← startingDocument files path fragment
    let _ ← executorOf host settings
    .error noTerminal

/-- The path of the file that a command reads. -/
def Command.path? : Command → Option (List Char)
  | .transpile path | .compile path | .run path _ | .share path _ => some path
  | .restore _ => none
  | .play path _ => path

/-- The paths of all files that a list of arguments may ask to read. -/
def pathsOf (arguments : List (List Char)) : List (List Char) :=
  match Request.ofArguments arguments with
  | .help | .version | .misuse => []
  | .invoke config command =>
    command.path?.toList ++ config.toList ++ (config.bind withExtension?).toList

/-- Answer a list of arguments, without a terminal. -/
def run (host : Host) (files : Files) (arguments : List (List Char)) : Result :=
  match Request.ofArguments arguments with
  | .help => {}
  | .version => .printed versionText
  | .misuse => .misused
  | .invoke config command =>
    match settingsOf files config with
    | .error error => .failed (settingsComplaint error).toList
    | .ok settings =>
      match execute host files settings command with
      | .ok (output, status) => { output, status }
      | .error complaint => .failed complaint

end Offside.Cli
