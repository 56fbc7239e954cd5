import Rill.Cli.Command
import Rill.Cli.Disk

/-!
# Running a command

All sources are read before any is compiled, and all are compiled even if some
fail. Output is written only if none fails. The exit status is 0 for success, 1
if reading, compiling or writing failed, 2 if the arguments are wrong, and 101
after a fault.
-/

namespace Rill.Cli

structure Outcome where
  status : Nat
  stdout : String := ""
  stderr : String := ""
  /-- A path and the text to be written there. -/
  output : Option (String × String) := none
  deriving DecidableEq, Repr

def versionText : String := "rillc 0.1.0\n"

def helpText : String :=
  "Usage: rillc [OPTIONS] [SOURCE_FILES]...\n\n"
    ++ "      --emit <EMIT>              ast, optimized-ast or lir [default: lir]\n"
    ++ "  -O, --opt-level <OPT_LEVEL>    0 or 1 [default: 1]\n"
    ++ "      --max-passes <MAX_PASSES>  at most so many optimizer passes [default: 8]\n"
    ++ "  -j, --jobs <JOBS>              number of jobs [default: 1]\n"
    ++ "  -o, --output <OUTPUT>          write to a file instead of standard output\n"
    ++ "      --no-color\n"
    ++ "  -v, --verbose\n"
    ++ "  -h, --help\n"
    ++ "  -V, --version\n"

def Stop.outcome : Stop → Outcome
  | .version => { status := 0, stdout := versionText }
  | .help => { status := 0, stdout := helpText }
  | .misuse message => { status := 2, stderr := "error: " ++ message ++ "\n" }

namespace Outcome

def failure (message : String) : Outcome :=
  { status := 1, stderr := "Error: " ++ message ++ "\n" }

/-- A failure that something else caused. -/
def failureBy (message cause : String) : Outcome :=
  failure (message ++ "\n\nCaused by:\n    " ++ cause)

def unreadable (path : String) : Outcome :=
  failureBy s!"failed to read '{path}'" "stream did not contain valid UTF-8"

def unwritable (path cause : String) : Outcome :=
  failureBy s!"failed to write output to '{path}'" cause

def fault : Outcome := { status := 101 }

end Outcome

/-- The contents of a source path, which has to name a file. -/
def lookAt (disk : Disk) (path : String) : Except Outcome ByteArray :=
  match disk.look path with
  | some (.file bytes) => .ok bytes
  | some .directory =>
    .error (Stop.misuse s!"Input path '{path}' is not a file!").outcome
  | none => .error (Stop.misuse s!"Source file '{path}' does not exist!").outcome

def decode (path : String) (bytes : ByteArray) : Except Outcome Source :=
  match String.fromUTF8? bytes with
  | some text => .ok { text, origin := .file path }
  | none => .error (.unreadable path)

/-- What has come of the sources so far. -/
structure Progress where
  rendered : String := ""
  reports : String := ""
  failed : Nat := 0
  deriving DecidableEq, Repr

/-- Compiles one more source. Its output or its report is added. -/
def Progress.next (options : Options) (p : Progress) (source : Source) :
    Except Fault Progress :=
  match source.compile .plain options with
  | .ok text => .ok { p with rendered := p.rendered ++ text }
  | .error failure => do
    let report ← failure.report .plain source
    return { p with reports := p.reports ++ report ++ "\n\n", failed := p.failed + 1 }

def Progress.outcome (disk : Disk) (output : Option String) (p : Progress) : Outcome :=
  if 0 < p.failed then
    let last := Outcome.failure s!"could not compile {p.failed} source file(s)"
    { last with stderr := p.reports ++ last.stderr }
  else
    match output with
    | none => { status := 0, stdout := p.rendered }
    | some path =>
      match disk.refusal path with
      | some error => .unwritable path error.message
      | none => { status := 0, output := some (path, p.rendered) }

def execute (disk : Disk) (args : List String) : Except Outcome Outcome := do
  let command ← (Command.ofArgs args).mapError Stop.outcome
  let options ← command.options.mapError Stop.outcome
  let contents ← command.sources.mapM fun path => return (path, ← lookAt disk path)
  let sources ← contents.mapM fun (path, bytes) => decode path bytes
  let progress ← (sources.foldlM (Progress.next options) {}).mapError fun _ => Outcome.fault
  return progress.outcome disk command.output

def run (disk : Disk) (args : List String) : Outcome :=
  match execute disk args with
  | .ok outcome | .error outcome => outcome

end Rill.Cli
