import Rill.Compile

/-!
# The command line

Arguments are taken from left to right. The first one that is wrong, or that
asks for the version or for help, decides; an option that waits for its value
takes the next argument unless that looks like an option. After `--` every
argument is a path. Each option can be given once.
-/

namespace Rill.Cli

inductive Switch where
  | emit
  | level
  | passes
  | jobs
  | output
  | noColor
  | verbose
  | version
  | help
  deriving DecidableEq, Repr

namespace Switch

def takesValue : Switch → Bool
  | .emit | .level | .passes | .jobs | .output => true
  | .noColor | .verbose | .version | .help => false

def long : Switch → String
  | .emit => "emit"
  | .level => "opt-level"
  | .passes => "max-passes"
  | .jobs => "jobs"
  | .output => "output"
  | .noColor => "no-color"
  | .verbose => "verbose"
  | .version => "version"
  | .help => "help"

def short? : Switch → Option Char
  | .level => some 'O'
  | .jobs => some 'j'
  | .output => some 'o'
  | .verbose => some 'v'
  | .version => some 'V'
  | .help => some 'h'
  | .emit | .passes | .noColor => none

def all : List Switch :=
  [.emit, .level, .passes, .jobs, .output, .noColor, .verbose, .version, .help]

def ofLong? (name : String) : Option Switch :=
  all.find? (·.long == name)

def ofShort? (c : Char) : Option Switch :=
  all.find? (·.short? == some c)

end Switch

/-- What the arguments read so far ask for; an option that was not given is `none`. -/
structure Command where
  sources : List String := []
  emit : Option Emit := none
  optimize : Option Bool := none
  passes : Option Nat := none
  jobs : Option Nat := none
  output : Option String := none
  noColor : Bool := false
  verbose : Bool := false
  deriving DecidableEq, Repr

/-- Why the reading of arguments ends early. -/
inductive Stop where
  | version
  | help
  | misuse (message : String)
  deriving DecidableEq, Repr

/-- Digits with an optional plus sign, for a number of 64 bits. -/
def readNat? (text : String) : Option Nat :=
  let digits := match text.toList with
    | '+' :: rest => rest
    | cs => cs
  if digits.isEmpty || !digits.all Char.isDigit then
    none
  else
    let n := Number.ofDigits digits
    if n < 0x10000000000000000 then some n else none

/-- The optimization level is 0 or 1, written with either sign or none. -/
def readLevel? (text : String) : Option Bool :=
  let (negative, digits) := match text.toList with
    | '+' :: rest => (false, rest)
    | '-' :: rest => (true, rest)
    | cs => (false, cs)
  if digits.isEmpty || !digits.all Char.isDigit then
    none
  else
    match Number.ofDigits digits with
    | 0 => some false
    | 1 => if negative then none else some true
    | _ => none

def readEmit? : String → Option Emit
  | "ast" => some .tree
  | "optimized-ast" => some .simplifiedTree
  | "lir" => some .lir
  | _ => none

namespace Command

def repeated (switch : Switch) : Stop :=
  .misuse s!"the argument --{switch.long} cannot be used multiple times"

/-- Stores the value of an option that has none yet. -/
def store {α : Type} (switch : Switch) (old : Option α) (value : Option α) :
    Except Stop (Option α) :=
  match old, value with
  | some _, _ => .error (repeated switch)
  | none, some a => .ok (some a)
  | none, none => .error (.misuse s!"invalid value for --{switch.long}")

def give (c : Command) (switch : Switch) (value : String) : Except Stop Command :=
  match switch with
  | .emit => return { c with emit := ← store switch c.emit (readEmit? value) }
  | .level => return { c with optimize := ← store switch c.optimize (readLevel? value) }
  | .passes => return { c with passes := ← store switch c.passes (readNat? value) }
  | .jobs => return { c with jobs := ← store switch c.jobs (readNat? value) }
  | .output =>
    return { c with
      output := ← store switch c.output (if value.isEmpty then none else some value) }
  | .noColor | .verbose | .version | .help =>
    .error (.misuse s!"unexpected value for --{switch.long}")

/-- Turns on an option that takes no value. -/
def turnOn (c : Command) : Switch → Except Stop Command
  | .noColor => if c.noColor then .error (repeated .noColor) else .ok { c with noColor := true }
  | .verbose => if c.verbose then .error (repeated .verbose) else .ok { c with verbose := true }
  | .version => .error .version
  | .help => .error .help
  | switch => .error (.misuse s!"a value is required for --{switch.long}")

def addSource (c : Command) (path : String) : Except Stop Command :=
  if path.isEmpty then .error (.misuse "a path cannot be empty")
  else .ok { c with sources := c.sources ++ [path] }

end Command

/-- The state between two arguments. -/
structure Reading where
  command : Command := {}
  /-- The option that waits for its value. -/
  pending : Option Switch := none
  onlyPaths : Bool := false
  deriving DecidableEq, Repr

namespace Reading

def missingValue (switch : Switch) : Stop :=
  .misuse s!"a value is required for --{switch.long}"

/-- An option with a long name and perhaps a value after an equals sign. -/
def longOption (r : Reading) (text : List Char) : Except Stop Reading := do
  let name := String.ofList (text.takeWhile (· != '='))
  let attached := (text.dropWhile (· != '=')).tail?
  match Switch.ofLong? name with
  | none => throw (.misuse s!"unexpected argument --{name}")
  | some switch =>
    match switch.takesValue, attached with
    | true, some value =>
      return { r with command := ← r.command.give switch (String.ofList value) }
    | true, none => return { r with pending := some switch }
    | false, some _ => throw (.misuse s!"unexpected value for --{switch.long}")
    | false, none => return { r with command := ← r.command.turnOn switch }

/-- Options with short names: what follows one that takes a value is that value, after an equals
sign or not. -/
def shortOptions (r : Reading) : List Char → Except Stop Reading
  | [] => .ok r
  | c :: rest =>
    match Switch.ofShort? c with
    | none => .error (.misuse s!"unexpected argument -{c}")
    | some switch =>
      if switch.takesValue then
        match rest with
        | [] => .ok { r with pending := some switch }
        | '=' :: value => do
          return { r with command := ← r.command.give switch (String.ofList value) }
        | value => do
          return { r with command := ← r.command.give switch (String.ofList value) }
      else do
        shortOptions { r with command := ← r.command.turnOn switch } rest

def next (r : Reading) (arg : String) : Except Stop Reading :=
  let addSource : Except Stop Reading := do
    return { r with command := ← r.command.addSource arg }
  if r.onlyPaths then
    addSource
  else
    match r.pending, arg.toList with
    | some switch, '-' :: _ :: _ => .error (missingValue switch)
    | some switch, _ => do
      return { r with command := ← r.command.give switch arg, pending := none }
    | none, ['-', '-'] => .ok { r with onlyPaths := true }
    | none, '-' :: '-' :: option => r.longOption option
    | none, '-' :: c :: options => r.shortOptions (c :: options)
    | none, _ => addSource

end Reading

def Command.ofArgs (args : List String) : Except Stop Command := do
  let reading ← args.foldlM Reading.next {}
  match reading.pending with
  | some switch => throw (Reading.missingValue switch)
  | none => return reading.command

/-- The options for the compiler. There has to be a source, a job and a pass. -/
def Command.options (c : Command) : Except Stop Options := do
  let jobs := c.jobs.getD 1
  let passes := c.passes.getD defaultPasses
  if c.sources.isEmpty then
    throw (.misuse "Missing source files!")
  if jobs = 0 then
    throw (.misuse "--jobs must be at least 1")
  if passes = 0 then
    throw (.misuse "--max-passes must be at least 1")
  return { emit := c.emit.getD .lir, optimize := c.optimize.getD true, passes, jobs }

end Rill.Cli
