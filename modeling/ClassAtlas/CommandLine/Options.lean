/-
The options of the command line.

Arguments are read in their order, and the first one that is wrong, or that asks for the version or for help, decides.
An option's value follows it as the next argument, after an equals sign, or, for a short option, directly. The next
argument is no value if it looks like an option itself. No option may be given twice, and nothing but options is
accepted; `--` may end them. The input is required.
-/
import ClassAtlas.Report.Style

namespace ClassAtlas.CommandLine

inductive Format where
  | json
  | jsonPretty
  | markdown
deriving DecidableEq, Repr

namespace Format

def name : Format → Text
  | json => "json"
  | jsonPretty => "json-pretty"
  | markdown => "markdown"

def all : List Format := [json, jsonPretty, markdown]

def ofName? (s : Text) : Option Format := all.find? fun f => f.name == s

/-- the style of a report in this format -/
def style : Format → Style
  | json => .compact .flat
  | jsonPretty => .full .indented
  | markdown => .markdown true

end Format

inductive Verbosity where
  | trace
  | debug
  | info
  | warn
  | error
deriving DecidableEq, Repr

namespace Verbosity

def name : Verbosity → Text
  | trace => "trace"
  | debug => "debug"
  | info => "info"
  | warn => "warn"
  | error => "error"

def all : List Verbosity := [trace, debug, info, warn, error]

def ofName? (s : Text) : Option Verbosity := all.find? fun l => l.name == s

end Verbosity

/-- what a command line asks for -/
structure Options where
  input : Path
  output : Option Path
  format : Format
  jobs : Option Nat
  sequential : Bool
  verbosity : Verbosity
deriving DecidableEq, Repr

/-- why no options come out -/
inductive Stop where
  /-- the arguments are wrong -/
  | usage
  | version
  | help
deriving DecidableEq, Repr

/-- options with a value -/
inductive Setting where
  | input
  | output
  | format
  | jobs
  | verbosity
deriving DecidableEq, Repr

/-- options without a value -/
inductive Switch where
  | sequential
  | version
  | help
deriving DecidableEq, Repr

/-- an option -/
inductive Flag where
  | setting (s : Setting)
  | switch (s : Switch)
deriving DecidableEq, Repr

namespace Flag

/-- the options by their long names -/
def longNames : List (Text × Flag) :=
  [("input", .setting .input), ("output", .setting .output), ("format", .setting .format), ("jobs", .setting .jobs),
   ("log-level", .setting .verbosity), ("sequential", .switch .sequential), ("version", .switch .version),
   ("help", .switch .help)]

/-- the options by their letters -/
def letters : List (Char × Flag) :=
  [('i', .setting .input), ('o', .setting .output), ('f', .setting .format), ('j', .setting .jobs),
   ('V', .switch .version), ('h', .switch .help)]

def ofLong? (name : Text) : Option Flag := (longNames.find? fun f => f.1 == name).map Prod.snd

def ofLetter? (c : Char) : Option Flag := (letters.find? fun f => f.1 == c).map Prod.snd

end Flag

/-- the options read so far -/
structure Draft where
  input : Option Path := none
  output : Option Path := none
  format : Option Format := none
  jobs : Option Nat := none
  sequential : Bool := false
  verbosity : Option Verbosity := none
deriving DecidableEq, Repr

/-- a path, which is not empty -/
def path? (s : Text) : Option Path := if s.isEmpty then none else some ⟨s⟩

/-- a count in decimal digits, with an optional plus sign -/
def count? (s : Text) : Option Nat :=
  let digits := match s with
    | '+' :: rest => rest
    | rest => rest
  if digits.isEmpty || !digits.all Char.isDigit then none
  else (some (Nat.ofDigitChars 10 digits 0)).filter fun n => n < countLimit

/-- gives an option its value unless it has one -/
def once {α : Type} (present : Option α) (value : Option α) : Except Stop (Option α) :=
  match present, value with
  | none, some v => .ok (some v)
  | _, _ => .error .usage

namespace Draft

def set (d : Draft) (s : Setting) (value : Text) : Except Stop Draft :=
  match s with
  | .input => do return { d with input := ← once d.input (path? value) }
  | .output => do return { d with output := ← once d.output (path? value) }
  | .format => do return { d with format := ← once d.format (Format.ofName? value) }
  | .jobs => do return { d with jobs := ← once d.jobs (count? value) }
  | .verbosity => do return { d with verbosity := ← once d.verbosity (Verbosity.ofName? value) }

def turnOn (d : Draft) : Switch → Except Stop Draft
  | .sequential => if d.sequential then .error .usage else .ok { d with sequential := true }
  | .version => .error .version
  | .help => .error .help

/-- the options, if the input is among them -/
def finish (d : Draft) : Except Stop Options :=
  match d.input with
  | none => .error .usage
  | some input => .ok {
      input := input
      output := d.output
      format := d.format.getD .json
      jobs := d.jobs
      sequential := d.sequential
      verbosity := d.verbosity.getD .warn }

end Draft

/-- the outcome of one argument -/
inductive Progress where
  | done (d : Draft)
  /-- the next argument is the value of the option -/
  | awaiting (d : Draft) (s : Setting)

/-- an argument after its two hyphens -/
def readLong (d : Draft) (body : Text) : Except Stop Progress :=
  let (name, value) := match Text.splitFirst? '=' body with
    | some (name, value) => (name, some value)
    | none => (body, none)
  match Flag.ofLong? name, value with
  | some (.setting s), some v => Progress.done <$> d.set s v
  | some (.setting s), none => .ok (.awaiting d s)
  | some (.switch s), none => Progress.done <$> d.turnOn s
  | some (.switch _), some _ => .error .usage
  | none, _ => .error .usage

/-- an argument after its single hyphen: letters of switches, and at most one other option, with its value -/
def readLetters (d : Draft) : Text → Except Stop Progress
  | [] => .ok (.done d)
  | c :: rest =>
    match Flag.ofLetter? c with
    | none => .error .usage
    | some (.switch s) => do readLetters (← d.turnOn s) rest
    | some (.setting s) =>
      match rest with
      | [] => .ok (.awaiting d s)
      | '=' :: value => Progress.done <$> d.set s value
      | value => Progress.done <$> d.set s value

/-- does the argument start like an option? A single hyphen is a value. -/
def looksLikeOption : Text → Bool
  | '-' :: _ :: _ => true
  | _ => false

/-- one argument that is not a value -/
def readArgument (d : Draft) : Text → Except Stop Progress
  | '-' :: '-' :: body => readLong d body
  | '-' :: c :: rest => readLetters d (c :: rest)
  | _ => .error .usage

/-- the end of the options -/
def endMark : Text := ['-', '-']

def readArguments (d : Draft) : List Text → Except Stop Draft
  | [] => .ok d
  | arg :: rest =>
    if arg = endMark then if rest.isEmpty then .ok d else .error .usage
    else
      match readArgument d arg with
      | .error stop => .error stop
      | .ok (.done d) => readArguments d rest
      | .ok (.awaiting d s) =>
        match rest with
        | [] => .error .usage
        | value :: rest =>
          if looksLikeOption value then .error .usage
          else
            match d.set s value with
            | .error stop => .error stop
            | .ok d => readArguments d rest

namespace Options

/-- the options that arguments give -/
def read (args : List Text) : Except Stop Options := do (← readArguments {} args).finish

end Options

end ClassAtlas.CommandLine
