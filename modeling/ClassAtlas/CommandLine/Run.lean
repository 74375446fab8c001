/-
A run of the command line in a workspace.

The report goes to standard output with a line feed after it, or, as it is, to the output file. A run that fails
writes nothing but a message.
-/
import ClassAtlas.CommandLine.Options
import ClassAtlas.Workspace.Discovery

namespace ClassAtlas.CommandLine

def versionText : Text := "classweb 0.1.0\n"

def usageText : Text :=
  ("usage: --input PATH [--output FILE] [--format json|json-pretty|markdown] [--jobs N]" : Text) ++
    (" [--sequential] [--log-level LEVEL]\n" : Text)

inductive RunError where
  | discovery (e : DiscoveryError)
  | output (e : SystemError)
deriving DecidableEq, Repr

def RunError.message : RunError → Text
  | discovery e => e.message
  | output e => e.message

/-- the line that tells of an error -/
def errorLine (message : Text) : Text := ("Error: " : Text) ++ message ++ ['\n']

structure Outcome where
  code : Nat
  stdout : Text
  stderr : Text
  workspace : Workspace

/-- what to print when no options come out -/
def Stop.outcome (w : Workspace) : Stop → Outcome
  | usage => ⟨2, [], usageText, w⟩
  | version => ⟨0, versionText, [], w⟩
  | help => ⟨0, usageText, [], w⟩

/-- the report that the options ask for, as text -/
def render (w : Workspace) (o : Options) : Except RunError Text :=
  match Discovery.analyze w o.input with
  | .ok report => .ok (report.render o.format.style)
  | .error e => .error (.discovery e)

/-- prints or writes the report: the text for standard output and the workspace afterwards -/
def deliver (w : Workspace) (o : Options) (text : Text) : Except RunError (Text × Workspace) :=
  match o.output with
  | none => .ok (text ++ ['\n'], w)
  | some path =>
    match w.write path text with
    | .ok w => .ok ([], w)
    | .error e => .error (.output e)

/-- runs with these options -/
def execute (w : Workspace) (o : Options) : Outcome :=
  match render w o >>= deliver w o with
  | .ok (stdout, after) => ⟨0, stdout, [], after⟩
  | .error e => ⟨1, [], errorLine e.message, w⟩

/-- runs with these arguments -/
def run (w : Workspace) (args : List Text) : Outcome :=
  match Options.read args with
  | .ok o => execute w o
  | .error stop => stop.outcome w

end ClassAtlas.CommandLine
