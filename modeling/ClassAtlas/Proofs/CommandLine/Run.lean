/-
What a run changes.

A run with options ends in one of three ways (`Ran`): it fails, prints the report, or writes it. Only the last changes the
workspace, and then at one place. The report does not depend on the output, and it is made before the output file is
written, so a run that writes has the report of the run that prints, even where the output file is one of those analyzed
(`run_effects`).
-/
import ClassAtlas.CommandLine.Run
import ClassAtlas.Proofs.CommandLine.Arguments
import ClassAtlas.Proofs.Workspace.Write

namespace ClassAtlas.CommandLine

/-- how a run with these options can end -/
inductive Ran (w : Workspace) (o : Options) : Outcome → Prop
  | failed (message : Text) : Ran w o ⟨1, [], message, w⟩
  | printed {text : Text} (hrender : render w o = .ok text) (houtput : o.output = none) :
      Ran w o ⟨0, text ++ ['\n'], [], w⟩
  | written {text : Text} {file : Path} {after : Workspace} (hrender : render w o = .ok text)
      (houtput : o.output = some file) (hwrite : w.write file text = .ok after) : Ran w o ⟨0, [], [], after⟩

theorem ran_execute (w : Workspace) (o : Options) : Ran w o (execute w o) := by
  unfold execute
  cases hrender : render w o with
  | error e => exact .failed _
  | ok text =>
    dsimp only [bind, Except.bind]
    unfold deliver
    cases houtput : o.output with
    | none => exact .printed hrender houtput
    | some file =>
      cases hwrite : w.write file text with
      | error e =>
        dsimp only
        rw [hwrite]
        exact .failed _
      | ok after =>
        dsimp only
        rw [hwrite]
        exact .written hrender houtput hwrite

/-- without an output the report is printed -/
theorem execute_without_output {w : Workspace} {o : Options} {text : Text} (h : render w o = .ok text) :
    execute w { o with output := none } = ⟨0, text ++ ['\n'], [], w⟩ := by
  unfold execute
  rw [show render w { o with output := none } = .ok text from h]
  rfl

/-- one run writes to a file what another prints in the same workspace -/
structure WritesReport (w : Workspace) (file : Path) (written printed : Outcome) : Prop where
  silent : written.stdout = []
  success : printed.code = 0
  content : ∃ text, written.workspace.readBytes file = .ok (Text.encodeUtf8 text) ∧ printed.stdout = text ++ ['\n']
  others : ∃ place, written.workspace.resolve file = .ok place ∧
    ∀ q, q ≠ place → written.workspace.item? q = w.item? q

theorem AddsOutput.writesReport {w after : Workspace} {args others : List Text} {o : Options} {file : Path} {text : Text}
    (h : AddsOutput file others args) (hread : Options.read args = .ok o) (hrender : render w o = .ok text)
    (hwrite : w.write file text = .ok after) : WritesReport w file ⟨0, [], [], after⟩ (run w others) := by
  -- both runs make the report in the workspace as it was, so the file may be one of those that are read
  have hprinted : run w others = ⟨0, text ++ ['\n'], [], w⟩ := by
    rw [run, (h.read_eq hread).2]
    exact execute_without_output hrender
  obtain ⟨place, hresolve, hput⟩ := Workspace.resolve_write hwrite
  rw [hprinted]
  exact ⟨rfl, rfl, ⟨text, Workspace.readBytes_write hwrite, rfl⟩, ⟨place, hresolve, hput.others⟩⟩

/-- a run that fails prints nothing and changes nothing; one with an output option prints nothing and writes to that file,
and to no other, what it would print without the option; any other leaves the workspace as it is -/
theorem run_effects (w : Workspace) (args : List Text) (hversion : Options.read args ≠ .error .version)
    (hhelp : Options.read args ≠ .error .help) :
    ((run w args).code ≠ 0 → (run w args).stdout = [] ∧ (run w args).workspace = w) ∧
      ((run w args).code = 0 →
        (∀ file others, AddsOutput file others args → WritesReport w file (run w args) (run w others)) ∧
        ((∀ file others, ¬ AddsOutput file others args) → (run w args).workspace = w)) := by
  cases hread : Options.read args with
  | error stop =>
    cases stop with
    | version => exact absurd hread hversion
    | help => exact absurd hread hhelp
    | usage =>
      have hrun : run w args = ⟨2, [], usageText, w⟩ := by
        rw [run, hread]
        rfl
      rw [hrun]
      exact ⟨fun _ => ⟨rfl, rfl⟩, nofun⟩
  | ok o =>
    have hrun : Ran w o (run w args) := by
      rw [run, hread]
      exact ran_execute w o
    generalize run w args = outcome at hrun ⊢
    cases hrun with
    | failed message => exact ⟨fun _ => ⟨rfl, rfl⟩, nofun⟩
    | printed hrender houtput =>
      refine ⟨fun hcode => absurd rfl hcode, fun _ => ⟨?_, fun _ => rfl⟩⟩
      intro file others hadds
      have hfile := (hadds.read_eq hread).1
      rw [houtput] at hfile
      cases hfile
    | written hrender houtput hwrite =>
      refine ⟨fun hcode => absurd rfl hcode, fun _ => ⟨?_, ?_⟩⟩
      · intro file others hadds
        have hfile := (hadds.read_eq hread).1
        rw [houtput] at hfile
        obtain rfl := Option.some.inj hfile
        exact hadds.writesReport hread hrender hwrite
      · intro hnone
        obtain ⟨others, hadds⟩ := exists_addsOutput hread houtput
        exact absurd hadds (hnone _ others)

/-- a run succeeds if its input is a directory and its output can be written -/
theorem execute_code_eq_zero {w : Workspace} {o : Options} {ps : List Project} {file : Path} {place : Place}
    (hprojects : Discovery.projects w o.input = .ok ps) (houtput : o.output = some file)
    (htarget : w.target file = .ok place) : (execute w o).code = 0 := by
  have hrender : ∃ text, render w o = .ok text := by
    unfold render Discovery.analyze
    rw [hprojects]
    exact ⟨_, rfl⟩
  obtain ⟨text, hrender⟩ := hrender
  have hdeliver : ∃ after, deliver w o text = .ok ([], after) := by
    unfold deliver
    rw [houtput]
    dsimp only
    rw [Workspace.write, htarget]
    exact ⟨_, rfl⟩
  obtain ⟨after, hdeliver⟩ := hdeliver
  unfold execute
  rw [hrender]
  dsimp only [bind, Except.bind]
  rw [hdeliver]

/-- the report on a directory replaces one of its source files -/
def overwriting : List Text := ["-i", "src", "-o=src/A.cs", "-f", "markdown"]

def oneSource : Workspace := (Workspace.empty ["work"]).addFile ⟨"src/A.cs"⟩ (Text.encodeUtf8 "class A { }")

theorem run_effects_overwriting :
    (run oneSource overwriting).code = 0 ∧
      WritesReport oneSource ⟨"src/A.cs"⟩ (run oneSource overwriting) (run oneSource ["-i", "src", "-f", "markdown"]) := by
  have hread : Options.read overwriting = .ok ⟨⟨"src"⟩, some ⟨"src/A.cs"⟩, .markdown, none, false, .warn⟩ := by
    decide +kernel
  have hcode : (run oneSource overwriting).code = 0 := by
    have hprojects : ∃ ps, Discovery.projects oneSource ⟨"src"⟩ = .ok ps := ⟨_, rfl⟩
    have htarget : oneSource.target ⟨"src/A.cs"⟩ = .ok ["work", "src", "A.cs"] := rfl
    obtain ⟨ps, hps⟩ := hprojects
    rw [run, hread]
    exact execute_code_eq_zero hps rfl htarget
  have hadds : AddsOutput ⟨"src/A.cs"⟩ ["-i", "src", "-f", "markdown"] overwriting := by
    refine ⟨["-i", "src"], [['-', 'o'] ++ '=' :: ("src/A.cs" : Text)], ["-f", "markdown"], rfl, rfl, ?_⟩
    exact .equals (.letter (by decide))
  refine ⟨hcode, ((run_effects oneSource overwriting ?_ ?_).2 hcode).1 _ _ hadds⟩
  · rw [hread]
    nofun
  · rw [hread]
    nofun

end ClassAtlas.CommandLine
