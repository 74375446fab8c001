/-
The program: loads the directory that is asked for and prints or writes the report on it.
-/
import ClassAtlas.CommandLine.Run

namespace ClassAtlas.Program

/-- a directory entry as a node; the content is loaded of source files only, and one that cannot be read is left out -/
partial def loadEntry (e : IO.FS.DirEntry) : IO (Option (Text × Tree)) := do
  let name := e.fileName.toList
  match (← e.path.symlinkMetadata).type with
  | .dir =>
    if Discovery.isPassedOver name then return none
    let entries ← (← e.path.readDir).toList.filterMapM loadEntry
    return some (name, .directory entries)
  | .file =>
    if !Discovery.hasSuffix Discovery.sourceSuffix ⟨name⟩ then return some (name, .file [])
    try return some (name, .file (← IO.FS.readBinFile e.path).toList)
    catch _ => return none
  | _ => return none

/-- the workspace with the input directory; without it if it cannot be read -/
def load (input : Path) : IO Workspace := do
  let current := (Path.mk (← IO.currentDir).toString.toList).segments
  let w := Workspace.empty current
  try
    let directory ← IO.FS.realPath (String.ofList input.text)
    let entries ← (← directory.readDir).toList.filterMapM loadEntry
    let starts := (List.range (input.text.length + 1)).map fun n => Path.mk (input.text.take n)
    let w := starts.foldl (fun w p => if p.endsWithSlash then w.addDirectory p else w) w
    return w.put (w.placeOf input) (.directory entries)
  catch _ => return w

def print (stream : IO.FS.Stream) (text : Text) : IO Unit := do
  stream.putStr (String.ofList text)
  stream.flush

def finish (o : CommandLine.Outcome) : IO UInt32 := do
  print (← IO.getStdout) o.stdout
  print (← IO.getStderr) o.stderr
  return o.code.toUInt32

/-- the error of the file system behind an error of a run -/
def systemError? : IO.Error → Option SystemError
  | .noFileOrDirectory .. => some .notFound
  | .inappropriateType _ 20 _ => some .notDirectory
  | .inappropriateType _ 21 _ => some .isDirectory
  | .invalidArgument _ 36 _ => some .nameTooLong
  | _ => none

/-- writes the report to a file -/
def save (path : Path) (text : Text) : IO UInt32 := do
  try
    IO.FS.writeFile (String.ofList path.text) (String.ofList text)
    return 0
  catch e =>
    let message := ((systemError? e).map SystemError.message).getD (toString e).toList
    print (← IO.getStderr) (CommandLine.errorLine message)
    return 1

end ClassAtlas.Program

open ClassAtlas in
/-- the program -/
def main (args : List String) : IO UInt32 := do
  match CommandLine.Options.read (args.map String.toList) with
  | .error stop => Program.finish (stop.outcome (Workspace.empty []))
  | .ok options =>
    let w ← Program.load options.input
    match options.output, CommandLine.render w options with
    | some path, .ok text => Program.save path text
    | _, _ => Program.finish (CommandLine.execute w options)
