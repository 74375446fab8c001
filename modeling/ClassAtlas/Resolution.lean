/-
Resolving the names that a class refers to.

A dotted name is looked up as it stands. A bare name is looked up in the namespace of its file, then in each imported
namespace, and last among the classes outside any namespace. A name that is found nowhere belongs to the external
project.
-/
import ClassAtlas.ClassEntry
import ClassAtlas.Grouping
import ClassAtlas.Registry
import ClassAtlas.FileOutline

namespace ClassAtlas

namespace Resolution

def unknownScope : Text := "unknown"

def externalProject : Text := "external"

/-- the class of that name with this owner -/
def owned (name : Text) (o : Owner) : ClassId := ⟨name, o.scope, o.project⟩

/-- the scopes in which a bare name is looked up -/
def scopes (fileScope : Text) (imports : List Text) : List Text :=
  (if fileScope.isEmpty then [] else [fileScope]) ++ imports

/-- the class that a dotted name means -/
def resolveDotted (r : Registry) (name scope last : Text) : ClassId :=
  match r.lookup? name with
  | some owner => owned last owner
  | none => ⟨last, scope, externalProject⟩

/-- the owner of a class outside any namespace -/
def globalOwner? (r : Registry) (name : Text) : Option Owner :=
  (r.lookup? name).filter fun owner => owner.scope.isEmpty

/-- the class that a bare name means -/
def resolveBare (r : Registry) (name fileScope : Text) (imports : List Text) : ClassId :=
  let inScope := (scopes fileScope imports).findSome? fun scope => r.lookup? (scope ++ '.' :: name)
  match inScope.or (globalOwner? r name) with
  | some owner => owned name owner
  | none => ⟨name, unknownScope, externalProject⟩

/-- the class that a name means in a file; none if the name, or its part after the last point, is empty -/
def resolve? (r : Registry) (name fileScope : Text) (imports : List Text) : Option ClassId :=
  match Text.splitLast? '.' name with
  | some (scope, last) => if last.isEmpty then none else some (resolveDotted r name scope last)
  | none => if name.isEmpty then none else some (resolveBare r name fileScope imports)

/-- the names that a class refers to, apart from its own name and the built-in types -/
def referredNames (o : Outline) : List Text :=
  let names := (o.references.flatMap TypeTree.names).map TypeTree.nominalName
  names.filter fun name => !(Vocabulary.isStandardType name || name == o.name)

/-- the classes that a class of a file depends on, each once, in the order of their first reference. Each name is
resolved once. -/
def dependencies (r : Registry) (file : FileOutline) (o : Outline) : List ClassId :=
  distinct ((distinct (referredNames o)).filterMap fun name => resolve? r name file.scope file.imports)

/-- the entries of the classes of a file -/
def entries (r : Registry) (project : Text) (path : Path) (file : FileOutline) : List ClassEntry :=
  file.classes.map fun o => ⟨⟨o.name, file.scope, project⟩, path, dependencies r file o⟩

end Resolution

end ClassAtlas
