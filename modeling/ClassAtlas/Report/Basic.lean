/-
Reports: what an analysis found.
-/
import ClassAtlas.ClassEntry
import ClassAtlas.Registry

namespace ClassAtlas

/-- the two passes over the files -/
inductive Phase where
  /-- declared classes are registered -/
  | registration
  /-- dependencies are extracted -/
  | extraction
deriving DecidableEq, Repr

namespace Phase

def name : Phase → Text
  | registration => "registration"
  | extraction => "extraction"

def all : List Phase := [registration, extraction]

def ofName? (s : Text) : Option Phase := all.find? fun p => p.name == s

end Phase

/-- a file that could not be read in one phase -/
structure Failure where
  project : Text
  file : Path
  phase : Phase
  message : Text
deriving DecidableEq, Repr

/-- counts are below 2^64 -/
def countLimit : Nat := 18446744073709551616

structure Report where
  entries : List ClassEntry
  failures : List Failure
  collisions : List Collision
  /-- how many files were given, unreadable ones included -/
  fileCount : Nat
deriving DecidableEq, Repr

end ClassAtlas
