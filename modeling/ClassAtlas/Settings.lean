/-
How much work may go on at once. A report does not depend on it.
-/

namespace ClassAtlas

structure Settings where
  /-- how many files are read at once -/
  workers : Nat
  /-- are dependencies extracted from several files at once? -/
  parallel : Bool
  workers_pos : 0 < workers
deriving DecidableEq, Repr

namespace Settings

/-- one file after another -/
def sequential : Settings := ⟨1, false, by decide⟩

/-- with this many workers, but at least one -/
def withWorkers (s : Settings) (n : Nat) : Settings :=
  { s with workers := max n 1, workers_pos := Nat.lt_of_lt_of_le Nat.one_pos (Nat.le_max_right n 1) }

def withParallel (s : Settings) (parallel : Bool) : Settings := { s with parallel := parallel }

end Settings

end ClassAtlas
