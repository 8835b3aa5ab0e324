import PipeFabric.Table.CuckooTable
import PipeFabric.Table.StateContext

/-!
# The state after a serial history

What the tables of a group hold after transactions that ran one after the
other, when every write replaces the value of its key.
-/

namespace PipeFabric

variable {K R : Type}

/-- What a transaction wrote to each table, in order. -/
abbrev Writes (K R : Type) := TableID → List (K × R)

/-- The contents of the tables after a history of transactions, the newest
first. -/
def stateAfter [DecidableEq K] :
    List (Writes K R) → TableID → K → Option R
  | [], _ => fun _ => none
  | writes :: older, i => WriteFold.overwrite (stateAfter older i) (writes i)

end PipeFabric
