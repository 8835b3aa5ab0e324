import PipeFabric.Qop.Channels
import PipeFabric.Table.GroupCommit

/-!
# Writing a stream to a transactional table

`ToTxTable` passes the begin, the commit vote and the abort of a transaction to
its table and stores or deletes the elements that arrive.  With `mAutoCommit` it
commits the table after every element.  Elements and punctuations are published
unchanged after the table has returned; the output channels are left out.
-/

namespace PipeFabric

/-- A transaction punctuation carries the id of its transaction; `none` is other
user data, for which the cast throws. -/
structure TxPunctuation where
  ptype : PType
  data : Option Nat

/-- `tuple` reads the tuple an element points to. -/
structure ToTxTable (D K R : Type) where
  mTable : TableID
  mKeyFunc : D → K
  mTxFunc : D → Nat
  tuple : D → R
  mAutoCommit : Bool

namespace ToTxTable

open TransactionalTable

variable {D Tbl K R : Type} [TransactionalTable Tbl K R]

def processPunctuation (fuel : Nat) (op : ToTxTable D K R)
    (punctuation : TxPunctuation) (group : TableGroup Tbl) :
    Option (TableGroup Tbl) :=
  match punctuation.ptype with
  | .TxBegin => do
    let txnID ← punctuation.data
    return group.setTable op.mTable
      (transactionBegin (group.regStates op.mTable) txnID)
  | .TxCommit => do
    let txnID ← punctuation.data
    transactionPreCommit fuel txnID op.mTable group
  | .TxAbort => do
    let txnID ← punctuation.data
    return group.setTable op.mTable
      (transactionAbort (group.regStates op.mTable) txnID)
  | _ => some group

def processDataElement (fuel : Nat) (op : ToTxTable D K R) (data : D)
    (outdated : Bool) (group : TableGroup Tbl) : Option (TableGroup Tbl) := do
  let txID := op.mTxFunc data
  let key := op.mKeyFunc data
  let table := group.regStates op.mTable
  let stored ← if outdated then (deleteByKey table txID key).map Prod.snd
    else insert table txID key (op.tuple data)
  let group := group.setTable op.mTable stored
  if op.mAutoCommit then transactionCommit fuel txID op.mTable group
  else return group

/-- Elements that are not outdated, one after the other. -/
def processDataElements (fuel : Nat) (op : ToTxTable D K R) (elements : List D)
    (group : TableGroup Tbl) : Option (TableGroup Tbl) :=
  elements.foldlM (fun group data => processDataElement fuel op data false group)
    group

theorem processDataElements_concat (fuel : Nat) (op : ToTxTable D K R)
    (elements : List D) (data : D) (group : TableGroup Tbl) :
    processDataElements fuel op (elements ++ [data]) group =
      (processDataElements fuel op elements group).bind
        (processDataElement fuel op data false) := by
  unfold processDataElements
  rw [List.foldlM_append]
  apply congrArg
  funext middle
  exact bind_pure _

end ToTxTable

end PipeFabric
