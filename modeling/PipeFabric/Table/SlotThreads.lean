import Mathlib.Data.Finset.Card
import PipeFabric.Library.TransitionSystem
import PipeFabric.Table.StateContext

/-!
# The threads of the state context

Any number of threads begin and remove transactions and read and set their timestamps.  Here
their calls are taken apart into the steps another thread can get between: the load of the
mask, the compare-and-swap, every store into a slot and every entry that a lookup reads.
-/

namespace PipeFabric.SlotThreads

/-- What a lookup is for.  `removeTx` looks its transaction up to reset the timestamp and
again to release the slot. -/
inductive Purpose where
  | get
  | set (read : Nat)
  | reset
  | release

/-- A store of `newTx` into its slot. -/
inductive Store where
  | txnID
  | writeInfo (tblID : TableID)
  | readCTS
  deriving DecidableEq

def Store.apply (txnID : Nat) (slot : ActiveTx) : Store → ActiveTx
  | .txnID => { slot with txnID := txnID }
  | .writeInfo tblID =>
      { slot with writeInfo := Function.update slot.writeInfo tblID .Active }
  | .readCTS => { slot with readCTS := 0 }

/-- The assignment of the tuple, and then the two calls of `fill`. -/
def newTxStores : List Store :=
  [.txnID, .writeInfo 0, .writeInfo 1, .readCTS, .writeInfo 0, .writeInfo 1, .readCTS]

/-- Where a thread is: outside of the calls; in `newTx` before the load, before the
compare-and-swap and before the next store; before the next entry of a lookup, behind the
lookup, and before the compare-and-swap of `unsetPos`. -/
inductive Control where
  | idle
  | loading (txnID : Nat)
  | expecting (txnID : Nat) (expected : BitVec 64)
  | initialising (txnID pos : Nat) (stores : List Store)
  | seeking (purpose : Purpose) (txnID pos : Nat)
  | found (purpose : Purpose) (txnID : Nat) (pos : Fin 64)
  | releasing (txnID : Nat) (pos : Fin 64) (expected : BitVec 64)

/-- The transaction that the thread begins. -/
def Control.starts : Control → Option Nat
  | .loading txnID | .expecting txnID _ | .initialising txnID _ _ => some txnID
  | .idle | .seeking _ _ _ | .found _ _ _ | .releasing _ _ _ => none

/-- The transaction that the call is on. -/
def Control.calls : Control → Option Nat
  | .seeking _ txnID _ | .found _ txnID _ | .releasing txnID _ _ => some txnID
  | .idle | .loading _ | .expecting _ _ | .initialising _ _ _ => none

/-- The context, where the threads are, and what the calls of `getReadCTS` have returned. -/
structure System (Thread : Type) where
  ctx : StateContext
  control : Thread → Control
  returned : List Nat

/-- What a thread does: it begins a call, takes its next step, or its compare-and-swap
fails, which a weak one may do at any time. -/
inductive Action (Thread : Type) where
  | newTx (thread : Thread)
  | getReadCTS (thread : Thread) (txnID : Nat)
  | setReadCTS (thread : Thread) (txnID read : Nat)
  | removeTx (thread : Thread) (txnID : Nat)
  | proceed (thread : Thread)
  | retry (thread : Thread)

namespace System

variable {Thread : Type}

/-- A context whose mask has never been written. -/
def init (usedSlots : BitVec 64) (clock : Nat) : System Thread :=
  ⟨{ StateContext.initial clock with usedSlots := usedSlots }, fun _ => .idle, []⟩

def setMask (system : System Thread) (usedSlots : BitVec 64) : System Thread :=
  { system with ctx := { system.ctx with usedSlots := usedSlots } }

def setSlot (system : System Thread) (pos : Fin 64) (slot : ActiveTx) : System Thread :=
  { system with
    ctx := { system.ctx with activeTxs := Function.update system.ctx.activeTxs pos slot } }

variable [DecidableEq Thread]

/-- The thread goes on from there. -/
def goto (system : System Thread) (thread : Thread) (control : Control) : System Thread :=
  { system with control := Function.update system.control thread control }

/-- A thread outside of the calls begins one. -/
def call (system : System Thread) (thread : Thread) (control : Control) :
    Option (System Thread) :=
  match system.control thread with
  | .idle => some (system.goto thread control)
  | _ => none

theorem call_eq_some {system next : System Thread} {thread : Thread} {control : Control}
    (called : system.call thread control = some next) :
    system.control thread = .idle ∧ next = system.goto thread control := by
  rw [call] at called
  split at called
  · rename_i idle
    exact ⟨idle, (Option.some.inj called).symm⟩
  · cases called

/-- The next step of a thread.  A store or a read behind `activeTxs` is undefined. -/
def proceed (system : System Thread) (thread : Thread) : Option (System Thread) :=
  match system.control thread with
  | .idle => none
  | .loading txnID => some (system.goto thread (.expecting txnID system.ctx.usedSlots))
  | .expecting txnID expected =>
      if system.ctx.usedSlots = expected then
        let taken := getSetFreePos expected
        some ((system.setMask taken.2).goto thread
          (.initialising txnID taken.1 newTxStores))
      else none
  | .initialising txnID pos (store :: stores) =>
      if inside : pos < 64 then
        let slot := system.ctx.activeTxs ⟨pos, inside⟩
        some ((system.setSlot ⟨pos, inside⟩ (store.apply txnID slot)).goto thread
          (.initialising txnID pos stores))
      else none
  | .initialising _ _ [] => some (system.goto thread .idle)
  | .seeking purpose txnID pos =>
      if inside : pos < 64 then
        if (system.ctx.activeTxs ⟨pos, inside⟩).txnID = txnID then
          some (system.goto thread (.found purpose txnID ⟨pos, inside⟩))
        else some (system.goto thread (.seeking purpose txnID (pos + 1)))
      else none
  | .found .get _ pos =>
      some { system.goto thread .idle with
        returned := system.returned ++ [(system.ctx.activeTxs pos).readCTS] }
  | .found (.set read) _ pos =>
      some ((system.setSlot pos { system.ctx.activeTxs pos with readCTS := read }).goto thread
        .idle)
  | .found .reset txnID pos =>
      some ((system.setSlot pos { system.ctx.activeTxs pos with readCTS := 0 }).goto thread
        (.seeking .release txnID 0))
  | .found .release txnID pos =>
      some (system.goto thread (.releasing txnID pos system.ctx.usedSlots))
  | .releasing _ pos expected =>
      if system.ctx.usedSlots = expected then
        some ((system.setMask (unsetPos expected pos)).goto thread .idle)
      else none

/-- A compare-and-swap that fails reads the mask. -/
def retry (system : System Thread) (thread : Thread) : Option (System Thread) :=
  match system.control thread with
  | .expecting txnID _ => some (system.goto thread (.expecting txnID system.ctx.usedSlots))
  | .releasing txnID pos _ =>
      some (system.goto thread (.releasing txnID pos system.ctx.usedSlots))
  | _ => none

/-- `newTx` begins with the next id. -/
def step (system : System Thread) : Action Thread → Option (System Thread)
  | .newTx thread =>
      (system.call thread (.loading system.ctx.nextTxID)).map fun system =>
        { system with
          ctx := { system.ctx with nextTxID := (system.ctx.nextTxID + 1) % 2 ^ 64 } }
  | .getReadCTS thread txnID => system.call thread (.seeking .get txnID 0)
  | .setReadCTS thread txnID read => system.call thread (.seeking (.set read) txnID 0)
  | .removeTx thread txnID => system.call thread (.seeking .reset txnID 0)
  | .proceed thread => system.proceed thread
  | .retry thread => system.retry thread

end System

/-! ### What is expected -/

/-- The transactions that are starting and those that are live, the slots that they took,
the timestamps that were set for them, and what `getReadCTS` has to return. -/
structure Ledger where
  starting : List Nat
  live : List Nat
  owner : Nat → Option Nat
  timestamp : Nat → Nat
  expected : List Nat

namespace Ledger

def init : Ledger := ⟨[], [], fun _ => none, fun _ => 0, []⟩

variable {Thread : Type}

/-- The step of the thread in the books: its transaction takes a slot, becomes live, has its
timestamp set or read, or gives the slot back. -/
def noteStep (ledger : Ledger) : Control → Ledger
  | .expecting txnID expected =>
      { ledger with
        owner := Function.update ledger.owner txnID (some (getSetFreePos expected).1) }
  | .initialising txnID _ [] =>
      { ledger with
        starting := ledger.starting.erase txnID
        live := txnID :: ledger.live }
  | .found .get txnID _ =>
      { ledger with expected := ledger.expected ++ [ledger.timestamp txnID] }
  | .found (.set read) txnID _ =>
      { ledger with timestamp := Function.update ledger.timestamp txnID read }
  | .found .reset txnID _ =>
      { ledger with timestamp := Function.update ledger.timestamp txnID 0 }
  | .releasing txnID _ _ =>
      { ledger with
        live := ledger.live.erase txnID
        owner := Function.update ledger.owner txnID none }
  | _ => ledger

def note (ledger : Ledger) (system : System Thread) : Action Thread → Ledger
  | .newTx _ =>
      { ledger with
        starting := system.ctx.nextTxID :: ledger.starting
        timestamp := Function.update ledger.timestamp system.ctx.nextTxID 0 }
  | .proceed thread => ledger.noteStep (system.control thread)
  | _ => ledger

end Ledger

/-- The system with its books. -/
structure Run (Thread : Type) where
  system : System Thread
  ledger : Ledger

namespace Run

variable {Thread : Type}

def init (usedSlots : BitVec 64) (clock : Nat) : Run Thread := ⟨.init usedSlots clock, .init⟩

def step [DecidableEq Thread] (run : Run Thread) (action : Action Thread) :
    Option (Run Thread) :=
  (run.system.step action).map fun system => ⟨system, run.ledger.note run.system action⟩

/-- Every call on a transaction takes place during its life: it begins when the transaction
is live, and it has ended when another call releases the slot. -/
def DuringLife (run : Run Thread) : Action Thread → Prop
  | .getReadCTS _ txnID | .setReadCTS _ txnID _ | .removeTx _ txnID =>
      txnID ∈ run.ledger.live
  | .proceed thread => ∀ txnID pos expected,
      run.system.control thread = .releasing txnID pos expected →
      ∀ other, (run.system.control other).calls = some txnID → other = thread
  | .newTx _ | .retry _ => True

/-- There is room for one more transaction, and the counter of ids does not wrap. -/
def Room (bound : Nat) (run : Run Thread) : Action Thread → Prop
  | .newTx _ => run.ledger.starting.length + run.ledger.live.length < bound ∧
      run.system.ctx.nextTxID < DTS_INF
  | _ => True

def Allowed (bound : Nat) (run : Run Thread) (action : Action Thread) : Prop :=
  run.DuringLife action ∧ run.Room bound action

/-- A thread that calls nothing on a transaction releases no slot. -/
theorem allowed_proceed (bound : Nat) {run : Run Thread} (thread : Thread)
    (elsewhere : (run.system.control thread).calls = none) :
    run.Allowed bound (.proceed thread) := by
  refine ⟨?_, trivial⟩
  intro txnID pos expected here
  rw [here] at elsewhere
  cases elsewhere

/-- Every transaction that took a slot took one of its own, and that of a live one is marked
with its id; a lookup has not passed the slot of its transaction and stops there; the
timestamp in the slot is the one that was set, and so is every one that was returned. -/
structure Correct (run : Run Thread) : Prop where
  inside : ∀ txnID pos, run.ledger.owner txnID = some pos → pos < 64
  distinct : ∀ first second pos, run.ledger.owner first = some pos →
    run.ledger.owner second = some pos → first = second
  owned : ∀ txnID ∈ run.ledger.live, ∃ pos : Fin 64, run.ledger.owner txnID = some pos.val ∧
    run.system.ctx.usedSlots.getLsbD pos = true ∧
    (run.system.ctx.activeTxs pos).txnID = txnID ∧
    (run.system.ctx.activeTxs pos).readCTS = run.ledger.timestamp txnID
  seeks : ∀ thread purpose txnID pos,
    run.system.control thread = .seeking purpose txnID pos →
    ∃ last, run.ledger.owner txnID = some last ∧ pos ≤ last
  stops : ∀ thread purpose txnID (pos : Fin 64),
    run.system.control thread = .found purpose txnID pos →
    run.ledger.owner txnID = some pos.val
  returned : run.system.returned = run.ledger.expected

end Run

end PipeFabric.SlotThreads
