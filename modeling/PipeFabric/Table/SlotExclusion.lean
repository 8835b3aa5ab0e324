import Mathlib.Data.Finset.Card
import Mathlib.Data.Finset.Union
import PipeFabric.Table.SlotThreads

/-!
# Every transaction has a slot of its own

The bits of the mask are those that were set before and those of the transactions that took
a slot.  A slot keeps the id of its transaction until it is taken again, so that an id is
found in no other slot than the one its transaction took.
-/

namespace PipeFabric.SlotThreads

variable {Thread : Type}

/-! ### Ids -/

/-- The ids in the slots and those of the current transactions were drawn before, and a
current transaction's id is in no other slot than its own. -/
structure Ids (activeTxs : Fin 64 → ActiveTx) (nextTxID : Nat) (current : Nat → Prop)
    (owner : Nat → Option Nat) : Prop where
  old : ∀ pos, (activeTxs pos).txnID < nextTxID
  drawn : ∀ txnID, current txnID → txnID < nextTxID
  marked : ∀ (pos : Fin 64) txnID, current txnID → (activeTxs pos).txnID = txnID →
    owner txnID = some pos.val

namespace Ids

variable {activeTxs : Fin 64 → ActiveTx} {nextTxID : Nat} {current : Nat → Prop}
  {owner : Nat → Option Nat}

/-- The next id is in no slot. -/
theorem draw (ids : Ids activeTxs nextTxID current owner) :
    Ids activeTxs (nextTxID + 1) (fun txnID => txnID = nextTxID ∨ current txnID) owner where
  old pos := Nat.lt_succ_of_lt (ids.old pos)
  drawn := by
    intro txnID either
    rcases either with rfl | before
    · exact Nat.lt_succ_self _
    · exact Nat.lt_succ_of_lt (ids.drawn txnID before)
  marked := by
    intro pos txnID either here
    rcases either with rfl | before
    · exact absurd here (Nat.ne_of_lt (ids.old pos))
    · exact ids.marked pos txnID before here

theorem mono (ids : Ids activeTxs nextTxID current owner) {fewer : Nat → Prop}
    (within : ∀ txnID, fewer txnID → current txnID) :
    Ids activeTxs nextTxID fewer owner where
  old := ids.old
  drawn txnID among := ids.drawn txnID (within txnID among)
  marked pos txnID among := ids.marked pos txnID (within txnID among)

/-- A transaction takes a slot, or gives it back when it ends. -/
theorem update (ids : Ids activeTxs nextTxID current owner) {txnID : Nat}
    (slot : Option Nat) (unmarked : current txnID → owner txnID = none) :
    Ids activeTxs nextTxID current (Function.update owner txnID slot) where
  old := ids.old
  drawn := ids.drawn
  marked := by
    intro pos other among here
    have own := ids.marked pos other among here
    by_cases same : other = txnID
    · rw [same, unmarked (same ▸ among)] at own
      cases own
    · rwa [Function.update_of_ne same]

/-- A store into the slot of a transaction. -/
theorem store (ids : Ids activeTxs nextTxID current owner) {txnID : Nat} {pos : Fin 64}
    (own : owner txnID = some pos.val) (among : current txnID) {slot : ActiveTx}
    (kept : slot.txnID = txnID ∨ slot.txnID = (activeTxs pos).txnID) :
    Ids (Function.update activeTxs pos slot) nextTxID current owner where
  old := by
    intro other
    by_cases here : other = pos
    · rw [here, Function.update_self]
      rcases kept with own | same
      · rw [own]
        exact ids.drawn txnID among
      · rw [same]
        exact ids.old pos
    · rw [Function.update_of_ne here]
      exact ids.old other
  drawn := ids.drawn
  marked := by
    intro other holder holds there
    by_cases here : other = pos
    · subst here
      rw [Function.update_self] at there
      rcases kept with mine | same
      · rw [← there, mine, own]
      · exact ids.marked other holder holds (same.symm.trans there)
    · rw [Function.update_of_ne here] at there
      exact ids.marked other holder holds there

end Ids

/-! ### Bits -/

/-- The positions of the bits that are set. -/
def setBits (mask : BitVec 64) : Finset Nat :=
  (Finset.range 64).filter fun pos => mask.getLsbD pos

/-- The bits of the mask are those of the first mask and those of the slots that were taken,
which belong to one transaction each. -/
structure Slots (first mask : BitVec 64) (current : Nat → Prop) (owner : Nat → Option Nat) :
    Prop where
  bits : ∀ pos, mask.getLsbD pos = true ↔
    first.getLsbD pos = true ∨ ∃ txnID, owner txnID = some pos
  apart : ∀ txnID pos, owner txnID = some pos → first.getLsbD pos = false
  inside : ∀ txnID pos, owner txnID = some pos → pos < 64
  distinct : ∀ left right pos, owner left = some pos → owner right = some pos → left = right
  known : ∀ txnID pos, owner txnID = some pos → current txnID

namespace Slots

variable {first mask : BitVec 64} {current : Nat → Prop} {owner : Nat → Option Nat}

theorem mono (slots : Slots first mask current owner) {more : Nat → Prop}
    (within : ∀ txnID, current txnID → more txnID) : Slots first mask more owner where
  bits := slots.bits
  apart := slots.apart
  inside := slots.inside
  distinct := slots.distinct
  known txnID pos own := within txnID (slots.known txnID pos own)

/-- Who has a position after one transaction's has changed. -/
theorem update_eq_some_iff {txnID other pos : Nat} {slot : Option Nat} :
    Function.update owner txnID slot other = some pos ↔
      (other = txnID ∧ slot = some pos) ∨ (other ≠ txnID ∧ owner other = some pos) := by
  by_cases same : other = txnID
  · rw [same, Function.update_self]
    simp
  · rw [Function.update_of_ne same]
    simp [same]

/-- A transaction takes the free position. -/
theorem take (slots : Slots first mask current owner) {txnID : Nat} (among : current txnID)
    (without : owner txnID = none) (room : getFreePos mask < 64) :
    Slots first (getSetFreePos mask).2 current
      (Function.update owner txnID (some (getSetFreePos mask).1)) := by
  have unset := getFreePos_unset room
  have free : ¬(first.getLsbD (getFreePos mask) = true ∨
      ∃ txnID, owner txnID = some (getFreePos mask)) := by
    rw [← slots.bits, unset]
    exact Bool.false_ne_true
  obtain ⟨notFirst, unowned⟩ := not_or.mp free
  constructor
  case bits =>
    intro pos
    change (mask ||| 1#64 <<< getFreePos mask).getLsbD pos = true ↔ _
    rw [BitScan.getLsbD_set, Bool.or_eq_true, slots.bits, Bool.and_eq_true,
      decide_eq_true_eq, decide_eq_true_eq, or_assoc]
    apply or_congr_right
    constructor
    · rintro (⟨holder, own⟩ | ⟨_, rfl⟩)
      · have other : holder ≠ txnID := by
          rintro rfl
          rw [without] at own
          cases own
        exact ⟨holder, update_eq_some_iff.mpr (.inr ⟨other, own⟩)⟩
      · exact ⟨txnID, Function.update_self _ _ _⟩
    · rintro ⟨holder, own⟩
      rcases update_eq_some_iff.mp own with ⟨_, here⟩ | ⟨_, before⟩
      · obtain rfl := Option.some.inj here
        exact .inr ⟨room, rfl⟩
      · exact .inl ⟨holder, before⟩
  case apart =>
    intro holder pos own
    rcases update_eq_some_iff.mp own with ⟨_, here⟩ | ⟨_, before⟩
    · obtain rfl := Option.some.inj here
      exact Bool.eq_false_of_not_eq_true notFirst
    · exact slots.apart holder pos before
  case inside =>
    intro holder pos own
    rcases update_eq_some_iff.mp own with ⟨_, here⟩ | ⟨_, before⟩
    · obtain rfl := Option.some.inj here
      exact room
    · exact slots.inside holder pos before
  case distinct =>
    intro left right pos leftOwn rightOwn
    rcases update_eq_some_iff.mp leftOwn with ⟨rfl, here⟩ | ⟨_, leftBefore⟩
    · obtain rfl := Option.some.inj here
      rcases update_eq_some_iff.mp rightOwn with ⟨rfl, _⟩ | ⟨_, rightBefore⟩
      · rfl
      · exact absurd ⟨right, rightBefore⟩ unowned
    · rcases update_eq_some_iff.mp rightOwn with ⟨rfl, there⟩ | ⟨_, rightBefore⟩
      · obtain rfl := Option.some.inj there
        exact absurd ⟨left, leftBefore⟩ unowned
      · exact slots.distinct left right pos leftBefore rightBefore
  case known =>
    intro holder pos own
    rcases update_eq_some_iff.mp own with ⟨rfl, _⟩ | ⟨_, before⟩
    · exact among
    · exact slots.known holder pos before

/-- A transaction gives its position back. -/
theorem give (slots : Slots first mask current owner) {txnID pos : Nat}
    (own : owner txnID = some pos) :
    Slots first (unsetPos mask pos) (fun other => other ≠ txnID ∧ current other)
      (Function.update owner txnID none) := by
  have left {holder place : Nat}
      (owns : Function.update owner txnID none holder = some place) :
      holder ≠ txnID ∧ owner holder = some place := by
    rcases update_eq_some_iff.mp owns with ⟨_, impossible⟩ | other
    · cases impossible
    · exact other
  constructor
  case bits =>
    intro place
    rw [unsetPos, BitScan.getLsbD_unset, Bool.and_eq_true, slots.bits, Bool.not_eq_true',
      decide_eq_false_iff_not]
    constructor
    · rintro ⟨before | ⟨holder, owns⟩, other⟩
      · exact .inl before
      · have another : holder ≠ txnID := by
          rintro rfl
          exact other (Option.some.inj (owns.symm.trans own))
        exact .inr ⟨holder, update_eq_some_iff.mpr (.inr ⟨another, owns⟩)⟩
    · rintro (before | ⟨holder, owns⟩)
      · refine ⟨.inl before, ?_⟩
        rintro rfl
        rw [slots.apart txnID place own] at before
        cases before
      · obtain ⟨another, was⟩ := left owns
        refine ⟨.inr ⟨holder, was⟩, ?_⟩
        rintro rfl
        exact another (slots.distinct holder txnID place was own)
  case apart => exact fun holder place owns => slots.apart holder place (left owns).2
  case inside => exact fun holder place owns => slots.inside holder place (left owns).2
  case distinct =>
    exact fun holder other place owns otherOwns =>
      slots.distinct holder other place (left owns).2 (left otherOwns).2
  case known =>
    exact fun holder place owns => ⟨(left owns).1, slots.known holder place (left owns).2⟩

/-- With less than 64 bits and other transactions there is a free position. -/
theorem room (slots : Slots first mask current owner) (others : List Nat)
    (listed : ∀ txnID pos, owner txnID = some pos → txnID ∈ others)
    (few : others.length + (setBits first).card < 64) : getFreePos mask < 64 := by
  have taken : ∃ pos < 64, mask.getLsbD pos = false := by
    by_contra full
    have all : Finset.range 64 ⊆ (others.filterMap owner).toFinset ∪ setBits first := by
      intro pos inside
      rw [Finset.mem_range] at inside
      have set : mask.getLsbD pos = true := by
        by_contra unset
        exact full ⟨pos, inside, Bool.eq_false_of_not_eq_true unset⟩
      rw [Finset.mem_union, List.mem_toFinset, List.mem_filterMap, setBits, Finset.mem_filter,
        Finset.mem_range]
      rcases (slots.bits pos).mp set with before | ⟨txnID, own⟩
      · exact .inr ⟨inside, before⟩
      · exact .inl ⟨txnID, listed txnID pos own, own⟩
    have count := Finset.card_le_card all
    have split := Finset.card_union_le (others.filterMap owner).toFinset (setBits first)
    have most := List.toFinset_card_le (others.filterMap owner)
    have shorter := List.length_filterMap_le owner others
    rw [Finset.card_range] at count
    omega
  obtain ⟨pos, inside, unset⟩ := taken
  exact Nat.lt_of_le_of_lt (getFreePos_le inside unset) inside

end Slots

/-! ### Threads -/

def Ledger.Current (ledger : Ledger) (txnID : Nat) : Prop :=
  txnID ∈ ledger.starting ∨ txnID ∈ ledger.live

/-- What is known where a thread is.  In `newTx` the stores that are left may change the id
and the timestamp; a lookup has the slot of its transaction before it. -/
def Sound (ledger : Ledger) (activeTxs : Fin 64 → ActiveTx) : Control → Prop
  | .idle => True
  | .loading txnID | .expecting txnID _ =>
      txnID ∈ ledger.starting ∧ ledger.owner txnID = none
  | .initialising txnID pos stores =>
      txnID ∈ ledger.starting ∧ ledger.owner txnID = some pos ∧
        ∀ slot : Fin 64, slot.val = pos →
          (.txnID ∉ stores → (activeTxs slot).txnID = txnID) ∧
            (.readCTS ∉ stores → (activeTxs slot).readCTS = 0)
  | .seeking _ txnID pos =>
      txnID ∈ ledger.live ∧ ∃ last, ledger.owner txnID = some last ∧ pos ≤ last
  | .found _ txnID pos | .releasing txnID pos _ =>
      txnID ∈ ledger.live ∧ ledger.owner txnID = some pos.val

section

variable {ledger after : Ledger} {activeTxs stored : Fin 64 → ActiveTx} {control : Control}

theorem Sound.starting (sound : Sound ledger activeTxs control) {txnID : Nat}
    (starts : control.starts = some txnID) : txnID ∈ ledger.starting := by
  cases control with
  | loading other =>
      obtain rfl := Option.some.inj starts
      exact sound.1
  | expecting other expected =>
      obtain rfl := Option.some.inj starts
      exact sound.1
  | initialising other pos stores =>
      obtain rfl := Option.some.inj starts
      exact sound.1
  | idle => cases starts
  | seeking purpose other pos => cases starts
  | found purpose other pos => cases starts
  | releasing other pos expected => cases starts

theorem Sound.live (sound : Sound ledger activeTxs control) {txnID : Nat}
    (calls : control.calls = some txnID) : txnID ∈ ledger.live := by
  cases control with
  | seeking purpose other pos =>
      obtain rfl := Option.some.inj calls
      exact sound.1
  | found purpose other pos =>
      obtain rfl := Option.some.inj calls
      exact sound.1
  | releasing other pos expected =>
      obtain rfl := Option.some.inj calls
      exact sound.1
  | idle => cases calls
  | loading other => cases calls
  | expecting other expected => cases calls
  | initialising other pos stores => cases calls

/-- What is known of a thread stays when its transaction keeps its place in the books, and
the one it begins its slot. -/
theorem Sound.frame (sound : Sound ledger activeTxs control)
    (starting : ∀ txnID, control.starts = some txnID → txnID ∈ after.starting ∧
      after.owner txnID = ledger.owner txnID ∧
      ∀ pos : Fin 64, ledger.owner txnID = some pos.val → stored pos = activeTxs pos)
    (live : ∀ txnID, control.calls = some txnID →
      txnID ∈ after.live ∧ after.owner txnID = ledger.owner txnID) :
    Sound after stored control := by
  cases control with
  | idle => trivial
  | loading txnID =>
      obtain ⟨among, same, _⟩ := starting txnID rfl
      exact ⟨among, same.trans sound.2⟩
  | expecting txnID expected =>
      obtain ⟨among, same, _⟩ := starting txnID rfl
      exact ⟨among, same.trans sound.2⟩
  | initialising txnID pos stores =>
      obtain ⟨among, same, slots⟩ := starting txnID rfl
      refine ⟨among, same.trans sound.2.1, ?_⟩
      rintro slot rfl
      rw [slots slot sound.2.1]
      exact sound.2.2 slot rfl
  | seeking purpose txnID pos =>
      obtain ⟨among, same⟩ := live txnID rfl
      obtain ⟨last, own, before⟩ := sound.2
      exact ⟨among, last, same.trans own, before⟩
  | found purpose txnID pos =>
      obtain ⟨among, same⟩ := live txnID rfl
      exact ⟨among, same.trans sound.2⟩
  | releasing txnID pos expected =>
      obtain ⟨among, same⟩ := live txnID rfl
      exact ⟨among, same.trans sound.2⟩

end

/-- All threads are where they are known to be, and each transaction is begun by one. -/
structure Threads (ledger : Ledger) (activeTxs : Fin 64 → ActiveTx)
    (control : Thread → Control) : Prop where
  sound : ∀ thread, Sound ledger activeTxs (control thread)
  starters : ∀ left right txnID, (control left).starts = some txnID →
    (control right).starts = some txnID → left = right

/-- One thread goes on, and the others stay where they are. -/
theorem Threads.update [DecidableEq Thread] {ledger after : Ledger}
    {activeTxs stored : Fin 64 → ActiveTx} {control : Thread → Control}
    (threads : Threads ledger activeTxs control) {thread : Thread} {next : Control}
    (here : Sound after stored next)
    (starts : ∀ txnID, next.starts = some txnID → (control thread).starts = some txnID ∨
      ∀ other, (control other).starts ≠ some txnID)
    (others : ∀ other, other ≠ thread → Sound after stored (control other)) :
    Threads after stored (Function.update control thread next) where
  sound := by
    intro other
    by_cases same : other = thread
    · rw [same, Function.update_self]
      exact here
    · rw [Function.update_of_ne same]
      exact others other same
  starters := by
    have apart (other : Thread) (different : other ≠ thread) (txnID : Nat)
        (own : next.starts = some txnID) : (control other).starts ≠ some txnID := by
      intro also
      rcases starts txnID own with before | unused
      · exact different (threads.starters other thread txnID also before)
      · exact unused other also
    intro left right txnID leftStarts rightStarts
    by_cases leftHere : left = thread
    · by_cases rightHere : right = thread
      · rw [leftHere, rightHere]
      · rw [leftHere, Function.update_self] at leftStarts
        rw [Function.update_of_ne rightHere] at rightStarts
        exact absurd rightStarts (apart right rightHere txnID leftStarts)
    · rw [Function.update_of_ne leftHere] at leftStarts
      by_cases rightHere : right = thread
      · rw [rightHere, Function.update_self] at rightStarts
        exact absurd leftStarts (apart left leftHere txnID rightStarts)
      · rw [Function.update_of_ne rightHere] at rightStarts
        exact threads.starters left right txnID leftStarts rightStarts

/-! ### Invariant -/

/-- The slot of a live transaction has its id and its timestamp. -/
def Holds (ledger : Ledger) (activeTxs : Fin 64 → ActiveTx) (txnID : Nat) : Prop :=
  ∃ pos : Fin 64, ledger.owner txnID = some pos.val ∧ (activeTxs pos).txnID = txnID ∧
    (activeTxs pos).readCTS = ledger.timestamp txnID

structure Invariant (first : BitVec 64) (run : Run Thread) : Prop where
  ids : Ids run.system.ctx.activeTxs run.system.ctx.nextTxID run.ledger.Current
    run.ledger.owner
  slots : Slots first run.system.ctx.usedSlots run.ledger.Current run.ledger.owner
  nodup : (run.ledger.starting ++ run.ledger.live).Nodup
  room : run.ledger.starting.length + run.ledger.live.length + (setBits first).card ≤ 64
  holds : ∀ txnID ∈ run.ledger.live, Holds run.ledger run.system.ctx.activeTxs txnID
  zero : ∀ txnID ∈ run.ledger.starting, run.ledger.timestamp txnID = 0
  threads : Threads run.ledger run.system.ctx.activeTxs run.system.control
  returned : run.system.returned = run.ledger.expected

namespace Invariant

variable {first : BitVec 64} {run : Run Thread}

theorem correct (invariant : Invariant first run) : run.Correct where
  inside := invariant.slots.inside
  distinct := invariant.slots.distinct
  owned := by
    intro txnID among
    obtain ⟨pos, own, marked, timestamp⟩ := invariant.holds txnID among
    exact ⟨pos, own, (invariant.slots.bits pos).mpr (.inr ⟨txnID, own⟩), marked, timestamp⟩
  seeks := by
    intro thread purpose txnID pos here
    have sound := invariant.threads.sound thread
    rw [here] at sound
    exact sound.2
  stops := by
    intro thread purpose txnID pos here
    have sound := invariant.threads.sound thread
    rw [here] at sound
    exact sound.2
  returned := invariant.returned

theorem init {clock : Nat} (positive : 0 < clock) (few : (setBits first).card ≤ 64) :
    Invariant first (Run.init first clock : Run Thread) where
  ids :=
    { old := fun _ => positive
      drawn := by
        rintro txnID (impossible | impossible)
        · cases impossible
        · cases impossible
      marked := by
        rintro pos txnID (impossible | impossible)
        · cases impossible
        · cases impossible }
  slots :=
    { bits := by
        intro pos
        rw [or_iff_left]
        · rfl
        · rintro ⟨txnID, impossible⟩
          cases impossible
      apart := fun _ _ impossible => by cases impossible
      inside := fun _ _ impossible => by cases impossible
      distinct := fun _ _ _ impossible => by cases impossible
      known := fun _ _ impossible => by cases impossible }
  nodup := List.nodup_nil
  room := by
    change 0 + 0 + _ ≤ 64
    omega
  holds txnID impossible := by cases impossible
  zero txnID impossible := by cases impossible
  threads :=
    { sound := fun _ => trivial
      starters := fun _ _ _ impossible => by cases impossible }
  returned := rfl

/-- The next id is not that of a current transaction. -/
theorem fresh (invariant : Invariant first run) :
    ¬run.ledger.Current run.system.ctx.nextTxID :=
  fun current => Nat.lt_irrefl _ (invariant.ids.drawn _ current)

/-- A transaction is not starting and live. -/
theorem ne_of_live (invariant : Invariant first run) {txnID other : Nat}
    (starting : txnID ∈ run.ledger.starting) (live : other ∈ run.ledger.live) :
    txnID ≠ other :=
  List.disjoint_iff_ne.mp (List.disjoint_of_nodup_append invariant.nodup) txnID starting
    other live

/-- Another transaction that a thread begins, and its slot. -/
theorem other_starter (invariant : Invariant first run) {thread : Thread}
    {txnID another : Nat} (here : (run.system.control thread).starts = some txnID) {other : Thread}
    (different : other ≠ thread) (starts : (run.system.control other).starts = some another) :
    another ≠ txnID := by
  rintro rfl
  exact different (invariant.threads.starters other thread another starts here)

theorem slot_ne (invariant : Invariant first run) {txnID another : Nat} {pos place : Fin 64}
    (different : another ≠ txnID) (own : run.ledger.owner txnID = some pos.val)
    (owns : run.ledger.owner another = some place.val) : place ≠ pos := by
  rintro rfl
  exact different (invariant.slots.distinct another txnID place.val owns own)

end Invariant

end PipeFabric.SlotThreads
