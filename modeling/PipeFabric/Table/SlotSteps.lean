import PipeFabric.Table.SlotExclusion

/-!
# Steps of the slot threads

Every step that is allowed keeps the invariant of the slots, so that it holds along every
interleaving of the threads.
-/

namespace PipeFabric.SlotThreads

variable {Thread : Type} [DecidableEq Thread]

namespace Invariant

variable {first : BitVec 64} {run : Run Thread} {thread : Thread}

/-- The steps that change neither the context nor the books. -/
theorem goto (invariant : Invariant first run) {control : Control}
    (sound : Sound run.ledger run.system.ctx.activeTxs control)
    (starts : ∀ txnID, control.starts = some txnID →
      (run.system.control thread).starts = some txnID) :
    Invariant first ⟨run.system.goto thread control, run.ledger⟩ where
  ids := invariant.ids
  slots := invariant.slots
  nodup := invariant.nodup
  room := invariant.room
  holds := invariant.holds
  zero := invariant.zero
  threads :=
    invariant.threads.update sound (fun txnID own => .inl (starts txnID own))
      fun other _ => invariant.threads.sound other
  returned := invariant.returned

/-- A lookup begins for a live transaction. -/
theorem seek (invariant : Invariant first run) {txnID : Nat} (live : txnID ∈ run.ledger.live)
    (purpose : Purpose) :
    Invariant first ⟨run.system.goto thread (.seeking purpose txnID 0), run.ledger⟩ := by
  obtain ⟨pos, own, _⟩ := invariant.holds txnID live
  apply invariant.goto
  · exact ⟨live, pos.val, own, Nat.zero_le _⟩
  · intro other impossible
    cases impossible

/-- A lookup reads the next entry, and that is the one of its transaction or another. -/
theorem look (invariant : Invariant first run) {purpose : Purpose} {txnID pos : Nat}
    (here : run.system.control thread = .seeking purpose txnID pos) {next : System Thread}
    (stepped : run.system.proceed thread = some next) :
    Invariant first ⟨next, run.ledger⟩ := by
  have sound := invariant.threads.sound thread
  rw [here] at sound
  obtain ⟨live, last, own, before⟩ := sound
  rw [System.proceed, here] at stepped
  dsimp only at stepped
  split at stepped
  · rename_i inside
    split at stepped
    · rename_i marked
      obtain rfl := Option.some.inj stepped
      apply invariant.goto
      · exact ⟨live, invariant.ids.marked _ txnID (.inr live) marked⟩
      · intro other impossible
        cases impossible
    · rename_i unmarked
      obtain rfl := Option.some.inj stepped
      apply invariant.goto
      · refine ⟨live, last, own, Nat.lt_of_le_of_ne before ?_⟩
        rintro rfl
        obtain ⟨slot, owns, marked, _⟩ := invariant.holds txnID live
        obtain rfl := Option.some.inj (own.symm.trans owns)
        exact unmarked marked
      · intro other impossible
        cases impossible
  · cases stepped

/-- A transaction begins. -/
theorem begin (invariant : Invariant first run)
    (few : run.ledger.starting.length + run.ledger.live.length + (setBits first).card < 64)
    (small : run.system.ctx.nextTxID < DTS_INF) {next : System Thread}
    (stepped : run.system.step (.newTx thread) = some next) :
    Invariant first ⟨next, run.ledger.note run.system (.newTx thread)⟩ := by
  obtain ⟨called, begun, rfl⟩ := Option.map_eq_some_iff.mp stepped
  obtain ⟨idle, rfl⟩ := System.call_eq_some begun
  have fresh := invariant.fresh
  have notStarting : run.system.ctx.nextTxID ∉ run.ledger.starting := fun among =>
    fresh (.inl among)
  have notLive : run.system.ctx.nextTxID ∉ run.ledger.live := fun among => fresh (.inr among)
  have unowned : run.ledger.owner run.system.ctx.nextTxID = none := by
    cases own : run.ledger.owner run.system.ctx.nextTxID with
    | none => rfl
    | some pos => exact absurd (invariant.slots.known _ pos own) fresh
  have next : (run.system.ctx.nextTxID + 1) % 2 ^ 64 = run.system.ctx.nextTxID + 1 := by
    rw [DTS_INF] at small
    omega
  have current (txnID : Nat) :
      (run.ledger.note run.system (.newTx thread)).Current txnID ↔
        txnID = run.system.ctx.nextTxID ∨ run.ledger.Current txnID := by
    rw [Ledger.Current, Ledger.Current, ← or_assoc]
    exact or_congr_left List.mem_cons
  constructor
  case ids =>
    change Ids _ ((run.system.ctx.nextTxID + 1) % 2 ^ 64) _ _
    rw [next]
    exact invariant.ids.draw.mono fun txnID => (current txnID).mp
  case slots =>
    exact invariant.slots.mono fun txnID before => (current txnID).mpr (.inr before)
  case nodup =>
    change (run.system.ctx.nextTxID :: (run.ledger.starting ++ run.ledger.live)).Nodup
    rw [List.nodup_cons, List.mem_append]
    exact ⟨not_or.mpr ⟨notStarting, notLive⟩, invariant.nodup⟩
  case room =>
    change run.ledger.starting.length + 1 + run.ledger.live.length + _ ≤ 64
    omega
  case holds =>
    intro txnID live
    obtain ⟨pos, own, marked, timestamp⟩ := invariant.holds txnID live
    refine ⟨pos, own, marked, timestamp.trans ?_⟩
    have other : txnID ≠ run.system.ctx.nextTxID := by
      rintro rfl
      exact notLive live
    exact (Function.update_of_ne other _ _).symm
  case zero =>
    intro txnID among
    by_cases same : txnID = run.system.ctx.nextTxID
    · rw [same]
      exact Function.update_self _ _ _
    · refine (Function.update_of_ne same _ _).trans (invariant.zero txnID ?_)
      exact (List.mem_cons.mp among).resolve_left same
  case threads =>
    apply invariant.threads.update
    · exact ⟨List.mem_cons_self, unowned⟩
    · rintro txnID own
      obtain rfl := Option.some.inj own
      refine .inr fun other starts => ?_
      exact notStarting ((invariant.threads.sound other).starting starts)
    · intro other _
      apply (invariant.threads.sound other).frame
      · intro txnID starts
        have among := (invariant.threads.sound other).starting starts
        exact ⟨List.mem_cons_of_mem _ among, rfl, fun _ _ => rfl⟩
      · intro txnID calls
        exact ⟨(invariant.threads.sound other).live calls, rfl⟩
  case returned => exact invariant.returned

/-- A compare-and-swap takes a slot for the transaction. -/
theorem take (invariant : Invariant first run) {txnID : Nat} {expected : BitVec 64}
    (here : run.system.control thread = .expecting txnID expected) {next : System Thread}
    (stepped : run.system.proceed thread = some next) :
    Invariant first ⟨next, run.ledger.noteStep (.expecting txnID expected)⟩ := by
  have sound := invariant.threads.sound thread
  rw [here] at sound
  obtain ⟨starting, unowned⟩ := sound
  rw [System.proceed, here] at stepped
  dsimp only at stepped
  split at stepped
  case isFalse => cases stepped
  case isTrue same =>
    obtain rfl := Option.some.inj stepped
    subst same
    have among : run.ledger.Current txnID := .inl starting
    have free : getFreePos run.system.ctx.usedSlots < 64 := by
      have member : txnID ∈ run.ledger.starting ++ run.ledger.live :=
        List.mem_append_left _ starting
      apply invariant.slots.room ((run.ledger.starting ++ run.ledger.live).erase txnID)
      · intro other pos own
        have different : other ≠ txnID := by
          rintro rfl
          rw [unowned] at own
          cases own
        rw [List.mem_erase_of_ne different, List.mem_append]
        exact invariant.slots.known other pos own
      · have room := invariant.room
        have positive := List.length_pos_of_mem member
        rw [List.length_append] at positive
        rw [List.length_erase_of_mem member, List.length_append]
        omega
    constructor
    case ids => exact invariant.ids.update _ fun _ => unowned
    case slots => exact invariant.slots.take among unowned free
    case nodup => exact invariant.nodup
    case room => exact invariant.room
    case holds =>
      intro other live
      obtain ⟨pos, own, rest⟩ := invariant.holds other live
      have different := (invariant.ne_of_live starting live).symm
      exact ⟨pos, (Function.update_of_ne different _ _).trans own, rest⟩
    case zero => exact invariant.zero
    case threads =>
      apply invariant.threads.update
      · refine ⟨starting, Function.update_self _ _ _, ?_⟩
        intro slot _
        exact ⟨fun absent => absurd (by decide) absent, fun absent => absurd (by decide) absent⟩
      · intro other own
        rw [here]
        exact .inl own
      · intro other different
        have otherSound := invariant.threads.sound other
        apply otherSound.frame
        · intro another starts
          refine ⟨otherSound.starting starts, Function.update_of_ne ?_ _ _, fun _ _ => rfl⟩
          rintro rfl
          apply different
          apply invariant.threads.starters other thread another starts
          rw [here]
          rfl
        · intro another calls
          have live := otherSound.live calls
          exact ⟨live,
            Function.update_of_ne (invariant.ne_of_live starting live).symm _ _⟩
    case returned => exact invariant.returned

/-- A store into the slot that a transaction has taken. -/
theorem store (invariant : Invariant first run) {txnID pos : Nat} {store : Store}
    {stores : List Store}
    (here : run.system.control thread = .initialising txnID pos (store :: stores))
    {next : System Thread} (stepped : run.system.proceed thread = some next) :
    Invariant first ⟨next, run.ledger⟩ := by
  have sound := invariant.threads.sound thread
  rw [here] at sound
  obtain ⟨starting, own, done⟩ := sound
  rw [System.proceed, here] at stepped
  dsimp only at stepped
  split at stepped
  case isFalse => cases stepped
  case isTrue inside =>
    obtain rfl := Option.some.inj stepped
    have starts : (run.system.control thread).starts = some txnID := by
      rw [here]
      rfl
    have place : run.ledger.owner txnID = some (⟨pos, inside⟩ : Fin 64).val := own
    have untouched {another : Nat} (different : another ≠ txnID) {slot : Fin 64}
        (owns : run.ledger.owner another = some slot.val) (written : ActiveTx) :
        Function.update run.system.ctx.activeTxs ⟨pos, inside⟩ written slot =
          run.system.ctx.activeTxs slot :=
      Function.update_of_ne (invariant.slot_ne different place owns) _ _
    constructor
    case ids =>
      apply invariant.ids.store place (.inl starting)
      cases store with
      | txnID => exact .inl rfl
      | writeInfo tblID => exact .inr rfl
      | readCTS => exact .inr rfl
    case slots => exact invariant.slots
    case nodup => exact invariant.nodup
    case room => exact invariant.room
    case holds =>
      intro other live
      obtain ⟨slot, owns, rest⟩ := invariant.holds other live
      rw [← untouched (invariant.ne_of_live starting live).symm owns
        (store.apply txnID (run.system.ctx.activeTxs ⟨pos, inside⟩))] at rest
      exact ⟨slot, owns, rest⟩
    case zero => exact invariant.zero
    case threads =>
      apply invariant.threads.update
      · refine ⟨starting, own, ?_⟩
        rintro slot rfl
        have written : Function.update run.system.ctx.activeTxs slot
            (store.apply txnID (run.system.ctx.activeTxs slot)) slot =
              store.apply txnID (run.system.ctx.activeTxs slot) :=
          Function.update_self _ _ _
        change (_ → (Function.update run.system.ctx.activeTxs slot _ slot).txnID = txnID) ∧
          (_ → (Function.update run.system.ctx.activeTxs slot _ slot).readCTS = 0)
        rw [written]
        obtain ⟨marked, reset⟩ := done slot rfl
        cases store with
        | txnID =>
            refine ⟨fun _ => rfl, fun absent => reset ?_⟩
            exact List.not_mem_cons_of_ne_of_not_mem (by decide) absent
        | writeInfo tblID =>
            refine ⟨fun absent => marked ?_, fun absent => reset ?_⟩
            · exact List.not_mem_cons_of_ne_of_not_mem (fun same => by cases same) absent
            · exact List.not_mem_cons_of_ne_of_not_mem (fun same => by cases same) absent
        | readCTS =>
            refine ⟨fun absent => marked ?_, fun _ => rfl⟩
            exact List.not_mem_cons_of_ne_of_not_mem (by decide) absent
      · intro other owns
        exact .inl (starts.trans owns)
      · intro other different
        have otherSound := invariant.threads.sound other
        apply otherSound.frame
        · intro another also
          refine ⟨otherSound.starting also, rfl, fun slot owns => ?_⟩
          exact untouched (invariant.other_starter starts different also) owns _
        · intro another calls
          exact ⟨otherSound.live calls, rfl⟩
    case returned => exact invariant.returned

/-- The transaction is live when its slot has been initialised. -/
theorem start (invariant : Invariant first run) {txnID pos : Nat}
    (here : run.system.control thread = .initialising txnID pos []) :
    Invariant first ⟨run.system.goto thread .idle,
      run.ledger.noteStep (.initialising txnID pos [])⟩ := by
  have sound := invariant.threads.sound thread
  rw [here] at sound
  obtain ⟨starting, own, done⟩ := sound
  have starts : (run.system.control thread).starts = some txnID := by
    rw [here]
    rfl
  have moved : (run.ledger.starting.erase txnID ++ txnID :: run.ledger.live).Perm
      (run.ledger.starting ++ run.ledger.live) :=
    List.perm_middle.trans ((List.perm_cons_erase starting).symm.append_right _)
  have current (other : Nat) :
      (run.ledger.noteStep (.initialising txnID pos [])).Current other ↔
        run.ledger.Current other := by
    have same := moved.mem_iff (a := other)
    rwa [List.mem_append, List.mem_append] at same
  constructor
  case ids => exact invariant.ids.mono fun other => (current other).mp
  case slots => exact invariant.slots.mono fun other => (current other).mpr
  case nodup => exact moved.nodup_iff.mpr invariant.nodup
  case room =>
    have same := moved.length_eq
    have room := invariant.room
    rw [List.length_append, List.length_append] at same
    exact same ▸ room
  case holds =>
    intro other live
    rcases List.mem_cons.mp live with rfl | before
    · have inside := invariant.slots.inside other pos own
      obtain ⟨marked, reset⟩ := done ⟨pos, inside⟩ rfl
      refine ⟨⟨pos, inside⟩, own, marked List.not_mem_nil, ?_⟩
      exact (reset List.not_mem_nil).trans (invariant.zero other starting).symm
    · exact invariant.holds other before
  case zero => exact fun other among => invariant.zero other (List.mem_of_mem_erase among)
  case threads =>
    apply invariant.threads.update
    · trivial
    · intro other impossible
      cases impossible
    · intro other different
      have otherSound := invariant.threads.sound other
      apply otherSound.frame
      · intro another also
        have apart := invariant.other_starter starts different also
        exact ⟨(List.mem_erase_of_ne apart).mpr (otherSound.starting also), rfl,
          fun _ _ => rfl⟩
      · intro another calls
        exact ⟨List.mem_cons_of_mem _ (otherSound.live calls), rfl⟩
  case returned => exact invariant.returned

/-- A timestamp is written into the slot of its transaction. -/
theorem write (invariant : Invariant first run) {txnID : Nat} {pos : Fin 64}
    (live : txnID ∈ run.ledger.live) (own : run.ledger.owner txnID = some pos.val)
    (read : Nat) {control : Control} (starts : control.starts = none)
    (sound : Sound run.ledger run.system.ctx.activeTxs control) :
    Invariant first
      ⟨(run.system.setSlot pos { run.system.ctx.activeTxs pos with readCTS := read }).goto thread
          control,
        { run.ledger with timestamp := Function.update run.ledger.timestamp txnID read }⟩ := by
  have untouched {another : Nat} (different : another ≠ txnID) {slot : Fin 64}
      (owns : run.ledger.owner another = some slot.val) :
      Function.update run.system.ctx.activeTxs pos
          { run.system.ctx.activeTxs pos with readCTS := read } slot =
        run.system.ctx.activeTxs slot :=
    Function.update_of_ne (invariant.slot_ne different own owns) _ _
  constructor
  case ids => exact invariant.ids.store own (.inr live) (.inr rfl)
  case slots => exact invariant.slots
  case nodup => exact invariant.nodup
  case room => exact invariant.room
  case holds =>
    intro other among
    obtain ⟨slot, owns, marked, timestamp⟩ := invariant.holds other among
    refine ⟨slot, owns, ?_⟩
    change (Function.update run.system.ctx.activeTxs pos _ slot).txnID = _ ∧
      (Function.update run.system.ctx.activeTxs pos _ slot).readCTS =
        Function.update run.ledger.timestamp txnID read other
    by_cases same : other = txnID
    · subst same
      obtain rfl : slot = pos := Fin.ext (Option.some.inj (owns.symm.trans own))
      rw [Function.update_self, Function.update_self]
      exact ⟨marked, rfl⟩
    · rw [untouched same owns, Function.update_of_ne same]
      exact ⟨marked, timestamp⟩
  case zero =>
    intro other among
    exact (Function.update_of_ne (invariant.ne_of_live among live) _ _).trans
      (invariant.zero other among)
  case threads =>
    apply invariant.threads.update
    · apply sound.frame
      · intro other impossible
        rw [starts] at impossible
        cases impossible
      · intro other also
        exact ⟨sound.live also, rfl⟩
    · intro other impossible
      rw [starts] at impossible
      cases impossible
    · intro other _
      have otherSound := invariant.threads.sound other
      apply otherSound.frame
      · intro another also
        refine ⟨otherSound.starting also, rfl, fun slot owns => ?_⟩
        exact untouched (invariant.ne_of_live (otherSound.starting also) live) owns
      · intro another also
        exact ⟨otherSound.live also, rfl⟩
  case returned => exact invariant.returned

/-- A timestamp is read from the slot of its transaction. -/
theorem read (invariant : Invariant first run) {txnID : Nat} {pos : Fin 64}
    (here : run.system.control thread = .found .get txnID pos) {next : System Thread}
    (stepped : run.system.proceed thread = some next) :
    Invariant first ⟨next, run.ledger.noteStep (.found .get txnID pos)⟩ := by
  have sound := invariant.threads.sound thread
  rw [here] at sound
  obtain ⟨live, own⟩ := sound
  rw [System.proceed, here] at stepped
  obtain rfl := Option.some.inj stepped
  have moved : Invariant first ⟨run.system.goto thread .idle, run.ledger⟩ := by
    apply invariant.goto
    · trivial
    · intro other impossible
      cases impossible
  obtain ⟨slot, owns, _, timestamp⟩ := invariant.holds txnID live
  obtain rfl : slot = pos := Fin.ext (Option.some.inj (owns.symm.trans own))
  refine { moved with returned := ?_, threads := ?_ }
  · refine ⟨fun other => ?_, moved.threads.starters⟩
    have otherSound := moved.threads.sound other
    apply otherSound.frame
    · intro another also
      exact ⟨otherSound.starting also, rfl, fun _ _ => rfl⟩
    · intro another also
      exact ⟨otherSound.live also, rfl⟩
  · change run.system.returned ++ [_] = run.ledger.expected ++ [_]
    rw [invariant.returned, timestamp]

/-- A transaction gives its slot back, when no other call is on it. -/
theorem give (invariant : Invariant first run) {txnID : Nat} {pos : Fin 64}
    {expected : BitVec 64}
    (here : run.system.control thread = .releasing txnID pos expected)
    (alone : ∀ other, (run.system.control other).calls = some txnID → other = thread)
    {next : System Thread} (stepped : run.system.proceed thread = some next) :
    Invariant first ⟨next, run.ledger.noteStep (.releasing txnID pos expected)⟩ := by
  have sound := invariant.threads.sound thread
  rw [here] at sound
  obtain ⟨live, own⟩ := sound
  rw [System.proceed, here] at stepped
  dsimp only at stepped
  split at stepped
  case isFalse => cases stepped
  case isTrue same =>
    obtain rfl := Option.some.inj stepped
    subst same
    have once : run.ledger.live.Nodup := (List.nodup_append.mp invariant.nodup).2.1
    have fewer : (run.ledger.starting ++ run.ledger.live.erase txnID).Sublist
        (run.ledger.starting ++ run.ledger.live) :=
      List.Sublist.append_left List.erase_sublist _
    constructor
    case ids =>
      refine (invariant.ids.mono ?_).update none ?_
      · intro other current
        exact current.imp_right List.mem_of_mem_erase
      · rintro (starting | again)
        · exact absurd rfl (invariant.ne_of_live starting live)
        · exact absurd rfl (once.mem_erase_iff.mp again).1
    case slots =>
      apply (invariant.slots.give own).mono
      rintro other ⟨different, current⟩
      exact current.imp_right (List.mem_erase_of_ne different).mpr
    case nodup => exact invariant.nodup.sublist fewer
    case room =>
      have shorter := fewer.length_le
      have room := invariant.room
      rw [List.length_append, List.length_append] at shorter
      change run.ledger.starting.length + (run.ledger.live.erase txnID).length + _ ≤ 64
      omega
    case holds =>
      intro other among
      obtain ⟨different, before⟩ := once.mem_erase_iff.mp among
      obtain ⟨slot, owns, rest⟩ := invariant.holds other before
      exact ⟨slot, (Function.update_of_ne different _ _).trans owns, rest⟩
    case zero => exact invariant.zero
    case threads =>
      apply invariant.threads.update
      · trivial
      · intro other impossible
        cases impossible
      · intro other different
        have otherSound := invariant.threads.sound other
        apply otherSound.frame
        · intro another also
          have starting := otherSound.starting also
          exact ⟨starting, Function.update_of_ne (invariant.ne_of_live starting live) _ _,
            fun _ _ => rfl⟩
        · intro another also
          have apart : another ≠ txnID := by
            rintro rfl
            exact different (alone other also)
          exact ⟨(List.mem_erase_of_ne apart).mpr (otherSound.live also),
            Function.update_of_ne apart _ _⟩
    case returned => exact invariant.returned

/-- The next step of a thread keeps the invariant. -/
theorem proceed (invariant : Invariant first run)
    (during : run.DuringLife (.proceed thread)) {next : System Thread}
    (stepped : run.system.proceed thread = some next) :
    Invariant first ⟨next, run.ledger.note run.system (.proceed thread)⟩ := by
  have sound := invariant.threads.sound thread
  rw [Ledger.note]
  cases here : run.system.control thread with
  | idle =>
      rw [System.proceed, here] at stepped
      cases stepped
  | loading txnID =>
      rw [System.proceed, here] at stepped
      obtain rfl := Option.some.inj stepped
      rw [here] at sound
      apply invariant.goto
      · exact sound
      · intro other own
        rw [here]
        exact own
  | expecting txnID expected => exact invariant.take here stepped
  | initialising txnID pos stores =>
      cases stores with
      | nil =>
          have moved := invariant.start here
          rw [System.proceed, here] at stepped
          obtain rfl := Option.some.inj stepped
          exact moved
      | cons store stores => exact invariant.store here stepped
  | seeking purpose txnID pos => exact invariant.look here stepped
  | releasing txnID pos expected =>
      exact invariant.give here (during txnID pos expected here) stepped
  | found purpose txnID pos =>
      rw [here] at sound
      cases purpose with
      | get => exact invariant.read here stepped
      | set read =>
          rw [System.proceed, here] at stepped
          obtain rfl := Option.some.inj stepped
          exact invariant.write sound.1 sound.2 read rfl trivial
      | reset =>
          rw [System.proceed, here] at stepped
          obtain rfl := Option.some.inj stepped
          exact invariant.write sound.1 sound.2 0 rfl
            ⟨sound.1, pos.val, sound.2, Nat.zero_le _⟩
      | release =>
          rw [System.proceed, here] at stepped
          obtain rfl := Option.some.inj stepped
          apply invariant.goto
          · exact sound
          · intro other impossible
            cases impossible

theorem retry (invariant : Invariant first run) {next : System Thread}
    (stepped : run.system.retry thread = some next) : Invariant first ⟨next, run.ledger⟩ := by
  have sound := invariant.threads.sound thread
  rw [System.retry] at stepped
  split at stepped
  · rename_i txnID expected here
    obtain rfl := Option.some.inj stepped
    rw [here] at sound
    apply invariant.goto
    · exact sound
    · intro other own
      rw [here]
      exact own
  · rename_i txnID pos expected here
    obtain rfl := Option.some.inj stepped
    rw [here] at sound
    apply invariant.goto
    · exact sound
    · intro other impossible
      cases impossible
  · cases stepped

/-- Every allowed step keeps the invariant. -/
theorem step (invariant : Invariant first run) {action : Action Thread} {next : Run Thread}
    (allowed : run.Allowed (64 - (setBits first).card) action)
    (stepped : run.step action = some next) : Invariant first next := by
  obtain ⟨during, room⟩ := allowed
  obtain ⟨system, done, rfl⟩ := Option.map_eq_some_iff.mp stepped
  cases action with
  | newTx thread =>
      obtain ⟨few, small⟩ := room
      exact invariant.begin (by omega) small done
  | getReadCTS thread txnID =>
      obtain ⟨_, rfl⟩ := System.call_eq_some done
      exact invariant.seek during .get
  | setReadCTS thread txnID read =>
      obtain ⟨_, rfl⟩ := System.call_eq_some done
      exact invariant.seek during (.set read)
  | removeTx thread txnID =>
      obtain ⟨_, rfl⟩ := System.call_eq_some done
      exact invariant.seek during .reset
  | proceed thread => exact invariant.proceed during done
  | retry thread => exact invariant.retry done

end Invariant

/-- In every interleaving of any number of threads whose calls take place during the lives
of their transactions, and in which the transactions that are starting or live and the bits
that were set before are never more than 64, every transaction has a slot of its own. -/
theorem slots_exclusive {usedSlots : BitVec 64} {clock : Nat} (positive : 0 < clock)
    {run : Run Thread}
    (execution : TransitionSystem.Execution Run.step
      (Run.Allowed (64 - (setBits usedSlots).card)) (Run.init usedSlots clock) run) :
    run.Correct := by
  have few : (setBits usedSlots).card ≤ 64 := by
    have within := Finset.card_filter_le (Finset.range 64) fun pos => usedSlots.getLsbD pos
    rwa [Finset.card_range] at within
  have invariant : Invariant usedSlots run :=
    execution.invariant (Invariant.init positive few)
      fun state action next holds allowed stepped => holds.step allowed stepped
  exact invariant.correct

/-- A transaction takes the second slot, as the bit of the first one is set. -/
theorem slots_exclusive_second :
    ∃ run, TransitionSystem.run Run.step (Run.init 1#64 7)
        [.newTx (), .proceed (), .proceed ()] = some run ∧
      run.ledger.owner 7 = some 1 ∧ run.Correct := by
  have room : (Run.init 1#64 7 : Run Unit).Allowed (64 - (setBits 1#64).card) (.newTx ()) :=
    ⟨trivial, by decide, by decide⟩
  have begun := TransitionSystem.Execution.single room (rfl : Run.step _ _ = some _)
  have loaded := begun.tail (Run.allowed_proceed _ () rfl) rfl
  have taken := loaded.tail (Run.allowed_proceed _ () rfl) rfl
  exact ⟨_, rfl, rfl, slots_exclusive (by decide) taken⟩

/-- The first transaction of a context whose mask has all bits set takes the slot behind the
last one. -/
theorem not_slots_exclusive :
    ¬∀ (usedSlots : BitVec 64) (clock : Nat) (run : Run Unit), 0 < clock →
      TransitionSystem.Execution Run.step (Run.Allowed 64) (Run.init usedSlots clock) run →
      run.Correct := by
  intro always
  have room : (Run.init (BitVec.allOnes 64) 7 : Run Unit).Allowed 64 (.newTx ()) :=
    ⟨trivial, by decide, by decide⟩
  have begun := TransitionSystem.Execution.single room (rfl : Run.step _ _ = some _)
  have loaded := begun.tail (Run.allowed_proceed _ () rfl) rfl
  have taken := loaded.tail (Run.allowed_proceed _ () rfl) rfl
  have inside := (always _ _ _ (by decide) taken).inside 7 64 rfl
  exact Nat.lt_irrefl 64 inside

end PipeFabric.SlotThreads
