import Mathlib.Data.List.AList
import Mathlib.Data.List.Induction
import Mathlib.Logic.Function.Iterate
import Mathlib.Data.Set.Card

/-!
# Finite maps with an order of iteration

An `AList` holds the entries of a finite map in the order in which a scan visits
them; what a map means is its `contents`, the partial function from keys to
values.  Entries can be rearranged without a change of the contents, a scan can
keep some of them or change their values, and a scan counts keys of the contents.
-/

namespace FiniteMap

variable {K α : Type}

/-- The entries of a map in the order of iteration. -/
abbrev Entries (K α : Type) := AList fun _ : K => α

/-- Another order of iteration over the same entries. -/
structure Reordering (K α : Type) where
  arrange : List (Sigma fun _ : K => α) → List (Sigma fun _ : K => α)
  perm : ∀ entries, (arrange entries).Perm entries

/-- The order that is there. -/
def Reordering.keep : Reordering K α := ⟨id, fun _ => .refl _⟩

/-- The map with its entries rearranged. -/
def reorder (order : Reordering K α) (map : Entries K α) : Entries K α :=
  ⟨order.arrange map.entries,
    (List.perm_nodupKeys (order.perm map.entries)).mpr map.nodupKeys⟩

variable [DecidableEq K]

/-- The value of every key that has one. -/
def contents (map : Entries K α) : K → Option α := fun key => map.lookup key

@[simp] theorem contents_empty : contents (∅ : Entries K α) = fun _ => none := by
  funext key
  exact AList.lookup_empty key

@[simp] theorem contents_reorder (order : Reordering K α) (map : Entries K α) :
    contents (reorder order map) = contents map := by
  funext key
  exact AList.perm_lookup (order.perm map.entries)

@[simp] theorem contents_insert (map : Entries K α) (key : K) (value : α) :
    contents (map.insert key value) =
      Function.update (contents map) key (some value) := by
  funext other
  by_cases here : other = key
  · subst here
    rw [Function.update_self]
    exact AList.lookup_insert map
  · rw [Function.update_of_ne here]
    exact AList.lookup_insert_ne here

@[simp] theorem contents_erase (map : Entries K α) (key : K) :
    contents (map.erase key) = Function.update (contents map) key none := by
  funext other
  by_cases here : other = key
  · subst here
    rw [Function.update_self]
    exact AList.lookup_erase other map
  · rw [Function.update_of_ne here]
    exact AList.lookup_erase_ne here

theorem mem_contents_iff {map : Entries K α} {key : K} {value : α} :
    contents map key = some value ↔ ⟨key, value⟩ ∈ map.entries :=
  List.mem_dlookup_iff map.nodupKeys

/-! ## Numbers of entries -/

omit [DecidableEq K] in
theorem length_keys (map : Entries K α) : map.keys.length = map.entries.length :=
  List.length_map _

theorem mem_keys_of_contents {map : Entries K α} {key : K} {value : α}
    (present : contents map key = some value) : key ∈ map.keys :=
  List.mem_keys_of_mem (mem_contents_iff.mp present)

/-- Erasing a key of the map. -/
theorem length_erase {map : Entries K α} {key : K} {value : α}
    (present : contents map key = some value) :
    (map.erase key).entries.length + 1 = map.entries.length := by
  rw [← length_keys, ← length_keys, AList.keys_erase]
  exact List.length_erase_add_one (mem_keys_of_contents present)

/-- Inserting again. -/
theorem length_insert_of_present {map : Entries K α} {key : K} {old : α}
    (present : contents map key = some old) (value : α) :
    (AList.insert key value map).entries.length = map.entries.length := by
  rw [← length_keys, ← length_keys, AList.keys_insert, List.length_cons]
  exact List.length_erase_add_one (mem_keys_of_contents present)

/-- Inserting a new key. -/
theorem length_insert_of_absent {map : Entries K α} {key : K}
    (absent : contents map key = none) (value : α) :
    (AList.insert key value map).entries.length = map.entries.length + 1 := by
  rw [AList.entries_insert_of_notMem (AList.lookup_eq_none.mp absent), List.length_cons]

/-! ## Scans -/

/-- The entries whose values satisfy a predicate. -/
def filterValues (keep : α → Bool) (map : Entries K α) : Entries K α :=
  ⟨map.entries.filter fun entry => keep entry.2,
    map.nodupKeys.sublist List.filter_sublist⟩

/-- The entries with other keys and values in their places. -/
def encode {L β : Type} (name : K → L) (injective : Function.Injective name)
    (change : α → β) (map : Entries K α) : Entries L β :=
  ⟨map.entries.map fun entry => ⟨name entry.1, change entry.2⟩, by
    have keys : (map.entries.map fun entry =>
        (⟨name entry.1, change entry.2⟩ : Sigma fun _ : L => β)).keys =
          map.entries.keys.map name := by
      simp [List.keys]
    rw [List.NodupKeys, keys]
    exact map.nodupKeys.map injective⟩

/-- The entries with changed values. -/
def mapValues {β : Type} (change : α → β) (map : Entries K α) : Entries K β :=
  encode id Function.injective_id change map

theorem contents_filterValues (keep : α → Bool) (map : Entries K α) :
    contents (filterValues keep map) = fun key => (contents map key).filter keep := by
  funext key
  apply Option.ext
  intro value
  rw [mem_contents_iff]
  simp only [filterValues, List.mem_filter, Option.filter_eq_some_iff]
  rw [mem_contents_iff]

theorem contents_encode_eq_some {L β : Type} [DecidableEq L] {name : K → L}
    {injective : Function.Injective name} {change : α → β} {map : Entries K α} {key : L}
    {value : β} :
    contents (encode name injective change map) key = some value ↔
      ∃ place old, name place = key ∧ change old = value ∧
        contents map place = some old := by
  rw [mem_contents_iff]
  simp only [encode, List.mem_map]
  constructor
  · intro found
    obtain ⟨entry, member, same⟩ := found
    cases same
    exact ⟨entry.1, entry.2, rfl, rfl, mem_contents_iff.mpr member⟩
  · intro found
    obtain ⟨place, old, rfl, rfl, present⟩ := found
    exact ⟨⟨place, old⟩, mem_contents_iff.mp present, rfl⟩

theorem contents_mapValues {β : Type} (change : α → β) (map : Entries K α) :
    contents (mapValues change map) = fun key => (contents map key).map change := by
  funext key
  apply Option.ext
  intro value
  rw [mapValues, contents_encode_eq_some, Option.map_eq_some_iff]
  constructor
  · intro found
    obtain ⟨place, old, rfl, rfl, present⟩ := found
    exact ⟨old, present, rfl⟩
  · intro found
    obtain ⟨old, present, rfl⟩ := found
    exact ⟨key, old, rfl, rfl, present⟩

/-- Maps with the same contents have the same entries. -/
theorem perm_entries {first second : Entries K α}
    (same : contents first = contents second) : first.entries.Perm second.entries := by
  apply List.lookup_ext first.nodupKeys second.nodupKeys
  intro key value
  exact iff_of_eq (congrArg (value ∈ ·) (congrFun same key))

theorem dlookup_kreplace (entries : List (Sigma fun _ : K => α)) {key : K}
    (present : key ∈ entries.keys) (value : α) (other : K) :
    (entries.kreplace key value).dlookup other =
      if other = key then some value else entries.dlookup other := by
  induction entries with
  | nil => simp at present
  | cons entry entries induction =>
      obtain ⟨first, old⟩ := entry
      by_cases here : key = first
      · subst here
        have replaced : List.kreplace key value (⟨key, old⟩ :: entries) =
            ⟨key, value⟩ :: entries :=
          List.lookmap_cons_some _ _ (if_pos rfl)
        rw [replaced]
        by_cases same : other = key
        · subst same
          rw [List.dlookup_cons_eq, if_pos rfl]
        · rw [List.dlookup_cons_ne _ _ same, if_neg same, List.dlookup_cons_ne _ _ same]
      · have later : key ∈ entries.keys := by
          rw [List.keys_cons, List.mem_cons] at present
          exact present.resolve_left here
        have replaced : List.kreplace key value (⟨first, old⟩ :: entries) =
            ⟨first, old⟩ :: List.kreplace key value entries :=
          List.lookmap_cons_none _ _ (if_neg here)
        rw [replaced]
        by_cases same : other = first
        · subst same
          rw [List.dlookup_cons_eq, if_neg (fun equal => here equal.symm),
            List.dlookup_cons_eq]
        · rw [List.dlookup_cons_ne _ _ same, List.dlookup_cons_ne _ _ same]
          exact induction later

/-- Changing the value of one key. -/
@[simp] theorem contents_replace (map : Entries K α) {key : K} {old : α}
    (present : contents map key = some old) (value : α) :
    contents (map.replace key value) =
      Function.update (contents map) key (some value) := by
  have member : key ∈ map.entries.keys :=
    List.mem_keys_of_mem (mem_contents_iff.mp present)
  funext other
  rw [Function.update_apply]
  exact dlookup_kreplace map.entries member value other

/-- Writing to a function at the key of every visited entry. -/
theorem foldl_update {β : Type} (effect : α → β)
    (entries : List (Sigma fun _ : K => α)) (nodup : entries.NodupKeys)
    (state : K → β) (key : K) :
    entries.foldl (fun state entry => Function.update state entry.1 (effect entry.2))
      state key = ((entries.dlookup key).map effect).getD (state key) := by
  induction entries generalizing state with
  | nil => rfl
  | cons entry entries induction =>
      obtain ⟨first, value⟩ := entry
      obtain ⟨fresh, nodup⟩ := List.nodupKeys_cons.mp nodup
      rw [List.foldl_cons, induction nodup]
      by_cases here : key = first
      · subst here
        have absent : entries.dlookup key = none := List.dlookup_eq_none.mpr fresh
        rw [absent, List.dlookup_cons_eq]
        exact Function.update_self key (effect value) state
      · rw [List.dlookup_cons_ne _ _ here]
        congr 1
        exact Function.update_of_ne here (effect value) state

/-- Erasing the key of every visited entry. -/
theorem contents_foldl_erase (entries : List (Sigma fun _ : K => α))
    (map : Entries K α) :
    contents (entries.foldl (fun map entry => map.erase entry.1) map) =
      entries.foldl
        (fun (state : K → Option α) entry => Function.update state entry.1 none)
        (contents map) := by
  induction entries generalizing map with
  | nil => rfl
  | cons entry entries induction =>
      rw [List.foldl_cons, List.foldl_cons, induction, contents_erase]

/-- Writing another value for every visited entry. -/
theorem contents_foldl_insert (change : α → α) (entries : List (Sigma fun _ : K => α))
    (map : Entries K α) :
    contents (entries.foldl
        (fun map entry => AList.insert entry.1 (change entry.2) map) map) =
      entries.foldl
        (fun (state : K → Option α) entry =>
          Function.update state entry.1 (some (change entry.2)))
        (contents map) := by
  induction entries generalizing map with
  | nil => rfl
  | cons entry entries induction =>
      rw [List.foldl_cons, List.foldl_cons, induction, contents_insert]

/-- A scan that writes at the keys it selects. -/
theorem foldl_update_selected (select : α → Bool) (effect : α → Option α)
    (map : Entries K α) (key : K) :
    (map.entries.filter fun entry => select entry.2).foldl
        (fun state entry => Function.update state entry.1 (effect entry.2))
        (contents map) key =
      (contents map key).bind fun value =>
        if select value then effect value else some value := by
  have written := foldl_update effect _ (filterValues select map).nodupKeys
    (contents map) key
  have visited : (filterValues select map).entries.dlookup key =
      (contents map key).filter select :=
    congrFun (contents_filterValues select map) key
  rw [visited] at written
  refine written.trans ?_
  cases contents map key with
  | none => rfl
  | some value =>
      cases selected : select value with
      | true => simp [Option.filter, selected]
      | false => simp [Option.filter, selected]

/-- A scan that erases what it selects. -/
theorem contents_eraseSelected (select : α → Bool) (map : Entries K α) :
    contents ((map.entries.filter fun entry => select entry.2).foldl
        (fun map entry => map.erase entry.1) map) =
      fun key => (contents map key).filter fun value => !select value := by
  funext key
  rw [contents_foldl_erase, foldl_update_selected select fun _ => none]
  cases contents map key with
  | none => rfl
  | some value => cases selected : select value <;> simp [Option.filter, selected]

/-- A scan that changes the values it selects. -/
theorem contents_insertSelected (select : α → Bool) (change : α → α)
    (map : Entries K α) :
    contents ((map.entries.filter fun entry => select entry.2).foldl
        (fun map entry => AList.insert entry.1 (change entry.2) map) map) =
      fun key => (contents map key).map fun value =>
        if select value then change value else value := by
  funext key
  rw [contents_foldl_insert, foldl_update_selected select fun value => some (change value)]
  cases contents map key with
  | none => rfl
  | some value => cases selected : select value <;> simp [selected]

/-- The number of visited entries that satisfy a predicate is the number of keys
whose values satisfy it. -/
theorem length_filter_entries (holds : α → Bool) (map : Entries K α) :
    (map.entries.filter fun entry => holds entry.2).length =
      {key | ∃ value, contents map key = some value ∧ holds value}.ncard := by
  have nodup : ((filterValues holds map).keys).Nodup := AList.keys_nodup _
  have same : {key | ∃ value, contents map key = some value ∧ holds value} =
      ((filterValues holds map).keys.toFinset : Set K) := by
    ext key
    simp only [Set.mem_ofPred_eq, List.coe_toFinset]
    rw [← AList.mem_keys, ← AList.lookup_isSome, Option.isSome_iff_exists]
    change _ ↔ ∃ value, contents (filterValues holds map) key = some value
    simp only [contents_filterValues, Option.filter_eq_some_iff]
  rw [same, Set.ncard_coe_finset, List.toFinset_card_of_nodup nodup]
  exact (List.length_map _).symm

/-- The number of entries is the number of keys. -/
theorem length_entries (map : Entries K α) :
    map.entries.length = {key | (contents map key).isSome}.ncard := by
  have counted := length_filter_entries (fun _ => true) map
  simpa [Option.isSome_iff_exists] using counted

/-! ## Groups of a list -/

/-- The entry of an element's key is made for the first element that has the key, and
changed for the others. -/
def group {E : Type} (key : E → K) (first : E → α) (again : α → α) (map : Entries K α)
    (element : E) : Entries K α :=
  match map.lookup (key element) with
  | some value => map.replace (key element) (again value)
  | none => map.insert (key element) (first element)

theorem contents_group {E : Type} (key : E → K) (first : E → α) (again : α → α)
    (map : Entries K α) (element : E) :
    contents (group key first again map element) =
      Function.update (contents map) (key element)
        (some (((contents map (key element)).map again).getD (first element))) := by
  rw [group]
  cases present : map.lookup (key element) with
  | some value =>
      dsimp only
      rw [contents_replace map present, contents, present]
      rfl
  | none =>
      dsimp only
      rw [contents_insert, contents, present]
      rfl

/-- Every key has its first element, changed as often as there are others. -/
theorem contents_foldl_group {E : Type} (key : E → K) (first : E → α) (again : α → α)
    (elements : List E) (place : K) :
    contents (elements.foldl (group key first again) ∅) place =
      match elements.filter fun element => key element = place with
      | [] => none
      | element :: others => some (again^[others.length] (first element)) := by
  induction elements using List.reverseRecOn with
  | nil => exact congrFun contents_empty place
  | append_singleton elements last induction =>
      rw [List.foldl_append, List.foldl_cons, List.foldl_nil, contents_group,
        List.filter_append]
      by_cases here : key last = place
      · rw [← here, Function.update_self]
        rw [here, induction]
        cases elements.filter fun element => key element = place with
        | nil => simp [here]
        | cons element others =>
            simp [here, Function.iterate_succ_apply']
      · rw [Function.update_of_ne (Ne.symm here), induction]
        simp [here]

end FiniteMap
