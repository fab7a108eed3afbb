/-
**Tables in order.**

An ordered table holds every key once. Sorting the keys of a document changes the order of entries
and nothing else: what is found under a key is the same, sorted inside. The main statements:

* `nodup_tableOf` and `tableOf_of_nodup`, the keys of ordered tables;
* `sortByKey`, entries in the order of their keys;
* `Json.sortEntries_perm`, `Json.lookup_sortEntries` and `Json.depth_sortKeys`, what sorting keeps;
* `Json.sortKeys_sortKeys`, sorting what is sorted.
-/

import Mathlib.Data.List.Nodup
import Mathlib.Data.List.Sort
import Mathlib.Data.String.Basic
import WireProgram.Json.Printer

namespace WireProgram

/-! ### Ordered tables -/

section Tables

variable {α β : Type} [DecidableEq α] {key : α} {value : β} {table entries : List (α × β)}
  {entry : α × β}

/-- A new key comes last. -/
theorem putEntry_of_new (new : key ∉ table.map Prod.fst) :
    putEntry key value table = table ++ [(key, value)] := by
  induction table with
  | nil => rfl
  | cons other rest hypothesis =>
    obtain ⟨apart, others⟩ := not_or.mp (List.mem_cons.not.mp new)
    rw [putEntry, if_neg (Ne.symm apart), hypothesis others]
    rfl

/-- A known key keeps its place. -/
theorem keys_putEntry_of_known (known : key ∈ table.map Prod.fst) :
    (putEntry key value table).map Prod.fst = table.map Prod.fst := by
  induction table with
  | nil => cases known
  | cons other rest hypothesis =>
    by_cases same : other.1 = key
    · rw [putEntry, if_pos same, List.map_cons, List.map_cons, same]
    · have later : key ∈ rest.map Prod.fst := (List.mem_cons.mp known).resolve_left (Ne.symm same)
      rw [putEntry, if_neg same, List.map_cons, List.map_cons, hypothesis later]

theorem nodup_putEntry (nodup : (table.map Prod.fst).Nodup) :
    ((putEntry key value table).map Prod.fst).Nodup := by
  by_cases known : key ∈ table.map Prod.fst
  · rwa [keys_putEntry_of_known known]
  · rw [putEntry_of_new known, List.map_append]
    exact nodup.append (List.nodup_singleton key) (List.disjoint_singleton.mpr known)

theorem mem_putEntry (member : entry ∈ putEntry key value table) :
    entry = (key, value) ∨ entry ∈ table := by
  induction table with
  | nil => exact .inl (List.mem_singleton.mp member)
  | cons other rest hypothesis =>
    rw [putEntry] at member
    split at member
    · exact (List.mem_cons.mp member).imp_right (List.mem_cons_of_mem other)
    · rcases List.mem_cons.mp member with rfl | member
      · exact .inr (List.mem_cons_self ..)
      · exact (hypothesis member).imp_right (List.mem_cons_of_mem other)

/-- **A table holds every key once.** -/
theorem nodup_tableOf (entries : List (α × β)) : ((tableOf entries).map Prod.fst).Nodup := by
  unfold tableOf
  generalize start : ([] : List (α × β)) = table
  have nodup : (table.map Prod.fst).Nodup := start ▸ List.nodup_nil
  clear start
  induction entries generalizing table with
  | nil => exact nodup
  | cons entry rest hypothesis => exact hypothesis _ (nodup_putEntry nodup)

theorem mem_tableOf (member : entry ∈ tableOf entries) : entry ∈ entries := by
  unfold tableOf at member
  generalize start : ([] : List (α × β)) = table at member
  have whole : entry ∈ table ∨ entry ∈ entries := by
    clear start
    induction entries generalizing table with
    | nil => exact .inl member
    | cons other rest hypothesis =>
      rcases hypothesis _ member with before | later
      · exact (mem_putEntry before).elim (fun same => .inr (same ▸ List.mem_cons_self ..)) .inl
      · exact .inr (List.mem_cons_of_mem other later)
  exact whole.resolve_left (start ▸ List.not_mem_nil)

/-- **A sequence with different keys** is a table. -/
theorem tableOf_of_nodup (nodup : (entries.map Prod.fst).Nodup) : tableOf entries = entries := by
  have general : ∀ table : List (α × β), ((table ++ entries).map Prod.fst).Nodup →
      entries.foldl (fun table entry => putEntry entry.1 entry.2 table) table =
        table ++ entries := by
    induction entries with
    | nil => exact fun table _ => (List.append_nil table).symm
    | cons entry rest hypothesis =>
      intro table nodup
      have whole : table ++ entry :: rest = (table ++ [entry]) ++ rest := by
        rw [List.append_assoc, List.singleton_append]
      have new : entry.1 ∉ table.map Prod.fst := by
        rw [List.map_append] at nodup
        exact fun member => List.disjoint_of_nodup_append nodup member (List.mem_cons_self ..)
      rw [List.foldl_cons, putEntry_of_new new, whole]
      refine hypothesis ?_ _ (whole ▸ nodup)
      rw [List.map_append] at nodup
      exact nodup.of_append_right.of_cons
  exact general [] nodup

end Tables

section LookUps

variable {α β : Type} [BEq α] [LawfulBEq α] {key : α} {value : β} {entries : List (α × β)}

/-- What stands under a key in a table is found under it. -/
theorem lookup_of_mem (nodup : (entries.map Prod.fst).Nodup)
    (member : (key, value) ∈ entries) : entries.lookup key = some value := by
  obtain ⟨before, after, rfl⟩ := List.append_of_mem member
  refine List.lookup_eq_some_iff.mpr ⟨before, after, rfl, fun entry inside => ?_⟩
  rw [List.map_append] at nodup
  rw [bne_iff_ne]
  intro same
  exact List.disjoint_of_nodup_append nodup (List.mem_map_of_mem inside)
    (same ▸ List.mem_cons_self ..)

theorem mem_of_lookup (found : entries.lookup key = some value) :
    (key, value) ∈ entries := by
  obtain ⟨before, after, rfl, -⟩ := List.lookup_eq_some_iff.mp found
  exact List.mem_append_right _ (List.mem_cons_self ..)

/-- The order of a table does not matter to what is found in it. -/
theorem lookup_of_perm {others : List (α × β)}
    (nodup : (entries.map Prod.fst).Nodup) (perm : others.Perm entries) (key : α) :
    others.lookup key = entries.lookup key := by
  have nodup' : (others.map Prod.fst).Nodup := (perm.map Prod.fst).nodup_iff.mpr nodup
  refine Option.ext fun value => ⟨fun found => ?_, fun found => ?_⟩
  · exact lookup_of_mem nodup (perm.mem_iff.mp (mem_of_lookup found))
  · exact lookup_of_mem nodup' (perm.mem_iff.mpr (mem_of_lookup found))

end LookUps

/-! ### The order of keys -/

section Keys

variable {α β : Type}

/-- Whether the key of one entry does not come after that of another. -/
def KeyLE (entry other : String × α) : Prop :=
  entry.1 ≤ other.1

instance : DecidableRel (KeyLE (α := α)) :=
  fun entry other => inferInstanceAs (Decidable (entry.1 ≤ other.1))

instance : Std.Total (KeyLE (α := α)) :=
  ⟨fun entry other => le_total entry.1 other.1⟩

instance : IsTrans (String × α) KeyLE :=
  ⟨fun _ _ _ => le_trans⟩

/-- Entries in the order of their keys. -/
def sortByKey (entries : List (String × α)) : List (String × α) :=
  entries.insertionSort KeyLE

theorem sortByKey_perm (entries : List (String × α)) : (sortByKey entries).Perm entries :=
  List.perm_insertionSort KeyLE entries

theorem nodup_sortByKey {entries : List (String × α)} (nodup : (entries.map Prod.fst).Nodup) :
    ((sortByKey entries).map Prod.fst).Nodup :=
  ((sortByKey_perm entries).map Prod.fst).nodup_iff.mpr nodup

theorem sortByKey_sortByKey (entries : List (String × α)) :
    sortByKey (sortByKey entries) = sortByKey entries :=
  (List.pairwise_insertionSort KeyLE entries).insertionSort_eq

/-- The order of entries does not go by their values. -/
theorem map_sortByKey (act : α → β) (entries : List (String × α)) :
    (sortByKey entries).map (Prod.map id act) = sortByKey (entries.map (Prod.map id act)) :=
  List.map_insertionSort KeyLE KeyLE _ entries fun _ _ _ _ => Iff.rfl

end Keys

namespace Json

/-! ### Sorted keys -/

theorem insertKey_eq_orderedInsert (entry : String × Json) (entries : List (String × Json)) :
    insertKey entry entries = entries.orderedInsert KeyLE entry := by
  induction entries with
  | nil => rfl
  | cons other rest hypothesis =>
    rw [insertKey, List.orderedInsert_cons, hypothesis]
    by_cases before : other.1 < entry.1
    · rw [if_pos before, if_neg (show ¬KeyLE entry other from not_le.mpr before)]
    · rw [if_neg before, if_pos (show KeyLE entry other from not_lt.mp before)]

/-- **Sorting an object** sorts its values inside, and its entries by their keys. -/
theorem sortEntries_eq (entries : List (String × Json)) :
    sortEntries entries = sortByKey (entries.map (Prod.map id sortKeys)) := by
  induction entries with
  | nil => rfl
  | cons entry rest hypothesis =>
    show insertKey (entry.1, sortKeys entry.2) (sortEntries rest) = _
    rw [insertKey_eq_orderedInsert, hypothesis]
    rfl

/-- Sorting changes the order of the entries of an object. -/
theorem sortEntries_perm (entries : List (String × Json)) :
    (sortEntries entries).Perm (entries.map (Prod.map id sortKeys)) :=
  sortEntries_eq entries ▸ sortByKey_perm _

theorem sortItems_eq_map (items : List Json) : sortItems items = items.map sortKeys := by
  induction items with
  | nil => rfl
  | cons item rest hypothesis => exact congrArg _ hypothesis

theorem keys_map_sortKeys (entries : List (String × Json)) :
    (entries.map (Prod.map id sortKeys)).map Prod.fst = entries.map Prod.fst := by
  rw [List.map_map]
  rfl

/-- **What is found under a key** after sorting is what was found there, sorted inside. -/
theorem lookup_sortEntries {entries : List (String × Json)} (nodup : (entries.map Prod.fst).Nodup)
    (key : String) : (sortEntries entries).lookup key = (entries.lookup key).map sortKeys := by
  rw [lookup_of_perm (by rwa [keys_map_sortKeys]) (sortEntries_perm entries) key]
  clear nodup
  induction entries with
  | nil => rfl
  | cons entry rest hypothesis =>
    rw [List.map_cons, List.lookup_cons, List.lookup_cons, hypothesis, Prod.map_fst, id]
    cases key == entry.1 <;> rfl

/-! ### Depth -/

theorem depth_le_depthEntries {entries : List (String × Json)} {entry : String × Json}
    (member : entry ∈ entries) : entry.2.depth ≤ depthEntries entries := by
  induction entries with
  | nil => cases member
  | cons other rest hypothesis =>
    rcases List.mem_cons.mp member with rfl | member
    · exact Nat.le_max_left ..
    · exact Nat.le_trans (hypothesis member) (Nat.le_max_right ..)

theorem depth_pos (document : Json) : 0 < document.depth := by
  cases document <;> exact Nat.succ_pos _

/-- What is found under a key is less deep. -/
theorem depth_of_get? {document value : Json} {key : String}
    (found : document.get? key = some value) : value.depth < document.depth := by
  cases document with
  | object entries =>
    have looked : entries.lookup key = some value := found
    exact Nat.lt_succ_of_le (depth_le_depthEntries (mem_of_lookup looked))
  | _ => cases found

theorem depthItems_of_get? {document : Json} {fuel : Nat} (key : String) (items : List Json)
    (found : document.get? key = some (.array items)) (enough : document.depth ≤ fuel + 1) :
    depthItems items ≤ fuel := by
  have inside : depthItems items + 1 < document.depth := depth_of_get? found
  omega

theorem depthEntries_insertKey (entry : String × Json) (entries : List (String × Json)) :
    depthEntries (insertKey entry entries) = max entry.2.depth (depthEntries entries) := by
  induction entries with
  | nil => rfl
  | cons other rest hypothesis =>
    rw [insertKey]
    split
    · show max other.2.depth (depthEntries (insertKey entry rest)) = _
      rw [hypothesis]
      exact Nat.max_left_comm ..
    · rfl

mutual

/-- Sorting changes no depth. -/
theorem depth_sortKeys : ∀ document : Json, document.sortKeys.depth = document.depth
  | .null | .bool _ | .int _ | .float _ | .string _ => rfl
  | .array items => congrArg (· + 1) (depthItems_sortItems items)
  | .object entries => congrArg (· + 1) (depthEntries_sortEntries entries)

theorem depthItems_sortItems : ∀ items : List Json, depthItems (sortItems items) = depthItems items
  | [] => rfl
  | item :: rest => congrArg₂ max (depth_sortKeys item) (depthItems_sortItems rest)

theorem depthEntries_sortEntries :
    ∀ entries : List (String × Json), depthEntries (sortEntries entries) = depthEntries entries
  | [] => rfl
  | (key, value) :: rest => by
    show depthEntries (insertKey (key, sortKeys value) (sortEntries rest)) = _
    rw [depthEntries_insertKey, depthEntries_sortEntries rest, depth_sortKeys value]
    rfl

end

/-! ### Sorting what is sorted -/

mutual

/-- **Sorting what is sorted** changes nothing. -/
theorem sortKeys_sortKeys : ∀ document : Json, document.sortKeys.sortKeys = document.sortKeys
  | .null | .bool _ | .int _ | .float _ | .string _ => rfl
  | .array items => congrArg Json.array (sortItems_sortItems items)
  | .object entries => by
    refine congrArg Json.object ?_
    rw [sortEntries_eq, sortEntries_eq, map_sortByKey, sortByKey_sortByKey, List.map_map]
    exact congrArg sortByKey (sortValues_sortValues entries)

theorem sortItems_sortItems : ∀ items : List Json, sortItems (sortItems items) = sortItems items
  | [] => rfl
  | item :: rest => congrArg₂ List.cons (sortKeys_sortKeys item) (sortItems_sortItems rest)

theorem sortValues_sortValues : ∀ entries : List (String × Json),
    entries.map (Prod.map id sortKeys ∘ Prod.map id sortKeys) = entries.map (Prod.map id sortKeys)
  | [] => rfl
  | (key, value) :: rest => congrArg₂ (fun found others => (key, found) :: others)
      (sortKeys_sortKeys value) (sortValues_sortValues rest)

end

end Json

end WireProgram
