/-
**How deep references between messages can nest.**

Where no program comes back to itself, the programs on a chain of references are all different, and
every one but the first is that of a registered message. So a chain is no longer than the list of
registered types. The main definitions and statements:

* `Linked.Acyclic`, no program that a run can come to comes back to itself;
* `Linked.Within`, a bound on the number of references one after the other;
* `Linked.Acyclic.within`, the bound by the number of registered types.
-/

import WireProgram.Proofs.Reach

namespace WireProgram

/-- The messages among the types, each as it is entered. -/
def Types.linked (types : Types) : List Linked :=
  types.filterMap fun entry =>
    match entry.2 with
    | .message message => some (.ofMessage message types)
    | _ => none

theorem Types.length_linked_le (types : Types) : types.linked.length ≤ types.length :=
  List.length_filterMap_le _ _

theorem Types.mem_of_require {types : Types} {name : Json} {entry : TypeEntry}
    (required : types.require name = .ok entry) : ∃ key, (key, entry) ∈ types := by
  unfold require findNamed at required
  cases named : name.name? with
  | error fault =>
    rw [named] at required
    cases required
  | ok found =>
    rw [named] at required
    cases found with
    | none => cases required
    | some key =>
      cases looked : List.lookup key types with
      | none => simp [Except.map, bind, Except.bind, looked] at required
      | some other =>
        simp only [Except.map, bind, Except.bind, Option.bind_some, looked] at required
        cases required
        obtain ⟨before, after, split, -⟩ := List.lookup_eq_some_iff.mp looked
        refine ⟨key, ?_⟩
        rw [split]
        exact List.mem_append_right _ (List.mem_cons_self ..)

namespace Linked

variable {linked other : Linked} {message : MessageType}

/-- A message that a program names is among those of its types. -/
theorem Names.mem_linked (names : linked.Names message) :
    ofMessage message linked.types ∈ linked.types.linked := by
  obtain ⟨_, _, name, _, -, required⟩ := names
  obtain ⟨key, member⟩ := Types.mem_of_require required
  exact List.mem_filterMap.mpr ⟨(key, .message message), member, rfl⟩

/-- A program sees the types of the one that it is entered from, or none at all. -/
theorem visible_cases (message : MessageType) (types : Types) :
    (ofMessage message types).types = types ∨ (ofMessage message types).types = [] := by
  unfold ofMessage MessageType.visible
  cases message.standalone with
  | true => exact Or.inr rfl
  | false => exact Or.inl rfl

/-- Whether no program that a run can come to comes back to itself. -/
def Acyclic (linked : Linked) : Prop :=
  linked.Throughout fun other => ¬Relation.TransGen Refers other other

/-- Whether at most so many references follow one another. -/
def Within : Nat → Linked → Prop
  | 0, linked => ∀ message, ¬linked.Names message
  | depth + 1, linked => ∀ message, linked.Names message →
    Within depth (ofMessage message linked.types)

/-- The programs that were on the way to one are not named by it. -/
theorem Acyclic.not_behind (acyclic : linked.Acyclic) (names : linked.Names message) :
    ¬(ofMessage message linked.types).Reaches linked := by
  intro back
  have refers : linked.Refers (ofMessage message linked.types) := ⟨message, names, rfl⟩
  exact acyclic _ (.single refers) (.tail' back refers)

/-- The next program on a chain of different messages is yet another one of the messages. -/
theorem Acyclic.visit (acyclic : linked.Acyclic) (names : linked.Names message) {types : Types}
    {visited : List Linked} (nodup : visited.Nodup) (registered : visited ⊆ types.linked)
    (behind : ∀ other ∈ visited, other.Reaches linked)
    (sees : linked.types = types ∨ linked.types = []) :
    (ofMessage message linked.types :: visited).Nodup ∧
      ofMessage message linked.types :: visited ⊆ types.linked := by
  have member := names.mem_linked
  constructor
  · exact List.nodup_cons.mpr ⟨fun again => acyclic.not_behind names (behind _ again), nodup⟩
  · rcases sees with same | none
    · rw [same] at member ⊢
      exact List.cons_subset.mpr ⟨member, registered⟩
    · rw [none] at member
      cases member

/-- The induction is on the number of messages beside those on the way. -/
theorem Acyclic.within_of_visited (acyclic : linked.Acyclic) {types : Types}
    {visited : List Linked} (nodup : visited.Nodup) (registered : visited ⊆ types.linked)
    (behind : ∀ other ∈ visited, other.Reaches linked)
    (sees : linked.types = types ∨ linked.types = []) {depth : Nat}
    (enough : types.linked.length ≤ visited.length + depth) : linked.Within depth := by
  induction depth generalizing linked visited with
  | zero =>
    intro message names
    obtain ⟨different, among⟩ := acyclic.visit names nodup registered behind sees
    exact absurd (different.length_le_of_subset among) (Nat.not_le_of_lt (Nat.lt_succ_of_le enough))
  | succ depth hypothesis =>
    intro message names
    obtain ⟨different, among⟩ := acyclic.visit names nodup registered behind sees
    have refers : linked.Refers (ofMessage message linked.types) := ⟨message, names, rfl⟩
    refine hypothesis (acyclic.message names) different among ?_ ?_ ?_
    · intro other member
      rcases List.mem_cons.mp member with rfl | member
      · exact .refl
      · exact (behind other member).tail refers
    · rcases visible_cases message linked.types with same | none
      · exact sees.imp same.trans same.trans
      · exact Or.inr none
    · rw [List.length_cons]
      omega

/-- **References nest no deeper** than there are registered types. -/
theorem Acyclic.within (acyclic : linked.Acyclic) {depth : Nat}
    (enough : linked.types.length ≤ depth) : linked.Within depth := by
  refine acyclic.within_of_visited List.nodup_nil (List.nil_subset _) nofun (Or.inl rfl) ?_
  exact Nat.le_trans linked.types.length_linked_le (Nat.le_trans enough (Nat.le_add_left ..))

theorem Within.succ {depth : Nat} (within : linked.Within depth) : linked.Within (depth + 1) := by
  induction depth generalizing linked with
  | zero => exact fun message names => absurd names (within message)
  | succ depth hypothesis => exact fun message names => hypothesis (within message names)

theorem Within.reaches {depth : Nat} (within : linked.Within depth) (reaches : linked.Reaches other) :
    other.Within depth := by
  induction reaches with
  | refl => exact within
  | tail _ refers hypothesis =>
    obtain ⟨message, names, rfl⟩ := refers
    cases depth with
    | zero => exact absurd names (hypothesis message)
    | succ depth => exact (hypothesis message names).succ

/-- A program whose references are bounded does not come back to itself. -/
theorem Within.not_transGen {depth : Nat} (within : linked.Within depth) :
    ¬Relation.TransGen Refers linked linked := by
  intro back
  obtain ⟨next, ⟨message, names, rfl⟩, more⟩ := Relation.TransGen.head'_iff.mp back
  induction depth with
  | zero => exact within message names
  | succ depth hypothesis => exact hypothesis ((within message names).reaches more)

theorem Within.acyclic {depth : Nat} (within : linked.Within depth) : linked.Acyclic :=
  fun _ reaches => (within.reaches reaches).not_transGen

end Linked

end WireProgram
