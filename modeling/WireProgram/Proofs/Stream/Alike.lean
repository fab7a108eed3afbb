/-
**Streams that differ only in the chunks of one root.**

Two states of the streams are alike at a root if the same bytes are still to come from it, in
whatever chunks, and if they agree on everything else. Reading from a view that does not run the
root through a codec then gives the same in both and keeps them alike. What is held may differ, so
peeking may; but not so much of it as was asked for. The main definitions and statements:

* `Streams.Differ`, states that differ in one source only, and `Together`, an operation that does not
  reach that source;
* `Streams.Alike` and `Streams.chunking`, the simulation of states that differ in the chunks of a
  root;
* `View.Steady`, a view that does not run the root through a codec;
* `View.Reader.steady`, an operation through such a view in lockstep, from which come
  `View.readExact_steady`, `View.readToEnd_steady` and `View.approach_steady`.
-/

import WireProgram.Proofs.Stream.Abreast

namespace WireProgram

/-! ### Alike streams -/

/-- Two states of the streams that differ at most in a root, which is related in some way. -/
structure Streams.Differ {κ : Type} (root : Nat) (related : Source → Source → Prop)
    (left right : Streams κ) : Prop where
  driver : right.driver = left.driver
  source : related (left.sources.get root) (right.sources.get root)
  others : ∀ cell, cell ≠ root → right.sources.get cell = left.sources.get cell
  cursors : right.cursors = left.cursors
  bounds : right.bounds = left.bounds
  transforms : right.transforms = left.transforms

/-- Both runs keep their driver, and a bound that was opened stays. -/
def Streams.differing (κ : Type) (root : Nat) (related : Source → Source → Prop) :
    Simulation (Streams κ) where
  alike := Streams.Differ root related
  later before after := after.driver = before.driver ∧ before.bounds.size ≤ after.bounds.size
  refl _ := ⟨rfl, Nat.le_refl _⟩
  trans first second := ⟨second.1.trans first.1, Nat.le_trans first.2 second.2⟩

/-- Two states of the streams that differ at most in the chunks of a root. -/
structure Streams.Alike {κ : Type} (root : Nat) (left right : Streams κ) : Prop where
  driver : right.driver = left.driver
  fair : (left.sources.get root).Fair ∧ (right.sources.get root).Fair
  rest : (right.sources.get root).rest = (left.sources.get root).rest
  position : (right.sources.get root).buffer.position = (left.sources.get root).buffer.position
  others : ∀ cell, cell ≠ root → right.sources.get cell = left.sources.get cell
  cursors : right.cursors = left.cursors
  bounds : right.bounds = left.bounds
  transforms : right.transforms = left.transforms

/-- The simulation of states that differ in the chunks of a root. -/
def Streams.chunking (κ : Type) (root : Nat) : Simulation (Streams κ) where
  alike := Streams.Alike root
  later before after := after.driver = before.driver ∧ before.bounds.size ≤ after.bounds.size
  refl _ := ⟨rfl, Nat.le_refl _⟩
  trans first second := ⟨second.1.trans first.1, Nat.le_trans first.2 second.2⟩

/-- Two fair sources with the same bytes to come. -/
structure Source.Alike (left right : Source) : Prop where
  fair : left.Fair ∧ right.Fair
  rest : right.rest = left.rest
  position : right.buffer.position = left.buffer.position

theorem Streams.Alike.differ {κ : Type} {root : Nat} {left right : Streams κ}
    (alike : Streams.Alike root left right) : Streams.Differ root Source.Alike left right :=
  ⟨alike.driver, ⟨alike.fair, alike.rest, alike.position⟩, alike.others, alike.cursors, alike.bounds,
    alike.transforms⟩

theorem Streams.Differ.alike {κ : Type} {root : Nat} {left right : Streams κ}
    (differ : Streams.Differ root Source.Alike left right) : Streams.Alike root left right :=
  ⟨differ.driver, differ.source.fair, differ.source.rest, differ.source.position, differ.others,
    differ.cursors, differ.bounds, differ.transforms⟩

namespace View

variable {κ : Type} {root : Nat} {left right left' right' : Streams κ} {view : View}

/-- A view that does not reach the root. -/
def Apart (root : Nat) : View → Prop
  | .source _ cell => cell ≠ root
  | .cursor _ => True
  | .take _ parent | .transformed _ parent => Apart root parent

/-- A view whose sources were all opened. -/
def Opened (streams : Streams κ) : View → Prop
  | .source _ cell => cell < streams.sources.size
  | .cursor _ => True
  | .take _ parent | .transformed _ parent => Opened streams parent

/-- What was opened before a root is apart from it. -/
theorem Opened.apart (opened : view.Opened left) : view.Apart left.sources.size := by
  induction view with
  | source own cell => exact Nat.ne_of_lt opened
  | cursor cell => trivial
  | take cell parent hypothesis => exact hypothesis opened
  | transformed cell parent hypothesis => exact hypothesis opened

/-- A view through bounds over the root, which the driver can pull. -/
def Over (root : Nat) (streams : Streams κ) : View → Prop
  | .source own cell => own = streams.driver ∧ cell = root
  | .take cell parent =>
    cell < streams.bounds.size ∧ cell ∉ parent.cells ∧ Over root streams parent
  | .cursor _ | .transformed _ _ => False

/-- A view that does not run the root through a codec. -/
def Steady (root : Nat) (streams : Streams κ) (view : View) : Prop :=
  view.Apart root ∨ view.Over root streams

theorem Over.not_apart (based : view.Over root left) : ¬view.Apart root := by
  induction view with
  | source own cell => exact fun apart => apart based.2
  | cursor cell => exact based.elim
  | take cell parent hypothesis => exact hypothesis based.2.2
  | transformed cell parent => exact based.elim

theorem Over.plain (based : view.Over root left) (fair : (left.sources.get root).Fair) :
    view.Plain left := by
  induction view with
  | source own cell =>
    refine ⟨based.1, ?_⟩
    rw [based.2]
    exact fair
  | cursor cell => exact based.elim
  | take cell parent hypothesis => exact ⟨based.1, based.2.1, hypothesis based.2.2⟩
  | transformed cell parent => exact based.elim

theorem Over.later (based : view.Over root left)
    (later : (Streams.chunking κ root).later left left') : view.Over root left' := by
  induction view with
  | source own cell => exact ⟨based.1.trans later.1.symm, based.2⟩
  | cursor cell => exact based.elim
  | take cell parent hypothesis =>
    exact ⟨Nat.lt_of_lt_of_le based.1 later.2, based.2.1, hypothesis based.2.2⟩
  | transformed cell parent => exact based.elim

theorem Steady.later (steady : view.Steady root left)
    (later : (Streams.chunking κ root).later left left') : view.Steady root left' :=
  steady.imp_right fun based => based.later later

theorem Over.alike (based : view.Over root left) (alike : Streams.Alike root left right) :
    view.Over root right :=
  based.later ⟨alike.driver, Nat.le_of_eq (by rw [alike.bounds])⟩

/-- The root of a view over the root. -/
theorem Over.content (based : view.Over root left) (alike : Streams.Alike root left right) :
    view.content right = view.content left := by
  induction view with
  | source own cell =>
    obtain ⟨-, rfl⟩ := based
    exact alike.rest
  | cursor cell => exact based.elim
  | take cell parent hypothesis =>
    show (parent.content right).take (right.bounds.get cell).left.toNat = _
    rw [hypothesis based.2.2, alike.bounds]
    rfl
  | transformed cell parent => exact based.elim

/-- As much went through a view in both, if as much went through the root. -/
theorem position_differ {related : Source → Source → Prop}
    (differ : Streams.Differ root related left right)
    (same : (right.sources.get root).buffer.position = (left.sources.get root).buffer.position)
    (view : View) : view.position right = view.position left := by
  cases view with
  | source own cell =>
    show (right.sources.get cell).buffer.position = (left.sources.get cell).buffer.position
    by_cases here : cell = root
    · rw [here]
      exact same
    · rw [differ.others cell here]
  | cursor cell =>
    show (right.cursors.get cell).buffer.position = (left.cursors.get cell).buffer.position
    rw [differ.cursors]
  | take cell parent =>
    show (right.bounds.get cell).position = (left.bounds.get cell).position
    rw [differ.bounds]
  | transformed cell parent =>
    show (right.transforms.get cell).buffer.position = (left.transforms.get cell).buffer.position
    rw [differ.transforms]

theorem position_alike (alike : Streams.Alike root left right) (view : View) :
    view.position right = view.position left :=
  position_differ alike.differ alike.position view

/-- A view over the root has no more to give than the root. -/
theorem Over.length_content_le (based : view.Over root left) :
    (view.content left).length ≤ (left.sources.get root).rest.length := by
  induction view with
  | source own cell =>
    obtain ⟨-, rfl⟩ := based
    exact Nat.le_refl _
  | cursor cell => exact based.elim
  | take cell parent hypothesis =>
    exact Nat.le_trans (List.length_take_le' _ _) (hypothesis based.2.2)
  | transformed cell parent => exact based.elim

/-- Spending through a view over the root spends from the root, and leaves everything else that is no
bound as it is. -/
theorem Over.roots {count : Nat} (based : view.Over root left)
    (spends : view.RootSpends count left left') :
    Source.Spent count (left.sources.get root) (left'.sources.get root) ∧
      (∀ cell, cell ≠ root → left'.sources.get cell = left.sources.get cell) ∧
      left'.cursors = left.cursors := by
  induction view with
  | source own cell =>
    obtain ⟨-, rfl⟩ := based
    exact spends
  | cursor cell => exact based.elim
  | take cell parent hypothesis => exact hypothesis based.2.2 spends
  | transformed cell parent => exact based.elim

/-- Spending through a view over the root in both: the roots come to be related as they are after so
much was spent of them. -/
theorem Over.differ {count : Nat} {related next : Source → Source → Prop}
    (based : view.Over root left) (differ : Streams.Differ root related left right)
    (spends : view.Spends count left left') (spends' : view.Spends count right right')
    (relates : ∀ {source source'}, Source.Spent count (left.sources.get root) source →
      Source.Spent count (right.sources.get root) source' → next source source') :
    Streams.Differ root next left' right' := by
  have based' : view.Over root right :=
    based.later ⟨differ.driver, Nat.le_of_eq (by rw [differ.bounds])⟩
  obtain ⟨one, others, cursors⟩ := based.roots spends.roots
  obtain ⟨two, others', cursors'⟩ := based'.roots spends'.roots
  constructor
  · rw [spends.driver, spends'.driver, differ.driver]
  · exact relates one two
  · intro cell different
    rw [others cell different, others' cell different, differ.others cell different]
  · rw [cursors, cursors', differ.cursors]
  · refine Table.ext_get ?_ fun cell => ?_
    · rw [spends.size, spends'.size, differ.bounds]
    · rw [spends.bounds, spends'.bounds, differ.bounds]
  · rw [spends.transforms, spends'.transforms, differ.transforms]

/-- Spending through a view over the root keeps the streams alike. -/
theorem Over.spends {count : Nat} (based : view.Over root left)
    (alike : Streams.Alike root left right) (spends : view.Spends count left left')
    (spends' : view.Spends count right right') : Streams.Alike root left' right' := by
  refine (based.differ alike.differ spends spends' fun one two => ?_).alike
  refine ⟨⟨one.fair alike.fair.1, two.fair alike.fair.2⟩, ?_, ?_⟩
  · rw [one.rest, two.rest, alike.rest]
  · rw [one.position, two.position, alike.position]

/-! ### Views apart from the root -/

/-- An operation that does not reach the root: however the root is related, it gives the same in both
and keeps the root as it is. -/
abbrev Together {α : Type} (root : Nat) (step : StreamStep κ α) : Prop :=
  ∀ related left right, Streams.Differ root related left right →
    Lockstep (Streams.differing κ root related) (fun _ _ => True) step step left right

section Together

variable {α : Type}

theorem Together.lockstep {step : StreamStep κ α} (together : Together root step)
    (alike : Streams.Alike root left right) :
    Lockstep (Streams.chunking κ root) (fun _ _ => True) step step left right := by
  obtain ⟨result, differ, later, holds⟩ := together Source.Alike left right alike.differ
  exact ⟨result, differ.alike, later, holds⟩

/-- Such an operation leaves the root as it is. -/
theorem Together.kept {step : StreamStep κ α} (together : Together root step)
    (streams : Streams κ) :
    (step.run streams).2.sources.get root = streams.sources.get root ∧
      (Streams.chunking κ root).later streams (step.run streams).2 := by
  have alone := together (fun source _ => source = streams.sources.get root) streams streams
    ⟨rfl, rfl, fun _ _ => rfl, rfl, rfl, rfl⟩
  exact ⟨alone.alike.source, alone.later⟩

theorem Differ.agree {related : Source → Source → Prop}
    (differ : Streams.Differ root related left right) :
    Streams.Agree id [.source root] left right where
  injective := Function.injective_id
  driver := differ.driver
  sources cell free := differ.others cell fun same => free (same ▸ List.mem_singleton_self _)
  cursors cell _ := by rw [differ.cursors]; rfl
  next more := by rw [differ.cursors]; rfl
  bounds cell _ := by rw [differ.bounds]
  size := by rw [differ.bounds]
  transforms := differ.transforms

/-- An operation that changes other layers than the root, and goes together where all others agree, does
not reach the root. -/
theorem Together.of_abreast {layers : List Layer} {step : StreamStep κ α}
    (abreast : Abreast id [.source root] layers step step) (free : .source root ∉ layers) :
    Together root step := by
  intro related left right differ
  obtain ⟨result, agree, kept, good⟩ := abreast left right (Differ.agree differ)
  have root := kept.same _ free
  have root' := (abreast.kept right).same _ free
  refine ⟨result, ⟨agree.driver, ?_, fun cell different => agree.sources cell ?_, ?_, ?_,
    agree.transforms⟩, ⟨kept.driver, kept.bounds⟩, good⟩
  · rw [show _ = left.sources.get _ from root, show _ = right.sources.get _ from root']
    exact differ.source
  · exact fun member => different (Layer.source.inj (List.mem_singleton.mp member))
  · exact Table.ext_get (agree.next 0).symm fun cell => agree.cursors cell (by simp)
  · exact Table.ext_get agree.size fun cell => agree.bounds cell (by simp)

end Together

section Apart

variable [ChunkCodec κ] {related : Source → Source → Prop}

omit [ChunkCodec κ] in
theorem Apart.free (apart : view.Apart root) : .source root ∉ view.touches := by
  induction view with
  | source own cell => exact fun member => apart (Layer.source.inj (List.mem_singleton.mp member)).symm
  | cursor cell => exact fun member => nomatch List.mem_singleton.mp member
  | take cell parent hypothesis =>
    exact fun member => (List.mem_cons.mp member).elim nofun (hypothesis apart)
  | transformed cell parent hypothesis =>
    exact fun member => (List.mem_cons.mp member).elim nofun (hypothesis apart)

omit [ChunkCodec κ] in
theorem Apart.clear (apart : view.Apart root) : view.touches.Disjoint [.source root] :=
  List.disjoint_singleton.mpr apart.free

theorem Apart.weight (apart : view.Apart root) (differ : Streams.Differ root related left right) :
    view.weight right = view.weight left := by
  have same := weight_agree (Differ.agree differ) apart.clear
  rwa [moved_id] at same

omit [ChunkCodec κ] in
theorem Apart.atEnd (apart : view.Apart root) (differ : Streams.Differ root related left right) :
    view.atEnd right = view.atEnd left := by
  have same := atEnd_agree (Differ.agree differ) apart.clear
  rwa [moved_id] at same

omit [ChunkCodec κ] in
/-- An operation that changes the layers of a view does not reach a root that the view is apart from. -/
theorem Apart.together {α : Type} (apart : view.Apart root) (step : View → StreamStep κ α)
    (abreast : Abreast id [.source root] view.touches (step view) (step (view.moved id))) :
    Together root (step view) := by
  rw [moved_id] at abreast
  exact .of_abreast abreast apart.free

theorem Apart.readExact (apart : view.Apart root) (count : Int) :
    Together root (view.readExact count : StreamStep κ Bytes) :=
  apart.together (fun view => view.readExact count) (readExact_abreast apart.clear count)

theorem Apart.readToEnd (apart : view.Apart root) :
    Together root (view.readToEnd : StreamStep κ Bytes) :=
  apart.together View.readToEnd (readToEnd_abreast apart.clear)

theorem Apart.approach (apart : view.Apart root) (terminator : Bytes) :
    Together root (view.approach terminator : StreamStep κ Approach) :=
  apart.together (fun view => view.approach terminator) (approach_abreast apart.clear terminator)

end Apart

/-! ### Steady views -/

section Steady

variable [ChunkCodec κ]

/-- **A reader** of a steady view goes together. -/
theorem Reader.steady {α : Type} {step : View → StreamStep κ α} {answer : Bytes → Except Fault α}
    {cost : Bytes → Nat} (reader : Reader step answer cost) (steady : view.Steady root left)
    (alike : Streams.Alike root left right) :
    Lockstep (Streams.chunking κ root) (fun _ _ => True) (step view) (step view) left right := by
  rcases steady with apart | based
  · exact (apart.together step (reader.abreast apart.clear)).lockstep alike
  · obtain ⟨left', same, spends⟩ := reader.plain (based.plain alike.fair.1)
    obtain ⟨right', same', spends'⟩ := reader.plain ((based.alike alike).plain alike.fair.2)
    rw [based.content alike] at same' spends'
    exact .of_run same same' (based.spends alike spends spends')
      ⟨spends.driver, Nat.le_of_eq spends.size.symm⟩ fun _ _ => trivial

/-- **Reading exactly so many bytes** goes together. -/
theorem readExact_steady (steady : view.Steady root left) (alike : Streams.Alike root left right)
    (count : Nat) :
    Lockstep (Streams.chunking κ root) (fun _ _ => True) (view.readExact count)
      (view.readExact count) left right :=
  (readExact_reader count).steady steady alike

/-- **Reading to the end** goes together. -/
theorem readToEnd_steady (steady : view.Steady root left) (alike : Streams.Alike root left right) :
    Lockstep (Streams.chunking κ root) (fun _ _ => True) view.readToEnd view.readToEnd
      left right :=
  readToEnd_reader.steady steady alike

/-- **Looking for a terminator** goes together. -/
theorem approach_steady (steady : view.Steady root left) (alike : Streams.Alike root left right)
    {terminator : Bytes} (filled : terminator ≠ []) :
    Lockstep (Streams.chunking κ root) (fun _ _ => True) (view.approach terminator)
      (view.approach terminator) left right :=
  (approach_reader filled).steady steady alike

/-- As much can come from a steady view in both, which bounds every loop over it. -/
theorem Steady.weight (steady : view.Steady root left) (alike : Streams.Alike root left right) :
    view.weight right = view.weight left := by
  rcases steady with apart | based
  · exact apart.weight alike.differ
  · rw [weight_plain (based.plain alike.fair.1),
      weight_plain ((based.alike alike).plain alike.fair.2), based.content alike]

end Steady

/-! ### Opening views -/

/-- A root opened over two inputs that hand out the same bytes. -/
theorem openSource_alike (streams : Streams κ) (own : Execution) {input input' : Input}
    {bytes : Bytes} (delivers : input.Delivers bytes) (delivers' : input'.Delivers bytes) :
    Streams.Alike streams.sources.size (streams.openSource own input).2
      (streams.openSource own input').2 := by
  have opened : ∀ input : Input, (streams.sources.push { input := input }).get
      streams.sources.size = { input := input } := by
    intro input
    rw [Table.get_push, if_pos rfl]
  obtain ⟨fair, rest⟩ := Source.opened_fair delivers
  obtain ⟨fair', rest'⟩ := Source.opened_fair delivers'
  constructor
  · rfl
  · show ((streams.sources.push _).get _).Fair ∧ ((streams.sources.push _).get _).Fair
    rw [opened, opened]
    exact ⟨fair, fair'⟩
  · show ((streams.sources.push _).get _).rest = ((streams.sources.push _).get _).rest
    rw [opened, opened, rest, rest']
  · show ((streams.sources.push _).get _).buffer.position =
      ((streams.sources.push _).get _).buffer.position
    rw [opened, opened]
  · intro cell different
    show (streams.sources.push _).get cell = (streams.sources.push _).get cell
    rw [Table.get_push, Table.get_push, if_neg different, if_neg different]
  · rfl
  · rfl
  · rfl

theorem openTake_alike (alike : Streams.Alike root left right) (view : View) (limit : Int) :
    Streams.Alike root (left.openTake view limit).2 (right.openTake view limit).2 :=
  ⟨alike.driver, alike.fair, alike.rest, alike.position, alike.others, alike.cursors,
    by rw [Streams.openTake, Streams.openTake, alike.bounds], alike.transforms⟩

theorem Over.cells_lt (based : view.Over root left) :
    ∀ cell ∈ view.cells, cell < left.bounds.size := by
  induction view with
  | source own cell => exact nofun
  | cursor cell => exact nofun
  | take cell parent hypothesis =>
    intro other member
    rcases List.mem_cons.mp member with rfl | above
    · exact based.1
    · exact hypothesis based.2.2 other above
  | transformed cell parent => exact based.elim

/-- A new bound over a view over the root is one too. -/
theorem Over.openTake (based : view.Over root left) (limit : Int) :
    (left.openTake view limit).1.Over root (left.openTake view limit).2 := by
  have grown : left.bounds.size < (left.openTake view limit).2.bounds.size := by
    rw [Streams.openTake, Table.size_push]
    exact Nat.lt_succ_self _
  refine ⟨grown, fun member => Nat.lt_irrefl _ (based.cells_lt _ member), ?_⟩
  exact based.later ⟨rfl, Nat.le_of_lt grown⟩

/-- A new bound over a steady view is steady. -/
theorem Steady.openTake (steady : view.Steady root left) (limit : Int) :
    (left.openTake view limit).1.Steady root (left.openTake view limit).2 :=
  steady.imp id fun based => based.openTake limit

end View

end WireProgram
