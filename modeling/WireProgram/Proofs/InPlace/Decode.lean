/-
**Decoding by reference is decoding in place.**

A message without transforms is decoded twice: in place of a reference to it, over a plain view of
the run that refers to it, and on its own, over a fresh cursor over what this view has to give. Both
runs give the same value, or fail with the same fault at the same place of the message; the reference
adds its own place in front. They read equally many bytes. The main definitions and statements:

* `Ensemble.placements`, the two runs as the ways of running a message;
* `Placement.Concludes`, how they end together, and `decodeMessage_inPlace`, that they do;
* `decodeReference_inPlace`, the reference to it;
* `decodeReference_lends`, where an argument is a stream over the view that the reference reads.
-/

import WireProgram.Proofs.Chunking
import WireProgram.Proofs.Ensemble.Run
import WireProgram.Proofs.InPlace.Streams

namespace WireProgram

/-! ### The two runs -/

/-- How a message is decoded: on its own, or in place of a reference to it. -/
inductive Setting where
  | alone
  | inPlace

section Runs

variable {α : Type} {place : Placement} {start : Setting → Streams Codec} {view : View}

/-- One thing for each run. -/
def Setting.pick (alone inPlace : α) : Setting → α
  | .alone => alone
  | .inPlace => inPlace

/-- The names of streams in both runs. Those of the run on its own are common to both. -/
def Placement.naming (place : Placement) : Setting → Naming
  | .alone => ⟨id, id, fun _ _ => id⟩
  | .inPlace => ⟨id, place.view, fun _ _ => id⟩

/-- The streams of both runs. Bounds stay. -/
def Streams.Family.joined (place : Placement) : Streams.Family Setting where
  states streams := place.Joined (streams .alone) (streams .inPlace)
  later before after := (before .alone).bounds.size ≤ (after .alone).bounds.size
  refl _ := Nat.le_refl _
  trans := Nat.le_trans

/-- A view that a register may hold in both runs: the cursor is never taken out of the reader. -/
def Placement.Holds (place : Placement) (streams : Streams Codec) (view : View) : Prop :=
  place.Reads streams view ∧ view ≠ .cursor place.fresh

theorem Jointly.read {step : View → StreamStep Codec α} {answer : Bytes → Except Fault α}
    {cost : Bytes → Nat} (reader : View.Reader step answer cost)
    (reads : place.Reads (start .alone) view) :
    Jointly (.joined place) start Constantly fun way => step ((place.naming way).views view) := by
  rintro streams ⟨joined, later⟩
  obtain ⟨result, alone', inPlace', ran, ran', joined', grown⟩ :=
    joined.read reader (reads.later later)
  have reached : (Streams.Family.joined place).accord.Reached streams
      (Setting.pick alone' inPlace') := ⟨joined', grown⟩
  have ends : ∀ way, (step ((place.naming way).views view)).run (streams way) =
      (result, Setting.pick alone' inPlace' way) := fun way => by
    cases way with
    | alone => exact ran
    | inPlace => exact ran'
  cases result with
  | ok value => exact .of_ok reached ⟨value, rfl⟩ ends
  | error fault => exact .of_error reached ⟨fault, rfl⟩ ends

theorem openTake_jointly (reads : place.Reads (start .alone) view) (limit : Int) :
    Jointly (.joined place) start
      (Likewise (fun streams => place.Holds (streams .alone)) fun way => (place.naming way).views)
      fun way => openedBy fun streams => streams.openTake ((place.naming way).views view) limit := by
  rintro streams ⟨joined, later⟩
  have size : (streams .inPlace).bounds.size = (streams .alone).bounds.size := joined.agree.size.symm
  have fresh : .bound (streams .alone).bounds.size ∉ place.target.touches := fun member =>
    Nat.lt_irrefl _ (size ▸ View.cells_lt_size joined.plain _ (View.bound_mem.mp member))
  have holds : place.Holds ((streams .alone).openTake view limit).2
      (.take (streams .alone).bounds.size view) := by
    refine ⟨?_, nofun⟩
    rcases reads.later later with above | ⟨here, rfl, apart⟩
    · exact .inl ⟨View.openTake_plain above.plain limit, above.root, List.disjoint_cons_left.mpr
        ⟨fun member => fresh (View.bound_mem.mpr member), above.apart⟩⟩
    · exact .inr ⟨.take (streams .alone).bounds.size here, rfl,
        List.disjoint_cons_left.mpr ⟨fresh, apart⟩⟩
  refine ⟨fun way => ((streams way).openTake ((place.naming way).views view) limit).2,
    ⟨joined.openTake _ _ limit, ((streams .alone).openTake_kept view limit).bounds⟩,
    .inl ⟨_, ⟨_, holds, rfl⟩, fun way => ?_⟩⟩
  cases way with
  | alone => rfl
  | inPlace =>
    show (Except.ok (View.take (streams .inPlace).bounds.size (place.view view)), _) = _
    rw [size]
    rfl

theorem openCursor_jointly (start : Setting → Streams Codec) (content : Bytes) :
    Jointly (.joined place) start
      (Likewise (fun streams cursor => place.Holds (streams .alone) cursor ∧ place.Beside cursor)
        fun way => (place.naming way).views)
      fun _ => openedBy fun streams => streams.openCursor content := by
  rintro streams ⟨joined, later⟩
  have moved : View.cursor (streams .alone).cursors.size =
      (View.cursor (streams .inPlace).cursors.size).moved place.shift :=
    congrArg View.cursor (joined.agree.next 0).symm
  have beside : place.Beside (.cursor (streams .alone).cursors.size) :=
    ⟨_, moved.symm, List.singleton_disjoint.mpr fun member =>
      Nat.lt_irrefl _ (joined.rooted _ member)⟩
  have holds : place.Holds ((streams .alone).openCursor content).2
      (.cursor (streams .alone).cursors.size) :=
    ⟨.inr beside, fun same => Nat.ne_of_gt joined.opened (View.cursor.inj same)⟩
  refine ⟨fun way => ((streams way).openCursor content).2,
    ⟨joined.openCursor content, Nat.le_refl _⟩, .inl ⟨_, ⟨_, ⟨holds, beside⟩, rfl⟩, fun way => ?_⟩⟩
  cases way with
  | alone => rfl
  | inPlace =>
    show _ = (Except.ok (place.view (.cursor (streams .alone).cursors.size)), _)
    rw [moved, place.view_moved]
    rfl

/-- **The two runs.** Views over the cursor are read in both, and views apart from the one in its
place; nothing is wrapped, and the foreign types are the built-in ones. -/
def Ensemble.placements (place : Placement) (mode : String) : Ensemble Setting where
  naming := place.naming
  mode _ := mode
  streams := .joined place
  reads streams := place.Reads (streams .alone)
  held streams := place.Holds (streams .alone)
  ends _ := place.Beside
  inside view := view ≠ .cursor place.fresh
  offset view := Setting.pick 0 (if view = .cursor place.fresh then place.passed else 0)
  wraps _ := False
  foreign type := Prelude.hasType type = true
  traces := Constant
  warnings := Constant
  faults := Constant
  reads_later later reads := reads.later later
  held_later later := And.imp_left fun reads => reads.later later
  ends_later _ := id
  reads_of_held := And.left
  inside_of_held := And.right
  readExact reads count := .read (View.readExact_reader count) reads
  readToEnd reads := .read View.readToEnd_reader reads
  approach reads filled := .read (View.approach_reader filled) reads
  openTake reads limit := openTake_jointly reads limit
  openCursor := openCursor_jointly
  wrap := False.elim
  left := False.elim
  decode {_ view type} builtIn reads values := by
    have plain : type.action ≠ .raw ∧ type.action ≠ .peek := by
      rcases Prelude.hasType_cases builtIn with ⟨bits, action⟩ | action | action <;>
        exact ⟨action ▸ nofun, action ▸ nofun⟩
    refine ForeignType.decode_together (fun _ => ⟨mode, rfl⟩) place.naming (fun count exact => ?_)
      (.read View.readToEnd_reader reads) (fun peeks => absurd peeks plain.2) values
    obtain ⟨count, rfl⟩ := Int.eq_ofNat_of_zero_le (exact.resolve_left plain.1)
    exact .read (View.readExact_reader count) reads
  position {view states} joined reads := by
    by_cases same : view = .cursor place.fresh
    · subst same
      refine ⟨(View.cursor place.fresh).position (states .alone), fun way => ?_⟩
      cases way with
      | alone => rfl
      | inPlace =>
        show (place.view _).position _ = _ + if _ then _ else _
        rw [place.view_fresh, if_pos rfl, joined.position, Nat.add_comm]
    · refine ⟨view.position (states .alone), fun way => ?_⟩
      cases way with
      | alone => rfl
      | inPlace =>
        show (place.view _).position _ = _ + if _ then _ else _
        rw [joined.position_view same (reads.free same), if_neg same, Nat.add_zero]
  weight {view states} joined reads := by
    refine ⟨view.weight (states .alone), fun way => ?_⟩
    cases way with
    | alone => rfl
    | inPlace => exact reads.weight joined
  atEnd {view states} joined beside := by
    refine ⟨view.atEnd (states .alone), fun way => ?_⟩
    cases way with
    | alone => rfl
    | inPlace =>
      obtain ⟨here, rfl, apart⟩ := beside
      show (place.view _).atEnd _ = _
      rw [place.view_moved]
      exact (View.atEnd_agree joined.agree apart).symm
  same fault := ⟨fault, rfl⟩
  unfit {_ view} holds what := by
    have named : ∀ way, ((place.naming way).views view).typeName = view.typeName := fun way => by
      cases way with
      | alone => rfl
      | inPlace => exact place.typeName_view holds.2
    exact ⟨.decode (.countNotInteger what view.typeName), funext fun way => by rw [named]⟩
  recorded same := (same.map Fault.isDecode).exists_eq
  started same depth label := same.map fun trace => trace.record "exec" depth label mode
  failed same fault depth label :=
    same.map₂ fault fun trace fault => trace.record "fail" depth label fault.message
  warned same text := same.map (text :: ·)

end Runs

/-- Both runs cover a program that wraps no stream and reads only the built-in types. -/
theorem Linked.Bare.suits {linked : Linked} (bare : linked.Bare) (place : Placement) (mode : String) :
    linked.Suits (.placements place mode) := by
  intro part member
  have holds := bare part member
  cases part with
  | eval target expression =>
    intro way cell _
    cases way <;> rfl
  | decodeForeign => exact holds
  | decodeReference => exact fun _ _ => trivial
  | wrapStream => exact holds
  | conditionalWrapStream => exact holds
  | _ => trivial

/-! ### A message in both runs -/

/-- A message on its own is decoded as in place, with references that may nest deep enough. -/
theorem decodeWith_eq_decodeMessage (types : Types) (mode : String) (config : Config)
    (message : MessageType) (view : View) (values : List Value) :
    decodeWith ⟨message.program, message.visible types, mode, config⟩ ⟨view, false⟩ values =
      decodeMessage types mode config ((message.visible types).length + nestingLimit + 1) message
        view values := by
  have opened : (RunSource.mk view false).open? mode = .ok view := if_neg fun both => nomatch both.1
  unfold decodeWith
  rw [opened]
  generalize (message.visible types).length + nestingLimit = depth
  rfl

/-- The names in both runs leave the streams alone that were there before. -/
theorem Placement.naming_spares (streams : Streams Codec) (view : View) (way : Setting) :
    ((Placement.of streams view).naming way).Spares (View.Standing streams) := by
  cases way with
  | alone => exact ⟨fun _ => rfl, fun _ _ => rfl⟩
  | inPlace => exact ⟨fun _ => rfl, fun _ stands => stands.view_eq_self rfl⟩

/-- The machines from which both runs start: the run on its own has the cursor. -/
def Machine.placed (machine : Machine) (view : View) : Setting → Machine :=
  Setting.pick
    { machine with streams := (machine.streams.openCursor (view.content machine.streams)).2 } machine

section Start

variable {machine : Machine} {view : View}

theorem Machine.placed_together (mode : String) (plain : view.Plain machine.streams)
    (standing : view.Standing machine.streams)
    (settled : machine.lists.Bears (View.Standing machine.streams)) :
    (Ensemble.placements (.of machine.streams view) mode).Machines (machine.placed view) where
  streams := Placement.joined_of plain standing
  lists := by
    refine ⟨machine.lists, settled.mono fun _ stands => stands.ne_fresh, fun way => ?_⟩
    have named := settled _ (Placement.naming_spares machine.streams view way)
    cases way with
    | alone => exact named
    | inPlace => exact named
  trace := ⟨machine.trace, funext fun way => by cases way <;> rfl⟩
  warnings := ⟨machine.warnings, funext fun way => by cases way <;> rfl⟩

/-- A value from before may be held in both runs, unless it is a stream that shares a layer with the
view. -/
theorem Value.Bears.placed (mode : String) {value : Value}
    (known : value.Bears (View.Standing machine.streams))
    (apart : ∀ other, value = .stream other → other.touches.Disjoint view.touches) :
    (Ensemble.placements (.of machine.streams view) mode).Holds (streamsOf (machine.placed view))
      value := by
  refine ⟨?_, known.mono fun _ stands => stands.ne_fresh⟩
  rintro other rfl
  have stands : other.Standing machine.streams :=
    Value.bears_iff.mp known other (List.mem_singleton_self _)
  exact ⟨.inr ⟨other, stands.moved rfl, apart other rfl⟩, stands.ne_fresh⟩

end Start

/-- References that nest no deeper than a bound are within the depth of both runs: they nest no deeper
than there are types, either. -/
theorem Linked.Within.settings {message : MessageType} {types : Types} {less depth : Nat}
    (within : (Linked.ofMessage message types).Within less) (deep : less < depth) :
    ∃ common, (Linked.ofMessage message types).Within common ∧ ∀ way, common <
      Setting.pick ((message.visible types).length + nestingLimit + 1) depth way := by
  rcases Nat.lt_or_ge less ((message.visible types).length + nestingLimit + 1) with shallow | deeper
  · exact ⟨less, within, fun way => by cases way <;> assumption⟩
  · have enough : (message.visible types).length < (message.visible types).length + nestingLimit + 1 :=
      Nat.lt_succ_of_le (Nat.le_add_right _ _)
    refine ⟨(message.visible types).length, within.acyclic.within (Nat.le_refl _), fun way => ?_⟩
    cases way with
    | alone => exact enough
    | inPlace => exact Nat.lt_trans (Nat.lt_of_lt_of_le enough deeper) deep

/-- How a message ends in both runs: with one value, or with one fault at one place, and with machines
that belong together. -/
structure Placement.Concludes (place : Placement) (alone inPlace : Except Failure Value × Machine) :
    Prop where
  result : inPlace.1 = alone.1.map (Value.named (place.naming .inPlace))
  others : ∀ value, alone.1 = .ok value → ∀ other ∈ value.views, other ≠ .cursor place.fresh
  joined : place.Joined alone.2.streams inPlace.2.streams
  lists : Lists.Named (place.naming .inPlace) alone.2.lists inPlace.2.lists
  trace : inPlace.2.trace = alone.2.trace
  warnings : inPlace.2.warnings = alone.2.warnings

theorem Placement.concludes {place : Placement} {mode : String} {step : Setting → Step Value}
    {machines : Setting → Machine} (duet : Duet (Ensemble.placements place mode)
      (Ensemble.placements place mode).Values step machines) :
    place.Concludes ((step .alone).run (machines .alone))
      ((step .inPlace).run (machines .inPlace)) := by
  obtain ⟨after, reached, outcome⟩ := duet
  have final : (Ensemble.placements place mode).Machines after := reached.states
  obtain ⟨lists, -, named⟩ := final.lists
  obtain ⟨trace, sameTrace⟩ := final.trace.exists_eq
  obtain ⟨warnings, sameWarnings⟩ := final.warnings.exists_eq
  -- the run on its own has the names that are common to both
  have fixes : ∀ cells views, (place.naming .alone).Fixes cells views := fun _ _ =>
    ⟨fun _ _ => rfl, fun _ _ => rfl⟩
  have concludes : ∀ result : Except Failure Value,
      (∀ value, result = .ok value → value.Bears (Ensemble.placements place mode).inside) →
      place.Concludes (result, after .alone)
        (result.map (Value.named (place.naming .inPlace)), after .inPlace) := fun result inside =>
    ⟨rfl, fun value same => Value.bears_iff.mp (inside value same), final.streams,
      (named .alone).of_fixes fixes (named .inPlace),
      (sameTrace .inPlace).trans (sameTrace .alone).symm,
      (sameWarnings .inPlace).trans (sameWarnings .alone).symm⟩
  rcases outcome with ⟨_, ⟨value, holds, rfl⟩, ran⟩ | ⟨_, ⟨_, path, ⟨fault, rfl⟩, rfl⟩, ran⟩
  · have alone : value.named (place.naming .alone) = value := value.named_eq_self (fixes _ _)
    rw [ran, ran]
    show place.Concludes (.ok (value.named (place.naming .alone)), after .alone) _
    rw [alone]
    exact concludes (.ok value) fun _ same => Except.ok.inj same ▸ holds.inside
  · rw [ran, ran]
    exact concludes (.error ⟨fault, path⟩) nofun

/-- **A message in place and on its own.** The message wraps no stream and reads only the built-in
types, and none of its arguments is a stream that shares a layer with the view that it is decoded over.
Decoded over this view, it ends as it does on its own over a fresh cursor over the rest of the view. -/
theorem decodeMessage_inPlace (types : Types) (mode : String) (config : Config) {less depth : Nat}
    (message : MessageType) (bare : (Linked.ofMessage message types).Throughout Linked.Bare)
    (within : (Linked.ofMessage message types).Within less) (deep : less < depth) {view : View}
    (values : List Value) (machine : Machine) (plain : view.Plain machine.streams)
    (standing : view.Standing machine.streams)
    (settled : machine.lists.Bears (View.Standing machine.streams))
    (given : ∀ value ∈ values, value.Bears (View.Standing machine.streams))
    (apart : ∀ other, .stream other ∈ values → other.touches.Disjoint view.touches) :
    let opened := machine.streams.openCursor (view.content machine.streams)
    (Placement.of machine.streams view).Concludes
      ((decodeWith ⟨message.program, message.visible types, mode, config⟩ ⟨opened.1, false⟩ values).run
        { machine with streams := opened.2 })
      ((decodeMessage types mode config depth message view values).run machine) := by
  intro opened
  let place := Placement.of machine.streams view
  obtain ⟨common, nested, enough⟩ := within.settings deep
  have same : ∀ way, values.map (Value.named (place.naming way)) = values := fun way =>
    (List.map_congr_left (g := id) fun value member =>
      given value member _ (Placement.naming_spares _ _ way)).trans (List.map_id values)
  have held : ∀ value ∈ values, (Ensemble.placements place mode).Holds
      (streamsOf (machine.placed view)) value := fun value member =>
    (given value member).placed mode fun other isStream => apart other (isStream ▸ member)
  have duet : Duet (.placements place mode) (Ensemble.placements place mode).Values
      (fun way => decodeMessage types mode config
        (Setting.pick ((message.visible types).length + nestingLimit + 1) depth way) message
        ((place.naming way).views (.cursor place.fresh)) (values.map (Value.named (place.naming way))))
      (machine.placed view) :=
    decodeMessage_duet config _ types message
      (fun other reaches => (bare other reaches).suits place mode) (.inr ⟨common, enough, nested⟩)
      (.cursor place.fresh) values _ (machine.placed_together mode plain standing settled)
      (.inl (.fresh _)) held
  simp only [same] at duet
  have concludes := Placement.concludes duet
  have stands : (place.naming .inPlace).views (.cursor place.fresh) = view := place.view_fresh
  rw [stands] at concludes
  rw [decodeWith_eq_decodeMessage]
  exact concludes

/-! ### A reference -/

/-- An instruction that refers to a message decodes it in place and writes its value. -/
theorem run_decodeReference {environment : Environment} {refer : Referral} {target : Target}
    {name : Json} {arguments : List Register} {message : MessageType} {frame : Frame} {view : View}
    {values : List Value} (required : environment.types.require name = .ok (.message message))
    (entered : message.exposes .inPlace = true) (targeted : frame.target target = .ok view)
    (given : frame.getMany arguments = .ok values) (data : Register) (machine : Machine) :
    (Instruction.run environment refer (.decodeReference target data name arguments) frame).run
        machine =
      (refer message view values >>= fun value =>
        Step.ofExcept (frame.set data value)).run machine := by
  have inPlace : (TypeEntry.message message).inPlace = .ok message := if_pos entered
  unfold Instruction.run
  rw [run_bind_ok (Step.run_ofExcept_ok targeted _), run_bind_ok (Step.run_ofExcept_ok required _),
    run_bind_ok (Step.run_ofExcept_ok given _), run_bind_ok (Step.run_ofExcept_ok inPlace _)]

/-- **Decoding by reference is decoding in place.** A reference reads a plain view. The message that it
names wraps no stream and reads only the built-in types, and so do the messages that it comes to; they
nest no deeper than the run allows. None of the arguments is a stream that shares a layer with the
view. Then the reference writes the value that the message has on its own over a fresh cursor over the
rest of the view, and fails as the message does, at its own place and then that of the message. It
spends as many bytes of the view as the message of the cursor. The streams that are left in the value
have the same classes and positions, but for those whose position is that of a layer of the view. Of
the frame of the reference, the message sees the view and the arguments only. -/
theorem decodeReference_inPlace (environment : Environment) {less depth : Nat} {target : Target}
    (data : Register) {name : Json} {arguments : List Register} {message : MessageType}
    (required : environment.types.require name = .ok (.message message))
    (entered : message.exposes .inPlace = true)
    (bare : (Linked.ofMessage message environment.types).Throughout Linked.Bare)
    (within : (Linked.ofMessage message environment.types).Within less) (deep : less < depth)
    {frame : Frame} {view : View} {values : List Value} (targeted : frame.target target = .ok view)
    (given : frame.getMany arguments = .ok values) (machine : Machine)
    (plain : view.Plain machine.streams) (standing : view.Standing machine.streams)
    (settled : machine.lists.Bears (View.Standing machine.streams))
    (known : ∀ value ∈ values, value.Bears (View.Standing machine.streams))
    (apart : ∀ other, .stream other ∈ values → other.touches.Disjoint view.touches) (site : Site) :
    let place := Placement.of machine.streams view
    let opened := machine.streams.openCursor (view.content machine.streams)
    let alone := (decodeWith ⟨message.program, message.visible environment.types, environment.mode,
      environment.config⟩ ⟨opened.1, false⟩ values).run { machine with streams := opened.2 }
    let reference := (Step.guarded environment.config frame.depth site (Instruction.run environment
      (decodeMessage environment.types environment.mode environment.config depth)
      (.decodeReference target data name arguments) frame)).run machine
    reference.1 = ((alone.1.mapError fun failure => failure.within site).bind fun value =>
        (frame.set data (value.named (place.naming .inPlace))).mapError fun fault =>
          Failure.within ⟨fault, []⟩ site) ∧
      view.content reference.2.streams = opened.1.content alone.2.streams ∧
      view.position reference.2.streams =
        view.position machine.streams + opened.1.position alone.2.streams ∧
      (∀ value, alone.1 = .ok value → ∀ other ∈ value.views,
        (place.view other).typeName = other.typeName ∧
          ((place.view other).top ∉ view.touches →
            (place.view other).position reference.2.streams = other.position alone.2.streams)) ∧
      Lists.Named (place.naming .inPlace) alone.2.lists reference.2.lists ∧
      reference.2.warnings = alone.2.warnings := by
  intro place opened alone reference
  obtain ⟨result, others, joined, named, -, warnings⟩ :=
    decodeMessage_inPlace environment.types environment.mode environment.config message bare within
      deep values machine plain standing settled known apart
  obtain ⟨trace, ran⟩ := Step.run_guarded_eq environment.config frame.depth site
    (Instruction.run environment (decodeMessage environment.types environment.mode environment.config
      depth) (.decodeReference target data name arguments) frame) machine
  rw [run_decodeReference required entered targeted given data machine, Step.run_bind_ofExcept,
    result] at ran
  have outcome : reference.1 = ((alone.1.map (Value.named (place.naming .inPlace))).bind fun value =>
      (frame.set data value).mapError fun fault => ⟨fault, []⟩).mapError fun failure =>
        failure.within site := congrArg Prod.fst ran
  have left : reference.2 = _ := congrArg Prod.snd ran
  rw [outcome, left]
  refine ⟨?_, joined.content, joined.position, fun value decoded other member => ?_, named, warnings⟩
  · cases alone.1 with
    | error failure => rfl
    | ok value =>
      show ((frame.set data (value.named (place.naming .inPlace))).mapError _).mapError _ =
        (frame.set data (value.named (place.naming .inPlace))).mapError _
      cases frame.set data (value.named (place.naming .inPlace)) <;> rfl
  · have different := others value decoded other member
    exact ⟨place.typeName_view different, joined.position_view different⟩

/-! ### A stream that is lent -/

/-- A byte of the stream that is given, and a byte of the source. -/
def lentPair : MessageType where
  name := "Pair"
  program :=
    { instructions := [.decodePrimitive (.stream (.index 0)) (.index 1) "u8",
        .decodePrimitive .direct (.index 2) "u8",
        .construct (.index 3) (.tuple [.index 1, .index 2])]
      registerCount := .int 4
      arguments := [.index 0] }

/-- A program that gives a message three bytes of its own source. -/
def lender : Environment where
  program :=
    { instructions := [.eval (.index 0) (.constant (.int 3)),
        .constrict .direct (.index 1) (.index 0),
        .decodeReference .direct (.index 2) "Pair" [.index 1]]
      registerCount := .int 3 }
  types := [("Pair", .message lentPair)]
  mode := "blocking"
  config := {}

/-- A source of three bytes, a bound over it and a cursor. -/
def lentBytes : Machine where
  streams := (((Streams.openSource {} .blocking ⟨[.bytes [1, 2, 3]], 0⟩).2.openTake
    (.source .blocking 0) 3).2.openCursor [9]).2

/-- The frame of a reference that gives a stream to the message. -/
def lending (stream : View) : Frame :=
  ⟨⟨some (.source .blocking 0), [(.index 1, .stream stream)]⟩, []⟩

/-- The reference at its place, over the source. -/
def lent (stream : View) : Except Failure Frame × Machine :=
  (Step.guarded lender.config 0 ⟨2, "DecodeRef"⟩ (Instruction.run lender
    (decodeMessage lender.types lender.mode lender.config 1)
    (.decodeReference .direct (.index 2) "Pair" [.index 1]) (lending stream))).run lentBytes

/-- The message on its own, over a cursor over the bytes of the source. -/
def unlent (stream : View) : Except Failure Value × Machine :=
  let opened := lentBytes.streams.openCursor ((View.source .blocking 0).content lentBytes.streams)
  (decodeWith ⟨lentPair.program, lender.types, lender.mode, lender.config⟩ ⟨opened.1, false⟩
    [.stream stream]).run { streams := opened.2 }

theorem lentPair_bare :
    (Linked.ofMessage lentPair lender.types).Throughout Linked.Bare ∧
      (Linked.ofMessage lentPair lender.types).Within 0 := by
  have unlinked : ∀ message, ¬(Linked.ofMessage lentPair lender.types).Names message :=
    Linked.not_names rfl
  refine ⟨.of_unlinked (fun part member => ?_) unlinked, unlinked⟩
  have inside : part ∈ lentPair.program.instructions := member
  simp only [lentPair, List.mem_cons, List.not_mem_nil, or_false] at inside
  rcases inside with rfl | rfl | rfl <;> trivial

/-- A stream apart from the source is read in place as it is on its own. -/
theorem decodeReference_inPlace_of_lentPair :
    (unlent (.cursor 0)).1 = .ok (.tuple [.int 9, .int 1]) ∧
      (lent (.cursor 0)).1 =
        ((lending (.cursor 0)).set (.index 2) (.tuple [.int 9, .int 1])).mapError (⟨·, []⟩) ∧
      (View.source .blocking 0).position (lent (.cursor 0)).2.streams = 1 := by
  have fair := (Source.opened_fair (Input.ofBytes_delivers 3 [1, 2, 3] (by decide))).1
  have stands : (View.cursor 0).Standing lentBytes.streams := fun cell member => by
    obtain rfl := Layer.cursor.inj (List.mem_singleton.mp member)
    decide
  obtain ⟨result, -, position, -⟩ := decodeReference_inPlace lender (.index 2)
    (show lender.types.require "Pair" = .ok (.message lentPair) from rfl) rfl lentPair_bare.1
    lentPair_bare.2 (show 0 < 1 by decide)
    (show (lending (.cursor 0)).target .direct = .ok (.source .blocking 0) from rfl)
    (show (lending (.cursor 0)).getMany [.index 1] = .ok [.stream (.cursor 0)] from rfl) lentBytes
    ⟨rfl, fair⟩ (fun cell member => nomatch List.mem_singleton.mp member)
    (Lists.bears_iff.mpr fun cell item member => nomatch member)
    (fun value member => by
      obtain rfl := List.mem_singleton.mp member
      exact .stream stands)
    (fun other member => by
      obtain rfl := Value.stream.inj (List.mem_singleton.mp member)
      exact List.disjoint_singleton.mpr (by decide)) ⟨2, "DecodeRef"⟩
  exact ⟨rfl, result, position⟩

/-- **A stream over the view that the reference reads** is read twice in place: the message takes the
first byte through it, and then the second one of the source. On its own it finds the first byte in
both. -/
theorem decodeReference_lends :
    (unlent (.take 0 (.source .blocking 0))).1 = .ok (.tuple [.int 1, .int 1]) ∧
      (lent (.take 0 (.source .blocking 0))).1 =
        ((lending (.take 0 (.source .blocking 0))).set (.index 2)
          (.tuple [.int 1, .int 2])).mapError (⟨·, []⟩) ∧
      ((decodeWith lender ⟨.source .blocking 0, true⟩ []).run lentBytes).1 =
        .ok (.tuple [.int 1, .int 2]) :=
  ⟨rfl, rfl, rfl⟩

end WireProgram
