/-
**A well-kinded block fails only for its input.**

The checker has followed the frame of a run, and its registers hold what is known of them. Every kind
of instruction keeps this up, and so does a block; no fault is left but one of the input. The main
definitions and statements:

* `throughCursor_honest`, a loop that uses up its input before its bound;
* `Referral.Honest`, `Instruction.Honest` and `BlockHonest`, what fails only for its input;
* `Instruction.run_honest` and `runBlock_honest`, all instructions and all blocks.
-/

import WireProgram.Proofs.Discipline.Run
import WireProgram.Proofs.Kind.Check

namespace WireProgram

/-! ### Loops -/

section Loops

variable {loops : List Nat} {body : Step Unit} {state : Machine × Layout true} {view : View}

/-- Every round of the loop uses up a byte of the cursor, and so its bound is not reached. -/
theorem throughCursor_honest {cell : Nat}
    (fits : state.2.Fits state.1.streams (.cursor cell))
    (each : ∀ inner, (Contract.honestRun loops).later state inner →
      Keeps (.honestRun loops) (fun _ _ => True) body inner) (fuel : Nat)
    (enough : (View.cursor cell).budget state.1.streams < fuel) :
    Keeps (.honestRun loops) (fun _ _ => True) (throughCursor (.cursor cell) body fuel)
      state := by
  induction fuel generalizing state with
  | zero => omega
  | succ fuel hypothesis =>
    refine Keeps.look_bind ?_
    split
    · exact .pure trivial
    · refine (withProgress_passing fits (each state ((Contract.honestRun loops).refl state))).bind
        fun _ after later moved => ?_
      obtain ⟨fitsAfter, passing⟩ := later.1 _ fits
      refine hypothesis fitsAfter (fun inner more =>
        each inner ((Contract.honestRun loops).trans later more)) ?_
      have total := passing.total
      dsimp only at total
      omega

end Loops

/-! ### Parts of instructions -/

section Parts

variable {extent : Extent} {scope : CheckScope} {place : Place} {frame : Frame} {kinds : Kinds}
  {register : Register} {loops : List Nat} {state : Machine × Layout true}

theorem Scalar.truth_honest (lists : Lists) (scalar : Scalar) :
    Honest (scalar.toValue.truth lists) := by
  cases scalar <;> trivial

/-- A scalar that was read is true or false. -/
theorem conditionHolds_honest (kinded : Kinded state kinds frame)
    (knows : kinds.Knows register .scalar) :
    Keeps (.honestRun loops) (fun _ _ => True) (conditionHolds frame register) state := by
  obtain ⟨value, read, scalar, rfl⟩ := kinded.get knows
  exact Keeps.ofExcept_ok read (Keeps.look_bind (.ofExcept (scalar.truth_honest _)))

theorem countIn_honest (tracks : Tracks loops scope frame)
    (passed : checkRead extent scope place register = []) (what : String) :
    Keeps (.honestRun loops) (fun _ _ => True) (countIn frame what register) state := by
  obtain ⟨value, read⟩ := tracks.exists_get passed
  exact Keeps.ofExcept_ok read (.ofExcept (countOf_honest what value))

/-- A value whose name is not registered is put together. -/
theorem Constructable.exists_build (tracks : Tracks loops scope frame) {types : Types}
    {constructable : Constructable} (unregistered : constructable.Unregistered types)
    (passed : constructable.reads.flatMap (checkRead extent scope place) = []) :
    ∃ value, constructable.build types frame = .ok value := by
  cases constructable with
  | tuple items =>
    obtain ⟨values, read, -⟩ := tracks.exists_getMany passed
    have built : (Constructable.tuple items).build types frame =
        (frame.getMany items).map .tuple := rfl
    exact ⟨.tuple values, built.trans (congrArg _ read)⟩
  | tagged name items =>
    obtain ⟨values, read, -⟩ := tracks.exists_getMany passed
    have readItems : frame.getMany items = .ok values := read
    have unnamed : findNamed (types.lookup ·) name = .ok none := unregistered
    refine ⟨.tagged name values, ?_⟩
    rw [build, readItems, unnamed]
    rfl
  | struct name fields =>
    have each : ∀ field ∈ fields, ∃ named, (frame.get field.2).map (field.1, ·) = .ok named := by
      intro field member
      have read := List.flatMap_eq_nil_iff.mp passed field.2 (List.mem_map_of_mem member)
      obtain ⟨value, same⟩ := tracks.exists_get read
      exact ⟨(field.1, value), congrArg _ same⟩
    obtain ⟨values, readFields, -⟩ := exists_mapM_eq_ok each
    have unnamed : findNamed (types.lookup ·) name = .ok none := unregistered
    refine ⟨.record name values, ?_⟩
    rw [build, readFields, unnamed]
    rfl

/-- A write that passes, of a value of a kind. -/
theorem write_honest (tracks : Tracks loops scope frame) (kinded : Kinded state kinds frame)
    (passed : (checkWrite extent scope place register).1 = []) {kind : ValueKind} {value : Value}
    (holds : kind.Holds state.2 state.1.streams value) :
    Keeps (.honestRun loops)
      (fun next after => Tracks loops (checkWrite extent scope place register).2 next ∧
        Kinded after (kinds.write register kind) next)
      (Step.ofExcept (frame.set register value)) state := by
  obtain ⟨next, written, tracksNext⟩ := tracks.exists_set passed value
  rw [written]
  exact .ofExcept ⟨tracksNext, kinded.write written holds⟩

/-- An item goes to the list of an enclosing loop. -/
theorem addOutput_honest (tracks : Tracks loops scope frame) {output item : Register}
    (outputPassed : checkRead extent scope place output = [])
    (itemPassed : checkRead extent scope place item = [])
    (member : output.slot ∈ scope.outputs) :
    Keeps (.honestRun loops) (fun _ _ => True) (addOutput frame output item) state := by
  obtain ⟨cell, running, value, list, read⟩ := tracks.output outputPassed itemPassed member
  have kept : Lists.Kept loops state.1.lists
      (state.1.lists.modify cell fun items => items ++ [value]) := .modify running _ _
  exact Leads.of_ok (run_addOutput list read) ⟨state.2, ⟨Contract.honest.refl _, kept⟩, trivial⟩

theorem listLoop_honest (tracks : Tracks loops scope frame) (kinded : Kinded state kinds frame)
    (passed : (checkWrite extent scope place register).1 = []) {rounds : Frame → Step Unit}
    (each : ∀ cell listed outer, (Contract.honestRun (cell :: loops)).later state listed →
      frame.set register (.list cell) = .ok outer →
      Tracks (cell :: loops) ((checkWrite extent scope place register).2.child (some register))
        (outer.child none []) →
      Kinded listed (kinds.write register .other) outer →
        Keeps (.honestRun (cell :: loops)) (fun _ _ => True) (rounds outer) listed) :
    Keeps (.honestRun loops)
      (fun next after => Tracks loops (checkWrite extent scope place register).2 next ∧
        Kinded after (kinds.write register .other) next)
      (newList >>= fun list => Step.ofExcept (frame.set register list) >>= fun outer =>
        rounds outer >>= fun _ => pure outer) state := by
  refine listLoop_keeps tracks passed fun cell listed outer later written tracksBody => ?_
  have kindedOuter : Kinded listed (kinds.write register .other) outer :=
    (kinded.later later).write written trivial
  exact (each cell listed outer later written tracksBody kindedOuter).mono
    fun _ _ more _ => kindedOuter.later more

theorem Literal.holds_valueKind (layout : Layout true) (streams : Streams Codec) (target : Register)
    (literal : Literal) :
    (Instruction.eval target (.constant literal)).valueKind.Holds layout streams
      literal.toValue := by
  cases literal with
  | bytes content =>
    unfold Instruction.valueKind
    dsimp only
    split
    · trivial
    · rename_i nonempty
      exact ⟨content, rfl, fun empty => nonempty (List.isEmpty_iff.mpr empty)⟩
  | _ => trivial

end Parts

/-! ### Instructions and blocks -/

/-- A message that fails only for its input, over a view in order and for as many values as it has
arguments. -/
def Referral.Honest (refer : Referral) (message : MessageType) : Prop :=
  ∀ view values state, state.2.Fits state.1.streams view →
    values.length = message.program.arguments.length →
      Keeps (.honestRun []) (fun _ _ => True) (refer message view values) state

/-- An instruction that refers to messages that fail only for their input. -/
def Instruction.Trusts (types : Types) (refer : Referral) : Instruction → Prop
  | .decodeReference _ _ name _ =>
    ∀ message, types.require name = .ok (.message message) → refer.Honest message
  | _ => True

/-- An instruction that fails only for its input wherever it passes and is well kinded. Its frame is
followed, and holds what is known of its registers. -/
def Instruction.Honest (environment : Environment) (refer : Referral) (extent : Extent)
    (instruction : Instruction) : Prop :=
  ∀ scope place kinds loops frame state, instruction.isNumbered = true →
    (checkInstruction extent scope place instruction).1 = [] →
    instruction.WellKinded environment.types kinds → Tracks loops scope frame →
    Kinded state kinds frame →
      Keeps (.honestRun loops)
        (fun next after => Tracks loops (checkInstruction extent scope place instruction).2 next ∧
          Kinded after (instruction.kindsAfter kinds) next)
        (instruction.run environment refer frame) state

/-- A block that fails only for its input wherever it passes and is well kinded. -/
def BlockHonest (environment : Environment) (refer : Referral) (extent : Extent)
    (block : List Instruction) : Prop :=
  ∀ scope placeOf index kinds loops frame state, blockIsNumbered block = true →
    (checkInstructions extent scope placeOf index block).1 = [] →
    BlockWellKinded environment.types kinds block → Tracks loops scope frame →
    Kinded state kinds frame →
      Keeps (.honestRun loops)
        (fun next _ => Tracks loops (checkInstructions extent scope placeOf index block).2 next)
        (runBlock environment refer block index frame) state

section Blocks

variable {environment : Environment} {refer : Referral} {extent : Extent}

namespace Instruction.Honest

variable {target : Target} {register length condition terminator item interior : Register}
  {arguments : List Register} {name backing : Json} {expression : Expression}
  {constructable : Constructable} {transform : Transform} {foreign : ForeignType}
  {prelude body : List Instruction}

theorem eval : (Instruction.eval register expression).Honest environment refer extent := by
  intro scope place kinds loops frame state numbered passed well tracks kinded
  obtain ⟨literal, rfl⟩ := well
  simp only [checkInstruction, List.append_eq_nil_iff] at passed ⊢
  have evaluated : Keeps (.honestRun loops) (fun value _ => value = literal.toValue)
      (Step.onLists ((Expression.constant literal).evaluate
        (environment.program.fieldValue frame))) state :=
    Keeps.onLists ⟨.refl loops state.1.lists, rfl⟩
  refine evaluated.bind fun value after later same => ?_
  rw [same]
  exact write_honest tracks (kinded.later later) passed.2 (literal.holds_valueKind _ _ register)

theorem construct :
    (Instruction.construct register constructable).Honest environment refer extent := by
  intro scope place kinds loops frame state numbered passed well tracks kinded
  simp only [checkInstruction, List.append_eq_nil_iff] at passed ⊢
  obtain ⟨value, built⟩ := constructable.exists_build tracks well passed.1
  exact Keeps.ofExcept_ok built (write_honest tracks kinded passed.2 trivial)

theorem constrict :
    (Instruction.constrict target register length).Honest environment refer extent := by
  intro scope place kinds loops frame state numbered passed well tracks kinded
  simp only [checkInstruction, List.append_eq_nil_iff] at passed ⊢
  obtain ⟨-, lengthPassed⟩ := reads_passed passed.1
  obtain ⟨view, found, fits⟩ := kinded.target well
  refine Keeps.ofExcept_ok found ?_
  refine (countIn_honest tracks (read_passed lengthPassed) _).bind fun count counted later _ => ?_
  have fitsCounted := (later.1 view fits).1
  refine (Keeps.onStreams (openTake_keeps fitsCounted _)).bind fun bounded opened more held => ?_
  exact write_honest tracks ((kinded.later later).later more) passed.2 ⟨bounded, rfl, held⟩

theorem wrapStream :
    (Instruction.wrapStream target register transform arguments).Honest environment refer
      extent := by
  intro scope place kinds loops frame state numbered passed well tracks kinded
  obtain ⟨isStream, builtIn, rfl⟩ := well
  simp only [checkInstruction, List.append_eq_nil_iff] at passed ⊢
  obtain ⟨view, found, fits⟩ := kinded.target isStream
  refine Keeps.ofExcept_ok found (Keeps.ofExcept_ok rfl ?_)
  refine (Keeps.onStreams (transform.wrap_honest builtIn fits)).bind
    fun wrapped opened later held => ?_
  exact write_honest tracks (kinded.later later) passed.2 ⟨wrapped, rfl, held⟩

theorem conditionalWrapStream (runs : BlockHonest environment refer extent prelude) :
    (Instruction.conditionalWrapStream condition prelude target register transform arguments).Honest
      environment refer extent := by
  intro scope place kinds loops frame state numbered passed well tracks kinded
  have numberedPrelude := (Bool.and_eq_true_iff.mp numbered).2
  obtain ⟨knows, isStream, builtIn, rfl, wellPrelude⟩ := well
  simp only [checkInstruction, List.append_eq_nil_iff] at passed ⊢
  obtain ⟨⟨⟨-, preludePassed⟩, -⟩, writePassed⟩ := passed
  obtain ⟨view, found, fits⟩ := kinded.target isStream
  refine Keeps.ofExcept_ok found ?_
  refine (conditionHolds_honest kinded knows).bind fun holds asked later _ => ?_
  have kindedAsked := kinded.later later
  have fitsAsked := (later.1 view fits).1
  split
  · refine (runs _ _ 0 kinds loops _ asked numberedPrelude preludePassed
      wellPrelude tracks.child kindedAsked.child).bind fun inner after more _ => ?_
    have fitsAfter := (more.1 view fitsAsked).1
    refine Keeps.ofExcept_ok rfl ?_
    refine (Keeps.onStreams (transform.wrap_honest builtIn fitsAfter)).bind
      fun wrapped opened last held => ?_
    exact write_honest tracks ((kindedAsked.later more).later last) writePassed
      ⟨wrapped, rfl, held⟩
  · exact write_honest tracks kindedAsked writePassed ⟨view, rfl, fitsAsked⟩

theorem decodeForeign :
    (Instruction.decodeForeign target register foreign arguments).Honest environment refer
      extent := by
  intro scope place kinds loops frame state numbered passed well tracks kinded
  obtain ⟨isStream, builtIn, takes⟩ := well
  simp only [checkInstruction, List.append_eq_nil_iff] at passed ⊢
  obtain ⟨-, argumentsPassed⟩ := reads_passed passed.1
  obtain ⟨view, found, fits⟩ := kinded.target isStream
  obtain ⟨values, read, same⟩ := tracks.exists_getMany argumentsPassed
  rw [← same] at takes
  refine Keeps.ofExcept_ok found (Keeps.ofExcept_ok read ?_)
  refine (Keeps.onStreams (foreign.decode_honest builtIn takes fits _)).bind
    fun value after later _ => ?_
  exact write_honest tracks (kinded.later later) passed.2 trivial

theorem decodeReference
    (refers : ∀ message, environment.types.require name = .ok (.message message) →
      refer.Honest message) :
    (Instruction.decodeReference target register name arguments).Honest environment refer
      extent := by
  intro scope place kinds loops frame state numbered passed well tracks kinded
  obtain ⟨isStream, entry, message, required, inPlace, many⟩ := well
  obtain rfl := TypeEntry.inPlace_eq_ok inPlace
  simp only [checkInstruction, List.append_eq_nil_iff] at passed ⊢
  obtain ⟨-, argumentsPassed⟩ := reads_passed passed.1
  obtain ⟨view, found, fits⟩ := kinded.target isStream
  obtain ⟨values, read, same⟩ := tracks.exists_getMany argumentsPassed
  refine Keeps.ofExcept_ok found (Keeps.ofExcept_ok required ?_)
  refine Keeps.ofExcept_ok read (Keeps.ofExcept_ok inPlace ?_)
  refine (refers message required view values state fits (same.trans many)).of_none.bind
    fun value after later _ => ?_
  exact write_honest tracks (kinded.later later) passed.2 trivial

theorem decodeEnumeration :
    (Instruction.decodeEnumeration name backing register target).Honest environment refer
      extent := by
  intro scope place kinds loops frame state numbered passed well tracks kinded
  obtain ⟨isStream, ⟨named, required⟩, primitive, known, integer⟩ := well
  simp only [checkInstruction, List.append_eq_nil_iff] at passed ⊢
  obtain ⟨view, found, fits⟩ := kinded.target isStream
  refine Keeps.ofExcept_ok found (Keeps.ofExcept_ok required ?_)
  refine (readMember_honest fits known integer named).bind fun value after later _ => ?_
  exact write_honest tracks (kinded.later later) passed.2 trivial

theorem decodePrimitive :
    (Instruction.decodePrimitive target register name).Honest environment refer extent := by
  intro scope place kinds loops frame state numbered passed well tracks kinded
  obtain ⟨isStream, primitive, known⟩ := well
  simp only [checkInstruction, List.append_eq_nil_iff] at passed ⊢
  obtain ⟨view, found, fits⟩ := kinded.target isStream
  refine Keeps.ofExcept_ok found ?_
  refine (readScalar_honest fits known).bind fun value after later scalar => ?_
  exact write_honest tracks (kinded.later later) passed.2 scalar

theorem decodeArray :
    (Instruction.decodeArray target register name none).Honest environment refer extent := by
  intro scope place kinds loops frame state numbered passed well tracks kinded
  obtain ⟨isStream, primitive, known⟩ := well
  simp only [checkInstruction, List.append_eq_nil_iff] at passed ⊢
  obtain ⟨view, found, fits⟩ := kinded.target isStream
  refine Keeps.ofExcept_ok found ?_
  refine (readArray_honest fits known none _).bind fun value after later _ => ?_
  exact write_honest tracks (kinded.later later) passed.2 trivial

theorem decodeCounted :
    (Instruction.decodeArray target register name (some length)).Honest environment refer
      extent := by
  intro scope place kinds loops frame state numbered passed well tracks kinded
  obtain ⟨isStream, primitive, known⟩ := well
  simp only [checkInstruction, List.append_eq_nil_iff] at passed ⊢
  obtain ⟨-, lengthPassed⟩ := reads_passed passed.1
  obtain ⟨view, found, fits⟩ := kinded.target isStream
  refine Keeps.ofExcept_ok found ?_
  refine (countIn_honest tracks (read_passed lengthPassed) _).bind fun count counted later _ => ?_
  have fitsCounted := (later.1 view fits).1
  refine (readArray_honest fitsCounted known (some count) _).bind fun value after more _ => ?_
  exact write_honest tracks ((kinded.later later).later more) passed.2 trivial

/-- A loop with two rules does not pass. -/
theorem twoRules :
    (Instruction.loop target (some length) (some terminator) register body).Honest environment refer
      extent := by
  intro scope place kinds loops frame state numbered passed
  exact (checkInstruction_twoRules_ne_nil _ _ _ _ _ passed).elim

theorem countedLoop (runs : BlockHonest environment refer extent body) :
    (Instruction.loop target (some length) none register body).Honest environment refer extent := by
  intro scope place kinds loops frame state numbered passed well tracks kinded
  have numberedBody := (Bool.and_eq_true_iff.mp numbered).2
  obtain ⟨-, -, wellBody⟩ := well
  simp only [checkInstruction, List.append_eq_nil_iff] at passed ⊢
  obtain ⟨⟨⟨readsPassed, -⟩, writePassed⟩, bodyPassed⟩ := passed
  have lengthPassed := (reads_passed (reads_passed readsPassed).1).2
  refine (countIn_honest tracks (read_passed lengthPassed) _).bind fun count counted later _ => ?_
  refine listLoop_honest tracks (kinded.later later) writePassed ?_
  intro cell listed outer more _ tracksBody kindedOuter
  refine Keeps.repeatBody (fun inner last => ?_) count
  exact (runs _ _ 0 _ _ _ inner numberedBody bodyPassed wellBody tracksBody
    (kindedOuter.later last).child).discard

/-- A loop up to a terminator, which is not empty. -/
theorem terminatedLoop (runs : BlockHonest environment refer extent body) :
    (Instruction.loop target none (some terminator) register body).Honest environment refer
      extent := by
  intro scope place kinds loops frame state numbered passed well tracks kinded
  have numberedBody := (Bool.and_eq_true_iff.mp numbered).2
  obtain ⟨isStream, knows, wellBody⟩ := well
  simp only [checkInstruction, List.append_eq_nil_iff] at passed ⊢
  obtain ⟨⟨-, writePassed⟩, bodyPassed⟩ := passed
  obtain ⟨view, found, fits⟩ := kinded.target isStream
  obtain ⟨value, read, ending, rfl, nonempty⟩ := kinded.get (knows terminator rfl)
  refine Keeps.ofExcept_ok found (Keeps.ofExcept_ok read ?_)
  refine Keeps.look_bind (Keeps.look_bind (Keeps.ofExcept_ok rfl ?_))
  rw [if_neg fun empty => nonempty (List.isEmpty_iff.mp empty)]
  refine listLoop_honest tracks kinded writePassed ?_
  intro cell listed outer later _ tracksBody kindedOuter
  obtain ⟨fitsListed, advances⟩ := later.1 view fits
  have enough : view.budget listed.1.streams < view.weight state.1.streams + 1 :=
    Nat.lt_succ_of_le (Nat.le_trans advances.budget (view.budget_le_weight _))
  refine untilTerminator_passing fitsListed nonempty (fun inner last => ?_) enough
  exact (runs _ _ 0 _ _ _ inner numberedBody bodyPassed wellBody tracksBody
    (kindedOuter.later last).child).discard

/-- A loop to the end of a stream, which is read into a cursor. -/
theorem cursorLoop (runs : BlockHonest environment refer extent body) :
    (Instruction.loop target none none register body).Honest environment refer extent := by
  intro scope place kinds loops frame state numbered passed well tracks kinded
  have numberedBody := (Bool.and_eq_true_iff.mp numbered).2
  obtain ⟨isStream, -, wellBody⟩ := well
  simp only [checkInstruction, List.append_eq_nil_iff] at passed ⊢
  obtain ⟨⟨-, writePassed⟩, bodyPassed⟩ := passed
  obtain ⟨view, found, fits⟩ := kinded.target isStream
  refine Keeps.ofExcept_ok found ?_
  refine (Keeps.onStreams (view.readToEnd_keeps fits)).bind fun content drained later _ => ?_
  refine (Keeps.onStreams (openCursor_keeps content)).bind fun cursor opened more holds => ?_
  obtain ⟨fitsCursor, number, rfl, small⟩ := holds
  refine listLoop_honest tracks ((kinded.later later).later more) writePassed ?_
  intro cell listed outer last written tracksBody kindedOuter
  have isStreamOuter : target.IsStream (kinds.write register .other) :=
    kinded.isStream_write written isStream
  obtain ⟨fitsListed, advances⟩ := last.1 _ fitsCursor
  have enough : (View.cursor number).budget listed.1.streams < content.length + 1 :=
    Nat.lt_succ_of_le (Nat.le_trans advances.budget small)
  refine throughCursor_honest fitsListed (fun inner final => ?_) _ enough
  exact (runs _ _ 0 _ _ _ inner numberedBody bodyPassed wellBody
    (tracksBody.cursorFrame (Frame.target_of_set written found) (.cursor number))
    ((kindedOuter.later final).cursorFrame isStreamOuter (final.1 _ fitsListed).1)).discard

theorem loopOutput : (Instruction.loopOutput register item).Honest environment refer extent := by
  intro scope place kinds loops frame state numbered passed well tracks kinded
  simp only [checkInstruction, List.append_eq_nil_iff] at passed ⊢
  obtain ⟨outputPassed, itemPassed⟩ := read_cons_passed passed.1
  exact (addOutput_honest tracks outputPassed (read_passed itemPassed)
    (mem_of_passed passed.2)).bind fun _ _ later _ => .pure ⟨tracks, kinded.later later⟩

theorem conditional (runs : BlockHonest environment refer extent body) :
    (Instruction.conditional register interior condition body).Honest environment refer extent := by
  intro scope place kinds loops frame state numbered passed well tracks kinded
  obtain ⟨addresses, numberedBody⟩ := Bool.and_eq_true_iff.mp numbered
  obtain ⟨knows, wellBody⟩ := well
  simp only [checkInstruction, List.append_eq_nil_iff] at passed ⊢
  obtain ⟨⟨⟨-, bodyPassed⟩, keptPassed⟩, writePassed⟩ := passed
  refine (conditionHolds_honest kinded knows).bind fun holds asked later _ => ?_
  have kindedAsked := kinded.later later
  split
  · refine (runs _ _ 0 kinds loops _ asked numberedBody bodyPassed wellBody
      tracks.child kindedAsked.child).bind fun inner after more tracksInner => ?_
    obtain ⟨value, read⟩ := tracksInner.exists_get_written
      (Bool.and_eq_true_iff.mp addresses).1 (Or.inl (mem_of_passed keptPassed))
    refine Keeps.ofExcept_ok read ?_
    exact write_honest tracks (kindedAsked.later more) writePassed trivial
  · exact write_honest tracks kindedAsked writePassed trivial

end Instruction.Honest

/-- A block from its first instruction and the rest. -/
theorem BlockHonest.cons {instruction : Instruction} {rest : List Instruction}
    (first : instruction.Honest environment refer extent)
    (others : BlockHonest environment refer extent rest) :
    BlockHonest environment refer extent (instruction :: rest) := by
  intro scope placeOf index kinds loops frame state numbered passed well tracks kinded
  obtain ⟨numberedHere, numberedLater⟩ := Bool.and_eq_true_iff.mp numbered
  obtain ⟨wellHere, wellLater⟩ := well
  simp only [checkInstructions, List.append_eq_nil_iff] at passed ⊢
  refine (Keeps.record _ _ _ _ _).bind fun _ started later _ => ?_
  refine (Keeps.guarded _ _ _ (first _ _ kinds loops frame started numberedHere passed.1 wellHere
    tracks (kinded.later later))).bind fun next after _ governed => ?_
  obtain ⟨tracksNext, kindedNext⟩ := governed
  exact others _ placeOf (index + 1) _ loops next after numberedLater passed.2 wellLater tracksNext
    kindedNext

mutual

/-- **One instruction** that is well kinded fails only for its input. -/
theorem Instruction.run_honest : ∀ instruction : Instruction,
    (∀ part ∈ instruction.parts, part.Trusts environment.types refer) →
      instruction.Honest environment refer extent
  | .eval .., _ => .eval
  | .construct .., _ => .construct
  | .constrict .., _ => .constrict
  | .wrapStream .., _ => .wrapStream
  | .conditionalWrapStream _ prelude _ _ _ _, trusts =>
    .conditionalWrapStream (runBlock_honest prelude fun part member =>
      trusts part (List.mem_cons_of_mem _ member))
  | .decodeForeign .., _ => .decodeForeign
  | .decodeReference .., trusts => .decodeReference (trusts _ (Instruction.mem_parts _))
  | .decodeEnumeration .., _ => .decodeEnumeration
  | .decodePrimitive .., _ => .decodePrimitive
  | .decodeArray _ _ _ none, _ => .decodeArray
  | .decodeArray _ _ _ (some _), _ => .decodeCounted
  | .loop _ (some _) (some _) _ _, _ => .twoRules
  | .loop _ (some _) none _ body, trusts =>
    .countedLoop (runBlock_honest body fun part member =>
      trusts part (List.mem_cons_of_mem _ member))
  | .loop _ none (some _) _ body, trusts =>
    .terminatedLoop (runBlock_honest body fun part member =>
      trusts part (List.mem_cons_of_mem _ member))
  | .loop _ none none _ body, trusts =>
    .cursorLoop (runBlock_honest body fun part member =>
      trusts part (List.mem_cons_of_mem _ member))
  | .loopOutput .., _ => .loopOutput
  | .conditional _ _ _ body, trusts =>
    .conditional (runBlock_honest body fun part member =>
      trusts part (List.mem_cons_of_mem _ member))

/-- **A block** that is well kinded fails only for its input. -/
theorem runBlock_honest : ∀ block : List Instruction,
    (∀ part ∈ blockParts block, part.Trusts environment.types refer) →
      BlockHonest environment refer extent block
  | [], _ => fun _ _ _ _ _ _ _ _ _ _ tracks _ => .pure tracks
  | instruction :: rest, trusts =>
    .cons
      (Instruction.run_honest instruction fun part member =>
        trusts part (List.mem_append_left _ member))
      (runBlock_honest rest fun part member => trusts part (List.mem_append_right _ member))

end

end Blocks

end WireProgram
