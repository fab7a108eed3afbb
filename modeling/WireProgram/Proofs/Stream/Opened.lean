/-
**Views that last.**

Views that stand go on standing whatever is done through one of them: at their end they are left alone, and
none of them gains. What a program can open over them stands as well; so it is with all the transforms and
types that it can name, whatever their arguments are. The main definitions and statements:

* `Contract.lasting`, what all operations keep to that do not fail;
* `View.readExact_stands` and its like, the operations on a view;
* `openTake_stands`, `openCursor_stands` and `openTransformed_stands`, new views;
* `Transform.wrap_stands` and `ForeignType.decode_stands`, all transforms and all types.
-/

import WireProgram.Proofs.Run.Inert
import WireProgram.Proofs.Stream.Paid
import WireProgram.Proofs.Stream.Passing

namespace WireProgram

/-! ### The contract -/

/-- Operations under which every view that stands goes on standing and gains nothing, and no layer at its
end is changed. They may fail in any way. -/
def Contract.lasting : Contract Fault (Streams Codec) (Layout false) where
  later before after := Contract.persisting.later before after ∧
    ∀ view, before.2.Stands before.1 view → view.Advances before.1 after.1
  tolerates _ := True
  refl state := ⟨Contract.persisting.refl state, fun view _ => .refl state.1 view⟩
  trans first second := ⟨Contract.persisting.trans first.1 second.1, fun view stands =>
    (first.2 view stands).trans (second.2 view (first.1 view stands).1)⟩

theorem Contract.lasting.stands {before after : Streams Codec × Layout false} {view : View}
    (later : Contract.lasting.later before after) (stands : before.2.Stands before.1 view) :
    after.2.Stands after.1 view :=
  (later.1 view stands).1

variable {α β : Type} {layout : Layout false} {streams : Streams Codec} {view : View}
  {state : Streams Codec × Layout false} {good : α → Streams Codec × Layout false → Prop}

/-! ### Operations -/

/-- An operation through a view that stands. -/
theorem Keeps.of_pays {step : StreamStep Codec α} (stands : state.2.Stands state.1 view)
    (kept : Streams.Kept view.touches state.1 (step.run state.1).2)
    (pays : ∀ value after, step.run state.1 = (.ok value, after) →
      state.2.Persists state.1 after ∧ view.Pays state.1 after) :
    Keeps .lasting (fun _ _ => True) step state := by
  rcases ran : step.run state.1 with ⟨fault | value, after⟩
  · exact .of_error ran trivial trivial
  · rw [ran] at kept
    obtain ⟨persists, pays⟩ := pays value after ran
    exact Leads.of_ok ran ⟨state.2, ⟨persists, fun other standsOther =>
      pays.advances kept stands standsOther⟩, trivial⟩

namespace View

theorem readExact_stands (stands : state.2.Stands state.1 view) (count : Int) :
    Keeps .lasting (fun _ _ => True) (view.readExact count) state :=
  .of_pays stands (view.readExact_kept _ _) fun _ _ ran =>
    ⟨readExact_persists stands ran, readExact_pays stands ran⟩

theorem readToEnd_stands (stands : state.2.Stands state.1 view) :
    Keeps .lasting (fun _ _ => True) view.readToEnd state :=
  .of_pays stands (view.readToEnd_kept _) fun _ _ ran =>
    ⟨readToEnd_persists stands ran, readToEnd_pays stands ran⟩

theorem fillBuf_stands (stands : state.2.Stands state.1 view) (want : Nat) :
    Keeps .lasting (fun _ _ => True) (view.fillBuf want) state :=
  .of_pays stands (view.fillBuf_kept _ _) fun _ _ ran =>
    ⟨fillBuf_persists stands ran, fillBuf_pays stands ran⟩

theorem approach_stands (stands : state.2.Stands state.1 view) (terminator : Bytes) :
    Keeps .lasting (fun _ _ => True) (view.approach terminator) state :=
  .of_pays stands (view.approach_kept _ _) fun _ _ ran =>
    ⟨approach_persists stands ran, approach_pays stands ran⟩

end View

/-- A computation on the arguments, before the rest. -/
theorem Keeps.argument_bind {result : Except Fault α} {next : α → StreamStep Codec β}
    {holds : β → Streams Codec × Layout false → Prop}
    (rest : ∀ value, result = .ok value → Keeps .lasting holds (next value) state) :
    Keeps .lasting holds (StreamStep.ofExcept result >>= next) state := by
  cases result with
  | ok value =>
    refine Leads.of_run ?_ (rest value rfl)
    rw [run_bind]
    rfl
  | error fault =>
    have ran : (StreamStep.ofExcept (.error fault) >>= next).run state.1 =
        (.error fault, state.1) := by
      rw [run_bind]
      rfl
    exact .of_refused ran trivial

/-! ### New views -/

/-- A layer that was there stands also under what was opened. -/
theorem Layout.Opens.stands {next : Layout false} {after : Streams Codec} (opens : layout.Opens next streams after)
    (stands : layout.Stands streams view) : next.Stands after view := by
  intro layer member
  obtain ⟨placed, made⟩ := stands layer member
  exact ⟨opens.places layer made.inside placed,
    (opens.kept layer made.inside).made opens.grown made⟩

/-- A view that is opened leaves those that stand as they are. -/
theorem Keeps.opens (next : Layout false) {make : Streams Codec → View × Streams Codec}
    (opens : layout.Opens next streams (make streams).2)
    (stands : next.Stands (make streams).2 (make streams).1) :
    Keeps .lasting (fun opened after => after.2.Stands after.1 opened) (openedBy make)
      (streams, layout) := by
  have ran : (openedBy make).run streams = (.ok (make streams).1, (make streams).2) := rfl
  refine Leads.of_ok ran ⟨next, ⟨fun other old => ⟨opens.stands old, ?_⟩, fun other old => ?_⟩, stands⟩
  · exact (opens.kept other old.here.2.inside).persists
  · exact View.Still.advances fun layer member => opens.kept layer (old layer member).2.inside

theorem openCursor_stands (bytes : Bytes) :
    Keeps .lasting (fun cursor after => after.2.Stands after.1 cursor)
      (openedBy fun streams => streams.openCursor bytes) (streams, layout) := by
  refine .opens layout (layout.opens_cursor streams bytes) (.cursor (Table.size_lt_push _ _) ?_)
  exact congrArg (fun cursor => cursor.buffer.ended) (Table.get_push_self streams.cursors _)

theorem openTake_stands (stands : layout.Stands streams view) (limit : Int) :
    Keeps .lasting (fun bounded after => after.2.Stands after.1 bounded)
      (openedBy fun streams => streams.openTake view limit) (streams, layout) := by
  have opens := layout.opens_take streams view limit
  refine .opens _ opens fun layer member => ?_
  rcases List.mem_cons.mp member with rfl | member
  · exact ⟨if_pos rfl, Table.size_lt_push _ _⟩
  · exact opens.stands stands layer member

theorem openTransformed_stands (stands : layout.Stands streams view) {codec : Codec}
    (steady : codec.Steady) :
    Keeps .lasting (fun wrapped after => after.2.Stands after.1 wrapped)
      (openedBy fun streams => streams.openTransformed view codec) (streams, layout) := by
  have opens := layout.opens_transformed streams view codec
  refine .opens _ opens fun layer member => ?_
  rcases List.mem_cons.mp member with rfl | member
  · refine ⟨if_pos rfl, Table.size_lt_push _ _, codec, ?_, steady⟩
    exact congrArg Transformed.codec (Table.get_push_self streams.transforms _)
  · exact opens.stands stands layer member

/-! ### What programs can name -/

/-- **Every transform** gives a view that stands. -/
theorem Transform.wrap_stands (transform : Transform) (stands : layout.Stands streams view)
    (values : List Value) :
    Keeps .lasting (fun wrapped after => after.2.Stands after.1 wrapped)
      (transform.wrap view values) (streams, layout) := by
  unfold Transform.wrap
  cases transform.action with
  | base64 =>
    dsimp only
    split
    · exact openTransformed_stands stands trivial
    · exact .throw trivial
  | gzip =>
    dsimp only
    split
    · exact openTransformed_stands stands trivial
    · exact .throw trivial
  | identity => exact .pure stands
  | head => exact .argument_bind fun limit _ => openTake_stands stands limit
  | xor => exact .argument_bind fun key _ => openTransformed_stands stands trivial
  | block => exact .argument_bind fun left _ => openTransformed_stands stands trivial

theorem readGroups_stands (stands : state.2.Stands state.1 view) (name : String)
    (bits count index total : Nat) :
    Keeps .lasting (fun value _ => value.Inert) (readGroups name bits view count index total)
      state := by
  induction count generalizing state index total with
  | zero => exact .throw trivial
  | succ count hypothesis =>
    refine (View.readExact_stands stands 1).bind fun bytes after later _ => ?_
    dsimp only
    split
    · exact hypothesis (Contract.lasting.stands later stands) _ _
    · split
      · exact .pure (.int _)
      · exact .throw trivial

theorem readLength_stands (stands : state.2.Stands state.1 view) (length : Option Nat) :
    Keeps .lasting (fun _ _ => True) (readLength view length) state := by
  cases length with
  | none => exact View.readToEnd_stands stands
  | some length => exact View.readExact_stands stands length

/-- **Every foreign type** gives a value that is no stream. -/
theorem ForeignType.decode_stands (foreign : ForeignType) (stands : state.2.Stands state.1 view)
    (arguments : List Value) (mode : String) :
    Keeps .lasting (fun value _ => value.Inert) (foreign.decode view arguments mode) state := by
  unfold ForeignType.decode
  cases foreign.action with
  | varint bits =>
    dsimp only
    split
    · exact readGroups_stands stands _ _ _ _ _
    · exact .throw trivial
  | utf8 =>
    refine .argument_bind fun length _ => (readLength_stands stands _).bind fun bytes _ _ _ => ?_
    split
    · exact .pure (.text _)
    · exact .throw trivial
  | utf16 =>
    refine .argument_bind fun length _ => (readLength_stands stands _).bind fun bytes _ _ _ => ?_
    split
    · exact .pure (.text _)
    · exact .throw trivial
  | raw =>
    dsimp only
    split
    · exact (View.readToEnd_stands stands).bind fun _ _ _ _ => .pure (.bytes _)
    · split
      · exact (View.readExact_stands stands _).bind fun _ _ _ _ => .pure (.bytes _)
      · exact .throw trivial
  | peek =>
    dsimp only
    split
    · exact (View.fillBuf_stands stands _).bind fun _ _ _ _ => .pure (.bytes _)
    · split
      · exact (View.fillBuf_stands stands _).bind fun _ _ _ _ => .pure (.bytes _)
      · exact .throw trivial
    · exact .throw trivial
  | mode => exact .pure (.text _)

end WireProgram
