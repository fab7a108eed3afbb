/-
**How far a transformed view reads its parent.**

A codec is fed with whole pieces, and only until enough decoded bytes are held. So after reads of so
many bytes in all the parent stands at the end of the first piece by which the codec has given as many,
or where the codec stopped if that comes before. The main definitions and statements:

* `Course.ofPieces`, bytes that come in given pieces;
* `Coding.Reached`, a codec that was fed for so many bytes and no further;
* `Coding.fill_reached`, feeding it for more;
* `View.readExact_reached`, reading more bytes through a view.
-/

import WireProgram.Proofs.Codec.Pace

namespace WireProgram

/-! ### Pieces -/

namespace Course

/-- Bytes that come in given pieces, and then end. -/
def ofPieces (pieces : List Bytes) : Course :=
  pieces.foldr push .ended

theorem ofPieces_sound (pieces : List Bytes) :
    (ofPieces pieces).bytes = pieces.flatten ∧ (ofPieces pieces).fault = none := by
  induction pieces with
  | nil => exact ⟨rfl, rfl⟩
  | cons piece pieces hypothesis =>
    refine ⟨?_, (fault_push _ _).trans hypothesis.2⟩
    rw [ofPieces, List.foldr_cons, bytes_push, List.flatten_cons]
    exact congrArg (piece ++ ·) hypothesis.1

/-- Replies that all have bytes come as their pieces. -/
theorem ofChunks_pieces (driver : Execution) {chunks : List Chunk}
    (solid : ∀ chunk ∈ chunks, chunk.Solid) :
    ofChunks driver chunks = ofPieces (chunks.map Chunk.content) := by
  induction chunks with
  | nil => rfl
  | cons chunk chunks hypothesis =>
    have here := solid chunk (List.mem_cons_self ..)
    have others := hypothesis fun other member => solid other (List.mem_cons_of_mem _ member)
    cases chunk with
    | bytes content =>
      cases content with
      | nil => exact absurd rfl here
      | cons first rest => exact congrArg (piece first rest) others
    | absent => exact here.elim
    | failure reason => exact here.elim

end Course

/-! ### Feeding for so many bytes -/

namespace Coding

open ChunkCodec

variable {κ : Type} [ChunkCodec κ] {codec state : κ} {content held : Bytes} {used want taken : Nat}
  {Has : Bytes → κ → Prop} {front back : List Bytes} {coding : Coding κ}

/-- A codec that was fed with the pieces in front, and no further than for `want` decoded bytes, of
which `taken` were taken. -/
structure Reached (codec : κ) (content : Bytes) (used : Nat) (Has : Bytes → κ → Prop)
    (front back : List Bytes) (want taken : Nat) (coding : Coding κ) : Prop where
  whole : front.flatten ++ back.flatten = content
  least : ∀ fewer < front.length, (given codec (front.take fewer).flatten).length < want
  enough : want ≤ (given codec front.flatten).length
  held : coding.held = (given codec front.flatten).drop taken
  working : coding.finished = false →
    Has front.flatten coding.codec ∧ coding.supply = .ofPieces back ∧ front.flatten.length ≤ used
  stopped : coding.finished = true → given codec front.flatten = given codec content ∧
    used ≤ front.flatten.length ∧ coding.supply.bytes = content.drop used ∧
      coding.supply.fault = none

/-- The pieces in front are the first ones by which so many bytes were given. -/
theorem Reached.firstGives
    (reached : Reached codec content used Has front back want taken coding) :
    FirstGives codec (front ++ back) want front.length := by
  refine ⟨fun fewer fewerThan => ?_, ?_⟩
  · rw [List.take_append_of_le_length (Nat.le_of_lt fewerThan)]
    exact reached.least fewer fewerThan
  · rw [List.take_left]
    exact reached.enough

/-- What is left for whoever reads the parent next. -/
theorem Reached.rest (reached : Reached codec content used Has front back want taken coding) :
    coding.supply.bytes = content.drop (min used front.flatten.length) ∧
      coding.supply.fault = none := by
  cases finished : coding.finished with
  | true =>
    obtain ⟨-, beyond, bytes, sound⟩ := reached.stopped finished
    rw [Nat.min_eq_left beyond]
    exact ⟨bytes, sound⟩
  | false =>
    obtain ⟨-, supply, within⟩ := reached.working finished
    obtain ⟨bytes, sound⟩ := Course.ofPieces_sound back
    rw [Nat.min_eq_right within, supply, ← reached.whole, List.drop_left]
    exact ⟨bytes, sound⟩

/-- **Feeding for so many bytes.** The codec is fed with further pieces, and with no more than it
takes. -/
theorem fill_reached (takes : Takes codec content used Has) (want : Nat)
    (whole : front.flatten ++ back.flatten = content) (solid : ∀ piece ∈ back, piece ≠ [])
    (least : ∀ fewer < front.length, (given codec (front.take fewer).flatten).length < taken + want)
    (within : taken + want ≤ (given codec content).length) (has : Has front.flatten state)
    (before : front.flatten.length ≤ used) (some : taken ≤ (given codec front.flatten).length) :
    ∃ more later, back = more ++ later ∧
      (fill want ((given codec front.flatten).drop taken) state (.ofPieces back)).1 = .ok () ∧
      Reached codec content used Has (front ++ more) later (taken + want) taken
        (fill want ((given codec front.flatten).drop taken) state (.ofPieces back)).2 := by
  induction back generalizing front state with
  | nil =>
    have all : front.flatten = content := by rw [← whole, List.flatten_nil, List.append_nil]
    have enough : want ≤ ((given codec front.flatten).drop taken).length := by
      rw [List.length_drop, all]
      omega
    rw [fill_enough enough]
    refine ⟨[], [], rfl, rfl, ?_⟩
    rw [List.append_nil]
    exact ⟨whole, least, by rw [all]; exact within, rfl, fun _ => ⟨has, rfl, before⟩,
      fun wrong => by cases wrong⟩
  | cons piece back hypothesis =>
    by_cases enough : want ≤ ((given codec front.flatten).drop taken).length
    · rw [fill_enough enough]
      refine ⟨[], piece :: back, rfl, rfl, ?_⟩
      rw [List.length_drop] at enough
      rw [List.append_nil]
      exact ⟨whole, least, by omega, rfl, fun _ => ⟨has, rfl, before⟩, fun wrong => by cases wrong⟩
    · have nonempty := solid piece (List.mem_cons_self ..)
      obtain ⟨first, others, rfl⟩ := List.exists_cons_of_ne_nil nonempty
      have flat : (front ++ [first :: others]).flatten = front.flatten ++ (first :: others) := by
        rw [List.flatten_append, List.flatten_singleton]
      have whole' : (front ++ [first :: others]).flatten ++ back.flatten = content := by
        rw [flat, ← whole, List.flatten_cons, List.append_assoc]
      have least' : ∀ fewer < (front ++ [first :: others]).length,
          (given codec ((front ++ [first :: others]).take fewer).flatten).length < taken + want := by
        intro fewer fewerThan
        rw [List.length_append, List.length_singleton] at fewerThan
        rw [List.take_append_of_le_length (by omega)]
        by_cases last : fewer = front.length
        · rw [last, List.take_length]
          rw [List.length_drop] at enough
          omega
        · exact least fewer (by omega)
      obtain ⟨out, count, next, fed, gives, goes, stops⟩ := takes.step has nonempty
        ⟨back.flatten, by rw [← flat]; exact whole'⟩
      rw [← flat] at gives goes stops
      have heldMore : (given codec front.flatten).drop taken ++ out =
          (given codec (front ++ [first :: others]).flatten).drop taken := by
        rw [gives, List.drop_append_of_le_length some]
      show ∃ more later, _ ∧ (fill want _ state (.piece first others (.ofPieces back))).1 = _ ∧
        Reached codec content used Has _ _ _ _
          (fill want _ state (.piece first others (.ofPieces back))).2
      unfold fill
      rw [if_neg enough, fed]
      dsimp only
      rw [heldMore]
      cases finished : ChunkCodec.finished next with
      | true =>
        obtain ⟨total, beyond, all⟩ := stops finished
        refine ⟨[first :: others], back, rfl, rfl, whole', least', by rw [all]; exact within, rfl,
          fun wrong => (by cases wrong), fun _ => ⟨all, beyond, ?_, ?_⟩⟩
        · show (Course.push ((first :: others).drop count.toNat) (.ofPieces back)).bytes = _
          rw [flat, List.length_append] at beyond
          rw [Course.bytes_push, (Course.ofPieces_sound back).1, ← whole', flat, ← total,
            List.append_assoc, ← List.drop_drop, List.drop_left,
            List.drop_append_of_le_length (by omega)]
        · exact (Course.fault_push _ _).trans (Course.ofPieces_sound back).2
      | false =>
        obtain ⟨hasMore, withinUsed⟩ := goes finished
        obtain ⟨more, later, rfl, ran, reached⟩ := hypothesis whole'
          (fun other member => solid other (List.mem_cons_of_mem _ member)) least' hasMore
          withinUsed (by rw [gives, List.length_append]; omega)
        refine ⟨(first :: others) :: more, later, rfl, ran, ?_⟩
        rwa [List.append_assoc] at reached

/-- Feeding a codec for more bytes than it was fed for. -/
theorem prepare_reached (takes : Takes codec content used Has) (want : Nat)
    (solid : ∀ piece ∈ back, piece ≠ [])
    (reached : Reached codec content used Has front back taken taken coding)
    (within : taken + want ≤ (given codec content).length) :
    ∃ more later, back = more ++ later ∧ (coding.prepare want).1 = .ok () ∧
      Reached codec content used Has (front ++ more) later (taken + want) taken
        (coding.prepare want).2 := by
  have leastMore : ∀ fewer < front.length,
      (given codec (front.take fewer).flatten).length < taken + want :=
    fun fewer fewerThan => Nat.lt_of_lt_of_le (reached.least fewer fewerThan) (Nat.le_add_right _ _)
  obtain ⟨held, state, finished, supply⟩ := coding
  obtain rfl : held = _ := reached.held
  cases finished with
  | true =>
    obtain ⟨all, -⟩ := reached.stopped rfl
    refine ⟨[], back, rfl, rfl, ?_⟩
    rw [List.append_nil]
    exact ⟨reached.whole, leastMore, by rw [all]; exact within, rfl, reached.working,
      reached.stopped⟩
  | false =>
    obtain ⟨has, rfl, before⟩ := reached.working rfl
    exact fill_reached takes want reached.whole solid leastMore within has before reached.enough

end Coding

/-! ### Reading for so many bytes -/

namespace View

open ChunkCodec

variable {κ : Type} [ChunkCodec κ] {codec state : κ} {content : Bytes} {used taken count cell : Nat}
  {Has : Bytes → κ → Prop} {front back : List Bytes} {streams : Streams κ} {parent : View}

/-- A transformed view through which so many bytes were read: its codec was fed for them and no
further. -/
structure Reads (codec : κ) (content : Bytes) (used : Nat) (Has : Bytes → κ → Prop) (cell : Nat)
    (parent : View) (front back : List Bytes) (taken : Nat) (streams : Streams κ) : Prop where
  ready : (View.transformed cell parent).Ready streams
  reached : ∃ state, (streams.transforms.get cell).codec = some state ∧
    Coding.Reached codec content used Has front back taken taken
      ((streams.transforms.get cell).coding state (parent.course streams))

/-- What the parent still has after some bytes were read through a view over it. -/
theorem Reads.rest (reads : Reads codec content used Has cell parent front back taken streams) :
    (parent.course streams).bytes = content.drop (min used front.flatten.length) ∧
      (parent.course streams).fault = none := by
  obtain ⟨state, -, reached⟩ := reads.reached
  exact reached.rest

/-- **Reading so many bytes more.** They are the next ones that the codec gives, and its parent is read
for them and no further. -/
theorem readExact_reached (takes : Takes codec content used Has)
    (solid : ∀ piece ∈ back, piece ≠ [])
    (reads : Reads codec content used Has cell parent front back taken streams)
    (within : taken + count ≤ (given codec content).length) :
    ∃ more later after, back = more ++ later ∧
      ((View.transformed cell parent).readExact count).run streams =
        (.ok (((given codec content).drop taken).take count), after) ∧
      Reads codec content used Has cell parent (front ++ more) later (taken + count) after := by
  obtain ⟨ready, state, has, reached⟩ := reads
  obtain ⟨more, later, rfl, ran, prepared⟩ :=
    Coding.prepare_reached takes count solid reached within
  obtain ⟨middle, runs, filled⟩ := prepare_run parent.peeks ready has count
  have full := filled ran
  have front_ : given codec (front ++ more).flatten <+: given codec content := by
    cases finished : (((streams.transforms.get cell).coding state
        (parent.course streams)).prepare count).2.finished with
    | true => rw [(prepared.stopped finished).1]
    | false =>
      exact takes.given_front (prepared.working finished).1 ⟨_, prepared.whole⟩
  generalize (((streams.transforms.get cell).coding state (parent.course streams)).prepare count).2 =
    coding at prepared full
  obtain ⟨ended, layer, -⟩ := full.layer
  have held : (middle.transforms.get cell).buffer.content =
      (given codec (front ++ more).flatten).drop taken := by
    rw [layer]
    exact prepared.held
  have enough : count ≤ (middle.transforms.get cell).buffer.content.length := by
    have total := prepared.enough
    rw [held, List.length_drop]
    omega
  have natural : ¬(count : Int) < 0 := by omega
  have dropped := dropped_layer full.ready count
  have fresh : cell ∉ parent.stages := full.ready.1
  have still := untouched_setLayer fresh middle
    { middle.transforms.get cell with buffer := (middle.transforms.get cell).buffer.drop count }
  refine ⟨more, later, { middle with
    transforms := middle.transforms.set cell
      { middle.transforms.get cell with
        buffer := (middle.transforms.get cell).buffer.drop count } }, rfl, ?_, ⟨dropped.ready, ?_⟩⟩
  · rw [readExact, if_neg natural, run_bind, Int.toNat_natCast, runs, ran]
    refine run_onTransformed ?_
    rw [Buffer.read_held _ _ enough, held]
    obtain ⟨others, same⟩ := front_
    have total := prepared.enough
    rw [← same, List.drop_append_of_le_length (by omega),
      List.take_append_of_le_length (by rw [List.length_drop]; omega)]
  · refine ⟨coding.codec, ?_, ?_⟩
    · show (Table.get (Table.set middle.transforms cell _) cell).codec = _
      rw [Table.get_set_self, layer]
      rfl
    · show Coding.Reached codec content used Has (front ++ more) later _ _
        ((Table.get (Table.set middle.transforms cell _) cell).coding coding.codec _)
      rw [Table.get_set_self, still.course, full.supply]
      refine ⟨prepared.whole, prepared.least, prepared.enough, ?_, ?_, ?_⟩
      · show (middle.transforms.get cell).buffer.content.drop count = _
        rw [held, List.drop_drop]
      · rw [layer]
        exact prepared.working
      · rw [layer]
        exact prepared.stopped

/-- A codec that was just opened over a parent that gives a content in pieces. -/
theorem openTransformed_reads (takes : Takes codec content used Has) (ready : parent.Ready streams)
    (fresh : streams.transforms.size ∉ parent.stages) (greedy : Greedy codec) {pieces : List Bytes}
    (course : parent.course streams = .ofPieces pieces) (whole : pieces.flatten = content) :
    Reads codec content used Has streams.transforms.size parent [] pieces 0
      (streams.openTransformed parent codec).2 := by
  have layer : (streams.openTransformed parent codec).2.transforms.get streams.transforms.size =
      { codec := some codec, finished := false } := Table.get_push_self _ _
  refine ⟨(openTransformed_decoded ready fresh greedy).1, codec, by rw [layer], ?_⟩
  rw [layer, (untouched_openTransformed fresh codec).course, course]
  exact ⟨whole, fun _ wrong => absurd wrong (Nat.not_lt_zero _), Nat.zero_le _,
    by rw [List.flatten_nil, takes.nothing]; rfl,
    fun _ => ⟨takes.start, rfl, Nat.zero_le _⟩, fun wrong => by cases wrong⟩

end View

end WireProgram
