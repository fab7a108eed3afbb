/-
**Programs that read a part of a transformed stream.**

A program runs its stream through a codec, reads some of the decoded bytes, and goes on with the stream
itself. What it finds there depends on how the input came: the codec took whole pieces, as many as the
decoded bytes needed. The main definitions and statements:

* `partRead`, such a program, and `portions`, what its reads are to give;
* `Frame.numbered`, a frame that holds values in its first registers;
* `Decodes`, a content that starts with what a codec decodes;
* `partRead_decode`, what the program gives for any delivery of the content;
* `partRead_depends`, two deliveries of one content for which it gives different bytes.
-/

import WireProgram.Proofs.Frame
import WireProgram.Proofs.Step
import WireProgram.Proofs.Stream.Extent

namespace WireProgram

/-! ### The program -/

/-- So many registers in a row. -/
def registersFrom (first count : Nat) : List Register :=
  (List.range' first count).map fun register : Nat => .index register

theorem length_registersFrom (first count : Nat) : (registersFrom first count).length = count := by
  rw [registersFrom, List.length_map, List.length_range']

/-- Reads an array of octets from the stream in a register; its length is in another register. -/
def readOctets (stream data length : Nat) : Instruction :=
  .decodeArray (.stream (.index stream)) (.index data) "u8" (some (.index length))

/-- A program with so many lengths as its arguments. It runs its reader through a transform and reads
an array of octets of each length; then it reads the rest of its reader itself. It gives all arrays. -/
def partRead (transform : Transform) (reads : Nat) : Program where
  instructions := .wrapStream .direct (.index reads) transform [] ::
    ((List.range' 0 reads).map fun read => readOctets reads (reads + 1 + read) read) ++
    [.decodeArray .direct (.index (reads + 1 + reads : Nat)) "u8" none,
      .construct (.index (reads + 2 + reads : Nat))
        (.tuple (registersFrom (reads + 1) (reads + 1)))]
  registerCount := .int (reads + 3 + reads : Nat)
  arguments := registersFrom 0 reads

/-- The parts of a byte string that reads of some lengths give one after the other. -/
def portions : Bytes → List Nat → List Bytes
  | _, [] => []
  | content, count :: counts => content.take count :: portions (content.drop count) counts

/-- The number of bytes that reads of some lengths ask for. -/
def totalOf : List Nat → Nat
  | [] => 0
  | count :: counts => count + totalOf counts

/-- An array of octets. -/
def octets (bytes : Bytes) : Value :=
  .array .u8 (Primitive.u8.decodeAll bytes)

theorem arrayOfBytes_u8 (bytes : Bytes) : arrayOfBytes .u8 bytes = .ok (octets bytes) :=
  if_pos (Nat.mod_one _)

/-! ### Numbered registers -/

namespace Frame

/-- The slots of values in numbered registers, the latest value first. -/
def numberedSlots : List Value → List (Slot × Value)
  | [] => []
  | value :: older => (.index older.length, value) :: numberedSlots older

/-- A frame that holds values in its first registers. -/
def numbered (reader : Option View) (values : List Value) : Frame :=
  ⟨⟨reader, numberedSlots values.reverse⟩, []⟩

variable {reader : Option View} {values : List Value} {value : Value}

theorem find?_numbered (reader : Option View) (values : List Value) (register : Nat) :
    (numbered reader values).find? (.index register) = values[register]? := by
  induction values using List.reverseRecOn with
  | nil => rfl
  | append_singleton older value hypothesis =>
    have written : numbered reader (older ++ [value]) =
        { numbered reader older with
          scope := { (numbered reader older).scope with
            slots := (.index older.length, value) :: (numbered reader older).scope.slots } } := by
      unfold numbered
      rw [List.reverse_concat, numberedSlots, List.length_reverse]
    rw [written, find?_write, hypothesis]
    by_cases last : register = older.length
    · rw [if_pos (by rw [last]), last, List.getElem?_concat_length]
    · have apart : Slot.index register ≠ Slot.index older.length :=
        fun same => last (Int.ofNat.inj (Slot.index.inj same))
      rw [if_neg apart]
      by_cases inside : register < older.length
      · rw [List.getElem?_append_left inside]
      · rw [List.getElem?_eq_none (by omega), List.getElem?_eq_none (by simp; omega)]

theorem get_numbered {register : Nat} (holds : values[register]? = some value) :
    (numbered reader values).get (.index register) = .ok value :=
  get_eq_ok.mpr ⟨_, rfl, by rw [find?_numbered, holds]⟩

theorem set_numbered {register : Nat} (next : register = values.length) (value : Value) :
    (numbered reader values).set (.index register) value = .ok (numbered reader (values ++ [value])) := by
  refine set_eq_ok.mpr ⟨.index register, rfl, ?_, ?_⟩
  · rw [find?_numbered, next, List.getElem?_eq_none (Nat.le_refl _)]
  · unfold numbered
    rw [List.reverse_concat, numberedSlots, List.length_reverse, next]

/-- The values of registers in a row. -/
theorem getMany_numbered (reader : Option View) (before after : List Value) :
    (numbered reader (before ++ after)).getMany (registersFrom before.length after.length) =
      .ok after := by
  unfold getMany registersFrom
  induction after generalizing before with
  | nil => rfl
  | cons value after hypothesis =>
    have here : (numbered reader (before ++ value :: after)).get (.index before.length) =
        .ok value := get_numbered (by rw [List.getElem?_append_right (Nat.le_refl _), Nat.sub_self]; rfl)
    have rest := hypothesis (before ++ [value])
    rw [List.append_assoc, List.length_append, List.length_singleton] at rest
    rw [List.length_cons, List.range'_succ, List.map_cons, List.mapM_cons, here]
    show ((List.mapM _ _ : Except Fault (List Value)) >>= fun values => pure (value :: values)) = _
    rw [show (numbered reader (before ++ value :: after)).get =
      (numbered reader (before ++ ([value] ++ after))).get from rfl, rest]
    rfl

/-- Arguments go into the first registers. -/
theorem foldlM_numbered (reader : Option View) (older values : List Value) :
    ((registersFrom older.length values.length).zip values).foldlM
      (fun frame entry => frame.set entry.1 entry.2) (numbered reader older) =
        .ok (numbered reader (older ++ values)) := by
  unfold registersFrom
  induction values generalizing older with
  | nil =>
    rw [List.append_nil]
    rfl
  | cons value values hypothesis =>
    have rest := hypothesis (older ++ [value])
    rw [List.append_assoc, List.length_append, List.length_singleton] at rest
    rw [List.length_cons, List.range'_succ, List.map_cons, List.zip_cons_cons, List.foldlM_cons,
      set_numbered rfl]
    exact rest

end Frame

/-! ### Runs that succeed -/

section Blocks

variable {environment : Environment} {refer : Referral} {frame : Frame} {machine : Machine}
  {good : Frame → Machine → Prop}

/-- A step that succeeds, with a good value and state. -/
def Succeeds {α : Type} (step : Step α) (before : Machine) (good : α → Machine → Prop) : Prop :=
  Leads step before good fun _ _ => False

/-- A first step whose run is known. -/
theorem succeeds_bind {α β : Type} {step : Step α} {value : α} {after : Machine}
    {next : α → Step β} {good : β → Machine → Prop} (ran : step.run machine = (.ok value, after))
    (rest : Succeeds (next value) after good) : Succeeds (step >>= next) machine good :=
  Leads.of_run (by rw [run_bind, ran]) rest

theorem succeeds_ofExcept {α β : Type} {result : Except Fault α} {value : α} {next : α → Step β}
    {good : β → Machine → Prop} (same : result = .ok value)
    (rest : Succeeds (next value) machine good) :
    Succeeds (Step.ofExcept result >>= next) machine good :=
  succeeds_bind (by rw [same]; rfl) rest

theorem succeeds_onStreams {α β : Type} {step : StreamStep Codec α} {value : α} {next : α → Step β}
    {streams : Streams Codec} {good : β → Machine → Prop}
    (ran : step.run machine.streams = (.ok value, streams))
    (rest : Succeeds (next value) { machine with streams := streams } good) :
    Succeeds (Step.onStreams step >>= next) machine good :=
  succeeds_bind (by rw [Step.run_onStreams, ran]; rfl) rest

/-- A block whose first instruction succeeds, whatever was recorded before. -/
theorem succeeds_block {instruction : Instruction} {rest : List Instruction} {index : Nat}
    {middle : Frame → Machine → Prop}
    (first : ∀ recorded : Machine, recorded.streams = machine.streams →
      Succeeds (instruction.run environment refer frame) recorded middle)
    (later : ∀ next after, middle next after →
      Succeeds (runBlock environment refer rest (index + 1) next) after good) :
    Succeeds (runBlock environment refer (instruction :: rest) index frame) machine good := by
  obtain ⟨recorded, same, ran⟩ : ∃ recorded : Machine, recorded.streams = machine.streams ∧
      (Step.record environment.config "exec" frame.depth instruction.label environment.mode).run
        machine = (.ok (), recorded) := by
    refine ⟨_, ?_, Step.run_change _ _⟩
    cases environment.config.trace <;> rfl
  have done := first recorded same
  unfold runBlock
  refine succeeds_bind ran ?_
  rcases runs : (instruction.run environment refer frame).run recorded with ⟨failure | next, after⟩
  · exact (done.error runs).elim
  · exact succeeds_bind (by rw [Step.run_guarded, runs]) (later next after (done.ok runs))

end Blocks

/-! ### The reads -/

section Reads

open ChunkCodec

variable {environment : Environment} {refer : Referral} {machine : Machine} {view parent : View}
  {streams : Streams Codec} {bytes content : Bytes} {count cell used taken : Nat}
  {reader : Option View} {codec : Codec} {Has : Bytes → Codec → Prop} {front back : List Bytes}
  {good : Frame → Machine → Prop}

/-- Reading an array of so many octets. -/
theorem run_readArray_some (allowPartialTail : Bool)
    (ran : (view.readExact count).run machine.streams = (.ok bytes, streams)) :
    (readArray view "u8" (some count) allowPartialTail).run machine =
      (.ok (octets bytes), { machine with streams := streams }) := by
  have known : requirePrimitive "u8" = .ok .u8 := rfl
  have width : count * Primitive.u8.width = count := Nat.mul_one count
  unfold readArray
  rw [known, run_bind, Step.run_ofExcept]
  show (Step.onStreams (view.readExact (count * Primitive.u8.width : Nat)) >>= _ : Step Value).run
    machine = _
  rw [width, run_bind, Step.run_onStreams, ran]
  show (Step.ofExcept (arrayOfBytes .u8 bytes)).run _ = _
  rw [Step.run_ofExcept, arrayOfBytes_u8]
  rfl

/-- Reading an array of all octets that are left. -/
theorem run_readArray_none (allowPartialTail : Bool)
    (ran : view.readToEnd.run machine.streams = (.ok bytes, streams)) :
    (readArray view "u8" none allowPartialTail).run machine =
      (.ok (octets bytes), { machine with streams := streams }) := by
  have known : requirePrimitive "u8" = .ok .u8 := rfl
  have tail : ¬(bytes.length % Primitive.u8.width ≠ 0 ∧ allowPartialTail = true) :=
    fun partial_ => partial_.1 (Nat.mod_one _)
  unfold readArray
  rw [known, run_bind, Step.run_ofExcept]
  show (Step.onStreams view.readToEnd >>= _ : Step Value).run machine = _
  rw [run_bind, Step.run_onStreams, ran]
  show (if _ then _ else Step.ofExcept (arrayOfBytes .u8 bytes) : Step Value).run _ = _
  rw [if_neg tail, Step.run_ofExcept, arrayOfBytes_u8]
  rfl

/-- One read: its length and its stream are in registers. -/
theorem succeeds_readOctets {values : List Value} {stream length : Nat}
    (holdsStream : values[stream]? = some (.stream view))
    (holdsLength : values[length]? = some (.int count))
    (ran : (view.readExact count).run machine.streams = (.ok bytes, streams)) :
    Succeeds ((readOctets stream values.length length).run environment refer
        (Frame.numbered reader values)) machine
      fun next after => next = .numbered reader (values ++ [octets bytes]) ∧
        after.streams = streams := by
  have target : (Frame.numbered reader values).target (.stream (.index stream)) = .ok view :=
    Frame.streamIn_eq_ok.mpr (Frame.get_numbered holdsStream)
  have counted : (countIn (Frame.numbered reader values) "array length" (.index length)).run machine =
      (.ok count, machine) := by
    unfold countIn
    rw [Frame.get_numbered holdsLength]
    rfl
  unfold readOctets Instruction.run
  refine succeeds_ofExcept target (succeeds_bind counted ?_)
  refine succeeds_bind (run_readArray_some _ ran) ?_
  rw [Frame.set_numbered rfl]
  exact Leads.of_ok rfl ⟨rfl, rfl⟩

/-- The registers after some reads: the lengths, the stream, and the arrays so far. -/
def partValues (counts : List Nat) (stream : View) (arrays : List Bytes) : List Value :=
  (counts.map fun count : Nat => .int count) ++ .stream stream :: arrays.map octets

theorem length_partValues (counts : List Nat) (stream : View) (arrays : List Bytes) :
    (partValues counts stream arrays).length = counts.length + 1 + arrays.length := by
  unfold partValues
  rw [List.length_append, List.length_map, List.length_cons, List.length_map]
  omega

theorem partValues_concat (counts : List Nat) (stream : View) (arrays : List Bytes) (bytes : Bytes) :
    partValues counts stream arrays ++ [octets bytes] =
      partValues counts stream (arrays ++ [bytes]) := by
  unfold partValues
  rw [List.append_assoc, List.cons_append, List.map_append, List.map_singleton]

theorem getElem?_partValues_stream (counts : List Nat) (stream : View) (arrays : List Bytes) :
    (partValues counts stream arrays)[counts.length]? = some (.stream stream) := by
  unfold partValues
  rw [List.getElem?_append_right (by rw [List.length_map]), List.length_map, Nat.sub_self]
  rfl

theorem getElem?_partValues_length {counts : List Nat} {read : Nat} (stream : View)
    (arrays : List Bytes) (asks : counts[read]? = some count) :
    (partValues counts stream arrays)[read]? = some (.int count) := by
  obtain ⟨inside, -⟩ := List.getElem?_eq_some_iff.mp asks
  unfold partValues
  rw [List.getElem?_append_left (by rw [List.length_map]; exact inside), List.getElem?_map, asks]
  rfl

/-- **All reads.** Together they give the next decoded bytes, in portions of the lengths asked for. -/
theorem succeeds_reads (takes : Takes codec content used Has) {rest : List Instruction}
    (counts remaining : List Nat) (arrays : List Bytes) (asks : counts.drop arrays.length = remaining)
    (solid : ∀ piece ∈ back, piece ≠ []) (index : Nat)
    (reads : View.Reads codec content used Has cell parent front back taken machine.streams)
    (within : taken + totalOf remaining ≤ (given codec content).length)
    (later : ∀ index front' back' after, front' ++ back' = front ++ back →
      View.Reads codec content used Has cell parent front' back' (taken + totalOf remaining)
        after.streams →
      Succeeds (runBlock environment refer rest index
        (.numbered reader (partValues counts (.transformed cell parent)
          (arrays ++ portions ((given codec content).drop taken) remaining)))) after good) :
    Succeeds (runBlock environment refer
      ((List.range' arrays.length remaining.length).map (fun read =>
        readOctets counts.length (counts.length + 1 + read) read) ++ rest)
      index (.numbered reader (partValues counts (.transformed cell parent) arrays))) machine
        good := by
  induction remaining generalizing arrays machine index front back taken with
  | nil =>
    have now := later index front back machine rfl reads
    rwa [portions, List.append_nil] at now
  | cons count remaining hypothesis =>
    rw [totalOf, ← Nat.add_assoc] at within later
    have enough : taken + count ≤ (given codec content).length := by omega
    obtain ⟨more, others, after, rfl, ran, readsNext⟩ :=
      View.readExact_reached takes solid reads enough
    have asksHere : counts[arrays.length]? = some count := by
      rw [← List.head?_drop, asks]
      rfl
    have asksNext : counts.drop (arrays ++ [((given codec content).drop taken).take count]).length =
        remaining := by
      rw [List.length_append, List.length_singleton, ← List.drop_drop, asks]
      rfl
    have first : ∀ recorded : Machine, recorded.streams = machine.streams →
        Succeeds ((readOctets counts.length (counts.length + 1 + arrays.length)
          arrays.length).run environment refer
            (.numbered reader (partValues counts (.transformed cell parent) arrays))) recorded
          fun next last => next = .numbered reader (partValues counts (.transformed cell parent)
            (arrays ++ [((given codec content).drop taken).take count])) ∧ last.streams = after := by
      intro recorded same
      rw [← length_partValues counts (.transformed cell parent) arrays, ← partValues_concat]
      exact succeeds_readOctets (getElem?_partValues_stream ..)
        (getElem?_partValues_length _ _ asksHere) (by rw [same]; exact ran)
    rw [List.length_cons, List.range'_succ, List.map_cons, List.cons_append]
    refine succeeds_block first ?_
    rintro next last ⟨rfl, rfl⟩
    have rest := hypothesis (arrays ++ [((given codec content).drop taken).take count]) asksNext
      (fun piece member => solid piece (List.mem_append_right _ member)) (index + 1) readsNext
      within
      fun index front' back' final whole readsLast => by
        have done := later index front' back' final (by rw [whole, List.append_assoc]) readsLast
        rwa [portions, List.drop_drop, ← List.singleton_append, ← List.append_assoc] at done
    rw [List.length_append, List.length_singleton] at rest
    exact rest

/-- The last two instructions: the rest of the reader, and all arrays together. -/
theorem succeeds_rest {counts : List Nat} {arrays : List Bytes} {index : Nat}
    (all : arrays.length = counts.length)
    (ran : parent.readToEnd.run machine.streams = (.ok bytes, streams)) :
    Succeeds (runBlock environment refer
      [.decodeArray .direct (.index (counts.length + 1 + counts.length : Nat)) "u8" none,
        .construct (.index (counts.length + 2 + counts.length : Nat))
          (.tuple (registersFrom (counts.length + 1) (counts.length + 1)))] index
      (.numbered (some parent) (partValues counts view arrays))) machine
      fun frame _ => frame.get (.index (counts.length + 2 + counts.length : Nat)) =
        .ok (.tuple ((arrays ++ [bytes]).map octets)) := by
  have size := length_partValues counts view arrays
  have size' := length_partValues counts view (arrays ++ [bytes])
  rw [List.length_append, List.length_singleton] at size'
  have first : ∀ recorded : Machine, recorded.streams = machine.streams →
      Succeeds (Instruction.run environment refer
        (.decodeArray .direct (.index (counts.length + 1 + counts.length : Nat)) "u8" none)
        (.numbered (some parent) (partValues counts view arrays))) recorded
        fun frame _ => frame = .numbered (some parent) (partValues counts view (arrays ++ [bytes])) := by
    intro recorded same
    have target : (Frame.numbered (some parent) (partValues counts view arrays)).target .direct =
        .ok parent := rfl
    unfold Instruction.run
    refine succeeds_ofExcept target (succeeds_bind (run_readArray_none _ (by rw [same]; exact ran)) ?_)
    rw [Frame.set_numbered (by omega), partValues_concat]
    exact Leads.of_ok rfl rfl
  have built : Constructable.build environment.types
      (.numbered (some parent) (partValues counts view (arrays ++ [bytes])))
      (.tuple (registersFrom (counts.length + 1) (counts.length + 1))) =
        .ok (.tuple ((arrays ++ [bytes]).map octets)) := by
    have items := Frame.getMany_numbered (some parent)
      ((counts.map fun count : Nat => Value.int count) ++ [.stream view])
      ((arrays ++ [bytes]).map octets)
    rw [List.length_append, List.length_map, List.length_singleton, List.length_map,
      List.length_append, List.length_singleton, List.append_assoc, all] at items
    show (Frame.getMany (.numbered (some parent) (_ ++ ([.stream view] ++ _))) _).map Value.tuple = _
    rw [items]
    rfl
  have second : ∀ recorded : Machine,
      Succeeds (Instruction.run environment refer
        (.construct (.index (counts.length + 2 + counts.length : Nat))
          (.tuple (registersFrom (counts.length + 1) (counts.length + 1))))
        (.numbered (some parent) (partValues counts view (arrays ++ [bytes])))) recorded
        fun frame _ => frame = .numbered (some parent) (partValues counts view (arrays ++ [bytes]) ++
          [.tuple ((arrays ++ [bytes]).map octets)]) := by
    intro recorded
    unfold Instruction.run
    refine succeeds_ofExcept built ?_
    rw [Frame.set_numbered (by omega)]
    exact Leads.of_ok rfl rfl
  refine succeeds_block first ?_
  rintro frame middle rfl
  refine succeeds_block (fun recorded _ => second recorded) ?_
  rintro frame final rfl
  refine Leads.of_ok rfl (Frame.get_numbered ?_)
  have position : counts.length + 2 + counts.length =
      (partValues counts view (arrays ++ [bytes])).length := by omega
  rw [position, List.getElem?_concat_length]

end Reads

/-! ### The whole program -/

/-- A content that starts with what a transform decodes: a member with anything after it, or a
well-formed text. -/
inductive Decodes : TransformAction → Codec → (content decoded : Bytes) → (used : Nat) → Prop
  | gzip {member : Bytes} {last : Gzip.Member} (rest : Bytes)
    (taken : Gzip.Member.takeAll {} member = .ok (last, [])) (complete : last.isComplete = true) :
    Decodes .gzip (.gzip {} none) (member ++ rest) last.body.output.toList member.length
  | base64 {text decoded : Bytes} (wellFormed : Base64.WellFormed (Codec.solid text))
    (accepted : Base64.decode (Codec.solid text) = .ok decoded) :
    Decodes .base64 (.base64 []) text decoded text.length

section Whole

variable {action : TransformAction} {codec : Codec} {content decoded : Bytes} {used : Nat}

/-- Whether a byte string is a member of some content can be computed. -/
theorem Decodes.of_member {member : Bytes} (rest : Bytes)
    (taken : (Gzip.Member.takeAll {} member).toOption.map
      (fun result => (result.2, result.1.isComplete, result.1.body.output.toList)) =
        some ([], true, decoded)) :
    Decodes .gzip (.gzip {} none) (member ++ rest) decoded member.length := by
  cases ran : Gzip.Member.takeAll {} member with
  | error fault =>
    rw [ran] at taken
    cases taken
  | ok result =>
    obtain ⟨last, others⟩ := result
    rw [ran] at taken
    obtain ⟨rfl, both⟩ := Prod.mk.inj (Option.some.inj taken)
    obtain ⟨complete, rfl⟩ := Prod.mk.inj both
    exact .gzip rest ran complete

theorem Decodes.takes (decodes : Decodes action codec content decoded used) :
    ∃ Has, ChunkCodec.Takes codec content used Has := by
  cases decodes with
  | gzip rest taken complete => exact ⟨_, Codec.takes_gzip rest taken complete⟩
  | base64 wellFormed accepted => exact ⟨_, Codec.takes_base64 wellFormed⟩

theorem Decodes.given (decodes : Decodes action codec content decoded used) :
    ChunkCodec.given codec content = decoded := by
  cases decodes with
  | @gzip member last rest taken complete =>
    have all := Gzip.Member.takeAll_append {} member rest
    rw [taken] at all
    simp only [complete, if_true] at all
    exact Codec.given_gzip all
  | base64 wellFormed accepted =>
    rw [Codec.given_base64 wellFormed List.prefix_rfl, Base64.decode_plain accepted]
    have same := Base64.groups_append [] wellFormed.aligned
    rw [List.append_nil] at same
    rw [same.1]
    exact congrArg Base64.plain (List.append_nil _)

theorem Decodes.greedy (decodes : Decodes action codec content decoded used) :
    ChunkCodec.Greedy codec := by
  cases decodes with
  | gzip rest taken complete =>
    have sane : Codec.Divisible (.gzip {} none) := trivial
    exact (Codec.divisible_meets sane).greedy
  | base64 wellFormed accepted => exact Codec.base64_greedy []

theorem Decodes.wrap (decodes : Decodes action codec content decoded used) (name : String)
    (view : View) :
    Transform.wrap ⟨name, action⟩ view [] =
      openedBy fun streams => streams.openTransformed view codec := by
  cases decodes <;> rfl

theorem length_portions (content : Bytes) (counts : List Nat) :
    (portions content counts).length = counts.length := by
  induction counts generalizing content with
  | nil => rfl
  | cons count counts hypothesis =>
    rw [portions, List.length_cons, List.length_cons, hypothesis]

/-- The arguments of the program go into its first registers. -/
theorem bindArguments_partRead (transform : Transform) (counts : List Nat) :
    bindArguments (partRead transform counts.length) (counts.map fun count : Nat => .int count) =
      .ok (.numbered none (counts.map fun count : Nat => .int count)) := by
  have filled := Frame.foldlM_numbered none []
    (counts.map fun count : Nat => Value.int count)
  rw [List.length_map, List.nil_append, List.length_nil] at filled
  unfold bindArguments partRead
  rw [if_pos (by rw [List.length_map]; exact (length_registersFrom 0 counts.length).symm)]
  exact filled

theorem outputRegister_partRead (transform : Transform) (reads : Nat) :
    (partRead transform reads).outputRegister = .ok (.index (reads + 2 + reads : Nat)) := by
  have last : ((reads + 3 + reads : Nat) : Int) - 1 = (reads + 2 + reads : Nat) := by omega
  show Except.ok (Register.ofJson (.int (((reads + 3 + reads : Nat) : Int) - 1))) = _
  rw [last]
  rfl

/-- A new source over an input that delivers its bytes gives them in the chunks of the input. -/
theorem course_openSource {streams : Streams Codec} {execution : Execution} {input : Input}
    (driven : streams.driver = execution) (delivers : input.Delivers content) :
    (View.source execution streams.sources.size).course (streams.openSource execution input).2 =
      .ofPieces (input.pending.map Chunk.content) := by
  have opened : (streams.openSource execution input).2.sources.get streams.sources.size =
      { input := input } := Table.get_push_self _ _
  rw [← Course.ofChunks_pieces execution delivers.solid]
  show Course.push ((Streams.sources _).get _).buffer.content (Source.later _ _ _) = _
  rw [opened]
  unfold Source.later
  rw [show (streams.openSource execution input).2.driver = execution from driven,
    if_neg Bool.false_ne_true, if_neg (not_not_intro rfl)]
  rfl

variable {environment : Environment} {refer : Referral} {machine : Machine} {source : View}
  {streams : Streams Codec}

/-- The first instruction: the stream through the codec. -/
theorem succeeds_wrap (decodes : Decodes action codec content decoded used) (name : String)
    (counts : List Nat) (same : machine.streams = streams) :
    Succeeds (Instruction.run environment refer
      (.wrapStream .direct (.index counts.length) ⟨name, action⟩ [])
      (.numbered (some source) (counts.map fun count : Nat => .int count))) machine
      fun frame after =>
        frame = .numbered (some source)
          (partValues counts (.transformed streams.transforms.size source) []) ∧
        after.streams = (streams.openTransformed source codec).2 := by
  have target : (Frame.numbered (some source)
      (counts.map fun count : Nat => Value.int count)).target .direct = .ok source := rfl
  have wrapped : ((Transform.mk name action).wrap source []).run machine.streams =
      (.ok (streams.openTransformed source codec).1, (streams.openTransformed source codec).2) := by
    rw [decodes.wrap, same]
    rfl
  unfold Instruction.run
  refine succeeds_ofExcept target (succeeds_ofExcept rfl (succeeds_onStreams wrapped ?_))
  rw [Frame.set_numbered (List.length_map _).symm]
  exact Leads.of_ok rfl ⟨rfl, rfl⟩

/-- All instructions, over a source that gives the content in some pieces. -/
theorem succeeds_partRead (decodes : Decodes action codec content decoded used) (name : String)
    (counts : List Nat) (within : totalOf counts ≤ decoded.length) {pieces : List Bytes}
    (whole : pieces.flatten = content) (solid : ∀ piece ∈ pieces, piece ≠ [])
    (ready : source.Ready machine.streams) (fresh : machine.streams.transforms.size ∉ source.stages)
    (course : source.course machine.streams = .ofPieces pieces) :
    Succeeds (runBlock environment refer (partRead ⟨name, action⟩ counts.length).instructions 0
      (.numbered (some source) (counts.map fun count : Nat => .int count))) machine
      fun frame _ => ∃ fed, ChunkCodec.FirstGives codec pieces (totalOf counts) fed ∧
        frame.get (.index (counts.length + 2 + counts.length : Nat)) =
          .ok (.tuple ((portions decoded counts ++
            [content.drop (min used (pieces.take fed).flatten.length)]).map octets)) := by
  obtain ⟨Has, takes⟩ := decodes.takes
  have total := decodes.given
  have reads := View.openTransformed_reads takes ready fresh decodes.greedy course whole
  refine succeeds_block (fun recorded same => succeeds_wrap decodes name counts same) ?_
  rintro frame after ⟨rfl, same⟩
  rw [← same] at reads
  refine succeeds_reads takes counts counts [] rfl solid 1 reads (by rw [total]; omega) ?_
  intro index front back last parted readsLast
  rw [Nat.zero_add] at readsLast
  obtain ⟨state, -, reached⟩ := readsLast.reached
  obtain ⟨left, sound⟩ := readsLast.rest
  obtain ⟨final, drains, -⟩ := View.readToEnd_course readsLast.ready.2.1
  rw [Course.whole, sound, left] at drains
  refine Leads.mono (succeeds_rest (length_portions _ counts) drains) ?_ fun _ _ wrong => wrong
  intro frame after holds
  refine ⟨front.length, ?_, ?_⟩
  · rw [← List.nil_append pieces, ← parted]
    exact reached.firstGives
  · rw [← List.nil_append pieces, ← parted, List.take_left, holds, total, List.drop_zero]
    rfl

/-- **A part of a transformed stream.** Let a content start with what a transform decodes, and let a
program read so many decoded bytes, in any number of reads, and then its reader itself. For every
delivery of the content the program gives the decoded bytes that it asked for, and the content from the
end of the first chunk on by which as many bytes were decoded, or from the end of the decoded part on
if that comes before. -/
theorem partRead_decode {transform : Transform}
    (decodes : Decodes transform.action codec content decoded used) (counts : List Nat)
    (within : totalOf counts ≤ decoded.length) {execution : Execution} {input : Input}
    (delivers : input.Delivers content) (types : Types) (config : Config) (machine : Machine)
    (driven : machine.streams.driver = execution) :
    let pieces := input.pending.map Chunk.content
    ∃ fed, ChunkCodec.FirstGives codec pieces (totalOf counts) fed ∧
      (decodeInput ⟨partRead transform counts.length, types, execution.name, config⟩ execution input
        (counts.map fun count : Nat => .int count) machine).1 =
          .ok (.tuple ((portions decoded counts ++
            [content.drop (min used (pieces.take fed).flatten.length)]).map octets)) := by
  intro pieces
  have whole : pieces.flatten = content := by
    rw [← List.flatMap_def]
    exact delivers.content
  have solid : ∀ piece ∈ pieces, piece ≠ [] := by
    intro piece member
    obtain ⟨chunk, inside, rfl⟩ := List.mem_map.mp member
    have has := delivers.solid chunk inside
    cases chunk with
    | bytes content => exact has
    | absent => exact has.elim
    | failure reason => exact has.elim
  have opened : RunSource.open? ⟨.source execution machine.streams.sources.size, true⟩
      execution.name = .ok (.source execution machine.streams.sources.size) := by
    cases execution <;> rfl
  have succeeds : Succeeds (decodeWith
      ⟨partRead transform counts.length, types, execution.name, config⟩
      ⟨.source execution machine.streams.sources.size, true⟩
      (counts.map fun count : Nat => .int count))
      { machine with streams := (machine.streams.openSource execution input).2 }
      fun value _ => ∃ fed, ChunkCodec.FirstGives codec pieces (totalOf counts) fed ∧
        value = .tuple ((portions decoded counts ++
          [content.drop (min used (pieces.take fed).flatten.length)]).map octets) := by
    unfold decodeWith Environment.decode
    refine succeeds_ofExcept (bindArguments_partRead transform counts)
      (succeeds_ofExcept opened (Leads.bind (succeeds_partRead decodes transform.name counts within
        whole solid trivial List.not_mem_nil (course_openSource driven delivers)) ?_))
    rintro frame after ⟨fed, first, holds⟩
    refine succeeds_ofExcept (outputRegister_partRead transform counts.length) ?_
    exact Leads.of_ok (by rw [holds]; rfl) ⟨fed, first, rfl⟩
  unfold decodeInput
  rcases ran : (decodeWith ⟨partRead transform counts.length, types, execution.name, config⟩
      ⟨.source execution machine.streams.sources.size, true⟩
      (counts.map fun count : Nat => .int count)).run
        { machine with streams := (machine.streams.openSource execution input).2 } with
    ⟨failure | value, after⟩
  · exact (succeeds.error ran).elim
  · obtain ⟨fed, first, rfl⟩ := succeeds.ok ran
    exact ⟨fed, first, congrArg Prod.fst ran⟩

/-- A member of one byte, and two bytes after it, in chunks of four: the byte is decoded by the end of
the fourth chunk, within the member. -/
theorem partRead_decode_of_member :
    let member : Bytes := [0x1F, 0x8B, 8, 0, 0, 0, 0, 0, 0, 3, 1, 1, 0, 0xFE, 0xFF, 65, 0x8B, 0x9E,
      0xD9, 0xD3, 1, 0, 0, 0]
    let input := Input.ofBytes 4 (member ++ [7, 8])
    (Decodes .gzip (.gzip {} none) (member ++ [7, 8]) [65] 24 ∧ input.Delivers (member ++ [7, 8])) ∧
    ∃ fed, ChunkCodec.FirstGives (Codec.gzip {} none) (input.pending.map Chunk.content) 1 fed ∧
      (decodeInput ⟨partRead ⟨"gzip", .gzip⟩ 1, [], "blocking", {}⟩ .blocking input [.int 1] {}).1 =
        .ok (.tuple ([[65], (member ++ [7, 8]).drop
          (min 24 ((input.pending.map Chunk.content).take fed).flatten.length)].map octets)) := by
  intro member input
  have decodes : Decodes (Transform.mk "gzip" .gzip).action (.gzip {} none) (member ++ [7, 8]) [65]
    24 := .of_member [7, 8] (by decide +kernel)
  have delivers : input.Delivers (member ++ [7, 8]) := Input.ofBytes_delivers 4 _ (by decide)
  exact ⟨⟨decodes, delivers⟩, partRead_decode decodes [1] (by decide) delivers [] {} {} rfl⟩

/-- The bytes of the last array of a tuple. -/
def lastOctets? : Value → Option Bytes
  | .tuple items => items.getLast?.bind fun last => (last.toBytes {} 0).toOption
  | _ => none

/-- The rest depends on the delivery: after the first three bytes of a text of six, and after the only
byte of a member, the program finds more if the chunks were smaller. -/
theorem partRead_depends :
    let text : Bytes := [81, 85, 74, 68, 82, 69, 86, 71]
    let member : Bytes := [0x1F, 0x8B, 8, 0, 0, 0, 0, 0, 0, 3, 1, 1, 0, 0xFE, 0xFF, 65, 0x8B, 0x9E,
      0xD9, 0xD3, 1, 0, 0, 0]
    let rest (transform : Transform) (content : Bytes) (count size : Int) :=
      (decodeInput ⟨partRead transform 1, [], "blocking", {}⟩ .blocking (Input.ofBytes size content)
        [.int count] {}).1.toOption.bind lastOctets?
    (Decodes .base64 (.base64 []) text [65, 66, 67, 68, 69, 70] 8 ∧
      rest ⟨"base64", .base64⟩ text 3 4 = some [82, 69, 86, 71] ∧
      rest ⟨"base64", .base64⟩ text 3 8 = some []) ∧
    (Decodes .gzip (.gzip {} none) (member ++ [7, 8]) [65] 24 ∧
      rest ⟨"gzip", .gzip⟩ (member ++ [7, 8]) 1 16 =
        some [0x8B, 0x9E, 0xD9, 0xD3, 1, 0, 0, 0, 7, 8] ∧
      rest ⟨"gzip", .gzip⟩ (member ++ [7, 8]) 1 26 = some [7, 8]) := by
  intro text member rest
  have wellFormed : Base64.WellFormed (Codec.solid text) :=
    ⟨by decide +kernel, text, 0, by decide, by decide +kernel, by decide +kernel⟩
  refine ⟨⟨.base64 wellFormed (eq_ok_of_toOption (by decide +kernel)), ?_, ?_⟩,
    .of_member [7, 8] (by decide +kernel), ?_, ?_⟩
  all_goals decide +kernel

end Whole

end WireProgram
