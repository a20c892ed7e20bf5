import MiniPL.Proofs.VariableTypes
import MiniPL.Proofs.Words

/-!
# No word of the input is lost

An input offers the words of its lines in order, and one fault for each line that is not UTF-8.  How
much of a line is pending does not matter to what is offered, so each `read` of a run takes the
first of it and leaves the rest, whatever the store makes of the word; no other step touches the
input.  For a text, the words of its lines are the words of the whole.

Main statement: `Session.reads_take_offers`, for programs that run one after another.  The induction
over the steps of a run is in `Logged.Built.serves`.
-/

namespace MiniPL

/-! ### What an input offers -/

namespace Input

/-- What the reads of a line find: its words, or one fault where it is not UTF-8. -/
def lineOffers : Option String → List (Except Cause String)
  | none => [.error .notUtf8]
  | some line => (Text.words line).map .ok

/-- What the reads of an input find, in order, before its end. -/
def offers (input : Input) : List (Except Cause String) :=
  input.pending.map .ok ++ input.lines.flatMap lineOffers

theorem nextWordOfLines_offers (lines : List (Option String)) :
    (nextWordOfLines lines).1 = (lines.flatMap lineOffers).headD (.error .endOfInput) ∧
      (nextWordOfLines lines).2.offers = (lines.flatMap lineOffers).tail := by
  induction lines with
  | nil => exact ⟨rfl, rfl⟩
  | cons line lines ih =>
    cases line with
    | none => exact ⟨rfl, rfl⟩
    | some line =>
      rw [nextWordOfLines, List.flatMap_cons, lineOffers]
      cases Text.words line with
      | nil => exact ih
      | cons word words => exact ⟨rfl, rfl⟩

/-- A read finds the first of what is offered, and leaves the rest. -/
theorem nextWord_offers (input : Input) :
    input.nextWord.1 = input.offers.headD (.error .endOfInput) ∧
      input.nextWord.2.offers = input.offers.tail := by
  obtain ⟨pending, lines⟩ := input
  cases pending with
  | nil => exact nextWordOfLines_offers lines
  | cons word words => exact ⟨rfl, rfl⟩

theorem kind_of_nextWordOfLines {lines : List (Option String)} {cause : Cause}
    (h : (nextWordOfLines lines).1 = .error cause) : cause.kind = .ioError := by
  induction lines with
  | nil =>
    cases h
    rfl
  | cons line lines ih =>
    cases line with
    | none =>
      cases h
      rfl
    | some line =>
      rw [nextWordOfLines] at h
      cases hwords : Text.words line with
      | nil =>
        rw [hwords] at h
        exact ih h
      | cons word words =>
        rw [hwords] at h
        cases h

theorem kind_of_nextWord {input : Input} {cause : Cause} (h : input.nextWord.1 = .error cause) :
    cause.kind = .ioError := by
  obtain ⟨pending, lines⟩ := input
  cases pending with
  | nil => exact kind_of_nextWordOfLines h
  | cons word words => cases h

theorem linesOfBytes_utf8 (cs : List Char) :
    linesOfBytes (Text.utf8 cs) =
      (Text.cutAfter (· == '\n') cs).map fun line => some (String.ofList line) := by
  have hline (line : List Char) :
      String.fromUTF8? ⟨(Text.utf8 line).toArray⟩ = some (String.ofList line) := by
    rw [Text.fromUTF8?_eq_some_iff, String.toList_ofList]
  simp only [linesOfBytes, Text.cutAfter_utf8, List.map_map, Function.comp_def, hline]

/-- What the bytes of a text offer are the words of the text. -/
theorem offers_utf8 (cs : List Char) :
    (linesOfBytes (Text.utf8 cs)).flatMap lineOffers =
      (Text.words (String.ofList cs)).map .ok := by
  rw [linesOfBytes_utf8, ← Text.flatMap_words_lines, List.flatMap_map, List.map_flatMap]
  rfl

theorem exists_utf8_of_pieces (pieces : List (List UInt8))
    (h : ∀ piece ∈ pieces, String.fromUTF8? ⟨piece.toArray⟩ ≠ none) :
    ∃ cs, pieces.flatten = Text.utf8 cs := by
  induction pieces with
  | nil => exact ⟨[], rfl⟩
  | cons piece pieces ih =>
    obtain ⟨text, htext⟩ := Option.ne_none_iff_exists'.1 (h piece List.mem_cons_self)
    obtain ⟨cs, hcs⟩ := ih fun other hother => h other (List.mem_cons_of_mem _ hother)
    refine ⟨text.toList ++ cs, ?_⟩
    rw [List.flatten_cons, hcs, Text.fromUTF8?_eq_some_iff.1 htext, Text.utf8, Text.utf8, Text.utf8,
      List.flatMap_append]

/-- Bytes offer the words of the text that they encode, and a fault where they encode none. -/
theorem offers_of_bytes (bytes : List UInt8) :
    match String.fromUTF8? ⟨bytes.toArray⟩ with
    | some text => (linesOfBytes bytes).flatMap lineOffers = (Text.words text).map .ok
    | none => .error .notUtf8 ∈ (linesOfBytes bytes).flatMap lineOffers := by
  cases htext : String.fromUTF8? ⟨bytes.toArray⟩ with
  | some text =>
    rw [Text.fromUTF8?_eq_some_iff.1 htext]
    exact (offers_utf8 text.toList).trans (by rw [String.ofList_toList])
  | none =>
    have hline : none ∈ linesOfBytes bytes := by
      refine Decidable.byContradiction fun hall => ?_
      obtain ⟨cs, hcs⟩ := exists_utf8_of_pieces (Text.cutAfter (· == 10) bytes)
        fun piece hpiece hnone => hall (List.mem_map.2 ⟨piece, hpiece, hnone⟩)
      rw [Text.flatten_cutAfter] at hcs
      have hsome : String.fromUTF8? ⟨bytes.toArray⟩ = some (String.ofList cs) := by
        rw [Text.fromUTF8?_eq_some_iff, String.toList_ofList, hcs]
      rw [htext] at hsome
      cases hsome
    exact List.mem_flatMap.2 ⟨none, hline, List.mem_singleton.2 rfl⟩

end Input

/-! ### Reads -/

/-- The target of a step that reads. -/
def Step.reads? : Step → Option Identifier
  | .simple (.read target) _ => some target
  | _ => none

theorem Step.eq_read_of_reads? {step : Step} {target : Identifier}
    (h : step.reads? = some target) : ∃ hloop, step = .simple (.read target) hloop := by
  cases step with
  | bound | count => cases h
  | simple statement hloop =>
    cases statement with
    | read =>
      cases h
      exact ⟨hloop, rfl⟩
    | _ => cases h

/-- The target and the machine of a moment at which a `read` runs. -/
def Moment.read? (moment : Moment) : Option (Identifier × Machine) :=
  moment.step.reads?.map fun target => (target, moment.machine)

/-- A `read` takes what it finds from the input, which leaves `input`: a word goes to the target,
and a fault of input or output ends the statement. -/
structure ReadTakes (target : Identifier) (m : Machine) (found : Except Cause String)
    (input : Input) : Prop where
  exec : (Statement.read target).exec m =
    match found with
    | .ok word => Run.store target (.string word) { m with input }
    | .error cause => .error (.of cause target.position) { m with input }
  kind : ∀ cause, found = .error cause → cause.kind = .ioError
  /-- Whether or not the word can be stored, no more is taken. -/
  after : ((Statement.read target).exec.after m).input = input

theorem exec_read (target : Identifier) (m : Machine) :
    (Statement.read target).exec m =
      match m.input.nextWord.1 with
      | .ok word => Run.store target (.string word) { m with input := m.input.nextWord.2 }
      | .error cause =>
        .error (.of cause target.position) { m with input := m.input.nextWord.2 } := by
  rw [Statement.exec]
  have hrun := Run.nextWord_eq target.position m
  cases hword : m.input.nextWord.1 with
  | ok word =>
    rw [hword] at hrun
    exact Run.bind_eq_of_ok hrun
  | error cause =>
    rw [hword] at hrun
    exact Run.bind_eq_of_error hrun

theorem readTakes_nextWord (target : Identifier) (m : Machine) :
    ReadTakes target m m.input.nextWord.1 m.input.nextWord.2 := by
  refine ⟨exec_read target m, fun _ => Input.kind_of_nextWord, ?_⟩
  rw [Run.after, exec_read]
  cases m.input.nextWord.1 with
  | error cause => rfl
  | ok word =>
    exact Run.preserves_store (fun _ _ => rfl) target (.string word)
      { m with input := m.input.nextWord.2 }

/-- Only reads touch the input. -/
theorem Step.preserves_input {step : Step} (h : step.reads? = none) :
    step.run.Preserves Machine.input := by
  cases step with
  | bound counter e => exact (Run.preserves_bound counter e).bind fun _ => Run.preserves_pure ()
  | count counter value => exact Run.preserves_store (fun _ _ => rfl) counter _
  | simple statement hloop =>
    rw [run]
    cases statement with
    | loop => cases hloop
    | read => cases h
    | declaration name position ty initializer =>
      rw [Run.exec_declaration]
      exact (Run.preserves_initialValue position ty initializer).bind fun value =>
        Run.preserves_declare (fun _ _ => rfl) name value
    | assignment target value =>
      rw [Statement.exec]
      exact (Run.preserves_eval value).bind (Run.preserves_store (fun _ _ => rfl) target)
    | print value position =>
      rw [Statement.exec]
      exact (Run.preserves_eval value).bind fun v =>
        Run.preserves_write (fun _ _ => rfl) v.text position
    | assert condition position =>
      rw [Statement.exec]
      refine Run.preserves_get.bind fun m' => (Run.preserves_lift _).bind fun holds => ?_
      exact Run.preserves_write (fun _ _ => rfl) (assertionReport holds) position

/-! ### Runs -/

/-- The reads, with the machines they run on, take from the input one after another and leave
`after`. -/
inductive Input.Serves : Input → List (Identifier × Machine) → Input → Prop
  | nil {input : Input} : Serves input [] input
  | cons {target : Identifier} {m : Machine} {reads : List (Identifier × Machine)} {after : Input}
    (h : Serves m.input.nextWord.2 reads after) : Serves m.input ((target, m) :: reads) after

namespace Input.Serves

variable {input after last : Input} {reads more : List (Identifier × Machine)}

theorem append (h : input.Serves reads after) (hmore : after.Serves more last) :
    input.Serves (reads ++ more) last := by
  induction h with
  | nil => exact hmore
  | cons _ ih => exact .cons (ih hmore)

theorem offers_after (h : input.Serves reads after) :
    after.offers = input.offers.drop reads.length := by
  induction h with
  | nil => rfl
  | cons _ ih => rw [ih, (nextWord_offers _).2, List.drop_tail, List.length_cons]

theorem offers_of_getElem? (h : input.Serves reads after) {k : Nat} {target : Identifier}
    {m : Machine} (hread : reads[k]? = some (target, m)) :
    m.input.offers = input.offers.drop k := by
  induction h generalizing k with
  | nil => cases hread
  | cons _ ih =>
    cases k with
    | zero =>
      cases hread
      rfl
    | succ k => rw [ih hread, (nextWord_offers _).2, List.drop_tail]

end Input.Serves

/-- The reads of a run take from its input one after another. -/
theorem Logged.Built.serves {α : Type} {allowed : Step → Prop} {x : Logged α}
    (h : x.Built allowed) (m : Machine) :
    m.input.Serves ((x.moments m).filterMap Moment.read?) (x.run.after m).input := by
  induction h generalizing m with
  | pure a => exact .nil
  | @perform α step x hallowed hrun =>
    have hafter : ((Logged.perform step x).run.after m).input = (step.run.after m).input := by
      rw [← hrun, Run.after_discard]
      rfl
    rw [hafter]
    show m.input.Serves ([⟨step, m⟩].filterMap Moment.read?) _
    cases hreads : step.reads? with
    | none =>
      rw [List.filterMap_cons_none (by rw [Moment.read?, hreads, Option.map_none]),
        List.filterMap_nil, Step.preserves_input hreads m]
      exact .nil
    | some target =>
      obtain ⟨hloop, rfl⟩ := Step.eq_read_of_reads? hreads
      have hinput : ((Statement.read target).exec.after m).input = m.input.nextWord.2 :=
        (readTakes_nextWord target m).after
      show m.input.Serves [(target, m)] ((Statement.read target).exec.after m).input
      rw [hinput]
      exact .cons .nil
  | @bind α β x f hx hf ihx ihf =>
    have hserves := ihx m
    rcases bind_cases x f m with ⟨a, m', hfirst, hrun, hlog⟩ | ⟨fault, m', hfirst, hrun, hlog⟩
    · rw [Run.after_eq_of_ok hfirst] at hserves
      rw [hlog, Run.after_congr hrun, List.filterMap_append]
      exact hserves.append (ihf a m')
    · rw [hlog, Run.after_eq_of_error hrun]
      rwa [Run.after_eq_of_error hfirst] at hserves

/-! ### Sessions -/

namespace Session

/-- The moments of programs that run one after another, each on the machine that the one before it
leaves behind, however that one ends. -/
def moments : List Program → Machine → List Moment
  | [], _ => []
  | program :: programs, m => program.moments m ++ moments programs (program.exec.after m)

/-- The machine that programs leave behind which run one after another. -/
def after : List Program → Machine → Machine
  | [], m => m
  | program :: programs, m => after programs (program.exec.after m)

/-- The reads among the moments of programs. -/
def reads (programs : List Program) (m : Machine) : List (Identifier × Machine) :=
  (moments programs m).filterMap Moment.read?

theorem serves (programs : List Program) (m : Machine) :
    m.input.Serves (reads programs m) (after programs m).input := by
  induction programs generalizing m with
  | nil => exact .nil
  | cons program programs ih =>
    have hbuilt : (Block.log program.statements).Built fun _ => True :=
      Block.log_built _ fun _ _ _ _ => trivial
    have hfirst := hbuilt.serves m
    rw [Block.run_log] at hfirst
    rw [reads, moments, List.filterMap_append]
    exact hfirst.append (ih _)

/-- Programs that run one after another on the bytes of an input take what it offers, in order and
each item once: its words line by line, and one fault for a line that is not UTF-8.  Behind the end
every read fails.  What is not taken stays, and where the bytes are those of a text, the words are
those of the text. -/
theorem reads_take_offers (bytes : List UInt8) (programs : List Program) (m : Machine) :
    let start : Machine := { m with input := .ofBytes bytes }
    let offers := (Input.linesOfBytes bytes).flatMap Input.lineOffers
    (∀ k target machine, (reads programs start)[k]? = some (target, machine) →
      ∃ input, input.offers = offers.drop (k + 1) ∧
        ReadTakes target machine (offers.getD k (.error .endOfInput)) input) ∧
      (after programs start).input.offers = offers.drop (reads programs start).length ∧
      match String.fromUTF8? ⟨bytes.toArray⟩ with
      | some text => offers = (Text.words text).map .ok
      | none => .error .notUtf8 ∈ offers := by
  intro start offers
  have hserves := serves programs start
  refine ⟨fun k target machine hread => ?_, hserves.offers_after, Input.offers_of_bytes bytes⟩
  have hoffers : machine.input.offers = offers.drop k := hserves.offers_of_getElem? hread
  obtain ⟨hfirst, hrest⟩ := machine.input.nextWord_offers
  refine ⟨machine.input.nextWord.2, ?_, ?_⟩
  · rw [hrest, hoffers, List.tail_drop]
  · have hfound : machine.input.nextWord.1 = offers.getD k (.error .endOfInput) := by
      rw [hfirst, hoffers, List.headD_eq_head?_getD, List.head?_drop, List.getD_eq_getElem?_getD]
    rw [← hfound]
    exact readTakes_nextWord target machine

/-- The input `7 x`, then a line with the byte 255, then `true`: the word `x`, which is no integer,
is gone when the first program fails. -/
theorem reads_take_offers_behind_faults :
    let i : Identifier := ⟨"i", some .int, .start⟩
    let b : Identifier := ⟨"b", some .bool, .start⟩
    let programs : List Program :=
      [⟨[.read i, .read i, .read b]⟩, ⟨[.read b]⟩, ⟨[.read b, .read b]⟩]
    let bytes : List UInt8 := [55, 32, 120, 10, 255, 10, 116, 114, 117, 101]
    let store := (Store.empty.declare "i" (.int 0)).declare "b" (.bool false)
    let start : Machine := ⟨store, .ofBytes bytes, {}⟩
    (reads programs start).length = 5 ∧
      ∃ machine, (reads programs start)[1]? = some (i, machine) ∧
        ∃ input, input.offers = [.error .notUtf8, .ok "true"] ∧
          ReadTakes i machine (.ok "x") input := by
  intro i b programs bytes store start
  have hlines : Input.linesOfBytes bytes = [some "7 x\n", none, some "true"] := by decide +kernel
  have hoffers : (Input.linesOfBytes bytes).flatMap Input.lineOffers =
      [.ok "7", .ok "x", .error .notUtf8, .ok "true"] := by
    rw [hlines]
    rfl
  have hsecond : ((reads programs start)[1]?).map Prod.fst = some i := by decide +kernel
  obtain ⟨⟨target, machine⟩, hread, htarget⟩ := Option.map_eq_some_iff.1 hsecond
  have htakes := (reads_take_offers bytes programs start).1 1 target machine hread
  rw [hoffers] at htakes
  rw [show target = i from htarget] at hread htakes
  exact ⟨by decide +kernel, machine, hread, htakes⟩

end Session

end MiniPL
