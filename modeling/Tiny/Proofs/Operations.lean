import Tiny.Proofs.Loading

/-!
# Whatever an emitter is asked to do

An emitter need not be driven by a program.  Any sequence of operations on it writes lines, also if
some operations fail in between, and the reader of listings gives back what these lines place.

* `Operation`: what an emitter can be asked to do, and `entries`, the lines that it then writes.
* `written_run`: what is written in the end are the lines of all operations.
* `lines_join_display`, `readLines_letters`: instructions that are shown without an emitter are read
  back as well.
* `read_inverts`: both ways of writing instructions are undone by reading.
-/

namespace Tiny

/-- What an emitter can be asked to do. -/
inductive Operation where
  | comment (text : String)
  | registers (op : Opcode) (r s t : Nat) (note : String)
  | indexed (op : Opcode) (r : Nat) (offset : Int32) (base : Nat) (note : String)
  | branch (op : Opcode) (r target : Nat) (note : String)
  | reserve (count : Nat)
  | patch (location : Nat)
  | restore

namespace Operation

/-- The work of an operation. -/
def perform : Operation → Emit Unit
  | .comment text => Emitter.comment text
  | .registers op r s t note => Emitter.placeRegisters op r s t note
  | .indexed op r offset base note => Emitter.placeIndexed op r offset base note
  | .branch op r target note => Emitter.placeBranch op r target note
  | .reserve count => do
    let _ ← Emitter.reserve count
  | .patch location => Emitter.patch location
  | .restore => Emitter.restore

/-- The emitter after an operation, whether that failed or not. -/
def after (operation : Operation) (emitter : Emitter) : Emitter :=
  match operation.perform emitter with
  | .ok _ after => after
  | .error _ after => after

/-- The emitter after some operations.  One that fails does not stop the others. -/
def run : List Operation → Emitter → Emitter
  | [], emitter => emitter
  | operation :: rest, emitter => run rest (operation.after emitter)

/-- The opcode takes operands of the form that is written, registers are machine words, and what is
commented stays on one line. -/
def Proper : Operation → Prop
  | .comment text => '\n' ∉ text.toList
  | .registers op r s t note =>
    op.opClass = .registerOnly ∧ r < 2147483648 ∧ s < 2147483648 ∧ t < 2147483648 ∧
      '\n' ∉ note.toList
  | .indexed op r _ base note =>
    op.opClass ≠ .registerOnly ∧ r < 2147483648 ∧ base < 2147483648 ∧ '\n' ∉ note.toList
  | .branch op r _ note => op.opClass ≠ .registerOnly ∧ r < 2147483648 ∧ '\n' ∉ note.toList
  | .reserve _ => True
  | .patch _ => True
  | .restore => True

instance : DecidablePred Proper
  | .comment text => inferInstanceAs (Decidable ('\n' ∉ text.toList))
  | .registers op r s t note => inferInstanceAs (Decidable (op.opClass = .registerOnly ∧
      r < 2147483648 ∧ s < 2147483648 ∧ t < 2147483648 ∧ '\n' ∉ note.toList))
  | .indexed op r _ base note => inferInstanceAs (Decidable (op.opClass ≠ .registerOnly ∧
      r < 2147483648 ∧ base < 2147483648 ∧ '\n' ∉ note.toList))
  | .branch op r _ note => inferInstanceAs (Decidable (op.opClass ≠ .registerOnly ∧
      r < 2147483648 ∧ '\n' ∉ note.toList))
  | .reserve _ => inferInstanceAs (Decidable True)
  | .patch _ => inferInstanceAs (Decidable True)
  | .restore => inferInstanceAs (Decidable True)

/-- The lines that an operation at a location asks for.  A branch that would be too long is not
written. -/
def entries (location : Nat) : Operation → List Entry
  | .comment text => [.comment text]
  | .registers op r s t note => [.placed location (Assembly.between op r s t) note]
  | .indexed op r offset base note => [.placed location (Assembly.indexed op r offset base) note]
  | .branch op r target note =>
    let distance := Emitter.branchOffset location target
    if -2147483648 ≤ distance ∧ distance ≤ 2147483647 then
      [.placed location (Assembly.branch op r distance) note]
    else []
  | .reserve _ => []
  | .patch _ => []
  | .restore => []

/-- The lines that some operations ask for, each at the location where the emitter then stands. -/
def transcript : List Operation → Emitter → List Entry
  | [], _ => []
  | operation :: rest, emitter =>
    operation.entries emitter.location ++ transcript rest (operation.after emitter)

end Operation

/-! ### What is written -/

namespace Emitter

/-- `after` has written the lines since `emitter`, and used the locations in them. -/
structure Written (emitter : Emitter) (lines : List Entry) (after : Emitter) : Prop where
  sink : after.sink = emitter.sink.add (Entry.texts emitter.traceCode lines)
  traceCode : after.traceCode = emitter.traceCode
  mark : emitter.highWater ≤ after.highWater
  below : ∀ placed ∈ Entry.placements lines, placed.1 < after.highWater

theorem Written.append {emitter middle after : Emitter} {a b : List Entry}
    (h : Written emitter a middle) (h' : Written middle b after) :
    Written emitter (a ++ b) after where
  sink := by rw [h'.sink, h.sink, Sink.add_add, Entry.texts_append, h.traceCode]
  traceCode := h'.traceCode.trans h.traceCode
  mark := Nat.le_trans h.mark h'.mark
  below := by
    intro placed hIn
    rw [Entry.placements_append] at hIn
    rcases List.mem_append.mp hIn with hIn | hIn
    · exact Nat.lt_of_lt_of_le (h.below placed hIn) h'.mark
    · exact h'.below placed hIn

theorem written_nothing {emitter after : Emitter} (hSink : after.sink = emitter.sink)
    (hTrace : after.traceCode = emitter.traceCode) (hMark : emitter.highWater ≤ after.highWater) :
    Written emitter [] after where
  sink := by rw [hSink, Entry.texts, Sink.add_empty]
  traceCode := hTrace
  mark := hMark
  below := fun _ hIn => absurd hIn List.not_mem_nil

theorem written_fill (emitter : Emitter) (i : Instruction) (note : String) :
    Written emitter [.placed emitter.location i note]
      (fill (emitter.record [.placed emitter.location i note])) where
  sink := rfl
  traceCode := rfl
  mark := Nat.le_max_left _ _
  below := by
    intro placed hIn
    obtain rfl := List.mem_singleton.mp hIn
    exact Nat.le_max_right _ _

end Emitter

namespace Operation

open Emitter Code

variable {emitter : Emitter}

theorem after_of_ok (operation : Operation) {next : Emitter}
    (h : operation.perform emitter = .ok () next) : operation.after emitter = next := by
  rw [after, h]

theorem after_of_error (operation : Operation) {fault : Fault} {next : Emitter}
    (h : operation.perform emitter = .error fault next) : operation.after emitter = next := by
  rw [after, h]

theorem placeIndexed_of_unlimited (unlimited : emitter.sink.limit = none) {op : Opcode} {r base : Nat}
    (form : op.opClass ≠ .registerOnly) (hr : r < 2147483648) (hb : base < 2147483648)
    (offset : Int32) (note : String) :
    placeIndexed op r offset base note emitter = .ok () (fill (emitter.record
      [.placed emitter.location (Assembly.indexed op r offset base) note])) := by
  rw [placeIndexed, ← operands_indexed (bne_iff_ne.mpr form) hr hb]
  exact place_run unlimited (Assembly.indexed op r offset base) note

theorem placeBranch_tooFar {target : Nat}
    (h : ¬ (-2147483648 ≤ branchOffset emitter.location target ∧
      branchOffset emitter.location target ≤ 2147483647)) (op : Opcode) (r : Nat) (note : String) :
    placeBranch op r target note emitter = .error (.backpatch (.branchRange target)) emitter := by
  rw [placeBranch, get_bind, if_neg h]
  rfl

theorem patch_ok {location : Nat}
    (h : location ≤ emitter.highWater ∧ location ∈ emitter.reserved) :
    Emitter.patch location emitter = .ok () { emitter with location } := by
  rw [Emitter.patch, get_bind, if_pos h]
  rfl

theorem patch_refused {location : Nat}
    (h : ¬ (location ≤ emitter.highWater ∧ location ∈ emitter.reserved)) :
    Emitter.patch location emitter = .error (.backpatch (.notReserved location)) emitter := by
  rw [Emitter.patch, get_bind, if_neg h]
  rfl

/-- **An operation writes the lines that it asks for.** -/
theorem written_after (unlimited : emitter.sink.limit = none) {operation : Operation}
    (proper : operation.Proper) :
    Written emitter (operation.entries emitter.location) (operation.after emitter) := by
  cases operation with
  | comment text =>
    rw [after_of_ok (.comment text) (comment_run unlimited text)]
    exact ⟨rfl, rfl, Nat.le_refl _, fun _ hIn => absurd hIn List.not_mem_nil⟩
  | registers op r s t note =>
    obtain ⟨form, hr, hs, ht, -⟩ := proper
    have hPlace : placeRegisters op r s t note emitter = .ok () (fill (emitter.record
        [.placed emitter.location (Assembly.between op r s t) note])) := by
      rw [placeRegisters, ← operands_between (bne_eq_false_iff_eq.mpr form) hr hs ht]
      exact place_run unlimited (Assembly.between op r s t) note
    rw [after_of_ok (.registers op r s t note) hPlace]
    exact written_fill emitter _ note
  | indexed op r offset base note =>
    obtain ⟨form, hr, hb, -⟩ := proper
    rw [after_of_ok (.indexed op r offset base note)
      (placeIndexed_of_unlimited unlimited form hr hb offset note)]
    exact written_fill emitter _ note
  | branch op r target note =>
    obtain ⟨form, hr, -⟩ := proper
    by_cases hRange : -2147483648 ≤ branchOffset emitter.location target ∧
        branchOffset emitter.location target ≤ 2147483647
    · have hPlace : placeBranch op r target note emitter = .ok () (fill (emitter.record
          [.placed emitter.location
            (Assembly.branch op r (branchOffset emitter.location target)) note])) := by
        rw [placeBranch, get_bind, if_pos hRange]
        exact placeIndexed_of_unlimited unlimited form hr (by decide) _ note
      rw [after_of_ok (.branch op r target note) hPlace, entries, if_pos hRange]
      exact written_fill emitter _ note
    · rw [after_of_error (.branch op r target note) (placeBranch_tooFar hRange op r note), entries,
        if_neg hRange]
      exact written_nothing rfl rfl (Nat.le_refl _)
  | reserve count => exact written_nothing rfl rfl (Nat.le_max_left _ _)
  | patch location =>
    by_cases hReserved : location ≤ emitter.highWater ∧ location ∈ emitter.reserved
    · rw [after_of_ok (.patch location) (patch_ok hReserved)]
      exact written_nothing rfl rfl (Nat.le_refl _)
    · rw [after_of_error (.patch location) (patch_refused hReserved)]
      exact written_nothing rfl rfl (Nat.le_refl _)
  | restore => exact written_nothing rfl rfl (Nat.le_refl _)

/-- **Operations write the lines that they ask for**, one after the other. -/
theorem written_run {operations : List Operation} (unlimited : emitter.sink.limit = none)
    (proper : ∀ operation ∈ operations, operation.Proper) :
    Written emitter (transcript operations emitter) (run operations emitter) := by
  induction operations generalizing emitter with
  | nil => exact written_nothing rfl rfl (Nat.le_refl _)
  | cons operation rest ih =>
    obtain ⟨hFirst, hRest⟩ := List.forall_mem_cons.mp proper
    have first := written_after unlimited hFirst
    have unlimited' : (operation.after emitter).sink.limit = none := by
      rw [first.sink]
      exact unlimited
    exact first.append (ih unlimited' hRest)

theorem oneLine_entries {operation : Operation} (proper : operation.Proper) (location : Nat) :
    ∀ entry ∈ operation.entries location, entry.OneLine := by
  intro entry hIn
  cases operation with
  | comment text =>
    obtain rfl := List.mem_singleton.mp hIn
    exact proper
  | registers op r s t note =>
    obtain rfl := List.mem_singleton.mp hIn
    exact proper.2.2.2.2
  | indexed op r offset base note =>
    obtain rfl := List.mem_singleton.mp hIn
    exact proper.2.2.2
  | branch op r target note =>
    rw [entries] at hIn
    split at hIn
    · obtain rfl := List.mem_singleton.mp hIn
      exact proper.2.2
    · exact absurd hIn List.not_mem_nil
  | reserve count => exact absurd hIn List.not_mem_nil
  | patch location => exact absurd hIn List.not_mem_nil
  | restore => exact absurd hIn List.not_mem_nil

theorem oneLine_transcript {operations : List Operation}
    (proper : ∀ operation ∈ operations, operation.Proper) (emitter : Emitter) :
    ∀ entry ∈ transcript operations emitter, entry.OneLine := by
  induction operations generalizing emitter with
  | nil => exact fun entry hIn => absurd hIn List.not_mem_nil
  | cons operation rest ih =>
    obtain ⟨hFirst, hRest⟩ := List.forall_mem_cons.mp proper
    exact List.forall_mem_append.mpr ⟨oneLine_entries hFirst _, ih hRest _⟩

end Operation

/-! ### Instructions that are shown -/

namespace Text

theorem endedLine_eq_reverse {line : List Char} (h : '\r' ∉ line) :
    endedLine line = line.reverse := by
  cases line with
  | nil => rfl
  | cons c rest =>
    rw [endedLine]
    rintro letters heq
    exact h (List.mem_cons.mpr (.inl (List.cons.inj heq).1.symm))

theorem linesFrom_of_unended {letters : List Char} (h : '\n' ∉ letters) (line : List Char) :
    linesFrom line letters =
      if line.reverse ++ letters = [] then [] else [line.reverse ++ letters] := by
  induction letters generalizing line with
  | nil => simp [linesFrom]
  | cons c letters ih =>
    have hc : c ≠ '\n' := fun heq => h (heq ▸ List.mem_cons_self)
    rw [linesFrom, if_neg hc, ih (fun hIn => h (List.mem_cons_of_mem c hIn)), List.reverse_cons,
      List.append_assoc, List.singleton_append]

end Text

namespace Listing

/-- An instruction behind its location. -/
def display (placed : Nat × Instruction) : String :=
  toString placed.1 ++ ":  " ++ placed.2.text

theorem toList_display (location : Nat) (i : Instruction) :
    (display (location, i)).toList = letters location i := by
  have hReplicate : ' ' :: ' ' :: List.replicate (5 - i.op.name.length) ' ' =
      List.replicate (2 + (5 - i.op.name.length)) ' ' := by
    rw [Nat.add_comm]
    rfl
  simp [display, Instruction.text, Text.alignRight, Text.spaces, instructionText, toList_operands,
    letters, ← hReplicate, Nat.toList_repr, List.replicate]

theorem lines_display (location : Nat) (i : Instruction) :
    Text.lines (display (location, i)) = [letters location i] := by
  have hNil : letters location i ≠ [] := by
    obtain ⟨c, digits, h, -⟩ := toDigits_cons location
    rw [letters, h]
    exact List.cons_ne_nil _ _
  rw [Text.lines, toList_display, Text.linesFrom_of_unended (lineFeed_not_mem_letters location i),
    List.reverse_nil, List.nil_append, if_neg hNil]

theorem lines_display_append (location : Nat) (i : Instruction) (more : String) :
    Text.lines (display (location, i) ++ "\n" ++ more) =
      letters location i :: Text.lines more := by
  have hReturn : '\r' ∉ (letters location i).reverse := by
    intro h
    exact absurd (le_toNat_of_mem_letters (List.mem_reverse.mp h)) (by decide)
  have hSplit : (display (location, i) ++ "\n" ++ more).toList =
      letters location i ++ '\n' :: more.toList := by
    simp [toList_display]
  rw [Text.lines, hSplit, Text.linesFrom_append (lineFeed_not_mem_letters location i),
    List.append_nil, Text.endedLine_eq_reverse hReturn, List.reverse_reverse]
  rfl

/-- The lines of instructions that are shown one after the other, each with a line feed. -/
theorem lines_join_display (placed : List (Nat × Instruction)) :
    Text.lines (String.join (placed.map fun p => display p ++ "\n")) =
      placed.map fun p => letters p.1 p.2 := by
  induction placed with
  | nil => rfl
  | cons first rest ih =>
    rw [List.map_cons, String.join_cons, lines_display_append, ih, List.map_cons]

/-- The lines of instructions with line feeds between them. -/
theorem lines_intercalate_display (placed : List (Nat × Instruction)) :
    Text.lines ("\n".intercalate (placed.map display)) =
      placed.map fun p => letters p.1 p.2 := by
  induction placed with
  | nil => rfl
  | cons first rest ih =>
    cases rest with
    | nil =>
      rw [List.map_singleton, String.intercalate_singleton, lines_display, List.map_singleton]
    | cons second rest =>
      rw [List.map_cons, List.map_cons, String.intercalate_cons_cons, lines_display_append,
        ← List.map_cons, ih]
      rfl

theorem readLines_letters {placed : List (Nat × Instruction)}
    (small : ∀ p ∈ placed, p.1 < 18446744073709551616) (lineno : Nat) :
    readLines lineno (placed.map fun p => letters p.1 p.2) = .ok placed := by
  induction placed generalizing lineno with
  | nil => rfl
  | cons first rest ih =>
    obtain ⟨location, i⟩ := first
    obtain ⟨hFirst, hRest⟩ := List.forall_mem_cons.mp small
    have hSkipped : isSkipped (letters location i) = false := by
      simpa using isSkipped_placed 0 location i []
    have hLine : readLine lineno (letters location i) = .ok (location, i) := by
      simpa using readLine_placed lineno 0 hFirst i (endsRun_nil Text.isDigit)
    rw [List.map_cons, readLines, hSkipped, if_neg (by decide), hLine]
    simp only [ih hRest, bind, Except.bind, pure, Except.pure]

/-! ### Reading undoes writing -/

/-- **Reading a listing undoes both ways of writing it.**  Whatever an emitter was asked to do, the
listing written so far is read as the instructions that were placed, in this order and at their
locations, as long as the locations have 64 bits.  So are instructions that are shown without an
emitter, which adds padding in front, a blank behind and a note. -/
theorem read_inverts (traceCode : Bool) {operations : List Operation}
    (proper : ∀ operation ∈ operations, operation.Proper)
    (bounded : (Operation.run operations { traceCode }).highWater < 18446744073709551616)
    {placed : List (Nat × Instruction)} (small : ∀ p ∈ placed, p.1 < 18446744073709551616) :
    let lines := Operation.transcript operations { traceCode }
    (Operation.run operations { traceCode }).sink.text = Entry.texts traceCode lines ∧
    read (Operation.run operations { traceCode }).sink.text = .ok (Entry.placements lines) ∧
    read (String.join (placed.map fun p => display p ++ "\n")) = .ok placed ∧
    read ("\n".intercalate (placed.map display)) = .ok placed ∧
    ∀ location i note, (Entry.placed location i note).text traceCode =
      Text.alignRight 3 (toString location) ++ ":  " ++ i.text ++ " " ++
        (if traceCode then "\t" ++ note else "") ++ "\n" := by
  intro lines
  have written := Operation.written_run (show ({ traceCode } : Emitter).sink.limit = none from rfl)
    proper
  have hText : (Operation.run operations { traceCode }).sink.text =
      Entry.texts traceCode lines := by
    rw [written.sink]
    exact Sink.text_add _
  have hRead : readLines 1 (Text.lines (Entry.texts traceCode lines)) =
      .ok (Entry.placements lines) :=
    readLines_texts (fun _ => Operation.oneLine_transcript proper _)
      (fun p hp => Nat.lt_trans (written.below p hp) bounded) 1
  refine ⟨hText, ?_, ?_, ?_, fun location i note => ?_⟩
  · rw [hText]
    exact hRead
  · rw [read, lines_join_display, readLines_letters small]
  · rw [read, lines_intercalate_display, readLines_letters small]
  · rw [Entry.text, ← Emitter.lineText_eq]
    cases traceCode with
    | false => rfl
    | true => rfl

/-- A slot is reserved, a branch backwards is written, and the slot is filled.  In between a branch
is refused because it would be too long, and a slot because it was not reserved. -/
def patchedSlot : List Operation :=
  [.reserve 1, .branch .jeq 0 0 "back: 1: OUT 0,0,0", .comment "2: IN 0,0,0",
   .branch .jlt 0 18446744071562067968 "too far", .patch 1, .patch 0,
   .registers .halt 2147483647 0 0 ""]

/-- The widest location, with the widest operands. -/
def widestLine : Nat × Instruction :=
  (18446744073709551615, ⟨.st, -2147483648, 2147483647, -1⟩)

/-- Only the branch and the instruction in the slot are read, whatever the comments look like. -/
theorem read_inverts_patchedSlot :
    read (Operation.run patchedSlot { traceCode := true }).sink.text =
      .ok [(1, ⟨.jeq, 0, -2, 7⟩), (0, ⟨.halt, 2147483647, 0, 0⟩)] ∧
    read ("\n".intercalate [display widestLine]) = .ok [widestLine] := by
  obtain ⟨-, hRead, -, hShown, -⟩ := @read_inverts true patchedSlot (by decide) (by decide)
    [widestLine] (by decide)
  have hPlaced : Entry.placements (Operation.transcript patchedSlot { traceCode := true }) =
      [(1, ⟨.jeq, 0, -2, 7⟩), (0, ⟨.halt, 2147483647, 0, 0⟩)] := by decide +kernel
  rw [hPlaced] at hRead
  exact ⟨hRead, hShown⟩

end Listing

end Tiny
