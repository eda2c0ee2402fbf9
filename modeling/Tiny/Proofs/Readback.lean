import Tiny.Proofs.Decomposition
import Tiny.Proofs.Emission

/-!
# Reading a listing back

An emitter pads its columns with blanks and may add a note behind an instruction, and it writes
comments only if asked to.  None of this matters to the reader of the listing.

* `form_letters`: the line of an instruction has the form of one.
* `readLine_placed`: the line of an instruction is read as that instruction.
* `readLines_texts`: lines that were written are read as the instructions on them, in their order.
* `count_texts`: there are as many lines to read as there are instructions.
-/

namespace Tiny

namespace Text

/-! ### Characters of numbers and names -/

theorem isDigit_of_ascii {c : Char} (h : c.isDigit = true) : isDigit c = true := by
  obtain ⟨low, high⟩ := Decimal.toNat_of_isDigit h
  refine List.any_eq_true.mpr ⟨0x30, List.mem_cons_self, ?_⟩
  simp only [Bool.and_eq_true, decide_eq_true_eq]
  omega

/-! ### Lines -/

/-- The end of a line takes nothing of it up to a letter that is no carriage return. -/
theorem endedLine_reverse (letters : List Char) {c : Char} (h : c ≠ '\r') (more : List Char) :
    ∃ rest, endedLine (letters ++ c :: more).reverse = letters ++ c :: rest := by
  cases hMore : more.reverse with
  | nil =>
    obtain rfl : more = [] := List.reverse_eq_nil_iff.mp hMore
    refine ⟨[], ?_⟩
    rw [List.reverse_append, List.reverse_cons, List.reverse_nil, List.nil_append,
      List.singleton_append, endedLine]
    · rw [List.reverse_cons, List.reverse_reverse]
    · rintro rest heq
      exact h (List.cons.inj heq).1
  | cons d rest =>
    have hSplit : (letters ++ c :: more).reverse = d :: (rest ++ c :: letters.reverse) := by
      rw [List.reverse_append, List.reverse_cons, hMore]
      simp
    by_cases hd : d = '\r'
    · subst hd
      refine ⟨rest.reverse, ?_⟩
      rw [hSplit, endedLine]
      simp
    · refine ⟨more, ?_⟩
      rw [hSplit, endedLine, ← hSplit, List.reverse_reverse]
      rintro _ heq
      exact hd (List.cons.inj heq).1

theorem linesFrom_append {letters : List Char} (h : '\n' ∉ letters) (line rest : List Char) :
    linesFrom line (letters ++ '\n' :: rest) =
      endedLine (letters.reverse ++ line) :: linesFrom [] rest := by
  induction letters generalizing line with
  | nil => rw [List.nil_append, linesFrom, if_pos rfl, List.reverse_nil, List.nil_append]
  | cons c letters ih =>
    have hc : c ≠ '\n' := fun heq => h (heq ▸ List.mem_cons_self)
    rw [List.cons_append, linesFrom, if_neg hc, ih (fun hIn => h (List.mem_cons_of_mem c hIn)),
      List.reverse_cons, List.append_assoc, List.singleton_append]

end Text

namespace Listing

/-! ### The form of a written line -/

theorem blanks_nil : Blanks [] := nofun

theorem blanks_replicate (n : Nat) : Blanks (List.replicate n ' ') := by
  intro c hc
  rw [(List.mem_replicate.mp hc).2]
  decide

theorem digits_toDigits (n : Nat) : Digits (Nat.toDigits 10 n) :=
  ⟨Nat.toDigits_ne_nil, fun _ hc => Text.isDigit_of_ascii (Decimal.isDigit_of_mem_toDigits hc)⟩

theorem integer_intDigits (i : Int) : Integer (Decimal.intDigits i) := by
  cases i with
  | ofNat n => exact .inl (digits_toDigits n)
  | negSucc n => exact .inr ⟨_, rfl, digits_toDigits (n + 1)⟩

theorem letters_name (op : Opcode) : Letters op.name.toList := by
  have hNil : op.name.toList ≠ [] := by cases op <;> decide
  have hAll : op.name.toList.all isLetter = true := by cases op <;> decide
  exact ⟨hNil, List.all_eq_true.mp hAll⟩

/-- The last operand of an instruction as it is written. -/
def lastLetters (indexed : Bool) (t : Int) : List Char :=
  if indexed then '(' :: (Decimal.intDigits t ++ [')']) else ',' :: Decimal.intDigits t

theorem ending_lastLetters (indexed : Bool) (t : Int) {rest : List Char}
    (ends : EndsRun Text.isDigit rest) :
    Ending (Decimal.intDigits t) indexed (lastLetters indexed t ++ rest) := by
  cases indexed with
  | false => exact .registers blanks_nil (integer_intDigits t) ends
  | true =>
    rw [lastLetters, if_pos rfl, List.cons_append, List.append_assoc]
    exact .indexed blanks_nil (integer_intDigits t) blanks_nil

/-! ### The line of an instruction -/

/-- An instruction at a location as it is written, without what stands in front of the location and
behind the operands. -/
def letters (location : Nat) (i : Instruction) : List Char :=
  Nat.toDigits 10 location ++ ':' :: (List.replicate (2 + (5 - i.op.name.length)) ' ' ++
    (i.op.name.toList ++ (List.replicate 2 ' ' ++ (Decimal.intDigits i.r.toInt ++
      ',' :: (Decimal.intDigits i.s.toInt ++ lastLetters i.op.isIndexed i.t.toInt)))))

theorem toList_operands (i : Instruction) :
    i.operands.text.toList = Decimal.intDigits i.r.toInt ++
      ',' :: (Decimal.intDigits i.s.toInt ++ lastLetters i.op.isIndexed i.t.toInt) := by
  cases h : i.op.isIndexed with
  | false =>
    simp [Instruction.operands, h, Operands.text, Decimal.toList_repr_int, lastLetters]
  | true =>
    simp [Instruction.operands, h, Operands.text, Decimal.toList_repr_int, lastLetters]

theorem toList_line (traceCode : Bool) (location : Nat) (i : Instruction) (note : String) :
    (Entry.line traceCode location i.op i.operands note).toList =
      List.replicate (3 - (toString location).length) ' ' ++ (letters location i ++
        ' ' :: ((if traceCode then '\t' :: note.toList else []) ++ ['\n'])) := by
  have hReplicate : ' ' :: ' ' :: List.replicate (5 - i.op.name.length) ' ' =
      List.replicate (2 + (5 - i.op.name.length)) ' ' := by
    rw [Nat.add_comm]
    rfl
  rw [← Emitter.lineText_eq]
  cases traceCode with
  | false =>
    simp [Emitter.lineText, Text.alignRight, Text.spaces, instructionText, toList_operands,
      letters, ← hReplicate, Nat.toList_repr, List.replicate]
  | true =>
    simp [Emitter.lineText, Text.alignRight, Text.spaces, instructionText, toList_operands,
      letters, ← hReplicate, Nat.toList_repr, List.replicate]

theorem opcode?_name (op : Opcode) : opcode? op.name.toList = some op := by
  cases op <;> decide

theorem toDigits_cons (n : Nat) :
    ∃ c rest, Nat.toDigits 10 n = c :: rest ∧ c.isDigit = true := by
  cases h : Nat.toDigits 10 n with
  | nil => exact absurd h Nat.toDigits_ne_nil
  | cons c rest =>
    exact ⟨c, rest, rfl, Decimal.isDigit_of_mem_toDigits (n := n) (h ▸ List.mem_cons_self)⟩

/-- The line of an instruction has the form of one, whatever stands behind it. -/
theorem form_letters (n location : Nat) (i : Instruction) {rest : List Char}
    (ends : EndsRun Text.isDigit rest) :
    Form (List.replicate n ' ' ++ (letters location i ++ rest))
      ⟨Nat.toDigits 10 location, i.op.name.toList, Decimal.intDigits i.r.toInt,
        Decimal.intDigits i.s.toInt, Decimal.intDigits i.t.toInt, i.op.isIndexed⟩ := by
  have hGap : List.replicate 2 ' ' ≠ [] := by decide
  have hForm := @Form.mk (List.replicate n ' ') (Nat.toDigits 10 location)
    (List.replicate (2 + (5 - i.op.name.length)) ' ') i.op.name.toList (List.replicate 2 ' ')
    (Decimal.intDigits i.r.toInt) [] [] (Decimal.intDigits i.s.toInt) []
    (Decimal.intDigits i.t.toInt) (lastLetters i.op.isIndexed i.t.toInt ++ rest) i.op.isIndexed
    (blanks_replicate n) (digits_toDigits location) (blanks_replicate _) (letters_name i.op)
    (blanks_replicate 2) hGap (integer_intDigits _) blanks_nil blanks_nil (integer_intDigits _)
    blanks_nil (ending_lastLetters _ _ ends)
  simpa only [letters, List.append_assoc, List.cons_append, List.nil_append] using hForm

theorem number_ok {α : Type} (value : α) : number (.ok value) = .ok value := rfl

/-- How the line of an instruction is read depends neither on its number nor on what stands behind
the instruction. -/
theorem readLine_letters (lineno n location : Nat) (i : Instruction) {rest : List Char}
    (ends : EndsRun Text.isDigit rest) :
    readLine lineno (List.replicate n ' ' ++ (letters location i ++ rest)) =
      (number (Decimal.readLocation (Nat.toDigits 10 location))).map (·, i) := by
  rw [readLine, parts?_of_form (form_letters n location i ends)]
  simp only [Parts.instruction, opcode?_name, Decimal.readWord_intDigits, number_ok, bind,
    Except.bind, if_pos, pure, Except.pure]
  rfl

/-- **The line of an instruction is read as that instruction.** -/
theorem readLine_placed (lineno n : Nat) {location : Nat} (h : location < 18446744073709551616)
    (i : Instruction) {rest : List Char} (ends : EndsRun Text.isDigit rest) :
    readLine lineno (List.replicate n ' ' ++ (letters location i ++ rest)) =
      .ok (location, i) := by
  rw [readLine_letters lineno n location i ends, Decimal.readLocation_toDigits h]
  rfl

theorem isSkipped_placed (n location : Nat) (i : Instruction) (rest : List Char) :
    isSkipped (List.replicate n ' ' ++ (letters location i ++ rest)) = false := by
  obtain ⟨c, digits, h, hc⟩ := toDigits_cons location
  have hEnds := (digits_toDigits location).endsBlank
  rw [letters, List.append_assoc, isSkipped,
    skipBlanks_eq_iff.mpr ⟨_, rfl, blanks_replicate n, hEnds _⟩, h]
  simp only [List.cons_append, beq_eq_false_iff_ne]
  rintro rfl
  exact absurd hc (by decide)

theorem isSkipped_star (rest : List Char) : isSkipped ('*' :: rest) = true := by
  rw [isSkipped, skipBlanks, dropWhile_of_endsRun (endsRun_cons (by decide) rest)]
  rfl

/-! ### Whole listings -/

/-- The number of instructions in a listing: of the lines that are not skipped. -/
def count (text : String) : Nat :=
  ((Text.lines text).filter fun line => !isSkipped line).length

theorem le_toNat_of_mem_toDigits {c : Char} {n : Nat} (h : c ∈ Nat.toDigits 10 n) :
    32 ≤ c.toNat := by
  have := Decimal.toNat_of_isDigit (Decimal.isDigit_of_mem_toDigits h)
  omega

theorem le_toNat_of_mem_intDigits {c : Char} {i : Int} (h : c ∈ Decimal.intDigits i) :
    32 ≤ c.toNat := by
  cases i with
  | ofNat n => exact le_toNat_of_mem_toDigits h
  | negSucc n =>
    rcases List.mem_cons.mp h with rfl | h
    · decide
    · exact le_toNat_of_mem_toDigits h

/-- There is no control character in the line of an instruction. -/
theorem le_toNat_of_mem_letters {c : Char} {location : Nat} {i : Instruction}
    (h : c ∈ letters location i) : 32 ≤ c.toNat := by
  have hName : i.op.name.toList.all (fun c => 32 ≤ c.toNat) = true := by cases i.op <;> decide
  have hLast : ∀ c ∈ lastLetters i.op.isIndexed i.t.toInt, 32 ≤ c.toNat := by
    intro c hc
    cases hForm : i.op.isIndexed with
    | false =>
      rw [hForm] at hc
      rcases List.mem_cons.mp hc with rfl | hc
      · decide
      · exact le_toNat_of_mem_intDigits hc
    | true =>
      rw [hForm] at hc
      rcases List.mem_cons.mp hc with rfl | hc
      · decide
      rcases List.mem_append.mp hc with hc | hc
      · exact le_toNat_of_mem_intDigits hc
      · rw [List.mem_singleton.mp hc]
        decide
  simp only [letters, List.mem_append, List.mem_cons, List.mem_replicate] at h
  rcases h with h | rfl | ⟨-, rfl⟩ | h | ⟨-, rfl⟩ | h | rfl | h | h
  · exact le_toNat_of_mem_toDigits h
  · decide
  · decide
  · exact decide_eq_true_eq.mp (List.all_eq_true.mp hName c h)
  · decide
  · exact le_toNat_of_mem_intDigits h
  · decide
  · exact le_toNat_of_mem_intDigits h
  · exact hLast c h

theorem lineFeed_not_mem_letters (location : Nat) (i : Instruction) : '\n' ∉ letters location i :=
  fun h => absurd (le_toNat_of_mem_letters h) (by decide)

/-- The lines of a text that starts with the line of an instruction. -/
theorem lines_placed (traceCode : Bool) (location : Nat) (i : Instruction) {note : String}
    (plain : traceCode = true → '\n' ∉ note.toList) (more : String) :
    ∃ n rest, Text.lines ((Entry.placed location i note).text traceCode ++ more) =
      (List.replicate n ' ' ++ (letters location i ++ ' ' :: rest)) :: Text.lines more := by
  have hNoted : '\n' ∉ if traceCode then '\t' :: note.toList else [] := by
    cases traceCode with
    | false => exact List.not_mem_nil
    | true => simpa using plain rfl
  rw [Text.lines, String.toList_append, Entry.text, toList_line]
  generalize (if traceCode then '\t' :: note.toList else []) = noted at hNoted ⊢
  have hLine : '\n' ∉ List.replicate (3 - (toString location).length) ' ' ++
      (letters location i ++ ' ' :: noted) := by
    simp [lineFeed_not_mem_letters, hNoted]
  obtain ⟨rest, hRest⟩ := Text.endedLine_reverse
    (List.replicate (3 - (toString location).length) ' ' ++ letters location i)
    (show ' ' ≠ '\r' by decide) noted
  rw [List.append_assoc, List.append_assoc] at hRest
  refine ⟨3 - (toString location).length, rest, ?_⟩
  have hSplit : List.replicate (3 - (toString location).length) ' ' ++
      (letters location i ++ ' ' :: (noted ++ ['\n'])) ++ more.toList =
      (List.replicate (3 - (toString location).length) ' ' ++
        (letters location i ++ ' ' :: noted)) ++ '\n' :: more.toList := by
    simp
  rw [hSplit, Text.linesFrom_append hLine, List.append_nil, hRest]
  rfl

/-- The lines of a text that starts with a comment. -/
theorem lines_comment {text : String} (plain : '\n' ∉ text.toList) (more : String) :
    ∃ rest, Text.lines ((Entry.comment text).text true ++ more) =
      ('*' :: rest) :: Text.lines more := by
  obtain ⟨rest, hRest⟩ := Text.endedLine_reverse ['*'] (show ' ' ≠ '\r' by decide) text.toList
  refine ⟨' ' :: rest, ?_⟩
  have hLine : '\n' ∉ '*' :: ' ' :: text.toList := by simpa using plain
  have hSplit : ((Entry.comment text).text true ++ more).toList =
      ('*' :: ' ' :: text.toList) ++ '\n' :: more.toList := by
    simp [Entry.text]
  rw [Text.lines, hSplit, Text.linesFrom_append hLine, List.append_nil]
  exact congrArg (· :: _) hRest

/-- **Lines that were written are read as the instructions on them**, in the order of the lines. -/
theorem readLines_texts {traceCode : Bool} {entries : List Entry}
    (plain : traceCode = true → ∀ entry ∈ entries, entry.OneLine)
    (small : ∀ placed ∈ Entry.placements entries, placed.1 < 18446744073709551616)
    (lineno : Nat) :
    readLines lineno (Text.lines (Entry.texts traceCode entries)) =
      .ok (Entry.placements entries) := by
  induction entries generalizing lineno with
  | nil => rfl
  | cons entry rest ih =>
    have hRest : traceCode = true → ∀ entry ∈ rest, entry.OneLine :=
      fun on entry hIn => plain on entry (List.mem_cons_of_mem _ hIn)
    rw [Entry.texts]
    cases entry with
    | comment text =>
      cases traceCode with
      | false =>
        rw [Entry.text, if_neg (by decide), String.empty_append]
        exact ih hRest small lineno
      | true =>
        obtain ⟨letters, h⟩ := lines_comment (plain rfl _ List.mem_cons_self)
          (Entry.texts true rest)
        rw [h, readLines, if_pos (isSkipped_star letters)]
        exact ih hRest small (lineno + 1)
    | placed location i note =>
      obtain ⟨n, letters, h⟩ := lines_placed traceCode location i
        (fun on => plain on _ List.mem_cons_self) (Entry.texts traceCode rest)
      have hLocation : location < 18446744073709551616 :=
        small (location, i) List.mem_cons_self
      have hOthers := ih hRest (fun p hp => small p (List.mem_cons_of_mem _ hp)) (lineno + 1)
      rw [h, readLines, isSkipped_placed, if_neg (by decide),
        readLine_placed _ _ hLocation i (endsRun_cons (by decide) letters)]
      simp only [hOthers, bind, Except.bind, pure, Except.pure, Entry.placements]

theorem count_texts {traceCode : Bool} {entries : List Entry}
    (plain : traceCode = true → ∀ entry ∈ entries, entry.OneLine) :
    count (Entry.texts traceCode entries) = (Entry.placements entries).length := by
  induction entries with
  | nil => rfl
  | cons entry rest ih =>
    have hRest := ih fun on entry hIn => plain on entry (List.mem_cons_of_mem _ hIn)
    rw [count] at hRest
    rw [count, Entry.texts]
    cases entry with
    | comment text =>
      cases traceCode with
      | false =>
        rw [Entry.text, if_neg (by decide), String.empty_append]
        exact hRest
      | true =>
        obtain ⟨letters, h⟩ := lines_comment (plain rfl _ List.mem_cons_self)
          (Entry.texts true rest)
        rw [h, List.filter_cons, isSkipped_star, if_neg (by decide)]
        exact hRest
    | placed location i note =>
      obtain ⟨n, letters, h⟩ := lines_placed traceCode location i
        (fun on => plain on _ List.mem_cons_self) (Entry.texts traceCode rest)
      rw [h, List.filter_cons, isSkipped_placed, if_pos (by decide), List.length_cons, hRest]
      rfl

end Listing

end Tiny
