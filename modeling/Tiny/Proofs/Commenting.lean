import Tiny.Proofs.Loading

/-!
# Comments in the code

Code is written with comments or without them, and the reader of a listing skips comments.  So they
change nothing, as long as a comment stays on its line.  All do, except that the name of a file
stands in a comment as it is: the lines of the name behind its first one are lines of the listing
like any other.

* `readLines_commented`: comments that stay on their lines change nothing.
* `lines_heading`: the lines of a commented program.
* `generate_commented`: the comments of a program change nothing if the lines of the file name
  behind its first one are skipped, and otherwise they do.
-/

namespace Tiny

/-! ### Lines of a text with line feeds -/

namespace Text

/-- The lines of a text behind its first one. -/
def laterLines (text : String) : List (List Char) :=
  (lines (text ++ "\n")).tail

theorem linesFrom_ended (letters line rest : List Char) :
    linesFrom line (letters ++ '\n' :: rest) =
      linesFrom line (letters ++ ['\n']) ++ linesFrom [] rest := by
  induction letters generalizing line with
  | nil => rfl
  | cons c letters ih =>
    rw [List.cons_append, List.cons_append, linesFrom, linesFrom]
    split
    · rw [ih, List.cons_append]
    · exact ih (c :: line)

/-- What stands in front of a text goes into its first line only. -/
theorem linesFrom_first (letters : List Char) :
    ∃ first later, ∀ line,
      linesFrom line (letters ++ ['\n']) = endedLine (line.reverse ++ first).reverse :: later := by
  induction letters with
  | nil =>
    refine ⟨[], [], fun line => ?_⟩
    rw [List.append_nil, List.reverse_reverse]
    rfl
  | cons c letters ih =>
    obtain ⟨first, later, h⟩ := ih
    by_cases hc : c = '\n'
    · refine ⟨[], linesFrom [] (letters ++ ['\n']), fun line => ?_⟩
      rw [List.cons_append, linesFrom, if_pos hc, List.append_nil, List.reverse_reverse]
    · refine ⟨c :: first, later, fun line => ?_⟩
      rw [List.cons_append, linesFrom, if_neg hc, h, List.reverse_cons, List.append_assoc]
      rfl

/-- A text in a comment: its first line belongs to the comment, the others do not. -/
theorem lines_of_commented (text more : String) :
    ∃ rest, lines ("* " ++ text ++ "\n" ++ more) =
      ('*' :: rest) :: (laterLines text ++ lines more) := by
  obtain ⟨first, later, h⟩ := linesFrom_first text.toList
  have hLater : laterLines text = later := by
    rw [laterLines, lines, String.toList_append]
    exact congrArg List.tail (h [])
  have hStart : ("* " ++ text ++ "\n" ++ more).toList =
      '*' :: ' ' :: (text.toList ++ '\n' :: more.toList) := by simp
  obtain ⟨rest, hRest⟩ := endedLine_reverse ['*'] (show ' ' ≠ '\r' by decide) first
  refine ⟨' ' :: rest, ?_⟩
  rw [lines, hStart, linesFrom, if_neg (by decide), linesFrom, if_neg (by decide),
    linesFrom_ended, h, hLater]
  exact congrArg (fun line => line :: (later ++ lines more)) hRest

end Text

namespace Listing

/-! ### Lines that are skipped -/

theorem readLines_of_skipped {skipped : List (List Char)}
    (h : ∀ line ∈ skipped, isSkipped line = true) (lineno : Nat) (rest : List (List Char)) :
    readLines lineno (skipped ++ rest) = readLines (lineno + skipped.length) rest := by
  induction skipped generalizing lineno with
  | nil => rfl
  | cons line skipped ih =>
    rw [List.cons_append, readLines, if_pos (h line List.mem_cons_self),
      ih fun line hIn => h line (List.mem_cons_of_mem _ hIn), List.length_cons, Nat.add_assoc,
      Nat.add_comm 1]

/-- Every line that is not skipped is an instruction. -/
theorem length_of_readLines {lines : List (List Char)} {lineno : Nat}
    {placed : List (Nat × Instruction)} (h : readLines lineno lines = .ok placed) :
    placed.length = (lines.filter fun line => !isSkipped line).length := by
  induction lines generalizing lineno placed with
  | nil =>
    cases h
    rfl
  | cons line lines ih =>
    rw [readLines] at h
    by_cases hSkip : isSkipped line = true
    · rw [if_pos hSkip] at h
      rw [List.filter_cons_of_neg (by simp [hSkip])]
      exact ih h
    · rw [if_neg hSkip] at h
      rw [List.filter_cons_of_pos (by simpa using hSkip), List.length_cons]
      cases hLine : readLine lineno line with
      | error fault =>
        rw [hLine] at h
        cases h
      | ok first =>
        cases hRest : readLines (lineno + 1) lines with
        | error fault =>
          rw [hLine, hRest] at h
          cases h
        | ok others =>
          rw [hLine, hRest] at h
          cases h
          rw [List.length_cons, ih hRest]

/-- **Comments that stay on their lines change nothing**, nor do the notes behind instructions. -/
theorem readLines_commented {entries : List Entry} (plain : ∀ entry ∈ entries, entry.OneLine)
    (lineno lineno' : Nat) :
    readLines lineno (Text.lines (Entry.texts true entries)) =
      readLines lineno' (Text.lines (Entry.texts false entries)) := by
  induction entries generalizing lineno lineno' with
  | nil => rfl
  | cons entry rest ih =>
    have hRest := ih fun entry hIn => plain entry (List.mem_cons_of_mem _ hIn)
    have hEntry : entry.OneLine := plain entry List.mem_cons_self
    rw [Entry.texts, Entry.texts]
    cases entry with
    | comment text =>
      obtain ⟨letters, h⟩ := lines_comment hEntry (Entry.texts true rest)
      rw [h, readLines, if_pos (isSkipped_star letters), Entry.text, if_neg (by decide),
        String.empty_append]
      exact hRest (lineno + 1) lineno'
    | placed location i note =>
      obtain ⟨m, noted, h⟩ := lines_placed true location i (fun _ => hEntry)
        (Entry.texts true rest)
      obtain ⟨n, bare, h'⟩ := @lines_placed false location i note
        (fun on => absurd on Bool.false_ne_true) (Entry.texts false rest)
      rw [h, h', readLines, readLines, isSkipped_placed, isSkipped_placed, if_neg (by decide),
        if_neg (by decide), readLine_letters _ _ _ _ (endsRun_cons (by decide) noted),
        readLine_letters _ _ _ _ (endsRun_cons (by decide) bare),
        hRest (lineno + 1) (lineno' + 1)]

end Listing

/-! ### The comments of a program -/

namespace Code

variable {fileName : String} {body : List Entry}

theorem texts_heading : Entry.texts false (heading fileName ++ body) = Entry.texts false body := by
  rw [Entry.texts_append, heading, List.singleton_append]
  simp [Entry.texts, Entry.text]

/-- The lines of a commented program: the lines of the file name stand among them. -/
theorem lines_heading :
    ∃ title file, Text.lines (Entry.texts true (heading fileName ++ body)) =
      ('*' :: title) :: ('*' :: file) ::
        (Text.laterLines fileName ++ Text.lines (Entry.texts true body)) := by
  have hFile : Text.laterLines ("File: " ++ fileName) = Text.laterLines fileName := by
    obtain ⟨first, later, h⟩ := Text.linesFrom_first fileName.toList
    rw [Text.laterLines, Text.laterLines, Text.lines, Text.lines, String.append_assoc,
      String.toList_append, String.toList_append]
    have hName : Text.linesFrom [] (fileName.toList ++ "\n".toList) = _ := h []
    have hStart : Text.linesFrom [] ("File: ".toList ++ (fileName.toList ++ "\n".toList)) =
        Text.linesFrom "File: ".toList.reverse (fileName.toList ++ ['\n']) := rfl
    rw [hName, hStart, h]
    rfl
  have hTitle : '\n' ∉ "TINY Compilation to TM Code".toList := by decide
  obtain ⟨file, hLines⟩ := Text.lines_of_commented ("File: " ++ fileName) (Entry.texts true body)
  obtain ⟨title, h⟩ := Listing.lines_comment hTitle
    ("* " ++ ("File: " ++ fileName) ++ "\n" ++ Entry.texts true body)
  refine ⟨title, file, ?_⟩
  rw [← hFile, ← hLines, ← h]
  rfl

/-- What is read of a commented program: its first two lines are skipped. -/
theorem read_heading :
    Listing.read (Entry.texts true (heading fileName ++ body)) =
      Listing.readLines 3 (Text.laterLines fileName ++ Text.lines (Entry.texts true body)) := by
  obtain ⟨title, file, hLines⟩ := @lines_heading fileName body
  rw [Listing.read, hLines, Listing.readLines, if_pos (Listing.isSkipped_star title),
    Listing.readLines, if_pos (Listing.isSkipped_star file)]

/-- **Comments change nothing as long as the name of the file does not.**  A program that is
commented comes to the same end.  If every line of the file name behind its first one is skipped,
the same instructions are read, they load to the same machine, and this runs alike.  If not, then
other instructions are read, or none. -/
theorem generate_commented (symbols : Symbols) (p : Program) (fileName : String) :
    (p.generate symbols true fileName {}).1 = (p.generate symbols false fileName {}).1 ∧
    ((∀ line ∈ Text.laterLines fileName, Listing.isSkipped line = true) →
      Listing.read (p.generate symbols true fileName {}).2.text =
        Listing.read (p.generate symbols false fileName {}).2.text ∧
      Machine.load (p.generate symbols true fileName {}).2.text =
        Machine.load (p.generate symbols false fileName {}).2.text ∧
      ∀ input limit,
        (Machine.load (p.generate symbols true fileName {}).2.text).map (·.run input limit) =
          (Machine.load (p.generate symbols false fileName {}).2.text).map
            (·.run input limit)) ∧
    ∀ placed, Listing.read (p.generate symbols false fileName {}).2.text = .ok placed →
      Listing.read (p.generate symbols true fileName {}).2.text = .ok placed →
      ∀ line ∈ Text.laterLines fileName, Listing.isSkipped line = true := by
  obtain ⟨body, outcome, generated⟩ := exists_generated symbols fileName p
  rw [generated.unlimited rfl true, generated.unlimited rfl false, Sink.text_add, Sink.text_add,
    texts_heading]
  refine ⟨rfl, fun skipped => ?_, fun placed hPlain hCommented => ?_⟩
  · have hSame : Listing.read (Entry.texts true (heading fileName ++ body)) =
        Listing.read (Entry.texts false body) := by
      rw [read_heading, Listing.readLines_of_skipped skipped]
      exact Listing.readLines_commented generated.plain _ _
    have hLoad : Machine.load (Entry.texts true (heading fileName ++ body)) =
        Machine.load (Entry.texts false body) := by
      rw [Machine.load, hSame, ← Machine.load]
    exact ⟨hSame, hLoad, fun input limit => by rw [hLoad]⟩
  · -- a line that is not skipped is one instruction more
    rw [read_heading] at hCommented
    have hMore := Listing.length_of_readLines hCommented
    have hBody := Listing.length_of_readLines hPlain
    have hCount := Listing.count_texts fun (_ : true = true) => generated.plain
    have hCount' := @Listing.count_texts false body fun on => absurd on Bool.false_ne_true
    rw [Listing.count] at hCount hCount'
    rw [List.filter_append, List.length_append, hCount, ← hCount', ← hBody] at hMore
    have hNone : (Text.laterLines fileName).filter (fun line => !Listing.isSkipped line) = [] :=
      List.length_eq_zero_iff.mp (by omega)
    intro line hIn
    simpa using List.filter_eq_nil_iff.mp hNone line hIn

/-- The program `write 1`. -/
def writeOne : Program := [.write (.constant 1 1 .integer) 1]

/-- In a file with an ordinary name, the comments of this program change nothing. -/
theorem generate_commented_one :
    Listing.read (writeOne.generate {} true "one.tm" {}).2.text =
      Listing.read (writeOne.generate {} false "one.tm" {}).2.text :=
  ((generate_commented {} writeOne "one.tm").2.1 (by decide)).1

/-- With a line feed in the name of the file, the commented program is no listing any more: the
second line of the name is taken for an instruction. -/
theorem commented_lineFeed :
    (∃ placed, Listing.read (writeOne.generate {} false "a\nb.tm" {}).2.text = .ok placed) ∧
    Listing.read (writeOne.generate {} true "a\nb.tm" {}).2.text =
      .error (.malformed 3 "b.tm") := by
  constructor
  · have covered : Program.Covered {} writeOne := ⟨trivial, trivial⟩
    obtain ⟨placed, hRead, -⟩ :=
      @read_generate {} writeOne covered (by decide) false "a\nb.tm" nofun
    exact ⟨placed, hRead⟩
  · obtain ⟨body, outcome, generated⟩ := exists_generated {} "a\nb.tm" writeOne
    have hLater : Text.laterLines "a\nb.tm" = ["b.tm".toList] := by decide
    have hLine : Listing.readLine 3 "b.tm".toList = .error (.malformed 3 "b.tm") := by decide
    rw [generated.unlimited rfl, Sink.text_add, read_heading, hLater, List.singleton_append,
      Listing.readLines, if_neg (by decide), hLine]
    rfl

end Code

end Tiny
