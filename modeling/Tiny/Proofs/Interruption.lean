import Mathlib.Data.List.DropRight
import Tiny.Proofs.Echoing
import Tiny.Proofs.Ordering

/-!
# A read that fails once

A read that fails leaves what it has read to the next call, and fails in front of a line only.  So
a scanner that is asked again gives the token that it owes, unless it was skipping a comment, which
it no longer knows of.

* `Scanner.Abreast`: two scanners read the same bytes, and one of them may be about to fail.
* `skip_abreast`, `takeRun_abreast`, `takeByte_abreast`: they take the same, or the failure is met
  between two tokens.
* `next_abreast`: so they take the same token, or the one that fails still owes it.
* `exists_later_error`: hence all tokens are the same, but for one failure between them.
* `Lines.abreast`: the scanners of a source with and without a failed read are abreast.
-/

namespace Tiny

open Feed

/-- Whether a comment is open behind some bytes. -/
def inComment (bytes : List UInt8) : Bool :=
  bytes.foldl (fun inside b => if inside then b != commentClose else b == commentOpen) false

theorem inComment_concat (bytes : List UInt8) (b : UInt8) :
    inComment (bytes ++ [b]) =
      if inComment bytes then b != commentClose else b == commentOpen := by
  rw [inComment, List.foldl_append]
  rfl

theorem inComment_concat_outside {bytes : List UInt8} {b : UInt8} (h : inComment bytes = false)
    (hb : b ≠ commentOpen) : inComment (bytes ++ [b]) = false := by
  rw [inComment_concat, if_neg (Bool.eq_false_iff.mp h), beq_eq_false_iff_ne]
  exact hb

theorem inComment_concat_open {bytes : List UInt8} (h : inComment bytes = false) :
    inComment (bytes ++ [commentOpen]) = true := by
  rw [inComment_concat, if_neg (Bool.eq_false_iff.mp h), beq_self_eq_true]

theorem inComment_concat_inside {bytes : List UInt8} {b : UInt8} (h : inComment bytes = true)
    (hb : b ≠ commentClose) : inComment (bytes ++ [b]) = true := by
  rw [inComment_concat, if_pos h, bne_iff_ne]
  exact hb

theorem inComment_concat_close {bytes : List UInt8} (h : inComment bytes = true) :
    inComment (bytes ++ [commentClose]) = false := by
  rw [inComment_concat, if_pos h, bne_self_eq_false]

/-- A line, and the line that is given for it if a read fails in the line `failing`: it may be the
line before, but not in front of the line that fails. -/
structure Near (failing line given : Nat) : Prop where
  le : given ≤ line
  lt : line ≤ given + 1
  same : line < failing → given = line

theorem near_refl (failing line : Nat) : Near failing line line :=
  ⟨Nat.le_refl _, Nat.le_succ _, fun _ => rfl⟩

theorem Near.max {failing line given : Nat} (h : Near failing line given) :
    Near failing (max line 1) (max given 1) := by
  obtain ⟨le, lt, same⟩ := h
  refine ⟨by omega, by omega, fun before => ?_⟩
  rw [same (by omega)]

namespace Scanner

/-- **Two scanners that read the same bytes**, where `before` was read already.  Their lines arrive
independently, but are near to each other.  If `pending` holds, then the second one is to meet a
failure, once, at the start of a line and outside of comments. -/
inductive Abreast (reason : String) (failing : Nat) :
    (pending : Bool) → (before : List UInt8) → Position → Position → Prop
  | ended {before : List UInt8} {lineno lineno' : Nat} (near : Near failing lineno lineno') :
      Abreast reason failing false before ⟨[], lineno⟩ ⟨[], lineno'⟩
  | byte {pending : Bool} {before : List UInt8} {b : UInt8} {feed feed' : Feed}
      {lineno lineno' : Nat} (near : Near failing lineno lineno')
      (tail : Abreast reason failing pending (before ++ [b]) ⟨feed, lineno⟩ ⟨feed', lineno'⟩) :
      Abreast reason failing pending before ⟨.byte b :: feed, lineno⟩ ⟨.byte b :: feed', lineno'⟩
  | line {pending : Bool} {before : List UInt8} {feed feed' : Feed} {lineno lineno' : Nat}
      (line : List UInt8)
      (tail : Abreast reason failing pending before ⟨feed, lineno + 1⟩ ⟨feed', lineno'⟩) :
      Abreast reason failing pending before ⟨.line line :: feed, lineno⟩ ⟨feed', lineno'⟩
  | other {pending : Bool} {before : List UInt8} {feed feed' : Feed} {lineno lineno' : Nat}
      (line : List UInt8)
      (tail : Abreast reason failing pending before ⟨feed, lineno⟩ ⟨feed', lineno' + 1⟩) :
      Abreast reason failing pending before ⟨feed, lineno⟩ ⟨.line line :: feed', lineno'⟩
  | failure {before : List UInt8} {feed feed' : Feed} {lineno lineno' : Nat}
      (outside : inComment before = false) (fresh : ∀ b ∈ before.getLast?, b = lineFeed)
      (tail : Abreast reason failing false before ⟨feed, lineno⟩ ⟨feed', lineno'⟩) :
      Abreast reason failing true before ⟨feed, lineno⟩ ⟨.failure reason :: feed', lineno'⟩

/-- The scanner at a position, with all switches off. -/
def silent (position : Position) : Scanner :=
  standing position {} {}

section

variable {α β : Type} {reason : String} {failing : Nat} {pending : Bool} {before : List UInt8}
  {position position' : Position}

/-! ### One step of both -/

/-- Both scanners give a result, and are abreast again. -/
def Both (reason : String) (failing : Nat) (pending : Bool) (Same : List UInt8 → α → α → Prop)
    (result result' : EStateM.Result Fault Scanner α) : Prop :=
  ∃ before x x' position position',
    result = .ok x (silent position) ∧ result' = .ok x' (silent position') ∧
      Same before x x' ∧ inComment before = false ∧
      Abreast reason failing pending before position position'

/-- The second scanner fails, and is now abreast of a position from which the first one would give
the same result. -/
def Owes (reason : String) (failing : Nat) (pending : Bool)
    (work : Position → EStateM.Result Fault Scanner α)
    (result result' : EStateM.Result Fault Scanner α) : Prop :=
  pending = true ∧ ∃ before position position',
    result = work position ∧ result' = .error (.io reason) (silent position') ∧
      inComment before = false ∧ Abreast reason failing false before position position'

/-- What is skipped does not depend on the feed that is left in the scanner. -/
theorem skip_stale (comment : Option Nat) (feed stale : Feed) (scanner : Scanner) :
    skip comment feed { scanner with feed := stale } = skip comment feed scanner := by
  induction feed generalizing comment with
  | nil => rfl
  | cons reading rest ih =>
    cases reading with
    | failure reason => rfl
    | line line => rfl
    | byte b =>
      cases comment with
      | some opened =>
        rw [skip]
        split
        · exact ih none
        · exact ih (some opened)
      | none =>
        rw [skip, get_bind, get_bind]
        split
        · exact ih none
        split
        · exact ih (some scanner.lineno)
        · rfl

/-- The comments that two scanners are skipping. -/
inductive Skipping (failing : Nat) (before : List UInt8) : Option Nat → Option Nat → Prop
  | outside (outside : inComment before = false) : Skipping failing before none none
  | inside {opened opened' : Nat} (inside : inComment before = true)
      (near : Near failing opened opened') : Skipping failing before (some opened) (some opened')

/-- What two scanners find behind blanks and comments: the same byte, which is the last one that
was read, on lines that are near. -/
def Meets (failing : Nat) (pending : Bool) (before : List UInt8)
    (found found' : Nat × Option UInt8) : Prop :=
  Near failing found.1 found'.1 ∧ found.2 = found'.2 ∧ (found.2 = none → pending = false) ∧
    ∀ b ∈ found.2, before.getLast? = some b ∧ b ≠ lineFeed

theorem skip_abreast (h : Abreast reason failing pending before position position')
    {comment comment' : Option Nat} (skipping : Skipping failing before comment comment')
    (stale stale' : Feed) :
    let result := skip comment position.feed (silent ⟨stale, position.lineno⟩)
    let result' := skip comment' position'.feed (silent ⟨stale', position'.lineno⟩)
    Both reason failing pending (Meets failing pending) result result' ∨
      Owes reason failing pending (fun position => skip none position.feed (silent position))
        result result' := by
  induction h generalizing comment comment' stale stale' with
  | @ended before lineno lineno' near =>
    -- A comment that is still open is forgotten.
    refine .inl ⟨[], _, _, ⟨[], lineno⟩, ⟨[], lineno'⟩, rfl, rfl, ?_, rfl, .ended near⟩
    refine ⟨?_, rfl, fun _ => rfl, fun _ hNone => absurd hNone (Option.not_mem_none _)⟩
    cases skipping with
    | outside outside => exact near
    | inside inside nearer => exact nearer
  | @failure before feed feed' lineno lineno' outside fresh tail =>
    cases skipping with
    | outside _ =>
      refine .inr ⟨rfl, before, ⟨feed, lineno⟩, ⟨feed', lineno'⟩, ?_, rfl, outside, tail⟩
      exact skip_stale none feed stale (silent ⟨feed, lineno⟩)
    | inside inside _ =>
      rw [outside] at inside
      cases inside
  | line line tail ih => exact ih skipping _ stale'
  | other line tail ih => exact ih skipping stale _
  | @byte pending before b feed feed' lineno lineno' near tail ih =>
    cases skipping with
    | @inside opened opened' inside nearer =>
      by_cases hClose : b = commentClose
      · subst hClose
        simp only [skip, if_pos]
        exact ih (.outside (inComment_concat_close inside)) stale stale'
      · simp only [skip, if_neg hClose]
        exact ih (.inside (inComment_concat_inside inside hClose) nearer) stale stale'
    | outside outside =>
      by_cases hOpen : b = commentOpen
      · subst hOpen
        simp only [skip, get_bind, isSpaceByte_commentOpen, if_neg Bool.false_ne_true, if_pos]
        exact ih (.inside (inComment_concat_open outside) near) stale stale'
      have hOutside := inComment_concat_outside outside hOpen
      by_cases hSpace : isSpaceByte b = true
      · simp only [skip, get_bind, if_pos hSpace]
        exact ih (.outside hOutside) stale stale'
      · simp only [skip, get_bind, if_neg hSpace, if_neg hOpen]
        refine .inl ⟨before ++ [b], (lineno, some b), (lineno', some b), ⟨feed, lineno⟩,
          ⟨feed', lineno'⟩, rfl, rfl, ⟨near, rfl, fun hNone => absurd hNone (Option.some_ne_none b),
            fun c hc => ?_⟩, hOutside, tail⟩
        obtain rfl := Option.some.inj hc
        refine ⟨List.getLast?_concat, ?_⟩
        rintro rfl
        exact hSpace rfl

/-! ### The rest of a token -/

/-- Bytes of a token that is not complete: the last one does not end a line. -/
def Amid (before : List UInt8) : Prop :=
  inComment before = false ∧ ∃ b, before.getLast? = some b ∧ b ≠ lineFeed

theorem Amid.concat {b : UInt8} (h : Amid before) (hOpen : b ≠ commentOpen) (hEnd : b ≠ lineFeed) :
    Amid (before ++ [b]) :=
  ⟨inComment_concat_outside h.1 hOpen, b, List.getLast?_concat, hEnd⟩

/-- **A run is the same for both**: a failure is met only at the start of a line. -/
theorem takeRun_abreast {p : UInt8 → Bool} (hOpen : p commentOpen = false)
    (hEnd : p lineFeed = false) (h : Abreast reason failing pending before position position')
    (amid : Amid before) (stale stale' : Feed) :
    Both reason failing pending (fun _ run run' => run = run')
      (takeRun p position.feed (silent ⟨stale, position.lineno⟩))
      (takeRun p position'.feed (silent ⟨stale', position'.lineno⟩)) := by
  induction h generalizing stale stale' with
  | @ended before lineno lineno' near =>
    exact ⟨before, [], [], ⟨[], lineno⟩, ⟨[], lineno'⟩, rfl, rfl, rfl, amid.1, .ended near⟩
  | failure outside fresh tail =>
    obtain ⟨-, b, hLast, hb⟩ := amid
    exact absurd (fresh b hLast) hb
  | line line tail ih => exact ih amid _ stale'
  | other line tail ih => exact ih amid stale _
  | @byte pending before b feed feed' lineno lineno' near tail ih =>
    by_cases hb : p b = true
    · have hNext : Amid (before ++ [b]) := by
        refine amid.concat ?_ ?_
        · rintro rfl
          rw [hOpen] at hb
          cases hb
        · rintro rfl
          rw [hEnd] at hb
          cases hb
      obtain ⟨after, run, _, left, left', hRun, hRun', rfl, outside, abreast⟩ :=
        ih hNext stale stale'
      simp only [takeRun, if_pos hb]
      exact ⟨after, b :: run, b :: run, left, left', bind_of_ok hRun, bind_of_ok hRun', rfl,
        outside, abreast⟩
    · simp only [takeRun, if_neg hb]
      exact ⟨before, [], [], ⟨.byte b :: feed, lineno⟩, ⟨.byte b :: feed', lineno'⟩, rfl, rfl, rfl,
        amid.1, .byte near tail⟩

theorem takeByte_abreast {b : UInt8} (hOpen : b ≠ commentOpen)
    (h : Abreast reason failing pending before position position')
    (amid : Amid before) (stale stale' : Feed) :
    Both reason failing pending (fun _ taken taken' => taken = taken')
      (takeByte b position.feed (silent ⟨stale, position.lineno⟩))
      (takeByte b position'.feed (silent ⟨stale', position'.lineno⟩)) := by
  induction h generalizing stale stale' with
  | @ended before lineno lineno' near =>
    exact ⟨before, false, false, ⟨[], lineno⟩, ⟨[], lineno'⟩, rfl, rfl, rfl, amid.1, .ended near⟩
  | failure outside fresh tail =>
    obtain ⟨-, c, hLast, hc⟩ := amid
    exact absurd (fresh c hLast) hc
  | line line tail ih => exact ih amid _ stale'
  | other line tail ih => exact ih amid stale _
  | @byte pending before c feed feed' lineno lineno' near tail ih =>
    by_cases hc : c = b
    · have hOutside := inComment_concat_outside amid.1 (hc ▸ hOpen)
      simp only [takeByte, if_pos hc]
      exact ⟨before ++ [c], true, true, ⟨feed, lineno⟩, ⟨feed', lineno'⟩, rfl, rfl, rfl, hOutside,
        tail⟩
    · simp only [takeByte, if_neg hc]
      exact ⟨before, false, false, ⟨.byte c :: feed, lineno⟩, ⟨.byte c :: feed', lineno'⟩, rfl, rfl,
        rfl, amid.1, .byte near tail⟩

/-- The same token, on other lines. -/
def Relined (line line' : Nat) (taken taken' : Token) : Prop :=
  taken.line = line ∧ taken' = { taken with line := line' }

theorem relined_ofRun (kindOf : String → TokenKind) (run : List UInt8) (line line' : Nat) :
    Relined line line' (.ofRun kindOf run line) (.ofRun kindOf run line') := by
  unfold Token.ofRun
  split
  · exact ⟨rfl, rfl⟩
  · exact ⟨rfl, rfl⟩

theorem token_abreast {first : UInt8} (h : Abreast reason failing pending before position position')
    (amid : Amid before) (line line' : Nat) :
    Both reason failing pending (fun _ => Relined line line')
      (token line first (silent position)) (token line' first (silent position')) := by
  have hWord {p : UInt8 → Bool} (hOpen : p commentOpen = false) (hEnd : p lineFeed = false)
      (kindOf : String → TokenKind) :
      Both reason failing pending (fun _ => Relined line line')
        ((do return .ofRun kindOf (first :: (← takeRun p position.feed)) line : Scan Token)
          (silent position))
        ((do return .ofRun kindOf (first :: (← takeRun p position'.feed)) line' : Scan Token)
          (silent position')) := by
    obtain ⟨after, run, _, left, left', hRun, hRun', rfl, outside, abreast⟩ :=
      takeRun_abreast hOpen hEnd h amid position.feed position'.feed
    refine ⟨after, _, _, left, left', bind_of_ok hRun, bind_of_ok hRun', ?_, outside, abreast⟩
    exact relined_ofRun kindOf (first :: run) line line'
  unfold token
  split
  · exact hWord (by decide) (by decide) _
  split
  · exact hWord (by decide) (by decide) _
  split
  · obtain ⟨after, matched, _, left, left', hByte, hByte', rfl, outside, abreast⟩ :=
      takeByte_abreast (b := equalSign) (by decide) h amid position.feed position'.feed
    cases matched with
    | true =>
      exact ⟨after, _, _, left, left', bind_of_ok hByte, bind_of_ok hByte', ⟨rfl, rfl⟩, outside,
        abreast⟩
    | false =>
      exact ⟨after, _, _, left, left', bind_of_ok hByte, bind_of_ok hByte', ⟨rfl, rfl⟩, outside,
        abreast⟩
  · exact ⟨before, _, _, position, position', rfl, rfl, ⟨rfl, rfl⟩, amid.1, h⟩

/-! ### Tokens -/

/-- Tokens that differ in their lines only, which are near. -/
structure Alike (failing : Nat) (taken taken' : Token) : Prop where
  kind : taken'.kind = taken.kind
  lexeme : taken'.lexeme = taken.lexeme
  near : Near failing taken.line taken'.line

/-- **A token is the same for both, or it is still owed.**  The end of a source is not given while
the failure is to come. -/
theorem next_abreast (h : Abreast reason failing pending before position position')
    (outside : inComment before = false) :
    Both reason failing pending
        (fun _ taken taken' =>
          Alike failing taken taken' ∧ (taken.kind = .endOfFile → pending = false))
        (next (silent position)) (next (silent position')) ∨
      Owes reason failing pending (fun position => next (silent position))
        (next (silent position)) (next (silent position')) := by
  rcases skip_abreast h (.outside outside) position.feed position'.feed with
    ⟨after, ⟨line, first⟩, ⟨line', _⟩, left, left', hSkip, hSkip', ⟨near, rfl, hEnd, hLast⟩,
      outside, abreast⟩ | ⟨hPending, after, left, left', hSkip, hSkip', outside, abreast⟩
  · left
    cases first with
    | none =>
      exact ⟨after, _, _, left, left', bind_of_ok hSkip, bind_of_ok hSkip',
        ⟨⟨rfl, rfl, near.max⟩, fun _ => hEnd rfl⟩, outside, abreast⟩
    | some b =>
      obtain ⟨hGetLast, hb⟩ := hLast b rfl
      obtain ⟨after', taken, _, left, left', hToken, hToken', ⟨hLine, rfl⟩, outside, abreast⟩ :=
        token_abreast abreast ⟨outside, b, hGetLast, hb⟩ (max line 1) (max line' 1)
      refine ⟨after', taken, _, left, left', (bind_of_ok hSkip).trans (bind_of_ok hToken),
        (bind_of_ok hSkip').trans (bind_of_ok hToken'), ⟨⟨rfl, rfl, ?_⟩, ?_⟩, outside, abreast⟩
      · rw [hLine]
        exact near.max
      · exact fun hKind => absurd hKind (token_kind_ne hToken)
  · right
    refine ⟨hPending, after, left, left', ?_, (get_bind _ _).trans (bind_of_error hSkip'), outside,
      abreast⟩
    have hBind (f : Nat × Option UInt8 → Scan Token) :
        (skip none position.feed >>= f) (silent position) =
          (skip none left.feed >>= f) (silent left) := by
      simp only [bind, EStateM.bind]
      rw [hSkip]
    exact hBind _

/-! ### All tokens -/

/-- One call of a scanner and one call of another give tokens that are alike. -/
def Agree (failing : Nat) (scanner scanner' : Scanner) (i j : Nat) : Prop :=
  ∃ taken taken', (scanner.later i).call.1 = .ok taken ∧ (scanner'.later j).call.1 = .ok taken' ∧
    Alike failing taken taken'

theorem Agree.upcoming {scanner scanner' : Scanner} {i j : Nat}
    (h : Agree failing scanner scanner' i j) :
    (scanner'.later j).call.1 = .ok (scanner'.upcoming j) ∧
      Alike failing (scanner.upcoming i) (scanner'.upcoming j) := by
  obtain ⟨taken, taken', hTaken, hTaken', alike⟩ := h
  rw [Scanner.upcoming, Scanner.upcoming, hTaken, hTaken']
  exact ⟨rfl, alike⟩

section

variable {scanner scanner' after after' : Scanner} {taken taken' : Token}
  (hNext : next scanner = .ok taken after) (hNext' : next scanner' = .ok taken' after')

include hNext hNext'

theorem agree_zero (alike : Alike failing taken taken') : Agree failing scanner scanner' 0 0 := by
  refine ⟨taken, taken', ?_, ?_, alike⟩
  · rw [later, call, hNext]
  · rw [later, call, hNext']

theorem Agree.succ {i j : Nat} (h : Agree failing after after' i j) :
    Agree failing scanner scanner' (i + 1) (j + 1) := by
  rwa [Agree, later, later, call_of_next hNext, call_of_next hNext']

end

/-- If no failure is to come, then all tokens are the same. -/
theorem agree_of_abreast (h : Abreast reason failing false before position position')
    (outside : inComment before = false) (i : Nat) :
    Agree failing (silent position) (silent position') i i := by
  induction i generalizing before position position' with
  | zero =>
    rcases next_abreast h outside with
      ⟨_, _, _, _, _, hNext, hNext', ⟨alike, -⟩, -, -⟩ | ⟨hPending, -⟩
    · exact agree_zero hNext hNext' alike
    · cases hPending
  | succ i ih =>
    rcases next_abreast h outside with
      ⟨_, _, _, _, _, hNext, hNext', -, outside, abreast⟩ | ⟨hPending, -⟩
    · exact (ih abreast outside).succ hNext hNext'
    · cases hPending

/-- **A failure that is to come is met once**, and what comes behind it is what would have come in
its place. -/
theorem exists_later_error (h : Abreast reason failing true before position position')
    (outside : inComment before = false) (quiet : (silent position).Quiet) :
    ∃ n, (∀ i < n, Agree failing (silent position) (silent position') i i) ∧
      ((silent position').later n).call.1 = .error (.io reason) ∧
      ∀ i, n ≤ i → Agree failing (silent position) (silent position') i (i + 1) := by
  induction hLength : position.feed.length using Nat.strongRecOn
    generalizing before position position' with
  | ind length ih =>
    rcases next_abreast h outside with
      ⟨_, taken, taken', left, left', hNext, hNext', ⟨alike, hEnd⟩, outside, abreast⟩ |
      ⟨-, _, left, left', hNext, hNext', outside, abreast⟩
    · obtain ⟨_, _, hTaken, quiet', ⟨hKind, -⟩ | ⟨-, hShort⟩⟩ := next_quiet quiet
      · obtain ⟨rfl, -⟩ := ok_inj (hNext.symm.trans hTaken)
        cases hEnd hKind
      · obtain ⟨-, rfl⟩ := ok_inj (hNext.symm.trans hTaken)
        have hShort : left.feed.length < length := hLength ▸ hShort
        obtain ⟨n, hBefore, hError, hBehind⟩ := ih _ hShort abreast outside quiet' rfl
        refine ⟨n + 1, fun i hi => ?_, ?_, fun i hi => ?_⟩
        · cases i with
          | zero => exact agree_zero hNext hNext' alike
          | succ i => exact (hBefore i (by omega)).succ hNext hNext'
        · rw [later, call_of_next hNext']
          exact hError
        · cases i with
          | zero => omega
          | succ i => exact (hBehind i (by omega)).succ hNext hNext'
    · have hCall : (silent position).call = (silent left).call := by
        rw [call, hNext]
        rfl
      have hAfter : (silent position').call = (.error (.io reason), silent left') := by
        rw [call, hNext']
      refine ⟨0, fun i hi => absurd hi (Nat.not_lt_zero i), congrArg Prod.fst hAfter,
        fun i _ => ?_⟩
      obtain ⟨taken, taken', hTaken, hTaken', alike⟩ := agree_of_abreast abreast outside i
      refine ⟨taken, taken', ?_, ?_, alike⟩
      · cases i with
        | zero => exact (congrArg Prod.fst hCall).trans hTaken
        | succ i => rwa [later, hCall]
      · rwa [later, hAfter]

/-! ### Switches and listings -/

/-- A call depends neither on the switches nor on the listing. -/
theorem call_standing (position : Position) (options : Options) {listing : Sink}
    (unlimited : listing.limit = none) :
    ∃ outcome position' listing', listing'.limit = none ∧
      (standing position options listing).call = (outcome, standing position' options listing') ∧
      (silent position).call = (outcome, silent position') := by
  have hCall {scanner after : Scanner} {outcome : Except Fault Token}
      (h : next scanner = ending outcome after) : scanner.call = (outcome, after) := by
    rw [call, h]
    cases outcome with
    | ok taken => rfl
    | error fault => rfl
  obtain ⟨text, outcome, position', hText, prints⟩ := listed_next position
  have hWrite : Sink.write (text false false) {} = .ok () {} := by
    rw [hText]
    exact Sink.write_empty {}
  exact ⟨outcome, position', listing.add (text options.echoSource options.traceScan), unlimited,
    hCall (prints.fits (Sink.write_of_unlimited unlimited _)), hCall (prints.fits hWrite)⟩

theorem outcome_standing (position : Position) (options : Options) {listing : Sink}
    (unlimited : listing.limit = none) (n : Nat) :
    ((standing position options listing).later n).call.1 = ((silent position).later n).call.1 := by
  induction n generalizing position listing with
  | zero =>
    obtain ⟨outcome, position', listing', -, hCall, hSilent⟩ :=
      call_standing position options unlimited
    rw [later, later, hCall, hSilent]
  | succ n ih =>
    obtain ⟨outcome, position', listing', unlimited', hCall, hSilent⟩ :=
      call_standing position options unlimited
    rw [later, later, hCall, hSilent]
    exact ih position' unlimited'

/-! ### Sources -/

theorem abreast_bytes (bytes : List UInt8) {feed feed' : Feed} {lineno lineno' : Nat}
    (near : Near failing lineno lineno')
    (tail : Abreast reason failing pending (before ++ bytes) ⟨feed, lineno⟩ ⟨feed', lineno'⟩) :
    Abreast reason failing pending before ⟨bytes.map .byte ++ feed, lineno⟩
      ⟨bytes.map .byte ++ feed', lineno'⟩ := by
  induction bytes generalizing before with
  | nil => rwa [List.append_nil] at tail
  | cons b bytes ih => exact .byte near (ih (by rwa [List.append_assoc]))

/-- Behind the failure, the lines that are left are the same. -/
theorem abreast_lines (lines : List (List UInt8)) {lineno lineno' : Nat} (le : lineno' ≤ lineno)
    (lt : lineno ≤ lineno' + 1) (same : failing ≤ lineno ∨ lineno' = lineno) :
    Abreast reason failing false before ⟨ofLines lines, lineno⟩ ⟨ofLines lines, lineno'⟩ := by
  induction lines generalizing before lineno lineno' with
  | nil => exact .ended ⟨le, lt, by omega⟩
  | cons line lines ih =>
    rw [ofLines_cons]
    exact .line line (.other line (abreast_bytes line ⟨by omega, by omega, by omega⟩
      (ih (by omega) (by omega) (by omega))))

/-- A line in which the read fails.  What was read of it is not counted as a line; the rest, if
there is one, is. -/
theorem abreast_cut {line : List UInt8} {lines : List (List UInt8)} {k lineno : Nat}
    (nonempty : ∀ line ∈ lines, line ≠ []) (outside : inComment before = false)
    (fresh : ∀ b ∈ before.getLast?, b = lineFeed) :
    Abreast reason (lineno + 1) true before ⟨ofLines (line :: lines), lineno⟩
      ⟨.failure reason :: (line.take k).map .byte ++
        ofLines ((line.drop k :: lines).filter fun rest => !rest.isEmpty), lineno⟩ := by
  have hBytes : line.map Reading.byte = (line.take k).map .byte ++ (line.drop k).map .byte := by
    rw [← List.map_append, List.take_append_drop]
  have hLines : (lines.filter fun rest => !rest.isEmpty) = lines := by
    refine List.filter_eq_self.mpr fun line member => ?_
    simpa using nonempty line member
  rw [ofLines_cons, hBytes, List.append_assoc]
  refine .failure outside fresh (.line line (abreast_bytes _ ⟨by omega, by omega, by omega⟩ ?_))
  cases line.drop k with
  | nil =>
    rw [List.filter_cons_of_neg (by simp), hLines]
    exact abreast_lines lines (by omega) (by omega) (.inl (Nat.le_refl _))
  | cons b rest =>
    rw [List.filter_cons_of_pos (by simp), hLines, ofLines_cons]
    exact .other _ (abreast_bytes _ (near_refl _ _)
      (abreast_lines lines (by omega) (by omega) (.inr rfl)))

end

end Scanner

/-- The lines of a source: each ends with its line feed, but the last one may lack it. -/
inductive Lines : List (List UInt8) → List UInt8 → Prop
  | nil : Lines [] []
  | last {body : List UInt8} (nonempty : body ≠ []) (unended : lineFeed ∉ body) :
      Lines [body] body
  | cons {body rest : List UInt8} {lines : List (List UInt8)} (unended : lineFeed ∉ body)
      (tail : Lines lines rest) :
      Lines ((body ++ [lineFeed]) :: lines) (body ++ [lineFeed] ++ rest)

theorem lines_splitFrom {line : List UInt8} (h : lineFeed ∉ line) (bytes : List UInt8) :
    Lines (splitFrom line bytes) (line.reverse ++ bytes) := by
  have hLine : lineFeed ∉ line.reverse := fun member => h (List.mem_reverse.mp member)
  induction bytes generalizing line with
  | nil =>
    rw [splitFrom, List.append_nil]
    split
    next hEmpty =>
      obtain rfl := List.isEmpty_iff.mp hEmpty
      exact .nil
    next hSome =>
      exact .last (fun hNil => hSome (List.isEmpty_iff.mpr (List.reverse_eq_nil_iff.mp hNil))) hLine
  | cons b bytes ih =>
    rw [splitFrom]
    split
    next hFeed =>
      subst hFeed
      have hTail := @ih [] List.not_mem_nil List.not_mem_nil
      rw [List.reverse_cons, List.append_cons line.reverse lineFeed bytes]
      exact .cons hLine hTail
    next hOther =>
      have hNext : lineFeed ∉ b :: line := by
        intro member
        rcases List.mem_cons.mp member with hb | member
        · exact hOther hb.symm
        · exact h member
      have hTail := ih hNext fun member => hNext (List.mem_reverse.mp member)
      rwa [List.reverse_cons, List.append_assoc, List.singleton_append] at hTail

theorem lines_splitLines (bytes : List UInt8) : Lines (splitLines bytes) bytes :=
  lines_splitFrom List.not_mem_nil bytes

theorem Lines.nonempty {lines : List (List UInt8)} {bytes : List UInt8} (h : Lines lines bytes) :
    ∀ line ∈ lines, line ≠ [] := by
  induction h with
  | nil => exact fun _ hNone => absurd hNone List.not_mem_nil
  | last nonempty unended =>
    intro line member
    rwa [List.mem_singleton.mp member]
  | cons unended tail ih =>
    intro line member
    rcases List.mem_cons.mp member with rfl | member
    · exact List.append_ne_nil_of_right_ne_nil _ (List.cons_ne_nil _ _)
    · exact ih line member

/-- The complete lines at the front of some bytes. -/
def completeLines (bytes : List UInt8) : List UInt8 :=
  bytes.rdropWhile (· != lineFeed)

theorem completeLines_of_unended {bytes : List UInt8} (h : lineFeed ∉ bytes) :
    completeLines bytes = [] := by
  refine List.rdropWhile_eq_nil_iff.mpr fun b member => ?_
  rw [bne_iff_ne]
  rintro rfl
  exact h member

theorem completeLines_append (body rest : List UInt8) :
    completeLines (body ++ [lineFeed] ++ rest) = body ++ [lineFeed] ++ completeLines rest := by
  induction rest using List.reverseRecOn with
  | nil =>
    rw [List.append_nil, completeLines, List.rdropWhile_concat_neg _ _ _ (by simp),
      completeLines_of_unended List.not_mem_nil, List.append_nil]
  | append_singleton rest b ih =>
    rw [completeLines, ← List.append_assoc, List.rdropWhile_concat, completeLines,
      List.rdropWhile_concat]
    split
    · exact ih
    · rw [List.append_assoc]

open Scanner in
/-- **The scanners of a source with and without a failed read are abreast**, from the start of any
line on. -/
theorem Lines.abreast {lines : List (List UInt8)} {bytes before : List UInt8}
    (h : Lines lines bytes) (reason : String) {k : Nat} (hk : k ≤ bytes.length) (lineno : Nat)
    (outside : inComment (before ++ completeLines (bytes.take k)) = false)
    (fresh : ∀ b ∈ before.getLast?, b = lineFeed) :
    Abreast reason (lineno + 1 + (bytes.take k).count lineFeed) true before
      ⟨ofLines lines, lineno⟩ ⟨ofLinesFailing reason k lines, lineno⟩ := by
  induction h generalizing k before lineno with
  | nil =>
    obtain rfl : k = 0 := Nat.le_zero.mp hk
    rw [List.take_nil, completeLines_of_unended List.not_mem_nil, List.append_nil] at outside
    exact .failure outside fresh (.ended (near_refl _ _))
  | @last body nonempty unended =>
    have hUnended : lineFeed ∉ body.take k := fun member => unended (List.mem_of_mem_take member)
    have hEnded : ¬ isEnded body := fun ended =>
      unended (List.mem_of_getLast? (beq_iff_eq.mp ended))
    have hCut : k < body.length ∨ (k = body.length ∧ ¬ isEnded body) :=
      (Nat.lt_or_eq_of_le hk).imp_right fun hAll => ⟨hAll, hEnded⟩
    rw [completeLines_of_unended hUnended, List.append_nil] at outside
    rw [List.count_eq_zero.mpr hUnended, ofLinesFailing, if_pos hCut]
    exact abreast_cut (fun _ hNone => absurd hNone List.not_mem_nil) outside fresh
  | @cons body rest lines unended tail ih =>
    by_cases hCut : k < (body ++ [lineFeed]).length
    · have hTake : (body ++ [lineFeed] ++ rest).take k = body.take k := by
        rw [List.length_append, List.length_singleton] at hCut
        rw [List.append_assoc, List.take_append_of_le_length (by omega)]
      have hUnended : lineFeed ∉ body.take k := fun member => unended (List.mem_of_mem_take member)
      rw [hTake, completeLines_of_unended hUnended, List.append_nil] at outside
      rw [hTake, List.count_eq_zero.mpr hUnended, ofLinesFailing, if_pos (.inl hCut)]
      exact abreast_cut tail.nonempty outside fresh
    · have hTake : (body ++ [lineFeed] ++ rest).take k =
          body ++ [lineFeed] ++ rest.take (k - (body ++ [lineFeed]).length) := by
        rw [List.take_append, List.take_of_length_le (Nat.le_of_not_lt hCut)]
      have hEnded : isEnded (body ++ [lineFeed]) := by simp [isEnded]
      have hCount : (body ++ [lineFeed]).count lineFeed = 1 := by
        rw [count_append_lineFeed, List.count_eq_zero.mpr unended]
      rw [List.length_append] at hk
      rw [hTake, completeLines_append, ← List.append_assoc] at outside
      have hTail := @ih _ (k - (body ++ [lineFeed]).length) (by omega) (lineno + 1) outside
        (by simp)
      rw [hTake, List.count_append, hCount, ofLinesFailing,
        if_neg (not_or.mpr ⟨hCut, fun hAll => hAll.2 hEnded⟩), ofLines_cons, ← Nat.add_assoc]
      exact .line _ (.other _ (abreast_bytes _ (near_refl _ _) hTail))

/-- The calls of a scanner for which a read fails once, beside those of a scanner for which none
fails.  The calls of the latter give `tokens`, from number `last` on the end of the source.  For the
former, call `n` fails, and the others give the same tokens in the same order. -/
structure Interrupted (whole cut : Scanner) (reason : String) (failing : Nat)
    (tokens given : Nat → Token) (n last : Nat) : Prop where
  whole : ∀ bound, (whole.calls (fun _ => true) bound).map Prod.fst =
    (List.range bound).map fun i => .ok (tokens i)
  cut : ∀ bound, (cut.calls (fun _ => true) bound).map Prod.fst =
    (List.range bound).map fun i =>
      if i < n then .ok (given i) else if i = n then .error (.io reason) else .ok (given (i - 1))
  alike : ∀ i, Scanner.Alike failing (tokens i) (given i)
  ends : ∀ i, (tokens i).kind = .endOfFile ↔ last ≤ i

/-- **A failed read outside of comments loses no token.**  Let a read fail after `k` bytes, in a
line at whose start no comment is open.  Then exactly one call fails, and the others give the tokens
of the source, up to lines: from the line of the failure on, the line that is given may be the one
before. -/
theorem Scanner.calls_interrupted {bytes : List UInt8} {k : Nat} (hk : k ≤ bytes.length)
    (outside : inComment (completeLines (bytes.take k)) = false) (reason : String)
    (written : ByteArray) (options : Options) :
    ∃ tokens given n last, Interrupted
      { feed := .ofBytes bytes, listing := { written }, options }
      { feed := .ofBytesFailing reason k bytes, listing := { written }, options }
      reason (1 + (bytes.take k).count lineFeed) tokens given n last := by
  let position : Position := ⟨ofBytes bytes, 0⟩
  let position' : Position := ⟨ofBytesFailing reason k bytes, 0⟩
  have abreast : Abreast reason (1 + (bytes.take k).count lineFeed) true [] position position' := by
    have := @Lines.abreast _ bytes [] (lines_splitLines bytes) reason k hk 0 outside
      fun _ hNone => absurd hNone (Option.not_mem_none _)
    rwa [Nat.zero_add] at this
  have quiet : (silent position).Quiet := ⟨unfailing_ofBytes bytes, rfl⟩
  obtain ⟨n, hBefore, hError, hBehind⟩ := exists_later_error abreast rfl quiet
  obtain ⟨last, -, ordinary⟩ := ordinary_upcoming quiet
  -- The tokens from number `n` on are given one call later.
  let place (i : Nat) : Nat := if i < n then i else i + 1
  have hAgree : ∀ i, Agree (1 + (bytes.take k).count lineFeed) (silent position) (silent position')
      i (place i) := by
    intro i
    by_cases hi : i < n
    · rw [show place i = i from if_pos hi]
      exact hBefore i hi
    · rw [show place i = i + 1 from if_neg hi]
      exact hBehind i (Nat.le_of_not_lt hi)
  refine ⟨(silent position).upcoming, fun i => (silent position').upcoming (place i), n, last,
    fun bound => ?_, fun bound => ?_, fun i => (hAgree i).upcoming.2, ordinary.ends⟩
  · rw [outcomes_calls]
    refine List.map_congr_left fun i _ => ?_
    rw [← call_later quiet]
    exact outcome_standing position options rfl i
  · rw [outcomes_calls]
    refine List.map_congr_left fun i _ => (outcome_standing position' options rfl i).trans ?_
    rcases Nat.lt_trichotomy i n with hi | rfl | hi
    · have hPlace : place i = i := if_pos hi
      have hGiven := (hAgree i).upcoming.1
      rw [hPlace] at hGiven
      rw [if_pos hi, hPlace, hGiven]
    · rw [if_neg (Nat.lt_irrefl i), if_pos rfl, hError]
    · have hPlace : place (i - 1) = i := (if_neg (by omega)).trans (by omega)
      have hGiven := (hAgree (i - 1)).upcoming.1
      rw [hPlace] at hGiven
      rw [if_neg (by omega), if_neg (by omega), hPlace, hGiven]

/-- The lines `y{a}` and `x:=12`. -/
def cutSource : List UInt8 := [121, 123, 97, 125, 10, 120, 58, 61, 49, 50, 10]

/-- The read fails between the two bytes of `:=`. -/
theorem Scanner.calls_interrupted_cutSource :
    7 ≤ cutSource.length ∧ inComment (completeLines (cutSource.take 7)) = false ∧
      ∃ tokens given n last, Interrupted { feed := .ofBytes cutSource }
        { feed := .ofBytesFailing "broken pipe" 7 cutSource } "broken pipe" 2 tokens given n last :=
  ⟨by decide, by decide, calls_interrupted (by decide) (by decide) "broken pipe" .empty {}⟩

end Tiny
