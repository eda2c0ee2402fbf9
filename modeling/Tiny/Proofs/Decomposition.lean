import Mathlib.Data.List.Forall2
import Mathlib.Data.List.TakeDrop
import Mathlib.Data.List.TakeWhile
import Tiny.Instruction.Listing
import Tiny.Proofs.Decimal

/-!
# The lines of a listing

What stands on a line of a listing is said without a reader: `Form` says how a line with an
instruction is put together, and `Parts.Says` what its parts stand for.  The reader accepts these
lines, blank ones and comments, and nothing else.

* `run?_eq_some_iff`, …, `parts?_eq_some_iff`: one lemma for each reader, which says exactly what
  it takes off the front of a text; the last one says that a line is taken apart as it is put
  together.
* `instruction_eq_ok_iff`: the parts are read as the instruction that they stand for.
* `readLine_eq_ok_iff`: so a line is read as the instruction that it holds.
* `readLines_cases`: lines are read up to the first one that cannot be read.
* `read_accepts`: what is read of a whole listing.
-/

namespace Tiny

namespace Text

/-! ### Kinds of characters -/

/-- The code points of blanks. -/
def blankCodes : List Nat :=
  [9, 10, 11, 12, 13, 0x20, 0x85, 0xA0, 0x1680, 0x2000, 0x2001, 0x2002, 0x2003, 0x2004, 0x2005,
   0x2006, 0x2007, 0x2008, 0x2009, 0x200A, 0x2028, 0x2029, 0x202F, 0x205F, 0x3000]

theorem mem_blankCodes {c : Char} (h : isBlank c = true) : c.toNat ∈ blankCodes := by
  simp only [isBlank, Bool.or_eq_true, Bool.and_eq_true, decide_eq_true_eq, beq_iff_eq] at h
  simp only [blankCodes, List.mem_cons, List.not_mem_nil, or_false]
  omega

/-- No script has a digit that is blank. -/
theorem isDigit_of_isBlank {c : Char} (h : isBlank c = true) : isDigit c = false := by
  have hApart : ∀ n ∈ blankCodes,
      zeros.any (fun start => start ≤ n && n < start + 10) = false := by
    decide +kernel
  exact hApart _ (mem_blankCodes h)

/-- Kinds of characters that are apart are so in both directions. -/
theorem apart_symm (p q : Char → Bool) (apart : ∀ c, p c = true → q c = false) {c : Char}
    (h : q c = true) : p c = false := by
  cases hp : p c with
  | false => rfl
  | true => exact absurd h (by rw [apart c hp]; decide)

theorem isBlank_of_isDigit {c : Char} (h : isDigit c = true) : isBlank c = false :=
  apart_symm isBlank isDigit (fun _ => isDigit_of_isBlank) h

theorem isBlank_of_isLetter {c : Char} (h : Listing.isLetter c = true) : isBlank c = false := by
  simp only [Listing.isLetter, Bool.or_eq_true, Bool.and_eq_true, decide_eq_true_eq, Char.le_def,
    UInt32.le_iff_toNat_le] at h
  have hCode : (65 ≤ c.toNat ∧ c.toNat ≤ 90) ∨ (97 ≤ c.toNat ∧ c.toNat ≤ 122) := h
  simp only [isBlank, Bool.or_eq_false_iff, Bool.and_eq_false_iff, beq_eq_false_iff_ne,
    decide_eq_false_iff_not]
  omega

/-- A text without the blanks at both ends. -/
def trim (text : List Char) : List Char :=
  ((text.dropWhile isBlank).reverse.dropWhile isBlank).reverse

theorem trim_eq_cons {text rest : List Char} {c : Char} (h : text.dropWhile isBlank = c :: rest) :
    ∃ more, trim text = c :: more := by
  have hc : isBlank c = false := by
    have hHead := List.head?_dropWhile_not isBlank text
    rw [h] at hHead
    simpa using hHead
  rw [trim, h, List.reverse_cons, List.dropWhile_append]
  split
  · exact ⟨[], by rw [List.dropWhile_cons_of_neg (by simp [hc])]; rfl⟩
  · exact ⟨(rest.reverse.dropWhile isBlank).reverse, by simp⟩

end Text

namespace Listing

/-! ### How a line is put together -/

/-- A run of characters that satisfy `p` ends in front of the rest. -/
def EndsRun (p : Char → Bool) (rest : List Char) : Prop :=
  ∀ c ∈ rest.head?, p c = false

/-- Blanks, or nothing. -/
def Blanks (gap : List Char) : Prop :=
  ∀ c ∈ gap, Text.isBlank c = true

/-- Letters, at least one. -/
def Letters (text : List Char) : Prop :=
  text ≠ [] ∧ ∀ c ∈ text, isLetter c = true

/-- Digits of any script, at least one. -/
def Digits (text : List Char) : Prop :=
  text ≠ [] ∧ ∀ c ∈ text, Text.isDigit c = true

/-- Digits with an optional minus sign. -/
def Integer (text : List Char) : Prop :=
  Digits text ∨ ∃ digits, text = '-' :: digits ∧ Digits digits

/-- What stands behind the second operand: a base register in parentheses, or a third register
after a comma, which goes as far as there are digits.  Anything may follow. -/
inductive Ending (t : List Char) : Bool → List Char → Prop
  | indexed {w₁ w₂ rest : List Char} : Blanks w₁ → Integer t → Blanks w₂ →
      Ending t true ('(' :: (w₁ ++ (t ++ (w₂ ++ ')' :: rest))))
  | registers {w rest : List Char} : Blanks w → Integer t → EndsRun Text.isDigit rest →
      Ending t false (',' :: (w ++ (t ++ rest)))

/-- A line is put together from the parts of an instruction. -/
inductive Form : List Char → Parts → Prop
  | mk {w₀ location w₁ name w₂ r w₃ w₄ s w₅ t ending : List Char} {indexed : Bool} :
      Blanks w₀ → Digits location → Blanks w₁ → Letters name → Blanks w₂ → w₂ ≠ [] →
      Integer r → Blanks w₃ → Blanks w₄ → Integer s → Blanks w₅ → Ending t indexed ending →
      Form (w₀ ++ (location ++ ':' :: (w₁ ++ (name ++ (w₂ ++ (r ++ (w₃ ++ ',' ::
        (w₄ ++ (s ++ (w₅ ++ ending)))))))))) ⟨location, name, r, s, t, indexed⟩

/-! ### Where runs end -/

variable {p : Char → Bool} {text rest w : List Char} {c : Char}

theorem endsRun_nil (p : Char → Bool) : EndsRun p [] := nofun

theorem endsRun_cons (h : p c = false) (rest : List Char) :
    EndsRun p (c :: rest) := by
  rintro d hd
  obtain rfl : c = d := Option.some.inj hd
  exact h

theorem takeWhile_of_endsRun (ends : EndsRun p rest) :
    rest.takeWhile p = [] := by
  cases rest with
  | nil => rfl
  | cons d rest => rw [List.takeWhile_cons_of_neg (by simp [ends d rfl])]

theorem dropWhile_of_endsRun (ends : EndsRun p rest) :
    rest.dropWhile p = rest := by
  cases rest with
  | nil => rfl
  | cons d rest => rw [List.dropWhile_cons_of_neg (by simp [ends d rfl])]

theorem endsRun_dropWhile (p : Char → Bool) (text : List Char) :
    EndsRun p (text.dropWhile p) := by
  intro c hc
  have h := List.head?_dropWhile_not p text
  rw [hc] at h
  simpa using h

theorem endsRun_append (hNil : text ≠ []) (h : ∀ c ∈ text, p c = false) (rest : List Char) :
    EndsRun p (text ++ rest) := by
  cases text with
  | nil => exact absurd rfl hNil
  | cons c text => exact endsRun_cons (h c List.mem_cons_self) (text ++ rest)

/-- A run ends at a gap and what stands behind it. -/
theorem endsRun_gap (blanks : Blanks w) (apart : ∀ c, Text.isBlank c = true → p c = false)
    (ends : EndsRun p rest) : EndsRun p (w ++ rest) := by
  cases w with
  | nil => exact ends
  | cons c w => exact endsRun_cons (apart c (blanks c List.mem_cons_self)) (w ++ rest)

theorem Digits.endsBlank (h : Digits text) (rest : List Char) :
    EndsRun Text.isBlank (text ++ rest) :=
  endsRun_append h.1 (fun c hc => Text.isBlank_of_isDigit (h.2 c hc)) rest

theorem Letters.endsBlank (h : Letters text) (rest : List Char) :
    EndsRun Text.isBlank (text ++ rest) :=
  endsRun_append h.1 (fun c hc => Text.isBlank_of_isLetter (h.2 c hc)) rest

theorem Integer.endsBlank (h : Integer text) (rest : List Char) :
    EndsRun Text.isBlank (text ++ rest) := by
  rcases h with h | ⟨digits, rfl, -⟩
  · exact h.endsBlank rest
  · exact endsRun_cons (by decide) (digits ++ rest)

theorem Ending.endsDigits {t : List Char} {indexed : Bool} (h : Ending t indexed text) :
    EndsRun Text.isDigit text := by
  cases h with
  | indexed _ _ _ => exact endsRun_cons (by decide) _
  | registers _ _ _ => exact endsRun_cons (by decide) _

/-! ### What the readers take -/

theorem skipBlanks_eq_iff :
    skipBlanks text = rest ↔
      ∃ w, text = w ++ rest ∧ Blanks w ∧ EndsRun Text.isBlank rest := by
  constructor
  · rintro rfl
    refine ⟨text.takeWhile Text.isBlank, (List.takeWhile_append_dropWhile ..).symm, ?_,
      endsRun_dropWhile _ _⟩
    exact fun c hc => List.mem_takeWhile_imp hc
  · rintro ⟨w, rfl, blanks, ends⟩
    rw [skipBlanks, List.dropWhile_append_of_pos blanks, dropWhile_of_endsRun ends]

theorem run?_append {run : List Char} (hNil : run ≠ [])
    (h : ∀ c ∈ run, p c = true) (ends : EndsRun p rest) :
    run? p (run ++ rest) = some (run, rest) := by
  rw [run?, List.span_eq_takeWhile_dropWhile, List.takeWhile_append_of_pos h,
    List.dropWhile_append_of_pos h, takeWhile_of_endsRun ends, dropWhile_of_endsRun ends,
    List.append_nil]
  cases run with
  | nil => exact absurd rfl hNil
  | cons c run => rfl

theorem run?_eq_some_iff {run : List Char} :
    run? p text = some (run, rest) ↔
      text = run ++ rest ∧ run ≠ [] ∧ (∀ c ∈ run, p c = true) ∧ EndsRun p rest := by
  constructor
  · intro h
    rw [run?, List.span_eq_takeWhile_dropWhile] at h
    split at h
    · cases h
    · rename_i a b hNil heq
      obtain ⟨rfl, rfl⟩ := Prod.mk.inj heq
      obtain ⟨rfl, rfl⟩ := Prod.mk.inj (Option.some.inj h)
      exact ⟨(List.takeWhile_append_dropWhile ..).symm, hNil,
        fun c hc => List.mem_takeWhile_imp hc, endsRun_dropWhile _ _⟩
  · rintro ⟨rfl, hNil, h, ends⟩
    exact run?_append hNil h ends

theorem blanks?_eq_some_iff :
    blanks? text = some rest ↔
      ∃ w, text = w ++ rest ∧ w ≠ [] ∧ Blanks w ∧ EndsRun Text.isBlank rest := by
  constructor
  · intro h
    cases text with
    | nil => cases h
    | cons c text =>
      rw [blanks?] at h
      split at h
      · rename_i hc
        obtain ⟨w, rfl, blanks, ends⟩ := skipBlanks_eq_iff.mp (Option.some.inj h)
        exact ⟨c :: w, rfl, List.cons_ne_nil _ _, List.forall_mem_cons.mpr ⟨hc, blanks⟩, ends⟩
      · cases h
  · rintro ⟨w, rfl, hNil, blanks, ends⟩
    cases w with
    | nil => exact absurd rfl hNil
    | cons c w =>
      obtain ⟨hc, blanks⟩ := List.forall_mem_cons.mp blanks
      rw [List.cons_append, blanks?, if_pos hc, skipBlanks_eq_iff.mpr ⟨w, rfl, blanks, ends⟩]

theorem mark?_eq_some_iff (hc : Text.isBlank c = false) :
    mark? c text = some rest ↔
      ∃ w₁ w₂, text = w₁ ++ c :: (w₂ ++ rest) ∧ Blanks w₁ ∧ Blanks w₂ ∧
        EndsRun Text.isBlank rest := by
  constructor
  · intro h
    rw [mark?] at h
    split at h
    · rename_i d behind hSkip
      obtain ⟨w₁, rfl, blanks₁, -⟩ := skipBlanks_eq_iff.mp hSkip
      split at h
      · rename_i hd
        subst hd
        obtain ⟨w₂, rfl, blanks₂, ends⟩ := skipBlanks_eq_iff.mp (Option.some.inj h)
        exact ⟨w₁, w₂, rfl, blanks₁, blanks₂, ends⟩
      · cases h
    · cases h
  · rintro ⟨w₁, w₂, rfl, blanks₁, blanks₂, ends⟩
    have hMark : skipBlanks (w₁ ++ c :: (w₂ ++ rest)) = c :: (w₂ ++ rest) :=
      skipBlanks_eq_iff.mpr ⟨w₁, rfl, blanks₁, endsRun_cons hc _⟩
    rw [mark?, hMark]
    simp only [if_pos, skipBlanks_eq_iff.mpr ⟨w₂, rfl, blanks₂, ends⟩]

theorem integer?_eq_some_iff {number : List Char} :
    integer? text = some (number, rest) ↔
      text = number ++ rest ∧ Integer number ∧ EndsRun Text.isDigit rest := by
  constructor
  · intro h
    rw [integer?.eq_def] at h
    split at h
    · rename_i behind
      obtain ⟨⟨digits, rest'⟩, hRun, h⟩ := Option.bind_eq_some_iff.mp h
      obtain ⟨rfl, rfl⟩ := Prod.mk.inj (Option.some.inj h)
      obtain ⟨rfl, hNil, hDigits, ends⟩ := run?_eq_some_iff.mp hRun
      exact ⟨rfl, .inr ⟨digits, rfl, hNil, hDigits⟩, ends⟩
    · obtain ⟨rfl, hNil, hDigits, ends⟩ := run?_eq_some_iff.mp h
      exact ⟨rfl, .inl ⟨hNil, hDigits⟩, ends⟩
  · rintro ⟨rfl, hNumber | ⟨digits, rfl, hDigits⟩, ends⟩
    · rw [integer?]
      · exact run?_eq_some_iff.mpr ⟨rfl, hNumber.1, hNumber.2, ends⟩
      · -- a run of digits starts with no sign
        rintro behind heq
        obtain ⟨hNil, hDigits⟩ := hNumber
        cases number with
        | nil => exact hNil rfl
        | cons d number =>
          obtain rfl : d = '-' := (List.cons.inj heq).1
          exact absurd (hDigits '-' List.mem_cons_self) (by decide)
    · rw [List.cons_append, integer?, run?_eq_some_iff.mpr ⟨rfl, hDigits.1, hDigits.2, ends⟩]
      rfl

theorem lastOperand?_eq_some_iff {t : List Char} {indexed : Bool} :
    lastOperand? text = some (t, indexed) ↔
      ∃ w ending, text = w ++ ending ∧ Blanks w ∧ Ending t indexed ending := by
  constructor
  · intro h
    rw [lastOperand?] at h
    split at h
    · rename_i behind hOpen
      obtain ⟨⟨base, more⟩, hBase, h₁⟩ := Option.bind_eq_some_iff.mp h
      obtain ⟨rest, hClose, h₂⟩ := Option.bind_eq_some_iff.mp h₁
      obtain ⟨rfl, rfl⟩ := Prod.mk.inj (Option.some.inj h₂)
      obtain ⟨w, w₁, rfl, blanks, blanks₁, -⟩ := (mark?_eq_some_iff (by decide)).mp hOpen
      obtain ⟨rfl, number, -⟩ := integer?_eq_some_iff.mp hBase
      obtain ⟨w₂, w₃, rfl, blanks₂, -, -⟩ := (mark?_eq_some_iff (by decide)).mp hClose
      exact ⟨w, _, rfl, blanks, .indexed blanks₁ number blanks₂⟩
    · obtain ⟨behind, hComma, h₁⟩ := Option.bind_eq_some_iff.mp h
      obtain ⟨⟨third, rest⟩, hThird, h₂⟩ := Option.bind_eq_some_iff.mp h₁
      obtain ⟨rfl, rfl⟩ := Prod.mk.inj (Option.some.inj h₂)
      obtain ⟨w, w₁, rfl, blanks, blanks₁, -⟩ := (mark?_eq_some_iff (by decide)).mp hComma
      obtain ⟨rfl, number, ends⟩ := integer?_eq_some_iff.mp hThird
      exact ⟨w, _, rfl, blanks, .registers blanks₁ number ends⟩
  · rintro ⟨w, ending, rfl, blanks, hEnding⟩
    cases hEnding with
    | @indexed w₁ w₂ rest blanks₁ number blanks₂ =>
      have hOpen := (mark?_eq_some_iff (show Text.isBlank '(' = false by decide)).mpr
        ⟨w, w₁, rfl, blanks, blanks₁, number.endsBlank (w₂ ++ ')' :: rest)⟩
      have hEnds : EndsRun Text.isDigit (w₂ ++ ')' :: rest) :=
        endsRun_gap blanks₂ (fun _ => Text.isDigit_of_isBlank) (endsRun_cons (by decide) rest)
      have hBase := integer?_eq_some_iff.mpr ⟨rfl, number, hEnds⟩
      have hClose : mark? ')' (w₂ ++ ')' :: rest) = some (skipBlanks rest) := by
        obtain ⟨w₃, hRest, blanks₃, ends⟩ := skipBlanks_eq_iff.mp (rfl : skipBlanks rest = _)
        exact (mark?_eq_some_iff (by decide)).mpr
          ⟨w₂, w₃, by rw [← hRest], blanks₂, blanks₃, ends⟩
      rw [lastOperand?, hOpen]
      simp only [hBase, hClose, bind, Option.bind, pure]
    | @registers w₁ rest blanks₁ number ends =>
      have hOpen : mark? '(' (w ++ ',' :: (w₁ ++ (t ++ rest))) = none := by
        rw [mark?, skipBlanks_eq_iff.mpr ⟨w, rfl, blanks, endsRun_cons (by decide) _⟩]
        rfl
      have hComma := (mark?_eq_some_iff (show Text.isBlank ',' = false by decide)).mpr
        ⟨w, w₁, rfl, blanks, blanks₁, number.endsBlank rest⟩
      have hThird := integer?_eq_some_iff.mpr ⟨rfl, number, ends⟩
      rw [lastOperand?, hOpen]
      simp only [hComma, hThird, bind, Option.bind, pure]

/-- A line is taken apart into parts from which it is put together. -/
theorem form_of_parts? {line : List Char} {parts : Parts} (h : parts? line = some parts) :
    Form line parts := by
  obtain ⟨w₀, hLine, blanks₀, -⟩ := skipBlanks_eq_iff.mp (rfl : skipBlanks line = _)
  rw [parts?] at h
  obtain ⟨⟨location, rest⟩, hLocation, h₁⟩ := Option.bind_eq_some_iff.mp h
  simp only at h₁
  split at h₁
  · rename_i behind
    obtain ⟨⟨name, rest₂⟩, hName, h₂⟩ := Option.bind_eq_some_iff.mp h₁
    obtain ⟨rest₃, hBlanks, h₃⟩ := Option.bind_eq_some_iff.mp h₂
    obtain ⟨⟨r, rest₄⟩, hr, h₄⟩ := Option.bind_eq_some_iff.mp h₃
    obtain ⟨rest₅, hComma, h₅⟩ := Option.bind_eq_some_iff.mp h₄
    obtain ⟨⟨s, rest₆⟩, hs, h₆⟩ := Option.bind_eq_some_iff.mp h₅
    obtain ⟨⟨t, indexed⟩, hLast, h₇⟩ := Option.bind_eq_some_iff.mp h₆
    obtain rfl := Option.some.inj h₇
    obtain ⟨hRun, hNil, hDigits, -⟩ := run?_eq_some_iff.mp hLocation
    obtain ⟨w₁, hBehind, blanks₁, -⟩ := skipBlanks_eq_iff.mp (rfl : skipBlanks behind = _)
    obtain ⟨hSkip, hNil', hLetters, -⟩ := run?_eq_some_iff.mp hName
    obtain ⟨w₂, rfl, hGap, blanks₂, -⟩ := blanks?_eq_some_iff.mp hBlanks
    obtain ⟨rfl, number, -⟩ := integer?_eq_some_iff.mp hr
    obtain ⟨w₃, w₄, rfl, blanks₃, blanks₄, -⟩ := (mark?_eq_some_iff (by decide)).mp hComma
    obtain ⟨rfl, number', -⟩ := integer?_eq_some_iff.mp hs
    obtain ⟨w₅, ending, rfl, blanks₅, hEnding⟩ := lastOperand?_eq_some_iff.mp hLast
    rw [hLine, hRun, hBehind, hSkip]
    exact .mk blanks₀ ⟨hNil, hDigits⟩ blanks₁ ⟨hNil', hLetters⟩ blanks₂ hGap number blanks₃
      blanks₄ number' blanks₅ hEnding
  · cases h₁

theorem parts?_of_form {line : List Char} {parts : Parts} (h : Form line parts) :
    parts? line = some parts := by
  cases h with
  | @mk w₀ location w₁ name w₂ r w₃ w₄ s w₅ t ending indexed blanks₀ digits blanks₁ letters
    blanks₂ hGap number blanks₃ blanks₄ number' blanks₅ hEnding =>
    have hSkip : ∀ more, skipBlanks (w₀ ++ (location ++ more)) = location ++ more := fun more =>
      skipBlanks_eq_iff.mpr ⟨w₀, rfl, blanks₀, digits.endsBlank more⟩
    have hLocation : ∀ more, run? Text.isDigit (location ++ ':' :: more) =
        some (location, ':' :: more) := fun more =>
      run?_append digits.1 digits.2 (endsRun_cons (by decide) more)
    have hSkip' : ∀ more, skipBlanks (w₁ ++ (name ++ more)) = name ++ more := fun more =>
      skipBlanks_eq_iff.mpr ⟨w₁, rfl, blanks₁, letters.endsBlank more⟩
    have hName : ∀ more, run? isLetter (name ++ (w₂ ++ more)) = some (name, w₂ ++ more) :=
      fun more => run?_append letters.1 letters.2 (endsRun_append hGap
        (fun c hc => Text.apart_symm isLetter Text.isBlank
          (fun _ => Text.isBlank_of_isLetter) (blanks₂ c hc)) more)
    have hBlanks : ∀ more, blanks? (w₂ ++ (r ++ more)) = some (r ++ more) := fun more =>
      blanks?_eq_some_iff.mpr ⟨w₂, rfl, hGap, blanks₂, number.endsBlank more⟩
    have hFirst : ∀ more, integer? (r ++ (w₃ ++ ',' :: more)) = some (r, w₃ ++ ',' :: more) :=
      fun more => integer?_eq_some_iff.mpr ⟨rfl, number, endsRun_gap blanks₃
        (fun _ => Text.isDigit_of_isBlank) (endsRun_cons (by decide) more)⟩
    have hComma : ∀ more, mark? ',' (w₃ ++ ',' :: (w₄ ++ (s ++ more))) = some (s ++ more) :=
      fun more => (mark?_eq_some_iff (by decide)).mpr
        ⟨w₃, w₄, rfl, blanks₃, blanks₄, number'.endsBlank more⟩
    have hSecond : integer? (s ++ (w₅ ++ ending)) = some (s, w₅ ++ ending) :=
      integer?_eq_some_iff.mpr ⟨rfl, number', endsRun_gap blanks₅
        (fun _ => Text.isDigit_of_isBlank) hEnding.endsDigits⟩
    have hLast : lastOperand? (w₅ ++ ending) = some (t, indexed) :=
      lastOperand?_eq_some_iff.mpr ⟨w₅, ending, rfl, blanks₅, hEnding⟩
    rw [parts?, hSkip]
    simp only [hLocation, hSkip', hName, hBlanks, hFirst, hComma, hSecond, hLast, bind,
      Option.bind, pure]

/-- **A line is taken apart exactly as it is put together.** -/
theorem parts?_eq_some_iff {line : List Char} {parts : Parts} :
    parts? line = some parts ↔ Form line parts :=
  ⟨form_of_parts?, parts?_of_form⟩

theorem Form.numbers {line : List Char} {parts : Parts} (h : Form line parts) :
    Digits parts.location ∧ Integer parts.r ∧ Integer parts.s ∧ Integer parts.t := by
  cases h with
  | mk _ digits _ _ _ _ number _ _ number' _ ending =>
    refine ⟨digits, number, number', ?_⟩
    cases ending with
    | indexed _ third _ => exact third
    | registers _ third _ => exact third

/-! ### What the parts stand for -/

theorem Digits.head (h : Digits text) : ∃ c rest, text = c :: rest ∧ c ≠ '+' ∧ c ≠ '-' :=
  Decimal.head_of_run (by decide) (by decide) h.1 h.2

/-- Digits from `0` to `9` count `n`. -/
def Counts (digits : List Char) (n : Nat) : Prop :=
  (∀ c ∈ digits, c.isDigit = true) ∧ Nat.ofDigitChars 10 digits 0 = n

/-- Digits from `0` to `9`, perhaps behind a minus sign, amount to an integer. -/
inductive Amounts : List Char → Int → Prop
  | plus {digits : List Char} {n : Nat} : Counts digits n → Amounts digits n
  | minus {digits : List Char} {n : Nat} : Counts digits n → Amounts ('-' :: digits) (-n)

theorem readLocation_eq_ok_iff (digits : Digits text) {n : Nat} :
    Decimal.readLocation text = .ok n ↔ Counts text n ∧ n < 18446744073709551616 := by
  obtain ⟨c, rest, rfl, hPlus, -⟩ := digits.head
  rw [Decimal.readLocation, Decimal.readNat_cons hPlus,
    Decimal.readUp_eq_ok_iff (Nat.zero_le _), Counts, and_assoc]
  exact and_congr_right fun _ => and_congr_right fun _ => Nat.lt_succ_iff.symm

theorem map_eq_ok_iff {ε α β : Type} {f : α → β} {x : Except ε α} {b : β} :
    x.map f = .ok b ↔ ∃ a, x = .ok a ∧ f a = b := by
  cases x with
  | error fault => simp [Except.map]
  | ok a => simp [Except.map]

theorem readDown_eq_ok_iff {low : Nat} {digits : List Char} {i : Int} :
    Decimal.readDown low digits = .ok i ↔
      ∃ n, Decimal.readUp low 0 digits = .ok n ∧ -(n : Int) = i := by
  rw [Decimal.readDown]
  split
  · rename_i value h
    simp [h]
  · rename_i h
    simp [h]
  · rename_i fault _ h
    simp [h]

/-- An integer is read if it is within bounds. -/
theorem readInt_eq_ok_iff (number : Integer text) {low high : Nat} {i : Int} :
    Decimal.readInt low high text = .ok i ↔ Amounts text i ∧ -(low : Int) ≤ i ∧ i ≤ high := by
  rcases number with digits | ⟨digits, rfl, hDigits⟩
  · obtain ⟨c, rest, rfl, hPlus, hMinus⟩ := digits.head
    rw [Decimal.readInt_cons hPlus hMinus, map_eq_ok_iff]
    simp only [Decimal.readUp_eq_ok_iff (Nat.zero_le high)]
    constructor
    · rintro ⟨n, ⟨hAscii, hValue, hHigh⟩, rfl⟩
      exact ⟨.plus ⟨hAscii, hValue⟩, by simp only [Int.ofNat_eq_natCast]; omega,
        Int.ofNat_le.mpr hHigh⟩
    · rintro ⟨amounts, -, hHigh⟩
      cases amounts with
      | plus counts => exact ⟨_, ⟨counts.1, counts.2, Int.ofNat_le.mp hHigh⟩, rfl⟩
      | minus counts => exact absurd rfl hMinus
  · rw [Decimal.readInt_minus_digits hDigits.1, readDown_eq_ok_iff]
    simp only [Decimal.readUp_eq_ok_iff (Nat.zero_le low)]
    constructor
    · rintro ⟨n, ⟨hAscii, hValue, hLow⟩, rfl⟩
      exact ⟨.minus ⟨hAscii, hValue⟩, by omega, by omega⟩
    · rintro ⟨amounts, hLow, -⟩
      cases amounts with
      | plus counts => exact absurd (counts.1 '-' List.mem_cons_self) (by decide)
      | minus counts => exact ⟨_, ⟨counts.1, counts.2, by omega⟩, rfl⟩

theorem readWord_eq_ok_iff (number : Integer text) {word : Int32} :
    Decimal.readWord text = .ok word ↔ Amounts text word.toInt := by
  rw [Decimal.readWord, map_eq_ok_iff]
  simp only [readInt_eq_ok_iff number]
  constructor
  · rintro ⟨i, ⟨amounts, hLow, hHigh⟩, rfl⟩
    rwa [Int32.toInt_ofInt_of_le (by omega) (by omega)]
  · intro amounts
    have hLow := word.le_toInt
    have hHigh := word.toInt_lt
    exact ⟨word.toInt, ⟨amounts, by omega, by omega⟩, by simp⟩

theorem ofName?_eq_some_iff {name : String} {op : Opcode} :
    Opcode.ofName? name = some op ↔ op.name = name := by
  constructor
  · intro h
    simpa using List.find?_some h
  · rintro rfl
    cases op <;> decide

theorem opcode?_eq_some_iff {name : List Char} {op : Opcode} :
    opcode? name = some op ↔ name.map Char.toUpper = op.name.toList := by
  rw [opcode?, ofName?_eq_some_iff, ← String.toList_inj, String.toList_ofList]
  exact eq_comm

theorem isIndexed_iff {op : Opcode} {indexed : Bool} :
    op.isIndexed = indexed ↔ (indexed = true ↔ op.opClass ≠ .registerOnly) := by
  cases indexed with
  | false => simp [Opcode.isIndexed]
  | true => simp [Opcode.isIndexed]

/-- The parts of a line stand for an instruction at a location: the letters are its opcode, in any
case, a register in parentheses goes with the opcodes that have an address, and the digits are those
of the location, which has 64 bits, and of the operands, which are machine words. -/
structure Parts.Says (parts : Parts) (location : Nat) (i : Instruction) : Prop where
  name : parts.name.map Char.toUpper = i.op.name.toList
  form : parts.indexed = true ↔ i.op.opClass ≠ .registerOnly
  counts : Counts parts.location location
  fits : location < 18446744073709551616
  r : Amounts parts.r i.r.toInt
  s : Amounts parts.s i.s.toInt
  t : Amounts parts.t i.t.toInt

/-- A line holds an instruction at a location. -/
def Holds (line : List Char) (placed : Nat × Instruction) : Prop :=
  ∃ parts, Form line parts ∧ parts.Says placed.1 placed.2

theorem number_eq_ok_iff {α : Type} {reading : Except NumberFault α} {value : α} :
    number reading = .ok value ↔ reading = .ok value := by
  cases reading with
  | error fault => simp [number, Except.mapError]
  | ok a => simp [number, Except.mapError]

theorem bind_eq_ok_iff {ε α β : Type} {x : Except ε α} {f : α → Except ε β} {b : β} :
    (x >>= f) = .ok b ↔ ∃ a, x = .ok a ∧ f a = .ok b := by
  cases x with
  | error fault => simp [bind, Except.bind]
  | ok a => simp [bind, Except.bind]

/-- **The parts of a line are read as the instruction that they stand for.** -/
theorem instruction_eq_ok_iff {line : List Char} {parts : Parts} (h : Form line parts)
    {lineno : Nat} {placed : Nat × Instruction} :
    parts.instruction lineno = .ok placed ↔ parts.Says placed.1 placed.2 := by
  obtain ⟨hLocation, hr, hs, ht⟩ := h.numbers
  obtain ⟨location, op, r, s, t⟩ := placed
  constructor
  · intro hRead
    rw [Parts.instruction] at hRead
    split at hRead
    · cases hRead
    · rename_i op' hName
      simp only [bind_eq_ok_iff, number_eq_ok_iff] at hRead
      obtain ⟨location', hLocation', r', hr', s', hs', hRead⟩ := hRead
      split at hRead
      · rename_i hForm
        obtain ⟨t', ht', hRead⟩ := bind_eq_ok_iff.mp hRead
        cases hRead
        obtain ⟨counts, fits⟩ := (readLocation_eq_ok_iff hLocation).mp hLocation'
        exact ⟨opcode?_eq_some_iff.mp hName, isIndexed_iff.mp hForm, counts, fits,
          (readWord_eq_ok_iff hr).mp hr', (readWord_eq_ok_iff hs).mp hs',
          (readWord_eq_ok_iff ht).mp (number_eq_ok_iff.mp ht')⟩
      · cases hRead
  · intro stands
    rw [Parts.instruction, opcode?_eq_some_iff.mpr stands.name]
    simp only [bind_eq_ok_iff, number_eq_ok_iff]
    refine ⟨location, (readLocation_eq_ok_iff hLocation).mpr ⟨stands.counts, stands.fits⟩, r,
      (readWord_eq_ok_iff hr).mpr stands.r, s, (readWord_eq_ok_iff hs).mpr stands.s, ?_⟩
    rw [if_pos (isIndexed_iff.mpr stands.form), (readWord_eq_ok_iff ht).mpr stands.t]
    rfl

/-! ### Lines -/

/-- A line is blank, or it is a comment: a star stands first on it. -/
def Skips (line : List Char) : Prop :=
  Text.trim line = [] ∨ (Text.trim line).head? = some '*'

instance : DecidablePred Skips := fun line =>
  inferInstanceAs (Decidable (Text.trim line = [] ∨ (Text.trim line).head? = some '*'))

theorem isSkipped_iff {line : List Char} : isSkipped line = true ↔ Skips line := by
  rw [isSkipped]
  split
  · rename_i h
    have hTrim : Text.trim line = [] := by
      rw [skipBlanks] at h
      rw [Text.trim, h]
      rfl
    simp [Skips, hTrim]
  · rename_i c rest h
    obtain ⟨more, hTrim⟩ := Text.trim_eq_cons h
    simp [Skips, hTrim]

/-- **A line is read as the instruction that it holds**, whatever its number is. -/
theorem readLine_eq_ok_iff {lineno : Nat} {line : List Char} {placed : Nat × Instruction} :
    readLine lineno line = .ok placed ↔ Holds line placed := by
  rw [readLine, Holds]
  simp only [← parts?_eq_some_iff]
  cases h : parts? line with
  | none => simp
  | some parts =>
    simp [instruction_eq_ok_iff (form_of_parts? h)]

/-- The lines of a listing that are neither blank nor comments. -/
def instructionLines (lines : List (List Char)) : List (List Char) :=
  lines.filter fun line => ¬ Skips line

/-- Lines are read as the instructions on those that are not skipped. -/
theorem readLines_eq_ok_iff {lineno : Nat} {lines : List (List Char)}
    {placed : List (Nat × Instruction)} :
    readLines lineno lines = .ok placed ↔
      List.Forall₂ Holds (instructionLines lines) placed := by
  induction lines generalizing lineno placed with
  | nil =>
    rw [readLines, instructionLines, List.filter_nil, List.forall₂_nil_left_iff]
    exact ⟨fun h => (Except.ok.inj h).symm, fun h => congrArg _ h.symm⟩
  | cons line rest ih =>
    rw [readLines, instructionLines]
    by_cases hSkip : Skips line
    · rw [if_pos (isSkipped_iff.mpr hSkip), List.filter_cons_of_neg (by simpa using hSkip)]
      exact ih
    · rw [if_neg (mt isSkipped_iff.mp hSkip), List.filter_cons_of_pos (by simpa using hSkip),
        List.forall₂_cons_left_iff]
      simp only [bind_eq_ok_iff, readLine_eq_ok_iff, ih]
      constructor
      · rintro ⟨first, holds, others, hOthers, h⟩
        obtain rfl := Except.ok.inj h
        exact ⟨first, others, holds, hOthers, rfl⟩
      · rintro ⟨first, others, holds, hOthers, rfl⟩
        exact ⟨first, holds, others, hOthers, rfl⟩

/-- A line can stand in a listing: it is blank or a comment, or it holds an instruction. -/
def Admissible (line : List Char) : Prop :=
  Skips line ∨ ∃ placed, Holds line placed

theorem not_admissible {line : List Char} (hSkip : ¬ Skips line) {lineno : Nat}
    {fault : ListingFault} (h : readLine lineno line = .error fault) : ¬ Admissible line := by
  rintro (hIn | ⟨placed, holds⟩)
  · exact hSkip hIn
  · rw [readLine_eq_ok_iff.mpr holds] at h
    cases h

/-- Reading goes on behind a line that is admissible. -/
theorem readLines_cons {first : List Char} (h : Admissible first) (lineno : Nat)
    (rest : List (List Char)) :
    ∃ found, readLines lineno (first :: rest) =
      (readLines (lineno + 1) rest).map (found ++ ·) := by
  by_cases hSkip : Skips first
  · refine ⟨[], ?_⟩
    rw [readLines, if_pos (isSkipped_iff.mpr hSkip)]
    cases readLines (lineno + 1) rest <;> rfl
  · obtain ⟨placed, holds⟩ := h.resolve_left hSkip
    refine ⟨[placed], ?_⟩
    rw [readLines, if_neg (mt isSkipped_iff.mp hSkip), readLine_eq_ok_iff.mpr holds]
    cases readLines (lineno + 1) rest <;> rfl

/-- Reading stops at a line that cannot be read, whatever stands behind it. -/
theorem readLines_eq_error (lineno : Nat) {before : List (List Char)} {line : List Char}
    {fault : ListingFault} (good : ∀ earlier ∈ before, Admissible earlier)
    (hSkip : ¬ Skips line) (h : readLine (lineno + before.length) line = .error fault)
    (after : List (List Char)) :
    readLines lineno (before ++ line :: after) = .error fault := by
  induction before generalizing lineno with
  | nil =>
    rw [List.length_nil, Nat.add_zero] at h
    rw [List.nil_append, readLines, if_neg (mt isSkipped_iff.mp hSkip), h]
    rfl
  | cons first before ih =>
    rw [List.length_cons, Nat.add_comm before.length, ← Nat.add_assoc] at h
    obtain ⟨hFirst, hBefore⟩ := List.forall_mem_cons.mp good
    obtain ⟨found, hRead⟩ := readLines_cons hFirst lineno (before ++ line :: after)
    rw [List.cons_append, hRead, ih (lineno + 1) hBefore h]
    rfl

/-- Lines are all admissible and can be read, or there is a first one that cannot. -/
theorem readLines_cases (lineno : Nat) (lines : List (List Char)) :
    ((∀ line ∈ lines, Admissible line) ∧ ∃ placed, readLines lineno lines = .ok placed) ∨
    ∃ before line after fault, lines = before ++ line :: after ∧
      (∀ earlier ∈ before, Admissible earlier) ∧ ¬ Skips line ∧
      readLine (lineno + before.length) line = .error fault := by
  induction lines generalizing lineno with
  | nil => exact .inl ⟨fun line h => absurd h List.not_mem_nil, [], rfl⟩
  | cons first rest ih =>
    by_cases hFirst : Admissible first
    · rcases ih (lineno + 1) with
        ⟨good, placed, hRest⟩ | ⟨before, line, after, fault, rfl, good, hSkip, hLine⟩
      · obtain ⟨found, hRead⟩ := readLines_cons hFirst lineno rest
        rw [hRest] at hRead
        exact .inl ⟨List.forall_mem_cons.mpr ⟨hFirst, good⟩, found ++ placed, hRead⟩
      · refine .inr ⟨first :: before, line, after, fault, rfl,
          List.forall_mem_cons.mpr ⟨hFirst, good⟩, hSkip, ?_⟩
        rwa [List.length_cons, Nat.add_comm before.length, ← Nat.add_assoc]
    · obtain ⟨hSkip, hNone⟩ := not_or.mp hFirst
      cases hRead : readLine lineno first with
      | ok placed => exact absurd ⟨placed, readLine_eq_ok_iff.mp hRead⟩ hNone
      | error fault =>
        exact .inr ⟨[], first, rest, fault, rfl, fun line h => absurd h List.not_mem_nil, hSkip,
          hRead⟩

/-- Lines are read if all of them are admissible. -/
theorem exists_readLines_iff {lineno : Nat} {lines : List (List Char)} :
    (∃ placed, readLines lineno lines = .ok placed) ↔ ∀ line ∈ lines, Admissible line := by
  rcases readLines_cases lineno lines with
    ⟨good, hRead⟩ | ⟨before, line, after, fault, rfl, good, hSkip, hLine⟩
  · exact iff_of_true hRead good
  · refine iff_of_false ?_ fun all => not_admissible hSkip hLine (all line ?_)
    · rintro ⟨placed, h⟩
      rw [readLines_eq_error lineno good hSkip hLine] at h
      cases h
    · exact List.mem_append_right before List.mem_cons_self

/-- The fault of lines is that of the first one that is not admissible. -/
theorem readLines_eq_error_iff {lineno : Nat} {lines : List (List Char)} {fault : ListingFault} :
    readLines lineno lines = .error fault ↔
      ∃ before line after, lines = before ++ line :: after ∧
        (∀ earlier ∈ before, Admissible earlier) ∧ ¬ Admissible line ∧
        readLine (lineno + before.length) line = .error fault := by
  constructor
  · intro h
    rcases readLines_cases lineno lines with
      ⟨-, placed, hRead⟩ | ⟨before, line, after, other, rfl, good, hSkip, hLine⟩
    · rw [hRead] at h
      cases h
    · rw [readLines_eq_error lineno good hSkip hLine] at h
      obtain rfl := Except.error.inj h
      exact ⟨before, line, after, rfl, good, not_admissible hSkip hLine, hLine⟩
  · rintro ⟨before, line, after, rfl, good, hBad, hLine⟩
    exact readLines_eq_error lineno good (mt .inl hBad) hLine after

/-- **What is read of a listing.**  It is read if and only if every line is admissible, as the
instructions on its lines, in their order; otherwise the fault is that of the first line that is
not. -/
theorem read_accepts (text : String) :
    ((∃ placed, read text = .ok placed) ↔ ∀ line ∈ Text.lines text, Admissible line) ∧
    (∀ placed, read text = .ok placed ↔
      List.Forall₂ Holds (instructionLines (Text.lines text)) placed) ∧
    ∀ fault, read text = .error fault ↔
      ∃ before line after, Text.lines text = before ++ line :: after ∧
        (∀ earlier ∈ before, Admissible earlier) ∧ ¬ Admissible line ∧
        readLine (1 + before.length) line = .error fault :=
  ⟨exists_readLines_iff, fun _ => readLines_eq_ok_iff, fun _ => readLines_eq_error_iff⟩

end Listing

end Tiny
