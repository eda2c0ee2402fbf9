import Tiny.Token.Scanner

/-!
# Sources in pieces

A source is divided into the pieces that are tokens and the gaps between them, without regard to how
it is read.  A gap consists of blanks and comments.  A piece is a run of digits or letters that
cannot be made longer, or `:=`, or a single byte.

* `Gap`, `LastGap`, `Piece`: what may stand between tokens, behind the last one, and for a token.
* `Divides`: a division of some bytes.
* `Divides.unique`: there is at most one.
* `Part.tokens`: the tokens of a division.
* `identifier_bytes`: an identifier is known by its lexeme.
-/

namespace Tiny

/-! ### Gaps -/

/-- Bytes between tokens: blanks and comments.  A comment ends with the first byte that closes. -/
inductive Gap : List UInt8 → Prop
  | nil : Gap []
  | blank {b : UInt8} {rest : List UInt8} (isSpace : isSpaceByte b = true) (tail : Gap rest) :
      Gap (b :: rest)
  | comment {body rest : List UInt8} (inside : commentClose ∉ body) (tail : Gap rest) :
      Gap (commentOpen :: (body ++ commentClose :: rest))

/-- Bytes behind the last token: a gap, perhaps with a comment behind it that is never closed. -/
inductive LastGap : List UInt8 → Prop
  | closed {gap : List UInt8} (gaps : Gap gap) : LastGap gap
  | opened {gap body : List UInt8} (gaps : Gap gap) (inside : commentClose ∉ body) :
      LastGap (gap ++ commentOpen :: body)

/-- A byte that is neither a blank nor the start of a comment. -/
def Solid (b : UInt8) : Prop :=
  isSpaceByte b = false ∧ b ≠ commentOpen

/-- Bytes that do not start with a gap. -/
inductive Halts : List UInt8 → Prop
  | nil : Halts []
  | solid {b : UInt8} {rest : List UInt8} (h : Solid b) : Halts (b :: rest)
  | opened {body : List UInt8} (inside : commentClose ∉ body) : Halts (commentOpen :: body)

theorem takeWhile_run {p : UInt8 → Bool} {run rest : List UInt8} (hRun : ∀ b ∈ run, p b = true)
    (hRest : ∀ b ∈ rest.head?, p b = false) : (run ++ rest).takeWhile p = run := by
  rw [List.takeWhile_append_of_pos hRun]
  cases rest with
  | nil => simp
  | cons b rest => simp [hRest b rfl]

/-- A comment ends at one place. -/
theorem eq_of_close {body body' rest rest' : List UInt8}
    (h : body ++ commentClose :: rest = body' ++ commentClose :: rest')
    (inside : commentClose ∉ body) (inside' : commentClose ∉ body') :
    body = body' ∧ rest = rest' := by
  have hTake : ∀ {body : List UInt8} (rest : List UInt8), commentClose ∉ body →
      (body ++ commentClose :: rest).takeWhile (· != commentClose) = body := by
    intro body rest inside
    refine takeWhile_run (fun b member => bne_iff_ne.mpr ?_) (by simp)
    rintro rfl
    exact inside member
  obtain rfl : body = body' := by rw [← hTake rest inside, h, hTake rest' inside']
  exact ⟨rfl, (List.cons.inj (List.append_cancel_left h)).2⟩

theorem isSpaceByte_commentOpen : isSpaceByte commentOpen = false := by decide

/-- Bytes that do not start with a gap start with the empty gap only. -/
theorem Halts.eq_nil {bytes gap rest : List UInt8} (halts : Halts bytes) (gaps : Gap gap)
    (same : bytes = gap ++ rest) : gap = [] := by
  subst same
  cases gaps with
  | nil => rfl
  | blank isSpace tail =>
    cases halts with
    | solid solid =>
      rw [solid.1] at isSpace
      cases isSpace
    | opened inside =>
      rw [isSpaceByte_commentOpen] at isSpace
      cases isSpace
  | comment inside tail =>
    cases halts with
    | solid solid => exact absurd rfl solid.2
    | opened unclosed => simp at unclosed

/-- **A gap is as long as it can be**: where two gaps stand in front of bytes that do not go on with
a gap, they are the same. -/
theorem Gap.unique {gap gap' rest rest' : List UInt8} (h : Gap gap) (h' : Gap gap')
    (same : gap ++ rest = gap' ++ rest') (halts : Halts rest) (halts' : Halts rest') :
    gap = gap' ∧ rest = rest' := by
  induction h generalizing gap' with
  | nil =>
    obtain rfl := halts.eq_nil h' same
    exact ⟨rfl, same⟩
  | @blank b gap isSpace tail ih =>
    cases h' with
    | nil => cases halts'.eq_nil (.blank isSpace tail) same.symm
    | blank isSpace' tail' =>
      obtain ⟨rfl, hTail⟩ := List.cons.inj same
      obtain ⟨rfl, hRest⟩ := ih tail' hTail
      exact ⟨rfl, hRest⟩
    | comment inside tail' =>
      rw [(List.cons.inj same).1, isSpaceByte_commentOpen] at isSpace
      cases isSpace
  | @comment body gap inside tail ih =>
    cases h' with
    | nil => cases halts'.eq_nil (.comment inside tail) same.symm
    | blank isSpace' tail' =>
      rw [← (List.cons.inj same).1, isSpaceByte_commentOpen] at isSpace'
      cases isSpace'
    | comment inside' tail' =>
      simp only [List.cons_append, List.append_assoc, List.cons.injEq, true_and] at same
      obtain ⟨rfl, hTail⟩ := eq_of_close same inside inside'
      obtain ⟨rfl, hRest⟩ := ih tail' hTail
      exact ⟨rfl, hRest⟩

theorem LastGap.split {last : List UInt8} (h : LastGap last) :
    ∃ gap tail, last = gap ++ tail ∧ Gap gap ∧ Halts tail ∧ ∀ b ∈ tail.head?, ¬ Solid b := by
  cases h with
  | closed gaps => exact ⟨last, [], (List.append_nil last).symm, gaps, .nil, by simp⟩
  | @opened gap body gaps inside =>
    refine ⟨gap, commentOpen :: body, rfl, gaps, .opened inside, ?_⟩
    intro b hb solid
    obtain rfl : commentOpen = b := Option.some.inj hb
    exact solid.2 rfl

/-! ### Classes of bytes -/

theorem not_digit_or_letter_of_space {b : UInt8} (h : isSpaceByte b = true) :
    isDigitByte b = false ∧ isLetterByte b = false := by
  simp only [isSpaceByte, Bool.or_eq_true, beq_iff_eq] at h
  rcases h with (((rfl | rfl) | rfl) | rfl) | rfl <;> decide

theorem not_letter_of_digit {b : UInt8} (h : isDigitByte b = true) : isLetterByte b = false := by
  simp only [isDigitByte, Bool.and_eq_true, decide_eq_true_eq, UInt8.le_iff_toNat_le] at h
  simp only [isLetterByte, Bool.or_eq_false_iff, Bool.and_eq_false_iff, decide_eq_false_iff_not,
    UInt8.le_iff_toNat_le]
  have hLow : (0x39 : UInt8).toNat = 57 := rfl
  have hUpper : (0x41 : UInt8).toNat = 65 := rfl
  have hLower : (0x61 : UInt8).toNat = 97 := rfl
  omega

theorem solid_of_digit {b : UInt8} (h : isDigitByte b = true) : Solid b := by
  constructor
  · refine Bool.eq_false_iff.mpr fun isSpace => ?_
    rw [(not_digit_or_letter_of_space isSpace).1] at h
    cases h
  · rintro rfl
    exact absurd h (by decide)

theorem solid_of_letter {b : UInt8} (h : isLetterByte b = true) : Solid b := by
  constructor
  · refine Bool.eq_false_iff.mpr fun isSpace => ?_
    rw [(not_digit_or_letter_of_space isSpace).2] at h
    cases h
  · rintro rfl
    exact absurd h (by decide)

/-! ### Pieces -/

/-- How a reserved word is spelled. -/
def Keyword.spelling : Keyword → String
  | .kwIf => "if"
  | .kwThen => "then"
  | .kwElse => "else"
  | .kwEnd => "end"
  | .kwRepeat => "repeat"
  | .kwUntil => "until"
  | .kwRead => "read"
  | .kwWrite => "write"

/-- The signs of one byte. -/
def byteSigns : List (UInt8 × TokenKind) :=
  [(0x3D, .equal), (0x3C, .less), (0x2B, .plus), (0x2D, .hyphen), (0x2A, .star), (0x2F, .slash),
   (0x28, .leftParen), (0x29, .rightParen), (0x3B, .semicolon)]

/-- A run of bytes that satisfy `p`, which cannot be made longer on either side. -/
structure Maximal (p : UInt8 → Bool) (before run rest : List UInt8) : Prop where
  nonempty : run ≠ []
  all : ∀ b ∈ run, p b = true
  starts : ∀ b ∈ before.getLast?, p b = false
  ends : ∀ b ∈ rest.head?, p b = false

/-- The bytes of a token between `before` and `rest`, with the kind of the token. -/
inductive Piece (before rest : List UInt8) : List UInt8 → TokenKind → Prop
  | number {run : List UInt8} (digits : Maximal isDigitByte before run rest) :
      Piece before rest run .number
  | reserved {run : List UInt8} {word : Keyword} (letters : Maximal isLetterByte before run rest)
      (spelled : lexemeOf run = word.spelling) : Piece before rest run (.keyword word)
  | name {run : List UInt8} (letters : Maximal isLetterByte before run rest)
      (free : ∀ word : Keyword, lexemeOf run ≠ word.spelling) : Piece before rest run .identifier
  | assign : Piece before rest [colon, equalSign] .assign
  | lone (alone : rest.head? ≠ some equalSign) : Piece before rest [colon] .unknown
  | sign {b : UInt8} {kind : TokenKind} (known : (b, kind) ∈ byteSigns) : Piece before rest [b] kind
  | stray {b : UInt8} (solid : Solid b) (noDigit : isDigitByte b = false)
      (noLetter : isLetterByte b = false) (noColon : b ≠ colon)
      (noSign : ∀ kind, (b, kind) ∉ byteSigns) : Piece before rest [b] .unknown

theorem Keyword.ofWord?_spelling (word : Keyword) : Keyword.ofWord? word.spelling = some word := by
  cases word <;> rfl

theorem Keyword.eq_spelling {text : String} {word : Keyword}
    (h : Keyword.ofWord? text = some word) : text = word.spelling := by
  unfold Keyword.ofWord? at h
  split at h <;> cases h <;> rfl

theorem ofByte_of_sign :
    ∀ sign ∈ byteSigns, TokenKind.ofByte sign.1 = sign.2 ∧ sign.2 ≠ .unknown := by
  decide

theorem mem_byteSigns {b : UInt8} {kind : TokenKind} :
    (b, kind) ∈ byteSigns ↔ TokenKind.ofByte b = kind ∧ kind ≠ .unknown := by
  constructor
  · exact ofByte_of_sign (b, kind)
  · rintro ⟨rfl, known⟩
    by_cases hSign : b ∈ byteSigns.map Prod.fst
    · obtain ⟨sign, member, rfl⟩ := List.mem_map.mp hSign
      rw [(ofByte_of_sign sign member).1]
      exact member
    · simp only [byteSigns, List.map_cons, List.map_nil, List.mem_cons, List.not_mem_nil, or_false,
        not_or] at hSign
      simp only [TokenKind.ofByte, hSign, if_false, ne_eq, not_true_eq_false] at known

/-- A sign belongs to no other class of bytes. -/
theorem apart_of_sign {b : UInt8} {kind : TokenKind} (known : (b, kind) ∈ byteSigns) :
    isDigitByte b = false ∧ isLetterByte b = false ∧ b ≠ colon ∧ isSpaceByte b = false ∧
      b ≠ commentOpen := by
  have hAll : ∀ sign ∈ byteSigns, isDigitByte sign.1 = false ∧ isLetterByte sign.1 = false ∧
      sign.1 ≠ colon ∧ isSpaceByte sign.1 = false ∧ sign.1 ≠ commentOpen := by decide
  exact hAll _ known

/-- A run of letters is a reserved word or a name. -/
theorem piece_word {before rest run : List UInt8} (letters : Maximal isLetterByte before run rest) :
    Piece before rest run (.ofWord (lexemeOf run)) := by
  unfold TokenKind.ofWord
  split
  next word hWord => exact .reserved letters (Keyword.eq_spelling hWord)
  next hWord =>
    refine .name letters fun word spelled => ?_
    rw [spelled, word.ofWord?_spelling] at hWord
    cases hWord

theorem piece_byte {before rest : List UInt8} {b : UInt8} (solid : Solid b)
    (noDigit : isDigitByte b = false) (noLetter : isLetterByte b = false) (noColon : b ≠ colon) :
    Piece before rest [b] (.ofByte b) := by
  by_cases hKind : TokenKind.ofByte b = .unknown
  · rw [hKind]
    refine .stray solid noDigit noLetter noColon fun kind known => ?_
    obtain ⟨rfl, hKnown⟩ := mem_byteSigns.mp known
    exact hKnown hKind
  · exact .sign (mem_byteSigns.mpr ⟨rfl, hKind⟩)

/-- A piece starts with a byte that ends a gap. -/
theorem Piece.solid {before rest run : List UInt8} {kind : TokenKind}
    (h : Piece before rest run kind) : ∃ b tail, run = b :: tail ∧ Solid b := by
  have hRun : ∀ {p : UInt8 → Bool}, (∀ b, p b = true → Solid b) → Maximal p before run rest →
      ∃ b tail, run = b :: tail ∧ Solid b := by
    intro p hp maximal
    obtain ⟨b, tail, rfl⟩ := List.exists_cons_of_ne_nil maximal.nonempty
    exact ⟨b, tail, rfl, hp b (maximal.all b List.mem_cons_self)⟩
  cases h with
  | number digits => exact hRun (fun _ => solid_of_digit) digits
  | reserved letters spelled => exact hRun (fun _ => solid_of_letter) letters
  | name letters free => exact hRun (fun _ => solid_of_letter) letters
  | assign => exact ⟨_, _, rfl, by decide, by decide⟩
  | lone alone => exact ⟨_, _, rfl, by decide, by decide⟩
  | sign known => exact ⟨_, _, rfl, (apart_of_sign known).2.2.2⟩
  | stray solid => exact ⟨_, _, rfl, solid⟩

theorem Piece.halts {before rest run : List UInt8} {kind : TokenKind}
    (h : Piece before rest run kind) : Halts (run ++ rest) := by
  obtain ⟨b, tail, rfl, solid⟩ := h.solid
  exact .solid solid

theorem Piece.kind_ne {before rest run : List UInt8} {kind : TokenKind}
    (h : Piece before rest run kind) : kind ≠ .endOfFile := by
  cases h with
  | number digits => decide
  | reserved letters spelled => exact nofun
  | name letters free => decide
  | assign => decide
  | lone alone => decide
  | sign known =>
    have hAll : ∀ sign ∈ byteSigns, sign.2 ≠ .endOfFile := by decide
    exact hAll _ known
  | stray solid => decide

/-- The piece that some bytes start with, found by looking at the first of them. -/
def munch : List UInt8 → List UInt8 × TokenKind
  | [] => ([], .unknown)
  | b :: rest =>
    if isDigitByte b then ((b :: rest).takeWhile isDigitByte, .number)
    else if isLetterByte b then
      let word := (b :: rest).takeWhile isLetterByte
      (word, .ofWord (lexemeOf word))
    else if b = colon then
      if rest.head? = some equalSign then ([colon, equalSign], .assign) else ([colon], .unknown)
    else ([b], .ofByte b)

theorem munch_of_digits {before run rest : List UInt8} (h : Maximal isDigitByte before run rest) :
    munch (run ++ rest) = (run, .number) := by
  have hTake := takeWhile_run h.all h.ends
  obtain ⟨b, tail, rfl⟩ := List.exists_cons_of_ne_nil h.nonempty
  rw [List.cons_append] at hTake ⊢
  rw [munch, if_pos (h.all b List.mem_cons_self), hTake]

theorem munch_of_letters {before run rest : List UInt8} (h : Maximal isLetterByte before run rest) :
    munch (run ++ rest) = (run, .ofWord (lexemeOf run)) := by
  have hTake := takeWhile_run h.all h.ends
  obtain ⟨b, tail, rfl⟩ := List.exists_cons_of_ne_nil h.nonempty
  have hLetter := h.all b List.mem_cons_self
  have hDigit : ¬ isDigitByte b = true := by
    intro hDigit
    rw [not_letter_of_digit hDigit] at hLetter
    cases hLetter
  rw [List.cons_append] at hTake ⊢
  rw [munch, if_neg hDigit, if_pos hLetter, hTake]

theorem munch_of_byte {b : UInt8} (hDigit : isDigitByte b = false) (hLetter : isLetterByte b = false)
    (hColon : b ≠ colon) (rest : List UInt8) : munch ([b] ++ rest) = ([b], .ofByte b) := by
  rw [List.singleton_append, munch, if_neg (by simp [hDigit]), if_neg (by simp [hLetter]),
    if_neg hColon]

theorem munch_of_piece {before rest run : List UInt8} {kind : TokenKind}
    (h : Piece before rest run kind) : munch (run ++ rest) = (run, kind) := by
  cases h with
  | number digits => exact munch_of_digits digits
  | @reserved run word letters spelled =>
    rw [munch_of_letters letters, TokenKind.ofWord, spelled, word.ofWord?_spelling]
  | name letters free =>
    rw [munch_of_letters letters, TokenKind.ofWord]
    cases hWord : Keyword.ofWord? (lexemeOf run) with
    | none => rfl
    | some word => exact absurd (Keyword.eq_spelling hWord) (free word)
  | assign => rfl
  | lone alone =>
    show (if rest.head? = some equalSign then _ else _) = _
    rw [if_neg alone]
  | sign known =>
    obtain ⟨hDigit, hLetter, hColon, -⟩ := apart_of_sign known
    rw [munch_of_byte hDigit hLetter hColon, (mem_byteSigns.mp known).1]
  | @stray b solid noDigit noLetter noColon noSign =>
    have hUnknown : TokenKind.ofByte b = .unknown :=
      Decidable.byContradiction fun hKnown => noSign _ (mem_byteSigns.mpr ⟨rfl, hKnown⟩)
    rw [munch_of_byte noDigit noLetter noColon, hUnknown]

/-- **A piece is determined by the bytes from its first one on.** -/
theorem Piece.unique {before before' rest rest' run run' : List UInt8} {kind kind' : TokenKind}
    (h : Piece before rest run kind) (h' : Piece before' rest' run' kind')
    (same : run ++ rest = run' ++ rest') : run = run' ∧ kind = kind' ∧ rest = rest' := by
  have hMunch : (run, kind) = (run', kind') := by
    rw [← munch_of_piece h, same, munch_of_piece h']
  obtain ⟨rfl, rfl⟩ := Prod.mk.inj hMunch
  exact ⟨rfl, rfl, List.append_cancel_left same⟩

/-! ### Borders -/

/-- No run of digits or letters goes on from `before` to `bytes`. -/
def Parted (before bytes : List UInt8) : Prop :=
  ∀ a ∈ before.getLast?, ∀ b ∈ bytes.head?,
    (isDigitByte a = true → isDigitByte b = false) ∧
      (isLetterByte a = true → isLetterByte b = false)

theorem parted_nil (bytes : List UInt8) : Parted [] bytes :=
  fun _ ha => nomatch ha

theorem Parted.maximal {before run rest : List UInt8} {first : UInt8} {p : UInt8 → Bool}
    (h : Parted before (first :: (run ++ rest))) (hp : p = isDigitByte ∨ p = isLetterByte)
    (all : ∀ b ∈ first :: run, p b = true) (ends : ∀ b ∈ rest.head?, p b = false) :
    Maximal p before (first :: run) rest := by
  refine ⟨List.cons_ne_nil first run, all, fun a ha => ?_, ends⟩
  have hFirst := all first List.mem_cons_self
  obtain ⟨hDigit, hLetter⟩ := h a ha first rfl
  rcases hp with rfl | rfl
  · refine Bool.eq_false_iff.mpr fun hLast => ?_
    rw [hDigit hLast] at hFirst
    cases hFirst
  · refine Bool.eq_false_iff.mpr fun hLast => ?_
    rw [hLetter hLast] at hFirst
    cases hFirst

theorem getLast?_append_of_ne_nil {run : List UInt8} (hRun : run ≠ []) (before : List UInt8) :
    (before ++ run).getLast? = run.getLast? := by
  rw [List.getLast?_append, List.getLast?_eq_some_getLast hRun, Option.some_or]

theorem Parted.append {run bytes : List UInt8} (h : Parted run bytes) (hRun : run ≠ [])
    (before : List UInt8) : Parted (before ++ run) bytes := by
  rw [Parted, getLast?_append_of_ne_nil hRun]
  exact h

/-- A byte that is no part of a run, nor the second byte of `:=`. -/
def Severs (b : UInt8) : Prop :=
  isDigitByte b = false ∧ isLetterByte b = false ∧ b ≠ equalSign

theorem severs_of_space {b : UInt8} (h : isSpaceByte b = true) : Severs b := by
  obtain ⟨hDigit, hLetter⟩ := not_digit_or_letter_of_space h
  refine ⟨hDigit, hLetter, ?_⟩
  rintro rfl
  exact absurd h (by decide)

/-- A gap ends with a blank or with the end of a comment. -/
theorem Gap.severs_last {gap : List UInt8} (gaps : Gap gap) : ∀ b ∈ gap.getLast?, Severs b := by
  have hCons : ∀ {a b : UInt8} {rest : List UInt8}, a ∈ (b :: rest).getLast? →
      a = b ∨ a ∈ rest.getLast? := by
    intro a b rest ha
    cases rest with
    | nil => exact .inl (Option.some.inj ha).symm
    | cons c rest => exact .inr ha
  induction gaps with
  | nil => exact fun _ ha => nomatch ha
  | blank isSpace tail ih =>
    intro a ha
    rcases hCons ha with rfl | ha
    · exact severs_of_space isSpace
    · exact ih a ha
  | @comment body rest inside tail ih =>
    intro a ha
    rw [← List.cons_append, getLast?_append_of_ne_nil (List.cons_ne_nil _ _)] at ha
    rcases hCons ha with rfl | ha
    · exact ⟨by decide, by decide, by decide⟩
    · exact ih a ha

theorem Gap.parted {gap : List UInt8} (gaps : Gap gap) (bytes : List UInt8) :
    Parted gap bytes := by
  intro a ha b hb
  obtain ⟨hDigit, hLetter, -⟩ := gaps.severs_last a ha
  simp [hDigit, hLetter]

/-- The border behind a gap. -/
theorem Parted.gap {before gap bytes : List UInt8} (h : Parted before (gap ++ bytes))
    (gaps : Gap gap) : Parted (before ++ gap) bytes := by
  cases gap with
  | nil =>
    rw [List.append_nil]
    exact h
  | cons b gap => exact (gaps.parted bytes).append (List.cons_ne_nil b gap) before

/-- A byte that is no digit and no letter. -/
theorem parted_byte {b : UInt8} (hDigit : isDigitByte b = false) (hLetter : isLetterByte b = false)
    (bytes : List UInt8) : Parted [b] bytes := by
  intro a ha
  obtain rfl : b = a := Option.some.inj ha
  simp [hDigit, hLetter]

theorem Maximal.parted_digits {before run rest : List UInt8}
    (h : Maximal isDigitByte before run rest) : Parted run rest := by
  intro a ha b hb
  refine ⟨fun _ => h.ends b hb, fun hLetter => ?_⟩
  rw [not_letter_of_digit (h.all a (List.mem_of_getLast? ha))] at hLetter
  cases hLetter

theorem Maximal.parted_letters {before run rest : List UInt8}
    (h : Maximal isLetterByte before run rest) : Parted run rest := by
  intro a ha b hb
  refine ⟨fun hDigit => ?_, fun _ => h.ends b hb⟩
  have hLetter := h.all a (List.mem_of_getLast? ha)
  rw [not_letter_of_digit hDigit] at hLetter
  cases hLetter

/-- The border behind a piece. -/
theorem Piece.parted {before rest run : List UInt8} {kind : TokenKind}
    (h : Piece before rest run kind) : Parted (before ++ run) rest := by
  cases h with
  | number digits => exact digits.parted_digits.append digits.nonempty before
  | reserved letters spelled => exact letters.parted_letters.append letters.nonempty before
  | name letters free => exact letters.parted_letters.append letters.nonempty before
  | assign =>
    have hSign : Parted [equalSign] rest := parted_byte (by decide) (by decide) rest
    exact (hSign.append (List.cons_ne_nil _ _) [colon]).append (List.cons_ne_nil _ _) before
  | lone alone =>
    exact (parted_byte (by decide) (by decide) rest).append (List.cons_ne_nil _ _) before
  | sign known =>
    obtain ⟨hDigit, hLetter, -⟩ := apart_of_sign known
    exact (parted_byte hDigit hLetter rest).append (List.cons_ne_nil _ _) before
  | stray solid noDigit noLetter =>
    exact (parted_byte noDigit noLetter rest).append (List.cons_ne_nil _ _) before

/-! ### Divisions -/

/-- A piece with its kind, and the gap in front of it. -/
structure Part where
  gap : List UInt8
  bytes : List UInt8
  kind : TokenKind
deriving DecidableEq, Repr

/-- The bytes behind `before` are the given parts, one after the other, with `last` behind them. -/
def Divides (before : List UInt8) : List Part → (last bytes : List UInt8) → Prop
  | [], last, bytes => bytes = last ∧ LastGap last
  | part :: parts, last, bytes => ∃ rest, bytes = part.gap ++ (part.bytes ++ rest) ∧
      Gap part.gap ∧ Piece (before ++ part.gap) rest part.bytes part.kind ∧
      Divides (before ++ (part.gap ++ part.bytes)) parts last rest

/-- Behind the last piece there is no other. -/
theorem LastGap.ne_part {last gap before run rest : List UInt8} {kind : TokenKind}
    (h : LastGap last) (gaps : Gap gap) (piece : Piece before rest run kind) :
    last ≠ gap ++ (run ++ rest) := by
  intro same
  obtain ⟨gap', tail, rfl, gaps', halts, hTail⟩ := h.split
  obtain ⟨b, left, rfl, solid⟩ := piece.solid
  obtain ⟨-, rfl⟩ := gaps'.unique gaps same halts (.solid solid)
  exact hTail b rfl solid

/-- **Bytes are divided in one way.** -/
theorem Divides.unique {before bytes last last' : List UInt8} {parts parts' : List Part}
    (h : Divides before parts last bytes) (h' : Divides before parts' last' bytes) :
    parts = parts' ∧ last = last' := by
  induction parts generalizing before bytes parts' with
  | nil =>
    obtain ⟨rfl, ends⟩ := h
    cases parts' with
    | nil => exact ⟨rfl, h'.1⟩
    | cons part' parts' =>
      obtain ⟨rest', same, gaps', piece', -⟩ := h'
      exact absurd same (ends.ne_part gaps' piece')
  | cons part parts ih =>
    obtain ⟨rest, rfl, gaps, piece, h⟩ := h
    cases parts' with
    | nil => exact absurd h'.1.symm (h'.2.ne_part gaps piece)
    | cons part' parts' =>
      obtain ⟨gap, run, kind⟩ := part
      obtain ⟨gap', run', kind'⟩ := part'
      obtain ⟨rest', same, gaps', piece', h'⟩ := h'
      obtain ⟨rfl, same⟩ := gaps.unique gaps' same piece.halts piece'.halts
      obtain ⟨rfl, rfl, rfl⟩ := piece.unique piece' same
      obtain ⟨rfl, rfl⟩ := ih h h'
      exact ⟨rfl, rfl⟩

/-- No byte is left out, and none is used twice. -/
theorem Divides.eq_flatMap {before bytes last : List UInt8} {parts : List Part}
    (h : Divides before parts last bytes) :
    bytes = (parts.flatMap fun part => part.gap ++ part.bytes) ++ last := by
  induction parts generalizing before bytes with
  | nil => exact h.1
  | cons part parts ih =>
    obtain ⟨rest, rfl, -, -, h⟩ := h
    rw [List.flatMap_cons, List.append_assoc, ← ih h, List.append_assoc]

/-! ### Tokens -/

namespace Part

/-- The token of a part that starts on a line.  A part that is too long keeps its first bytes only,
and stands for no number or name. -/
def token (part : Part) (line : Nat) : Token :=
  if part.bytes.length ≤ maxLexeme then ⟨part.kind, lexemeOf part.bytes, line⟩
  else ⟨.unknown, lexemeOf (part.bytes.take maxLexeme), line⟩

/-- The tokens of parts behind `before`.  A token stands on the line behind the line feeds before
it. -/
def tokens (before : List UInt8) : List Part → List Token
  | [] => []
  | part :: parts =>
    part.token (1 + (before ++ part.gap).count Feed.lineFeed) ::
      tokens (before ++ (part.gap ++ part.bytes)) parts

theorem token_kind_ne {part : Part} (h : part.kind ≠ .endOfFile) (line : Nat) :
    (part.token line).kind ≠ .endOfFile := by
  unfold token
  split
  · exact h
  · exact nofun

end Part

theorem Divides.kind_ne {before bytes last : List UInt8} {parts : List Part}
    (h : Divides before parts last bytes) :
    ∀ token ∈ Part.tokens before parts, token.kind ≠ .endOfFile := by
  induction parts generalizing before bytes with
  | nil => exact fun _ member => nomatch member
  | cons part parts ih =>
    obtain ⟨rest, rfl, -, piece, h⟩ := h
    exact List.forall_mem_cons.mpr ⟨Part.token_kind_ne piece.kind_ne _, ih h⟩

theorem lexemeOf_inj {a b : List UInt8} (h : lexemeOf a = lexemeOf b) : a = b := by
  have hChars := congrArg String.toList h
  rw [lexemeOf, lexemeOf, String.toList_ofList, String.toList_ofList] at hChars
  refine (List.map_inj_right fun x y hChar => ?_).mp hChars
  exact UInt8.toUInt32_inj.mp (congrArg Char.val hChar)

/-- **An identifier is known by its lexeme.** -/
theorem identifier_bytes {part part' : Part} {line line' : Nat}
    (h : (part.token line).kind = .identifier) (h' : (part'.token line').kind = .identifier)
    (same : (part.token line).lexeme = (part'.token line').lexeme) : part.bytes = part'.bytes := by
  have hLexeme : ∀ {part : Part} {line : Nat}, (part.token line).kind = .identifier →
      (part.token line).lexeme = lexemeOf part.bytes := by
    intro part line h
    unfold Part.token at h ⊢
    split
    · rfl
    next hLong =>
      rw [if_neg hLong] at h
      cases h
  exact lexemeOf_inj ((hLexeme h).symm.trans (same.trans (hLexeme h')))

end Tiny
