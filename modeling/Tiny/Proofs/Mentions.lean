import Mathlib
import Tiny.Proofs.Recognition
import Tiny.Proofs.Tables
import Tiny.Proofs.Tokenisation

/-!
# Symbols follow the text

The symbol table of a program can be read off its tokens: the names are the identifiers, they have
their locations in the order in which they come first, and their lines are those of the identifiers
with one exception.  The name behind a `read` is recorded for the line of the `read`, which may be
an earlier one.

* `Token.mentions`: the names among tokens, with the lines for which they are recorded.
* `Sequence.mentions`: a derivation has the names of its tree, in the same order.
* `Scanner.sorted_drain`: the lines of the tokens of a source do not decrease.
* `Scanner.symbols_of_text`: so the table follows the text.
-/

namespace Tiny

/-! ### Names among tokens -/

namespace Token

/-- The names among tokens, with the lines for which they are recorded.  `reading` is the line of a
`read` right before the tokens. -/
def mentionsFrom (reading : Option Nat) : List Token → List (String × Nat)
  | [] => []
  | token :: rest =>
    if token.kind = .identifier then
      (token.lexeme, reading.getD token.line) :: mentionsFrom none rest
    else if token.kind = .keyword .kwRead then mentionsFrom (some token.line) rest
    else mentionsFrom none rest

/-- The names among tokens, in order: the name behind a `read` with the line of the `read`, every
other one with its own. -/
def mentions (tokens : List Token) : List (String × Nat) :=
  mentionsFrom none tokens

/-- The tokens that are names. -/
def identifiers (tokens : List Token) : List Token :=
  tokens.filter fun token => token.kind = .identifier

section

variable {token : Token} {rest tokens : List Token} {reading : Option Nat}

theorem mentionsFrom_identifier (h : token.kind = .identifier) :
    mentionsFrom reading (token :: rest) =
      (token.lexeme, reading.getD token.line) :: mentionsFrom none rest :=
  if_pos h

theorem mentionsFrom_read (h : token.kind = .keyword .kwRead) :
    mentionsFrom reading (token :: rest) = mentionsFrom (some token.line) rest := by
  rw [mentionsFrom, if_neg (by rw [h]; exact nofun), if_pos h]

theorem mentionsFrom_other (hName : token.kind ≠ .identifier)
    (hRead : token.kind ≠ .keyword .kwRead) :
    mentionsFrom reading (token :: rest) = mentionsFrom none rest := by
  rw [mentionsFrom, if_neg hName, if_neg hRead]

theorem identifiers_name (h : token.kind = .identifier) :
    identifiers (token :: rest) = token :: identifiers rest :=
  List.filter_cons_of_pos (decide_eq_true h)

theorem identifiers_other (h : token.kind ≠ .identifier) :
    identifiers (token :: rest) = identifiers rest :=
  List.filter_cons_of_neg fun hName => h (of_decide_eq_true hName)

/-- The names are those of the identifiers. -/
theorem map_fst_mentionsFrom (reading : Option Nat) (tokens : List Token) :
    (mentionsFrom reading tokens).map Prod.fst = (identifiers tokens).map Token.lexeme := by
  induction tokens generalizing reading with
  | nil => rfl
  | cons token rest ih =>
    by_cases hName : token.kind = .identifier
    · rw [mentionsFrom_identifier hName, identifiers_name hName, List.map_cons, List.map_cons, ih]
    · rw [identifiers_other hName]
      by_cases hRead : token.kind = .keyword .kwRead
      · rw [mentionsFrom_read hRead, ih]
      · rw [mentionsFrom_other hName hRead, ih]

/-- The lines are lines of tokens, in order. -/
theorem map_snd_mentionsFrom (reading : Option Nat) (tokens : List Token) :
    ((mentionsFrom reading tokens).map Prod.snd).Sublist
      (reading.toList ++ tokens.map Token.line) := by
  induction tokens generalizing reading with
  | nil => exact List.nil_sublist _
  | cons token rest ih =>
    have hRest : ((mentionsFrom none rest).map Prod.snd).Sublist (rest.map Token.line) := ih none
    by_cases hName : token.kind = .identifier
    · rw [mentionsFrom_identifier hName, List.map_cons, List.map_cons]
      cases reading with
      | none => exact hRest.cons_cons _
      | some line => exact (hRest.cons _).cons_cons _
    · have hSkip : ∀ {lines : List Nat}, lines.Sublist (token.line :: rest.map Token.line) →
          lines.Sublist (reading.toList ++ (token :: rest).map Token.line) :=
        fun h => h.trans (List.sublist_append_right _ _)
      by_cases hRead : token.kind = .keyword .kwRead
      · rw [mentionsFrom_read hRead]
        exact hSkip (ih (some token.line))
      · rw [mentionsFrom_other hName hRead]
        exact hSkip (hRest.cons _)

end

/-- Every `read` before a name stands on the line of the name. -/
def Unbroken (tokens : List Token) : Prop :=
  ∀ front read name back, tokens = front ++ read :: name :: back →
    read.kind = .keyword .kwRead → name.kind = .identifier → read.line = name.line

theorem unbroken_cons {token : Token} {rest : List Token} :
    Unbroken (token :: rest) ↔
      (∀ name ∈ rest.head?, token.kind = .keyword .kwRead → name.kind = .identifier →
        token.line = name.line) ∧ Unbroken rest := by
  constructor
  · intro h
    refine ⟨fun name hName => ?_, fun front read name back hRest => ?_⟩
    · obtain ⟨back, rfl⟩ := List.head?_eq_some_iff.mp hName
      exact h [] token name back rfl
    · exact h (token :: front) read name back (congrArg _ hRest)
  · rintro ⟨hFirst, hRest⟩ front read name back hSplit
    cases front with
    | nil =>
      obtain ⟨rfl, rfl⟩ := List.cons.inj hSplit
      exact hFirst name rfl
    | cons first front => exact hRest front read name back (List.cons.inj hSplit).2

/-- The lines are those of the identifiers exactly if every `read` stands on the line of its
name. -/
theorem mentionsFrom_eq_iff {reading : Option Nat} {tokens : List Token} :
    (mentionsFrom reading tokens = (identifiers tokens).map fun token =>
      (token.lexeme, token.line)) ↔
    (∀ name ∈ tokens.head?, name.kind = .identifier → ∀ line ∈ reading, line = name.line) ∧
      Unbroken tokens := by
  induction tokens generalizing reading with
  | nil =>
    refine iff_of_true rfl ⟨nofun, fun front _ _ _ hNil => ?_⟩
    cases front <;> cases hNil
  | cons token rest ih =>
    rw [unbroken_cons]
    by_cases hName : token.kind = .identifier
    · rw [mentionsFrom_identifier hName, identifiers_name hName, List.map_cons, List.cons.injEq, ih]
      refine and_congr ?_ ⟨fun h => ⟨fun _ _ hRead => ?_, h.2⟩, fun h => ⟨nofun, h.2⟩⟩
      · cases reading with
        | none => simp
        | some line => simp [hName]
      · rw [hName] at hRead
        cases hRead
    · have hHead : ∀ name ∈ (token :: rest).head?, name.kind = .identifier →
          ∀ line ∈ reading, line = name.line := by
        rintro _ ⟨⟩ hKind
        exact absurd hKind hName
      rw [identifiers_other hName]
      by_cases hRead : token.kind = .keyword .kwRead
      · rw [mentionsFrom_read hRead, ih]
        refine ⟨fun h => ⟨hHead, fun name first _ hKind => h.1 name first hKind _ rfl, h.2⟩, ?_⟩
        rintro ⟨-, hFirst, hRest⟩
        refine ⟨fun name first hKind line hLine => ?_, hRest⟩
        obtain rfl := Option.some.inj hLine
        exact hFirst name first hRead hKind
      · rw [mentionsFrom_other hName hRead, ih]
        exact ⟨fun h => ⟨hHead, fun _ _ hKind => absurd hKind hRead, h.2⟩, fun h => ⟨nofun, h.2.2⟩⟩

theorem mentions_eq_iff {tokens : List Token} :
    (mentions tokens = (identifiers tokens).map fun token => (token.lexeme, token.line)) ↔
      Unbroken tokens := by
  rw [mentions, mentionsFrom_eq_iff]
  exact ⟨And.right, fun h => ⟨fun _ _ _ => nofun, h⟩⟩

end Token

/-! ### Names in a derivation -/

namespace Grammar

/-- The tokens hold these names, whatever comes behind them. -/
def Names (tokens : List Token) (names : List (String × Nat)) : Prop :=
  ∀ rest, Token.mentions (tokens ++ rest) = names ++ Token.mentions rest

section

variable {a b : List Token} {x y : List (String × Nat)}

theorem names_nil : Names [] [] :=
  fun _ => rfl

theorem Names.append (ha : Names a x) (hb : Names b y) : Names (a ++ b) (x ++ y) := by
  intro rest
  rw [List.append_assoc, ha, hb, List.append_assoc]

theorem Names.eq (h : Names a x) : Token.mentions a = x := by
  have hAll := h []
  rw [List.append_nil] at hAll
  rw [hAll]
  exact List.append_nil x

theorem Lexed.names_name (name : Lexed .identifier) (h : Names a x) :
    Names (name.token :: a) ((name.token.lexeme, name.token.line) :: x) := by
  intro rest
  have hRest : Token.mentionsFrom none (a ++ rest) = _ := h rest
  rw [List.cons_append, Token.mentions, Token.mentionsFrom_identifier name.is, hRest]
  rfl

/-- A token that is neither a name nor a `read`. -/
theorem names_other {token : Token} (hName : token.kind ≠ .identifier)
    (hRead : token.kind ≠ .keyword .kwRead) (h : Names a x) : Names (token :: a) x := by
  intro rest
  rw [List.cons_append, Token.mentions, Token.mentionsFrom_other hName hRead]
  exact h rest

theorem Lexed.names_other {kind : TokenKind} (lexed : Lexed kind)
    (hKind : kind ≠ .identifier ∧ kind ≠ .keyword .kwRead) (h : Names a x) :
    Names (lexed.token :: a) x := by
  rw [← lexed.is] at hKind
  exact Grammar.names_other hKind.1 hKind.2 h

theorem Sign.names {table : List (TokenKind × Operator)} (sign : Sign table)
    (hTable : ∀ entry ∈ table, entry.1 ≠ .identifier ∧ entry.1 ≠ .keyword .kwRead)
    (h : Names a x) : Names (sign.token :: a) x :=
  names_other (hTable _ sign.listed).1 (hTable _ sign.listed).2 h

/-- The name behind a `read` counts for the line of the `read`. -/
theorem names_read (opening : Lexed (.keyword .kwRead)) (name : Lexed .identifier) :
    Names [opening.token, name.token] [(name.token.lexeme, opening.token.line)] := by
  intro rest
  rw [Token.mentions, List.cons_append, Token.mentionsFrom_read opening.is, List.cons_append,
    Token.mentionsFrom_identifier name.is]
  rfl

end

mutual

theorem Factor.names : ∀ d : Factor, Names d.tokens d.tree.occurrences
  | .number numeral => numeral.toLexed.names_other (by decide) names_nil
  | .name name => name.names_name names_nil
  | .parens left inner right => by
    have hRight := right.names_other (by decide) names_nil
    have hInner := inner.names.append hRight
    rw [List.append_nil] at hInner
    exact left.names_other (by decide) hInner

/-- The names of a chain stand behind those of its left side. -/
theorem Products.names : ∀ (d : Products) {a : List Token} {lhs : Expression},
    Names a lhs.occurrences → Names (a ++ d.tokens) (d.tree lhs).occurrences
  | .none, a, lhs, h => by
    rw [Products.tokens, List.append_nil]
    exact h
  | .more sign factor rest, a, lhs, h => by
    have hJoin : Names (a ++ sign.token :: factor.tokens)
        (sign.join lhs factor.tree).occurrences :=
      h.append (sign.names (by decide) factor.names)
    have hRest := rest.names hJoin
    rw [List.append_assoc] at hRest
    exact hRest

theorem Term.names : ∀ d : Term, Names d.tokens d.tree.occurrences
  | .mk first rest => rest.names first.names

@[inherit_doc Products.names]
theorem Sums.names : ∀ (d : Sums) {a : List Token} {lhs : Expression},
    Names a lhs.occurrences → Names (a ++ d.tokens) (d.tree lhs).occurrences
  | .none, a, lhs, h => by
    rw [Sums.tokens, List.append_nil]
    exact h
  | .more sign term rest, a, lhs, h => by
    have hJoin : Names (a ++ sign.token :: term.tokens) (sign.join lhs term.tree).occurrences :=
      h.append (sign.names (by decide) term.names)
    have hRest := rest.names hJoin
    rw [List.append_assoc] at hRest
    exact hRest

theorem Simple.names : ∀ d : Simple, Names d.tokens d.tree.occurrences
  | .mk first rest => rest.names first.names

theorem Exp.names : ∀ d : Exp, Names d.tokens d.tree.occurrences
  | .simple only => only.names
  | .comparison left sign right => left.names.append (sign.names (by decide) right.names)

end

mutual

theorem Stmt.names : ∀ d : Stmt, Names d.tokens d.tree.occurrences
  | .ifThen opening test middle yes closing => by
    have hYes := yes.names.append (closing.names_other (by decide) names_nil)
    rw [List.append_nil] at hYes
    exact opening.names_other (by decide)
      (test.names.append (middle.names_other (by decide) hYes))
  | .ifElse opening test middle yes turn no closing => by
    have hNo := no.names.append (closing.names_other (by decide) names_nil)
    rw [List.append_nil] at hNo
    exact opening.names_other (by decide) (test.names.append
      (middle.names_other (by decide) (yes.names.append (turn.names_other (by decide) hNo))))
  | .loop opening body closing test =>
    opening.names_other (by decide) (body.names.append (closing.names_other (by decide) test.names))
  | .assign name sign value => name.names_name (sign.names_other (by decide) value.names)
  | .read opening name => names_read opening name
  | .write opening value => opening.names_other (by decide) value.names

theorem Rest.names : ∀ d : Rest, Names d.tokens (Program.occurrences d.tree)
  | .none => names_nil
  | .more separator next rest => separator.names_other (by decide) (next.names.append rest.names)

theorem Sequence.names : ∀ d : Sequence, Names d.tokens (Program.occurrences d.tree)
  | .mk first rest => first.names.append rest.names

end

/-- **A derivation has the names of its tree**, in the order of the text. -/
theorem Sequence.mentions (d : Sequence) :
    Token.mentions d.tokens = Program.occurrences d.tree :=
  d.names.eq

end Grammar

/-! ### Lines of tokens -/

/-- **The lines of tokens do not decrease**, and none of them is before the line behind which the
scanner stands. -/
theorem Scanner.sorted_drain {bound : Nat} {scanner after : Scanner} {tokens : List Token}
    {last : Token} (h : drain bound scanner = .ok (tokens ++ [last]) after)
    {before bytes : List UInt8} (holds : scanner.Holds before bytes)
    (parted : Parted before bytes) :
    (∀ token ∈ tokens, 1 + before.count Feed.lineFeed ≤ token.line) ∧
      tokens.Pairwise fun a b => a.line ≤ b.line := by
  induction bound generalizing scanner tokens before bytes with
  | zero =>
    obtain ⟨hNil, -⟩ := ok_inj h
    exact absurd hNil (by simp)
  | succ bound ih =>
    obtain ⟨taken, middle, hNext, h⟩ := bind_eq_ok h
    cases tokens with
    | nil => exact ⟨nofun, .nil⟩
    | cons first tokens =>
      rcases next_part hNext holds parted with ⟨hEnd, -⟩ | ⟨part, rest, rfl, -, piece, rfl, held⟩
      · rw [if_pos hEnd] at h
        obtain ⟨hOne, -⟩ := ok_inj h
        exact absurd hOne (by simp)
      · rw [if_neg (Part.token_kind_ne piece.kind_ne _)] at h
        obtain ⟨others, _, hDrain, h⟩ := bind_eq_ok h
        obtain ⟨hTokens, rfl⟩ := ok_inj h
        obtain ⟨rfl, rfl⟩ := List.cons.inj hTokens
        have hParted := piece.parted
        rw [List.append_assoc] at hParted
        obtain ⟨hLines, sorted⟩ := ih hDrain held hParted
        have hLine : ∀ line, (part.token line).line = line := by
          intro line
          unfold Part.token
          split <;> rfl
        have hFirst : ∀ token ∈ tokens,
            1 + (before ++ part.gap).count Feed.lineFeed ≤ token.line := by
          intro token member
          have := hLines token member
          simp only [List.count_append] at this ⊢
          omega
        refine ⟨List.forall_mem_cons.mpr ⟨?_, fun token member => ?_⟩,
          List.pairwise_cons.mpr ⟨fun token member => ?_, sorted⟩⟩
        · rw [hLine, List.count_append]
          omega
        · have := hFirst token member
          rw [List.count_append] at this
          omega
        · rw [hLine]
          exact hFirst token member

/-! ### The table of a source -/

theorem linesOf_sorted {tokens : List Token} (sorted : tokens.Pairwise fun a b => a.line ≤ b.line)
    (name : String) : (linesOf name (Token.mentions tokens)).Pairwise (· ≤ ·) := by
  have hLines : (tokens.map Token.line).Pairwise (· ≤ ·) := List.pairwise_map.mpr sorted
  exact (hLines.sublist (Token.map_snd_mentionsFrom none tokens)).sublist
    ((List.filter_sublist).map Prod.snd)

/-- The lines of every name are those of its identifiers exactly if every `read` stands on the line
of its name. -/
theorem linesOf_mentions_iff {tokens : List Token} :
    (∀ name ∈ (Token.identifiers tokens).map Token.lexeme, linesOf name (Token.mentions tokens) =
      ((Token.identifiers tokens).filter fun token => token.lexeme = name).map Token.line) ↔
    Token.Unbroken tokens := by
  have hOwn : ∀ name, linesOf name ((Token.identifiers tokens).map fun token =>
      (token.lexeme, token.line)) =
      ((Token.identifiers tokens).filter fun token => token.lexeme = name).map Token.line := by
    intro name
    rw [linesOf, List.filter_map, List.map_map]
    rfl
  have hNames : (Token.mentions tokens).map Prod.fst =
      ((Token.identifiers tokens).map fun token => (token.lexeme, token.line)).map Prod.fst := by
    rw [Token.mentions, Token.map_fst_mentionsFrom, List.map_map]
    rfl
  rw [← Token.mentions_eq_iff]
  constructor
  · intro h
    refine eq_of_linesOf hNames fun name => ?_
    by_cases member : name ∈ (Token.identifiers tokens).map Token.lexeme
    · rw [h name member, hOwn]
    · have hNone : name ∉ (Token.mentions tokens).map Prod.fst := by
        rw [Token.mentions, Token.map_fst_mentionsFrom]
        exact member
      rw [linesOf_eq_nil hNone, linesOf_eq_nil (hNames ▸ hNone)]
  · intro h name _
    rw [h, hOwn]

/-- If nothing is reported for a source, its tokens before the end are derived, and the program is
the tree of the derivation. -/
theorem Scanner.derived_of_program {bytes : List UInt8} {written : ByteArray} {options : Options}
    {tree : Program} {parsed : Scanner}
    (h : Scanner.program { feed := .ofBytes bytes, listing := { written }, options } =
      .ok (tree, #[]) parsed) :
    let scanner : Scanner := { feed := .ofBytes bytes, listing := { written }, options }
    ∃ (d : Grammar.Sequence) (last : Token) (drained : Scanner),
      drain scanner.tokenBound scanner = .ok (d.tokens ++ [last]) drained ∧
      last.kind = .endOfFile ∧ tree = d.tree := by
  intro scanner
  have quiet : scanner.Quiet := ⟨Feed.unfailing_ofBytes bytes, rfl⟩
  obtain ⟨k, tokens, tree', found, j, ordinary, -, hDrain, hServe, hIff, hTree⟩ :=
    exists_parse quiet
  obtain ⟨hSame, -⟩ := ok_inj (h.symm.trans (runOn_of_serve quiet hServe))
  obtain ⟨rfl, rfl⟩ := Prod.mk.inj hSame
  obtain ⟨d, rfl⟩ := hIff.mp rfl
  exact ⟨d, _, _, hDrain, (ordinary.ends k).mpr (Nat.le_refl k), hTree d rfl⟩

/-- **The symbols of a program follow its text.**  If nothing is reported for a source, its table
holds the different identifiers of the source, located in the order in which they come first, each
with at least one line, and with lines that do not decrease.  They are the lines of the identifiers
if and only if every `read` stands on the line of its name.  The program is kept. -/
theorem Scanner.symbols_of_text {bytes : List UInt8} {written : ByteArray} {options : Options}
    {tree : Program} {parsed : Scanner}
    (h : Scanner.program { feed := .ofBytes bytes, listing := { written }, options } =
      .ok (tree, #[]) parsed) :
    let scanner : Scanner := { feed := .ofBytes bytes, listing := { written }, options }
    let symbols := Symbols.ofProgram tree
    ∃ tokens last drained,
      (drain scanner.tokenBound scanner = .ok (tokens ++ [last]) drained ∧
        last.kind = .endOfFile ∧ ∀ token ∈ tokens, token.kind ≠ .endOfFile) ∧
      (∀ name l, symbols.location? name = some l ↔
        ((Token.identifiers tokens).map Token.lexeme).eraseDups[l]? = some name) ∧
      (∀ name symbol, symbols.get? name = some symbol ↔
        name ∈ (Token.identifiers tokens).map Token.lexeme ∧
          symbol = ⟨name, linesOf name (Token.mentions tokens)⟩) ∧
      (∀ name symbol, symbols.get? name = some symbol →
        symbol.lines ≠ [] ∧ symbol.lines.Pairwise (· ≤ ·)) ∧
      ((∀ name symbol, symbols.get? name = some symbol → symbol.lines =
          ((Token.identifiers tokens).filter fun token => token.lexeme = name).map Token.line) ↔
        Token.Unbroken tokens) ∧
      ((Program.walk Symbols.collector tree).run {}).1 = tree := by
  intro scanner symbols
  obtain ⟨d, last, drained, hDrain, hLast, rfl⟩ := derived_of_program h
  have hSymbols : symbols = Symbols.insertAll {} (Token.mentions d.tokens) := by
    rw [d.mentions]
    exact Symbols.ofProgram_eq d.tree
  have hNames : (Token.mentions d.tokens).map Prod.fst =
      (Token.identifiers d.tokens).map Token.lexeme := Token.map_fst_mentionsFrom none d.tokens
  have hGet : ∀ name symbol, symbols.get? name = some symbol ↔
      name ∈ (Token.identifiers d.tokens).map Token.lexeme ∧
        symbol = ⟨name, linesOf name (Token.mentions d.tokens)⟩ := by
    intro name symbol
    rw [hSymbols, Symbols.get?_insertAll, hNames]
  have sorted := (sorted_drain hDrain (holds_ofBytes bytes _ options) (parted_nil bytes)).2
  refine ⟨d.tokens, last, drained, ⟨hDrain, hLast, fun token member => (d.known token member).1⟩,
    fun name l => ?_, hGet, fun name symbol hSymbol => ?_, ?_, ?_⟩
  · rw [hSymbols, Symbols.location?_insertAll, hNames]
  · obtain ⟨member, rfl⟩ := (hGet name symbol).mp hSymbol
    exact ⟨linesOf_ne_nil (hNames ▸ member), linesOf_sorted sorted name⟩
  · rw [← linesOf_mentions_iff]
    constructor
    · exact fun hLines name member => hLines name _ ((hGet name _).mpr ⟨member, rfl⟩)
    · intro hLines name symbol hSymbol
      obtain ⟨member, rfl⟩ := (hGet name symbol).mp hSymbol
      exact hLines name member
  · rw [Symbols.walk_all.2]

/-- The bytes of `read` and, on the next line, `x;y:=x`. -/
def brokenSource : List UInt8 :=
  [114, 101, 97, 100, 10, 120, 59, 121, 58, 61, 120]

/-- The program in these bytes. -/
def brokenTree : Program :=
  [.read "x" 1, .assign "y" (.reference "x" 2 .unresolved) 2]

/-- The tokens of these bytes before their end. -/
def brokenTokens : List Token :=
  [⟨.keyword .kwRead, "read", 1⟩, ⟨.identifier, "x", 2⟩, ⟨.semicolon, ";", 2⟩,
   ⟨.identifier, "y", 2⟩, ⟨.assign, ":=", 2⟩, ⟨.identifier, "x", 2⟩]

theorem Scanner.program_broken :
    ∃ parsed, program (start brokenSource) = .ok (brokenTree, #[]) parsed :=
  ⟨_, by cbv⟩

theorem Scanner.drain_broken :
    ∃ drained, drain (start brokenSource).tokenBound (start brokenSource) =
      .ok (brokenTokens ++ [⟨.endOfFile, "", 2⟩]) drained :=
  ⟨_, by cbv⟩

/-- Here `x` comes before `y`, and its lines are those of the `read` and of its last occurrence. -/
theorem Scanner.symbols_of_text_broken :
    let symbols := Symbols.ofProgram brokenTree
    (∃ parsed, program (start brokenSource) = .ok (brokenTree, #[]) parsed) ∧
      symbols.location? "x" = some 0 ∧ symbols.location? "y" = some 1 ∧
      symbols.get? "x" = some ⟨"x", [1, 2]⟩ ∧ symbols.get? "y" = some ⟨"y", [2]⟩ := by
  obtain ⟨parsed, hParse⟩ := program_broken
  obtain ⟨drained, hDrain⟩ := drain_broken
  obtain ⟨tokens, last, _, ⟨hTokens, -⟩, hLocation, hGet, -⟩ := symbols_of_text hParse
  obtain ⟨hSame, -⟩ := ok_inj (hTokens.symm.trans hDrain)
  obtain ⟨rfl, -⟩ := List.append_inj' hSame rfl
  refine ⟨⟨parsed, hParse⟩, (hLocation _ _).mpr ?_, (hLocation _ _).mpr ?_, (hGet _ _).mpr ?_,
    (hGet _ _).mpr ?_⟩
  all_goals decide

/-- All identifiers of this source stand on its second line, but `x` is recorded for the first. -/
theorem Scanner.symbols_broken :
    ∃ tree parsed last drained,
      program (start brokenSource) = .ok (tree, #[]) parsed ∧
      drain (start brokenSource).tokenBound (start brokenSource) =
        .ok (brokenTokens ++ [last]) drained ∧
      ((Token.identifiers brokenTokens).filter fun token => token.lexeme = "x").map Token.line =
        [2, 2] ∧
      (Symbols.ofProgram tree).get? "x" = some ⟨"x", [1, 2]⟩ := by
  obtain ⟨parsed, hParse⟩ := program_broken
  obtain ⟨drained, hDrain⟩ := drain_broken
  exact ⟨_, parsed, _, drained, hParse, hDrain, by decide, by decide⟩

end Tiny
