import Tiny.Proofs.Readback

/-!
# Filling in branches later gives the code in pieces

Code for a statement is written in one pass: a branch whose target is not known yet gets a reserved
location, and is written there as soon as the target is reached.  Statements inside do the same.
This file shows that the result is the code in pieces, `Assembly.program`, where every branch is
written at once with a distance that follows from the lengths of the parts.

* `lays_statement`: the code of a statement lays its code in pieces.
* `Comes`: which statements the code of a program comes to, and with which emitters.
* `Comes.ready`: every statement starts with an emitter behind all that was used, and its code
  stands in the code of the program from there on.
* `generate_eq_assembly`: the code of a program is the code in pieces.
-/

namespace Tiny

namespace Code

open Emitter Register

/-! ### The parts of a statement in front of its sequences -/

/-- The work for a choice up to its first sequence.  Gives the location reserved for the branch
over that sequence. -/
def ifOpening (symbols : Symbols) (test : Expression) : Emit Nat := do
  Emitter.comment "-> if"
  expression symbols 0 test
  let toElse ← Emitter.reserve 1
  Emitter.comment "if: jump to else belongs here"
  return toElse

/-- The work for a choice between its two sequences.  Gives the location reserved for the branch
over the second one. -/
def elseOpening (toElse : Nat) : Emit Nat := do
  let toEnd ← Emitter.reserve 1
  Emitter.comment "if: jump to end belongs here"
  jumpHere toElse .jeq ac "if: jmp to else"
  return toEnd

/-- The work for a loop up to its body.  Gives the location of the body. -/
def loopOpening : Emit Nat := do
  Emitter.comment "-> repeat"
  let top := (← get).location
  Emitter.comment "repeat: jump after body comes back here"
  return top

theorem statement_ifThen (symbols : Symbols) (test : Expression) (yes : List Statement)
    (line : Nat) :
    statement symbols (.ifThen test yes line) = (do
      let toElse ← ifOpening symbols test
      statements symbols yes
      jumpHere toElse .jeq ac "if: jmp to else"
      Emitter.comment "<- if") := by
  simp only [statement, ifOpening, bind_assoc, pure_bind]

theorem statement_ifElse (symbols : Symbols) (test : Expression) (yes no : List Statement)
    (line : Nat) :
    statement symbols (.ifElse test yes no line) = (do
      let toElse ← ifOpening symbols test
      statements symbols yes
      let toEnd ← elseOpening toElse
      statements symbols no
      jumpHere toEnd .lda pc "jmp to end"
      Emitter.comment "<- if") := by
  simp only [statement, ifOpening, elseOpening, bind_assoc, pure_bind]

theorem statement_loop (symbols : Symbols) (body : List Statement) (test : Expression)
    (line : Nat) :
    statement symbols (.loop body test line) = (do
      let top ← loopOpening
      statements symbols body
      expression symbols 0 test
      Emitter.placeBranch .jeq ac top "repeat: jmp back to body"
      Emitter.comment "<- repeat") := by
  simp only [statement, loopOpening, bind_assoc, pure_bind]

/-- The last reserved location is no longer reserved when it is filled. -/
theorem filter_ne_append_self {reserved : List Nat} {slot : Nat}
    (h : ∀ l ∈ reserved, l < slot) : (reserved ++ [slot]).filter (· ≠ slot) = reserved := by
  rw [List.filter_append, filter_ne_of_below h]
  simp

/-- Behind the opening of a choice the test is written, and the location behind it is reserved. -/
theorem ifOpening_run {symbols : Symbols} {test : Expression} (covered : test.Covered symbols)
    {emitter : Emitter} (ready : emitter.Ready)
    (small : emitter.location + (Assembly.expression symbols 0 test).length < 2147483648) :
    ∃ entries,
      ifOpening symbols test emitter =
        .ok (emitter.location + (Assembly.expression symbols 0 test).length)
          (emitter.reach entries
            (emitter.location + (Assembly.expression symbols 0 test).length + 1)
            (emitter.reserved ++
              [emitter.location + (Assembly.expression symbols 0 test).length])) ∧
      Entry.Carry entries
        (Assembly.located emitter.location (Assembly.expression symbols 0 test)) := by
  have hLays : Lays (Emitter.comment "-> if" >>= fun _ => expression symbols 0 test) _ :=
    (lays_expression covered 0).commented (by decide)
  obtain ⟨entries, h, carry⟩ := hLays emitter ready small
  have ready₁ := ready.advance entries (Assembly.expression symbols 0 test).length
  have ready₂ := ready₁.reserved
  have hSplit : ifOpening symbols test = ((Emitter.comment "-> if" >>= fun _ =>
      expression symbols 0 test) >>= fun _ => do
        let toElse ← Emitter.reserve 1
        Emitter.comment "if: jump to else belongs here"
        return toElse) := by
    simp only [ifOpening, bind_assoc]
  refine ⟨entries ++ [] ++ [.comment "if: jump to else belongs here"], ?_, ?_⟩
  · rw [hSplit, bind_of_ok h, bind_of_ok (reserve_run ready₁),
      bind_of_ok (ready₂.comment_run _), Emitter.advance]
    simp only [reach_reach, reach_location, reach_reserved]
    rfl
  · rw [List.append_nil, ← List.append_nil (Assembly.located _ _)]
    exact carry.append (Entry.carry_comment _ (by decide))

/-- Between the sequences of a choice the branch over the first one is written, and the location
behind it is reserved. -/
theorem elseOpening_run {emitter : Emitter} (ready : emitter.Ready) {reserved : List Nat}
    {toElse distance : Nat} (hReserved : emitter.reserved = reserved ++ [toElse])
    (below : ∀ l ∈ reserved, l < toElse) (here : emitter.location = toElse + 1 + distance)
    (small : emitter.location + 1 < 2147483648) :
    ∃ entries,
      elseOpening toElse emitter =
        .ok emitter.location
          (emitter.reach entries (emitter.location + 1) (reserved ++ [emitter.location])) ∧
      Entry.Carry entries [(toElse, Assembly.branch .jeq ac (distance + 1 : Nat))] := by
  have ready₁ := ready.reserved
  have ready₂ := ready₁.reach [.comment "if: jump to end belongs here"] ready₁.below
  have hIn : toElse ∈ emitter.reserved ++ [emitter.location] := by simp [hReserved]
  have hRest : (emitter.reserved ++ [emitter.location]).filter (· ≠ toElse) =
      reserved ++ [emitter.location] := by
    rw [List.filter_append, hReserved, filter_ne_append_self below]
    simp [show emitter.location ≠ toElse by omega]
  have hHere : emitter.location + 1 = toElse + 1 + (distance + 1) := by omega
  have hJump := jumpHere_run ready₂ hIn hHere .jeq ac "if: jmp to else" rfl (by decide) small
  refine ⟨_, ?_, (Entry.carry_comment "if: jump to end belongs here" (by decide)).append
    (Entry.carry_placed _ _ "if: jmp to else" (by decide))⟩
  rw [elseOpening, bind_of_ok (reserve_run ready), bind_of_ok (ready₁.comment_run _),
    bind_of_ok hJump]
  simp only [reach_reach, reach_location, reach_reserved, hRest]
  rfl

theorem loopOpening_run {emitter : Emitter} (ready : emitter.Ready) :
    ∃ entries,
      loopOpening emitter =
        .ok emitter.location (emitter.reach entries emitter.location emitter.reserved) ∧
      Entry.Carry entries [] := by
  have ready₁ := ready.reach [.comment "-> repeat"] ready.below
  refine ⟨[.comment "-> repeat"] ++ [.comment "repeat: jump after body comes back here"], ?_,
    (Entry.carry_comment _ (by decide)).append (Entry.carry_comment _ (by decide))⟩
  rw [loopOpening, bind_of_ok (ready.comment_run _), get_bind, bind_of_ok (ready₁.comment_run _),
    reach_reach]
  rfl

/-- Behind the last sequence of a choice the branch over it is written, and nothing that the choice
has reserved is left. -/
theorem closing_run {emitter : Emitter} (ready : emitter.Ready) {reserved : List Nat}
    {slot distance : Nat} (hReserved : emitter.reserved = reserved ++ [slot])
    (below : ∀ l ∈ reserved, l < slot) (here : emitter.location = slot + 1 + distance)
    (op : Opcode) (r : Nat) (note : String) (form : op.isIndexed = true) (hr : r < 8)
    (plain : '\n' ∉ note.toList) (small : emitter.location < 2147483648) :
    ∃ entries,
      (jumpHere slot op r note >>= fun _ => Emitter.comment "<- if") emitter =
        .ok () (emitter.reach entries emitter.location reserved) ∧
      Entry.Carry entries [(slot, Assembly.branch op r distance)] := by
  have hIn : slot ∈ emitter.reserved := by simp [hReserved]
  have hBelow : ∀ l ∈ reserved, l < emitter.location := by
    intro l hl
    have := below l hl
    omega
  have ready₁ := ready.reach [.placed slot (Assembly.branch op r distance) note] hBelow
  refine ⟨_, ?_, (Entry.carry_placed _ _ note plain).append
    (Entry.carry_comment "<- if" (by decide))⟩
  rw [bind_of_ok (jumpHere_run ready hIn here op r note form hr small), hReserved,
    filter_ne_append_self below, ready₁.comment_run, reach_reach]
  rfl

/-- Behind the test of a loop the branch back to its body is written. -/
theorem loopClosing_run {emitter : Emitter} (ready : emitter.Ready) {top distance : Nat}
    (here : emitter.location = top + distance) (small : emitter.location < 2147483648) :
    ∃ entries,
      (placeBranch .jeq ac top "repeat: jmp back to body" >>= fun _ =>
        Emitter.comment "<- repeat") emitter = .ok () (emitter.advance entries 1) ∧
      Entry.Carry entries [(emitter.location, Assembly.branch .jeq ac (-(distance + 1)))] := by
  have there : (top : Int) = emitter.location + 1 + -(distance + 1) := by omega
  have ready₁ := ready.advance [.placed emitter.location
    (Assembly.branch .jeq ac (-(distance + 1))) "repeat: jmp back to body"] 1
  refine ⟨_, ?_, (Entry.carry_placed _ _ "repeat: jmp back to body" (by decide)).append
    (Entry.carry_comment "<- repeat" (by decide))⟩
  rw [bind_of_ok (placeBranch_run ready there .jeq ac "repeat: jmp back to body" rfl (by decide)
    (by omega) small), ready₁.comment_run, Emitter.advance, reach_reach]
  rfl

/-! ### Statements -/

theorem lays_ifThen {symbols : Symbols} {test : Expression} {yes : List Statement} {line : Nat}
    (covered : test.Covered symbols)
    (h : Lays (statements symbols yes) (Assembly.statements symbols yes)) :
    Lays (statement symbols (.ifThen test yes line))
      (Assembly.statement symbols (.ifThen test yes line)) := by
  intro emitter ready small
  rw [Assembly.statement, List.length_append, List.length_cons] at small ⊢
  have hBelow : ∀ l ∈ emitter.reserved,
      l < emitter.location + (Assembly.expression symbols 0 test).length :=
    fun l hl => Nat.lt_add_right _ (ready.below l hl)
  obtain ⟨a, ha, carryA⟩ := ifOpening_run covered ready (by omega)
  have ready₁ := ready.opened a hBelow
  obtain ⟨b, hb, carryB⟩ := h _ ready₁ (by rw [reach_location]; omega)
  have ready₂ := ready₁.advance b (Assembly.statements symbols yes).length
  rw [reach_advance] at hb ready₂
  rw [reach_location] at carryB
  obtain ⟨c, hc, carryC⟩ := closing_run ready₂ rfl hBelow rfl .jeq ac "if: jmp to else" rfl
    (by decide) (by decide) (by rw [reach_location]; omega)
  rw [reach_reach, reach_location] at hc
  refine ⟨a ++ b ++ c, ?_, ?_⟩
  · rw [statement_ifThen, bind_of_ok ha, bind_of_ok hb, hc, Emitter.advance]
    congr 2
    omega
  · -- the branch is written last and stands in front of the sequence
    rw [Assembly.located_append, Assembly.located_cons]
    refine ((carryA.append carryB).append carryC).perm ?_
    rw [List.append_assoc]
    exact .append_left _ (List.perm_append_singleton _ _)

theorem lays_ifElse {symbols : Symbols} {test : Expression} {yes no : List Statement} {line : Nat}
    (covered : test.Covered symbols)
    (hYes : Lays (statements symbols yes) (Assembly.statements symbols yes))
    (hNo : Lays (statements symbols no) (Assembly.statements symbols no)) :
    Lays (statement symbols (.ifElse test yes no line))
      (Assembly.statement symbols (.ifElse test yes no line)) := by
  intro emitter ready small
  rw [Assembly.statement, List.length_append, List.length_cons, List.length_append,
    List.length_cons] at small ⊢
  have hBelow : ∀ l ∈ emitter.reserved,
      l < emitter.location + (Assembly.expression symbols 0 test).length :=
    fun l hl => Nat.lt_add_right _ (ready.below l hl)
  obtain ⟨a, ha, carryA⟩ := ifOpening_run covered ready (by omega)
  have ready₁ := ready.opened a hBelow
  obtain ⟨b, hb, carryB⟩ := hYes _ ready₁ (by rw [reach_location]; omega)
  have ready₂ := ready₁.advance b (Assembly.statements symbols yes).length
  rw [reach_advance] at hb ready₂
  rw [reach_location] at carryB
  obtain ⟨c, hc, carryC⟩ := elseOpening_run ready₂ rfl hBelow rfl (by rw [reach_location]; omega)
  rw [reach_reach, reach_location] at hc
  have hBelow' : ∀ l ∈ emitter.reserved, l < emitter.location +
      (Assembly.expression symbols 0 test).length + 1 +
        (Assembly.statements symbols yes).length := by
    intro l hl
    have := hBelow l hl
    omega
  have ready₃ := ready.opened (a ++ b ++ c) hBelow'
  obtain ⟨d, hd, carryD⟩ := hNo _ ready₃ (by rw [reach_location]; omega)
  have ready₄ := ready₃.advance d (Assembly.statements symbols no).length
  rw [reach_advance] at hd ready₄
  rw [reach_location] at carryD
  obtain ⟨e, he, carryE⟩ := closing_run ready₄ rfl hBelow' rfl .lda pc "jmp to end" rfl (by decide)
    (by decide) (by rw [reach_location]; omega)
  rw [reach_reach, reach_location] at he
  refine ⟨a ++ b ++ c ++ d ++ e, ?_, ?_⟩
  · rw [statement_ifElse, bind_of_ok ha, bind_of_ok hb, bind_of_ok hc, bind_of_ok hd, he,
      Emitter.advance]
    congr 2
    omega
  · rw [Assembly.located_append, Assembly.located_cons, Assembly.located_append,
      Assembly.located_cons]
    refine ((((carryA.append carryB).append carryC).append carryD).append carryE).perm ?_
    simp only [List.append_assoc]
    refine .append_left _ ?_
    exact List.perm_middle.trans
      (.cons _ (.append_left _ (List.perm_append_singleton _ _)))

theorem lays_loop {symbols : Symbols} {body : List Statement} {test : Expression} {line : Nat}
    (h : Lays (statements symbols body) (Assembly.statements symbols body))
    (covered : test.Covered symbols) :
    Lays (statement symbols (.loop body test line))
      (Assembly.statement symbols (.loop body test line)) := by
  intro emitter ready small
  rw [Assembly.statement, List.length_append, List.length_append, List.length_singleton] at small ⊢
  obtain ⟨a, ha, carryA⟩ := loopOpening_run ready
  have ready₁ := ready.reach a ready.below
  obtain ⟨b, hb, carryB⟩ := h _ ready₁ (by rw [reach_location]; omega)
  have ready₂ := ready₁.advance b (Assembly.statements symbols body).length
  rw [reach_advance] at hb ready₂
  obtain ⟨c, hc, carryC⟩ := lays_expression covered 0 _ ready₂ (by rw [reach_location]; omega)
  have ready₃ := ready₂.advance c (Assembly.expression symbols 0 test).length
  rw [reach_advance] at hc ready₃
  rw [reach_location] at carryB carryC
  have hHere : emitter.location + (Assembly.statements symbols body).length +
      (Assembly.expression symbols 0 test).length =
      emitter.location + ((Assembly.statements symbols body).length +
        (Assembly.expression symbols 0 test).length) := Nat.add_assoc ..
  obtain ⟨d, hd, carryD⟩ := loopClosing_run ready₃ hHere (by rw [reach_location]; omega)
  rw [reach_advance] at hd
  refine ⟨a ++ b ++ c ++ d, ?_, ?_⟩
  · rw [statement_loop, bind_of_ok ha, bind_of_ok hb, bind_of_ok hc, hd, Emitter.advance]
    congr 2
    omega
  · rw [Assembly.located_append, Assembly.located_append, ← List.append_assoc]
    exact ((carryA.append carryB).append carryC).append carryD

theorem lays_all (symbols : Symbols) :
    (∀ s : Statement, s.Covered symbols →
      Lays (statement symbols s) (Assembly.statement symbols s)) ∧
    ∀ ss : List Statement, Program.Covered symbols ss →
      Lays (statements symbols ss) (Assembly.statements symbols ss) := by
  refine Statement.ind ?_ ?_ ?_ ?_ ?_ ?_ ?_ ?_
  · intro test yes line ih covered
    exact lays_ifThen covered.1 (ih covered.2)
  · intro test yes no line ihYes ihNo covered
    exact lays_ifElse covered.1 (ihYes covered.2.1) (ihNo covered.2.2)
  · intro body test line ih covered
    exact lays_loop (ih covered.1) covered.2
  · intro name value line covered
    obtain ⟨hValue, location, h⟩ := covered
    rw [statement, locationOf_eq h]
    simp only [pure_bind]
    exact Lays.commented ((lays_expression hValue 0).seq
      ((lays_indexed rfl (by decide) (by decide) (by decide)).thenComment (by decide))) (by decide)
  · intro name line covered
    obtain ⟨location, h⟩ := covered
    rw [statement, locationOf_eq h]
    simp only [pure_bind]
    exact (lays_registers rfl (by decide) (by decide) (by decide) (by decide)).seq
      (lays_indexed rfl (by decide) (by decide) (by decide))
  · intro value line covered
    exact (lays_expression covered 0).seq
      (lays_registers rfl (by decide) (by decide) (by decide) (by decide))
  · intro _
    exact lays_nothing
  · intro first rest ihFirst ihRest covered
    exact (ihFirst covered.1).seq (ihRest covered.2)

/-- **The code of a statement lays its code in pieces.** -/
theorem lays_statement {symbols : Symbols} {s : Statement} (covered : s.Covered symbols) :
    Lays (statement symbols s) (Assembly.statement symbols s) :=
  (lays_all symbols).1 s covered

theorem lays_statements {symbols : Symbols} {ss : List Statement}
    (covered : Program.Covered symbols ss) :
    Lays (statements symbols ss) (Assembly.statements symbols ss) :=
  (lays_all symbols).2 ss covered

/-! ### The statements on the way -/

/-- `Comes symbols ss start s emitter`: going through the code of `ss` from the emitter `start` on,
one comes to the statement `s`, however deep inside, with `emitter`. -/
inductive Comes (symbols : Symbols) : List Statement → Emitter → Statement → Emitter → Prop
  | first {s : Statement} {rest : List Statement} {e : Emitter} : Comes symbols (s :: rest) e s e
  | later {s t : Statement} {rest : List Statement} {e e₁ e' : Emitter} :
      statement symbols s e = .ok () e₁ → Comes symbols rest e₁ t e' →
      Comes symbols (s :: rest) e t e'
  | yesOfThen {test : Expression} {yes rest : List Statement} {line slot : Nat} {t : Statement}
      {e e₁ e' : Emitter} :
      ifOpening symbols test e = .ok slot e₁ → Comes symbols yes e₁ t e' →
      Comes symbols (.ifThen test yes line :: rest) e t e'
  | yesOfElse {test : Expression} {yes no rest : List Statement} {line slot : Nat} {t : Statement}
      {e e₁ e' : Emitter} :
      ifOpening symbols test e = .ok slot e₁ → Comes symbols yes e₁ t e' →
      Comes symbols (.ifElse test yes no line :: rest) e t e'
  | noOfElse {test : Expression} {yes no rest : List Statement} {line slot toEnd : Nat}
      {t : Statement} {e e₁ e₂ e₃ e' : Emitter} :
      ifOpening symbols test e = .ok slot e₁ → statements symbols yes e₁ = .ok () e₂ →
      elseOpening slot e₂ = .ok toEnd e₃ → Comes symbols no e₃ t e' →
      Comes symbols (.ifElse test yes no line :: rest) e t e'
  | bodyOfLoop {body rest : List Statement} {test : Expression} {line top : Nat} {t : Statement}
      {e e₁ e' : Emitter} :
      loopOpening e = .ok top e₁ → Comes symbols body e₁ t e' →
      Comes symbols (.loop body test line :: rest) e t e'

/-- The code of the statement stands in `code` at `location`, if the first location of `code` is
`base`. -/
def StandsAt (symbols : Symbols) (code : List Instruction) (base location : Nat)
    (s : Statement) : Prop :=
  ∃ before after, code = before ++ (Assembly.statement symbols s ++ after) ∧
    location = base + before.length

/-- Where the code of a statement stands in a part of some code, it stands in the whole. -/
theorem StandsAt.within {symbols : Symbols} {code whole : List Instruction}
    {base start location : Nat} {s : Statement} (h : StandsAt symbols code start location s)
    (before : List Instruction) (split : ∃ after, whole = before ++ (code ++ after))
    (hStart : start = base + before.length) : StandsAt symbols whole base location s := by
  obtain ⟨front, back, rfl, rfl⟩ := h
  obtain ⟨after, split⟩ := split
  refine ⟨before ++ front, back ++ after, ?_, ?_⟩
  · rw [split]
    simp only [List.append_assoc]
  · rw [hStart, List.length_append, Nat.add_assoc]

/-- **Every statement starts with an emitter that is ready**, and its code in pieces stands where
the emitter does. -/
theorem Comes.ready {symbols : Symbols} {ss : List Statement} {e e' : Emitter} {t : Statement}
    (h : Comes symbols ss e t e') (ready : e.Ready) (covered : Program.Covered symbols ss)
    (small : e.location + (Assembly.statements symbols ss).length < 2147483648) :
    e'.Ready ∧ t.Covered symbols ∧
      StandsAt symbols (Assembly.statements symbols ss) e.location e'.location t := by
  induction h with
  | @first s rest e => exact ⟨ready, covered.1, [], _, rfl, rfl⟩
  | @later s t rest e e₁ e' hs _ ih =>
    rw [Assembly.statements, List.length_append] at small
    obtain ⟨entries, hRun, -⟩ := lays_statement covered.1 e ready (by omega)
    obtain ⟨-, rfl⟩ := ok_inj (hs.symm.trans hRun)
    obtain ⟨ready', covered', stands⟩ := ih (ready.advance entries _) covered.2
      (show e.location + _ + _ < _ by omega)
    refine ⟨ready', covered', stands.within (Assembly.statement symbols s) ⟨[], ?_⟩ rfl⟩
    rw [Assembly.statements, List.append_nil]
  | @yesOfThen test yes rest line slot t e e₁ e' hs _ ih =>
    rw [Assembly.statements, Assembly.statement, List.length_append, List.length_append,
      List.length_cons] at small
    obtain ⟨entries, hRun, -⟩ := ifOpening_run covered.1.1 ready (by omega)
    obtain ⟨-, rfl⟩ := ok_inj (hs.symm.trans hRun)
    obtain ⟨ready', covered', stands⟩ := ih
      (ready.opened entries fun l hl => Nat.lt_add_right _ (ready.below l hl)) covered.1.2
      (by rw [reach_location]; omega)
    refine ⟨ready', covered', stands.within (Assembly.expression symbols 0 test ++
      [Assembly.branch .jeq ac (Assembly.statements symbols yes).length])
      ⟨Assembly.statements symbols rest, ?_⟩ ?_⟩
    · simp only [Assembly.statements, Assembly.statement, List.append_assoc, List.cons_append,
        List.nil_append]
    · rw [reach_location, List.length_append, List.length_singleton, Nat.add_assoc]
  | @yesOfElse test yes no rest line slot t e e₁ e' hs _ ih =>
    rw [Assembly.statements, Assembly.statement, List.length_append, List.length_append,
      List.length_cons, List.length_append] at small
    obtain ⟨entries, hRun, -⟩ := ifOpening_run covered.1.1 ready (by omega)
    obtain ⟨-, rfl⟩ := ok_inj (hs.symm.trans hRun)
    obtain ⟨ready', covered', stands⟩ := ih
      (ready.opened entries fun l hl => Nat.lt_add_right _ (ready.below l hl)) covered.1.2.1
      (by rw [reach_location]; omega)
    refine ⟨ready', covered', stands.within (Assembly.expression symbols 0 test ++
      [Assembly.branch .jeq ac ((Assembly.statements symbols yes).length + 1)])
      ⟨Assembly.branch .lda pc (Assembly.statements symbols no).length ::
        (Assembly.statements symbols no ++ Assembly.statements symbols rest), ?_⟩ ?_⟩
    · simp only [Assembly.statements, Assembly.statement, List.append_assoc, List.cons_append,
        List.nil_append]
    · rw [reach_location, List.length_append, List.length_singleton, Nat.add_assoc]
  | @noOfElse test yes no rest line slot toEnd t e e₁ e₂ e₃ e' hOpen hYes hTurn _ ih =>
    rw [Assembly.statements, Assembly.statement, List.length_append, List.length_append,
      List.length_cons, List.length_append, List.length_cons] at small
    have hBelow : ∀ l ∈ e.reserved,
        l < e.location + (Assembly.expression symbols 0 test).length :=
      fun l hl => Nat.lt_add_right _ (ready.below l hl)
    obtain ⟨a, hRun, -⟩ := ifOpening_run covered.1.1 ready (by omega)
    obtain ⟨rfl, rfl⟩ := ok_inj (hOpen.symm.trans hRun)
    have ready₁ := ready.opened a hBelow
    obtain ⟨b, hRunYes, -⟩ := lays_statements covered.1.2.1 _ ready₁ (by rw [reach_location]; omega)
    obtain ⟨-, rfl⟩ := ok_inj (hYes.symm.trans hRunYes)
    have ready₂ := ready₁.advance b (Assembly.statements symbols yes).length
    rw [reach_advance] at hTurn ready₂
    obtain ⟨c, hRunTurn, -⟩ := elseOpening_run ready₂ rfl hBelow rfl (by rw [reach_location]; omega)
    obtain ⟨-, rfl⟩ := ok_inj (hTurn.symm.trans hRunTurn)
    rw [reach_reach, reach_location] at ih
    have hBelow' : ∀ l ∈ e.reserved, l < e.location +
        (Assembly.expression symbols 0 test).length + 1 +
        (Assembly.statements symbols yes).length := by
      intro l hl
      have := hBelow l hl
      omega
    obtain ⟨ready', covered', stands⟩ := ih (ready.opened (a ++ b ++ c) hBelow') covered.1.2.2
      (by rw [reach_location]; omega)
    refine ⟨ready', covered', stands.within (Assembly.expression symbols 0 test ++
      Assembly.branch .jeq ac ((Assembly.statements symbols yes).length + 1) ::
        (Assembly.statements symbols yes ++
          [Assembly.branch .lda pc (Assembly.statements symbols no).length]))
      ⟨Assembly.statements symbols rest, ?_⟩ ?_⟩
    · simp only [Assembly.statements, Assembly.statement, List.append_assoc, List.cons_append,
        List.nil_append]
    · rw [reach_location, List.length_append, List.length_cons, List.length_append,
        List.length_singleton]
      omega
  | @bodyOfLoop body rest test line top t e e₁ e' hs _ ih =>
    rw [Assembly.statements, Assembly.statement, List.length_append, List.length_append] at small
    obtain ⟨entries, hRun, -⟩ := loopOpening_run ready
    obtain ⟨-, rfl⟩ := ok_inj (hs.symm.trans hRun)
    obtain ⟨ready', covered', stands⟩ := ih (ready.reach entries ready.below) covered.1.1
      (by rw [reach_location]; omega)
    refine ⟨ready', covered', stands.within [] ⟨Assembly.expression symbols 0 test ++
      [Assembly.branch .jeq ac (-((Assembly.statements symbols body).length +
        (Assembly.expression symbols 0 test).length + 1))] ++ Assembly.statements symbols rest, ?_⟩
      rfl⟩
    rw [Assembly.statements, Assembly.statement, List.nil_append, List.append_assoc]

/-! ### Whole programs -/

/-- The work for a program up to its first statement. -/
def opening (fileName : String) : Emit Unit := do
  Emitter.comment "TINY Compilation to TM Code"
  Emitter.comment ("File: " ++ fileName)
  Emitter.comment "Standard prelude:"
  Emitter.placeIndexed .ld mp 0 ac "load maxaddress from location 0"
  Emitter.placeIndexed .st ac 0 ac "clear location 0"
  Emitter.comment "End of standard prelude."

/-- The work for a program behind its last statement. -/
def closing : Emit Unit := do
  Emitter.comment "End of execution."
  Emitter.placeRegisters .halt 0 0 0 ""

theorem program_eq (symbols : Symbols) (fileName : String) (p : Program) :
    program symbols fileName p = (opening fileName >>= fun _ =>
      (statements symbols p >>= fun _ => closing) >>= fun _ => Emitter.finish) := by
  simp only [program, opening, closing, bind_assoc]

/-- The first lines of a program. -/
def heading (fileName : String) : List Entry :=
  [.comment "TINY Compilation to TM Code"] ++ [.comment ("File: " ++ fileName)]

/-- The first lines of a program are lines, if the name of its file has no line feed. -/
theorem oneLine_heading {fileName : String} (plain : '\n' ∉ fileName.toList) :
    ∀ entry ∈ heading fileName, entry.OneLine := by
  intro entry hIn
  rcases List.mem_cons.mp hIn with rfl | hIn
  · show '\n' ∉ "TINY Compilation to TM Code".toList
    decide
  · rw [List.mem_singleton.mp hIn]
    show '\n' ∉ ("File: " ++ fileName).toList
    simpa using plain

theorem placements_heading (fileName : String) (entries : List Entry) :
    Entry.placements (heading fileName ++ entries) = Entry.placements entries :=
  Entry.placements_append (heading fileName) entries

/-- The emitter before anything is written. -/
def fresh (sink : Sink) (traceCode : Bool) : Emitter := { sink, traceCode }

theorem fresh_ready {sink : Sink} (unlimited : sink.limit = none) (traceCode : Bool) :
    (fresh sink traceCode).Ready :=
  ⟨unlimited, rfl, fun _ h => absurd h List.not_mem_nil⟩

theorem opening_run {sink : Sink} (unlimited : sink.limit = none) (traceCode : Bool)
    (fileName : String) :
    ∃ entries,
      opening fileName (fresh sink traceCode) =
        .ok () ((fresh sink traceCode).advance (heading fileName ++ entries) 2) ∧
      Entry.Carry entries (Assembly.located 0 Assembly.opening) := by
  have ready₀ := fresh_ready unlimited traceCode
  have ready₁ := ready₀.reach [.comment "TINY Compilation to TM Code"] ready₀.below
  have ready₂ := ready₁.reach [.comment ("File: " ++ fileName)] ready₁.below
  have hLays : Lays (do
      Emitter.comment "Standard prelude:"
      Emitter.placeIndexed .ld mp 0 ac "load maxaddress from location 0"
      Emitter.placeIndexed .st ac 0 ac "clear location 0"
      Emitter.comment "End of standard prelude.") Assembly.opening :=
    Lays.commented ((lays_indexed rfl (by decide) (by decide) (by decide)).seq
      ((lays_indexed rfl (by decide) (by decide) (by decide)).thenComment (by decide))) (by decide)
  obtain ⟨entries, h, carry⟩ := hLays _ ready₂ (show 0 + 2 < 2147483648 by decide)
  refine ⟨entries, ?_, carry⟩
  rw [opening, bind_of_ok (ready₀.comment_run _), bind_of_ok (ready₁.comment_run _), h,
    reach_reach, reach_advance]
  rfl

theorem lays_closing : Lays closing [Instruction.halt] :=
  Lays.commented (lays_registers rfl (by decide) (by decide) (by decide) (by decide)) (by decide)

/-- What the code of a program writes; nothing stays reserved. -/
theorem program_run {symbols : Symbols} {p : Program} (covered : Program.Covered symbols p)
    (small : (Assembly.program symbols p).length < 2147483648) {sink : Sink}
    (unlimited : sink.limit = none) (traceCode : Bool) (fileName : String) :
    ∃ entries,
      program symbols fileName p (fresh sink traceCode) =
        .ok () ((fresh sink traceCode).advance (heading fileName ++ entries)
          (Assembly.program symbols p).length) ∧
      Entry.Carry entries (Assembly.located 0 (Assembly.program symbols p)) := by
  rw [Assembly.program, List.length_append] at small
  obtain ⟨a, ha, carryA⟩ := opening_run unlimited traceCode fileName
  have ready := (fresh_ready unlimited traceCode).advance (heading fileName ++ a) 2
  obtain ⟨b, hb, carryB⟩ := (lays_statements covered).seq lays_closing _ ready small
  refine ⟨a ++ b, ?_, ?_⟩
  · rw [program_eq, bind_of_ok ha, bind_of_ok hb, advance_advance, finish_run rfl,
      List.append_assoc]
    simp only [Assembly.program, List.length_append]
    rfl
  · rw [Assembly.program, Assembly.located_append]
    exact carryA.append carryB

theorem generate_of_program {symbols : Symbols} {p : Program} {sink : Sink} {traceCode : Bool}
    {fileName : String} {final : Emitter}
    (h : program symbols fileName p (fresh sink traceCode) = .ok () final) :
    p.generate symbols traceCode fileName sink = (.ok (), final.sink) := by
  have h' : Code.program symbols fileName p { sink, traceCode } = _ := h
  rw [Program.generate, h']

/-- What is written to the sink for a program that has code. -/
theorem generate_run {symbols : Symbols} {p : Program} (covered : Program.Covered symbols p)
    (small : (Assembly.program symbols p).length < 2147483648) {sink : Sink}
    (unlimited : sink.limit = none) (traceCode : Bool) (fileName : String) :
    ∃ entries,
      p.generate symbols traceCode fileName sink =
        (.ok (), sink.add (Entry.texts traceCode (heading fileName ++ entries))) ∧
      Entry.Carry entries (Assembly.located 0 (Assembly.program symbols p)) := by
  obtain ⟨entries, h, carry⟩ := program_run covered small unlimited traceCode fileName
  exact ⟨entries, generate_of_program h, carry⟩

/-- The text of a program is read as the instructions on its lines. -/
theorem read_texts {traceCode : Bool} {fileName : String} {entries : List Entry}
    {code : List Instruction} (plain : traceCode = true → '\n' ∉ fileName.toList)
    (small : code.length < 2147483648)
    (carry : Entry.Carry entries (Assembly.located 0 code)) :
    Listing.read (Entry.texts traceCode (heading fileName ++ entries)) =
      .ok (Entry.placements (heading fileName ++ entries)) := by
  have hPlain : traceCode = true → ∀ entry ∈ heading fileName ++ entries, entry.OneLine :=
    fun on => List.forall_mem_append.mpr ⟨oneLine_heading (plain on), carry.plain⟩
  have hSmall : ∀ placed ∈ Entry.placements (heading fileName ++ entries),
      placed.1 < 18446744073709551616 := by
    rintro ⟨location, i⟩ hIn
    rw [placements_heading] at hIn
    have hCode := (Assembly.mem_located.mp (carry.places.mem_iff.mp hIn)).2
    have hLength := (List.getElem?_eq_some_iff.mp hCode).1
    show location < _
    omega
  exact Listing.readLines_texts hPlain hSmall 1

/-- Lines that carry some code carry it in the order of the locations, once they are sorted. -/
theorem mergeSort_placements {placed : List (Nat × Instruction)} {base : Nat}
    {code : List Instruction} (h : placed.Perm (Assembly.located base code)) :
    placed.mergeSort (fun a b => a.1 ≤ b.1) = Assembly.located base code := by
  have hSorted : (placed.mergeSort fun a b => a.1 ≤ b.1).Pairwise (fun a b => a.1 ≤ b.1) := by
    have := @List.pairwise_mergeSort (Nat × Instruction) (fun a b => a.1 ≤ b.1)
      (fun a b c hab hbc => by simp at hab hbc ⊢; omega) (fun a b => by simp; omega) placed
    simpa using this
  have hPerm := (List.mergeSort_perm placed fun a b => a.1 ≤ b.1).trans h
  refine List.Perm.eq_of_pairwise ?_ hSorted
    ((Assembly.pairwise_located base code).imp Nat.le_of_lt) hPerm
  rintro ⟨l, i⟩ ⟨m, j⟩ ha hb hab hba
  obtain rfl : l = m := Nat.le_antisymm hab hba
  have hi := (Assembly.mem_located.mp (hPerm.mem_iff.mp ha)).2
  have hj := (Assembly.mem_located.mp hb).2
  rw [Option.some.inj (hi.symm.trans hj)]

/-- Wherever the work for a program comes to a statement, the emitter stands behind all locations
used when the statement is done, and the branches of the statement land where they should. -/
theorem lands_of_comes {symbols : Symbols} {p : Program} (covered : Program.Covered symbols p)
    (small : (Assembly.program symbols p).length < 2147483648) {start emitter : Emitter}
    (ready : start.Ready) (hStart : start.location = 2) {s : Statement}
    (hComes : Comes symbols p start s emitter) :
    (∃ after, statement symbols s emitter = .ok () after ∧ after.location = after.highWater) ∧
      Assembly.Lands symbols (Assembly.program symbols p) emitter.location s := by
  have hLength : (Assembly.program symbols p).length =
      2 + ((Assembly.statements symbols p).length + 1) := by
    simp only [Assembly.program, List.length_append]
    rfl
  obtain ⟨ready', covered', stands⟩ := hComes.ready ready covered (by omega)
  have hWhole : StandsAt symbols (Assembly.program symbols p) 0 emitter.location s :=
    stands.within Assembly.opening ⟨[Instruction.halt], rfl⟩ hStart
  obtain ⟨before, after, split, hLocation⟩ := hWhole
  rw [Nat.zero_add] at hLocation
  have hTotal := congrArg List.length split
  rw [List.length_append, List.length_append] at hTotal
  refine ⟨?_, hLocation ▸ Assembly.lands_of_split split small⟩
  obtain ⟨entries, hRun, -⟩ := lays_statement covered' emitter ready' (by omega)
  exact ⟨_, hRun, rfl⟩

/-- **Filling in branches later gives the code in pieces.**  For a program that has code, sorted by
location the instructions written are exactly those of `Assembly.program`, and the text is read as
these instructions unless the name of the file breaks a comment; every location is written once and
nothing stays reserved; wherever the work comes to a statement, the emitter stands behind all
locations used when the statement is done, and the branches of the statement land where they
should. -/
theorem generate_eq_assembly {symbols : Symbols} {p : Program}
    (covered : Program.Covered symbols p)
    (small : (Assembly.program symbols p).length < 2147483648) {sink : Sink}
    (unlimited : sink.limit = none) (traceCode : Bool) (fileName : String) :
    ∃ entries : List Entry,
      p.generate symbols traceCode fileName sink =
        (.ok (), sink.add (Entry.texts traceCode entries)) ∧
      ((traceCode = true → '\n' ∉ fileName.toList) →
        Listing.read (Entry.texts traceCode entries) = .ok (Entry.placements entries)) ∧
      (Entry.placements entries).mergeSort (fun a b => a.1 ≤ b.1) =
        Assembly.located 0 (Assembly.program symbols p) ∧
      ((Entry.placements entries).map Prod.fst).Perm
        (List.range (Assembly.program symbols p).length) ∧
      (∃ final, program symbols fileName p (fresh sink traceCode) = .ok () final ∧
        final.reserved = [] ∧ final.location = (Assembly.program symbols p).length ∧
        final.highWater = (Assembly.program symbols p).length) ∧
      ∃ start, opening fileName (fresh sink traceCode) = .ok () start ∧
        ∀ s emitter, Comes symbols p start s emitter →
          (∃ after, statement symbols s emitter = .ok () after ∧
            after.location = after.highWater) ∧
          Assembly.Lands symbols (Assembly.program symbols p) emitter.location s := by
  obtain ⟨entries, h, carry⟩ := program_run covered small unlimited traceCode fileName
  obtain ⟨a, ha, -⟩ := opening_run unlimited traceCode fileName
  have ready := (fresh_ready unlimited traceCode).advance (heading fileName ++ a) 2
  have hPlaces : (Entry.placements (heading fileName ++ entries)).Perm
      (Assembly.located 0 (Assembly.program symbols p)) :=
    placements_heading fileName entries ▸ carry.places
  have hLocations := hPlaces.map Prod.fst
  rw [Assembly.map_fst_located, ← List.range_eq_range'] at hLocations
  exact ⟨heading fileName ++ entries, generate_of_program h,
    fun plain => read_texts plain small carry, mergeSort_placements hPlaces, hLocations,
    ⟨_, h, rfl, Nat.zero_add _, Nat.zero_add _⟩, _, ha,
    fun s emitter hComes => lands_of_comes covered small ready rfl hComes⟩

/-- A choice with an empty second sequence inside a loop: two branches are filled in later. -/
theorem generate_choice_in_loop :
    ∃ entries,
      Program.generate [.loop [.ifElse (.reference "x" 1 .integer) [.read "x" 1] [] 1]
          (.constant 1 1 .integer) 1] ⟨[⟨"x", [1]⟩]⟩ true "loop.tny" {} =
        (.ok (), Sink.add {} (Entry.texts true entries)) ∧
      Listing.read (Entry.texts true entries) = .ok (Entry.placements entries) ∧
      (Entry.placements entries).mergeSort (fun a b => a.1 ≤ b.1) =
        [(0, Assembly.indexed .ld mp 0 ac), (1, Assembly.indexed .st ac 0 ac),
         (2, Assembly.indexed .ld ac 0 gp), (3, Assembly.branch .jeq ac 3),
         (4, Assembly.between .input ac 0 0), (5, Assembly.indexed .st ac 0 gp),
         (6, Assembly.branch .lda pc 0), (7, Assembly.indexed .ldc ac 1 0),
         (8, Assembly.branch .jeq ac (-7)), (9, Instruction.halt)] := by
  have covered : Program.Covered ⟨[⟨"x", [1]⟩]⟩
      [.loop [.ifElse (.reference "x" 1 .integer) [.read "x" 1] [] 1]
        (.constant 1 1 .integer) 1] :=
    ⟨⟨⟨⟨⟨0, rfl⟩, ⟨⟨0, rfl⟩, trivial⟩, trivial⟩, trivial⟩, trivial⟩, trivial⟩
  obtain ⟨entries, h, hRead, sorted, -⟩ :=
    generate_eq_assembly covered (by decide) (show Sink.limit {} = none from rfl) true "loop.tny"
  exact ⟨entries, h, hRead (by decide), sorted⟩

end Code

end Tiny
