import Tiny.Proofs.Assembly
import Tiny.Proofs.Peeling

/-!
# What placing instructions writes

An emitter that goes through the code of a program writes lines: comments, and instructions with
their locations.  This file says which lines, for every part of a program, and where the emitter
stands then.

* `Entry`: a line as data, and its text; `Emitter.lineText_eq`: an emitter writes such lines.
* `Emitter.Ready`: nothing can fail, and the emitter stands behind all that it has used.
* `Lays action code`: from every ready emitter on, `action` writes the instructions of `code` to
  the locations from the current one on, in some order, and leaves the emitter ready behind them.
* `lays_expression`: the code of an expression lays its code in pieces, `Assembly.expression`.
* `jumpHere_run`: what going back to a reserved location does.
-/

namespace Tiny

/-- A line that an emitter writes: a comment, or an instruction with its location and a note. -/
inductive Entry where
  | comment (text : String)
  | placed (location : Nat) (instruction : Instruction) (note : String)

namespace Entry

/-- The line of an instruction: its location in three columns, its opcode in five, its operands,
and a note if the code is to be commented. -/
def line (traceCode : Bool) (location : Nat) (op : Opcode) (operands : Operands) (note : String) :
    String :=
  String.ofList ((toString location).toList.leftpad 3 ' ') ++ ":  " ++
    String.ofList (op.name.toList.leftpad 5 ' ') ++ "  " ++
    (match operands with
      | .registers r s t => toString r ++ "," ++ toString s ++ "," ++ toString t
      | .indexed r offset base =>
        toString r ++ "," ++ toString offset ++ "(" ++ toString base ++ ")") ++
    " " ++ (if traceCode then "\t" ++ note else "") ++ "\n"

/-- A line as text.  Comments and notes are left out unless the code is to be commented. -/
def text (traceCode : Bool) : Entry → String
  | .comment text => if traceCode then "* " ++ text ++ "\n" else ""
  | .placed location instruction note =>
    line traceCode location instruction.op instruction.operands note

/-- Lines as text. -/
def texts (traceCode : Bool) : List Entry → String
  | [] => ""
  | entry :: rest => entry.text traceCode ++ texts traceCode rest

/-- The instructions among some lines, with their locations, in the order of the lines. -/
def placements : List Entry → List (Nat × Instruction)
  | [] => []
  | .comment _ :: rest => placements rest
  | .placed location instruction _ :: rest => (location, instruction) :: placements rest

/-- What is commented stays on one line. -/
def OneLine : Entry → Prop
  | .comment text => '\n' ∉ text.toList
  | .placed _ _ note => '\n' ∉ note.toList

instance : DecidablePred OneLine
  | .comment text => inferInstanceAs (Decidable ('\n' ∉ text.toList))
  | .placed _ _ note => inferInstanceAs (Decidable ('\n' ∉ note.toList))

theorem texts_append (traceCode : Bool) (a b : List Entry) :
    texts traceCode (a ++ b) = texts traceCode a ++ texts traceCode b := by
  induction a with
  | nil => simp [texts]
  | cons entry rest ih => rw [List.cons_append, texts, ih, texts, String.append_assoc]

theorem placements_append (a b : List Entry) :
    placements (a ++ b) = placements a ++ placements b := by
  induction a with
  | nil => rfl
  | cons entry rest ih =>
    cases entry with
    | comment text => rw [List.cons_append, placements, ih, placements]
    | placed location instruction note =>
      rw [List.cons_append, placements, ih, placements, List.cons_append]

/-- The lines carry the given instructions, in some order, and whatever is commented stays on one
line. -/
structure Carry (entries : List Entry) (placed : List (Nat × Instruction)) : Prop where
  places : (placements entries).Perm placed
  plain : ∀ entry ∈ entries, entry.OneLine

theorem Carry.append {a b : List Entry} {placed more : List (Nat × Instruction)}
    (ha : Carry a placed) (hb : Carry b more) : Carry (a ++ b) (placed ++ more) where
  places := by
    rw [placements_append]
    exact ha.places.append hb.places
  plain := List.forall_mem_append.mpr ⟨ha.plain, hb.plain⟩

theorem Carry.perm {entries : List Entry} {placed placed' : List (Nat × Instruction)}
    (h : Carry entries placed) (hp : placed.Perm placed') : Carry entries placed' :=
  ⟨h.places.trans hp, h.plain⟩

theorem carry_comment (text : String) (plain : '\n' ∉ text.toList) : Carry [.comment text] [] where
  places := .refl _
  plain entry h := by rw [List.mem_singleton.mp h]; exact plain

theorem carry_placed (location : Nat) (instruction : Instruction) (note : String)
    (plain : '\n' ∉ note.toList) :
    Carry [.placed location instruction note] [(location, instruction)] where
  places := .refl _
  plain entry h := by rw [List.mem_singleton.mp h]; exact plain

end Entry

namespace Emitter

/-- An emitter writes lines in columns. -/
theorem lineText_eq (traceCode : Bool) (location : Nat) (op : Opcode) (operands : Operands)
    (note : String) :
    lineText location op operands (if traceCode then some note else none) =
      Entry.line traceCode location op operands note := by
  cases operands <;> cases traceCode <;>
    simp [lineText, Entry.line, instructionText, Operands.text, Text.alignRight_eq,
      String.append_assoc]

/-- An emitter that has written some more lines. -/
def record (emitter : Emitter) (entries : List Entry) : Emitter :=
  { emitter with sink := emitter.sink.add (Entry.texts emitter.traceCode entries) }

/-- An emitter that has written some more lines and stands at `location` behind all that was used,
with the given locations reserved. -/
def reach (emitter : Emitter) (entries : List Entry) (location : Nat) (reserved : List Nat) :
    Emitter :=
  { emitter.record entries with location, highWater := location, reserved }

/-- An emitter that has written some more lines and used the next `count` locations. -/
def advance (emitter : Emitter) (entries : List Entry) (count : Nat) : Emitter :=
  emitter.reach entries (emitter.location + count) emitter.reserved

@[simp] theorem reach_location (emitter : Emitter) (entries : List Entry) (location : Nat)
    (reserved : List Nat) : (emitter.reach entries location reserved).location = location := rfl

@[simp] theorem reach_reserved (emitter : Emitter) (entries : List Entry) (location : Nat)
    (reserved : List Nat) : (emitter.reach entries location reserved).reserved = reserved := rfl

theorem reach_reach (emitter : Emitter) (a b : List Entry) (l m : Nat) (R S : List Nat) :
    (emitter.reach a l R).reach b m S = emitter.reach (a ++ b) m S := by
  simp only [reach, record, Sink.add_add, Entry.texts_append]

theorem reach_advance (emitter : Emitter) (a b : List Entry) (location count : Nat)
    (reserved : List Nat) :
    (emitter.reach a location reserved).advance b count =
      emitter.reach (a ++ b) (location + count) reserved :=
  reach_reach ..

theorem advance_advance (emitter : Emitter) (a b : List Entry) (m n : Nat) :
    (emitter.advance a m).advance b n = emitter.advance (a ++ b) (m + n) := by
  refine (reach_advance ..).trans ?_
  rw [advance, Nat.add_assoc]

/-- The emitter writes to a sink without a limit and stands behind every location that was used;
so every reserved location is in front of it. -/
structure Ready (emitter : Emitter) : Prop where
  unlimited : emitter.sink.limit = none
  atMark : emitter.location = emitter.highWater
  below : ∀ location ∈ emitter.reserved, location < emitter.location

theorem Ready.reach {emitter : Emitter} (ready : emitter.Ready) (entries : List Entry)
    {location : Nat} {reserved : List Nat} (below : ∀ l ∈ reserved, l < location) :
    (emitter.reach entries location reserved).Ready :=
  ⟨ready.unlimited, rfl, below⟩

theorem Ready.advance {emitter : Emitter} (ready : emitter.Ready) (entries : List Entry)
    (count : Nat) : (emitter.advance entries count).Ready :=
  ready.reach entries fun l h => Nat.lt_add_right count (ready.below l h)

theorem Ready.record_eq {emitter : Emitter} (ready : emitter.Ready) (entries : List Entry) :
    emitter.record entries = emitter.reach entries emitter.location emitter.reserved := by
  have := ready.atMark
  simp only [Emitter.reach, record, ← this]

theorem write_run {emitter : Emitter} (h : emitter.sink.limit = none) (text : String) :
    Emitter.write text emitter = .ok () { emitter with sink := emitter.sink.add text } := by
  simp only [Emitter.write, Focus.on, sinkPart, Sink.write_of_unlimited h]

theorem comment_run {emitter : Emitter} (h : emitter.sink.limit = none) (text : String) :
    Emitter.comment text emitter = .ok () (emitter.record [.comment text]) := by
  rw [Emitter.comment, get_bind]
  obtain ⟨sink, traceCode, location, highWater, reserved⟩ := emitter
  cases traceCode with
  | true =>
    refine (write_run h _).trans ?_
    simp [record, Entry.texts, Entry.text]
  | false => simp [record, Entry.texts, Entry.text, Sink.add_empty, pure, EStateM.pure]

theorem Ready.comment_run {emitter : Emitter} (ready : emitter.Ready) (text : String) :
    Emitter.comment text emitter =
      .ok () (emitter.reach [.comment text] emitter.location emitter.reserved) := by
  rw [Emitter.comment_run ready.unlimited, ready.record_eq]

theorem place_run {emitter : Emitter} (h : emitter.sink.limit = none) (i : Instruction)
    (note : String) :
    Emitter.place i.op i.operands note emitter =
      .ok () (fill (emitter.record [.placed emitter.location i note])) := by
  rw [Emitter.place, get_bind,
    bind_of_ok (write_run h _)]
  refine congrArg (fun written => EStateM.Result.ok () (fill written)) ?_
  simp [record, Entry.texts, Entry.text, lineText_eq]

theorem filter_ne_of_below {reserved : List Nat} {location : Nat}
    (h : ∀ l ∈ reserved, l < location) : reserved.filter (· ≠ location) = reserved :=
  List.filter_eq_self.mpr fun l hl => by simpa using Nat.ne_of_lt (h l hl)

theorem Ready.fill_record {emitter : Emitter} (ready : emitter.Ready) (entry : Entry) :
    fill (emitter.record [entry]) = emitter.advance [entry] 1 := by
  have hMark : max emitter.highWater (emitter.location + 1) = emitter.location + 1 := by
    rw [← ready.atMark]; omega
  show { emitter.record [entry] with
      reserved := emitter.reserved.filter (· ≠ emitter.location)
      location := emitter.location + 1
      highWater := max emitter.highWater (emitter.location + 1) } = _
  rw [filter_ne_of_below ready.below, hMark]
  rfl

end Emitter

namespace Code

open Emitter Register

/-! ### Laying code -/

/-- From every ready emitter on, the work writes the given instructions to the locations from the
current one on, in some order and between comments, and leaves the emitter ready behind them. -/
def Lays (work : Emit Unit) (code : List Instruction) : Prop :=
  ∀ emitter : Emitter, emitter.Ready → emitter.location + code.length < 2147483648 →
    ∃ entries, work emitter = .ok () (emitter.advance entries code.length) ∧
      Entry.Carry entries (Assembly.located emitter.location code)

theorem Lays.seq {work next : Emit Unit} {code more : List Instruction} (h : Lays work code)
    (h' : Lays next more) : Lays (work >>= fun _ => next) (code ++ more) := by
  intro emitter ready small
  rw [List.length_append] at small
  obtain ⟨a, ha, carryA⟩ := h emitter ready (by omega)
  obtain ⟨b, hb, carryB⟩ := h' _ (ready.advance a code.length)
    (show emitter.location + code.length + more.length < _ by omega)
  refine ⟨a ++ b, ?_, ?_⟩
  · rw [bind_of_ok ha, hb, advance_advance, List.length_append]
  · rw [Assembly.located_append]
    exact carryA.append carryB

theorem lays_comment {text : String} (plain : '\n' ∉ text.toList) :
    Lays (Emitter.comment text) [] := by
  intro emitter ready _
  refine ⟨[.comment text], ?_, Entry.carry_comment text plain⟩
  rw [ready.comment_run]
  rfl

theorem lays_nothing : Lays (pure ()) [] := by
  intro emitter ready _
  refine ⟨[], ?_, .refl _, fun entry h => absurd h List.not_mem_nil⟩
  have hSame : emitter.record [] = emitter := by simp only [record, Entry.texts, Sink.add_empty]
  show EStateM.Result.ok () emitter = .ok () (emitter.reach [] emitter.location emitter.reserved)
  rw [← ready.record_eq, hSame]

theorem Lays.commented {work : Emit Unit} {code : List Instruction} {text : String}
    (h : Lays work code) (plain : '\n' ∉ text.toList) :
    Lays (Emitter.comment text >>= fun _ => work) code :=
  (lays_comment plain).seq h

theorem Lays.thenComment {work : Emit Unit} {code : List Instruction} {text : String}
    (h : Lays work code) (plain : '\n' ∉ text.toList) :
    Lays (work >>= fun _ => Emitter.comment text) code := by
  have := h.seq (lays_comment plain)
  rwa [List.append_nil] at this

theorem lays_place (i : Instruction) {note : String} (plain : '\n' ∉ note.toList) :
    Lays (Emitter.place i.op i.operands note) [i] := by
  intro emitter ready _
  refine ⟨[.placed emitter.location i note], ?_, Entry.carry_placed _ _ _ plain⟩
  rw [place_run ready.unlimited, ready.fill_record]
  rfl

theorem operands_between {op : Opcode} {r s t : Nat} (form : op.isIndexed = false)
    (hr : r < 2147483648) (hs : s < 2147483648) (ht : t < 2147483648) :
    (Assembly.between op r s t).operands = .registers r s t := by
  simp [Instruction.operands, Assembly.between, form, Int32.toInt_ofNat_of_lt hr,
    Int32.toInt_ofNat_of_lt hs, Int32.toInt_ofNat_of_lt ht, -Int32.toInt_ofNat']

theorem lays_registers {op : Opcode} {r s t : Nat} {note : String} (form : op.isIndexed = false)
    (hr : r < 8) (hs : s < 8) (ht : t < 8) (plain : '\n' ∉ note.toList) :
    Lays (placeRegisters op r s t note) [Assembly.between op r s t] := by
  rw [placeRegisters, ← operands_between form (by omega) (by omega) (by omega)]
  exact lays_place (Assembly.between op r s t) plain

theorem operands_indexed {op : Opcode} {r base : Nat} (form : op.isIndexed = true)
    (hr : r < 2147483648) (hb : base < 2147483648) (offset : Int32) :
    (Assembly.indexed op r offset base).operands = .indexed r offset.toInt base := by
  simp [Instruction.operands, Assembly.indexed, form, Int32.toInt_ofNat_of_lt hr,
    Int32.toInt_ofNat_of_lt hb, -Int32.toInt_ofNat']

theorem placeIndexed_run {emitter : Emitter} (ready : emitter.Ready) (op : Opcode) (r base : Nat)
    (offset : Int32) (note : String) (form : op.isIndexed = true) (hr : r < 8) (hb : base < 8) :
    placeIndexed op r offset base note emitter =
      .ok () (emitter.advance
        [.placed emitter.location (Assembly.indexed op r offset base) note] 1) := by
  rw [placeIndexed, ← operands_indexed form (by omega) (by omega) offset, ← ready.fill_record]
  exact place_run ready.unlimited (Assembly.indexed op r offset base) note

theorem lays_indexed {op : Opcode} {r base : Nat} {offset : Int32} {note : String}
    (form : op.isIndexed = true) (hr : r < 8) (hb : base < 8) (plain : '\n' ∉ note.toList) :
    Lays (placeIndexed op r offset base note) [Assembly.indexed op r offset base] := by
  rw [placeIndexed, ← operands_indexed form (by omega) (by omega) offset]
  exact lays_place (Assembly.indexed op r offset base) plain

/-! ### Expressions -/

theorem locationOf_eq {symbols : Symbols} {name : String} {location : Nat}
    (h : symbols.location? name = some location) :
    locationOf symbols name = pure (Assembly.offset symbols name) := by
  simp only [locationOf, h, Assembly.offset, Option.getD_some]

theorem lays_comparison {jump : Opcode} {note : String} (form : jump.isIndexed = true)
    (plain : '\n' ∉ note.toList) : Lays (comparison jump note) (Assembly.comparison jump) :=
  (lays_registers rfl (by decide) (by decide) (by decide) plain).seq <|
    (lays_indexed form (by decide) (by decide) (by decide)).seq <|
    (lays_indexed rfl (by decide) (by decide) (by decide)).seq <|
    (lays_indexed rfl (by decide) (by decide) (by decide)).seq <|
    lays_indexed rfl (by decide) (by decide) (by decide)

theorem lays_operator (op : Operator) : Lays (operator op) (Assembly.operator op) := by
  cases op with
  | add => exact lays_registers rfl (by decide) (by decide) (by decide) (by decide)
  | sub => exact lays_registers rfl (by decide) (by decide) (by decide) (by decide)
  | mul => exact lays_registers rfl (by decide) (by decide) (by decide) (by decide)
  | div => exact lays_registers rfl (by decide) (by decide) (by decide) (by decide)
  | less => exact lays_comparison rfl (by decide)
  | equal => exact lays_comparison rfl (by decide)

/-- The code of an expression lays its code in pieces. -/
theorem lays_expression {symbols : Symbols} {e : Expression} (covered : e.Covered symbols)
    (depth : Nat) : Lays (expression symbols depth e) (Assembly.expression symbols depth e) := by
  induction e generalizing depth with
  | constant value line type =>
    exact ((lays_indexed rfl (by decide) (by decide) (by decide)).thenComment (by decide)).commented
      (by decide)
  | reference name line type =>
    obtain ⟨location, h⟩ := covered
    rw [expression, locationOf_eq h]
    simp only [pure_bind]
    exact ((lays_indexed rfl (by decide) (by decide) (by decide)).thenComment (by decide)).commented
      (by decide)
  | binary op lhs rhs line type ihl ihr =>
    have push : Lays (placeIndexed .st ac (temporary depth) mp "op: push left") _ :=
      lays_indexed rfl (by decide) (by decide) (by decide)
    have pop : Lays (placeIndexed .ld ac1 (temporary depth) mp "op: load left") _ :=
      lays_indexed rfl (by decide) (by decide) (by decide)
    exact Lays.commented ((ihl covered.1 depth).seq <| push.seq <|
      (ihr covered.2 (depth + 1)).seq <| pop.seq <| (lays_operator op).thenComment (by decide))
      (by decide)
  | malformed line => exact absurd covered id

end Code

/-! ### Reserved locations -/

namespace Emitter

theorem reserve_run {emitter : Emitter} (ready : emitter.Ready) :
    Emitter.reserve 1 emitter =
      .ok emitter.location
        (emitter.reach [] (emitter.location + 1) (emitter.reserved ++ [emitter.location])) := by
  have hMark : max emitter.highWater (emitter.location + 1) = emitter.location + 1 := by
    rw [← ready.atMark]; omega
  rw [Emitter.reserve, get_bind]
  simp only [hMark]
  refine congrArg (EStateM.Result.ok emitter.location) ?_
  simp [reach, record, Entry.texts, Sink.add_empty]

/-- An emitter stays ready when it goes on to a location and reserves that. -/
theorem Ready.opened {emitter : Emitter} (ready : emitter.Ready) (entries : List Entry)
    {location : Nat} (below : ∀ l ∈ emitter.reserved, l < location) :
    (emitter.reach entries (location + 1) (emitter.reserved ++ [location])).Ready := by
  refine ready.reach entries fun l h => ?_
  rcases List.mem_append.mp h with hIn | hIn
  · exact Nat.lt_succ_of_lt (below l hIn)
  · rw [List.mem_singleton.mp hIn]
    exact Nat.lt_succ_self _

theorem Ready.reserved {emitter : Emitter} (ready : emitter.Ready) :
    (emitter.reach [] (emitter.location + 1) (emitter.reserved ++ [emitter.location])).Ready :=
  ready.opened [] ready.below

theorem finish_run {emitter : Emitter} (h : emitter.reserved = []) :
    Emitter.finish emitter = .ok () emitter := by
  rw [Emitter.finish, get_bind, h]
  rfl

theorem patch_run {emitter : Emitter} (ready : emitter.Ready) {slot : Nat}
    (h : slot ∈ emitter.reserved) :
    Emitter.patch slot emitter = .ok () { emitter with location := slot } := by
  have hLow : slot ≤ emitter.highWater := ready.atMark ▸ Nat.le_of_lt (ready.below slot h)
  rw [Emitter.patch, get_bind, if_pos ⟨hLow, h⟩]
  rfl

theorem placeBranch_eq {emitter : Emitter} {target : Nat} (op : Opcode) (r : Nat) (note : String)
    (hTarget : target < 2147483648) (hHere : emitter.location < 2147483648) :
    placeBranch op r target note emitter =
      placeIndexed op r (.ofInt (target - (emitter.location + 1))) Register.pc note emitter := by
  have hOffset : branchOffset emitter.location target = target - (emitter.location + 1) := by
    rw [branchOffset, signed, if_pos (by omega)]
  rw [placeBranch, get_bind, hOffset, if_pos (by omega)]

end Emitter

namespace Code

open Emitter Register

/-- **Filling a reserved location** writes a branch from there to the current location, where the
emitter stands again afterwards. -/
theorem jumpHere_run {emitter : Emitter} (ready : emitter.Ready) {slot distance : Nat}
    (h : slot ∈ emitter.reserved) (here : emitter.location = slot + 1 + distance) (op : Opcode)
    (r : Nat) (note : String) (form : op.isIndexed = true) (hr : r < 8)
    (small : emitter.location < 2147483648) :
    jumpHere slot op r note emitter =
      .ok () (emitter.reach [.placed slot (Assembly.branch op r distance) note]
        emitter.location (emitter.reserved.filter (· ≠ slot))) := by
  have hMark : max emitter.highWater (slot + 1) = emitter.location := by
    have := ready.atMark; omega
  have hDistance : (emitter.location : Int) - (slot + 1) = distance := by omega
  have hPlace : placeBranch op r emitter.location note { emitter with location := slot } =
      .ok () (fill ({ emitter with location := slot }.record
        [.placed slot (Assembly.branch op r distance) note])) := by
    rw [placeBranch_eq op r note small (show slot < 2147483648 by omega), placeIndexed,
      ← operands_indexed form (by omega) (by decide)]
    simp only [hDistance]
    have hLimit : { emitter with location := slot }.sink.limit = none := ready.unlimited
    exact place_run hLimit (Assembly.branch op r distance) note
  rw [jumpHere, get_bind, bind_of_ok (patch_run ready h), bind_of_ok hPlace]
  show EStateM.Result.ok () { emitter.record _ with
    location := max emitter.highWater (slot + 1)
    highWater := max emitter.highWater (slot + 1)
    reserved := emitter.reserved.filter (· ≠ slot) } = _
  rw [hMark]
  rfl

/-- A branch to a location that is already known. -/
theorem placeBranch_run {emitter : Emitter} (ready : emitter.Ready) {target : Nat} {distance : Int}
    (there : (target : Int) = emitter.location + 1 + distance) (op : Opcode) (r : Nat)
    (note : String) (form : op.isIndexed = true) (hr : r < 8) (hTarget : target < 2147483648)
    (small : emitter.location < 2147483648) :
    placeBranch op r target note emitter =
      .ok () (emitter.advance
        [.placed emitter.location (Assembly.branch op r distance) note] 1) := by
  have hDistance : (target : Int) - (emitter.location + 1) = distance := by omega
  rw [placeBranch_eq op r note hTarget small, hDistance]
  exact placeIndexed_run ready op r pc (.ofInt distance) note form hr (by decide)

end Code

end Tiny
