import Tiny.Proofs.Backpatching
import Tiny.Proofs.Printing

/-!
# The lines of a program

The lines that an emitter writes for a program do not depend on whether the code is commented, nor
on the sink: only how much of each line is written depends on the one, and how many of them fit on
the other.

* `Code.Records`: work for which this is so, with the number of instructions that it places.
* `records_all`: the work for statements, which places one line for every instruction of their code
  in pieces.
* `exists_generated`: what is left in a sink for a program, whether it has code or not.
-/

namespace Tiny

theorem Entry.texts_singleton (traceCode : Bool) (entry : Entry) :
    Entry.texts traceCode [entry] = entry.text traceCode := by
  rw [texts, texts, String.append_empty]

namespace Emitter

/-- Where an emitter stands among the locations. -/
structure Spot where
  location : Nat
  highWater : Nat
  reserved : List Nat

/-- The emitter at a spot. -/
def atSpot (spot : Spot) (traceCode : Bool) (sink : Sink) : Emitter :=
  { sink, traceCode, location := spot.location, highWater := spot.highWater,
    reserved := spot.reserved }

theorem shows_sink : sinkPart.Shows atSpot :=
  ⟨fun _ _ _ => rfl, fun _ _ _ _ => rfl⟩

/-- A comment, whatever it says. -/
theorem prints_comment (text : String) (spot : Spot) :
    Prints atSpot (comment text) spot (Entry.texts · [.comment text]) (.ok ()) spot := by
  have h : Prints atSpot (comment text) spot
      (fun traceCode => if traceCode then "* " ++ text ++ "\n" else "") (.ok ()) spot :=
    prints_switch shows_sink fun _ _ => rfl
  refine h.congr fun traceCode => ?_
  rw [Entry.texts_singleton]
  rfl

theorem prints_place (i : Instruction) (note : String) (spot : Spot) :
    ∃ spot', Prints atSpot (place i.op i.operands note) spot
      (Entry.texts · [.placed spot.location i note]) (.ok ()) spot' := by
  have hWrite : Prints atSpot
      (do
        let emitter ← get
        write (lineText emitter.location i.op i.operands
          (if emitter.traceCode then some note else none)))
      spot (Entry.texts · [.placed spot.location i note]) (.ok ()) spot := by
    refine prints_write shows_sink fun traceCode sink => ?_
    rw [Entry.texts_singleton, Entry.text, ← lineText_eq]
    rfl
  have hFill : Prints atSpot (modify fill) spot (fun _ => "") (.ok ())
      ⟨spot.location + 1, max spot.highWater (spot.location + 1),
        spot.reserved.filter (· ≠ spot.location)⟩ :=
    prints_silent fun _ _ => rfl
  have hPlace : place i.op i.operands note =
      (do
        let emitter ← get
        write (lineText emitter.location i.op i.operands
          (if emitter.traceCode then some note else none))) >>= fun _ => modify fill := by
    rw [bind_assoc]
    rfl
  rw [hPlace]
  exact ⟨_, (hWrite.bind hFill).congr fun _ => String.append_empty⟩

end Emitter

namespace Code

open Emitter Register

variable {α β : Type}

/-! ### Work that records lines -/

/-- From a spot on, the work writes the lines, and if it comes to its end, `n` of them are
instructions.  Whatever stops it is no fault of reading or writing. -/
structure Recorded (work : Emit α) (n : Nat) (spot : Spot) (entries : List Entry)
    (outcome : Except Fault α) (spot' : Spot) : Prop where
  prints : Prints atSpot work spot (Entry.texts · entries) outcome spot'
  plain : ∀ entry ∈ entries, entry.OneLine
  counts : ∀ result, outcome = .ok result → (Entry.placements entries).length = n
  faults : ∀ reason, outcome ≠ .error (.io reason)

/-- Work that writes lines, `n` of which are instructions if it comes to its end. -/
def Records (work : Emit α) (n : Nat) : Prop :=
  ∀ spot, ∃ entries outcome spot', Recorded work n spot entries outcome spot'

theorem Records.bind {work : Emit α} {f : α → Emit β} {m n : Nat} (h : Records work m)
    (hf : ∀ result, Records (f result) n) : Records (work >>= f) (m + n) := by
  intro spot
  obtain ⟨entries, outcome, spot', first⟩ := h spot
  cases outcome with
  | ok result =>
    obtain ⟨more, outcome', spot'', second⟩ := hf result spot'
    refine ⟨entries ++ more, outcome', spot'', ?_, ?_, fun result' hEnd => ?_, second.faults⟩
    · exact (first.prints.bind second.prints).congr fun traceCode =>
        (Entry.texts_append traceCode entries more).symm
    · exact List.forall_mem_append.mpr ⟨first.plain, second.plain⟩
    · rw [Entry.placements_append, List.length_append, first.counts result rfl,
        second.counts result' hEnd]
  | error fault =>
    refine ⟨entries, .error fault, spot', first.prints.bind_error, first.plain, nofun,
      fun reason same => ?_⟩
    exact first.faults reason (congrArg Except.error (Except.error.inj same))

/-- Work that writes nothing. -/
theorem records_silent {work : Emit α} {n : Nat}
    (h : ∀ spot, ∃ outcome spot', (∀ result, outcome = .ok result → n = 0) ∧
      (∀ reason, outcome ≠ .error (.io reason)) ∧ ∀ traceCode sink,
        work (atSpot spot traceCode sink) = ending outcome (atSpot spot' traceCode sink)) :
    Records work n := by
  intro spot
  obtain ⟨outcome, spot', hCount, hFault, hWork⟩ := h spot
  exact ⟨[], outcome, spot', prints_silent hWork, fun _ hIn => absurd hIn List.not_mem_nil,
    fun result hEnd => (hCount result hEnd).symm, hFault⟩

theorem records_pure (result : α) : Records (pure result) 0 :=
  records_silent fun spot => ⟨.ok result, spot, fun _ _ => rfl, nofun, fun _ _ => rfl⟩

theorem records_throw {fault : Fault} (h : ∀ reason, fault ≠ .io reason) (n : Nat) :
    Records (throw fault : Emit α) n :=
  records_silent fun spot => ⟨.error fault, spot, nofun,
    fun reason same => h reason (Except.error.inj same), fun _ _ => rfl⟩

/-- Work that looks at the spot where the emitter stands. -/
theorem records_get_bind {f : Emitter → Emit α} {n : Nat}
    (hf : ∀ spot traceCode sink, f (atSpot spot traceCode sink) = f (atSpot spot false {}))
    (h : ∀ spot, Records (f (atSpot spot false {})) n) : Records (get >>= f) n := by
  intro spot
  obtain ⟨entries, outcome, spot', recorded⟩ := h spot spot
  exact ⟨entries, outcome, spot', prints_get_bind (hf spot) recorded.prints, recorded.plain,
    recorded.counts, recorded.faults⟩

theorem records_comment {text : String} (plain : '\n' ∉ text.toList) :
    Records (Emitter.comment text) 0 := by
  intro spot
  refine ⟨[.comment text], .ok (), spot, prints_comment text spot, ?_, fun _ _ => rfl, nofun⟩
  intro entry hIn
  rw [List.mem_singleton.mp hIn]
  exact plain

theorem records_place (i : Instruction) {note : String} (plain : '\n' ∉ note.toList) :
    Records (Emitter.place i.op i.operands note) 1 := by
  intro spot
  obtain ⟨spot', prints⟩ := prints_place i note spot
  refine ⟨[.placed spot.location i note], .ok (), spot', prints, ?_, fun _ _ => rfl, nofun⟩
  intro entry hIn
  rw [List.mem_singleton.mp hIn]
  exact plain

theorem records_registers {op : Opcode} {r s t : Nat} {note : String} (form : op.isIndexed = false)
    (hr : r < 8) (hs : s < 8) (ht : t < 8) (plain : '\n' ∉ note.toList) :
    Records (placeRegisters op r s t note) 1 := by
  rw [placeRegisters, ← operands_between form (by omega) (by omega) (by omega)]
  exact records_place (Assembly.between op r s t) plain

theorem records_indexed {op : Opcode} {r base : Nat} {offset : Int32} {note : String}
    (form : op.isIndexed = true) (hr : r < 8) (hb : base < 8) (plain : '\n' ∉ note.toList) :
    Records (placeIndexed op r offset base note) 1 := by
  rw [placeIndexed, ← operands_indexed form (by omega) (by omega) offset]
  exact records_place (Assembly.indexed op r offset base) plain

theorem records_branch {op : Opcode} {r target : Nat} {note : String} (form : op.isIndexed = true)
    (hr : r < 8) (plain : '\n' ∉ note.toList) : Records (placeBranch op r target note) 1 := by
  refine records_get_bind (fun _ _ _ => rfl) fun spot => ?_
  simp only
  split
  · exact records_indexed form hr (by decide) plain
  · exact records_throw (fun _ same => by cases same) 1

theorem records_reserve (count : Nat) : Records (Emitter.reserve count) 0 :=
  records_silent fun spot => ⟨.ok spot.location, ⟨spot.location + count,
    max spot.highWater (spot.location + count),
    spot.reserved ++ (List.range count).map (spot.location + ·)⟩, fun _ _ => rfl, nofun,
    fun _ _ => rfl⟩

theorem records_patch (location : Nat) : Records (Emitter.patch location) 0 := by
  refine records_silent fun spot => ?_
  by_cases h : location ≤ spot.highWater ∧ location ∈ spot.reserved
  · refine ⟨.ok (), ⟨location, spot.highWater, spot.reserved⟩, fun _ _ => rfl,
      (fun _ same => by cases same), fun traceCode sink => ?_⟩
    rw [Emitter.patch, get_bind]
    exact if_pos h ▸ rfl
  · refine ⟨.error (.backpatch (.notReserved location)), spot, (fun _ same => by cases same),
      (fun _ same => by cases same), fun traceCode sink => ?_⟩
    rw [Emitter.patch, get_bind]
    exact if_neg h ▸ rfl

theorem records_jumpHere {slot : Nat} {op : Opcode} {r : Nat} {note : String}
    (form : op.isIndexed = true) (hr : r < 8) (plain : '\n' ∉ note.toList) :
    Records (jumpHere slot op r note) 1 := by
  have hRestore : Records Emitter.restore 0 := records_silent fun spot =>
    ⟨.ok (), ⟨spot.highWater, spot.highWater, spot.reserved⟩, fun _ _ => rfl, nofun,
      fun _ _ => rfl⟩
  refine records_get_bind (fun _ _ _ => rfl) fun spot => ?_
  exact (records_patch slot).bind fun _ => (records_branch form hr plain).bind fun _ => hRestore

theorem records_locationOf (symbols : Symbols) (name : String) :
    Records (locationOf symbols name) 0 := by
  unfold locationOf
  split
  · exact records_pure _
  · exact records_throw (fun _ same => by cases same) 0

/-! ### Statements -/

theorem records_comparison {jump : Opcode} {note : String} (form : jump.isIndexed = true)
    (plain : '\n' ∉ note.toList) : Records (comparison jump note) 5 :=
  (records_registers rfl (by decide) (by decide) (by decide) plain).bind fun _ =>
    (records_indexed form (by decide) (by decide) (by decide)).bind fun _ =>
    (records_indexed rfl (by decide) (by decide) (by decide)).bind fun _ =>
    (records_indexed rfl (by decide) (by decide) (by decide)).bind fun _ =>
    records_indexed rfl (by decide) (by decide) (by decide)

theorem records_operator (op : Operator) :
    Records (operator op) (Assembly.operator op).length := by
  cases op with
  | add => exact records_registers rfl (by decide) (by decide) (by decide) (by decide)
  | sub => exact records_registers rfl (by decide) (by decide) (by decide) (by decide)
  | mul => exact records_registers rfl (by decide) (by decide) (by decide) (by decide)
  | div => exact records_registers rfl (by decide) (by decide) (by decide) (by decide)
  | less => exact records_comparison rfl (by decide)
  | equal => exact records_comparison rfl (by decide)

theorem records_expression (symbols : Symbols) (depth : Nat) (e : Expression) :
    Records (expression symbols depth e) (Assembly.expression symbols depth e).length := by
  induction e generalizing depth with
  | constant value line type =>
    exact (records_comment (by decide)).bind fun _ =>
      (records_indexed rfl (by decide) (by decide) (by decide)).bind fun _ =>
      records_comment (by decide)
  | reference name line type =>
    exact (records_comment (by decide)).bind fun _ =>
      (records_locationOf symbols name).bind fun _ =>
      (records_indexed rfl (by decide) (by decide) (by decide)).bind fun _ =>
      records_comment (by decide)
  | binary op lhs rhs line type ihl ihr =>
    have hLength : (Assembly.expression symbols depth (.binary op lhs rhs line type)).length =
        0 + ((Assembly.expression symbols depth lhs).length + (1 +
          ((Assembly.expression symbols (depth + 1) rhs).length + (1 +
            ((Assembly.operator op).length + 0))))) := by
      simp only [Assembly.expression, List.length_append, List.length_cons]
      omega
    rw [hLength, expression]
    exact (records_comment (by decide)).bind fun _ => (ihl depth).bind fun _ =>
      (records_indexed rfl (by decide) (by decide) (by decide)).bind fun _ =>
      (ihr (depth + 1)).bind fun _ =>
      (records_indexed rfl (by decide) (by decide) (by decide)).bind fun _ =>
      (records_operator op).bind fun _ => records_comment (by decide)
  | malformed line => exact records_throw (fun _ same => by cases same) _

theorem records_all (symbols : Symbols) :
    (∀ s : Statement, Records (statement symbols s) (Assembly.statement symbols s).length) ∧
    ∀ ss : List Statement,
      Records (statements symbols ss) (Assembly.statements symbols ss).length := by
  refine Statement.ind ?_ ?_ ?_ ?_ ?_ ?_ ?_ ?_
  · intro test yes line ih
    have hLength : (Assembly.statement symbols (.ifThen test yes line)).length =
        0 + ((Assembly.expression symbols 0 test).length + (0 + (0 +
          ((Assembly.statements symbols yes).length + (1 + 0))))) := by
      simp only [Assembly.statement, List.length_append, List.length_cons]
      omega
    rw [hLength, statement]
    exact (records_comment (by decide)).bind fun _ => (records_expression symbols 0 test).bind
      fun _ => (records_reserve 1).bind fun _ => (records_comment (by decide)).bind fun _ =>
      ih.bind fun _ => (records_jumpHere rfl (by decide) (by decide)).bind fun _ =>
      records_comment (by decide)
  · intro test yes no line ihYes ihNo
    have hLength : (Assembly.statement symbols (.ifElse test yes no line)).length =
        0 + ((Assembly.expression symbols 0 test).length + (0 + (0 +
          ((Assembly.statements symbols yes).length + (0 + (0 + (1 +
            ((Assembly.statements symbols no).length + (1 + 0))))))))) := by
      simp only [Assembly.statement, List.length_append, List.length_cons]
      omega
    rw [hLength, statement]
    exact (records_comment (by decide)).bind fun _ => (records_expression symbols 0 test).bind
      fun _ => (records_reserve 1).bind fun _ => (records_comment (by decide)).bind fun _ =>
      ihYes.bind fun _ => (records_reserve 1).bind fun _ => (records_comment (by decide)).bind
      fun _ => (records_jumpHere rfl (by decide) (by decide)).bind fun _ => ihNo.bind fun _ =>
      (records_jumpHere rfl (by decide) (by decide)).bind fun _ => records_comment (by decide)
  · intro body test line ih
    have hLength : (Assembly.statement symbols (.loop body test line)).length =
        0 + (0 + ((Assembly.statements symbols body).length +
          ((Assembly.expression symbols 0 test).length + (1 + 0)))) := by
      simp only [Assembly.statement, List.length_append, List.length_cons, List.length_nil]
      omega
    rw [hLength, statement]
    refine (records_comment (by decide)).bind fun _ =>
      records_get_bind (fun _ _ _ => rfl) fun spot => ?_
    exact (records_comment (by decide)).bind fun _ => ih.bind fun _ =>
      (records_expression symbols 0 test).bind fun _ =>
      (records_branch rfl (by decide) (by decide)).bind fun _ => records_comment (by decide)
  · intro name value line
    have hLength : (Assembly.statement symbols (.assign name value line)).length =
        0 + ((Assembly.expression symbols 0 value).length + (0 + (1 + 0))) := by
      simp only [Assembly.statement, List.length_append, List.length_cons, List.length_nil]
      omega
    rw [hLength, statement]
    exact (records_comment (by decide)).bind fun _ => (records_expression symbols 0 value).bind
      fun _ => (records_locationOf symbols name).bind fun _ =>
      (records_indexed rfl (by decide) (by decide) (by decide)).bind fun _ =>
      records_comment (by decide)
  · intro name line
    exact (records_registers rfl (by decide) (by decide) (by decide) (by decide)).bind fun _ =>
      (records_locationOf symbols name).bind fun _ =>
      records_indexed rfl (by decide) (by decide) (by decide)
  · intro value line
    rw [Assembly.statement, List.length_append]
    exact (records_expression symbols 0 value).bind fun _ =>
      records_registers rfl (by decide) (by decide) (by decide) (by decide)
  · exact records_pure ()
  · intro first rest ihFirst ihRest
    rw [Assembly.statements, List.length_append]
    exact ihFirst.bind fun _ => ihRest

/-! ### Whole programs -/

theorem records_finish : Records Emitter.finish 0 := by
  refine records_silent fun spot => ?_
  cases hMin : spot.reserved.min? with
  | none =>
    refine ⟨.ok (), spot, fun _ _ => rfl, (fun _ same => by cases same),
      fun traceCode sink => ?_⟩
    simp only [Emitter.finish, get_bind, atSpot, hMin]
    rfl
  | some location =>
    refine ⟨.error (.backpatch (.unpatched location)), spot, (fun _ same => by cases same),
      (fun _ same => by cases same), fun traceCode sink => ?_⟩
    simp only [Emitter.finish, get_bind, atSpot, hMin]
    rfl

/-- The work for a program behind its first lines. -/
def unheaded (symbols : Symbols) (p : Program) : Emit Unit := do
  Emitter.comment "Standard prelude:"
  Emitter.placeIndexed .ld mp 0 ac "load maxaddress from location 0"
  Emitter.placeIndexed .st ac 0 ac "clear location 0"
  Emitter.comment "End of standard prelude."
  statements symbols p
  Emitter.comment "End of execution."
  Emitter.placeRegisters .halt 0 0 0 ""
  Emitter.finish

theorem records_unheaded (symbols : Symbols) (p : Program) :
    Records (unheaded symbols p) (Assembly.program symbols p).length := by
  have hLength : (Assembly.program symbols p).length = 0 + (1 + (1 + (0 +
      ((Assembly.statements symbols p).length + (0 + (1 + 0)))))) := by
    simp only [Assembly.program, Assembly.opening, List.length_append, List.length_cons,
      List.length_nil]
    omega
  rw [hLength, unheaded]
  exact (records_comment (by decide)).bind fun _ =>
    (records_indexed rfl (by decide) (by decide) (by decide)).bind fun _ =>
    (records_indexed rfl (by decide) (by decide) (by decide)).bind fun _ =>
    (records_comment (by decide)).bind fun _ => ((records_all symbols).2 p).bind fun _ =>
    (records_comment (by decide)).bind fun _ =>
    (records_registers rfl (by decide) (by decide) (by decide) (by decide)).bind fun _ =>
    records_finish

/-- For a program the lines of `body` are written behind its first lines, and then the work comes
to the given outcome.  Only the room in the sink can stop it before. -/
structure Generated (symbols : Symbols) (fileName : String) (p : Program) (body : List Entry)
    (outcome : Except Fault Unit) : Prop where
  plain : ∀ entry ∈ body, entry.OneLine
  counts : outcome = .ok () →
    (Entry.placements body).length = (Assembly.program symbols p).length
  faults : ∀ reason, outcome ≠ .error (.io reason)
  fits : ∀ {traceCode sink sink'},
    Sink.write (Entry.texts traceCode (heading fileName ++ body)) sink = .ok () sink' →
    p.generate symbols traceCode fileName sink = (outcome, sink')
  exceeds : ∀ {traceCode sink fault sink'},
    Sink.write (Entry.texts traceCode (heading fileName ++ body)) sink = .error fault sink' →
    p.generate symbols traceCode fileName sink = (.error fault, sink')

theorem Generated.unlimited {symbols : Symbols} {fileName : String} {p : Program}
    {body : List Entry} {outcome : Except Fault Unit}
    (generated : Generated symbols fileName p body outcome) {sink : Sink}
    (unlimited : sink.limit = none) (trace : Bool) :
    p.generate symbols trace fileName sink =
      (outcome, sink.add (Entry.texts trace (heading fileName ++ body))) :=
  generated.fits (Sink.write_of_unlimited unlimited _)

/-- **The lines of a program** and how its code ends depend neither on comments nor on the sink. -/
theorem exists_generated (symbols : Symbols) (fileName : String) (p : Program) :
    ∃ body outcome, Generated symbols fileName p body outcome := by
  let start : Spot := ⟨0, 0, []⟩
  obtain ⟨body, outcome, spot', recorded⟩ := records_unheaded symbols p start
  have prints : Prints atSpot (program symbols fileName p) start
      (Entry.texts · (heading fileName ++ body)) outcome spot' := by
    have hFile : Prints atSpot
        (Emitter.comment ("File: " ++ fileName) >>= fun _ => unheaded symbols p) start
        (fun traceCode => Entry.texts traceCode [.comment ("File: " ++ fileName)] ++
          Entry.texts traceCode body) outcome spot' :=
      (prints_comment ("File: " ++ fileName) start).bind recorded.prints
    have hTitle : Prints atSpot (program symbols fileName p) start
        (fun traceCode => Entry.texts traceCode [.comment "TINY Compilation to TM Code"] ++ _)
        outcome spot' :=
      (prints_comment "TINY Compilation to TM Code" start).bind hFile
    refine hTitle.congr fun traceCode => ?_
    rw [← Entry.texts_append, ← Entry.texts_append, heading, List.append_assoc]
  refine ⟨body, outcome, recorded.plain, recorded.counts (), recorded.faults, ?_, ?_⟩
  · intro traceCode sink sink' hWrite
    have hRun : Code.program symbols fileName p { sink, traceCode } = _ := prints.fits hWrite
    rw [Program.generate, hRun]
    cases outcome with
    | ok _ => rfl
    | error fault => rfl
  · intro traceCode sink fault sink' hWrite
    obtain ⟨stopped, hStop⟩ := prints.exceeds hWrite
    have hRun : Code.program symbols fileName p { sink, traceCode } = _ := hStop
    rw [Program.generate, hRun]
    rfl

end Code

end Tiny
