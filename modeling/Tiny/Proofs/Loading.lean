import Tiny.Machine
import Tiny.Proofs.Readback
import Tiny.Proofs.Recording

/-!
# Loading generated code

Code that was written without a fault is loaded as it was meant.  That it was written says two
things first: the program has code (`covered_of_program`), and there is one line for every
instruction of the code in pieces (`count_generate`), however many these are.  If there are at most
1024 of them, the machine takes them all.

* `read_generate`: the listing of a program that has code is read as the code in pieces.
* `placeAll_frame`, `placeAll_last`: placing instructions changes their locations only, and of
  several for a location the last one stays.
* `load_generate`: the machine then holds the code in pieces from location 0 on, and is otherwise
  fresh.
-/

namespace Tiny

namespace Sink

/-- What was written to an empty sink is read as it is. -/
theorem text_add (t : String) : (Sink.add {} t).text = t := by
  have hBytes : (Sink.add {} t).written = t.toByteArray := by simp [add]
  have hValid : t.toByteArray.IsValidUTF8 := t.isValidUTF8
  rw [text, hBytes, Text.decode, String.fromUTF8?, dif_pos hValid]
  rfl

end Sink

namespace Code

open Emitter Register

/-! ### Trees that got their code -/

/-- A name whose location was found has one. -/
theorem location_of_locationOf {symbols : Symbols} {name : String} {emitter after : Emitter}
    {offset : Int32} (h : locationOf symbols name emitter = .ok offset after) :
    ∃ location, symbols.location? name = some location := by
  unfold locationOf at h
  cases hName : symbols.location? name with
  | none =>
    rw [hName] at h
    cases h
  | some location => exact ⟨location, rfl⟩

theorem covered_of_expression {symbols : Symbols} {e : Expression} {depth : Nat}
    {emitter after : Emitter} (h : expression symbols depth e emitter = .ok () after) :
    e.Covered symbols := by
  induction e generalizing depth emitter after with
  | constant value line type => trivial
  | reference name line type =>
    obtain ⟨_, _, _, h⟩ := bind_eq_ok h
    obtain ⟨_, _, h, _⟩ := bind_eq_ok h
    exact location_of_locationOf h
  | binary op lhs rhs line type ihl ihr =>
    obtain ⟨_, _, _, h⟩ := bind_eq_ok h
    obtain ⟨_, _, hl, h⟩ := bind_eq_ok h
    obtain ⟨_, _, _, h⟩ := bind_eq_ok h
    obtain ⟨_, _, hr, _⟩ := bind_eq_ok h
    exact ⟨ihl hl, ihr hr⟩
  | malformed line => cases h

theorem covered_of_all (symbols : Symbols) :
    (∀ (s : Statement) (emitter after : Emitter), statement symbols s emitter = .ok () after →
      s.Covered symbols) ∧
    ∀ (ss : List Statement) (emitter after : Emitter),
      statements symbols ss emitter = .ok () after → Program.Covered symbols ss := by
  refine Statement.ind ?_ ?_ ?_ ?_ ?_ ?_ ?_ ?_
  · intro test yes line ih emitter after h
    obtain ⟨_, _, _, h⟩ := bind_eq_ok h
    obtain ⟨_, _, hTest, h⟩ := bind_eq_ok h
    obtain ⟨_, _, _, h⟩ := bind_eq_ok h
    obtain ⟨_, _, _, h⟩ := bind_eq_ok h
    obtain ⟨_, _, hYes, _⟩ := bind_eq_ok h
    exact ⟨covered_of_expression hTest, ih _ _ hYes⟩
  · intro test yes no line ihYes ihNo emitter after h
    obtain ⟨_, _, _, h⟩ := bind_eq_ok h
    obtain ⟨_, _, hTest, h⟩ := bind_eq_ok h
    obtain ⟨_, _, _, h⟩ := bind_eq_ok h
    obtain ⟨_, _, _, h⟩ := bind_eq_ok h
    obtain ⟨_, _, hYes, h⟩ := bind_eq_ok h
    obtain ⟨_, _, _, h⟩ := bind_eq_ok h
    obtain ⟨_, _, _, h⟩ := bind_eq_ok h
    obtain ⟨_, _, _, h⟩ := bind_eq_ok h
    obtain ⟨_, _, hNo, _⟩ := bind_eq_ok h
    exact ⟨covered_of_expression hTest, ihYes _ _ hYes, ihNo _ _ hNo⟩
  · intro body test line ih emitter after h
    obtain ⟨_, _, _, h⟩ := bind_eq_ok h
    obtain ⟨_, _, _, h⟩ := bind_eq_ok h
    obtain ⟨_, _, _, h⟩ := bind_eq_ok h
    obtain ⟨_, _, hBody, h⟩ := bind_eq_ok h
    obtain ⟨_, _, hTest, _⟩ := bind_eq_ok h
    exact ⟨ih _ _ hBody, covered_of_expression hTest⟩
  · intro name value line emitter after h
    obtain ⟨_, _, _, h⟩ := bind_eq_ok h
    obtain ⟨_, _, hValue, h⟩ := bind_eq_ok h
    obtain ⟨_, _, h, _⟩ := bind_eq_ok h
    exact ⟨covered_of_expression hValue, location_of_locationOf h⟩
  · intro name line emitter after h
    obtain ⟨_, _, _, h⟩ := bind_eq_ok h
    obtain ⟨_, _, h, _⟩ := bind_eq_ok h
    exact location_of_locationOf h
  · intro value line emitter after h
    obtain ⟨_, _, hValue, _⟩ := bind_eq_ok h
    exact covered_of_expression hValue
  · intro emitter after _
    trivial
  · intro first rest ihFirst ihRest emitter after h
    obtain ⟨_, _, hFirst, hRest⟩ := bind_eq_ok h
    exact ⟨ihFirst _ _ hFirst, ihRest _ _ hRest⟩

theorem covered_of_program {symbols : Symbols} {fileName : String} {p : Program}
    {emitter after : Emitter} (h : program symbols fileName p emitter = .ok () after) :
    Program.Covered symbols p := by
  rw [program_eq] at h
  obtain ⟨_, _, _, h⟩ := bind_eq_ok h
  obtain ⟨_, _, h, _⟩ := bind_eq_ok h
  obtain ⟨_, _, h, _⟩ := bind_eq_ok h
  exact (covered_of_all symbols).2 p _ _ h

/-! ### One line for every instruction -/

/-- **A listing that was written has a line for every instruction**, however many there are. -/
theorem count_generate {trace : Bool} {symbols : Symbols} {p : Program} {fileName : String}
    {sink : Sink} (plain : trace = true → '\n' ∉ fileName.toList)
    (h : p.generate symbols trace fileName {} = (.ok (), sink)) :
    Program.Covered symbols p ∧ Listing.count sink.text = (Assembly.program symbols p).length := by
  obtain ⟨body, outcome, generated⟩ := exists_generated symbols fileName p
  obtain ⟨hOutcome, hSink⟩ := Prod.mk.inj ((generated.unlimited rfl trace).symm.trans h)
  have hPlain : trace = true → ∀ entry ∈ heading fileName ++ body, entry.OneLine := fun on =>
    List.forall_mem_append.mpr ⟨oneLine_heading (plain on), generated.plain⟩
  constructor
  · rw [Program.generate] at h
    split at h
    · rename_i result emitter hRun
      exact covered_of_program hRun
    · cases h
  · rw [← hSink, Sink.text_add, Listing.count_texts hPlain, placements_heading]
    exact generated.counts hOutcome

/-- **The listing of a program that has code is read** as the code in pieces, in some order. -/
theorem read_generate {symbols : Symbols} {p : Program} (covered : Program.Covered symbols p)
    (small : (Assembly.program symbols p).length < 2147483648) {trace : Bool} {fileName : String}
    (plain : trace = true → '\n' ∉ fileName.toList) :
    ∃ placed, Listing.read (p.generate symbols trace fileName {}).2.text = .ok placed ∧
      placed.Perm (Assembly.located 0 (Assembly.program symbols p)) := by
  obtain ⟨entries, hRun, carry⟩ := generate_run covered small
    (show Sink.limit {} = none from rfl) trace fileName
  refine ⟨Entry.placements (heading fileName ++ entries), ?_,
    placements_heading fileName entries ▸ carry.places⟩
  rw [hRun, Sink.text_add]
  exact read_texts plain small carry

end Code

namespace Machine

/-- The machine holds some code from location 0 on. -/
def Holds (machine : Machine) (code : List Instruction) : Prop :=
  ∀ (location : Nat) (i : Instruction), code[location]? = some i →
    machine.code[location]? = some i

/-- The machine was loaded with some code, and has not made a step. -/
structure Loaded (code : List Instruction) (machine : Machine) : Prop where
  holds : machine.Holds code
  data : machine.data = fresh.data
  registers : machine.registers = fresh.registers

/-! ### Placing instructions -/

section Placing

variable {machine loaded : Machine} {placed : List (Nat × Instruction)} {location : Nat}
  {i : Instruction}

/-- What it takes to place instructions: the first one has a place, and the others follow. -/
theorem placeAll_cons_eq_ok_iff :
    placeAll ((location, i) :: placed) machine = .ok loaded ↔
      ∃ h : location < 1024,
        placeAll placed { machine with code := machine.code.set location i h } = .ok loaded := by
  rw [placeAll, place]
  by_cases h : location < 1024
  · simp [h]
  · simp [h]

theorem exists_placeAll_iff :
    (∃ loaded, placeAll placed machine = .ok loaded) ↔ ∀ p ∈ placed, p.1 < 1024 := by
  induction placed generalizing machine with
  | nil => exact iff_of_true ⟨machine, rfl⟩ fun p h => absurd h List.not_mem_nil
  | cons first rest ih =>
    obtain ⟨location, i⟩ := first
    simp only [placeAll_cons_eq_ok_iff, List.forall_mem_cons]
    rw [exists_comm]
    simp only [ih, exists_prop]

/-- Placing instructions changes their locations only. -/
theorem placeAll_frame (h : placeAll placed machine = .ok loaded) :
    loaded.data = machine.data ∧ loaded.registers = machine.registers ∧
      ∀ location, (∀ p ∈ placed, p.1 ≠ location) →
        loaded.code[location]? = machine.code[location]? := by
  induction placed generalizing machine with
  | nil =>
    obtain rfl := Except.ok.inj h
    exact ⟨rfl, rfl, fun _ _ => rfl⟩
  | cons first rest ih =>
    obtain ⟨hFirst, hRest⟩ := placeAll_cons_eq_ok_iff.mp h
    obtain ⟨hData, hRegisters, hCode⟩ := ih hRest
    refine ⟨hData, hRegisters, fun location apart => ?_⟩
    obtain ⟨hNe, apart⟩ := List.forall_mem_cons.mp apart
    rw [hCode location apart, Vector.getElem?_set, if_neg hNe]

/-- **Of several instructions for a location, the last one stays.** -/
theorem placeAll_last {after : List (Nat × Instruction)}
    (h : placeAll (placed ++ (location, i) :: after) machine = .ok loaded)
    (last : ∀ p ∈ after, p.1 ≠ location) : loaded.code[location]? = some i := by
  induction placed generalizing machine with
  | nil =>
    obtain ⟨hLocation, hAfter⟩ := placeAll_cons_eq_ok_iff.mp h
    rw [(placeAll_frame hAfter).2.2 location last, Vector.getElem?_set, if_pos rfl]
  | cons first rest ih =>
    obtain ⟨_, hRest⟩ := placeAll_cons_eq_ok_iff.mp h
    exact ih hRest

/-- Instructions that are put at different locations all stay. -/
theorem placeAll_eq (distinct : (placed.map Prod.fst).Nodup)
    (small : ∀ p ∈ placed, p.1 < 1024) (machine : Machine) :
    ∃ loaded, placeAll placed machine = .ok loaded ∧ loaded.data = machine.data ∧
      loaded.registers = machine.registers ∧
      (∀ p ∈ placed, loaded.code[p.1]? = some p.2) ∧
      ∀ location : Nat, location ∉ placed.map Prod.fst →
        loaded.code[location]? = machine.code[location]? := by
  obtain ⟨loaded, h⟩ := (@exists_placeAll_iff machine placed).mpr small
  obtain ⟨hData, hRegisters, hCode⟩ := placeAll_frame h
  refine ⟨loaded, h, hData, hRegisters, ?_, ?_⟩
  · rintro ⟨location, i⟩ hp
    -- a later instruction has another location
    obtain ⟨before, after, rfl⟩ := List.append_of_mem hp
    rw [List.map_append, List.map_cons] at distinct
    obtain ⟨-, hCons, -⟩ := List.nodup_append.mp distinct
    exact placeAll_last h fun p hIn heq =>
      (List.nodup_cons.mp hCons).1 (List.mem_map.mpr ⟨p, hIn, heq⟩)
  · intro location hIn
    exact hCode location fun p hp heq => hIn (List.mem_map.mpr ⟨p, hp, heq⟩)

end Placing

/-- Code whose lines were written in some order is loaded in the order of its locations. -/
theorem placeAll_located {placed : List (Nat × Instruction)} {code : List Instruction}
    (h : placed.Perm (Assembly.located 0 code)) (small : code.length ≤ 1024) :
    ∃ machine, placeAll placed fresh = .ok machine ∧ machine.Loaded code := by
  have hMap := h.map Prod.fst
  rw [Assembly.map_fst_located] at hMap
  have hSmall : ∀ p ∈ placed, p.1 < 1024 := by
    rintro ⟨location, i⟩ hp
    have hCode := (Assembly.mem_located.mp (h.mem_iff.mp hp)).2
    rw [Nat.sub_zero] at hCode
    have hLength := (List.getElem?_eq_some_iff.mp hCode).1
    exact Nat.lt_of_lt_of_le hLength small
  obtain ⟨machine, hLoad, hData, hRegisters, hPlaced, -⟩ :=
    placeAll_eq (hMap.nodup_iff.mpr List.nodup_range') hSmall fresh
  refine ⟨machine, hLoad, ?_, hData, hRegisters⟩
  intro location i hCode
  exact hPlaced (location, i)
    (h.mem_iff.mpr (Assembly.mem_located.mpr ⟨Nat.zero_le _, by rwa [Nat.sub_zero]⟩))

/-- **Generated code that fits is loaded as the code in pieces.** -/
theorem load_generate {symbols : Symbols} {p : Program} {trace : Bool} {fileName : String}
    {sink : Sink} (plain : trace = true → '\n' ∉ fileName.toList)
    (h : p.generate symbols trace fileName {} = (.ok (), sink))
    (fits : Listing.count sink.text ≤ 1024) :
    ∃ machine, load sink.text = .ok machine ∧
      machine.Loaded (Assembly.program symbols p) := by
  obtain ⟨covered, hCount⟩ := Code.count_generate plain h
  rw [hCount] at fits
  obtain ⟨placed, hRead, hPerm⟩ := Code.read_generate covered (by omega) plain
  rw [h] at hRead
  rw [load, hRead]
  exact placeAll_located hPerm fits

end Machine

end Tiny
