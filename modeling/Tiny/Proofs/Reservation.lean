import Tiny.Proofs.Operations

/-!
# Locations that wait to be filled

An emitter may be asked for anything in any order: to reserve a location that was filled before, to
write over a neighbour of the one it went back to, to go back to a location that nobody reserved.
Its sink may run full in the middle of a line, and have room again later.  Through all of this the
emitter knows which locations still wait.

* `Turn`: what happens to an emitter, and `Turn.history`, what became of the locations by it.
* `Operation.outcome`: everything that an operation can do.
* `Moves`: how an emitter moves among the locations, and `Moves.sound`, what every move keeps.
* `sound_run`: so a location is reserved exactly if it waits, and every location that was used
  waits or was written.
* `hasLine_run`: where something was written, the whole line is in the sink.
* `locations_accounted`: this in terms of what an emitter answers.
-/

namespace Tiny

/-! ### Histories -/

/-- What can become of locations. -/
inductive Event where
  /-- An instruction was written there, to its end. -/
  | emitted (location : Nat)
  | reserved (start count : Nat)

/-- A location waits: it was reserved, and since then no instruction was written there. -/
def Pending (history : List Event) (location : Nat) : Prop :=
  ∃ before start count after, history = before ++ .reserved start count :: after ∧
    start ≤ location ∧ location < start + count ∧ .emitted location ∉ after

theorem not_pending_nil (location : Nat) : ¬ Pending [] location := by
  rintro ⟨before, start, count, after, h, -⟩
  exact List.append_ne_nil_of_right_ne_nil _ (List.cons_ne_nil _ _) h.symm

/-- The last event decides, unless it has to do with other locations. -/
theorem pending_concat {history : List Event} {event : Event} {location : Nat} :
    Pending (history ++ [event]) location ↔
      (∃ start count, event = .reserved start count ∧ start ≤ location ∧
        location < start + count) ∨
      Pending history location ∧ event ≠ .emitted location := by
  constructor
  · rintro ⟨before, start, count, after, h, low, high, unwritten⟩
    rcases List.eq_nil_or_concat after with rfl | ⟨after, last, rfl⟩
    · obtain ⟨-, rfl⟩ := List.append_singleton_inj.mp h
      exact .inl ⟨start, count, rfl, low, high⟩
    · rw [List.concat_eq_append, ← List.cons_append, ← List.append_assoc] at h
      obtain ⟨rfl, rfl⟩ := List.append_singleton_inj.mp h
      rw [List.concat_eq_append, List.mem_append, List.mem_singleton, not_or] at unwritten
      exact .inr ⟨⟨before, start, count, after, rfl, low, high, unwritten.1⟩,
        Ne.symm unwritten.2⟩
  · rintro (⟨start, count, rfl, low, high⟩ | ⟨⟨before, start, count, after, rfl, low, high,
      unwritten⟩, hEvent⟩)
    · exact ⟨history, start, count, [], rfl, low, high, List.not_mem_nil⟩
    · refine ⟨before, start, count, after ++ [event], ?_, low, high, ?_⟩
      · rw [List.append_assoc, List.cons_append]
      · rw [List.mem_append, List.mem_singleton, not_or]
        exact ⟨unwritten, Ne.symm hEvent⟩

/-! ### Lines in a sink -/

namespace Sink

/-- A sink has taken some more bytes, and lost none. -/
def Grows (sink sink' : Sink) : Prop :=
  ∃ more, sink'.written = sink.written ++ more

theorem Grows.refl (sink : Sink) : sink.Grows sink :=
  ⟨ByteArray.empty, ByteArray.append_empty.symm⟩

theorem Grows.trans {a b c : Sink} (h : a.Grows b) (h' : b.Grows c) : a.Grows c := by
  obtain ⟨more, hMore⟩ := h
  obtain ⟨rest, hRest⟩ := h'
  exact ⟨more ++ rest, by rw [hRest, hMore, ByteArray.append_assoc]⟩

theorem grows_add (sink : Sink) (text : String) : sink.Grows (sink.add text) :=
  ⟨text.toUTF8, rfl⟩

/-- A sink takes all of a text, or it is full and has taken some of it. -/
theorem write_cases (text : String) (sink : Sink) :
    Sink.write text sink = .ok () (sink.add text) ∨
      ∃ sink', Sink.write text sink = .error full sink' ∧ sink.Grows sink' := by
  obtain ⟨written, limit⟩ := sink
  cases limit with
  | none => exact .inl (write_of_unlimited rfl text)
  | some limit =>
    by_cases hFits : text.toUTF8.size ≤ limit - written.size
    · exact .inl (write_of_fits hFits)
    · exact .inr ⟨_, write_of_exceeds (Nat.lt_of_not_le hFits), _, rfl⟩

/-- Somewhere in a sink stands the whole line of an instruction at a location. -/
def HasLine (traceCode : Bool) (sink : Sink) (location : Nat) : Prop :=
  ∃ op operands note before rest, sink.written =
    before ++ (Entry.line traceCode location op operands note).toUTF8 ++ rest

theorem hasLine_add (traceCode : Bool) (sink : Sink) (location : Nat) (op : Opcode)
    (operands : Operands) (note : String) :
    HasLine traceCode (sink.add (Entry.line traceCode location op operands note)) location :=
  ⟨op, operands, note, sink.written, ByteArray.empty, ByteArray.append_empty.symm⟩

/-- A line that was written stays. -/
theorem HasLine.grows {traceCode : Bool} {sink sink' : Sink} {location : Nat}
    (h : HasLine traceCode sink location) (grows : sink.Grows sink') :
    HasLine traceCode sink' location := by
  obtain ⟨op, operands, note, before, rest, hLine⟩ := h
  obtain ⟨more, hMore⟩ := grows
  refine ⟨op, operands, note, before, rest ++ more, ?_⟩
  rw [hMore, hLine, ByteArray.append_assoc]

end Sink

/-! ### What an operation can do -/

namespace Operation

open Emitter

/-- What becomes of locations by an operation that succeeds. -/
def effect (location : Nat) : Operation → List Event
  | .registers .. | .indexed .. | .branch .. => [.emitted location]
  | .reserve count => [.reserved location count]
  | .comment _ | .patch _ | .restore => []

/-- What became of locations by an operation.  One that failed did nothing to them. -/
def events (operation : Operation) (emitter : Emitter) : List Event :=
  match operation.perform emitter with
  | .ok _ _ => operation.effect emitter.location
  | .error _ _ => []

/-- Everything that an operation can do.  A sink that runs full keeps some of what was written, and
the operation stops there; any other fault leaves the emitter alone. -/
inductive Outcome (emitter : Emitter) : Operation → EStateM.Result Fault Emitter Unit → Prop
  | commented {text : String} {sink : Sink} : emitter.sink.Grows sink →
      Outcome emitter (.comment text) (.ok () { emitter with sink })
  | placed {operation : Operation} {op : Opcode} {operands : Operands} {note : String} :
      operation.effect emitter.location = [.emitted emitter.location] →
      Outcome emitter operation (.ok () (fill { emitter with
        sink := emitter.sink.add
          (Entry.line emitter.traceCode emitter.location op operands note) }))
  | full {operation : Operation} {sink : Sink} : emitter.sink.Grows sink →
      Outcome emitter operation (.error Sink.full { emitter with sink })
  | tooFar {op : Opcode} {r target : Nat} {note : String} :
      Outcome emitter (.branch op r target note) (.error (.backpatch (.branchRange target)) emitter)
  | reserved {count : Nat} :
      Outcome emitter (.reserve count) (.ok () { emitter with
        reserved := emitter.reserved ++ (List.range count).map (emitter.location + ·)
        location := emitter.location + count
        highWater := max emitter.highWater (emitter.location + count) })
  | patched {location : Nat} : location ≤ emitter.highWater → location ∈ emitter.reserved →
      Outcome emitter (.patch location) (.ok () { emitter with location })
  | refused {location : Nat} : ¬ (location ≤ emitter.highWater ∧ location ∈ emitter.reserved) →
      Outcome emitter (.patch location) (.error (.backpatch (.notReserved location)) emitter)
  | restored : Outcome emitter .restore (.ok () { emitter with location := emitter.highWater })

variable {emitter : Emitter}

theorem write_cases (text : String) (emitter : Emitter) :
    Emitter.write text emitter = .ok () { emitter with sink := emitter.sink.add text } ∨
      ∃ sink, Emitter.write text emitter = .error Sink.full { emitter with sink } ∧
        emitter.sink.Grows sink := by
  rcases Sink.write_cases text emitter.sink with h | ⟨sink, h, grows⟩
  · exact .inl (by simp only [Emitter.write, Focus.on, sinkPart, h])
  · exact .inr ⟨sink, by simp only [Emitter.write, Focus.on, sinkPart, h], grows⟩

theorem outcome_comment (text : String) (emitter : Emitter) :
    Outcome emitter (.comment text) (Emitter.comment text emitter) := by
  rw [Emitter.comment, get_bind]
  split
  · rcases write_cases ("* " ++ text ++ "\n") emitter with h | ⟨sink, h, grows⟩
    · rw [h]
      exact .commented (Sink.grows_add _ _)
    · rw [h]
      exact .full grows
  · exact .commented (Sink.Grows.refl _)

/-- An instruction is placed once its line is written to the end. -/
theorem place_cases (op : Opcode) (operands : Operands) (note : String) (emitter : Emitter) :
    Emitter.place op operands note emitter = .ok () (fill { emitter with
      sink := emitter.sink.add
        (Entry.line emitter.traceCode emitter.location op operands note) }) ∨
      ∃ sink, Emitter.place op operands note emitter = .error Sink.full { emitter with sink } ∧
        emitter.sink.Grows sink := by
  rw [Emitter.place, get_bind, lineText_eq]
  rcases write_cases (Entry.line emitter.traceCode emitter.location op operands note) emitter with
    h | ⟨sink, h, grows⟩
  · exact .inl (bind_of_ok h)
  · exact .inr ⟨sink, bind_of_error h, grows⟩

theorem outcome_place {operation : Operation} (op : Opcode) (operands : Operands) (note : String)
    (emits : operation.effect emitter.location = [.emitted emitter.location]) :
    Outcome emitter operation (Emitter.place op operands note emitter) := by
  rcases place_cases op operands note emitter with h | ⟨sink, h, grows⟩
  · rw [h]
    exact .placed emits
  · rw [h]
    exact .full grows

/-- **Everything that an operation can do.** -/
theorem outcome (operation : Operation) (emitter : Emitter) :
    Outcome emitter operation (operation.perform emitter) := by
  cases operation with
  | comment text => exact outcome_comment text emitter
  | registers op r s t note => exact outcome_place op _ note rfl
  | indexed op r offset base note => exact outcome_place op _ note rfl
  | branch op r target note =>
    by_cases hRange : -2147483648 ≤ branchOffset emitter.location target ∧
        branchOffset emitter.location target ≤ 2147483647
    · rw [perform, placeBranch, get_bind, if_pos hRange]
      exact outcome_place op _ note rfl
    · rw [perform, placeBranch_tooFar hRange]
      exact .tooFar
  | reserve count => exact .reserved
  | patch location =>
    by_cases h : location ≤ emitter.highWater ∧ location ∈ emitter.reserved
    · rw [perform, patch_ok h]
      exact .patched h.1 h.2
    · rw [perform, patch_refused h]
      exact .refused h
  | restore => exact .restored

end Operation

/-! ### How an emitter moves -/

namespace Emitter

/-- Where the emitter stands. -/
def spot (emitter : Emitter) : Spot :=
  ⟨emitter.location, emitter.highWater, emitter.reserved⟩

/-- How an emitter moves among the locations, and what becomes of these. -/
inductive Moves (spot : Spot) : List Event → Spot → Prop
  | stays : Moves spot [] spot
  | emits : Moves spot [.emitted spot.location]
      ⟨spot.location + 1, max spot.highWater (spot.location + 1),
        spot.reserved.filter (· ≠ spot.location)⟩
  | reserves (count : Nat) : Moves spot [.reserved spot.location count]
      ⟨spot.location + count, max spot.highWater (spot.location + count),
        spot.reserved ++ (List.range count).map (spot.location + ·)⟩
  | goesBack {location : Nat} : location ≤ spot.highWater →
      Moves spot [] ⟨location, spot.highWater, spot.reserved⟩
  | goesOn : Moves spot [] ⟨spot.highWater, spot.highWater, spot.reserved⟩

/-- What the place of an emitter has to do with its history: it knows the locations that wait, and
every location that it has used waits or was written. -/
structure Sound (history : List Event) (spot : Spot) : Prop where
  atMost : spot.location ≤ spot.highWater
  below : ∀ location ∈ spot.reserved, location < spot.highWater
  waits : ∀ location, location ∈ spot.reserved ↔ Pending history location
  covered : ∀ location < spot.highWater,
    location ∈ spot.reserved ∨ .emitted location ∈ history

theorem sound_start : Sound [] ⟨0, 0, []⟩ where
  atMost := Nat.le_refl 0
  below := fun _ h => absurd h List.not_mem_nil
  waits := fun location =>
    ⟨fun h => absurd h List.not_mem_nil, fun h => absurd h (not_pending_nil location)⟩
  covered := fun _ h => absurd h (Nat.not_lt_zero _)

variable {history events : List Event} {spot spot' : Spot}

theorem Moves.highWater_le (move : Moves spot events spot') : spot.highWater ≤ spot'.highWater := by
  cases move with
  | stays => exact Nat.le_refl _
  | emits => exact Nat.le_max_left _ _
  | reserves count => exact Nat.le_max_left _ _
  | goesBack _ => exact Nat.le_refl _
  | goesOn => exact Nat.le_refl _

theorem mem_filter_ne {l location : Nat} {reserved : List Nat} :
    l ∈ reserved.filter (· ≠ location) ↔ l ∈ reserved ∧ l ≠ location := by
  rw [List.mem_filter, decide_eq_true_eq]

theorem Sound.emits (sound : Sound history spot) :
    Sound (history ++ [.emitted spot.location])
      ⟨spot.location + 1, max spot.highWater (spot.location + 1),
        spot.reserved.filter (· ≠ spot.location)⟩ where
  atMost := Nat.le_max_right _ _
  below := by
    intro l hIn
    exact Nat.lt_of_lt_of_le (sound.below l (mem_filter_ne.mp hIn).1) (Nat.le_max_left _ _)
  waits := by
    intro l
    rw [mem_filter_ne, sound.waits, pending_concat]
    constructor
    · rintro ⟨hPending, hNe⟩
      refine .inr ⟨hPending, ?_⟩
      rintro ⟨⟩
      exact hNe rfl
    · rintro (⟨start, count, ⟨⟩, -⟩ | ⟨hPending, hNe⟩)
      exact ⟨hPending, fun heq => hNe (congrArg Event.emitted heq.symm)⟩
  covered := by
    intro l hl
    by_cases here : l = spot.location
    · subst here
      exact .inr (List.mem_append_right _ List.mem_cons_self)
    · -- every other location below the mark was below it before
      have hBefore : l < spot.highWater := by
        have := sound.atMost
        simp only at hl
        omega
      rcases sound.covered l hBefore with hIn | hIn
      · exact .inl (mem_filter_ne.mpr ⟨hIn, here⟩)
      · exact .inr (List.mem_append_left _ hIn)

theorem mem_map_range {l location count : Nat} :
    l ∈ (List.range count).map (location + ·) ↔ location ≤ l ∧ l < location + count := by
  rw [List.mem_map]
  constructor
  · rintro ⟨k, hk, rfl⟩
    have := List.mem_range.mp hk
    omega
  · rintro ⟨low, high⟩
    exact ⟨l - location, List.mem_range.mpr (by omega), by omega⟩

theorem Sound.reserves (sound : Sound history spot) (count : Nat) :
    Sound (history ++ [.reserved spot.location count])
      ⟨spot.location + count, max spot.highWater (spot.location + count),
        spot.reserved ++ (List.range count).map (spot.location + ·)⟩ where
  atMost := Nat.le_max_right _ _
  below := by
    intro l hIn
    rcases List.mem_append.mp hIn with hIn | hIn
    · exact Nat.lt_of_lt_of_le (sound.below l hIn) (Nat.le_max_left _ _)
    · exact Nat.lt_of_lt_of_le (mem_map_range.mp hIn).2 (Nat.le_max_right _ _)
  waits := by
    intro l
    rw [List.mem_append, mem_map_range, sound.waits, pending_concat]
    constructor
    · rintro (hPending | ⟨low, high⟩)
      · exact .inr ⟨hPending, nofun⟩
      · exact .inl ⟨spot.location, count, rfl, low, high⟩
    · rintro (⟨start, count, ⟨⟩, low, high⟩ | ⟨hPending, -⟩)
      · exact .inr ⟨low, high⟩
      · exact .inl hPending
  covered := by
    intro l hl
    by_cases hBefore : l < spot.highWater
    · rcases sound.covered l hBefore with hIn | hIn
      · exact .inl (List.mem_append_left _ hIn)
      · exact .inr (List.mem_append_left _ hIn)
    · have := sound.atMost
      simp only at hl
      exact .inl (List.mem_append_right _ (mem_map_range.mpr (by omega)))

/-- **Every move keeps what the emitter knows.** -/
theorem Moves.sound (move : Moves spot events spot') (sound : Sound history spot) :
    Sound (history ++ events) spot' := by
  cases move with
  | stays =>
    rw [List.append_nil]
    exact sound
  | emits => exact sound.emits
  | reserves count => exact sound.reserves count
  | goesBack h =>
    rw [List.append_nil]
    exact ⟨h, sound.below, sound.waits, sound.covered⟩
  | goesOn =>
    rw [List.append_nil]
    exact ⟨Nat.le_refl _, sound.below, sound.waits, sound.covered⟩

end Emitter

/-! ### Sequences of operations -/

/-- What happens to an emitter: it is asked to do something, or from now on its sink takes another
number of bytes in all. -/
inductive Turn where
  | ask (operation : Operation)
  | room (limit : Option Nat)

namespace Turn

open Emitter

/-- The emitter after a turn, whether an operation failed or not. -/
def after : Turn → Emitter → Emitter
  | .ask operation, emitter => operation.after emitter
  | .room limit, emitter => { emitter with sink := { emitter.sink with limit } }

/-- What became of the locations in a turn. -/
def events : Turn → Emitter → List Event
  | .ask operation, emitter => operation.events emitter
  | .room _, _ => []

/-- The emitter after some turns. -/
def run : List Turn → Emitter → Emitter
  | [], emitter => emitter
  | turn :: rest, emitter => run rest (turn.after emitter)

/-- What became of the locations in some turns. -/
def history : List Turn → Emitter → List Event
  | [], _ => []
  | turn :: rest, emitter => turn.events emitter ++ history rest (turn.after emitter)

theorem moves_after (turn : Turn) (emitter : Emitter) :
    Moves emitter.spot (turn.events emitter) (turn.after emitter).spot := by
  cases turn with
  | room limit => exact .stays
  | ask operation =>
    have hOutcome := operation.outcome emitter
    simp only [events, after, Operation.events, Operation.after]
    generalize operation.perform emitter = result at hOutcome ⊢
    cases hOutcome with
    | commented _ => exact .stays
    | placed hEffect =>
      rw [hEffect]
      exact .emits
    | full _ => exact .stays
    | tooFar => exact .stays
    | reserved => exact .reserves _
    | patched low _ => exact .goesBack low
    | refused _ => exact .stays
    | restored => exact .goesOn

theorem highWater_le_run (turns : List Turn) (emitter : Emitter) :
    emitter.highWater ≤ (run turns emitter).highWater := by
  induction turns generalizing emitter with
  | nil => exact Nat.le_refl _
  | cons turn rest ih => exact Nat.le_trans (moves_after turn emitter).highWater_le (ih _)

/-- **What an emitter knows about its locations stays right**, whatever happens to it. -/
theorem sound_run {past : List Event} {emitter : Emitter} (sound : Sound past emitter.spot)
    (turns : List Turn) :
    Sound (past ++ history turns emitter) (run turns emitter).spot := by
  induction turns generalizing past emitter with
  | nil =>
    rw [history, List.append_nil]
    exact sound
  | cons turn rest ih =>
    rw [history, ← List.append_assoc]
    exact ih ((moves_after turn emitter).sound sound)

/-- What was written stays in a turn, and where an instruction was placed, its whole line was
added. -/
theorem lines_after (turn : Turn) (emitter : Emitter) :
    (turn.after emitter).traceCode = emitter.traceCode ∧
      emitter.sink.Grows (turn.after emitter).sink ∧
      ∀ location, .emitted location ∈ turn.events emitter →
        Sink.HasLine emitter.traceCode (turn.after emitter).sink location := by
  cases turn with
  | room limit => exact ⟨rfl, Sink.Grows.refl _, nofun⟩
  | ask operation =>
    have hOutcome := operation.outcome emitter
    simp only [events, after, Operation.events, Operation.after]
    generalize operation.perform emitter = result at hOutcome ⊢
    cases hOutcome with
    | commented grows => exact ⟨rfl, grows, nofun⟩
    | placed hEffect =>
      refine ⟨rfl, Sink.grows_add _ _, fun location h => ?_⟩
      rw [hEffect, List.mem_singleton] at h
      obtain rfl := Event.emitted.inj h
      exact Sink.hasLine_add ..
    | full grows => exact ⟨rfl, grows, nofun⟩
    | tooFar => exact ⟨rfl, Sink.Grows.refl _, nofun⟩
    | reserved =>
      refine ⟨rfl, Sink.Grows.refl _, fun location h => ?_⟩
      cases List.mem_singleton.mp h
    | patched _ _ => exact ⟨rfl, Sink.Grows.refl _, nofun⟩
    | refused _ => exact ⟨rfl, Sink.Grows.refl _, nofun⟩
    | restored => exact ⟨rfl, Sink.Grows.refl _, nofun⟩

theorem traceCode_run (turns : List Turn) (emitter : Emitter) :
    (run turns emitter).traceCode = emitter.traceCode := by
  induction turns generalizing emitter with
  | nil => rfl
  | cons turn rest ih => exact (ih _).trans (lines_after turn emitter).1

theorem grows_run (turns : List Turn) (emitter : Emitter) :
    emitter.sink.Grows (run turns emitter).sink := by
  induction turns generalizing emitter with
  | nil => exact Sink.Grows.refl _
  | cons turn rest ih => exact (lines_after turn emitter).2.1.trans (ih _)

/-- **Where an instruction was placed, its line was written**, and it stays whatever happens
later. -/
theorem hasLine_run {turns : List Turn} {emitter : Emitter} {location : Nat}
    (h : .emitted location ∈ history turns emitter) :
    Sink.HasLine emitter.traceCode (run turns emitter).sink location := by
  induction turns generalizing emitter with
  | nil => exact absurd h List.not_mem_nil
  | cons turn rest ih =>
    obtain ⟨hTrace, -, added⟩ := lines_after turn emitter
    rcases List.mem_append.mp h with hNow | hLater
    · exact (added location hNow).grows (grows_run rest _)
    · rw [← hTrace]
      exact ih hLater

theorem spot_of_error {operation : Operation} {emitter after : Emitter} {fault : Fault}
    (h : operation.perform emitter = .error fault after) : after.spot = emitter.spot := by
  have hOutcome := operation.outcome emitter
  rw [h] at hOutcome
  cases hOutcome with
  | full _ => rfl
  | tooFar => rfl
  | refused _ => rfl

theorem patch_ok_iff {past : List Event} {emitter : Emitter} (sound : Sound past emitter.spot)
    (location : Nat) :
    (∃ after, Emitter.patch location emitter = .ok () after) ↔ Pending past location := by
  rw [← sound.waits]
  constructor
  · rintro ⟨after, h⟩
    by_contra hIn
    rw [Operation.patch_refused fun both => hIn both.2] at h
    cases h
  · intro hIn
    exact ⟨_, Operation.patch_ok ⟨Nat.le_of_lt (sound.below location hIn), hIn⟩⟩

/-- The smallest location that waits is what is wrong in the end. -/
theorem finish_eq {past : List Event} {emitter : Emitter} (sound : Sound past emitter.spot) :
    (∃ location, Pending past location ∧ (∀ other, Pending past other → location ≤ other) ∧
      Emitter.finish emitter = .error (.backpatch (.unpatched location)) emitter) ∨
    (∀ location, ¬ Pending past location) ∧ Emitter.finish emitter = .ok () emitter := by
  simp only [← sound.waits]
  cases hMin : emitter.reserved.min? with
  | none =>
    have hNone : emitter.reserved = [] := List.min?_eq_none_iff.mp hMin
    refine .inr ⟨fun location hIn => ?_, finish_run hNone⟩
    rw [spot, hNone] at hIn
    exact absurd hIn List.not_mem_nil
  | some location =>
    obtain ⟨hIn, least⟩ := List.min?_eq_some_iff.mp hMin
    refine .inl ⟨location, hIn, least, ?_⟩
    rw [Emitter.finish, get_bind, hMin]
    rfl

/-- **Every location is accounted for.**  Whatever an emitter was asked, and wherever its sink ran
full: it stands at or below the mark, all reserved locations are below it, and the mark never comes
down; a location below the mark is reserved or was written, and the sink holds the whole line of
every location that was written.  An operation that fails does not move the emitter, and one that
is refused writes nothing either.  The emitter goes back to a location exactly if that waits.  In
the end it complains exactly if a location waits, namely about the smallest, and otherwise every
location below the mark was written. -/
theorem locations_accounted (sink : Sink) (traceCode : Bool) (turns : List Turn) :
    let emitter := run turns { sink, traceCode }
    let past := history turns { sink, traceCode }
    emitter.location ≤ emitter.highWater ∧
    (∀ location ∈ emitter.reserved, location < emitter.highWater) ∧
    (∀ later, emitter.highWater ≤ (run later emitter).highWater) ∧
    (∀ location < emitter.highWater,
      location ∈ emitter.reserved ∨ .emitted location ∈ past) ∧
    (∀ location, .emitted location ∈ past → ∃ op operands note before rest,
      emitter.sink.written =
        before ++ (Entry.line traceCode location op operands note).toUTF8 ++ rest) ∧
    (∀ op operands note after, Emitter.place op operands note emitter = .ok () after →
      after.sink = emitter.sink.add
        (Entry.line traceCode emitter.location op operands note)) ∧
    (∀ (operation : Operation) fault after, operation.perform emitter = .error fault after →
      after.location = emitter.location ∧ after.highWater = emitter.highWater ∧
        after.reserved = emitter.reserved) ∧
    (∀ location fault after, Emitter.patch location emitter = .error fault after →
      after = emitter) ∧
    (∀ op r target note,
      ¬ (-2147483648 ≤ branchOffset emitter.location target ∧
        branchOffset emitter.location target ≤ 2147483647) →
      placeBranch op r target note emitter =
        .error (.backpatch (.branchRange target)) emitter) ∧
    (∀ location, (∃ after, Emitter.patch location emitter = .ok () after) ↔
      Pending past location) ∧
    ((∃ location, Pending past location ∧ (∀ other, Pending past other → location ≤ other) ∧
        Emitter.finish emitter = .error (.backpatch (.unpatched location)) emitter) ∨
      (∀ location, ¬ Pending past location) ∧
        (∀ location < emitter.highWater, .emitted location ∈ past) ∧
        Emitter.finish emitter = .ok () emitter) := by
  intro emitter past
  have sound : Sound past emitter.spot := @sound_run [] { sink, traceCode } sound_start turns
  have hTrace : emitter.traceCode = traceCode := traceCode_run turns _
  refine ⟨sound.atMost, sound.below, fun later => highWater_le_run later emitter, sound.covered,
    fun location h => hasLine_run h, ?_, ?_, ?_, fun op r target note h => Operation.placeBranch_tooFar h op r note,
    patch_ok_iff sound, ?_⟩
  · intro op operands note after h
    rw [← hTrace]
    rcases Operation.place_cases op operands note emitter with hPlace | ⟨sink, hPlace, -⟩
    · obtain ⟨-, rfl⟩ := ok_inj (h.symm.trans hPlace)
      rfl
    · rw [hPlace] at h
      cases h
  · intro operation fault after h
    have hSpot := spot_of_error h
    exact ⟨congrArg Spot.location hSpot, congrArg Spot.highWater hSpot,
      congrArg Spot.reserved hSpot⟩
  · intro location fault after h
    by_cases hIn : location ≤ emitter.highWater ∧ location ∈ emitter.reserved
    · rw [Operation.patch_ok hIn] at h
      cases h
    · rw [Operation.patch_refused hIn] at h
      cases h
      rfl
  · rcases finish_eq sound with least | ⟨hNone, h⟩
    · exact .inl least
    · refine .inr ⟨hNone, fun location hLocation => ?_, h⟩
      rcases sound.covered location hLocation with hIn | hIn
      · exact absurd ((sound.waits location).mp hIn) (hNone location)
      · exact hIn

end Turn

end Tiny
