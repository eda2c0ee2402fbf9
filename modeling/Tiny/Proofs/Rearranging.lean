import Mathlib.Data.List.Perm.Basic
import Tiny.Proofs.Loading

/-!
# The order of the lines

Code is written with jumps filled in late, so the lines of a listing stand in no particular order,
and comments may stand anywhere between them.  The machine that is loaded does not depend on this.

* `read_eq_ok_iff`: a listing is read line by line, each line for itself.
* `placeAll_perm`: instructions at different locations may be placed in any order, since two of
  them may change places (`placeAll_swap`).
* `load_rearranged`: what is loaded from a listing, and from its rearrangements.
-/

namespace Tiny

namespace Listing

/-! ### What a line holds -/

variable {line : List Char} {placed : Nat × Instruction}

/-- The instruction that a line holds, if there is one. -/
def held? (line : List Char) : Option (Nat × Instruction) :=
  (readLine 0 line).toOption

theorem held?_eq_some_iff : held? line = some placed ↔ Holds line placed := by
  rw [held?, ← @readLine_eq_ok_iff 0]
  cases readLine 0 line with
  | error fault => simp [Except.toOption]
  | ok found => simp [Except.toOption]

/-- A line with an instruction starts with a digit. -/
theorem Holds.not_skips (h : Holds line placed) : ¬ Skips line := by
  obtain ⟨parts, form, -⟩ := h
  cases form with
  | mk blanks digits _ _ _ _ _ _ _ _ _ _ =>
    obtain ⟨c, rest, rfl, -⟩ := digits.head
    have hc : Text.isDigit c = true := digits.2 c List.mem_cons_self
    rw [← isSkipped_iff, isSkipped,
      skipBlanks_eq_iff.mpr ⟨_, rfl, blanks, digits.endsBlank _⟩]
    rintro h
    obtain rfl : c = '*' := by simpa using h
    exact absurd hc (by decide)

/-- A line holds one instruction only. -/
theorem Holds.unique (h : Holds line placed) {other : Nat × Instruction} (h' : Holds line other) :
    placed = other := by
  have hSome := held?_eq_some_iff.mpr h
  rw [held?_eq_some_iff.mpr h'] at hSome
  exact (Option.some.inj hSome).symm

/-- The instructions on the lines of a listing, one after the other. -/
def heldOn (lines : List (List Char)) : List (Nat × Instruction) :=
  lines.filterMap held?

theorem mem_heldOn {lines : List (List Char)} :
    placed ∈ heldOn lines ↔ ∃ line ∈ lines, Holds line placed := by
  simp only [heldOn, List.mem_filterMap, held?_eq_some_iff]

/-- Lines that are skipped hold nothing. -/
theorem heldOn_instructionLines (lines : List (List Char)) :
    heldOn (instructionLines lines) = heldOn lines := by
  rw [heldOn, instructionLines, List.filterMap_filter]
  refine List.filterMap_congr fun line _ => ?_
  split
  · rfl
  · rename_i hSkip
    symm
    refine Option.eq_none_iff_forall_ne_some.mpr fun placed h => hSkip ?_
    simpa using (held?_eq_some_iff.mp h).not_skips

theorem eq_heldOn_of_forall₂ {lines : List (List Char)} {found : List (Nat × Instruction)}
    (h : List.Forall₂ Holds lines found) : found = heldOn lines := by
  induction h with
  | nil => rfl
  | cons holds _ ih =>
    rw [heldOn, List.filterMap_cons_some (held?_eq_some_iff.mpr holds), ih, heldOn]

/-- **A listing is read line by line**: if every line is admissible, each is read for itself. -/
theorem read_eq_ok_iff {text : String} {found : List (Nat × Instruction)} :
    read text = .ok found ↔
      (∀ line ∈ Text.lines text, Admissible line) ∧ found = heldOn (Text.lines text) := by
  have hFound : ∀ {found}, read text = .ok found → found = heldOn (Text.lines text) := by
    intro found h
    rw [← heldOn_instructionLines]
    exact eq_heldOn_of_forall₂ (readLines_eq_ok_iff.mp h)
  constructor
  · intro h
    exact ⟨exists_readLines_iff.mp ⟨found, h⟩, hFound h⟩
  · rintro ⟨good, rfl⟩
    obtain ⟨found, h⟩ := exists_readLines_iff.mpr good
    rw [← hFound h]
    exact h

/-! ### Rearrangements -/

/-- A listing has the lines of another one in some order, but for blank lines and comments. -/
def Rearranged (text other : String) : Prop :=
  (instructionLines (Text.lines text)).Perm (instructionLines (Text.lines other))

/-- No two lines of a listing hold instructions for the same location. -/
def Distinct (text : String) : Prop :=
  (Text.lines text).Pairwise fun line other =>
    ∀ p, Holds line p → ∀ q, Holds other q → p.1 ≠ q.1

theorem Rearranged.heldOn_perm {text other : String} (h : Rearranged text other) :
    (heldOn (Text.lines text)).Perm (heldOn (Text.lines other)) := by
  rw [← heldOn_instructionLines, ← heldOn_instructionLines (Text.lines other)]
  exact h.filterMap held?

theorem Rearranged.admissible {text other : String} (h : Rearranged text other)
    (good : ∀ line ∈ Text.lines text, Admissible line) :
    ∀ line ∈ Text.lines other, Admissible line := by
  intro line hIn
  by_cases hSkip : Skips line
  · exact .inl hSkip
  · have hOther : line ∈ instructionLines (Text.lines other) :=
      List.mem_filter.mpr ⟨hIn, by simpa using hSkip⟩
    exact good line (List.mem_filter.mp (h.mem_iff.mpr hOther)).1

theorem distinct_iff_nodup {text : String} :
    Distinct text ↔ ((heldOn (Text.lines text)).map Prod.fst).Nodup := by
  rw [List.Nodup, List.pairwise_map, heldOn, List.pairwise_filterMap]
  simp only [held?_eq_some_iff, Distinct]

end Listing

namespace Machine

/-! ### The order of placing -/

variable {machine loaded : Machine} {placed : List (Nat × Instruction)}

/-- Two instructions at different locations may be placed in either order. -/
theorem placeAll_swap {p q : Nat × Instruction} (apart : p.1 ≠ q.1)
    (h : placeAll (p :: q :: placed) machine = .ok loaded) :
    placeAll (q :: p :: placed) machine = .ok loaded := by
  obtain ⟨hp, h⟩ := placeAll_cons_eq_ok_iff.mp h
  obtain ⟨hq, h⟩ := placeAll_cons_eq_ok_iff.mp h
  refine placeAll_cons_eq_ok_iff.mpr ⟨hq, placeAll_cons_eq_ok_iff.mpr ⟨hp, ?_⟩⟩
  rwa [Vector.set_comm _ _ apart] at h

/-- **Instructions at different locations may be placed in any order.** -/
theorem placeAll_perm {other : List (Nat × Instruction)} (perm : placed.Perm other)
    (distinct : (placed.map Prod.fst).Nodup) (h : placeAll placed machine = .ok loaded) :
    placeAll other machine = .ok loaded := by
  induction perm generalizing machine with
  | nil => exact h
  | cons first _ ih =>
    obtain ⟨hFirst, hRest⟩ := placeAll_cons_eq_ok_iff.mp h
    exact placeAll_cons_eq_ok_iff.mpr ⟨hFirst, ih (List.nodup_cons.mp distinct).2 hRest⟩
  | swap p q rest =>
    refine placeAll_swap ?_ h
    rintro heq
    exact (List.nodup_cons.mp distinct).1 (heq ▸ List.mem_cons_self)
  | trans perm _ ihFirst ihRest =>
    exact ihRest ((perm.map Prod.fst).nodup_iff.mp distinct) (ihFirst distinct h)

/-! ### Loading -/

theorem load_eq_ok_iff {text : String} :
    load text = .ok loaded ↔ (∀ line ∈ Text.lines text, Listing.Admissible line) ∧
      placeAll (Listing.heldOn (Text.lines text)) fresh = .ok loaded := by
  rw [load]
  split
  · rename_i found h
    obtain ⟨good, rfl⟩ := Listing.read_eq_ok_iff.mp h
    exact (and_iff_right good).symm
  · rename_i cause h
    constructor
    · intro hLoad
      cases hLoad
    · rintro ⟨good, -⟩
      rw [Listing.read_eq_ok_iff.mpr ⟨good, rfl⟩] at h
      cases h

/-- A listing can be loaded if every line is blank or a comment, or holds an instruction for a
location of the machine. -/
theorem exists_load_iff {text : String} :
    (∃ machine, load text = .ok machine) ↔ ∀ line ∈ Text.lines text,
      Listing.Skips line ∨ ∃ placed, Listing.Holds line placed ∧ placed.1 < 1024 := by
  simp only [load_eq_ok_iff, exists_and_left, exists_placeAll_iff]
  constructor
  · rintro ⟨good, small⟩ line hIn
    refine (good line hIn).imp_right ?_
    rintro ⟨placed, holds⟩
    exact ⟨placed, holds, small placed (Listing.mem_heldOn.mpr ⟨line, hIn, holds⟩)⟩
  · intro good
    refine ⟨fun line hIn => (good line hIn).imp_right fun ⟨placed, holds, _⟩ => ⟨placed, holds⟩, ?_⟩
    intro placed hPlaced
    obtain ⟨line, hIn, holds⟩ := Listing.mem_heldOn.mp hPlaced
    obtain ⟨other, holds', small⟩ := (good line hIn).resolve_left holds.not_skips
    rwa [holds.unique holds']

/-- The machine holds what the lines of a listing say and is otherwise fresh.  If several lines are
about the same location, it holds what the last one says. -/
structure Follows (machine : Machine) (lines : List (List Char)) : Prop where
  last : ∀ {before after : List (List Char)} {line : List Char} {location : Nat} {i : Instruction},
    lines = before ++ line :: after → Listing.Holds line (location, i) →
    (∀ later ∈ after, ∀ j, ¬ Listing.Holds later (location, j)) →
    machine.code[location]? = some i
  elsewhere : ∀ location < 1024, (∀ line ∈ lines, ∀ i, ¬ Listing.Holds line (location, i)) →
    machine.code[location]? = some Instruction.halt
  data : ∀ address < 1024, machine.data[address]? = some (if address = 0 then 1023 else 0)
  registers : ∀ r < 8, machine.registers[r]? = some 0

theorem follows_of_load {text : String} (h : load text = .ok machine) :
    machine.Follows (Text.lines text) := by
  obtain ⟨-, hPlaced⟩ := load_eq_ok_iff.mp h
  obtain ⟨hData, hRegisters, hCode⟩ := placeAll_frame hPlaced
  refine ⟨?_, ?_, ?_, ?_⟩
  · intro before after line location i hLines holds last
    rw [hLines, Listing.heldOn, List.filterMap_append,
      List.filterMap_cons_some (Listing.held?_eq_some_iff.mpr holds)] at hPlaced
    refine placeAll_last hPlaced ?_
    rintro ⟨other, j⟩ hIn rfl
    obtain ⟨later, hLater, holds'⟩ := Listing.mem_heldOn.mp hIn
    exact last later hLater j holds'
  · intro location small unsaid
    rw [hCode location, fresh, Vector.getElem?_replicate, if_pos small]
    rintro ⟨other, j⟩ hIn rfl
    obtain ⟨line, hLine, holds⟩ := Listing.mem_heldOn.mp hIn
    exact unsaid line hLine j holds
  · intro address small
    rw [hData, fresh, Vector.getElem?_set, Vector.getElem?_replicate, if_pos small]
    simp only [eq_comm (a := 0)]
    split <;> rfl
  · intro r small
    rw [hRegisters, fresh, Vector.getElem?_replicate, if_pos small]

/-- A machine that follows lines about different locations holds what each of them says. -/
theorem Follows.code {text : String} (follows : machine.Follows (Text.lines text))
    (distinct : Listing.Distinct text) :
    ∀ line ∈ Text.lines text, ∀ location i, Listing.Holds line (location, i) →
      machine.code[location]? = some i := by
  intro line hIn location i holds
  obtain ⟨before, after, hLines⟩ := List.append_of_mem hIn
  refine follows.last hLines holds fun later hLater j holds' => ?_
  rw [Listing.Distinct, hLines] at distinct
  obtain ⟨-, hCons, -⟩ := List.pairwise_append.mp distinct
  exact List.rel_of_pairwise_cons hCons hLater (location, i) holds (location, j) holds' rfl

/-- A rearrangement can be loaded if the listing can. -/
theorem exists_load_of_rearranged {text other : String} (h : Listing.Rearranged text other)
    (hLoad : ∃ machine, load text = .ok machine) : ∃ machine, load other = .ok machine := by
  simp only [load_eq_ok_iff, exists_and_left, exists_placeAll_iff] at hLoad ⊢
  exact ⟨h.admissible hLoad.1, fun p hp => hLoad.2 p (h.heldOn_perm.mem_iff.mpr hp)⟩

/-- A rearrangement of lines about different locations is loaded as the same machine. -/
theorem load_eq_of_rearranged {text other : String} (h : Listing.Rearranged text other)
    (distinct : Listing.Distinct text) (hLoad : load text = .ok machine) :
    load other = .ok machine := by
  obtain ⟨good, hPlaced⟩ := load_eq_ok_iff.mp hLoad
  have hNodup := Listing.distinct_iff_nodup.mp distinct
  exact load_eq_ok_iff.mpr ⟨h.admissible good, placeAll_perm h.heldOn_perm hNodup hPlaced⟩

/-- **The order of the lines does not matter**, unless there are several for the same location, of
which the last one counts.  A listing and its rearrangements can be loaded or cannot, and if the
locations are different, they are loaded as the same machine. -/
theorem load_rearranged (text : String) :
    ((∃ machine, load text = .ok machine) ↔ ∀ line ∈ Text.lines text,
      Listing.Skips line ∨ ∃ placed, Listing.Holds line placed ∧ placed.1 < 1024) ∧
    (∀ machine, load text = .ok machine → machine.Follows (Text.lines text)) ∧
    ∀ other, Listing.Rearranged text other →
      ((∃ machine, load text = .ok machine) ↔ ∃ machine, load other = .ok machine) ∧
      (Listing.Distinct text → ∀ machine, load text = .ok machine →
        load other = .ok machine ∧
        ∀ line ∈ Text.lines text, ∀ location i, Listing.Holds line (location, i) →
          machine.code[location]? = some i) := by
  refine ⟨exists_load_iff, fun machine => follows_of_load, fun other h => ⟨?_, ?_⟩⟩
  · exact ⟨exists_load_of_rearranged h, exists_load_of_rearranged h.symm⟩
  · intro distinct machine hLoad
    exact ⟨load_eq_of_rearranged h distinct hLoad, (follows_of_load hLoad).code distinct⟩

/-- Two instructions, the second one in front. -/
def jumbled : String := "* code\n 1:   OUT  0,0,0\n 0:   LDC  0,7(0)\n"

/-- Two instructions in the order of their locations. -/
def ordered : String := " 0:   LDC  0,7(0)\n\n 1:   OUT  0,0,0\n"

theorem load_rearranged_jumbled :
    Listing.Rearranged jumbled ordered ∧ Listing.Distinct jumbled ∧
    ∃ machine, load jumbled = .ok machine ∧ load ordered = .ok machine ∧
      machine.code[0]? = some ⟨.ldc, 0, 7, 0⟩ ∧ machine.code[1]? = some ⟨.output, 0, 0, 0⟩ := by
  have hRearranged : Listing.Rearranged jumbled ordered := by
    rw [Listing.Rearranged]
    decide
  have hDistinct : Listing.Distinct jumbled := Listing.distinct_iff_nodup.mpr (by decide)
  have hLines : Text.lines jumbled =
      ["* code".toList, " 1:   OUT  0,0,0".toList, " 0:   LDC  0,7(0)".toList] := by
    decide
  have hOutput : Listing.Holds " 1:   OUT  0,0,0".toList (1, ⟨.output, 0, 0, 0⟩) :=
    Listing.held?_eq_some_iff.mp (by decide)
  have hConstant : Listing.Holds " 0:   LDC  0,7(0)".toList (0, ⟨.ldc, 0, 7, 0⟩) :=
    Listing.held?_eq_some_iff.mp (by decide)
  obtain ⟨loads, -, rearranges⟩ := load_rearranged jumbled
  obtain ⟨-, same⟩ := rearranges ordered hRearranged
  rw [hLines] at loads same
  obtain ⟨machine, hLoad⟩ := loads.mpr (by
    simp only [List.forall_mem_cons]
    exact ⟨.inl (by decide), .inr ⟨_, hOutput, by decide⟩, .inr ⟨_, hConstant, by decide⟩,
      fun _ h => absurd h List.not_mem_nil⟩)
  obtain ⟨hOther, hCode⟩ := same hDistinct machine hLoad
  refine ⟨hRearranged, hDistinct, machine, hLoad, hOther, ?_, ?_⟩
  · exact hCode _ (by decide) 0 _ hConstant
  · exact hCode _ (by decide) 1 _ hOutput

end Machine

end Tiny
