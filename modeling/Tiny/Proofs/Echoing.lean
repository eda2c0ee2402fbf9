import Tiny.Proofs.Printing
import Tiny.Tree.Parser

/-!
# What a scanner writes to its listing

A scanner echoes the lines of its source and the tokens that it takes, if it is asked to.  Which
tokens it takes, and whether it fails, depends on the source alone: neither on the listing nor on
the switches.

* `Scanner.Listed`: work on a scanner for which this is so.
* `listed_next`: a token is taken in this way.
* `listed_drain`, `listed_program`: so are all tokens, and so is a program.
-/

namespace Tiny

namespace Scanner

/-- Where a scanner stands in its source. -/
structure Position where
  feed : Feed
  lineno : Nat

/-- The scanner at a position. -/
def standing (position : Position) (options : Options) (listing : Sink) : Scanner :=
  { feed := position.feed, lineno := position.lineno, listing, options }

theorem shows_listing : listingPart.Shows standing :=
  ⟨fun _ _ _ => rfl, fun _ _ _ _ => rfl⟩

/-- Work whose outcome depends on the position alone.  What it writes to the listing also depends on
the switches, and if these are off, it writes nothing. -/
def Listed {α : Type} (work : Scan α) : Prop :=
  ∀ position, ∃ (text : Bool → Bool → String) (outcome : Except Fault α) (position' : Position),
    text false false = "" ∧
      Prints standing work position
        (fun options => text options.echoSource options.traceScan) outcome position'

section

variable {α β : Type} {work : Scan α}

theorem listed_silent
    (h : ∀ position, ∃ outcome position', ∀ options listing,
      work (standing position options listing) =
        ending outcome (standing position' options listing)) : Listed work := by
  intro position
  obtain ⟨outcome, position', hWork⟩ := h position
  exact ⟨fun _ _ => "", outcome, position', rfl, prints_silent hWork⟩

theorem listed_pure (result : α) : Listed (pure result) :=
  listed_silent fun position => ⟨.ok result, position, fun _ _ => rfl⟩

theorem Listed.bind {f : α → Scan β} (h : Listed work) (hf : ∀ result, Listed (f result)) :
    Listed (work >>= f) := by
  intro position
  obtain ⟨text, outcome, position', hText, prints⟩ := h position
  cases outcome with
  | ok result =>
    obtain ⟨more, outcome', position'', hMore, prints'⟩ := hf result position'
    refine ⟨fun echo trace => text echo trace ++ more echo trace, outcome', position'', ?_,
      prints.bind prints'⟩
    simp only [hText, hMore, String.append_empty]
  | error fault => exact ⟨text, .error fault, position', hText, prints.bind_error⟩

/-- Work that looks at the position of the scanner. -/
theorem listed_get_bind {f : Scanner → Scan α}
    (hf : ∀ position options listing,
      f (standing position options listing) = f (standing position {} {}))
    (h : ∀ position, Listed (f (standing position {} {}))) : Listed (get >>= f) := by
  intro position
  obtain ⟨text, outcome, position', hText, prints⟩ := h position position
  exact ⟨text, outcome, position', hText, prints_get_bind (hf position) prints⟩

theorem listed_goOn (feed : Feed) : Listed (goOn feed) :=
  listed_silent fun position => ⟨.ok (), ⟨feed, position.lineno⟩, fun _ _ => rfl⟩

theorem listed_failRead (reason : String) (rest : Feed) : Listed (failRead reason rest : Scan α) :=
  listed_silent fun position => ⟨.error (.io reason), ⟨rest, position.lineno⟩, fun _ _ => rfl⟩

theorem listed_arrive (line : List UInt8) (rest : Feed) : Listed (arrive line rest) := by
  intro position
  let arrived : Position := ⟨rest, position.lineno + 1⟩
  have hMove : Prints standing
      (modify fun scanner => { scanner with feed := rest, lineno := scanner.lineno + 1 } :
        Scan Unit) position (fun _ => "") (.ok ()) arrived :=
    prints_silent fun _ _ => rfl
  have hEcho : Prints standing
      (do
        let scanner ← get
        if scanner.options.echoSource then write (echoed scanner.lineno line) : Scan Unit)
      arrived (fun options => if options.echoSource then echoed arrived.lineno line else "")
      (.ok ()) arrived := prints_switch shows_listing fun _ _ => rfl
  refine ⟨fun echo _ => "" ++ if echo then echoed arrived.lineno line else "", .ok (), arrived,
    rfl, hMove.bind hEcho⟩

/-! ### Tokens -/

theorem listed_skip (comment : Option Nat) (feed : Feed) : Listed (skip comment feed) := by
  induction feed generalizing comment with
  | nil =>
    exact (listed_goOn []).bind fun _ =>
      listed_get_bind (fun _ _ _ => rfl) fun _ => listed_pure _
  | cons reading rest ih =>
    cases reading with
    | failure reason => exact listed_failRead reason rest
    | line line => exact (listed_arrive line rest).bind fun _ => ih comment
    | byte b =>
      cases comment with
      | some opened =>
        rw [skip]
        split
        · exact ih none
        · exact ih (some opened)
      | none =>
        refine listed_get_bind (fun _ _ _ => rfl) fun position => ?_
        simp only
        split
        · exact ih none
        split
        · exact ih (some position.lineno)
        · exact (listed_goOn rest).bind fun _ => listed_pure _

theorem listed_takeRun (p : UInt8 → Bool) (feed : Feed) : Listed (takeRun p feed) := by
  induction feed with
  | nil => exact (listed_goOn []).bind fun _ => listed_pure []
  | cons reading rest ih =>
    cases reading with
    | failure reason => exact listed_failRead reason rest
    | line line => exact (listed_arrive line rest).bind fun _ => ih
    | byte b =>
      rw [takeRun]
      split
      · exact ih.bind fun run => listed_pure (b :: run)
      · exact (listed_goOn _).bind fun _ => listed_pure []

theorem listed_takeByte (b : UInt8) (feed : Feed) : Listed (takeByte b feed) := by
  induction feed with
  | nil => exact (listed_goOn []).bind fun _ => listed_pure false
  | cons reading rest ih =>
    cases reading with
    | failure reason => exact listed_failRead reason rest
    | line line => exact (listed_arrive line rest).bind fun _ => ih
    | byte c =>
      rw [takeByte]
      split
      · exact (listed_goOn rest).bind fun _ => listed_pure true
      · exact (listed_goOn _).bind fun _ => listed_pure false

theorem listed_token (line : Nat) (first : UInt8) : Listed (token line first) := by
  unfold token
  split
  · refine listed_get_bind (fun _ _ _ => rfl) fun position => ?_
    exact (listed_takeRun isDigitByte position.feed).bind fun _ => listed_pure _
  split
  · refine listed_get_bind (fun _ _ _ => rfl) fun position => ?_
    exact (listed_takeRun isLetterByte position.feed).bind fun _ => listed_pure _
  split
  · refine listed_get_bind (fun _ _ _ => rfl) fun position => ?_
    refine (listed_takeByte equalSign position.feed).bind fun taken => ?_
    split
    · exact listed_pure _
    · exact listed_pure _
  · exact listed_pure _

/-- A token is echoed if the tokens are traced. -/
theorem listed_trace (text : String) (taken : Token) :
    Listed (do
      if (← get).options.traceScan then write text
      return taken) := by
  have hWrite : Listed (do if (← get).options.traceScan then write text) := by
    intro position
    exact ⟨fun _ trace => if trace then text else "", .ok (), position, rfl,
      prints_switch shows_listing fun _ _ => rfl⟩
  have hBind : (do
      if (← get).options.traceScan then write text
      return taken : Scan Token) =
      (do if (← get).options.traceScan then write text) >>= fun _ => pure taken := by
    rw [bind_assoc]
    refine bind_congr fun scanner => ?_
    split
    · rfl
    · rfl
  rw [hBind]
  exact hWrite.bind fun _ => listed_pure taken

/-- **Taking a token** depends on the source alone. -/
theorem listed_next : Listed next := by
  refine listed_get_bind (fun _ _ _ => rfl) fun position => ?_
  refine (listed_skip none position.feed).bind fun found => ?_
  obtain ⟨lineno, first⟩ := found
  cases first with
  | none => exact listed_trace _ _
  | some first => exact (listed_token (max lineno 1) first).bind fun taken => listed_trace _ taken

theorem listed_drain (bound : Nat) : Listed (drain bound) := by
  induction bound with
  | zero => exact listed_pure []
  | succ bound ih =>
    refine listed_next.bind fun taken => ?_
    split
    · exact listed_pure [taken]
    · exact ih.bind fun _ => listed_pure _

theorem listed_runOn (consumer : Consumer α) : Listed consumer.runOn := by
  induction consumer with
  | done result => exact listed_pure result
  | ask next ih => exact listed_next.bind ih
  | fail fault => exact listed_silent fun position => ⟨.error fault, position, fun _ _ => rfl⟩

/-- **Parsing** depends on the source alone. -/
theorem listed_program : Listed program :=
  listed_get_bind (fun _ _ _ => rfl) fun _ => listed_runOn _

end

end Scanner

end Tiny
