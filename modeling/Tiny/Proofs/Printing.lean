import Tiny.Focus
import Tiny.Proofs.Peeling

/-!
# Work that writes to a sink

What some work writes does not depend on the sink: a sink only decides how much of it there is room
for, and a text for which there is no room stops the work.  So it is enough to know the text that
the work would write and how it would end.

* `Sink.write_append`: two texts are written like one, also where a limit cuts them off.
* `Prints`: some work writes a text and then ends, unless there is no room for the text.
* `Prints.bind`: texts are put together along `>>=`.
-/

namespace Tiny

/-! ### Texts in a sink -/

namespace Sink

theorem write_empty (sink : Sink) : Sink.write "" sink = .ok () sink := by
  obtain ⟨written, limit⟩ := sink
  cases limit with
  | none => simp [Sink.write]
  | some limit => simp [Sink.write]

section

variable {written : ByteArray} {limit : Nat} {text : String}

theorem write_of_fits (h : text.toUTF8.size ≤ limit - written.size) :
    Sink.write text ⟨written, some limit⟩ = .ok () ⟨written ++ text.toUTF8, some limit⟩ := by
  simp only [Sink.write, if_pos h]

/-- A text that does not fit is cut off at the limit. -/
theorem write_of_exceeds (h : limit - written.size < text.toUTF8.size) :
    Sink.write text ⟨written, some limit⟩ =
      .error full ⟨written ++ text.toUTF8.extract 0 (limit - written.size), some limit⟩ := by
  simp only [Sink.write, if_neg (Nat.not_le_of_lt h)]

end

theorem extract_of_size_le {bytes : ByteArray} {n : Nat} (h : bytes.size ≤ n) :
    bytes.extract 0 n = bytes := by
  apply ByteArray.ext
  rw [ByteArray.data_extract]
  exact Array.extract_eq_self_of_le h

theorem toUTF8_append (a b : String) : (a ++ b).toUTF8 = a.toUTF8 ++ b.toUTF8 := by simp

/-- **Two texts are written like one.** -/
theorem write_append (a b : String) (sink : Sink) :
    Sink.write (a ++ b) sink = (do Sink.write a; Sink.write b) sink := by
  obtain ⟨written, limit⟩ := sink
  cases limit with
  | none => rw [write_of_unlimited rfl, bind_of_ok (write_of_unlimited rfl a),
      write_of_unlimited rfl, add_add]
  | some limit =>
    have hSize : (a ++ b).toUTF8.size = a.toUTF8.size + b.toUTF8.size := by
      rw [toUTF8_append, ByteArray.size_append]
    by_cases hFirst : a.toUTF8.size ≤ limit - written.size
    · have hRoom : limit - (written ++ a.toUTF8).size = limit - written.size - a.toUTF8.size := by
        rw [ByteArray.size_append]
        omega
      rw [bind_of_ok (write_of_fits hFirst)]
      by_cases hSecond : b.toUTF8.size ≤ limit - written.size - a.toUTF8.size
      · rw [write_of_fits (by omega), write_of_fits (by omega), toUTF8_append,
          ByteArray.append_assoc]
      · have hCut : (a ++ b).toUTF8.extract 0 (limit - written.size) =
            a.toUTF8 ++ b.toUTF8.extract 0 (limit - written.size - a.toUTF8.size) := by
          rw [toUTF8_append, ByteArray.extract_append, Nat.zero_sub,
            extract_of_size_le hFirst]
        rw [write_of_exceeds (by omega), write_of_exceeds (by omega), hCut, hRoom,
          ByteArray.append_assoc]
    · have hCut : (a ++ b).toUTF8.extract 0 (limit - written.size) =
          a.toUTF8.extract 0 (limit - written.size) := by
        rw [toUTF8_append, ByteArray.extract_append,
          show limit - written.size - a.toUTF8.size = 0 by omega]
        simp
      rw [write_of_exceeds (by omega), bind_of_error (write_of_exceeds (by omega)), hCut]

end Sink

/-! ### Printing -/

/-- Work that ends in a state. -/
def ending {ε σ α : Type} (outcome : Except ε α) (state : σ) : EStateM.Result ε σ α :=
  match outcome with
  | .ok result => .ok result state
  | .error fault => .error fault state

section

variable {σ κ χ α β : Type} {make : κ → χ → Sink → σ} {work : EStateM Fault σ α}
  {core core' : κ} {text : χ → String} {outcome : Except Fault α}

/-- A state is made of a core, settings and a sink.  From some core on, whatever the settings and
the sink are, the work writes a text to the sink, leaves the settings as they are, and ends with
the given outcome and core; or there is no room for the text, and the fault of the sink ends it. -/
structure Prints (make : κ → χ → Sink → σ) (work : EStateM Fault σ α) (core : κ)
    (text : χ → String) (outcome : Except Fault α) (core' : κ) : Prop where
  fits : ∀ {settings sink sink'}, Sink.write (text settings) sink = .ok () sink' →
    work (make core settings sink) = ending outcome (make core' settings sink')
  exceeds : ∀ {settings sink fault sink'}, Sink.write (text settings) sink = .error fault sink' →
    ∃ stopped, work (make core settings sink) = .error fault (make stopped settings sink')

/-- Work that does not write. -/
theorem prints_silent
    (h : ∀ settings sink, work (make core settings sink) =
      ending outcome (make core' settings sink)) :
    Prints make work core (fun _ => "") outcome core' where
  fits := by
    intro settings sink sink' hWrite
    rw [Sink.write_empty] at hWrite
    obtain ⟨-, rfl⟩ := ok_inj hWrite
    exact h settings sink
  exceeds := by
    intro settings sink fault sink' hWrite
    rw [Sink.write_empty] at hWrite
    cases hWrite

theorem prints_pure (result : α) :
    Prints make (pure result) core (fun _ => "") (.ok result) core :=
  prints_silent fun _ _ => rfl

theorem Prints.congr {text' : χ → String} (h : Prints make work core text outcome core')
    (same : ∀ settings, text settings = text' settings) :
    Prints make work core text' outcome core' := by
  rw [← funext same]
  exact h

theorem Prints.bind {f : α → EStateM Fault σ β} {result : α} {more : χ → String}
    {outcome' : Except Fault β} {core'' : κ} (h : Prints make work core text (.ok result) core')
    (hf : Prints make (f result) core' more outcome' core'') :
    Prints make (work >>= f) core (fun settings => text settings ++ more settings)
      outcome' core'' where
  fits := by
    intro settings sink sink' hWrite
    rw [Sink.write_append] at hWrite
    obtain ⟨_, middle, hText, hMore⟩ := bind_eq_ok hWrite
    rw [bind_of_ok (h.fits hText)]
    exact hf.fits hMore
  exceeds := by
    intro settings sink fault sink' hWrite
    rw [Sink.write_append] at hWrite
    cases hText : Sink.write (text settings) sink with
    | ok _ middle =>
      rw [bind_of_ok hText] at hWrite
      obtain ⟨stopped, hMore⟩ := hf.exceeds hWrite
      exact ⟨stopped, (bind_of_ok (h.fits hText)).trans hMore⟩
    | error fault' sink'' =>
      rw [bind_of_error hText] at hWrite
      cases hWrite
      obtain ⟨stopped, hStop⟩ := h.exceeds hText
      exact ⟨stopped, bind_of_error hStop⟩

/-- Behind a fault nothing is done. -/
theorem Prints.bind_error {f : α → EStateM Fault σ β} {fault : Fault}
    (h : Prints make work core text (.error fault) core') :
    Prints make (work >>= f) core text (.error fault) core' where
  fits := fun hWrite => bind_of_error (h.fits hWrite)
  exceeds := by
    intro settings sink fault' sink' hWrite
    obtain ⟨stopped, hStop⟩ := h.exceeds hWrite
    exact ⟨stopped, bind_of_error hStop⟩

/-- Work whose result is only looked at. -/
theorem Prints.map (h : Prints make work core text outcome core') (f : α → β) :
    Prints make (work >>= fun result => pure (f result)) core text (outcome.map f) core' := by
  cases outcome with
  | ok result => exact (h.bind (prints_pure (f result))).congr fun _ => String.append_empty
  | error fault => exact h.bind_error

/-- Work that looks at the core only. -/
theorem prints_get_bind {f : σ → EStateM Fault σ α} {next : EStateM Fault σ α}
    (hf : ∀ settings sink, f (make core settings sink) = next)
    (h : Prints make next core text outcome core') :
    Prints make (get >>= f) core text outcome core' where
  fits := by
    intro settings sink sink' hWrite
    rw [get_bind, hf]
    exact h.fits hWrite
  exceeds := by
    intro settings sink fault sink' hWrite
    rw [get_bind, hf]
    exact h.exceeds hWrite

/-! ### Parts of a state -/

/-- A focus on the sink of the states that are made. -/
structure Focus.Shows (focus : Focus σ Sink) (make : κ → χ → Sink → σ) : Prop where
  get : ∀ core settings sink, focus.get (make core settings sink) = sink
  set : ∀ core settings sink sink', focus.set sink' (make core settings sink) =
    make core settings sink'

variable {focus : Focus σ Sink}

/-- Work that writes a text. -/
theorem prints_write (shows : focus.Shows make) {work : EStateM Fault σ Unit}
    (h : ∀ settings sink, work (make core settings sink) =
      focus.on (Sink.write (text settings)) (make core settings sink)) :
    Prints make work core text (.ok ()) core where
  fits := by
    intro settings sink sink' hWrite
    simp only [h, Focus.on, shows.get, hWrite, shows.set]
    rfl
  exceeds := by
    intro settings sink fault sink' hWrite
    refine ⟨core, ?_⟩
    simp only [h, Focus.on, shows.get, hWrite, shows.set]

/-- Work that writes a line if a switch is on. -/
theorem prints_switch (shows : focus.Shows make) {work : EStateM Fault σ Unit}
    {switch : χ → Bool} {line : String}
    (h : ∀ settings sink, work (make core settings sink) =
      (if switch settings then focus.on (Sink.write line) else pure ())
        (make core settings sink)) :
    Prints make work core (fun settings => if switch settings then line else "") (.ok ())
      core := by
  refine prints_write shows fun settings sink => ?_
  rw [h]
  split
  · rfl
  · simp only [Focus.on, shows.get, Sink.write_empty, shows.set]
    rfl

end

end Tiny
