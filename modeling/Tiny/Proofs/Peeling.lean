import Tiny.Sink

/-!
# Work that succeeds

Work is taken apart along `>>=`, from the front.  Writing to a sink without a limit succeeds.
-/

namespace Tiny

/-! ### Sinks without a limit -/

namespace Sink

/-- A sink that has taken some more text. -/
def add (sink : Sink) (text : String) : Sink :=
  { sink with written := sink.written ++ text.toUTF8 }

theorem add_add (sink : Sink) (a b : String) : (sink.add a).add b = sink.add (a ++ b) := by
  simp [add, ByteArray.append_assoc]

theorem add_empty (sink : Sink) : sink.add "" = sink := by
  simp [add]

theorem write_of_unlimited {sink : Sink} (h : sink.limit = none) (text : String) :
    Sink.write text sink = .ok () (sink.add text) := by
  simp [Sink.write, add, h]

end Sink

/-! ### Peeling work apart -/

section Peel

variable {ε σ α β : Type}

theorem bind_of_ok {x : EStateM ε σ α} {f : α → EStateM ε σ β} {s s' : σ} {a : α}
    (h : x s = .ok a s') : (x >>= f) s = f a s' := by
  simp only [bind, EStateM.bind, h]

theorem bind_of_error {x : EStateM ε σ α} {f : α → EStateM ε σ β} {s s' : σ} {e : ε}
    (h : x s = .error e s') : (x >>= f) s = .error e s' := by
  simp only [bind, EStateM.bind, h]

theorem get_bind (f : σ → EStateM ε σ β) (s : σ) : (get >>= f) s = f s s := rfl

theorem ok_inj {a b : α} {s t : σ} (h : (EStateM.Result.ok a s : EStateM.Result ε σ α) = .ok b t) :
    a = b ∧ s = t := by
  cases h
  exact ⟨rfl, rfl⟩

theorem bind_eq_ok {x : EStateM ε σ α} {f : α → EStateM ε σ β} {s s' : σ} {b : β}
    (h : (x >>= f) s = .ok b s') : ∃ a t, x s = .ok a t ∧ f a t = .ok b s' := by
  simp only [bind, EStateM.bind] at h
  cases hx : x s with
  | ok a t => rw [hx] at h; exact ⟨a, t, rfl, h⟩
  | error e t => rw [hx] at h; cases h

end Peel

end Tiny
