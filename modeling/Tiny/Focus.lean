/-!
# Work on a part of a state

A focus is a part of a larger state.  Work on the part is also work on the whole, and leaves its
mark on the part even when it fails.
-/

namespace Tiny

/-- A part of a state that can be read and replaced. -/
structure Focus (σ τ : Type) where
  get : σ → τ
  set : τ → σ → σ

namespace Focus

/-- Runs work on the part, also keeping the part when the work fails. -/
def on {ε σ τ α : Type} (focus : Focus σ τ) (work : EStateM ε τ α) : EStateM ε σ α := fun state =>
  match work (focus.get state) with
  | .ok a part => .ok a (focus.set part state)
  | .error e part => .error e (focus.set part state)

end Focus

end Tiny
