import Tiny.Token.Scanner

/-!
# Consumers of tokens

A consumer asks for tokens one at a time until it has a result or gives up.  It does not know where
the tokens come from: `runOn` takes them off a scanner.
-/

namespace Tiny

/-- A computation that asks for tokens. -/
inductive Consumer (α : Type) where
  | done (result : α)
  | ask (next : Token → Consumer α)
  | fail (fault : Fault)

namespace Consumer

variable {α β : Type}

/-- Goes on with the result of a consumer. -/
def bind : Consumer α → (α → Consumer β) → Consumer β
  | .done result, f => f result
  | .ask next, f => .ask fun token => (next token).bind f
  | .fail fault, _ => .fail fault

instance : Monad Consumer where
  pure := .done
  bind := bind

/-- The consumer of a single token. -/
def token : Consumer Token := .ask .done

/-- Takes the tokens off a scanner. -/
def runOn : Consumer α → Scan α
  | .done result => return result
  | .ask next => do
    let token ← Scanner.next
    runOn (next token)
  | .fail fault => throw fault

end Consumer

end Tiny
