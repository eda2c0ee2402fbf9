/-!
# Options

How far a compilation goes and what it writes beside the code.
-/

namespace Tiny

/-- The stages of a compilation, in order. -/
inductive Stage where
  | scan
  | parse
  | analyze
  | code
deriving DecidableEq, Repr

/-- Which parts of the listing are written, whether the code is commented, and the last stage. -/
structure Options where
  echoSource : Bool := false
  traceScan : Bool := false
  traceParse : Bool := false
  traceAnalyze : Bool := false
  traceCode : Bool := false
  stopAfter : Stage := .code
deriving DecidableEq, Repr

namespace Options

/-- Everything is written. -/
def all (stage : Stage) : Options where
  echoSource := true
  traceScan := true
  traceParse := true
  traceAnalyze := true
  traceCode := true
  stopAfter := stage

end Options

end Tiny
