import Tiny.Proofs.Recording
import Tiny.Proofs.Staging

/-!
# Full sinks

A sink with a limit that is reached cuts off what is written to it and stops the work, and it does
nothing else: what it holds is the beginning of what a sink without a limit would hold.

* `full_sink_truncates`: this is so for the listing of a compilation, and for the code of a program,
  whether the program has code or not.
-/

namespace Tiny

namespace Sink

variable {text : String} {limit : Nat}

theorem write_capped_of_le (h : text.toUTF8.size ≤ limit) :
    Sink.write text { limit := some limit } = .ok () ⟨text.toUTF8, some limit⟩ := by
  have hRoom : text.toUTF8.size ≤ limit - ByteArray.empty.size := h
  rw [write_of_fits hRoom, ByteArray.empty_append]

theorem write_capped_of_lt (h : limit < text.toUTF8.size) :
    Sink.write text { limit := some limit } =
      .error full ⟨text.toUTF8.extract 0 limit, some limit⟩ := by
  have hRoom : limit - ByteArray.empty.size < text.toUTF8.size := h
  rw [write_of_exceeds hRoom, ByteArray.empty_append]
  rfl

theorem add_fresh (text : String) : Sink.add {} text = { written := text.toUTF8 } := by
  rw [add, ByteArray.empty_append]

end Sink

/-- **A full sink cuts off and stops, and never spoils.**  Whatever a source reads like: a listing
that has room for all that is written makes no difference; otherwise it holds as many bytes of that
as fit, its fault ends the compilation, and the sink for the code is not opened.  The sink for the
code holds as many bytes of the code as fit; its fault ends the work exactly if some do not, and
otherwise the work ends as it would without a limit. -/
theorem full_sink_truncates :
    (∀ (feed : Feed) (fileName : String) (codeSink : Except Fault Sink) (options : Options)
        (limit : Nat),
      ∃ (result : Except Fault Compilation) (bytes : ByteArray) (opened : Bool),
        compile feed fileName codeSink options {} =
          ending result ⟨{ written := bytes }, opened⟩ ∧
        (bytes.size ≤ limit →
          compile feed fileName codeSink options { listing := { limit := some limit } } =
            ending result ⟨⟨bytes, some limit⟩, opened⟩) ∧
        (limit < bytes.size →
          compile feed fileName codeSink options { listing := { limit := some limit } } =
            .error (.io "sink full") ⟨⟨bytes.extract 0 limit, some limit⟩, false⟩)) ∧
    ∀ (p : Program) (symbols : Symbols) (traceCode : Bool) (fileName : String) (limit : Nat),
      ∃ (outcome capped : Except Fault Unit) (bytes : ByteArray),
        p.generate symbols traceCode fileName {} = (outcome, { written := bytes }) ∧
        p.generate symbols traceCode fileName { limit := some limit } =
          (capped, ⟨bytes.extract 0 (min limit bytes.size), some limit⟩) ∧
        (capped = .error (.io "sink full") ↔ limit < bytes.size) ∧
        (bytes.size ≤ limit → capped = outcome) := by
  constructor
  · intro feed fileName codeSink options limit
    obtain ⟨source, of⟩ := exists_source feed
    have goes := @Compile.goes_compile feed source options of fileName codeSink
    let text := source.listing options options.stopAfter
    refine ⟨source.outcome fileName codeSink options, text.toUTF8,
      source.opens options.stopAfter, ?_, fun h => ?_, fun h => ?_⟩
    · rw [← Sink.add_fresh]
      exact goes.unlimited rfl
    · exact goes.fits (Sink.write_capped_of_le h)
    · exact goes.exceeds (Sink.write_capped_of_lt h)
  · intro p symbols traceCode fileName limit
    obtain ⟨body, outcome, generated⟩ := Code.exists_generated symbols fileName p
    let text := Entry.texts traceCode (Code.heading fileName ++ body)
    have hFree : p.generate symbols traceCode fileName {} =
        (outcome, { written := text.toUTF8 }) := by
      rw [← Sink.add_fresh]
      exact generated.unlimited rfl traceCode
    by_cases h : limit < text.toUTF8.size
    · refine ⟨outcome, .error Sink.full, text.toUTF8, hFree, ?_, iff_of_true rfl h,
        fun hLe => absurd h (Nat.not_lt_of_le hLe)⟩
      rw [Nat.min_eq_left (Nat.le_of_lt h)]
      exact generated.exceeds (Sink.write_capped_of_lt h)
    · -- the work has no fault of its own that looks like that of a sink
      have hLe : text.toUTF8.size ≤ limit := Nat.le_of_not_lt h
      refine ⟨outcome, outcome, text.toUTF8, hFree, ?_,
        iff_of_false (generated.faults "sink full") h, fun _ => rfl⟩
      rw [Nat.min_eq_right hLe, Sink.extract_of_size_le (Nat.le_refl _)]
      exact generated.fits (Sink.write_capped_of_le hLe)

end Tiny
