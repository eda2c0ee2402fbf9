import Tiny.Proofs.Overwriting

/-!
# What the command delivers

The command prints a report about its source and writes at most one file, the code.  If asked to, it
then runs the code and prints the output.  It can fail in many ways, each of them before the file is
written or after that.

* `Machine.run_ok_iff`: the machine gives output when it comes to a `HALT`.
* `Request.Compiles`, `Request.Executes`: how the compilation of the source ends, and the run of its
  code.
* `Command.run_of_missing`, `Command.run_of_fatal`, `Command.run_of_compiled`: the command, by how
  its compilation ends.
* `Command.run_delivers`: what is left behind on the disk, and what was printed.
-/

namespace Tiny

/-! ### Code is the last stage -/

theorem Diagnostics.hasErrors_iff {found : Diagnostics} : found.hasErrors = true ↔ found ≠ #[] := by
  simp [hasErrors]

theorem Compilation.succeeded_iff {compilation : Compilation} :
    compilation.succeeded = true ↔ compilation.diagnostics = #[] := by
  simp [succeeded, Diagnostics.hasErrors]

/-- A compilation has code if it was to go that far and nothing was reported. -/
theorem compile_code_iff {feed : Feed} {fileName : String} {codeSink : Except Fault Sink}
    {options : Options} {session session' : Session} {compilation : Compilation}
    (h : compile feed fileName codeSink options session = .ok compilation session') :
    (∃ code, compilation.code = some code) ↔
      compilation.diagnostics = #[] ∧ options.stopAfter = .code := by
  unfold compile at h
  split at h
  next hScan =>
    obtain ⟨tokens, _, -, h⟩ := bind_eq_ok h
    obtain ⟨rfl, -⟩ := ok_inj h
    exact iff_of_false nofun fun hDone => nomatch hScan.symm.trans hDone.2
  next hScan =>
    obtain ⟨⟨tree, found⟩, _, -, h⟩ := bind_eq_ok h
    simp only at h
    split at h
    next hParse =>
      obtain ⟨rfl, -⟩ := ok_inj h
      rcases hParse with hFound | hParse
      · exact iff_of_false nofun fun hDone => Diagnostics.hasErrors_iff.mp hFound hDone.1
      · exact iff_of_false nofun fun hDone => nomatch hParse.symm.trans hDone.2
    next hParse =>
      obtain ⟨⟨checked, symbols, types⟩, _, -, h⟩ := bind_eq_ok h
      simp only at h
      split at h
      next hAnalyze =>
        obtain ⟨rfl, -⟩ := ok_inj h
        rcases hAnalyze with hTypes | hAnalyze
        · exact iff_of_false nofun fun hDone => Diagnostics.hasErrors_iff.mp hTypes hDone.1
        · exact iff_of_false nofun fun hDone => nomatch hAnalyze.symm.trans hDone.2
      next hAnalyze =>
        obtain ⟨code, _, -, h⟩ := bind_eq_ok h
        obtain ⟨rfl, -⟩ := ok_inj h
        rw [not_or] at hParse hAnalyze
        have hStage : options.stopAfter = .code := by
          cases hStop : options.stopAfter <;> simp_all
        exact iff_of_true ⟨code, rfl⟩ ⟨Diagnostics.eq_empty_of_hasErrors hAnalyze.1, hStage⟩

/-! ### Runs that halt -/

namespace Tick

theorem fetch_of_halted {run after : Run} (h : step run = .ok .halted after) :
    ∃ instruction, run.machine.fetch? run.machine.pc = some instruction ∧
      instruction.op = .halt := by
  rw [step, get_bind, get_bind] at h
  cases hFetch : run.machine.fetch? run.machine.pc with
  | none =>
    rw [hFetch] at h
    cases h
  | some instruction =>
    rw [hFetch] at h
    obtain ⟨_, _, -, h⟩ := bind_eq_ok h
    obtain ⟨_, _, -, h⟩ := bind_eq_ok h
    obtain ⟨_, _, -, h⟩ := bind_eq_ok h
    obtain ⟨hStatus, -⟩ := ok_inj h
    refine ⟨instruction, rfl, Decidable.byContradiction fun hOp => ?_⟩
    rw [if_neg hOp] at hStatus
    cases hStatus

/-- Steps end only at a `HALT`. -/
theorem goes_of_steps {limit left : Nat} {run after : Run}
    (h : steps limit left run = .ok () after) :
    ∃ n middle, n < left ∧ Goes n run middle ∧ step middle = .ok .halted after := by
  induction left generalizing run with
  | zero => cases h
  | succ left ih =>
    obtain ⟨status, next, hStep, h⟩ := bind_eq_ok h
    cases status with
    | halted =>
      obtain ⟨-, rfl⟩ := ok_inj h
      exact ⟨0, run, Nat.succ_pos left, .refl run, hStep⟩
    | running =>
      obtain ⟨n, middle, hn, hGoes, hLast⟩ := ih h
      exact ⟨n + 1, middle, Nat.succ_lt_succ hn, .head hStep hGoes, hLast⟩

end Tick

namespace Machine

variable {machine : Machine} {input : List Int32} {limit : Nat} {output : Array Int32}

/-- The machine, started on some input, executes a `HALT` as one of its first `limit` instructions,
and has then given this output. -/
def Halts (machine : Machine) (input : List Int32) (limit : Nat) (output : Array Int32) : Prop :=
  ∃ n run after instruction, n < limit ∧ Tick.Goes n { machine, input } run ∧
    run.machine.fetch? run.machine.pc = some instruction ∧ instruction.op = .halt ∧
    Tick.step run = .ok .halted after ∧ after.output = output

/-- **The machine gives output exactly if it halts.** -/
theorem run_ok_iff :
    (machine.run input limit).1 = .ok output ↔ machine.Halts input limit output := by
  constructor
  · intro h
    unfold Machine.run at h
    cases hSteps : Tick.steps limit limit { machine, input } with
    | error fault after =>
      rw [hSteps] at h
      cases h
    | ok done after =>
      rw [hSteps] at h
      obtain ⟨n, run, hn, hGoes, hStep⟩ := Tick.goes_of_steps hSteps
      obtain ⟨instruction, hFetch, hOp⟩ := Tick.fetch_of_halted hStep
      exact ⟨n, run, after, instruction, hn, hGoes, hFetch, hOp, hStep, Except.ok.inj h⟩
  · rintro ⟨n, run, after, instruction, hn, hGoes, -, -, hStep, rfl⟩
    rw [run_of_goes_halted hGoes hStep hn]

end Machine

/-! ### Compilations of the source -/

namespace Request

variable {request : Request} {disk : Disk} {fault : Fault} {compilation : Compilation}
  {session : Session}

/-- The source can be opened, and its compilation ends so. -/
def Compiles (request : Request) (disk : Disk) (result : EStateM.Result Fault Session Compilation) :
    Prop :=
  ∃ feed, disk.openSource request.sourcePath = .ok feed ∧
    compile feed request.codePath (.ok {}) request.options {} = result

theorem compiles_cases (request : Request) (disk : Disk) :
    (∃ cause, disk.openSource request.sourcePath = .error cause) ∨
    (∃ fault session, request.Compiles disk (.error fault session)) ∨
    ∃ compilation session, request.Compiles disk (.ok compilation session) := by
  cases hOpen : disk.openSource request.sourcePath with
  | error cause => exact .inl ⟨cause, rfl⟩
  | ok feed =>
    cases hResult : compile feed request.codePath (.ok {}) request.options {} with
    | error fault session => exact .inr (.inl ⟨fault, session, feed, hOpen, hResult⟩)
    | ok compilation session => exact .inr (.inr ⟨compilation, session, feed, hOpen, hResult⟩)

theorem code?_of_missing {cause : OsFault}
    (h : disk.openSource request.sourcePath = .error cause) : request.code? disk = none := by
  rw [code?, h]

theorem code?_of_fatal (h : request.Compiles disk (.error fault session)) :
    request.code? disk = none := by
  obtain ⟨feed, hOpen, hResult⟩ := h
  simp only [code?, hOpen, hResult]

theorem code?_of_compiled (h : request.Compiles disk (.ok compilation session)) :
    request.code? disk =
      if compilation.succeeded then compilation.code.map Sink.written else none := by
  obtain ⟨feed, hOpen, hResult⟩ := h
  simp only [code?, hOpen, hResult]

/-- Code comes from a compilation that went all the way and reported nothing. -/
theorem exists_of_code? {bytes : ByteArray} (h : request.code? disk = some bytes) :
    ∃ compilation session code, request.Compiles disk (.ok compilation session) ∧
      compilation.diagnostics = #[] ∧ request.options.stopAfter = .code ∧
      compilation.code = some code ∧ code.written = bytes := by
  rcases request.compiles_cases disk with ⟨cause, hOpen⟩ | ⟨fault, session, hFatal⟩ |
    ⟨compilation, session, hCompiled⟩
  · rw [code?_of_missing hOpen] at h
    cases h
  · rw [code?_of_fatal hFatal] at h
    cases h
  · rw [code?_of_compiled hCompiled] at h
    split at h
    · obtain ⟨code, hCode, rfl⟩ := Option.map_eq_some_iff.mp h
      have ⟨_, _, hResult⟩ := hCompiled
      obtain ⟨hNone, hStage⟩ := (compile_code_iff hResult).mp ⟨code, hCode⟩
      exact ⟨compilation, session, code, hCompiled, hNone, hStage, hCode, rfl⟩
    · cases h

/-- What is printed about the source: a heading, the listing and the diagnostics. -/
def report (request : Request) (disk : Disk) : String :=
  match disk.openSource request.sourcePath with
  | .error _ => ""
  | .ok feed =>
    "\nTINY COMPILATION: " ++ request.sourcePath ++ "\n" ++
      match compile feed request.codePath (.ok {}) request.options {} with
      | .error _ session => session.listing.text
      | .ok compilation session =>
        session.listing.text ++ String.join (compilation.diagnostics.toList.map fun diagnostic =>
          ">>> " ++ diagnostic.message ++ "\n")

/-- It is asked to run the code, there is code, it can be written, and with the standard input for
its numbers it halts, having given this output. -/
def Executes (request : Request) (world : World) (output : Array Int32) : Prop :=
  request.has .run = true ∧ ∃ code disk listing machine text words,
    request.code? world.disk = some code ∧ world.disk.write request.codePath code = .ok disk ∧
    String.fromUTF8? code = some listing ∧ Machine.load listing = .ok machine ∧
    String.fromUTF8? world.input = some text ∧ Command.inputWords text = .ok words ∧
    machine.Halts words Command.stepLimit output

end Request

/-! ### Running the command -/

namespace World

/-- The system after something more was printed. -/
def say (world : World) (text : String) : World :=
  { world with output := world.output ++ text }

theorem say_say (world : World) (a b : String) : (world.say a).say b = world.say (a ++ b) := by
  simp only [say, String.append_assoc]

theorem say_empty (world : World) : world.say "" = world := by
  simp only [say, String.append_empty]

end World

namespace Command

variable {request : Request} {world : World} {fault : Fault} {compilation : Compilation}
  {session : Session} {feed : Feed}

section

variable {α β : Type}

theorem run_attempt_bind (outcome : Except Failure α)
    (f : α → ExceptT Failure (StateM World) β) (world : World) :
    (attempt outcome >>= f).run world =
      match outcome with
      | .ok a => (f a).run world
      | .error failure => (.error failure, world) := by
  cases outcome with
  | ok a => exact run_bind_of_ok rfl
  | error failure => exact run_bind_of_error rfl

theorem run_print_bind (text : String) (f : Unit → ExceptT Failure (StateM World) β)
    (world : World) :
    ((liftM (World.host.print text) : ExceptT Failure (StateM World) Unit) >>= f).run world =
      (f ()).run (world.say text) :=
  run_lift_bind rfl

end

/-- The command when its source cannot be opened. -/
theorem run_of_missing {cause : OsFault}
    (h : world.disk.openSource request.sourcePath = .error cause) :
    (run World.host request).run world =
      (.error (.noSource request.sourcePath cause), world.say (request.report world.disk)) := by
  have hOpen : World.host.openSource request.sourcePath world = (.error cause, world) := by
    rw [← h]
    rfl
  rw [run, run_lift_bind hOpen, Request.report, h, World.say_empty]
  rfl

theorem run_of_open (h : world.disk.openSource request.sourcePath = .ok feed) :
    (run World.host request).run world = (do
      let compilation ← compileSource World.host request feed
      if compilation.succeeded then
        match compilation.code with
        | none => return ()
        | some code => deliver request code.written
      else throw (Failure.rejected compilation.diagnostics.size)).run world := by
  have hOpen : World.host.openSource request.sourcePath world = (.ok feed, world) := by
    rw [← h]
    rfl
  rw [run, run_lift_bind hOpen]
  rfl

/-- The command when its compilation meets a fault. -/
theorem run_of_fatal (h : request.Compiles world.disk (.error fault session)) :
    (run World.host request).run world =
      (.error (.compilation fault), world.say (request.report world.disk)) := by
  obtain ⟨feed, hOpen, hResult⟩ := h
  have hCompile : (compileSource World.host request feed).run world =
      (.error (.compilation fault), world.say (request.report world.disk)) := by
    unfold compileSource Request.report
    simp only [hOpen, hResult]
    rw [run_print_bind, run_print_bind, World.say_say]
    rfl
  rw [run_of_open hOpen, run_bind_of_error hCompile]

/-- The command when there is a compilation. -/
theorem run_of_compiled (h : request.Compiles world.disk (.ok compilation session)) :
    (run World.host request).run world =
      if compilation.succeeded then
        match compilation.code with
        | none => (.ok (), world.say (request.report world.disk))
        | some code => (deliver request code.written).run (world.say (request.report world.disk))
      else (.error (.rejected compilation.diagnostics.size),
        world.say (request.report world.disk)) := by
  obtain ⟨feed, hOpen, hResult⟩ := h
  have hCompile : (compileSource World.host request feed).run world =
      (.ok compilation, world.say (request.report world.disk)) := by
    unfold compileSource Request.report
    simp only [hOpen, hResult]
    rw [run_print_bind, run_print_bind, run_print_bind, World.say_say, World.say_say,
      String.append_assoc]
    rfl
  rw [run_of_open hOpen, run_bind_of_ok hCompile]
  split
  · cases compilation.code with
    | none => rfl
    | some code => rfl
  · rfl

theorem run_deliver (request : Request) (code : ByteArray) (world : World) :
    (deliver request code).run world =
      match world.disk.write request.codePath code with
      | .error cause => (.error (.noCode request.codePath cause), world)
      | .ok disk =>
        if request.has .run then (simulate World.host request.codePath).run { world with disk }
        else (.ok (), { world with disk }) := by
  have hWrite := run_writeFile request.codePath code world
  unfold deliver
  cases h : world.disk.write request.codePath code with
  | error cause =>
    rw [h] at hWrite
    rw [run_lift_bind hWrite]
    rfl
  | ok disk =>
    rw [h] at hWrite
    rw [run_lift_bind hWrite, run_attempt_bind]
    simp only [Except.mapError]
    split
    · rfl
    · rfl

/-! ### Running the code -/

/-- The lines that show some output. -/
def outputText (output : Array Int32) : String :=
  String.join (output.toList.map fun word =>
    "OUT instruction prints: " ++ toString word.toInt ++ "\n")

/-- The work comes to this outcome, and prints the output if there is any, and nothing else. -/
def Tells (work : ExceptT Failure (StateM World) Unit) (world : World)
    (outcome : Except Failure (Array Int32)) : Prop :=
  work.run world =
    match outcome with
    | .error failure => (.error failure, world)
    | .ok output => (.ok (), world.say (outputText output))

theorem tells_attempt_bind {α : Type} {outcome : Except Failure α}
    {f : α → ExceptT Failure (StateM World) Unit} {g : α → Except Failure (Array Int32)}
    (h : ∀ a, Tells (f a) world (g a)) : Tells (attempt outcome >>= f) world (outcome >>= g) := by
  unfold Tells
  rw [run_attempt_bind]
  cases outcome with
  | error failure => rfl
  | ok a => exact h a

/-- What comes of running the code at a path. -/
def simulation (disk : Disk) (input : ByteArray) (codePath : String) :
    Except Failure (Array Int32) := do
  let code ← (disk.read codePath).mapError .system
  let listing ← textOf code
  let machine ← (Machine.load listing).mapError .machine
  let text ← textOf input
  let words ← inputWords text
  (machine.run words stepLimit).1.mapError .machine

theorem tells_simulate (codePath : String) (world : World) :
    Tells (simulate World.host codePath) world (simulation world.disk world.input codePath) := by
  have hRead : World.host.readFile codePath world = (world.disk.read codePath, world) := rfl
  have hInput : World.host.readInput world = (world.input, world) := rfl
  refine (run_lift_bind hRead).trans (tells_attempt_bind fun code => ?_)
  refine tells_attempt_bind fun listing => tells_attempt_bind fun machine => ?_
  refine (run_lift_bind hInput).trans (tells_attempt_bind fun text => ?_)
  refine tells_attempt_bind fun words => ?_
  unfold Tells
  rw [run_attempt_bind]
  cases Except.mapError Failure.machine (machine.run words stepLimit).1 with
  | error failure => rfl
  | ok output => rfl

theorem run_simulate_of_ok {codePath : String} {output : Array Int32} (world : World)
    (h : simulation world.disk world.input codePath = .ok output) :
    (simulate World.host codePath).run world = (.ok (), world.say (outputText output)) := by
  rw [tells_simulate codePath world, h]

theorem run_simulate_of_error {codePath : String} {failure : Failure} (world : World)
    (h : simulation world.disk world.input codePath = .error failure) :
    (simulate World.host codePath).run world = (.error failure, world) := by
  rw [tells_simulate codePath world, h]

theorem mapError_eq_ok {ε ε' α : Type} {x : Except ε α} {f : ε → ε'} {a : α} :
    x.mapError f = .ok a ↔ x = .ok a := by
  cases x <;> simp [Except.mapError]

theorem textOf_eq_ok {bytes : ByteArray} {text : String} :
    textOf bytes = .ok text ↔ String.fromUTF8? bytes = some text := by
  unfold textOf
  cases String.fromUTF8? bytes <;> simp

/-- There is output if the code can be loaded, the input is numbers, and the machine halts. -/
theorem simulation_eq_ok {disk : Disk} {input : ByteArray} {codePath : String}
    {output : Array Int32} :
    simulation disk input codePath = .ok output ↔
      ∃ code listing machine text words, disk.read codePath = .ok code ∧
        String.fromUTF8? code = some listing ∧ Machine.load listing = .ok machine ∧
        String.fromUTF8? input = some text ∧ inputWords text = .ok words ∧
        machine.Halts words stepLimit output := by
  constructor
  · intro h
    obtain ⟨code, hCode, h⟩ := Disk.except_bind_eq_ok h
    obtain ⟨listing, hListing, h⟩ := Disk.except_bind_eq_ok h
    obtain ⟨machine, hMachine, h⟩ := Disk.except_bind_eq_ok h
    obtain ⟨text, hText, h⟩ := Disk.except_bind_eq_ok h
    obtain ⟨words, hWords, h⟩ := Disk.except_bind_eq_ok h
    exact ⟨code, listing, machine, text, words, mapError_eq_ok.mp hCode, textOf_eq_ok.mp hListing,
      mapError_eq_ok.mp hMachine, textOf_eq_ok.mp hText, hWords,
      Machine.run_ok_iff.mp (mapError_eq_ok.mp h)⟩
  · rintro ⟨code, listing, machine, text, words, hCode, hListing, hMachine, hText, hWords, hHalts⟩
    rw [simulation, mapError_eq_ok.mpr hCode]
    simp only [bind, Except.bind, textOf_eq_ok.mpr hListing, mapError_eq_ok.mpr hMachine,
      textOf_eq_ok.mpr hText, hWords]
    exact mapError_eq_ok.mpr (Machine.run_ok_iff.mpr hHalts)

/-! ### What is left behind -/

/-- What the command leaves behind. -/
structure Delivers (request : Request) (world : World) (outcome : Except Failure Unit)
    (after : World) : Prop where
  /-- Nothing changes but at the place of the code. -/
  places : ∀ place, world.disk.target request.codePath ≠ .ok place →
    after.disk.node? place = world.disk.node? place
  /-- A path reads as before, if it does not name the place of the code. -/
  paths : ∀ path, (∀ place, world.disk.target path = .ok place →
      world.disk.target request.codePath ≠ .ok place) →
    ∀ content, after.disk.read path = .ok content ↔ world.disk.read path = .ok content
  /-- If something changes, then there was a compilation up to the code and without a diagnostic,
  and its code is now at the code path. -/
  changed : after.disk ≠ world.disk → ∃ compilation session code,
    request.Compiles world.disk (.ok compilation session) ∧ compilation.diagnostics = #[] ∧
    request.stage = .code ∧ compilation.code = some code ∧
    after.disk.read request.codePath = .ok code.written
  /-- The code of such a compilation is at the code path afterwards, or could not be written. -/
  written : ∀ compilation session, request.Compiles world.disk (.ok compilation session) →
    compilation.diagnostics = #[] → request.stage = .code → ∃ code, compilation.code = some code ∧
      (after.disk.read request.codePath = .ok code.written ∨
        ∃ cause, world.disk.write request.codePath code.written = .error cause ∧
          outcome = .error (.noCode request.codePath cause) ∧ after.disk = world.disk)
  fatal : ∀ fault session, request.Compiles world.disk (.error fault session) →
    outcome = .error (.compilation fault) ∧ after.disk = world.disk
  rejected : ∀ compilation session, request.Compiles world.disk (.ok compilation session) →
    compilation.diagnostics ≠ #[] →
    outcome = .error (.rejected compilation.diagnostics.size) ∧ after.disk = world.disk
  /-- The lines of the output come behind the report about the source. -/
  loud : ∀ output, request.Executes world output → outcome = .ok () ∧
    after.output = world.output ++ request.report world.disk ++
      String.join (output.toList.map fun word =>
        "OUT instruction prints: " ++ toString word.toInt ++ "\n")
  /-- Without output there is only the report. -/
  quiet : (∀ output, ¬ request.Executes world output) →
    after.output = world.output ++ request.report world.disk

theorem stage_of_options (request : Request) : request.options.stopAfter = request.stage := by
  unfold Request.options
  split <;> rfl

section

variable {code : ByteArray} {disk : Disk}

theorem output_of_none (h : request.code? world.disk = none) :
    ((run World.host request).run world).2.output = world.output ++ request.report world.disk := by
  rcases request.compiles_cases world.disk with ⟨cause, hOpen⟩ | ⟨fault, session, hFatal⟩ |
    ⟨compilation, session, hCompiled⟩
  · rw [run_of_missing hOpen]
    rfl
  · rw [run_of_fatal hFatal]
    rfl
  · rw [Request.code?_of_compiled hCompiled] at h
    rw [run_of_compiled hCompiled]
    split
    next hSucceeded =>
      rw [if_pos hSucceeded, Option.map_eq_none_iff] at h
      rw [h]
      rfl
    next => rfl

theorem run_of_code (h : request.code? world.disk = some code) :
    (run World.host request).run world =
      (deliver request code).run (world.say (request.report world.disk)) := by
  obtain ⟨compilation, session, sink, hCompiled, hNone, -, hCode, rfl⟩ := Request.exists_of_code? h
  rw [run_of_compiled hCompiled, if_pos (Compilation.succeeded_iff.mpr hNone), hCode]

theorem run_of_unwritten {cause : OsFault} (h : request.code? world.disk = some code)
    (hWrite : world.disk.write request.codePath code = .error cause) :
    (run World.host request).run world =
      (.error (.noCode request.codePath cause), world.say (request.report world.disk)) := by
  have hHere : (world.say (request.report world.disk)).disk = world.disk := rfl
  rw [run_of_code h, run_deliver, hHere, hWrite]

theorem run_of_written (h : request.code? world.disk = some code)
    (hWrite : world.disk.write request.codePath code = .ok disk) :
    (run World.host request).run world =
      if request.has .run then
        (simulate World.host request.codePath).run
          ⟨disk, world.input, world.output ++ request.report world.disk⟩
      else (.ok (), ⟨disk, world.input, world.output ++ request.report world.disk⟩) := by
  have hHere : (world.say (request.report world.disk)).disk = world.disk := rfl
  rw [run_of_code h, run_deliver, hHere, hWrite]
  rfl

/-- Code that was written is what is run. -/
theorem executes_iff {output : Array Int32} (h : request.code? world.disk = some code)
    (hWrite : world.disk.write request.codePath code = .ok disk) :
    request.Executes world output ↔ request.has .run = true ∧
      simulation disk world.input request.codePath = .ok output := by
  refine and_congr_right fun _ => ?_
  rw [simulation_eq_ok]
  constructor
  · rintro ⟨code', disk', listing, machine, text, words, h', hWrite', hRest⟩
    obtain rfl : code = code' := Option.some.inj (h.symm.trans h')
    exact ⟨code, listing, machine, text, words, Disk.read_of_write hWrite, hRest⟩
  · rintro ⟨code', listing, machine, text, words, hRead, hRest⟩
    obtain rfl : code = code' := Except.ok.inj ((Disk.read_of_write hWrite).symm.trans hRead)
    exact ⟨code, disk, listing, machine, text, words, h, hWrite, hRest⟩

theorem executes_run {output : Array Int32} (h : request.Executes world output) :
    ((run World.host request).run world).1 = .ok () ∧
      ((run World.host request).run world).2.output =
        world.output ++ request.report world.disk ++ outputText output := by
  have ⟨_, code, disk, _, _, _, _, hCode, hWrite, _⟩ := h
  obtain ⟨hRun, hOutput⟩ := (executes_iff hCode hWrite).mp h
  rw [run_of_written hCode hWrite, if_pos hRun, run_simulate_of_ok ⟨disk, world.input, _⟩ hOutput]
  exact ⟨rfl, rfl⟩

theorem output_of_not_executes (h : ∀ output, ¬ request.Executes world output) :
    ((run World.host request).run world).2.output = world.output ++ request.report world.disk := by
  cases hCode : request.code? world.disk with
  | none => exact output_of_none hCode
  | some code =>
    cases hWrite : world.disk.write request.codePath code with
    | error cause =>
      rw [run_of_unwritten hCode hWrite]
      rfl
    | ok disk =>
      rw [run_of_written hCode hWrite]
      by_cases hRun : request.has .run = true
      · rw [if_pos hRun]
        cases hOutput : simulation disk world.input request.codePath with
        | error failure => rw [run_simulate_of_error ⟨disk, world.input, _⟩ hOutput]
        | ok output => exact absurd ((executes_iff hCode hWrite).mpr ⟨hRun, hOutput⟩) (h output)
      · rw [if_neg hRun]

end

/-- The disk is as before, or a file was written. -/
theorem disk_cases (request : Request) (world : World) :
    ((run World.host request).run world).2.disk = world.disk ∨
      ∃ code, request.code? world.disk = some code ∧
        world.disk.write request.codePath code =
          .ok ((run World.host request).run world).2.disk := by
  cases hCode : request.code? world.disk with
  | none => exact .inl (disk_run_of_none hCode)
  | some code =>
    rw [disk_run_of_some hCode]
    cases hWrite : world.disk.write request.codePath code with
    | error cause => exact .inl (Disk.rewritten_of_error hWrite)
    | ok disk => exact .inr ⟨code, rfl, by rw [Disk.rewritten_of_ok hWrite, hWrite]⟩

/-- **The command writes at most one file, whole, and only after success.**  This is so for every
request and every system, whatever is on its disk and comes as its input.  In particular, the code
stays where it was written also if running it fails. -/
theorem run_delivers (request : Request) (world : World) :
    Delivers request world ((run World.host request).run world).1
      ((run World.host request).run world).2 where
  places := by
    intro place apart
    rcases disk_cases request world with hSame | ⟨code, -, hWrite⟩
    · rw [hSame]
    · exact Disk.node?_of_write_other hWrite apart
  paths := by
    intro path apart content
    rcases disk_cases request world with hSame | ⟨code, -, hWrite⟩
    · rw [hSame]
    · exact Disk.read_of_write_iff hWrite apart
  changed := by
    intro hChanged
    rcases disk_cases request world with hSame | ⟨code, hCode, hWrite⟩
    · exact absurd hSame hChanged
    · obtain ⟨compilation, session, sink, hCompiled, hNone, hStage, hSink, rfl⟩ :=
        Request.exists_of_code? hCode
      rw [stage_of_options] at hStage
      exact ⟨compilation, session, sink, hCompiled, hNone, hStage, hSink,
        Disk.read_of_write hWrite⟩
  written := by
    intro compilation session hCompiled hNone hStage
    have ⟨_, _, hResult⟩ := hCompiled
    rw [← stage_of_options] at hStage
    obtain ⟨code, hCode⟩ := (compile_code_iff hResult).mpr ⟨hNone, hStage⟩
    have hMade : request.code? world.disk = some code.written := by
      rw [Request.code?_of_compiled hCompiled, if_pos (Compilation.succeeded_iff.mpr hNone), hCode]
      rfl
    refine ⟨code, hCode, ?_⟩
    cases hWrite : world.disk.write request.codePath code.written with
    | error cause =>
      refine .inr ⟨cause, rfl, ?_⟩
      rw [run_of_unwritten hMade hWrite]
      exact ⟨rfl, rfl⟩
    | ok disk =>
      rw [disk_run_of_some hMade, Disk.rewritten_of_ok hWrite]
      exact .inl (Disk.read_of_write hWrite)
  fatal := by
    intro fault session hFatal
    rw [run_of_fatal hFatal]
    exact ⟨rfl, rfl⟩
  rejected := by
    intro compilation session hCompiled hSome
    rw [run_of_compiled hCompiled, if_neg (mt Compilation.succeeded_iff.mp hSome)]
    exact ⟨rfl, rfl⟩
  loud := fun _ => executes_run
  quiet := output_of_not_executes

end Command

end Tiny
