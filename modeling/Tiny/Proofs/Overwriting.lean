import Tiny.Command
import Tiny.Proofs.Extensions
import Tiny.Proofs.Preservation

/-!
# What the command does to its source

The command changes its disk in one way: if the compilation gives code, the code is written to the
code path.  Without an output path this is the path of the source with the extension `tm`, so the
source is kept unless it has that extension itself.

* `Command.Keeps`: work that leaves the disk as it is.
* `Command.disk_run`: the disk after the command.
* `Command.run_source`: so this is what happens to the source.
-/

namespace Tiny

/-! ### Code that is made -/

/-- The code that the command makes of its source, if it makes any. -/
def Request.code? (request : Request) (disk : Disk) : Option ByteArray :=
  match disk.openSource request.sourcePath with
  | .error _ => none
  | .ok feed =>
    match compile feed request.codePath (.ok {}) request.options {} with
    | .error _ _ => none
    | .ok compilation _ =>
      if compilation.succeeded then compilation.code.map Sink.written else none

theorem Request.code?_of_compile {request : Request} {disk : Disk} {feed : Feed} {code : Sink}
    {compilation : Compilation} {session : Session}
    (hFeed : disk.openSource request.sourcePath = .ok feed)
    (hCompile : compile feed request.codePath (.ok {}) request.options {} = .ok compilation session)
    (hDiagnostics : compilation.succeeded = true) (hCode : compilation.code = some code) :
    request.code? disk = some code.written := by
  unfold Request.code?
  simp only [hFeed, hCompile, if_pos hDiagnostics, hCode, Option.map_some]

/-- There is no code if reading fails at once. -/
theorem compile_failure (reason fileName : String) (codeSink : Except Fault Sink)
    (options : Options) :
    ∃ fault session,
      compile [.failure reason] fileName codeSink options {} = .error fault session := by
  unfold compile
  split
  · exact ⟨_, _, rfl⟩
  · exact ⟨_, _, rfl⟩

/-- Code is made of files only. -/
theorem Request.exists_read {request : Request} {disk : Disk} {code : ByteArray}
    (h : request.code? disk = some code) :
    ∃ content, disk.read request.sourcePath = .ok content := by
  unfold Request.code? Disk.openSource at h
  cases hFind : disk.find request.sourcePath with
  | error fault =>
    rw [hFind] at h
    cases h
  | ok node =>
    cases node with
    | file content => exact ⟨content, Disk.read_eq_find.mpr hFind⟩
    | directory =>
      obtain ⟨fault, session, hFault⟩ := compile_failure OsFault.isDirectory.message
        request.codePath (.ok {}) request.options
      rw [hFind] at h
      simp only [hFault] at h
      cases h

namespace Disk

/-- The disk after an attempt to write a file. -/
def rewritten (disk : Disk) (path : String) (content : ByteArray) : Disk :=
  (disk.write path content).toOption.getD disk

variable {disk disk' : Disk} {path : String} {content : ByteArray}

theorem rewritten_of_ok (h : disk.write path content = .ok disk') :
    disk.rewritten path content = disk' := by
  rw [rewritten, h]
  rfl

theorem rewritten_of_error {fault : OsFault} (h : disk.write path content = .error fault) :
    disk.rewritten path content = disk := by
  rw [rewritten, h]
  rfl

end Disk

/-! ### Steps of the command -/

namespace Command

section

variable {α β : Type} {x : ExceptT Failure (StateM World) α}
  {f : α → ExceptT Failure (StateM World) β} {world after : World}

theorem run_bind (x : ExceptT Failure (StateM World) α)
    (f : α → ExceptT Failure (StateM World) β) (world : World) :
    (x >>= f).run world =
      match x.run world with
      | (.ok a, after) => (f a).run after
      | (.error failure, after) => (.error failure, after) := by
  rw [ExceptT.run_bind]
  show StateT.bind x.run _ world = _
  rw [StateT.bind]
  cases x.run world with
  | mk outcome after => cases outcome <;> rfl

theorem run_bind_of_ok {a : α} (h : x.run world = (.ok a, after)) :
    (x >>= f).run world = (f a).run after := by
  rw [run_bind, h]

theorem run_bind_of_error {failure : Failure} (h : x.run world = (.error failure, after)) :
    (x >>= f).run world = (.error failure, after) := by
  rw [run_bind, h]

/-- A service of the system in the command. -/
theorem run_lift_bind {service : StateM World α} {a : α} (h : service world = (a, after)) :
    ((liftM service : ExceptT Failure (StateM World) α) >>= f).run world = (f a).run after := by
  refine run_bind_of_ok ?_
  show ((Except.ok (service world).1, (service world).2) : Except Failure α × World) = _
  rw [h]

/-- The work leaves the disk as it is. -/
def Keeps (work : ExceptT Failure (StateM World) α) : Prop :=
  ∀ world, (work.run world).2.disk = world.disk

theorem Keeps.bind (h : Keeps x) (hf : ∀ a, Keeps (f a)) : Keeps (x >>= f) := by
  intro world
  have hx := h world
  cases hRun : x.run world with
  | mk outcome after =>
    rw [hRun] at hx
    cases outcome with
    | error failure =>
      rw [run_bind_of_error hRun]
      exact hx
    | ok a =>
      rw [run_bind_of_ok hRun, hf a after]
      exact hx

theorem keeps_attempt (outcome : Except Failure α) : Keeps (attempt outcome) :=
  fun _ => rfl

end

theorem keeps_simulate (codePath : String) : Keeps (simulate World.host codePath) := by
  unfold simulate
  refine Keeps.bind (fun _ => rfl) fun file => ?_
  refine (keeps_attempt _).bind fun code => ?_
  refine (keeps_attempt _).bind fun listing => ?_
  refine (keeps_attempt _).bind fun machine => ?_
  refine Keeps.bind (fun _ => rfl) fun input => ?_
  refine (keeps_attempt _).bind fun text => ?_
  refine (keeps_attempt _).bind fun words => ?_
  refine (keeps_attempt _).bind fun output => ?_
  exact fun _ => rfl

theorem run_compileSource (request : Request) (feed : Feed) (world : World) :
    ∃ printed, (compileSource World.host request feed).run world =
      match compile feed request.codePath (.ok {}) request.options {} with
      | .error fault _ => (.error (.compilation fault), { world with output := printed })
      | .ok compilation _ => (.ok compilation, { world with output := printed }) := by
  unfold compileSource
  cases compile feed request.codePath (.ok {}) request.options {} with
  | error fault session => exact ⟨_, rfl⟩
  | ok compilation session => exact ⟨_, rfl⟩

theorem run_writeFile (path : String) (content : ByteArray) (world : World) :
    World.host.writeFile path content world =
      match world.disk.write path content with
      | .error fault => (.error fault, world)
      | .ok disk => (.ok (), { world with disk }) := by
  show (match world.disk.write path content with
      | .error fault => (pure (.error fault) : StateM World (Except OsFault Unit))
      | .ok disk => do
        set { world with disk }
        return .ok ()) world = _
  cases world.disk.write path content <;> rfl

/-- What the command does with code. -/
def deliver (request : Request) (code : ByteArray) : ExceptT Failure (StateM World) Unit := do
  let written ← World.host.writeFile request.codePath code
  attempt (written.mapError (.noCode request.codePath))
  if request.has .run then simulate World.host request.codePath else return ()

theorem disk_deliver (request : Request) (code : ByteArray) (world : World) :
    ((deliver request code).run world).2.disk = world.disk.rewritten request.codePath code := by
  have hWrite := run_writeFile request.codePath code world
  unfold deliver
  cases h : world.disk.write request.codePath code with
  | error fault =>
    rw [h] at hWrite
    rw [run_lift_bind hWrite, Disk.rewritten_of_error h]
    rfl
  | ok disk =>
    rw [h] at hWrite
    rw [run_lift_bind hWrite, Disk.rewritten_of_ok h]
    refine Keeps.bind (keeps_attempt _) (fun _ => ?_) { world with disk }
    split
    · exact keeps_simulate request.codePath
    · exact fun _ => rfl

/-- **The command changes its disk only where it writes code.** -/
theorem disk_run (request : Request) (world : World) :
    ((run World.host request).run world).2.disk =
      match request.code? world.disk with
      | none => world.disk
      | some code => world.disk.rewritten request.codePath code := by
  have hOpen : World.host.openSource request.sourcePath world =
      (world.disk.openSource request.sourcePath, world) := rfl
  unfold run Request.code?
  rw [run_lift_bind hOpen]
  cases world.disk.openSource request.sourcePath with
  | error cause => rfl
  | ok feed =>
    have hFeed : (attempt ((Except.ok feed).mapError (.noSource request.sourcePath)) :
        ExceptT Failure (StateM World) Feed).run world = (.ok feed, world) := rfl
    rw [run_bind_of_ok hFeed]
    obtain ⟨printed, hCompile⟩ := run_compileSource request feed world
    cases hResult : compile feed request.codePath (.ok {}) request.options {} with
    | error fault session =>
      rw [hResult] at hCompile
      rw [run_bind_of_error hCompile]
      simp only [hResult]
    | ok compilation session =>
      rw [hResult] at hCompile
      rw [run_bind_of_ok hCompile]
      simp only [hResult]
      split
      · cases hCode : compilation.code with
        | none => rfl
        | some code => exact disk_deliver request code.written _
      · rfl

/-! ### The source -/

section

variable {request : Request} {world : World} {code : ByteArray}

theorem disk_run_of_none (h : request.code? world.disk = none) :
    ((run World.host request).run world).2.disk = world.disk := by
  rw [disk_run, h]

theorem disk_run_of_some (h : request.code? world.disk = some code) :
    ((run World.host request).run world).2.disk = world.disk.rewritten request.codePath code := by
  rw [disk_run, h]

theorem codePath_beside (beside : request.output = none) :
    request.codePath = Path.withExtension request.sourcePath "tm" := by
  rw [Request.codePath, beside, Option.getD_none]

theorem slash_not_mem_tm : '/' ∉ "tm".toList := by decide

/-- A source without the extension of code is kept. -/
theorem read_run_of_other (beside : request.output = none)
    (other : Path.extension? request.sourcePath ≠ some "tm") :
    ((run World.host request).run world).2.disk.read request.sourcePath =
      world.disk.read request.sourcePath := by
  cases hCode : request.code? world.disk with
  | none => rw [disk_run_of_none hCode]
  | some code =>
    obtain ⟨content, hContent⟩ := Request.exists_read hCode
    rw [disk_run_of_some hCode, hContent]
    cases hWrite : world.disk.write request.codePath code with
    | error fault => rw [Disk.rewritten_of_error hWrite, hContent]
    | ok disk =>
      rw [Disk.rewritten_of_ok hWrite]
      rw [codePath_beside beside] at hWrite
      exact Disk.read_of_write_extension hContent slash_not_mem_tm other hWrite

/-- A source with that extension has the path of its code, or nothing is written. -/
theorem codePath_of_known (beside : request.output = none)
    (known : Path.extension? request.sourcePath = some "tm") :
    request.codePath = request.sourcePath ∨
      ((run World.host request).run world).2.disk = world.disk := by
  cases hCode : request.code? world.disk with
  | none => exact .inr (disk_run_of_none hCode)
  | some code =>
    obtain ⟨content, hContent⟩ := Request.exists_read hCode
    rw [disk_run_of_some hCode, codePath_beside beside]
    refine (Disk.withExtension_known hContent slash_not_mem_tm known).imp_right fun never => ?_
    cases hWrite : world.disk.write (Path.withExtension request.sourcePath "tm") code with
    | error fault => exact Disk.rewritten_of_error hWrite
    | ok disk => exact absurd hWrite (never code disk)

/-- A source with the path of its code is overwritten. -/
theorem read_run_of_same (same : request.codePath = request.sourcePath)
    (hCode : request.code? world.disk = some code) :
    ((run World.host request).run world).2.disk.read request.sourcePath = .ok code := by
  obtain ⟨content, hContent⟩ := Request.exists_read hCode
  obtain ⟨disk, hWrite⟩ := Disk.exists_write hContent code
  rw [disk_run_of_some hCode, same, Disk.rewritten_of_ok hWrite]
  exact Disk.read_of_write hWrite

end

/-- **What the command does to its source.**  Without an output path, a source is kept if its
extension is not `tm`, or if there is no code.  If its extension is `tm`, then its path is also that
of the code, and the code takes its place, or else nothing is written at all: the name `..tm` leaves
no path for the code. -/
theorem run_source {request : Request} (beside : request.output = none) (world : World) :
    let after := ((run World.host request).run world).2
    (Path.extension? request.sourcePath ≠ some "tm" →
      after.disk.read request.sourcePath = world.disk.read request.sourcePath) ∧
    (request.code? world.disk = none → after.disk = world.disk) ∧
    (Path.extension? request.sourcePath = some "tm" →
      request.codePath = request.sourcePath ∨ after.disk = world.disk) ∧
    (request.codePath = request.sourcePath → ∀ code, request.code? world.disk = some code →
      after.disk.read request.sourcePath = .ok code) :=
  ⟨read_run_of_other beside, disk_run_of_none, codePath_of_known beside,
    fun same _ => read_run_of_same same⟩

/-- The bytes of `write 1`. -/
def oneSource : ByteArray :=
  ⟨#[119, 114, 105, 116, 101, 32, 49]⟩

/-- The program in these bytes. -/
def oneTree : Program :=
  [.write (.constant 1 1 .unresolved) 1]

/-- A system with these bytes in one file. -/
def oneFile (name : String) : World :=
  { disk := ⟨[([name], .file oneSource)]⟩ }

/-- There is code for these bytes, and it is something else. -/
theorem exists_code {request : Request} {disk : Disk} (plain : request.options = {})
    (hFeed : disk.openSource request.sourcePath = .ok (.ofBytes oneSource.data.toList)) :
    ∃ code, request.code? disk = some code ∧ code ≠ oneSource := by
  obtain ⟨scanner, hParse⟩ : ∃ scanner, Scanner.program
      { feed := .ofBytes oneSource.data.toList, listing := {}, options := {} } =
        .ok (oneTree, #[]) scanner := ⟨_, by cbv⟩
  have covered : Program.Covered (Symbols.ofProgram oneTree) oneTree.check.1 := ⟨trivial, trivial⟩
  obtain ⟨entries, hGenerate, -⟩ := Code.generate_run covered (by decide)
    (show Sink.limit {} = none from rfl) false request.codePath
  obtain ⟨session, hCompile⟩ := @compile_of_stages _ _ _ _ {} _ _ hParse rfl hGenerate
  rw [← plain] at hCompile
  refine ⟨_, Request.code?_of_compile hFeed hCompile rfl rfl, fun hSame => ?_⟩
  -- the code has more lines than the source
  have hCount := (Code.count_generate (fun on => absurd on (by decide)) hGenerate).2
  have hLines : Listing.count (Text.decode oneSource) = 1 := by cbv
  rw [Sink.text, hSame, hLines] at hCount
  exact absurd hCount (by decide)

/-- For a source `a.tny` there is a file `a.tm` afterwards, and the source is kept. -/
theorem run_source_tny :
    let after := ((run World.host { path := "a" }).run (oneFile "a.tny")).2
    Path.extension? (Request.sourcePath { path := "a" }) ≠ some "tm" ∧
      after.disk.read "a.tny" = .ok oneSource ∧ ∃ code, after.disk.read "a.tm" = .ok code := by
  have hPath : Request.sourcePath { path := "a" } = "a.tny" := by decide
  have hCodePath : Request.codePath { path := "a" } = "a.tm" := by decide
  have other : Path.extension? (Request.sourcePath { path := "a" }) ≠ some "tm" := by decide
  have hRead : (oneFile "a.tny").disk.read "a.tny" = .ok oneSource := by cbv
  have hFeed : (oneFile "a.tny").disk.openSource (Request.sourcePath { path := "a" }) =
      .ok (.ofBytes oneSource.data.toList) := by
    rw [hPath]
    cbv
  obtain ⟨code, hCode, -⟩ := exists_code rfl hFeed
  have hKept := (@run_source { path := "a" } rfl (oneFile "a.tny")).1 other
  rw [hPath, hRead] at hKept
  refine ⟨other, hKept, code, ?_⟩
  obtain ⟨disk, hWrite⟩ : ∃ disk, (oneFile "a.tny").disk.write "a.tm" code = .ok disk :=
    ⟨_, by cbv⟩
  rw [disk_run_of_some hCode, hCodePath, Disk.rewritten_of_ok hWrite]
  exact Disk.read_of_write hWrite

/-- A source `a.tm` is overwritten by its code. -/
theorem run_overwrites :
    ∃ code, (oneFile "a.tm").disk.read "a.tm" = .ok oneSource ∧
      ((run World.host { path := "a.tm" }).run (oneFile "a.tm")).2.disk.read "a.tm" = .ok code ∧
      code ≠ oneSource := by
  have hPath : Request.sourcePath { path := "a.tm" } = "a.tm" := by decide
  have hCodePath : Request.codePath { path := "a.tm" } = "a.tm" := by decide
  have hFeed : (oneFile "a.tm").disk.openSource (Request.sourcePath { path := "a.tm" }) =
      .ok (.ofBytes oneSource.data.toList) := by
    rw [hPath]
    cbv
  obtain ⟨code, hCode, hNe⟩ := exists_code rfl hFeed
  have hRead := read_run_of_same (hCodePath.trans hPath.symm) hCode
  rw [hPath] at hRead
  exact ⟨code, by cbv, hRead, hNe⟩

end Command

end Tiny
