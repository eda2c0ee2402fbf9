import Tiny.Command.Path
import Tiny.Proofs.Places

/-!
# Paths with other extensions

A path that leads to a file is a name behind a text that is empty or ends with a slash.  With
another extension it leads to the same directory, and to another name unless it had that extension
before.  One case is special: from the name `..x` two dots remain, which are no name at all.

* `Path.withExtension_of_none`, `Path.withExtension_of_some`: the path with an extension.
* `Disk.read_of_write_extension`: a file beside another one leaves it as it is.
* `Disk.withExtension_known`: what happens if the file has the extension already.
-/

namespace Tiny

namespace Path

/-! ### Names behind directories -/

/-- Text that ends where a name starts: it is empty or ends with a slash. -/
def Slashed (text : List Char) : Prop :=
  text = [] ∨ ∃ front, text = front ++ ['/']

theorem exists_slashed (path : List Char) :
    ∃ directory name, path = directory ++ name ∧ Slashed directory ∧ '/' ∉ name := by
  induction path with
  | nil => exact ⟨[], [], rfl, .inl rfl, nofun⟩
  | cons c rest ih =>
    obtain ⟨directory, name, rfl, rfl | ⟨front, rfl⟩, hName⟩ := ih
    · by_cases hSlash : c = '/'
      · exact ⟨[c], name, rfl, .inr ⟨[], by rw [hSlash]; rfl⟩, hName⟩
      · exact ⟨[], c :: name, rfl, .inl rfl, by simp [Ne.symm hSlash, hName]⟩
    · exact ⟨c :: (front ++ ['/']), name, rfl, .inr ⟨c :: front, rfl⟩, hName⟩

theorem componentsFrom_append (front back name : List Char) :
    Disk.componentsFrom name (front ++ '/' :: back) =
      Disk.componentsFrom name front ++ Disk.componentsFrom [] back := by
  induction front generalizing name with
  | nil => simp [Disk.componentsFrom]
  | cons c front ih =>
    rw [List.cons_append, Disk.componentsFrom, Disk.componentsFrom, ih, ih]
    split <;> rfl

theorem componentsFrom_name {back : List Char} (h : '/' ∉ back) (name : List Char) :
    Disk.componentsFrom name back = [String.ofList (name.reverse ++ back)] := by
  induction back generalizing name with
  | nil =>
    rw [List.append_nil]
    rfl
  | cons c back ih =>
    have hFirst : c ≠ '/' := fun hSlash => h (hSlash ▸ List.mem_cons_self)
    have hBack : '/' ∉ back := fun member => h (List.mem_cons_of_mem _ member)
    rw [Disk.componentsFrom, if_neg hFirst, ih hBack, List.reverse_cons, List.append_assoc]
    rfl

/-- The paths of a directory start at the same place and go along the same names. -/
theorem exists_way {directory : List Char} (slashed : Slashed directory) :
    ∃ place names, ∀ name, '/' ∉ name →
      Disk.start (String.ofList (directory ++ name)) = place ∧
      Disk.components (String.ofList (directory ++ name)) = names ++ [String.ofList name] := by
  rcases slashed with rfl | ⟨front, rfl⟩
  · refine ⟨[], [], fun name hName => ⟨?_, ?_⟩⟩
    · have hHead : (String.ofList name).toList.head? ≠ some '/' := by
        rw [String.toList_ofList]
        exact fun hHead => hName (List.mem_of_head? hHead)
      exact if_neg hHead
    · rw [Disk.components, String.toList_ofList]
      exact componentsFrom_name hName []
  · refine ⟨Disk.start (String.ofList (front ++ ['/'])), Disk.componentsFrom [] front,
      fun name hName => ⟨?_, ?_⟩⟩
    · unfold Disk.start
      rw [String.toList_ofList, String.toList_ofList]
      simp
    · rw [Disk.components, String.toList_ofList, List.append_assoc, List.singleton_append,
        componentsFrom_append, componentsFrom_name hName]
      rfl

/-! ### Splitting paths -/

section

variable {directory name stem : List Char}

theorem dropTail_of_name {name rest : List Char} (h : '/' ∉ name) (hNil : name ≠ [])
    (hDot : name ≠ ['.']) : dropTail (name ++ rest) = name ++ rest := by
  obtain ⟨first, more, rfl⟩ := List.exists_cons_of_ne_nil hNil
  rw [List.cons_append]
  unfold dropTail
  split
  · next hSplit =>
    obtain ⟨rfl, -⟩ := List.cons.inj hSplit
    exact absurd List.mem_cons_self h
  · next hSplit =>
    obtain ⟨rfl, hMore⟩ := List.cons.inj hSplit
    cases more with
    | nil => exact absurd rfl hDot
    | cons second more =>
      obtain ⟨rfl, -⟩ := List.cons.inj hMore
      exact absurd (List.mem_cons_of_mem _ List.mem_cons_self) h
  · rfl

theorem span_name (slashed : Slashed directory) (h : '/' ∉ name) :
    (name.reverse ++ directory.reverse).span (· ≠ '/') = (name.reverse, directory.reverse) := by
  have hName : ∀ c ∈ name.reverse, decide (c ≠ '/') = true := by
    intro c member
    refine decide_eq_true ?_
    rintro rfl
    exact h (List.mem_reverse.mp member)
  rw [List.span_eq_takeWhile_dropWhile, List.takeWhile_append_of_pos hName,
    List.dropWhile_append_of_pos hName]
  rcases slashed with rfl | ⟨front, rfl⟩ <;> simp

theorem split?_of_name (slashed : Slashed directory) (h : '/' ∉ name) (hNil : name ≠ [])
    (hDot : name ≠ ['.']) :
    split? (String.ofList (directory ++ name)) =
      if name = ['.', '.'] then none else some (directory, name) := by
  have hDrop : dropTail (directory ++ name).reverse = name.reverse ++ directory.reverse := by
    rw [List.reverse_append]
    refine dropTail_of_name (by simpa using h) (by simpa using hNil) fun hSame => hDot ?_
    rw [← List.reverse_reverse name, hSame]
    rfl
  unfold split?
  rw [String.toList_ofList, hDrop, span_name slashed h]
  simp [List.reverse_eq_iff, hNil, hDot]

theorem eq_of_splitName? {extension : List Char} (h : splitName? name = some (stem, extension)) :
    name = stem ++ '.' :: extension ∧ stem ≠ [] := by
  unfold splitName? at h
  split at h
  · next taken rest hSpan =>
    split at h
    · cases h
    · next hRest =>
      obtain ⟨rfl, rfl⟩ := Prod.mk.inj (Option.some.inj h)
      rw [List.span_eq_takeWhile_dropWhile] at hSpan
      obtain ⟨hTaken, hDropped⟩ := Prod.mk.inj hSpan
      have hName := List.takeWhile_append_dropWhile (p := (· ≠ '.')) (l := name.reverse)
      rw [hTaken, hDropped] at hName
      refine ⟨?_, by simpa using hRest⟩
      rw [← List.reverse_reverse name, ← hName]
      simp
  · cases h

theorem splitName?_dot (h : stem ≠ []) : splitName? (stem ++ ['.']) = some (stem, []) := by
  simp [splitName?, h]

end

/-! ### Setting extensions -/

/-- The characters of a name that a file can have. -/
structure Named (name : List Char) : Prop where
  noSlash : '/' ∉ name
  notEmpty : name ≠ []
  notDot : name ≠ ['.']
  notDots : name ≠ ['.', '.']

theorem named_of_proper {name : List Char} (h : '/' ∉ name)
    (proper : Disk.Proper (String.ofList name)) : Named name := by
  refine ⟨h, ?_, ?_, ?_⟩
  · rintro rfl
    exact proper.1 rfl
  · rintro rfl
    exact proper.2.1 rfl
  · rintro rfl
    exact proper.2.2 rfl

section

variable {directory name stem old : List Char}

theorem extension?_of_name (slashed : Slashed directory) (named : Named name) :
    extension? (String.ofList (directory ++ name)) =
      (splitName? name).map fun parts => String.ofList parts.2 := by
  rw [extension?, split?_of_name slashed named.noSlash named.notEmpty named.notDot,
    if_neg named.notDots, Option.bind_eq_bind, Option.bind_some]
  show (splitName? name).bind _ = _
  cases splitName? name <;> rfl

theorem setExtension_of_name (slashed : Slashed directory) (h : '/' ∉ name) (hNil : name ≠ [])
    (hDot : name ≠ ['.']) (extension : String) :
    setExtension (String.ofList (directory ++ name)) extension =
      String.ofList (directory ++
        if name = ['.', '.'] then name else Path.stem name ++ '.' :: extension.toList) := by
  rw [setExtension, split?_of_name slashed h hNil hDot]
  split
  · next hSplit =>
    split at hSplit
    · next hDots => rw [if_pos hDots]
    · cases hSplit
  · next hSplit =>
    split at hSplit
    · cases hSplit
    · next hDots =>
      obtain ⟨rfl, rfl⟩ := Prod.mk.inj (Option.some.inj hSplit)
      rw [if_neg hDots]
      refine String.toList_inj.mp ?_
      simp

theorem withExtension_of_none (slashed : Slashed directory) (named : Named name)
    (h : splitName? name = none) (extension : String) :
    withExtension (String.ofList (directory ++ name)) extension =
      String.ofList (directory ++ (name ++ '.' :: extension.toList)) := by
  rw [withExtension, extension?_of_name slashed named, h, Option.map_none]
  refine (setExtension_of_name slashed named.noSlash named.notEmpty named.notDot extension).trans ?_
  rw [if_neg named.notDots, Path.stem, h]

theorem withExtension_of_some (slashed : Slashed directory) (named : Named name)
    (h : splitName? name = some (stem, old)) (extension : String) :
    withExtension (String.ofList (directory ++ name)) extension =
      String.ofList (directory ++
        if stem = ['.'] then ['.', '.'] else stem ++ '.' :: extension.toList) := by
  obtain ⟨rfl, hStem⟩ := eq_of_splitName? h
  have hCut : cutEnd (String.ofList (directory ++ (stem ++ '.' :: old)))
      (String.ofList old).length = String.ofList (directory ++ (stem ++ ['.'])) := by
    have hSplit : directory ++ (stem ++ '.' :: old) = directory ++ (stem ++ ['.']) ++ old := by simp
    rw [cutEnd, String.toList_ofList, hSplit, String.length_ofList, List.length_append,
      Nat.add_sub_cancel, List.take_left]
  have hSlash : '/' ∉ stem ++ ['.'] := by
    have := named.noSlash
    simp_all
  have hDot : stem ++ ['.'] ≠ ['.'] := by simpa using hStem
  rw [withExtension, extension?_of_name slashed named, h, Option.map_some]
  refine (congrArg (setExtension · extension) hCut).trans ?_
  rw [setExtension_of_name slashed hSlash (by simp) hDot, Path.stem, splitName?_dot hStem]
  by_cases hOne : stem = ['.']
  · rw [hOne]
    rfl
  · have hDots : stem ++ ['.'] ≠ ['.'] ++ ['.'] := fun hDots =>
      hOne (List.append_cancel_right hDots)
    exact congrArg (fun name => String.ofList (directory ++ name))
      ((if_neg hDots).trans (if_neg hOne).symm)

/-- **A path with another extension names something beside the file**: the same name exactly if it
had that extension, or two dots. -/
theorem withExtension_beside (slashed : Slashed directory) (named : Named name)
    {extension : String} (hExtension : '/' ∉ extension.toList) :
    ∃ name', '/' ∉ name' ∧
      withExtension (String.ofList (directory ++ name)) extension =
        String.ofList (directory ++ name') ∧
      (name' = ['.', '.'] ∨
        (name' = name ↔
          extension? (String.ofList (directory ++ name)) = some extension)) := by
  rw [extension?_of_name slashed named]
  cases h : splitName? name with
  | none =>
    refine ⟨_, ?_, withExtension_of_none slashed named h extension, .inr ?_⟩
    · simp [named.noSlash, hExtension]
    · simp
  | some parts =>
    obtain ⟨stem, old⟩ := parts
    obtain ⟨rfl, -⟩ := eq_of_splitName? h
    refine ⟨_, ?_, withExtension_of_some slashed named h extension, ?_⟩
    · have := named.noSlash
      split <;> simp_all
    · by_cases hOne : stem = ['.']
      · exact .inl (if_pos hOne)
      · right
        rw [if_neg hOne, Option.map_some, Option.some.injEq, ← String.toList_inj,
          String.toList_ofList, List.append_cancel_left_eq, List.cons.injEq]
        exact ⟨fun hSame => hSame.2.symm, fun hSame => ⟨rfl, hSame.symm⟩⟩

end

end Path

/-! ### Files beside each other -/

namespace Disk

variable {disk disk' : Disk} {path extension : String} {content code : ByteArray}

/-- **A path to a file leads to the same directory with another extension**, and to the same name
exactly if it had that extension.  A path that had it stays as it is, or leads nowhere. -/
theorem Leads.beside {directory : Place} {name : String} (leads : disk.Leads path directory name)
    (hExtension : '/' ∉ extension.toList) :
    (∀ directory' name', disk.Leads (Path.withExtension path extension) directory' name' →
      directory' = directory ∧ (name' = name ↔ Path.extension? path = some extension)) ∧
    (Path.extension? path = some extension → Path.withExtension path extension = path ∨
      ∀ directory' name', ¬disk.Leads (Path.withExtension path extension) directory' name') := by
  obtain ⟨text, chars, hPath, slashed, hChars⟩ := Path.exists_slashed path.toList
  obtain rfl : path = String.ofList (text ++ chars) := by rw [← hPath, String.ofList_toList]
  obtain ⟨place, names, hWay⟩ := Path.exists_way slashed
  -- where the paths of this directory lead
  have hLeads : ∀ {chars' directory' name'}, '/' ∉ chars' →
      disk.Leads (String.ofList (text ++ chars')) directory' name' →
        disk.follow place names = .ok directory' ∧ name' = String.ofList chars' := by
    intro chars' directory' name' hChars' leads'
    obtain ⟨hStart, hComponents⟩ := hWay chars' hChars'
    obtain ⟨names', hNames', hAlong⟩ := leads'.along
    obtain ⟨rfl, hName⟩ := List.append_inj' (hNames'.symm.trans hComponents) rfl
    rw [hStart] at hAlong
    exact ⟨hAlong, List.head_eq_of_cons_eq hName⟩
  obtain ⟨hAlong, rfl⟩ := hLeads hChars leads
  obtain ⟨chars', hChars', hWith, hCases⟩ :=
    Path.withExtension_beside slashed (Path.named_of_proper hChars leads.proper) hExtension
  rw [hWith]
  constructor
  · intro directory' name' leads'
    obtain ⟨hAlong', rfl⟩ := hLeads hChars' leads'
    refine ⟨Except.ok.inj (hAlong'.symm.trans hAlong), ?_⟩
    rcases hCases with rfl | hSame
    · exact absurd rfl leads'.proper.2.2
    · rw [String.ofList_inj, hSame]
  · intro known
    rcases hCases with rfl | hSame
    · refine .inr fun directory' name' leads' => ?_
      obtain ⟨-, rfl⟩ := hLeads hChars' leads'
      exact leads'.proper.2.2 rfl
    · exact .inl (by rw [hSame.mpr known])

/-- **A file is kept when one with another extension is written beside it.** -/
theorem read_of_write_extension (h : disk.read path = .ok content)
    (hExtension : '/' ∉ extension.toList) (other : Path.extension? path ≠ some extension)
    (hWrite : disk.write (Path.withExtension path extension) code = .ok disk') :
    disk'.read path = .ok content := by
  refine read_of_write_other hWrite h fun {place place' name name'} leads leads' hSame => ?_
  obtain ⟨-, hName⟩ := List.append_inj' hSame rfl
  exact other (((leads'.beside hExtension).1 place name leads).2.mp
    (List.head_eq_of_cons_eq hName).symm)

/-- A file that has the extension already has the same path with it, or that path cannot be
written. -/
theorem withExtension_known (h : disk.read path = .ok content)
    (hExtension : '/' ∉ extension.toList) (known : Path.extension? path = some extension) :
    Path.withExtension path extension = path ∨
      ∀ code disk', disk.write (Path.withExtension path extension) code ≠ .ok disk' := by
  obtain ⟨directory, name, leads, -⟩ := read_eq_ok.mp h
  refine ((leads.beside hExtension).2 known).imp_right fun nowhere code disk' hWrite => ?_
  obtain ⟨directory', name', leads', -⟩ := write_eq_ok.mp hWrite
  exact nowhere directory' name' leads'

end Disk

end Tiny
