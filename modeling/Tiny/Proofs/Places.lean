import Mathlib.Data.List.TakeDrop
import Tiny.Command.Disk

/-!
# Places of files

A path that can be read or written as a file goes along directories to one of them and names
something in it.  So the files of two paths are told apart by the directory and the name.

* `Disk.Leads`: a path leads to a name in a directory.
* `Disk.read_eq_ok`, `Disk.write_eq_ok`: reading and writing in terms of where a path leads.
* `Disk.Leads.put`: a new file does not change where paths lead.
* `Disk.read_of_write`, `Disk.read_of_write_iff`: what is read after a file was written.
-/

namespace Tiny

namespace Disk

/-! ### Nodes -/

theorem lookup_filter_ne {place other : Place} (h : other ≠ place)
    (entries : List (Place × Node)) :
    (entries.filter fun entry => entry.1 ≠ place).lookup other = entries.lookup other := by
  induction entries with
  | nil => rfl
  | cons entry rest ih =>
    obtain ⟨key, node⟩ := entry
    by_cases hKey : key = place
    · have hOther : (other == key) = false := beq_eq_false_iff_ne.mpr (hKey ▸ h)
      rw [List.filter_cons_of_neg (by simp [hKey]), ih, List.lookup_cons, hOther]
    · rw [List.filter_cons_of_pos (by simp [hKey]), List.lookup_cons, List.lookup_cons, ih]

theorem node?_put_of_ne (disk : Disk) {place other : Place} (h : other ≠ place) (node : Node) :
    (disk.put place node).node? other = disk.node? other := by
  have hOther : (other == place) = false := beq_eq_false_iff_ne.mpr h
  unfold node? put
  rw [List.lookup_cons, hOther, lookup_filter_ne h]

theorem node?_put_self {disk : Disk} {place : Place} (h : disk.node? place ≠ some .directory)
    (node : Node) : (disk.put place node).node? place = some node := by
  have around : isAround place ≠ true := fun hAround => h (if_pos hAround)
  rw [node?, if_neg around, put, List.lookup_cons, BEq.rfl]

theorem node?_of_up {place : Place} (h : place.all (· = "..") = true) (disk : Disk) :
    disk.node? place = some .directory := by
  refine if_pos ?_
  rw [isAround, h, Bool.or_true]

/-! ### Steps -/

/-- A name that a file can have. -/
def Proper (name : String) : Prop :=
  name ≠ "" ∧ name ≠ "." ∧ name ≠ ".."

section

variable {disk : Disk} {place child : Place} {name : String} {names : List String}

theorem node?_of_childOf (h : disk.childOf place name = .ok child) :
    disk.node? place = some .directory := by
  unfold childOf at h
  split at h
  · cases h
  · cases h
  · assumption

theorem childOf_of_directory (h : disk.node? place = some .directory) (name : String) :
    disk.childOf place name =
      if name = "" ∨ name = "." then .ok place
      else if name = ".." then .ok (parent place)
      else if maxName < name.utf8ByteSize then .error .nameTooLong
      else .ok (place ++ [name]) := by
  unfold childOf
  rw [h]

theorem childOf_proper (proper : Proper name) :
    disk.childOf place name = .ok child ↔
      disk.node? place = some .directory ∧ name.utf8ByteSize ≤ maxName ∧
        child = place ++ [name] := by
  constructor
  · intro h
    have hPlace := node?_of_childOf h
    rw [childOf_of_directory hPlace, if_neg (by simp [proper.1, proper.2.1]),
      if_neg proper.2.2] at h
    split at h
    · cases h
    · next hLength => exact ⟨hPlace, Nat.le_of_not_lt hLength, (Except.ok.inj h).symm⟩
  · rintro ⟨hPlace, hLength, rfl⟩
    rw [childOf_of_directory hPlace, if_neg (by simp [proper.1, proper.2.1]),
      if_neg proper.2.2, if_neg (Nat.not_lt.mpr hLength)]

/-- All places around a place are directories. -/
def Rooted (disk : Disk) (place : Place) : Prop :=
  ∀ front, front <+: place → front ≠ place → disk.node? front = some .directory

theorem rooted_of_up (h : place.all (· = "..") = true) (disk : Disk) : disk.Rooted place := by
  intro front hFront _
  refine node?_of_up (List.all_eq_true.mpr fun name member => ?_) disk
  exact List.all_eq_true.mp h name (hFront.subset member)

theorem rooted_start (disk : Disk) (path : String) : disk.Rooted (start path) := by
  unfold start
  split
  · intro front hFront hNe
    rcases List.prefix_concat_iff.mp (show front <+: [] ++ ["/"] from hFront) with hAll | hNil
    · exact absurd hAll hNe
    · rw [List.prefix_nil.mp hNil]
      exact node?_of_up rfl disk
  · exact rooted_of_up rfl disk

theorem Rooted.concat (rooted : disk.Rooted place) (h : disk.node? place = some .directory)
    (name : String) : disk.Rooted (place ++ [name]) := by
  intro front hFront hNe
  rcases List.prefix_concat_iff.mp hFront with hAll | hFront
  · exact absurd hAll hNe
  · by_cases hSame : front = place
    · rw [hSame]
      exact h
    · exact rooted front hFront hSame

theorem Rooted.parent (rooted : disk.Rooted place) (h : disk.node? place = some .directory) :
    disk.Rooted (parent place) ∧ disk.node? (Disk.parent place) = some .directory := by
  unfold Disk.parent
  split
  · exact ⟨rooted, h⟩
  · split
    · next hUp =>
      have hAll : (place ++ [".."]).all (· = "..") = true := by
        rw [List.all_append, hUp]
        rfl
      exact ⟨rooted_of_up hAll disk, node?_of_up hAll disk⟩
    · next hUp =>
      have hNil : place ≠ [] := fun hNil => hUp (by rw [hNil]; rfl)
      have hLess : place.dropLast.length < place.length := by
        rw [List.length_dropLast]
        exact Nat.sub_one_lt (Nat.ne_of_gt (List.length_pos_iff.mpr hNil))
      refine ⟨fun front hFront _ => ?_, rooted _ (List.dropLast_prefix place) ?_⟩
      · refine rooted front (hFront.trans (List.dropLast_prefix place)) ?_
        rintro rfl
        exact Nat.not_lt.mpr hFront.length_le hLess
      · intro hSame
        rw [hSame] at hLess
        exact Nat.lt_irrefl _ hLess

theorem Rooted.childOf (rooted : disk.Rooted place) (h : disk.childOf place name = .ok child) :
    disk.Rooted child := by
  have hPlace := node?_of_childOf h
  rw [childOf_of_directory hPlace] at h
  split at h
  · obtain rfl := Except.ok.inj h
    exact rooted
  · split at h
    · obtain rfl := Except.ok.inj h
      exact (rooted.parent hPlace).1
    · split at h
      · cases h
      · obtain rfl := Except.ok.inj h
        exact rooted.concat hPlace name

/-- A file is reached by a name of its own. -/
theorem Rooted.proper (rooted : disk.Rooted place) (h : disk.childOf place name = .ok child)
    (hChild : disk.node? child ≠ some .directory) : Proper name := by
  have hPlace := node?_of_childOf h
  rw [childOf_of_directory hPlace] at h
  split at h
  · obtain rfl := Except.ok.inj h
    exact absurd hPlace hChild
  · next hStay =>
    split at h
    · obtain rfl := Except.ok.inj h
      exact absurd (rooted.parent hPlace).2 hChild
    · next hUp =>
      rw [not_or] at hStay
      exact ⟨hStay.1, hStay.2, hUp⟩

theorem follow_cons :
    disk.follow place (name :: names) = .ok child ↔
      ∃ next, disk.childOf place name = .ok next ∧ (disk.node? next).isSome ∧
        disk.follow next names = .ok child := by
  rw [follow]
  constructor
  · intro h
    split at h
    · cases h
    · next next hNext =>
      split at h
      · cases h
      · next hNode => exact ⟨next, hNext, Option.isSome_of_eq_some hNode, h⟩
  · rintro ⟨next, hNext, hNode, h⟩
    obtain ⟨node, hNode⟩ := Option.isSome_iff_exists.mp hNode
    simp only [hNext, hNode]
    exact h

theorem follow_concat :
    disk.follow place (names ++ [name]) = .ok child ↔
      ∃ directory, disk.follow place names = .ok directory ∧
        disk.childOf directory name = .ok child ∧ (disk.node? child).isSome := by
  induction names generalizing place with
  | nil =>
    rw [List.nil_append, follow_cons]
    constructor
    · rintro ⟨next, hNext, hNode, h⟩
      obtain rfl := Except.ok.inj h
      exact ⟨place, rfl, hNext, hNode⟩
    · rintro ⟨directory, h, hNext, hNode⟩
      obtain rfl := Except.ok.inj h
      exact ⟨child, hNext, hNode, rfl⟩
  | cons first rest ih =>
    rw [List.cons_append, follow_cons]
    constructor
    · rintro ⟨next, hNext, hNode, h⟩
      obtain ⟨directory, hRest, hLast⟩ := ih.mp h
      exact ⟨directory, follow_cons.mpr ⟨next, hNext, hNode, hRest⟩, hLast⟩
    · rintro ⟨directory, h, hLast⟩
      obtain ⟨next, hNext, hNode, hRest⟩ := follow_cons.mp h
      exact ⟨next, hNext, hNode, ih.mpr ⟨directory, hRest, hLast⟩⟩

theorem Rooted.follow (rooted : disk.Rooted place) (h : disk.follow place names = .ok child) :
    disk.Rooted child := by
  induction names generalizing place with
  | nil =>
    obtain rfl := Except.ok.inj h
    exact rooted
  | cons first rest ih =>
    obtain ⟨next, hNext, -, hRest⟩ := follow_cons.mp h
    exact ih (rooted.childOf hNext) hRest

/-- A way along directories is kept as long as these are. -/
theorem follow_of_directories {disk' : Disk}
    (kept : ∀ {other}, disk.node? other = some .directory → disk'.node? other = some .directory)
    (h : disk.follow place names = .ok child) (hChild : disk.node? child = some .directory) :
    disk'.follow place names = .ok child := by
  induction names generalizing place with
  | nil => exact h
  | cons first rest ih =>
    obtain ⟨next, hNext, -, hRest⟩ := follow_cons.mp h
    -- the next place is a directory, for the way goes on there or ends there
    have hDirectory : disk.node? next = some .directory := by
      cases rest with
      | nil =>
        obtain rfl := Except.ok.inj hRest
        exact hChild
      | cons second rest =>
        obtain ⟨_, hSecond, -⟩ := follow_cons.mp hRest
        exact node?_of_childOf hSecond
    refine follow_cons.mpr ⟨next, ?_, Option.isSome_of_eq_some (kept hDirectory), ih hRest⟩
    have hPlace := node?_of_childOf hNext
    rw [childOf_of_directory (kept hPlace), ← childOf_of_directory hPlace]
    exact hNext

end

/-! ### Where paths lead -/

/-- A path leads to a name in a directory.  Whether there is something of that name is left open. -/
structure Leads (disk : Disk) (path : String) (directory : Place) (name : String) : Prop where
  checked : checkPath path = .ok ()
  along : ∃ names, components path = names ++ [name] ∧
    disk.follow (start path) names = .ok directory
  inside : disk.node? directory = some .directory
  proper : Proper name
  fits : name.utf8ByteSize ≤ maxName

section

variable {disk disk' : Disk} {path name : String} {directory place : Place} {content : ByteArray}

theorem Leads.childOf (h : disk.Leads path directory name) :
    disk.childOf directory name = .ok (directory ++ [name]) :=
  (childOf_proper h.proper).mpr ⟨h.inside, h.fits, rfl⟩

theorem Leads.of_directories (h : disk.Leads path directory name)
    (kept : ∀ {other}, disk.node? other = some .directory → disk'.node? other = some .directory) :
    disk'.Leads path directory name := by
  obtain ⟨names, hNames, hFollow⟩ := h.along
  exact ⟨h.checked, ⟨names, hNames, follow_of_directories kept hFollow h.inside⟩, kept h.inside,
    h.proper, h.fits⟩

/-- **Where paths lead does not depend on files.** -/
theorem Leads.put (h : disk.Leads path directory name)
    (hPlace : disk.node? place ≠ some .directory) (node : Node) :
    (disk.put place node).Leads path directory name := by
  refine h.of_directories fun {other} hOther => ?_
  have hNe : other ≠ place := by
    rintro rfl
    exact hPlace hOther
  rw [node?_put_of_ne disk hNe, hOther]

/-- A new file leads nowhere. -/
theorem Leads.of_put (hPlace : disk.node? place ≠ some .directory)
    (h : (disk.put place (.file content)).Leads path directory name) :
    disk.Leads path directory name := by
  refine h.of_directories fun {other} hOther => ?_
  by_cases hSame : other = place
  · rw [hSame, node?_put_self hPlace] at hOther
    exact nomatch hOther
  · rw [node?_put_of_ne disk hSame] at hOther
    exact hOther

theorem components_ne_nil (path : String) : components path ≠ [] := by
  have hFrom : ∀ (chars name : List Char), componentsFrom name chars ≠ [] := by
    intro chars
    induction chars with
    | nil => exact fun _ => List.cons_ne_nil _ _
    | cons c rest ih =>
      intro name
      rw [componentsFrom]
      split
      · exact List.cons_ne_nil _ _
      · exact ih _
  exact hFrom _ _

theorem exists_last (path : String) : ∃ names name, components path = names ++ [name] :=
  ⟨_, _, (List.dropLast_concat_getLast (components_ne_nil path)).symm⟩

/-- Peels the first step off a computation that ends well. -/
theorem except_bind_eq_ok {ε α β : Type} {x : Except ε α} {f : α → Except ε β} {b : β}
    (h : (x >>= f) = .ok b) : ∃ a, x = .ok a ∧ f a = .ok b := by
  cases x with
  | error fault => cases h
  | ok a => exact ⟨a, rfl, h⟩

theorem find_eq_ok {node : Node} :
    disk.find path = .ok node ↔ checkPath path = .ok () ∧
      ∃ place, disk.follow (start path) (components path) = .ok place ∧
        disk.node? place = some node := by
  unfold find
  cases hCheck : checkPath path with
  | error fault => exact iff_of_false nofun (fun h => nomatch h.1)
  | ok done =>
    cases hFollow : disk.follow (start path) (components path) with
    | error fault => exact iff_of_false nofun (fun h => nomatch h.2)
    | ok place =>
      cases hNode : disk.node? place with
      | none => simp [bind, Except.bind, hNode, throw, throwThe, MonadExceptOf.throw]
      | some found => simp [bind, Except.bind, hNode, pure, Except.pure]

theorem read_eq_find : disk.read path = .ok content ↔ disk.find path = .ok (.file content) := by
  unfold read
  split
  · next hFind => simp [hFind]
  · next hFind => simp [hFind]
  · next hFind => simp [hFind]

/-- **A file is read where its path leads.** -/
theorem read_eq_ok :
    disk.read path = .ok content ↔
      ∃ directory name, disk.Leads path directory name ∧
        disk.node? (directory ++ [name]) = some (.file content) := by
  obtain ⟨names, name, hNames⟩ := exists_last path
  rw [read_eq_find, find_eq_ok, hNames]
  constructor
  · rintro ⟨checked, place, hFollow, hNode⟩
    obtain ⟨directory, hAlong, hChild, -⟩ := follow_concat.mp hFollow
    have rooted := (rooted_start disk path).follow hAlong
    have proper := rooted.proper hChild (by simp [hNode])
    obtain ⟨inside, fits, rfl⟩ := (childOf_proper proper).mp hChild
    exact ⟨directory, name, ⟨checked, ⟨names, hNames, hAlong⟩, inside, proper, fits⟩, hNode⟩
  · rintro ⟨directory, name', leads, hNode⟩
    obtain ⟨names', hNames', hAlong⟩ := leads.along
    obtain ⟨rfl, hName⟩ := List.append_inj' (hNames.symm.trans hNames') rfl
    obtain rfl := List.head_eq_of_cons_eq hName
    refine ⟨leads.checked, _, follow_concat.mpr ⟨directory, hAlong, leads.childOf, ?_⟩, hNode⟩
    exact Option.isSome_of_eq_some hNode

theorem target_of_name {names : List String} (hNames : components path = names ++ [name])
    (hName : name ≠ "") :
    disk.target path = (do
      checkPath path
      let directory ← disk.follow (start path) names
      let here ← disk.childOf directory "."
      if name = "." ∨ name = ".." then throw .isDirectory else disk.childOf here name) := by
  have hSpan : (components path).reverse.span (· = "") = ([], name :: names.reverse) := by
    rw [hNames, List.span_eq_takeWhile_dropWhile, List.reverse_concat,
      List.takeWhile_cons_of_neg (by simpa using hName),
      List.dropWhile_cons_of_neg (by simpa using hName)]
  unfold target
  rw [hSpan]
  simp only [List.reverse_reverse, ne_eq, not_true_eq_false, false_or]

/-- A path that ends with a slash names no file. -/
theorem target_of_slash {names : List String} (hNames : components path = names ++ [""]) :
    disk.target path ≠ .ok place := by
  intro h
  obtain ⟨done, -, h⟩ := except_bind_eq_ok h
  rw [hNames, List.span_eq_takeWhile_dropWhile, List.reverse_concat,
    List.takeWhile_cons_of_pos rfl, List.dropWhile_cons_of_pos rfl] at h
  split at h
  · cases h
  · next slashes first rest hSpan =>
    obtain ⟨rfl, -⟩ := Prod.mk.inj hSpan
    obtain ⟨directory, -, h⟩ := except_bind_eq_ok h
    obtain ⟨here, -, h⟩ := except_bind_eq_ok h
    rw [if_pos (.inl (List.cons_ne_nil _ _))] at h
    cases h

theorem target_eq_ok :
    disk.target path = .ok place ↔
      ∃ directory name, disk.Leads path directory name ∧ place = directory ++ [name] := by
  constructor
  · intro h
    obtain ⟨names, name, hNames⟩ := exists_last path
    have hName : name ≠ "" := by
      rintro rfl
      exact target_of_slash hNames h
    rw [target_of_name hNames hName] at h
    obtain ⟨done, checked, h⟩ := except_bind_eq_ok h
    obtain ⟨directory, hAlong, h⟩ := except_bind_eq_ok h
    obtain ⟨here, hHere, h⟩ := except_bind_eq_ok h
    have inside := node?_of_childOf hHere
    rw [childOf_of_directory inside, if_pos (.inr rfl)] at hHere
    obtain rfl := Except.ok.inj hHere
    split at h
    · cases h
    · next hDots =>
      rw [not_or] at hDots
      have proper : Proper name := ⟨hName, hDots⟩
      obtain ⟨-, fits, rfl⟩ := (childOf_proper proper).mp h
      exact ⟨directory, name, ⟨checked, ⟨names, hNames, hAlong⟩, inside, proper, fits⟩, rfl⟩
  · rintro ⟨directory, name, leads, rfl⟩
    obtain ⟨names, hNames, hAlong⟩ := leads.along
    have hHere : disk.childOf directory "." = .ok directory := by
      rw [childOf_of_directory leads.inside, if_pos (.inr rfl)]
    have hDots : ¬(name = "." ∨ name = "..") := not_or.mpr leads.proper.2
    rw [target_of_name hNames leads.proper.1, leads.checked, hAlong]
    simp only [bind, Except.bind, hHere, if_neg hDots]
    exact leads.childOf

/-- **A file is written where its path leads**, unless there is a directory. -/
theorem write_eq_ok :
    disk.write path content = .ok disk' ↔
      ∃ directory name, disk.Leads path directory name ∧
        disk.node? (directory ++ [name]) ≠ some .directory ∧
        disk' = disk.put (directory ++ [name]) (.file content) := by
  unfold write
  constructor
  · intro h
    split at h
    · cases h
    · next place hTarget =>
      obtain ⟨directory, name, leads, rfl⟩ := target_eq_ok.mp hTarget
      split at h
      · cases h
      · next hNode => exact ⟨directory, name, leads, hNode, (Except.ok.inj h).symm⟩
  · rintro ⟨directory, name, leads, hNode, rfl⟩
    rw [target_eq_ok.mpr ⟨directory, name, leads, rfl⟩]
    split
    · contradiction
    · next hTarget =>
      obtain rfl := Except.ok.inj hTarget
      split
      · contradiction
      · rfl

/-- **What was written is read.** -/
theorem read_of_write (h : disk.write path content = .ok disk') :
    disk'.read path = .ok content := by
  obtain ⟨directory, name, leads, hNode, rfl⟩ := write_eq_ok.mp h
  exact read_eq_ok.mpr ⟨directory, name, leads.put hNode _, node?_put_self hNode _⟩

/-- A file that can be read can be written. -/
theorem exists_write (h : disk.read path = .ok content) (content' : ByteArray) :
    ∃ disk', disk.write path content' = .ok disk' := by
  obtain ⟨directory, name, leads, hNode⟩ := read_eq_ok.mp h
  refine ⟨_, write_eq_ok.mpr ⟨directory, name, leads, ?_, rfl⟩⟩
  rw [hNode]
  exact nofun

/-- **What was not written is kept.** -/
theorem read_of_write_other {other : String} {old : ByteArray}
    (h : disk.write path content = .ok disk') (hOld : disk.read other = .ok old)
    (apart : ∀ {place place' name name'}, disk.Leads path place name →
      disk.Leads other place' name' → place' ++ [name'] ≠ place ++ [name]) :
    disk'.read other = .ok old := by
  obtain ⟨directory, name, leads, hNode, rfl⟩ := write_eq_ok.mp h
  obtain ⟨directory', name', leads', hOld⟩ := read_eq_ok.mp hOld
  refine read_eq_ok.mpr ⟨directory', name', leads'.put hNode _, ?_⟩
  rw [node?_put_of_ne disk (apart leads leads')]
  exact hOld

theorem node?_of_write_other (h : disk.write path content = .ok disk')
    (apart : disk.target path ≠ .ok place) : disk'.node? place = disk.node? place := by
  obtain ⟨directory, name, leads, -, rfl⟩ := write_eq_ok.mp h
  refine node?_put_of_ne disk ?_ _
  rintro rfl
  exact apart (target_eq_ok.mpr ⟨directory, name, leads, rfl⟩)

/-- A path that names another place reads as before. -/
theorem read_of_write_iff {other : String} {old : ByteArray}
    (h : disk.write path content = .ok disk')
    (apart : ∀ place, disk.target other = .ok place → disk.target path ≠ .ok place) :
    disk'.read other = .ok old ↔ disk.read other = .ok old := by
  have hNe : ∀ {place place' name name'}, disk.Leads path place name →
      disk.Leads other place' name' → place' ++ [name'] ≠ place ++ [name] := by
    intro place place' name name' leads leads' hSame
    exact apart _ (target_eq_ok.mpr ⟨place', name', leads', rfl⟩)
      (target_eq_ok.mpr ⟨place, name, leads, hSame⟩)
  refine ⟨fun hOld => ?_, fun hOld => read_of_write_other h hOld hNe⟩
  obtain ⟨directory, name, leads, hNode, rfl⟩ := write_eq_ok.mp h
  obtain ⟨directory', name', leads', hOld⟩ := read_eq_ok.mp hOld
  have before := leads'.of_put hNode
  rw [node?_put_of_ne disk (hNe leads before)] at hOld
  exact read_eq_ok.mpr ⟨directory', name', before, hOld⟩

end

end Disk

end Tiny
