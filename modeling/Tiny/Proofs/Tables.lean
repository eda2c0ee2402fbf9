import Tiny.Proofs.Occurrences

/-!
# Symbol tables by what was recorded

A symbol table is known by the names that were recorded in it, in order, with their lines.  Its
entries are the different names in the order in which they came first, each with all of its lines.

* `insertInto_tabulated`: what one more name does to such entries.
* `entries_insertAll`: so these are the entries after any number of names.
* `location?_insertAll`, `get?_insertAll`: what can be looked up in the table.
-/

namespace Tiny

/-- The lines that were recorded for a name. -/
def linesOf (name : String) (recorded : List (String × Nat)) : List Nat :=
  (recorded.filter fun entry => entry.1 = name).map Prod.snd

theorem linesOf_append (name : String) (a b : List (String × Nat)) :
    linesOf name (a ++ b) = linesOf name a ++ linesOf name b := by
  rw [linesOf, List.filter_append, List.map_append]
  rfl

theorem linesOf_self (name : String) (line : Nat) : linesOf name [(name, line)] = [line] := by
  simp [linesOf]

theorem linesOf_of_ne {name other : String} (h : other ≠ name) (line : Nat) :
    linesOf name [(other, line)] = [] := by
  simp [linesOf, h]

theorem linesOf_concat (recorded : List (String × Nat)) (name : String) (line : Nat)
    (other : String) :
    linesOf other (recorded ++ [(name, line)]) =
      linesOf other recorded ++ if other = name then [line] else [] := by
  rw [linesOf_append]
  by_cases h : other = name
  · rw [if_pos h, h, linesOf_self]
  · rw [if_neg h, linesOf_of_ne (Ne.symm h)]

theorem linesOf_ne_nil {name : String} {recorded : List (String × Nat)}
    (h : name ∈ recorded.map Prod.fst) : linesOf name recorded ≠ [] := by
  obtain ⟨⟨name', line⟩, member, rfl⟩ := List.mem_map.mp h
  refine List.ne_nil_of_mem (List.mem_map_of_mem (List.mem_filter.mpr ⟨member, ?_⟩))
  exact decide_eq_true rfl

theorem linesOf_eq_nil {name : String} {recorded : List (String × Nat)}
    (h : name ∉ recorded.map Prod.fst) : linesOf name recorded = [] := by
  refine List.map_eq_nil_iff.mpr (List.filter_eq_nil_iff.mpr fun entry member hEntry => h ?_)
  exact of_decide_eq_true hEntry ▸ List.mem_map_of_mem member

/-- What was recorded is known by its names and by the lines of each name. -/
theorem eq_of_linesOf {a b : List (String × Nat)} (names : a.map Prod.fst = b.map Prod.fst)
    (lines : ∀ name, linesOf name a = linesOf name b) : a = b := by
  induction a generalizing b with
  | nil => exact (List.map_eq_nil_iff.mp names.symm).symm
  | cons first a ih =>
    obtain ⟨name, line⟩ := first
    cases b with
    | nil => cases names
    | cons first' b =>
      obtain ⟨name', line'⟩ := first'
      obtain ⟨hName, hNames⟩ := List.cons.inj names
      obtain rfl : name = name' := hName
      have hCons : ∀ other line rest, linesOf other ((name, line) :: rest) =
          linesOf other [(name, line)] ++ linesOf other rest :=
        fun other line rest => linesOf_append other [(name, line)] rest
      have hFirst := lines name
      rw [hCons name line a, hCons name line' b, linesOf_self, linesOf_self] at hFirst
      obtain rfl : line = line' := (List.cons.inj hFirst).1
      refine congrArg _ (ih hNames fun other => ?_)
      have hOther := lines other
      rw [hCons other line a, hCons other line b] at hOther
      exact List.append_cancel_left hOther

/-- The first appearances in a list are different from each other. -/
theorem nodup_eraseDups (names : List String) : names.eraseDups.Nodup := by
  induction hn : names.length using Nat.strongRecOn generalizing names with
  | ind n ih =>
    cases names with
    | nil => exact .nil
    | cons name rest =>
      have hLess : (rest.filter fun other => !other == name).length < n := by
        have := List.length_filter_le (fun other => !other == name) rest
        rw [List.length_cons] at hn
        omega
      rw [List.eraseDups_cons]
      refine List.nodup_cons.mpr ⟨fun member => ?_, ih _ hLess _ rfl⟩
      simp [List.mem_eraseDups] at member

theorem eraseDups_concat (names : List String) (name : String) :
    (names ++ [name]).eraseDups =
      if name ∈ names then names.eraseDups else names.eraseDups ++ [name] := by
  rw [List.eraseDups_append]
  by_cases h : name ∈ names
  · simp [h, List.removeAll]
  · simp [h, List.removeAll, List.eraseDups_cons]

namespace Symbols

/-! ### One more name -/

section

variable {name : String} {names : List String} {lines : String → List Nat}

theorem insertInto_new (line : Nat) (h : name ∉ names) :
    insertInto name line (names.map fun other => ⟨other, lines other⟩) =
      names.map (fun other => ⟨other, lines other⟩) ++ [⟨name, [line]⟩] := by
  induction names with
  | nil => rfl
  | cons first rest ih =>
    have hFirst : first ≠ name := fun hName => h (hName ▸ List.mem_cons_self)
    have hRest : name ∉ rest := fun member => h (List.mem_cons_of_mem _ member)
    rw [List.map_cons, insertInto, if_neg hFirst, ih hRest]
    rfl

theorem insertInto_known (line : Nat) (nodup : names.Nodup) (h : name ∈ names) :
    insertInto name line (names.map fun other => ⟨other, lines other⟩) =
      names.map fun other => ⟨other, lines other ++ if other = name then [line] else []⟩ := by
  induction names with
  | nil => exact nomatch h
  | cons first rest ih =>
    obtain ⟨hFirst, nodup⟩ := List.nodup_cons.mp nodup
    rw [List.map_cons, List.map_cons, insertInto]
    by_cases hName : first = name
    · subst hName
      rw [if_pos rfl, if_pos rfl]
      -- no other entry has this name
      refine congrArg _ (List.map_congr_left fun other member => ?_)
      have hOther : other ≠ first := fun hSame => hFirst (hSame ▸ member)
      rw [if_neg hOther, List.append_nil]
    · have hRest : name ∈ rest := (List.mem_cons.mp h).resolve_left (Ne.symm hName)
      rw [if_neg hName, if_neg hName, List.append_nil, ih nodup hRest]

end

/-- The entries for what was recorded: the names as they came first, each with its lines. -/
def tabulated (recorded : List (String × Nat)) : List Symbol :=
  (recorded.map Prod.fst).eraseDups.map fun name => ⟨name, linesOf name recorded⟩

theorem insertInto_tabulated (recorded : List (String × Nat)) (name : String) (line : Nat) :
    insertInto name line (tabulated recorded) = tabulated (recorded ++ [(name, line)]) := by
  have hNames : (recorded ++ [(name, line)]).map Prod.fst = recorded.map Prod.fst ++ [name] :=
    List.map_append
  simp only [tabulated, hNames, eraseDups_concat, linesOf_concat]
  by_cases h : name ∈ recorded.map Prod.fst
  · rw [if_pos h]
    exact insertInto_known line (nodup_eraseDups _) (List.mem_eraseDups.mpr h)
  · have hOld : ∀ other ∈ (recorded.map Prod.fst).eraseDups, other ≠ name := by
      rintro other member rfl
      exact h (List.mem_eraseDups.mp member)
    rw [if_neg h, List.map_append,
      insertInto_new line fun member => h (List.mem_eraseDups.mp member)]
    congr 1
    · refine List.map_congr_left fun other member => ?_
      rw [if_neg (hOld other member), List.append_nil]
    · rw [List.map_singleton, linesOf_eq_nil h, if_pos rfl]
      rfl

/-! ### Any number of names -/

/-- **The entries of a table are known by what was recorded.** -/
theorem entries_insertAll (recorded : List (String × Nat)) :
    (insertAll {} recorded).entries = tabulated recorded := by
  have hAll : ∀ front : List (String × Nat),
      (insertAll ⟨tabulated front⟩ recorded).entries = tabulated (front ++ recorded) := by
    induction recorded with
    | nil =>
      intro front
      rw [List.append_nil]
      rfl
    | cons entry rest ih =>
      intro front
      obtain ⟨name, line⟩ := entry
      rw [insertAll_cons, insert, insertInto_tabulated, ih, List.append_assoc]
      rfl
  exact hAll []

theorem size_insertAll (recorded : List (String × Nat)) :
    (insertAll {} recorded).size = (recorded.map Prod.fst).eraseDups.length := by
  rw [size, entries_insertAll, tabulated, List.length_map]

section

variable {recorded : List (String × Nat)} {name : String}

/-- **The locations count the names as they came first.** -/
theorem location?_insertAll {l : Nat} :
    (insertAll {} recorded).location? name = some l ↔
      (recorded.map Prod.fst).eraseDups[l]? = some name := by
  have nodup := nodup_eraseDups (recorded.map Prod.fst)
  rw [location?, entries_insertAll, tabulated, List.findIdx?_map,
    List.findIdx?_eq_some_iff_getElem, List.getElem?_eq_some_iff]
  constructor
  · rintro ⟨hl, hName, -⟩
    exact ⟨hl, of_decide_eq_true hName⟩
  · rintro ⟨hl, hName⟩
    refine ⟨hl, decide_eq_true hName, fun j hj hOther => ?_⟩
    -- names stand at one place only
    have hSame : _ = name := of_decide_eq_true hOther
    exact Nat.ne_of_lt hj ((List.getElem_inj nodup).mp (hSame.trans hName.symm))

/-- **The entry of a name has all its lines.** -/
theorem get?_insertAll {symbol : Symbol} :
    (insertAll {} recorded).get? name = some symbol ↔
      name ∈ recorded.map Prod.fst ∧ symbol = ⟨name, linesOf name recorded⟩ := by
  have hFound : ∀ other, (recorded.map Prod.fst).eraseDups.find? (fun other => other = name) =
      some other → other = name := fun other hFind => by simpa using List.find?_some hFind
  have hGet : (insertAll {} recorded).get? name =
      ((recorded.map Prod.fst).eraseDups.find? fun other => other = name).map
        fun other => ⟨other, linesOf other recorded⟩ := by
    rw [get?, entries_insertAll, tabulated, List.find?_map]
    rfl
  rw [hGet, Option.map_eq_some_iff]
  constructor
  · rintro ⟨other, hFind, rfl⟩
    obtain rfl := hFound other hFind
    exact ⟨List.mem_eraseDups.mp (List.mem_of_find?_eq_some hFind), rfl⟩
  · rintro ⟨member, rfl⟩
    have hSome : ((recorded.map Prod.fst).eraseDups.find? fun other => other = name).isSome := by
      simpa using member
    obtain ⟨other, hFind⟩ := Option.isSome_iff_exists.mp hSome
    obtain rfl := hFound other hFind
    exact ⟨other, hFind, rfl⟩

end

end Symbols

end Tiny
