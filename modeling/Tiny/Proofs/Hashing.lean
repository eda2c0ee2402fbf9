import Mathlib.Data.Finset.Card
import Tiny.Proofs.Tables

/-!
# Symbol tables in hash maps

A symbol table can be kept in a hash map, which has a location and lines for each name, beside a
counter for the next location.  A hash map lists its entries in an order of its own, so they are
sorted by location before they are shown.  Such a table is compared with one whose entries stand at
their locations.

* `pairwise_eraseDups`: the names as they came first are in the order of their first places.
* `Keeps.insert`: a map and a counter that keep what was recorded go on to do so.
* `Keeps.perm`: hence the entries of the map are known up to their order.
* `Keeps.byLocation_eq`: sorted by location, they are known.
* `Keeps.location?_eq`, `Keeps.get?_iff`: both tables give the same answers.
* `dump_eq`: the text of a table, with its columns.
-/

namespace Tiny

/-! ### Names as they came first -/

/-- Different names are told apart by the places at which they came first, in the same order. -/
theorem pairwise_eraseDups (names : List String) :
    names.eraseDups.Pairwise fun a b => names.idxOf a < names.idxOf b := by
  induction names using List.reverseRecOn with
  | nil => exact .nil
  | append_singleton names name ih =>
    have hOld : ∀ other ∈ names.eraseDups,
        (names ++ [name]).idxOf other = names.idxOf other := fun other member =>
      List.idxOf_append_of_mem (List.mem_eraseDups.mp member)
    have hFront : names.eraseDups.Pairwise fun a b =>
        (names ++ [name]).idxOf a < (names ++ [name]).idxOf b := by
      refine ih.imp_of_mem fun {a b} ha hb hLess => ?_
      rwa [hOld a ha, hOld b hb]
    rw [eraseDups_concat]
    by_cases h : name ∈ names
    · rw [if_pos h]
      exact hFront
    · rw [if_neg h]
      refine List.pairwise_append.mpr ⟨hFront, List.pairwise_singleton _ _, ?_⟩
      intro other member last hLast
      obtain rfl := List.mem_singleton.mp hLast
      have hPlace : names.idxOf other < names.length :=
        List.idxOf_lt_length_iff.mpr (List.mem_eraseDups.mp member)
      rw [hOld other member, List.idxOf_append_of_notMem h]
      omega

theorem lt_iff_of_eraseDups {names : List String} {a b : String} {l m : Nat}
    (ha : names.eraseDups[l]? = some a) (hb : names.eraseDups[m]? = some b) :
    l < m ↔ names.idxOf a < names.idxOf b := by
  obtain ⟨hl, rfl⟩ := List.getElem?_eq_some_iff.mp ha
  obtain ⟨hm, rfl⟩ := List.getElem?_eq_some_iff.mp hb
  have sorted := List.pairwise_iff_getElem.mp (pairwise_eraseDups names)
  constructor
  · exact sorted l m hl hm
  · intro hLess
    rcases Nat.lt_trichotomy l m with h | rfl | h
    · exact h
    · exact absurd hLess (Nat.lt_irrefl _)
    · exact absurd hLess (Nat.lt_asymm (sorted m l hm hl h))

theorem eraseDups_place_inj {names : List String} {a : String} {l m : Nat}
    (hl : names.eraseDups[l]? = some a) (hm : names.eraseDups[m]? = some a) : l = m := by
  have hLess := lt_iff_of_eraseDups hl hm
  have hMore := lt_iff_of_eraseDups hm hl
  omega

/-- One more name moves none of the others. -/
theorem eraseDups_concat_place {name other : String} (h : other ≠ name) (names : List String)
    (l : Nat) :
    (names ++ [name]).eraseDups[l]? = some other ↔ names.eraseDups[l]? = some other := by
  rw [eraseDups_concat]
  split
  · exact Iff.rfl
  · rw [List.getElem?_append]
    split
    next => exact Iff.rfl
    next hPlace =>
      rw [List.getElem?_eq_none (Nat.le_of_not_lt hPlace), List.getElem?_singleton]
      simp [Ne.symm h]

/-- More names move none of those before them. -/
theorem eraseDups_append_place {names : List String} {a : String} {l : Nat}
    (h : names.eraseDups[l]? = some a) (later : List String) :
    (names ++ later).eraseDups[l]? = some a := by
  rw [List.eraseDups_append, List.getElem?_append_left (List.getElem?_eq_some_iff.mp h).1, h]

theorem length_eraseDups (names : List String) :
    names.eraseDups.length = names.toFinset.card := by
  have hSame : names.eraseDups.toFinset = names.toFinset := by
    ext name
    rw [List.mem_toFinset, List.mem_toFinset, List.mem_eraseDups]
  rw [← hSame, List.toFinset_card_of_nodup (nodup_eraseDups names)]

namespace Symbols

/-! ### Slots -/

/-- The location of a name, with the lines on which it occurs. -/
structure Slot where
  location : Nat
  lines : List Nat
deriving DecidableEq, Repr

namespace Slot

/-- Entries as a map lists them, sorted by location. -/
def byLocation (listed : List (String × Slot)) : List (String × Slot) :=
  listed.mergeSort fun a b => a.2.location ≤ b.2.location

/-- The entries for what was recorded, by location. -/
def located (recorded : List (String × Nat)) : List (String × Slot) :=
  (recorded.map Prod.fst).eraseDups.zipIdx.map fun (name, l) => (name, ⟨l, linesOf name recorded⟩)

theorem mem_located {recorded : List (String × Nat)} {name : String} {slot : Slot} :
    (name, slot) ∈ located recorded ↔
      (recorded.map Prod.fst).eraseDups[slot.location]? = some name ∧
        slot.lines = linesOf name recorded := by
  rw [located, List.mem_map]
  constructor
  · rintro ⟨⟨first, l⟩, member, hSame⟩
    obtain ⟨rfl, rfl⟩ := Prod.mk.inj hSame
    exact ⟨List.mem_zipIdx_iff_getElem?.mp member, rfl⟩
  · rintro ⟨hPlace, hLines⟩
    refine ⟨(name, slot.location), List.mem_zipIdx_iff_getElem?.mpr hPlace, ?_⟩
    exact congrArg (Prod.mk name) (congrArg (Slot.mk slot.location) hLines.symm)

theorem map_fst_located (recorded : List (String × Nat)) :
    (located recorded).map Prod.fst = (recorded.map Prod.fst).eraseDups := by
  rw [located, List.map_map]
  exact List.zipIdx_map_fst 0 _

theorem map_location_located (recorded : List (String × Nat)) :
    (located recorded).map (fun entry => entry.2.location) =
      List.range (recorded.map Prod.fst).eraseDups.length := by
  rw [located, List.map_map, List.range_eq_range']
  exact List.zipIdx_map_snd 0 _

theorem nodup_located (recorded : List (String × Nat)) :
    ((located recorded).map Prod.fst).Nodup := by
  rw [map_fst_located]
  exact nodup_eraseDups _

theorem byLocation_sorted (listed : List (String × Slot)) :
    (byLocation listed).Pairwise fun a b => a.2.location ≤ b.2.location := by
  refine (List.pairwise_mergeSort ?_ ?_ listed).imp of_decide_eq_true
  · intro a b c hab hbc
    exact decide_eq_true (Nat.le_trans (of_decide_eq_true hab) (of_decide_eq_true hbc))
  · intro a b
    rw [Bool.or_eq_true, decide_eq_true_eq, decide_eq_true_eq]
    exact Nat.le_total _ _

theorem located_sorted (recorded : List (String × Nat)) :
    (located recorded).Pairwise fun a b => a.2.location ≤ b.2.location := by
  have sorted : ((located recorded).map fun entry => entry.2.location).Pairwise (· ≤ ·) := by
    rw [map_location_located]
    exact List.pairwise_le_range
  exact List.pairwise_map.mp sorted

/-- The entries are those of the table without a map, with their places as locations. -/
theorem located_eq (recorded : List (String × Nat)) :
    located recorded = (insertAll {} recorded).entries.zipIdx.map fun (symbol, l) =>
      (symbol.name, ⟨l, symbol.lines⟩) := by
  rw [located, entries_insertAll, tabulated, List.zipIdx_map, List.map_map]
  rfl

end Slot

/-! ### Maps and counters -/

/-- A symbol table in a hash map, with the next location. -/
structure Hashed [Hashable String] where
  slots : Std.HashMap String Slot := ∅
  next : Nat := 0

namespace Hashed

open Slot

variable [Hashable String]

/-- The number of names. -/
def size (table : Hashed) : Nat :=
  table.slots.size

/-- Adds an occurrence to the slot of its name, or gives the next location to a new name. -/
def insert (table : Hashed) (name : String) (line : Nat) : Hashed :=
  match table.slots[name]? with
  | some _ =>
    { table with
      slots := table.slots.modify name fun slot => { slot with lines := slot.lines ++ [line] } }
  | none =>
    { slots := table.slots.insert name ⟨table.next, [line]⟩
      next := table.next + 1 }

/-- Records names one after the other. -/
def insertAll (table : Hashed) (names : List (String × Nat)) : Hashed :=
  names.foldl (fun table name => table.insert name.1 name.2) table

/-- The slot of a name. -/
def get? (table : Hashed) (name : String) : Option Slot :=
  table.slots[name]?

/-- The location of a name. -/
def location? (table : Hashed) (name : String) : Option Nat :=
  (table.get? name).map Slot.location

section

variable {table : Hashed} {name : String}

theorem insert_known {slot : Slot} (line : Nat) (h : table.get? name = some slot) :
    (table.insert name line).next = table.next ∧
      ∀ other, (table.insert name line).get? other =
        if name = other then some ⟨slot.location, slot.lines ++ [line]⟩
        else table.get? other := by
  rw [get?] at h
  rw [insert, h]
  refine ⟨rfl, fun other => ?_⟩
  rw [get?, Std.HashMap.getElem?_modify, h]
  simp only [beq_iff_eq, Option.map_some, get?]

theorem insert_new (line : Nat) (h : table.get? name = none) :
    (table.insert name line).next = table.next + 1 ∧
      ∀ other, (table.insert name line).get? other =
        if name = other then some ⟨table.next, [line]⟩ else table.get? other := by
  rw [get?] at h
  rw [insert, h]
  refine ⟨rfl, fun other => ?_⟩
  rw [get?, Std.HashMap.getElem?_insert]
  simp only [beq_iff_eq, get?]

end

/-! ### What is kept -/

/-- A table keeps what was recorded: its slots have the locations of the names as they came first,
with all their lines, and the counter stands behind these locations. -/
structure Keeps (table : Hashed) (recorded : List (String × Nat)) : Prop where
  next : table.next = (recorded.map Prod.fst).eraseDups.length
  get? : ∀ name slot, table.get? name = some slot ↔
    (recorded.map Prod.fst).eraseDups[slot.location]? = some name ∧
      slot.lines = linesOf name recorded

theorem keeps_nil : Keeps {} [] where
  next := rfl
  get? name slot := by simp [Hashed.get?]

section

variable {table : Hashed} {recorded : List (String × Nat)} {name : String}

theorem Keeps.get?_of_mem (h : Keeps table recorded) (member : name ∈ recorded.map Prod.fst) :
    ∃ l, (recorded.map Prod.fst).eraseDups[l]? = some name ∧
      table.get? name = some ⟨l, linesOf name recorded⟩ := by
  obtain ⟨l, hl⟩ := List.getElem?_of_mem (List.mem_eraseDups.mpr member)
  exact ⟨l, hl, (h.get? name _).mpr ⟨hl, rfl⟩⟩

theorem Keeps.get?_of_not_mem (h : Keeps table recorded)
    (fresh : name ∉ recorded.map Prod.fst) : table.get? name = none := by
  refine Option.eq_none_iff_forall_ne_some.mpr fun slot hSlot => fresh ?_
  exact List.mem_eraseDups.mp (List.mem_of_getElem? ((h.get? name slot).mp hSlot).1)

/-- A table that differs only in the slot of a name keeps one more name, if this is its slot. -/
theorem Keeps.concat (h : Keeps table recorded) {after : Hashed} {line l : Nat}
    (hNext : after.next = ((recorded ++ [(name, line)]).map Prod.fst).eraseDups.length)
    (hPlace : ((recorded ++ [(name, line)]).map Prod.fst).eraseDups[l]? = some name)
    (hGet : ∀ other, after.get? other =
      if name = other then some ⟨l, linesOf name recorded ++ [line]⟩ else table.get? other) :
    Keeps after (recorded ++ [(name, line)]) := by
  refine ⟨hNext, fun other slot => ?_⟩
  rw [hGet, linesOf_concat]
  by_cases hName : name = other
  · subst hName
    rw [if_pos rfl, if_pos rfl]
    constructor
    · rintro ⟨⟩
      exact ⟨hPlace, rfl⟩
    · rintro ⟨hSlot, hLines⟩
      rw [eraseDups_place_inj hPlace hSlot, ← hLines]
  · have hPlaces := eraseDups_concat_place (Ne.symm hName) (recorded.map Prod.fst) slot.location
    rw [if_neg hName, if_neg (Ne.symm hName), List.append_nil, h.get? other slot,
      List.map_append, List.map_singleton, hPlaces]

/-- **What is kept stays kept** when one more name is recorded. -/
theorem Keeps.insert (h : Keeps table recorded) (name : String) (line : Nat) :
    Keeps (table.insert name line) (recorded ++ [(name, line)]) := by
  have hNames : ((recorded ++ [(name, line)]).map Prod.fst).eraseDups =
      if name ∈ recorded.map Prod.fst then (recorded.map Prod.fst).eraseDups
      else (recorded.map Prod.fst).eraseDups ++ [name] := by
    rw [List.map_append, List.map_singleton, eraseDups_concat]
  by_cases member : name ∈ recorded.map Prod.fst
  · obtain ⟨l, hPlace, hSlot⟩ := h.get?_of_mem member
    obtain ⟨hNext, hGet⟩ := insert_known line hSlot
    rw [if_pos member] at hNames
    refine h.concat ?_ ?_ hGet
    · rw [hNext, h.next, hNames]
    · rw [hNames, hPlace]
  · -- the counter stands behind all locations, so it is the place of the new name
    obtain ⟨hNext, hGet⟩ := insert_new line (h.get?_of_not_mem member)
    rw [if_neg member] at hNames
    have hLines : linesOf name recorded ++ [line] = [line] := by
      rw [linesOf_eq_nil member, List.nil_append]
    rw [← hLines] at hGet
    refine h.concat ?_ ?_ hGet
    · rw [hNext, h.next, hNames, List.length_append, List.length_singleton]
    · rw [hNames, h.next, List.getElem?_concat_length]

theorem Keeps.insertAll {front : List (String × Nat)} (h : Keeps table front)
    (recorded : List (String × Nat)) :
    Keeps (table.insertAll recorded) (front ++ recorded) := by
  induction recorded generalizing table front with
  | nil => rwa [List.append_nil]
  | cons entry rest ih =>
    have hRest := ih (h.insert entry.1 entry.2)
    rwa [List.append_assoc] at hRest

theorem keeps_insertAll (recorded : List (String × Nat)) :
    Keeps (Hashed.insertAll {} recorded) recorded :=
  keeps_nil.insertAll recorded

theorem Keeps.location? (h : Keeps table recorded) {l : Nat} :
    table.location? name = some l ↔ (recorded.map Prod.fst).eraseDups[l]? = some name := by
  rw [Hashed.location?, Option.map_eq_some_iff]
  constructor
  · rintro ⟨slot, hSlot, rfl⟩
    exact ((h.get? name slot).mp hSlot).1
  · intro hPlace
    exact ⟨⟨l, linesOf name recorded⟩, (h.get? name _).mpr ⟨hPlace, rfl⟩, rfl⟩

/-! ### Entries in any order -/

/-- **The entries of a map are known up to their order.** -/
theorem Keeps.perm (h : Keeps table recorded) : table.slots.toList.Perm (located recorded) := by
  have nodup : (table.slots.toList.map Prod.fst).Nodup := by
    rw [Std.HashMap.map_fst_toList_eq_keys]
    exact Std.HashMap.nodup_keys
  refine (List.perm_ext_iff_of_nodup nodup.of_map (nodup_located recorded).of_map).mpr ?_
  rintro ⟨name, slot⟩
  rw [Std.HashMap.mem_toList_iff_getElem?_eq_some, mem_located]
  exact h.get? name slot

theorem Keeps.size (h : Keeps table recorded) :
    table.size = (recorded.map Prod.fst).eraseDups.length := by
  rw [Hashed.size, ← Std.HashMap.length_toList, h.perm.length_eq, ← map_fst_located,
    List.length_map]

/-- **By location, the entries are the same in whatever order they were listed.** -/
theorem Keeps.byLocation_eq (h : Keeps table recorded) {listed : List (String × Slot)}
    (order : listed.Perm table.slots.toList) : byLocation listed = located recorded := by
  have same : (byLocation listed).Perm (located recorded) :=
    (List.mergeSort_perm listed _).trans (order.trans h.perm)
  refine List.Perm.eq_of_pairwise ?_ (byLocation_sorted listed) (located_sorted recorded) same
  -- two entries at one location have the same name, and hence the same lines
  rintro ⟨a, ⟨l, la⟩⟩ ⟨b, ⟨m, lb⟩⟩ ha hb hle hge
  obtain ⟨hPlace, hLines⟩ := mem_located.mp (same.mem_iff.mp ha)
  obtain ⟨hPlace', hLines'⟩ := mem_located.mp hb
  obtain rfl : l = m := Nat.le_antisymm hle hge
  obtain rfl : a = b := Option.some.inj (hPlace.symm.trans hPlace')
  obtain rfl : la = lb := hLines.trans hLines'.symm
  rfl

/-! ### The table without a map -/

theorem Keeps.location?_eq (h : Keeps table recorded) (name : String) :
    table.location? name = (Symbols.insertAll {} recorded).location? name :=
  Option.ext fun _ => h.location?.trans location?_insertAll.symm

/-- A slot has the location of its name, and its lines. -/
theorem Keeps.get?_iff (h : Keeps table recorded) (name : String) (slot : Slot) :
    table.get? name = some slot ↔
      (Symbols.insertAll {} recorded).location? name = some slot.location ∧
        (Symbols.insertAll {} recorded).get? name = some ⟨name, slot.lines⟩ := by
  rw [h.get?, location?_insertAll, get?_insertAll, Symbol.mk.injEq]
  constructor
  · rintro ⟨hPlace, hLines⟩
    exact ⟨hPlace, List.mem_eraseDups.mp (List.mem_of_getElem? hPlace), rfl, hLines⟩
  · rintro ⟨hPlace, -, -, hLines⟩
    exact ⟨hPlace, hLines⟩

end

end Hashed

/-- The text of a table has a line for each entry, with the name, the location and the lines in
columns. -/
theorem dump_eq (symbols : Symbols) :
    symbols.dump =
      "Variable Name  Location   Line Numbers\n" ++
      "-------------  --------   ------------\n" ++
      String.join (symbols.entries.zipIdx.map fun (symbol, location) =>
        String.ofList (symbol.name.toList.rightpad 14 ' ') ++ " " ++
          String.ofList ((toString location).toList.rightpad 8 ' ') ++ "  " ++
          String.join (symbol.lines.map fun line =>
            String.ofList ((toString line).toList.leftpad 4 ' ') ++ " ") ++ "\n") := by
  unfold dump row
  simp only [Text.alignLeft_eq, Text.alignRight_eq]

theorem location?_insertAll_mono {recorded : List (String × Nat)} {name : String} {l : Nat}
    (h : (insertAll {} recorded).location? name = some l) (later : List (String × Nat)) :
    (insertAll {} (recorded ++ later)).location? name = some l := by
  rw [location?_insertAll, List.map_append]
  exact eraseDups_append_place (location?_insertAll.mp h) _

/-- **A symbol table has the locations of the names as they come first.**  After any names were
recorded in a new table:

* the table has as many names as were different;
* the names that were recorded are those that have locations, the locations are the numbers below
  the size, no two names share one, and their order is that of the first places of the names;
* a name that has a location keeps it, whatever is recorded later;
* the entry of a name has all lines that were recorded for it, in order.

A table in a hash map gives the same answers, and its counter is the size.  For any hash function,
and for any order in which the map lists its entries, they are listed by location once for each
name, at the locations `0`, `1`, … in order, as are the entries of the other table.  Its text has a
line for each of them in this order, with the name, the location and the lines in columns. -/
theorem insertAll_located [Hashable String] (recorded : List (String × Nat))
    (listed : List (String × Slot))
    (order : listed.Perm (Hashed.insertAll {} recorded).slots.toList) :
    let names := recorded.map Prod.fst
    let symbols := insertAll {} recorded
    let table := Hashed.insertAll {} recorded
    (symbols.size = names.toFinset.card ∧ table.size = symbols.size ∧
      table.next = symbols.size) ∧
    ((∀ name, table.location? name = symbols.location? name) ∧
      (∀ name, (∃ l, symbols.location? name = some l) ↔ name ∈ names) ∧
      (∀ l, (∃ name, symbols.location? name = some l) ↔ l < symbols.size) ∧
      (∀ a b l, symbols.location? a = some l → symbols.location? b = some l → a = b) ∧
      ∀ a b l m, symbols.location? a = some l → symbols.location? b = some m →
        (l < m ↔ names.idxOf a < names.idxOf b)) ∧
    (∀ later name l, symbols.location? name = some l →
      (symbols.insertAll later).location? name = some l ∧
        (table.insertAll later).location? name = some l) ∧
    ((∀ name symbol, symbols.get? name = some symbol ↔
        name ∈ names ∧ symbol = ⟨name, linesOf name recorded⟩) ∧
      ∀ name slot, table.get? name = some slot ↔
        symbols.location? name = some slot.location ∧
          symbols.get? name = some ⟨name, slot.lines⟩) ∧
    (((Slot.byLocation listed).map Prod.fst).Nodup ∧
      (Slot.byLocation listed).map (fun entry => entry.2.location) = List.range symbols.size ∧
      (∀ name slot, (name, slot) ∈ Slot.byLocation listed ↔ table.get? name = some slot) ∧
      Slot.byLocation listed = symbols.entries.zipIdx.map (fun (symbol, l) =>
        (symbol.name, ⟨l, symbol.lines⟩)) ∧
      symbols.dump =
        "Variable Name  Location   Line Numbers\n" ++
        "-------------  --------   ------------\n" ++
        String.join ((Slot.byLocation listed).map fun (name, slot) =>
          String.ofList (name.toList.rightpad 14 ' ') ++ " " ++
            String.ofList ((toString slot.location).toList.rightpad 8 ' ') ++ "  " ++
            String.join (slot.lines.map fun line =>
              String.ofList ((toString line).toList.leftpad 4 ' ') ++ " ") ++ "\n")) := by
  intro names symbols table
  have kept : table.Keeps recorded := Hashed.keeps_insertAll recorded
  have hSize : symbols.size = names.eraseDups.length := size_insertAll recorded
  have hSorted : Slot.byLocation listed = Slot.located recorded := kept.byLocation_eq order
  refine ⟨⟨?_, ?_, ?_⟩, ⟨kept.location?_eq, fun name => ?_, fun l => ?_, fun a b l ha hb => ?_,
    fun a b l m ha hb => ?_⟩, fun later name l hl => ⟨?_, ?_⟩,
    ⟨fun name symbol => get?_insertAll, kept.get?_iff⟩,
    ⟨?_, ?_, fun name slot => ?_, ?_, ?_⟩⟩
  · rw [hSize, length_eraseDups]
  · rw [hSize, kept.size]
  · rw [hSize, kept.next]
  · simp only [symbols, names, location?_insertAll, ← List.mem_iff_getElem?, List.mem_eraseDups]
  · simp only [hSize, symbols, location?_insertAll, List.getElem?_eq_some_iff]
    exact ⟨fun ⟨_, hl, _⟩ => hl, fun hl => ⟨_, hl, rfl⟩⟩
  · exact Option.some.inj ((location?_insertAll.mp ha).symm.trans (location?_insertAll.mp hb))
  · exact lt_iff_of_eraseDups (location?_insertAll.mp ha) (location?_insertAll.mp hb)
  · rw [← insertAll_append]
    exact location?_insertAll_mono hl later
  · rw [(kept.insertAll later).location?_eq]
    exact location?_insertAll_mono hl later
  · rw [hSorted]
    exact Slot.nodup_located recorded
  · rw [hSorted, Slot.map_location_located, hSize]
  · rw [hSorted, Slot.mem_located, kept.get?]
  · rw [hSorted, Slot.located_eq]
  · rw [hSorted, Slot.located_eq, List.map_map]
    exact dump_eq symbols

/-- Here `b` comes before `a`, in whatever order the map lists them, even if backwards. -/
theorem insertAll_located_reversed :
    let recorded := [("b", 1), ("a", 1), ("b", 2)]
    let table := Hashed.insertAll {} recorded
    let listed := table.slots.toList.reverse
    listed.Perm table.slots.toList ∧ table.size = 2 ∧ table.next = 2 ∧
      table.location? "b" = some 0 ∧ table.location? "a" = some 1 ∧
      Slot.byLocation listed = [("b", ⟨0, [1, 2]⟩), ("a", ⟨1, [1]⟩)] ∧
      (insertAll {} recorded).dump =
        "Variable Name  Location   Line Numbers\n" ++
        "-------------  --------   ------------\n" ++
        "b              0            1    2 \n" ++
        "a              1            1 \n" := by
  intro recorded table listed
  have order : listed.Perm table.slots.toList := List.reverse_perm _
  obtain ⟨⟨-, hSize, hNext⟩, ⟨hLocation, -⟩, -, -, -, -, -, hListed, hDump⟩ :=
    insertAll_located recorded listed order
  have hSorted : Slot.byLocation listed = [("b", ⟨0, [1, 2]⟩), ("a", ⟨1, [1]⟩)] :=
    hListed.trans (by decide)
  rw [hSorted] at hDump
  refine ⟨order, hSize.trans ?_, hNext.trans ?_, (hLocation _).trans ?_, (hLocation _).trans ?_,
    hSorted, hDump.trans ?_⟩
  all_goals decide

end Symbols

end Tiny
