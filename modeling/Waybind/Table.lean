import Std.Data.TreeSet.Lemmas

/-!
This module contains tables: named values in the order in which they were added. A table is filled
through a draft, which also keeps the names in a search tree so that a name that is taken is found
fast. The main statement is that a draft knows exactly the names of its entries.
-/

namespace Waybind

structure Table (α : Type) where
  entries : List (String × α)
deriving Repr, DecidableEq, Inhabited

namespace Table

def empty {α : Type} : Table α :=
  ⟨[]⟩

def names {α : Type} (table : Table α) : List String :=
  table.entries.map Prod.fst

def values {α : Type} (table : Table α) : List α :=
  table.entries.map Prod.snd

def get? {α : Type} (table : Table α) (name : String) : Option α :=
  table.entries.lookup name

def at? {α : Type} (table : Table α) (index : Nat) : Option α :=
  table.values[index]?

def nameAt? {α : Type} (table : Table α) (index : Nat) : Option String :=
  table.names[index]?

def isEmpty {α : Type} (table : Table α) : Bool :=
  table.entries.isEmpty

structure Draft (α : Type) where
  entries : Array (String × α) := #[]
  taken : Std.TreeSet String := ∅
  mem_taken : ∀ name, name ∈ taken ↔ name ∈ entries.toList.map Prod.fst := by simp

namespace Draft

def empty {α : Type} : Draft α :=
  {}

def size {α : Type} (draft : Draft α) : Nat :=
  draft.entries.size

def contains {α : Type} (draft : Draft α) (name : String) : Bool :=
  draft.taken.contains name

def add {α : Type} (draft : Draft α) (name : String) (value : α) : Draft α where
  entries := draft.entries.push (name, value)
  taken := draft.taken.insert name
  mem_taken := by
    intro k
    rw [Std.TreeSet.mem_insert, draft.mem_taken k]
    simp only [Std.LawfulEqCmp.compare_eq_iff_eq, Array.toList_push, List.map_append,
      List.map_cons, List.map_nil, List.mem_append, List.mem_singleton]
    constructor
    · rintro (rfl | h)
      · exact .inr rfl
      · exact .inl h
    · rintro (h | rfl)
      · exact .inr h
      · exact .inl rfl

def toTable {α : Type} (draft : Draft α) : Table α :=
  ⟨draft.entries.toList⟩

@[simp]
theorem entries_toTable_add {α : Type} (draft : Draft α) (name : String) (value : α) :
    (draft.add name value).toTable.entries = draft.toTable.entries ++ [(name, value)] := by
  simp [add, toTable]

@[simp]
theorem size_eq {α : Type} (draft : Draft α) : draft.size = draft.toTable.entries.length := by
  simp [size, toTable]

theorem contains_iff {α : Type} (draft : Draft α) (name : String) :
    draft.contains name = true ↔ name ∈ draft.toTable.names := by
  rw [contains, Std.TreeSet.contains_iff_mem, draft.mem_taken]
  rfl

end Draft
end Table
end Waybind
