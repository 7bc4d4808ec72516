import Mathlib.Data.List.Forall2
import Mathlib.Data.List.Nodup
import Waybind.Proofs.Except
import Waybind.Table

/-!
This module contains what a table holds after it has been filled: the values that were read from the
parts of something, in the order of the parts and under distinct names.
-/

namespace Waybind
namespace Table

variable {ε α ρ : Type}

theorem names_toTable_add (draft : Draft α) (name : String) (value : α) :
    (draft.add name value).toTable.names = draft.toTable.names ++ [name] := by
  simp [names]

theorem at?_eq_some_iff (table : Table α) (index : Nat) (value : α) :
    table.at? index = some value ↔ ∃ name, table.entries[index]? = some (name, value) := by
  simp [at?, values]

theorem mem_values_iff (table : Table α) (value : α) :
    value ∈ table.values ↔ ∃ index, table.at? index = some value := by
  rw [List.mem_iff_getElem?]
  rfl

theorem get?_eq_none_iff (table : Table α) (name : String) :
    table.get? name = none ↔ name ∉ table.names := by
  simp only [get?, names, List.lookup_eq_none_iff, bne_iff_ne, List.mem_map, not_exists, not_and]
  exact forall₂_congr fun _ _ => ne_comm

theorem mem_values_of_get? {table : Table α} {name : String} {value : α}
    (h : table.get? name = some value) : value ∈ table.values := by
  obtain ⟨before, after, hentries, -⟩ := List.lookup_eq_some_iff.mp h
  simp [values, hentries]

theorem get?_eq_some_iff {table : Table α} (h : table.names.Nodup) (name : String) (value : α) :
    table.get? name = some value ↔ (name, value) ∈ table.entries := by
  unfold get?
  constructor
  · intro hlookup
    obtain ⟨before, after, hentries, -⟩ := List.lookup_eq_some_iff.mp hlookup
    simp [hentries]
  · intro hmem
    obtain ⟨before, after, hentries⟩ := List.append_of_mem hmem
    rw [List.lookup_eq_some_iff]
    refine ⟨before, after, hentries, ?_⟩
    intro entry hentry
    rw [names, hentries, List.map_append, List.nodup_append] at h
    rw [bne_iff_ne]
    intro heq
    exact h.2.2 entry.1 (List.mem_map_of_mem hentry) name (by simp) heq.symm

theorem get?_of_at? {table : Table α} (h : table.names.Nodup) {index : Nat} {name : String}
    {value : α} (hname : table.nameAt? index = some name) (hvalue : table.at? index = some value) :
    table.get? name = some value := by
  obtain ⟨key, hentry⟩ := (at?_eq_some_iff table index value).mp hvalue
  rw [nameAt?, names, List.getElem?_map, hentry, Option.map_some, Option.some.injEq] at hname
  subst hname
  exact (get?_eq_some_iff h key value).mpr (List.mem_of_getElem? hentry)

theorem exists_at?_of_get? {table : Table α} {name : String} {value : α}
    (h : table.get? name = some value) :
    ∃ index, table.nameAt? index = some name ∧ table.at? index = some value := by
  obtain ⟨before, after, hentries, -⟩ := List.lookup_eq_some_iff.mp h
  exact ⟨before.length, by simp [nameAt?, names, hentries], by simp [at?, values, hentries]⟩

/--
`table` holds what `read` makes of each part at its position, in order and under its name, and no
name stands in it twice.
-/
structure Holds (read : Nat → ρ → Except ε α) (name : α → String) (parts : List ρ)
    (table : Table α) : Prop where
  length_eq : table.entries.length = parts.length
  entry : ∀ (index : Nat) part, parts[index]? = some part →
    ∃ value, read index part = .ok value ∧ table.entries[index]? = some (name value, value)
  nodup : table.names.Nodup

namespace Holds

variable {read : Nat → ρ → Except ε α} {name : α → String} {parts : List ρ} {table : Table α}

theorem empty : Holds read name [] Table.empty where
  length_eq := rfl
  entry := by simp
  nodup := List.nodup_nil

theorem add {draft : Draft α} {part : ρ} {value : α} (h : Holds read name parts draft.toTable)
    (hread : read draft.size part = .ok value) (hnew : draft.contains (name value) = false) :
    Holds read name (parts ++ [part]) (draft.add (name value) value).toTable where
  length_eq := by
    simp [h.length_eq]
  entry := by
    intro index part' hpart
    rw [Draft.size_eq, h.length_eq] at hread
    rw [Draft.entries_toTable_add]
    by_cases hindex : index < parts.length
    · rw [List.getElem?_append_left hindex] at hpart
      rw [List.getElem?_append_left (h.length_eq ▸ hindex)]
      exact h.entry index part' hpart
    · -- the new part is the last one, and was read for this position
      have hlast : index = parts.length := by
        have := (List.getElem?_eq_some_iff.mp hpart).1
        simp at this
        omega
      subst hlast
      rw [List.getElem?_concat_length, Option.some.injEq] at hpart
      subst hpart
      refine ⟨value, hread, ?_⟩
      rw [← h.length_eq]
      apply List.getElem?_concat_length
  nodup := by
    have hmem : name value ∉ draft.toTable.names := by
      rw [← Draft.contains_iff, hnew]
      simp
    rw [names_toTable_add, List.nodup_append]
    refine ⟨h.nodup, List.nodup_singleton _, ?_⟩
    rintro key hkey _ hnew rfl
    rw [List.mem_singleton] at hnew
    exact hmem (hnew ▸ hkey)

theorem of_at? (h : Holds read name parts table) {index : Nat} {value : α}
    (hvalue : table.at? index = some value) :
    table.nameAt? index = some (name value)
      ∧ ∃ part, parts[index]? = some part ∧ read index part = .ok value := by
  obtain ⟨key, hentry⟩ := (at?_eq_some_iff table index value).mp hvalue
  have hindex : index < parts.length := by
    rw [← h.length_eq]
    exact (List.getElem?_eq_some_iff.mp hentry).1
  obtain ⟨value', hread, hentry'⟩ := h.entry index parts[index] (List.getElem?_eq_getElem hindex)
  rw [hentry, Option.some.injEq, Prod.mk.injEq] at hentry'
  obtain ⟨rfl, rfl⟩ := hentry'
  refine ⟨?_, parts[index], List.getElem?_eq_getElem hindex, hread⟩
  simp [nameAt?, names, hentry]

theorem name_of_get? (h : Holds read name parts table) {key : String} {value : α}
    (hvalue : table.get? key = some value) : name value = key := by
  obtain ⟨index, hkey, hat⟩ := exists_at?_of_get? hvalue
  rw [(h.of_at? hat).1, Option.some.injEq] at hkey
  exact hkey

theorem at?_of_part (h : Holds read name parts table) {index : Nat} {part : ρ}
    (hpart : parts[index]? = some part) :
    ∃ value, read index part = .ok value ∧ table.at? index = some value := by
  obtain ⟨value, hread, hentry⟩ := h.entry index part hpart
  exact ⟨value, hread, (at?_eq_some_iff table index value).mpr ⟨_, hentry⟩⟩

theorem names_eq (h : Holds read name parts table) {key : ρ → Option String}
    (hkey : ∀ index part value, read index part = .ok value → key part = some (name value)) :
    table.names.map some = parts.map key := by
  apply List.ext_getElem?
  intro index
  rw [List.getElem?_map, List.getElem?_map]
  cases hpart : parts[index]? with
  | none =>
    have hlength : table.entries.length ≤ index := by
      rw [h.length_eq]
      exact List.getElem?_eq_none_iff.mp hpart
    simp [names, hlength]
  | some part =>
    obtain ⟨value, hread, hentry⟩ := h.entry index part hpart
    simp [names, hentry, hkey index part value hread]

theorem names_eq_map (h : Holds read name parts table) : table.names = table.values.map name := by
  rw [names, values, List.map_map]
  apply List.map_congr_left
  intro entry hentry
  obtain ⟨index, hindex⟩ := List.mem_iff_getElem?.mp hentry
  have hvalue : table.at? index = some entry.2 :=
    (at?_eq_some_iff table index entry.2).mpr ⟨entry.1, hindex⟩
  obtain ⟨hname, -⟩ := h.of_at? hvalue
  simpa [nameAt?, names, hindex] using hname

theorem forall₂ (h : Holds read name parts table) {R : ρ → α → Prop}
    (hread : ∀ index part value, read index part = .ok value → R part value) :
    List.Forall₂ R parts table.values := by
  apply List.forall₂_of_length_eq_of_get
  · rw [values, List.length_map, h.length_eq]
  · intro index hpart hvalue
    obtain ⟨-, part, hpart', hread'⟩ := h.of_at? (List.getElem?_eq_getElem hvalue)
    rw [List.getElem?_eq_getElem hpart, Option.some.injEq] at hpart'
    subst hpart'
    exact hread index _ _ hread'

theorem nodup_map (h : Holds read name parts table) : (table.values.map name).Nodup := by
  rw [← h.names_eq_map]
  exact h.nodup

end Holds

structure Lists (R : Nat → ρ → α → Prop) (name : α → String) (parts : List ρ) (table : Table α) :
    Prop where
  length_eq : table.values.length = parts.length
  value : ∀ (index : Nat) part value, parts[index]? = some part → table.at? index = some value →
    R index part value
  names_eq : table.names = table.values.map name
  nodup : table.names.Nodup

theorem Holds.lists {read : Nat → ρ → Except ε α} {R : Nat → ρ → α → Prop} {name : α → String}
    {parts : List ρ} {table : Table α} (h : Holds read name parts table)
    (hread : ∀ (index : Nat) part value, parts[index]? = some part →
      read index part = .ok value → R index part value) :
    Lists R name parts table where
  length_eq := by rw [values, List.length_map, h.length_eq]
  value := by
    intro index part value hpart hvalue
    obtain ⟨-, part', hpart', hvalue'⟩ := h.of_at? hvalue
    obtain rfl : part = part' := Option.some.inj (hpart.symm.trans hpart')
    exact hread index part value hpart hvalue'
  names_eq := h.names_eq_map
  nodup := h.nodup

theorem Lists.forall₂ {R : ρ → α → Prop} {name : α → String} {parts : List ρ} {table : Table α}
    (h : Lists (fun _ => R) name parts table) : List.Forall₂ R parts table.values := by
  apply List.forall₂_of_length_eq_of_get h.length_eq.symm
  intro index hpart hvalue
  exact h.value index _ _ (List.getElem?_eq_getElem hpart) (List.getElem?_eq_getElem hvalue)

end Table
end Waybind
