import Mathlib.Data.List.Nodup
import Waybind.Zig.Node

/-!
This module contains texts with marks on the names that they declare and on the scopes of these
names. The text of a node is marked.
-/

namespace Waybind
namespace Zig

/--
A piece of marked text: a `name` is declared in the scope that it stands in, and a `scope` is a
scope of its own.
-/
inductive Mark where
  | text (text : String)
  | name (identifier : String)
  | scope (marks : List Mark)

def Mark.name? : Mark → Option String
  | .name identifier => some identifier
  | _ => none

mutual

def Mark.render : Mark → String
  | .text text => text
  | .name identifier => identifier
  | .scope marks => renderMarks marks

def renderMarks : List Mark → String
  | [] => ""
  | mark :: marks => mark.render ++ renderMarks marks

end

def declaredNames (marks : List Mark) : List String :=
  marks.filterMap Mark.name?

mutual

def Mark.scopes : Mark → List (List String)
  | .text _ => []
  | .name _ => []
  | .scope marks => declaredNames marks :: scopesOf marks

def scopesOf : List Mark → List (List String)
  | [] => []
  | mark :: marks => mark.scopes ++ scopesOf marks

end

def Distinct (marks : List Mark) : Prop :=
  ∀ scope ∈ scopesOf marks, scope.Nodup

instance (marks : List Mark) : Decidable (Distinct marks) :=
  inferInstanceAs (Decidable (∀ scope ∈ scopesOf marks, scope.Nodup))

section Append

variable {α : Type} (marks marks' : List Mark) (f : α → List Mark) (xs : List α)

theorem renderMarks_append :
    renderMarks (marks ++ marks') = renderMarks marks ++ renderMarks marks' := by
  induction marks with
  | nil => rw [List.nil_append, renderMarks, String.empty_append]
  | cons mark marks ih => rw [List.cons_append, renderMarks, ih, renderMarks, String.append_assoc]

theorem renderMarks_flatMap :
    renderMarks (xs.flatMap f) = String.join (xs.map fun x => renderMarks (f x)) := by
  induction xs with
  | nil => rfl
  | cons x xs ih => rw [List.flatMap_cons, renderMarks_append, ih, List.map_cons, String.join_cons]

theorem declaredNames_append :
    declaredNames (marks ++ marks') = declaredNames marks ++ declaredNames marks' :=
  List.filterMap_append

theorem declaredNames_flatMap :
    declaredNames (xs.flatMap f) = xs.flatMap fun x => declaredNames (f x) :=
  List.filterMap_flatMap

theorem scopesOf_append : scopesOf (marks ++ marks') = scopesOf marks ++ scopesOf marks' := by
  induction marks with
  | nil => rfl
  | cons mark marks ih => rw [List.cons_append, scopesOf, ih, scopesOf, List.append_assoc]

theorem distinct_append : Distinct (marks ++ marks') ↔ Distinct marks ∧ Distinct marks' := by
  rw [Distinct, scopesOf_append, List.forall_mem_append]
  rfl

theorem distinct_flatMap : Distinct (xs.flatMap f) ↔ ∀ x ∈ xs, Distinct (f x) := by
  induction xs with
  | nil => simp [Distinct, scopesOf]
  | cons x xs ih => rw [List.flatMap_cons, distinct_append, ih, List.forall_mem_cons]

@[simp]
theorem distinct_nil : Distinct [] := by
  simp [Distinct, scopesOf]

@[simp]
theorem distinct_text (text : String) : Distinct (.text text :: marks) ↔ Distinct marks := by
  rfl

@[simp]
theorem distinct_name (identifier : String) :
    Distinct (.name identifier :: marks) ↔ Distinct marks := by
  rfl

@[simp]
theorem distinct_scope :
    Distinct (.scope marks :: marks') ↔
      (declaredNames marks).Nodup ∧ Distinct marks ∧ Distinct marks' := by
  rw [Distinct, scopesOf, Mark.scopes, List.cons_append, List.forall_mem_cons,
    List.forall_mem_append]
  rfl

end Append

def Field.renderRest (field : Field) : String :=
  ": " ++ field.type ++ (field.default.map (" = " ++ ·)).getD "" ++ ","
    ++ renderComment field.comment

def Field.marks (field : Field) : List Mark :=
  [.name (ident field.name), .text field.renderRest]

mutual

/--
The marked text of a node. The declarations that follow the variants of a union are not marked.
-/
def Node.marks : Node → List Mark
  | .assignment name value =>
    [.text "pub const ", .name (ident name), .text " = "] ++ value.marks ++ [.text ";\n"]
  | .union variants extra => [
    .text "union(enum) \x7b",
    .scope (variantsMarks variants),
    .text (String.join (renderExtra extra)),
    .text "\x7d"]
  | .struct backing fields => [
    .text (renderBacking backing),
    .text "\x7b",
    .scope (fields.flatMap Field.marks),
    .text "\x7d"]
  | node => [.text node.render]

def variantsMarks : List (Variant Node) → List Mark
  | [] => []
  | variant :: variants => variantMarks variant ++ variantsMarks variants

def variantMarks : Variant Node → List Mark
  | ⟨name, payload, doc⟩ =>
    [.text (comment doc "///"), .name (ident name), .text ": "] ++ payloadMarks payload
      ++ [.text ","]

def payloadMarks : Option Node → List Mark
  | some payload => payload.marks
  | none => [.text "void"]

end

theorem Node.marks_assignment (name : String) (value : Node) :
    (Node.assignment name value).marks =
      [.text "pub const ", .name (ident name), .text " = "] ++ value.marks ++ [.text ";\n"] := by
  rfl

theorem variantsMarks_eq (variants : List (Variant Node)) :
    variantsMarks variants = variants.flatMap variantMarks := by
  induction variants with
  | nil => rfl
  | cons variant variants ih => rw [variantsMarks, ih, List.flatMap_cons]

theorem Field.renderMarks_marks (field : Field) : renderMarks field.marks = field.render := by
  obtain ⟨name, type, default, comment⟩ := field
  cases default with
  | none => simp [marks, renderRest, renderMarks, Mark.render, render, String.append_assoc]
  | some value => simp [marks, renderRest, renderMarks, Mark.render, render, String.append_assoc]

mutual

theorem Node.renderMarks_marks (node : Node) : renderMarks node.marks = node.render := by
  match node with
  | .assignment name value =>
    have hrender : (Node.assignment name value).render =
        "pub const " ++ ident name ++ " = " ++ value.render ++ ";\n" := by
      rfl
    rw [Node.marks_assignment, hrender, renderMarks_append, renderMarks_append,
      value.renderMarks_marks]
    simp [renderMarks, Mark.render, String.append_assoc]
  | .union variants extra =>
    have hmarks : renderMarks (Node.union variants extra).marks =
        "union(enum) \x7b" ++ (renderMarks (variantsMarks variants)
          ++ (String.join (renderExtra extra) ++ ("\x7d" ++ ""))) := by
      rfl
    have hrender : (Node.union variants extra).render =
        "union(enum) \x7b" ++ String.join (renderVariants variants)
          ++ String.join (renderExtra extra) ++ "\x7d" := by
      rfl
    rw [hmarks, hrender, renderMarks_variantsMarks variants]
    simp [String.append_assoc]
  | .struct backing fields =>
    have hmarks : renderMarks (Node.struct backing fields).marks =
        renderBacking backing ++ ("\x7b" ++ (renderMarks (fields.flatMap Field.marks)
          ++ ("\x7d" ++ ""))) := by
      rfl
    have hrender : (Node.struct backing fields).render =
        renderBacking backing ++ "\x7b" ++ String.join (fields.map Field.render) ++ "\x7d" := by
      rfl
    rw [hmarks, hrender, renderMarks_flatMap]
    simp [Field.renderMarks_marks, String.append_assoc]
  | .init type fields => exact String.append_empty
  | .function name params result body => exact String.append_empty
  | .ret body => exact String.append_empty
  | .switch value arms => exact String.append_empty

theorem renderMarks_variantsMarks (variants : List (Variant Node)) :
    renderMarks (variantsMarks variants) = String.join (renderVariants variants) := by
  match variants with
  | [] => rfl
  | ⟨name, payload, doc⟩ :: variants =>
    have hmarks : renderMarks (variantsMarks (⟨name, payload, doc⟩ :: variants)) =
        renderMarks ([.text (comment doc "///"), .name (ident name), .text ": "]
          ++ payloadMarks payload ++ [.text ","] ++ variantsMarks variants) := by
      rfl
    rw [hmarks, renderMarks_append, renderMarks_append, renderMarks_append,
      renderMarks_variantsMarks variants, renderMarks_payloadMarks payload, renderVariants,
      String.join_cons, renderVariant]
    simp [renderMarks, Mark.render, String.append_assoc]

theorem renderMarks_payloadMarks (payload : Option Node) :
    renderMarks (payloadMarks payload) = renderPayload payload := by
  match payload with
  | some payload => exact payload.renderMarks_marks
  | none => rfl

end

end Zig
end Waybind
