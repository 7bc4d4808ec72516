import Waybind.Proofs.Numeral
import Waybind.Proofs.Zig.Comment

/-!
This module contains that comments in nodes never touch the code. The code of a node is that of the
same node without any documentation.
-/

namespace Waybind
namespace Zig

section Render

theorem renderVariants_eq_map (variants : List (Variant Node)) :
    renderVariants variants = variants.map renderVariant := by
  induction variants with
  | nil => rfl
  | cons variant variants ih => exact congrArg (renderVariant variant :: ·) ih

theorem renderExtra_singleton (node : Node) : renderExtra [node] = ["\n" ++ node.render] :=
  rfl

theorem Node.render_assignment (name : String) (value : Node) :
    (assignment name value).render = "pub const " ++ ident name ++ " = " ++ value.render ++ ";\n" :=
  rfl

theorem Node.render_union (variants : List (Variant Node)) (extra : List Node) :
    (union variants extra).render =
      "union(enum) \x7b" ++ String.join (variants.map renderVariant)
        ++ String.join (renderExtra extra) ++ "\x7d" := by
  rw [← renderVariants_eq_map]
  rfl

theorem Node.render_struct (backing : Option String) (fields : List Field) :
    (struct backing fields).render =
      renderBacking backing ++ "\x7b" ++ String.join (fields.map Field.render) ++ "\x7d" :=
  rfl

theorem Node.render_init (type : Option String) (fields : List (String × String)) :
    (init type fields).render =
      type.getD "." ++ "\x7b" ++ String.join (fields.map renderInit) ++ "\x7d" :=
  rfl

theorem Node.render_function (name : String) (params : List (String × String)) (result : String)
    (body : Node) :
    (function name params result body).render =
      "\npub fn " ++ ident name ++ "(" ++ String.join (params.map renderParam) ++ ") " ++ result
        ++ " \x7b\n" ++ body.render ++ "\x7d\n" :=
  rfl

theorem Node.render_ret (body : Node) : (ret body).render = "return " ++ body.render ++ ";\n" :=
  rfl

theorem Node.render_switch (value : String) (arms : List (String × String)) :
    (switch value arms).render =
      "switch (" ++ value ++ ") \x7b\n" ++ String.join (arms.map renderArm) ++ "\x7d" :=
  rfl

end Render

def Field.bare (field : Field) : Field :=
  { field with comment := none }

def Field.strings (field : Field) : List String :=
  [field.name, field.type] ++ field.default.toList

mutual

def Node.bare : Node → Node
  | .assignment name value => .assignment name value.bare
  | .union variants extra => .union (bareVariants variants) (bareNodes extra)
  | .struct backing fields => .struct backing (fields.map Field.bare)
  | .init type fields => .init type fields
  | .function name params result body => .function name params result body.bare
  | .ret body => .ret body.bare
  | .switch value arms => .switch value arms

def bareVariants : List (Variant Node) → List (Variant Node)
  | [] => []
  | ⟨name, payload, _⟩ :: variants => ⟨name, barePayload payload, none⟩ :: bareVariants variants

def barePayload : Option Node → Option Node
  | some payload => some payload.bare
  | none => none

def bareNodes : List Node → List Node
  | [] => []
  | node :: nodes => node.bare :: bareNodes nodes

end

mutual

def Node.strings : Node → List String
  | .assignment name value => name :: value.strings
  | .union variants extra => variantStrings variants ++ nodeStrings extra
  | .struct backing fields => backing.toList ++ fields.flatMap Field.strings
  | .init type fields => type.toList ++ fields.flatMap fun field => [field.1, field.2]
  | .function name params result body =>
    name :: result :: params.flatMap (fun param => [param.1, param.2]) ++ body.strings
  | .ret body => body.strings
  | .switch value arms => value :: arms.flatMap fun arm => [arm.1, arm.2]

def variantStrings : List (Variant Node) → List String
  | [] => []
  | ⟨name, payload, _⟩ :: variants => name :: payloadStrings payload ++ variantStrings variants

def payloadStrings : Option Node → List String
  | some payload => payload.strings
  | none => []

def nodeStrings : List Node → List String
  | [] => []
  | node :: nodes => node.strings ++ nodeStrings nodes

end

def Variant.bare (variant : Variant Node) : Variant Node where
  name := variant.name
  payload := barePayload variant.payload
  doc := none

theorem bareVariants_eq (variants : List (Variant Node)) :
    bareVariants variants = variants.map Variant.bare := by
  induction variants with
  | nil => rfl
  | cons variant variants ih =>
    rw [bareVariants, ih]
    rfl

theorem variantStrings_eq (variants : List (Variant Node)) :
    variantStrings variants =
      variants.flatMap fun variant => variant.name :: payloadStrings variant.payload := by
  induction variants with
  | nil => rfl
  | cons variant variants ih =>
    rw [variantStrings, ih]
    rfl

section Identifier

theorem slash_notMem_of_isNumeral {radix : Nat} {cs : List Char} {n : Nat}
    (h : Numeral.IsNumeral radix cs n) : '/' ∉ cs := by
  intro hslash
  obtain ⟨d, hdigit⟩ := h.isDigit_of_mem _ hslash
  exact absurd hdigit.toNat_cases (by decide)

theorem slash_notMem_escapeChar {c : Char} (hc : c ≠ '/') : '/' ∉ escapeChar c := by
  have hdigits := slash_notMem_of_isNumeral
    (Numeral.isNumeral_toDigits (by decide : 1 < 16) (Nat.le_refl 16) c.toNat)
  unfold escapeChar
  grind

theorem escapeChar_ne_nil (c : Char) : escapeChar c ≠ [] := by
  unfold escapeChar
  grind

theorem isChain_escape {cs : List Char} (h : cs.IsChain fun c d => c = '/' → d ≠ '/') :
    (cs.flatMap escapeChar).IsChain fun c d => c = '/' → d ≠ '/' := by
  induction cs with
  | nil => exact .nil
  | cons c cs ih =>
    obtain ⟨hhead, hcs⟩ := List.isChain_cons.mp h
    rw [List.flatMap_cons, List.isChain_append]
    by_cases hc : c = '/'
    · subst hc
      refine ⟨.singleton _, ih hcs, ?_⟩
      rintro _ _ d hd -
      cases cs with
      | nil => cases hd
      | cons e cs =>
        rw [List.flatMap_cons, List.head?_append_of_ne_nil _ (escapeChar_ne_nil e)] at hd
        rintro rfl
        exact slash_notMem_escapeChar (hhead e rfl rfl) (List.mem_of_mem_head? hd)
    · have hslash := slash_notMem_escapeChar hc
      refine ⟨isChain_of_notMem hslash, ih hcs, ?_⟩
      rintro d hd _ _ rfl
      exact absurd (List.mem_of_getLast? hd) hslash

theorem commentless_ident {name : String} (h : Commentless name) : Commentless (ident name) := by
  unfold ident
  split
  · exact h
  · have hescape : Commentless (escape name) := by
      rw [Commentless, escape, String.toList_ofList]
      exact isChain_escape h
    have hquote : Closed "@\"" := Slashless.closed (by decide)
    exact (hquote.insert hescape (by decide) (by decide)).commentless

end Identifier

section Code

theorem Field.hasCode_render {field : Field} (h : ∀ s ∈ field.strings, Commentless s) :
    HasCode field.render field.bare.render := by
  obtain ⟨name, type, default, comment⟩ := field
  obtain ⟨hname, htype, hdefault⟩ : Commentless name ∧ Commentless type
      ∧ ∀ s ∈ default.toList, Commentless s := by
    simpa [strings] using h
  have hstart : Closed (ident name ++ ": ") :=
    .start (commentless_ident hname) (by decide) (by decide)
  refine HasCode.append (Closed.hasCode ?_) (hasCode_renderComment comment)
  cases default with
  | none =>
    rw [String.append_empty]
    exact hstart.insert htype (by decide) (by decide)
  | some value =>
    have hassign := hstart.insert htype (by decide : Slashless " = ") (by decide)
    change Closed (ident name ++ ": " ++ type ++ (" = " ++ value) ++ ",")
    rw [← String.append_assoc]
    exact hassign.insert (hdefault value (by simp)) (by decide) (by decide)

theorem hasCode_renderBacking {backing : Option String}
    (h : ∀ s ∈ backing.toList, Commentless s) :
    HasCode (renderBacking backing) (renderBacking backing) := by
  cases backing with
  | none => exact Slashless.hasCode (by decide)
  | some type =>
    have hpacked : Closed "packed struct(" := Slashless.closed (by decide)
    exact (hpacked.insert (h type (by simp)) (by decide) (by decide)).hasCode

theorem hasCode_renderInit {field : String × String}
    (h : Commentless field.1 ∧ Commentless field.2) :
    HasCode (renderInit field) (renderInit field) := by
  have hdot : Closed "." := Slashless.closed (by decide)
  have hassign := hdot.insert (commentless_ident h.1) (by decide : Slashless " = ") (by decide)
  exact (hassign.insert h.2 (by decide) (by decide)).hasCode

theorem hasCode_renderParam {param : String × String}
    (h : Commentless param.1 ∧ Commentless param.2) :
    HasCode (renderParam param) (renderParam param) := by
  have hcolon : Closed (param.1 ++ ": ") := .start h.1 (by decide) (by decide)
  exact (hcolon.insert h.2 (by decide) (by decide)).hasCode

theorem hasCode_renderArm {arm : String × String} (h : Commentless arm.1 ∧ Commentless arm.2) :
    HasCode (renderArm arm) (renderArm arm) := by
  have harrow : Closed (arm.1 ++ " => ") := .start h.1 (by decide) (by decide)
  exact (harrow.insert h.2 (by decide) (by decide)).hasCode

theorem forall_mem_pairs {pairs : List (String × String)}
    (h : ∀ s ∈ pairs.flatMap (fun pair => [pair.1, pair.2]), Commentless s) :
    ∀ pair ∈ pairs, Commentless pair.1 ∧ Commentless pair.2 := by
  intro pair hpair
  exact ⟨h _ (List.mem_flatMap.mpr ⟨pair, hpair, by simp⟩),
    h _ (List.mem_flatMap.mpr ⟨pair, hpair, by simp⟩)⟩

mutual

theorem Node.hasCode_render (node : Node) (h : ∀ s ∈ node.strings, Commentless s) :
    HasCode node.render node.bare.render := by
  -- what stands between two names has no slash at its ends, so that no `//` arises where they meet
  match node with
  | .assignment name value =>
    obtain ⟨hname, hvalue⟩ := List.forall_mem_cons.mp h
    have hconst : Closed "pub const " := Slashless.closed (by decide)
    have hassign :=
      hconst.insert (commentless_ident hname) (by decide : Slashless " = ") (by decide)
    have hend : Slashless ";" := by decide
    exact (hassign.hasCode.append (value.hasCode_render hvalue)).append hend.hasCode
  | .union variants extra =>
    obtain ⟨hvariants, hextra⟩ := List.forall_mem_append.mp h
    have hopen : Slashless "union(enum) \x7b" := by decide
    exact ((hopen.hasCode.append (hasCode_renderVariants variants hvariants)).append
      (hasCode_renderExtra extra hextra)).append (Slashless.hasCode (by decide))
  | .struct backing fields =>
    obtain ⟨hbacking, hfields⟩ := List.forall_mem_append.mp h
    have hopen : Slashless "\x7b" := by decide
    have hrender : HasCode (String.join (fields.map Field.render))
        (String.join ((fields.map Field.bare).map Field.render)) := by
      rw [List.map_map]
      refine .join fun field hfield => Field.hasCode_render fun s hs => ?_
      exact hfields s (List.mem_flatMap.mpr ⟨field, hfield, hs⟩)
    exact (((hasCode_renderBacking hbacking).append hopen.hasCode).append hrender).append
      (Slashless.hasCode (by decide))
  | .init type fields =>
    obtain ⟨htype, hfields⟩ := List.forall_mem_append.mp h
    have hopen : Closed (type.getD "." ++ "\x7b") := by
      refine .start ?_ (by decide) (by decide)
      cases type with
      | none => exact (Slashless.closed (by decide)).commentless
      | some type => exact htype type (by simp)
    have hrender : HasCode (String.join (fields.map renderInit)) _ :=
      .join fun field hfield => hasCode_renderInit (forall_mem_pairs hfields field hfield)
    exact (hopen.hasCode.append hrender).append (Slashless.hasCode (by decide))
  | .function name params result body =>
    obtain ⟨hname, h⟩ := List.forall_mem_cons.mp h
    obtain ⟨hresult, h⟩ := List.forall_mem_cons.mp h
    obtain ⟨hparams, hbody⟩ := List.forall_mem_append.mp h
    have hfn : Closed "\npub fn " := Slashless.closed (by decide)
    have hopen := hfn.insert (commentless_ident hname) (by decide : Slashless "(") (by decide)
    have hrender : HasCode (String.join (params.map renderParam)) _ :=
      .join fun param hparam => hasCode_renderParam (forall_mem_pairs hparams param hparam)
    have hclose : Closed ") " := Slashless.closed (by decide)
    have hreturn := hclose.insert hresult (by decide : Slashless " \x7b\n") (by decide)
    have h := ((hopen.hasCode.append hrender).append hreturn.hasCode).append
      (body.hasCode_render hbody)
    simp only [← String.append_assoc] at h
    exact h.append (Slashless.hasCode (by decide))
  | .ret body =>
    have hreturn : Slashless "return " := by decide
    exact (hreturn.hasCode.append (body.hasCode_render h)).append (Slashless.hasCode (by decide))
  | .switch value arms =>
    obtain ⟨hvalue, harms⟩ := List.forall_mem_cons.mp h
    have hswitch : Closed "switch (" := Slashless.closed (by decide)
    have hopen := hswitch.insert hvalue (by decide : Slashless ") \x7b\n") (by decide)
    have hrender : HasCode (String.join (arms.map renderArm)) _ :=
      .join fun arm harm => hasCode_renderArm (forall_mem_pairs harms arm harm)
    exact (hopen.hasCode.append hrender).append (Slashless.hasCode (by decide))

theorem hasCode_renderVariants (variants : List (Variant Node))
    (h : ∀ s ∈ variantStrings variants, Commentless s) :
    HasCode (String.join (renderVariants variants))
      (String.join (renderVariants (bareVariants variants))) := by
  match variants with
  | [] => exact .empty
  | ⟨name, payload, doc⟩ :: variants =>
    obtain ⟨hname, h⟩ := List.forall_mem_cons.mp h
    obtain ⟨hpayload, hvariants⟩ := List.forall_mem_append.mp h
    have hcolon : Closed (ident name ++ ": ") :=
      .start (commentless_ident hname) (by decide) (by decide)
    -- the documentation is all that the bare variant lacks
    have hdoc : HasCode (comment doc "///") (comment none "///") :=
      hasCode_comment doc rfl (by decide : '\n' ∉ ['/'])
    have hend : Slashless "," := by decide
    have hvariant := ((hdoc.append hcolon.hasCode).append
      (hasCode_renderPayload payload hpayload)).append hend.hasCode
    simp only [← String.append_assoc] at hvariant
    rw [renderVariants, bareVariants, renderVariants, String.join_cons, String.join_cons]
    exact hvariant.append (hasCode_renderVariants variants hvariants)

theorem hasCode_renderPayload (payload : Option Node)
    (h : ∀ s ∈ payloadStrings payload, Commentless s) :
    HasCode (renderPayload payload) (renderPayload (barePayload payload)) := by
  match payload with
  | some payload => exact payload.hasCode_render h
  | none => exact Slashless.hasCode (by decide)

theorem hasCode_renderExtra (extra : List Node) (h : ∀ s ∈ nodeStrings extra, Commentless s) :
    HasCode (String.join (renderExtra extra)) (String.join (renderExtra (bareNodes extra))) := by
  match extra with
  | [] => exact .empty
  | node :: extra =>
    obtain ⟨hnode, hextra⟩ := List.forall_mem_append.mp h
    have hbreak : Slashless "\n" := by decide
    rw [renderExtra, bareNodes, renderExtra, String.join_cons, String.join_cons]
    exact (hbreak.hasCode.append (node.hasCode_render hnode)).append
      (hasCode_renderExtra extra hextra)

end

theorem commentless_of_not_infix {text : String} (h : ¬ "//".toList <:+: text.toList) :
    Commentless text := by
  rw [Commentless, List.isChain_iff_forall_rel_of_append_cons_cons]
  rintro c d before after htext rfl rfl
  exact h ⟨before, after, by simp [htext]⟩

/--
The text of a node in which only the documentation has `//`, without its comments and white space,
is that of the node without its documentation. It does not matter what the documentation is.
-/
theorem Node.code_render_eq (node : Node)
    (h : ∀ s ∈ node.strings, ¬ "//".toList <:+: s.toList) :
    withoutBlanks (withoutComments node.render.toList) =
      withoutBlanks node.bare.render.toList := by
  have hcode := node.hasCode_render (fun s hs => commentless_of_not_infix (h s hs)) []
  rwa [List.append_nil, show code [] = [] from rfl, List.append_nil] at hcode

def notedUnion : Node :=
  .union [
      ⟨"done", none, some " all // done\n\n\x7d; \"really\"\r\n"⟩,
      ⟨"a/", some (.struct none [⟨"x", "u32", some "0", some "// not\n code \x7d"⟩]), some "//"⟩]
    [.function "f" [("x", "u8")] "void" (.ret (.switch "x" [("0", "1/2")]))]

theorem code_render_notedUnion :
    (∀ s ∈ notedUnion.strings, ¬ "//".toList <:+: s.toList)
    ∧ notedUnion.render ≠ notedUnion.bare.render
    ∧ withoutBlanks (withoutComments notedUnion.render.toList) =
      withoutBlanks notedUnion.bare.render.toList := by
  have hstrings : ∀ s ∈ notedUnion.strings, ¬ "//".toList <:+: s.toList := by decide
  exact ⟨hstrings, by decide, notedUnion.code_render_eq hstrings⟩

end Code
end Zig
end Waybind
