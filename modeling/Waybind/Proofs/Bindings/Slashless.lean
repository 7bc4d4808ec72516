import Waybind.Proofs.Bindings.Imports
import Waybind.Proofs.Protocol.Erase
import Waybind.Proofs.Registry.Resolution
import Waybind.Proofs.Utf8
import Waybind.Proofs.Zig.Node

/-!
This module contains that no slash gets into the code of bindings but by a name. Names, types and
expressions are spelled out from the names in protocols and from a few fixed texts.
-/

namespace Waybind

namespace Zig

theorem slashless_ident {name : String} (h : Slashless name) : Slashless (ident name) := by
  unfold ident
  split
  · exact h
  · have hescape : Slashless (escape name) := by
      rw [Slashless, escape, String.toList_ofList, List.mem_flatMap]
      rintro ⟨c, hc, hslash⟩
      exact slash_notMem_escapeChar (fun heq => h (heq ▸ hc)) hslash
    have hquote : Slashless "@\"" := by decide
    exact (hquote.append hescape).append (by decide)

theorem eq_slash_of_upperAscii {b : UInt8} (h : upperAscii b = 0x2F) : b = 0x2F := by
  unfold upperAscii at h
  grind

theorem slash_notMem_camelBytes {bytes : List UInt8} (h : 0x2F ∉ bytes) (raise : Bool) :
    0x2F ∉ camelBytes raise bytes := by
  induction bytes generalizing raise with
  | nil => exact h
  | cons b bytes ih =>
    rw [List.mem_cons, not_or] at h
    rw [camelBytes]
    split
    · exact ih h.2 true
    · rw [List.mem_cons, not_or]
      refine ⟨?_, ih h.2 false⟩
      split
      · exact fun heq => h.1 (eq_slash_of_upperAscii heq.symm).symm
      · exact h.1

theorem slashless_camel {name : String} (h : Slashless name) : Slashless (camel name) := by
  have hbytes : (0x2F : UInt8) ∉ Utf8.encode name := by
    rw [Utf8.encode_eq]
    exact mt (Utf8.mem_encodeChars_iff (by decide : '/'.toNat < 128) _).mp h
  rw [Slashless, camel, String.toList_ofList, List.mem_map]
  rintro ⟨b, hb, hslash⟩
  have heq : b = 0x2F := by
    have hnumber : (Char.ofNat b.toNat).toNat = 0x2F := congrArg Char.toNat hslash
    rw [Utf8.toNat_charOfNat] at hnumber
    exact UInt8.toNat_inj.mp hnumber
  exact slash_notMem_camelBytes hbytes true (heq ▸ hb)

theorem slashless_toString (n : Nat) : Slashless (toString n) := by
  rw [Slashless, Nat.toString_eq_ofList_toDigits, String.toList_ofList]
  exact slash_notMem_of_isNumeral (Numeral.isNumeral_toDigits (by decide) (by decide) n)

theorem slashless_toString_int (v : Int) : Slashless (toString v) := by
  cases v with
  | ofNat n => exact slashless_toString n
  | negSucc n =>
    have hminus : Slashless "-" := by decide
    exact hminus.append (slashless_toString (n + 1))

theorem slashless_render_init {type : Option String} {fields : List (String × String)}
    (htype : Slashless (type.getD "."))
    (hfields : ∀ field ∈ fields, Slashless field.1 ∧ Slashless field.2) :
    Slashless (Node.init type fields).render := by
  have hjoin : Slashless (String.join (fields.map renderInit)) := by
    apply slashless_join
    rw [List.forall_mem_map]
    intro field hfield
    obtain ⟨hname, hvalue⟩ := hfields field hfield
    have hdot : Slashless "." := by decide
    have hassign : Slashless " = " := by decide
    exact (((hdot.append (slashless_ident hname)).append hassign).append hvalue).append (by decide)
  have hopen : Slashless "\x7b" := by decide
  exact ((htype.append hopen).append hjoin).append (by decide)

def Node.Slashless (node : Node) : Prop :=
  ∀ s ∈ node.strings, Zig.Slashless s

namespace Node.Slashless

theorem pairs {pairs : List (String × String)}
    (h : ∀ pair ∈ pairs, Zig.Slashless pair.1 ∧ Zig.Slashless pair.2) :
    ∀ s ∈ pairs.flatMap (fun pair => [pair.1, pair.2]), Zig.Slashless s := by
  intro s hs
  obtain ⟨pair, hpair, hs⟩ := List.mem_flatMap.mp hs
  rcases List.mem_pair.mp hs with rfl | rfl
  · exact (h pair hpair).1
  · exact (h pair hpair).2

theorem assignment {name : String} {value : Node} (hname : Zig.Slashless name)
    (hvalue : value.Slashless) : (Node.assignment name value).Slashless :=
  List.forall_mem_cons.mpr ⟨hname, hvalue⟩

theorem union {variants : List (Variant Node)} {extra : Node}
    (hvariants : ∀ variant ∈ variants, Zig.Slashless variant.name
      ∧ ∀ payload ∈ variant.payload, payload.Slashless)
    (hextra : extra.Slashless) : (Node.union variants [extra]).Slashless := by
  refine List.forall_mem_append.mpr ⟨?_, ?_⟩
  · rw [variantStrings_eq]
    intro s hs
    obtain ⟨variant, hvariant, hs⟩ := List.mem_flatMap.mp hs
    obtain ⟨hname, hpayload⟩ := hvariants variant hvariant
    rcases List.mem_cons.mp hs with rfl | hs
    · exact hname
    · cases hsome : variant.payload with
      | none =>
        rw [hsome] at hs
        cases hs
      | some payload =>
        rw [hsome] at hs
        exact hpayload payload hsome s hs
  · rw [nodeStrings, nodeStrings, List.append_nil]
    exact hextra

theorem struct {backing : Option String} {fields : List Field}
    (hbacking : ∀ type ∈ backing, Zig.Slashless type)
    (hfields : ∀ field ∈ fields, ∀ s ∈ field.strings, Zig.Slashless s) :
    (Node.struct backing fields).Slashless := by
  refine List.forall_mem_append.mpr ⟨?_, ?_⟩
  · intro type htype
    exact hbacking type (Option.mem_toList.mp htype)
  · intro s hs
    obtain ⟨field, hfield, hs⟩ := List.mem_flatMap.mp hs
    exact hfields field hfield s hs

theorem init {type : String} {fields : List (String × String)} (htype : Zig.Slashless type)
    (hfields : ∀ field ∈ fields, Zig.Slashless field.1 ∧ Zig.Slashless field.2) :
    (Node.init (some type) fields).Slashless :=
  List.forall_mem_append.mpr ⟨List.forall_mem_singleton.mpr htype, pairs hfields⟩

theorem function {name result : String} {params : List (String × String)} {body : Node}
    (hname : Zig.Slashless name)
    (hparams : ∀ param ∈ params, Zig.Slashless param.1 ∧ Zig.Slashless param.2)
    (hresult : Zig.Slashless result) (hbody : body.Slashless) :
    (Node.function name params result body).Slashless := by
  refine List.forall_mem_append.mpr ⟨?_, hbody⟩
  exact List.forall_mem_cons.mpr ⟨hname, List.forall_mem_cons.mpr ⟨hresult, pairs hparams⟩⟩

theorem switch {value : String} {arms : List (String × String)} (hvalue : Zig.Slashless value)
    (harms : ∀ arm ∈ arms, Zig.Slashless arm.1 ∧ Zig.Slashless arm.2) :
    (Node.ret (.switch value arms)).Slashless :=
  List.forall_mem_cons.mpr ⟨hvalue, pairs harms⟩

theorem hasCode {node : Node} (h : node.Slashless) : HasCode node.render node.bare.render :=
  node.hasCode_render fun s hs => (h s hs).closed.commentless

end Node.Slashless
end Zig

open Zig (Slashless TypeExpr Conversion Node)

def Interface.Slashless (interface : Interface) : Prop :=
  ∀ name ∈ interface.allNames, Zig.Slashless name

def Registry.Slashless (registry : Registry) : Prop :=
  ∀ protocol ∈ registry.protocols, ∀ name ∈ protocol.allNames, Zig.Slashless name

namespace Interface.Slashless

variable {interface : Interface} (h : interface.Slashless)

include h

theorem family : Zig.Slashless interface.family :=
  h _ (by simp [allNames])

theorem name : Zig.Slashless interface.name :=
  h _ (by simp [allNames])

theorem handleName : Zig.Slashless interface.handleName :=
  Zig.slashless_camel h.name

theorem message {message : Message} (hmessage : message ∈ Bindings.messages interface) :
    ∀ name ∈ message.allNames, Zig.Slashless name := by
  intro name hname
  refine h name ?_
  simp only [allNames, List.mem_append, List.mem_flatMap]
  rcases List.mem_append.mp hmessage with hmem | hmem
  · obtain ⟨event, hevent, rfl⟩ := List.mem_map.mp hmem
    exact .inl (.inr ⟨event, hevent, hname⟩)
  · obtain ⟨request, hrequest, rfl⟩ := List.mem_map.mp hmem
    exact .inl (.inl (.inr ⟨request, hrequest, hname⟩))

theorem enum {enum : Enumeration} (henum : enum ∈ interface.enums.values) :
    ∀ name ∈ enum.allNames, Zig.Slashless name := by
  intro name hname
  refine h name ?_
  simp only [allNames, List.mem_append, List.mem_flatMap]
  exact .inr ⟨enum, henum, hname⟩

end Interface.Slashless

namespace Bindings

open Lookup

theorem slashless_qualifier {owner : Interface} (h : owner.Slashless) (current : Interface) :
    Slashless (Zig.renderQualifier (qualifier current owner)) := by
  unfold qualifier
  split
  · decide
  · exact h.family.append (by decide)

theorem slashless_render_enumTypeOf {owner : Interface} (h : owner.Slashless)
    {enum : Enumeration} (henum : enum ∈ owner.enums.values) (current : Interface) :
    Slashless (enumTypeOf current owner enum).render := by
  have hname : Slashless enum.typeName := Zig.slashless_camel (h.enum henum _ List.mem_cons_self)
  unfold enumTypeOf
  split
  · exact hname
  · have hdot : Slashless "." := by decide
    exact (((slashless_qualifier h current).append h.handleName).append hdot).append hname

theorem slashless_render_orNull {type : TypeExpr} (h : Slashless type.render) (nullable : Bool) :
    Slashless (orNull nullable type).render := by
  cases nullable with
  | false => exact h
  | true =>
    have hmark : Slashless "?" := by decide
    exact hmark.append h

theorem slashless_enclosed {before raw : String} (hbefore : Slashless before)
    (hraw : Slashless raw) : Slashless (before ++ raw ++ ")") := by
  exact (hbefore.append hraw).append (by decide)

section Lookups

variable {registry : Registry} (hcoherent : registry.Coherent) (hslashless : registry.Slashless)
  {place : Place} (hplace : Registered registry place)

include hslashless in
theorem slashless_of_declared {interface : Interface} (h : Declared registry interface) :
    interface.Slashless := by
  obtain ⟨protocol, hprotocol, hinterface⟩ := h
  intro name hname
  exact hslashless protocol hprotocol name (List.mem_flatMap.mpr ⟨interface, hinterface, hname⟩)

include hcoherent hslashless hplace

theorem slashless_handleType {name : String} {type : TypeExpr}
    (h : eval registry (handleType place name) = .ok type) : Slashless type.render := by
  rw [handleType, bind_pure_comp, eval_map] at h
  obtain ⟨owner, hfound, rfl⟩ := (Except.map_eq_ok_iff _ _ _).mp h
  have howner := slashless_of_declared hslashless
    ((finds_findInterface hcoherent hplace.protocol_mem name).of_eval hcoherent hfound)
  exact (slashless_qualifier howner place.interface).append howner.handleName

theorem exists_handle_of_map {α : Type} {name : String} {f : TypeExpr → α} {a : α}
    (h : eval registry (f <$> handleType place name) = .ok a) :
    ∃ handle : TypeExpr, f handle = a ∧ Slashless handle.render := by
  rw [eval_map] at h
  obtain ⟨handle, hhandle, heq⟩ := (Except.map_eq_ok_iff _ _ _).mp h
  exact ⟨handle, heq, slashless_handleType hcoherent hslashless hplace hhandle⟩

theorem slashless_enumType {name : String} {type : TypeExpr}
    (h : eval registry (enumType place name) = .ok type) : Slashless type.render := by
  rw [enumType, bind_pure_comp, eval_map] at h
  obtain ⟨⟨owner, enum⟩, hfound, rfl⟩ := (Except.map_eq_ok_iff _ _ _).mp h
  have howner := slashless_of_declared hslashless
    ((finds_findEnum hcoherent hplace name).of_eval hcoherent hfound)
  rw [eval_findEnum_eq_ok_iff hcoherent hplace] at hfound
  exact slashless_render_enumTypeOf howner hfound.mem_enums place.interface

theorem slashless_argType {arg : Arg} {type : TypeExpr}
    (h : eval registry (argType place arg .typed) = .ok type) : Slashless type.render := by
  revert h
  unfold argType integerType
  cases arg.type with
  | int | uint =>
    cases arg.enum with
    | none =>
      rintro ⟨⟩
      decide
    | some name => exact slashless_enumType hcoherent hslashless hplace
  | fixed | fd =>
    rintro ⟨⟩
    decide
  | string =>
    rintro ⟨⟩
    exact slashless_render_orNull (by decide) arg.allowNull
  | newId =>
    cases arg.interface with
    | none =>
      rintro ⟨⟩
      decide
    | some name => exact slashless_handleType hcoherent hslashless hplace
  | object =>
    cases arg.interface with
    | none =>
      rintro ⟨⟩
      exact slashless_render_orNull (by decide) arg.allowNull
    | some name =>
      intro h
      obtain ⟨handle, rfl, hrender⟩ := exists_handle_of_map hcoherent hslashless hplace h
      exact slashless_render_orNull hrender arg.allowNull
  | array =>
    cases arg.interface with
    | none =>
      rintro ⟨⟩
      decide
    | some name =>
      intro h
      obtain ⟨handle, rfl, hrender⟩ := exists_handle_of_map hcoherent hslashless hplace h
      have hbrackets : Slashless "[]" := by decide
      exact hbrackets.append hrender

theorem slashless_conversion {arg : Arg} {converted : Conversion}
    (h : eval registry (conversion place arg) = .ok converted) {raw : String}
    (hraw : Slashless raw) : Slashless (converted.render raw) := by
  have hid : Slashless ((idConversion arg).render raw) := by
    unfold idConversion
    split
    · exact slashless_enclosed (by decide) hraw
    · exact hraw
  revert h
  unfold conversion integerConversion
  cases arg.type with
  | int | uint =>
    cases arg.enum with
    | none =>
      rintro ⟨⟩
      exact hraw
    | some name =>
      intro h
      simp only [bind_pure_comp, eval_map] at h
      obtain ⟨found, -, rfl⟩ := (Except.map_eq_ok_iff _ _ _).mp h
      split
      · exact slashless_enclosed (by decide) hraw
      · exact slashless_enclosed (by decide) hraw
  | fixed | string | fd =>
    rintro ⟨⟩
    exact hraw
  | newId =>
    rintro ⟨⟩
    exact hid
  | object =>
    rintro ⟨⟩
    split
    · have hif : Slashless "if (" := by decide
      have helse : Slashless " == 0) null else " := by decide
      exact ((hif.append hraw).append helse).append hid
    · exact hid
  | array =>
    have hslice {element : TypeExpr} (helement : Slashless element.render) :
        Slashless ((Conversion.slice element).render raw) := by
      have hmethod : Slashless ".slice(" := by decide
      exact ((hraw.append hmethod).append helement).append (by decide)
    cases arg.interface with
    | none =>
      rintro ⟨⟩
      exact hslice (by decide)
    | some name =>
      intro h
      obtain ⟨handle, rfl, hrender⟩ := exists_handle_of_map hcoherent hslashless hplace h
      exact hslice hrender

theorem slashless_returnType {request : Request} {result : ReturnType}
    (h : eval registry (returnType place request) = .ok result) (hname : Slashless request.name) :
    Slashless result.render := by
  have hinterface : place.interface.Slashless :=
    slashless_of_declared hslashless ⟨place.protocol, hplace.protocol_mem, hplace.interface_mem⟩
  unfold returnType at h
  split at h
  · obtain ⟨handle, rfl, hrender⟩ := exists_handle_of_map hcoherent hslashless hplace h
    exact hrender
  · obtain rfl : ReturnType.unknown place.interface.handleName request.name = result :=
      Except.ok.inj h
    have herror : Slashless "@compileError(\"" := by decide
    have hdot : Slashless "." := by decide
    exact (((herror.append hinterface.handleName).append hdot).append hname).append
      (by decide +kernel)
  · cases h
    decide

end Lookups

structure Typing.Slashless (typing : Typing) (interface : Interface) : Prop where
  type : ∀ arg, Zig.Slashless (typing.type arg).render
  conversion : ∀ arg raw, Zig.Slashless raw → Zig.Slashless ((typing.conversion arg).render raw)
  result : ∀ request ∈ interface.requests.values, Zig.Slashless (typing.result request).render

theorem value_of_forall_ok {ε α : Type} [Inhabited α] {registry : Registry}
    {m : LookupM ε α} {P : α → Prop} (hdefault : P default)
    (h : ∀ a, eval registry m = .ok a → P a) : P (value registry m) := by
  unfold value
  split
  · next a ha => exact h a ha
  · exact hdefault

theorem slashless_typing {registry : Registry} (hcoherent : registry.Coherent)
    (hslashless : registry.Slashless) {place : Place} (hplace : Registered registry place) :
    (typing registry place).Slashless place.interface where
  type := by
    intro arg
    refine value_of_forall_ok (P := fun type : TypeExpr => Slashless type.render) (by decide) ?_
    intro type htype
    exact slashless_argType hcoherent hslashless hplace htype
  conversion := by
    intro arg raw hraw
    refine value_of_forall_ok
      (P := fun converted : Conversion => Slashless (converted.render raw)) hraw ?_
    intro converted hconverted
    exact slashless_conversion hcoherent hslashless hplace hconverted hraw
  result := by
    intro request hrequest
    have hinterface : place.interface.Slashless :=
      slashless_of_declared hslashless ⟨place.protocol, hplace.protocol_mem, hplace.interface_mem⟩
    have hmessage : request.toMessage ∈ messages place.interface :=
      List.mem_append_right _ (List.mem_map_of_mem hrequest)
    refine value_of_forall_ok (P := fun result : ReturnType => Slashless result.render)
      (by decide) ?_
    intro result hresult
    exact slashless_returnType hcoherent hslashless hplace hresult
      (hinterface.message hmessage _ List.mem_cons_self)

section Nodes

variable {typing : Typing} {interface : Interface} (htyping : typing.Slashless interface)
  (hinterface : interface.Slashless)

theorem slashless_wireType (type : WireType) : Slashless type.name := by
  cases type with
  | int | uint | fixed | string | object | newId | array | fd => decide

theorem slashless_rawArg (arg : Arg) (index : Nat) : Slashless (rawArg arg index) := by
  have hargs : Slashless "args[" := by decide
  have hdot : Slashless "]." := by decide
  exact ((hargs.append (Zig.slashless_toString index)).append hdot).append
    (slashless_wireType arg.type)

theorem slashless_argDefault? (arg : Arg) : ∀ value ∈ argDefault? arg, Slashless value := by
  unfold argDefault?
  split
  · rintro _ ⟨⟩
    decide
  · rintro _ ⟨⟩
    decide
  · rintro _ ⟨⟩

include htyping in
theorem slashless_variant {message : Message}
    (hmessage : ∀ name ∈ message.allNames, Slashless name) (defaults : Bool) :
    Slashless (typing.variant defaults message).name
      ∧ ∀ payload ∈ (typing.variant defaults message).payload, payload.Slashless := by
  obtain ⟨hname, hargs⟩ := List.forall_mem_cons.mp hmessage
  refine ⟨hname, ?_⟩
  unfold Typing.variant
  simp only
  split
  · rintro _ ⟨⟩
  · rintro _ ⟨⟩
    refine .struct (by rintro _ ⟨⟩) ?_
    rw [List.forall_mem_map]
    intro arg harg
    refine List.forall_mem_append.mpr ⟨?_, ?_⟩
    · intro s hs
      rcases List.mem_pair.mp hs with rfl | rfl
      · exact hargs _ (List.mem_map_of_mem harg)
      · exact htyping.type arg
    · intro value hvalue
      rw [Typing.field, Option.mem_toList] at hvalue
      cases defaults with
      | false => cases hvalue
      | true => exact slashless_argDefault? arg value hvalue

include htyping in
theorem slashless_decodedEvent {event : Event}
    (hevent : ∀ name ∈ event.allNames, Slashless name) : Slashless (typing.decodedEvent event) := by
  obtain ⟨hname, hargs⟩ := List.forall_mem_cons.mp hevent
  unfold Typing.decodedEvent
  split
  · exact Slashless.append (by decide) (Zig.slashless_ident hname)
  · have hpayload :
        Slashless (Node.init none (event.args.zipIdx.map typing.decodedField)).render := by
      refine Zig.slashless_render_init (by decide) ?_
      rw [List.forall_mem_map]
      rintro ⟨arg, index⟩ harg
      refine ⟨hargs _ (List.mem_map_of_mem (List.fst_mem_of_mem_zipIdx harg)), ?_⟩
      exact htyping.conversion arg _ (slashless_rawArg arg index)
    refine Zig.slashless_render_init (by decide) ?_
    rw [List.forall_mem_singleton]
    exact ⟨hname, hpayload⟩

include hinterface in
theorem slashless_event {event : Event} (hevent : event ∈ interface.events.values) :
    ∀ name ∈ event.allNames, Slashless name :=
  hinterface.message (List.mem_append_left _ (List.mem_map_of_mem hevent))

include hinterface in
theorem slashless_request {request : Request} (hrequest : request ∈ interface.requests.values) :
    ∀ name ∈ request.allNames, Slashless name :=
  hinterface.message (List.mem_append_right _ (List.mem_map_of_mem hrequest))

include htyping hinterface

theorem slashless_decoder : (typing.decoder interface).Slashless := by
  refine .function (by decide) ?_ (by decide) (.switch (by decide) ?_)
  · intro param hparam
    rcases List.mem_pair.mp hparam with rfl | rfl
    · decide
    · simp only
      split
      · decide
      · decide
  · rw [List.forall_mem_append, List.forall_mem_map, List.forall_mem_singleton]
    refine ⟨?_, by decide⟩
    intro event hevent
    exact ⟨Zig.slashless_toString _,
      slashless_decodedEvent htyping (slashless_event hinterface hevent)⟩

theorem slashless_eventUnion : (typing.eventUnion interface).Slashless := by
  refine .assignment (by decide) (.union ?_ (slashless_decoder htyping hinterface))
  rw [List.forall_mem_map]
  intro event hevent
  exact slashless_variant htyping (slashless_event hinterface hevent) false

theorem slashless_requestUnion : (typing.requestUnion interface).Slashless := by
  refine .assignment (by decide) (.union ?_ ?_)
  · rw [List.map_map, List.forall_mem_map]
    intro request hrequest
    exact slashless_variant htyping (slashless_request hinterface hrequest) true
  · refine .function (by decide) (by decide) (by decide) (.switch (by decide) ?_)
    rw [List.map_map, List.forall_mem_map]
    intro request hrequest
    have hname := slashless_request hinterface hrequest _ List.mem_cons_self
    exact ⟨Slashless.append (by decide) (Zig.slashless_ident hname),
      htyping.result request hrequest⟩

end Nodes

section Metadata

theorem slashless_stringList {names : List String} (h : ∀ name ∈ names, Slashless name) :
    Slashless (stringList names) := by
  have hopen : Slashless "&.\x7b" := by decide
  have hquote : Slashless "\"" := by decide
  refine (hopen.append (Zig.slashless_join ?_)).append (by decide)
  rw [List.forall_mem_map]
  intro name hname
  exact (hquote.append (h name hname)).append (by decide)

theorem slashless_signatures (events : List Event) : Slashless (signatures events) := by
  have hopen : Slashless "&.\x7b" := by decide
  refine (hopen.append (Zig.slashless_join ?_)).append (by decide)
  rw [List.forall_mem_map]
  intro event _
  refine (hopen.append ?_).append (by decide)
  rw [Slashless, String.toList_intercalate]
  intro hslash
  rcases Text.mem_of_mem_intercalate hslash with hslash | ⟨part, hpart, hslash⟩
  · simp at hslash
  · rw [List.map_map] at hpart
    obtain ⟨arg, -, rfl⟩ := List.mem_map.mp hpart
    exact Slashless.append (by decide : Slashless ".") (slashless_wireType arg.type) hslash

theorem slashless_metadata {id : InterfaceId} {interface : Interface} (hbuilt : interface.Built id)
    (h : interface.Slashless) : (metadata interface).Slashless := by
  have hevents : ∀ name ∈ interface.events.names, Slashless name := by
    rw [hbuilt.event_names_eq, List.forall_mem_map]
    intro event hevent
    exact slashless_event h hevent _ List.mem_cons_self
  have hrequests : ∀ name ∈ interface.requests.names, Slashless name := by
    rw [hbuilt.request_names_eq, List.forall_mem_map]
    intro request hrequest
    exact slashless_request h hrequest _ List.mem_cons_self
  have hquote : Slashless "\"" := by decide
  have hunderscore : Slashless "_" := by decide
  have hname : Slashless ("\"" ++ interface.fullName ++ "\"") :=
    (hquote.append ((h.family.append hunderscore).append h.name)).append hquote
  refine .assignment (by decide) (.init (by decide) ?_)
  simp only [List.forall_mem_append, List.forall_mem_cons]
  have hversion := Zig.slashless_toString interface.version.toNat
  refine ⟨⟨⟨⟨by decide, hname⟩, ⟨by decide, hversion⟩, List.forall_mem_nil _⟩, ?_⟩, ?_⟩
  · split
    · exact List.forall_mem_nil _
    · simp only [List.forall_mem_cons]
      exact ⟨⟨by decide, slashless_signatures _⟩, ⟨by decide, slashless_stringList hevents⟩,
        List.forall_mem_nil _⟩
  · split
    · exact List.forall_mem_nil _
    · simp only [List.forall_mem_cons]
      exact ⟨⟨by decide, slashless_stringList hrequests⟩, List.forall_mem_nil _⟩

theorem slashless_paddingField (flags : Nat) :
    ∀ s ∈ (paddingField flags).strings, Slashless s := by
  have hletter : Slashless "u" := by decide
  have htype : Slashless (paddingField flags).type :=
    hletter.append (Zig.slashless_toString (32 - flags))
  have hstrings : (paddingField flags).strings = ["_padding", (paddingField flags).type, "0"] := rfl
  rw [hstrings, List.forall_mem_cons, List.forall_mem_cons, List.forall_mem_singleton]
  exact ⟨by decide, htype, by decide⟩

theorem slashless_bitfield {enum : Enumeration} (h : ∀ name ∈ enum.allNames, Slashless name) :
    (bitfield enum).Slashless := by
  obtain ⟨hname, hentries⟩ := List.forall_mem_cons.mp h
  have hflags : ∀ field ∈ enum.flags.map (fun flag => flagField flag.2),
      ∀ s ∈ field.strings, Slashless s := by
    rw [List.forall_mem_map]
    rintro ⟨bit, entry⟩ hflag
    have hmem := (Enumeration.value_of_mem_flags hflag).1
    refine List.forall_mem_cons.mpr ⟨hentries _ (List.mem_map_of_mem hmem), ?_⟩
    exact (by decide : ∀ s ∈ ["bool", "false"], Slashless s)
  refine .assignment (Zig.slashless_camel hname) (.struct ?_ ?_)
  · rintro _ ⟨⟩
    decide
  unfold bitfieldFields
  simp only
  split
  · rw [List.forall_mem_append, List.forall_mem_singleton]
    exact ⟨hflags, slashless_paddingField _⟩
  · exact hflags

end Metadata

end Bindings
end Waybind
