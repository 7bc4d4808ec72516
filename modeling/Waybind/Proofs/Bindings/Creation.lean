import Waybind.Proofs.Bindings.Conversion
import Waybind.Proofs.Bindings.Interface
import Waybind.Proofs.Protocol.Content
import Waybind.Proofs.Zig.Camel
import Waybind.Proofs.Zig.Identifier

/-!
This module contains what requests evaluate to. A request that creates an object evaluates to the
type that its payload has for this object, which is looked up once more and found to be the same. If
the interface of the object is not known, there is nothing to evaluate to.
-/

namespace Waybind

open Xml (Element)
open Zig (TypeExpr Node Field Variant)

structure CreatedAt (args : List Arg) (position : Nat) (arg : Arg) : Prop where
  arg_eq : args[position]? = some arg
  newId : arg.type = .newId
  interface_ne : arg.interface ≠ none
  first : ∀ earlier other, earlier < position → args[earlier]? = some other →
    other.type = .newId → other.interface = none

theorem CreatedAt.findSome?_eq {args : List Arg} {position : Nat} {arg : Arg}
    (h : CreatedAt args position arg) :
    (args.filter (·.type == .newId)).findSome? (·.interface) = arg.interface := by
  induction args generalizing position with
  | nil => cases h.arg_eq
  | cons head args ih =>
    cases position with
    | zero =>
      obtain rfl : head = arg := Option.some.inj h.arg_eq
      obtain ⟨name, hname⟩ := Option.ne_none_iff_exists'.mp h.interface_ne
      simp [h.newId, hname]
    | succ position =>
      have htail : CreatedAt args position arg := by
        refine ⟨h.arg_eq, h.newId, h.interface_ne, ?_⟩
        intro earlier other hearlier hother
        exact h.first (earlier + 1) other (by omega) hother
      -- the head is passed over, as it creates nothing, or nothing of a known interface
      have hhead : head.type = .newId → head.interface = none :=
        h.first 0 head (by omega) rfl
      by_cases hnew : head.type = .newId
      · simp [hnew, hhead hnew, ih htail]
      · simp [hnew, ih htail]

theorem Request.createdInterface?_eq_none_iff (request : Request) :
    request.createdInterface? = none ↔
      ∀ arg ∈ request.args, arg.type = .newId → arg.interface = none := by
  simp [createdInterface?]

theorem Request.DeclaredBy.kind_eq_constructor_iff {id : InterfaceId} {index : Nat}
    {element : Element} {request : Request} (h : request.DeclaredBy id index element) :
    request.kind = .constructor ↔
      element.attr? "type" = some "constructor" ∨ ∃ arg ∈ request.args, arg.type = .newId := by
  rw [h.constructor_iff, h.message.createsObject_iff]
  simp

namespace Bindings

open Lookup

section Definitions

variable (registry : Registry) (place : Place)

structure PayloadField (arg : Arg) (field : Field) : Prop where
  name_eq : field.name = arg.name
  default_isSome_iff : field.default.isSome = true ↔ arg.type = .newId
  enumFromInt_iff : field.default = some "@enumFromInt(0)" ↔
    arg.type = .newId ∧ ∃ type, NamesHandle registry place arg type ∧ field.type = type.render
  zero_iff : field.default = some "0" ↔
    arg.type = .newId ∧ arg.interface = none ∧ field.type = "u32"

structure Returns (element : Element) (request : Request) (fields : List Field)
    (variant : Variant Node) (arm : String × String) : Prop where
  name_eq : variant.name = request.name
  payload_eq : variant.payload = if fields = [] then none else some (.struct none fields)
  payload_fields : List.Forall₂ (PayloadField registry place) request.args fields
  label_eq : arm.1 = "." ++ Zig.ident variant.name
  void_iff : arm.2 = "void" ↔ element.attr? "type" ≠ some "constructor"
    ∧ ∀ arg ∈ request.args, arg.type ≠ .newId
  created : ∀ position arg, CreatedAt request.args position arg →
    ∃ field, fields[position]? = some field ∧ arm.2 = field.type
  unknown : (element.attr? "type" = some "constructor" ∨ ∃ arg ∈ request.args, arg.type = .newId) →
    (∀ arg ∈ request.args, arg.type = .newId → arg.interface = none) →
      arm.2 = "@compileError(\"" ++ place.interface.handleName ++ "." ++ request.name
        ++ " creates an object whose interface is only known at runtime\")"

structure ReturnTypes (elements : List Element) (variants : List (Variant Node))
    (arms : List (String × String)) : Prop where
  elements_length : elements.length = place.interface.requests.values.length
  variants_length : variants.length = place.interface.requests.values.length
  arms_length : arms.length = place.interface.requests.values.length
  labels_nodup : (arms.map Prod.fst).Nodup
  request : ∀ (index : Nat) element request variant arm, elements[index]? = some element →
    place.interface.requests.values[index]? = some request → variants[index]? = some variant →
      arms[index]? = some arm → ∃ fields, Returns registry place element request fields variant arm

end Definitions

theorem argDefault?_eq (arg : Arg) :
    argDefault? arg =
      if arg.type = .newId then some (if arg.interface = none then "0" else "@enumFromInt(0)")
      else none := by
  unfold argDefault?
  cases arg.type <;> cases arg.interface <;> rfl

section Results

variable {registry : Registry} {place : Place} {request : Request}

theorem resultOf_of_ne (h : request.kind ≠ .constructor) :
    resultOf registry place request = .void := by
  cases hkind : request.kind with
  | constructor => exact absurd hkind h
  | normal | destructor =>
    simp only [resultOf, returnType, hkind]
    rfl

theorem resultOf_of_unknown (hkind : request.kind = .constructor)
    (hcreated : request.createdInterface? = none) :
    resultOf registry place request = .unknown place.interface.handleName request.name := by
  simp only [resultOf, returnType, hkind, hcreated]
  rfl

theorem resultOf_of_created {name : String} {type : TypeExpr} (hkind : request.kind = .constructor)
    (hcreated : request.createdInterface? = some name)
    (htype : eval registry (handleType place name) = .ok type) :
    resultOf registry place request = .created type := by
  simp only [resultOf, value, returnType, hkind, hcreated, eval_map, htype]
  rfl

end Results

theorem render_handle_ne_void (qualifier : Option String) (name : String) :
    (TypeExpr.handle qualifier (Zig.camel name)).render ≠ "void" := by
  cases qualifier with
  | none =>
    intro h
    rw [TypeExpr.render, Zig.renderQualifier, String.empty_append] at h
    exact Zig.camel_ne name (by decide) h
  | some qualifier =>
    -- a type of another namespace has a dot in it
    intro h
    have hdot : '.' ∈ "void".toList := by
      rw [← h]
      simp [TypeExpr.render, Zig.renderQualifier]
    simp at hdot

theorem render_unknown (handle request : String) :
    (ReturnType.unknown handle request).render = "@compileError(\"" ++ handle ++ "." ++ request
      ++ " creates an object whose interface is only known at runtime\")" := by
  rfl

theorem render_unknown_ne_void (handle request : String) :
    (ReturnType.unknown handle request).render ≠ "void" := by
  intro h
  rw [render_unknown, String.append_assoc, String.append_assoc, String.append_assoc] at h
  have hhead := congrArg (·.toList.head?) h
  simp at hhead

section Returns

variable {registry : Registry} (hcoherent : registry.Coherent) {place : Place}
  (hplace : Registered registry place)

include hcoherent hplace

theorem namesHandle_typeOf {arg : Arg} {name : String}
    (h : unresolved? registry place arg = none) (hnew : arg.type = .newId)
    (hname : arg.interface = some name) :
    NamesHandle registry place arg (typeOf registry place arg) := by
  have htype := eval_argType_eq hcoherent hplace h
  rw [argType_of_newId hnew hname, eval_handleType_eq_ok_iff hcoherent hplace] at htype
  obtain ⟨interface, hrefers⟩ := htype
  exact ⟨name, interface, hname, hrefers⟩

theorem payloadField_field {arg : Arg} (h : unresolved? registry place arg = none) :
    PayloadField registry place arg ((typing registry place).field true arg) where
  name_eq := rfl
  default_isSome_iff := by
    simp only [Typing.field, ↓reduceIte, argDefault?_eq]
    split
    · next hnew => simp [hnew]
    · next hnew => simp [hnew]
  enumFromInt_iff := by
    simp only [Typing.field, ↓reduceIte, argDefault?_eq]
    constructor
    · intro hdefault
      by_cases hnew : arg.type = .newId
      · cases hname : arg.interface with
        | none => simp [hnew, hname] at hdefault
        | some name =>
          exact ⟨hnew, _, namesHandle_typeOf hcoherent hplace h hnew hname, rfl⟩
      · simp [hnew] at hdefault
    · rintro ⟨hnew, type, ⟨name, -, hname, -⟩, -⟩
      simp [hnew, hname]
  zero_iff := by
    simp only [Typing.field, ↓reduceIte, argDefault?_eq]
    constructor
    · intro hdefault
      by_cases hnew : arg.type = .newId
      · cases hname : arg.interface with
        | none =>
          have htype : typeOf registry place arg = .u32 := by
            simp only [typeOf, argType, hnew, hname]
            rfl
          refine ⟨hnew, rfl, ?_⟩
          exact congrArg TypeExpr.render htype
        | some name => simp [hnew, hname] at hdefault
      · simp [hnew] at hdefault
    · rintro ⟨hnew, hname, -⟩
      simp [hnew, hname]

section Request

variable {request : Request}
  (hresolved : ∀ arg ∈ request.args, unresolved? registry place arg = none)

include hresolved

theorem resultOf_of_createdAt {position : Nat} {arg : Arg} (hkind : request.kind = .constructor)
    (h : CreatedAt request.args position arg) :
    resultOf registry place request = .created (typeOf registry place arg) := by
  obtain ⟨name, hname⟩ := Option.ne_none_iff_exists'.mp h.interface_ne
  have htype := eval_argType_eq hcoherent hplace (hresolved arg (List.mem_of_getElem? h.arg_eq))
  rw [argType_of_newId h.newId hname] at htype
  exact resultOf_of_created hkind (h.findSome?_eq.trans hname) htype

theorem render_resultOf_ne_void (hkind : request.kind = .constructor) :
    (resultOf registry place request).render ≠ "void" := by
  cases hcreated : request.createdInterface? with
  | none =>
    rw [resultOf_of_unknown hkind hcreated]
    apply render_unknown_ne_void
  | some name =>
    obtain ⟨arg, harg, hname⟩ := List.exists_of_findSome?_eq_some hcreated
    obtain ⟨harg, hnew⟩ := List.mem_filter.mp harg
    rw [beq_iff_eq] at hnew
    have htype := eval_argType_eq hcoherent hplace (hresolved arg harg)
    rw [argType_of_newId hnew hname] at htype
    rw [resultOf_of_created hkind hcreated htype]
    obtain ⟨interface, -, hhandle⟩ := (eval_handleType_eq_ok_iff hcoherent hplace _ _).mp htype
    rw [hhandle]
    apply render_handle_ne_void

theorem render_resultOf_eq_void_iff :
    (resultOf registry place request).render = "void" ↔ request.kind ≠ .constructor := by
  constructor
  · intro hvoid hkind
    exact render_resultOf_ne_void hcoherent hplace hresolved hkind hvoid
  · intro hkind
    rw [resultOf_of_ne hkind]
    rfl

theorem returns_requestVariant {id : InterfaceId} {index : Nat} {element : Element}
    (hdeclared : request.DeclaredBy id index element) :
    Returns registry place element request
      (request.args.map ((typing registry place).field true))
      ((typing registry place).requestVariant request).1
      ((typing registry place).requestVariant request).2 where
  name_eq := rfl
  payload_eq := by
    simp only [Typing.requestVariant, Typing.variant, List.isEmpty_iff]
  payload_fields := by
    rw [List.forall₂_map_right_iff, List.forall₂_same]
    intro arg harg
    exact payloadField_field hcoherent hplace (hresolved arg harg)
  label_eq := rfl
  void_iff := by
    refine (render_resultOf_eq_void_iff hcoherent hplace hresolved).trans ?_
    rw [Ne, hdeclared.kind_eq_constructor_iff]
    simp
  created := by
    intro position arg h
    have harg := List.mem_of_getElem? h.arg_eq
    have hkind := hdeclared.kind_eq_constructor_iff.mpr (.inr ⟨arg, harg, h.newId⟩)
    refine ⟨(typing registry place).field true arg, ?_, ?_⟩
    · rw [List.getElem?_map, h.arg_eq, Option.map_some]
    · exact congrArg ReturnType.render (resultOf_of_createdAt hcoherent hplace hresolved hkind h)
  unknown := by
    intro hconstructor hnone
    have hkind := hdeclared.kind_eq_constructor_iff.mpr hconstructor
    have hcreated := request.createdInterface?_eq_none_iff.mpr hnone
    rw [← render_unknown]
    exact congrArg ReturnType.render (resultOf_of_unknown hkind hcreated)

end Request

theorem returnTypes_requestUnion {element : Element}
    (hdeclared : place.interface.DeclaredBy place.interface.id element)
    (hresolved : ∀ request ∈ place.interface.requests.values, ∀ arg ∈ request.args,
      unresolved? registry place arg = none) :
    let requests := place.interface.requests.values.map (typing registry place).requestVariant
    ReturnTypes registry place (element.childrenNamed "request") (requests.map Prod.fst)
      (requests.map Prod.snd) where
  elements_length := hdeclared.requests.length_eq.symm
  variants_length := by simp
  arms_length := by simp
  labels_nodup := by
    have hlabels : ((place.interface.requests.values.map
        (typing registry place).requestVariant).map Prod.snd).map Prod.fst =
          place.interface.requests.names.map fun name => "." ++ Zig.ident name := by
      simp only [hdeclared.requests.names_eq, List.map_map, Function.comp_def,
        Typing.requestVariant]
    rw [hlabels]
    apply hdeclared.requests.nodup.map
    intro name name' h
    exact Zig.ident_injective ((String.append_right_inj _).mp h)
  request := by
    intro index child request variant arm hchild hrequest hvariant harm
    simp only [List.getElem?_map, hrequest, Option.map_some, Option.some.injEq] at hvariant harm
    subst hvariant harm
    have hmem := List.mem_of_getElem? hrequest
    exact ⟨_, returns_requestVariant hcoherent hplace (hresolved request hmem)
      (hdeclared.requests.value index child request hchild hrequest)⟩

end Returns

/--
The arms of the function from requests to what they evaluate to are those of the variants, in order.
An arm is nothing unless the request creates an object or is declared to, and then it is the type of
the first new object of a known interface, as the payload has it, or an error if there is none.
-/
theorem return_types_match_payloads (actions : List Registry.Action) (place : Place)
    (hplace : Registered (Registry.after actions) place) (notices : Array Notice) (union : Node)
    (hunion : (exec (requestUnion place) ⟨Registry.after actions, notices⟩).1 = .ok union) :
    ∃ root element variants arms, .add root ∈ actions
      ∧ Protocol.ofElement root place.protocol.id = .ok place.protocol
      ∧ element ∈ root.childrenNamed "interface"
      ∧ Interface.ofElement element place.interface.id = .ok place.interface
      ∧ union = .assignment "Request" (.union variants
        [.function "ReturnType" [("request", "std.meta.Tag(Request)")] "type"
          (.ret (.switch "request" arms))])
      ∧ ReturnTypes (Registry.after actions) place (element.childrenNamed "request") variants
        arms := by
  have hcoherent := Registry.coherent_after actions
  have hlike : (Registry.after actions).Like (Registry.after actions) := ⟨hcoherent, rfl⟩
  obtain ⟨hfault, rfl⟩ := (runs_requestUnion hcoherent hplace).eq_of_exec_ok hlike hunion
  rw [List.findSome?_eq_none_iff] at hfault
  -- the place is that of an element in a document
  obtain ⟨root, hroot, hread⟩ := Registry.exists_document_of_mem actions hplace.protocol_mem
  obtain ⟨index, hindex⟩ := (Table.mem_values_iff _ _).mp hplace.interface_mem
  obtain ⟨element, helement, hinterface⟩ := Protocol.exists_element_of_at? hread hindex
  have hid := (Interface.built_of_ofElement hinterface).id_eq
  rw [← hid] at hinterface
  refine ⟨root, element, _, _, hroot, hread, List.mem_of_getElem? helement, hinterface, rfl, ?_⟩
  apply returnTypes_requestUnion hcoherent hplace (Interface.declaredBy_of_ofElement hinterface)
  intro request hrequest
  exact unresolved?_eq_none (hfault request hrequest)

def factoryDocument : Element :=
  ⟨"protocol", [("name", "ext_factory")], [
    ⟨"interface", [("name", "ext_factory"), ("version", "1")], [
      ⟨"request", [("name", "bind")], [
        ⟨"arg", [("name", "id"), ("type", "new_id")], [], ""⟩,
        ⟨"arg", [("name", "seat"), ("type", "new_id"), ("interface", "wl_seat")], [], ""⟩], ""⟩,
      ⟨"request", [("name", "make"), ("type", "constructor")], [], ""⟩,
      ⟨"request", [("name", "sync")], [], ""⟩], ""⟩], ""⟩

def factoryActions : List Registry.Action :=
  [seatDocument, factoryDocument].map .add

def factory : Place :=
  ((Registry.after factoryActions).protocols.flatMap placesOf).getLastD default

def returnArms : Node → List (String × String)
  | .assignment _ (.union _ [.function _ _ _ (.ret (.switch _ arms))]) => arms
  | _ => []

theorem return_types_match_payloads_factory :
    ∃ root element variants, .add root ∈ factoryActions
      ∧ element ∈ root.childrenNamed "interface"
      ∧ Interface.ofElement element factory.interface.id = .ok factory.interface
      ∧ ReturnTypes (Registry.after factoryActions) factory (element.childrenNamed "request")
        variants [
          (".bind", "wl.Seat"),
          (".make", "@compileError(\"Factory.make creates an object whose interface is only known "
            ++ "at runtime\")"),
          (".sync", "void")] := by
  have hplace : Registered (Registry.after factoryActions) factory := by
    constructor
    · decide +kernel
    · decide +kernel
  have hfacts : (exec (requestUnion factory) ⟨Registry.after factoryActions, #[]⟩).1.toOption.map
      returnArms = some [
        (".bind", "wl.Seat"),
        (".make", "@compileError(\"Factory.make creates an object whose interface is only known "
          ++ "at runtime\")"),
        (".sync", "void")] := by
    decide +kernel
  obtain ⟨union, hunion, harms⟩ := Option.map_eq_some_iff.mp hfacts
  rw [Except.toOption_eq_some_iff] at hunion
  obtain ⟨root, element, variants, arms, hroot, -, helement, hread, rfl, htypes⟩ :=
    return_types_match_payloads _ factory hplace #[] union hunion
  rw [returnArms] at harms
  rw [harms] at htypes
  exact ⟨root, element, variants, hroot, helement, hread, htypes⟩

end Bindings
end Waybind
