import Mathlib.Data.List.DropRight
import Waybind.Proofs.Registry.Reachable
import Waybind.Proofs.Zig.Node

/-!
This module contains which namespaces the bindings of a namespace import: those that some type in
them is qualified with, each one once, in the order in which they are first needed.
-/

namespace Waybind
namespace Bindings

open Lookup
open Registry (appendNew ofFamily)
open Xml (Element)
open Zig (TypeExpr Conversion Node)

section Families

theorem nodup_foldl_appendNew (families : List String) {init : List String} (h : init.Nodup) :
    (families.foldl appendNew init).Nodup := by
  induction families generalizing init with
  | nil => exact h
  | cons family families ih => exact ih (Registry.nodup_appendNew h family)

theorem eraseDups_eq_foldl (families : List String) :
    families.eraseDups = families.foldl appendNew [] := by
  induction families using List.reverseRecOn with
  | nil => rfl
  | append_singleton families family ih =>
    rw [List.eraseDups_append, List.foldl_append, ih, List.foldl_cons, List.foldl_nil, appendNew]
    by_cases hmem : family ∈ families
    · rw [if_pos]
      · simp [List.removeAll, hmem]
      · rw [List.contains_iff_mem, mem_foldl_appendNew]
        exact .inr hmem
    · rw [if_neg]
      · simp [List.removeAll, hmem, List.eraseDups_cons]
      · rw [List.contains_iff_mem, mem_foldl_appendNew]
        simp [hmem]

theorem foldl_appendNew_append_of_subset {families repeated : List String} (h : repeated ⊆ families)
    (init : List String) :
    (families ++ repeated).foldl appendNew init = families.foldl appendNew init := by
  rw [List.foldl_append, foldl_appendNew_of_subset]
  intro family hfamily
  rw [mem_foldl_appendNew]
  exact .inr (h hfamily)

theorem foldl_appendNew_foldl (families init : List String) :
    (families.foldl appendNew []).foldl appendNew init = families.foldl appendNew init := by
  induction families using List.reverseRecOn with
  | nil => rfl
  | append_singleton families family ih =>
    rw [List.foldl_append, List.foldl_append, ← ih, List.foldl_cons, List.foldl_nil,
      List.foldl_cons, List.foldl_nil]
    nth_rewrite 1 [appendNew]
    split
    · next hmem =>
      rw [List.contains_iff_mem] at hmem
      rw [appendNew, if_pos]
      rw [List.contains_iff_mem, mem_foldl_appendNew]
      exact .inr hmem
    · rw [List.foldl_append]
      rfl

theorem foldl_appendNew_flatMap_congr {α : Type} {f g : α → List String} {xs : List α}
    (h : ∀ x ∈ xs, ∀ init, (f x).foldl appendNew init = (g x).foldl appendNew init)
    (init : List String) :
    (xs.flatMap f).foldl appendNew init = (xs.flatMap g).foldl appendNew init := by
  induction xs generalizing init with
  | nil => rfl
  | cons x xs ih =>
    obtain ⟨hx, hxs⟩ := List.forall_mem_cons.mp h
    rw [List.flatMap_cons, List.flatMap_cons, List.foldl_append, List.foldl_append, hx, ih hxs]

end Families

/--
The types in the bindings of an interface, in the order of the text: those of the payloads of events
and of the elements of arrays that are decoded, those of the payloads of requests and those that
requests evaluate to.
-/
def Typing.types (typing : Typing) (interface : Interface) : List TypeExpr :=
  interface.events.values.flatMap (·.args.map typing.type)
    ++ interface.events.values.flatMap (·.args.flatMap fun arg => (typing.conversion arg).types)
    ++ interface.requests.values.flatMap (·.args.map typing.type)
    ++ interface.requests.values.flatMap fun request => (typing.result request).types

section Definitions

variable (registry : Registry)

def unit (family : String) : List Place :=
  (ofFamily registry.protocols family).flatMap placesOf

def unitQualifiers (family : String) : List String :=
  (unit registry family).flatMap fun place =>
    ((typing registry place).types place.interface).flatMap (·.qualifiers)

def messageQualifiers (place : Place) (message : Message) : List String :=
  message.args.flatMap fun arg => (typeOf registry place arg).qualifiers

def payloadQualifiers (place : Place) : List String :=
  (messages place.interface).flatMap (messageQualifiers registry place)

end Definitions

def InOrder : List String → String → Prop
  | [], _ => True
  | part :: parts, text => ∃ before after, text = before ++ part ++ after ∧ InOrder parts after

namespace InOrder

variable {parts others : List String} {text other : String}

theorem behind (before : String) (h : InOrder parts text) : InOrder parts (before ++ text) := by
  cases parts with
  | nil => trivial
  | cons part parts =>
    obtain ⟨start, after, rfl, h⟩ := h
    exact ⟨before ++ start, after, by simp only [String.append_assoc], h⟩

theorem append (h : InOrder parts text) (hother : InOrder others other) :
    InOrder (parts ++ others) (text ++ other) := by
  induction parts generalizing text with
  | nil => exact hother.behind text
  | cons part parts ih =>
    obtain ⟨before, after, rfl, h⟩ := h
    exact ⟨before, after ++ other, by simp only [String.append_assoc], ih h⟩

theorem before (h : InOrder parts text) (after : String) : InOrder parts (text ++ after) := by
  have happend : InOrder (parts ++ []) (text ++ after) := h.append trivial
  rwa [List.append_nil] at happend

theorem inside (h : InOrder parts text) (before after : String) :
    InOrder parts (before ++ text ++ after) :=
  (h.behind before).before after

theorem singleton (text : String) : InOrder [text] text :=
  ⟨"", "", by simp, trivial⟩

theorem join {α : Type} {xs : List α} {parts : α → List String} {text : α → String}
    (h : ∀ x ∈ xs, InOrder (parts x) (text x)) :
    InOrder (xs.flatMap parts) (String.join (xs.map text)) := by
  induction xs with
  | nil => trivial
  | cons x xs ih =>
    obtain ⟨hx, hxs⟩ := List.forall_mem_cons.mp h
    rw [List.flatMap_cons, List.map_cons, String.join_cons]
    exact hx.append (ih hxs)

end InOrder

section Order

variable (typing : Typing)

theorem inOrder_field (defaults : Bool) (arg : Arg) :
    InOrder [(typing.type arg).render] (typing.field defaults arg).render := by
  unfold Zig.Field.render
  exact (((InOrder.singleton _).inside _ _).before _).before _

theorem inOrder_struct (defaults : Bool) (args : List Arg) :
    InOrder (args.map fun arg => (typing.type arg).render)
      (Node.struct none (args.map (typing.field defaults))).render := by
  have hfields : InOrder (args.flatMap fun arg => [(typing.type arg).render])
      (String.join (args.map fun arg => (typing.field defaults arg).render)) :=
    InOrder.join fun arg _ => inOrder_field typing defaults arg
  rw [← List.map_eq_flatMap] at hfields
  rw [Node.render_struct, List.map_map]
  exact hfields.inside _ _

theorem inOrder_variant (defaults : Bool) (message : Message) :
    InOrder (message.args.map fun arg => (typing.type arg).render)
      (Zig.renderVariant (typing.variant defaults message)) := by
  refine InOrder.inside ?_ _ _
  split
  · next hempty =>
    rw [List.isEmpty_iff, List.map_eq_nil_iff] at hempty
    rw [hempty]
    trivial
  · exact inOrder_struct typing defaults message.args

theorem inOrder_conversion (conversion : Conversion) (raw : String) :
    InOrder (conversion.types.map TypeExpr.render) (conversion.render raw) := by
  induction conversion with
  | keep | bitCast | enumFromInt => trivial
  | orNull conversion ih => exact ih.behind _
  | slice element => exact (InOrder.singleton _).inside _ _

theorem inOrder_init {α : Type} (type : Option String) {xs : List α} {parts : α → List String}
    {field : α → String × String} (h : ∀ x ∈ xs, InOrder (parts x) (field x).2) :
    InOrder (xs.flatMap parts) (Node.init type (xs.map field)).render := by
  rw [Node.render_init, List.map_map]
  refine (InOrder.join ?_).inside _ _
  intro x hx
  exact (h x hx).inside _ _

theorem inOrder_function {α : Type} {name result value : String} {params : List (String × String)}
    {xs : List α} {parts : α → List String} {arm : α → String × String}
    (h : ∀ x ∈ xs, InOrder (parts x) (arm x).2) (others : List (String × String)) :
    InOrder (xs.flatMap parts)
      (Node.function name params result (.ret (.switch value (xs.map arm ++ others)))).render := by
  have harms : InOrder (xs.flatMap parts) (String.join (xs.map (Zig.renderArm ∘ arm))) := by
    apply InOrder.join
    intro x hx
    exact (h x hx).inside _ _
  rw [Node.render_function, Node.render_ret, Node.render_switch, List.map_append, List.map_map,
    String.join_append]
  -- the arms are inside of the switch, the return and the function
  exact (((harms.before _).inside _ _).inside _ _).inside _ _

theorem inOrder_union {α : Type} {name : String} {xs : List α} {parts : α → List String}
    {variant : α → Zig.Variant Node} {functionParts : List String} {function : Node}
    (h : ∀ x ∈ xs, InOrder (parts x) (Zig.renderVariant (variant x)))
    (hfunction : InOrder functionParts function.render) :
    InOrder (xs.flatMap parts ++ functionParts)
      (Node.assignment name (.union (xs.map variant) [function])).render := by
  have hvariants := InOrder.join h
  have hextra : InOrder functionParts (String.join (Zig.renderExtra [function])) := by
    rw [Zig.renderExtra_singleton, String.join_cons]
    exact hfunction.inside _ _
  rw [Node.render_assignment, Node.render_union, List.map_map]
  exact (((hvariants.behind _).append hextra).before _).inside _ _

theorem inOrder_decodedEvent (event : Event) :
    InOrder (event.args.flatMap fun arg => (typing.conversion arg).types.map TypeExpr.render)
      (typing.decodedEvent event) := by
  unfold Typing.decodedEvent
  split
  · next hempty =>
    rw [List.isEmpty_iff.mp hempty]
    trivial
  · have hargs : (event.args.flatMap fun arg => (typing.conversion arg).types.map TypeExpr.render) =
        event.args.zipIdx.flatMap
          fun arg => (typing.conversion arg.1).types.map TypeExpr.render := by
      rw [← List.zipIdx_map_fst 0 event.args, List.flatMap_map, List.zipIdx_map_fst]
    have hpayload : InOrder
        (event.args.flatMap fun arg => (typing.conversion arg).types.map TypeExpr.render)
        (Node.init none (event.args.zipIdx.map typing.decodedField)).render := by
      rw [hargs]
      apply inOrder_init
      intro arg _
      exact inOrder_conversion _ _
    rw [Node.render_init, List.map_singleton, String.join_cons]
    exact ((hpayload.inside _ _).before _).inside _ _

theorem inOrder_result (result : ReturnType) :
    InOrder (result.types.map TypeExpr.render) result.render := by
  cases result with
  | void | unknown => trivial
  | created type => exact .singleton _

theorem inOrder_eventUnion (interface : Interface) :
    InOrder
      (interface.events.values.flatMap (fun event =>
          event.args.map fun arg => (typing.type arg).render)
        ++ interface.events.values.flatMap fun event =>
          event.args.flatMap fun arg => (typing.conversion arg).types.map TypeExpr.render)
      (typing.eventUnion interface).render := by
  apply inOrder_union
  · intro event _
    exact inOrder_variant typing false event.toMessage
  · apply inOrder_function
    intro event _
    exact inOrder_decodedEvent typing event

theorem inOrder_requestUnion (interface : Interface) :
    InOrder
      (interface.requests.values.flatMap (fun request =>
          request.args.map fun arg => (typing.type arg).render)
        ++ interface.requests.values.flatMap fun request =>
          (typing.result request).types.map TypeExpr.render)
      (typing.requestUnion interface).render := by
  rw [Typing.requestUnion, List.map_map, List.map_map]
  apply inOrder_union
  · intro request _
    exact inOrder_variant typing true request.toMessage
  · rw [← List.append_nil (interface.requests.values.map (Prod.snd ∘ typing.requestVariant))]
    apply inOrder_function
    intro request _
    exact inOrder_result _

theorem inOrder_types (interface : Interface) :
    InOrder ((typing.types interface).map TypeExpr.render) (typing.text interface) := by
  have hevents : InOrder
      (interface.events.values.flatMap (fun event =>
          event.args.map fun arg => (typing.type arg).render)
        ++ interface.events.values.flatMap fun event =>
          event.args.flatMap fun arg => (typing.conversion arg).types.map TypeExpr.render)
      (((typing.eventUnion? interface).map Node.render).getD "") := by
    unfold Typing.eventUnion?
    split
    · next hempty =>
      rw [Table.isEmpty, List.isEmpty_iff] at hempty
      rw [Table.values, hempty]
      trivial
    · exact inOrder_eventUnion typing interface
  simp only [Typing.types, List.map_append, List.map_flatMap, List.map_map, Function.comp_def]
  rw [List.append_assoc]
  exact ((hevents.behind _).append (inOrder_requestUnion typing interface)).before _

end Order

theorem inOrder_namespaceText (registry : Registry) (family : String) :
    InOrder
      ((unit registry family).flatMap fun place =>
        ((typing registry place).types place.interface).map TypeExpr.render)
      (namespaceText registry family) := by
  rw [unit, List.flatMap_assoc]
  apply InOrder.join
  intro protocol _
  refine (InOrder.join ?_).behind _
  intro place _
  exact inOrder_types _ _

section Types

variable {registry : Registry} {place : Place}

theorem interfaceUses_eq : interfaceUses registry place =
    (payloadQualifiers registry place).map (place.protocol.id, ·) := by
  simp only [interfaceUses, payloadQualifiers, messageQualifiers, List.map_flatMap]
  rfl

theorem payloadQualifiers_eq : payloadQualifiers registry place =
    place.interface.events.values.flatMap
        (fun event => messageQualifiers registry place event.toMessage)
      ++ place.interface.requests.values.flatMap
        fun request => messageQualifiers registry place request.toMessage := by
  rw [payloadQualifiers, messages, List.flatMap_append, List.flatMap_map, List.flatMap_map]

theorem qualifiers_types :
    ((typing registry place).types place.interface).flatMap (·.qualifiers) =
      place.interface.events.values.flatMap
          (fun event => messageQualifiers registry place event.toMessage)
        ++ place.interface.events.values.flatMap (fun event => event.args.flatMap
          fun arg => (conversionOf registry place arg).types.flatMap (·.qualifiers))
        ++ place.interface.requests.values.flatMap
          (fun request => messageQualifiers registry place request.toMessage)
        ++ place.interface.requests.values.flatMap
          fun request => (resultOf registry place request).types.flatMap (·.qualifiers) := by
  simp only [Typing.types, typing, messageQualifiers, List.flatMap_append, List.flatMap_assoc,
    List.flatMap_map]

variable (h : registry.Coherent) (hplace : Registered registry place)

include h hplace

theorem qualifiers_conversions_subset
    (hfault : ∀ event ∈ place.interface.events.values,
      messageFault? registry place event.toMessage = none) :
    (place.interface.events.values.flatMap fun event => event.args.flatMap
      fun arg => (conversionOf registry place arg).types.flatMap (·.qualifiers)) ⊆
    place.interface.events.values.flatMap
      fun event => messageQualifiers registry place event.toMessage := by
  intro family hfamily
  obtain ⟨event, hevent, hfamily⟩ := List.mem_flatMap.mp hfamily
  obtain ⟨arg, harg, hfamily⟩ := List.mem_flatMap.mp hfamily
  have hresolved := unresolved?_eq_none (hfault event hevent) arg harg
  refine List.mem_flatMap.mpr ⟨event, hevent, List.mem_flatMap.mpr ⟨arg, harg, ?_⟩⟩
  exact (within_conversion h hplace hresolved).2 hfamily

theorem qualifiers_results_subset
    (hfault : ∀ request ∈ place.interface.requests.values,
      messageFault? registry place request.toMessage = none) :
    (place.interface.requests.values.flatMap
      fun request => (resultOf registry place request).types.flatMap (·.qualifiers)) ⊆
    place.interface.requests.values.flatMap
      fun request => messageQualifiers registry place request.toMessage := by
  intro family hfamily
  obtain ⟨request, hrequest, hfamily⟩ := List.mem_flatMap.mp hfamily
  have hresolved := unresolved?_eq_none (hfault request hrequest)
  refine List.mem_flatMap.mpr ⟨request, hrequest, ?_⟩
  exact (within_returnType h hplace hresolved).2 hfamily

theorem foldl_qualifiers_types (hfault : interfaceFault? registry place = none)
    (init : List String) :
    (((typing registry place).types place.interface).flatMap (·.qualifiers)).foldl appendNew init =
      (payloadQualifiers registry place).foldl appendNew init := by
  rw [interfaceFault?, messages, List.findSome?_append, Option.or_eq_none_iff, List.findSome?_map,
    List.findSome?_map, List.findSome?_eq_none_iff, List.findSome?_eq_none_iff] at hfault
  -- conversions and results stand behind the payloads that have needed the same namespaces
  have hconversions := qualifiers_conversions_subset h hplace hfault.1
  have hresults := qualifiers_results_subset h hplace hfault.2
  rw [qualifiers_types, payloadQualifiers_eq,
    foldl_appendNew_append_of_subset (List.Subset.trans hresults (List.subset_append_right _ _)),
    List.foldl_append, foldl_appendNew_append_of_subset hconversions, ← List.foldl_append]

end Types

section Globals

variable {registry : Registry}

theorem usedFrom_flatMap {α : Type} (number : Nat) (f : α → List (Nat × String)) (xs : List α) :
    usedFrom number (xs.flatMap f) = xs.flatMap fun x => usedFrom number (f x) := by
  simp only [usedFrom, List.filter_flatMap, List.map_flatMap]

theorem usedFrom_map (number id : Nat) (families : List String) :
    usedFrom number (families.map (id, ·)) = if id = number then families else [] := by
  by_cases h : id = number
  · simp [usedFrom, h, List.filter_map, Function.comp_def]
  · simp [usedFrom, h]

theorem protocolUses_eq (protocol : Protocol) :
    (placesOf protocol).flatMap (interfaceUses registry) =
      ((placesOf protocol).flatMap (payloadQualifiers registry)).map (protocol.id, ·) := by
  simp only [placesOf, List.flatMap_map, List.map_flatMap, interfaceUses_eq]

theorem flatMap_ite_id {β : Type} (g : Protocol → List β) {protocols : List Protocol}
    (hnodup : (protocols.map (·.id)).Nodup) {protocol : Protocol} (hmem : protocol ∈ protocols) :
    (protocols.flatMap fun other => if other.id = protocol.id then g other else []) =
      g protocol := by
  induction protocols with
  | nil => cases hmem
  | cons first protocols ih =>
    rw [List.map_cons, List.nodup_cons] at hnodup
    rw [List.flatMap_cons]
    rcases List.mem_cons.mp hmem with rfl | hmem
    · rw [if_pos rfl, List.flatMap_eq_nil_iff.mpr, List.append_nil]
      intro other hother
      rw [if_neg]
      intro hid
      exact hnodup.1 (hid ▸ List.mem_map_of_mem hother)
    · rw [if_neg, List.nil_append, ih hnodup.2 hmem]
      intro hid
      exact hnodup.1 (hid ▸ List.mem_map_of_mem hmem)

theorem usedFrom_namespaceUses (h : registry.Coherent) {family : String} {protocol : Protocol}
    (hprotocol : protocol ∈ ofFamily registry.protocols family) :
    usedFrom protocol.id (namespaceUses registry family) =
      (placesOf protocol).flatMap (payloadQualifiers registry) := by
  simp only [namespaceUses, usedFrom_flatMap, protocolUses_eq, usedFrom_map]
  exact flatMap_ite_id _ (h.pairwise_id_ofFamily family).nodup hprotocol

theorem globals_after_add (documents : List Element) :
    ∀ member ∈ (Registry.after (documents.map .add)).members, member.globals = [] := by
  induction documents using List.reverseRecOn with
  | nil => simp [Registry.after, Registry.empty]
  | append_singleton documents root ih =>
    rw [List.map_append, List.map_singleton, Registry.after_append, Registry.step_add]
    split
    · intro member hmember
      rw [Registry.members_register, List.mem_append, List.mem_singleton] at hmember
      rcases hmember with hmember | rfl
      · exact ih member hmember
      · rfl
    · exact ih

theorem globals_eq_nil (hfresh : ∀ member ∈ registry.members, member.globals = []) (number : Nat) :
    registry.globals number = [] := by
  unfold Registry.globals
  cases hmember : registry.members[number]? with
  | none => rfl
  | some member => exact hfresh member (List.mem_of_getElem? hmember)

theorem unit_eq_flatMap {β : Type} (family : String) (f : Place → List β) :
    (unit registry family).flatMap f =
      (ofFamily registry.protocols family).flatMap
        fun protocol => (placesOf protocol).flatMap f := by
  rw [unit, List.flatMap_assoc]

theorem globals_noteGlobals (h : registry.Coherent) {start final : Registry}
    (hstart : registry.Like start) {family : String}
    (hmembers : final.members = noteGlobals start.members (namespaceUses registry family))
    {protocol : Protocol} (hprotocol : protocol ∈ ofFamily registry.protocols family) :
    final.globals protocol.id =
      ((placesOf protocol).flatMap (payloadQualifiers registry)).foldl appendNew
        (start.globals protocol.id) := by
  have hmem := List.mem_of_mem_filter hprotocol
  rw [← hstart.protocols_eq] at hmem
  obtain ⟨member, hmember, -⟩ :=
    (Registry.protocol?_eq_some_iff _ _ _).mp (hstart.coherent.protocol?_id hmem)
  rw [Registry.globals, Registry.globals, hmembers, getElem?_noteGlobals, hmember,
    usedFrom_namespaceUses h hprotocol]
  rfl

theorem globalsOf_eq_of_globals {final : Registry} (hlike : registry.Like final) {family : String}
    (hglobals : ∀ protocol ∈ ofFamily registry.protocols family, final.globals protocol.id =
      ((placesOf protocol).flatMap (payloadQualifiers registry)).foldl appendNew []) :
    final.globalsOf family =
      ((unit registry family).flatMap (payloadQualifiers registry)).foldl appendNew [] := by
  rw [Registry.globalsOf, hlike.coherent.namespaceOf_eq, hlike.protocols_eq, List.flatMap_map,
    unit_eq_flatMap]
  -- each protocol has its own references without repetition, which is lost in joining them
  apply foldl_appendNew_flatMap_congr
  intro protocol hprotocol init
  rw [hglobals protocol hprotocol, foldl_appendNew_foldl]

theorem globalsOf_eq_payloads (h : registry.Coherent) {final : Registry}
    (hlike : registry.Like final) (hfresh : ∀ member ∈ registry.members, member.globals = [])
    {family : String}
    (hmembers : final.members = noteGlobals registry.members (namespaceUses registry family)) :
    final.globalsOf family =
      ((unit registry family).flatMap (payloadQualifiers registry)).foldl appendNew [] := by
  apply globalsOf_eq_of_globals hlike
  intro protocol hprotocol
  rw [globals_noteGlobals h ⟨h, rfl⟩ hmembers hprotocol, globals_eq_nil hfresh]

theorem registered_of_mem_unit {family : String} {place : Place}
    (hplace : place ∈ unit registry family) : Registered registry place := by
  obtain ⟨protocol, hprotocol, hplace⟩ := List.mem_flatMap.mp hplace
  obtain ⟨interface, hinterface, rfl⟩ := List.mem_map.mp hplace
  exact ⟨List.mem_of_mem_filter hprotocol, hinterface⟩

theorem interfaceFault?_eq_none {family : String} (hfault : namespaceFault? registry family = none)
    {place : Place} (hplace : place ∈ unit registry family) :
    interfaceFault? registry place = none := by
  obtain ⟨protocol, hprotocol, hplace⟩ := List.mem_flatMap.mp hplace
  have hnone := List.findSome?_eq_none_iff.mp hfault protocol hprotocol
  exact List.findSome?_eq_none_iff.mp hnone place hplace

theorem eraseDups_unitQualifiers (h : registry.Coherent) {family : String}
    (hfault : namespaceFault? registry family = none) :
    (unitQualifiers registry family).eraseDups =
      ((unit registry family).flatMap (payloadQualifiers registry)).foldl appendNew [] := by
  rw [eraseDups_eq_foldl]
  apply foldl_appendNew_flatMap_congr
  intro place hplace
  exact foldl_qualifiers_types h (registered_of_mem_unit hplace)
    (interfaceFault?_eq_none hfault hplace)

theorem family_notMem_globalsOf (h : registry.Coherent) (family : String) :
    family ∉ registry.globalsOf family := by
  rw [Registry.globalsOf, h.namespaceOf_eq, mem_foldl_appendNew, List.flatMap_map]
  rintro (hfamily | hfamily)
  · cases hfamily
  · obtain ⟨protocol, hprotocol, hfamily⟩ := List.mem_flatMap.mp hfamily
    obtain ⟨hmem, heq⟩ := List.mem_filter.mp hprotocol
    obtain ⟨member, hmember, rfl⟩ :=
      (Registry.protocol?_eq_some_iff _ _ _).mp (h.protocol?_id hmem)
    rw [Registry.globals, hmember] at hfamily
    rw [← beq_iff_eq.mp heq] at hfamily
    exact (h.members member (List.mem_of_getElem? hmember)).foreign hfamily

end Globals

structure Typing.Holds (typing : Typing) (registry : Registry) (place : Place) : Prop where
  type : ∀ message ∈ messages place.interface, ∀ arg ∈ message.args,
    eval registry (argType place arg .typed) = .ok (typing.type arg)
  conversion : ∀ event ∈ place.interface.events.values, ∀ arg ∈ event.args,
    eval registry (Bindings.conversion place arg) = .ok (typing.conversion arg)
  result : ∀ request ∈ place.interface.requests.values,
    eval registry (returnType place request) = .ok (typing.result request)

theorem holds_typing {registry : Registry} (h : registry.Coherent) {place : Place}
    (hplace : Registered registry place) (hfault : interfaceFault? registry place = none) :
    (typing registry place).Holds registry place := by
  rw [interfaceFault?, List.findSome?_eq_none_iff] at hfault
  have hresolved : ∀ message ∈ messages place.interface, ∀ arg ∈ message.args,
      unresolved? registry place arg = none := by
    intro message hmessage
    exact unresolved?_eq_none (hfault message hmessage)
  refine ⟨?_, ?_, ?_⟩
  · intro message hmessage arg harg
    have hruns := runs_argType h hplace arg
    rw [hresolved message hmessage arg harg] at hruns
    exact Yields.eval_eq hruns h
  · intro event hevent arg harg
    have hmessage : event.toMessage ∈ messages place.interface :=
      List.mem_append_left _ (List.mem_map_of_mem hevent)
    obtain ⟨_, hyields, -⟩ := (within_conversion h hplace (hresolved _ hmessage arg harg)).1
    exact hyields.eval_eq h
  · intro request hrequest
    have hmessage : request.toMessage ∈ messages place.interface :=
      List.mem_append_right _ (List.mem_map_of_mem hrequest)
    obtain ⟨_, hyields, -⟩ := (within_returnType h hplace (hresolved _ hmessage)).1
    exact hyields.eval_eq h

def clientDirectory (runtimeDir : String) : String :=
  match runtimeDir.toList.rdropWhile (· == '/') with
  | [] => ""
  | directory => String.ofList directory ++ "/"

def supportText (directory : String) : String :=
  String.join [
    "\nconst std = @import(\"std\");\n",
    "const Proxy = @import(\"" ++ directory ++ "proxy.zig\").Proxy;\n",
    "const Interface = @import(\"" ++ directory ++ "proxy.zig\").Interface;\n",
    "const Argument = @import(\"" ++ directory ++ "argument.zig\").Argument;\n",
    "const Fixed = @import(\"" ++ directory ++ "argument.zig\").Fixed;\n",
    "const Client = @import(\"" ++ directory ++ "client.zig\").Client;\n"]

theorem supportImport_eq (runtimeDir name file : String) :
    supportImport runtimeDir (name, file) =
      ("const " ++ name ++ " = @import(\"") ++ clientDirectory runtimeDir
        ++ (file ++ "\")." ++ name ++ ";\n") := by
  unfold clientDirectory
  have htrim : trimSlashes runtimeDir = String.ofList (runtimeDir.toList.rdropWhile (· == '/')) :=
    rfl
  cases hdirectory : runtimeDir.toList.rdropWhile (· == '/') with
  | nil =>
    rw [hdirectory] at htrim
    simp [supportImport, htrim, String.append_assoc]
  | cons c directory =>
    rw [hdirectory] at htrim
    simp [supportImport, htrim, String.append_assoc]

theorem imports_eq (runtimeDir : String) (imported : List String) :
    imports runtimeDir imported =
      supportText (clientDirectory runtimeDir) ++ String.join (imported.map namespaceImport) := by
  unfold imports supportText
  rw [String.join_cons]
  simp only [supportImports, List.map_cons, List.map_nil, supportImport_eq]
  -- on both sides of the directory only literals are joined
  generalize clientDirectory runtimeDir = directory
  simp only [String.reduceAppend]

theorem imports_eq_eraseDups_qualifiers (documents : List Element) (runtimeDir family : String)
    (emission : Emission)
    (h : emitNamespace (Registry.after (documents.map .add)) runtimeDir family =
      (.ok (), emission)) :
    let registry := Registry.after (documents.map .add)
    let imported := (unitQualifiers registry family).eraseDups
    emission.text = namespaceText registry family
        ++ supportText (clientDirectory runtimeDir)
        ++ String.join (imported.map fun qualifier =>
          "const " ++ qualifier ++ " = @import(\"" ++ qualifier ++ ".zig\");\n")
      ∧ (∀ place ∈ unit registry family, (typing registry place).Holds registry place)
      ∧ InOrder
        ((unit registry family).flatMap fun place =>
          ((typing registry place).types place.interface).map TypeExpr.render)
        (namespaceText registry family)
      ∧ (∀ qualifier, qualifier ∈ imported ↔ ∃ place ∈ unit registry family,
        ∃ type ∈ (typing registry place).types place.interface, qualifier ∈ type.qualifiers
          ∧ ∃ before after, type.render = before ++ qualifier ++ "." ++ after)
      ∧ imported.Nodup ∧ family ∉ imported := by
  intro registry imported
  have hcoherent : registry.Coherent := Registry.coherent_after _
  obtain ⟨hfault, hlike, htext, hmembers⟩ := emitNamespace_eq_ok hcoherent h
  have himported : emission.registry.globalsOf family = imported :=
    (globalsOf_eq_payloads hcoherent hlike (globals_after_add documents) hmembers).trans
      (eraseDups_unitQualifiers hcoherent hfault).symm
  refine ⟨?_, ?_, inOrder_namespaceText registry family, ?_, ?_, ?_⟩
  · rw [htext, himported, imports_eq, String.append_assoc]
    rfl
  · intro place hplace
    exact holds_typing hcoherent (registered_of_mem_unit hplace)
      (interfaceFault?_eq_none hfault hplace)
  · intro qualifier
    simp only [imported, unitQualifiers, List.mem_eraseDups, List.mem_flatMap]
    refine exists_congr fun place => and_congr_right fun _ => exists_congr fun type =>
      and_congr_right fun _ => ?_
    exact (and_iff_left_of_imp TypeExpr.exists_render_of_mem_qualifiers).symm
  · rw [show imported = _ from eraseDups_eq_foldl _]
    exact nodup_foldl_appendNew _ List.nodup_nil
  · rw [← himported]
    exact family_notMem_globalsOf hlike.coherent family

def panelDocuments : List Element := [
  ⟨"protocol", [("name", "wayland")], [
    ⟨"interface", [("name", "wl_seat"), ("version", "1")], [
      ⟨"enum", [("name", "capability"), ("bitfield", "true")], [
        ⟨"entry", [("name", "pointer"), ("value", "1")], [], ""⟩], ""⟩], ""⟩], ""⟩,
  ⟨"protocol", [("name", "xdg_shell")], [
    ⟨"interface", [("name", "xdg_toplevel"), ("version", "1")], [], ""⟩], ""⟩,
  ⟨"protocol", [("name", "ext_panel")], [
    ⟨"interface", [("name", "ext_panel"), ("version", "1")], [
      ⟨"request", [("name", "get_toplevel")], [
        ⟨"arg", [("name", "id"), ("type", "new_id"), ("interface", "xdg_toplevel")], [], ""⟩], ""⟩,
      ⟨"event", [("name", "entered")], [
        ⟨"arg", [("name", "windows"), ("type", "array"), ("interface", "xdg_toplevel")], [], ""⟩,
        ⟨"arg", [("name", "by"), ("type", "uint"), ("enum", "wl_seat.capability")], [], ""⟩], ""⟩],
      ""⟩], ""⟩]

theorem imports_of_panel :
    ∃ emission, emitNamespace (Registry.after (panelDocuments.map .add)) "src" "ext" =
        (.ok (), emission)
      ∧ emission.text = namespaceText (Registry.after (panelDocuments.map .add)) "ext"
        ++ "\nconst std = @import(\"std\");\n"
        ++ "const Proxy = @import(\"src/proxy.zig\").Proxy;\n"
        ++ "const Interface = @import(\"src/proxy.zig\").Interface;\n"
        ++ "const Argument = @import(\"src/argument.zig\").Argument;\n"
        ++ "const Fixed = @import(\"src/argument.zig\").Fixed;\n"
        ++ "const Client = @import(\"src/client.zig\").Client;\n"
        ++ "const xdg = @import(\"xdg.zig\");\n"
        ++ "const wl = @import(\"wl.zig\");\n" := by
  have hok : (emitNamespace (Registry.after (panelDocuments.map .add)) "src" "ext").1 = .ok () := by
    decide +kernel
  have hused : unitQualifiers (Registry.after (panelDocuments.map .add)) "ext" =
      ["xdg", "wl", "xdg", "xdg", "xdg"] := by
    decide +kernel
  have himported : ["xdg", "wl", "xdg", "xdg", "xdg"].eraseDups = ["xdg", "wl"] := by
    decide
  -- the text itself is not evaluated
  generalize hemit : emitNamespace (Registry.after (panelDocuments.map .add)) "src" "ext" = run
    at hok
  obtain ⟨result, emission⟩ := run
  simp only at hok
  subst hok
  obtain ⟨htext, -⟩ := imports_eq_eraseDups_qualifiers panelDocuments "src" "ext" emission hemit
  have hdirectory : clientDirectory "src" = "src/" := by
    decide +kernel
  rw [hused, himported, hdirectory] at htext
  refine ⟨emission, rfl, htext.trans ?_⟩
  simp only [String.append_assoc]
  apply congrArg
  decide +kernel

end Bindings
end Waybind
