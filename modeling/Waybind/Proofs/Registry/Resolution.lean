import Waybind.Proofs.Registry.Extension
import Waybind.Proofs.Text

/-!
This module contains what names refer to. A lookup searches only the namespace that it reads off the
name, and still finds what any of the protocols declares. The two forms of references to enumerations
lead to the same enumeration.
-/

namespace Waybind

open Registry (ofFamily)
open Xml (Element)

def Protocol.Declares (protocol : Protocol) (name : String) (interface : Interface) : Prop :=
  interface ∈ protocol.interfaces.values ∧ interface.fullName = name

/--
What a name refers to in a protocol: what the protocol itself declares, or else what the first of
all protocols declares that declares something of this name.
-/
inductive RefersTo (protocols : List Protocol) (current : Protocol) (name : String)
    (interface : Interface) : Prop where
  | own (hown : current.Declares name interface)
  | other (before after : List Protocol) (owner : Protocol)
      (hown : ∀ candidate, ¬ current.Declares name candidate)
      (hprotocols : protocols = before ++ owner :: after)
      (hbefore : ∀ protocol ∈ before, ∀ candidate, ¬ protocol.Declares name candidate)
      (howner : owner.Declares name interface)

theorem RefersTo.exists_declares {protocols : List Protocol} {current : Protocol} {name : String}
    {interface : Interface} (h : RefersTo protocols current name interface)
    (hcurrent : current ∈ protocols) :
    ∃ protocol ∈ protocols, protocol.Declares name interface := by
  cases h with
  | own hown => exact ⟨current, hcurrent, hown⟩
  | other before after owner hown hprotocols hbefore howner =>
    refine ⟨owner, ?_, howner⟩
    rw [hprotocols]
    simp

/--
What a name refers to as an enumeration at a place: one of the interface itself, or one of the
interface that is named in front of a dot.
-/
inductive RefersToEnum (protocols : List Protocol) (place : Place) (name : String)
    (owner : Interface) (enum : Enumeration) : Prop where
  | own (hname : '.' ∉ name.toList) (howner : owner = place.interface)
      (henum : enum ∈ owner.enums.values ∧ enum.name = name)
  | other (left right : String) (hname : name = left ++ "." ++ right) (hleft : '.' ∉ left.toList)
      (hright : '.' ∉ right.toList) (howner : RefersTo protocols place.protocol left owner)
      (henum : enum ∈ owner.enums.values ∧ enum.name = right)

theorem RefersToEnum.mem_enums {protocols : List Protocol} {place : Place} {name : String}
    {owner : Interface} {enum : Enumeration} (h : RefersToEnum protocols place name owner enum) :
    enum ∈ owner.enums.values := by
  cases h with
  | own _ _ henum => exact henum.1
  | other _ _ _ _ _ _ henum => exact henum.1

section Names

variable {name family own : String}

theorem splitName?_eq_none_iff (name : String) : splitName? name = none ↔ '_' ∉ name.toList := by
  unfold splitName?
  split
  · next h =>
    rw [List.dropWhile_eq_nil_iff] at h
    simp only [true_iff]
    intro hmem
    simpa using h '_' hmem
  · next c rest h =>
    simp only [reduceCtorEq, false_iff, not_not]
    by_contra hmem
    have hnil : name.toList.dropWhile (· != '_') = [] := by
      rw [List.dropWhile_eq_nil_iff]
      intro c hc
      rw [bne_iff_ne]
      rintro rfl
      exact hmem hc
    rw [hnil] at h
    cases h

theorem head?_eq_some_iff_of_splitName? (h : splitName? name = some (family, own)) :
    name.toList.head? = some '_' ↔ family = "" := by
  obtain ⟨rfl, hfamily⟩ := (splitName?_eq_some_iff name family own).mp h
  rw [← String.toList_inj]
  cases hcs : family.toList with
  | nil => simp [hcs]
  | cons c cs =>
    rw [hcs] at hfamily
    simp only [String.toList_append, hcs, List.cons_append, List.head?_cons, Option.some.injEq,
      String.toList_empty, reduceCtorEq, iff_false]
    rintro rfl
    exact hfamily List.mem_cons_self

theorem exists_splitName?_iff (name : String) :
    (∃ family own, splitName? name = some (family, own) ∧ family ≠ "") ↔
      ¬ ('_' ∉ name.toList ∨ name.toList.head? = some '_') := by
  rw [not_or, ← splitName?_eq_none_iff]
  constructor
  · rintro ⟨family, own, hsplit, hfamily⟩
    rw [head?_eq_some_iff_of_splitName? hsplit, hsplit]
    exact ⟨by simp, hfamily⟩
  · rintro ⟨hsome, hhead⟩
    obtain ⟨⟨family, own⟩, hsplit⟩ := Option.ne_none_iff_exists'.mp hsome
    rw [head?_eq_some_iff_of_splitName? hsplit] at hhead
    exact ⟨family, own, hsplit, hhead⟩

end Names

namespace Protocol.Built

variable {id : Nat} {protocol : Protocol} (h : protocol.Built id)

include h

theorem get?_eq_some_iff_declares (name : String) (interface : Interface) :
    protocol.interfaces.get? name = some interface ↔ protocol.Declares name interface := by
  constructor
  · intro hget
    exact ⟨Table.mem_values_of_get? hget, h.fullName_of_get? hget⟩
  · rintro ⟨hmem, rfl⟩
    obtain ⟨index, hindex⟩ := (Table.mem_values_iff _ interface).mp hmem
    exact Table.get?_of_at? h.names_nodup (h.interface index interface hindex).2.2 hindex

theorem get?_eq_none_iff_declares (name : String) :
    protocol.interfaces.get? name = none ↔ ∀ candidate, ¬ protocol.Declares name candidate := by
  simp only [← h.get?_eq_some_iff_declares, Option.eq_none_iff_forall_ne_some, ne_eq]

theorem splitName?_of_declares {name : String} {interface : Interface}
    (hdeclares : protocol.Declares name interface) :
    splitName? name = some (protocol.family, interface.name) := by
  obtain ⟨hmem, rfl⟩ := hdeclares
  rw [splitName?_eq_some_iff, ← h.family_eq hmem]
  refine ⟨rfl, ?_⟩
  rw [h.family_eq hmem]
  exact h.family_ne.2

end Protocol.Built

namespace Lookup

section Interface

variable {name : String} {interface : Interface}

section Protocols

variable {protocols : List Protocol} (hbuilt : ∀ protocol ∈ protocols, protocol.Built protocol.id)

theorem findDeclared?_cons (protocol : Protocol) (protocols : List Protocol) (name : String) :
    findDeclared? (protocol :: protocols) name =
      ((protocol.interfaces.get? name).map (protocol.name, ·)).or
        (findDeclared? protocols name) := by
  unfold findDeclared?
  rw [List.findSome?_cons]
  cases protocol.interfaces.get? name with
  | none => rfl
  | some interface => rfl

include hbuilt

theorem findDeclared?_eq_some_iff (owner : String) :
    findDeclared? protocols name = some (owner, interface) ↔
      ∃ before protocol after, protocols = before ++ protocol :: after
        ∧ (protocol.Declares name interface ∧ protocol.name = owner)
        ∧ ∀ other ∈ before, ∀ candidate, ¬ other.Declares name candidate := by
  unfold findDeclared?
  rw [List.findSome?_eq_some_iff]
  refine exists_congr fun before => exists_congr fun protocol => exists_congr fun after => ?_
  refine and_congr_right ?_
  rintro rfl
  rw [List.forall_mem_append, List.forall_mem_cons] at hbuilt
  obtain ⟨hbefore, hprotocol, -⟩ := hbuilt
  refine and_congr ?_ (forall₂_congr fun other hother => ?_)
  · rw [← hprotocol.get?_eq_some_iff_declares]
    cases protocol.interfaces.get? name with
    | none => simp
    | some found => simp [and_comm]
  · rw [← (hbefore other hother).get?_eq_none_iff_declares]
    cases other.interfaces.get? name with
    | none => simp
    | some found => simp

theorem findDeclared?_eq_none_iff (name : String) :
    findDeclared? protocols name = none ↔
      ∀ protocol ∈ protocols, ∀ candidate, ¬ protocol.Declares name candidate := by
  unfold findDeclared?
  rw [List.findSome?_eq_none_iff]
  refine forall₂_congr fun protocol hprotocol => ?_
  rw [← (hbuilt protocol hprotocol).get?_eq_none_iff_declares]
  cases protocol.interfaces.get? name with
  | none => simp
  | some found => simp

theorem findDeclared?_ofFamily {family own : String}
    (hsplit : splitName? name = some (family, own)) :
    findDeclared? (ofFamily protocols family) name = findDeclared? protocols name := by
  induction protocols with
  | nil => rfl
  | cons protocol protocols ih =>
    obtain ⟨hprotocol, hprotocols⟩ := List.forall_mem_cons.mp hbuilt
    rw [findDeclared?_cons, ← ih hprotocols, ofFamily, List.filter_cons]
    split
    · apply findDeclared?_cons
    · next hfamily =>
      have hnone : protocol.interfaces.get? name = none := by
        rw [hprotocol.get?_eq_none_iff_declares]
        intro candidate hdeclares
        rw [hprotocol.splitName?_of_declares hdeclares] at hsplit
        cases hsplit
        simp at hfamily
      rw [hnone, Option.map_none, Option.none_or]
      rfl

end Protocols

section Coherent

variable {registry : Registry} (hcoherent : registry.Coherent) {current : Protocol}
  (hcurrent : current ∈ registry.protocols)

include hcoherent hcurrent

theorem eval_findInterface_of_declares (hown : current.Declares name interface) :
    eval registry (findInterface current name) = .ok interface := by
  rw [← (hcoherent.built_of_mem hcurrent).get?_eq_some_iff_declares] at hown
  unfold findInterface
  rw [hown]
  rfl

theorem eval_findInterface_of_splitName? (hown : ∀ candidate, ¬ current.Declares name candidate)
    {family own : String} (hsplit : splitName? name = some (family, own)) (hfamily : family ≠ "") :
    eval registry (findInterface current name) =
      (findDeclared? registry.protocols name).elim (.error (.unknownInterface family name))
        (fun found => .ok found.2) := by
  have hne : ¬ family.isEmpty = true := by
    rw [String.isEmpty_iff]
    exact hfamily
  rw [← (hcoherent.built_of_mem hcurrent).get?_eq_none_iff_declares] at hown
  unfold findInterface
  rw [hown, hsplit]
  simp only [hne, Bool.false_eq_true, ↓reduceIte]
  rw [eval_findInNamespace hcoherent,
    findDeclared?_ofFamily (fun _ => hcoherent.built_of_mem) hsplit]
  cases findDeclared? registry.protocols name with
  | none => rfl
  | some found => rfl

theorem eval_findInterface_of_malformed (h : '_' ∉ name.toList ∨ name.toList.head? = some '_') :
    eval registry (findInterface current name) = .error (.malformedInterfaceName name) := by
  have hbuilt := hcoherent.built_of_mem hcurrent
  have hsplit : ¬ ∃ family own, splitName? name = some (family, own) ∧ family ≠ "" := by
    rw [exists_splitName?_iff, not_not]
    exact h
  have hown : current.interfaces.get? name = none := by
    rw [hbuilt.get?_eq_none_iff_declares]
    intro candidate hdeclares
    exact hsplit ⟨_, _, hbuilt.splitName?_of_declares hdeclares, hbuilt.family_ne.1⟩
  unfold findInterface
  rw [hown]
  simp only
  split
  · rfl
  · next family own hname =>
    have hempty : family.isEmpty = true := by
      rw [String.isEmpty_iff]
      by_contra hfamily
      exact hsplit ⟨family, own, hname, hfamily⟩
    rw [if_pos hempty]
    rfl

theorem eval_findInterface_of_refersTo
    (h : RefersTo registry.protocols current name interface) :
    eval registry (findInterface current name) = .ok interface := by
  cases h with
  | own hown => exact eval_findInterface_of_declares hcoherent hcurrent hown
  | other before after owner hown hprotocols hbefore howner =>
    have hmem : owner ∈ registry.protocols := by
      rw [hprotocols]
      simp
    have hbuilt := hcoherent.built_of_mem hmem
    have hfound : findDeclared? registry.protocols name = some (owner.name, interface) := by
      rw [findDeclared?_eq_some_iff fun _ => hcoherent.built_of_mem]
      exact ⟨before, owner, after, hprotocols, ⟨howner, rfl⟩, hbefore⟩
    rw [eval_findInterface_of_splitName? hcoherent hcurrent hown
      (hbuilt.splitName?_of_declares howner) hbuilt.family_ne.1, hfound]
    rfl

omit hcurrent in
theorem refersTo_or_undeclared (current : Protocol) (name : String) :
    (∃ interface, RefersTo registry.protocols current name interface)
      ∨ ∀ protocol ∈ registry.protocols, ∀ candidate, ¬ protocol.Declares name candidate := by
  by_cases hown : ∃ candidate, current.Declares name candidate
  · obtain ⟨candidate, hown⟩ := hown
    exact .inl ⟨candidate, .own hown⟩
  · rw [not_exists] at hown
    cases hfound : findDeclared? registry.protocols name with
    | none =>
      rw [findDeclared?_eq_none_iff fun _ => hcoherent.built_of_mem] at hfound
      exact .inr hfound
    | some found =>
      obtain ⟨owner, interface⟩ := found
      rw [findDeclared?_eq_some_iff fun _ => hcoherent.built_of_mem] at hfound
      obtain ⟨before, protocol, after, hprotocols, ⟨hprotocol, -⟩, hbefore⟩ := hfound
      exact .inl ⟨interface, .other before after protocol hown hprotocols hbefore hprotocol⟩

theorem eval_findInterface_of_undeclared
    (h : ∀ protocol ∈ registry.protocols, ∀ candidate, ¬ protocol.Declares name candidate) :
    ('_' ∉ name.toList ∨ name.toList.head? = some '_')
        ∧ eval registry (findInterface current name) = .error (.malformedInterfaceName name)
      ∨ ∃ family own, name = family ++ "_" ++ own ∧ '_' ∉ family.toList
        ∧ eval registry (findInterface current name) =
          .error (.unknownInterface family name) := by
  by_cases hname : '_' ∉ name.toList ∨ name.toList.head? = some '_'
  · exact .inl ⟨hname, eval_findInterface_of_malformed hcoherent hcurrent hname⟩
  · obtain ⟨family, own, hsplit, hfamily⟩ := (exists_splitName?_iff name).mpr hname
    have heval := eval_findInterface_of_splitName? hcoherent hcurrent (h current hcurrent) hsplit
      hfamily
    rw [(findDeclared?_eq_none_iff (fun _ => hcoherent.built_of_mem) name).mpr h] at heval
    obtain ⟨hparts, hunderscore⟩ := (splitName?_eq_some_iff name family own).mp hsplit
    exact .inr ⟨family, own, hparts, hunderscore, heval⟩

theorem eval_findInterface_eq_ok_iff (name : String) (interface : Interface) :
    eval registry (findInterface current name) = .ok interface ↔
      RefersTo registry.protocols current name interface := by
  constructor
  · intro heval
    rcases refersTo_or_undeclared hcoherent current name with ⟨found, hrefers⟩ | hundeclared
    · rw [eval_findInterface_of_refersTo hcoherent hcurrent hrefers, Except.ok.injEq] at heval
      subst heval
      exact hrefers
    · rcases eval_findInterface_of_undeclared hcoherent hcurrent hundeclared with
        ⟨-, herror⟩ | ⟨family, own, -, -, herror⟩
      · rw [herror] at heval
        cases heval
      · rw [herror] at heval
        cases heval
  · intro hrefers
    exact eval_findInterface_of_refersTo hcoherent hcurrent hrefers

theorem undeclared_of_eval_eq_error {error : Error}
    (h : eval registry (findInterface current name) = .error error) :
    ∀ protocol ∈ registry.protocols, ∀ candidate, ¬ protocol.Declares name candidate := by
  rcases refersTo_or_undeclared hcoherent current name with ⟨found, hrefers⟩ | hundeclared
  · rw [eval_findInterface_of_refersTo hcoherent hcurrent hrefers] at h
    cases h
  · exact hundeclared

theorem exists_eval_findInterface_iff (name : String) :
    (∃ interface, eval registry (findInterface current name) = .ok interface) ↔
      ∃ protocol ∈ registry.protocols, ∃ interface, protocol.Declares name interface := by
  simp only [eval_findInterface_eq_ok_iff hcoherent hcurrent]
  constructor
  · rintro ⟨interface, hrefers⟩
    obtain ⟨protocol, hprotocol, hdeclares⟩ := hrefers.exists_declares hcurrent
    exact ⟨protocol, hprotocol, interface, hdeclares⟩
  · rintro ⟨protocol, hprotocol, interface, hdeclares⟩
    apply (refersTo_or_undeclared hcoherent current name).resolve_right
    intro hundeclared
    exact hundeclared protocol hprotocol interface hdeclares

end Coherent

end Interface

inductive OwnEnum (owner : Interface) (name : String) :
    Except Error (Interface × Enumeration) → Prop where
  | found (enum : Enumeration) (hmem : enum ∈ owner.enums.values) (hname : enum.name = name) :
      OwnEnum owner name (.ok (owner, enum))
  | unknown (hnone : ∀ enum ∈ owner.enums.values, enum.name ≠ name) :
      OwnEnum owner name (.error (.unknownEnum owner.fullName name))

section Enum

theorem ownEnum_declaredEnum {owner : Interface} {id : InterfaceId} (hbuilt : owner.Built id)
    (name : String) : OwnEnum owner name (declaredEnum owner name) := by
  obtain ⟨parts, hholds⟩ := hbuilt.exists_holds_enums
  unfold declaredEnum
  split
  · next enum hget =>
    exact .found enum (Table.mem_values_of_get? hget) (hholds.name_of_get? hget)
  · next hget =>
    apply OwnEnum.unknown
    rintro enum hmem rfl
    rw [Table.get?_eq_none_iff, hholds.names_eq_map] at hget
    exact hget (List.mem_map_of_mem hmem)

variable (place : Place) (state : State)

theorem exec_findEnum_plain {name : String} (h : '.' ∉ name.toList) :
    exec (findEnum place name) state = (declaredEnum place.interface name, state) := by
  unfold findEnum
  rw [Text.pieces_of_cut_eq_false (Text.cut_eq_false_of_notMem h)]
  simp only [String.ofList_toList]
  apply exec_enumOf

theorem exec_findEnum_dotted {left right : String} (hleft : '.' ∉ left.toList)
    (hright : '.' ∉ right.toList) :
    exec (findEnum place (left ++ "." ++ right)) state =
      ((exec (findInterface place.protocol left) state).1 >>= (declaredEnum · right),
        (exec (findInterface place.protocol left) state).2) := by
  have hcut : (left ++ "." ++ right).toList = left.toList ++ '.' :: right.toList := by simp
  unfold findEnum
  rw [hcut, Text.pieces_append_cons (Text.cut_eq_false_of_notMem hleft) rfl,
    Text.pieces_of_cut_eq_false (Text.cut_eq_false_of_notMem hright)]
  simp only [String.ofList_toList]
  rcases hfind : exec (findInterface place.protocol left) state with ⟨error | owner, state'⟩
  · apply exec_bind_error hfind
  · rw [exec_bind_ok hfind, exec_enumOf]
    rfl

theorem exec_findEnum_malformed {name : String} (h : 2 ≤ name.toList.count '.') :
    exec (findEnum place name) state = (.error (.malformedEnumReference name), state) := by
  have hlength : (Text.pieces (· == '.') name.toList).length = name.toList.count '.' + 1 :=
    Text.length_pieces (· == '.') name.toList
  unfold findEnum
  split
  · next hpieces =>
    rw [hpieces, List.length_singleton] at hlength
    omega
  · next hpieces =>
    rw [hpieces, List.length_cons, List.length_singleton] at hlength
    omega
  · rfl

theorem dots_of_name (name : String) :
    '.' ∉ name.toList
      ∨ (∃ left right, name = left ++ "." ++ right ∧ '.' ∉ left.toList ∧ '.' ∉ right.toList)
      ∨ 2 ≤ name.toList.count '.' := by
  by_cases hname : '.' ∈ name.toList
  · obtain ⟨left, right, hcs, hleft⟩ := List.eq_append_cons_of_mem hname
    by_cases hright : '.' ∈ right
    · have := List.count_pos_iff.mpr hright
      refine .inr (.inr ?_)
      rw [hcs, List.count_append, List.count_cons_self]
      omega
    · refine .inr (.inl ⟨String.ofList left, String.ofList right, ?_, ?_, ?_⟩)
      · rw [← String.toList_inj, hcs]
        simp
      · rwa [String.toList_ofList]
      · rwa [String.toList_ofList]
  · exact .inl hname

theorem declaredEnum_eq_ok_iff {owner : Interface} {id : InterfaceId} (hbuilt : owner.Built id)
    (name : String) (found : Interface × Enumeration) :
    declaredEnum owner name = .ok found ↔
      found.1 = owner ∧ found.2 ∈ owner.enums.values ∧ found.2.name = name := by
  constructor
  · intro hfound
    have hown := ownEnum_declaredEnum hbuilt name
    rw [hfound] at hown
    cases hown with
    | found enum hmem hname => exact ⟨rfl, hmem, hname⟩
  · obtain ⟨owner', enum⟩ := found
    rintro ⟨rfl, hmem, rfl⟩
    obtain ⟨parts, hholds⟩ := hbuilt.exists_holds_enums
    obtain ⟨index, hindex⟩ := (Table.mem_values_iff _ enum).mp hmem
    have hget := Table.get?_of_at? hholds.nodup (hholds.of_at? hindex).1 hindex
    simp only [declaredEnum, hget]

theorem eval_findEnum_eq_ok_iff {registry : Registry} (hcoherent : registry.Coherent)
    {place : Place} (hplace : Registered registry place) (name : String) (owner : Interface)
    (enum : Enumeration) :
    eval registry (findEnum place name) = .ok (owner, enum) ↔
      RefersToEnum registry.protocols place name owner enum := by
  have hfind := eval_findInterface_eq_ok_iff hcoherent hplace.protocol_mem
  obtain ⟨id, hbuilt⟩ := hplace.interface_built hcoherent
  constructor
  · intro heval
    rcases dots_of_name name with hname | ⟨left, right, rfl, hleft, hright⟩ | hname
    · rw [eval, exec_findEnum_plain place _ hname, declaredEnum_eq_ok_iff hbuilt] at heval
      obtain ⟨rfl, henum⟩ := heval
      exact .own hname rfl henum
    · rw [eval, exec_findEnum_dotted place _ hleft hright, Except.bind_eq_ok_iff] at heval
      obtain ⟨owner', howner, henum⟩ := heval
      have hdeclared := (finds_findInterface hcoherent hplace.protocol_mem left).of_eval hcoherent
        howner
      obtain ⟨id', hbuilt'⟩ := hdeclared.built hcoherent
      obtain ⟨rfl, henum⟩ := (declaredEnum_eq_ok_iff hbuilt' right _).mp henum
      exact .other left right rfl hleft hright ((hfind left owner).mp howner) henum
    · rw [eval, exec_findEnum_malformed place _ hname] at heval
      cases heval
  · intro hrefers
    cases hrefers with
    | own hname howner henum =>
      rw [eval, exec_findEnum_plain place _ hname, declaredEnum_eq_ok_iff hbuilt]
      subst howner
      exact ⟨rfl, henum⟩
    | other left right hname hleft hright howner henum =>
      subst hname
      rw [← hfind] at howner
      have hdeclared := (finds_findInterface hcoherent hplace.protocol_mem left).of_eval hcoherent
        howner
      obtain ⟨id', hbuilt'⟩ := hdeclared.built hcoherent
      rw [eval, exec_findEnum_dotted place _ hleft hright, Except.bind_eq_ok_iff]
      exact ⟨owner, howner, (declaredEnum_eq_ok_iff hbuilt' right _).mpr ⟨rfl, henum⟩⟩

theorem exec_findInterface_own {registry : Registry} (hcoherent : registry.Coherent) {place : Place}
    (hplace : Registered registry place) (state : State) :
    exec (findInterface place.protocol place.interface.fullName) state =
      (.ok place.interface, state) := by
  have hget := ((hplace.built hcoherent).get?_eq_some_iff_declares _ _).mpr
    ⟨hplace.interface_mem, rfl⟩
  unfold findInterface
  rw [hget]
  rfl

end Enum

end Lookup

namespace Registry

open Lookup

/--
A name refers to something exactly if some protocol declares it, whatever namespace that is in: a
lookup finds what the protocol it is made from declares, or else what the first one of all does. If
there is nothing, the error tells whether the name has a family, and which one.
-/
theorem findInterface_finds_declared (actions : List Action) (current : Protocol)
    (hcurrent : current ∈ (after actions).protocols) (name : String) :
    let registry := after actions
    let result := eval registry (findInterface current name)
    ((∃ interface, result = .ok interface) ↔
      ∃ protocol ∈ registry.protocols, ∃ interface, protocol.Declares name interface)
    ∧ (∀ interface, result = .ok interface ↔
      RefersTo registry.protocols current name interface)
    ∧ (∀ interface, result = .ok interface →
      interface.fullName = name ∧ registry.interface? interface.id = some interface)
    ∧ ((∃ text, result = .error (.malformedInterfaceName text)) ↔
      '_' ∉ name.toList ∨ name.toList.head? = some '_')
    ∧ ∀ error, result = .error error →
      error = .malformedInterfaceName name
        ∨ ∃ family own, name = family ++ "_" ++ own ∧ '_' ∉ family.toList
          ∧ error = .unknownInterface family name := by
  intro registry result
  have hcoherent : registry.Coherent := coherent_after actions
  have hok := eval_findInterface_eq_ok_iff hcoherent hcurrent name
  refine ⟨exists_eval_findInterface_iff hcoherent hcurrent name, hok, ?_, ?_, ?_⟩
  · intro interface hfound
    obtain ⟨protocol, hprotocol, hmem, hname⟩ :=
      ((hok interface).mp hfound).exists_declares hcurrent
    have hdeclared : Declared registry interface := ⟨protocol, hprotocol, hmem⟩
    exact ⟨hname, hdeclared.interface?_id hcoherent⟩
  · constructor
    · rintro ⟨text, herror⟩
      have hundeclared := undeclared_of_eval_eq_error hcoherent hcurrent herror
      rcases eval_findInterface_of_undeclared hcoherent hcurrent hundeclared with
        ⟨hname, -⟩ | ⟨family, own, -, -, hunknown⟩
      · exact hname
      · cases herror.symm.trans hunknown
    · intro hname
      exact ⟨name, eval_findInterface_of_malformed hcoherent hcurrent hname⟩
  · intro error herror
    have hundeclared := undeclared_of_eval_eq_error hcoherent hcurrent herror
    rcases eval_findInterface_of_undeclared hcoherent hcurrent hundeclared with
      ⟨-, hmalformed⟩ | ⟨family, own, hname, hfamily, hunknown⟩
    · cases herror.symm.trans hmalformed
      exact .inl rfl
    · cases herror.symm.trans hunknown
      exact .inr ⟨family, own, hname, hfamily, rfl⟩

def seatDocuments : List Element := [
  Bindings.seatDocument,
  ⟨"protocol", [("name", "seats")], [
    ⟨"interface", [("name", "wl_seat"), ("version", "2")], [
      ⟨"enum", [("name", "capability")], [], ""⟩], ""⟩], ""⟩,
  Bindings.dockDocument]

theorem refersTo_first_seat :
    ∃ dock interface, (after (seatDocuments.map .add)).protocol? 2 = some dock
      ∧ RefersTo (after (seatDocuments.map .add)).protocols dock "wl_seat" interface
      ∧ (after (seatDocuments.map .add)).interface? interface.id = some interface
      ∧ interface.version = 1 := by
  have hversion : ((after (seatDocuments.map .add)).protocol? 2).map (fun dock =>
      (eval (after (seatDocuments.map .add)) (findInterface dock "wl_seat")).toOption.map
        (·.version)) = some (some 1) := by
    decide +kernel
  obtain ⟨dock, hdock, hversion⟩ := Option.map_eq_some_iff.mp hversion
  obtain ⟨interface, hfound, hversion⟩ := Option.map_eq_some_iff.mp hversion
  rw [Except.toOption_eq_some_iff] at hfound
  have hmem := (mem_protocols_iff _ dock).mpr ⟨2, hdock⟩
  obtain ⟨-, hok, hplace, -⟩ := findInterface_finds_declared _ dock hmem "wl_seat"
  exact ⟨dock, interface, hdock, (hok interface).mp hfound, (hplace interface hfound).2, hversion⟩

/--
An enumeration is looked for in the interface itself if there is no dot in its name, and in the
interface before the dot if there is one. Written either way, an enumeration of the interface itself
is the same one, and finding it leaves no trace.
-/
theorem findEnum_forms_agree (actions : List Action) (place : Place)
    (hplace : Registered (after actions) place) (notices : Array Notice) (name : String) :
    let state : State := ⟨after actions, notices⟩
    let run := exec (findEnum place name) state
    ('.' ∉ name.toList → OwnEnum place.interface name run.1 ∧ run.2 = state)
    ∧ (∀ left right, name = left ++ "." ++ right → '.' ∉ left.toList → '.' ∉ right.toList →
      let found := exec (findInterface place.protocol left) state
      (∀ error, found.1 = .error error → run.1 = .error error)
        ∧ (∀ owner, found.1 = .ok owner → OwnEnum owner right run.1)
        ∧ run.2 = found.2)
    ∧ (2 ≤ name.toList.count '.' → run = (.error (.malformedEnumReference name), state))
    ∧ ('.' ∉ name.toList → '.' ∉ place.interface.fullName.toList →
      exec (findEnum place (place.interface.fullName ++ "." ++ name)) state = run
        ∧ run.2 = state) := by
  intro state run
  have hcoherent := coherent_after actions
  refine ⟨?_, ?_, exec_findEnum_malformed place state, ?_⟩
  · intro hname
    have hrun : run = _ := exec_findEnum_plain place state hname
    obtain ⟨id, hbuilt⟩ := hplace.interface_built hcoherent
    rw [hrun]
    exact ⟨ownEnum_declaredEnum hbuilt name, rfl⟩
  · rintro left right rfl hleft hright found
    have hrun : run = _ := exec_findEnum_dotted place state hleft hright
    rw [hrun]
    refine ⟨?_, ?_, rfl⟩
    · intro error hfound
      simp only [found] at hfound
      rw [hfound]
      rfl
    · intro owner hfound
      have hdeclared := (finds_findInterface hcoherent hplace.protocol_mem left).of_exec
        ⟨hcoherent, rfl⟩ hfound
      obtain ⟨id, hbuilt⟩ := hdeclared.built hcoherent
      simp only [found] at hfound
      rw [hfound]
      exact ownEnum_declaredEnum hbuilt right
  · intro hname hfull
    have hrun : run = _ := exec_findEnum_plain place state hname
    rw [hrun, exec_findEnum_dotted place state hfull hname,
      exec_findInterface_own hcoherent hplace]
    exact ⟨rfl, rfl⟩

theorem findEnum_second_seat :
    ∃ seats seat, (after (seatDocuments.map .add)).protocol? 1 = some seats
      ∧ (after (seatDocuments.map .add)).interface? ⟨1, 0⟩ = some seat
      ∧ eval (after (seatDocuments.map .add)) (findEnum ⟨seats, seat⟩ "wl_seat.capability") =
        eval (after (seatDocuments.map .add)) (findEnum ⟨seats, seat⟩ "capability")
      ∧ OwnEnum seat "capability"
        (eval (after (seatDocuments.map .add)) (findEnum ⟨seats, seat⟩ "capability"))
      ∧ seat.version = 2 := by
  have hseats : ((after (seatDocuments.map .add)).protocol? 1).isSome = true := by decide +kernel
  have hseat : ((after (seatDocuments.map .add)).interface? ⟨1, 0⟩).map
      (fun seat => (seat.fullName, seat.version)) = some ("wl_seat", 2) := by
    decide +kernel
  obtain ⟨seats, hseats⟩ := Option.isSome_iff_exists.mp hseats
  obtain ⟨seat, hseat, hfields⟩ := Option.map_eq_some_iff.mp hseat
  obtain ⟨hname, hversion⟩ := Prod.mk.inj hfields
  have hplace := registered_of_interface? hseats hseat
  obtain ⟨hown, -, -, hagree⟩ := findEnum_forms_agree _ _ hplace #[] "capability"
  have hplain : '.' ∉ "capability".toList := by decide
  have hfull : '.' ∉ seat.fullName.toList := by
    rw [hname]
    decide
  have hsame := (hagree hplain hfull).1
  rw [hname] at hsame
  exact ⟨seats, seat, hseats, hseat, congrArg Prod.fst hsame, (hown hplain).1, hversion⟩

end Registry
end Waybind
