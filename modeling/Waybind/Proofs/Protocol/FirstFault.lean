import Waybind.Proofs.Protocol.Grammar

/-!
This module contains which of several faults of a document is reported: the first one. What stands
after the child with the fault does not matter, and what can only be said of all children together is
said only if there is nothing else to say.
-/

namespace Waybind

open Xml (Element)

def Xml.Element.withChildren (element : Element) (children : List Element) : Element :=
  { element with children := children }

section Reading

variable {ε δ α β σ : Type}

/--
Reading an element with any children reports the first fault among them. The child that has it is
the first one to be refused: with the children before it alone there are no faults but `late` ones,
and whatever comes after it makes no difference.
-/
def ReportsFirst (read : Element → Except ε α) (late : ε → Prop) (element : Element) : Prop :=
  ∀ children fault, read (element.withChildren children) = .error fault → ¬ late fault →
    ∃ pre child post, children = pre ++ child :: post
      ∧ (∀ fault', read (element.withChildren pre) = .error fault' → late fault')
      ∧ ∀ post', read (element.withChildren (pre ++ child :: post')) = .error fault

variable {read : Element → Except ε α} {late : ε → Prop} {element : Element}

theorem reportsFirst_of_foldlM {step : σ → Element → Except ε σ} {init : σ}
    {finish : σ → Except ε α}
    (hread : ∀ children, read (element.withChildren children) =
      children.foldlM step init >>= finish)
    (hfinish : ∀ draft fault, finish draft = .error fault → late fault) :
    ReportsFirst read late element := by
  intro children fault herror hlate
  rw [hread] at herror
  cases hfold : children.foldlM step init with
  | ok draft =>
    rw [hfold] at herror
    cases hlate (hfinish draft fault herror)
  | error fault' =>
    rw [hfold] at herror
    cases herror
    obtain ⟨pre, child, post, draft, rfl, hpre, hchild⟩ := Except.exists_of_foldlM_eq_error hfold
    refine ⟨pre, child, post, rfl, ?_, ?_⟩
    · intro fault' hfault
      rw [hread, hpre] at hfault
      exact hfinish draft fault' hfault
    · intro post'
      rw [hread, Except.foldlM_eq_error_of_step hpre hchild post']
      rfl

theorem ReportsFirst.wrap {read' : Element → Except δ β} {late' : δ → Prop}
    (h : ReportsFirst read late element) (wrap : ε → δ)
    (hread : ∀ children fault', read' (element.withChildren children) = .error fault' ↔
      ∃ fault, read (element.withChildren children) = .error fault ∧ wrap fault = fault')
    (hlate : ∀ fault, late' (wrap fault) ↔ late fault) : ReportsFirst read' late' element := by
  intro children fault' herror hlate'
  obtain ⟨fault, hfault, rfl⟩ := (hread children fault').mp herror
  rw [hlate] at hlate'
  obtain ⟨pre, child, post, rfl, hpre, hpost⟩ := h children fault hfault hlate'
  refine ⟨pre, child, post, rfl, ?_, ?_⟩
  · intro other hother
    obtain ⟨before, hbefore, rfl⟩ := (hread pre other).mp hother
    rw [hlate]
    exact hpre before hbefore
  · intro post'
    exact (hread _ _).mpr ⟨fault, hpost post', rfl⟩

theorem exists_draft_of_late {step : σ → Element → Except ε σ} {init : σ}
    {finish : σ → Except ε α} {children : List Element} {fault : ε}
    (hstep : ∀ draft child fault, step draft child = .error fault → ¬ late fault)
    (h : children.foldlM step init >>= finish = .error fault) (hlate : late fault) :
    ∃ draft, children.foldlM step init = .ok draft ∧ finish draft = .error fault := by
  rcases (Except.bind_eq_error_iff _ _ _).mp h with hfold | ⟨draft, hfold, hfinish⟩
  · obtain ⟨pre, child, post, draft, -, -, hchild⟩ := Except.exists_of_foldlM_eq_error hfold
    cases hstep draft child fault hchild hlate
  · exact ⟨draft, hfold, hfinish⟩

end Reading

inductive Enumeration.Fault.IsLate : Enumeration.Fault → Prop where
  | bitOutOfRange (entry : String) (bit : Nat) : IsLate (.bitOutOfRange entry bit)
  | valueRange : IsLate .valueRange

inductive Protocol.Fault.IsLate : Protocol.Fault → Prop where
  | noInterfaces : IsLate .noInterfaces
  | familyMismatch (interface family expected : String) :
      IsLate (.familyMismatch interface family expected)

def Protocol.Error.IsLate (error : Protocol.Error) : Prop :=
  ∃ name fault, error = .protocol name fault ∧ fault.IsLate

namespace Grammar

structure InEnumeration (children : List Element) : Prop where
  kinds : ∀ child ∈ children, child.name = "description" ∨ child.name = "entry" ∧ IsEntry child
  entryNames : DistinctNames (named "entry" children)

structure InProtocol (children : List Element) : Prop where
  kinds : ∀ child ∈ children, child.name = "copyright" ∨ child.name = "description"
    ∨ child.name = "interface" ∧ IsInterface child
  interfaceNames : DistinctNames (named "interface" children)

def FirstOfOtherFamily (interfaces : List Element) (other family expected : String) : Prop :=
  ∃ first between differing rest, interfaces = first :: (between ++ differing :: rest)
    ∧ IsOfFamily first expected ∧ (∀ interface ∈ between, IsOfFamily interface expected)
    ∧ IsOfFamily differing family ∧ family ≠ expected ∧ differing.attr? "name" = some other

end Grammar

section Readers

variable {element : Element}

section Messages

theorem Message.reportsFirst {name : String} {id : MessageId} {bare : Message}
    (hbare : Message.ofElement (element.withChildren []) name id = .ok bare) :
    ReportsFirst (Message.ofElement · name id) (fun _ => False) element := by
  obtain ⟨since, deprecatedSince, draft, hsince, hdeprecated, -⟩ :=
    (Message.ofElement_eq_ok_iff _ name id bare).mp hbare
  apply reportsFirst_of_foldlM
  · intro children
    have hsince' : readSince (element.withChildren children) = .ok since := hsince
    have hdeprecated' : readDeprecatedSince (element.withChildren children) = .ok deprecatedSince :=
      hdeprecated
    unfold Message.ofElement
    rw [hsince', hdeprecated']
    rfl
  · intro draft fault hfault
    cases hfault

theorem Request.reportsFirst {opcode : UInt16} {id : MessageId} {bare : Request}
    (hbare : Request.ofElement (element.withChildren []) opcode id = .ok bare) :
    ReportsFirst (Request.ofElement · opcode id) (fun _ => False) element := by
  obtain ⟨name, declared, message, hname, hdeclared, hmessage, -⟩ :=
    (Request.ofElement_eq_ok_iff _ opcode id bare).mp hbare
  apply (Message.reportsFirst hmessage).wrap fun fault => fault
  · intro children fault'
    have hname' : (element.withChildren children).attr? "name" = some name := hname
    have hdeclared' : RequestKind.ofElement (element.withChildren children) = .ok declared :=
      hdeclared
    unfold Request.ofElement
    rw [hname']
    simp [hdeclared']
  · intro fault
    rfl

theorem Event.reportsFirst {number : UInt16} {id : MessageId} {bare : Event}
    (hbare : Event.ofElement (element.withChildren []) number id = .ok bare) :
    ReportsFirst (Event.ofElement · number id) (fun _ => False) element := by
  obtain ⟨name, message, hname, hmessage, -⟩ :=
    (Event.ofElement_eq_ok_iff _ number id bare).mp hbare
  apply (Message.reportsFirst hmessage).wrap fun fault => fault
  · intro children fault'
    have hname' : (element.withChildren children).attr? "name" = some name := hname
    unfold Event.ofElement
    rw [hname']
    simp
  · intro fault
    rfl

end Messages

section Enumerations

theorem Enumeration.isLate_of_checkRange {enum : Enumeration} {fault : Enumeration.Fault}
    (h : enum.checkRange = .error fault) : fault.IsLate := by
  unfold checkRange at h
  split at h
  · split at h
    · cases h
      apply Fault.IsLate.bitOutOfRange
    · cases h
  · split at h
    · cases h
    · cases h
      apply Fault.IsLate.valueRange

theorem Enumeration.reportsFirst {bare : Enumeration}
    (hbare : Enumeration.ofElement (element.withChildren []) = .ok bare) :
    ReportsFirst Enumeration.ofElement Enumeration.Fault.IsLate element := by
  obtain ⟨name, since, bitfield, draft, hname, hsince, hbitfield, -⟩ :=
    (Enumeration.ofElement_eq_ok_iff _ bare).mp hbare
  apply reportsFirst_of_foldlM
  · intro children
    have hname' : (element.withChildren children).attr? "name" = some name := hname
    have hsince' : readSince (element.withChildren children) = .ok since := hsince
    have hbitfield' : boolAttr? (element.withChildren children) "bitfield" = some bitfield :=
      hbitfield
    unfold Enumeration.ofElement
    rw [hname']
    simp only
    rw [hsince', hbitfield']
    rfl
  · intro draft fault hfault
    rw [bind_pure_comp, Except.map_eq_error_iff] at hfault
    exact isLate_of_checkRange hfault

theorem Enumeration.Draft.not_isLate_of_addChild (draft : Enumeration.Draft) (child : Element)
    (fault : Enumeration.Fault) (h : draft.addChild child = .error fault) : ¬ fault.IsLate := by
  unfold addChild at h
  split at h
  · cases h
  · split at h
    · cases h
      rintro ⟨⟩
    · split at h
      · cases h
        rintro ⟨⟩
      · cases h
  · cases h
    rintro ⟨⟩

theorem Enumeration.exists_draft_of_isLate {fault : Enumeration.Fault}
    (h : Enumeration.ofElement element = .error fault) (hlate : fault.IsLate) :
    ∃ draft, element.children.foldlM Draft.addChild ⟨none, .empty⟩ = .ok draft := by
  unfold Enumeration.ofElement at h
  cases hname : element.attr? "name" with
  | none =>
    rw [hname] at h
    cases h
    cases hlate
  | some name =>
    cases hsince : readSince element with
    | error fault' =>
      rw [hname, hsince] at h
      cases h
      cases hlate
    | ok since =>
      cases hbitfield : boolAttr? element "bitfield" with
      | none =>
        rw [hname, hsince, hbitfield] at h
        cases h
        cases hlate
      | some bitfield =>
        rw [hname, hsince, hbitfield] at h
        obtain ⟨draft, hdraft, -⟩ := exists_draft_of_late Draft.not_isLate_of_addChild h hlate
        exact ⟨draft, hdraft⟩

end Enumerations

theorem Interface.reportsFirst {id : InterfaceId} {bare : Interface}
    (hbare : Interface.ofElement (element.withChildren []) id = .ok bare) :
    ReportsFirst (Interface.ofElement · id) (fun _ => False) element := by
  obtain ⟨family, name, version, draft, hname, hversion, -⟩ :=
    (Interface.ofElement_eq_ok_iff _ id bare).mp hbare
  apply reportsFirst_of_foldlM
  · intro children
    have hname' : readName (element.withChildren children) = .ok (family, name) := hname
    have hversion' : readVersion (element.withChildren children) = .ok version := hversion
    unfold Interface.ofElement
    rw [hname', hversion']
    rfl
  · intro draft fault hfault
    cases hfault

section Protocols

theorem Protocol.cases_of_commonFamily {interfaces : Table Interface} {fault : Protocol.Fault}
    (h : commonFamily interfaces = .error fault) :
    interfaces.values = [] ∧ fault = .noInterfaces
      ∨ ∃ first between other rest, interfaces.values = first :: (between ++ other :: rest)
        ∧ (∀ interface ∈ between, interface.family = first.family)
        ∧ other.family ≠ first.family
        ∧ fault = .familyMismatch other.fullName other.family first.family := by
  unfold commonFamily at h
  split at h
  · next hvalues =>
    cases h
    exact .inl ⟨hvalues, rfl⟩
  · next first rest hvalues =>
    split at h
    · next other hfind =>
      cases h
      obtain ⟨hother, between, after, rfl, hbetween⟩ := List.find?_eq_some_iff_append.mp hfind
      refine .inr ⟨first, between, other, after, hvalues, ?_, ?_, rfl⟩
      · intro interface hmem
        simpa using hbetween interface hmem
      · simpa using hother
    · cases h

theorem Protocol.isLate_of_commonFamily {interfaces : Table Interface} {fault : Protocol.Fault}
    (h : commonFamily interfaces = .error fault) : fault.IsLate := by
  rcases cases_of_commonFamily h with ⟨-, rfl⟩ | ⟨_, _, _, _, -, -, -, rfl⟩
  · apply Fault.IsLate.noInterfaces
  · apply Fault.IsLate.familyMismatch

theorem Protocol.reportsFirst_readContent (hname : Grammar.Has element "name") (id : Nat) :
    ReportsFirst (Protocol.readContent · id) Protocol.Fault.IsLate element := by
  obtain ⟨name, hname⟩ := hname
  apply reportsFirst_of_foldlM
  · intro children
    have hname' : (element.withChildren children).attr? "name" = some name := hname
    unfold Protocol.readContent
    rw [hname']
    rfl
  · intro draft fault hfault
    rw [bind_pure_comp, Except.map_eq_error_iff] at hfault
    exact isLate_of_commonFamily hfault

theorem Protocol.reportsFirst (htag : element.name = "protocol")
    (hname : Grammar.Has element "name") (id : Nat) :
    ReportsFirst (Protocol.ofElement · id) Protocol.Error.IsLate element := by
  apply (reportsFirst_readContent hname id).wrap (.protocol (displayName element))
  · intro children fault'
    have htag' : (element.withChildren children).name = "protocol" := htag
    unfold Protocol.ofElement
    rw [if_pos htag', Except.mapError_eq_error_iff]
    rfl
  · intro fault
    simp [Protocol.Error.IsLate]

theorem Protocol.Draft.not_isLate_of_addChild (id : Nat) (draft : Protocol.Draft)
    (child : Element) (fault : Protocol.Fault) (h : draft.addChild id child = .error fault) :
    ¬ fault.IsLate := by
  unfold addChild at h
  split at h
  · cases h
  · cases h
  · split at h
    · cases h
      rintro ⟨⟩
    · split at h
      · cases h
        rintro ⟨⟩
      · cases h
  · cases h
    rintro ⟨⟩

theorem Protocol.exists_draft_of_isLate {id : Nat} {name : String} {fault : Protocol.Fault}
    (h : Protocol.ofElement element id = .error (.protocol name fault)) (hlate : fault.IsLate) :
    ∃ draft, element.children.foldlM (Draft.addChild id) ⟨none, none, .empty⟩ = .ok draft
      ∧ commonFamily draft.interfaces.toTable = .error fault := by
  unfold Protocol.ofElement at h
  split at h
  · obtain ⟨fault', hcontent, hfault⟩ := (Except.mapError_eq_error_iff _ _ _).mp h
    cases hfault
    unfold Protocol.readContent at hcontent
    cases hname : element.attr? "name" with
    | none =>
      rw [hname] at hcontent
      cases hcontent
      cases hlate
    | some name =>
      rw [hname] at hcontent
      obtain ⟨draft, hdraft, hfinish⟩ :=
        exists_draft_of_late (Draft.not_isLate_of_addChild id) hcontent hlate
      rw [bind_pure_comp, Except.map_eq_error_iff] at hfinish
      exact ⟨draft, hdraft, hfinish⟩
  · cases h

section Families

variable {id : Nat} {children : List Element} {draft : Protocol.Draft}
  (hreads : Protocol.Draft.Reads id children draft)

include hreads

theorem Protocol.Draft.Reads.forall₂ :
    List.Forall₂ (fun child interface => Grammar.IsOfFamily child interface.family
      ∧ child.attr? "name" = some interface.fullName)
      (named "interface" children) draft.interfaces.toTable.values := by
  apply hreads.interfaces.forall₂
  intro index child interface hread
  constructor
  · exact Grammar.interface_family id index child interface hread
  · exact Grammar.interface_name id index child interface hread

theorem Protocol.named_eq_nil_of_commonFamily
    (h : commonFamily draft.interfaces.toTable = .error .noInterfaces) :
    named "interface" children = [] := by
  rcases cases_of_commonFamily h with ⟨hvalues, -⟩ | ⟨_, _, _, _, -, -, -, hfault⟩
  · have hinterfaces := hreads.forall₂
    rw [hvalues, List.forall₂_nil_right_iff] at hinterfaces
    exact hinterfaces
  · cases hfault

theorem Protocol.firstOfOtherFamily_of_commonFamily {other family expected : String}
    (h : commonFamily draft.interfaces.toTable = .error (.familyMismatch other family expected)) :
    Grammar.FirstOfOtherFamily (named "interface" children) other family expected := by
  rcases cases_of_commonFamily h with ⟨-, hfault⟩ |
    ⟨first, between, interface, rest, hvalues, hbetween, hother, hfault⟩
  · cases hfault
  · cases hfault
    -- the elements come apart where the interfaces do
    have hinterfaces := hreads.forall₂
    rw [hvalues, List.forall₂_cons_right_iff] at hinterfaces
    obtain ⟨child, others, hfirst, hothers, hchildren⟩ := hinterfaces
    have hbefore := List.forall₂_take_append _ _ _ hothers
    have hafter := List.forall₂_drop_append _ _ _ hothers
    obtain ⟨differing, after, hdiffering, -, hdrop⟩ := List.forall₂_cons_right_iff.mp hafter
    refine ⟨child, others.take between.length, differing, after, ?_, hfirst.1, ?_, hdiffering.1,
      hother, hdiffering.2⟩
    · rw [hchildren, ← hdrop, List.take_append_drop]
    · intro element helement
      obtain ⟨interface', hmem, hfamily, -⟩ := exists_of_mem_left hbefore element helement
      rw [← hbetween interface' hmem]
      exact hfamily

end Families

end Protocols

end Readers

/--
Of the faults of an element the first is reported, whatever the element is read as. For all but a
protocol it is enough that the element can be read without its children.
-/
structure FaultsInOrder (element : Element) : Prop where
  protocol : element.name = "protocol" → Grammar.Has element "name" → ∀ id,
    ReportsFirst (Protocol.ofElement · id) Protocol.Error.IsLate element
  interface : ∀ id bare, Interface.ofElement (element.withChildren []) id = .ok bare →
    ReportsFirst (Interface.ofElement · id) (fun _ => False) element
  request : ∀ opcode id bare, Request.ofElement (element.withChildren []) opcode id = .ok bare →
    ReportsFirst (Request.ofElement · opcode id) (fun _ => False) element
  event : ∀ number id bare, Event.ofElement (element.withChildren []) number id = .ok bare →
    ReportsFirst (Event.ofElement · number id) (fun _ => False) element
  enumeration : ∀ bare, Enumeration.ofElement (element.withChildren []) = .ok bare →
    ReportsFirst Enumeration.ofElement Enumeration.Fault.IsLate element
  /-- The values are looked at when there is nothing wrong with the entries. -/
  values : ∀ fault, Enumeration.ofElement element = .error fault → fault.IsLate →
    Grammar.InEnumeration element.children
  /-- The families are looked at when there is nothing wrong with the interfaces. -/
  families : ∀ id error, Protocol.ofElement element id = .error error → error.IsLate →
    Grammar.InProtocol element.children
  noInterfaces : ∀ id name, Protocol.ofElement element id = .error (.protocol name .noInterfaces) →
    element.childrenNamed "interface" = []
  familyMismatch : ∀ id name other family expected,
    Protocol.ofElement element id =
      .error (.protocol name (.familyMismatch other family expected)) →
    Grammar.FirstOfOtherFamily (element.childrenNamed "interface") other family expected

theorem first_fault_reported (element : Element) : FaultsInOrder element where
  protocol := Protocol.reportsFirst
  interface _ _ := Interface.reportsFirst
  request _ _ _ := Request.reportsFirst
  event _ _ _ := Event.reportsFirst
  enumeration _ := Enumeration.reportsFirst
  values := by
    intro fault hfault hlate
    have hdraft := Enumeration.exists_draft_of_isLate hfault hlate
    obtain ⟨hkinds, hnames⟩ := (Grammar.enumeration_children_iff element.children).mp hdraft
    exact ⟨hkinds, hnames⟩
  families := by
    rintro id _ herror ⟨name, fault, rfl, hlate⟩
    obtain ⟨draft, hdraft, -⟩ := Protocol.exists_draft_of_isLate herror hlate
    obtain ⟨hkinds, hnames⟩ :=
      (Grammar.protocol_children_iff element.children id).mp ⟨draft, hdraft⟩
    exact ⟨hkinds, hnames⟩
  noInterfaces := by
    intro id name herror
    obtain ⟨draft, hdraft, hfamily⟩ := Protocol.exists_draft_of_isLate herror .noInterfaces
    rw [childrenNamed_eq]
    exact Protocol.named_eq_nil_of_commonFamily (Protocol.Draft.reads_of_foldlM hdraft) hfamily
  familyMismatch := by
    intro id name other family expected herror
    obtain ⟨draft, hdraft, hfamily⟩ := Protocol.exists_draft_of_isLate herror (.familyMismatch _ _ _)
    rw [childrenNamed_eq]
    exact Protocol.firstOfOtherFamily_of_commonFamily (Protocol.Draft.reads_of_foldlM hdraft) hfamily

def threeFamilies : Element :=
  ⟨"protocol", [("name", "shelf")], [
    ⟨"interface", [("name", "ext_shelf"), ("version", "1")], [], ""⟩,
    ⟨"description", [], [], ""⟩,
    ⟨"interface", [("name", "ext_book"), ("version", "1")], [], ""⟩,
    ⟨"interface", [("name", "wl_shelf"), ("version", "1")], [], ""⟩,
    ⟨"interface", [("name", "xdg_shelf"), ("version", "1")], [], ""⟩], ""⟩

def stray : Element :=
  ⟨"stray", [], [], ""⟩

theorem first_fault_threeFamilies :
    (Protocol.ofElement threeFamilies 0 =
        .error (.protocol "shelf" (.familyMismatch "wl_shelf" "wl" "ext"))
      ∧ Grammar.FirstOfOtherFamily (threeFamilies.childrenNamed "interface") "wl_shelf" "wl" "ext")
    ∧ (Protocol.ofElement (threeFamilies.withChildren (threeFamilies.children ++ [stray, stray])) 0 =
        .error (.protocol "shelf" (.unexpectedElement "stray"))
      ∧ ∃ pre child post, threeFamilies.children ++ [stray, stray] = pre ++ child :: post
        ∧ (∀ fault, Protocol.ofElement (threeFamilies.withChildren pre) 0 = .error fault →
          fault.IsLate)
        ∧ ∀ post', Protocol.ofElement (threeFamilies.withChildren (pre ++ child :: post')) 0 =
          .error (.protocol "shelf" (.unexpectedElement "stray"))) := by
  have hmismatch : Protocol.ofElement threeFamilies 0 =
      .error (.protocol "shelf" (.familyMismatch "wl_shelf" "wl" "ext")) := by
    decide +kernel
  have hstray : Protocol.ofElement
      (threeFamilies.withChildren (threeFamilies.children ++ [stray, stray])) 0 =
        .error (.protocol "shelf" (.unexpectedElement "stray")) := by
    decide +kernel
  have horder := first_fault_reported threeFamilies
  refine ⟨⟨hmismatch, horder.familyMismatch _ _ _ _ _ hmismatch⟩, hstray, ?_⟩
  apply horder.protocol rfl ⟨"shelf", rfl⟩ 0 _ _ hstray
  rintro ⟨name, fault, heq, hlate⟩
  cases heq
  cases hlate

end Waybind
