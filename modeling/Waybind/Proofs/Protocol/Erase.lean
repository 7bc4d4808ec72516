import Waybind.Proofs.Protocol.Renumber

/-!
This module contains protocols without their documentation, and the names in protocols.
-/

namespace Waybind

def Arg.erase (arg : Arg) : Arg :=
  { arg with summary := none }

def Message.erase (message : Message) : Message :=
  { message with description := none, args := message.args.map Arg.erase }

def Request.erase (request : Request) : Request :=
  { request with toMessage := request.toMessage.erase }

def Event.erase (event : Event) : Event :=
  { event with toMessage := event.toMessage.erase }

def Entry.erase (entry : Entry) : Entry :=
  { entry with summary := none, description := none }

def Enumeration.erase (enum : Enumeration) : Enumeration :=
  { enum with description := none, entries := enum.entries.map Entry.erase }

def Interface.erase (interface : Interface) : Interface :=
  { interface with
    description := none
    requests := interface.requests.map Request.erase
    events := interface.events.map Event.erase
    enums := interface.enums.map Enumeration.erase }

def Protocol.erase (protocol : Protocol) : Protocol :=
  { protocol with
    copyright := none
    description := none
    interfaces := protocol.interfaces.map Interface.erase }

theorem Request.createdInterface?_erase (request : Request) :
    request.erase.createdInterface? = request.createdInterface? := by
  simp only [createdInterface?, erase, Message.erase, List.filter_map, List.findSome?_map]
  rfl

namespace Enumeration

def eraseFlag (flag : Nat × Entry) : Nat × Entry :=
  (flag.1, flag.2.erase)

theorem addFlag_erase (bit : Nat) (entry : Entry) (flags : List (Nat × Entry)) :
    addFlag bit entry.erase (flags.map eraseFlag) = (addFlag bit entry flags).map eraseFlag := by
  induction flags with
  | nil => rfl
  | cons flag flags ih =>
    rw [List.map_cons, addFlag, addFlag, ih, apply_ite (List.map eraseFlag),
      apply_ite (List.map eraseFlag)]
    rfl

theorem flags_erase (enum : Enumeration) : enum.erase.flags = enum.flags.map eraseFlag := by
  rw [flags, flags, erase, Table.values_map, List.foldl_map]
  refine (List.foldl_hom (List.map eraseFlag) ?_ : List.foldl _ (List.map eraseFlag []) _ = _)
  intro flags entry
  rw [show entry.erase.singleBit? = entry.singleBit? from rfl]
  cases entry.singleBit? with
  | none => rfl
  | some bit => exact addFlag_erase bit entry flags

theorem isSigned_erase (enum : Enumeration) : enum.erase.isSigned = enum.isSigned := by
  rw [isSigned, isSigned, erase, Table.values_map, List.all_map]
  rfl

end Enumeration

section Names

def Message.allNames (message : Message) : List String :=
  message.name :: message.args.map (·.name)

def Enumeration.allNames (enum : Enumeration) : List String :=
  enum.name :: enum.entries.values.map (·.name)

def Interface.allNames (interface : Interface) : List String :=
  [interface.family, interface.name]
    ++ interface.requests.values.flatMap (·.allNames)
    ++ interface.events.values.flatMap (·.allNames)
    ++ interface.enums.values.flatMap (·.allNames)

def Protocol.allNames (protocol : Protocol) : List String :=
  protocol.interfaces.values.flatMap (·.allNames)

theorem Message.allNames_erase (message : Message) : message.erase.allNames = message.allNames := by
  simp [allNames, erase, Arg.erase, Function.comp_def]

theorem Enumeration.allNames_erase (enum : Enumeration) :
    enum.erase.allNames = enum.allNames := by
  simp [allNames, erase, Entry.erase, Function.comp_def]

theorem Interface.allNames_erase (interface : Interface) :
    interface.erase.allNames = interface.allNames := by
  simp only [allNames, erase, Table.values_map, List.flatMap_map, Request.erase, Event.erase,
    Message.allNames_erase, Enumeration.allNames_erase]

theorem Protocol.allNames_erase (protocol : Protocol) :
    protocol.erase.allNames = protocol.allNames := by
  simp only [allNames, erase, Table.values_map, List.flatMap_map, Interface.allNames_erase]

end Names

end Waybind
