import Waybind.Generate
import Waybind.Proofs.Bindings.Registration
import Waybind.Proofs.Registry.Families

/-!
This module contains what a generation leaves behind on a system that lets files be written. No file
is written before all documents are read, each file is written as a whole, and the files together
hold every interface once.
-/

namespace Waybind
namespace Generate

open Bindings
open Registry (ofFamily)
open Xml (Element)

/--
What a run has asked for so far: the number of reads, and the files that were written. The answer to
a read may depend on how many have been made before.
-/
structure Journal where
  answers : Nat → Path → Except HostError (List UInt8)
  reads : Nat
  written : List (Path × String)

/--
A system on which nothing but a read can be refused.
-/
abbrev Recorded : Type → Type :=
  StateM Journal

instance : Host Recorded where
  readFile path :=
    modifyGet fun journal =>
      (journal.answers journal.reads path, { journal with reads := journal.reads + 1 })
  pathExists _ := return false
  createDirectory _ := return .ok ()
  writeFile path text :=
    modifyGet fun journal =>
      (.ok (), { journal with written := journal.written ++ [(path, text)] })
  runProgram _ _ := return .error .notFound
  print _ := return
  notify _ := return

/--
What becomes of the document at a path: the root of a document that a protocol with a number can be
read from, or why there is none.
-/
def document (number : Nat) (path : Path) (content : Except HostError (List UInt8)) :
    Except Error Element :=
  match content with
  | .error cause => .error (.read path cause)
  | .ok bytes =>
    match Xml.parse bytes with
    | .error cause => .error (.parse path cause)
    | .ok root =>
      match Protocol.ofElement root number with
      | .error cause => .error (.build path cause)
      | .ok _ => .ok root

def readings (answers : Nat → Path → Except HostError (List UInt8)) (number : Nat)
    (paths : List Path) : List (Except Error Element) :=
  (paths.zipIdx number).map fun (path, number) => document number path (answers number path)

theorem readings_cons (answers : Nat → Path → Except HostError (List UInt8)) (number : Nat)
    (path : Path) (paths : List Path) :
    readings answers number (path :: paths) =
      document number path (answers number path) :: readings answers (number + 1) paths := by
  rfl

theorem exists_protocol_of_document {number : Nat} {path : Path}
    {content : Except HostError (List UInt8)} {root : Element}
    (h : document number path content = .ok root) :
    ∃ protocol, Protocol.ofElement root number = .ok protocol := by
  unfold document at h
  split at h
  · cases h
  · split at h
    · cases h
    · split at h
      · cases h
      · next protocol hprotocol =>
        cases h
        exact ⟨protocol, hprotocol⟩

theorem map_ok_filterMap {outcomes : List (Except Error Element)}
    (h : ∀ outcome ∈ outcomes, outcome.toOption.isSome = true) :
    (outcomes.filterMap (·.toOption)).map .ok = outcomes := by
  induction outcomes with
  | nil => rfl
  | cons outcome outcomes ih =>
    obtain ⟨houtcome, houtcomes⟩ := List.forall_mem_cons.mp h
    cases outcome with
    | error error => cases houtcome
    | ok root => exact congrArg (.ok root :: ·) (ih houtcomes)

section Exec

variable (journal : Journal)

theorem exec_readFile (path : Path) :
    exec (liftM (Host.readFile path : Recorded _) : ExceptT Error Recorded _) journal =
      (.ok (journal.answers journal.reads path), { journal with reads := journal.reads + 1 }) := by
  rfl

theorem exec_createDirectory (path : Path) :
    exec (liftM (Host.createDirectory path : Recorded _) : ExceptT Error Recorded _) journal =
      (.ok (.ok ()), journal) := by
  rfl

theorem exec_writeText (path : Path) (text : String) :
    exec (liftM (Host.writeFile path text : Recorded _) : ExceptT Error Recorded _) journal =
      (.ok (.ok ()), { journal with written := journal.written ++ [(path, text)] }) := by
  rfl

theorem exec_notify (notice : Notice) :
    exec (liftM (Host.notify notice : Recorded Unit) : ExceptT Error Recorded Unit) journal =
      (.ok (), journal) := by
  rfl

theorem exec_forM_notify (notices : List Notice) :
    exec (notices.forM fun notice =>
      (liftM (Host.notify notice : Recorded Unit) : ExceptT Error Recorded Unit)) journal =
        (.ok (), journal) := by
  induction notices with
  | nil => rfl
  | cons notice notices ih => exact (exec_bind_ok (exec_notify journal notice) _).trans ih

end Exec

section Load

variable {registry : Registry} {journal : Journal}

theorem exec_loadDocument (path : Path) (hreads : journal.reads = registry.members.length) :
    exec (loadDocument registry path : ExceptT Error Recorded Registry) journal =
      ((document journal.reads path (journal.answers journal.reads path)).map
        fun root => registry.step (.add root), { journal with reads := journal.reads + 1 }) := by
  unfold loadDocument document
  rw [exec_bind_ok (exec_notify journal _), exec_bind_ok (exec_readFile journal path)]
  cases journal.answers journal.reads path with
  | error cause => rfl
  | ok bytes =>
    cases hparse : Xml.parse bytes with
    | error cause =>
      simp only [hparse]
      rfl
    | ok root =>
      simp only [hparse, Registry.add, hreads]
      cases hprotocol : Protocol.ofElement root registry.members.length with
      | error cause => rfl
      | ok protocol =>
        simp only [Except.map, Registry.step_add, hprotocol]
        rfl

theorem length_members_step_add {number : Nat} {path : Path}
    {content : Except HostError (List UInt8)} {root : Element}
    (hdocument : document number path content = .ok root)
    (hnumber : number = registry.members.length) :
    number + 1 = (registry.step (.add root)).members.length := by
  obtain ⟨protocol, hprotocol⟩ := exists_protocol_of_document hdocument
  rw [hnumber] at hprotocol
  rw [Registry.step_add, hprotocol, hnumber]
  simp only [Registry.members_register, List.length_append, List.length_singleton]

-- the number of reads is that of the protocols so far, so a document is read with its own number
theorem exec_loadDocuments_ok {paths : List Path} {roots : List Element}
    (hreads : journal.reads = registry.members.length)
    (h : readings journal.answers journal.reads paths = roots.map .ok) :
    exec (paths.foldlM loadDocument registry : ExceptT Error Recorded Registry) journal =
      (.ok ((roots.map Registry.Action.add).foldl Registry.step registry),
        { journal with reads := journal.reads + paths.length }) := by
  induction paths generalizing registry journal roots with
  | nil =>
    obtain rfl : roots = [] := List.map_eq_nil_iff.mp h.symm
    rfl
  | cons path paths ih =>
    rw [readings_cons] at h
    obtain ⟨root, roots, rfl, hdocument, hrest⟩ := List.map_eq_cons_iff.mp h.symm
    have hload := exec_loadDocument path hreads
    rw [← hdocument] at hload
    have hlength := length_members_step_add hdocument.symm hreads
    rw [List.foldlM_cons, exec_bind_ok hload, ih hlength hrest.symm]
    simp only [List.map_cons, List.foldl_cons, List.length_cons, Nat.add_assoc, Nat.add_comm 1]

theorem exec_loadDocuments_error {paths : List Path} {before : List Element} {error : Error}
    {after : List (Except Error Element)} (hreads : journal.reads = registry.members.length)
    (h : readings journal.answers journal.reads paths = before.map .ok ++ .error error :: after) :
    ∃ reads, exec (paths.foldlM loadDocument registry : ExceptT Error Recorded Registry) journal =
      (.error error, { journal with reads := reads }) := by
  induction paths generalizing registry journal before with
  | nil => simp [readings] at h
  | cons path paths ih =>
    rw [readings_cons] at h
    have hload := exec_loadDocument path hreads
    rw [List.foldlM_cons]
    cases before with
    | nil =>
      rw [List.map_nil, List.nil_append, List.cons.injEq] at h
      rw [h.1] at hload
      exact ⟨_, exec_bind_error hload _⟩
    | cons root before =>
      rw [List.map_cons, List.cons_append, List.cons.injEq] at h
      rw [h.1] at hload
      rw [exec_bind_ok hload]
      exact ih (length_members_step_add h.1 hreads) h.2

end Load

section Write

def files (config : Config) (families texts : List String) : List (Path × String) :=
  List.zipWith (fun family text => (filePath config.outputDir family, text)) families texts

variable {config : Config} (hformat : config.format = false)

include hformat

theorem exec_writeFile (registry : Registry) (family : String) (journal : Journal) :
    exec (writeFile config registry family : ExceptT Error Recorded (Registry × Path)) journal =
      match outcome registry config.runtimeDir family with
      | .error cause => (.error (.emit family cause), journal)
      | .ok text =>
        (.ok ((emitNamespace registry config.runtimeDir family).2.registry,
            filePath config.outputDir family),
          { journal with
            written := journal.written ++ [(filePath config.outputDir family, text)] }) := by
  unfold writeFile outcome
  rcases emitNamespace registry config.runtimeDir family with ⟨error | ⟨⟩, emission⟩
  · simp only
    rw [exec_bind_ok (exec_forM_notify journal _)]
    rfl
  · simp only
    rw [exec_bind_ok (exec_forM_notify journal _), exec_bind_ok (exec_writeText journal _ _)]
    simp only
    rw [exec_bind_ok (exec_notify _ _), if_neg (by simp [hformat])]
    rfl

theorem exec_writeFiles_cons {fresh registry : Registry} (hcoherent : fresh.Coherent)
    (h : Undisturbed fresh registry) {family text : String}
    (htext : determined fresh config.runtimeDir family = .ok text) (families : List String)
    (journal : Journal) :
    ∃ registry', Undisturbed fresh registry' ∧
      exec (writeFiles config registry (family :: families) : ExceptT Error Recorded _) journal =
        exec ((filePath config.outputDir family :: ·) <$> writeFiles config registry' families :
          ExceptT Error Recorded _)
          { journal with
            written := journal.written ++ [(filePath config.outputDir family, text)] } := by
  have hwrite := exec_writeFile hformat registry family journal
  rw [h.outcome_eq hcoherent, htext] at hwrite
  refine ⟨_, h.step hcoherent config.runtimeDir family, ?_⟩
  rw [writeFiles, exec_bind_ok hwrite]
  simp only [bind_pure_comp]

theorem exec_writeFiles_ok {fresh registry : Registry} (hcoherent : fresh.Coherent)
    (h : Undisturbed fresh registry) {families texts : List String}
    (htexts : families.map (determined fresh config.runtimeDir) = texts.map .ok)
    (journal : Journal) :
    exec (writeFiles config registry families : ExceptT Error Recorded _) journal =
      (.ok (families.map (filePath config.outputDir)),
        { journal with written := journal.written ++ files config families texts }) := by
  -- emitting changes the registry, but leaves it such that the outcomes are those of the fresh one
  induction families generalizing registry texts journal with
  | nil =>
    rw [files, List.zipWith_nil_left, List.append_nil]
    rfl
  | cons family families ih =>
    obtain ⟨text, texts, rfl, htext, hrest⟩ := List.map_eq_cons_iff.mp htexts.symm
    obtain ⟨registry', h', hexec⟩ :=
      exec_writeFiles_cons hformat hcoherent h htext.symm families journal
    rw [hexec, exec_map, ih h' hrest.symm, files, files, List.zipWith_cons_cons, List.append_assoc]
    rfl

theorem exec_writeFiles_error {fresh registry : Registry} (hcoherent : fresh.Coherent)
    (h : Undisturbed fresh registry) {before texts : List String}
    (htexts : before.map (determined fresh config.runtimeDir) = texts.map .ok) {family : String}
    {cause : Bindings.Error} (hcause : determined fresh config.runtimeDir family = .error cause)
    (after : List String) (journal : Journal) :
    exec (writeFiles config registry (before ++ family :: after) : ExceptT Error Recorded _)
        journal =
      (.error (.emit family cause),
        { journal with written := journal.written ++ files config before texts }) := by
  induction before generalizing registry texts journal with
  | nil =>
    have hwrite := exec_writeFile hformat registry family journal
    rw [h.outcome_eq hcoherent, hcause] at hwrite
    rw [List.nil_append, writeFiles, exec_bind_error hwrite, files, List.zipWith_nil_left,
      List.append_nil]
  | cons first before ih =>
    obtain ⟨text, texts, rfl, htext, hrest⟩ := List.map_eq_cons_iff.mp htexts.symm
    obtain ⟨registry', h', hexec⟩ :=
      exec_writeFiles_cons hformat hcoherent h htext.symm (before ++ family :: after) journal
    rw [List.cons_append, hexec, exec_map, ih h' hrest.symm, files, files, List.zipWith_cons_cons,
      List.append_assoc]
    rfl

end Write

section Run

variable {config : Config} {answers : Nat → Path → Except HostError (List UInt8)}

theorem exec_run_error (hprotocols : config.protocols ≠ []) {before : List Element} {error : Error}
    {after : List (Except Error Element)}
    (h : readings answers 0 config.protocols = before.map .ok ++ .error error :: after) :
    ∃ reads, exec (run config : ExceptT Error Recorded (List Path)) ⟨answers, 0, []⟩ =
      (.error error, ⟨answers, reads, []⟩) := by
  have hload : ∃ reads, exec (config.protocols.foldlM loadDocument Registry.empty :
      ExceptT Error Recorded Registry) ⟨answers, 0, []⟩ = (.error error, ⟨answers, reads, []⟩) :=
    exec_loadDocuments_error rfl h
  obtain ⟨reads, hload⟩ := hload
  refine ⟨reads, ?_⟩
  unfold run load
  rw [if_neg (by rwa [List.isEmpty_iff])]
  rw [bind_assoc, exec_bind_error hload]

theorem exec_run_ok (hprotocols : config.protocols ≠ []) {roots : List Element}
    (h : readings answers 0 config.protocols = roots.map .ok) :
    exec (run config : ExceptT Error Recorded (List Path)) ⟨answers, 0, []⟩ =
      exec (writeFiles config (Registry.after (roots.map .add))
          (Registry.after (roots.map .add)).families : ExceptT Error Recorded (List Path))
        ⟨answers, 0 + config.protocols.length, []⟩ := by
  have hload : exec (config.protocols.foldlM loadDocument Registry.empty :
      ExceptT Error Recorded Registry) ⟨answers, 0, []⟩ =
        (.ok (Registry.after (roots.map .add)), ⟨answers, 0 + config.protocols.length, []⟩) :=
    exec_loadDocuments_ok rfl h
  unfold run load
  rw [if_neg (by rwa [List.isEmpty_iff])]
  rw [bind_assoc, exec_bind_ok hload, bind_assoc, exec_bind_ok (exec_notify _ _), pure_bind,
    exec_bind_ok (exec_createDirectory _ _)]

theorem readFrom_after {paths : List Path} {roots : List Element} {number : Nat}
    (h : readings answers number paths = roots.map .ok) :
    List.Forall₂ ReadFrom roots (Registry.after (roots.map .add)).protocols := by
  have haccepted : ∀ root ∈ roots, (familyOf? root).isSome := by
    intro root hroot
    have hmem : .ok root ∈ readings answers number paths := h ▸ List.mem_map_of_mem hroot
    obtain ⟨⟨path, position⟩, -, hdocument⟩ := List.mem_map.mp hmem
    obtain ⟨protocol, hprotocol⟩ := exists_protocol_of_document hdocument
    rw [familyOf?_eq root position, hprotocol]
    rfl
  clear h
  induction roots using List.reverseRecOn with
  | nil => exact .nil
  | append_singleton roots root ih =>
    rw [List.forall_mem_append, List.forall_mem_singleton] at haccepted
    rw [List.map_append, List.map_singleton, Registry.after_append, Registry.step_add]
    cases hread : Protocol.ofElement root (Registry.after (roots.map .add)).members.length with
    | error error =>
      have hsome := haccepted.2
      rw [familyOf?_eq root, hread] at hsome
      cases hsome
    | ok protocol =>
      simp only [Registry.protocols_register]
      apply List.rel_append (ih haccepted.1)
      refine .cons ?_ .nil
      rw [ReadFrom, (Protocol.built_of_ofElement hread).id_eq, hread]

end Run

def fileText (registry : Registry) (declaration : Place → String) (runtimeDir family : String)
    (imported : List String) : String :=
  String.join ((ofFamily registry.protocols family).map fun protocol =>
      protocolComment protocol ++ String.join ((placesOf protocol).map declaration))
    ++ imports runtimeDir imported

theorem exists_eq_fileText {registry : Registry} (hcoherent : registry.Coherent)
    {runtimeDir family text : String} (htext : determined registry runtimeDir family = .ok text) :
    (∀ place ∈ unit registry family, Lookup.eval registry (interfaceText place) =
        .ok ((typing registry place).text place.interface))
      ∧ ∃ imported, text = fileText registry
        (fun place => (typing registry place).text place.interface) runtimeDir family imported := by
  unfold determined at htext
  split at htext
  · cases htext
  · next hfault =>
    constructor
    · intro place hplace
      have hruns := runs_interfaceText hcoherent (registered_of_mem_unit hplace)
      rw [show (messages place.interface).findSome? (messageFault? registry place) = none from
        interfaceFault?_eq_none hfault hplace] at hruns
      exact Lookup.Yields.eval_eq hruns hcoherent
    · exact ⟨_, (Except.ok.inj htext).symm⟩

/--
A run fails for the first document that cannot be used, before it has written anything. Otherwise it
writes the files of the families in their order, each one as a whole, up to the first one whose
bindings cannot be generated. If there is none, then every interface of every document is declared
once, in the file of its family.
-/
theorem run_leaves_no_partial_output (config : Config)
    (answers : Nat → Path → Except HostError (List UInt8)) (hprotocols : config.protocols ≠ [])
    (hformat : config.format = false) :
    let final := exec (run config : ExceptT Error Recorded (List Path)) ⟨answers, 0, []⟩
    (∀ (before : List Element) error after,
      readings answers 0 config.protocols = before.map .ok ++ .error error :: after →
        final.1 = .error error ∧ final.2.written = [])
    ∧ (∀ roots : List Element, readings answers 0 config.protocols = roots.map .ok →
      let registry := Registry.after (roots.map .add)
      List.Forall₂ ReadFrom roots registry.protocols
      ∧ (∀ before family after (texts : List String) cause,
        registry.families = before ++ family :: after →
        before.map (outcome registry config.runtimeDir) = texts.map .ok →
        outcome registry config.runtimeDir family = .error cause →
          final.1 = .error (.emit family cause) ∧ final.2.written = files config before texts)
      ∧ (∀ texts : List String,
        registry.families.map (outcome registry config.runtimeDir) = texts.map .ok →
        final.1 = .ok (registry.families.map (filePath config.outputDir))
        ∧ final.2.written = files config registry.families texts
        ∧ (∃ declaration : Place → String, ∀ family ∈ registry.families,
          (∀ place ∈ unit registry family, place.interface.family = family
            ∧ Lookup.eval registry (interfaceText place) = .ok (declaration place))
          ∧ ∃ imported, outcome registry config.runtimeDir family =
            .ok (fileText registry declaration config.runtimeDir family imported))
        ∧ (registry.families.flatMap (unit registry)).Perm (registry.protocols.flatMap placesOf)
        ∧ ((registry.families.flatMap (unit registry)).map (·.interface.id)).Nodup)) := by
  intro final
  constructor
  · intro before error after h
    obtain ⟨reads, hrun⟩ := exec_run_error hprotocols h
    simp only [final, hrun, and_self]
  · intro roots h registry
    have hcoherent : registry.Coherent := Registry.coherent_after _
    have hfresh := undisturbed_of_fresh hcoherent (globals_after_add roots)
    have houtcome : outcome registry config.runtimeDir = determined registry config.runtimeDir :=
      funext fun family => hfresh.outcome_eq hcoherent config.runtimeDir family
    have hrun : final = _ := exec_run_ok hprotocols h
    refine ⟨readFrom_after h, ?_, ?_⟩
    · intro before family after texts cause hfamilies htexts hcause
      rw [houtcome] at htexts hcause
      rw [hrun, hfamilies, exec_writeFiles_error hformat hcoherent hfresh htexts hcause]
      exact ⟨rfl, rfl⟩
    · intro texts htexts
      rw [houtcome] at htexts
      rw [hrun, exec_writeFiles_ok hformat hcoherent hfresh htexts, houtcome]
      refine ⟨rfl, rfl, ⟨fun place => (typing registry place).text place.interface, ?_⟩,
        hcoherent.perm_units, ?_⟩
      · intro family hfamily
        have hmem : determined registry config.runtimeDir family ∈ texts.map .ok :=
          htexts ▸ List.mem_map_of_mem hfamily
        obtain ⟨text, -, htext⟩ := List.mem_map.mp hmem
        obtain ⟨hplaces, imported, rfl⟩ := exists_eq_fileText hcoherent htext.symm
        refine ⟨?_, imported, htext.symm⟩
        intro place hplace
        exact ⟨hcoherent.family_eq_of_mem_unit hplace, hplaces place hplace⟩
      · exact (hcoherent.perm_units.map _).nodup_iff.mpr hcoherent.nodup_interface_id

def brokenDock : Config where
  protocols := [⟨"output.xml"⟩, ⟨"dock.xml"⟩]
  format := false

def brokenDockAnswers (number : Nat) (_ : Path) : Except HostError (List UInt8) :=
  match number with
  | 0 => .ok (Utf8.encode "<protocol name='o'><interface name='wl_o' version='1'/></protocol>")
  | _ => .ok (Utf8.encode ("<protocol name='d'><interface name='ext_d' version='1'>"
    ++ "<event name='e'><arg name='a' type='uint' enum='s'/></event></interface></protocol>"))

def brokenDockRoots : List Element :=
  (readings brokenDockAnswers 0 brokenDock.protocols).filterMap (·.toOption)

theorem readings_brokenDock :
    readings brokenDockAnswers 0 brokenDock.protocols = brokenDockRoots.map .ok := by
  have hread : ∀ reading ∈ readings brokenDockAnswers 0 brokenDock.protocols,
      reading.toOption.isSome = true :=
    List.all_eq_true.mp (by decide +kernel)
  exact (map_ok_filterMap hread).symm

theorem run_brokenDock :
    let final := exec (run brokenDock : ExceptT Error Recorded (List Path))
      ⟨brokenDockAnswers, 0, []⟩
    final.1 = .error (.emit "ext" (.arg "ext_d" "e" "a" (.unknownEnum "ext_d" "s")))
      ∧ final.2.written.map (·.1.text) = ["generated/wl.zig"] := by
  -- the documents are read once for all three facts
  obtain ⟨hfamilies, hcause, hsome⟩ :
      let registry := Registry.after (brokenDockRoots.map .add)
      registry.families = ["wl"] ++ "ext" :: []
        ∧ outcome registry brokenDock.runtimeDir "ext" =
          .error (.arg "ext_d" "e" "a" (.unknownEnum "ext_d" "s"))
        ∧ (outcome registry brokenDock.runtimeDir "wl").toOption.isSome = true := by
    decide +kernel
  obtain ⟨text, htext⟩ := Option.isSome_iff_exists.mp hsome
  rw [Except.toOption_eq_some_iff] at htext
  obtain ⟨-, herror, -⟩ := (run_leaves_no_partial_output brokenDock brokenDockAnswers (by decide)
    rfl).2 brokenDockRoots readings_brokenDock
  obtain ⟨hresult, hwritten⟩ := herror ["wl"] "ext" [] [text] _ hfamilies
    (congrArg (· :: []) htext) hcause
  refine ⟨hresult, ?_⟩
  rw [hwritten]
  have hpath : (filePath brokenDock.outputDir "wl").text = "generated/wl.zig" := by
    decide +kernel
  exact congrArg (· :: []) hpath

end Generate
end Waybind
