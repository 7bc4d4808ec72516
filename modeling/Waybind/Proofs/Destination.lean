import Waybind.Generate
import Waybind.Proofs.Path
import Waybind.Proofs.Registry.Families

/-!
This module contains where a generation writes to, whatever the system answers. The files are those
of the families of the documents that were read, in their order, and a family is a file name exactly
if there is no slash in it.
-/

namespace Waybind
namespace Generate

open Bindings (emitNamespace)

inductive Request where
  | readFile (path : Path)
  | pathExists (path : Path)
  | createDirectory (path : Path)
  | writeFile (path : Path) (text : String)
  | runProgram (program : String) (args : List String)

structure Answers where
  readFile : List Request → Except HostError (List UInt8)
  pathExists : List Request → Bool
  createDirectory : List Request → Except HostError Unit
  writeFile : List Request → Except HostError Unit
  runProgram : List Request → Except HostError ExitStatus

structure File where
  path : Path
  bytes : List UInt8
deriving DecidableEq

inductive Effect where
  | loaded (file : File)
  | wrote (path : Path)
deriving DecidableEq

structure World where
  answers : Answers
  requests : List Request
  effects : List Effect

/--
A system that may refuse anything at any time.
-/
abbrev Watched : Type → Type :=
  StateM World

def ask {α : Type} (request : Request) (answer : Answers → List Request → α)
    (effects : α → List Effect) : Watched α :=
  modifyGet fun world =>
    let requests := world.requests ++ [request]
    let a := answer world.answers requests
    (a, { world with requests := requests, effects := world.effects ++ effects a })

def loadedFrom (path : Path) : Except HostError (List UInt8) → List Effect
  | .ok bytes => [.loaded ⟨path, bytes⟩]
  | .error _ => []

instance : Host Watched where
  readFile path := ask (.readFile path) Answers.readFile (loadedFrom path)
  pathExists path := ask (.pathExists path) Answers.pathExists fun _ => []
  createDirectory path := ask (.createDirectory path) Answers.createDirectory fun _ => []
  writeFile path text := ask (.writeFile path text) Answers.writeFile fun _ => [.wrote path]
  runProgram program args := ask (.runProgram program args) Answers.runProgram fun _ => []
  print _ := return
  notify _ := return

section Performs

variable {ε α β : Type}

def Performs (m : ExceptT ε Watched α) (R : Except ε α → List Effect → Prop) : Prop :=
  ∀ world, ∃ effects,
    (exec m world).2.effects = world.effects ++ effects ∧ R (exec m world).1 effects

def Quiet (m : ExceptT ε Watched α) (P : α → Prop) : Prop :=
  Performs m fun result effects => effects = [] ∧ ∀ a, result = .ok a → P a

variable {m : ExceptT ε Watched α} {f : α → ExceptT ε Watched β} {P : α → Prop} {Q : β → Prop}
  {R S : Except ε α → List Effect → Prop} {T : Except ε β → List Effect → Prop}

theorem Performs.mono (h : Performs m R)
    (hR : ∀ result effects, R result effects → S result effects) : Performs m S := by
  intro world
  obtain ⟨effects, heffects, hresult⟩ := h world
  exact ⟨effects, heffects, hR _ _ hresult⟩

theorem Performs.bind (h : Performs m R)
    (hf : ∀ a effects, R (.ok a) effects →
      Performs (f a) fun result rest => T result (effects ++ rest))
    (herror : ∀ error effects, R (.error error) effects → T (.error error) effects) :
    Performs (m >>= f) T := by
  intro world
  obtain ⟨effects, heffects, hresult⟩ := h world
  rcases hm : exec m world with ⟨error | a, world'⟩
  · rw [hm] at heffects hresult
    rw [exec_bind_error hm]
    exact ⟨effects, heffects, herror error effects hresult⟩
  · rw [hm] at heffects hresult
    obtain ⟨rest, heffects', hresult'⟩ := hf a effects hresult world'
    rw [exec_bind_ok hm, heffects', heffects, List.append_assoc]
    exact ⟨effects ++ rest, rfl, hresult'⟩

theorem Quiet.bind_performs (h : Quiet m P) (hf : ∀ a, P a → Performs (f a) T)
    (herror : ∀ error, T (.error error) []) : Performs (m >>= f) T := by
  refine Performs.bind h ?_ ?_
  · rintro a _ ⟨rfl, hresult⟩
    exact hf a (hresult a rfl)
  · rintro error _ ⟨rfl, -⟩
    exact herror error

theorem Quiet.bind (h : Quiet m P) (hf : ∀ a, P a → Quiet (f a) Q) : Quiet (m >>= f) Q :=
  h.bind_performs hf fun _ => ⟨rfl, fun _ hok => by cases hok⟩

theorem Quiet.performs (h : Quiet m P) (hok : ∀ a, P a → R (.ok a) [])
    (herror : ∀ error, R (.error error) []) : Performs m R := by
  refine Performs.mono h ?_
  rintro result _ ⟨rfl, hresult⟩
  cases result with
  | error error => exact herror error
  | ok a => exact hok a (hresult a rfl)

theorem performs_pure {a : α} (h : R (.ok a) []) :
    Performs (pure a : ExceptT ε Watched α) R := by
  intro world
  exact ⟨[], (List.append_nil _).symm, h⟩

theorem performs_throw {error : ε} (h : R (.error error) []) :
    Performs (throw error : ExceptT ε Watched α) R := by
  intro world
  exact ⟨[], (List.append_nil _).symm, h⟩

theorem Quiet.pure {a : α} (h : P a) : Quiet (Pure.pure a : ExceptT ε Watched α) P := by
  refine performs_pure ⟨rfl, ?_⟩
  rintro _ ⟨⟩
  exact h

theorem Quiet.forM {f : α → ExceptT ε Watched Unit} {xs : List α}
    (hf : ∀ x, Quiet (f x) fun _ => True) : Quiet (xs.forM f) fun _ => True := by
  induction xs with
  | nil => exact .pure trivial
  | cons x xs ih => exact (hf x).bind fun _ _ => ih

theorem performs_ask (request : Request) (answer : Answers → List Request → α)
    (effects : α → List Effect) :
    Performs (liftM (ask request answer effects) : ExceptT ε Watched α) fun result done =>
      ∃ a, result = .ok a ∧ done = effects a := by
  intro world
  exact ⟨_, rfl, _, rfl, rfl⟩

theorem quiet_ask (request : Request) (answer : Answers → List Request → α) :
    Quiet (liftM (ask request answer fun _ => []) : ExceptT ε Watched α) fun _ => True := by
  refine (performs_ask request answer _).mono ?_
  rintro _ _ ⟨a, rfl, rfl⟩
  exact ⟨rfl, fun _ _ => trivial⟩

theorem quiet_notify (notice : Notice) :
    Quiet (liftM (Host.notify notice : Watched Unit) : ExceptT ε Watched Unit) fun _ => True := by
  intro world
  exact ⟨[], (List.append_nil _).symm, rfl, fun _ _ => trivial⟩

end Performs

def accept? (registry : Registry) (file : File) : Option Registry := do
  let root ← (Xml.parse file.bytes).toOption
  let added ← (registry.add root).toOption
  return added.2

section Load

variable {registry registry' : Registry}

theorem accept?_eq_some {file : File} {root : Xml.Element} {protocol : Protocol}
    (hparse : Xml.parse file.bytes = .ok root)
    (hadd : registry.add root = .ok (protocol, registry')) :
    accept? registry file = some registry' := by
  rw [accept?, hparse, Except.toOption, Option.bind_eq_bind, Option.bind_some, hadd]
  rfl

theorem coherent_accept? (h : registry.Coherent) {file : File}
    (haccept : accept? registry file = some registry') : registry'.Coherent := by
  simp only [accept?, Option.bind_eq_bind, Option.bind_eq_some_iff, Option.pure_def,
    Option.some.injEq, Except.toOption_eq_some_iff] at haccept
  obtain ⟨root, -, ⟨protocol, _⟩, hadd, rfl⟩ := haccept
  obtain ⟨hread, rfl⟩ := (Registry.add_eq_ok_iff _ _ _ _).mp hadd
  exact h.register (Protocol.built_of_ofElement hread)

theorem coherent_foldlM_accept? (h : registry.Coherent) {files : List File}
    (haccept : files.foldlM accept? registry = some registry') : registry'.Coherent := by
  induction files generalizing registry with
  | nil =>
    cases haccept
    exact h
  | cons file files ih =>
    obtain ⟨next, hnext, hrest⟩ := Option.bind_eq_some_iff.mp haccept
    exact ih (coherent_accept? h hnext) hrest

/--
How the documents at some paths are added to a registry: nothing is written, and at the end each
path has been read once, in their order, and all documents are accepted.
-/
def Loads (registry : Registry) (paths : List Path) (result : Except Error Registry)
    (effects : List Effect) : Prop :=
  (∀ path, .wrote path ∉ effects) ∧ ∀ registry', result = .ok registry' →
    ∃ files : List File, files.map (·.path) = paths ∧ effects = files.map .loaded
      ∧ files.foldlM accept? registry = some registry'

theorem loads_error {paths : List Path} {effects : List Effect} (error : Error)
    (h : ∀ path, .wrote path ∉ effects) : Loads registry paths (.error error) effects :=
  ⟨h, fun _ hok => by cases hok⟩

theorem performs_loadDocument (registry : Registry) (path : Path) :
    Performs (loadDocument registry path : ExceptT Error Watched Registry)
      (Loads registry [path]) := by
  refine (quiet_notify _).bind_performs (fun _ _ => ?_) (fun error => loads_error error (by simp))
  refine (performs_ask (.readFile path) Answers.readFile (loadedFrom path)).bind ?_ ?_
  · rintro content _ ⟨_, ⟨⟩, rfl⟩
    cases content with
    | error cause => exact performs_throw (loads_error _ (by simp [loadedFrom]))
    | ok bytes =>
      have hnone : ∀ path', .wrote path' ∉ loadedFrom path (.ok bytes) ++ [] := by
        simp [loadedFrom]
      simp only
      cases hparse : Xml.parse bytes with
      | error cause => exact performs_throw (loads_error _ hnone)
      | ok root =>
        simp only
        cases hadd : registry.add root with
        | error cause => exact performs_throw (loads_error _ hnone)
        | ok added =>
          refine (quiet_notify _).bind_performs (fun _ _ => performs_pure ⟨hnone, ?_⟩)
            (fun error => loads_error error hnone)
          rintro _ ⟨⟩
          refine ⟨[⟨path, bytes⟩], rfl, rfl, ?_⟩
          rw [List.foldlM_cons, accept?_eq_some hparse hadd]
          rfl
  · rintro error _ ⟨_, hcontent, -⟩
    cases hcontent

theorem performs_loadDocuments (registry : Registry) (paths : List Path) :
    Performs (paths.foldlM loadDocument registry : ExceptT Error Watched Registry)
      (Loads registry paths) := by
  induction paths generalizing registry with
  | nil =>
    refine performs_pure ⟨by simp, ?_⟩
    rintro _ ⟨⟩
    exact ⟨[], rfl, rfl, rfl⟩
  | cons path paths ih =>
    rw [List.foldlM_cons]
    refine (performs_loadDocument registry path).bind ?_ fun error _ h => loads_error error h.1
    rintro next effects ⟨hnone, hok⟩
    obtain ⟨files, hpaths, rfl, haccept⟩ := hok next rfl
    refine (ih next).mono ?_
    rintro result rest ⟨hrest, hok⟩
    refine ⟨fun path => by simp [hrest path], ?_⟩
    rintro registry' rfl
    obtain ⟨files', hpaths', rfl, haccept'⟩ := hok registry' rfl
    refine ⟨files ++ files', ?_, List.map_append.symm, ?_⟩
    · rw [List.map_append, hpaths, hpaths']
      rfl
    · rw [List.foldlM_append, haccept]
      exact haccept'

theorem performs_load (paths : List Path) :
    Performs (load paths : ExceptT Error Watched Registry) (Loads Registry.empty paths) := by
  refine (performs_loadDocuments Registry.empty paths).bind ?_ fun error _ h =>
    loads_error error h.1
  intro registry effects hloads
  refine (quiet_notify _).bind_performs (fun _ _ => performs_pure ?_) fun error => ?_
  · rwa [List.append_nil]
  · rw [List.append_nil]
    exact loads_error error hloads.1

end Load

section Write

variable (config : Config)

theorem quiet_formatFile (formatter : List String) (path : Path) :
    Quiet (liftM (formatFile formatter path : Watched Unit) : ExceptT Error Watched Unit)
      fun _ => True := by
  cases formatter with
  | nil => exact .pure trivial
  | cons program args =>
    rw [formatFile, liftM_bind]
    refine (quiet_ask (.runProgram program (args ++ [path.text])) _).bind fun answer _ => ?_
    cases answer with
    | error cause => exact quiet_notify _
    | ok status =>
      simp only
      split
      · exact quiet_notify _
      · exact quiet_notify _

section Delivers

variable {α : Type} {toPaths : α → List Path} {expected paths : List Path}

/--
How the generation of expected files ends: with their paths, after all of them have been written to,
or in a failure, after some of them have been, in their order.
-/
def Delivers (toPaths : α → List Path) (expected : List Path) (result : Except Error α)
    (effects : List Effect) : Prop :=
  ∃ paths : List Path, effects = paths.map .wrote ∧ paths <+: expected
    ∧ ∀ a, result = .ok a → toPaths a = expected ∧ paths = expected

theorem delivers_error (paths : List Path) (h : paths <+: expected) (error : Error) :
    Delivers toPaths expected (.error error) (paths.map .wrote) :=
  ⟨paths, rfl, h, fun _ hok => by cases hok⟩

theorem delivers_ok {a : α} (h : toPaths a = expected) :
    Delivers toPaths expected (.ok a) (expected.map .wrote) := by
  refine ⟨expected, rfl, List.prefix_rfl, ?_⟩
  rintro _ ⟨⟩
  exact ⟨h, rfl⟩

end Delivers

theorem performs_writeFile (registry : Registry) (family : String) :
    Performs (writeFile config registry family : ExceptT Error Watched (Registry × Path))
      (Delivers ([·.2]) [filePath config.outputDir family]) := by
  have hnone (error : Error) : Delivers ([·.2]) [filePath config.outputDir family]
      (.error error : Except Error (Registry × Path)) [] :=
    delivers_error [] List.nil_prefix error
  have hall (error : Error) : Delivers ([·.2]) [filePath config.outputDir family]
      (.error error : Except Error (Registry × Path)) [.wrote (filePath config.outputDir family)] :=
    delivers_error [filePath config.outputDir family] List.prefix_rfl error
  unfold writeFile
  rcases emitNamespace registry config.runtimeDir family with ⟨cause | ⟨⟩, emission⟩
  · refine (Quiet.forM fun notice => quiet_notify notice).bind_performs (fun _ _ => ?_) hnone
    exact performs_throw (hnone _)
  · refine (Quiet.forM fun notice => quiet_notify notice).bind_performs (fun _ _ => ?_) hnone
    refine (performs_ask (.writeFile _ emission.text) Answers.writeFile _).bind ?_ ?_
    · rintro answer _ ⟨_, ⟨⟩, rfl⟩
      cases answer with
      | error cause => exact performs_throw (hall _)
      | ok =>
        refine Quiet.performs (P := (·.2 = filePath config.outputDir family)) ?_ ?_ hall
        · refine (quiet_notify _).bind fun _ _ => ?_
          split
          · exact (quiet_formatFile _ _).bind fun _ _ => .pure rfl
          · exact .pure rfl
        · intro written hpath
          exact delivers_ok (congrArg (fun path => [path]) hpath)
    · rintro error _ ⟨_, hanswer, -⟩
      cases hanswer

theorem performs_writeFiles (registry : Registry) (families : List String) :
    Performs (writeFiles config registry families : ExceptT Error Watched (List Path))
      (Delivers id (families.map (filePath config.outputDir))) := by
  induction families generalizing registry with
  | nil => exact performs_pure (delivers_ok rfl)
  | cons family families ih =>
    rw [writeFiles]
    refine (performs_writeFile config registry family).bind ?_ ?_
    · rintro ⟨registry', path⟩ _ ⟨paths, rfl, -, hok⟩
      obtain ⟨hpath, rfl⟩ := hok _ rfl
      obtain rfl : path = filePath config.outputDir family := List.singleton_inj.mp hpath
      refine (ih registry').bind ?_ ?_
      · rintro written _ ⟨rest, rfl, -, hok⟩
        obtain ⟨hwritten, rfl⟩ := hok _ rfl
        apply performs_pure
        rw [List.append_nil]
        exact delivers_ok (congrArg (filePath config.outputDir family :: ·) hwritten)
      · rintro error _ ⟨rest, rfl, hrest, -⟩
        exact delivers_error (_ :: rest) ((List.prefix_cons_inj _).mpr hrest) error
    · rintro error _ ⟨paths, rfl, hpaths, -⟩
      exact delivers_error paths (hpaths.trans (List.prefix_append [_] _)) error

end Write

section Run

/--
How a run ends: in a failure before anything is written, or with all documents read and accepted and
the files of their families delivered.
-/
def Finishes (config : Config) (result : Except Error (List Path)) (effects : List Effect) : Prop :=
  ((∃ error, result = .error error) ∧ ∀ path, .wrote path ∉ effects)
    ∨ ∃ (files : List File) (registry : Registry) (rest : List Effect),
      files.map (·.path) = config.protocols
        ∧ files.foldlM accept? Registry.empty = some registry
        ∧ effects = files.map .loaded ++ rest
        ∧ Delivers id (registry.families.map (filePath config.outputDir)) result rest

theorem performs_run (config : Config) :
    Performs (run config : ExceptT Error Watched (List Path)) (Finishes config) := by
  have hfail (error : Error) {effects : List Effect} (h : ∀ path, .wrote path ∉ effects) :
      Finishes config (.error error) effects :=
    .inl ⟨⟨error, rfl⟩, h⟩
  unfold run
  split
  · have hthrow : Quiet (throw .noProtocols : ExceptT Error Watched PUnit) fun _ => False :=
      performs_throw ⟨rfl, fun _ hok => by cases hok⟩
    exact hthrow.bind_performs (fun _ h => False.elim h) fun error => hfail error (by simp)
  · refine (performs_load config.protocols).bind ?_ fun error _ h => hfail error h.1
    rintro registry _ ⟨hnone, hok⟩
    obtain ⟨files, hpaths, rfl, haccept⟩ := hok registry rfl
    refine (quiet_ask (.createDirectory config.outputDir) _).bind_performs (fun answer _ => ?_)
      fun error => hfail error (by simp)
    cases answer with
    | error cause => exact performs_throw (hfail _ (by simp))
    | ok =>
      refine (performs_writeFiles config registry registry.families).mono ?_
      intro result rest hdelivers
      exact .inr ⟨files, registry, rest, hpaths, haccept, rfl, hdelivers⟩

end Run

section Name

variable (outputDir : Path) (family : String)

theorem isFileName_iff : Path.IsFileName (family ++ ".zig") ↔ '/' ∉ family.toList := by
  have hslash : '/' ∉ (family ++ ".zig").toList ↔ '/' ∉ family.toList := by
    simp
  have hname : family ++ ".zig" ∉ ["", ".", ".."] := by
    intro hmem
    have hlength : (family ++ ".zig").toList.length ≤ 2 := by
      simp only [List.mem_cons, List.not_mem_nil, or_false] at hmem
      rcases hmem with h | h | h
      · rw [h]
        decide
      · rw [h]
        decide
      · rw [h]
        decide
    have hzig : ".zig".toList.length = 4 := rfl
    rw [String.toList_append, List.length_append] at hlength
    omega
  exact ⟨fun h => hslash.mp h.slash_notMem, fun h => ⟨hslash.mpr h, hname⟩⟩

theorem isAbsolute_append : Path.isAbsolute ⟨family ++ ".zig"⟩ = Path.isAbsolute ⟨family⟩ := by
  simp only [Path.isAbsolute, String.toList_append]
  cases family.toList with
  | nil => rfl
  | cons c cs => rfl

theorem isFileIn_filePath_iff (h : Path.isAbsolute ⟨family⟩ = false) :
    Path.IsFileIn outputDir (filePath outputDir family) ↔ '/' ∉ family.toList := by
  rw [filePath, Path.isFileIn_join_iff outputDir ((isAbsolute_append family).trans h),
    isFileName_iff]

theorem filePath_of_isAbsolute (h : Path.isAbsolute ⟨family⟩ = true) :
    filePath outputDir family = ⟨family ++ ".zig"⟩ :=
  Path.join_of_isAbsolute outputDir ((isAbsolute_append family).trans h)

variable {family}

theorem isAbsolute_of_slash_notMem (h : '/' ∉ family.toList) :
    Path.isAbsolute ⟨family⟩ = false := by
  rw [Path.isAbsolute, beq_eq_false_iff_ne]
  intro hhead
  exact h (List.mem_of_head? hhead)

theorem parts_filePath (h : '/' ∉ family.toList) :
    (filePath outputDir family).parts =
      outputDir.directoryParts ++ [(family ++ ".zig").toList] := by
  have hrelative := (isAbsolute_append family).trans (isAbsolute_of_slash_notMem h)
  have hname := ((isFileName_iff family).mpr h).slash_notMem
  rw [filePath, Path.parts_join outputDir hrelative, Path.parts,
    Text.pieces_of_cut_eq_false (Text.cut_eq_false_of_notMem hname)]

theorem eq_of_filePath_eq {family' : String} (h : '/' ∉ family.toList) (h' : '/' ∉ family'.toList)
    (heq : filePath outputDir family = filePath outputDir family') : family = family' := by
  have hparts := congrArg Path.parts heq
  rw [parts_filePath outputDir h, parts_filePath outputDir h'] at hparts
  have hname := List.singleton_inj.mp (List.append_cancel_left hparts)
  exact (String.append_left_inj _).mp (String.toList_inj.mp hname)

end Name

/--
Where a run writes to, whatever the system answers. Nothing is written unless all documents have
been read and accepted. Then the paths are those of their families, in their order, up to a failure
if there is one. Each is a file of its own in the output directory if there is no slash in its
family. A family with a slash leads elsewhere, unless it begins with one and the rest leads back.
-/
theorem written_in_directory_iff (config : Config) (answers : Answers) :
    let final := exec (run config : ExceptT Error Watched (List Path)) ⟨answers, [], []⟩
    ((∃ error, final.1 = .error error) ∧ ∀ path, .wrote path ∉ final.2.effects)
      ∨ ∃ (files : List File) (registry : Registry) (paths : List Path),
        files.map (·.path) = config.protocols
        ∧ files.foldlM accept? Registry.empty = some registry
        ∧ final.2.effects = files.map .loaded ++ paths.map .wrote
        ∧ paths <+: registry.families.map (filePath config.outputDir)
        ∧ (∀ result, final.1 = .ok result →
          result = paths ∧ paths = registry.families.map (filePath config.outputDir))
        ∧ registry.families.Nodup
        ∧ (∀ family ∈ registry.families, family ≠ "" ∧ '_' ∉ family.toList
          ∧ (Path.IsFileName (family ++ ".zig") ↔ '/' ∉ family.toList)
          ∧ (Path.isAbsolute ⟨family⟩ = false →
            (Path.IsFileIn config.outputDir (filePath config.outputDir family) ↔
              '/' ∉ family.toList))
          ∧ (Path.isAbsolute ⟨family⟩ = true →
            filePath config.outputDir family = ⟨family ++ ".zig"⟩))
        ∧ ∀ family ∈ registry.families, ∀ family' ∈ registry.families,
          '/' ∉ family.toList → '/' ∉ family'.toList →
          filePath config.outputDir family = filePath config.outputDir family' →
          family = family' := by
  intro final
  obtain ⟨effects, heffects, hfinishes⟩ := performs_run config ⟨answers, [], []⟩
  have hfinal : final.2.effects = effects := heffects
  rcases hfinishes with hfails | ⟨files, registry, _, hpaths, haccept, rfl, hdelivers⟩
  · exact .inl ⟨hfails.1, hfinal ▸ hfails.2⟩
  · obtain ⟨paths, rfl, hprefix, hok⟩ := hdelivers
    have hcoherent := coherent_foldlM_accept? Registry.coherent_empty haccept
    refine .inr ⟨files, registry, paths, hpaths, haccept, hfinal, hprefix, ?_,
      hcoherent.nodup_families, ?_, ?_⟩
    · intro result hresult
      obtain ⟨heq, hall⟩ := hok result hresult
      exact ⟨heq.trans hall.symm, hall⟩
    · intro family hfamily
      obtain ⟨protocol, hprotocol, rfl⟩ := (hcoherent.mem_families_iff family).mp hfamily
      obtain ⟨hne, hunderscore⟩ := (hcoherent.built_of_mem hprotocol).family_ne
      exact ⟨hne, hunderscore, isFileName_iff _, isFileIn_filePath_iff _ _,
        filePath_of_isAbsolute _ _⟩
    · intro family _ family' _ h h'
      exact eq_of_filePath_eq config.outputDir h h'

def answersOf (documents : List String) : Answers where
  readFile requests :=
    match documents[requests.length - 1]? with
    | some text => .ok (Utf8.encode text)
    | none => .error .notFound
  pathExists _ := false
  createDirectory _ := .ok ()
  writeFile _ := .ok ()
  runProgram _ := .error .notFound

def escapingDocument : String :=
  "<protocol name='p'><interface name='../up_x' version='1'/></protocol>"

def relativeDocument : String :=
  "<protocol name='p'><interface name='a_x' version='1'/></protocol>"

def absoluteDocument : String :=
  "<protocol name='q'><interface name='/o/a_x' version='1'/></protocol>"

theorem exists_written_outside :
    let escaping := exec (run { protocols := [⟨"p.xml"⟩] } : ExceptT Error Watched (List Path))
      ⟨answersOf [escapingDocument], [], []⟩
    let meeting := exec (run { protocols := [⟨"p.xml"⟩, ⟨"q.xml"⟩], outputDir := ⟨"/o"⟩ } :
      ExceptT Error Watched (List Path)) ⟨answersOf [relativeDocument, absoluteDocument], [], []⟩
    escaping.1 = .ok [⟨"generated/../up.zig"⟩]
      ∧ escaping.2.effects =
        [.loaded ⟨⟨"p.xml"⟩, Utf8.encode escapingDocument⟩, .wrote ⟨"generated/../up.zig"⟩]
      ∧ ¬ Path.IsFileIn ⟨"generated"⟩ ⟨"generated/../up.zig"⟩
      ∧ meeting.2.effects =
        [.loaded ⟨⟨"p.xml"⟩, Utf8.encode relativeDocument⟩,
          .loaded ⟨⟨"q.xml"⟩, Utf8.encode absoluteDocument⟩,
          .wrote ⟨"/o/a.zig"⟩, .wrote ⟨"/o/a.zig"⟩] := by
  refine ⟨by decide +kernel, by decide +kernel, ?_, by decide +kernel⟩
  have hpath : filePath ⟨"generated"⟩ "../up" = ⟨"generated/../up.zig"⟩ := by
    decide
  rw [← hpath, isFileIn_filePath_iff _ _ (by decide)]
  decide

end Generate
end Waybind
