import Waybind.Rehearsal.Utility.Basic
import Waybind.Text.Numeral

/-!
This module contains the utility that copies files and directories.
-/

namespace Waybind
namespace Rehearsal
namespace Copy

inductive Following where
  | never
  | always
  | operands
deriving Repr, DecidableEq

inductive Backup where
  | none
  | simple
  | existing
  | numbered
deriving Repr, DecidableEq

inductive Existing where
  | replace
  | keep
  | ask
deriving Repr, DecidableEq

structure Style where
  recursive : Bool := false
  following : Option Following := Option.none
  asLinks : Bool := false
  asPaths : Bool := false
  keepsLinks : Bool := false
  force : Bool := false
  existing : Existing := .replace
  update : Bool := false
  verbose : Bool := false
  content : Bool := true
  removes : Bool := false
  withParents : Bool := false
  stripsSlashes : Bool := false
  asFile : Bool := false
  cloned : Bool := false
  sparse : Nat := 1
  backups : Bool := false
  backupKind : Option String := Option.none
  suffix : Option String := Option.none
  directory : Option String := Option.none
  backup : Backup := .none
  ending : String := "~"

def options : OptionTable where
  letters := "abdfHilLnprsuvxPRTZ"
  valued := "tS"
  words := [("archive", 'a', .none), ("attributes-only", 'A', .none), ("backup", 'b', .optional),
    ("copy-contents", 'C', .none), ("dereference", 'L', .none), ("force", 'f', .none),
    ("interactive", 'i', .none), ("link", 'l', .none), ("no-clobber", 'n', .none),
    ("no-dereference", 'P', .none), ("no-preserve", 'N', .required),
    ("no-target-directory", 'T', .none), ("one-file-system", 'x', .none), ("parents", 'O', .none),
    ("path", 'O', .none), ("preserve", 'K', .optional), ("recursive", 'R', .none),
    ("remove-destination", 'M', .none), ("reflink", 'F', .optional), ("sparse", 'E', .required),
    ("strip-trailing-slashes", 'D', .none), ("suffix", 'S', .required),
    ("symbolic-link", 's', .none), ("target-directory", 't', .required), ("update", 'u', .none),
    ("verbose", 'v', .none), ("context", 'Z', .optional), ("help", '?', .none),
    ("version", '!', .none)]

def attributeChoices : Choices :=
  [["mode"], ["timestamps"], ["ownership"], ["links"], ["context"], ["xattr"], ["all"]]

def backupChoices : Choices :=
  [["none", "off"], ["simple", "never"], ["existing", "nil"], ["numbered", "t"]]

def sparseChoices : Choices :=
  [["never"], ["auto"], ["always"]]

def cloneChoices : Choices :=
  [["auto"], ["always"], ["never"]]

def attributes (context text : String) : UtilityM (List Nat) :=
  (Text.pieces (· == ',') text.toList).mapM fun piece =>
    UtilityM.choose attributeChoices context (String.ofList piece)

def Style.add (style : Style) (option : GivenOption) : UtilityM Style := do
  match option.letter with
  | 'a' =>
    return { style with recursive := true, following := some .never, keepsLinks := true }
  | 'A' => return { style with content := false }
  | 'b' =>
    return { style with backups := true, backupKind := option.value.or style.backupKind }
  | 'd' => return { style with following := some .never, keepsLinks := true }
  | 'f' => return { style with force := true }
  | 'H' => return { style with following := some .operands }
  | 'i' => return { style with existing := .ask }
  | 'l' => return { style with asLinks := true }
  | 'L' => return { style with following := some .always }
  | 'n' => return { style with existing := .keep }
  | 'P' => return { style with following := some .never }
  | 'N' =>
    let list ← attributes "--no-preserve" (option.value.getD "")
    return { style with keepsLinks := style.keepsLinks && !list.any fun n => n == 3 || n == 6 }
  | 'K' =>
    match option.value with
    | none => return style
    | some text =>
      let list ← attributes "--preserve" text
      return { style with keepsLinks := style.keepsLinks || list.any fun n => n == 3 || n == 6 }
  | 'O' => return { style with withParents := true }
  | 'r' | 'R' => return { style with recursive := true }
  | 'M' => return { style with removes := true }
  | 'F' =>
    match option.value with
    | none => return { style with cloned := true }
    | some text =>
      return { style with cloned := (← UtilityM.choose cloneChoices "--reflink" text) == 1 }
  | 'E' =>
    return { style with
      sparse := ← UtilityM.choose sparseChoices "--sparse" (option.value.getD "") }
  | 'D' => return { style with stripsSlashes := true }
  | 's' => return { style with asPaths := true }
  | 'S' => return { style with backups := true, suffix := option.value }
  | 't' =>
    if style.directory.isSome then
      UtilityM.giveUp "multiple target directories specified"
    return { style with directory := option.value }
  | 'T' => return { style with asFile := true }
  | 'u' => return { style with update := true }
  | 'v' => return { style with verbose := true }
  | 'Z' =>
    if option.value.isSome then
      UtilityM.warn "warning: ignoring --context; it requires an SELinux-enabled kernel"
    return style
  | _ => return style

def backupOf (index : Nat) : Backup :=
  match index with
  | 0 => .none
  | 1 => .simple
  | 2 => .existing
  | _ => .numbered

def Style.settle (style : Style) : UtilityM Style := do
  if style.asLinks && style.asPaths then
    UtilityM.refuse "cannot make both hard and symbolic links"
  if style.backups && style.existing == .keep then
    UtilityM.refuse "options --backup and --no-clobber are mutually exclusive"
  if style.cloned && style.sparse != 1 then
    UtilityM.refuse "--reflink can be used only with --sparse=auto"
  let environment := (← UtilityM.process get).environment
  let given (name : String) := (environment.lookup name).filter (!·.isEmpty)
  let backup ←
    match style.backups, style.backupKind.filter (!·.isEmpty), given "VERSION_CONTROL" with
    | false, _, _ => pure Backup.none
    | true, some text, _ => backupOf <$> UtilityM.choose backupChoices "backup type" text
    | true, none, some text => backupOf <$> UtilityM.choose backupChoices "$VERSION_CONTROL" text
    | true, none, none => pure Backup.existing
  let ending := (style.suffix.or (given "SIMPLE_BACKUP_SUFFIX")).getD ""
  let isFitting := !ending.isEmpty && !ending.toList.contains '/'
  let usual : Following := if style.recursive && !style.asLinks then .never else .always
  return { style with
    backup := backup
    ending := if isFitting then ending else "~"
    following := some (style.following.getD usual)
    update := style.update && style.existing != .keep }

/--
What has been done so far: the operands that have been copied, the files that have been created for
operands, and where directories and files with several names have been copied to. `first` tells that
a directory has been created for the operand at hand, and `intoItself` that it was to be copied into
itself.
-/
structure Progress where
  several : Bool := false
  sources : List Location := []
  created : List Location := []
  copied : List (Location × Location) := []
  first : Bool := false
  intoItself : Bool := false
  operand : String := ""
  goal : String := ""

abbrev CopyM : Type → Type :=
  StateT Progress UtilityM

namespace CopyM

def process {α : Type} (action : ProcessM α) : CopyM α :=
  StateT.lift (UtilityM.process action)

def complain (message : String) : CopyM Bool := do
  StateT.lift (UtilityM.complain message)
  return false

def print (text : String) : CopyM Unit :=
  StateT.lift (UtilityM.print text)

end CopyM

def baseName (path : String) : String :=
  match ((Path.mk path).parts.filter (!·.isEmpty)).getLast? with
  | some name => String.ofList name
  | none => path

def below (path name : String) : String :=
  if path.isEmpty || path.toList.getLast? == some '/' then path ++ name else path ++ "/" ++ name

def stripSlashes (path : String) : String :=
  match (path.toList.reverse.dropWhile (· == '/')).reverse with
  | [] => path
  | cs => String.ofList cs

def backupNumber? (base name : String) : Option Nat := do
  let start := (base ++ ".~").toList
  if !start.isPrefixOf name.toList then none
  match (name.toList.drop start.length).reverse with
  | '~' :: digits =>
    let digits := digits.reverse
    if digits.head? == some '0' then none
    (Numeral.number 10 Numeral.maxInt64 .tooLarge digits).toOption
  | _ => none

def backupName (style : Style) (tree : Tree) (directory : Location) (base : String) : String :=
  let numbers := (tree.children directory).filterMap (backupNumber? base)
  let next := numbers.foldl max 0 + 1
  match style.backup with
  | .numbered => base ++ ".~" ++ toString next ++ "~"
  | .existing =>
    if numbers.isEmpty then base ++ Octets.toText style.ending
    else base ++ ".~" ++ toString next ++ "~"
  | _ => base ++ Octets.toText style.ending

def canonical (tree : Tree) (location : Location) (node : Node) : Location :=
  match node with
  | .shared other => other
  | .link _ =>
    match location with
    | name :: outer => ((tree.find outer ⟨name⟩).toOption.map (·.1)).getD location
    | [] => location
  | _ => location

def contentOf (node : Node) : CopyM (List UInt8) := do
  match node with
  | .file content => return content.toList
  | .device (.descriptor number) =>
    let process ← CopyM.process get
    match process.channel? number with
    | some (_, ⟨.file location _ _, _, _⟩) =>
      match process.tree.get? location with
      | some (.file content) => return content.toList
      | _ => return []
    | _ => return ((← CopyM.process (Process.readAll number)).toOption).getD []
  | _ => return []

def copyContent (style : Style) (source target : String) (node : Node) (isNew : Bool) :
    CopyM Bool := do
  let targetName := Quoting.quote target
  let process ← CopyM.process get
  let entry := process.tree.findWith false process.directory (Process.pathOf target)
  match isNew, entry with
  | true, .ok (_, .link _) =>
    return ← CopyM.complain ("not writing through dangling symlink " ++ targetName)
  | _, _ => pure ()
  let failure (error : HostError) : CopyM Bool :=
    let slash := target.toList.getLast? == some '/'
    let error := if slash && error == .isDirectory then .notDirectory else error
    CopyM.complain ("cannot create regular file " ++ targetName ++ ": " ++ Process.reason error)
  if style.cloned then
    return ← CopyM.complain ("failed to clone " ++ targetName ++ " from " ++ Quoting.quote source
      ++ ": Operation not supported")
  let content ← contentOf node
  let access : Access := if style.content then .replace else .append
  match ← CopyM.process (Process.openPath target access) with
  | .error error => failure error
  | .ok channel =>
    if !style.content then
      return true
    match node, (← CopyM.process get).tree.resolve process.directory (Process.pathOf target) with
    | .program _, .ok place =>
      CopyM.process (modify fun process =>
        { process with tree := process.tree.put place.location node })
      return true
    | _, _ =>
      match ← CopyM.process (Process.writeTo channel content) with
      | .ok () => return true
      | .error error =>
        CopyM.complain ("error writing " ++ targetName ++ ": " ++ Process.reason error)

def place (target : String) (node : Node) : CopyM (Except HostError Unit) :=
  CopyM.process (Process.updateTree fun tree directory => do
    let goal ← tree.resolveWith false directory (Process.pathOf target)
    if goal.slash then
      throw .notFound
    if goal.node.isSome then
      throw .alreadyExists
    return tree.put goal.location node)

def clear (target : String) : CopyM Unit := do
  match ← CopyM.process (Process.findEntry target) with
  | .ok (location, _) => CopyM.process (Process.remove location)
  | .error _ => return

def isHere (process : Process) (target : String) : Bool :=
  match process.tree.resolveWith false process.directory (Process.pathOf target) with
  | .ok goal => goal.location.tail == process.directory
  | .error _ => true

def announce (style : Style) (source target : String) (backup : Option String) : CopyM Unit := do
  if style.verbose then
    let kept :=
      match backup with
      | some name => " (backup: " ++ Quoting.quote name ++ ")"
      | none => ""
    CopyM.print (Quoting.quote source ++ " -> " ++ Quoting.quote target ++ kept ++ "\n")

def restore (style : Style) (backup target : String) : CopyM Unit := do
  let process ← CopyM.process get
  let origin := process.tree.findWith false process.directory (Process.pathOf backup)
  let goal := process.tree.resolveWith false process.directory (Process.pathOf target)
  match origin, goal with
  | .ok (origin, _), .ok goal =>
    CopyM.process (Process.rename origin goal.location)
    if style.verbose then
      CopyM.print (Quoting.quote backup ++ " -> " ++ Quoting.quote target ++ " (unbackup)\n")
  | _, _ => return

structure Item where
  source : String
  target : String
  location : Location
  node : Node
  isNew : Bool

def makeCopy (style : Style) (item : Item) : CopyM Bool := do
  let sourceName := Quoting.quote item.source
  let targetName := Quoting.quote item.target
  let process ← CopyM.process get
  if style.asPaths then
    if (Path.mk item.source).isAbsolute || isHere process item.target then
      if style.force then
        clear item.target
      match ← place item.target (.link (Octets.toText item.source)) with
      | .ok () => return true
      | .error error =>
        CopyM.complain ("cannot create symbolic link " ++ targetName ++ " to " ++ sourceName ++ ": "
          ++ Process.reason error)
    else
      CopyM.complain (Quoting.quoteIfNeeded item.target
        ++ ": can make relative symbolic links only in current directory")
  else if style.asLinks then
    if style.force || style.existing == .ask then
      clear item.target
    let node : Node :=
      match item.node with
      | .link path => .link path
      | _ => .shared (canonical process.tree item.location item.node)
    match ← place item.target node with
    | .ok () => return true
    | .error error =>
      CopyM.complain ("cannot create hard link " ++ targetName ++ " to " ++ sourceName ++ ": "
        ++ Process.reason error)
  else
    match item.node with
    | .link path =>
      match ← place item.target (.link path) with
      | .ok () => return true
      | .error error =>
        CopyM.complain ("cannot create symbolic link " ++ targetName ++ ": "
          ++ Process.reason error)
    | .device device =>
      if !style.recursive then
        copyContent style item.source item.target item.node item.isNew
      else
        match ← place item.target (.device device) with
        | .ok () => return true
        | .error error =>
          CopyM.complain ("cannot create special file " ++ targetName ++ ": "
            ++ Process.reason error)
    | _ =>
      match process.tree.find process.directory (Process.pathOf item.source) with
      | .ok (_, node) => copyContent style item.source item.target node item.isNew
      | .error error =>
        CopyM.complain ("cannot open " ++ sourceName ++ " for reading: " ++ Process.reason error)

/--
How a file and what is where its copy is to be made go together: they are apart, they are already
the same, or the copy would be made of itself.
-/
inductive Relation where
  | apart
  | already
  | clash
deriving DecidableEq

def identity (found : Location × Node) : Location :=
  match found with
  | (_, .shared other) => other
  | (location, _) => location

def isLink (found : Location × Node) : Bool :=
  found.2 matches .link _

def haveSameName (process : Process) (source target : String) : Bool :=
  let outer (path : String) : Option Location :=
    let name := (baseName path).length
    let trimmed := (path.toList.reverse.dropWhile (· == '/')).reverse
    let directory := String.ofList (trimmed.take (trimmed.length - name) ++ ['.'])
    (process.tree.find process.directory (Process.pathOf directory)).toOption.map (·.1)
  baseName source == baseName target && outer source == outer target

def relation (style : Style) (process : Process) (item : Item) (place : Location)
    (existing : Node) : Relation :=
  let tree := process.tree
  let never := style.following == some .never
  let start := (item.location, item.node)
  let goal := (place, existing)
  let isSame := identity start == identity goal
  let sameName := haveSameName process item.source item.target
  let entry (path : String) (found : Location × Node) : Location × Node :=
    if never then
      found
    else
      (tree.findWith false process.directory (Process.pathOf path)).toOption.getD found
  let first := entry item.source start
  let second := entry item.target goal
  let sameEntry := identity first == identity second
  let anyLink := isLink first || isLink second
  let isShared := !(tree.otherNames (identity second)).isEmpty
  if isSame && style.asLinks then
    .already
  else if never && isLink start && isLink goal then
    if sameName then .clash else if style.backup == .none && isSame then .already else .apart
  else if !never && !isSame then
    .apart
  else if !never && isLink first && isLink second && style.removes then
    .apart
  else if style.backup != .none then
    if sameEntry then if sameName then .clash else .apart
    else if !never && isLink first && !isLink second then .clash
    else .apart
  else if style.removes && (isLink second || (sameEntry && isShared && !sameName)) then
    .apart
  else if !anyLink && !sameEntry then
    .apart
  else if !anyLink && style.asLinks then
    .already
  else if style.asPaths && isLink second then
    .apart
  else if never && canonical tree first.1 first.2 != canonical tree second.1 second.2 then
    .apart
  else if never && style.asLinks then
    if isLink second then .apart else .already
  else
    .clash

inductive Way where
  | done (result : Bool)
  | free (isNew : Bool) (backup : Option String)

def clearWay (style : Style) (isOperand : Bool) (item : Item) (place : Location) (existing : Node) :
    CopyM Way := do
  let sourceName := Quoting.quote item.source
  let targetName := Quoting.quote item.target
  let refuse (message : String) : CopyM Way := Way.done <$> CopyM.complain message
  let process ← CopyM.process get
  let tree := process.tree
  let isDirectory := item.node == .directory
  let relation := relation style process item place existing
  if relation == .clash && style.existing != .keep then
    return ← refuse (sourceName ++ " and " ++ targetName ++ " are the same file")
  if style.update && !isDirectory then
    return .done true
  if !isDirectory && style.existing == .keep then
    return .done true
  if !isDirectory && style.existing == .ask then
    if !(← StateT.lift (UtilityM.ask ("overwrite " ++ targetName))) then
      return .done true
  if relation == .already then
    return .done true
  if existing != .directory then
    if isDirectory then
      return ← refuse ("cannot overwrite non-directory " ++ targetName ++ " with directory "
        ++ sourceName)
    if isOperand && style.backup != .numbered && (← get).created.contains place then
      return ← refuse ("will not overwrite just-created " ++ targetName ++ " with " ++ sourceName)
  else if !isDirectory then
    return ← refuse ("cannot overwrite directory " ++ targetName ++ " with non-directory")
  let base := baseName item.source
  if style.backup != .none && base != "." && base != ".." && existing != .directory then
    let name := backupName style tree place.tail (place.headD "")
    let isOwnBackup := style.backup != .numbered
      && item.location == (place.headD "" ++ Octets.toText style.ending) :: place.tail
    if isOwnBackup then
      return ← refuse ("backing up " ++ targetName ++ " might destroy source;  " ++ sourceName
        ++ " not copied")
    CopyM.process (Process.rename place (name :: place.tail))
    let directory := item.target.toList.take (item.target.length - (baseName item.target).length)
    return .free true (some (String.ofList directory ++ Octets.ofText name))
  let hasOtherNames := !(tree.otherNames (identity (place, existing))).isEmpty
  let isSpecial := style.following == some .never
    && ((item.node matches .link _) || (item.node matches .device _))
  let isInTheWay := style.content && ((style.keepsLinks && hasOtherNames) || isSpecial)
  if existing != .directory && (style.removes || isInTheWay) then
    clear item.target
    if style.verbose then
      CopyM.print ("removed " ++ targetName ++ "\n")
    return .free true none
  return .free false none

def lookAt (path : String) (follow : Bool) : CopyM (Except HostError (Location × Node)) := do
  let process ← CopyM.process get
  return process.tree.findWith follow process.directory (Process.pathOf path)

def copyChildren (copy : String → String → CopyM Bool) (item : Item) (names : List String) :
    CopyM Bool := do
  match names with
  | [] => return true
  | name :: names =>
    let text := Octets.ofText name
    let result ← copy (below item.source text) (below item.target text)
    if (← get).intoItself then
      return false
    let rest ← copyChildren copy item names
    return result && rest

def copyDirectory (copy : String → String → CopyM Bool) (style : Style) (item : Item) :
    CopyM Bool := do
  if item.isNew then
    let create (tree : Tree) (directory : Location) : Except HostError Tree :=
      tree.createOne directory (Process.pathOf item.target)
    match ← CopyM.process (Process.updateTree create) with
    | .error error =>
      return ← CopyM.complain ("cannot create directory " ++ Quoting.quote item.target ++ ": "
        ++ Process.reason error)
    | .ok () =>
      let process ← CopyM.process get
      let created := process.tree.resolve process.directory (Process.pathOf item.target)
      if let (false, .ok goal) := ((← get).first, created) then
        modify fun progress =>
          { progress with
            first := true
            copied := (goal.location, goal.location) :: progress.copied }
      announce style item.source item.target none
  copyChildren copy item ((← CopyM.process get).tree.children item.location)

def copyAgain (copyTree : Item → CopyM Bool) (follows : Bool) (item : Item)
    (earlier : Location) (goal : Option Location) : CopyM Bool := do
  let progress ← get
  if earlier == item.location then
    modify fun progress => { progress with intoItself := true }
    CopyM.complain ("cannot copy a directory, " ++ Quoting.quote progress.operand
      ++ ", into itself, " ++ Quoting.quote progress.goal)
  else if some earlier == goal then
    StateT.lift (UtilityM.warn
      ("warning: source directory " ++ Quoting.quote progress.operand
        ++ " specified more than once"))
    return true
  else if follows then
    copyTree item
  else
    CopyM.complain ("will not create hard link " ++ Quoting.quote item.target ++ " to directory "
      ++ Quoting.quote (Octets.ofText ("/".intercalate (earlier.take 1))))

def copyFile (style : Style) (isOperand : Bool) (item : Item) (backup : Option String) :
    CopyM Bool := do
  let result ← makeCopy style item
  if let (false, some backup) := (result, backup) then
    restore style backup item.target
  if isOperand && (← get).several then
    if let .ok (place, _) := ← lookAt item.target false then
      modify fun progress => { progress with created := place :: progress.created }
  return result

def copyItem (copyTree : Item → CopyM Bool) (style : Style) (isOperand follows : Bool)
    (item : Item) (backup : Option String) : CopyM Bool := do
  let isDirectory := item.node == .directory
  if !isDirectory then
    announce style item.source item.target backup
  let process ← CopyM.process get
  let tree := process.tree
  let target := Process.pathOf item.target
  let goal := (tree.resolveWith false process.directory target).toOption.map (·.location)
  let place := canonical tree item.location item.node
  let isShared := !(tree.otherNames place).isEmpty || (item.node matches .shared _)
  let progress ← get
  let earlier : Option Location :=
    if isDirectory || (style.keepsLinks && !style.asLinks && isShared) then
      progress.copied.lookup place
    else
      none
  let remembers := if isDirectory then isOperand else style.keepsLinks && isShared
  if let (true, none, some goal) := (remembers, earlier, goal) then
    modify fun progress => { progress with copied := (place, goal) :: progress.copied }
  match isDirectory, earlier with
  | true, some earlier => copyAgain copyTree follows item earlier goal
  | true, none => copyTree item
  | false, some earlier =>
    clear item.target
    match ← Copy.place item.target (.shared earlier) with
    | .ok () => return true
    | .error error =>
      CopyM.complain ("cannot create hard link " ++ Quoting.quote item.target ++ ": "
        ++ Process.reason error)
  | false, none => copyFile style isOperand item backup

def isEntry (style : Style) (node : Node) : Bool :=
  let isRegular :=
    match node with
    | .file _ | .program _ | .shared _ => true
    | .device _ => !style.recursive
    | _ => false
  !isRegular || style.asPaths || style.asLinks || style.backup != .none || style.removes

def copyWith (copyTree : Item → CopyM Bool) (style : Style) (isOperand : Bool)
    (source target : String) : CopyM Bool := do
  let sourceName := Quoting.quote source
  let follows := style.following == some .always
    || (style.following == some .operands && isOperand)
  match ← lookAt source follows with
  | .error error => CopyM.complain ("cannot stat " ++ sourceName ++ ": " ++ Process.reason error)
  | .ok (location, node) =>
    let isDirectory := node == .directory
    if isDirectory && !style.recursive then
      return ← CopyM.complain ("-r not specified; omitting directory " ++ sourceName)
    if isOperand && (← get).several then
      let entry := ((← lookAt source false).toOption.map (·.1)).getD location
      if !isDirectory && style.backup == .none && (← get).sources.contains entry then
        StateT.lift (UtilityM.warn
          ("warning: source file " ++ sourceName ++ " specified more than once"))
        return true
      modify fun progress => { progress with sources := entry :: progress.sources }
    let asEntry := isEntry style node
    let item : Item := ⟨source, target, location, node, true⟩
    let goal := if target.isEmpty && (asEntry || style.asFile) then "." else target
    let way ←
      match ← lookAt goal (!asEntry) with
      | .error .notFound => pure (Way.free true none)
      | .error error =>
        Way.done <$> CopyM.complain ("cannot stat " ++ Quoting.quote target ++ ": "
          ++ Process.reason error)
      | .ok (place, existing) => clearWay style isOperand item place existing
    match way with
    | .done result => return result
    | .free isNew backup =>
      copyItem copyTree style isOperand follows { item with isNew := isNew } backup

/--
Copy one thing. Directories are copied down to a depth. Below an operand links are followed only if
all links are.
-/
def copyOne (depth : Nat) (style : Style) (isOperand : Bool) (source target : String) :
    CopyM Bool :=
  match depth with
  | 0 => copyWith (fun _ => return false) style isOperand source target
  | depth + 1 =>
    let following := if style.following == some .operands then some .never else style.following
    let copy := copyOne depth { style with following := following } false
    copyWith (copyDirectory copy style) style isOperand source target

def copyOperand (style : Style) (source target : String) : CopyM Bool := do
  let depth := (← CopyM.process get).tree.nodes.length + 2
  modify fun progress =>
    { progress with first := false, intoItself := false, operand := source, goal := target }
  copyOne depth style true source target

def createParents (style : Style) (directory : String) (done names : List String) :
    CopyM Bool := do
  match names with
  | [] | [_] => return true
  | name :: names =>
    let done := done ++ [name]
    let source := "/".intercalate done
    let target := below directory source
    let process ← CopyM.process get
    match process.tree.find process.directory (Process.pathOf source) with
    | .error error =>
      CopyM.complain ("failed to get attributes of " ++ Quoting.quote source ++ ": "
        ++ Process.reason error)
    | .ok _ =>
      match process.tree.find process.directory (Process.pathOf target) with
      | .ok (_, .directory) => createParents style directory done names
      | .ok _ => CopyM.complain (Quoting.quote target ++ " exists but is not a directory")
      | .error _ =>
        let create (tree : Tree) (place : Location) : Except HostError Tree :=
          tree.createOne place (Process.pathOf target)
        match ← CopyM.process (Process.updateTree create) with
        | .error error =>
          CopyM.complain ("cannot make directory " ++ Quoting.quote target ++ ": "
            ++ Process.reason error)
        | .ok () =>
          if style.verbose then
            CopyM.print (source ++ " -> " ++ target ++ "\n")
          createParents style directory done names

def copyInto (style : Style) (directory : String) (operands : List String) : CopyM Unit := do
  modify fun progress => { progress with several := 2 ≤ operands.length }
  for operand in operands do
    let operand := if style.stripsSlashes then stripSlashes operand else operand
    if style.withParents then
      let path := stripSlashes operand
      let names := ((Path.mk path).parts.map String.ofList).filter (!·.isEmpty)
      if ← createParents style directory [] names then
        discard <| copyOperand style operand (below directory path)
    else
      let base := baseName operand
      let base := if base == ".." then "." else base
      discard <| copyOperand style operand (below directory base)

def copyTo (style : Style) (source target : String) : CopyM Unit := do
  if style.withParents then
    StateT.lift (UtilityM.refuse "with --parents, the destination must be a directory")
  let process ← CopyM.process get
  let file := process.tree.find process.directory (Process.pathOf target)
  let entry := process.tree.findWith false process.directory (Process.pathOf target)
  match style.force && style.backup != .none && source == target, file, entry with
  | true, .ok (_, .file _), .ok (place, _) =>
    let name := backupName style process.tree place.tail (place.headD "")
    let directory := target.toList.take (target.length - (baseName target).length)
    let goal := String.ofList directory ++ Octets.ofText name
    discard <| copyOperand { style with backup := .none } source goal
  | _, _, _ => discard <| copyOperand style source target

def run (args : List String) : UtilityM Unit := do
  let arguments := options.read args
  let style ← arguments.options.foldlM Style.add ({} : Style)
  if let some mistake := arguments.mistake then
    UtilityM.refuse mistake
  let style ← style.settle
  let process ← UtilityM.process get
  let isDirectory (path : String) :=
    process.tree.isDirectory process.directory (Process.pathOf path)
  let why (path : String) :=
    match process.tree.find process.directory (Process.pathOf path) with
    | .error error => Process.reason error
    | .ok _ => Process.reason .notDirectory
  let start (action : CopyM Unit) : UtilityM Unit := do
    discard <| action.run {}
  match style.directory, arguments.operands.reverse with
  | _, [] => UtilityM.refuse "missing file operand"
  | none, [operand] =>
    UtilityM.refuse ("missing destination file operand after " ++ Quoting.quote operand)
  | some directory, operands =>
    if style.asFile then
      UtilityM.giveUp
        "cannot combine --target-directory (-t) and --no-target-directory (-T)"
    if !isDirectory directory then
      UtilityM.giveUp ("target directory " ++ Quoting.quote directory ++ ": " ++ why directory)
    start (copyInto style directory operands.reverse)
  | none, target :: sources =>
    match style.asFile, sources with
    | true, [source] => start (copyTo style source target)
    | true, _ =>
      UtilityM.refuse ("extra operand " ++ Quoting.quote ((arguments.operands.drop 2).headD ""))
    | false, sources =>
      if isDirectory target then
        start (copyInto style target sources.reverse)
      else
        match sources with
        | [source] => start (copyTo style source target)
        | _ => UtilityM.giveUp ("target " ++ Quoting.quote target ++ ": " ++ why target)

end Copy
end Rehearsal
end Waybind
