import Waybind.Path

/-!
This module contains the notices that a run leaves in its log.
-/

namespace Waybind

/--
How important a notice is. A log shows the notices of its own level and of those before it.
-/
inductive Level where
  | error
  | warn
  | info
  | debug
  | trace
deriving Repr, DecidableEq, Inhabited

namespace Level

def rank : Level → Nat
  | .error => 1
  | .warn => 2
  | .info => 3
  | .debug => 4
  | .trace => 5

def name : Level → String
  | .error => "error"
  | .warn => "warn"
  | .info => "info"
  | .debug => "debug"
  | .trace => "trace"

def ofName? (name : String) : Option Level :=
  [Level.trace, .debug, .info, .warn, .error].find? (·.name == name)

def label : Level → String
  | .error => "ERROR"
  | .warn => "WARN "
  | .info => "INFO "
  | .debug => "DEBUG"
  | .trace => "TRACE"

end Level

inductive Notice where
  | configured (path : Path)
  | reading (path : Path)
  | registered (protocol family : String)
  | loaded (protocols namespaces : Nat)
  | resolved (name current owner : String)
  | references (protocol family : String)
  | emitting (protocol : String)
  | wrote (path : Path)
  | formatted (path : Path)
  | formatterFailed (program status : String) (path : Path)
  | formatterMissing (program cause : String)
  | generated (files : Nat) (directory : Path)
  | failed (cause : String)
deriving Repr, DecidableEq, Inhabited

namespace Notice

def level : Notice → Level
  | .configured _ | .reading _ | .registered .. | .references .. | .emitting _ | .formatted _ =>
    .debug
  | .loaded .. | .wrote _ | .generated .. => .info
  | .resolved .. => .trace
  | .formatterFailed .. | .formatterMissing .. => .warn
  | .failed _ => .error

def origin : Notice → String
  | .configured _ => "wlzig::config"
  | .registered .. => "wlzig::registry"
  | .resolved .. | .references .. => "wlzig::resolver"
  | .emitting _ => "wlzig::emit"
  | .reading _ | .loaded .. | .wrote _ | .formatted _ | .formatterFailed ..
  | .formatterMissing .. => "wlzig::driver"
  | .generated .. | .failed _ => "wlzig::cli::generate"

def message : Notice → String
  | .configured path => "Loaded configuration from " ++ path.text
  | .reading path => "Reading " ++ path.text
  | .registered protocol family => s!"Registered protocol {protocol} in namespace {family}"
  | .loaded protocols namespaces => s!"Loaded {protocols} protocols in {namespaces} namespaces"
  | .resolved name current owner =>
    s!"Resolved {name} from protocol {current} in protocol {owner}"
  | .references protocol family => s!"Protocol {protocol} references namespace {family}"
  | .emitting protocol => "Emitting protocol " ++ protocol
  | .wrote path => "Wrote " ++ path.text
  | .formatted path => "Formatted " ++ path.text
  | .formatterFailed program status path =>
    program ++ " exited with " ++ status ++ " while formatting " ++ path.text
  | .formatterMissing program cause => "Could not run " ++ program ++ ": " ++ cause
  | .generated files directory => s!"Generated {files} files in " ++ directory.text
  | .failed cause => "Could not generate bindings: " ++ cause

def render (notice : Notice) : String :=
  "[" ++ notice.level.label ++ " " ++ notice.origin ++ "] " ++ notice.message ++ "\n"

def entry (notice : Notice) (level : Level) : String :=
  if notice.level.rank ≤ level.rank then notice.render else ""

end Notice
end Waybind
