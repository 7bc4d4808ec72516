import Waybind.Bindings.Argument
import Waybind.Bindings.Enumeration
import Waybind.Bindings.Interface
import Waybind.Bindings.Name
import Waybind.Bindings.Namespace
import Waybind.CommandLine.Basic
import Waybind.CommandLine.Completion
import Waybind.CommandLine.Execute
import Waybind.Config.Basic
import Waybind.Config.Toml
import Waybind.Generate
import Waybind.Host
import Waybind.Main
import Waybind.Notice
import Waybind.Path
import Waybind.Proofs.Bindings.Argument
import Waybind.Proofs.Bindings.Bitfield
import Waybind.Proofs.Bindings.Blame
import Waybind.Proofs.Bindings.Conversion
import Waybind.Proofs.Bindings.Correspondence
import Waybind.Proofs.Bindings.Creation
import Waybind.Proofs.Bindings.Decoder
import Waybind.Proofs.Bindings.Documentation
import Waybind.Proofs.Bindings.Enumeration
import Waybind.Proofs.Bindings.Erase
import Waybind.Proofs.Bindings.Extension
import Waybind.Proofs.Bindings.Imports
import Waybind.Proofs.Bindings.Interface
import Waybind.Proofs.Bindings.Interruption
import Waybind.Proofs.Bindings.NameTable
import Waybind.Proofs.Bindings.Namespace
import Waybind.Proofs.Bindings.Outcome
import Waybind.Proofs.Bindings.Reference
import Waybind.Proofs.Bindings.Registration
import Waybind.Proofs.Bindings.Renumber
import Waybind.Proofs.Bindings.Scope
import Waybind.Proofs.Bindings.Signature
import Waybind.Proofs.Bindings.Slashless
import Waybind.Proofs.Destination
import Waybind.Proofs.Except
import Waybind.Proofs.Generate
import Waybind.Proofs.Literal
import Waybind.Proofs.Numeral
import Waybind.Proofs.Path
import Waybind.Proofs.Protocol.Basic
import Waybind.Proofs.Protocol.Built
import Waybind.Proofs.Protocol.Content
import Waybind.Proofs.Protocol.Erase
import Waybind.Proofs.Protocol.FirstFault
import Waybind.Proofs.Protocol.Grammar
import Waybind.Proofs.Protocol.Reading
import Waybind.Proofs.Protocol.Renumber
import Waybind.Proofs.Registry.Coherence
import Waybind.Proofs.Registry.Erase
import Waybind.Proofs.Registry.Families
import Waybind.Proofs.Registry.History
import Waybind.Proofs.Registry.Lookup
import Waybind.Proofs.Registry.Reachable
import Waybind.Proofs.Registry.Renumber
import Waybind.Proofs.Registry.Resolution
import Waybind.Proofs.Table
import Waybind.Proofs.Text
import Waybind.Proofs.Utf8
import Waybind.Proofs.Utf8.Strict
import Waybind.Proofs.Xml.Attribute
import Waybind.Proofs.Xml.Document
import Waybind.Proofs.Xml.Prefix
import Waybind.Proofs.Xml.Reference
import Waybind.Proofs.Xml.StartTag
import Waybind.Proofs.Xml.Syntax
import Waybind.Proofs.Xml.Token
import Waybind.Proofs.Zig.Camel
import Waybind.Proofs.Zig.Comment
import Waybind.Proofs.Zig.Declaration
import Waybind.Proofs.Zig.Identifier
import Waybind.Proofs.Zig.Node
import Waybind.Proofs.Zig.Quoted
import Waybind.Proofs.Zig.Scope
import Waybind.Proofs.Zig.Segment
import Waybind.Protocol.Basic
import Waybind.Protocol.Error
import Waybind.Protocol.OfElement
import Waybind.Protocol.WireType
import Waybind.Registry.Basic
import Waybind.Registry.Lookup
import Waybind.Rehearsal.Basic
import Waybind.Rehearsal.Options
import Waybind.Rehearsal.Process
import Waybind.Rehearsal.Quoting
import Waybind.Rehearsal.Shell.Arithmetic
import Waybind.Rehearsal.Shell.Binary64
import Waybind.Rehearsal.Shell.Builtin
import Waybind.Rehearsal.Shell.Builtin.Basic
import Waybind.Rehearsal.Shell.Builtin.Directory
import Waybind.Rehearsal.Shell.Builtin.Names
import Waybind.Rehearsal.Shell.Builtin.Signals
import Waybind.Rehearsal.Shell.Builtin.Variables
import Waybind.Rehearsal.Shell.Condition
import Waybind.Rehearsal.Shell.Expand
import Waybind.Rehearsal.Shell.Fields
import Waybind.Rehearsal.Shell.Lookup
import Waybind.Rehearsal.Shell.Number
import Waybind.Rehearsal.Shell.Parse
import Waybind.Rehearsal.Shell.Pattern
import Waybind.Rehearsal.Shell.Printf
import Waybind.Rehearsal.Shell.Run
import Waybind.Rehearsal.Shell.Script
import Waybind.Rehearsal.Shell.Source
import Waybind.Rehearsal.Shell.State
import Waybind.Rehearsal.Tree
import Waybind.Rehearsal.Utility
import Waybind.Rehearsal.Utility.Basic
import Waybind.Rehearsal.Utility.Cat
import Waybind.Rehearsal.Utility.Copy
import Waybind.Rehearsal.Utility.Echo
import Waybind.Rehearsal.Utility.Remove
import Waybind.Table
import Waybind.Text.Blank
import Waybind.Text.Numeral
import Waybind.Text.Octets
import Waybind.Text.Utf8
import Waybind.Xml.Attribute
import Waybind.Xml.Document
import Waybind.Xml.Element
import Waybind.Xml.Error
import Waybind.Xml.Reference
import Waybind.Xml.Token
import Waybind.Zig.Comment
import Waybind.Zig.Identifier
import Waybind.Zig.Node
import Waybind.Zig.TypeExpr
