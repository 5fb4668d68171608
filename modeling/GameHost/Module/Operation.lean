import GameHost.Document.Basic
import GameHost.Module.Callbacks
import GameHost.Module.Value

namespace GameHost

inductive Answer
  | absent
  | truth (b : Bool)
  | number (n : Int)
  | text (s : String)
  | list (answers : List Answer)

/-- The answer on one line: texts are bare, and commas stand between the parts of a list. -/
def Answer.plain : Answer → String
  | absent => "null"
  | truth b => toString b
  | number n => toString n
  | text s => s
  | list as => ",".intercalate (as.map plain)

def Answer.ofText? (s : Option String) : Answer := (s.map text).getD absent

def Answer.texts (ss : List String) : Answer := list (ss.map text)

inductive EventType
  | tour | word
  deriving DecidableEq, Repr

/-- A tour carries a number and the marks of the handlers that it has come by. -/
inductive Event
  | tour (value : Int64) (visits : List String)
  | word (n : UInt32)
  deriving DecidableEq, Repr

def Event.type : Event → EventType
  | tour .. => .tour
  | word _ => .word

/-- One step of a script. A soft step may fail; a step with a label has its answer noted. -/
structure Step (α : Type) where
  op : α
  soft : Bool
  label : Option String

/-- A handler leaves its mark on the event and changes it, then runs its script, then decides. -/
structure Handler (α : Type) where
  mark : String
  factor : Option Int64
  summand : Option Int64
  script : List (Step α)
  vetoAbove : Option Int64
  verdict : Bool

/-- How a module is named: by an alias, by its name in the registry, or as the one whose hook runs. -/
inductive Target
  | aliased (name : String)
  | registered (name : String)
  | self
  deriving DecidableEq, Repr

inductive DocumentOp
  | select (name : String)
  | selectAt (i : Nat)
  | sectionName
  | count
  | setMode (mode : WriteMode)
  | mode
  | write (key : String) (value : Literal)
  | next
  | prev
  | name
  | value
  | pair
  | get (type : ValueType)
  | find (key : String)
  | text
  | walk
  deriving DecidableEq, Repr

inductive DocumentSource
  | blank
  | parsed (text : String)
  | loaded (contents : Option Bytes)
  | saved (document : String)
  | copied (document : String)
  deriving DecidableEq, Repr

/-- What the block of a module does, with the document and the record at hand. With a label, the
answer is noted. `readAll` goes over at most `limit` entries, and parses those with a name in
`targets` for the attachment of that key. -/
inductive BlockOp
  | document (op : DocumentOp) (label : Option String)
  | replace (source : DocumentSource) (label : Option String)
  | log (text : String)
  | fail (error : Error)
  | writeAttached (entry key : String)
  | writeBase (entry : String) (type : ValueType)
  | readAll (tag : String) (limit : Option Nat) (targets : List (String × String))
  deriving DecidableEq, Repr

structure BlockScript where
  module : String
  read : List BlockOp
  write : List BlockOp

inductive RecordOp
  | kind
  | count
  | debug
  | get (key : String)
  | set (key : String) (value : Literal)
  | baseGet (type : ValueType)
  | baseSet (value : Value)
  deriving DecidableEq, Repr

inductive ModuleOp
  | state
  | name
  | dependsOn
  | isSealed
  | instanceGet (type : ValueType)
  | instanceSet (value : Value)
  | callbackCount (id : UInt32)
  | subscribers (id : UInt32)
  | debug
  | callbacksDebug
  | setLayout (kind : UInt32) (base : Part Value)
  | attach (kind : UInt32) (requester key : String) (part : Part Value)
  | recordSize (kind : UInt32)
  | baseSize (kind : UInt32)
  | attachmentCount (kind : UInt32)
  | attachers (kind : UInt32)
  | createRecord (kind : UInt32) (record : String)
  | destroyRecord (record : String)
  | addBlocks (kind : UInt32) (script : BlockScript)
  | writeBlocks (kind : UInt32) (record document : String)
  | readBlocks (kind : UInt32) (record document : String)

inductive RegistryOp
  | renew
  | initializeAll
  | closeAll
  | shutdownAll
  | destroyAll
  | lookup (name : String)
  | get (name : String)
  | count
  | modules
  | debug
  deriving DecidableEq, Repr

inductive Operation
  | log (text : String)
  | fail (error : Error)
  | store (document : String) (source : DocumentSource)
  | document (document : String) (op : DocumentOp)
  | record (record : String) (op : RecordOp)
  | keyDebug (key : String)
  | create (handle name : String) (state : ValueType) (deps : List String)
      (hooks : List (HookKind × List (Step Operation)))
  | register (handle : String)
  | boot (aliases : List String)
  | registry (op : RegistryOp)
  | module (target : Target) (op : ModuleOp)
  | subscribe (target : Target) (id : UInt32) (module : String) (type : EventType)
      (handler : Handler Operation)
  | enumerate (target : Target) (id : UInt32) (event : Event) (index : Option Nat)

abbrev Script := List (Step Operation)

end GameHost
