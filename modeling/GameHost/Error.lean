import GameHost.Module.State
import GameHost.Settings.Violation

namespace GameHost

inductive SchemaFault
  | noRoom | zeroCount | tooManyFields
  deriving DecidableEq, Repr

def SchemaFault.text : SchemaFault → String
  | noRoom => "Flag word has no room for another field"
  | zeroCount => "Field repeat count must be greater than zero"
  | tooManyFields => "Schema exceeds the maximum field count"

inductive EncodeFault
  | mismatch | tooLong | badSubPacket | arrayTooLong
  deriving DecidableEq, Repr

def EncodeFault.text : EncodeFault → String
  | mismatch => "Field value does not match the field type"
  | tooLong => "Field value is longer than the field allows"
  | badSubPacket => "Sub-packet is missing or has a bad length prefix"
  | arrayTooLong => "Packet array exceeds the declared capacity"

inductive DecodeFault
  | truncated | badGuard | badLength | arrayOverflow
  deriving DecidableEq, Repr

def DecodeFault.text : DecodeFault → String
  | truncated => "truncated"
  | badGuard => "bad guard byte"
  | badLength => "bad declared length"
  | arrayOverflow => "packet array overflow"

inductive WiringFault
  | nameLength | layoutSealed | noLayout | foreignRecord | layoutInUse
  deriving DecidableEq, Repr

def WiringFault.text : WiringFault → String
  | nameLength => "Module name exceeds the maximum length"
  | layoutSealed => "Record layouts are sealed after initialization"
  | noLayout => "Record kind has no layout on its owner"
  | foreignRecord => "Record does not belong to this layout"
  | layoutInUse => "Record layout cannot change after data is attached"

/-- `custom` is for the hooks of a module, which give reasons of their own. -/
inductive StreamFault
  | expectedPair (line : Nat)
  | outsideSection (line : Nat)
  | noSection
  | custom (text : String)
  deriving DecidableEq, Repr

def StreamFault.text : StreamFault → String
  | expectedPair line => s!"line {line}: expected key=value"
  | outsideSection line => s!"line {line}: value outside of a section"
  | noSection => "no section selected"
  | custom text => text

def environmentStem : String := "REALM_CORE_"

inductive ConfigFault
  | unreadable
  | malformed
  | unwritable
  | badValue (name raw : String)
  | badLevel (raw : String)
  | badAddress (text : String)
  | invalid (violations : List Violation)
  | invalidServer (violations : List Violation)
  | custom (text : String)
  deriving DecidableEq, Repr

def ConfigFault.text : ConfigFault → String
  | unreadable => "Failed to read config file"
  | malformed => "Failed to parse TOML"
  | unwritable => "Failed to serialize config"
  | badValue name raw => s!"Invalid value for {environmentStem}{name}: '{raw}'"
  | badLevel raw => s!"Invalid log level: {raw}"
  | badAddress text => s!"Invalid address: {text}"
  | invalid vs =>
    "Configuration validation failed:\n  - " ++ "\n  - ".intercalate (vs.map Violation.message)
  | invalidServer vs => "; ".intercalate (vs.map Violation.message)
  | custom text => text

inductive IoFault
  | notFound | invalidData | alreadyExists | noSuchAddress | invalidInput | other
  deriving DecidableEq, Repr

def IoFault.name : IoFault → String
  | notFound => "NotFound"
  | invalidData => "InvalidData"
  | alreadyExists => "AlreadyExists"
  | noSuchAddress => "AddrNotAvailable"
  | invalidInput => "InvalidInput"
  | other => "Other"

def IoFault.text : IoFault → String
  | notFound => "No such file or directory (os error 2)"
  | invalidData => "stream did not contain valid UTF-8"
  | alreadyExists => "server tasks already spawned"
  | noSuchAddress => "Cannot assign requested address (os error 99)"
  | invalidInput => "Invalid argument (os error 22)"
  | other => "bytes remaining on stream"

namespace Wording

def io (reason : String) := s!"I/O error: {reason}"
def schema (reason : String) := s!"Schema error: {reason}"
def flagWidth (bytes : Nat) := s!"Invalid flag word width: {bytes} bytes"
def encode (field : Nat) (reason : String) := s!"Encode error on field {field}: {reason}"
def fieldOutOfRange (index : Nat) := s!"Field index {index} is outside the schema"
def oversized (total : Nat) := s!"Packet too large: {total} bytes"
def bufferTooSmall (needed available : Nat) :=
  s!"Output buffer too small: need {needed} bytes, have {available}"
def decode (reason : String) := s!"Decode error: {reason}"
def duplicateModule (name : String) := s!"Module already registered: {name}"
def moduleNotFound (name : String) := s!"Module not found: {name}"
def missingDependency (name dependency : String) :=
  s!"Module {name} depends on unknown module {dependency}"
def dependencyCycle (name : String) := s!"Dependency cycle involving module {name}"
def badMove (name source target : String) := s!"Module {name} cannot move from {source} to {target}"
def hookFailed (name hook reason : String) := s!"Module {name} failed in {hook} hook: {reason}"
def stateType (name : String) := s!"Module {name} has no state of the requested type"
def callbackCapacity (name : String) (id : Nat) :=
  s!"Callback capacity exhausted on {name} for id {id}"
def callbackId (id : Nat) := s!"Callback id {id} out of range"
def recordKind (name : String) (kind : Nat) := s!"Record kind {kind} is not available on module {name}"
def attachmentCapacity (name : String) (kind : Nat) :=
  s!"Attachment capacity exhausted on {name} for record kind {kind}"
def wiring (reason : String) := s!"Wiring error: {reason}"
def stream (reason : String) := s!"Stream error: {reason}"
def config (reason : String) := s!"Configuration error: {reason}"

end Wording

inductive Error
  | io (fault : IoFault)
  | schema (fault : SchemaFault)
  | flagWidth (bytes : UInt8)
  | encode (field : Nat) (fault : EncodeFault)
  | fieldOutOfRange (index : Nat)
  | oversized (total : Nat)
  | bufferTooSmall (needed available : Nat)
  | decode (fault : DecodeFault)
  | duplicateModule (name : String)
  | moduleNotFound (name : String)
  | missingDependency (name dependency : String)
  | dependencyCycle (name : String)
  | badMove (name : String) (source target : ModuleState)
  | hookFailed (name : String) (hook : HookKind) (cause : Error)
  | stateType (name : String)
  | callbackCapacity (name : String) (id : UInt32)
  | callbackId (id : UInt32)
  | recordKind (name : String) (kind : UInt32)
  | attachmentCapacity (name : String) (kind : UInt32)
  | wiring (fault : WiringFault)
  | stream (fault : StreamFault)
  | config (fault : ConfigFault)
  deriving DecidableEq, Repr

def Error.kind : Error → String
  | io _ => "Io"
  | schema _ => "Schema"
  | flagWidth _ => "InvalidFlagWidth"
  | encode .. => "Encode"
  | fieldOutOfRange _ => "FieldOutOfRange"
  | oversized _ => "OversizedPacket"
  | bufferTooSmall .. => "BufferTooSmall"
  | decode _ => "Decode"
  | duplicateModule _ => "DuplicateModule"
  | moduleNotFound _ => "ModuleNotFound"
  | missingDependency .. => "MissingDependency"
  | dependencyCycle _ => "DependencyCycle"
  | badMove .. => "InvalidTransition"
  | hookFailed .. => "HookFailed"
  | stateType _ => "StateTypeMismatch"
  | callbackCapacity .. => "CallbackCapacity"
  | callbackId _ => "CallbackIdOutOfRange"
  | recordKind .. => "RecordKindOutOfRange"
  | attachmentCapacity .. => "AttachmentCapacity"
  | wiring _ => "Wiring"
  | stream _ => "Stream"
  | config _ => "ConfigError"

def Error.message : Error → String
  | io f => Wording.io f.text
  | schema f => Wording.schema f.text
  | flagWidth n => Wording.flagWidth n.toNat
  | encode i f => Wording.encode i f.text
  | fieldOutOfRange i => Wording.fieldOutOfRange i
  | oversized n => Wording.oversized n
  | bufferTooSmall n m => Wording.bufferTooSmall n m
  | decode f => Wording.decode f.text
  | duplicateModule m => Wording.duplicateModule m
  | moduleNotFound m => Wording.moduleNotFound m
  | missingDependency m d => Wording.missingDependency m d
  | dependencyCycle m => Wording.dependencyCycle m
  | badMove m s t => Wording.badMove m s.name t.name
  | hookFailed m h e => Wording.hookFailed m h.name e.message
  | stateType m => Wording.stateType m
  | callbackCapacity m i => Wording.callbackCapacity m i.toNat
  | callbackId i => Wording.callbackId i.toNat
  | recordKind m k => Wording.recordKind m k.toNat
  | attachmentCapacity m k => Wording.attachmentCapacity m k.toNat
  | wiring f => Wording.wiring f.text
  | stream f => Wording.stream f.text
  | config f => Wording.config f.text

end GameHost
