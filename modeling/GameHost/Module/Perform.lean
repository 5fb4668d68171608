import GameHost.Document.Blocks
import GameHost.Document.Text
import GameHost.Module.Lifecycle

namespace GameHost

namespace DocumentOp

/-- The answer, and the document after. -/
def perform : DocumentOp → Document → Outcome × Document
  | select s, d => (.done (.ofText? (d.select s).sectionName?), d.select s)
  | selectAt i, d =>
    match d.selectAt? i with
    | some d => (.done (.ofText? d.sectionName?), d)
    | none => (.done .absent, d)
  | sectionName, d => (.done (.ofText? d.sectionName?), d)
  | count, d => (.done (.number d.sections.length), d)
  | setMode m, d => (.done .absent, { d with mode := m })
  | mode, d => (.done (.text d.mode.name), d)
  | write key v, d =>
    match d.write key v.shown with
    | .ok d => (.done .absent, d)
    | .error e => (.failed e, d)
  | next, d => (.done (.truth d.next?.isSome), d.next?.getD d)
  | prev, d => (.done (.truth d.prev?.isSome), d.prev?.getD d)
  | name, d => (.done (.ofText? (d.entry?.map (·.1))), d)
  | value, d => (.done (.ofText? (d.entry?.map (·.2))), d)
  | pair, d => (.done (.list [.ofText? (d.entry?.map (·.1)), .ofText? (d.entry?.map (·.2))]), d)
  | get type, d => (.done (.ofText? ((d.entry?.bind (Value.ofText? type ·.2)).map Value.shown)), d)
  | find key, d => (.done (.ofText? (d.find? key)), d)
  | text, d => (.done (.text d.text), d)
  | walk, d =>
    (.done (.list (d.upcoming.map fun e ↦ .texts [e.1, e.2])), d.advance d.upcoming.length)

end DocumentOp

def DocumentSource.open? (documents : List (String × Document)) : DocumentSource →
    Option (Except Error Document)
  | blank => some (.ok .empty)
  | parsed text => some (Document.ofText text)
  | loaded none => some (.error (.io .notFound))
  | loaded (some contents) =>
    match contents.text? with
    | some text => some (Document.ofText text)
    | none => some (.error (.io .invalidData))
  | saved name => (documents.lookup name).map fun d ↦ Document.ofText d.text
  | copied name => (documents.lookup name).map .ok

/-- A record and the notes of what was done to it. -/
abbrev Noted := Record Value × List Note

namespace BlockOp

/-- Parses an entry for the attachment that its name stands for, if there is one. -/
def take (keys : List (String × RecordKey ValueType)) (targets : List (String × String))
    (r : Record Value) (e : String × String) : Record Value :=
  match (targets.lookup e.1).bind (List.lookup · keys) with
  | none => r
  | some key => (r.set? key ((Value.ofText? key.type e.2).getD (.initial key.type))).getD r

def perform (w : World) : BlockOp → Noted → Document → Outcome × Noted × Document
  | document op label, (r, notes), d =>
    let (outcome, d) := op.perform d
    (outcome, (r, label.toList.flatMap outcome.notes ++ notes), d)
  | replace source label, (r, notes), d =>
    match source.open? w.documents with
    | none => (.unknown, (r, label.toList.flatMap Outcome.unknown.notes ++ notes), d)
    | some opened =>
      let outcome := .ofExcept (fun d ↦ .number d.sections.length) opened
      (outcome, (r, label.toList.flatMap outcome.notes ++ notes), opened.toOption.getD d)
  | log text, (r, notes), d => (.done .absent, (r, .said text :: notes), d)
  | fail e, s, d => (.failed e, s, d)
  | writeAttached entry key, s, d =>
    match w.keys.lookup key with
    | none => (.unknown, s, d)
    | some k =>
      let (outcome, d) := (DocumentOp.write entry (.text (shown (s.1.get? k)))).perform d
      (outcome, s, d)
  | writeBase entry type, s, d =>
    let (outcome, d) := (DocumentOp.write entry (.text (shown (s.1.baseAs? type)))).perform d
    (outcome, s, d)
  | readAll tag limit targets, (r, notes), d =>
    let entries := match limit with
      | some n => d.upcoming.take n
      | none => d.upcoming
    (.done .absent, (entries.foldl (take w.keys targets) r,
      (entries.map (Note.read tag)).reverse ++ notes), d.advance entries.length)
where
  shown (v : Option Value) : String := (v.map Value.shown).getD "none"

def performAll (w : World) : List BlockOp → BlockAction Noted
  | [], s, d => (.ok (), s, d)
  | op :: ops, s, d =>
    match op.perform w s d with
    | (.failed e, s, d) => (.error e, s, d)
    | (_, s, d) => performAll w ops s d

end BlockOp

def BlockScript.hook (w : World) (b : BlockScript) : BlockHook Noted :=
  ⟨b.module, BlockOp.performAll w b.read, BlockOp.performAll w b.write⟩

def RecordOp.perform (keys : List (String × RecordKey ValueType)) (r : Record Value) :
    RecordOp → Outcome × Record Value
  | kind => (.done (.number r.kind.toNat), r)
  | count => (.done (.number r.slots.length), r)
  | debug =>
    (.done (.text ("Record \x7b kind: " ++ toString r.kind.toNat ++ ", offsets: [" ++
      ", ".intercalate (r.slots.map fun s ↦ toString s.1) ++ "] \x7d")), r)
  | get key =>
    match keys.lookup key with
    | none => (.unknown, r)
    | some k => (.done (.ofText? ((r.get? k).map Value.shown)), r)
  | set key value =>
    match keys.lookup key with
    | none => (.unknown, r)
    | some k =>
      let after := r.set? k (.ofLiteral k.type value)
      (.done (.truth after.isSome), after.getD r)
  | baseGet type => (.done (.ofText? ((r.baseAs? type).map Value.shown)), r)
  | baseSet v => (.done (.truth (r.setBase? v).isSome), (r.setBase? v).getD r)

namespace ModuleOp

def number (n : Nat) : Answer := .number n

def change (w : World) (id : Nat) (m : Module) :
    Except Error (RecordTable Value BlockScript) → Outcome × World
  | .ok records => (.done .absent, w.setModule id { m with records })
  | .error e => (.failed e, w)

def onBlocks (w : World) (m : Module) (kind : UInt32) (record document : String)
    (act : List (BlockHook Noted) → Noted → Document → Option (Except Error Unit × Noted × Document)) :
    Outcome × World :=
  match w.records.lookup record, w.documents.lookup document with
  | some r, some d =>
    match m.records.layout kind with
    | .error e => (.failed e, w)
    | .ok layout =>
      match act (layout.hooks.map (BlockScript.hook w)) (r, []) d with
      | none => (.unfinished, w)
      | some (outcome, (r, notes), d) =>
        (.ofExcept (fun _ ↦ .absent) outcome,
          { (w.setRecord record r).setDocument document d with notes := notes ++ w.notes })
  | _, _ => (.unknown, w)

/-- Whether the record and the document that the operation needs are there. This is asked before it is
known which module is meant. -/
def isMeant (w : World) : ModuleOp → Bool
  | destroyRecord record => (w.records.lookup record).isSome
  | writeBlocks _ record document | readBlocks _ record document =>
    (w.records.lookup record).isSome && (w.documents.lookup document).isSome
  | _ => true

def perform (w : World) (id : Nat) (m : Module) : ModuleOp → Outcome × World
  | state => (.done (.text m.state.name), w)
  | name => (.done (.text m.name), w)
  | dependsOn => (.done (.texts m.dependsOn), w)
  | isSealed => (.done (.truth m.records.closed), w)
  | instanceGet type =>
    (if m.instanceValue.type = type then .done (.text m.instanceValue.shown)
      else .failed (.stateType m.name), w)
  | instanceSet value =>
    if m.instanceValue.type = value.type then
      (.done .absent, w.setModule id { m with instanceValue := value })
    else (.failed (.stateType m.name), w)
  | callbackCount i => (.done (number (m.callbacks.count i)), w)
  | subscribers i => (.done (.texts (m.callbacks.subscribers i)), w)
  | debug => (.done (.text m.debugText), w)
  | callbacksDebug =>
    (.done (.text ("CallbackTable \x7b owner: " ++ Text.Escaped.encode m.name ++ ", .. \x7d")), w)
  | setLayout kind base => change w id m (m.records.setLayout kind base)
  | attach kind requester key part =>
    match m.records.attach kind requester part with
    | .ok (k, records) =>
      (.done (number k.offset),
        { w.setModule id { m with records } with keys := putNamed key k w.keys })
    | .error e => (.failed e, w)
  | recordSize kind => (.ofExcept (number ·.size) (m.records.layout kind), w)
  | baseSize kind => (.ofExcept (number ·.base.size) (m.records.layout kind), w)
  | attachmentCount kind => (.ofExcept (number ·.attached.length) (m.records.layout kind), w)
  | attachers kind =>
    (.ofExcept (fun l ↦ .texts (l.attached.map (·.module))) (m.records.layout kind), w)
  | createRecord kind record =>
    match m.records.create kind with
    | .ok (r, events) =>
      (.done (number r.slots.length), (w.setRecord record r).noteAll (events.map Note.part))
    | .error e => (.failed e, w)
  | destroyRecord record =>
    match w.records.lookup record with
    | none => (.unknown, w)
    | some r =>
      let (outcome, events) := m.records.destroy r
      (.ofExcept (fun _ ↦ .absent) outcome,
        { w with records := w.records.filter (·.1 != record) }.noteAll (events.map Note.part))
  | addBlocks kind script => change w id m (m.records.addHook kind script)
  | writeBlocks kind record document =>
    onBlocks w m kind record document fun hooks s d ↦ some (Document.enumWrite hooks s d)
  | readBlocks kind record document => onBlocks w m kind record document Document.enumRead

end ModuleOp

namespace World

def registryOf (c : Context) (w : World) : Nat := c.registry.getD w.current

def find (r : Nat) (name : String) (w : World) : Except Error (Nat × Module) :=
  match ((w.registry r).get? name).bind fun id ↦ w.modules[id]?.map (id, ·) with
  | some found => .ok found
  | none => .error (.moduleNotFound name)

def onTarget (c : Context) (w : World) (act : Nat → Module → Outcome × World) :
    Target → Outcome × World
  | .registered name =>
    match w.find (registryOf c w) name with
    | .ok (id, m) => act id m
    | .error e => (.failed e, w)
  | .aliased name => go (w.aliases.lookup name)
  | .self => go c.self
where
  go (id : Option Nat) : Outcome × World :=
    match id with
    | none => (.unknown, w)
    | some id =>
      match w.modules[id]? with
      | some m => act id m
      | none => (.unknown, w)

variable (run : ScriptRunner)

/-- Runs a handler on an event. An error of its script is only noted. -/
def handle (h : Handler Operation) : Event → World → Bool × Event × World
  | .word n, w => (h.verdict, .word (n + (h.summand.getD 0).toUInt64.toUInt32), w)
  | .tour value visits, w =>
    let value := value * h.factor.getD 1 + h.summand.getD 0
    let w := match run .outside h.script w with
      | (.ok _, w) => w
      | (.error e, w) => w.note (.handlerError e)
    ((h.vetoAbove.all fun limit ↦ value ≤ limit) && h.verdict, .tour value (visits ++ [h.mark]), w)

def eventAnswer : Bool → Event → Answer
  | ok, .tour value visits => .list [.truth ok, .text (toString value.toInt), .texts visits]
  | ok, .word n => .list [.truth ok, .text (toString n.toNat)]

def enumerate (m : Module) (id : UInt32) (event : Event) (index : Option Nat) (w : World) :
    Outcome × World :=
  let (ok, event, w) := match index with
    | none => m.callbacks.enumerate id (handle run) event.type event w
    | some i => m.callbacks.enumerateAt id (handle run) event.type i event w
  (.done (eventAnswer ok event), w)

def forget (aliases : List String) (w : World) : World :=
  { w with aliases := w.aliases.filter fun a ↦ !aliases.contains a.1 }

/-- Whether a registry that is current or at work has the module, or somebody has it in hand. -/
def isHeld (c : Context) (w : World) (id : Nat) : Bool :=
  id ∈ c.busy.modules || (w.current :: c.busy.registries).any fun r ↦ id ∈ (w.registry r).modules

/-- The module of an alias, if nobody holds it; only such a module can be given to a registry. -/
def free? (c : Context) (w : World) (handle : String) : Option Nat :=
  (w.aliases.lookup handle).filter fun id ↦ !isHeld c w id

/-- The alias names the module again once it is registered. -/
def registerAlias (c : Context) (handle : String) (w : World) : Outcome × World :=
  match free? c w handle with
  | none => (.unknown, w)
  | some id =>
    match register run (registryOf c w) id (forget [handle] w) with
    | (.ok _, w) =>
      (.done (.ofText? (w.modules[id]?.map (·.state.name))),
        { w with aliases := putNamed handle id w.aliases })
    | (.error e, w) => (.failed e, w)

/-- Each alias can be used once. -/
def bootAliases (c : Context) (aliases : List String) (w : World) : Outcome × World :=
  match if aliases.Nodup then aliases.mapM (free? c w) else none with
  | none => (.unknown, w)
  | some ids =>
    match boot run ids (forget aliases w) with
    | (.ok r, w) => (.done (.texts ((w.members r).map (·.2.name))), { w with current := r })
    | (.error e, w) => (.failed e, w)

def performRegistry (c : Context) (w : World) : RegistryOp → Outcome × World
  | .renew =>
    (.done .absent, { w with registries := w.registries ++ [.empty], current := w.registries.length })
  | .initializeAll =>
    let (outcome, w) := initializeAll run (registryOf c w) w
    (.ofExcept (fun _ ↦ .absent) outcome, w)
  | .closeAll => (.done .absent, closeAll run (registryOf c w) w)
  | .shutdownAll => (.done .absent, shutdownAll run (registryOf c w) w)
  | .destroyAll => (.done .absent, destroyAll (registryOf c w) w)
  | .lookup name => (.ofExcept (fun m ↦ .text m.2.state.name) (w.find (registryOf c w) name), w)
  | .get name =>
    match w.find (registryOf c w) name with
    | .ok (_, m) => (.done (.text m.state.name), w)
    | .error _ => (.done .absent, w)
  | .count =>
    let n := (w.registry (registryOf c w)).modules.length
    (.done (.list [.number n, .number (if n = 0 then 1 else 0)]), w)
  | .modules =>
    (.done (.texts ((w.members (registryOf c w)).map fun m ↦ s!"{m.2.name}:{m.2.state.name}")), w)
  | .debug =>
    (.done (.text ("ModuleRegistry \x7b modules: " ++
      Text.Escaped.encodeList ((w.members (registryOf c w)).map (·.2.name)) ++ " \x7d")), w)

def perform (c : Context) (w : World) (op : Operation) : Outcome × World :=
  let run := run.during c.busy
  match op with
  | .log text => (.done .absent, w.note (.said text))
  | .fail e => (.failed e, w)
  | .store name source =>
    match source.open? w.documents with
    | none => (.unknown, w)
    | some (.ok d) => (.done (.number d.sections.length), w.setDocument name d)
    | some (.error e) => (.failed e, w)
  | .document name op =>
    match w.documents.lookup name with
    | none => (.unknown, w)
    | some d =>
      let (outcome, d) := op.perform d
      (outcome, w.setDocument name d)
  | .record name op =>
    match w.records.lookup name with
    | none => (.unknown, w)
    | some r =>
      let (outcome, r) := op.perform w.keys r
      (outcome, w.setRecord name r)
  | .keyDebug key =>
    match w.keys.lookup key with
    | none => (.unknown, w)
    | some k =>
      (.done (.text ("AttachmentKey \x7b offset: " ++ toString k.offset ++ ", type: " ++
        Text.Escaped.encode k.type.fullName ++ " \x7d")), w)
  | .create handle name state deps hooks =>
    match Module.create name state deps hooks with
    | .error e => (.failed e, w)
    | .ok m =>
      (.done .absent, { w with
        modules := w.modules ++ [m]
        aliases := putNamed handle w.modules.length w.aliases })
  | .register handle => registerAlias run c handle w
  | .boot aliases => bootAliases run c aliases w
  | .registry op => performRegistry run c w op
  | .module target op =>
    if op.isMeant w then onTarget c w (fun id m ↦ op.perform w id m) target else (.unknown, w)
  | .subscribe target id name type handler =>
    onTarget c w (fun i m ↦
      match m.callbacks.add id ⟨name, type, handler⟩ with
      | .ok callbacks => (.done .absent, w.setModule i { m with callbacks })
      | .error e => (.failed e, w)) target
  | .enumerate target id event index =>
    onTarget c w (fun i m ↦ enumerate (run.during ⟨[], [i]⟩) m id event index w) target

end World
end GameHost
