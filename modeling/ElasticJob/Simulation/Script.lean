import ElasticJob.Manager.Event
import ElasticJob.Manager.Registry

/-!
Managers and initializers that follow a script, for trial runs of a job. A scripted manager gives
its answers in order, the first when it starts, and keeps a journal of what it saw.
-/

namespace ElasticJob

inductive JournalEntry where
  | started (context : Context)
  | received (event : ManagerEvent) (context : Context)

structure ScriptedManager where
  /-- Answers still to be given; once they run out, the manager waits for ever. -/
  answers : List (Except ManagerError Decision)
  journal : List JournalEntry := []

namespace ScriptedManager

def answer (manager : ScriptedManager) (entry : JournalEntry) :
    ScriptedManager × Except ManagerError Decision :=
  let noted := manager.journal ++ [entry]
  match manager.answers with
  | [] => ({ manager with journal := noted }, .ok .pending)
  | next :: rest => ({ answers := rest, journal := noted }, next)

def behaviour : Behaviour ScriptedManager where
  start context manager := manager.answer (.started context)
  onEvent context event manager := manager.answer (.received event context)

def mixedBehaviour : Behaviour (BuiltIn ⊕ ScriptedManager) :=
  BuiltIn.behaviour.either behaviour

/-- Registers scripts by class name, in place of a built-in manager of the same name. -/
def mixedRegistry (scripts : List (String × ScriptedManager)) :
    Registry (BuiltIn ⊕ ScriptedManager) :=
  let builtIn := BuiltIn.registry.classes.entries.map fun entry => (entry.1, Sum.inl entry.2)
  ⟨.ofList (builtIn ++ scripts.map fun script => (script.1, Sum.inr script.2))⟩

end ScriptedManager

structure ScriptedInitializer where
  hangs : Bool := false
  /-- Milliseconds before the outcome. -/
  delay : Nat := 0
  failure : Option String := none
  /-- Splits the initializer's payload at this byte, instead of giving the events. -/
  splitAt : Option UInt8 := none
  events : List InitializerEvent := []

namespace ScriptedInitializer

def splitBytes (separator : UInt8) : Bytes → List Bytes
  | [] => [[]]
  | byte :: rest =>
      if byte = separator then [] :: splitBytes separator rest
      else
        match splitBytes separator rest with
        | part :: parts => (byte :: part) :: parts
        | [] => [[byte]]

def splitOutcome (separator : UInt8) : Option Bytes → InitializerOutcome
  | none => .error "no payload"
  | some payload =>
      let parts := splitBytes separator payload
      .ok (.setParallelism (UInt32.ofNat parts.length) :: parts.map .dataInformation)

def outcome (script : ScriptedInitializer) (context : InitializerContext) : InitializerOutcome :=
  match script.failure, script.splitAt with
  | some detail, _ => .error detail
  | none, some separator => splitOutcome separator context.initializerPayload
  | none, none => .ok script.events

end ScriptedInitializer

end ElasticJob
