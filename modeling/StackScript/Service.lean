import StackScript.Fault
import StackScript.Heap

/-!
# Host calls

A script calls its host by name. A service keeps what each name does: one of the four queries that
come with the machine, or a list of actions on the running engine, performed in order up to the
first that fails.
-/

namespace StackScript

/-- What a host may do to the running engine. -/
inductive HostAction where
  /-- Pushes a new item. -/
  | push (literal : Literal)
  /-- Takes off the top item. -/
  | pop
  /-- Loads a script as a new frame. -/
  | load (script : Script) (pushOnly : Bool)
  /-- Assembles a source and loads it as a new frame. -/
  | loadSource (source : String)
  /-- Sets a breakpoint in the current frame. -/
  | breakAt (offset : Nat)
  /-- Registers another host call. -/
  | register (name : String) (actions : List HostAction)
  /-- Drops all frames. -/
  | dispose
  /-- Fails. -/
  | fail (fault : Fault)
  deriving Inhabited

/-- What a host call does. -/
inductive Handler where
  /-- Pushes the script container. -/
  | scriptContainer
  /-- Pushes the hash of the current frame's script. -/
  | executingHash
  /-- Pushes the hash of the script of the frame below. -/
  | callingHash
  /-- Pushes the hash of the bottom frame's script. -/
  | entryHash
  /-- Performs actions. -/
  | actions (actions : List HostAction)

/-- Host calls by name, each name once. -/
structure Service where
  /-- The entries. -/
  entries : List (String × Handler) := []

namespace Service

/-- A service without host calls. -/
def empty : Service := {}

/-- The host call of a name. -/
def find? (service : Service) (name : String) : Option Handler := service.entries.lookup name

/-- Whether there is a host call of a name. -/
def contains (service : Service) (name : String) : Bool := (service.find? name).isSome

/-- The service with a host call added, in place of any other of its name. -/
def register (service : Service) (name : String) (handler : Handler) : Service :=
  ⟨(name, handler) :: service.entries.filter fun entry => entry.1 != name⟩

/-- The number of host calls. -/
def size (service : Service) : Nat := service.entries.length

/-- The names in increasing order. -/
def names (service : Service) : List String :=
  (service.entries.map Prod.fst).mergeSort fun a b => a ≤ b

/-- The four queries that come with the machine. -/
def builtin : Service where
  entries := [
    ("System.ExecutionEngine.GetScriptContainer", .scriptContainer),
    ("System.ExecutionEngine.GetExecutingScriptHash", .executingHash),
    ("System.ExecutionEngine.GetCallingScriptHash", .callingHash),
    ("System.ExecutionEngine.GetEntryScriptHash", .entryHash)]

end Service

end StackScript
