import StackScript.Crypto
import StackScript.Instruction

/-!
# Frames and breakpoints

A frame runs a script from a cursor. A push-only frame may push constants and data and return,
nothing else. Breakpoints belong to a loaded script: the frames that calls within it make share
one set, which a frame names by number. A frame remembers the hash of its script once it has been
asked for.
-/

namespace StackScript

/-- The sets of breakpoints of a run, each a list of offsets. -/
structure Breakpoints where
  /-- The sets. -/
  sets : Array (List Nat) := #[]

namespace Breakpoints

/-- A new empty set: its number. -/
def fresh (breakpoints : Breakpoints) : Nat × Breakpoints :=
  (breakpoints.sets.size, ⟨breakpoints.sets.push []⟩)

/-- The offsets of a set. -/
def offsets (breakpoints : Breakpoints) (set : Nat) : List Nat := breakpoints.sets.getD set []

/-- Whether an offset is in a set. -/
def contains (breakpoints : Breakpoints) (set offset : Nat) : Bool :=
  (breakpoints.offsets set).contains offset

/-- The sets with an offset added to one of them. -/
def insert (breakpoints : Breakpoints) (set offset : Nat) : Breakpoints :=
  ⟨breakpoints.sets.modify set fun offsets => offset :: offsets.filter (· != offset)⟩

/-- The sets with an offset taken out of one of them. -/
def erase (breakpoints : Breakpoints) (set offset : Nat) : Breakpoints :=
  ⟨breakpoints.sets.modify set fun offsets => offsets.filter (· != offset)⟩

end Breakpoints

/-- A script being run. -/
structure Frame where
  /-- The script. -/
  script : Script
  /-- The offset of the next instruction. -/
  cursor : Nat := 0
  /-- Whether the frame may only push. -/
  pushOnly : Bool := false
  /-- The number of its set of breakpoints. -/
  breakpoints : Nat
  /-- The hash of the script, if it has been asked for. -/
  hash? : Option ScriptHash := none

namespace Frame

/-- Whether the cursor has run off the script. -/
def atEnd (frame : Frame) : Bool := frame.script.size ≤ frame.cursor

/-- The hash of the script. -/
def hash (frame : Frame) (crypto : Crypto) : ScriptHash :=
  frame.hash?.getD (crypto.hash160 frame.script.bytes)

/-- The frame with its hash remembered. -/
def remember (frame : Frame) (crypto : Crypto) : Frame :=
  { frame with hash? := some (frame.hash crypto) }

/-- Reads at the cursor and moves it, as far as reading went. -/
def read {α : Type} (frame : Frame) (reader : Reader α) : Except DecodeError α × Frame :=
  match reader.runAt frame.script frame.cursor with
  | .ok a cursor => (.ok a, { frame with cursor })
  | .error cause cursor => (.error cause, { frame with cursor })

end Frame

end StackScript
