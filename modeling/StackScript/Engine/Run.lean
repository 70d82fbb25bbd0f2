import StackScript.Engine.Step

/-!
# Runs of several steps

A run takes steps until it has to stop. A script may loop for ever, so a run is given the greatest
number of steps it may take, and has no result if that is not enough.
-/

namespace StackScript.Engine

/-- Takes steps until `stop` holds, at most `fuel` of them. -/
def runUntil (stop : Engine → Bool) : (fuel : Nat) → Engine → Option Engine
  | 0, e => if stop e then some e else none
  | fuel + 1, e => if stop e then some e else runUntil stop fuel e.step

/-- Runs until the engine halts, faults or pauses. -/
def execute (fuel : Nat) (e : Engine) : Option Engine :=
  runUntil (fun e => e.status.isStopped) fuel e.resume

/-- Runs until the current frame has returned. -/
def stepOut (fuel : Nat) (e : Engine) : Option Engine :=
  let depth := e.frames.length
  runUntil (fun e => e.status.isStopped || Stack.hasFewer e.frames depth) fuel e.resume

/-- Takes one step, and runs the frames it enters until they have returned. -/
def stepOver (fuel : Nat) (e : Engine) : Option Engine :=
  if e.status.isTerminal then some e
  else
    let depth := e.frames.length
    runUntil (fun e => e.status.isStopped || Stack.hasFewer e.frames (depth + 1)) fuel e.resume.step

end StackScript.Engine
