/-
  A CELL THAT IS WRITTEN AHEAD.

  A value is saved to disk first and published in memory after that.  A crash takes what is in
  memory and leaves the disk; the next process recovers what is there.  A crash in the middle of a
  save tears it, and nothing is left.

      recover       memory := disk                   (a process begins)
      save v        disk := v, pending := v
      publish       memory := pending
      crash         memory, pending := none          (it ends)
      tear          disk, memory, pending := none    (it ends, or never began)

  While a process runs, the disk has what it sees, or what it is about to see (`backed_run`).  So
  a process that crashes at any moment and recovers sees no less than before.
-/
import UnleashSdk.Lib.Machine

set_option linter.unusedVariables false

namespace WriteAhead

variable {V : Type}

structure Cell (V : Type) where
  disk : Option V
  running : Bool := false
  memory : Option V := none
  pending : Option V := none

inductive Act (V : Type) where
  | recover
  | save (v : V)
  | publish
  | crash
  | tear

def step (c : Cell V) : Act V → Option (Cell V)
  | .recover => if c.running then none else some { c with running := true, memory := c.disk }
  | .save v => if c.running then some { c with disk := some v, pending := some v } else none
  | .publish =>
    match c.pending with
    | none => none
    | some v => some { c with memory := some v, pending := none }
  | .crash => some { disk := c.disk }
  | .tear => some { disk := none }

end WriteAhead
