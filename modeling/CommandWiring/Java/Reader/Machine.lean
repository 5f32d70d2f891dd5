import CommandWiring.Java.Reader.Rule

/-!
# Running rules

The machine runs a rule on a list of lexemes. It keeps its own stack of frames, so the nesting of a
program is not limited by the stack of the computer. A frame says what to do when the rule under it
has fitted, or has failed to fit.
-/

namespace CommandWiring
namespace Java

/-- A place in the input, with the skeletons made in the present scope, the last one first. -/
structure Mark where
  rest : List Lexeme
  taken : Nat
  made : List Skeleton

inductive Frame (Part : Type) where
  | next (rule : Rule Part)
  | instead (rule : Rule Part) (mark : Mark)
  | again (rule : Rule Part) (mark : Mark)
  | close (construct : Construct)
  | fill (slot : Slot) (outer : List Skeleton)
  | leave (outer : List Skeleton)
  | negate (mark : Mark)

inductive Control (Part : Type) where
  | run (rule : Rule Part)
  | fitted
  | failed

structure MachineState (Part : Type) where
  control : Control Part
  mark : Mark
  frames : List (Frame Part)
  /-- The most lexemes taken before one did not fit. -/
  furthest : Nat

/-- A way of running rules: what the parts are, and where one lexeme may be missing. -/
structure Machine (Part : Type) where
  grammar : Part -> Rule Part
  gap? : Option Nat

namespace Machine

variable {Part : Type}

def takeLexeme (machine : Machine Part) (omissible : Bool) (accepts : Lexeme -> Bool)
    (mark : Mark) : Option Mark :=
  let omitted : Option Mark :=
    if omissible ∧ machine.gap? = some mark.taken then
      some { mark with made := .gap :: mark.made }
    else none
  match mark.rest with
  | [] => omitted
  | first :: rest =>
      if accepts first then
        some { rest := rest, taken := mark.taken + 1, made := .leaf :: mark.made }
      else omitted

def start (machine : Machine Part) (rule : Rule Part) (state : MachineState Part) :
    MachineState Part :=
  let mark := state.mark
  let frames := state.frames
  let empty : Mark := { mark with made := [] }
  match rule with
  | .lexeme omissible accepts =>
      match machine.takeLexeme omissible accepts mark with
      | some mark => { state with control := .fitted, mark := mark }
      | none => { state with control := .failed, furthest := max state.furthest mark.taken }
  | .done => { state with control := .fitted }
  | .part name => { state with control := .run (machine.grammar name) }
  | .both first second => { state with control := .run first, frames := .next second :: frames }
  | .either first second =>
      { state with control := .run first, frames := .instead second mark :: frames }
  | .many rule => { state with control := .run rule, frames := .again rule mark :: frames }
  | .scope rule =>
      { state with control := .run rule, mark := empty, frames := .leave mark.made :: frames }
  | .wrap construct slot rule =>
      { state with
        control := .run rule
        mark := { mark with made := mark.made.map (Skeleton.inSlot slot) }
        frames := .close construct :: frames }
  | .inSlot slot rule =>
      { state with control := .run rule, mark := empty, frames := .fill slot mark.made :: frames }
  | .avoid rule =>
      { state with control := .run rule, frames := .negate mark :: frames }

/-- Goes on when the rule under `frame` has fitted. -/
def resume (frame : Frame Part) (state : MachineState Part) : MachineState Part :=
  let mark := state.mark
  match frame with
  | .next rule => { state with control := .run rule }
  | .instead _ _ => state
  | .again rule before =>
      if mark.taken = before.taken then { state with mark := before }
      else { state with control := .run rule, frames := .again rule mark :: state.frames }
  | .close construct =>
      { state with mark := { mark with made := [.node .plain construct mark.made.reverse] } }
  | .fill slot outer =>
      { state with mark := { mark with made := mark.made.map (Skeleton.inSlot slot) ++ outer } }
  | .leave outer => { state with mark := { mark with made := mark.made ++ outer } }
  | .negate before => { state with control := .failed, mark := before }

/-- Goes on when the rule under `frame` has failed. -/
def recover (frame : Frame Part) (state : MachineState Part) : MachineState Part :=
  match frame with
  | .instead rule before => { state with control := .run rule, mark := before }
  | .again _ before => { state with control := .fitted, mark := before }
  | .negate before => { state with control := .fitted, mark := before }
  | _ => state

/-- One step, or none if the machine has come to an end. -/
def step? (machine : Machine Part) (state : MachineState Part) : Option (MachineState Part) :=
  match state.control with
  | .run rule => some (machine.start rule state)
  | .fitted =>
      match state.frames with
      | [] => none
      | frame :: frames => some (resume frame { state with frames := frames })
  | .failed =>
      match state.frames with
      | [] => none
      | frame :: frames => some (recover frame { state with frames := frames })

def runFor (machine : Machine Part) : Nat -> MachineState Part -> MachineState Part
  | 0, state => state
  | fuel + 1, state =>
      match machine.step? state with
      | none => state
      | some next => runFor machine fuel next

/-- More steps than a rule takes that looks at each lexeme a few thousand times. -/
def stepsFor (lexemes : List Lexeme) : Nat :=
  (lexemes.length + 1) * 8192

inductive Parse where
  | complete (skeletons : List Skeleton)
  | stuck (taken : Nat)

def parse (machine : Machine Part) (rule : Rule Part) (lexemes : List Lexeme) : Parse :=
  let final := machine.runFor (stepsFor lexemes)
    { control := .run rule
      mark := { rest := lexemes, taken := 0, made := [] }
      frames := []
      furthest := 0 }
  match final.control, final.frames, final.mark.rest with
  | .fitted, [], [] => .complete final.mark.made.reverse
  | .fitted, [], _ => .stuck (max final.furthest final.mark.taken)
  | _, _, _ => .stuck final.furthest

end Machine
end Java
end CommandWiring
