import TurtleGraphics.Run.Machine

/-!
# TurtleGraphics.Run.Command

The commands a turtle knows. A command is counted before it acts, also when its arguments turn out to
be wrong. Some commands act in several steps, and a wrong argument stops them between two steps.
-/

namespace TurtleGraphics

inductive Command where
  | forward
  | back
  | left
  | right
  | pitch
  | roll
  | jump
  | goto
  | jumpTo
  | faceTo
  | home
  | penUp
  | penDown
  | hide
  | reveal
  | label
  | grid
  | fill
  | wait
  | erase
  | color
  | thickness
  | limitCommand
  | limitRecurse
  | limitDepth
  | limits
  deriving DecidableEq, Repr

namespace Command

/-- All spellings. -/
def names : List (String × Command) :=
  [("fw", forward), ("forward", forward), ("bk", back), ("back", back), ("jmp", jump),
    ("jump", jump), ("goto", goto), ("jmpto", jumpTo), ("home", home), ("lt", left),
    ("left", left), ("yaw", left), ("rt", right), ("right", right), ("pitch", pitch),
    ("dive", pitch), ("roll", roll), ("faceto", faceTo), ("pu", penUp), ("penup", penUp),
    ("pd", penDown), ("pendown", penDown), ("hide", hide), ("show", reveal), ("color", color),
    ("setColor", color), ("c", color), ("thickness", thickness), ("width", thickness),
    ("label", label), ("text", label), ("grid", grid), ("fill", fill), ("wait", wait),
    ("erase", erase), ("clear", erase), ("limitCommand", limitCommand),
    ("limitRecurse", limitRecurse), ("limitDepth", limitDepth), ("limits", limits)]

def ofName? (name : String) : Option Command :=
  names.lookup name

end Command

/-! ## Arguments -/

/-- A command as written: its name, the values of its arguments and its line. -/
structure Invocation where
  name : String
  values : List Value
  line : Nat

namespace Invocation

/-- The argument at an index, which has to be a number if it is there. -/
def number? (c : Invocation) (i : Nat) : Except Fault (Option Float) :=
  match c.values[i]? with
  | none => .ok none
  | some (.num x) => .ok (some x)
  | some (.text s) => .error ⟨c.line, .notNumeric c.name (i + 1) s⟩

/-- The argument at an index, which has to be there and to be a number. -/
def number (c : Invocation) (i : Nat) : Except Fault Float :=
  match c.number? i with
  | .error f => .error f
  | .ok (some x) => .ok x
  | .ok none => .error ⟨c.line, .tooFewArguments c.name (i + 1)⟩

/-- The argument at an index as a natural number: cut off to whole, at least 0, at most the largest
of 64 bits. -/
def count? (c : Invocation) (i : Nat) : Except Fault (Option Nat) :=
  match c.number? i with
  | .error f => .error f
  | .ok x => .ok (x.map fun x => x.toUInt64.toNat)

/-- Two or three coordinates; a missing third one is that of `current`. -/
def point (c : Invocation) (current : Vector3) : Except Fault Vector3 :=
  match c.number 0 with
  | .error f => .error f
  | .ok x =>
    match c.number 1 with
    | .error f => .error f
    | .ok y =>
      match c.number? 2 with
      | .error f => .error f
      | .ok z => .ok ⟨x, y, z.getD current.z⟩

/-- The color that the first argument names, and the random stream after choosing it. -/
def color (c : Invocation) (stream : Keystream) : Except Fault (Color × Keystream) :=
  match c.values with
  | [] => .error ⟨c.line, .missingColor c.name⟩
  | .num hue :: _ => .ok (.ofHue hue, stream)
  | .text s :: _ =>
    if Color.isRandomWord s then .ok (Color.random stream)
    else
      match Color.parse? s with
      | some color => .ok (color, stream)
      | none => .error ⟨c.line, .notColor s⟩

/-- The text of a label and its size. -/
def lettering (c : Invocation) (defaultSize : Float) : Except Fault (String × Float) :=
  match c.values with
  | [] => .error ⟨c.line, .missingText c.name⟩
  | value :: _ =>
    match c.number? 1 with
    | .error f => .error f
    | .ok size => .ok (value.display, size.getD defaultSize)

/-- The size of a grid and its number of divisions. -/
def gridding (c : Invocation) (config : Config) : Except Fault (Float × Nat) :=
  match c.number? 0 with
  | .error f => .error f
  | .ok size =>
    match c.count? 1 with
    | .error f => .error f
    | .ok divisions =>
      .ok (size.getD config.gridSize,
        match divisions with
        | none => config.gridDivisions
        | some n => max 1 (min n 4294967295))

end Invocation

/-- Whole milliseconds of a time in seconds; none for what is not a positive number. -/
def millisecondsOf (seconds : Float) : Time :=
  if seconds.isFinite && 0 < seconds then (seconds * 1000).round.toUInt64 else 0

namespace Command

open Outcome (given)

/-- A movement or turn by one number. -/
def byNumber (c : Invocation) (m : Machine) (f : Float → Scene → Scene) : Outcome :=
  given m (c.number 0) fun x => .done (m.mapScene (f x))

/-- A movement or turn toward a point. -/
def byPoint (c : Invocation) (m : Machine) (f : Vector3 → Scene → Scene) : Outcome :=
  given m (c.point m.scene.turtle.position) fun target => .done (m.mapScene (f target))

/-- A change of one limit; a missing number is 0. -/
def byCount (c : Invocation) (m : Machine) (f : Nat → Limits → Limits) : Outcome :=
  given m (c.count? 0) fun n => .done (m.mapLimits (f (n.getD 0)))

/-- Sets a limit if its argument is there. -/
def setIfGiven (m : Machine) (n : Option Nat) (f : Nat → Limits → Limits) : Machine :=
  match n with
  | none => m
  | some n => m.mapLimits (f n)

/-- Sets the limits one after the other. -/
def setLimits (c : Invocation) (m : Machine) : Outcome :=
  given m (c.count? 0) fun commands =>
    let m := setIfGiven m commands fun n l => l.withCommands n
    given m (c.count? 1) fun recursions =>
      let m := setIfGiven m recursions fun n l => l.withRecursions n
      given m (c.count? 2) fun depth =>
        .done (setIfGiven m depth fun n l => l.withDepth n)

/-- Shows the turtle, then sets its size. -/
def showTurtle (c : Invocation) (m : Machine) : Outcome :=
  let m := m.mapScene fun s => s.mapTurtle fun t => { t with visible := true }
  given m (c.number? 0) fun size =>
    .done (m.mapScene fun s => s.mapTurtle fun t => { t with size := size.getD m.config.glyphSize })

/-- Chooses a color for what follows. -/
def chooseColor (c : Invocation) (m : Machine) : Outcome :=
  given m (c.color m.stream) fun (chosen, stream) =>
    .done { m.mapScene fun s => (s.mapTurtle fun t => { t with color := chosen }).closePath with
      stream := stream }

def writeLabel (c : Invocation) (m : Machine) : Outcome :=
  given m (c.lettering m.config.labelSize) fun (text, size) =>
    .done (m.mapScene fun s => s.place (.text
      { anchor := s.turtle.position, text := text, size := size, color := s.turtle.color,
        orientation := s.turtle.orientation }))

def drawGrid (c : Invocation) (m : Machine) : Outcome :=
  given m (c.gridding m.config) fun (size, divisions) =>
    .done (m.mapScene fun s => s.place (.grid
      { origin := s.turtle.position, size := size, divisions := divisions,
        color := s.turtle.color, orientation := s.turtle.orientation }))

/-- What a command does once it is counted. -/
def act (command : Command) (c : Invocation) (m : Machine) : Outcome :=
  match command with
  | forward => byNumber c m fun x s => s.forward x
  | back => byNumber c m fun x s => s.forward (-x)
  | left => byNumber c m fun x s => s.mapTurtle (·.yaw x)
  | right => byNumber c m fun x s => s.mapTurtle (·.yaw (-x))
  | pitch => byNumber c m fun x s => s.mapTurtle (·.pitch x)
  | roll => byNumber c m fun x s => s.mapTurtle (·.roll x)
  | jump => byNumber c m fun x s => s.jump x
  | goto => byPoint c m fun target s => s.moveTo target
  | jumpTo => byPoint c m fun target s => s.jumpTo target
  | faceTo => byPoint c m fun target s => s.mapTurtle (·.face target)
  | home => .done (m.mapScene Scene.home)
  | penUp => .done (m.mapScene fun s => (s.mapTurtle fun t => { t with penDown := false }).closePath)
  | penDown => .done (m.mapScene fun s => s.mapTurtle fun t => { t with penDown := true })
  | hide => .done (m.mapScene fun s => s.mapTurtle fun t => { t with visible := false })
  | reveal => showTurtle c m
  | label => writeLabel c m
  | grid => drawGrid c m
  | fill => .done (m.mapScene Scene.fill)
  | wait => byNumber c m fun x s => s.wait (millisecondsOf x)
  | erase => .done (m.mapScene fun s => s.place .clear)
  | color => chooseColor c m
  | thickness => byNumber c m fun x s =>
      (s.mapTurtle fun t => { t with thickness := Number.greater x 0 }).closePath
  | limitCommand => byCount c m fun n l => l.withCommands n
  | limitRecurse => byCount c m fun n l => l.withRecursions n
  | limitDepth => byCount c m fun n l => l.withDepth n
  | limits => setLimits c m

/-- Counts a command and carries it out, if the budget allows one more. -/
def run (command : Command) (c : Invocation) (m : Machine) : Outcome :=
  if m.limits.maxCommands ≤ m.commands then
    .fault ⟨c.line, .commandLimit m.limits.maxCommands⟩ m
  else command.act c { m with commands := m.commands + 1 }

end Command
end TurtleGraphics
