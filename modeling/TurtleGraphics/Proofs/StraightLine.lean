import TurtleGraphics.Proofs.FunctionStatements

/-!
# TurtleGraphics.Proofs.StraightLine

Programs of movements and turns only. A step is one of six commands with one word, and what it does to a
position and an orientation is stated in components, without turtle, scene or drawing (`Motion.apply`).
The text of some steps, one to a line, runs as the fold of what they do (`run_steps`).

Text and run meet in the list of calls that the lines spell (`calls`). Each line is one call
(`parse_of_lines`), and each call carries out its command and leaves all else that matters to the next one
as it was (`execute_calls`).
-/

namespace TurtleGraphics

open Formula (Library noVariables)
open Program (PlainWord Statement)
open Text (joinWords)

/-! ## Steps -/

/-- The commands that move or turn by one number. -/
inductive Motion where
  | forward
  | back
  | left
  | right
  | pitch
  | roll
  deriving DecidableEq, Repr

namespace Motion

def word : Motion → String
  | forward => "fw"
  | back => "bk"
  | left => "lt"
  | right => "rt"
  | pitch => "pitch"
  | roll => "roll"

/-- The product of quaternions in components. -/
def product (q r : Orientation) : Orientation where
  w := q.w * r.w - q.x * r.x - q.y * r.y - q.z * r.z
  x := q.w * r.x + q.x * r.w + q.y * r.z - q.z * r.y
  y := q.w * r.y - q.x * r.z + q.y * r.w + q.z * r.x
  z := q.w * r.z + q.x * r.y - q.y * r.x + q.z * r.w

/-- Less than 2^-52 counts as zero. -/
def snapped (x : Float) : Float :=
  if x.abs < 2.220446049250313e-16 then 0 else x

/-- Scaled to unit length; the identity if there is no usable length. -/
def scaled (q : Orientation) : Orientation :=
  let len := (q.w * q.w + q.x * q.x + q.y * q.y + q.z * q.z).sqrt
  if len < 2.220446049250313e-16 || !len.isFinite then ⟨1, 0, 0, 0⟩
  else ⟨snapped (q.w / len), snapped (q.x / len), snapped (q.y / len), snapped (q.z / len)⟩

/-- The turn by an angle in degrees about an axis of unit length: the cosine of half the angle, and the
axis times its sine. Whole turns are taken off first, and a vanishing angle gives the identity. -/
def turn (axis : Vector3) (degrees : Float) : Orientation :=
  let angle := Number.remainder degrees 360
  if angle.abs < 2.220446049250313e-16 || !angle.isFinite then ⟨1, 0, 0, 0⟩
  else
    let half := angle * 0.017453292519943295 / 2
    scaled ⟨half.cos, axis.x * half.sin, axis.y * half.sin, axis.z * half.sin⟩

/-- The image `q x q*` of the x axis; that of the identity is exact. -/
def heading (q : Orientation) : Vector3 :=
  if (q.w.abs - 1).abs < 2.220446049250313e-16 && q.x.abs < 2.220446049250313e-16 &&
      q.y.abs < 2.220446049250313e-16 && q.z.abs < 2.220446049250313e-16 then ⟨1, 0, 0⟩
  else
    let r := product (product q ⟨0, 1, 0, 0⟩) ⟨q.w, -q.x, -q.y, -q.z⟩
    ⟨snapped r.x, snapped r.y, snapped r.z⟩

/-- The point at a distance along the heading. -/
def ahead (p : Vector3) (q : Orientation) (distance : Float) : Vector3 :=
  ⟨p.x + (heading q).x * distance, p.y + (heading q).y * distance, p.z + (heading q).z * distance⟩

/-- What a motion does to a position and an orientation. Movements are along the image of the x axis; a
turn is multiplied on the right, so that it is about an axis of the turtle. -/
def apply (motion : Motion) (amount : Float) : Vector3 × Orientation → Vector3 × Orientation
  | (p, q) =>
    match motion with
    | forward => (ahead p q amount, q)
    | back => (ahead p q (-amount), q)
    | left => (p, scaled (product q (turn ⟨0, 0, 1⟩ amount)))
    | right => (p, scaled (product q (turn ⟨0, 0, 1⟩ (-amount))))
    | pitch => (p, scaled (product q (turn ⟨0, 1, 0⟩ amount)))
    | roll => (p, scaled (product q (turn ⟨1, 0, 0⟩ amount)))

-- half a turn about the z axis, then half a turn about the x axis: half a turn about the y axis
example : scaled (product ⟨0, 0, 0, 1⟩ ⟨0, 1, 0, 0⟩) = ⟨0, 0, 1, 0⟩ := by
  decide +kernel

-- after half a turn about the z axis the turtle goes the other way
example : forward.apply 3 (⟨1, 2, 3⟩, ⟨0, 0, 0, 1⟩) = (⟨-2, 2, 3⟩, ⟨0, 0, 0, 1⟩) := by
  decide +kernel

end Motion

/-- A motion as it is written, and the number that its argument stands for. -/
structure Step where
  motion : Motion
  argument : String
  amount : Float

namespace Step

/-- The source line of a step. -/
def text (s : Step) : String :=
  joinWords [s.motion.word, s.argument]

def apply (s : Step) : Vector3 × Orientation → Vector3 × Orientation :=
  s.motion.apply s.amount

/-- The argument is one word that loses no comma, and a formula for the amount where no variables and no
functions are defined. -/
structure Legible (s : Step) : Prop where
  plain : PlainWord s.argument
  comma : s.argument.toList.getLast? ≠ some ','
  value : (Library.empty.read s.argument >>= Library.empty.eval noVariables) = .ok s.amount

instance (s : Step) : Decidable s.Legible :=
  decidable_of_iff
    (PlainWord s.argument ∧ s.argument.toList.getLast? ≠ some ',' ∧
      (Library.empty.read s.argument >>= Library.empty.eval noVariables) = .ok s.amount)
    ⟨fun ⟨plain, comma, value⟩ => ⟨plain, comma, value⟩, fun h => ⟨h.plain, h.comma, h.value⟩⟩

end Step

/-! ## Reading -/

/-- The calls that steps on lines numbered from `number` on are read as. -/
def calls (number : Nat) : List Step → List Statement
  | [] => []
  | s :: rest => .call ⟨number, none⟩ s.motion.word [s.argument] :: calls (number + 1) rest

theorem Motion.plainWord (motion : Motion) : PlainWord motion.word := by
  cases motion <;> decide +kernel

theorem Motion.ofKeyword (motion : Motion) : Program.BlockKind.ofKeyword? motion.word = none := by
  cases motion <;> rfl

namespace Step.Legible

variable {s : Step} (h : s.Legible)

include h

theorem plainWords : ∀ w ∈ [s.motion.word, s.argument], PlainWord w := by
  intro w hw
  rcases List.mem_cons.1 hw with rfl | hw
  · exact s.motion.plainWord
  · rw [List.mem_singleton.1 hw]
    exact h.plain

theorem isLine : Text.IsLine s.text.toList :=
  Program.isLine_joinWords h.plainWords

theorem text_ne_nil : s.text.toList ≠ [] :=
  Program.toList_joinWords_ne_nil h.plainWords (by simp)

theorem linesOf_text (number : Nat) :
    Program.linesOf number s.text.toList = [⟨number, [s.motion.word, s.argument], none⟩] :=
  Program.linesOf_joinWords h.plainWords (by simp) number

theorem heads (number : Nat) : Program.Heads [s.motion.word, s.argument]
    (.call ⟨number, none⟩ s.motion.word [s.argument]) := by
  have hdo : [s.argument].getLast? ≠ some "do" := by
    rw [List.getLast?_singleton]
    exact fun hlast => h.plain.2.2.1 (Option.some.inj hlast)
  have hcall := Program.Heads.call ⟨number, none⟩ s.motion.plainWord.2.2.2 s.motion.ofKeyword hdo
  rwa [List.map_singleton, Program.withoutComma_of_getLast h.comma] at hcall

end Step.Legible

theorem spells_calls {steps : List Step} (h : ∀ s ∈ steps, s.Legible) (number : Nat) :
    Program.Spells (Program.linesFrom number (steps.map fun s => s.text.toList))
      (calls number steps) := by
  induction steps generalizing number with
  | nil => exact .nil
  | cons s steps ih =>
    have hs := h s (by simp)
    rw [List.map_cons, Program.linesFrom, hs.linesOf_text]
    exact .leaf (hs.heads number) rfl rfl (ih (fun x hx => h x (by simp [hx])) (number + 1))

theorem nestingAll_calls (number : Nat) (steps : List Step) :
    Statement.nestingAll (calls number steps) = 0 := by
  induction steps generalizing number with
  | nil => rfl
  | cons s steps ih =>
    rw [calls, Statement.nestingAll, ih, Statement.nesting_of_leaf rfl]
    rfl

theorem parse_of_lines {steps : List Step} (h : ∀ s ∈ steps, s.Legible) {source : String}
    (hlines : Text.lines source.toList = steps.map fun s => s.text.toList) :
    Program.parse source = .ok (calls 1 steps) := by
  rw [Program.parse, Program.ofLines_eq_ok_iff, Program.lines, hlines, nestingAll_calls]
  exact ⟨spells_calls h 1, by decide⟩

/-! ## Running -/

/-- The position and the orientation of the turtle. -/
def Machine.stance (m : Machine) : Vector3 × Orientation :=
  (m.scene.turtle.position, m.scene.turtle.orientation)

/-- No functions and no procedures are defined. -/
structure Machine.Bare (m : Machine) : Prop where
  library : m.library = .empty
  procedures : ∀ name : String, m.procedures[name]? = none

theorem Machine.bare_reset (m : Machine) : m.reset.Bare :=
  ⟨rfl, fun name => by simp [Machine.reset]⟩

theorem scope_root : Context.root.scope = noVariables :=
  rfl

theorem Step.Legible.argumentValue {s : Step} (h : s.Legible) {m : Machine} (hm : m.Bare) (line : Nat) :
    m.argumentValue .root line s.argument = .ok (.num s.amount) := by
  have hquote : Program.startsWithQuote s.argument.toList = false := by
    rw [Program.startsWithQuote, beq_eq_false_iff_ne]
    exact fun hhead => (h.plain.2.1 _ (List.mem_of_head? hhead)).2.1 rfl
  have hformula : m.evalFormula .root line s.argument = .ok s.amount := by
    have hvalue := h.value
    simp only [Machine.evalFormula, hm.library, scope_root]
    cases hread : Library.empty.read s.argument with
    | error e =>
      rw [hread] at hvalue
      cases hvalue
    | ok tree =>
      rw [hread] at hvalue
      have heval : Library.empty.eval noVariables tree = .ok s.amount := hvalue
      simp only [heval]
  have hfree : Context.root.get? s.argument = none := rfl
  simp only [Machine.argumentValue, hquote, hfree, hformula, Bool.false_eq_true, if_false]

namespace Motion

theorem epsilon_eq : Number.epsilon = 2.220446049250313e-16 := by
  decide +kernel

theorem scaled_eq_normalize (q : Orientation) : scaled q = q.normalize := by
  simp only [scaled, snapped, Orientation.normalize, Orientation.flushZero, Orientation.isNearZero,
    epsilon_eq, decide_eq_true_eq]
  rfl

theorem scaled_product (q r : Orientation) : scaled (product q r) = q.compose r :=
  scaled_eq_normalize _

theorem heading_eq_rotate (q : Orientation) : heading q = q.rotate .unitX := by
  simp only [heading, snapped, Orientation.rotate, Orientation.isIdentity, Orientation.flushZero,
    Orientation.isNearZero, epsilon_eq, decide_eq_true_eq]
  rfl

theorem ahead_turtle (t : Turtle) (distance : Float) :
    t.ahead distance = ahead t.position t.orientation distance := by
  rw [ahead, heading_eq_rotate]
  rfl

/-- Division by the length leaves the axis as it is. -/
def IsUnit (axis : Vector3) : Prop :=
  axis.length = 1 ∧ axis.x / 1 = axis.x ∧ axis.y / 1 = axis.y ∧ axis.z / 1 = axis.z

instance (axis : Vector3) : Decidable (IsUnit axis) :=
  inferInstanceAs (Decidable (_ ∧ _))

theorem turn_eq_ofAxisAngle {axis : Vector3} (h : IsUnit axis) (degrees : Float) :
    turn axis degrees = .ofAxisAngle axis degrees := by
  obtain ⟨hlength, hx, hy, hz⟩ := h
  have hlong : decide ((1 : Float) < 2.220446049250313e-16) = false := by decide +kernel
  have hpi : Number.pi / 180 = 0.017453292519943295 := by decide +kernel
  simp only [turn, Orientation.ofAxisAngle, Orientation.isNearZero, Number.radiansOfDegrees, hlength,
    hx, hy, hz, hpi, epsilon_eq, hlong, Bool.or_false, scaled_eq_normalize]
  rfl

theorem orientation_turn {axis : Vector3} (h : IsUnit axis) (t : Turtle) (degrees : Float) :
    (t.turn axis degrees).orientation = scaled (product t.orientation (turn axis degrees)) := by
  rw [scaled_product, turn_eq_ofAxisAngle h, Turtle.turn]

theorem isUnit_unitX : IsUnit .unitX := by decide +kernel

theorem isUnit_unitY : IsUnit .unitY := by decide +kernel

theorem isUnit_unitZ : IsUnit .unitZ := by decide +kernel

end Motion

/-- The command of a motion changes the scene only, and the turtle as the motion says. -/
theorem Motion.run_command (motion : Motion) (amount : Float) (line : Nat) {m : Machine}
    (h : m.commands < m.limits.maxCommands) :
    ∃ command f, Command.ofName? motion.word = some command ∧
      command.run ⟨motion.word, [.num amount], line⟩ m =
        .done ({ m with commands := m.commands + 1 }.mapScene f) ∧
      (m.mapScene f).stance = motion.apply amount m.stance := by
  have hroom : ¬m.limits.maxCommands ≤ m.commands := by omega
  simp only [Command.run, if_neg hroom]
  cases motion with
  | forward => exact ⟨.forward, _, rfl, rfl, Prod.ext (ahead_turtle _ amount) rfl⟩
  | back => exact ⟨.back, _, rfl, rfl, Prod.ext (ahead_turtle _ (-amount)) rfl⟩
  | left => exact ⟨.left, _, rfl, rfl, Prod.ext rfl (orientation_turn isUnit_unitZ _ amount)⟩
  | right => exact ⟨.right, _, rfl, rfl, Prod.ext rfl (orientation_turn isUnit_unitZ _ (-amount))⟩
  | pitch => exact ⟨.pitch, _, rfl, rfl, Prod.ext rfl (orientation_turn isUnit_unitY _ amount)⟩
  | roll => exact ⟨.roll, _, rfl, rfl, Prod.ext rfl (orientation_turn isUnit_unitX _ amount)⟩

theorem Motion.definesFunction_word (motion : Motion) : definesFunction motion.word = false := by
  cases motion <;> rfl

theorem Step.Legible.call_eq {s : Step} (h : s.Legible) (body : BodyRunner) {m : Machine} (hm : m.Bare)
    (hroom : m.commands < m.limits.maxCommands) (mark : Program.Mark) :
    ∃ m', m.call body .root mark s.motion.word [s.argument] = .done m' ∧ m'.Bare ∧
      m'.limits = m.limits ∧ m'.commands = m.commands + 1 ∧ m'.stance = s.apply m.stance := by
  obtain ⟨command, f, hname, hrun, hstance⟩ := s.motion.run_command s.amount mark.line hroom
  have hargs : m.argumentValues .root mark.line [s.argument] = .ok [.num s.amount] := by
    simp only [Machine.argumentValues, h.argumentValue hm]
  have hfree : Context.root.get? s.motion.word = none := rfl
  have htarget : m.target .root mark.line s.motion.word = .ok (.command command) := by
    simp only [Machine.target, Machine.target.find, hfree, hm.procedures, hname]
  refine ⟨{ m with commands := m.commands + 1 }.mapScene f, ?_, ⟨hm.library, hm.procedures⟩, rfl, rfl,
    hstance⟩
  simp only [Machine.call, s.motion.definesFunction_word, hargs, htarget, Bool.false_eq_true, if_false]
  exact hrun

/-- The calls are carried out one after the other, if the budget of commands is enough for all. -/
theorem execute_calls {steps : List Step} (h : ∀ s ∈ steps, s.Legible) (body : BodyRunner)
    (number : Nat) {m : Machine} (hm : m.Bare)
    (hroom : m.commands + steps.length ≤ m.limits.maxCommands) :
    ∃ m', execute body .root false (calls number steps) m = .done m' ∧
      m'.commands = m.commands + steps.length ∧
      m'.stance = steps.foldl (fun stance s => s.apply stance) m.stance := by
  -- the state is general: each call finds the position, the budget and the line that the last one left
  induction steps generalizing number m with
  | nil => exact ⟨m, rfl, rfl, rfl⟩
  | cons s steps ih =>
    rw [List.length_cons] at hroom
    obtain ⟨next, hcall, hbare, hlimits, hcommands, hstance⟩ :=
      (h s (by simp)).call_eq body hm (by omega) ⟨number, none⟩
    obtain ⟨last, hrest, hcount, hfold⟩ :=
      ih (fun x hx => h x (by simp [hx])) (number + 1) hbare (by rw [hcommands, hlimits]; omega)
    refine ⟨last, ?_, ?_, ?_⟩
    · rw [calls, execute_call, hcall]
      exact hrest
    · rw [hcount, hcommands, List.length_cons]
      omega
    · rw [hfold, hstance, List.foldl_cons]

theorem Machine.run_of_parse {m m' : Machine} {source : String} {program : List Statement}
    (hparse : Program.parse source = .ok program) (hexec : m.reset.exec program = .done m') :
    m.run source = (.ok m'.commands, m'.succeed program) := by
  simp only [Machine.run, hparse, hexec]

/-! ## Texts -/

/-- The steps, one to a line. The last line may be ended by a line feed or not. -/
inductive Script (steps : List Step) : String → Prop where
  | joined : Script steps ("\n".intercalate (steps.map Step.text))
  | ended : Script steps (String.join (steps.map fun s => s.text ++ "\n"))

theorem Script.lines_eq {steps : List Step} {source : String} (h : Script steps source)
    (hsteps : ∀ s ∈ steps, s.Legible) :
    Text.lines source.toList = steps.map fun s => s.text.toList := by
  have hlines : ∀ l ∈ steps.map fun s => s.text.toList, Text.IsLine l := by
    intro l hl
    obtain ⟨s, hs, rfl⟩ := List.mem_map.1 hl
    exact (hsteps s hs).isLine
  cases h with
  | joined =>
    have hne : ∀ l ∈ steps.map fun s => s.text.toList, l ≠ [] := by
      intro l hl
      obtain ⟨s, hs, rfl⟩ := List.mem_map.1 hl
      exact (hsteps s hs).text_ne_nil
    have htext : ("\n".intercalate (steps.map Step.text)).toList =
        ['\n'].intercalate (steps.map fun s => s.text.toList) := by
      simp [Function.comp_def]
    rw [htext, Text.lines_intercalate hlines hne]
  | ended =>
    have htext : (String.join (steps.map fun s => s.text ++ "\n")).toList =
        (steps.map fun s => s.text.toList).flatMap (· ++ ['\n']) := by
      simp [List.flatMap_map]
    rw [htext, Text.lines_unlines hlines]

/-- A program of legible steps, one to a line, that the budget of commands is enough for is carried out
whole, and the turtle ends where the steps take it from the origin and the identity, one after the
other. -/
theorem run_steps (m : Machine) {steps : List Step} {source : String} (hsource : Script steps source)
    (hsteps : ∀ s ∈ steps, s.Legible) (hbudget : steps.length ≤ m.config.limits.maxCommands) :
    (m.run source).1 = .ok steps.length ∧
      ((m.run source).2.scene.turtle.position, (m.run source).2.scene.turtle.orientation) =
        steps.foldl (fun stance s => s.apply stance) (⟨0, 0, 0⟩, ⟨1, 0, 0, 0⟩) := by
  have hparse := parse_of_lines hsteps (hsource.lines_eq hsteps)
  have hroom : m.reset.commands + steps.length ≤ m.reset.limits.maxCommands := by
    simpa [Machine.reset, Limits.capped, Limits.withDepth] using hbudget
  obtain ⟨last, hexec, hcount, hfold⟩ :=
    execute_calls hsteps (runBody (maxBodyNesting - 1)) 1 m.bare_reset hroom
  rw [Machine.run_of_parse hparse hexec]
  refine ⟨?_, hfold⟩
  rw [hcount]
  exact congrArg Except.ok (Nat.zero_add _)

/-- A movement, a turn and a movement back. -/
def corner : List Step :=
  [⟨.forward, "2*(1+2)", 6⟩, ⟨.right, "90", 90⟩, ⟨.back, "min(4,5)", 4⟩]

/-- A movement, two whole turns and a movement back. -/
def spin : List Step :=
  [⟨.forward, "2*(1+2)", 6⟩, ⟨.left, "720", 720⟩, ⟨.back, "min(4,5)", 4⟩]

theorem legible_corner : ∀ s ∈ corner, s.Legible := by
  decide +kernel

theorem legible_spin : ∀ s ∈ spin, s.Legible := by
  decide +kernel

/-- The orientation after a quarter turn to the right. The angle halved is an eighth of a turn. -/
def quarterRight : Orientation :=
  Motion.scaled (Motion.product ⟨1, 0, 0, 0⟩
    (Motion.scaled ⟨Float.cos (-0.7853981633974483), 0 * Float.sin (-0.7853981633974483),
      0 * Float.sin (-0.7853981633974483), 1 * Float.sin (-0.7853981633974483)⟩))

theorem fold_corner :
    corner.foldl (fun stance s => s.apply stance) (⟨0, 0, 0⟩, ⟨1, 0, 0, 0⟩) =
      (⟨6 + (Motion.heading quarterRight).x * -4, 0 + (Motion.heading quarterRight).y * -4,
        0 + (Motion.heading quarterRight).z * -4⟩, quarterRight) := by
  have hforward : Motion.forward.apply 6 (⟨0, 0, 0⟩, ⟨1, 0, 0, 0⟩) = (⟨6, 0, 0⟩, ⟨1, 0, 0, 0⟩) := by
    decide +kernel
  have hright : Motion.right.apply 90 (⟨6, 0, 0⟩, ⟨1, 0, 0, 0⟩) = (⟨6, 0, 0⟩, quarterRight) := by
    have hhalf : Number.remainder (-90) 360 * 0.017453292519943295 / 2 = -0.7853981633974483 := by
      decide +kernel
    simp only [Motion.apply, Motion.turn]
    rw [if_neg (by decide +kernel), hhalf, quarterRight]
  simp only [corner, List.foldl_cons, List.foldl_nil, Step.apply]
  rw [hforward, hright]
  rfl

theorem fold_spin :
    spin.foldl (fun stance s => s.apply stance) (⟨0, 0, 0⟩, ⟨1, 0, 0, 0⟩) =
      (⟨2, 0, 0⟩, ⟨1, 0, 0, 0⟩) := by
  decide +kernel

theorem run_steps_corner :
    (∀ s ∈ corner, s.Legible) ∧
      ((Machine.new {} .zeros).run "fw 2*(1+2)\nrt 90\nbk min(4,5)").1 = .ok 3 ∧
      (((Machine.new {} .zeros).run "fw 2*(1+2)\nrt 90\nbk min(4,5)").2.scene.turtle.position,
        ((Machine.new {} .zeros).run "fw 2*(1+2)\nrt 90\nbk min(4,5)").2.scene.turtle.orientation) =
        (⟨6 + (Motion.heading quarterRight).x * -4, 0 + (Motion.heading quarterRight).y * -4,
          0 + (Motion.heading quarterRight).z * -4⟩, quarterRight) ∧
      (∀ s ∈ spin, s.Legible) ∧
      ((Machine.new {} .zeros).run "fw 2*(1+2)\nlt 720\nbk min(4,5)").1 = .ok 3 ∧
      (((Machine.new {} .zeros).run "fw 2*(1+2)\nlt 720\nbk min(4,5)").2.scene.turtle.position,
        ((Machine.new {} .zeros).run "fw 2*(1+2)\nlt 720\nbk min(4,5)").2.scene.turtle.orientation) =
        (⟨2, 0, 0⟩, ⟨1, 0, 0, 0⟩) := by
  have hcorner : "\n".intercalate (corner.map Step.text) = "fw 2*(1+2)\nrt 90\nbk min(4,5)" := by
    decide +kernel
  have hspin : "\n".intercalate (spin.map Step.text) = "fw 2*(1+2)\nlt 720\nbk min(4,5)" := by
    decide +kernel
  have hrun := run_steps (Machine.new {} .zeros) (.joined : Script corner _) legible_corner (by decide)
  have hback := run_steps (Machine.new {} .zeros) (.joined : Script spin _) legible_spin (by decide)
  rw [hcorner, fold_corner] at hrun
  rw [hspin, fold_spin] at hback
  exact ⟨legible_corner, hrun.1, hrun.2, legible_spin, hback⟩

end TurtleGraphics
