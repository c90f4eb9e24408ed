import TurtleGraphics.Proofs.Guards
import TurtleGraphics.Proofs.Stepping
import TurtleGraphics.Proofs.WholeParts

/-!
# TurtleGraphics.Proofs.Unrolling

A loop does what its body does when written out as often as the loop repeats it. The difference is that
the loop runs its body one level deeper, so the proof compares runs with less and more room for bodies:
one that does not run out of room has the same outcome with more of it (`upholds_execute`, one case per
statement, and `upholds_runBody`). Written out, the body is part of the surrounding one, where a guard
that has held would count against later repetitions; without guarded statements, a body written out
twice is a step after a step (`execute_append`).
-/

namespace TurtleGraphics

open Program (Statement Mark)

/-! ## Room for bodies -/

namespace Outcome

/-- The outcome of a run that had no room left for a body. -/
def isCut : Outcome → Bool
  | fault ⟨_, .bodiesTooDeep⟩ _ => true
  | _ => false

theorem isCut_eq_false {o : Outcome} (h : ∀ f m, o = fault f m → f.code ≠ ⟨.resource, 3⟩) :
    o.isCut = false := by
  unfold isCut
  split
  · exact absurd rfl (h _ _ rfl)
  · rfl

/-- The second outcome is the first one, unless the first was cut off. -/
def Upholds (o o' : Outcome) : Prop :=
  o.isCut = false → o' = o

theorem Upholds.refl (o : Outcome) : o.Upholds o :=
  fun _ => rfl

theorem Upholds.given {α : Type} (m : Machine) (r : Except Fault α) {next next' : α → Outcome}
    (h : ∀ a, (next a).Upholds (next' a)) : (Outcome.given m r next).Upholds (Outcome.given m r next') := by
  cases r with
  | error f => exact .refl _
  | ok a => exact h a

theorem Upholds.andThen {o o' : Outcome} {next next' : Machine → Outcome} (ho : o.Upholds o')
    (hnext : ∀ m, (next m).Upholds (next' m)) : (o.andThen next).Upholds (o'.andThen next') := by
  intro hcut
  cases o with
  | done m =>
    obtain rfl := ho rfl
    exact hnext m hcut
  | fault f m =>
    obtain rfl := ho hcut
    rfl

end Outcome

theorem upholds_repeat {step step' : Machine → Outcome} (h : ∀ m, (step m).Upholds (step' m)) (n : Nat)
    (m : Machine) : (repeatStep step n m).Upholds (repeatStep step' n m) := by
  induction n generalizing m with
  | zero => exact .refl _
  | succ n ih =>
    rw [repeatStep_succ, repeatStep_succ]
    exact .andThen (h m) ih

section Bodies

variable {body body' : BodyRunner}
  (hbody : ∀ statements cx m, (body statements cx m).Upholds (body' statements cx m))

include hbody

theorem upholds_call (m : Machine) (cx : Context) (mark : Mark) (name : String) (args : List String) :
    (m.call body cx mark name args).Upholds (m.call body' cx mark name args) := by
  rw [← Machine.finish_beginCall, ← Machine.finish_beginCall]
  cases m.beginCall cx mark name args with
  | ended o => exact .refl _
  | into statements inner m' => exact hbody statements inner m'

theorem upholds_loop (cx : Context) (statements : List Statement) (x : Float) (m : Machine) :
    (runLoop body cx statements x m).Upholds (runLoop body' cx statements x m) := by
  unfold runLoop
  split
  · exact .refl _
  · exact upholds_repeat (hbody statements cx) (loopCount x) m

theorem upholds_execute (cx : Context) (fired : Bool) (statements : List Statement) (m : Machine) :
    (execute body cx fired statements m).Upholds (execute body' cx fired statements m) := by
  induction statements generalizing fired m with
  | nil => exact .refl _
  | cons s rest ih =>
    cases s with
    | empty mark => exact ih fired m
    | define mark name params statements => exact ih fired _
    | loop mark count statements =>
      rw [execute_loop, execute_loop]
      exact .given m _ fun x => .andThen (upholds_loop hbody cx statements x m) (ih fired)
    | when mark guard statements =>
      cases fired with
      | true =>
        rw [execute_when_fired, execute_when_fired]
        exact ih true m
      | false =>
        rw [execute_when, execute_when]
        refine .given m _ fun x => ?_
        split
        · exact .andThen (hbody statements cx m) (ih true)
        · exact ih false m
    | call mark name args =>
      rw [execute_call, execute_call]
      exact .andThen (upholds_call hbody m cx mark name args) (ih fired)

end Bodies

/-- A body that is entered does what its statements do in the surrounding body, as long as there is room
to enter it. -/
theorem upholds_runBody (room : Nat) (statements : List Statement) (cx : Context) (m : Machine) :
    (runBody room statements cx m).Upholds (execute (runBody room) cx false statements m) := by
  induction room generalizing statements cx m with
  | zero => exact fun hcut => by cases hcut
  | succ room ih =>
    -- entering the body costs one level, so the two sides differ in the room of the bodies inside it
    exact upholds_execute ih cx false statements m

/-! ## Bodies without guarded statements -/

/-- Statements that are not guarded are a step of their own. -/
theorem execute_append {body : BodyRunner} {cx : Context} {front : List Statement}
    (h : ∀ s ∈ front, s.isGuarded = false) (fired : Bool) (tail : List Statement) (m : Machine) :
    execute body cx fired (front ++ tail) m =
      (execute body cx false front m).andThen (execute body cx fired tail) := by
  induction front generalizing m with
  | nil => rfl
  | cons s rest ih =>
    have hs := h s (List.mem_cons_self ..)
    have hnot := s.holds_of_not_isGuarded hs cx m
    rw [List.cons_append, execute_cons fun _ => hnot, execute_cons (fun _ => hnot) rest,
      Outcome.andThen_assoc, execute_of_not_isGuarded hs]
    exact congrArg _ (funext (ih fun t ht => h t (List.mem_cons_of_mem s ht)))

theorem repeatStep_execute {body : BodyRunner} {cx : Context} {statements : List Statement}
    (h : ∀ s ∈ statements, s.isGuarded = false) (fired : Bool) (n : Nat) (m : Machine) :
    repeatStep (execute body cx false statements) n m =
      execute body cx fired (List.replicate n statements).flatten m := by
  induction n generalizing m with
  | zero => rfl
  | succ n ih =>
    rw [repeatStep_succ, List.replicate_succ, List.flatten_cons, execute_append h]
    exact congrArg _ (funext ih)

theorem execute_of_isEmpty {body : BodyRunner} {cx : Context} {fired : Bool}
    {statements : List Statement} (h : ∀ s ∈ statements, s.isEmpty = true) (m : Machine) :
    execute body cx fired statements m = .done m := by
  induction statements with
  | nil => rfl
  | cons s rest ih =>
    have hs := h s (List.mem_cons_self ..)
    cases s with
    | empty mark => exact ih fun t ht => h t (List.mem_cons_of_mem _ ht)
    | _ => cases hs

/-! ## Loops written out -/

/-- How often a loop with a count repeats its body: the whole part of a count that is positive and
finite, but at most the largest number of 64 bits. -/
def repetitions (x : Float) : Nat :=
  if x.isFinite && 0 < x then min (Number.magnitude x).whole 0xFFFFFFFFFFFFFFFF else 0

theorem loopCount_eq (x : Float) : loopCount x = repetitions x := by
  unfold loopCount repetitions
  split
  · rename_i h
    rw [Bool.and_eq_true, decide_eq_true_eq] at h
    exact Number.toUInt64_of_pos h.1 h.2
  · rfl

/-- The body of a loop, as often as the loop repeats it. -/
def unrolled (statements : List Statement) (x : Float) : List Statement :=
  (List.replicate (repetitions x) statements).flatten

theorem execute_single_loop {cx : Context} {mark : Mark} {count : String} {m : Machine} {x : Float}
    (body : BodyRunner) (fired : Bool) (statements : List Statement)
    (hcount : m.evalFormula cx mark.line count = .ok x) :
    execute body cx fired [.loop mark count statements] m = runLoop body cx statements x m := by
  rw [execute_loop, hcount, Outcome.given]
  cases runLoop body cx statements x m <;> rfl

theorem upholds_unrolled {statements : List Statement} (h : ∀ s ∈ statements, s.isGuarded = false)
    (room : Nat) (cx : Context) (fired : Bool) (x : Float) (m : Machine) :
    (runLoop (runBody room) cx statements x m).Upholds
      (execute (runBody room) cx fired (unrolled statements x) m) := by
  unfold runLoop
  split
  · rename_i hempty
    have hall : ∀ s ∈ unrolled statements x, s.isEmpty = true := by
      intro s hs
      obtain ⟨copy, hcopy, hs⟩ := List.mem_flatten.1 hs
      rw [List.eq_of_mem_replicate hcopy] at hs
      exact List.all_eq_true.1 hempty s hs
    rw [execute_of_isEmpty hall]
    exact .refl _
  · rw [loopCount_eq, unrolled, ← repeatStep_execute h fired]
    exact upholds_repeat (upholds_runBody room statements cx) (repetitions x) m

/-- A loop whose body has no guarded statements and whose count can be evaluated does, unless something
nests too deep, what its body does when written out in its place as often as the count says: it has the
same outcome, and the counter of bodies is the same after it. -/
theorem execute_loop_eq_unrolled {cx : Context} {mark : Mark} {count : String}
    {statements : List Statement} {m : Machine} {x : Float} {nesting : Nat} {fired : Bool}
    (hplain : ∀ s ∈ statements, s.isGuarded = false)
    (hcount : m.evalFormula cx mark.line count = .ok x)
    (hdeep : ∀ f m', execute (runBody (maxBodyNesting - nesting)) cx fired
      [.loop mark count statements] m = .fault f m' → f.code ≠ ⟨.resource, 3⟩) :
    execute (runBody (maxBodyNesting - nesting)) cx fired [.loop mark count statements] m =
        execute (runBody (maxBodyNesting - nesting)) cx fired (unrolled statements x) m ∧
      ∀ frames, ∃ o,
        Moment.Leads ⟨.body cx fired [.loop mark count statements] :: frames, nesting, .done m⟩
          ⟨frames, nesting - 1, o⟩ ∧
        Moment.Leads ⟨.body cx fired (unrolled statements x) :: frames, nesting, .done m⟩
          ⟨frames, nesting - 1, o⟩ := by
  have hloop := execute_single_loop (runBody (maxBodyNesting - nesting)) fired statements hcount
  have hcut := Outcome.isCut_eq_false hdeep
  rw [hloop] at hcut
  have hsame := hloop.trans (upholds_unrolled hplain _ cx fired x m hcut).symm
  have hleads := fun frames rest =>
    leads_execute (fun frames => leads_enter frames nesting) frames cx fired rest m
  refine ⟨hsame, fun frames => ⟨_, hleads frames _, ?_⟩⟩
  rw [hsame]
  exact hleads frames _

/-- The body of a loop that defines a procedure and calls it. -/
def strideBody : List Statement :=
  [.define ⟨2, none⟩ "stride" [] [.call ⟨3, none⟩ "fw" ["1"]],
    .call ⟨5, none⟩ "stride" []]

theorem execute_loop_eq_unrolled_strideBody :
    execute (runBody (maxBodyNesting - 1)) .root false [.loop ⟨1, none⟩ "2.5" strideBody]
        (Machine.new {} .zeros) =
      execute (runBody (maxBodyNesting - 1)) .root false (strideBody ++ strideBody)
        (Machine.new {} .zeros) := by
  have hplain : ∀ s ∈ strideBody, s.isGuarded = false := by decide
  have hcount : (Machine.new {} .zeros).evalFormula .root 1 "2.5" = .ok 2.5 := by rfl
  have hdone : (execute (runBody (maxBodyNesting - 1)) .root false [.loop ⟨1, none⟩ "2.5" strideBody]
      (Machine.new {} .zeros)).result.isOk = true := by decide +kernel
  have htwice : unrolled strideBody 2.5 = strideBody ++ strideBody := by
    have hrepetitions : repetitions 2.5 = 2 := by decide +kernel
    rw [unrolled, hrepetitions]
    rfl
  rw [← htwice]
  refine (execute_loop_eq_unrolled hplain hcount fun f m' hfault => ?_).1
  rw [hfault] at hdone
  cases hdone

end TurtleGraphics
