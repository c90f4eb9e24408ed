import TurtleGraphics.Formula.Definition
import TurtleGraphics.Proofs.Scanning

/-!
# TurtleGraphics.Proofs.DefinitionTexts

A text `defn SIGNATURE,BODY` against the definition of that signature and body. The text is cut at its
first comma outside brackets, so the parts are found again if the signature closes as many brackets as it
opens and has no such comma itself, however many commas stand in its brackets and in the body
(`splitAtComma?_append`). The parts come out trimmed, but blanks at their ends change neither what is
read nor what an error says (`Library.define_trim`).
-/

namespace TurtleGraphics
namespace Formula

/-! ## The comma after the signature -/

/-- How many more brackets a text opens than it closes. -/
def bracketDepth (cs : List Char) : Int :=
  (cs.count '(' + cs.count '[' : Nat) - (cs.count ')' + cs.count ']' : Nat)

/-- The text has a comma outside brackets: as many were opened as closed in front of it. -/
def HasOuterComma (cs : List Char) : Prop :=
  ∃ i : Fin cs.length, cs[i] = ',' ∧ bracketDepth (cs.take i) = 0

instance (cs : List Char) : Decidable (HasOuterComma cs) :=
  inferInstanceAs (Decidable (∃ i : Fin cs.length, cs[i] = ',' ∧ bracketDepth (cs.take i) = 0))

theorem hasOuterComma_append {front back : List Char} (h : bracketDepth front = 0) :
    HasOuterComma (front ++ ',' :: back) :=
  ⟨⟨front.length, by simp⟩, by simp, by simpa using h⟩

theorem bracketDepth_cons (c : Char) (cs : List Char) :
    bracketDepth (c :: cs) = depthChange c + bracketDepth cs := by
  by_cases hopen : c = '(' ∨ c = '['
  · rcases hopen with rfl | rfl <;> simp [bracketDepth, depthChange] <;> omega
  · by_cases hclose : c = ')' ∨ c = ']'
    · rcases hclose with rfl | rfl <;> simp [bracketDepth, depthChange] <;> omega
    · rw [not_or] at hopen hclose
      simp [bracketDepth, depthChange, hopen, hclose]

/-- The counter passes by all commas inside the text and stops at the one behind it. -/
theorem splitAtComma?_append {depth : Int} {before : List Char}
    (hcommas : ∀ front back, before = front ++ ',' :: back → depth + bracketDepth front ≠ 0)
    (hdepth : depth + bracketDepth before = 0) (after : List Char) :
    splitAtComma? depth (before ++ ',' :: after) = some (before, after) := by
  induction before generalizing depth with
  | nil =>
    have hzero : depth = 0 := by simpa [bracketDepth] using hdepth
    simp [splitAtComma?, hzero]
  | cons c before ih =>
    have hpass : ¬(c == ',' && depth == 0) = true := by
      intro hstop
      simp only [Bool.and_eq_true, beq_iff_eq] at hstop
      obtain ⟨rfl, rfl⟩ := hstop
      exact hcommas [] before rfl rfl
    rw [bracketDepth_cons, ← Int.add_assoc] at hdepth
    have hrest : splitAtComma? (depth + depthChange c) (before ++ ',' :: after) =
        some (before, after) := by
      refine ih (fun front back hsplit => ?_) hdepth
      have := hcommas (c :: front) back (by rw [hsplit]; rfl)
      rwa [bracketDepth_cons, ← Int.add_assoc] at this
    rw [List.cons_append, splitAtComma?, if_neg hpass, hrest]

/-! ## Blanks around the parts -/

theorem Expr.ofText_trim (check : CallCheck) (cs : List Char) :
    Expr.ofText check (Text.trim cs) = Expr.ofText check cs := by
  simp only [Expr.ofText, Token.ofText, Token.scan_trim]

theorem readSignature_trim (signature : String) :
    readSignature (Text.trimString signature) = readSignature signature := by
  have htwice : Text.trimString (Text.trimString signature) = Text.trimString signature := by
    simp [Text.trimString, Text.trim_trim]
  have hread : Expr.ofText anyCall (Text.trimString signature).toList =
      Expr.ofText anyCall signature.toList := by
    rw [Text.trimString, String.toList_ofList, Expr.ofText_trim]
  -- an error quotes the signature, but trimmed
  simp only [readSignature, hread, htwice]

theorem Library.define_trim (lib : Library) (signature body : String) :
    lib.define (Text.trimString signature) (Text.trimString body) = lib.define signature body := by
  have hbody : (Text.trimString body).toList = Text.trim body.toList := by
    rw [Text.trimString, String.toList_ofList]
  simp only [define, readSignature_trim, hbody, Expr.ofText_trim]

/-! ## Definitions in a text -/

/-- The text that defines a function. -/
def definitionText (signature body : String) : String :=
  "defn " ++ signature ++ "," ++ body

/-- The library that is left after a text was evaluated; an error leaves the one that was there. -/
def Library.afterEvaluate (lib : Library) (vars : Scope) (source : String) : Library :=
  match lib.evaluate vars source with
  | .error _ => lib
  | .ok (_, lib) => lib

section Texts

variable {signature body : String} (hbody : ∃ c ∈ body.toList, Text.isBlank c = false)

include hbody

theorem trim_definitionText (signature : String) :
    Text.trim (definitionText signature body).toList =
      "defn".toList ++ ' ' :: (signature.toList ++ ',' :: Text.trimEnd body.toList) := by
  have hcut : (definitionText signature body).toList =
      ("defn ".toList ++ signature.toList ++ [',']) ++ body.toList := by
    simp [definitionText]
  have hstart : Text.trimStart (definitionText signature body).toList =
      (definitionText signature body).toList := by
    refine Text.trimStart_eq_self fun c hc => ?_
    rw [hcut] at hc
    cases hc
    rfl
  rw [Text.trim, hstart, hcut, Text.trimEnd_append hbody]
  simp

variable (hsignature : ∃ c ∈ signature.toList, Text.isBlank c = false)
  (hcomma : ¬HasOuterComma signature.toList) (hbrackets : bracketDepth signature.toList = 0)

include hsignature hcomma hbrackets

theorem definitionParts?_of_text :
    definitionParts? (' ' :: (signature.toList ++ ',' :: Text.trimEnd body.toList)) =
      some (Text.trim signature.toList, Text.trim body.toList) := by
  have hsplit : splitAtComma? 0 (signature.toList ++ ',' :: Text.trimEnd body.toList) =
      some (signature.toList, Text.trimEnd body.toList) := by
    refine splitAtComma?_append (fun front back hfront hzero => ?_) ?_ _
    · rw [hfront] at hcomma
      exact hcomma (hasOuterComma_append (by simpa using hzero))
    · simpa using hbrackets
  have hspace : splitAtComma? 0 (' ' :: (signature.toList ++ ',' :: Text.trimEnd body.toList)) =
      some (' ' :: signature.toList, Text.trimEnd body.toList) := by
    have hlevel : 0 + depthChange ' ' = 0 := rfl
    rw [splitAtComma?, if_neg (by decide), hlevel, hsplit]
  have hnames : (Text.trim signature.toList).isEmpty = false := by
    simpa using Text.trim_ne_nil hsignature
  have hformula : (Text.trim body.toList).isEmpty = false := by
    simpa using Text.trim_ne_nil hbody
  simp [definitionParts?, hspace, Text.trim_space_cons, Text.trim_trimEnd, hnames, hformula]

theorem evaluate_eq_define (lib : Library) (vars : Scope) :
    lib.evaluate vars (definitionText signature body) =
      (lib.define signature body).map fun defined => (0, defined.2) := by
  have hafter : ∀ cs, afterDefn? ("defn".toList ++ ' ' :: cs) = some (' ' :: cs) := fun _ => rfl
  have hparts := definitionParts?_of_text hbody hsignature hcomma hbrackets
  have hdefine := lib.define_trim signature body
  rw [Text.trimString, Text.trimString] at hdefine
  simp only [Library.evaluate, trim_definitionText hbody, hafter, hparts, hdefine]
  cases lib.define signature body <;> rfl

/-- A definition written in a text does what the definition of its parts does: if that succeeds, the
text has the value 0 and leaves the same library, and if it fails, the text fails with the same error
and leaves the library as it was. -/
theorem evaluate_definitionText (lib : Library) (vars : Scope) :
    (∀ name lib', lib.define signature body = .ok (name, lib') →
        lib.evaluate vars (definitionText signature body) = .ok (0, lib')) ∧
      ∀ e, lib.define signature body = .error e →
        lib.evaluate vars (definitionText signature body) = .error e ∧
          lib.afterEvaluate vars (definitionText signature body) = lib := by
  have heval := evaluate_eq_define hbody hsignature hcomma hbrackets lib vars
  constructor
  · intro name lib' hdefine
    rw [heval, hdefine]
    rfl
  · intro e hdefine
    have hfails : lib.evaluate vars (definitionText signature body) = .error e := by
      rw [heval, hdefine]
      rfl
    exact ⟨hfails, by rw [Library.afterEvaluate, hfails]⟩

end Texts

/-- The comma that ends the signature is neither the one in its brackets nor the one in the body. -/
theorem evaluate_definitionText_samples :
    (∃ name lib, Library.empty.define " f(a, b) " "max(a, b) - a " = .ok (name, lib) ∧
        Library.empty.evaluate noVariables "defn  f(a, b) ,max(a, b) - a " = .ok (0, lib)) ∧
      Library.empty.evaluate noVariables "defn f[a, -b] , b, a" =
        .error (.invalidParameter "expression") := by
  obtain ⟨⟨name, lib⟩, hdefine⟩ :
      ∃ r, Library.empty.define " f(a, b) " "max(a, b) - a " = .ok r := ⟨_, rfl⟩
  have herror : Library.empty.define "f[a, -b] " " b, a" = .error (.invalidParameter "expression") :=
    rfl
  constructor
  · refine ⟨name, lib, hdefine, ?_⟩
    exact (evaluate_definitionText ⟨'m', by decide, rfl⟩ ⟨'f', by decide, rfl⟩ (by decide +kernel)
      (by decide +kernel) Library.empty noVariables).1 name lib hdefine
  · exact ((evaluate_definitionText ⟨'b', by decide, rfl⟩ ⟨'f', by decide, rfl⟩ (by decide +kernel)
      (by decide +kernel) Library.empty noVariables).2 _ herror).1

end Formula
end TurtleGraphics
