import TurtleGraphics.Formula.Definition
import TurtleGraphics.Proofs.CommaCount
import TurtleGraphics.Proofs.Reprinting
import TurtleGraphics.Proofs.RoundTrip
import TurtleGraphics.Proofs.Scanning
import TurtleGraphics.Proofs.Statements

/-!
# TurtleGraphics.Proofs.FunctionStatements

A line `fn f(a, b) BODY` against the definition of that signature and body. The line is cut into words,
each word loses a comma at its end, and the words are joined again. For the signature, this is undone:
its words are joined by commas. The body is joined by spaces, so it comes out as it was written only if
none of its words ends with a comma. If one does, the function is not defined at all: a formula that lost
commas cannot be read (`Formula.Thinned.not_read`).
-/

namespace TurtleGraphics

open Formula (Library Token Expr Thinned)
open Program (PlainWord withoutComma)
open Text (isBlank joinWords)

/-! ## Words and their commas -/

theorem Program.withoutComma_of_getLast {w : String} (h : w.toList.getLast? ≠ some ',') :
    withoutComma w = w := by
  simp [withoutComma, h]

theorem Program.withoutComma_comma {w : String} (h : '"' ∉ w.toList) : withoutComma (w ++ ",") = w := by
  have hquote : startsWithQuote (w ++ ",").toList = false := by
    rw [startsWithQuote, beq_eq_false_iff_ne, String.toList_append]
    intro hhead
    rcases List.mem_append.1 (List.mem_of_head? hhead) with hmem | hmem
    · exact h hmem
    · revert hmem
      decide
  have hlast : ((w ++ ",").toList.getLast? == some ',') = true := by simp
  rw [withoutComma, hquote, if_neg (by simp), if_pos hlast]
  simp

theorem unquote_of_not_mem {w : String} (h : '"' ∉ w.toList) : unquote w = w := by
  unfold unquote
  split
  · rename_i cs hw
    rw [hw] at h
    exact absurd (List.mem_cons_self ..) h
  · rfl

theorem Program.linesOf_joinWords {ws : List String} (h : ∀ w ∈ ws, PlainWord w) (hne : ws ≠ [])
    (number : Nat) : linesOf number (joinWords ws).toList = [⟨number, ws, none⟩] := by
  have hneutral : Neutral (joinWords ws).toList := neutral_joinWords fun w hw => (h w hw).neutral
  have hwords : words (codeOf (joinWords ws).toList) = ws := by
    rw [codeOf, words_trim, cutComment_fst_of_none hneutral.1,
      words_joinWords (.of_closed fun w hw => (h w hw).closed)]
  have hcomment : commentOf (joinWords ws).toList = none := by
    rw [commentOf, hneutral.1]
    rfl
  have hend : "end" ∉ ws := fun hmem => (h _ hmem).2.2.2 rfl
  have hdo : "do" ∉ ws := fun hmem => (h _ hmem).2.2.1 rfl
  have hrun : IsRun (words (codeOf (joinWords ws).toList)) := by
    rw [hwords]
    exact .inr ⟨hne, hend, fun hmem => hdo (List.dropLast_subset _ hmem)⟩
  rw [linesOf_of_isRun hrun, hwords, hcomment]
  rw [hwords]
  rintro rfl
  exact hend (by simp)

theorem Program.isLine_joinWords {ws : List String} (h : ∀ w ∈ ws, PlainWord w) :
    Text.IsLine (joinWords ws).toList := by
  have hspaced := blank_eq_space_joinWords fun w hw => (h w hw).closed.spaced
  constructor
  · intro hmem
    rcases hspaced _ hmem with hc | hc <;> cases hc
  · intro hlast
    rcases hspaced _ (List.mem_of_getLast? hlast) with hc | hc <;> cases hc

theorem Program.toList_joinWords_ne_nil {ws : List String} (h : ∀ w ∈ ws, PlainWord w) (hne : ws ≠ []) :
    (joinWords ws).toList ≠ [] := by
  intro hempty
  have hline := linesOf_joinWords h hne 1
  rw [hempty] at hline
  cases hline

theorem Program.lines_joinWords {ws : List String} (h : ∀ w ∈ ws, PlainWord w) (hne : ws ≠ []) :
    lines (joinWords ws) = [⟨1, ws, none⟩] := by
  rw [lines, Text.lines_of_isLine (isLine_joinWords h) (toList_joinWords_ne_nil h hne), linesFrom,
    linesOf_joinWords h hne]
  rfl

/-- A line of plain words is one call, with the words after the first as arguments. -/
theorem Program.parse_joinWords {name : String} {args : List String}
    (h : ∀ w ∈ name :: args, PlainWord w) (hkey : BlockKind.ofKeyword? name = none) :
    parse (joinWords (name :: args)) = .ok [.call ⟨1, none⟩ name (args.map withoutComma)] := by
  refine parse_of_call_line (lines_joinWords h (by simp)) (h name (by simp)).2.2.2 hkey ?_
  intro hlast
  exact (h "do" (List.mem_cons_of_mem _ (List.mem_of_getLast? hlast))).2.2.1 rfl

/-! ## The words of a signature -/

/-- A signature as it is written, with a comma and a space between parameters. -/
def signatureText (name : String) (params : List String) : String :=
  name ++ "(" ++ ", ".intercalate params ++ ")"

/-- The parts of a signature between the commas. `front` is what stands before the first parameter. -/
def signatureParts (front : String) : List String → List String
  | [] => [front ++ ")"]
  | [p] => [front ++ p ++ ")"]
  | p :: q :: ps => (front ++ p) :: signatureParts "" (q :: ps)

/-- Puts a comma behind every part but the last. -/
def withCommas : List String → List String
  | [] => []
  | [u] => [u]
  | u :: v :: us => (u ++ ",") :: withCommas (v :: us)

theorem signatureParts_ne_nil (front : String) (ps : List String) : signatureParts front ps ≠ [] := by
  fun_cases signatureParts front ps <;> simp

theorem withCommas_ne_nil {us : List String} (h : us ≠ []) : withCommas us ≠ [] := by
  fun_cases withCommas us
  · exact absurd rfl h
  · simp
  · simp

theorem withCommas_cons (u : String) {us : List String} (h : us ≠ []) :
    withCommas (u :: us) = (u ++ ",") :: withCommas us := by
  cases us with
  | nil => exact absurd rfl h
  | cons v us => rfl

theorem intercalate_signatureParts (front : String) (ps : List String) :
    ", ".intercalate (signatureParts front ps) = front ++ ", ".intercalate ps ++ ")" := by
  fun_induction signatureParts front ps with
  | case1 front => simp
  | case2 front p => simp
  | case3 front p q ps ih =>
    rw [String.intercalate_cons_of_ne_nil (signatureParts_ne_nil _ _), ih,
      String.intercalate_cons_cons]
    simp [String.append_assoc]

theorem joinWords_withCommas (us : List String) : joinWords (withCommas us) = ", ".intercalate us := by
  fun_induction withCommas us with
  | case1 => rfl
  | case2 u => rfl
  | case3 u v us ih =>
    have hne : withCommas (v :: us) ≠ [] := withCommas_ne_nil (by simp)
    have hspace : u ++ "," ++ " " = u ++ ", " := String.append_assoc
    rw [joinWords, String.intercalate_cons_of_ne_nil hne, ← joinWords, ih,
      String.intercalate_cons_cons, hspace]

theorem map_withoutComma_withCommas {us : List String}
    (h : ∀ u ∈ us, ∀ c ∈ u.toList, c ≠ '"' ∧ c ≠ ',') : (withCommas us).map withoutComma = us := by
  fun_induction withCommas us with
  | case1 => rfl
  | case2 u =>
    have hlast : u.toList.getLast? ≠ some ',' :=
      fun hl => (h u (by simp) _ (List.mem_of_getLast? hl)).2 rfl
    rw [List.map_singleton, Program.withoutComma_of_getLast hlast]
  | case3 u v us ih =>
    have hquote : '"' ∉ u.toList := fun hq => (h u (by simp) _ hq).1 rfl
    rw [List.map_cons, Program.withoutComma_comma hquote, ih fun u hu => h u (by simp [hu])]

/-- A text that can be one name in a formula. -/
def NameText (s : String) : Prop :=
  ∀ c ∈ s.toList, Token.isNameChar c = true

section Signatures

variable {front : String} {ps : List String}

theorem mem_signatureParts {u : String} (hu : u ∈ signatureParts front ps) {c : Char}
    (hc : c ∈ u.toList) : c ∈ front.toList ∨ (∃ p ∈ ps, c ∈ p.toList) ∨ c = ')' := by
  fun_induction signatureParts front ps with
  | case1 front =>
    cases List.mem_singleton.1 hu
    simpa using hc
  | case2 front p =>
    cases List.mem_singleton.1 hu
    simpa using hc
  | case3 front p q ps ih =>
    rcases List.mem_cons.1 hu with rfl | hu
    · simp only [String.toList_append, List.mem_append] at hc
      rcases hc with hc | hc
      · exact .inl hc
      · exact .inr (.inl ⟨p, by simp, hc⟩)
    · rcases ih hu with hc | ⟨r, hr, hc⟩ | hc
      · cases hc
      · exact .inr (.inl ⟨r, by simp [hr], hc⟩)
      · exact .inr (.inr hc)

theorem mem_withCommas {us : List String} {w : String} (hw : w ∈ withCommas us) :
    ∃ u ∈ us, w = u ∨ w = u ++ "," := by
  fun_induction withCommas us with
  | case1 => cases hw
  | case2 u => exact ⟨w, hw, .inl rfl⟩
  | case3 u v us ih =>
    rcases List.mem_cons.1 hw with rfl | hw
    · exact ⟨u, by simp, .inr rfl⟩
    · obtain ⟨u', hu', hw⟩ := ih hw
      exact ⟨u', by simp [hu'], hw⟩

theorem getLast?_of_mem_withCommas {w : String} (hw : w ∈ withCommas (signatureParts front ps)) :
    w.toList.getLast? = some ',' ∨ w.toList.getLast? = some ')' := by
  fun_induction signatureParts front ps with
  | case1 front =>
    cases List.mem_singleton.1 hw
    simp
  | case2 front p =>
    cases List.mem_singleton.1 hw
    simp
  | case3 front p q ps ih =>
    rw [withCommas_cons _ (signatureParts_ne_nil _ _)] at hw
    rcases List.mem_cons.1 hw with rfl | hw
    · simp
    · exact ih hw

theorem roundDepth_append (s t : String) : roundDepth (s ++ t) = roundDepth s + roundDepth t := by
  simp only [roundDepth, String.toList_append, List.count_append]
  omega

theorem roundDepth_of_nameText {s : String} (h : NameText s) : roundDepth s = 0 := by
  have hnone : ∀ c, Token.isNameChar c = false → s.toList.count c = 0 := by
    intro c hc
    refine List.count_eq_zero.2 fun hmem => ?_
    rw [h c hmem] at hc
    cases hc
  rw [roundDepth, hnone '(' rfl, hnone ')' rfl]
  rfl

/-- The bracket of a signature is open up to its last part. -/
theorem splitSignature_signatureParts {depth : Int} (hdepth : depth + roundDepth front = 1)
    (hps : ∀ p ∈ ps, NameText p) (ws : List String) :
    splitSignature depth (signatureParts front ps ++ ws) = (signatureParts front ps, ws) := by
  have hclose : roundDepth ")" = -1 := rfl
  fun_induction signatureParts front ps generalizing depth with
  | case1 front =>
    have hend : depth + roundDepth (front ++ ")") ≤ 0 := by
      rw [roundDepth_append]
      omega
    rw [List.singleton_append, splitSignature, if_pos hend]
  | case2 front p =>
    have hp := roundDepth_of_nameText (hps p (by simp))
    have hend : depth + roundDepth (front ++ p ++ ")") ≤ 0 := by
      rw [roundDepth_append, roundDepth_append]
      omega
    rw [List.singleton_append, splitSignature, if_pos hend]
  | case3 front p q ps ih =>
    have hp := roundDepth_of_nameText (hps p (by simp))
    have hopen : depth + roundDepth (front ++ p) = 1 := by
      rw [roundDepth_append]
      omega
    rw [List.cons_append, splitSignature, hopen, if_neg (by decide),
      ih rfl fun p hp => hps p (by simp [hp])]

end Signatures

/-! ## Bodies without commas -/

theorem Formula.Token.scan_joinWords_cons (w : String) (ws : List String) :
    scan (joinWords (w :: ws)).toList = follow (scan w.toList) (scan (joinWords ws).toList) := by
  cases ws with
  | nil =>
    have hnil : scan (joinWords []).toList = .ok [] := rfl
    rw [hnil, follow_nil_right]
    rfl
  | cons v ws =>
    have hcut : (joinWords (w :: v :: ws)).toList =
        w.toList ++ ' ' :: (joinWords (v :: ws)).toList := by
      simp [Text.toList_joinWords, List.intercalate_cons_cons]
    rw [hcut, scan_append (breaks_blank rfl _), scan_blank rfl]

/-- A word that loses a comma loses that token and no other. -/
theorem Formula.Token.scan_withoutComma {w : String} (hquote : '"' ∉ w.toList) {ts : List Token}
    (h : scan w.toList = .ok ts) :
    ∃ us, scan (withoutComma w).toList = .ok us ∧ Thinned ts us ∧
      (w.toList.getLast? = some ',' → us.count .comma < ts.count .comma) := by
  by_cases hlast : w.toList.getLast? = some ','
  · obtain ⟨cs, hcs⟩ := List.getLast?_eq_some_iff.1 hlast
    have hw : w = String.ofList cs ++ "," := String.toList_inj.1 (by simp [hcs])
    have hquote' : '"' ∉ (String.ofList cs).toList := by
      intro hmem
      rw [String.toList_ofList] at hmem
      exact hquote (by simp [hcs, hmem])
    rw [hcs, scan_append (breaks_comma []), scan_comma] at h
    obtain ⟨us, _, hus, ⟨⟩, rfl⟩ := follow_eq_ok h
    rw [hw, Program.withoutComma_comma hquote', String.toList_ofList]
    refine ⟨us, hus, ?_, fun _ => by simp⟩
    have hthin := (Thinned.refl us).append (.drop .nil)
    rwa [List.append_nil] at hthin
  · rw [Program.withoutComma_of_getLast hlast]
    exact ⟨ts, h, .refl ts, fun hcomma => absurd hcomma hlast⟩

theorem Formula.Token.scan_map_withoutComma {ws : List String} (hquote : ∀ w ∈ ws, '"' ∉ w.toList)
    {ts : List Token} (h : scan (joinWords ws).toList = .ok ts) :
    ∃ us, scan (joinWords (ws.map withoutComma)).toList = .ok us ∧ Thinned ts us ∧
      ((∃ w ∈ ws, w.toList.getLast? = some ',') → us.count .comma < ts.count .comma) := by
  induction ws generalizing ts with
  | nil => exact ⟨ts, h, .refl ts, by simp⟩
  | cons w ws ih =>
    rw [scan_joinWords_cons] at h
    obtain ⟨ts₁, ts₂, h₁, h₂, rfl⟩ := follow_eq_ok h
    obtain ⟨us₁, hus₁, hthin₁, hcomma₁⟩ := scan_withoutComma (hquote w (by simp)) h₁
    obtain ⟨us₂, hus₂, hthin₂, hcomma₂⟩ := ih (fun v hv => hquote v (by simp [hv])) h₂
    refine ⟨us₁ ++ us₂, ?_, hthin₁.append hthin₂, ?_⟩
    · rw [List.map_cons, scan_joinWords_cons, hus₁, hus₂]
      rfl
    · rintro ⟨v, hv, hlast⟩
      have hle₁ := hthin₁.count_comma_le
      have hle₂ := hthin₂.count_comma_le
      rw [List.count_append, List.count_append]
      rcases List.mem_cons.1 hv with rfl | hv
      · have := hcomma₁ hlast
        omega
      · have := hcomma₂ ⟨v, hv, hlast⟩
        omega

/-- The formula that a definition reads as its body. -/
theorem Formula.Library.scan_of_define {lib lib' : Library} {signature body name : String}
    (h : lib.define signature body = .ok (name, lib')) :
    ∃ params ts tree, readSignature signature = .ok (name, params) ∧
      Token.scan body.toList = .ok ts ∧
      Expr.ofTokens (lib.checkCall (some (name, params.length))) (Token.withProducts ts) =
        .ok tree := by
  unfold define at h
  split at h
  · cases h
  · rename_i f params hsignature
    split at h
    · cases h
    · rename_i tree hbody
      cases h
      unfold Expr.ofText Token.ofText at hbody
      cases hscan : Token.scan body.toList with
      | error e =>
        rw [hscan] at hbody
        cases hbody
      | ok ts =>
        rw [hscan] at hbody
        exact ⟨params, ts, tree, hsignature, rfl, hbody⟩

theorem Formula.Library.body_ne_empty {lib lib' : Library} {signature body name : String}
    (h : lib.define signature body = .ok (name, lib')) : body ≠ "" := by
  rintro rfl
  obtain ⟨params, ts, tree, -, hscan, hread⟩ := scan_of_define h
  cases hscan
  cases hread

/-- A body that can be read cannot be read without the commas at the ends of its words. -/
theorem Formula.Library.define_map_withoutComma {lib lib' : Library} {signature name : String}
    {ws : List String} (hquote : ∀ w ∈ ws, '"' ∉ w.toList)
    (h : lib.define signature (joinWords ws) = .ok (name, lib'))
    (hcomma : ∃ w ∈ ws, w.toList.getLast? = some ',') :
    joinWords (ws.map withoutComma) ≠ "" ∧
      ∃ e, lib.define signature (joinWords (ws.map withoutComma)) = .error e := by
  obtain ⟨params, ts, tree, hsignature, hscan, hread⟩ := scan_of_define h
  obtain ⟨us, hus, hthin, hfewer⟩ := Token.scan_map_withoutComma hquote hscan
  obtain ⟨hne, e, he⟩ := hthin.not_read (hfewer hcomma) hread
  constructor
  · intro hempty
    rw [hempty] at hus
    cases hus
    exact hne rfl
  · exact ⟨e, by simp [define, hsignature, Expr.ofText, Token.ofText, hus, he]⟩

/-! ## Function statements -/

/-- The source line that defines a function, with the words of its body. -/
def functionLine (name : String) (params ws : List String) : String :=
  joinWords ["fn", signatureText name params, joinWords ws]

section Lines

variable {name : String} {params ws : List String} (hnames : ∀ s ∈ name :: params, NameText s)

include hnames

/-- The characters of a signature. -/
theorem mem_signature {u : String} (hu : u ∈ signatureParts (name ++ "(") params) {c : Char}
    (hc : c ∈ u.toList) : Token.isNameChar c = true ∨ c = '(' ∨ c = ')' := by
  rcases mem_signatureParts hu hc with hc | ⟨p, hp, hc⟩ | rfl
  · rw [String.toList_append, List.mem_append] at hc
    rcases hc with hc | hc
    · exact .inl (hnames name (by simp) c hc)
    · exact .inr (.inl (List.mem_singleton.1 hc))
  · exact .inl (hnames p (by simp [hp]) c hc)
  · exact .inr (.inr rfl)

theorem ne_of_mem_signature {u : String} (hu : u ∈ signatureParts (name ++ "(") params) {c : Char}
    (hc : c ∈ u.toList) : c ≠ '"' ∧ c ≠ ',' := by
  rcases mem_signature hnames hu hc with h | rfl | rfl
  · constructor <;> (rintro rfl; cases h)
  · decide
  · decide

theorem plainWord_of_mem_signature {w : String}
    (hw : w ∈ withCommas (signatureParts (name ++ "(") params)) : PlainWord w := by
  have hlast := getLast?_of_mem_withCommas hw
  have hchars : ∀ c ∈ w.toList, Token.isNameChar c = true ∨ c = '(' ∨ c = ')' ∨ c = ',' := by
    intro c hc
    obtain ⟨u, hu, rfl | rfl⟩ := mem_withCommas hw
    · rcases mem_signature hnames hu hc with h | h | h <;> simp [h]
    · rw [String.toList_append, List.mem_append] at hc
      rcases hc with hc | hc
      · rcases mem_signature hnames hu hc with h | h | h <;> simp [h]
      · exact .inr (.inr (.inr (List.mem_singleton.1 hc)))
  -- by its last character the word is neither empty nor `do` or `end`, even if a parameter is
  refine ⟨?_, fun c hc => ?_, ?_, ?_⟩
  · rintro rfl
    revert hlast
    decide
  · rcases hchars c hc with h | rfl | rfl | rfl
    · refine ⟨Token.not_isBlank_of_isNameChar h, ?_, ?_⟩ <;> (rintro rfl; cases h)
    · decide
    · decide
    · decide
  · rintro rfl
    revert hlast
    decide
  · rintro rfl
    revert hlast
    decide

/-- The line is read as a call of `fn`, with the parts of the signature and the words of the body as
arguments. -/
theorem parse_functionLine (hws : ∀ w ∈ ws, PlainWord w) (hne : ws ≠ []) :
    Program.parse (functionLine name params ws) =
      .ok [.call ⟨1, none⟩ "fn" (signatureParts (name ++ "(") params ++ ws.map withoutComma)] := by
  have hwords : withCommas (signatureParts (name ++ "(") params) ≠ [] :=
    withCommas_ne_nil (signatureParts_ne_nil _ _)
  have hline : functionLine name params ws =
      joinWords ("fn" :: (withCommas (signatureParts (name ++ "(") params) ++ ws)) := by
    rw [joinWords, String.intercalate_cons_of_ne_nil (by simp [hne]),
      String.intercalate_append_of_ne_nil hwords hne, ← joinWords, joinWords_withCommas,
      intercalate_signatureParts]
    simp [functionLine, signatureText, joinWords, String.append_assoc]
  rw [hline, Program.parse_joinWords _ rfl, List.map_append,
    map_withoutComma_withCommas fun u hu c hc => ne_of_mem_signature hnames hu hc]
  intro w hw
  rcases List.mem_cons.1 hw with rfl | hw
  · decide +kernel
  · rcases List.mem_append.1 hw with hw | hw
    · exact plainWord_of_mem_signature hnames hw
    · exact hws w hw

/-- The call defines a function with this signature and what is left of the body. -/
theorem runBody_functionCall (hws : ∀ w ∈ ws, PlainWord w)
    (hbody : joinWords (ws.map withoutComma) ≠ "") (room : Nat) (cx : Context) (m : Machine) :
    runBody (room + 1)
        [.call ⟨1, none⟩ "fn" (signatureParts (name ++ "(") params ++ ws.map withoutComma)] cx m =
      match m.library.define (signatureText name params) (joinWords (ws.map withoutComma)) with
      | .error e => .fault ⟨1, .formula e⟩ m
      | .ok (_, library) => .done { m with library := library } := by
  have hunquote : (signatureParts (name ++ "(") params ++ ws.map withoutComma).map unquote =
      signatureParts (name ++ "(") params ++ ws.map withoutComma := by
    refine (List.map_congr_left fun u hu => unquote_of_not_mem ?_).trans (List.map_id' _)
    rcases List.mem_append.1 hu with hu | hu
    · exact fun hq => (ne_of_mem_signature hnames hu hq).1 rfl
    · obtain ⟨w, hw, rfl⟩ := List.mem_map.1 hu
      exact fun hq => ((hws w hw).2.1 _ ((Program.withoutComma_isPrefix w).subset hq)).2.1 rfl
  have hdepth : 0 + roundDepth (name ++ "(") = 1 := by
    rw [roundDepth_append, roundDepth_of_nameText (hnames name (by simp))]
    rfl
  have hparams : ∀ p ∈ params, NameText p := fun p hp => hnames p (by simp [hp])
  have hsplit := splitSignature_signatureParts hdepth hparams (ws.map withoutComma)
  have hsignature : ", ".intercalate (signatureParts (name ++ "(") params) =
      signatureText name params := intercalate_signatureParts _ _
  have hfull : ((signatureText name params).isEmpty ||
      (joinWords (ws.map withoutComma)).isEmpty) = false := by
    simp [signatureText, hbody]
  have hfn : definesFunction "fn" = true := rfl
  simp only [runBody]
  rw [execute_call, Machine.call, if_pos hfn, Machine.defineFunction, hunquote, hsplit]
  dsimp only
  rw [hsignature, hfull, if_neg (by simp)]
  cases m.library.define (signatureText name params) (joinWords (ws.map withoutComma)) <;> rfl

/-- Where a signature and a body make a definition, the line of both is read, and makes it if no word of
the body ends with a comma. Otherwise it fails with an error about the formula and changes nothing. -/
theorem functionLine_defines (hws : ∀ w ∈ ws, PlainWord w) {m : Machine} {f : String} {lib : Library}
    (hdefine : m.library.define (signatureText name params) (joinWords ws) = .ok (f, lib)) :
    ∃ program, Program.parse (functionLine name params ws) = .ok program ∧
      ∀ room cx,
        ((∀ w ∈ ws, w.toList.getLast? ≠ some ',') →
          runBody (room + 1) program cx m = .done { m with library := lib }) ∧
        ((∃ w ∈ ws, w.toList.getLast? = some ',') →
          ∃ e, runBody (room + 1) program cx m = .fault ⟨1, .formula e⟩ m) := by
  have hbody := Library.body_ne_empty hdefine
  have hne : ws ≠ [] := by
    rintro rfl
    exact hbody rfl
  refine ⟨_, parse_functionLine hnames hws hne, fun room cx => ⟨fun hplain => ?_, fun hcomma => ?_⟩⟩
  · -- the body comes out as it was written
    have hkept : ws.map withoutComma = ws :=
      (List.map_congr_left fun w hw => Program.withoutComma_of_getLast (hplain w hw)).trans
        (List.map_id' ws)
    rw [runBody_functionCall hnames hws (by rwa [hkept]), hkept, hdefine]
  · have hquote : ∀ w ∈ ws, '"' ∉ w.toList := fun w hw hq => ((hws w hw).2.1 _ hq).2.1 rfl
    obtain ⟨hrest, e, he⟩ := Library.define_map_withoutComma hquote hdefine hcomma
    exact ⟨e, by rw [runBody_functionCall hnames hws hrest, he]⟩

end Lines

theorem nameText_sampleNames : ∀ s ∈ ["f", "a", "b"], NameText s := by
  intro s hs
  refine Text.forall_mem_of_all ?_
  revert s
  decide +kernel

theorem functionLine_defines_difference :
    ∃ f lib program, Library.empty.define "f(a, b)" "max(a,b) - a" = .ok (f, lib) ∧
      Program.parse "fn f(a, b) max(a,b) - a" = .ok program ∧
      (Machine.new {} .zeros).exec program = .done { Machine.new {} .zeros with library := lib } := by
  obtain ⟨⟨f, lib⟩, hdefine⟩ : ∃ r, (Machine.new {} .zeros).library.define (signatureText "f" ["a", "b"])
      (joinWords ["max(a,b)", "-", "a"]) = .ok r := ⟨_, rfl⟩
  obtain ⟨program, hparse, hrun⟩ :=
    functionLine_defines nameText_sampleNames (by decide +kernel) hdefine
  exact ⟨f, lib, program, hdefine, hparse, (hrun _ _).1 (by decide +kernel)⟩

/-- The words of `max(a, b)` lose the comma, and `max(a b)` is a call with one argument. -/
theorem functionLine_loses_comma :
    (∃ r, Library.empty.define "f(a, b)" "max(a, b)" = .ok r) ∧
      ∃ program, Program.parse "fn f(a, b) max(a, b)" = .ok program ∧
        (Machine.new {} .zeros).exec program =
          .fault ⟨1, .formula (.arity "max" 2 1)⟩ (Machine.new {} .zeros) := by
  have hline : functionLine "f" ["a", "b"] ["max(a,", "b)"] = "fn f(a, b) max(a, b)" := by
    decide +kernel
  have hwords : ∀ w ∈ ["max(a,", "b)"], PlainWord w := by decide +kernel
  rw [← hline]
  refine ⟨⟨_, rfl⟩, _, parse_functionLine nameText_sampleNames hwords (by simp), ?_⟩
  exact runBody_functionCall nameText_sampleNames hwords (by decide +kernel) _ .root
    (Machine.new {} .zeros)

end TurtleGraphics
