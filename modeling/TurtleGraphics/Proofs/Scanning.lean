import TurtleGraphics.Formula.Token
import TurtleGraphics.Proofs.Fields

/-!
# TurtleGraphics.Proofs.Scanning

Where a text can be cut without changing its tokens. A token takes characters as long as they can belong
to it, so what follows a text has no part in the text's last token if it starts with a character that
only begins tokens or is skipped (`Token.Breaks`), as blanks and commas do. Then the tokens of both texts
are scanned one after the other (`Token.scan_append`). So blanks between two texts separate their tokens
(`Token.scan_separated`), and blanks at the ends of a text change nothing (`Token.scan_trim`).
-/

namespace TurtleGraphics
namespace Formula

/-! ## Characters inside tokens -/

/-- The characters that can stand in a token behind its first one. -/
def Token.continues (c : Char) : Bool :=
  isNameChar c || c == '.' || c == '=' || c == '&' || c == '|' || c == '/'

/-- No token in front goes on into the text. -/
def Token.Breaks (cs : List Char) : Prop :=
  ∀ c, cs.head? = some c → continues c = false

section Parts

variable {p : Char → Bool} {b : List Char} (hb : ∀ c, b.head? = some c → p c = false)

include hb

theorem takeWhile_append_of_head (a : List Char) : (a ++ b).takeWhile p = a.takeWhile p := by
  induction a with
  | nil =>
    cases b with
    | nil => rfl
    | cons c b => simp [hb c rfl]
  | cons c a ih =>
    cases hc : p c with
    | true => simp [hc, ih]
    | false => simp [hc]

theorem dropWhile_append_of_head (a : List Char) : (a ++ b).dropWhile p = a.dropWhile p ++ b := by
  induction a with
  | nil =>
    cases b with
    | nil => rfl
    | cons c b => simp [hb c rfl]
  | cons c a ih =>
    cases hc : p c with
    | true => simp [hc, ih]
    | false => simp [hc]

/-- A text that is all of one class is a prefix of the longer text only if it was one before. -/
theorem isPrefixOf_append_of_head {s : List Char} (hs : ∀ c ∈ s, p c = true) (a : List Char) :
    s.isPrefixOf (a ++ b) = s.isPrefixOf a := by
  induction s generalizing a with
  | nil => simp
  | cons x s ih =>
    cases a with
    | nil =>
      cases b with
      | nil => rfl
      | cons c b =>
        have hne : x ≠ c := by
          rintro rfl
          have := hs x (by simp)
          rw [hb x rfl] at this
          cases this
        simp [List.isPrefixOf, hne]
    | cons c a => simp [List.isPrefixOf, ih (fun c hc => hs c (by simp [hc])) a]

end Parts

namespace Token

variable {b : List Char}

theorem Breaks.not_nameChar (hb : Breaks b) (c : Char) (hc : b.head? = some c) :
    isNameChar c = false := by
  have := hb c hc
  simp only [continues, Bool.or_eq_false_iff] at this
  exact this.1.1.1.1.1

theorem Breaks.not_digit (hb : Breaks b) (c : Char) (hc : b.head? = some c) : c.isDigit = false := by
  have := hb.not_nameChar c hc
  simp only [isNameChar, Char.isAlphanum, Bool.or_eq_false_iff] at this
  exact this.1.2

theorem breaks_comma (cs : List Char) : Breaks (',' :: cs) := by
  rintro c ⟨⟩
  rfl

theorem not_isBlank_of_isNameChar {c : Char} (h : isNameChar c = true) : Text.isBlank c = false := by
  have hclasses : isNameChar c = (((decide (65 ≤ c.val ∧ c.val ≤ 90) ||
      decide (97 ≤ c.val) && decide (c.val ≤ 122)) ||
      decide (48 ≤ c.val) && decide (c.val ≤ 57)) || c == '_') := rfl
  have hrange : 48 ≤ c.toNat ∧ c.toNat ≤ 122 := by
    simp only [hclasses, Bool.or_eq_true, Bool.and_eq_true, decide_eq_true_eq, beq_iff_eq,
      UInt32.le_iff_toNat_le] at h
    rcases h with ((h | h) | h) | rfl
    · exact ⟨Nat.le_trans (by decide) h.1, Nat.le_trans h.2 (by decide)⟩
    · exact ⟨Nat.le_trans (by decide) h.1, h.2⟩
    · exact ⟨h.1, Nat.le_trans h.2 (by decide)⟩
    · decide
  simp only [Text.isBlank, Bool.or_eq_false_iff, Bool.and_eq_false_iff, decide_eq_false_iff_not,
    beq_eq_false_iff_ne]
  omega

/-- No blank stands inside a token. -/
theorem not_isBlank_of_continues {c : Char} (h : continues c = true) : Text.isBlank c = false := by
  simp only [continues, Bool.or_eq_true, beq_iff_eq] at h
  rcases h with ((((h | rfl) | rfl) | rfl) | rfl) | rfl
  · exact not_isBlank_of_isNameChar h
  all_goals rfl

theorem breaks_blank {c : Char} (hc : Text.isBlank c = true) (cs : List Char) : Breaks (c :: cs) := by
  rintro x ⟨⟩
  cases hx : continues c with
  | false => rfl
  | true =>
    rw [not_isBlank_of_continues hx] at hc
    cases hc

/-! ## The token at the front -/

theorem numberAtFront?_append (hb : Breaks b) (a : List Char) :
    numberAtFront? (a ++ b) = numberAtFront? a := by
  unfold numberAtFront?
  rw [takeWhile_append_of_head hb.not_digit, dropWhile_append_of_head hb.not_digit]
  cases hrest : a.dropWhile Char.isDigit with
  | nil =>
    cases b with
    | nil => rfl
    | cons c b =>
      have hpoint : c ≠ '.' := by
        rintro rfl
        have := hb '.' rfl
        cases this
      simp [hpoint]
  | cons c rest =>
    by_cases hc : c = '.'
    · subst hc
      simp only [List.cons_append, takeWhile_append_of_head hb.not_digit]
    · simp [hc]

theorem symbolAtFront?_append (hb : Breaks b) (c : Char) (cs : List Char) :
    Symbol.atFront? (c :: (cs ++ b)) = Symbol.atFront? (c :: cs) := by
  have htail : ∀ symbol : Symbol, symbol.chars.tail.all continues = true := by
    intro symbol
    cases symbol <;> rfl
  have hchars : ∀ symbol : Symbol,
      symbol.chars.isPrefixOf (c :: (cs ++ b)) = symbol.chars.isPrefixOf (c :: cs) := by
    intro symbol
    have hall := List.all_eq_true.1 (htail symbol)
    generalize symbol.chars = s at hall
    cases s with
    | nil => rfl
    | cons x s =>
      rw [List.tail_cons] at hall
      simp only [List.isPrefixOf, isPrefixOf_append_of_head hb hall cs]
  simp only [Symbol.atFront?, hchars]

/-- What follows a break is not looked at. -/
theorem atFront_append (hb : Breaks b) (c : Char) (cs : List Char) :
    atFront c (cs ++ b) = atFront c cs := by
  have hnumber := numberAtFront?_append hb (c :: cs)
  rw [List.cons_append] at hnumber
  unfold atFront
  rw [hnumber, takeWhile_append_of_head hb.not_nameChar, symbolAtFront?_append hb]

theorem length_numberAtFront? {cs lexeme : List Char} (h : numberAtFront? cs = some lexeme) :
    lexeme.length ≤ cs.length := by
  have hcs := List.takeWhile_append_dropWhile (p := Char.isDigit) (l := cs)
  have hlength := congrArg List.length hcs
  rw [List.length_append] at hlength
  unfold numberAtFront? at h
  dsimp only at h
  split at h
  · rename_i rest hrest
    rw [hrest, List.length_cons] at hlength
    split at h
    · split at h
      · cases h
      · cases h
        omega
    · cases h
      have hfraction := (List.takeWhile_prefix Char.isDigit (l := rest)).length_le
      simp only [List.length_append, List.length_cons]
      omega
  · split at h
    · cases h
    · cases h
      omega

theorem length_atFront {c : Char} {cs : List Char} {token : Token} {n : Nat}
    (h : atFront c cs = .ok (token, n)) : n ≤ cs.length := by
  unfold atFront at h
  split at h
  · split at h
    · rename_i lexeme hlexeme
      have := length_numberAtFront? hlexeme
      cases h
      rw [List.length_cons] at this
      omega
    · cases h
  · split at h
    · cases h
      exact (List.takeWhile_prefix isNameChar).length_le
    · split at h
      · cases h
        exact Nat.zero_le _
      · cases h
        exact Nat.zero_le _
      · split at h
        · cases h
          exact Nat.zero_le _
        · split at h
          · rename_i symbol hsymbol
            cases h
            have hfits := List.find?_some hsymbol
            have := (List.isPrefixOf_iff_prefix.1 hfits).length_le
            rw [List.length_cons] at this
            omega
          · cases h

/-! ## Tokens one after the other -/

/-- Two results of scanning, one after the other. -/
def follow (r s : Except Error (List Token)) : Except Error (List Token) :=
  match r with
  | .error e => .error e
  | .ok xs =>
    match s with
    | .error e => .error e
    | .ok ys => .ok (xs ++ ys)

theorem follow_nil_left (r : Except Error (List Token)) : follow (.ok []) r = r := by
  cases r <;> rfl

theorem follow_nil_right (r : Except Error (List Token)) : follow r (.ok []) = r := by
  cases r with
  | error e => rfl
  | ok xs => simp [follow]

theorem follow_eq_ok {r s : Except Error (List Token)} {ts : List Token}
    (h : follow r s = .ok ts) : ∃ xs ys, r = .ok xs ∧ s = .ok ys ∧ ts = xs ++ ys := by
  cases r with
  | error e => cases h
  | ok xs =>
    cases s with
    | error e => cases h
    | ok ys =>
      cases h
      exact ⟨xs, ys, rfl, rfl, rfl⟩

theorem scan_blank {c : Char} (hc : Text.isBlank c = true) (cs : List Char) :
    scan (c :: cs) = scan cs := by
  rw [scan, scanFrom, if_pos hc, scan]

theorem scan_token {c : Char} (hc : Text.isBlank c = false) (cs : List Char) :
    scan (c :: cs) =
      match atFront c cs with
      | .error e => .error e
      | .ok (token, n) => follow (.ok [token]) (scan (cs.drop n)) := by
  rw [scan, scanFrom, if_neg (by simp [hc])]
  cases atFront c cs with
  | error e => rfl
  | ok found =>
    obtain ⟨token, n⟩ := found
    dsimp only
    rw [scanFrom_eq_drop, ← scan]
    cases scan (cs.drop n) <;> rfl

theorem follow_assoc (r s t : Except Error (List Token)) :
    follow (follow r s) t = follow r (follow s t) := by
  cases r with
  | error e => rfl
  | ok xs =>
    cases s with
    | error e => rfl
    | ok ys =>
      cases t with
      | error e => rfl
      | ok zs => simp [follow]

/-- A text and one that no token of it goes on into are scanned one after the other. -/
theorem scan_append (hb : Breaks b) (a : List Char) : scan (a ++ b) = follow (scan a) (scan b) := by
  -- a token takes several characters, so the induction is on the length of the text
  induction hn : a.length using Nat.strongRecOn generalizing a with
  | _ n ih =>
    cases a with
    | nil => exact (follow_nil_left _).symm
    | cons c a =>
      subst hn
      cases hc : Text.isBlank c with
      | true =>
        rw [List.cons_append, scan_blank hc, scan_blank hc]
        exact ih a.length (by simp) a rfl
      | false =>
        rw [List.cons_append, scan_token hc, scan_token hc, atFront_append hb]
        cases hfront : atFront c a with
        | error e => rfl
        | ok found =>
          obtain ⟨token, n⟩ := found
          have hn := length_atFront hfront
          have hshorter : (a.drop n).length < (c :: a).length := by
            rw [List.length_drop, List.length_cons]
            omega
          dsimp only
          rw [List.drop_append_of_le_length hn, follow_assoc, ih _ hshorter (a.drop n) rfl]

theorem scan_comma : scan [','] = .ok [.comma] := by
  rw [scan_token (by decide)]
  rfl

/-! ## Blanks -/

section Blanks

variable {w : List Char} (hw : ∀ c ∈ w, Text.isBlank c = true)

include hw

theorem scan_blanks_append (b : List Char) : scan (w ++ b) = scan b := by
  induction w with
  | nil => rfl
  | cons c w ih =>
    rw [List.cons_append, scan_blank (hw c (by simp))]
    exact ih fun x hx => hw x (by simp [hx])

theorem scan_around_blanks (hne : w ≠ []) (a b : List Char) :
    scan (a ++ (w ++ b)) = follow (scan a) (scan b) := by
  obtain ⟨c, w', rfl⟩ := List.exists_cons_of_ne_nil hne
  have hbreaks : Breaks (c :: w' ++ b) := breaks_blank (hw c (by simp)) (w' ++ b)
  rw [scan_append hbreaks, scan_blanks_append hw]

theorem scan_append_blanks (a : List Char) : scan (a ++ w) = scan a := by
  by_cases hne : w = []
  · rw [hne, List.append_nil]
  · have hscan := scan_around_blanks hw hne a []
    rw [List.append_nil] at hscan
    exact hscan.trans (follow_nil_right _)

/-- Blanks between two texts separate their tokens. Each text is scanned as if it stood alone, and if
both are wrong, the error is that of the first. -/
theorem scan_separated (hne : w ≠ []) (a b : List Char) :
    (∀ xs ys, scan a = .ok xs → scan b = .ok ys → scan (a ++ w ++ b) = .ok (xs ++ ys)) ∧
      (∀ e, scan a = .error e → scan (a ++ w ++ b) = .error e) ∧
      (∀ xs e, scan a = .ok xs → scan b = .error e → scan (a ++ w ++ b) = .error e) := by
  rw [List.append_assoc, scan_around_blanks hw hne]
  refine ⟨fun xs ys ha hb => ?_, fun e ha => ?_, fun xs e ha hb => ?_⟩
  · rw [ha, hb]
    rfl
  · rw [ha]
    rfl
  · rw [ha, hb]
    rfl

end Blanks

/-- No symbol goes on behind blanks, and what follows them does not supply the digits that a point
lacks. -/
theorem scan_separated_samples :
    scan ("x>".toList ++ ['\t', ' '] ++ "==y".toList) =
        .ok [.ident "x", .op .greater, .op .doubleEqual, .ident "y"] ∧
      scan ("3.".toList ++ ['\t', ' '] ++ "5 = 5".toList) = .error (.unexpectedChar '.') ∧
      scan ("x<".toList ++ ['\t', ' '] ++ "=y".toList) = .error (.unexpectedChar '=') := by
  have hw : ∀ c ∈ ['\t', ' '], Text.isBlank c = true := List.all_eq_true.1 rfl
  refine ⟨?_, ?_, ?_⟩
  · exact (scan_separated hw (by simp) _ _).1 [.ident "x", .op .greater]
      [.op .doubleEqual, .ident "y"] rfl rfl
  · exact (scan_separated hw (by simp) _ _).2.1 _ rfl
  · exact (scan_separated hw (by simp) _ _).2.2 [.ident "x", .op .less] _ rfl rfl

theorem scan_trim (cs : List Char) : scan (Text.trim cs) = scan cs := by
  obtain ⟨front, hfront, hcs⟩ := Text.exists_trimStart cs
  obtain ⟨back, hback, hstart⟩ := Text.exists_trimEnd (Text.trimStart cs)
  conv => rhs; rw [← hcs, ← hstart, scan_blanks_append hfront, scan_append_blanks hback]
  rfl

end Token
end Formula
end TurtleGraphics
