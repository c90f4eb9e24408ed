import TurtleGraphics.Proofs.Scanning

/-!
# TurtleGraphics.Proofs.LongestMatch

A scanned text is its tokens and blanks, and nothing else. Each token is read from a lexeme, which is the
longest one of the token's class where it starts (`Token.IsLongest`). So numbers take all digits and a
point that digits follow, names take all letters, and of the symbols, which are tried in the order of a
table, none that fits is longer than the one taken. Lexemes follow each other with only blanks in between
(`Token.Lexing`), up to the end of the text or to a character with which no lexeme starts
(`Token.scan_reads`).
-/

namespace TurtleGraphics
namespace Formula

/-! ## Symbols and brackets -/

theorem Symbol.mem_all (symbol : Symbol) : symbol ∈ all := by
  cases symbol <;> decide

/-- No symbol of the table is longer than one before it. -/
theorem Symbol.descending_all : all.Pairwise fun a b => b.chars.length ≤ a.chars.length := by
  decide

theorem Bracket.eq_openingChar {c : Char} {bracket : Bracket} (h : ofOpening? c = some bracket) :
    c = bracket.openingChar := by
  unfold ofOpening? at h
  split at h <;> cases h <;> rfl

theorem Bracket.eq_closingChar {c : Char} {bracket : Bracket} (h : ofClosing? c = some bracket) :
    c = bracket.closingChar := by
  unfold ofClosing? at h
  split at h <;> cases h <;> rfl

namespace Token

/-! ## Lexemes -/

def IsDigits (l : List Char) : Prop :=
  l ≠ [] ∧ ∀ c ∈ l, c.isDigit = true

/-- Digits, digits with a fraction, or a fraction alone. -/
inductive IsNumeral : List Char → Prop where
  | whole {digits : List Char} : IsDigits digits → IsNumeral digits
  | fraction {whole digits : List Char} : (∀ c ∈ whole, c.isDigit = true) → IsDigits digits →
      IsNumeral (whole ++ '.' :: digits)

/-- A letter, and behind it letters, digits and underscores. -/
inductive IsName : List Char → Prop where
  | mk {c : Char} {tail : List Char} : c.isAlpha = true → (∀ x ∈ tail, isNameChar x = true) →
      IsName (c :: tail)

/-- The lexemes of the class of a token. -/
def InClass : Token → List Char → Prop
  | num _ => IsNumeral
  | ident _ => IsName
  | op _ => fun l => ∃ symbol : Symbol, l = symbol.chars
  | opening _ => fun l => ∃ bracket : Bracket, l = [bracket.openingChar]
  | closing _ => fun l => ∃ bracket : Bracket, l = [bracket.closingChar]
  | comma => fun l => l = [',']

/-- A number has the value of its lexeme, and every other token is written as its lexeme is. -/
def Spelled : Token → List Char → Prop
  | num value, l => value = Number.ofDecimal l
  | token, l => token.text.toList = l

/-- The lexeme is the longest of a class with which the text starts. -/
structure IsLongest (P : List Char → Prop) (l cs : List Char) : Prop where
  inClass : P l
  isPrefix : l <+: cs
  longest : ∀ l', P l' → l' <+: cs → l'.length ≤ l.length

/-- In a shorter text there are no longer lexemes. -/
theorem IsLongest.mono {P : List Char → Prop} {l cs ds : List Char} (h : IsLongest P l ds)
    (hl : l <+: cs) (hcs : cs <+: ds) : IsLongest P l cs :=
  ⟨h.inClass, hl, fun l' hl' hpre => h.longest l' hl' (hpre.trans hcs)⟩

/-- A text is the lexeme at its front and what is left when it is skipped. -/
theorem IsLongest.append_drop {P : List Char → Prop} {l : List Char} {c : Char} {cs : List Char} {n : Nat}
    (h : IsLongest P l (c :: cs)) (hn : l.length = n + 1) : l ++ cs.drop n = c :: cs := by
  obtain ⟨rest, hrest⟩ := h.isPrefix
  have hdrop : (c :: cs).drop (n + 1) = rest := by rw [← hrest, ← hn, List.drop_left]
  rw [List.drop_succ_cons] at hdrop
  rw [hdrop, hrest]

theorem IsNumeral.ne_nil {l : List Char} (h : IsNumeral l) : l ≠ [] := by
  cases h with
  | whole hdigits => exact hdigits.1
  | fraction => simp

theorem IsNumeral.digit_or_point {l : List Char} (h : IsNumeral l) :
    ∀ c ∈ l, c.isDigit = true ∨ c = '.' := by
  intro c hc
  cases h with
  | whole hdigits => exact .inl (hdigits.2 c hc)
  | fraction hwhole hdigits =>
    rcases List.mem_append.1 hc with hc | hc
    · exact .inl (hwhole c hc)
    · rcases List.mem_cons.1 hc with rfl | hc
      · exact .inr rfl
      · exact .inl (hdigits.2 c hc)

theorem IsName.nameChar {l : List Char} (h : IsName l) : ∀ c ∈ l, isNameChar c = true := by
  obtain ⟨hfirst, htail⟩ := h
  refine List.forall_mem_cons.2 ⟨?_, htail⟩
  simp [isNameChar, Char.isAlphanum, hfirst]

/-- No lexeme has a blank in it. -/
theorem InClass.not_isBlank {token : Token} {l : List Char} (h : token.InClass l) :
    ∀ c ∈ l, Text.isBlank c = false := by
  cases token with
  | num value =>
    intro c hc
    rcases IsNumeral.digit_or_point h c hc with hdigit | rfl
    · exact not_isBlank_of_isNameChar (by simp [isNameChar, Char.isAlphanum, hdigit])
    · rfl
  | ident name => exact fun c hc => not_isBlank_of_isNameChar (IsName.nameChar h c hc)
  | op symbol =>
    obtain ⟨symbol, rfl⟩ := h
    have hall : (symbol.chars.all fun c => !Text.isBlank c) = true := by cases symbol <;> rfl
    simpa using hall
  | opening bracket =>
    obtain ⟨bracket, rfl⟩ := h
    cases bracket <;> exact List.forall_mem_singleton.2 rfl
  | closing bracket =>
    obtain ⟨bracket, rfl⟩ := h
    cases bracket <;> exact List.forall_mem_singleton.2 rfl
  | comma =>
    cases h
    exact List.forall_mem_singleton.2 rfl

/-! ## Numbers -/

theorem prefix_takeWhile {p : Char → Bool} {l cs : List Char} (h : l <+: cs)
    (hl : ∀ c ∈ l, p c = true) : l <+: cs.takeWhile p := by
  obtain ⟨rest, rfl⟩ := h
  rw [List.takeWhile_append_of_pos hl]
  exact List.prefix_append _ _

/-- No fraction follows the digits at the front. -/
def NoFraction (cs : List Char) : Prop :=
  ∀ rest, cs.dropWhile Char.isDigit = '.' :: rest → rest.takeWhile Char.isDigit = []

theorem numberAtFront?_cases (cs : List Char) :
    NoFraction cs ∧ numberAtFront? cs =
        (if (cs.takeWhile Char.isDigit).isEmpty then none else some (cs.takeWhile Char.isDigit)) ∨
      ∃ rest, cs.dropWhile Char.isDigit = '.' :: rest ∧ rest.takeWhile Char.isDigit ≠ [] ∧
        numberAtFront? cs = some (cs.takeWhile Char.isDigit ++ '.' :: rest.takeWhile Char.isDigit) := by
  unfold numberAtFront?
  dsimp only
  cases hrest : cs.dropWhile Char.isDigit with
  | nil =>
    refine .inl ⟨fun rest h => ?_, rfl⟩
    rw [hrest] at h
    cases h
  | cons c rest =>
    by_cases hc : c = '.'
    · subst hc
      cases hdigits : rest.takeWhile Char.isDigit with
      | nil =>
        refine .inl ⟨fun rest' h => ?_, by simp only [hdigits]⟩
        rw [hrest] at h
        cases h
        exact hdigits
      | cons d digits =>
        refine .inr ⟨rest, rfl, ?_, by simp only [hdigits]⟩
        rw [hdigits]
        exact List.cons_ne_nil d digits
    · refine .inl ⟨fun rest' h => ?_, by simp [hc]⟩
      rw [hrest] at h
      exact absurd (List.cons.inj h).1 hc

/-- A numeral at the front has no more than the digits there, or all of them, a point and digits. -/
theorem IsNumeral.prefix_cases {l cs : List Char} (hl : IsNumeral l) (h : l <+: cs) :
    l <+: cs.takeWhile Char.isDigit ∨
      ∃ rest digits, cs.dropWhile Char.isDigit = '.' :: rest ∧ IsDigits digits ∧
        digits <+: rest.takeWhile Char.isDigit ∧
        l = cs.takeWhile Char.isDigit ++ '.' :: digits := by
  cases hl with
  | whole hdigits => exact .inl (prefix_takeWhile h hdigits.2)
  | @fraction whole digits hwhole hdigits =>
    obtain ⟨rest, rfl⟩ := h
    have htake : (whole ++ '.' :: digits ++ rest).takeWhile Char.isDigit = whole := by
      rw [List.append_assoc, List.takeWhile_append_of_pos hwhole]
      simp
    have hdrop : (whole ++ '.' :: digits ++ rest).dropWhile Char.isDigit = '.' :: (digits ++ rest) := by
      rw [List.append_assoc, List.dropWhile_append_of_pos hwhole]
      simp
    exact .inr ⟨digits ++ rest, digits, hdrop, hdigits,
      prefix_takeWhile (List.prefix_append _ _) hdigits.2, by rw [htake]⟩

theorem NoFraction.prefix_takeWhile {l cs : List Char} (h : NoFraction cs) (hl : IsNumeral l)
    (hpre : l <+: cs) : l <+: cs.takeWhile Char.isDigit := by
  rcases hl.prefix_cases hpre with hwhole | ⟨rest, digits, hrest, hdigits, hfits, -⟩
  · exact hwhole
  · rw [h rest hrest] at hfits
    exact absurd (List.prefix_nil.1 hfits) hdigits.1

theorem isLongest_numberAtFront? {l cs : List Char} (h : numberAtFront? cs = some l) :
    IsLongest IsNumeral l cs := by
  have hdigits : ∀ cs : List Char, ∀ c ∈ cs.takeWhile Char.isDigit, c.isDigit = true :=
    fun _ => List.all_eq_true.1 List.all_takeWhile
  rcases numberAtFront?_cases cs with ⟨hno, hfront⟩ | ⟨rest, hrest, hne, hfront⟩
  · rw [h] at hfront
    split at hfront
    · cases hfront
    · rename_i hne
      cases hfront
      exact ⟨.whole ⟨by simpa using hne, hdigits cs⟩, List.takeWhile_prefix _,
        fun l' hl' hpre => (hno.prefix_takeWhile hl' hpre).length_le⟩
  · rw [h] at hfront
    cases hfront
    refine ⟨.fraction (hdigits cs) ⟨hne, hdigits rest⟩, ?_, fun l' hl' hpre => ?_⟩
    · have hcs := List.takeWhile_append_dropWhile (p := Char.isDigit) (l := cs)
      rw [hrest] at hcs
      conv => rhs; rw [← hcs]
      exact (List.prefix_append_right_inj _).2
        (List.cons_prefix_cons.2 ⟨rfl, List.takeWhile_prefix _⟩)
    · rcases hl'.prefix_cases hpre with hwhole | ⟨rest', digits, hrest', -, hfits, rfl⟩
      · have hle := hwhole.length_le
        rw [List.length_append]
        omega
      · rw [hrest] at hrest'
        cases hrest'
        have hle := hfits.length_le
        simp only [List.length_append, List.length_cons]
        omega

theorem not_prefix_of_numberAtFront? {l cs : List Char} (h : numberAtFront? cs = none)
    (hl : IsNumeral l) : ¬l <+: cs := by
  intro hpre
  rcases numberAtFront?_cases cs with ⟨hno, hfront⟩ | ⟨rest, -, -, hfront⟩
  · rw [h] at hfront
    split at hfront
    · rename_i hempty
      have hfits := hno.prefix_takeWhile hl hpre
      rw [List.isEmpty_iff.1 hempty] at hfits
      exact hl.ne_nil (List.prefix_nil.1 hfits)
    · cases hfront
  · rw [h] at hfront
    cases hfront

/-! ## Names and symbols -/

theorem isLongest_name {c : Char} (hc : c.isAlpha = true) (cs : List Char) :
    IsLongest IsName (c :: cs.takeWhile isNameChar) (c :: cs) := by
  refine ⟨.mk hc (List.all_eq_true.1 List.all_takeWhile),
    List.cons_prefix_cons.2 ⟨rfl, List.takeWhile_prefix _⟩, ?_⟩
  rintro _ ⟨-, htail⟩ hpre
  exact Nat.succ_le_succ (prefix_takeWhile (List.cons_prefix_cons.1 hpre).2 htail).length_le

theorem isLongest_symbol {cs : List Char} {symbol : Symbol} (h : Symbol.atFront? cs = some symbol) :
    IsLongest (fun l => ∃ symbol : Symbol, l = symbol.chars) symbol.chars cs := by
  obtain ⟨hfits, before, after, hall, hbefore⟩ := List.find?_eq_some_iff_append.1 h
  refine ⟨⟨symbol, rfl⟩, List.isPrefixOf_iff_prefix.1 hfits, ?_⟩
  rintro _ ⟨other, rfl⟩ hpre
  have hmem := Symbol.mem_all other
  have hsorted := Symbol.descending_all
  rw [hall] at hmem hsorted
  rcases List.mem_append.1 hmem with hmem | hmem
  · -- what stands before in the table was tried, and does not fit
    have hnot := hbefore other hmem
    rw [List.isPrefixOf_iff_prefix.2 hpre] at hnot
    cases hnot
  · rcases List.mem_cons.1 hmem with rfl | hmem
    · exact Nat.le_refl _
    · exact (List.pairwise_cons.1 (List.pairwise_append.1 hsorted).2.1).1 other hmem

/-! ## The lexeme at the front -/

/-- A lexeme of a class whose lexemes are single characters. -/
theorem isLongest_single {P : List Char → Prop} {c : Char} (h : P [c])
    (hshort : ∀ l, P l → l.length = 1) (cs : List Char) : IsLongest P [c] (c :: cs) :=
  ⟨h, List.cons_prefix_cons.2 ⟨rfl, List.nil_prefix⟩, fun l hl _ => Nat.le_of_eq (hshort l hl)⟩

theorem isLongest_bracket (char : Bracket → Char) (bracket : Bracket) (cs : List Char) :
    IsLongest (fun l => ∃ bracket, l = [char bracket]) [char bracket] (char bracket :: cs) := by
  refine isLongest_single ⟨bracket, rfl⟩ ?_ cs
  rintro _ ⟨other, rfl⟩
  rfl

theorem isLongest_comma (cs : List Char) : IsLongest comma.InClass [','] (',' :: cs) := by
  refine @isLongest_single comma.InClass ',' rfl ?_ cs
  rintro _ rfl
  rfl

/-- If no lexeme starts here for each of the classes, none does. -/
theorem not_prefix_of_classes {c : Char} {cs : List Char}
    (hnumeral : ∀ l, IsNumeral l → ¬l <+: c :: cs) (hname : c.isAlpha = false)
    (hopening : Bracket.ofOpening? c = none) (hclosing : Bracket.ofClosing? c = none)
    (hcomma : c ≠ ',') (hsymbol : Symbol.atFront? (c :: cs) = none)
    (token : Token) {l : List Char} (h : token.InClass l) : ¬l <+: c :: cs := by
  intro hpre
  cases token with
  | num value => exact hnumeral l h hpre
  | ident name =>
    obtain ⟨hfirst, -⟩ := h
    rw [(List.cons_prefix_cons.1 hpre).1, hname] at hfirst
    cases hfirst
  | op symbol =>
    obtain ⟨symbol, rfl⟩ := h
    exact List.find?_eq_none.1 hsymbol symbol (Symbol.mem_all symbol)
      (List.isPrefixOf_iff_prefix.2 hpre)
  | opening bracket =>
    obtain ⟨bracket, rfl⟩ := h
    rw [← (List.cons_prefix_cons.1 hpre).1] at hopening
    cases bracket <;> cases hopening
  | closing bracket =>
    obtain ⟨bracket, rfl⟩ := h
    rw [← (List.cons_prefix_cons.1 hpre).1] at hclosing
    cases bracket <;> cases hclosing
  | comma =>
    cases h
    exact hcomma (List.cons_prefix_cons.1 hpre).1.symm

/-- What is read at the front: the longest lexeme of a class, or nothing where no lexeme starts. -/
def ReadsFront (c : Char) (cs : List Char) : Except Error (Token × Nat) → Prop
  | .ok (token, n) => ∃ l, IsLongest token.InClass l (c :: cs) ∧ token.Spelled l ∧ l.length = n + 1
  | .error e => e = .unexpectedChar c ∧ ∀ (token : Token) l, token.InClass l → ¬l <+: c :: cs

theorem readsFront_atFront (c : Char) (cs : List Char) : ReadsFront c cs (atFront c cs) := by
  unfold atFront
  split
  · rename_i hc
    split
    · rename_i l hl
      have hlong := isLongest_numberAtFront? hl
      exact ⟨l, hlong, rfl, (Nat.succ_pred (by simpa using hlong.inClass.ne_nil)).symm⟩
    · rename_i hnone
      have hnumeral : ∀ l, IsNumeral l → ¬l <+: c :: cs := fun _ => not_prefix_of_numberAtFront? hnone
      -- a digit would be a numeral, so this is a point
      obtain rfl : c = '.' := by
        rcases Bool.or_eq_true_iff.1 hc with hdigit | hpoint
        · exact absurd ⟨cs, rfl⟩ (hnumeral [c] (.whole ⟨by simp, by simpa using hdigit⟩))
        · simpa using hpoint
      exact ⟨rfl, fun token l => not_prefix_of_classes hnumeral rfl rfl rfl (by decide) rfl token⟩
  · rename_i hc
    have hnumeral : ∀ l, IsNumeral l → ¬l <+: c :: cs := by
      rintro (_ | ⟨d, l⟩) hl hpre
      · exact hl.ne_nil rfl
      · obtain ⟨rfl, -⟩ := List.cons_prefix_cons.1 hpre
        exact hc (by simpa using hl.digit_or_point d (by simp))
    split
    · rename_i hname
      exact ⟨_, isLongest_name hname cs, String.toList_ofList, rfl⟩
    · rename_i hname
      split
      · rename_i bracket hbracket
        obtain rfl := Bracket.eq_openingChar hbracket
        exact ⟨_, isLongest_bracket Bracket.openingChar bracket cs, by simp [Spelled, text], rfl⟩
      · rename_i bracket _ hbracket
        obtain rfl := Bracket.eq_closingChar hbracket
        exact ⟨_, isLongest_bracket Bracket.closingChar bracket cs, by simp [Spelled, text], rfl⟩
      · rename_i hopening hclosing
        split
        · rename_i hcomma
          obtain rfl : c = ',' := by simpa using hcomma
          exact ⟨_, isLongest_comma cs, rfl, rfl⟩
        · rename_i hcomma
          split
          · rename_i symbol hsymbol
            refine ⟨symbol.chars, isLongest_symbol hsymbol, String.toList_ofList, ?_⟩
            cases symbol <;> rfl
          · rename_i hsymbol
            exact ⟨rfl, fun token l => not_prefix_of_classes hnumeral (by simpa using hname) hopening
              hclosing (by simpa using hcomma) hsymbol token⟩

/-! ## The whole text -/

/-- The characters of a text that are not blank. -/
def solid (cs : List Char) : List Char :=
  cs.filter fun c => !Text.isBlank c

/-- The tokens of a text and their lexemes. The lexemes have all characters that are not blank, in order.
What is in front of a lexeme are those before it and blanks, and no lexeme of its token's class that
starts at the same place is longer. -/
structure Lexing (cs : List Char) (tokens : List Token) (lexemes : List (List Char)) : Prop where
  length : lexemes.length = tokens.length
  whole : solid cs = lexemes.flatten
  unbroken : ∀ l ∈ lexemes, ∀ c ∈ l, Text.isBlank c = false
  spelled : ∀ (i : Nat) (token : Token) (l : List Char), tokens[i]? = some token →
    lexemes[i]? = some l → token.Spelled l
  longest : ∀ (i : Nat) (token : Token) (l : List Char), tokens[i]? = some token →
    lexemes[i]? = some l → ∃ front rest, cs = front ++ rest ∧
      solid front = (lexemes.take i).flatten ∧ IsLongest token.InClass l rest

theorem solid_append (a b : List Char) : solid (a ++ b) = solid a ++ solid b :=
  List.filter_append ..

theorem solid_blank {c : Char} (hc : Text.isBlank c = true) (cs : List Char) :
    solid (c :: cs) = solid cs := by
  simp [solid, hc]

theorem solid_of_inClass {token : Token} {l : List Char} (h : token.InClass l) : solid l = l := by
  refine List.filter_eq_self.2 fun c hc => ?_
  simp [h.not_isBlank c hc]

namespace Lexing

variable {cs : List Char} {tokens : List Token} {lexemes : List (List Char)}

theorem nil : Lexing [] [] [] :=
  ⟨rfl, rfl, by simp, by simp, by simp⟩

theorem blank (h : Lexing cs tokens lexemes) {c : Char} (hc : Text.isBlank c = true) :
    Lexing (c :: cs) tokens lexemes := by
  refine ⟨h.length, by rw [solid_blank hc, h.whole], h.unbroken, h.spelled, ?_⟩
  intro i token l htoken hl
  obtain ⟨front, rest, rfl, hfront, hlong⟩ := h.longest i token l htoken hl
  exact ⟨c :: front, rest, rfl, by rw [solid_blank hc, hfront], hlong⟩

theorem cons (h : Lexing cs tokens lexemes) {token : Token} {l : List Char}
    (hlong : IsLongest token.InClass l (l ++ cs)) (hspelled : token.Spelled l) :
    Lexing (l ++ cs) (token :: tokens) (l :: lexemes) := by
  have hsolid := solid_of_inClass hlong.inClass
  refine ⟨by simp [h.length], ?_, ?_, ?_, ?_⟩
  · rw [solid_append, hsolid, h.whole, List.flatten_cons]
  · exact List.forall_mem_cons.2 ⟨hlong.inClass.not_isBlank, h.unbroken⟩
  · rintro (_ | i) token' l' htoken hl
    · cases htoken
      cases hl
      exact hspelled
    · exact h.spelled i token' l' htoken hl
  · rintro (_ | i) token' l' htoken hl
    · cases htoken
      cases hl
      exact ⟨[], l ++ cs, rfl, rfl, hlong⟩
    · obtain ⟨front, rest, rfl, hfront, hlong'⟩ := h.longest i token' l' htoken hl
      refine ⟨l ++ front, rest, by simp, ?_, hlong'⟩
      rw [solid_append, hsolid, hfront, List.take_succ_cons, List.flatten_cons]

end Lexing

/-- What is read of a text: all of it, or all in front of a character with which no lexeme starts. -/
def Reads (cs : List Char) : Except Error (List Token) → Prop
  | .ok tokens => ∃ lexemes, Lexing cs tokens lexemes
  | .error e => ∃ front c back, cs = front ++ c :: back ∧ e = .unexpectedChar c ∧
      (∃ tokens lexemes, Lexing front tokens lexemes) ∧ Text.isBlank c = false ∧
      ∀ (token : Token) l, token.InClass l → ¬l <+: c :: back

namespace Reads

variable {cs : List Char} {r : Except Error (List Token)}

theorem blank (h : Reads cs r) {c : Char} (hc : Text.isBlank c = true) : Reads (c :: cs) r := by
  cases r with
  | ok tokens =>
    obtain ⟨lexemes, h⟩ := h
    exact ⟨lexemes, h.blank hc⟩
  | error e =>
    obtain ⟨front, d, back, rfl, he, ⟨tokens, lexemes, hfront⟩, hd⟩ := h
    exact ⟨c :: front, d, back, rfl, he, ⟨tokens, lexemes, hfront.blank hc⟩, hd⟩

theorem cons (h : Reads cs r) {token : Token} {l : List Char}
    (hlong : IsLongest token.InClass l (l ++ cs)) (hspelled : token.Spelled l) :
    Reads (l ++ cs) (follow (.ok [token]) r) := by
  cases r with
  | ok tokens =>
    obtain ⟨lexemes, h⟩ := h
    exact ⟨l :: lexemes, h.cons hlong hspelled⟩
  | error e =>
    obtain ⟨front, d, back, rfl, he, ⟨tokens, lexemes, hfront⟩, hd⟩ := h
    have hshort : l ++ front <+: l ++ (front ++ d :: back) := ⟨d :: back, by simp⟩
    exact ⟨l ++ front, d, back, by simp, he, ⟨token :: tokens, l :: lexemes,
      hfront.cons (hlong.mono (List.prefix_append _ _) hshort) hspelled⟩, hd⟩

end Reads

/-- Scanning takes everything by longest match. If it succeeds, each token is the one spelled by its
lexeme, and no character is left out but blanks; if it fails, it names the character of the text where it
got stuck, with which no lexeme starts. -/
theorem scan_reads (cs : List Char) : Reads cs (scan cs) := by
  -- a lexeme has several characters, so the induction is on the length of the text
  induction hn : cs.length using Nat.strongRecOn generalizing cs with
  | _ n ih =>
    cases cs with
    | nil => exact ⟨[], .nil⟩
    | cons c cs =>
      subst hn
      cases hc : Text.isBlank c with
      | true =>
        rw [scan_blank hc]
        exact (ih cs.length (by simp) cs rfl).blank hc
      | false =>
        rw [scan_token hc]
        have hfront := readsFront_atFront c cs
        cases hread : atFront c cs with
        | error e =>
          rw [hread] at hfront
          exact ⟨[], c, cs, rfl, hfront.1, ⟨[], [], .nil⟩, hc, hfront.2⟩
        | ok found =>
          obtain ⟨token, n⟩ := found
          rw [hread] at hfront
          obtain ⟨l, hlong, hspelled, hlength⟩ := hfront
          have hcs := hlong.append_drop hlength
          have hshorter : (cs.drop n).length < (c :: cs).length := by
            rw [List.length_drop, List.length_cons]
            omega
          dsimp only
          rw [← hcs] at hlong ⊢
          exact (ih _ hshorter (cs.drop n) rfl).cons hlong hspelled

/-- A symbol is taken as long as it fits, and a point only with digits behind it. -/
example : scan "x1!==y".toList = .ok [.ident "x1", .op .bangDoubleEqual, .ident "y"] ∧
    scan "x.y".toList = .error (.unexpectedChar '.') := ⟨rfl, rfl⟩

end Token
end Formula
end TurtleGraphics
