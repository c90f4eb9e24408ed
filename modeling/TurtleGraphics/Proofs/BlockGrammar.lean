import TurtleGraphics.Program.Block

/-!
# TurtleGraphics.Proofs.BlockGrammar

Which logical lines spell which program. `Heads ws s` says that `ws` are the words of the first line of
`s`, and `Spells ls program` that the lines `ls` are those of the statements of `program`, one after
the other, each block closed by an `end`. The reader of blocks accepts exactly these lines, as far as
blocks nest no deeper than they may:

* `readBody_append`: lines that spell a body are read as that body, whatever follows them.
* `spells_of_readBody`: what is read is spelled by the lines it was read from.
* `ofLines_eq_ok_iff`: both, for whole programs.
-/

namespace TurtleGraphics
namespace Program

/-! ## Trees -/

namespace Statement

/-- The statements inside a block. -/
def body? : Statement → Option (List Statement)
  | empty _ => none
  | call _ _ _ => none
  | loop _ _ body => some body
  | when _ _ body => some body
  | define _ _ _ body => some body

mutual

/-- How many blocks are nested in a statement, itself included. -/
def nesting : Statement → Nat
  | empty _ => 0
  | call _ _ _ => 0
  | loop _ _ body => nestingAll body + 1
  | when _ _ body => nestingAll body + 1
  | define _ _ _ body => nestingAll body + 1

/-- How deep blocks nest in a body. -/
def nestingAll : List Statement → Nat
  | [] => 0
  | s :: rest => max s.nesting (nestingAll rest)

end

/-- The statements that are no blocks. -/
theorem eq_of_leaf {s : Statement} (h : s.body? = none) :
    (∃ mark, s = empty mark) ∨ ∃ mark name args, s = call mark name args := by
  cases s with
  | empty mark => exact .inl ⟨mark, rfl⟩
  | call mark name args => exact .inr ⟨mark, name, args, rfl⟩
  | loop mark count body => cases h
  | when mark guard body => cases h
  | define mark name params body => cases h

/-- The blocks. -/
theorem eq_of_block {s : Statement} {body : List Statement} (h : s.body? = some body) :
    (∃ mark count, s = loop mark count body) ∨ (∃ mark guard, s = when mark guard body) ∨
      ∃ mark name params, s = define mark name params body := by
  cases s with
  | empty mark => cases h
  | call mark name args => cases h
  | loop mark count body => cases h; exact .inl ⟨mark, count, rfl⟩
  | when mark guard body => cases h; exact .inr (.inl ⟨mark, guard, rfl⟩)
  | define mark name params body => cases h; exact .inr (.inr ⟨mark, name, params, rfl⟩)

theorem nesting_of_leaf {s : Statement} (h : s.body? = none) : s.nesting = 0 := by
  obtain ⟨mark, rfl⟩ | ⟨mark, name, args, rfl⟩ := eq_of_leaf h <;> rfl

theorem nesting_of_block {s : Statement} {body : List Statement} (h : s.body? = some body) :
    s.nesting = nestingAll body + 1 := by
  obtain ⟨mark, count, rfl⟩ | ⟨mark, guard, rfl⟩ | ⟨mark, name, params, rfl⟩ := eq_of_block h <;> rfl

theorem sameShapes_cons {s : Statement} {rest again : List Statement}
    (h : sameShapes (s :: rest) again = true) :
    ∃ s' rest', again = s' :: rest' ∧ sameShape s s' = true ∧ sameShapes rest rest' = true := by
  cases again with
  | nil => simp [sameShapes] at h
  | cons s' rest' =>
    simp only [sameShapes, Bool.and_eq_true] at h
    exact ⟨s', rest', rfl, h⟩

/-- Induction over a body and the bodies inside it. -/
theorem body_induction {motive : List Statement → Prop} (nil : motive [])
    (leaf : ∀ s rest, s.body? = none → motive rest → motive (s :: rest))
    (block : ∀ s body rest, s.body? = some body → motive body → motive rest → motive (s :: rest)) :
    ∀ program, motive program
  | [] => nil
  | .empty mark :: rest => leaf (.empty mark) rest rfl (body_induction nil leaf block rest)
  | .call mark name args :: rest =>
    leaf (.call mark name args) rest rfl (body_induction nil leaf block rest)
  | .loop mark count body :: rest =>
    block (.loop mark count body) body rest rfl (body_induction nil leaf block body)
      (body_induction nil leaf block rest)
  | .when mark guard body :: rest =>
    block (.when mark guard body) body rest rfl (body_induction nil leaf block body)
      (body_induction nil leaf block rest)
  | .define mark name params body :: rest =>
    block (.define mark name params body) body rest rfl (body_induction nil leaf block body)
      (body_induction nil leaf block rest)

end Statement

open Statement (nestingAll)

/-! ## Spelling -/

/-- The words of a statement's first line. -/
inductive Heads : List String → Statement → Prop where
  | empty (mark : Mark) : Heads [] (.empty mark)
  | call (mark : Mark) {name : String} {args : List String} (hend : name ≠ "end")
      (hkey : BlockKind.ofKeyword? name = none) (hdo : args.getLast? ≠ some "do") :
      Heads (name :: args) (.call mark name (args.map withoutComma))
  | block (mark : Mark) {keyword : String} {kind : BlockKind} {inner : List String}
      (body : List Statement) (hkey : BlockKind.ofKeyword? keyword = some kind) (hne : inner ≠ []) :
      Heads (keyword :: (inner ++ ["do"])) (kind.statement mark inner body)

/-- The lines of a body, without the `end` that closes it. -/
inductive Spells : List Line → List Statement → Prop where
  | nil : Spells [] []
  | leaf {l : Line} {ls : List Line} {s : Statement} {rest : List Statement} :
      Heads l.words s → s.mark = l.mark → s.body? = none → Spells ls rest →
      Spells (l :: ls) (s :: rest)
  | block {l close : Line} {inside ls : List Line} {s : Statement} {body rest : List Statement} :
      Heads l.words s → s.mark = l.mark → s.body? = some body → Spells inside body →
      close.words.head? = some "end" → Spells ls rest →
      Spells (l :: (inside ++ close :: ls)) (s :: rest)

@[simp] theorem BlockKind.mark_statement (kind : BlockKind) (mark : Mark) (inner : List String)
    (body : List Statement) : (kind.statement mark inner body).mark = mark := by
  cases kind with
  | loop => rfl
  | when => rfl
  | define => simp only [BlockKind.statement]; split <;> rfl

@[simp] theorem BlockKind.body?_statement (kind : BlockKind) (mark : Mark) (inner : List String)
    (body : List Statement) : (kind.statement mark inner body).body? = some body := by
  cases kind with
  | loop => rfl
  | when => rfl
  | define => simp only [BlockKind.statement]; split <;> rfl

theorem ne_end_of_ofKeyword {word : String} {kind : BlockKind}
    (h : BlockKind.ofKeyword? word = some kind) : word ≠ "end" := by
  rintro rfl
  cases h

theorem ofKeyword_eq_none_iff {word : String} :
    BlockKind.ofKeyword? word = none ↔ word ∉ ["for", "loop", "when", "draw", "def"] := by
  unfold BlockKind.ofKeyword?
  split <;> simp_all

theorem headerWords_eq_ok_iff {line : Line} {keyword : String} {rest inner : List String} :
    headerWords line keyword rest = .ok inner ↔ rest = inner ++ ["do"] ∧ inner ≠ [] := by
  rw [headerWords]
  constructor
  · intro h
    split at h
    · cases h
    · rename_i hl
      split at h
      · cases h
      · rename_i hne
        have hl : rest.getLast? = some "do" := by simpa using hl
        obtain ⟨ys, rfl⟩ := List.getLast?_eq_some_iff.1 hl
        cases h
        simpa using hne
  · rintro ⟨rfl, hne⟩
    simp [hne]

/-! ## Reading what is spelled -/

/-- Puts `body`, which takes `count` lines, in front of what is read next. -/
def prepend (body : List Statement) (count : Nat) : BodyReading → BodyReading
  | .error f => .error f
  | .ok (rest, n) => .ok (body ++ rest, n + count)

@[simp] theorem prepend_prepend (a b : List Statement) (m n : Nat) (r : BodyReading) :
    prepend a m (prepend b n r) = prepend (a ++ b) (n + m) r := by
  cases r with
  | error f => rfl
  | ok x => simp [prepend, Nat.add_assoc]

@[simp] theorem prepend_nil_zero (r : BodyReading) : prepend [] 0 r = r := by
  cases r with
  | error f => rfl
  | ok x => rfl

theorem consStatement_eq_prepend (s : Statement) (r : BodyReading) :
    consStatement s r = prepend [s] 1 r := by
  cases r with
  | error f => rfl
  | ok x => rfl

section Reading

variable {inner : Line → List Line → BodyReading} {opener : Option Line}

theorem readBody_skip {skip : Nat} {ls : List Line} (h : skip ≤ ls.length) :
    readBody inner opener skip ls = prepend [] skip (readBody inner opener 0 (ls.drop skip)) := by
  induction ls generalizing skip with
  | nil =>
    have : skip = 0 := by simpa using h
    simp [this]
  | cons l ls ih =>
    cases skip with
    | zero => simp
    | succ skip =>
      rw [readBody, ih (by simpa using h), List.drop_succ_cons]
      cases readBody inner opener 0 (ls.drop skip) with
      | error f => rfl
      | ok x => rfl

theorem readBody_leaf {l : Line} {s : Statement} (hh : Heads l.words s) (hm : s.mark = l.mark)
    (hb : s.body? = none) (ls : List Line) :
    readBody inner opener 0 (l :: ls) = prepend [s] 1 (readBody inner opener 0 ls) := by
  rw [← consStatement_eq_prepend]
  generalize hw : l.words = ws at hh
  cases hh with
  | empty mark => cases hm; simp [readBody, hw, Line.mark]
  | call mark hend hkey hdo => cases hm; simp [readBody, hw, hend, hkey, hdo, Line.mark]
  | block mark body hkey hne => simp at hb

theorem readBody_block {l : Line} {s : Statement} {body : List Statement} {count : Nat}
    {ls : List Line} (hh : Heads l.words s) (hm : s.mark = l.mark) (hb : s.body? = some body)
    (hin : inner l ls = .ok (body, count)) :
    readBody inner opener 0 (l :: ls) = prepend [s] 1 (readBody inner opener count ls) := by
  rw [← consStatement_eq_prepend]
  generalize hw : l.words = ws at hh
  cases hh with
  | empty mark => cases hb
  | call mark hend hkey hdo => cases hb
  | block mark body' hkey hne =>
    rw [BlockKind.mark_statement] at hm
    rw [BlockKind.body?_statement] at hb
    cases hm
    cases hb
    simp [readBody, hw, ne_end_of_ofKeyword hkey, hkey, headerWords_eq_ok_iff.2 ⟨rfl, hne⟩, hin]

theorem readBody_end {l o : Line} (h : l.words.head? = some "end") (ls : List Line) :
    readBody inner (some o) 0 (l :: ls) = .ok ([], 1) := by
  obtain ⟨ws, hw⟩ := List.head?_eq_some_iff.1 h
  simp [readBody, hw]

theorem readBlock_succ (room : Nat) (o : Line) (ls : List Line) :
    readBlock (room + 1) o ls = readBody (readBlock room) (some o) 0 ls := rfl

end Reading

/-- Lines that spell a body are read as that body, whatever follows them. -/
theorem readBody_append {ls : List Line} {program : List Statement} (h : Spells ls program) :
    ∀ (room : Nat) (opener : Option Line) (tail : List Line), nestingAll program ≤ room →
      readBody (readBlock room) opener 0 (ls ++ tail) =
        prepend program ls.length (readBody (readBlock room) opener 0 tail) := by
  induction h with
  | nil => intro room opener tail _; simp
  | leaf hh hm hb _ ih =>
    intro room opener tail hn
    rw [nestingAll] at hn
    rw [List.cons_append, readBody_leaf hh hm hb, ih room opener tail (by omega), prepend_prepend]
    rfl
  | @block l close inside ls s body rest hh hm hb _ hclose _ ihb ihr =>
    intro room opener tail hn
    rw [nestingAll, Statement.nesting_of_block hb] at hn
    cases room with
    | zero => omega
    | succ room =>
      -- the block takes its body and its `end`, which the body around it then skips
      have hin : readBlock (room + 1) l (inside ++ close :: (ls ++ tail)) =
          .ok (body, inside.length + 1) := by
        rw [readBlock_succ, ihb room (some l) _ (by omega), readBody_end hclose]
        simp [prepend, Nat.add_comm]
      have hskip : inside.length + 1 ≤ (inside ++ close :: (ls ++ tail)).length := by simp
      have hdrop : (inside ++ close :: (ls ++ tail)).drop (inside.length + 1) = ls ++ tail := by
        simp
      rw [List.cons_append, List.append_assoc, List.cons_append, readBody_block hh hm hb hin,
        readBody_skip hskip, hdrop, ihr (room + 1) opener tail (by omega), prepend_prepend,
        prepend_prepend]
      congr 1
      simp
      omega

/-! ## Spelling what is read -/

theorem consStatement_eq_ok {s : Statement} {r : BodyReading} {body : List Statement} {count : Nat}
    (h : consStatement s r = .ok (body, count)) :
    ∃ rest n, r = .ok (rest, n) ∧ body = s :: rest ∧ count = n + 1 := by
  cases r with
  | error f => cases h
  | ok x => cases h; exact ⟨_, _, rfl, rfl, rfl⟩

/-- What the first line of a body that was read can be. -/
theorem readBody_cons_cases {inner : Line → List Line → BodyReading} {opener : Option Line}
    {l : Line} {ls : List Line} {body : List Statement} {count : Nat}
    (h : readBody inner opener 0 (l :: ls) = .ok (body, count)) :
    (opener.isSome ∧ l.words.head? = some "end" ∧ body = [] ∧ count = 1) ∨
    (∃ s rest n, Heads l.words s ∧ s.mark = l.mark ∧ s.body? = none ∧
      readBody inner opener 0 ls = .ok (rest, n) ∧ body = s :: rest ∧ count = n + 1) ∨
    (∃ s inside skip rest n, Heads l.words s ∧ s.mark = l.mark ∧ s.body? = some inside ∧
      inner l ls = .ok (inside, skip) ∧ readBody inner opener skip ls = .ok (rest, n) ∧
      body = s :: rest ∧ count = n + 1) := by
  cases hw : l.words with
  | nil =>
    simp only [readBody, hw] at h
    obtain ⟨rest, n, hr, hb, hc⟩ := consStatement_eq_ok h
    exact .inr (.inl ⟨.empty l.mark, rest, n, .empty _, rfl, rfl, hr, hb, hc⟩)
  | cons word args =>
    simp only [readBody, hw] at h
    split at h
    · rename_i he
      cases opener with
      | none => cases h
      | some o => cases h; exact .inl ⟨rfl, by simpa using he, rfl, rfl⟩
    · rename_i he
      have he : word ≠ "end" := by simpa using he
      split at h
      · rename_i kind hkey
        split at h
        · cases h
        · rename_i names hnames
          obtain ⟨rfl, hne⟩ := headerWords_eq_ok_iff.1 hnames
          split at h
          · cases h
          · rename_i inside skip hin
            obtain ⟨rest, n, hr, hb, hc⟩ := consStatement_eq_ok h
            exact .inr (.inr ⟨_, inside, skip, rest, n, .block l.mark inside hkey hne, by simp, by simp,
              hin, hr, hb, hc⟩)
      · rename_i hkey
        split at h
        · cases h
        · rename_i hdo
          obtain ⟨rest, n, hr, hb, hc⟩ := consStatement_eq_ok h
          exact .inr (.inl ⟨_, rest, n, .call l.mark he hkey (by simpa using hdo), rfl, rfl, hr, hb,
            hc⟩)

/-- Where a body ends: the program at the end of its lines, a block at an `end`. -/
def EndsAt : Option Line → List Line → Prop
  | none, tail => tail = []
  | some _, tail => ∃ close rest, tail = close :: rest ∧ close.words.head? = some "end"

def endLength : Option Line → Nat
  | none => 0
  | some _ => 1

/-- A reader of blocks reads only what lines spell, with blocks less than `room` deep inside. -/
def ReadsSpelled (inner : Line → List Line → BodyReading) (room : Nat) : Prop :=
  ∀ l ls body count, inner l ls = .ok (body, count) →
    ∃ used tail, ls = used ++ tail ∧ EndsAt (some l) tail ∧ Spells used body ∧
      nestingAll body < room ∧ count = used.length + 1

theorem spells_of_readBody {inner : Line → List Line → BodyReading} {room : Nat}
    (hin : ReadsSpelled inner room) {opener : Option Line} :
    ∀ (ls : List Line) (skip : Nat) (body : List Statement) (count : Nat), skip ≤ ls.length →
      readBody inner opener skip ls = .ok (body, count) →
      ∃ used tail, ls.drop skip = used ++ tail ∧ EndsAt opener tail ∧ Spells used body ∧
        nestingAll body ≤ room ∧ count = skip + used.length + endLength opener := by
  -- a block already read leaves lines to skip, so the induction is for every number of them
  intro ls
  induction ls with
  | nil =>
    intro skip body count hskip h
    obtain rfl : skip = 0 := by simpa using hskip
    cases opener with
    | none => cases h; exact ⟨[], [], rfl, rfl, .nil, by simp [nestingAll], rfl⟩
    | some o => cases h
  | cons l ls ih =>
    intro skip body count hskip h
    cases skip with
    | succ skip =>
      rw [readBody] at h
      split at h
      · cases h
      · rename_i body' n hr
        cases h
        obtain ⟨used, tail, hd, he, hs, hn, hc⟩ := ih skip body n (by simpa using hskip) hr
        exact ⟨used, tail, by simpa using hd, he, hs, hn, by omega⟩
    | zero =>
      rcases readBody_cons_cases h with ⟨ho, hw, rfl, rfl⟩ |
        ⟨s, rest, n, hh, hm, hb, hr, rfl, rfl⟩ | ⟨s, inside, skip, rest, n, hh, hm, hb, hi, hr, rfl, rfl⟩
      · obtain ⟨o, rfl⟩ := Option.isSome_iff_exists.1 ho
        exact ⟨[], l :: ls, rfl, ⟨l, ls, rfl, hw⟩, .nil, by simp [nestingAll], rfl⟩
      · obtain ⟨used, tail, hd, he, hs, hn, hc⟩ := ih 0 rest n (by simp) hr
        refine ⟨l :: used, tail, by simpa using hd, he, .leaf hh hm hb hs, ?_, ?_⟩
        · rw [nestingAll, Statement.nesting_of_leaf hb]; omega
        · simp only [List.length_cons]; omega
      · obtain ⟨used, tail, rfl, ⟨close, after, rfl, hclose⟩, hs, hn, rfl⟩ := hin l ls inside skip hi
        obtain ⟨used', tail', hd, he, hs', hn', hc⟩ := ih (used.length + 1) rest n (by simp) hr
        have hafter : after = used' ++ tail' := by simpa using hd
        subst hafter
        refine ⟨l :: (used ++ close :: used'), tail', by simp, he, .block hh hm hb hs hclose hs', ?_, ?_⟩
        · rw [nestingAll, Statement.nesting_of_block hb]; omega
        · simp only [List.length_cons, List.length_append]; omega

theorem readsSpelled_readBlock (room : Nat) : ReadsSpelled (readBlock room) room := by
  induction room with
  | zero => intro l ls body count h; cases h
  | succ room ih =>
    intro l ls body count h
    obtain ⟨used, tail, hd, he, hs, hn, hc⟩ := spells_of_readBody ih ls 0 body count (by simp) h
    exact ⟨used, tail, by simpa using hd, he, hs, by omega, by simpa [endLength] using hc⟩

/-- The reader accepts exactly the lines that spell a program whose blocks nest no deeper than they
may. -/
theorem ofLines_eq_ok_iff {ls : List Line} {program : List Statement} :
    ofLines ls = .ok program ↔ Spells ls program ∧ nestingAll program < maxBlockDepth := by
  rw [ofLines]
  constructor
  · intro h
    split at h
    · cases h
    · rename_i body count hr
      cases h
      obtain ⟨used, tail, hd, rfl, hs, hn, -⟩ :=
        spells_of_readBody (readsSpelled_readBlock _) ls 0 program count (by simp) hr
      have hd : ls = used := by simpa using hd
      rw [maxBlockDepth] at hn ⊢
      exact ⟨hd ▸ hs, by omega⟩
  · rintro ⟨hs, hn⟩
    have := readBody_append hs (maxBlockDepth - 1) none [] (by omega)
    rw [List.append_nil] at this
    rw [this]
    simp [readBody, prepend]

theorem spells_of_parse {source : String} {program : List Statement}
    (h : parse source = .ok program) : Spells (lines source) program :=
  (ofLines_eq_ok_iff.1 h).1

end Program
end TurtleGraphics
