import PatternScript.Notation.Leaf

/-!
Contract: which lexemes of a text are leaves, said of the lexemes before them.

The search for leaves goes over the lexemes once and remembers one place and one depth. `step` is
what one lexeme changes in that memory. What the memory says after a run is said here of the run
itself: the place is the end of the last lexeme if that is an operator, and the depth is positive as
long as a group that is left out has not closed. So a word is a leaf by what stands before it alone.

Owns: the step of the search, its run, and what its memory means.
Does not own: where lexemes lie in a text.
-/

namespace PatternScript.Notation

namespace Token

variable {token : Token}

/-- A token that opens a group does nothing else. -/
theorem of_opens : token.opens = true → token.closes = false ∧ token.isOperator = false := by
  cases token <;> decide

/-- A token that closes a group does nothing else. -/
theorem of_closes : token.closes = true → token.opens = false ∧ token.isOperator = false := by
  cases token <;> decide

/-- An operator is no bracket. -/
theorem of_isOperator : token.isOperator = true → token.opens = false ∧ token.closes = false := by
  cases token <;> decide

end Token

namespace Standing

/-- What is remembered after one more lexeme. -/
def step (standing : Standing) (lexeme : Lexeme) : Standing :=
  if standing.skipDepth > 0 then
    { standing with skipDepth := skipLexeme standing.skipDepth lexeme.token }
  else if lexeme.token = .openEuclid ∨
      (lexeme.token.opens ∧ standing.operatorStop = some lexeme.start) then { skipDepth := 1 }
  else if lexeme.token.isOperator then { operatorStop := some lexeme.stop }
  else {}

/-- The lexeme is reported as a leaf. -/
def Reports (standing : Standing) (lexeme : Lexeme) : Prop :=
  standing.skipDepth = 0 ∧ lexeme.token = .word ∧ standing.operatorStop ≠ some lexeme.start ∧
    isSounding lexeme.text = true

instance (standing : Standing) (lexeme : Lexeme) : Decidable (standing.Reports lexeme) :=
  inferInstanceAs (Decidable (_ ∧ _ ∧ _ ∧ _))

/-- What is remembered after a run of lexemes. -/
def after (standing : Standing) (list : List Lexeme) : Standing :=
  list.foldl step standing

end Standing

theorem leafLexemes_cons (standing : Standing) (lexeme : Lexeme) (rest : List Lexeme) :
    leafLexemes standing (lexeme :: rest) =
      (if standing.Reports lexeme then [lexeme] else []) ++
        leafLexemes (standing.step lexeme) rest := by
  rw [leafLexemes, Standing.step]
  by_cases skipped : standing.skipDepth > 0
  · have notReported : ¬ standing.Reports lexeme := fun reported => by
      have := reported.1
      omega
    rw [if_pos skipped, if_pos skipped, if_neg notReported, List.nil_append]
  · have depth : standing.skipDepth = 0 := by omega
    have reports : standing.Reports lexeme ↔ lexeme.token = .word ∧
        standing.operatorStop ≠ some lexeme.start ∧ isSounding lexeme.text = true := by
      simp [Standing.Reports, depth]
    simp only [if_neg skipped, beq_iff_eq, reports]
    -- A word neither opens a group nor is an operator.
    by_cases isWord : lexeme.token = .word
    · simp only [isWord, Token.opens, Token.isOperator, reduceCtorEq, Bool.false_eq_true, false_and,
        or_self, if_false, true_and]
      split <;> rfl
    · simp only [isWord, false_and, if_false, List.nil_append]
      split
      · rfl
      · split <;> rfl

/-- The leaves of a run are found one part after the other. -/
theorem leafLexemes_append (standing : Standing) (list behind : List Lexeme) :
    leafLexemes standing (list ++ behind) =
      leafLexemes standing list ++ leafLexemes (standing.after list) behind := by
  induction list generalizing standing with
  | nil => rfl
  | cons lexeme rest inductionHypothesis =>
      rw [List.cons_append, leafLexemes_cons, leafLexemes_cons, inductionHypothesis,
        List.append_assoc]
      rfl

/-! ## What the memory means -/

/-- The lexeme stands directly behind an operator. -/
def BehindOperator (before : List Lexeme) (lexeme : Lexeme) : Prop :=
  ∃ operator, before.getLast? = some operator ∧ operator.token.isOperator = true ∧
    operator.stop = lexeme.start

/-- The lexeme opens the parentheses of a euclidean rhythm or a group that is an operand. -/
def OpensLeftOut (before : List Lexeme) (lexeme : Lexeme) : Prop :=
  lexeme.token = .openEuclid ∨ lexeme.token.opens = true ∧ BehindOperator before lexeme

theorem OpensLeftOut.opens {before : List Lexeme} {lexeme : Lexeme}
    (opening : OpensLeftOut before lexeme) : lexeme.token.opens = true := by
  rcases opening with isEuclid | ⟨opens, _⟩
  · rw [isEuclid]
    rfl
  · exact opens

/-- The brackets that open among lexemes. -/
def openings (list : List Lexeme) : Nat :=
  list.countP (·.token.opens)

/-- The brackets that close among lexemes. -/
def closings (list : List Lexeme) : Nat :=
  list.countP (·.token.closes)

/-- A group that was open before the lexemes is open throughout them. -/
def StaysOpen (inside : List Lexeme) : Prop :=
  ∀ part, part <+: inside → closings part ≤ openings part

/-- Behind the lexemes, a group that is left out has not closed. -/
def LeftOut (list : List Lexeme) : Prop :=
  ∃ before opening inside, list = before ++ opening :: inside ∧ OpensLeftOut before opening ∧
    StaysOpen inside

/-- What is remembered behind lexemes is what they say. The depth is that of the group left out
which has been open for longest. -/
structure Explains (list : List Lexeme) (standing : Standing) : Prop where
  atOperator : standing.skipDepth = 0 → ∀ lexeme,
    standing.operatorStop = some lexeme.start ↔ BehindOperator list lexeme
  inGroup : 0 < standing.skipDepth → standing.operatorStop = none
  atMost : ∀ before opening inside, list = before ++ opening :: inside →
    OpensLeftOut before opening → StaysOpen inside →
      openings inside + 1 ≤ standing.skipDepth + closings inside
  attained : 0 < standing.skipDepth → ∃ before opening inside,
    list = before ++ opening :: inside ∧ OpensLeftOut before opening ∧ StaysOpen inside ∧
      openings inside + 1 = standing.skipDepth + closings inside

theorem openings_append (left right : List Lexeme) :
    openings (left ++ right) = openings left + openings right :=
  List.countP_append

theorem closings_append (left right : List Lexeme) :
    closings (left ++ right) = closings left + closings right :=
  List.countP_append

theorem staysOpen_concat {inside : List Lexeme} {lexeme : Lexeme} :
    StaysOpen (inside ++ [lexeme]) ↔ StaysOpen inside ∧
      closings (inside ++ [lexeme]) ≤ openings (inside ++ [lexeme]) := by
  constructor
  · intro stays
    exact ⟨fun part isPart => stays part (isPart.trans (List.prefix_append _ _)),
      stays _ (List.prefix_refl _)⟩
  · rintro ⟨stays, atEnd⟩ part isPart
    rcases List.prefix_concat_iff.mp isPart with rfl | shorter
    · exact atEnd
    · exact stays part shorter

/-- A place among lexemes with one more at the end is that end or a place among them. -/
theorem cases_of_concat {list before inside : List Lexeme} {last opening : Lexeme}
    (equal : list ++ [last] = before ++ opening :: inside) :
    (inside = [] ∧ opening = last ∧ before = list) ∨
      ∃ less, inside = less ++ [last] ∧ list = before ++ opening :: less := by
  rcases List.eq_nil_or_concat inside with rfl | ⟨less, other, rfl⟩
  · obtain ⟨rfl, rfl⟩ := List.append_singleton_inj.mp equal
    exact .inl ⟨rfl, rfl, rfl⟩
  · rw [List.concat_eq_append, ← List.cons_append, ← List.append_assoc] at equal
    obtain ⟨rfl, rfl⟩ := List.append_singleton_inj.mp equal
    exact .inr ⟨less, List.concat_eq_append, rfl⟩

/-- One lexeme changes the depth by the bracket it is. -/
theorem skipLexeme_balance {depth : Nat} (skipped : 0 < depth) (lexeme : Lexeme) :
    skipLexeme depth lexeme.token + closings [lexeme] = depth + openings [lexeme] := by
  simp only [openings, closings, List.countP_singleton]
  cases lexeme.token <;> simp [skipLexeme, Token.opens, Token.closes] <;> omega

theorem closings_singleton_pos {lexeme : Lexeme} :
    0 < closings [lexeme] ↔ lexeme.token.closes = true := by
  rw [closings, List.countP_singleton]
  split <;> simp_all

theorem behindOperator_concat {list : List Lexeme} {last lexeme : Lexeme} :
    BehindOperator (list ++ [last]) lexeme ↔
      last.token.isOperator = true ∧ last.stop = lexeme.start := by
  simp [BehindOperator]

namespace Explains

variable {list : List Lexeme} {standing : Standing} {lexeme : Lexeme}

theorem nil : Explains [] {} where
  atOperator := by simp [BehindOperator]
  inGroup := by simp
  atMost := by simp
  attained := by simp

theorem leftOut_iff (explains : Explains list standing) :
    0 < standing.skipDepth ↔ LeftOut list := by
  constructor
  · intro skipped
    obtain ⟨before, opening, inside, split, opens, stays, _⟩ := explains.attained skipped
    exact ⟨before, opening, inside, split, opens, stays⟩
  · rintro ⟨before, opening, inside, split, opens, stays⟩
    have depth := explains.atMost before opening inside split opens stays
    have whole := stays inside (List.prefix_refl _)
    omega

theorem opensLeftOut_iff (explains : Explains list standing) (depth : standing.skipDepth = 0) :
    OpensLeftOut list lexeme ↔ lexeme.token = .openEuclid ∨
      (lexeme.token.opens = true ∧ standing.operatorStop = some lexeme.start) := by
  rw [OpensLeftOut, explains.atOperator depth]

/-- Inside a group that is left out, only brackets count. -/
theorem step_inGroup (explains : Explains list standing) (skipped : 0 < standing.skipDepth) :
    Explains (list ++ [lexeme]) (standing.step lexeme) := by
  have balance := skipLexeme_balance skipped lexeme
  rw [Standing.step, if_pos skipped]
  constructor
  case atOperator =>
      intro closed other
      have closes : lexeme.token.closes = true := by
        rw [← closings_singleton_pos]
        simp only at closed
        omega
      rw [explains.inGroup skipped, behindOperator_concat, (Token.of_closes closes).2]
      simp
  case inGroup => exact fun _ => explains.inGroup skipped
  case atMost =>
      intro before opening inside split opens stays
      rcases cases_of_concat split with ⟨rfl, rfl, rfl⟩ | ⟨less, rfl, within⟩
      · show 0 + 1 ≤ skipLexeme standing.skipDepth opening.token + 0
        rw [skipLexeme, if_pos opens.opens]
        omega
      · have depth := explains.atMost before opening less within opens (staysOpen_concat.mp stays).1
        rw [openings_append, closings_append]
        simp only
        omega
  case attained =>
      intro stillSkipped
      obtain ⟨before, opening, inside, split, opens, stays, depth⟩ := explains.attained skipped
      refine ⟨before, opening, inside ++ [lexeme], by rw [split]; simp, opens,
        staysOpen_concat.mpr ⟨stays, ?_⟩, ?_⟩
      · rw [openings_append, closings_append]
        simp only at stillSkipped
        omega
      · rw [openings_append, closings_append]
        simp only
        omega

/-- Where no group is left out, none was opened before. -/
theorem not_staysOpen (explains : Explains list standing) (depth : standing.skipDepth = 0)
    {before inside : List Lexeme} {opening : Lexeme} (split : list = before ++ opening :: inside)
    (opens : OpensLeftOut before opening) : ¬ StaysOpen (inside ++ [lexeme]) := by
  intro stays
  have leftOut : LeftOut list :=
    ⟨before, opening, inside, split, opens, (staysOpen_concat.mp stays).1⟩
  have := explains.leftOut_iff.mpr leftOut
  omega

/-- Outside of such groups, a lexeme opens one, is an operator or is neither. -/
theorem step_outside (explains : Explains list standing) (depth : standing.skipDepth = 0) :
    Explains (list ++ [lexeme]) (standing.step lexeme) := by
  have outside : ¬ standing.skipDepth > 0 := by omega
  have opens := @opensLeftOut_iff _ _ lexeme explains depth
  rw [Standing.step, if_neg outside]
  by_cases opening : OpensLeftOut list lexeme
  · rw [if_pos (opens.mp opening)]
    constructor
    case atOperator => simp
    case inGroup => exact fun _ => rfl
    case atMost =>
        intro before other inside split opensOther stays
        rcases cases_of_concat split with ⟨rfl, rfl, rfl⟩ | ⟨less, rfl, within⟩
        · exact Nat.le_refl 1
        · exact absurd stays (explains.not_staysOpen depth within opensOther)
    case attained =>
        intro _
        refine ⟨list, lexeme, [], rfl, opening, ?_, rfl⟩
        intro part isPart
        rw [List.prefix_nil.mp isPart]
        exact Nat.le_refl 0
  · rw [if_neg (mt opens.mpr opening)]
    constructor
    case atOperator =>
        intro _ other
        rw [behindOperator_concat]
        split <;> simp_all
    case inGroup =>
        intro skipped
        split at skipped <;> simp at skipped
    case atMost =>
        intro before other inside split opensOther stays
        rcases cases_of_concat split with ⟨rfl, rfl, rfl⟩ | ⟨less, rfl, within⟩
        · exact absurd opensOther opening
        · exact absurd stays (explains.not_staysOpen depth within opensOther)
    case attained =>
        intro skipped
        split at skipped <;> simp at skipped

theorem step (explains : Explains list standing) :
    Explains (list ++ [lexeme]) (standing.step lexeme) := by
  by_cases skipped : 0 < standing.skipDepth
  · exact explains.step_inGroup skipped
  · exact explains.step_outside (Nat.eq_zero_of_not_pos skipped)

theorem run (explains : Explains list standing) (behind : List Lexeme) :
    Explains (list ++ behind) (standing.after behind) := by
  induction behind generalizing list standing with
  | nil =>
      rw [List.append_nil]
      exact explains
  | cons lexeme rest inductionHypothesis =>
      rw [List.append_cons]
      exact inductionHypothesis explains.step

end Explains

theorem explains_after (list : List Lexeme) : Explains list (Standing.after {} list) :=
  Explains.nil.run list

/-- A lexeme is a leaf by the lexemes before it: it is a word that sounds, it does not stand
directly behind an operator, and no group that is left out is open before it. -/
theorem reports_after_iff {list : List Lexeme} {lexeme : Lexeme} :
    (Standing.after {} list).Reports lexeme ↔
      lexeme.token = .word ∧ isSounding lexeme.text = true ∧ ¬ BehindOperator list lexeme ∧
        ¬ LeftOut list := by
  have explains := explains_after list
  rw [← explains.leftOut_iff, Standing.Reports]
  constructor
  · rintro ⟨depth, isWord, notOperand, sounds⟩
    refine ⟨isWord, sounds, ?_, by omega⟩
    rwa [← explains.atOperator depth]
  · rintro ⟨isWord, sounds, notOperand, outside⟩
    have depth := Nat.eq_zero_of_not_pos outside
    refine ⟨depth, isWord, ?_, sounds⟩
    rwa [ne_eq, explains.atOperator depth]

end PatternScript.Notation
