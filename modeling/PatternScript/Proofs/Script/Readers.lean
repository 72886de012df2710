import PatternScript.Proofs.Source.Slices
import PatternScript.Script.Literal

/-!
Contract: what readers answer on a text that is known at its start.

A reader that is made of others answers step by step: each equation here gives one step, so that the
answer of a construct is found by rewriting from left to right. Repetition is described by the runs
of its step.

Owns: steps of readers, runs of repeated readers, and tokens at the start of a text.
Does not own: the constructs of the language.
-/

namespace PatternScript.Script

/-- What is checked of each item of a list holds of its members. -/
theorem forall_mem_of_all {α : Type} {holds : α → Prop} [DecidablePred holds] {items : List α}
    (checked : (items.all fun item => holds item) = true) : ∀ item ∈ items, holds item := by
  simpa using checked

namespace Input

/-- The byte and the end of the last token are both moved by what is read. -/
theorem consume_consume (input : Input) (first second middle rest : List Char) :
    (input.consume first middle).consume second rest = input.consume (first ++ second) rest := by
  simp [consume, Nat.add_assoc]

theorem consume_pass (input : Input) (first second middle rest : List Char) :
    (input.pass first middle).consume second rest = input.consume (first ++ second) rest := by
  simp [consume, pass, Nat.add_assoc]

@[simp] theorem rest_consume (input : Input) (chars rest : List Char) :
    (input.consume chars rest).rest = rest := rfl

@[simp] theorem offset_consume (input : Input) (chars rest : List Char) :
    (input.consume chars rest).offset = input.offset + Text.byteLength chars := rfl

@[simp] theorem stop_consume (input : Input) (chars rest : List Char) :
    (input.consume chars rest).stop = input.offset + Text.byteLength chars := rfl

@[simp] theorem rest_pass (input : Input) (chars rest : List Char) :
    (input.pass chars rest).rest = rest := rfl

@[simp] theorem offset_pass (input : Input) (chars rest : List Char) :
    (input.pass chars rest).offset = input.offset + Text.byteLength chars := rfl

theorem pass_nil (input : Input) : input.pass [] input.rest = input := by
  simp [pass]

/-- Right behind a token, reading nothing changes nothing. -/
theorem consume_nil {input : Input} (behind : input.stop = input.offset) :
    input.consume [] input.rest = input := by
  cases input
  simp_all [consume]

end Input

namespace Reader

variable {α β : Type} {input next : Input}

/-! ## Steps -/

theorem pure_step (value : α) : (pure value : Reader α) input = some (value, input) := rfl

theorem bind_step {reader : Reader α} {value : α} (answered : reader input = some (value, next))
    (onward : α → Reader β) : (reader >>= onward) input = onward value next := by
  simp [bind, StateT.bind, answered]

theorem bind_fails {reader : Reader α} (failed : reader input = none) (onward : α → Reader β) :
    (reader >>= onward) input = none := by
  simp [bind, StateT.bind, failed]

theorem exists_of_bind {reader : Reader α} {onward : α → Reader β} {result : β × Input}
    (answered : (reader >>= onward) input = some result) :
    ∃ value next, reader input = some (value, next) ∧ onward value next = some result := by
  cases read : reader input with
  | none =>
      rw [bind_fails read] at answered
      cases answered
  | some answer =>
      rw [bind_step read] at answered
      exact ⟨answer.1, answer.2, rfl, answered⟩

/-- What follows a reader does not see where the reader started. -/
theorem bind_congr {reader : Reader α} {other : Input} (same : reader input = reader other)
    (onward : α → Reader β) : (reader >>= onward) input = (reader >>= onward) other := by
  simp [bind, StateT.bind, same]

theorem orElse_step {reader other : Reader α} {value : α}
    (answered : reader input = some (value, next)) :
    (reader <|> other) input = some (value, next) := by
  simp [HOrElse.hOrElse, OrElse.orElse, Alternative.orElse, StateT.orElse, answered]

theorem orElse_fails {reader other : Reader α} (failed : reader input = none) :
    (reader <|> other) input = other input := by
  simp [HOrElse.hOrElse, OrElse.orElse, Alternative.orElse, StateT.orElse, failed]

theorem get_step : (get : Reader Input) input = some (input, input) := rfl

theorem ensure_step {condition : Bool} (holds : condition = true) :
    ensure condition input = some ((), input) := by
  rw [holds]
  rfl

theorem ensure_fails {condition : Bool} (fails : condition = false) :
    ensure condition input = none := by
  rw [fails]
  rfl

theorem maybe_step {reader : Reader α} {value : α} (answered : reader input = some (value, next)) :
    maybe reader input = some (some value, next) := by
  simp [maybe, answered]

theorem maybe_fails {reader : Reader α} (failed : reader input = none) :
    maybe reader input = some (none, input) := by
  simp [maybe, failed]

theorem looks_step (reader : Reader α) :
    looks reader input = some ((reader input).isSome, input) := rfl

theorem looks_true {reader : Reader α} {value : α} (answered : reader input = some (value, next)) :
    looks reader input = some (true, input) := by
  simp [looks, answered]

theorem looks_false {reader : Reader α} (failed : reader input = none) :
    looks reader input = some (false, input) := by
  simp [looks, failed]

theorem peek_step : peek input = some (input.rest.head?, input) := rfl

theorem unread_step : unread input = some (input.rest, input) := rfl

theorem finish_step (kind : Kind) (start : Nat) (children : List Node) :
    finish kind start children input =
      some (.mk kind none ⟨start, input.stop⟩ children, input) := rfl

theorem char_step {accepts : Char → Bool} {c : Char} {rest : List Char}
    (split : input.rest = c :: rest) (accepted : accepts c = true) :
    char accepts input = some (c, input.consume [c] rest) := by
  simp [char, split, accepted]

theorem char_fails {accepts : Char → Bool} (refused : ∀ c ∈ input.rest.head?, accepts c = false) :
    char accepts input = none := by
  unfold char
  cases split : input.rest with
  | nil => rfl
  | cons c rest => simp [refused c (by simp [split])]

theorem exactly_fails {c : Char} {text : List Char} (other : input.rest.head? ≠ some c) :
    exactly (c :: text) input = none := by
  unfold exactly
  cases split : input.rest with
  | nil => rfl
  | cons d rest =>
      have different : c ≠ d := fun same => other (by simp [split, same])
      simp [stripStart?, different]

theorem stripStart?_append (text rest : List Char) : stripStart? text (text ++ rest) = some rest := by
  induction text with
  | nil => rfl
  | cons c text inductionHypothesis => simpa [stripStart?] using inductionHypothesis

theorem exactly_step {text rest : List Char} (split : input.rest = text ++ rest) :
    exactly text input = some ((), input.consume text rest) := by
  simp [exactly, split, stripStart?_append]

/-! ## Repetition -/

/-- A run of a step that is repeated, each of which reads something. -/
inductive Run (step : α → Reader α) : α → Input → α → Input → Prop where
  | done {value : α} {input : Input} : Run step value input value input
  | step {value changed last : α} {input next final : Input}
      (answered : step value input = some (changed, next))
      (shorter : next.rest.length < input.rest.length)
      (more : Run step changed next last final) : Run step value input last final

namespace Run

variable {step : α → Reader α} {value changed last : α} {final : Input}

/-- A step behind a run makes it longer. -/
theorem snoc (run : Run step value input changed next) (answered : step changed next = some (last, final))
    (shorter : final.rest.length < next.rest.length) : Run step value input last final := by
  induction run with
  | done => exact .step answered shorter .done
  | step first drops _ inductionHypothesis =>
      exact .step first drops (inductionHypothesis answered shorter)

/-- Repetition ends where the run ends, if the step fails there. -/
theorem iterate_eq (run : Run step value input last final) (failed : step last final = none) :
    iterate step value input = some (last, final) := by
  have upTo : ∀ limit, input.rest.length ≤ limit →
      iterateUpTo step limit value input = some (last, final) := by
    induction run with
    | done =>
        intro limit _
        cases limit with
        | zero => rfl
        | succ limit => simp [iterateUpTo, failed]
    | step answered shorter _ inductionHypothesis =>
        intro limit enough
        cases limit with
        | zero => omega
        | succ limit =>
            simp only [iterateUpTo, answered]
            exact inductionHypothesis failed limit (by omega)
  exact upTo _ (Nat.le_refl _)

end Run

theorem iterate_fails {step : α → Reader α} {value : α} (failed : step value input = none) :
    iterate step value input = some (value, input) :=
  Run.done.iterate_eq failed

/-- The answers of a reader one after the other, each of which reads something. -/
inductive Repeats (reader : Reader α) : Input → List α → Input → Prop where
  | nil {input : Input} : Repeats reader input [] input
  | cons {value : α} {values : List α} {input next final : Input}
      (answered : reader input = some (value, next))
      (shorter : next.rest.length < input.rest.length)
      (more : Repeats reader next values final) : Repeats reader input (value :: values) final

theorem Repeats.many_eq {reader : Reader α} {values : List α} {final : Input}
    (repeats : Repeats reader input values final) (failed : reader final = none) :
    many reader input = some (values, final) := by
  -- The answers are collected in front of those that came before.
  have run : ∀ before : List α, Run (fun values => do return (← reader) :: values) before input
      (values.reverse ++ before) final := by
    induction repeats with
    | nil => exact fun before => .done
    | cons answered shorter _ inductionHypothesis =>
        intro before
        rw [List.reverse_cons, List.append_assoc]
        refine .step ?_ shorter (inductionHypothesis failed _)
        rw [bind_step answered]
        rfl
  unfold many
  rw [bind_step ((run []).iterate_eq (bind_fails failed _))]
  simp [pure_step]

/-- A reader of single characters reads a text one by one, right behind what was read before. -/
theorem repeats_chars {reader : Reader α} {accepts : Char → Bool} {value : Char → α}
    (each : ∀ {input : Input} {c : Char} {rest : List Char}, input.rest = c :: rest →
      accepts c = true → reader input = some (value c, input.consume [c] rest))
    {text rest : List Char} (accepted : text.all accepts = true)
    (split : input.rest = text ++ rest) (behind : input.stop = input.offset) :
    Repeats reader input (text.map value) (input.consume text rest) := by
  induction text generalizing input with
  | nil =>
      rw [List.nil_append] at split
      rw [← split, Input.consume_nil behind]
      exact .nil
  | cons c text inductionHypothesis =>
      simp only [List.all_cons, Bool.and_eq_true] at accepted
      have onward := @inductionHypothesis (input.consume [c] (text ++ rest)) accepted.2 rfl rfl
      rw [Input.consume_consume] at onward
      exact .cons (each split accepted.1) (by simp [split]) onward

theorem many_fails {reader : Reader α} (failed : reader input = none) :
    many reader input = some ([], input) :=
  Repeats.nil.many_eq failed

/-! ## Between tokens -/

/-- The text starts with a token, or is at its end: nothing is passed over before it. -/
def startsToken : List Char → Bool
  | [] => true
  | c :: _ => !isSeparator c && c != '/' && c != '<' && c != '-'

theorem commentAt?_of_startsToken {text : List Char} (starts : startsToken text = true) :
    commentAt? text = none := by
  unfold commentAt?
  split <;> simp_all [startsToken]

theorem htmlCommentAt?_of_startsToken {text : List Char} (starts : startsToken text = true) :
    htmlCommentAt? text = none := by
  unfold htmlCommentAt?
  split <;> simp_all [startsToken]

theorem passSeparators_step {lead rest : List Char} (split : input.rest = lead ++ rest)
    (blank : lead.all isSeparator = true) (starts : startsToken rest = true) :
    passSeparators input = some ((), input.pass lead rest) := by
  have stops : ∀ c ∈ rest.head?, isSeparator c = false := by
    intro c isHead
    cases rest with
    | nil => simp at isHead
    | cons d rest =>
        simp only [List.head?_cons, Option.mem_some_iff] at isHead
        simp only [startsToken, Bool.and_eq_true, Bool.not_eq_true'] at starts
        exact isHead ▸ starts.1.1.1
  have takes : (lead ++ rest).takeWhile isSeparator = lead := by
    rw [List.takeWhile_append_of_pos (by simpa using blank)]
    cases rest with
    | nil => simp
    | cons d rest => simp [stops d rfl]
  have drops : (lead ++ rest).dropWhile isSeparator = rest := by
    rw [List.dropWhile_append_of_pos (by simpa using blank)]
    cases rest with
    | nil => simp
    | cons d rest => simp [stops d rfl]
  simp [passSeparators, split, takes, drops]

/-- Blanks before a token are passed over. -/
theorem skip_blank {lead rest : List Char} (split : input.rest = lead ++ rest)
    (blank : lead.all isSeparator = true) (starts : startsToken rest = true) :
    skip input = some ((), input.pass lead rest) := by
  unfold skip
  rw [bind_step (passSeparators_step split blank starts)]
  refine iterate_fails (bind_fails ?_ _)
  simp [passComment, Input.pass, commentAt?_of_startsToken starts]

theorem skipBefore_blank {lead rest : List Char} (split : input.rest = lead ++ rest)
    (blank : lead.all isSeparator = true) (starts : startsToken rest = true) :
    skipBefore input = some ((), input.pass lead rest) := by
  unfold skipBefore
  rw [bind_step (passSeparators_step split blank starts)]
  refine iterate_fails (bind_fails ?_ _)
  rw [orElse_fails (by simp [passComment, Input.pass, commentAt?_of_startsToken starts])]
  simp [passHtmlComment, Input.pass, htmlCommentAt?_of_startsToken starts]

theorem skip_token (starts : startsToken input.rest = true) : skip input = some ((), input) := by
  rw [@skip_blank _ [] input.rest rfl rfl starts, Input.pass_nil]

theorem skipBefore_token (starts : startsToken input.rest = true) :
    skipBefore input = some ((), input) := by
  rw [@skipBefore_blank _ [] input.rest rfl rfl starts, Input.pass_nil]

theorem position_token (starts : startsToken input.rest = true) :
    position input = some (input.offset, input) := by
  unfold position
  rw [bind_step (skip_token starts), bind_step get_step]
  rfl

theorem position_blank {lead rest : List Char} (split : input.rest = lead ++ rest)
    (blank : lead.all isSeparator = true) (starts : startsToken rest = true) :
    position input = some ((input.pass lead rest).offset, input.pass lead rest) := by
  unfold position
  rw [bind_step (skip_blank split blank starts), bind_step get_step]
  rfl

/-! ## Punctuators -/

/-- A punctuator stands at the start of a text. -/
def standsAt (text : List Char) (candidate : String) : Bool :=
  match stripStart? candidate.toList text with
  | some (c :: _) => !(candidate == "?." && c.isDigit)
  | some [] => true
  | none => false

theorem longestPunctuator?_eq (text : List Char) :
    longestPunctuator? text = punctuators.find? (standsAt text) := rfl

/-- The punctuators that start with a character. -/
def punctuatorsAt (c : Char) : List String :=
  punctuators.filter fun candidate => candidate.toList.head? == some c

theorem head?_of_standsAt {text : List Char} {candidate : String}
    (stands : standsAt text candidate = true) (given : candidate.toList ≠ []) :
    candidate.toList.head? = text.head? := by
  unfold standsAt at stands
  cases spelled : candidate.toList with
  | nil => exact absurd spelled given
  | cons c start =>
      cases text with
      | nil => simp [spelled, stripStart?] at stands
      | cons d text =>
          by_cases same : c = d
          · simp [same]
          · simp [spelled, stripStart?, same] at stands

/-- Only the punctuators that start with the first character of a text can stand there. -/
theorem longestPunctuator?_cons (c : Char) (rest : List Char) :
    longestPunctuator? (c :: rest) = (punctuatorsAt c).find? (standsAt (c :: rest)) := by
  have given : ∀ candidate ∈ punctuators, candidate.toList ≠ [] := by decide +kernel
  rw [longestPunctuator?_eq, punctuatorsAt, List.find?_filter]
  revert given
  induction punctuators with
  | nil => exact fun _ => rfl
  | cons candidate more inductionHypothesis =>
      intro given
      have onward := inductionHypothesis fun other member => given other (List.mem_cons_of_mem _ member)
      rw [List.find?_cons, List.find?_cons, onward]
      cases stands : standsAt (c :: rest) candidate with
      | false => simp
      | true =>
          have head := head?_of_standsAt stands (given candidate List.mem_cons_self)
          simp [head]

/-- Characters that are punctuators and start no longer one. -/
def marks : List Char := ['(', ')', '[', ']', '\x7b', '\x7d', ',', ';', ':']

theorem longestPunctuator?_mark {c : Char} (isMark : c ∈ marks) (rest : List Char) :
    longestPunctuator? (c :: rest) = some (String.ofList [c]) := by
  have alone : ∀ c ∈ marks, punctuatorsAt c = [String.ofList [c]] :=
    forall_mem_of_all (by decide +kernel)
  have named : ∀ c ∈ marks, (String.ofList [c] == "?.") = false :=
    forall_mem_of_all (by decide +kernel)
  rw [longestPunctuator?_cons, alone c isMark]
  have stands : standsAt (c :: rest) (String.ofList [c]) = true := by
    unfold standsAt
    rw [named c isMark]
    cases rest <;> simp [stripStart?]
  rw [List.find?_cons, stands]

/-- No punctuator starts a text whose first character is no punctuation. -/
theorem longestPunctuator?_none {text : List Char}
    (other : ∀ c ∈ text.head?, isPunctuation c = false ∨ c = '"') :
    longestPunctuator? text = none := by
  have punctuation : ∀ candidate ∈ punctuators,
      ∃ c, candidate.toList.head? = some c ∧ isPunctuation c = true ∧ c ≠ '"' := by
    have checked : punctuators.all (fun candidate =>
        candidate.toList.head?.any fun c => isPunctuation c && c != '"') = true := by decide +kernel
    intro candidate member
    simpa [Option.any_eq_true] using List.all_eq_true.mp checked candidate member
  rw [longestPunctuator?_eq, List.find?_eq_none]
  intro candidate member stands
  obtain ⟨c, head, isMark, notQuote⟩ := punctuation candidate member
  have given : candidate.toList ≠ [] := fun empty => by simp [empty] at head
  rcases other c (by rw [← head?_of_standsAt stands given, head]; rfl) with plain | quote
  · simp [plain] at isMark
  · exact notQuote quote

section Token

variable {lead rest : List Char}

theorem punctuator_step {found : String} (split : input.rest = lead ++ (found.toList ++ rest))
    (blank : lead.all isSeparator = true) (starts : startsToken (found.toList ++ rest) = true)
    (longest : longestPunctuator? (found.toList ++ rest) = some found) :
    punctuator input = some (found, input.consume (lead ++ found.toList) rest) := by
  unfold punctuator
  rw [bind_step (skip_blank split blank starts), bind_step unread_step]
  simp only [Input.rest_pass, longest]
  rw [bind_step (exactly_step rfl)]
  exact congrArg (fun next => some (found, next)) (input.consume_pass lead found.toList _ rest)

theorem punct_step {expected : String} (split : input.rest = lead ++ (expected.toList ++ rest))
    (blank : lead.all isSeparator = true) (starts : startsToken (expected.toList ++ rest) = true)
    (longest : longestPunctuator? (expected.toList ++ rest) = some expected) :
    punct expected input = some ((), input.consume (lead ++ expected.toList) rest) := by
  unfold punct
  rw [bind_step (punctuator_step split blank starts longest)]
  exact ensure_step (beq_self_eq_true expected)

theorem longestPunctuator?_of_punctuator {found : String} (split : input.rest = lead ++ rest)
    (blank : lead.all isSeparator = true) (starts : startsToken rest = true)
    (read : punctuator input = some (found, next)) : longestPunctuator? rest = some found := by
  unfold punctuator at read
  rw [bind_step (skip_blank split blank starts), bind_step unread_step] at read
  simp only [Input.rest_pass] at read
  cases longest : longestPunctuator? rest with
  | none =>
      simp only [longest] at read
      cases read
  | some other =>
      simp only [longest] at read
      cases taken : exactly other.toList (input.pass lead rest) with
      | none =>
          rw [bind_fails taken] at read
          cases read
      | some answer =>
          rw [bind_step taken] at read
          cases read
          rfl

theorem punct_fails {expected : String} (split : input.rest = lead ++ rest)
    (blank : lead.all isSeparator = true) (starts : startsToken rest = true)
    (other : longestPunctuator? rest ≠ some expected) : punct expected input = none := by
  unfold punct
  cases read : punctuator input with
  | none => exact bind_fails read _
  | some answer =>
      have longest := longestPunctuator?_of_punctuator split blank starts read
      rw [bind_step read]
      refine ensure_fails ?_
      rw [longest] at other
      simpa using other

/-! ## Marks -/

theorem startsToken_mark {c : Char} (isMark : c ∈ marks) : startsToken (c :: rest) = true := by
  have checked : ∀ c ∈ marks, startsToken [c] = true := forall_mem_of_all (by decide +kernel)
  exact checked c isMark

theorem punct_mark {c : Char} {expected : String} (spelled : expected.toList = [c])
    (isMark : c ∈ marks) (split : input.rest = lead ++ c :: rest)
    (blank : lead.all isSeparator = true) :
    punct expected input = some ((), input.consume (lead ++ [c]) rest) := by
  have named : String.ofList [c] = expected := by rw [← spelled, String.ofList_toList]
  have read := @punct_step input lead rest expected (by rw [spelled]; exact split) blank
    (by rw [spelled]; exact startsToken_mark isMark)
    (by rw [spelled, ← named]; exact longestPunctuator?_mark isMark rest)
  rw [spelled] at read
  exact read

theorem punct_here {c : Char} {expected : String} (spelled : expected.toList = [c])
    (isMark : c ∈ marks) (split : input.rest = c :: rest) :
    punct expected input = some ((), input.consume [c] rest) :=
  @punct_mark input [] rest c expected spelled isMark split rfl

theorem punct_mark_fails {c : Char} {expected : String} (other : expected.toList ≠ [c])
    (isMark : c ∈ marks) (split : input.rest = lead ++ c :: rest)
    (blank : lead.all isSeparator = true) : punct expected input = none := by
  refine punct_fails split blank (startsToken_mark isMark) ?_
  rw [longestPunctuator?_mark isMark]
  intro same
  have named := Option.some.inj same
  exact other (by rw [← named, String.toList_ofList])

theorem atPunct_true {expected : String} (answered : punct expected input = some ((), next)) :
    atPunct expected input = some (true, input) :=
  looks_true answered

theorem atPunct_false {expected : String} (failed : punct expected input = none) :
    atPunct expected input = some (false, input) :=
  looks_false failed

/-! ## Words -/

/-- The characters make up a name, each written as itself. -/
def isWord : List Char → Bool
  | [] => false
  | c :: more => isNameStart c && more.all isNamePart

/-- No name goes on at the start of a text. -/
def endsName : List Char → Bool
  | [] => true
  | c :: _ => !isNamePart c && c != '\\'

theorem isPunctuation_of_isNamePart {c : Char} (isPart : isNamePart c = true) :
    isSeparator c = false ∧ isPunctuation c = false := by
  simpa [isNamePart, and_assoc] using (Bool.and_eq_true_iff.mp isPart |>.imp_left fun first =>
    (Bool.and_eq_true_iff.mp first).2)

theorem startsToken_of_isNamePart {c : Char} (isPart : isNamePart c = true) :
    startsToken (c :: rest) = true := by
  obtain ⟨notBlank, notMark⟩ := isPunctuation_of_isNamePart isPart
  have other : ∀ d, isPunctuation d = true → c ≠ d := fun d isMark same => by
    simp [same, isMark] at notMark
  simp [startsToken, notBlank, other '/' (by decide), other '<' (by decide), other '-' (by decide)]

theorem startsToken_of_isWord {name : List Char} (isName : isWord name = true) :
    startsToken (name ++ rest) = true := by
  cases name with
  | nil => cases isName
  | cons c more =>
      simp only [isWord, isNameStart, Bool.and_eq_true] at isName
      exact startsToken_of_isNamePart isName.1.1

theorem nameCharacter_step {accepts : Char → Bool} {c : Char} (split : input.rest = c :: rest)
    (accepted : accepts c = true) :
    nameCharacter accepts input = some ([c], input.consume [c] rest) := by
  unfold nameCharacter
  rw [orElse_step]
  rw [bind_step (char_step split accepted)]
  rfl

theorem nameCharacter_fails {accepts : Char → Bool}
    (refused : ∀ c ∈ input.rest.head?, accepts c = false ∧ c ≠ '\\') :
    nameCharacter accepts input = none := by
  have noEscape : input.rest.head? ≠ some '\\' := fun isHead => (refused _ isHead).2 rfl
  unfold nameCharacter
  rw [orElse_fails (bind_fails (char_fails fun c isHead => (refused c isHead).1) _),
    orElse_fails (bind_fails (exactly_fails noEscape) _), bind_fails (exactly_fails noEscape)]

theorem nameHere_step {name : List Char} (split : input.rest = name ++ rest)
    (isName : isWord name = true) (ends : endsName rest = true) :
    nameHere input = some (String.ofList name, input.consume name rest) := by
  cases name with
  | nil => cases isName
  | cons c more =>
      simp only [isWord, Bool.and_eq_true] at isName
      obtain ⟨starts, parts⟩ := isName
      have first := @nameCharacter_step input (more ++ rest) isNameStart c split starts
      have behind := @repeats_chars _ (input.consume [c] (more ++ rest)) _ isNamePart (fun c => [c])
        nameCharacter_step more rest parts rfl rfl
      have stops : nameCharacter isNamePart ((input.consume [c] (more ++ rest)).consume more rest) =
          none := by
        refine nameCharacter_fails ?_
        cases rest with
        | nil => simp
        | cons d rest => simpa [endsName] using ends
      unfold nameHere
      rw [bind_step first, bind_step (behind.many_eq stops), Input.consume_consume,
        ← List.flatMap_def, List.flatMap_singleton']
      rfl

theorem word_step {name : List Char} (split : input.rest = lead ++ (name ++ rest))
    (blank : lead.all isSeparator = true) (isName : isWord name = true)
    (ends : endsName rest = true) :
    word input = some (String.ofList name, input.consume (lead ++ name) rest) := by
  have starts : startsToken (name ++ rest) = true := startsToken_of_isWord isName
  unfold word
  rw [bind_step (skip_blank split blank starts), nameHere_step rfl isName ends,
    Input.consume_pass]

theorem word_fails (split : input.rest = lead ++ rest) (blank : lead.all isSeparator = true)
    (starts : startsToken rest = true)
    (noName : ∀ c ∈ rest.head?, isNameStart c = false ∧ c ≠ '\\') : word input = none := by
  unfold word
  rw [bind_step (skip_blank split blank starts)]
  unfold nameHere
  exact bind_fails (nameCharacter_fails noName) _

theorem wordNode_step {name : List Char} (kind : Kind)
    (split : input.rest = lead ++ (name ++ rest)) (blank : lead.all isSeparator = true)
    (isName : isWord name = true) (ends : endsName rest = true) :
    wordNode kind input =
      some (.mk kind none ⟨input.offset + Text.byteLength lead,
        input.offset + Text.byteLength (lead ++ name)⟩ [], input.consume (lead ++ name) rest) := by
  have starts : startsToken (name ++ rest) = true := startsToken_of_isWord isName
  unfold wordNode
  rw [bind_step (position_blank split blank starts),
    bind_step (@word_step _ [] rest _ rfl rfl isName ends), finish_step, List.nil_append,
    Input.consume_pass]
  rfl

theorem wordNode_fails {kind : Kind} (split : input.rest = lead ++ rest)
    (blank : lead.all isSeparator = true) (starts : startsToken rest = true)
    (noName : ∀ c ∈ rest.head?, isNameStart c = false ∧ c ≠ '\\') : wordNode kind input = none := by
  unfold wordNode
  rw [bind_step (position_blank split blank starts)]
  exact bind_fails (@word_fails _ [] rest rfl rfl starts noName) _

theorem nextWord_step {name : List Char} (split : input.rest = lead ++ (name ++ rest))
    (blank : lead.all isSeparator = true) (isName : isWord name = true)
    (ends : endsName rest = true) : nextWord input = some (some (String.ofList name), input) := by
  simp [nextWord, word_step split blank isName ends]

theorem nextWord_none (failed : word input = none) : nextWord input = some (none, input) := by
  simp [nextWord, failed]

theorem keyword_step {name : List Char} {expected : String} (spelled : expected.toList = name)
    (split : input.rest = lead ++ (name ++ rest)) (blank : lead.all isSeparator = true)
    (isName : isWord name = true) (ends : endsName rest = true) :
    keyword expected input = some ((), input.consume (lead ++ name) rest) := by
  unfold keyword
  rw [bind_step (word_step split blank isName ends)]
  refine ensure_step ?_
  rw [← spelled, String.ofList_toList]
  exact beq_self_eq_true expected

/-! ## Strings and numbers -/

/-- The characters stand for themselves in a string in double quotes. -/
def isPlainText (text : List Char) : Bool :=
  text.all fun c => c != '"' && c != '\\' && c != '\r' && c != '\n'

theorem chars_step {accepts : Char → Bool} {text : List Char} (split : input.rest = text ++ rest)
    (accepted : text.all accepts = true) (refused : ∀ c ∈ rest.head?, accepts c = false) :
    chars accepts input = some (text, input.consume text rest) := by
  have takes : (text ++ rest).takeWhile accepts = text := by
    rw [List.takeWhile_append_of_pos (by simpa using accepted)]
    cases rest with
    | nil => simp
    | cons c rest => simp [refused c rfl]
  have drops : (text ++ rest).dropWhile accepts = rest := by
    rw [List.dropWhile_append_of_pos (by simpa using accepted)]
    cases rest with
    | nil => simp
    | cons c rest => simp [refused c rfl]
  simp [chars, split, takes, drops]

theorem passSeparators_token (starts : startsToken input.rest = true) :
    passSeparators input = some ((), input) := by
  rw [@passSeparators_step _ [] input.rest rfl rfl starts, Input.pass_nil]

/-- The closing quote is no piece of a string. -/
theorem stringPiece_fails (split : input.rest = '"' :: rest) : stringPiece '"' input = none := by
  have starts : startsToken input.rest = true := by
    rw [split]
    rfl
  unfold stringPiece
  rw [orElse_fails (bind_fails (char_fails (by simp [split])) _),
    orElse_fails (by unfold escape; exact bind_fails (exactly_fails (by simp [split])) _),
    bind_step (passSeparators_token starts)]
  simp [passComment, commentAt?_of_startsToken starts]

/-- The text between the quotes is one piece, unless it is empty. -/
theorem exists_many_stringPiece {text : List Char} (split : input.rest = text ++ '"' :: rest)
    (plain : isPlainText text = true) (behind : input.stop = input.offset) :
    ∃ values, many (stringPiece '"') input =
      some (values, input.consume text ('"' :: rest)) := by
  cases text with
  | nil =>
      have same : input.consume [] ('"' :: rest) = input := by
        rw [List.nil_append] at split
        rw [← split, Input.consume_nil behind]
      rw [same]
      exact ⟨[], many_fails (stringPiece_fails split)⟩
  | cons c more =>
      simp only [isPlainText, List.all_cons] at plain
      obtain ⟨first, others⟩ := Bool.and_eq_true_iff.mp plain
      have piece : stringPiece '"' input =
          some ((), input.consume (c :: more) ('"' :: rest)) := by
        unfold stringPiece
        rw [orElse_step]
        rw [bind_step (char_step split first), bind_step (chars_step rfl others (by simp)),
          Input.consume_consume]
        rfl
      have repeats : Repeats (stringPiece '"') input [()]
          (input.consume (c :: more) ('"' :: rest)) := by
        refine .cons piece ?_ .nil
        simp only [split, Input.rest_consume, List.length_append, List.length_cons]
        omega
      exact ⟨[()], repeats.many_eq (stringPiece_fails rfl)⟩

theorem string_step {text : List Char} (split : input.rest = lead ++ '"' :: (text ++ '"' :: rest))
    (blank : lead.all isSeparator = true) (plain : isPlainText text = true) :
    string input =
      some (.mk .string none ⟨input.offset + Text.byteLength lead,
        input.offset + Text.byteLength (lead ++ '"' :: (text ++ ['"']))⟩ [],
        input.consume (lead ++ '"' :: (text ++ ['"'])) rest) := by
  have opened : (input.pass lead ('"' :: (text ++ '"' :: rest))).consume ['"'] (text ++ '"' :: rest) =
      input.consume (lead ++ ['"']) (text ++ '"' :: rest) := Input.consume_pass ..
  obtain ⟨values, pieces⟩ := @exists_many_stringPiece
    (input.consume (lead ++ ['"']) (text ++ '"' :: rest)) rest text rfl plain rfl
  rw [Input.consume_consume] at pieces
  unfold string
  rw [bind_step (position_blank split blank rfl), bind_step (char_step rfl rfl), opened,
    bind_step pieces, bind_step (passSeparators_token rfl), bind_step (@exactly_step _ ['"'] rest rfl),
    finish_step, Input.consume_consume]
  simp

theorem string_fails (split : input.rest = lead ++ rest) (blank : lead.all isSeparator = true)
    (starts : startsToken rest = true) (noQuote : ∀ c ∈ rest.head?, c ≠ '"' ∧ c ≠ '\'') :
    string input = none := by
  unfold string
  rw [bind_step (position_blank split blank starts)]
  refine bind_fails (char_fails fun c isHead => ?_) _
  simpa using noQuote c isHead

/-- The text starts with a character that closes a list or separates its items, with a line end, or
is at its end. -/
def atClosing : List Char → Bool
  | [] => true
  | c :: _ => [',', ')', ']', '\x7d', '\n'].contains c

theorem basedInteger_fails {small large : Char} {accepts : Char → Bool}
    (noBase : ∀ c ∈ input.rest.tail.head?, c ≠ small ∧ c ≠ large) :
    basedInteger small large accepts input = none := by
  unfold basedInteger
  cases split : input.rest with
  | nil => exact bind_fails (exactly_fails (by simp [split])) _
  | cons c more =>
      by_cases zero : c = '0'
      · subst zero
        rw [bind_step (@exactly_step _ ['0'] more split)]
        refine bind_fails (char_fails fun d isHead => ?_) _
        simpa using noBase d (by rw [split]; exact isHead)
      · exact bind_fails (exactly_fails (by simp [split, zero])) _

/-- Digits are read one by one. -/
theorem digits_step {c : Char} {more : List Char} (split : input.rest = c :: (more ++ rest))
    (isDigit : c.isDigit = true) (areDigits : more.all Char.isDigit = true)
    (ends : ∀ d ∈ rest.head?, d.isDigit = false ∧ d ≠ '_') :
    digits Char.isDigit input = some (c :: more, input.consume (c :: more) rest) := by
  have each : ∀ {input : Input} {c : Char} {rest : List Char}, input.rest = c :: rest →
      c.isDigit = true → (do let _ ← maybe (exactly ['_']); char Char.isDigit : Reader Char) input =
        some (c, input.consume [c] rest) := by
    intro input c rest split isDigit
    have other : c ≠ '_' := by
      intro same
      subst same
      cases isDigit
    rw [bind_step (maybe_fails (exactly_fails (by simp [split, other])))]
    exact char_step split isDigit
  have behind := @repeats_chars _ (input.consume [c] (more ++ rest)) _ Char.isDigit id
    each more rest areDigits rfl rfl
  rw [List.map_id, Input.consume_consume] at behind
  have stops : (do let _ ← maybe (exactly ['_']); char Char.isDigit : Reader Char)
      (input.consume (c :: more) rest) = none := by
    rw [bind_step (maybe_fails (exactly_fails fun isHead => (ends '_' isHead).2 rfl))]
    exact char_fails fun d isHead => (ends d isHead).1
  unfold digits
  rw [bind_step (char_step split isDigit), bind_step (behind.many_eq stops)]
  rfl

/-- What holds of the ten digits holds of every digit. -/
theorem forall_isDigit {property : Char → Prop} [DecidablePred property]
    (checked : ∀ n < 10, property (Char.ofNat (48 + n))) {c : Char} (isDigit : c.isDigit = true) :
    property c := by
  obtain ⟨low, high⟩ : 48 ≤ c.toNat ∧ c.toNat ≤ 57 := by
    simp only [Char.isDigit, Bool.and_eq_true, decide_eq_true_eq] at isDigit
    exact ⟨UInt32.le_iff_toNat_le.mp isDigit.1, UInt32.le_iff_toNat_le.mp isDigit.2⟩
  have found := checked (c.toNat - 48) (by omega)
  rwa [Nat.add_sub_cancel' low, Char.ofNat_toNat] at found

/-- What follows a number ends it. -/
theorem of_atClosing {property : Char → Prop} [DecidablePred property]
    (checked : ([',', ')', ']', '\x7d', '\n'].all fun c => property c) = true)
    (closing : atClosing rest = true) : ∀ c ∈ rest.head?, property c := by
  intro c isHead
  cases rest with
  | nil => cases isHead
  | cons d rest =>
      cases isHead
      exact forall_mem_of_all checked c (List.contains_iff_mem.mp closing)

theorem number_step {c : Char} {more : List Char} (split : input.rest = lead ++ c :: (more ++ rest))
    (blank : lead.all isSeparator = true) (isDigit : c.isDigit = true)
    (areDigits : more.all Char.isDigit = true) (closing : atClosing rest = true) :
    number input =
      some (.mk .number none ⟨input.offset + Text.byteLength lead,
        input.offset + Text.byteLength (lead ++ c :: more)⟩ [],
        input.consume (lead ++ c :: more) rest) := by
  have starts : startsToken (c :: (more ++ rest)) = true :=
    @forall_isDigit (fun c => startsToken [c] = true) _ (by decide) c isDigit
  -- No letter for another base follows the first digit.
  have second : ∀ d ∈ (more ++ rest).head?, d ∉ ['x', 'X', 'o', 'O', 'b', 'B'] := by
    intro d isHead
    cases more with
    | nil =>
        exact @of_atClosing rest (· ∉ ['x', 'X', 'o', 'O', 'b', 'B']) _ (by decide) closing d isHead
    | cons e more =>
        cases isHead
        simp only [List.all_cons, Bool.and_eq_true] at areDigits
        exact @forall_isDigit (· ∉ ['x', 'X', 'o', 'O', 'b', 'B']) _ (by decide) _ areDigits.1
  have ends := @of_atClosing rest (fun d => d.isDigit = false ∧ d ≠ '_') _ (by decide) closing
  have decimal : decimalNumber (input.pass lead (c :: (more ++ rest))) =
      some ((), input.consume (lead ++ c :: more) rest) := by
    have notPoint : c ≠ '.' := @forall_isDigit (· ≠ '.') _ (by decide) c isDigit
    have noTail := @of_atClosing rest (· ∉ ['n', '.', 'e', 'E']) _ (by decide) closing
    have read := @digits_step (input.pass lead (c :: (more ++ rest))) rest c more rfl isDigit
      areDigits ends
    rw [Input.consume_pass] at read
    unfold decimalNumber
    rw [orElse_fails (bind_fails (exactly_fails (by simpa using notPoint)) _), bind_step read,
      bind_step (maybe_fails _)]
    · rfl
    · rw [orElse_fails (exactly_fails fun isHead => by simpa using noTail 'n' isHead)]
      cases takes : takesFraction (c :: more) with
      | false => exact bind_fails (ensure_fails rfl) _
      | true =>
          rw [bind_step (ensure_step rfl), orElse_fails (bind_fails
            (exactly_fails fun isHead => by simpa using noTail '.' isHead) _)]
          unfold exponent
          refine bind_fails (char_fails fun d isHead => ?_) _
          have other := noTail d isHead
          simp_all
  have based : ∀ small large accepts, small ∈ ['x', 'o', 'b'] → large ∈ ['X', 'O', 'B'] →
      basedInteger small large accepts (input.pass lead (c :: (more ++ rest))) = none := by
    intro small large accepts isSmall isLarge
    refine basedInteger_fails fun d isHead => ?_
    have other := second d isHead
    simp only [List.mem_cons, List.not_mem_nil, or_false, not_or] at isSmall isLarge other
    constructor
    · rintro rfl
      simp_all
    · rintro rfl
      simp_all
  unfold number
  rw [bind_step (position_blank split blank starts), bind_step (by
    rw [orElse_fails (based 'x' 'X' _ (by simp) (by simp)),
      orElse_fails (based 'o' 'O' _ (by simp) (by simp)),
      orElse_fails (based 'b' 'B' _ (by simp) (by simp)), decimal])]
  rfl

theorem number_fails (split : input.rest = lead ++ rest) (blank : lead.all isSeparator = true)
    (starts : startsToken rest = true)
    (noDigit : ∀ c ∈ rest.head?, c.isDigit = false ∧ c ≠ '.') : number input = none := by
  have noZero : ∀ small large accepts,
      basedInteger small large accepts (input.pass lead rest) = none := by
    intro small large accepts
    unfold basedInteger
    exact bind_fails (exactly_fails fun isHead => absurd (noDigit '0' isHead).1 (by decide)) _
  have noDecimal : decimalNumber (input.pass lead rest) = none := by
    unfold decimalNumber digits
    rw [orElse_fails (bind_fails (exactly_fails fun isHead => (noDigit '.' isHead).2 rfl) _)]
    exact bind_fails (bind_fails (char_fails fun c isHead => (noDigit c isHead).1) _) _
  unfold number
  rw [bind_step (position_blank split blank starts)]
  refine bind_fails ?_ _
  rw [orElse_fails (noZero ..), orElse_fails (noZero ..), orElse_fails (noZero ..), noDecimal]

end Token

end Reader

end PatternScript.Script
