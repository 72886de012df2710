import PatternScript.Proofs.Script.Faults
import PatternScript.Proofs.Script.WellFormed
import PatternScript.Proofs.Script.Wrapping
import PatternScript.Transpile

/-!
Contract: which texts made of one phrase are programs.

A text is a program if its tree marks no fault. What is left behind the last statement that can be read
is a fault, wherever it is found to start and to end.

Owns: when a text is accepted, and programs of one statement.
Does not own: statements, and which fault is reported.
-/

namespace PatternScript.Script

open Reader

/-! ## Reading -/

theorem readProgram_of_parse {source : SourceText} {tree : Node} (parsed : parse source.chars = tree)
    (faultless : tree.hasFault = false) : readProgram source = .ok tree := by
  rw [readProgram, requireSound, parsed, (Node.firstFault?_eq_none_iff tree).mpr faultless]

/-- Transpiling a text is transpiling its tree. -/
theorem transpile_of_parse {chars : List Char} {tree : Node} (parsed : parse chars = tree)
    (faultless : tree.hasFault = false) (options : Options) (registry : Registry) :
    transpile (String.ofList chars) options registry =
      transpileTree (.ofChars chars) tree options registry := by
  have read : readProgram (.ofChars chars) = .ok tree :=
    readProgram_of_parse parsed faultless
  rw [transpile, SourceText.ofString, String.toList_ofList, read]
  rfl

theorem transpile_of_readProgram {text : String} {tree : Node}
    (read : readProgram (.ofString text) = .ok tree) (options : Options) (registry : Registry) :
    transpile text options registry = transpileTree (.ofString text) tree options registry := by
  simp only [transpile, read]
  rfl

theorem transpile_of_unreadable {text : String} {error : TranspileError}
    (unread : readProgram (.ofString text) = .error error) (options : Options)
    (registry : Registry) : transpile text options registry = .error error := by
  simp only [transpile, unread]
  rfl

/-- A text is accepted exactly if its tree marks no fault. -/
theorem exists_readProgram_iff (source : SourceText) :
    (∃ tree, readProgram source = .ok tree) ↔ (parse source.chars).hasFault = false := by
  rw [← Node.firstFault?_eq_none_iff, readProgram, requireSound]
  cases (parse source.chars).firstFault? with
  | none => simp
  | some fault => simp

/-! ## Comments -/

theorem attachAll_nil {nodes : List Node} (each : ∀ node ∈ nodes, attach [] node = node) :
    attachAll [] nodes = nodes := by
  induction nodes with
  | nil => rfl
  | cons node more inductionHypothesis =>
      rw [List.forall_mem_cons] at each
      rw [attachAll, List.filter_nil, each.1, inductionHypothesis each.2]

theorem attach_nil (node : Node) : attach [] node = node := by
  induction node using Node.induction with
  | step kind role range children inductionHypothesis =>
      rw [attach, attachAll_nil inductionHypothesis, List.filter_nil]
      simp [interleave]

theorem exists_mem_attachAll {node : Node} {nodes : List Node} (comments : List Node)
    (member : node ∈ nodes) : ∃ inside, attach inside node ∈ attachAll comments nodes := by
  induction nodes with
  | nil => cases member
  | cons first more inductionHypothesis =>
      rw [attachAll]
      rcases List.mem_cons.mp member with rfl | later
      · exact ⟨_, List.mem_cons_self⟩
      · obtain ⟨inside, found⟩ := inductionHypothesis later
        exact ⟨inside, List.mem_cons_of_mem _ found⟩

/-- Comments do not hide a fault. -/
theorem hasFault_attach {kind : Kind} {role : Option Role} {range : ByteRange} {children : List Node}
    {fault : Node} (comments : List Node) (member : fault ∈ children) (isFault : fault.isFault = true) :
    (attach comments (.mk kind role range children)).hasFault = true := by
  obtain ⟨inside, found⟩ := exists_mem_attachAll comments member
  have faulty : (attach inside fault).hasFault = true := by
    cases fault with
    | mk kind role range children =>
        have kindFault : kind.isFault = true := isFault
        rw [attach, Node.hasFault, kindFault, Bool.true_or]
  rw [attach, interleave, Node.hasFault,
    Node.anyFault_iff.mpr ⟨_, List.mem_merge.mpr (.inl found), faulty⟩, Bool.or_true]

/-! ## Programs of one statement -/

section OneStatement

variable {input : Input} {chars : List Char} {depth : Nat}

theorem hashBangLine_fails (starts : startsToken input.rest = true)
    (other : input.rest.head? ≠ some '#') : hashBangLine input = none := by
  unfold hashBangLine
  rw [bind_step (skip_token starts), bind_step (position_token starts)]
  exact bind_fails (exactly_fails other) _

/-- No statement starts at the end of a program. -/
theorem statement_end_fails (finished : input.rest = []) :
    Grammar.statement (Grammar.upTo depth) input = none := by
  have starts : startsToken input.rest = true := by
    rw [finished]
    rfl
  have noWord : word input = none := @word_fails input [] [] finished rfl rfl (by simp)
  rw [Grammar.statement_plain starts (by simp [finished]) noWord]
  refine Grammar.expressionStatement_fails starts ?_
  cases depth with
  | zero => rfl
  | succ depth =>
      refine Grammar.expression_fails ?_
      unfold Grammar.element
      refine bind_fails ?_ _
      unfold Grammar.binary
      refine bind_fails ?_ _
      unfold Grammar.operand
      rw [bind_step (skipBefore_token starts), bind_step peek_step]
      simp only [finished, List.head?_nil]
      rw [bind_step (nextWord_none noWord)]
      unfold Grammar.assignable
      refine bind_fails ?_ _
      unfold Grammar.primary
      rw [bind_step (skipBefore_token starts), bind_step peek_step]
      simp only [finished, List.head?_nil]
      rfl

/-- A text without comments that statements make up is the program of these statements. -/
theorem parse_of_leading {children : List Node}
    (read : leadingStatements (Grammar.upTo (depthBound chars.length)) (.ofChars chars) =
      some (children, input)) (finished : input.rest = []) (uncommented : input.comments = []) :
    parse chars = .mk .program none ⟨0, Text.byteLength chars⟩ children := by
  unfold parse
  simp only
  rw [bind_step read, bind_step unread_step, finished]
  simp only [List.isEmpty_nil, if_true]
  rw [pure_step]
  simp only [uncommented, List.reverse_nil]
  exact attach_nil _

/-- What is found of the statements that make up a text without comments holds of its tree. -/
theorem exists_parse_of_leading {holds : List Node → Bool}
    (found : ((leadingStatements (Grammar.upTo (depthBound chars.length)) (.ofChars chars)).any
      fun answer => answer.2.rest.isEmpty && answer.2.comments.isEmpty && holds answer.1) = true) :
    ∃ children, parse chars = .mk .program none ⟨0, Text.byteLength chars⟩ children ∧
      holds children = true := by
  cases read : leadingStatements (Grammar.upTo (depthBound chars.length)) (.ofChars chars) with
  | none => simp [read] at found
  | some answer =>
      simp only [read, Option.any_some, Bool.and_eq_true, List.isEmpty_iff] at found
      obtain ⟨⟨finished, uncommented⟩, holding⟩ := found
      exact ⟨answer.1, parse_of_leading read finished uncommented, holding⟩

/-- What is found of the tree that the statements make up holds of the program. -/
theorem readProgram_of_leading {holds : Node → Bool}
    (found : ((leadingStatements (Grammar.upTo (depthBound chars.length)) (.ofChars chars)).any
      fun answer => answer.2.rest.isEmpty && answer.2.comments.isEmpty &&
        (let tree := Node.mk .program none ⟨0, Text.byteLength chars⟩ answer.1
        !tree.hasFault && holds tree)) = true) :
    ∃ program, readProgram (.ofChars chars) = .ok program ∧ holds program = true := by
  obtain ⟨children, parsed, holding⟩ := @exists_parse_of_leading chars (fun children =>
    let tree := Node.mk .program none ⟨0, Text.byteLength chars⟩ children
    !tree.hasFault && holds tree) found
  simp only [Bool.and_eq_true, Bool.not_eq_true'] at holding
  exact ⟨_, readProgram_of_parse parsed holding.1, holding.2⟩

/-- What is found of the tree that the statements make up holds of the transpiled text. -/
theorem transpile_of_leading {options : Options} {registry : Registry}
    {holds : Except TranspileError Transpiled → Bool}
    (found : ((leadingStatements (Grammar.upTo (depthBound chars.length)) (.ofChars chars)).any
      fun answer => answer.2.rest.isEmpty && answer.2.comments.isEmpty &&
        (let tree := Node.mk .program none ⟨0, Text.byteLength chars⟩ answer.1
        !tree.hasFault && holds (transpileTree (.ofChars chars) tree options registry))) = true) :
    holds (transpile (String.ofList chars) options registry) = true := by
  obtain ⟨program, read, holding⟩ := @readProgram_of_leading chars
    (fun tree => holds (transpileTree (.ofChars chars) tree options registry)) found
  have readString : readProgram (.ofString (String.ofList chars)) = .ok program := by
    rw [SourceText.ofString, String.toList_ofList, read]
  rw [transpile_of_readProgram readString, SourceText.ofString, String.toList_ofList]
  exact holding

theorem exists_transpile_of_leading {options : Options} {registry : Registry}
    {holds : Transpiled → Bool}
    (found : ((leadingStatements (Grammar.upTo (depthBound chars.length)) (.ofChars chars)).any
      fun answer => answer.2.rest.isEmpty && answer.2.comments.isEmpty &&
        (let tree := Node.mk .program none ⟨0, Text.byteLength chars⟩ answer.1
        !tree.hasFault &&
          (transpileTree (.ofChars chars) tree options registry).toOption.any holds)) = true) :
    ∃ result, transpile (String.ofList chars) options registry = .ok result ∧
      holds result = true := by
  have answered := @transpile_of_leading chars options registry
    (fun answer => answer.toOption.any holds) found
  cases transpiled : transpile (String.ofList chars) options registry with
  | error error =>
      rw [transpiled] at answered
      cases answered
  | ok result =>
      rw [transpiled] at answered
      exact ⟨result, rfl, answered⟩

/-- A text that is one statement is a program. -/
theorem parse_of_statement {node : Node} {text : List Char} (deep : depthBound chars.length = depth + 1)
    (starts : startsToken chars = true) (other : chars.head? ≠ some '#') (nonempty : chars ≠ [])
    (read : Grammar.statement (Grammar.upTo depth) (.ofChars chars) =
      some (node, (Input.ofChars chars).consume text [])) :
    parse chars = .mk .program none ⟨0, Text.byteLength chars⟩ [node] := by
  have statements : many (Grammar.upTo (depth + 1) .statement) (.ofChars chars) =
      some ([node], (Input.ofChars chars).consume text []) := by
    refine (Repeats.cons read ?_ .nil).many_eq (statement_end_fails rfl)
    exact List.length_pos_iff.mpr nonempty
  have leading : leadingStatements (Grammar.upTo (depth + 1)) (.ofChars chars) =
      some ([node], (Input.ofChars chars).consume text []) := by
    unfold leadingStatements
    rw [bind_step (maybe_fails (hashBangLine_fails starts other)), bind_step statements,
      bind_step (skipBefore_token rfl)]
    rfl
  rw [← deep] at leading
  exact parse_of_leading leading rfl rfl

theorem isFault_of_danglingLabel {node : Node} {next : Input}
    (read : danglingLabel input = some (node, next)) : node.isFault = true := by
  unfold danglingLabel at read
  obtain ⟨_, _, _, read⟩ := exists_of_bind read
  obtain ⟨_, _, _, read⟩ := exists_of_bind read
  obtain ⟨_, _, _, read⟩ := exists_of_bind read
  obtain ⟨_, _, _, read⟩ := exists_of_bind read
  obtain ⟨_, _, _, read⟩ := exists_of_bind read
  obtain ⟨_, _, _, read⟩ := exists_of_bind read
  cases read
  rfl

theorem isFault_of_fault {self : Grammar.Recursor} {node : Node} {next : Input}
    (read : fault self input = some (node, next)) : node.isFault = true := by
  unfold fault at read
  obtain ⟨start, _, _, read⟩ := exists_of_bind read
  obtain ⟨head, here, _, read⟩ := exists_of_bind read
  cases head with
  | none => cases read
  | some c =>
      simp only at read
      split at read
      · obtain ⟨_, _, _, read⟩ := exists_of_bind read
        cases read
        rfl
      · cases labelled : danglingLabel here with
        | some answer =>
            rw [orElse_step labelled] at read
            cases read
            exact isFault_of_danglingLabel labelled
        | none =>
            rw [orElse_fails labelled] at read
            obtain ⟨_, _, _, read⟩ := exists_of_bind read
            cases read
            rfl

/-- A text that starts with no statement is not a program. -/
theorem hasFault_parse (deep : depthBound chars.length = depth + 1)
    (starts : startsToken chars = true) (other : chars.head? ≠ some '#') (nonempty : chars ≠ [])
    (failed : Grammar.statement (Grammar.upTo depth) (.ofChars chars) = none) :
    (parse chars).hasFault = true := by
  have statements : many (Grammar.upTo (depth + 1) .statement) (.ofChars chars) =
      some ([], .ofChars chars) := many_fails failed
  have leading : leadingStatements (Grammar.upTo (depth + 1)) (.ofChars chars) =
      some ([], .ofChars chars) := by
    unfold leadingStatements
    rw [bind_step (maybe_fails (hashBangLine_fails starts other)), bind_step statements,
      bind_step (skipBefore_token starts)]
    rfl
  have unfinished : (Input.ofChars chars).rest.isEmpty = false := by
    simpa [Input.ofChars] using nonempty
  unfold parse
  rw [deep]
  simp only
  rw [bind_step leading, bind_step unread_step, unfinished]
  simp only [Bool.false_eq_true, if_false]
  cases found : fault (Grammar.upTo (depth + 1)) (.ofChars chars) with
  | none =>
      rw [bind_fails found]
      rfl
  | some answer =>
      rw [bind_step found]
      exact hasFault_attach _ (List.mem_singleton.mpr rfl) (isFault_of_fault found)

end OneStatement

/-! ## Programs of one phrase -/

/-- The program that a phrase makes up: its value is returned or not, and the statement stands in a
function that may await or not. -/
def Phrase.program (returned isAsync : Bool) (phrase : Phrase) : List Char :=
  if isAsync then
    '(' :: ("async".toList ++ ' ' :: '(' :: ')' :: ' ' :: '=' :: '>' :: ' ' ::
      '\x7b' :: (['\n'] ++ (phrase.line returned ++ '\n' :: '\x7d' :: [')', '(', ')'])))
  else phrase.line returned

section Programs

variable {phrase : Phrase}

theorem length_le_program (phrase : Phrase) (returned isAsync : Bool) :
    phrase.text.length ≤ (phrase.program returned isAsync).length := by
  have inLine : phrase.text.length ≤ (phrase.line returned).length := by
    cases returned with
    | true => simp [Phrase.line_true]; omega
    | false => exact Nat.le_refl _
  cases isAsync with
  | true => simp [Phrase.program]; omega
  | false => exact inLine

/-- Nothing stands before the first token of a program, and it is no line for a program loader. -/
theorem program_starts (isPhrase : phrase.isPhrase = true) (isStatement : phrase.isStatement = true)
    (returned isAsync : Bool) :
    startsToken (phrase.program returned isAsync) = true ∧
      (phrase.program returned isAsync).head? ≠ some '#' ∧ phrase.program returned isAsync ≠ [] := by
  cases isAsync with
  | true => exact ⟨rfl, by simp [Phrase.program], by simp [Phrase.program]⟩
  | false =>
      cases returned with
      | true => exact ⟨rfl, by simp [Phrase.program, Phrase.line], by simp [Phrase.program, Phrase.line]⟩
      | false =>
          obtain ⟨c, more, spelled, opens⟩ := Grammar.exists_opensStatement isPhrase isStatement
          have other := (of_opensStatement opens).2.2
          simp only [Phrase.program, Bool.false_eq_true, if_false, Phrase.line_false, spelled]
          refine ⟨startsToken_of_opens opens, fun isHash => other ?_, by simp⟩
          simp only [List.head?_cons, Option.some.injEq] at isHash
          simp [isHash]

/-- The bound on the nesting depth of a program is far from being reached. -/
theorem exists_depthBound (returned isAsync : Bool) (nonempty : phrase.program returned isAsync ≠ []) :
    ∃ depth, depthBound (phrase.program returned isAsync).length = depth + 4 + 1 ∧
      phrase.depth ≤ depth := by
  have short := Phrase.depth_le_length phrase
  have long := length_le_program phrase returned isAsync
  have positive := List.length_pos_iff.mpr nonempty
  refine ⟨4 * (phrase.program returned isAsync).length - 1, ?_, by omega⟩
  rw [depthBound]
  omega

/-- A sound phrase is a program of one statement, without more. -/
theorem parse_phrase (isPhrase : phrase.isPhrase = true) (isStatement : phrase.isStatement = true)
    (isSound : phrase.isSound = true) :
    parse phrase.text = .mk .program none ⟨0, phrase.bytes⟩
      [.mk .expressionStatement none ⟨0, phrase.bytes⟩ [phrase.tree 0]] := by
  have notPair := Phrase.isPair_of_isStatement isStatement
  have split : (Input.ofChars phrase.text).rest = phrase.text ++ [] := (List.append_nil _).symm
  obtain ⟨starts, other, nonempty⟩ := program_starts isPhrase isStatement false false
  obtain ⟨depth, bound, deep⟩ := @exists_depthBound phrase false false nonempty
  have chain := (Grammar.readsUpTo_of_isSound phrase isPhrase isSound (depth + 3) (by omega)).1 notPair
  have read := @Grammar.expressionStatement_phrase (Grammar.upTo (depth + 4)) (.ofChars phrase.text) []
    phrase (Grammar.lead_text phrase isPhrase notPair)
    (Grammar.expression_of_chains isPhrase notPair chain) split rfl
  rw [← Grammar.statement_phrase isPhrase isStatement split rfl] at read
  have parsed : parse phrase.text = _ := parse_of_statement bound starts other nonempty read
  rw [parsed]
  simp [Input.ofChars, Phrase.bytes]

/-- A program that a phrase makes up marks a fault exactly if the phrase is not sound. -/
theorem hasFault_parse_program (isPhrase : phrase.isPhrase = true)
    (isStatement : phrase.isStatement = true) (returned isAsync : Bool) :
    (parse (phrase.program returned isAsync)).hasFault = !phrase.isSound := by
  obtain ⟨starts, other, nonempty⟩ := program_starts isPhrase isStatement returned isAsync
  obtain ⟨depth, bound, deep⟩ := exists_depthBound returned isAsync nonempty
  -- Either way the one statement of the program decides.
  have decided : (phrase.isSound = true → ∃ node text, node.hasFault = false ∧
        Grammar.statement (Grammar.upTo (depth + 4)) (.ofChars (phrase.program returned isAsync)) =
          some (node, (Input.ofChars (phrase.program returned isAsync)).consume text [])) ∧
      (phrase.isSound = false →
        Grammar.statement (Grammar.upTo (depth + 4)) (.ofChars (phrase.program returned isAsync)) =
          none) := by
    cases isAsync with
    | true =>
        obtain ⟨reads, refuses⟩ := @Grammar.statement_async (.ofChars (phrase.program returned true))
          phrase depth returned isPhrase isStatement deep _ rfl rfl
        refine ⟨fun isSound => ?_, refuses⟩
        obtain ⟨range, children, text, faultless, read⟩ := reads isSound
        exact ⟨_, text, by rw [Node.hasFault, faultless]; rfl, read⟩
    | false =>
        obtain ⟨reads, refuses⟩ := @Grammar.statement_line (.ofChars (phrase.program returned false)) [] []
          phrase (depth + 3) returned isPhrase isStatement (by omega) rfl (List.append_nil _).symm rfl
        refine ⟨fun isSound => ?_, refuses⟩
        obtain ⟨node, faultless, read⟩ := reads isSound
        exact ⟨node, _, faultless, read⟩
  cases isSound : phrase.isSound with
  | true =>
      obtain ⟨node, text, faultless, read⟩ := decided.1 isSound
      rw [parse_of_statement bound starts other nonempty read, Node.hasFault, Node.anyFault, faultless]
      rfl
  | false => exact hasFault_parse bound starts other nonempty (decided.2 isSound)

end Programs

end PatternScript.Script
