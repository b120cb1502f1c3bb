import LetWhile.Proofs.Fault.Located
import LetWhile.Proofs.Program.Declarations
import LetWhile.Proofs.Program.Drawn
import LetWhile.Proofs.Scanning.Words
import LetWhile.Proofs.Typing.Stage

/-!
# Faults of each stage

A source is scanned, nested, read and checked, and the stage of a fault says how far it came.
Reading is one stage after another only at the top: a function literal is an expression with a block
in it, whose statements have types and expressions, so faults of outlining, of expressions and of
types all come out of reading (`Cause.OfReading`, `Reader.ofBudget_finds`). The stages do not share
faults otherwise (`Source.fault_stages`).
-/

namespace LetWhile

variable {P : Type}

/-- An outcome is a fault if one of its two steps is. -/
theorem Outcome.bind_eq_error {α β : Type} {outcome : Outcome P α} {next : α → Outcome P β}
    {fault : Fault P} : (outcome >>= next) = .error fault ↔
      outcome = .error fault ∨ ∃ a, outcome = .ok a ∧ next a = .error fault := by
  cases outcome with
  | error found =>
    refine ⟨fun h => ?_, fun h => ?_⟩
    · cases h
      exact .inl rfl
    · rcases h with h | ⟨a, ha, -⟩
      · cases h
        rfl
      · cases ha
  | ok a =>
    refine ⟨fun h => .inr ⟨a, rfl, h⟩, fun h => ?_⟩
    rcases h with h | ⟨b, hb, h⟩
    · cases h
    · cases hb
      exact h

/-- The cause of an outcome's fault, if it is one, has a property. -/
def Outcome.Finds {α : Type} (p : Cause → Prop) (outcome : Outcome P α) : Prop :=
  ∀ fault, outcome = .error fault → p fault.cause

namespace Outcome.Finds
variable {α β γ : Type} {p : Cause → Prop}

/-- A value has no fault with another cause. -/
theorem ok (a : α) : Finds (P := P) p (.ok a) := nofun

/-- A fault is found if its cause has the property. -/
theorem error {fault : Fault P} (h : p fault.cause) : Finds (α := α) p (.error fault) := by
  rintro _ ⟨⟩
  exact h

/-- What holds of all causes of some stages holds of faults in these stages. -/
theorem of_faultsIn {stages : Stage → Prop} {outcome : Outcome P α} (h : outcome.FaultsIn stages)
    (hp : ∀ cause, stages cause.stage → p cause) : outcome.Finds p :=
  fun fault hf => hp _ (h fault hf)

/-- What is bound finds what both parts find. -/
theorem bind {outcome : Outcome P α} {next : α → Outcome P β} (h : outcome.Finds p)
    (hnext : ∀ a, outcome = .ok a → (next a).Finds p) : Finds p (outcome >>= next) := by
  intro fault hf
  rcases bind_eq_error.1 hf with hf | ⟨a, ha, hf⟩
  · exact h fault hf
  · exact hnext a ha fault hf

/-- A list is read with what its items are read with. -/
theorem mapM {read : γ → Outcome P α} {items : List γ} (h : ∀ item ∈ items, (read item).Finds p) :
    Finds p (items.mapM read) := by
  induction items with
  | nil => exact ok []
  | cons item items ih =>
    obtain ⟨hitem, hitems⟩ := List.forall_mem_cons.1 h
    rw [List.mapM_cons]
    exact hitem.bind fun a _ => (ih hitems).bind fun more _ => ok (a :: more)

/-- A run over a list finds what each of its steps finds. -/
theorem foldlM {step : β → γ → Outcome P β} {items : List γ}
    (h : ∀ b, ∀ item ∈ items, (step b item).Finds p) (b : β) : Finds p (items.foldlM step b) := by
  induction items generalizing b with
  | nil => exact ok b
  | cons item items ih =>
    rw [List.foldlM_cons]
    exact (h b item (.head _)).bind fun b _ => ih (fun b item hi => h b item (.tail _ hi)) b

end Outcome.Finds

/-! ## Scanning and nesting -/

/-- Scanning finds faults of its own stage only. -/
theorem Source.tokens_faultsIn (source : Source) : source.tokens.FaultsIn (· = .scanning) := by
  rintro fault h
  cases hscan : Token.scan source.text.toList with
  | error found =>
    rw [tokens, hscan] at h
    cases h
    exact (Token.stands_of_scanFrom 0 source.text.toList hscan [] rfl rfl).1
  | ok found =>
    rw [tokens, hscan] at h
    cases h

/-- Matching brackets finds that they do not match or are nested too deep. -/
theorem Nesting.nestFrom_faultsIn (limit : Nat) (tokens : List (Token P)) :
    ∀ (opened : List (Opened P)) (before : List (Tree P)),
      (nestFrom limit opened before tokens).FaultsIn (· ∈ [.nesting, .depth]) := by
  induction tokens with
  | nil =>
    intro opened before
    cases opened with
    | nil => exact .ok _
    | cons group outer => exact .error (.head _)
  | cons token tokens ih =>
    intro opened before
    rcases token.kind.bracket_cases with hleaf | ⟨bracket, hopening⟩ | ⟨bracket, hclosing⟩
    · rw [nestFrom_leaf tokens hleaf]
      exact ih _ _
    · rcases Nat.lt_or_ge opened.length limit with hlimit | hlimit
      · rw [nestFrom_opening tokens hopening hlimit]
        exact ih _ _
      · rw [nestFrom_tooDeep tokens hopening hlimit]
        exact .error (.tail _ (.head _))
    · cases opened with
      | nil =>
        rw [nestFrom_unopened tokens hclosing]
        exact .error (.head _)
      | cons group outer =>
        by_cases hb : group.bracket = bracket
        · subst hb
          rw [nestFrom_closing tokens hclosing]
          exact ih _ _
        · rw [nestFrom_mismatched tokens hclosing hb]
          exact .error (.head _)

/-- Nesting fails for brackets that do not match and for depth only. -/
theorem nest_faultsIn (limit : Nat) (origin : P) (tokens : List (Token P)) :
    (nest limit origin tokens).FaultsIn (· ∈ [.nesting, .depth]) :=
  (Nesting.nestFrom_faultsIn limit tokens [] []).map _

/-! ## Reading -/

/-- The stages whose faults come out of reading. -/
def Stage.reading : List Stage := [.outlining, .expressions, .types, .depth]

/-- What can be wrong with trees whose tokens are drawn from some words. A number is at fault only
if it is one of the words and stands for no integer. -/
def Cause.OfReading (word : Kind → String → Prop) (cause : Cause) : Prop :=
  cause.stage ∈ Stage.reading ∧
    ∀ text, cause = .invalidNumber text → word .number text ∧ Text.integerOf text = none

section
variable {word : Kind → String → Prop}

/-- A cause of another stage than that of expressions is not about a number. -/
theorem Cause.OfReading.of_stage {cause : Cause} (h : cause.stage ∈ Stage.reading)
    (hne : cause.stage ≠ .expressions) : cause.OfReading word :=
  ⟨h, fun _ hnumber => absurd (congrArg Cause.stage hnumber) hne⟩

/-- A cause among those of expressions is one of reading, unless it is about a number. -/
theorem Cause.OfReading.of_expressions {cause : Cause} (h : cause.stage = .expressions)
    (hne : ∀ text, cause ≠ .invalidNumber text) : cause.OfReading word :=
  ⟨by rw [h]; decide, fun text hnumber => absurd hnumber (hne text)⟩

/-- Outlining finds causes of reading only. -/
theorem Outline.ofRegion_finds (region : Region P) :
    (ofRegion region).Finds (Cause.OfReading word) :=
  .of_faultsIn (ofRegion_faultsIn region) fun cause h =>
    .of_stage (by rw [h]; decide) (by rw [h]; decide)

/-- Reading a type finds causes of reading only. -/
theorem Ty.ofTrees_finds (limit budget : Nat) (origin : P) (trees : List (Tree P)) :
    (Ty.ofTrees limit budget origin trees).Finds (Cause.OfReading word) := by
  refine .of_faultsIn (Ty.ofTrees_faultsIn limit budget origin trees) fun cause h => ?_
  rcases h with h | h <;> exact .of_stage (by rw [h]; decide) (by rw [h]; decide)

namespace Reader

/-- The readings one level deeper find in what is drawn from words what can be wrong with it. -/
structure Finds (word : Kind → String → Prop) (inner : Reader P) : Prop where
  expr : ∀ origin trees, Tree.Holds (Token.Drawn word) trees →
    (inner.expr origin trees).Finds (Cause.OfReading word)
  type : ∀ origin trees, (inner.type origin trees).Finds (Cause.OfReading word)
  block : ∀ outline, outline.Drawn word → (inner.block outline).Finds (Cause.OfReading word)

/-- Reading a token finds causes of reading only: a number that stands for nothing is the text of a
number token. -/
theorem readToken_finds {token : Token P} (h : token.Drawn word) :
    (readToken token).Finds (Cause.OfReading word) := by
  unfold readToken
  split
  · exact .ok _
  · exact .ok _
  · rename_i hk
    rw [Token.Drawn, hk] at h
    split
    · exact .ok _
    · rename_i hnone
      have hstage : Stage.expressions ∈ Stage.reading := by decide
      refine .error ⟨hstage, fun text htext => ?_⟩
      cases htext
      exact ⟨h, hnone⟩
  · exact .ok _
  · exact .error (.of_expressions rfl (by rintro _ ⟨⟩))

/-- Reading the name of a parameter finds causes of reading only. -/
theorem parameterName_finds (origin : P) (part : List (Tree P)) :
    (parameterName origin part).Finds (Cause.OfReading word) := by
  unfold parameterName
  split
  · exact .error (.of_expressions rfl (by rintro _ ⟨⟩))
  · split
    · exact .ok _
    · exact .error (.of_expressions rfl (by rintro _ ⟨⟩))

variable {inner : Reader P}

/-- Reading a primary finds what the reader finds in its parentheses, or a tree that is no
primary. -/
theorem readPrimary_finds (hi : inner.Finds word) {tree : Tree P}
    (h : Tree.Holds (Token.Drawn word) [tree]) :
    (inner.readPrimary tree).Finds (Cause.OfReading word) := by
  unfold readPrimary
  split
  · exact readToken_finds (Tree.holds_leaf.1 h)
  · exact hi.expr _ _ (Tree.holds_group.1 h)
  · exact .error (.of_expressions rfl (by rintro _ ⟨⟩))

/-- Reading a prefix operation finds an operator that is none, or what the reader finds. -/
theorem readPrefixed_finds (hi : inner.Finds word) (token : Token P) {rest : List (Tree P)}
    (h : Tree.Holds (Token.Drawn word) rest) :
    (inner.readPrefixed token rest).Finds (Cause.OfReading word) := by
  unfold readPrefixed
  split
  · exact .error (.of_expressions rfl (by rintro _ ⟨⟩))
  · exact (hi.expr _ _ h).bind fun _ _ => .ok _

/-- Reading a call finds what the reader finds in its callee and its arguments. -/
theorem readCall_finds (hi : inner.Finds word) {callee : Tree P} {args : Region P}
    (hcallee : Tree.Holds (Token.Drawn word) [callee])
    (hargs : Tree.Holds (Token.Drawn word) args.trees) :
    (inner.readCall callee args).Finds (Cause.OfReading word) :=
  (readPrimary_finds hi hcallee).bind fun _ _ =>
    (Outcome.Finds.mapM fun part hpart =>
      hi.expr _ part (hargs.of_slice (Tree.isInfix_of_mem_commaParts hpart))).bind fun _ _ => .ok _

/-- Reading a function literal finds what reading its parameters and its body finds. -/
theorem readFunction_finds (hword : WellSpelled word) (hi : inner.Finds word) (params : Region P)
    {body : Region P} (hbody : Tree.Holds (Token.Drawn word) body.trees) :
    (inner.readFunction params body).Finds (Cause.OfReading word) :=
  (Outcome.Finds.mapM fun part _ => parameterName_finds _ part).bind fun _ _ =>
    (Outline.ofRegion_finds body).bind fun outline houtline =>
      (hi.block outline (Outline.ofRegion_drawn hword hbody houtline)).bind fun _ _ => .ok _

/-- Reading a chain finds what reading its operands finds, or an operator that is none. -/
theorem readChain_finds (hi : inner.Finds word) (origin : P) {trees : List (Tree P)}
    (h : Tree.Holds (Token.Drawn word) trees) :
    (inner.readChain origin trees).Finds (Cause.OfReading word) := by
  unfold readChain
  simp only
  split
  · split
    · exact .error (.of_expressions rfl (by rintro _ ⟨⟩))
    · exact .error (.of_expressions rfl (by rintro _ ⟨⟩))
  · rename_i power hlowest
    have hcuts := Chain.cut_cuts (Chain.atLeast_lowestPower? hlowest)
    refine (hi.expr _ _ (h.of_slice hcuts.operand_isPrefix.isInfix)).bind fun first _ =>
      .foldlM (fun left link hlink => ?_) first
    obtain ⟨hoperand, -⟩ := hcuts.link_isInfix link hlink
    exact (hi.expr _ _ (h.of_slice hoperand)).bind fun _ _ => .ok _

/-- One level of reading expressions finds what can be wrong, if the levels below do. -/
theorem readSlice_finds (hword : WellSpelled word) (hi : inner.Finds word) (origin : P)
    {trees : List (Tree P)} (h : Tree.Holds (Token.Drawn word) trees) :
    (inner.readSlice origin trees).Finds (Cause.OfReading word) := by
  unfold readSlice
  split
  · exact .error (.of_expressions rfl (by rintro _ ⟨⟩))
  · exact readPrimary_finds hi h
  · split
    · exact readPrefixed_finds hi _ (Tree.holds_cons.1 h).2
    · split
      · rename_i hshape
        obtain ⟨-, ht⟩ := shapeOf_eq_call hshape
        rw [ht] at h
        obtain ⟨hcallee, hargs⟩ := Tree.holds_cons.1 h
        exact readCall_finds hi hcallee (Tree.holds_group.1 hargs)
      · rename_i hshape
        obtain ⟨arrow, -, ht⟩ := shapeOf_eq_function hshape
        rw [ht] at h
        obtain ⟨-, h⟩ := Tree.holds_cons.1 h
        obtain ⟨-, hbody⟩ := Tree.holds_cons.1 h
        exact readFunction_finds hword hi _ (Tree.holds_group.1 hbody)
      · exact readChain_finds hi origin h

/-- Reading a statement finds what reading its parts finds. -/
theorem readStmt_finds (hi : inner.Finds word) {outline : Outline.Stmt P} (h : outline.Drawn word) :
    (inner.readStmt outline).Finds (Cause.OfReading word) := by
  unfold readStmt
  split
  · exact (hi.type _ _).bind fun _ _ => (hi.expr _ _ h.2.2).bind fun _ _ => .ok _
  · exact (hi.expr _ _ h.2).bind fun _ _ => .ok _
  · exact (hi.expr _ _ h.1).bind fun _ _ => (hi.block _ h.2.1).bind fun _ _ =>
      (hi.block _ h.2.2).bind fun _ _ => .ok _
  · exact (hi.expr _ _ h.1).bind fun _ _ => (hi.block _ h.2).bind fun _ _ => .ok _
  · exact (hi.expr _ _ h).bind fun _ _ => .ok _
  · exact .ok _
  · exact (hi.expr _ _ h).bind fun _ _ => .ok _

/-- One level of reading blocks finds what can be wrong, if the levels below do. -/
theorem readBlock_finds (hi : inner.Finds word) {outline : Outline.Block P}
    (h : outline.Drawn word) : (inner.readBlock outline).Finds (Cause.OfReading word) := by
  cases outline with
  | mk outlines span =>
    exact (Outcome.Finds.mapM fun stmt hstmt =>
      readStmt_finds hi (Outline.Stmt.AllDrawn.of_mem h hstmt)).bind fun _ _ => .ok _

/-- Readings find only what can be wrong, whatever their budget. -/
theorem ofBudget_finds (hword : WellSpelled word) (limit budget : Nat) :
    (ofBudget (P := P) limit budget).Finds word := by
  induction budget with
  | zero =>
    have hdepth : Stage.depth ∈ Stage.reading := by decide
    have hne : Stage.depth ≠ Stage.expressions := by decide
    exact ⟨fun _ _ _ => .error (.of_stage hdepth hne), Ty.ofTrees_finds limit 0,
      fun _ _ => .error (.of_stage hdepth hne)⟩
  | succ budget ih =>
    exact ⟨fun origin _ h => readSlice_finds hword ih origin h, Ty.ofTrees_finds limit (budget + 1),
      fun _ h => readBlock_finds ih h⟩

end Reader

end

/-! ## Sources -/

namespace Source
variable {source : Source} {limit : Nat} {fault : Fault Position}

/-- What it means that a source is refused: it spells no program, or one that is not well typed. -/
theorem checkWithin_eq_error_iff : source.checkWithin limit = .error fault ↔
    source.program limit = .error fault ∨ ∃ program, source.program limit = .ok program ∧
      (Session.builtin.run program).2 = .error fault := by
  unfold checkWithin
  rw [Outcome.bind_eq_error]
  refine or_congr_right (exists_congr fun program => and_congr_right fun _ => ?_)
  rw [Outcome.bind_eq_error]
  refine ⟨fun h => h.resolve_right ?_, .inl⟩
  rintro ⟨returns, -, h⟩
  cases h

/-- What it means that a source spells no program: it has no tokens, these are not well nested, or
their trees cannot be read. -/
theorem program_eq_error_iff : source.program limit = .error fault ↔
    source.tokens = .error fault ∨
    (∃ tokens, source.tokens = .ok tokens ∧ nest limit (source.place 0) tokens = .error fault) ∨
    ∃ region, source.region limit (source.place 0) = .ok region ∧
      (Outline.ofRegion region >>= Block.ofOutline limit limit) = .error fault := by
  unfold program region Block.ofTokens
  simp only [Outcome.bind_eq_error, Outcome.bind_eq_ok]
  grind

/-- What is not scanned is not checked. -/
theorem checkWithin_of_tokens_error (h : source.tokens = .error fault) :
    source.checkWithin limit = .error fault :=
  checkWithin_eq_error_iff.2 (.inl (program_eq_error_iff.2 (.inl h)))

/-- What is wrong with trees is found by reading them. -/
theorem program_finds {word : Kind → String → Prop} {tokens : List (Token Position)}
    {region : Region Position} (htokens : source.tokens = .ok tokens) (hword : WellSpelled word)
    (hdrawn : ∀ token ∈ tokens, token.Drawn word)
    (hnest : nest limit (source.place 0) tokens = .ok region) :
    (source.program limit).Finds (Cause.OfReading word) := by
  have htrees := Tree.holds_of_nest hnest hdrawn
  rw [program_eq htokens, Block.ofTokens, hnest]
  exact (Outline.ofRegion_finds region).bind fun outline houtline =>
    (Reader.ofBudget_finds hword limit limit).block outline
      (Outline.ofRegion_drawn hword htrees houtline)

/-- Once the brackets match, what can go wrong with a program is its reading. -/
theorem stage_of_region {region : Region Position}
    (hregion : source.region limit (source.place 0) = .ok region)
    (h : source.program limit = .error fault) : fault.cause.stage ∈ Stage.reading := by
  obtain ⟨tokens, htokens, hnest⟩ := Outcome.bind_eq_ok.1 hregion
  exact (program_finds htokens Kind.admits_wellSpelled (tokens_admitted htokens) hnest fault h).1

/-- Where there is no program, what is wrong is found before typing. -/
theorem stage_ne_typing_of_program (h : source.program limit = .error fault) :
    fault.cause.stage ≠ .typing := by
  rcases program_eq_error_iff.1 h with htokens | ⟨tokens, -, hnest⟩ | ⟨region, hregion, -⟩
  · rw [source.tokens_faultsIn fault htokens]
    decide
  · have hstage := nest_faultsIn limit (source.place 0) tokens fault hnest
    intro htyping
    rw [htyping] at hstage
    exact absurd hstage (by decide)
  · have hstage := stage_of_region hregion h
    intro htyping
    rw [htyping] at hstage
    exact absurd hstage (by decide)

/-- Behind scanning, no fault is one of scanning. -/
theorem tokens_of_stage_scanning (h : source.checkWithin limit = .error fault)
    (hstage : fault.cause.stage = .scanning) : source.tokens = .error fault := by
  rcases checkWithin_eq_error_iff.1 h with hprogram | ⟨program, -, hrun⟩
  · rcases program_eq_error_iff.1 hprogram with htokens | ⟨tokens, -, hnest⟩ | ⟨region, hregion, -⟩
    · exact htokens
    · have hnesting := nest_faultsIn limit (source.place 0) tokens fault hnest
      rw [hstage] at hnesting
      exact absurd hnesting (by decide)
    · have hreading := stage_of_region hregion hprogram
      rw [hstage] at hreading
      exact absurd hreading (by decide)
  · have htyping := Session.builtin.run_faultsIn program fault hrun
    cases hstage.symm.trans htyping

end Source

/-- The stage of a fault says how far its source came. It is that of scanning exactly if there are
no tokens. If there are, but not well nested, it is that of nesting or of depth; if there are trees
but no program, it is one of those that reading consists of; and it is that of typing exactly if
there is a program, which is not well typed. Outlining by itself has faults of its own stage only,
and so has the reading of types, if they are not nested too deep. -/
theorem Source.fault_stages (source : Source) (limit : Nat) :
    (∀ fault, source.checkWithin limit = .error fault ∧ fault.cause.stage = .scanning ↔
      source.tokens = .error fault) ∧
    (∀ tokens fault, source.tokens = .ok tokens →
      nest limit (source.place 0) tokens = .error fault →
        source.checkWithin limit = .error fault ∧ fault.cause.stage ∈ [.nesting, .depth]) ∧
    (∀ region fault, source.region limit (source.place 0) = .ok region →
      source.program limit = .error fault → source.checkWithin limit = .error fault ∧
        fault.cause.stage ∈ [.outlining, .expressions, .types, .depth]) ∧
    (∀ fault, source.checkWithin limit = .error fault ∧ fault.cause.stage = .typing ↔
      ∃ program, source.program limit = .ok program ∧
        (Session.builtin.run program).2 = .error fault) ∧
    (∀ (trees : List (Tree Position)) fault, Outline.ofTrees trees = .error fault →
      fault.cause.stage = .outlining) ∧
    ∀ budget origin (trees : List (Tree Position)) fault,
      Ty.ofTrees limit budget origin trees = .error fault →
        fault.cause.stage ∈ [.types, .depth] := by
  refine ⟨fun fault => ⟨fun h => ?_, fun h => ?_⟩, fun tokens fault htokens hnest => ?_,
    fun region fault hregion h => ?_, fun fault => ⟨fun h => ?_, fun h => ?_⟩,
    fun trees => Outline.ofTrees_faultsIn trees, fun budget origin trees fault h => ?_⟩
  · exact tokens_of_stage_scanning h.1 h.2
  · exact ⟨checkWithin_of_tokens_error h, source.tokens_faultsIn fault h⟩
  · have hprogram : source.program limit = .error fault :=
      program_eq_error_iff.2 (.inr (.inl ⟨tokens, htokens, hnest⟩))
    exact ⟨checkWithin_eq_error_iff.2 (.inl hprogram), nest_faultsIn _ _ _ fault hnest⟩
  · exact ⟨checkWithin_eq_error_iff.2 (.inl h), stage_of_region hregion h⟩
  · exact (checkWithin_eq_error_iff.1 h.1).resolve_left fun hprogram =>
      stage_ne_typing_of_program hprogram h.2
  · obtain ⟨program, hprogram, hrun⟩ := h
    exact ⟨checkWithin_eq_error_iff.2 (.inr ⟨program, hprogram, hrun⟩),
      Session.builtin.run_faultsIn program fault hrun⟩
  · rcases Ty.ofTrees_faultsIn limit budget origin trees fault h with hstage | hstage
    · exact hstage ▸ .head _
    · exact hstage ▸ .tail _ (.head _)

/-- A source for each stage. -/
example :
    let stage? (text : String) (limit : Nat) : Option Stage :=
      match (Source.mk text Source.shell).checkWithin limit with
      | .ok _ => none
      | .error fault => some fault.cause.stage
    stage? "§" 4 = some .scanning ∧ stage? "(x;" 4 = some .nesting ∧
      stage? "let x = 1;" 4 = some .outlining ∧ stage? "1 +;" 4 = some .expressions ∧
      stage? "let x: int = 1;" 4 = some .types ∧ stage? "x;" 4 = some .typing ∧
      stage? "x;" 1 = some .depth ∧ stage? "1;" 4 = none := by
  decide +kernel

end LetWhile
