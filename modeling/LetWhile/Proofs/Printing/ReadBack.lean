import LetWhile.Proofs.Printing.Spelled
import LetWhile.Proofs.Printing.Written
import LetWhile.Proofs.Program.Depth
import LetWhile.Source

/-!
# Written programs are read back

A program that is written with infix operators is read back from any file, but for its places, if
the limit is large enough (`Source.program_infixText`). A program without operators is written as it
is shown.
-/

namespace LetWhile

variable {P : Type}

/-! ## Programs without operators -/

mutual

/-- An expression without operators. -/
def Expr.OperatorFree : Expr P → Prop
  | .boolean _ _ | .number _ _ | .string _ _ | .symbol _ _ => True
  | .operation _ _ _ => False
  | .call callee args _ => callee.OperatorFree ∧ Expr.AllOperatorFree args
  | .function _ body _ => body.OperatorFree

/-- `OperatorFree` over a list of expressions. -/
def Expr.AllOperatorFree : List (Expr P) → Prop
  | [] => True
  | expr :: rest => expr.OperatorFree ∧ Expr.AllOperatorFree rest

/-- A statement without operators. -/
def Stmt.OperatorFree : Stmt P → Prop
  | .declare _ _ value _ | .assign _ value _ | .returnValue value _ | .expression value _ =>
    value.OperatorFree
  | .branch condition yes no _ => condition.OperatorFree ∧ yes.OperatorFree ∧ no.OperatorFree
  | .loop condition body _ => condition.OperatorFree ∧ body.OperatorFree
  | .returnVoid _ => True

/-- `OperatorFree` over a list of statements. -/
def Stmt.AllOperatorFree : List (Stmt P) → Prop
  | [] => True
  | stmt :: rest => stmt.OperatorFree ∧ Stmt.AllOperatorFree rest

/-- A block without operators. -/
def Block.OperatorFree : Block P → Prop
  | .mk stmts _ => Stmt.AllOperatorFree stmts

end

section
variable (operation operation' : Operator → List String → String)

mutual

/-- How operations are written does not matter to an expression without any. -/
theorem Expr.textBy_eq : ∀ {expr : Expr P}, expr.OperatorFree →
    expr.textBy operation = expr.textBy operation'
  | .boolean _ _, _ | .number _ _, _ | .string _ _, _ | .symbol _ _, _ => rfl
  | .call callee args _, h => by
    rw [Expr.textBy, Expr.textBy, Expr.textBy_eq h.1, Expr.textsBy_eq h.2]
  | .function params body _, h => by
    rw [Expr.textBy, Expr.textBy, Block.textBy_eq h]

/-- How operations are written does not matter to expressions without any. -/
theorem Expr.textsBy_eq : ∀ {exprs : List (Expr P)}, Expr.AllOperatorFree exprs →
    Expr.textsBy operation exprs = Expr.textsBy operation' exprs
  | [], _ => rfl
  | _ :: _, h => by
    rw [Expr.textsBy, Expr.textsBy, Expr.textBy_eq h.1, Expr.textsBy_eq h.2]

/-- How operations are written does not matter to a statement without any. -/
theorem Stmt.textBy_eq : ∀ {stmt : Stmt P}, stmt.OperatorFree →
    stmt.textBy operation = stmt.textBy operation'
  | .declare _ _ _ _, h | .assign _ _ _, h | .returnValue _ _, h | .expression _ _, h => by
    rw [Stmt.textBy, Stmt.textBy, Expr.textBy_eq h]
  | .branch _ _ _ _, h => by
    rw [Stmt.textBy, Stmt.textBy, Expr.textBy_eq h.1, Block.textBy_eq h.2.1, Block.textBy_eq h.2.2]
  | .loop _ _ _, h => by
    rw [Stmt.textBy, Stmt.textBy, Expr.textBy_eq h.1, Block.textBy_eq h.2]
  | .returnVoid _, _ => rfl

/-- How operations are written does not matter to statements without any. -/
theorem Stmt.textsBy_eq : ∀ {stmts : List (Stmt P)}, Stmt.AllOperatorFree stmts →
    Stmt.textsBy operation stmts = Stmt.textsBy operation' stmts
  | [], _ => rfl
  | _ :: _, h => by
    rw [Stmt.textsBy, Stmt.textsBy, Stmt.textBy_eq h.1, Stmt.textsBy_eq h.2]

/-- A block without operators is written in the same way, however operators are written. -/
theorem Block.textBy_eq : ∀ {block : Block P}, block.OperatorFree →
    block.textBy operation = block.textBy operation'
  | .mk _ _, h => by rw [Block.textBy, Block.textBy, Stmt.textsBy_eq h]

end

end

/-! ## Reading back -/

/-- Within a budget above its size, an outline is read as the block that it spells. -/
theorem Block.ofOutline_of_spells {limit : Nat} {outline : Outline.Block P} {block : Block P}
    (h : SpellsBlock outline block) (hlimit : outline.size < limit) :
    Block.ofOutline limit limit outline = .ok block := by
  rcases (Reader.ofBudget_decides limit limit).block outline with hdeep | hdecides
  · have hfits := (Reader.ofBudget_reaches limit limit).block outline hlimit
    exact absurd hfits hdeep.not_fits
  · exact (hdecides block).2 h

/-- The tokens that a block is written as are read as the block. -/
theorem Block.ofTokens_of_nests {block : Block P} (h : block.WellFormed) {tokens : List (Token Unit)}
    (htokens : Nests tokens block.trees) {limit : Nat} (hlength : tokens.length ≤ limit)
    (hsize : block.outline.size < limit) :
    Block.ofTokens limit () tokens = .ok (block.map nowhere) := by
  rw [Block.ofTokens, htokens.nest hlength]
  show (Outline.ofRegion ⟨block.trees, _⟩ >>= fun outline => Block.ofOutline limit limit outline) = _
  rw [Block.ofRegion_trees h]
  exact Block.ofOutline_of_spells (Block.spells h) hsize

/-- A text that is scanned as some tokens has them in every file. -/
theorem Source.tokens_of_scans {source : Source} {tokens : List (Token Unit)}
    (h : Scans source.text.toList tokens) : ∃ found, source.tokens = .ok found ∧
      found.map (Token.map nowhere) = tokens := by
  obtain ⟨found, hfound, hmap⟩ := h.scanFrom 0
  refine ⟨found.map (Token.map source.place), ?_, ?_⟩
  · rw [Source.tokens, Token.scan, hfound]
    rfl
  · rw [List.map_map]
    exact hmap

/-- A well-formed program is read back from its text, but for its places, and without operators its
text is what is shown. -/
theorem Source.program_infixText {program : Block P} (h : program.WellFormed) :
    (∃ bound, ∀ limit, bound ≤ limit → ∀ file, ∃ read,
      (Source.mk (program.textBy Operator.infixText) file).program limit = .ok read ∧
        read.map nowhere = program.map nowhere) ∧
    (program.OperatorFree → program.textBy Operator.infixText = program.text) := by
  refine ⟨?_, Block.textBy_eq _ _⟩
  obtain ⟨tokens, hwrites, hnests⟩ := (Block.forms h).forms
  refine ⟨max tokens.length (program.outline.size + 1), fun limit hlimit file => ?_⟩
  obtain ⟨hlength, hsize⟩ := Nat.max_le.1 hlimit
  let source : Source := ⟨program.textBy Operator.infixText, file⟩
  have hscans : Scans source.text.toList tokens := hwrites.scans
  obtain ⟨found, hfound, rfl⟩ := Source.tokens_of_scans hscans
  -- Without places the tokens are those of the text, wherever the text was found.
  have hrelocate := Block.ofTokens_relocate nowhere limit (source.place 0) found
  rw [show nowhere (source.place 0) = () from rfl, Block.ofTokens_of_nests h hnests hlength hsize]
    at hrelocate
  have hprogram : source.program limit = Block.ofTokens limit (source.place 0) found := by
    rw [Source.program, hfound]
    rfl
  cases hread : Block.ofTokens limit (source.place 0) found with
  | error fault =>
    rw [hread] at hrelocate
    cases hrelocate
  | ok read =>
    rw [hread] at hrelocate
    exact ⟨read, hprogram.trans hread, Except.ok.inj hrelocate⟩

/-- The program that declares the successor function. -/
def Block.successor : Block Unit :=
  let span : Span Unit := ⟨(), ()⟩
  let sum : Expr Unit := .operation (.binary .plus) [.symbol "x" span, .number 1 span] span
  let body : Block Unit := .mk [.returnValue sum span] span
  .mk [.declare "f" (.function [.int] .int) (.function ["x"] body span) span] span

/-- A function that adds one, declared and read back. -/
theorem Source.program_infixText_successor : Block.successor.WellFormed ∧
    ∃ bound, ∀ limit, bound ≤ limit → ∀ file, ∃ read,
      (Source.mk "let f: (Int) -> Int = (x) => \x7b return (x) + (1); \x7d;" file).program limit =
        .ok read ∧ read.map nowhere = Block.successor := by
  have hx : IsName beginsIdentifier "x" := by decide
  have hf : IsName beginsIdentifier "f" := by decide
  have hint : IsWord Char.isUpper "Int" := by decide
  have h : Block.successor.WellFormed := by
    refine ⟨⟨hf, ⟨⟨hint, trivial⟩, hint⟩, List.forall_mem_singleton.2 hx, ?_, trivial⟩, trivial⟩
    exact ⟨rfl, hx, Int.one_nonneg, trivial⟩
  exact ⟨h, (Source.program_infixText h).1⟩

end LetWhile
