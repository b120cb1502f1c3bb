import LetWhile.Proofs.Program.Drawn
import LetWhile.Proofs.Relocation.Sources

/-!
# Levels of programs

How deep a program is nested. A chain of binary operators of one power, grouped to the left, is one
level above its operands however long it is (`Expr.level_chain`); everything else is a level above
its parts, and a callee that is a symbol is no part. Parentheses use up levels and leave no node, so
a program read within a limit may be nested less deep than its text, but never deeper than the limit
(`Source.program_level_le`).
-/

namespace LetWhile

variable {P : Type}

/-! ## Types -/

mutual

/-- The level of a type. -/
def Ty.level : Ty → Nat
  | .name _ => 1
  | .function params result => 1 + max (Ty.maxLevel params) result.level

/-- The largest level of several types. -/
def Ty.maxLevel : List Ty → Nat
  | [] => 0
  | type :: rest => max type.level (Ty.maxLevel rest)

end

/-- The largest level of types is bounded if each level is. -/
theorem Ty.maxLevel_le_iff {types : List Ty} {n : Nat} :
    Ty.maxLevel types ≤ n ↔ ∀ type ∈ types, type.level ≤ n := by
  induction types with
  | nil => simp [Ty.maxLevel]
  | cons type rest ih => simp [Ty.maxLevel, ih]

/-! ## Programs -/

/-- The level that a callee counts for, given its level as an expression: none, if it is a
symbol. -/
def Expr.calleeLevel (callee : Expr P) (level : Nat) : Nat :=
  match callee with
  | .symbol .. => 0
  | _ => level

/-- A callee counts for at most its level. -/
theorem Expr.calleeLevel_le (callee : Expr P) (level : Nat) : callee.calleeLevel level ≤ level := by
  cases callee with
  | symbol => exact Nat.zero_le level
  | _ => exact Nat.le_refl level

mutual

/-- The level of an expression that is the first operand of a chain of operators of the given power,
if any. It adds no level of its own if it is a chain of that power itself. -/
def Expr.levelIn (chain : Option Nat) : Expr P → Nat
  | .boolean .. | .number .. | .string .. | .symbol .. => 1
  | .operation (.binary op) [left, right] _ =>
    let operands := max (left.levelIn (some op.power)) (right.levelIn none)
    if chain = some op.power then operands else 1 + operands
  | .operation _ args _ => 1 + Expr.maxLevel args
  | .call callee args _ =>
    1 + max (callee.calleeLevel (callee.levelIn none)) (Expr.maxLevel args)
  | .function _ body _ => 1 + body.level

/-- The largest level of several expressions. -/
def Expr.maxLevel : List (Expr P) → Nat
  | [] => 0
  | expr :: rest => max (expr.levelIn none) (Expr.maxLevel rest)

/-- The largest level of the types, expressions and blocks of a statement. -/
def Stmt.level : Stmt P → Nat
  | .declare _ type value _ => max type.level (value.levelIn none)
  | .assign _ value _ | .returnValue value _ | .expression value _ => value.levelIn none
  | .branch condition yes no _ => max (condition.levelIn none) (max yes.level no.level)
  | .loop condition body _ => max (condition.levelIn none) body.level
  | .returnVoid _ => 0

/-- The largest level of several statements. -/
def Stmt.maxLevel : List (Stmt P) → Nat
  | [] => 0
  | stmt :: rest => max stmt.level (Stmt.maxLevel rest)

/-- The level of a block. -/
def Block.level : Block P → Nat
  | .mk stmts _ => 1 + Stmt.maxLevel stmts

end

/-- The level of an expression. -/
def Expr.level (expr : Expr P) : Nat := expr.levelIn none

/-- The largest level of expressions is bounded if each level is. -/
theorem Expr.maxLevel_le_iff {exprs : List (Expr P)} {n : Nat} :
    Expr.maxLevel exprs ≤ n ↔ ∀ expr ∈ exprs, expr.level ≤ n := by
  induction exprs with
  | nil => simp [Expr.maxLevel]
  | cons expr rest ih => simp [Expr.maxLevel, Expr.level, ih]

/-- The largest level of statements is bounded if each level is. -/
theorem Stmt.maxLevel_le_iff {stmts : List (Stmt P)} {n : Nat} :
    Stmt.maxLevel stmts ≤ n ↔ ∀ stmt ∈ stmts, stmt.level ≤ n := by
  induction stmts with
  | nil => simp [Stmt.maxLevel]
  | cons stmt rest ih => simp [Stmt.maxLevel, ih]

/-! ## Chains -/

/-- The operands of a chain of operators of the given power, grouped to the left. An expression that
is no such chain is its only operand. -/
def Expr.operands (power : Nat) : Expr P → List (Expr P)
  | .operation (.binary op) [left, right] span =>
    if op.power = power then left.operands power ++ [right]
    else [.operation (.binary op) [left, right] span]
  | expr => [expr]

/-- The largest level of two lists is the larger of both. -/
theorem Expr.maxLevel_append (exprs more : List (Expr P)) :
    Expr.maxLevel (exprs ++ more) = max (Expr.maxLevel exprs) (Expr.maxLevel more) := by
  induction exprs with
  | nil => simp [Expr.maxLevel]
  | cons expr rest ih => simp [Expr.maxLevel, ih, Nat.max_assoc]

/-- In a chain of its own power, an operation is as high as the highest operand of the chain. -/
theorem Expr.levelIn_eq_maxLevel_operands (power : Nat) (expr : Expr P) :
    expr.levelIn (some power) = Expr.maxLevel (expr.operands power) := by
  fun_induction Expr.operands power expr with
  | case1 op left right span hp ih =>
    subst hp
    simp [Expr.levelIn, ih, Expr.maxLevel_append, Expr.maxLevel]
  | case2 op left right span hp =>
    simp [Expr.levelIn, Expr.maxLevel, Ne.symm hp]
  | case3 expr hchain =>
    unfold Expr.levelIn
    split
    all_goals first
      | exact absurd rfl (hchain _ _ _ _)
      | simp [Expr.maxLevel, Expr.levelIn]

/-- A chain of operators of one power is one level above its operands. -/
theorem Expr.level_chain (op : BinaryOp) (left right : Expr P) (span : Span P) :
    (Expr.operation (.binary op) [left, right] span).level =
      1 + Expr.maxLevel (left.operands op.power ++ [right]) := by
  simp [Expr.level, Expr.levelIn, Expr.maxLevel_append, Expr.maxLevel,
    Expr.levelIn_eq_maxLevel_operands]

/-- Standing first in a chain of its own power can save an expression one level, and no more. -/
theorem Expr.levelIn_bounds (chain : Option Nat) (expr : Expr P) :
    expr.levelIn chain ≤ expr.level ∧ expr.level ≤ 1 + expr.levelIn chain := by
  rw [Expr.level]
  unfold Expr.levelIn
  split <;> grind

/-! ## Types -/

/-- A type that is read within a budget is at most that high. -/
theorem Ty.ofTrees_level (limit : Nat) : ∀ (budget : Nat) (origin : P) (trees : List (Tree P)),
    (Ty.ofTrees limit budget origin trees).Yields (·.level ≤ budget)
  | 0, _, _ => .error _
  | budget + 1, origin, trees => by
    have ih (origin : P) (trees : List (Tree P)) := Ty.ofTrees_level limit budget origin trees
    unfold Ty.ofTrees
    simp only
    split
    · split
      · exact .ok (by simp [Ty.level])
      · exact .error _
    · exact (ih _ _).mono fun _ h => Nat.le_succ_of_le h
    · split
      · refine (Outcome.Yields.mapM fun part _ => ih _ part).bind fun types htypes =>
          (ih _ _).bind fun result hresult => .ok ?_
        have hparams := Ty.maxLevel_le_iff.2 htypes
        simp only [Ty.level]
        omega
      · exact .error _
    · exact .error _

/-! ## Expressions and blocks -/

open Outcome

namespace Reader

/-- The readings one level deeper read nothing of more than the given level. -/
structure Bounds (inner : Reader P) (n : Nat) : Prop where
  expr : ∀ origin trees, (inner.expr origin trees).Yields (·.level ≤ n)
  type : ∀ origin trees, (inner.type origin trees).Yields (·.level ≤ n)
  block : ∀ outline, (inner.block outline).Yields (·.level ≤ n)

variable {inner : Reader P} {n : Nat}

/-- A token is read as an expression of level one at most. -/
theorem readToken_level (token : Token P) : (readToken token).Yields (·.level ≤ 1) := by
  unfold readToken
  split
  · exact .ok (Nat.le_refl 1)
  · exact .ok (Nat.le_refl 1)
  · split
    · exact .ok (Nat.le_refl 1)
    · exact .error _
  · exact .ok (Nat.le_refl 1)
  · exact .error _

/-- A primary is at most one higher than what the reader reads. -/
theorem readPrimary_level (hi : inner.Bounds n) (tree : Tree P) :
    (inner.readPrimary tree).Yields (·.level ≤ n + 1) := by
  unfold readPrimary
  split
  · exact (readToken_level _).mono fun _ h => Nat.le_add_left_of_le h
  · exact (hi.expr _ _).mono fun _ h => Nat.le_succ_of_le h
  · exact .error _

/-- What is called is a symbol, which adds no level, or is read one level deeper. -/
theorem readPrimary_calleeLevel (hi : inner.Bounds n) {callee : Tree P}
    (h : isCallable callee = true) :
    (inner.readPrimary callee).Yields fun function => function.calleeLevel function.level ≤ n := by
  cases callee with
  | leaf token =>
    have hk : token.kind = .identifier := by
      simpa [isCallable, Tree.isKind, Tree.region?] using h
    simp only [readPrimary, readToken, hk]
    exact .ok (Nat.zero_le n)
  | group bracket children span =>
    cases bracket with
    | paren =>
      exact (hi.expr _ _).mono fun _ hlevel => Nat.le_trans (Expr.calleeLevel_le _ _) hlevel
    | brace => exact .error _

/-- A prefix operation is at most one higher than its operand. -/
theorem readPrefixed_level (hi : inner.Bounds n) (token : Token P) (rest : List (Tree P)) :
    (inner.readPrefixed token rest).Yields (·.level ≤ n + 1) := by
  unfold readPrefixed
  split
  · exact .error _
  · refine (hi.expr _ _).bind fun operand hoperand => .ok ?_
    simp only [Expr.level, Expr.levelIn, Expr.maxLevel] at hoperand ⊢
    omega

/-- A call is at most one higher than its callee and its arguments. -/
theorem readCall_level (hi : inner.Bounds n) {callee : Tree P} (h : isCallable callee = true)
    (args : Region P) : (inner.readCall callee args).Yields (·.level ≤ n + 1) := by
  refine (readPrimary_calleeLevel hi h).bind fun function hfunction =>
    (Yields.mapM fun part _ => hi.expr _ part).bind fun values hvalues => .ok ?_
  have hargs := Expr.maxLevel_le_iff.2 hvalues
  simp only [Expr.level, Expr.levelIn] at hfunction ⊢
  omega

/-- A function literal is at most one higher than its body and its types. -/
theorem readFunction_level (hi : inner.Bounds n) (params body : Region P) :
    (inner.readFunction params body).Yields (·.level ≤ n + 1) := by
  intro expr h
  obtain ⟨names, -, h⟩ := bind_eq_ok.1 h
  obtain ⟨outline, -, h⟩ := bind_eq_ok.1 h
  obtain ⟨block, hblock, h⟩ := bind_eq_ok.1 h
  cases h
  have hlevel : block.level ≤ n := hi.block outline block hblock
  simp only [Expr.level, Expr.levelIn]
  omega

/-- All the links of a chain have the power that it is cut at, so that a chain is one level above
its operands, whatever their number. -/
theorem readChain_level (hi : inner.Bounds n) (origin : P) (trees : List (Tree P)) :
    (inner.readChain origin trees).Yields (·.level ≤ n + 1) := by
  unfold readChain
  simp only
  split
  · split
    · exact .error _
    · exact .error _
  · rename_i power hlowest
    have hcuts := Chain.cut_cuts (Chain.atLeast_lowestPower? hlowest)
    -- All that has been folded so far is the chain itself, so it has no level of its own yet.
    have hfold (first : Expr P) (hfirst : first.level ≤ n) :
        ((Chain.cut power true trees).2.foldlM inner.readLink first).Yields
          (·.levelIn (some power) ≤ n) := by
      refine Yields.foldlM (fun left hleft link hlink => ?_)
        (Nat.le_trans (first.levelIn_bounds _).1 hfirst)
      refine (hi.expr _ _).bind fun right hright => .ok ?_
      simpa only [Expr.levelIn, hcuts.link_power link hlink, if_pos, Nat.max_le] using
        ⟨hleft, hright⟩
    refine (hi.expr _ _).bind fun first hfirst => (hfold first hfirst).mono fun expr h => ?_
    have hlevel := (expr.levelIn_bounds (some power)).2
    omega

/-- One level of reading expressions adds at most one level. -/
theorem readSlice_level (hi : inner.Bounds n) (origin : P) (trees : List (Tree P)) :
    (inner.readSlice origin trees).Yields (·.level ≤ n + 1) := by
  unfold readSlice
  split
  · exact .error _
  · exact readPrimary_level hi _
  · split
    · exact readPrefixed_level hi _ _
    · split
      · rename_i hshape
        exact readCall_level hi (shapeOf_eq_call hshape).1 _
      · exact readFunction_level hi _ _
      · exact readChain_level hi origin _

/-- A statement is at most as high as what the reader reads. -/
theorem readStmt_level (hi : inner.Bounds n) (outline : Outline.Stmt P) :
    (inner.readStmt outline).Yields (·.level ≤ n) := by
  cases outline with
  | declare =>
    exact (hi.type _ _).bind fun _ htype => (hi.expr _ _).bind fun _ hvalue =>
      .ok (Nat.max_le.2 ⟨htype, hvalue⟩)
  | assign | returnValue | expression => exact (hi.expr _ _).bind fun _ hvalue => .ok hvalue
  | branch =>
    exact (hi.expr _ _).bind fun _ hcondition => (hi.block _).bind fun _ hyes =>
      (hi.block _).bind fun _ hno => .ok (Nat.max_le.2 ⟨hcondition, Nat.max_le.2 ⟨hyes, hno⟩⟩)
  | loop =>
    exact (hi.expr _ _).bind fun _ hcondition => (hi.block _).bind fun _ hbody =>
      .ok (Nat.max_le.2 ⟨hcondition, hbody⟩)
  | returnVoid => exact .ok (Nat.zero_le n)

/-- One level of reading blocks adds one level. -/
theorem readBlock_level (hi : inner.Bounds n) (outline : Outline.Block P) :
    (inner.readBlock outline).Yields (·.level ≤ n + 1) := by
  refine (Yields.mapM fun stmt _ => readStmt_level hi stmt).bind fun stmts hstmts => .ok ?_
  have hlevel := Stmt.maxLevel_le_iff.2 hstmts
  simp only [Block.level]
  omega

/-- What is read with a budget has at most that many levels. -/
theorem ofBudget_bounds (limit budget : Nat) : (ofBudget (P := P) limit budget).Bounds budget := by
  induction budget with
  | zero => exact ⟨fun _ _ => .error _, fun _ _ => .error _, fun _ => .error _⟩
  | succ budget ih =>
    exact ⟨readSlice_level ih, Ty.ofTrees_level limit (budget + 1), readBlock_level ih⟩

end Reader

/-! ## Programs -/

/-- A program that is read from tokens is at most as high as the limit. -/
theorem Block.ofTokens_level (limit : Nat) (origin : P) (tokens : List (Token P)) :
    (Block.ofTokens limit origin tokens).Yields (·.level ≤ limit) := by
  intro program h
  obtain ⟨region, -, h⟩ := bind_eq_ok.1 h
  obtain ⟨outline, -, h⟩ := bind_eq_ok.1 h
  exact (Reader.ofBudget_bounds limit limit).block outline program h

/-- A program that is read within a limit is nested no deeper than the limit, however long its
chains of operators are. -/
theorem Source.program_level_le (source : Source) (limit : Nat) {program : Block Position}
    (h : source.program limit = .ok program) : program.level ≤ limit := by
  obtain ⟨tokens, -, h⟩ := bind_eq_ok.1 h
  exact Block.ofTokens_level limit (source.place 0) tokens program h

/-- A chain of three operands, which is the deepest part of its program. -/
theorem Source.program_level_le_chain :
    let source : Source := ⟨"a - b - c;", "demo.let"⟩
    ∃ program, source.program 3 = .ok program ∧ program.level = 3 ∧ program.level ≤ 3 := by
  intro source
  have htokens : source.tokens = .ok
      [⟨.identifier, "a", ⟨source.place 0, source.place 1⟩⟩,
        ⟨.operator, "-", ⟨source.place 2, source.place 3⟩⟩,
        ⟨.identifier, "b", ⟨source.place 4, source.place 5⟩⟩,
        ⟨.operator, "-", ⟨source.place 6, source.place 7⟩⟩,
        ⟨.identifier, "c", ⟨source.place 8, source.place 9⟩⟩,
        ⟨.semicolon, ";", ⟨source.place 9, source.place 10⟩⟩] := by decide +kernel
  have hprogram : source.program 3 = .ok
      (.mk [.expression
        (.operation (.binary .minus)
          [.operation (.binary .minus)
            [.symbol "a" ⟨source.place 0, source.place 1⟩,
              .symbol "b" ⟨source.place 4, source.place 5⟩]
            ⟨source.place 0, source.place 5⟩,
            .symbol "c" ⟨source.place 8, source.place 9⟩]
          ⟨source.place 0, source.place 9⟩)
        ⟨source.place 0, source.place 10⟩] ⟨source.place 0, source.place 10⟩) := by
    rw [Source.program_eq htokens]
    cbv
  exact ⟨_, hprogram, by simp [Block.level, Stmt.maxLevel, Stmt.level, Expr.levelIn],
    Source.program_level_le source 3 hprogram⟩

end LetWhile
