import LetWhile.Proofs.Printing.Outlined
import LetWhile.Proofs.Program.Decision
import LetWhile.Proofs.Relocation.Programs

/-!
# Written programs are spelled by their trees

The trees of a type spell the type, and those of an expression the expression without its places,
since operands stand in parentheses and arguments between commas. So a written block is spelled by
its outline.
-/

namespace LetWhile

variable {P : Type}

open Lexeme (isPlain)

/-! ## Literals -/

namespace Text

/-- Digits come to the number that they stand for. -/
theorem digitsFrom_eq {cs : List Char} (h : ∀ c ∈ cs, c.isDigit = true) (value : Nat) :
    digitsFrom value cs = some (Nat.ofDigitChars 10 cs value) := by
  induction cs generalizing value with
  | nil => simp [digitsFrom]
  | cons c cs ih =>
    obtain ⟨hc, hcs⟩ := List.forall_mem_cons.1 h
    rw [digitsFrom, if_pos hc, ih hcs, Nat.ofDigitChars_cons]
    rintro rfl
    cases hc

/-- Digits stand for the number that they come to. -/
theorem integerOf_of_digits {text : String} (hne : 0 < text.length)
    (h : ∀ c ∈ text.toList, c.isDigit = true) :
    integerOf text = some (Nat.ofDigitChars 10 text.toList 0 : Int) := by
  have hvalue := digitsFrom_eq h 0
  obtain ⟨c, cs, heq⟩ := List.exists_cons_of_ne_nil
    (List.ne_nil_of_length_pos (String.length_toList ▸ hne))
  have hsign : c ≠ '-' ∧ c ≠ '+' ∧ c ≠ '_' := by
    have hc := h c (heq ▸ .head _)
    refine ⟨?_, ?_, ?_⟩ <;> rintro rfl <;> cases hc
  rw [heq] at hvalue
  rw [integerOf, heq]
  simp [naturalOf, digits, hvalue, hsign]

/-- A numeral stands for the number that it is written for. -/
theorem integerOf_toString (n : Nat) : integerOf (toString n) = some (n : Int) := by
  have htext : (toString n).toList = Nat.toDigits 10 n := by
    rw [Nat.toString_eq_repr, Nat.toList_repr]
  have hpos := Nat.length_toDigits_pos (b := 10) (n := n)
  rw [integerOf_of_digits, htext, Nat.ofDigitChars_ten_toDigits]
  · rwa [← String.length_toList, htext]
  · rw [htext]
    exact fun c hc => Nat.isDigit_of_mem_toDigits (by decide) (by decide) hc

/-- Taking the backslashes off a quoted text gives the text back. -/
theorem unescapeQuotes_flatMap {value : List Char} (h : ∀ c ∈ value, isPrintable c = true) :
    unescapeQuotes (value.flatMap quotedChar) = value := by
  induction value with
  | nil => rfl
  | cons c value ih =>
    obtain ⟨hc, hvalue⟩ := List.forall_mem_cons.1 h
    rw [List.flatMap_cons]
    rcases quotedChar_of_isPrintable hc with ⟨rfl, hq⟩ | ⟨hplain, hq⟩
    · rw [hq, List.cons_append, List.cons_append, List.nil_append, unescapeQuotes, ih hvalue]
    · rw [hq, List.cons_append, List.nil_append, unescapeQuotes, ih hvalue]
      intro _ hslash
      subst hslash
      cases hplain

/-- A string literal has the value that it is written for. -/
theorem unquoted_quoted {value : String} (h : ∀ c ∈ value.toList, isPrintable c = true) :
    unquoted (quoted value) = value := by
  have hbody : ((quoted value).toList.drop 1).dropLast = value.toList.flatMap quotedChar := by
    simp [quoted]
  rw [unquoted, hbody, unescapeQuotes_flatMap h, String.ofList_toList]

end Text

/-! ## Lists -/

namespace Tree

/-- A slice that nothing is cut at is one part. -/
theorem parts_inner {part : List (Tree Unit)} (h : ∀ tree ∈ part, tree.Inner) :
    commaParts.parts part = [part] := by
  induction part with
  | nil => rfl
  | cons tree part ih =>
    obtain ⟨htree, hpart⟩ := List.forall_mem_cons.1 h
    rw [commaParts.parts, if_neg (by simp [htree.comma]), ih hpart]

/-- A comma cuts a slice off that nothing else is cut at. -/
theorem parts_append {part : List (Tree Unit)} (h : ∀ tree ∈ part, tree.Inner)
    (rest : List (Tree Unit)) :
    commaParts.parts (part ++ .placeless .comma "," :: rest) = part :: commaParts.parts rest := by
  induction part with
  | nil => rfl
  | cons tree part ih =>
    obtain ⟨htree, hpart⟩ := List.forall_mem_cons.1 h
    rw [List.cons_append, commaParts.parts, if_neg (by simp [htree.comma]), ih hpart]

/-- Parts with commas between them are cut at these commas. -/
theorem parts_commas {part : List (Tree Unit)} {rest : List (List (Tree Unit))}
    (h : ∀ other ∈ part :: rest, ∀ tree ∈ other, tree.Inner) :
    commaParts.parts (commas (part :: rest)) = part :: rest := by
  induction rest generalizing part with
  | nil => simpa [commas, List.intercalate] using parts_inner (h part (by simp))
  | cons next rest ih =>
    obtain ⟨hpart, hrest⟩ := List.forall_mem_cons.1 h
    have := (parts_append hpart (commas (next :: rest))).trans (congrArg _ (ih hrest))
    simpa [commas, List.intercalate] using this

/-- Parts put together with commas are cut apart again. -/
theorem commaParts_commas {parts : List (List (Tree Unit))}
    (h : ∀ part ∈ parts, part ≠ [] ∧ ∀ tree ∈ part, tree.Inner) :
    commaParts (commas parts) = parts := by
  cases parts with
  | nil => rfl
  | cons part rest =>
    -- One empty part would be put together to the empty slice, which has no parts.
    have hne : commas (part :: rest) ≠ [] := by
      obtain ⟨hpart, -⟩ := h part (by simp)
      cases rest <;> simp [commas, List.intercalate, hpart]
    obtain ⟨tree, trees, heq⟩ := List.exists_cons_of_ne_nil hne
    rw [heq, commaParts, ← heq]
    exact parts_commas fun other hother => (h other hother).2

end Tree

/-! ## Types -/

/-- Nothing is cut at the trees of types, and each has some. -/
theorem Ty.allTrees_inner (types : List Ty) :
    ∀ part ∈ Ty.allTrees types, part ≠ [] ∧ ∀ tree ∈ part, tree.Inner := by
  induction types with
  | nil => exact List.forall_mem_nil _
  | cons type rest ih => exact List.forall_mem_cons.2 ⟨⟨type.trees_ne_nil, type.inner⟩, ih⟩

mutual

/-- The trees of a type spell it. -/
theorem Ty.spells : ∀ type : Ty, SpellsType type.trees type
  | .name _ => .name rfl
  | .function params result => by
    refine .function rfl result.trees_ne_nil ?_ result.spells
    rw [Tree.commaParts_commas (Ty.allTrees_inner params)]
    exact Ty.spells_all params

/-- The trees of types spell them, one by one. -/
theorem Ty.spells_all : ∀ types : List Ty, List.Forall₂ SpellsType (Ty.allTrees types) types
  | [] => .nil
  | type :: rest => .cons type.spells (Ty.spells_all rest)

end

/-! ## Programs -/

/-- Names with commas between them spell parameters. -/
theorem Tree.spells_parameters (names : List String) :
    List.Forall₂ SpellsParameter (commaParts (parameters names)) names := by
  rw [parameters, commaParts_commas]
  · rw [List.forall₂_map_left_iff, List.forall₂_same]
    exact fun name _ => .name rfl
  · rw [List.forall_mem_map]
    exact fun name _ => ⟨List.cons_ne_nil _ _, List.forall_mem_singleton.2 (.identifier name)⟩

/-- The trees of an operator with its operands in parentheses spell its application. -/
theorem Operator.spells (op : Operator) {parts : List (List (Tree Unit))}
    {operands : List (Expr Unit)} (h : List.Forall₂ SpellsExpr parts operands)
    (harity : parts.length = op.arity) :
    SpellsExpr (op.trees parts) (.operation op operands ⟨(), ()⟩) := by
  have hops (trees : List (Tree Unit)) : Chain.NoOperators [.within .paren trees] :=
    List.forall_mem_singleton.2 rfl
  have hgroup (power : Nat) {trees : List (Tree Unit)} {expr : Expr Unit}
      (h : SpellsExpr trees expr) :
      Climb SpellsOperand power none [.within .paren trees] expr [] :=
    (Climb.run_iff (hops trees) (List.cons_ne_nil _ _)).2 (.paren h)
  obtain ⟨o, left, right, rfl, rfl⟩ | ⟨o, operand, rfl, rfl⟩ := op.operands_cases harity
  · obtain _ | ⟨hleft, _ | ⟨hright, ⟨⟩⟩⟩ := h
    exact .climb (.operand (List.cons_ne_nil _ []) (hops left) rfl (.paren hleft)
      (.link rfl o.ofSymbol?_symbol (Nat.zero_le _) (hgroup _ hright) (.stop (.nil 0))))
  · obtain _ | ⟨hoperand, ⟨⟩⟩ := h
    exact .climb (.prefixed rfl o.ofSymbol?_symbol (hgroup 0 hoperand))

/-- An operand without operators outside its groups is an expression. -/
theorem SpellsExpr.of_operand {trees : List (Tree Unit)} {expr : Expr Unit}
    (h : SpellsOperand trees expr) (hops : Chain.NoOperators trees) (hne : trees ≠ []) :
    SpellsExpr trees expr :=
  (spellsExpr_run_iff hops hne).2 h

/-- Nothing is cut at the trees of well-formed expressions, and each has some. -/
theorem Expr.allTrees_inner {exprs : List (Expr P)} (h : Expr.AllWellFormed exprs) :
    ∀ part ∈ Expr.allTrees exprs, part ≠ [] ∧ ∀ tree ∈ part, tree.Inner := by
  induction exprs with
  | nil => exact List.forall_mem_nil _
  | cons expr rest ih =>
    obtain ⟨hexpr, hrest⟩ := h
    exact List.forall_mem_cons.2 ⟨⟨expr.trees_ne_nil hexpr, expr.inner⟩, ih hrest⟩

/-- A callee spells itself, as a name or in parentheses. -/
theorem Expr.spells_callee {callee : Expr P} (h : SpellsExpr callee.trees (callee.map nowhere)) :
    Reader.isCallable (callee.calleeTree callee.trees) = true ∧
      SpellsOperand [callee.calleeTree callee.trees] (callee.map nowhere) := by
  cases callee with
  | symbol name => exact ⟨rfl, .symbol rfl⟩
  | _ => exact ⟨rfl, .paren h⟩

mutual

/-- The trees of an expression spell it. -/
theorem Expr.spells : ∀ {expr : Expr P}, expr.WellFormed →
    SpellsExpr expr.trees (expr.map nowhere)
  | .boolean value _, _ => by
    refine .of_operand ?_ (List.forall_mem_singleton.2 rfl) (List.cons_ne_nil _ _)
    cases value with
    | true => exact .boolean rfl
    | false => exact .boolean rfl
  | .number value _, h => by
    obtain ⟨n, rfl⟩ := Int.eq_ofNat_of_zero_le h
    refine .of_operand ?_ (List.forall_mem_singleton.2 rfl) (List.cons_ne_nil _ _)
    exact .number rfl (Text.integerOf_toString n)
  | .string value _, h => by
    have hvalue : SpellsOperand [.placeless .string (Text.quoted value)]
        (.string (Text.unquoted (Text.quoted value)) ⟨(), ()⟩) := .string rfl
    rw [Text.unquoted_quoted h] at hvalue
    exact .of_operand hvalue (List.forall_mem_singleton.2 rfl) (List.cons_ne_nil _ _)
  | .symbol name _, _ =>
    .of_operand (.symbol rfl) (List.forall_mem_singleton.2 rfl) (List.cons_ne_nil _ _)
  | .operation op args _, h => by
    refine op.spells (Expr.spells_all h.2) ?_
    rw [Expr.length_allTrees, h.1]
  | .call callee args _, h => by
    obtain ⟨hcallable, hcallee⟩ := Expr.spells_callee (Expr.spells h.1)
    have hargs := Expr.spells_all h.2
    rw [← Tree.commaParts_commas (Expr.allTrees_inner h.2)] at hargs
    refine .of_operand (.call hcallable hcallee hargs) ?_ (List.cons_ne_nil _ _)
    exact List.forall_mem_cons.2 ⟨Reader.isKind_operator_of_isCallable hcallable,
      List.forall_mem_singleton.2 rfl⟩
  | .function params body _, h => by
    have hbody := Block.ofRegion_trees h.2 ⟨(), ()⟩
    have hfunction : SpellsOperand [.within .paren (Tree.parameters params),
        .placeless .lambdaArrow "=>", .within .brace body.trees]
        (.function params (body.map nowhere) ⟨(), ()⟩) :=
      .function rfl (Tree.spells_parameters params) hbody (Block.spells h.2)
    refine .of_operand hfunction ?_ (List.cons_ne_nil _ _)
    exact List.forall_mem_cons.2 ⟨rfl, List.forall_mem_cons.2 ⟨rfl, List.forall_mem_singleton.2 rfl⟩⟩

/-- The trees of well-formed expressions spell them, one by one. -/
theorem Expr.spells_all : ∀ {exprs : List (Expr P)}, Expr.AllWellFormed exprs →
    List.Forall₂ SpellsExpr (Expr.allTrees exprs) (Expr.mapAll nowhere exprs)
  | [], _ => .nil
  | _ :: _, h => .cons (Expr.spells h.1) (Expr.spells_all h.2)

/-- The outline of a statement spells it. -/
theorem Stmt.spells : ∀ {stmt : Stmt P}, stmt.WellFormed →
    SpellsStmt stmt.outline (stmt.map nowhere)
  | .declare _ type _ _, h => .declare type.spells (Expr.spells h.2.2)
  | .assign _ _ _, h => .assign (Expr.spells h.2)
  | .branch _ _ _ _, h => .branch (Expr.spells h.1) (Block.spells h.2.1) (Block.spells h.2.2)
  | .loop _ _ _, h => .loop (Expr.spells h.1) (Block.spells h.2)
  | .returnValue _ _, h => .returnValue (Expr.spells h)
  | .returnVoid _, _ => .returnVoid
  | .expression _ _, h => .expression (Expr.spells h)

/-- The outlines of well-formed statements spell them, one by one. -/
theorem Stmt.spells_all : ∀ {stmts : List (Stmt P)}, Stmt.AllWellFormed stmts →
    List.Forall₂ SpellsStmt (Stmt.outlines stmts) (Stmt.mapAll nowhere stmts)
  | [], _ => .nil
  | _ :: _, h => .cons (Stmt.spells h.1) (Stmt.spells_all h.2)

/-- The outline of a block spells it. -/
theorem Block.spells : ∀ {block : Block P}, block.WellFormed →
    SpellsBlock block.outline (block.map nowhere)
  | .mk _ _, h => .block (Stmt.spells_all h)

end

end LetWhile
