import LetWhile.Proofs.Printing.Infix

/-!
# Written programs form their trees

What is written of a well-formed type, expression, statement or block forms the trees that stand
beside it. Types and expressions may end in a word, so they need a boundary after them; statements
and blocks do not.
-/

namespace LetWhile

variable {P : Type}

/-! ## Pieces -/

/-- A blank behind a text is the boundary that the text needs. -/
theorem Forms.blank {text : List Char} {trees : List (Tree Unit)} (h : Forms text trees) :
    FormsOpen (text ++ [' ']) trees := by
  have := h.append .blank (.of_cons (by decide))
  rwa [List.append_nil] at this

/-- A reserved word forms a leaf. -/
theorem Forms.reserved (kind : Kind) (word : String) (h : (kind, word) ∈ reservedWords) :
    Forms word.toList [.placeless kind word] := by
  refine .leaf (.reserved kind word h) ?_
  have hleaf : ∀ word ∈ reservedWords, word.1.IsLeaf := by
    simp [reservedWords, Kind.IsLeaf]
  exact hleaf _ h

/-- A name forms a leaf. -/
theorem Forms.identifier {name : String} (h : IsName beginsIdentifier name) :
    Forms name.toList [.placeless .identifier name] :=
  .leaf (.identifier h) trivial

/-- The semicolon after what ends a statement. -/
theorem Forms.semicolon {text : List Char} {trees : List (Tree Unit)} (h : Forms text trees) :
    FormsOpen (text ++ [';']) (trees ++ [.placeless .semicolon ";"]) :=
  h.append (FormsOpen.leaf (.mark .semicolon ";" (by decide)) trivial) (.of_cons (by decide))

/-- Every operator is written as a token, also the `=` of declarations and assignments. -/
theorem Forms.operator {symbol : String}
    (h : symbol = "=" ∨ ∃ op : Operator, op.symbol = symbol) :
    Forms symbol.toList [.placeless .operator symbol] := by
  refine .leaf ?_ trivial
  obtain rfl | ⟨op, rfl⟩ := h
  · exact .operator (by decide) (by decide) (by decide)
  · cases op with
    | binary op => cases op <;> exact .operator (by decide) (by decide) (by decide)
    | prefixed op => cases op <;> exact .operator (by decide) (by decide) (by decide)

/-- Arguments in parentheses form a group with commas between their trees. -/
theorem FormsOpen.arguments {texts : List String} {parts : List (List (Tree Unit))}
    (h : List.Forall₂ (fun text part => Forms text.toList part) texts parts) :
    FormsOpen (argumentText texts).toList [.within .paren (Tree.commas parts)] := by
  have := FormsOpen.within .paren (Forms.commas h)
  simpa [argumentText, Bracket.opening, Bracket.closing] using this

/-- A text in parentheses forms a group. -/
theorem FormsOpen.parenthesised {text : String} {trees : List (Tree Unit)}
    (h : Forms text.toList trees) :
    FormsOpen ("(" ++ text ++ ")").toList [.within .paren trees] := by
  have := FormsOpen.within .paren h
  simpa [Bracket.opening, Bracket.closing] using this

/-- A parenthesis is a boundary. -/
theorem bounds_parenthesised (text : String) : Bounds ("(" ++ text ++ ")").toList := by
  rw [String.toList_append, String.toList_append]
  exact .of_cons (by decide)

/-- A text in braces forms a group. -/
theorem FormsOpen.braced {text : String} {trees : List (Tree Unit)}
    (h : FormsOpen text.toList trees) :
    FormsOpen (bracedText text).toList [.within .brace trees] := by
  have := FormsOpen.within .brace ((FormsOpen.blank.append h).append .blank).forms
  simpa [bracedText, Bracket.opening, Bracket.closing] using this

/-! ## Types -/

/-- A parameter list, an arrow and a result. -/
theorem Forms.arrow {texts : List String} {parts : List (List (Tree Unit))} {text : String}
    {trees : List (Tree Unit)}
    (hparams : List.Forall₂ (fun text part => Forms text.toList part) texts parts)
    (hresult : Forms text.toList trees) :
    Forms ("(" ++ ", ".intercalate texts ++ ") -> " ++ text).toList
      (.within .paren (Tree.commas parts) :: .placeless .arrow "->" :: trees) := by
  have harrow := FormsOpen.leaf (.mark .arrow "->" (by decide)) trivial
  have htext : ("(" ++ ", ".intercalate texts ++ ") -> " ++ text).toList =
      (argumentText texts).toList ++ [' '] ++ "->".toList ++ [' '] ++ text.toList := by
    simp [argumentText]
  rw [htext]
  exact ((((FormsOpen.arguments hparams).append .blank).append harrow).append .blank).append_forms
    hresult

mutual

/-- What is written of a type forms its trees. -/
theorem Ty.forms : ∀ {type : Ty}, type.WellFormed → Forms type.text.toList type.trees
  | .name _, h => .leaf (.typeName h) trivial
  | .function _ _, h => .arrow (Ty.forms_all h.1) (Ty.forms h.2)

/-- Each of several well-formed types forms its trees. -/
theorem Ty.forms_all : ∀ {types : List Ty}, Ty.AllWellFormed types →
    List.Forall₂ (fun text part => Forms text.toList part) (Ty.texts types) (Ty.allTrees types)
  | [], _ => .nil
  | _ :: _, h => .cons (Ty.forms h.1) (Ty.forms_all h.2)

end

/-! ## Operators -/

/-- Operands that form trees form, with their operator, the trees of the operator with them. -/
theorem Operator.forms (op : Operator) {texts : List String} {parts : List (List (Tree Unit))}
    (h : List.Forall₂ (fun text part => Forms text.toList part) texts parts)
    (harity : texts.length = op.arity) : Forms (op.infixText texts).toList (op.trees parts) := by
  have hsymbol := Forms.operator (.inr ⟨op, rfl⟩)
  obtain ⟨o, left, right, rfl, rfl⟩ | ⟨o, operand, rfl, rfl⟩ := op.operands_cases harity
  · obtain _ | ⟨hleft, _ | ⟨hright, ⟨⟩⟩⟩ := h
    have hopen := (FormsOpen.parenthesised hleft).append .blank
    have := (hopen.append_forms hsymbol).blank.append (.parenthesised hright)
    simpa [Operator.infixText, Operator.trees, Operator.symbol] using this.forms
  · obtain _ | ⟨hoperand, ⟨⟩⟩ := h
    have := hsymbol.append (.parenthesised hoperand) (bounds_parenthesised _)
    simpa [Operator.infixText, Operator.trees, Operator.symbol] using this.forms

/-! ## Programs -/

/-- A callee is written so that an argument list may follow. -/
theorem Expr.forms_callee {callee : Expr P}
    (h : Forms (callee.textBy Operator.infixText).toList callee.trees) :
    Forms (callee.calleeText (callee.textBy Operator.infixText)).toList
      [callee.calleeTree callee.trees] := by
  cases callee with
  | symbol name span => exact h
  | _ => exact (FormsOpen.parenthesised h).forms

/-- Each of several names of parameters forms a leaf. -/
theorem Forms.parameters {names : List String}
    (h : ∀ name ∈ names, IsName beginsIdentifier name) :
    List.Forall₂ (fun text part => Forms text.toList part) names
      (names.map fun name => [.placeless .identifier name]) := by
  rw [List.forall₂_map_right_iff, List.forall₂_same]
  exact fun name hname => .identifier (h name hname)

mutual

/-- What is written of an expression forms its trees. -/
theorem Expr.forms : ∀ {expr : Expr P}, expr.WellFormed →
    Forms (expr.textBy Operator.infixText).toList expr.trees
  | .boolean true _, _ => .reserved .boolean "true" (by simp [reservedWords])
  | .boolean false _, _ => .reserved .boolean "false" (by simp [reservedWords])
  | .number value _, h => by
    obtain ⟨n, rfl⟩ := Int.eq_ofNat_of_zero_le h
    exact .leaf (.number n) trivial
  | .string value _, h => (FormsOpen.leaf (.string h) trivial).forms
  | .symbol name _, h => .identifier h
  | .operation op args _, h => by
    have hargs := Expr.forms_all h.2
    refine op.forms hargs ?_
    rw [hargs.length_eq, Expr.length_allTrees, h.1]
  | .call callee args _, h => by
    have hcallee := Expr.forms_callee (Expr.forms h.1)
    have hargs := FormsOpen.arguments (Expr.forms_all h.2)
    have := hcallee.append hargs (bounds_parenthesised _)
    rw [Expr.textBy, String.toList_append]
    exact this.forms
  | .function params body _, h => by
    have hparams := FormsOpen.arguments (Forms.parameters h.1)
    have harrow := FormsOpen.leaf (.mark .lambdaArrow "=>" (by decide)) trivial
    have hbody := FormsOpen.braced (Block.forms h.2)
    have := (((hparams.append .blank).append harrow).append .blank).append hbody
    simpa [Expr.textBy, Expr.trees, Tree.parameters] using this.forms

/-- Each of several well-formed expressions forms its trees. -/
theorem Expr.forms_all : ∀ {exprs : List (Expr P)}, Expr.AllWellFormed exprs →
    List.Forall₂ (fun text part => Forms text.toList part)
      (Expr.textsBy Operator.infixText exprs) (Expr.allTrees exprs)
  | [], _ => .nil
  | _ :: _, h => .cons (Expr.forms h.1) (Expr.forms_all h.2)

/-- What is written of a statement forms its trees whatever follows. -/
theorem Stmt.forms : ∀ {stmt : Stmt P}, stmt.WellFormed →
    FormsOpen (stmt.textBy Operator.infixText).toList stmt.trees
  | .declare name type value _, h => by
    have hlet := (Forms.reserved (.keyword .letWord) "let" (by simp [reservedWords])).blank
    have hname := hlet.append_forms (.identifier h.1)
    have hcolon := FormsOpen.leaf (.mark .colon ":" (by decide)) trivial
    have htype := ((hname.append hcolon (.of_cons (by decide))).append .blank).append_forms
      (Ty.forms h.2.1)
    have hequals := htype.blank.append (Forms.operator (.inl rfl)).blank
    have := (hequals.append_forms (Expr.forms h.2.2)).semicolon
    simpa [Stmt.textBy, Stmt.trees] using this
  | .assign name value _, h => by
    have hequals := (Forms.identifier h.1).blank.append (Forms.operator (.inl rfl)).blank
    have := (hequals.append_forms (Expr.forms h.2)).semicolon
    simpa [Stmt.textBy, Stmt.trees] using this
  | .branch condition yes no _, h => by
    have hif := (Forms.reserved (.keyword .ifWord) "if" (by simp [reservedWords])).blank
    have helse := (Forms.reserved (.keyword .elseWord) "else" (by simp [reservedWords])).blank
    have hcondition := (hif.append (.parenthesised (Expr.forms h.1))).append .blank
    have hyes := (hcondition.append (.braced (Block.forms h.2.1))).append .blank
    have := (hyes.append helse).append (.braced (Block.forms h.2.2))
    simpa [Stmt.textBy, Stmt.trees] using this
  | .loop condition body _, h => by
    have hwhile := (Forms.reserved (.keyword .whileWord) "while" (by simp [reservedWords])).blank
    have hcondition := (hwhile.append (.parenthesised (Expr.forms h.1))).append .blank
    have := hcondition.append (.braced (Block.forms h.2))
    simpa [Stmt.textBy, Stmt.trees] using this
  | .returnValue value _, h => by
    have hreturn := (Forms.reserved (.keyword .returnWord) "return" (by simp [reservedWords])).blank
    have := (hreturn.append_forms (Expr.forms h)).semicolon
    simpa [Stmt.textBy, Stmt.trees] using this
  | .returnVoid _, _ => by
    have hreturn := Forms.reserved (.keyword .returnWord) "return" (by simp [reservedWords])
    simpa [Stmt.textBy, Stmt.trees] using hreturn.semicolon
  | .expression value _, h => by
    have := (Expr.forms h).semicolon
    simpa [Stmt.textBy, Stmt.trees] using this

/-- Well-formed statements form their trees one after another. -/
theorem Stmt.forms_all : ∀ {stmts : List (Stmt P)}, Stmt.AllWellFormed stmts →
    FormsOpen (" ".intercalate (Stmt.textsBy Operator.infixText stmts)).toList
      (Stmt.allTrees stmts)
  | [], _ => .nil
  | [stmt], h => by
    have := Stmt.forms h.1
    simpa [Stmt.textsBy, Stmt.allTrees] using this
  | stmt :: next :: rest, h => by
    have := ((Stmt.forms h.1).append .blank).append (Stmt.forms_all h.2)
    simpa [Stmt.textsBy, Stmt.allTrees] using this

/-- What is written of a block forms its trees whatever follows. -/
theorem Block.forms : ∀ {block : Block P}, block.WellFormed →
    FormsOpen (block.textBy Operator.infixText).toList block.trees
  | .mk _ _, h => Stmt.forms_all h

end

end LetWhile
