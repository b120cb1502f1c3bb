import LetWhile.Proofs.Printing.Leads
import Mathlib.Control.Monad.Basic

/-!
# Shown programs are told apart

Programs that are shown alike are the same but for their places (`Source.program_text_eq_iff`). How
an expression or a statement begins shows its form, and from there its text is told part by part.
Parentheses may begin both a call and a function literal: the first has something other than a name
in them, or else more parentheses behind them (`Expr.group_ne`).
-/

namespace LetWhile

open Lexeme (isNameChar isOperatorChar)

variable {P : Type}

/-! ## Expressions are told -/

instance : Subsingleton (Span Unit) := ⟨fun a b => by cases a; cases b; rfl⟩

/-- An operator is told by its symbol and its number of operands. -/
theorem Operator.eq_of_symbol {op op' : Operator} (h : op.symbol = op'.symbol)
    (harity : op.arity = op'.arity) : op = op' := by
  cases op with
  | binary op =>
    cases op' with
    | binary op' =>
      have := op.ofSymbol?_symbol
      rw [show op.symbol = op'.symbol from h, op'.ofSymbol?_symbol] at this
      rw [Option.some.inj this]
    | prefixed op' => cases harity
  | prefixed op =>
    cases op' with
    | binary op' => cases harity
    | prefixed op' =>
      have := op.ofSymbol?_symbol
      rw [show op.symbol = op'.symbol from h, op'.ofSymbol?_symbol] at this
      rw [Option.some.inj this]

/-- An expression is told by its text. -/
def Expr.Told (expr : Expr Unit) : Prop := Tells (Expr.Drawn Kind.Allows) Expr.text Follows expr

namespace Expr
variable {args : List (Expr Unit)} {span : Span Unit}

/-- Arguments in parentheses are told by their text, whatever follows, if each argument is. -/
theorem Told.arguments (hargs : AllDrawn Kind.Allows args) (h : ∀ arg ∈ args, arg.Told) :
    Tells (AllDrawn Kind.Allows) (fun args => argumentText (args.map text)) (fun _ => True)
      args := by
  have hfirst (arg : Expr Unit) (s t : List Char) (harg : arg.Drawn Kind.Allows) :
      arg.text.toList ++ s ≠ ')' :: t := by
    obtain ⟨c, cs, htext, hc⟩ := text_cons harg
    rw [htext]
    exact append_ne_of_beginsText hc (by decide) s t
  have harguments := Tells.arguments Follows.comma Follows.paren hfirst (allDrawn_iff.1 hargs) h
  exact harguments.mono (fun _ hothers => allDrawn_iff.1 hothers) fun _ hs => hs

/-- A truth value is told by its text. -/
theorem told_boolean {value : Bool} (h : (boolean value span).Drawn Kind.Allows) :
    (boolean value span).Told := by
  intro other s t hother hs ht heq
  cases HasForm.of_text (.boolean value span) h hother hs ht heq with
  | boolean value' span' =>
    have hchars (b : Bool) : ∀ c ∈ (if b then "true" else "false").toList, isNameChar c = true := by
      cases b <;> exact List.all_eq_true.1 rfl
    obtain ⟨htext, hrest⟩ :=
      EndsRun.append_inj (hchars value) (hchars value') hs.endsRun ht.endsRun heq
    have hvalue : value = value' := by
      cases value <;> cases value' <;> first | rfl | exact absurd htext (by decide)
    exact ⟨by rw [hvalue, Subsingleton.elim span span'], hrest⟩

/-- A number is told by its text. -/
theorem told_number {value : Int} (h : (number value span).Drawn Kind.Allows) :
    (number value span).Told := by
  have hnatural {value : Int} {span : Span Unit} (h : (number value span).Drawn Kind.Allows) :
      ∃ n : Nat, value = n := by
    obtain ⟨written, hwritten, hvalue⟩ := h
    exact Int.eq_ofNat_of_zero_le (Text.integerOf_nonneg hwritten.1 hvalue)
  have hchars (n : Nat) : ∀ c ∈ (toString n).toList, isNameChar c = true :=
    (Lead.digits (s := []) fun _ hc => by cases hc).chars
  obtain ⟨n, rfl⟩ := hnatural h
  intro other s t hother hs ht heq
  cases HasForm.of_text (.number _ span) h hother hs ht heq with
  | number value' span' =>
    obtain ⟨m, rfl⟩ := hnatural hother
    obtain ⟨htext, hrest⟩ := EndsRun.append_inj (hchars n) (hchars m) hs.endsRun ht.endsRun heq
    have hvalue := Text.integerOf_toString n
    rw [String.toList_inj.1 htext, Text.integerOf_toString] at hvalue
    exact ⟨by rw [Option.some.inj hvalue, Subsingleton.elim span span'], hrest⟩

/-- A string is told by its text. -/
theorem told_string {value : String} (h : (string value span).Drawn Kind.Allows) :
    (string value span).Told := by
  intro other s t hother hs ht heq
  cases HasForm.of_text (.string value span) h hother hs ht heq with
  | string value' span' =>
    obtain ⟨hvalue, hrest⟩ := Text.tells_quoted value value' s t trivial trivial trivial heq
    exact ⟨by rw [hvalue, Subsingleton.elim span span'], hrest⟩

/-- A name is told by its text. -/
theorem told_symbol {name : String} (h : (symbol name span).Drawn Kind.Allows) :
    (symbol name span).Told := by
  intro other s t hother hs ht heq
  cases HasForm.of_text (.symbol name span) h hother hs ht heq with
  | symbol name' span' =>
    obtain ⟨hname, hrest⟩ := Kind.Allows.tells h name' s t hother hs.endsRun ht.endsRun heq
    exact ⟨by rw [hname, Subsingleton.elim span span'], hrest⟩

/-- An operation is told by its text if its operands are. -/
theorem told_operation {op : Operator} (h : (operation op args span).Drawn Kind.Allows)
    (hargs : ∀ arg ∈ args, arg.Told) : (operation op args span).Told := by
  intro other s t hother hs ht heq
  cases HasForm.of_text (.operation op args span) h hother hs ht heq with
  | operation op' args' span' =>
    obtain ⟨hop, harity, hdrawn⟩ := h
    obtain ⟨hop', harity', hdrawn'⟩ := hother
    simp only [toList_text_operation, List.append_assoc] at heq
    have hends (args : List (Expr Unit)) (s : List Char) :
        EndsRun isOperatorChar ((argumentText (args.map text)).toList ++ s) := by
      rw [toList_argumentText]
      exact .cons (by decide) _
    obtain ⟨hsymbol, hrest⟩ := EndsRun.append_inj hop.1 hop'.1 (hends args s) (hends args' t)
      (List.append_cancel_left heq)
    obtain ⟨rfl, hend⟩ := Told.arguments hdrawn hargs args' s t hdrawn' trivial trivial hrest
    have hsame : op = op' :=
      Operator.eq_of_symbol (String.toList_inj.1 hsymbol) (harity.symm.trans harity')
    exact ⟨by rw [hsame, Subsingleton.elim span span'], hend⟩

/-- A call of a name is told by its text if its arguments are. -/
theorem told_application {name : String} {span' : Span Unit}
    (h : (call (symbol name span) args span').Drawn Kind.Allows) (hargs : ∀ arg ∈ args, arg.Told) :
    (call (symbol name span) args span').Told := by
  intro other s t hother hs ht heq
  cases HasForm.of_text (.application name args span span') h hother hs ht heq with
  | application name' args' spans spans' =>
    obtain ⟨hname, hdrawn⟩ := h
    obtain ⟨hname', hdrawn'⟩ := hother
    simp only [toList_text_application, List.append_assoc] at heq
    have hends (args : List (Expr Unit)) (s : List Char) :
        EndsRun isNameChar ((argumentText (args.map text)).toList ++ s) := by
      rw [toList_argumentText]
      exact .cons (by decide) _
    obtain ⟨rfl, hrest⟩ :=
      Kind.Allows.tells hname name' _ _ hname' (hends args s) (hends args' t) heq
    obtain ⟨rfl, hend⟩ := Told.arguments hdrawn hargs args' s t hdrawn' trivial trivial hrest
    exact ⟨by rw [Subsingleton.elim span spans, Subsingleton.elim span' spans'], hend⟩

/-- Parentheses around something other than a name, with more parentheses behind them, are not the
parameters of a function literal. -/
theorem group_ne {callee : Expr Unit} {params : List String} (hcallee : callee.IsComposite)
    (h : callee.Drawn Kind.Allows) (hparams : ∀ param ∈ params, Kind.identifier.Allows param)
    (s t : List Char) :
    '(' :: (callee.text.toList ++ ')' :: s) ≠ (argumentText params).toList ++ t := by
  intro heq
  rw [toList_argumentText, List.cons_append, List.append_assoc] at heq
  replace heq := (List.cons.inj heq).2
  cases params with
  | nil =>
    obtain ⟨c, cs, htext, hc⟩ := text_cons h
    rw [htext] at heq
    exact append_ne_of_beginsText hc (by decide) _ _ heq
  | cons param params =>
    rw [toList_intercalate_cons] at heq
    have hfollows : Follows (afterFirst ", " params (')' :: t)) := by
      cases params with
      | nil => exact .paren t
      | cons next params => exact .comma _
    -- As an expression, the first parameter is a name, and it would be told as the callee.
    obtain ⟨hsymbol, -⟩ :=
      told_symbol (hparams param (.head _)) callee _ _ h hfollows (.paren s) heq.symm
    exact hcallee param ⟨(), ()⟩ hsymbol.symm

/-- A call of anything else is told by its text if its callee and its arguments are. -/
theorem told_call {callee : Expr Unit} (hcallee : callee.IsComposite)
    (h : (call callee args span).Drawn Kind.Allows) (htold : callee.Told)
    (hargs : ∀ arg ∈ args, arg.Told) : (call callee args span).Told := by
  obtain ⟨hdrawn, hdrawnArgs⟩ := id h
  intro other s t hother hs ht heq
  cases HasForm.of_text (.call args span hcallee) h hother hs ht heq with
  | @call callee' args' span' hcallee' =>
    obtain ⟨hdrawn', hdrawnArgs'⟩ := hother
    rw [toList_text_call hcallee, toList_text_call hcallee'] at heq
    simp only [List.cons_append, List.append_assoc] at heq
    obtain ⟨rfl, hrest⟩ := htold callee' _ _ hdrawn' (.paren _) (.paren _) (List.cons.inj heq).2
    obtain ⟨rfl, hstop⟩ := Told.arguments hdrawnArgs hargs args' s t hdrawnArgs' trivial trivial
      (List.cons.inj hrest).2
    exact ⟨by rw [Subsingleton.elim span span'], hstop⟩
  | function params body span' =>
    obtain ⟨hparams, -⟩ := hother
    rw [toList_text_call hcallee, toList_text_function] at heq
    simp only [List.cons_append, List.append_assoc] at heq
    exact absurd heq (group_ne hcallee hdrawn hparams _ _)

end Expr

/-! ## Statements and blocks are told -/

/-- A statement is told by its text, whatever follows. -/
def Stmt.Told (stmt : Stmt Unit) : Prop :=
  Tells (Stmt.Drawn Kind.Allows) Stmt.text (fun _ => True) stmt

/-- What stands behind the statements of a block: nothing or a closing brace. -/
def EndsBlock (cs : List Char) : Prop := cs = [] ∨ ∃ s, cs = ' ' :: '\x7d' :: s

/-- A block is told by its text, where it ends. -/
def Block.Told (block : Block Unit) : Prop :=
  Tells (Block.Drawn Kind.Allows) Block.text EndsBlock block

/-- A block in braces is told by its text, whatever follows. -/
theorem Block.Told.braced {block : Block Unit} (h : block.Told) :
    Tells (Block.Drawn Kind.Allows) (fun block => bracedText block.text) (fun _ => True) block := by
  intro other s t hother _ _ heq
  simp only [bracedText, String.toList_append, List.append_assoc] at heq
  obtain ⟨hblock, hrest⟩ := h other _ _ hother (.inr ⟨s, rfl⟩) (.inr ⟨t, rfl⟩)
    (List.append_cancel_left heq)
  exact ⟨hblock, (List.cons.inj (List.cons.inj hrest).2).2⟩

/-- A function literal is told by its text if its body is. -/
theorem Expr.told_function {params : List String} {body : Block Unit} {span : Span Unit}
    (h : (function params body span).Drawn Kind.Allows) (hbody : body.Told) :
    (function params body span).Told := by
  obtain ⟨hparams, hdrawn⟩ := id h
  intro other s t hother hs ht heq
  cases HasForm.of_text (.function params body span) h hother hs ht heq with
  | call args span' hcallee =>
    rw [toList_text_call hcallee, toList_text_function] at heq
    simp only [List.cons_append, List.append_assoc] at heq
    exact absurd heq.symm (group_ne hcallee hother.1 hparams _ _)
  | function params' body' span' =>
    obtain ⟨hparams', hdrawn'⟩ := hother
    simp only [toList_text_function, List.append_assoc] at heq
    obtain ⟨rfl, hrest⟩ := Tells.parameters hparams params' _ _ hparams' trivial trivial heq
    obtain ⟨rfl, hend⟩ := hbody.braced body' s t hdrawn' trivial trivial
      (List.append_cancel_left hrest)
    exact ⟨by rw [Subsingleton.elim span span'], hend⟩

namespace Stmt

/-- The brace behind a block is not the beginning of a statement. -/
theorem closes : Closes (Stmt.Drawn (P := P) Kind.Allows) text " " (fun _ => True) EndsBlock where
  of_end _ _ := trivial
  of_sep _ := trivial
  first stmt s hstmt hend := by
    obtain ⟨c, cs, htext, hc⟩ := text_cons hstmt
    rw [htext] at hend
    rcases hend with hend | ⟨t, hend⟩
    · cases hend
    · exact append_ne_of_beginsText hc (by decide) _ _ hend
  next stmt s hstmt hend := by
    obtain ⟨c, cs, htext, hc⟩ := text_cons hstmt
    rw [htext] at hend
    rcases hend with hend | ⟨t, hend⟩
    · cases hend
    · exact append_ne_of_beginsText hc (by decide) _ _ (List.cons.inj hend).2

section
variable {value condition : Expr Unit} {yes no body : Block Unit} {span : Span Unit}

/-- A declaration is told by its text if its value is. -/
theorem told_declare {name : String} {type : Ty}
    (h : (declare name type value span).Drawn Kind.Allows) (hvalue : value.Told) :
    (declare name type value span).Told := by
  have htext (name : String) (type : Ty) (value : Expr Unit) (span : Span Unit) :
      (declare name type value span).text.toList = "let ".toList ++ (name.toList ++ ':' :: ' ' ::
        (type.text.toList ++ ' ' :: '=' :: ' ' :: (value.text.toList ++ [';']))) := by
    simp [text, textBy, Expr.text]
  intro other s t hother _ _ heq
  have hform := form_of_text h hother heq
  cases other with
  | declare name' type' value' span' =>
    simp only [htext, List.append_assoc, List.cons_append] at heq
    obtain ⟨rfl, htypes⟩ := Kind.Allows.tells h.1 name' _ _ hother.1 (.cons (by decide) _)
      (.cons (by decide) _) (List.append_cancel_left heq)
    obtain ⟨rfl, hvalues⟩ := Ty.tells h.2.1 type' _ _ hother.2.1 (.cons (by decide) _)
      (.cons (by decide) _) (List.cons.inj (List.cons.inj htypes).2).2
    obtain ⟨rfl, hend⟩ := hvalue value' _ _ hother.2.2 (.semicolon s) (.semicolon t)
      (List.cons.inj (List.cons.inj (List.cons.inj hvalues).2).2).2
    exact ⟨by rw [Subsingleton.elim span span'], (List.cons.inj hend).2⟩
  | _ => cases hform

/-- An assignment is told by its text if its value is. -/
theorem told_assign {name : String} (h : (assign name value span).Drawn Kind.Allows)
    (hvalue : value.Told) : (assign name value span).Told := by
  have htext (name : String) (value : Expr Unit) (span : Span Unit) :
      (assign name value span).text.toList =
        name.toList ++ ' ' :: '=' :: ' ' :: (value.text.toList ++ [';']) := by
    simp [text, textBy, Expr.text]
  intro other s t hother _ _ heq
  have hform := form_of_text h hother heq
  cases other with
  | assign name' value' span' =>
    simp only [htext, List.append_assoc, List.cons_append] at heq
    obtain ⟨rfl, hvalues⟩ := Kind.Allows.tells h.1 name' _ _ hother.1 (.cons (by decide) _)
      (.cons (by decide) _) heq
    obtain ⟨rfl, hend⟩ := hvalue value' _ _ hother.2 (.semicolon s) (.semicolon t)
      (List.cons.inj (List.cons.inj (List.cons.inj hvalues).2).2).2
    exact ⟨by rw [Subsingleton.elim span span'], (List.cons.inj hend).2⟩
  | _ => cases hform

/-- A branch is told by its text if its condition and its blocks are. -/
theorem told_branch (h : (branch condition yes no span).Drawn Kind.Allows)
    (hcondition : condition.Told) (hyes : yes.Told) (hno : no.Told) :
    (branch condition yes no span).Told := by
  have htext (condition : Expr Unit) (yes no : Block Unit) (span : Span Unit) :
      (branch condition yes no span).text.toList = "if (".toList ++ (condition.text.toList ++
        ')' :: ' ' :: ((bracedText yes.text).toList ++ (" else ".toList ++
          (bracedText no.text).toList))) := by
    simp [text, textBy, Expr.text, Block.text]
  intro other s t hother _ _ heq
  have hform := form_of_text h hother heq
  cases other with
  | branch condition' yes' no' span' =>
    simp only [htext, List.append_assoc, List.cons_append] at heq
    obtain ⟨rfl, hblocks⟩ := hcondition condition' _ _ hother.1 (.paren _) (.paren _)
      (List.append_cancel_left heq)
    obtain ⟨rfl, helse⟩ := hyes.braced yes' _ _ hother.2.1 trivial trivial
      (List.cons.inj (List.cons.inj hblocks).2).2
    obtain ⟨rfl, hend⟩ := hno.braced no' s t hother.2.2 trivial trivial
      (List.append_cancel_left helse)
    exact ⟨by rw [Subsingleton.elim span span'], hend⟩
  | _ => cases hform

/-- A loop is told by its text if its condition and its block are. -/
theorem told_loop (h : (loop condition body span).Drawn Kind.Allows)
    (hcondition : condition.Told) (hbody : body.Told) : (loop condition body span).Told := by
  have htext (condition : Expr Unit) (body : Block Unit) (span : Span Unit) :
      (loop condition body span).text.toList = "while (".toList ++ (condition.text.toList ++
        ')' :: ' ' :: (bracedText body.text).toList) := by
    simp [text, textBy, Expr.text, Block.text]
  intro other s t hother _ _ heq
  have hform := form_of_text h hother heq
  cases other with
  | loop condition' body' span' =>
    simp only [htext, List.append_assoc, List.cons_append] at heq
    obtain ⟨rfl, hbodies⟩ := hcondition condition' _ _ hother.1 (.paren _) (.paren _)
      (List.append_cancel_left heq)
    obtain ⟨rfl, hend⟩ := hbody.braced body' s t hother.2 trivial trivial
      (List.cons.inj (List.cons.inj hbodies).2).2
    exact ⟨by rw [Subsingleton.elim span span'], hend⟩
  | _ => cases hform

/-- A return of a value is told by its text if the value is. -/
theorem told_returnValue (h : (returnValue value span).Drawn Kind.Allows) (hvalue : value.Told) :
    (returnValue value span).Told := by
  have htext (value : Expr Unit) (span : Span Unit) : (returnValue value span).text.toList =
      "return ".toList ++ (value.text.toList ++ [';']) := by
    simp [text, textBy, Expr.text]
  intro other s t hother _ _ heq
  have hform := form_of_text h hother heq
  cases other with
  | returnValue value' span' =>
    simp only [htext, List.append_assoc, List.cons_append] at heq
    obtain ⟨rfl, hend⟩ := hvalue value' _ _ hother (.semicolon _) (.semicolon _)
      (List.append_cancel_left heq)
    exact ⟨by rw [Subsingleton.elim span span'], (List.cons.inj hend).2⟩
  | _ => cases hform

/-- A return of nothing is told by its text. -/
theorem told_returnVoid : (returnVoid span).Told := by
  intro other s t hother _ _ heq
  have hdrawn : (returnVoid span).Drawn Kind.Allows := trivial
  have hform := form_of_text hdrawn hother heq
  cases other with
  | returnVoid span' =>
    exact ⟨by rw [Subsingleton.elim span span'], List.append_cancel_left heq⟩
  | _ => cases hform

/-- An expression as a statement is told by its text if the expression is. -/
theorem told_expression (h : (expression value span).Drawn Kind.Allows) (hvalue : value.Told) :
    (expression value span).Told := by
  have htext (value : Expr Unit) (span : Span Unit) :
      (expression value span).text.toList = value.text.toList ++ [';'] := by
    simp [text, textBy, Expr.text]
  intro other s t hother _ _ heq
  have hform := form_of_text h hother heq
  cases other with
  | expression value' span' =>
    simp only [htext, List.append_assoc, List.cons_append] at heq
    obtain ⟨rfl, hend⟩ := hvalue value' _ _ hother (.semicolon _) (.semicolon _) heq
    exact ⟨by rw [Subsingleton.elim span span'], (List.cons.inj hend).2⟩
  | _ => cases hform

end

end Stmt

/-- A block is told by its text if each of its statements is. -/
theorem Block.told_mk {stmts : List (Stmt Unit)} {span : Span Unit}
    (h : Stmt.AllDrawn Kind.Allows stmts) (htold : ∀ stmt ∈ stmts, stmt.Told) :
    (Block.mk stmts span).Told := by
  have htexts (stmts : List (Stmt Unit)) (span : Span Unit) :
      (Block.mk stmts span).text = " ".intercalate (stmts.map Stmt.text) := by
    rw [text, textBy, Stmt.textsBy_eq_map]
    rfl
  rintro ⟨others, span'⟩ s t hothers hs ht heq
  rw [htexts, htexts] at heq
  obtain ⟨rfl, hrest⟩ := Tells.separated Stmt.closes (Stmt.allDrawn_iff.1 h) htold others s t
    (Stmt.allDrawn_iff.1 hothers) hs ht heq
  exact ⟨by rw [Subsingleton.elim span span'], hrest⟩

/-! ## Programs are told -/

mutual

/-- An expression that is drawn from allowed words is told by its text. -/
theorem Expr.told : ∀ {expr : Expr Unit}, expr.Drawn Kind.Allows → expr.Told
  | .boolean _ _, h => Expr.told_boolean h
  | .number _ _, h => Expr.told_number h
  | .string _ _, h => Expr.told_string h
  | .symbol _ _, h => Expr.told_symbol h
  | .operation _ _ _, h => Expr.told_operation h (Expr.all_told h.2.2)
  | .call callee args span, h => by
    have hcallee := Expr.told h.1
    have hargs := Expr.all_told h.2
    rcases callee.symbol_or_composite with ⟨name, span', rfl⟩ | hcomposite
    · exact Expr.told_application h hargs
    · exact Expr.told_call hcomposite h hcallee hargs
  | .function _ _ _, h => Expr.told_function h (Block.told h.2)

/-- Each of several expressions is told by its text. -/
theorem Expr.all_told : ∀ {exprs : List (Expr Unit)}, Expr.AllDrawn Kind.Allows exprs →
    ∀ expr ∈ exprs, expr.Told
  | [], _ => List.forall_mem_nil _
  | _ :: _, h => List.forall_mem_cons.2 ⟨Expr.told h.1, Expr.all_told h.2⟩

/-- A statement that is drawn from allowed words is told by its text. -/
theorem Stmt.told : ∀ {stmt : Stmt Unit}, stmt.Drawn Kind.Allows → stmt.Told
  | .declare _ _ _ _, h => Stmt.told_declare h (Expr.told h.2.2)
  | .assign _ _ _, h => Stmt.told_assign h (Expr.told h.2)
  | .branch _ _ _ _, h => Stmt.told_branch h (Expr.told h.1) (Block.told h.2.1) (Block.told h.2.2)
  | .loop _ _ _, h => Stmt.told_loop h (Expr.told h.1) (Block.told h.2)
  | .returnValue _ _, h => Stmt.told_returnValue h (Expr.told h)
  | .returnVoid _, _ => Stmt.told_returnVoid
  | .expression _ _, h => Stmt.told_expression h (Expr.told h)

/-- Each of several statements is told by its text. -/
theorem Stmt.all_told : ∀ {stmts : List (Stmt Unit)}, Stmt.AllDrawn Kind.Allows stmts →
    ∀ stmt ∈ stmts, stmt.Told
  | [], _ => List.forall_mem_nil _
  | _ :: _, h => List.forall_mem_cons.2 ⟨Stmt.told h.1, Stmt.all_told h.2⟩

/-- A block that is drawn from allowed words is told by its text. -/
theorem Block.told : ∀ {block : Block Unit}, block.Drawn Kind.Allows → block.Told
  | .mk _ _, h => Block.told_mk h (Stmt.all_told h)

end

/-! ## Sources -/

/-- The program of a source is drawn from allowed words, also without its places. -/
theorem Source.program_drawn {source : Source} {limit : Nat} {program : Block Position}
    (h : source.program limit = .ok program) : (program.map nowhere).Drawn Kind.Allows := by
  obtain ⟨tokens, htokens, hread⟩ := Outcome.bind_eq_ok.1 h
  have hplaceless := Block.ofTokens_relocate nowhere limit (source.place 0) tokens
  rw [hread] at hplaceless
  exact Block.ofTokens_drawn Kind.allows_wellSpelled
    (List.forall_mem_map.2 fun token htoken => tokens_allowed htokens token htoken) hplaceless.symm

/-- Programs that are shown alike are the same but for their places, from whatever sources they are
read, and the other way round. -/
theorem Source.program_text_eq_iff {source other : Source} {limit bound : Nat}
    {program found : Block Position} (h : source.program limit = .ok program)
    (hother : other.program bound = .ok found) :
    program.text = found.text ↔ program.map nowhere = found.map nowhere := by
  have htext (block : Block Position) : (block.map nowhere).text = block.text :=
    Block.textBy_map nowhere Operator.callText block
  rw [← htext program, ← htext found]
  refine ⟨fun heq => ?_, congrArg Block.text⟩
  exact (Block.told (program_drawn h) _ [] [] (program_drawn hother) (.inl rfl) (.inl rfl)
    (by rw [heq])).1

/-- A call of what another call gives, with the two operators that are named `operator-`, in two
layouts. -/
theorem Source.program_text_eq_iff_layouts :
    let source : Source := ⟨"(g(x))(a - -b);", "demo.let"⟩
    let other : Source := ⟨"( g (x) )\n( (a) - (-(b)) );", "other.let"⟩
    ∃ program found, source.program 5 = .ok program ∧ other.program 7 = .ok found ∧
      program.text = "(g(x))(operator-(a, operator-(b)));" ∧
      program.map nowhere = found.map nowhere := by
  intro source other
  have hsource : (source.program 5).map Block.text = .ok "(g(x))(operator-(a, operator-(b)));" := by
    decide +kernel
  have hother : (other.program 7).map Block.text = .ok "(g(x))(operator-(a, operator-(b)));" := by
    decide +kernel
  obtain ⟨program, hprogram, htext⟩ := Outcome.map_eq_ok.1 hsource
  obtain ⟨found, hfound, htext'⟩ := Outcome.map_eq_ok.1 hother
  exact ⟨program, found, hprogram, hfound, htext,
    (Source.program_text_eq_iff hprogram hfound).1 (htext.trans htext'.symm)⟩

end LetWhile
