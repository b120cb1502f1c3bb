import LetWhile.Proofs.Printing.Telling
import LetWhile.Proofs.Relocation.Programs

/-!
# How expressions and statements begin

The word that an expression or a statement begins with and the character behind it show which form
it has (`Expr.HasForm.of_text`, `Stmt.form_of_text`). Quotes and operators show themselves, and a
parenthesis behind a word shows a call of a name; names, numbers and truth values are told by the
word, and so are statements, where a space follows it.
-/

namespace LetWhile

open Lexeme (isNameChar isOperatorChar)

variable {P : Type}

/-! ## Forms -/

/-- The forms of expressions that are told apart by how they begin. A call is an application if its
callee is a name, and a group in parentheses otherwise, as a function literal is. -/
inductive Expr.Form
  | boolean
  | number
  | string
  | symbol
  | operation
  | application
  | group

/-- The form of an expression whose text begins with a word and then the character `next`. -/
def Expr.Form.ofLead (word : List Char) (next : Option Char) : Form :=
  if next = some '"' then .string
  else if next = some '(' then if word = [] then .group else .application
  else if next.any isOperatorChar then .operation
  else if word = "true".toList ∨ word = "false".toList then .boolean
  else if word.all Char.isDigit then .number
  else .symbol

/-- An expression that is not a name. -/
def Expr.IsComposite (expr : Expr P) : Prop := ∀ name span, expr ≠ symbol name span

/-- The form that an expression has. -/
inductive Expr.HasForm : Form → Expr P → Prop
  | boolean (value : Bool) (span : Span P) : HasForm .boolean (.boolean value span)
  | number (value : Int) (span : Span P) : HasForm .number (.number value span)
  | string (value : String) (span : Span P) : HasForm .string (.string value span)
  | symbol (name : String) (span : Span P) : HasForm .symbol (.symbol name span)
  | operation (op : Operator) (args : List (Expr P)) (span : Span P) :
    HasForm .operation (.operation op args span)
  | application (name : String) (args : List (Expr P)) (span span' : Span P) :
    HasForm .application (.call (.symbol name span) args span')
  | call {callee : Expr P} (args : List (Expr P)) (span : Span P) (h : callee.IsComposite) :
    HasForm .group (.call callee args span)
  | function (params : List String) (body : Block P) (span : Span P) :
    HasForm .group (.function params body span)

/-- An expression is a name or it is not. -/
theorem Expr.symbol_or_composite (expr : Expr P) :
    (∃ name span, expr = symbol name span) ∨ expr.IsComposite := by
  cases expr with
  | symbol name span => exact .inl ⟨name, span, rfl⟩
  | _ => exact .inr fun _ _ h => by cases h

/-- Every expression has a form. -/
theorem Expr.exists_form (expr : Expr P) : ∃ form, HasForm form expr := by
  cases expr with
  | boolean value span => exact ⟨_, .boolean value span⟩
  | number value span => exact ⟨_, .number value span⟩
  | string value span => exact ⟨_, .string value span⟩
  | symbol name span => exact ⟨_, .symbol name span⟩
  | operation op args span => exact ⟨_, .operation op args span⟩
  | call callee args span =>
    rcases callee.symbol_or_composite with ⟨name, span', rfl⟩ | hcallee
    · exact ⟨_, .application name args span' span⟩
    · exact ⟨_, .call args span hcallee⟩
  | function params body span => exact ⟨_, .function params body span⟩

/-- The forms of statements. -/
inductive Stmt.Form
  | declare
  | assign
  | branch
  | loop
  | returnValue
  | returnVoid
  | expression

/-- The form of a statement whose text begins with a word and then the character `next`. -/
def Stmt.Form.ofLead (word : List Char) (next : Option Char) : Form :=
  if next = some ' ' then
    if word = "let".toList then .declare
    else if word = "if".toList then .branch
    else if word = "while".toList then .loop
    else if word = "return".toList then .returnValue
    else .assign
  else if next = some ';' ∧ word = "return".toList then .returnVoid
  else .expression

/-- The form of a statement. -/
def Stmt.form : Stmt P → Form
  | .declare .. => .declare
  | .assign .. => .assign
  | .branch .. => .branch
  | .loop .. => .loop
  | .returnValue .. => .returnValue
  | .returnVoid .. => .returnVoid
  | .expression .. => .expression

/-- A text is a word and what stands behind it. -/
structure Splits (cs word rest : List Char) : Prop where
  eq : cs = word ++ rest
  chars : ∀ c ∈ word, isNameChar c = true
  ends : EndsRun isNameChar rest

/-- A text begins with one word only. -/
theorem Splits.unique {cs word rest word' rest' : List Char} (h : Splits cs word rest)
    (h' : Splits cs word' rest') : word = word' ∧ rest = rest' :=
  EndsRun.append_inj h.chars h'.chars h.ends h'.ends (h.eq.symm.trans h'.eq)

/-- A name is not spelled like a reserved word. -/
theorem IsName.toList_ne {begins : Char → Bool} {name word : String} (h : IsName begins name)
    (kind : Kind) (hword : (kind, word) ∈ reservedWords) : name.toList ≠ word.toList :=
  fun heq => h.free _ hword (String.toList_inj.1 heq.symm)

/-! ## Texts of expressions -/

namespace Expr

/-- Expressions are written one by one. -/
theorem textsBy_eq_map (operation : Operator → List String → String) (exprs : List (Expr P)) :
    textsBy operation exprs = exprs.map (textBy operation) := by
  induction exprs with
  | nil => rfl
  | cons expr rest ih => rw [textsBy, ih, List.map_cons]

/-- An operation is written as a word, its operator and its operands in parentheses. -/
theorem toList_text_operation (op : Operator) (args : List (Expr P)) (span : Span P) :
    (operation op args span).text.toList =
      "operator".toList ++ (op.symbol.toList ++ (argumentText (args.map text)).toList) := by
  rw [text, textBy, textsBy_eq_map, Operator.callText, Operator.name, String.toList_append,
    String.toList_append, List.append_assoc]
  rfl

/-- A function literal is written as its parameters in parentheses, an arrow and its body in
braces. -/
theorem toList_text_function (params : List String) (body : Block P) (span : Span P) :
    (function params body span).text.toList =
      (argumentText params).toList ++ (" => ".toList ++ (bracedText body.text).toList) := by
  rw [text, textBy, String.toList_append, String.toList_append, List.append_assoc]
  rfl

/-- A call of a name is written as the name and its arguments in parentheses. -/
theorem toList_text_application (name : String) (args : List (Expr P)) (span span' : Span P) :
    (call (symbol name span) args span').text.toList =
      name.toList ++ (argumentText (args.map text)).toList := by
  rw [text, textBy, textsBy_eq_map, String.toList_append]
  rfl

/-- A call of anything else is written with the callee in parentheses of its own. -/
theorem toList_text_call {callee : Expr P} (h : callee.IsComposite) (args : List (Expr P))
    (span : Span P) : (call callee args span).text.toList =
      '(' :: (callee.text.toList ++ ')' :: (argumentText (args.map text)).toList) := by
  have hcallee (t : String) : callee.calleeText t = "(" ++ t ++ ")" := by
    cases callee with
    | symbol name span => exact absurd rfl (h name span)
    | _ => rfl
  rw [text, textBy, textsBy_eq_map, hcallee]
  simp only [String.toList_append, List.append_assoc]
  rfl

/-! ## How expressions begin -/

/-- What may stand behind an expression: what ends an argument, a condition or a statement. -/
def Follows (cs : List Char) : Prop := ∀ c ∈ cs.head?, c = ',' ∨ c = ')' ∨ c = ';'

/-- A text begins like an expression of a form: a word and what stands behind it show the form. -/
structure Lead (form : Form) (cs word rest : List Char) : Prop extends Splits cs word rest where
  form : Form.ofLead word rest.head? = form
  plain : Stmt.Form.ofLead word rest.head? = .expression
  begins : word = [] → rest.head? = some '"' ∨ rest.head? = some '('

/-- No name goes on into what stands behind an expression. -/
theorem Follows.endsRun {cs : List Char} (h : Follows cs) : EndsRun isNameChar cs := by
  intro c hc
  rcases h c hc with rfl | rfl | rfl <;> rfl

/-- A comma may stand behind an expression. -/
theorem Follows.comma (cs : List Char) : Follows (',' :: cs) := by
  rintro _ ⟨⟩
  exact .inl rfl

/-- A closing parenthesis may stand behind an expression. -/
theorem Follows.paren (cs : List Char) : Follows (')' :: cs) := by
  rintro _ ⟨⟩
  exact .inr (.inl rfl)

/-- A semicolon may stand behind an expression. -/
theorem Follows.semicolon (cs : List Char) : Follows (';' :: cs) := by
  rintro _ ⟨⟩
  exact .inr (.inr rfl)

/-- A word that is an expression. -/
theorem Lead.word {form : Form} {word s : List Char} (hword : ∀ c ∈ word, isNameChar c = true)
    (hne : word ≠ []) (hreturn : word ≠ "return".toList) (hs : Follows s)
    (hform : (if word = "true".toList ∨ word = "false".toList then Form.boolean
      else if word.all Char.isDigit then .number else .symbol) = form) :
    Lead form (word ++ s) word s := by
  refine ⟨⟨rfl, hword, hs.endsRun⟩, ?_, ?_, fun h => absurd h hne⟩
  · rw [← hform]
    cases s with
    | nil => rfl
    | cons c s => rcases hs c rfl with rfl | rfl | rfl <;> rfl
  · cases s with
    | nil => rfl
    | cons c s =>
      rcases hs c rfl with rfl | rfl | rfl
      · rfl
      · rfl
      · exact if_neg fun (h : _ ∧ _) => hreturn h.2

/-- A word, perhaps an empty one, with a character behind it that shows the form. -/
theorem Lead.mark {form : Form} {word : List Char} {c : Char}
    (hword : ∀ c ∈ word, isNameChar c = true) (hc : isNameChar c = false) (hblank : c ≠ ' ')
    (hsemicolon : c ≠ ';') (hform : Form.ofLead word (some c) = form)
    (hbegins : word = [] → c = '"' ∨ c = '(') (s : List Char) :
    Lead form (word ++ c :: s) word (c :: s) := by
  refine ⟨⟨rfl, hword, .cons hc s⟩, hform, ?_, fun h => ?_⟩
  · simp [Stmt.Form.ofLead, hblank, hsemicolon]
  · simpa using hbegins h

/-- An operator begins with a character of operators, which is none of names. -/
theorem symbol_cons (op : Operator) : ∃ c cs, op.symbol.toList = c :: cs ∧
    isOperatorChar c = true ∧ isNameChar c = false := by
  cases op with
  | binary op => cases op <;> exact ⟨_, _, rfl, rfl, rfl⟩
  | prefixed op => cases op <;> exact ⟨_, _, rfl, rfl, rfl⟩

/-- Arguments are written between parentheses, with commas and blanks between them. -/
theorem toList_argumentText (texts : List String) :
    (argumentText texts).toList = '(' :: ((", ".intercalate texts).toList ++ [')']) := by
  simp [argumentText]

/-- The digits of a number begin a text like a number. -/
theorem Lead.digits {n : Nat} {s : List Char} (hs : Follows s) :
    Lead .number ((toString n).toList ++ s) (toString n).toList s := by
  have htext : (toString n).toList = Nat.toDigits 10 n := by
    rw [Nat.toString_eq_repr, Nat.toList_repr]
  have hdigits : ∀ c ∈ Nat.toDigits 10 n, c.isDigit = true :=
    fun c hc => Nat.isDigit_of_mem_toDigits (by decide) (by decide) hc
  have hne {word : String} (hword : word.toList.all Char.isDigit = false) :
      Nat.toDigits 10 n ≠ word.toList := by
    intro h
    rw [← h, List.all_eq_true.2 hdigits] at hword
    cases hword
  rw [htext]
  refine .word (fun c hc => ?_) Nat.toDigits_ne_nil (hne (by decide)) hs ?_
  · simp [isNameChar, Char.isAlphanum, hdigits c hc]
  · rw [if_neg (not_or.2 ⟨hne (by decide), hne (by decide)⟩), if_pos (List.all_eq_true.2 hdigits)]

/-- A name begins a text like a symbol: it is neither a truth value nor digits. -/
theorem Lead.name {name : String} (h : IsName beginsIdentifier name) {s : List Char}
    (hs : Follows s) : Lead .symbol (name.toList ++ s) name.toList s := by
  obtain ⟨c, cs, hname, hc⟩ := h.head
  have hdigit : name.toList.all Char.isDigit = false := by
    rw [hname, List.all_cons, not_isDigit_of_beginsIdentifier hc, Bool.false_and]
  refine .word h.chars (by simp [hname]) (h.toList_ne (.keyword .returnWord) (by decide)) hs ?_
  rw [if_neg (not_or.2 ⟨h.toList_ne .boolean (by decide), h.toList_ne .boolean (by decide)⟩),
    hdigit]
  rfl

/-- An expression that is drawn from allowed words begins like one of its form. -/
theorem HasForm.lead {form : Form} {expr : Expr P} (hform : HasForm form expr)
    (h : expr.Drawn Kind.Allows) {s : List Char} (hs : Follows s) :
    ∃ word rest, Lead form (expr.text.toList ++ s) word rest := by
  cases hform with
  | boolean value span =>
    cases value with
    | false =>
      show ∃ word rest, Lead .boolean ("false".toList ++ s) word rest
      exact ⟨_, _, .word (List.all_eq_true.1 rfl) (by decide) (by decide) hs rfl⟩
    | true =>
      show ∃ word rest, Lead .boolean ("true".toList ++ s) word rest
      exact ⟨_, _, .word (List.all_eq_true.1 rfl) (by decide) (by decide) hs rfl⟩
  | number value span =>
    obtain ⟨written, hwritten, hvalue⟩ := h
    obtain ⟨n, rfl⟩ := Int.eq_ofNat_of_zero_le (Text.integerOf_nonneg hwritten.1 hvalue)
    exact ⟨_, _, .digits hs⟩
  | string value span =>
    rw [text, textBy, Text.toList_quoted, List.cons_append]
    exact ⟨[], _, .mark (List.forall_mem_nil _) (by decide) (by decide) (by decide) rfl
      (fun _ => .inl rfl) _⟩
  | symbol name span => exact ⟨_, _, .name (Kind.Allows.isName h) hs⟩
  | operation op args span =>
    obtain ⟨c, cs, hsymbol, hc, hname⟩ := symbol_cons op
    have hne {d : Char} (hd : isOperatorChar d = false) : some c ≠ some d :=
      fun h => Lexeme.ne_of_isOperatorChar hc hd (Option.some.inj h)
    have hlead : Form.ofLead "operator".toList (some c) = .operation := by
      rw [Form.ofLead, if_neg (hne rfl), if_neg (hne rfl)]
      exact if_pos hc
    rw [toList_text_operation, hsymbol, List.append_assoc, List.cons_append, List.cons_append]
    exact ⟨_, _, .mark (List.all_eq_true.1 rfl) hname (Lexeme.ne_of_isOperatorChar hc rfl)
      (Lexeme.ne_of_isOperatorChar hc rfl) hlead (fun h => absurd h (by decide)) _⟩
  | application name args span span' =>
    have hname : IsName beginsIdentifier name := Kind.Allows.isName h.1
    have hne : name.toList ≠ [] := by
      obtain ⟨c, cs, heq, -⟩ := hname.head
      simp [heq]
    have hlead : Form.ofLead name.toList (some '(') = .application := if_neg hne
    rw [toList_text_application, toList_argumentText, List.append_assoc, List.cons_append]
    exact ⟨_, _, .mark hname.chars (by decide) (by decide) (by decide) hlead
      (fun h => absurd h hne) _⟩
  | call args span hcallee =>
    rw [toList_text_call hcallee, List.cons_append]
    exact ⟨[], _, .mark (List.forall_mem_nil _) (by decide) (by decide) (by decide) rfl
      (fun _ => .inr rfl) _⟩
  | function params body span =>
    rw [toList_text_function, toList_argumentText, List.cons_append, List.cons_append]
    exact ⟨[], _, .mark (List.forall_mem_nil _) (by decide) (by decide) (by decide) rfl
      (fun _ => .inr rfl) _⟩

/-- Expressions with the same text before what may follow them have the same form. -/
theorem HasForm.of_text {form : Form} {expr other : Expr P} (hform : HasForm form expr)
    (h : expr.Drawn Kind.Allows) (hother : other.Drawn Kind.Allows) {s t : List Char}
    (hs : Follows s) (ht : Follows t) (heq : expr.text.toList ++ s = other.text.toList ++ t) :
    HasForm form other := by
  obtain ⟨word, rest, hlead⟩ := hform.lead h hs
  obtain ⟨form', hform'⟩ := other.exists_form
  obtain ⟨word', rest', hlead'⟩ := hform'.lead hother ht
  obtain ⟨rfl, rfl⟩ := (heq ▸ hlead.toSplits).unique hlead'.toSplits
  rwa [← hlead.form, hlead'.form]

end Expr

/-- What an expression or a statement begins with: a word, a quote or a parenthesis. -/
def beginsText (c : Char) : Bool := isNameChar c || c == '"' || c == '('

/-- The text of an expression begins with a word, a quote or a parenthesis. -/
theorem Expr.text_cons {expr : Expr P} (h : expr.Drawn Kind.Allows) :
    ∃ c cs, expr.text.toList = c :: cs ∧ beginsText c = true := by
  obtain ⟨form, hform⟩ := expr.exists_form
  obtain ⟨word, rest, hlead⟩ := hform.lead h (s := []) fun _ hc => by cases hc
  rw [← List.append_nil expr.text.toList, hlead.eq]
  cases word with
  | nil =>
    cases rest with
    | nil => simpa using hlead.begins rfl
    | cons c rest =>
      have hc : c = '"' ∨ c = '(' := by simpa using hlead.begins rfl
      rcases hc with rfl | rfl <;> exact ⟨_, rest, rfl, rfl⟩
  | cons c word =>
    have hc := hlead.chars c (.head _)
    exact ⟨c, _, rfl, by simp [beginsText, hc]⟩

/-- A text that begins like an expression differs from one that does not, whatever follows. -/
theorem append_ne_of_beginsText {c d : Char} {cs : List Char} (hc : beginsText c = true)
    (hd : beginsText d = false) (s t : List Char) : c :: cs ++ s ≠ d :: t := by
  intro h
  rw [(List.cons.inj h).1, hd] at hc
  cases hc

/-! ## How statements begin -/

namespace Stmt

/-- A statement that is drawn from allowed words begins like one of its form. -/
theorem lead {stmt : Stmt P} (h : stmt.Drawn Kind.Allows) (s : List Char) :
    ∃ word rest, Splits (stmt.text.toList ++ s) word rest ∧
      Form.ofLead word rest.head? = stmt.form := by
  have hblank (cs : List Char) : EndsRun isNameChar (' ' :: cs) := .cons (by decide) cs
  cases stmt with
  | declare name type value span =>
    simp only [text, textBy, String.toList_append, List.append_assoc]
    exact ⟨"let".toList, _, ⟨rfl, List.all_eq_true.1 rfl, hblank _⟩, rfl⟩
  | assign name value span =>
    have hname : IsName beginsIdentifier name := Kind.Allows.isName h.1
    simp only [text, textBy, String.toList_append, List.append_assoc]
    refine ⟨name.toList, _, ⟨rfl, hname.chars, hblank _⟩, ?_⟩
    show Form.ofLead name.toList (some ' ') = .assign
    rw [Form.ofLead, if_pos rfl, if_neg (hname.toList_ne (.keyword .letWord) (by decide)),
      if_neg (hname.toList_ne (.keyword .ifWord) (by decide)),
      if_neg (hname.toList_ne (.keyword .whileWord) (by decide)),
      if_neg (hname.toList_ne (.keyword .returnWord) (by decide))]
  | branch condition yes no span =>
    simp only [text, textBy, String.toList_append, List.append_assoc]
    exact ⟨"if".toList, _, ⟨rfl, List.all_eq_true.1 rfl, hblank _⟩, rfl⟩
  | loop condition body span =>
    simp only [text, textBy, String.toList_append, List.append_assoc]
    exact ⟨"while".toList, _, ⟨rfl, List.all_eq_true.1 rfl, hblank _⟩, rfl⟩
  | returnValue value span =>
    simp only [text, textBy, String.toList_append, List.append_assoc]
    exact ⟨"return".toList, _, ⟨rfl, List.all_eq_true.1 rfl, hblank _⟩, rfl⟩
  | returnVoid span =>
    have htext : (returnVoid span : Stmt P).text.toList = "return".toList ++ [';'] := by
      rw [text, textBy]
      decide
    rw [htext, List.append_assoc]
    exact ⟨"return".toList, _, ⟨rfl, List.all_eq_true.1 rfl, .cons (by decide) s⟩, rfl⟩
  | expression value span =>
    obtain ⟨form, hform⟩ := value.exists_form
    obtain ⟨word, rest, hlead⟩ := hform.lead h (.semicolon s)
    refine ⟨word, rest, ⟨?_, hlead.chars, hlead.ends⟩, hlead.plain⟩
    rw [← hlead.eq]
    simp [text, textBy, Expr.text]

/-- Statements are written one by one. -/
theorem textsBy_eq_map (operation : Operator → List String → String) (stmts : List (Stmt P)) :
    textsBy operation stmts = stmts.map (textBy operation) := by
  induction stmts with
  | nil => rfl
  | cons stmt rest ih => rw [textsBy, ih, List.map_cons]

/-- Statements that are written alike have the same form, whatever follows them. -/
theorem form_of_text {stmt other : Stmt P} (h : stmt.Drawn Kind.Allows)
    (hother : other.Drawn Kind.Allows) {s t : List Char}
    (heq : stmt.text.toList ++ s = other.text.toList ++ t) : stmt.form = other.form := by
  obtain ⟨word, rest, hsplit, hform⟩ := lead h s
  obtain ⟨word', rest', hsplit', hform'⟩ := lead hother t
  obtain ⟨rfl, rfl⟩ := (heq ▸ hsplit).unique hsplit'
  rw [← hform, hform']

/-- The text of a statement begins like an expression, with a word, a quote or a parenthesis. -/
theorem text_cons {stmt : Stmt P} (h : stmt.Drawn Kind.Allows) :
    ∃ c cs, stmt.text.toList = c :: cs ∧ beginsText c = true := by
  cases stmt with
  | assign name value span =>
    have hname : IsName beginsIdentifier name := Kind.Allows.isName h.1
    obtain ⟨c, cs, heq, -⟩ := hname.head
    have hc := hname.chars c (heq ▸ .head _)
    simp only [text, textBy, String.toList_append, List.append_assoc, heq]
    exact ⟨c, _, rfl, by simp [beginsText, hc]⟩
  | expression value span =>
    obtain ⟨c, cs, heq, hc⟩ := Expr.text_cons h
    rw [Expr.text] at heq
    simp only [text, textBy, String.toList_append, heq]
    exact ⟨c, _, rfl, hc⟩
  | returnVoid span => exact ⟨'r', "eturn;".toList, by rw [text, textBy]; decide, rfl⟩
  | _ =>
    simp only [text, textBy, String.toList_append, List.append_assoc]
    exact ⟨_, _, rfl, rfl⟩

end Stmt

/-! ## Places -/

/-- A callee is written without its places. -/
theorem Expr.calleeText_map {Q : Type} (f : P → Q) (callee : Expr P) (text : String) :
    (callee.map f).calleeText text = callee.calleeText text := by
  cases callee <;> rfl

section
variable {Q : Type} (f : P → Q) (operation : Operator → List String → String)

mutual

/-- An expression is written without its places. -/
theorem Expr.textBy_map : ∀ expr : Expr P, (expr.map f).textBy operation = expr.textBy operation
  | .boolean _ _ | .number _ _ | .string _ _ | .symbol _ _ => rfl
  | .operation _ args _ => by
    rw [Expr.map, Expr.textBy, Expr.textBy, Expr.textsBy_map args]
  | .call callee args _ => by
    rw [Expr.map, Expr.textBy, Expr.textBy, Expr.textsBy_map args, Expr.calleeText_map,
      Expr.textBy_map callee]
  | .function _ body _ => by
    rw [Expr.map, Expr.textBy, Expr.textBy, Block.textBy_map body]

/-- Expressions are written without their places. -/
theorem Expr.textsBy_map : ∀ exprs : List (Expr P),
    Expr.textsBy operation (Expr.mapAll f exprs) = Expr.textsBy operation exprs
  | [] => rfl
  | expr :: rest => by
    rw [Expr.mapAll, Expr.textsBy, Expr.textsBy, Expr.textBy_map expr, Expr.textsBy_map rest]

/-- A statement is written without its places. -/
theorem Stmt.textBy_map : ∀ stmt : Stmt P, (stmt.map f).textBy operation = stmt.textBy operation
  | .declare _ _ value _ | .assign _ value _ | .returnValue value _ | .expression value _ => by
    rw [Stmt.map, Stmt.textBy, Stmt.textBy, Expr.textBy_map value]
  | .branch condition yes no _ => by
    rw [Stmt.map, Stmt.textBy, Stmt.textBy, Expr.textBy_map condition, Block.textBy_map yes,
      Block.textBy_map no]
  | .loop condition body _ => by
    rw [Stmt.map, Stmt.textBy, Stmt.textBy, Expr.textBy_map condition, Block.textBy_map body]
  | .returnVoid _ => rfl

/-- Statements are written without their places. -/
theorem Stmt.textsBy_map : ∀ stmts : List (Stmt P),
    Stmt.textsBy operation (Stmt.mapAll f stmts) = Stmt.textsBy operation stmts
  | [] => rfl
  | stmt :: rest => by
    rw [Stmt.mapAll, Stmt.textsBy, Stmt.textsBy, Stmt.textBy_map stmt, Stmt.textsBy_map rest]

/-- Places are not shown. -/
theorem Block.textBy_map : ∀ block : Block P,
    (block.map f).textBy operation = block.textBy operation
  | .mk stmts _ => by rw [Block.map, Block.textBy, Block.textBy, Stmt.textsBy_map stmts]

end

end

end LetWhile
