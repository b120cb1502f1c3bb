import LetWhile.Proofs.Outline.Drawn
import LetWhile.Proofs.Program.Decision

/-!
# What programs are drawn from

A program is drawn from words if its names, types and literals are what some words say, and if each
of its operators has its number of operands. This is the case where it is read from such words, since
reading makes up no name and no literal (`Block.ofTokens_drawn`).
-/

namespace LetWhile

variable {P : Type} {word : Kind → String → Prop}

/-! ## Results -/

namespace Outcome
variable {α β γ : Type} {p : α → Prop} {q : β → Prop}

/-- The result of an outcome, if it has one, has a property. -/
def Yields (p : α → Prop) (outcome : Outcome P α) : Prop := ∀ a, outcome = .ok a → p a

namespace Yields

/-- A value that has the property is yielded. -/
theorem ok {a : α} (h : p a) : Yields (P := P) p (.ok a) := by
  rintro _ ⟨⟩
  exact h

/-- A fault yields nothing. -/
theorem error (fault : Fault P) : Yields p (.error fault) := nofun

/-- What yields a property yields a weaker one. -/
theorem mono {r : α → Prop} {outcome : Outcome P α} (h : outcome.Yields p)
    (hr : ∀ a, p a → r a) : outcome.Yields r := fun a ha => hr a (h a ha)

/-- Outcomes yield one after another, the second given what the first yields. -/
theorem bind {outcome : Outcome P α} {next : α → Outcome P β} (h : outcome.Yields p)
    (hn : ∀ a, p a → (next a).Yields q) : Yields q (outcome >>= next) := by
  cases outcome with
  | error fault => exact error fault
  | ok a => exact hn a (h a rfl)

/-- Each item of a list that is read yields, and so does the list. -/
theorem mapM {read : γ → Outcome P α} {items : List γ}
    (h : ∀ item ∈ items, (read item).Yields p) : (items.mapM read).Yields (∀ a ∈ ·, p a) := by
  induction items with
  | nil => exact ok (List.forall_mem_nil _)
  | cons item items ih =>
    obtain ⟨hitem, hitems⟩ := List.forall_mem_cons.1 h
    rw [List.mapM_cons]
    exact hitem.bind fun a ha => (ih hitems).bind fun more hmore =>
      ok (List.forall_mem_cons.2 ⟨ha, hmore⟩)

/-- Reading a list yields results that are related to its items, if reading an item does. -/
theorem mapM_forall₂ {read : γ → Outcome P α} {R : γ → α → Prop} (items : List γ)
    (h : ∀ item ∈ items, (read item).Yields (R item)) :
    (items.mapM read).Yields (List.Forall₂ R items) := by
  induction items with
  | nil => exact ok .nil
  | cons item items ih =>
    obtain ⟨hitem, hitems⟩ := List.forall_mem_cons.1 h
    rw [List.mapM_cons]
    exact hitem.bind fun a ha => (ih hitems).bind fun more hmore => ok (.cons ha hmore)

/-- A property that every step of a run keeps is one of its end. -/
theorem foldlM {step : α → γ → Outcome P α} {items : List γ}
    (h : ∀ a, p a → ∀ item ∈ items, (step a item).Yields p) {a : α} (ha : p a) :
    (items.foldlM step a).Yields p := by
  induction items generalizing a with
  | nil => exact ok ha
  | cons item items ih =>
    rw [List.foldlM_cons]
    exact (h a ha item (.head _)).bind fun b hb =>
      ih (fun a ha item hi => h a ha item (.tail _ hi)) hb

end Yields

/-- What an outcome decides is what it yields. -/
theorem Decides.yields {outcome : Outcome P α} {S : α → Prop} (h : outcome.Decides S) :
    outcome.Yields S := by
  rintro a rfl
  rcases h with ⟨limit, pos, ⟨⟩⟩ | h
  exact (h a).1 rfl

end Outcome

open Outcome

/-! ## Programs drawn from words -/

mutual

/-- The names in a type are drawn from words. -/
def Ty.Drawn (word : Kind → String → Prop) : Ty → Prop
  | .name n => word .typeName n
  | .function params result => Ty.AllDrawn word params ∧ result.Drawn word

/-- The names in several types are drawn from words. -/
def Ty.AllDrawn (word : Kind → String → Prop) : List Ty → Prop
  | [] => True
  | type :: rest => type.Drawn word ∧ Ty.AllDrawn word rest

end

/-- Types are drawn from words if each of them is. -/
theorem Ty.allDrawn_iff {types : List Ty} :
    Ty.AllDrawn word types ↔ ∀ type ∈ types, type.Drawn word := by
  induction types with
  | nil => simp [Ty.AllDrawn]
  | cons type rest ih => simp [Ty.AllDrawn, ih]

mutual

/-- The names and literals in an expression are drawn from words, and its operators are, which have
their numbers of operands. -/
def Expr.Drawn (word : Kind → String → Prop) : Expr P → Prop
  | .boolean value _ => ∃ text, word .boolean text ∧ (text == "true") = value
  | .number value _ => ∃ text, word .number text ∧ Text.integerOf text = some value
  | .string value _ => ∃ text, word .string text ∧ Text.unquoted text = value
  | .symbol name _ => word .identifier name
  | .operation op args _ =>
    word .operator op.symbol ∧ args.length = op.arity ∧ Expr.AllDrawn word args
  | .call callee args _ => callee.Drawn word ∧ Expr.AllDrawn word args
  | .function params body _ => (∀ name ∈ params, word .identifier name) ∧ body.Drawn word

/-- Several expressions are drawn from words. -/
def Expr.AllDrawn (word : Kind → String → Prop) : List (Expr P) → Prop
  | [] => True
  | expr :: rest => expr.Drawn word ∧ Expr.AllDrawn word rest

/-- A statement is drawn from words. -/
def Stmt.Drawn (word : Kind → String → Prop) : Stmt P → Prop
  | .declare name type value _ => word .identifier name ∧ type.Drawn word ∧ value.Drawn word
  | .assign name value _ => word .identifier name ∧ value.Drawn word
  | .branch condition yes no _ => condition.Drawn word ∧ yes.Drawn word ∧ no.Drawn word
  | .loop condition body _ => condition.Drawn word ∧ body.Drawn word
  | .returnValue value _ | .expression value _ => value.Drawn word
  | .returnVoid _ => True

/-- Several statements are drawn from words. -/
def Stmt.AllDrawn (word : Kind → String → Prop) : List (Stmt P) → Prop
  | [] => True
  | stmt :: rest => stmt.Drawn word ∧ Stmt.AllDrawn word rest

/-- A block is drawn from words. -/
def Block.Drawn (word : Kind → String → Prop) : Block P → Prop
  | .mk stmts _ => Stmt.AllDrawn word stmts

end

/-- Expressions are drawn from words if each of them is. -/
theorem Expr.allDrawn_iff {exprs : List (Expr P)} :
    Expr.AllDrawn word exprs ↔ ∀ expr ∈ exprs, expr.Drawn word := by
  induction exprs with
  | nil => simp [Expr.AllDrawn]
  | cons expr rest ih => simp [Expr.AllDrawn, ih]

/-- Statements are drawn from words if each of them is. -/
theorem Stmt.allDrawn_iff {stmts : List (Stmt P)} :
    Stmt.AllDrawn word stmts ↔ ∀ stmt ∈ stmts, stmt.Drawn word := by
  induction stmts with
  | nil => simp [Stmt.AllDrawn]
  | cons stmt rest ih => simp [Stmt.AllDrawn, ih]

/-! ## Types -/

/-- A type that is read from trees is drawn from the words that they are. -/
theorem Ty.ofTrees_drawn (limit : Nat) : ∀ (budget : Nat) (origin : P) (trees : List (Tree P)),
    Tree.Holds (Token.Drawn word) trees →
      (Ty.ofTrees limit budget origin trees).Yields (Ty.Drawn word)
  | 0, _, _, _ => .error _
  | budget + 1, origin, trees, h => by
    have ih (origin : P) (trees : List (Tree P)) (h : Tree.Holds (Token.Drawn word) trees) :=
      Ty.ofTrees_drawn limit budget origin trees h
    unfold Ty.ofTrees
    simp only
    split
    · split
      · rename_i token hk
        have hword := Tree.holds_leaf.1 h
        rw [Token.Drawn, hk] at hword
        exact .ok hword
      · exact .error _
    · exact ih _ _ (Tree.holds_group.1 h)
    · split
      · obtain ⟨hparams, h⟩ := Tree.holds_cons.1 h
        obtain ⟨-, hresult⟩ := Tree.holds_cons.1 h
        refine (Yields.mapM fun part hpart => ih _ part ?_).bind fun types htypes =>
          (ih _ _ hresult).bind fun result hr => .ok ⟨Ty.allDrawn_iff.2 htypes, hr⟩
        exact (Tree.holds_group.1 hparams).of_slice (Tree.isInfix_of_mem_commaParts hpart)
      · exact .error _
    · exact .error _

/-! ## Expressions and blocks -/

namespace Reader

/-- The readings one level deeper read what is drawn from words as something drawn from them. -/
structure Draws (word : Kind → String → Prop) (inner : Reader P) : Prop where
  expr : ∀ origin trees, Tree.Holds (Token.Drawn word) trees →
    (inner.expr origin trees).Yields (Expr.Drawn word)
  type : ∀ origin trees, Tree.Holds (Token.Drawn word) trees →
    (inner.type origin trees).Yields (Ty.Drawn word)
  block : ∀ outline, outline.Drawn word → (inner.block outline).Yields (Block.Drawn word)

variable {inner : Reader P}

/-- An expression that is read from a token is drawn from that word. -/
theorem readToken_drawn {token : Token P} (h : token.Drawn word) :
    (readToken token).Yields (Expr.Drawn word) := by
  unfold Token.Drawn at h
  unfold readToken
  split
  · rename_i hk
    rw [hk] at h
    exact .ok h
  · rename_i hk
    rw [hk] at h
    exact .ok ⟨_, h, rfl⟩
  · rename_i hk
    rw [hk] at h
    split
    · rename_i value hvalue
      exact .ok ⟨_, h, hvalue⟩
    · exact .error _
  · rename_i hk
    rw [hk] at h
    exact .ok ⟨_, h, rfl⟩
  · exact .error _

/-- A primary is drawn from the words in its tree. -/
theorem readPrimary_drawn (hi : inner.Draws word) {tree : Tree P}
    (h : Tree.Holds (Token.Drawn word) [tree]) :
    (inner.readPrimary tree).Yields (Expr.Drawn word) := by
  unfold readPrimary
  split
  · exact readToken_drawn (Tree.holds_leaf.1 h)
  · exact hi.expr _ _ (Tree.holds_group.1 h)
  · exact .error _

/-- A prefix operation is drawn from its operator and the words of its operand. -/
theorem readPrefixed_drawn (hi : inner.Draws word) {token : Token P} {rest : List (Tree P)}
    (hk : token.kind = .operator) (h : token.Drawn word)
    (hrest : Tree.Holds (Token.Drawn word) rest) :
    (inner.readPrefixed token rest).Yields (Expr.Drawn word) := by
  unfold readPrefixed
  split
  · exact .error _
  · rename_i op ho
    rw [Token.Drawn, hk, ← PrefixOp.symbol_of_ofSymbol? ho] at h
    exact (hi.expr _ _ hrest).bind fun operand hoperand => .ok ⟨h, rfl, hoperand, trivial⟩

/-- A call is drawn from the words of its callee and of its arguments. -/
theorem readCall_drawn (hi : inner.Draws word) {callee : Tree P} {args : Region P}
    (hcallee : Tree.Holds (Token.Drawn word) [callee])
    (hargs : Tree.Holds (Token.Drawn word) args.trees) :
    (inner.readCall callee args).Yields (Expr.Drawn word) :=
  (readPrimary_drawn hi hcallee).bind fun _ hfunction =>
    (Yields.mapM fun part hpart =>
      hi.expr _ part (hargs.of_slice (Tree.isInfix_of_mem_commaParts hpart))).bind fun _ hvalues =>
        .ok ⟨hfunction, Expr.allDrawn_iff.2 hvalues⟩

/-- The name of a parameter is an identifier among the words. -/
theorem parameterName_drawn (origin : P) {part : List (Tree P)}
    (h : Tree.Holds (Token.Drawn word) part) :
    (parameterName origin part).Yields (word .identifier) := by
  unfold parameterName
  split
  · exact .error _
  · split
    · rename_i token htoken
      exact .ok ((Tree.IsToken.of_token? htoken).drawn (Tree.holds_cons.1 h).1)
    · exact .error _

/-- A function literal is drawn from the words of its parameters and of its body. -/
theorem readFunction_drawn (hword : WellSpelled word) (hi : inner.Draws word)
    {params body : Region P}
    (hparams : Tree.Holds (Token.Drawn word) params.trees)
    (hbody : Tree.Holds (Token.Drawn word) body.trees) :
    (inner.readFunction params body).Yields (Expr.Drawn word) := by
  have houtline : (Outline.ofRegion body).Yields (Outline.Block.Drawn word) :=
    fun _ h => Outline.ofRegion_drawn hword hbody h
  refine (Yields.mapM fun part hpart => parameterName_drawn _ ?_).bind fun _ hnames =>
    houtline.bind fun outline hdrawn => (hi.block outline hdrawn).bind fun _ hblock =>
      .ok ⟨hnames, hblock⟩
  exact hparams.of_slice (Tree.isInfix_of_mem_commaParts hpart)

/-- A chain is drawn from the words of its slice. -/
theorem readChain_drawn (hi : inner.Draws word) (origin : P) {trees : List (Tree P)}
    (h : Tree.Holds (Token.Drawn word) trees) :
    (inner.readChain origin trees).Yields (Expr.Drawn word) := by
  unfold readChain
  simp only
  split
  · split
    · exact .error _
    · exact .error _
  · rename_i power hlowest
    have hcuts := Chain.cut_cuts (Chain.atLeast_lowestPower? hlowest)
    refine (hi.expr _ _ (h.of_slice hcuts.operand_isPrefix.isInfix)).bind fun first hfirst =>
      Yields.foldlM (fun left hleft link hlink => ?_) hfirst
    obtain ⟨hoperand, token, htoken, hk, ho⟩ := hcuts.link_isInfix link hlink
    have hop := Tree.holds_leaf.1 (h.of_mem htoken)
    rw [Token.Drawn, hk, ← BinaryOp.symbol_of_ofSymbol? ho] at hop
    exact (hi.expr _ _ (h.of_slice hoperand)).bind fun right hright =>
      .ok ⟨hop, rfl, hleft, hright, trivial⟩

/-- One level of reading expressions reads what is drawn from words as something drawn from them. -/
theorem readSlice_drawn (hword : WellSpelled word) (hi : inner.Draws word) (origin : P)
    {trees : List (Tree P)} (h : Tree.Holds (Token.Drawn word) trees) :
    (inner.readSlice origin trees).Yields (Expr.Drawn word) := by
  unfold readSlice
  split
  · exact .error _
  · exact readPrimary_drawn hi h
  · split
    · rename_i token htoken
      obtain ⟨hfirst, hrest⟩ := Tree.holds_cons.1 h
      obtain ⟨rfl, hk⟩ := Tree.token?_eq_some_iff.1 htoken
      exact readPrefixed_drawn hi hk (Tree.holds_leaf.1 hfirst) hrest
    · split
      · rename_i hshape
        obtain ⟨-, ht⟩ := shapeOf_eq_call hshape
        rw [ht] at h
        obtain ⟨hcallee, hargs⟩ := Tree.holds_cons.1 h
        exact readCall_drawn hi hcallee (Tree.holds_group.1 hargs)
      · rename_i hshape
        obtain ⟨arrow, -, ht⟩ := shapeOf_eq_function hshape
        rw [ht] at h
        obtain ⟨hparams, h⟩ := Tree.holds_cons.1 h
        obtain ⟨-, hbody⟩ := Tree.holds_cons.1 h
        exact readFunction_drawn hword hi (Tree.holds_group.1 hparams) (Tree.holds_group.1 hbody)
      · exact readChain_drawn hi origin h

/-- A statement is drawn from the words of its outline. -/
theorem readStmt_drawn (hi : inner.Draws word) {outline : Outline.Stmt P}
    (h : outline.Drawn word) : (inner.readStmt outline).Yields (Stmt.Drawn word) := by
  unfold readStmt
  split
  · exact (hi.type _ _ h.2.1).bind fun _ htype => (hi.expr _ _ h.2.2).bind fun _ hvalue =>
      .ok ⟨h.1, htype, hvalue⟩
  · exact (hi.expr _ _ h.2).bind fun _ hvalue => .ok ⟨h.1, hvalue⟩
  · exact (hi.expr _ _ h.1).bind fun _ hcondition => (hi.block _ h.2.1).bind fun _ hyes =>
      (hi.block _ h.2.2).bind fun _ hno => .ok ⟨hcondition, hyes, hno⟩
  · exact (hi.expr _ _ h.1).bind fun _ hcondition => (hi.block _ h.2).bind fun _ hbody =>
      .ok ⟨hcondition, hbody⟩
  · exact (hi.expr _ _ h).bind fun _ hvalue => .ok hvalue
  · exact .ok trivial
  · exact (hi.expr _ _ h).bind fun _ hvalue => .ok hvalue

/-- One level of reading blocks reads what is drawn from words as something drawn from them. -/
theorem readBlock_drawn (hi : inner.Draws word) {outline : Outline.Block P}
    (h : outline.Drawn word) : (inner.readBlock outline).Yields (Block.Drawn word) := by
  cases outline with
  | mk outlines span =>
    exact (Yields.mapM fun stmt hstmt =>
      readStmt_drawn hi (Outline.Stmt.AllDrawn.of_mem h hstmt)).bind fun _ hstmts =>
        .ok (Stmt.allDrawn_iff.2 hstmts)

/-- With any budget, what is read from words is drawn from them. -/
theorem ofBudget_draws (hword : WellSpelled word) (limit budget : Nat) :
    (ofBudget (P := P) limit budget).Draws word := by
  induction budget with
  | zero => exact ⟨fun _ _ _ => .error _, fun _ _ _ => .error _, fun _ _ => .error _⟩
  | succ budget ih =>
    exact ⟨fun origin _ h => readSlice_drawn hword ih origin h,
      fun origin trees h => Ty.ofTrees_drawn limit (budget + 1) origin trees h,
      fun _ h => readBlock_drawn ih h⟩

end Reader

/-- A program is drawn from the words that its tokens are. -/
theorem Block.ofTokens_drawn {limit : Nat} {origin : P} {tokens : List (Token P)}
    {program : Block P} (hword : WellSpelled word)
    (htokens : ∀ token ∈ tokens, token.Drawn word)
    (h : Block.ofTokens limit origin tokens = .ok program) : program.Drawn word := by
  obtain ⟨region, hregion, h⟩ := Outcome.bind_eq_ok.1 h
  obtain ⟨outline, houtline, h⟩ := Outcome.bind_eq_ok.1 h
  have hdrawn := Outline.ofRegion_drawn hword (Tree.holds_of_nest hregion htokens) houtline
  exact (Reader.ofBudget_draws hword limit limit).block outline hdrawn program h

end LetWhile
