import LetWhile.Proofs.Program.Cuts
import LetWhile.Proofs.Program.Grammar
import LetWhile.Proofs.Tree.Tokens

/-!
# Reading decides the grammar

A reading either finds its slice nested too deep for its budget or yields exactly what the grammar
says, if it says anything (`Outcome.Decides`). One level of reading decides the grammar when the
readings one level deeper do (`Reader.readSlice_decides`, `Reader.readBlock_decides`), so all levels
do, by induction on the budget (`Reader.ofBudget_decides`).
-/

namespace LetWhile

variable {P : Type}

/-! ## Deciding -/

namespace Outcome
variable {α β : Type}

/-- The outcome of a reading that ran out of its budget. -/
def TooDeep (outcome : Outcome P α) : Prop :=
  ∃ limit pos, outcome = .error ⟨.nestingTooDeep limit, pos⟩

/-- An outcome is too deep, or it is the result that has a property, if any has. -/
def Decides (outcome : Outcome P α) (S : α → Prop) : Prop :=
  outcome.TooDeep ∨ ∀ a, outcome = .ok a ↔ S a

/-- What an outcome decides may be said in another way. -/
theorem Decides.congr {outcome : Outcome P α} {S T : α → Prop} (h : outcome.Decides S)
    (hst : ∀ a, S a ↔ T a) : outcome.Decides T :=
  h.imp_right fun h a => (h a).trans (hst a)

/-- A value decides what it alone is. -/
theorem Decides.ok (a : α) : Decides (P := P) (.ok a) (· = a) :=
  .inr fun _ => ⟨fun h => (Except.ok.inj h).symm, congrArg _ ∘ Eq.symm⟩

/-- Every outcome decides what it is. -/
theorem Decides.self (outcome : Outcome P α) : outcome.Decides fun a => outcome = .ok a :=
  .inr fun _ => Iff.rfl

/-- A fault decides what nothing satisfies. -/
theorem Decides.error (fault : Fault P) {S : α → Prop} (h : ∀ a, ¬ S a) :
    Decides (.error fault) S :=
  .inr fun a => ⟨nofun, fun ha => absurd ha (h a)⟩

/-- Outcomes that decide one after another decide that there is a first result with a second. -/
theorem Decides.bind {outcome : Outcome P α} {next : α → Outcome P β} {S : α → Prop}
    {T : α → β → Prop} (h : outcome.Decides S) (hnext : ∀ a, S a → (next a).Decides (T a)) :
    Decides (outcome >>= next) fun b => ∃ a, S a ∧ T a b := by
  rcases h with ⟨limit, pos, rfl⟩ | h
  · exact .inl ⟨limit, pos, rfl⟩
  · cases outcome with
    | error fault => exact .error fault fun _ ⟨a, ha, _⟩ => absurd ((h a).2 ha) nofun
    | ok a =>
      refine (hnext a ((h a).1 rfl)).congr fun b => ⟨fun hb => ⟨a, (h a).1 rfl, hb⟩, ?_⟩
      intro h'
      obtain ⟨a', ha', hb⟩ := h'
      cases (h a').2 ha'
      exact hb

/-- A result that is wrapped up decides what its wrapping spells. -/
theorem Decides.map {outcome : Outcome P α} {S : α → Prop} (h : outcome.Decides S) (f : α → β) :
    Decides (outcome >>= fun a => .ok (f a)) fun b => ∃ a, S a ∧ b = f a :=
  h.bind fun a _ => .ok (f a)

/-- Reading a list decides what reading its elements decides. -/
theorem Decides.mapM {γ : Type} {read : γ → Outcome P α} {S : γ → α → Prop} (items : List γ)
    (h : ∀ item, (read item).Decides (S item)) :
    Decides (items.mapM read) (List.Forall₂ S items) := by
  induction items with
  | nil => exact (Decides.ok []).congr fun _ => List.forall₂_nil_left_iff.symm
  | cons item items ih =>
    rw [List.mapM_cons]
    refine ((h item).bind fun a _ => ih.map (a :: ·)).congr fun values => ?_
    rw [List.forall₂_cons_left_iff]
    refine ⟨?_, ?_⟩
    · intro h'
      obtain ⟨a, ha, more, hmore, rfl⟩ := h'
      exact ⟨a, more, ha, hmore, rfl⟩
    · intro h'
      obtain ⟨a, more, ha, hmore, rfl⟩ := h'
      exact ⟨a, ha, more, hmore, rfl⟩

end Outcome

open Outcome

/-! ## Types -/

/-- Reading decides which type a slice spells. -/
theorem Ty.ofTrees_decides (limit : Nat) : ∀ (budget : Nat) (origin : P) (trees : List (Tree P)),
    (Ty.ofTrees limit budget origin trees).Decides (SpellsType trees)
  | 0, origin, trees => .inl ⟨limit, _, rfl⟩
  | budget + 1, origin, trees => by
    have ih := fun (origin : P) trees => Ty.ofTrees_decides limit budget origin trees
    unfold Ty.ofTrees
    simp only
    split
    -- One tree that is a token: the name of a type, or none.
    · rename_i token
      split
      · rename_i hk
        refine (Decides.ok _).congr fun type => ⟨?_, ?_⟩
        · rintro rfl
          exact .name hk
        · intro h'
          cases h'
          rfl
      · rename_i hk
        refine .error _ fun type h => ?_
        cases h
        contradiction
    -- One tree in parentheses.
    · rename_i children span
      refine (ih span.start children).congr fun type => ⟨.paren, fun h => ?_⟩
      cases h
      assumption
    -- Parameters, an arrow and what is returned.
    · rename_i params span arrow tree rest
      split
      · rename_i harrow
        refine ((Decides.mapM _ fun part => ih span.start part).bind fun types _ =>
          (ih arrow.span.stop (tree :: rest)).map (Ty.function types)).congr fun type => ⟨?_, ?_⟩
        · intro h'
          obtain ⟨types, htypes, result, hresult, rfl⟩ := h'
          exact .function harrow nofun htypes hresult
        · rintro (⟨⟩ | ⟨⟩ | ⟨_, _, htypes, hresult⟩)
          exact ⟨_, htypes, _, hresult, rfl⟩
      · rename_i harrow
        refine .error _ fun type h => ?_
        cases h
        contradiction
    -- Every other slice.
    · rename_i hname hparen hfunction
      refine .error _ fun type h => ?_
      cases h with
      | name => exact hname _ rfl
      | paren => exact hparen _ _ rfl
      | @function params rest span arrow types result _ hrest =>
        cases rest with
        | nil => exact hrest rfl
        | cons => exact hfunction _ _ _ _ _ rfl

/-! ## Expressions -/

/-- A slice spells an expression if it can be climbed from its front to its end. -/
theorem spellsExpr_iff {trees : List (Tree P)} {expr : Expr P} :
    SpellsExpr trees expr ↔ Climb SpellsOperand 0 none trees expr [] :=
  ⟨fun h => by cases h; assumption, .climb⟩

/-- A slice without operators spells what it spells as an operand. -/
theorem spellsExpr_run_iff {trees : List (Tree P)} (h : Chain.NoOperators trees) (hne : trees ≠ [])
    {expr : Expr P} : SpellsExpr trees expr ↔ SpellsOperand trees expr :=
  spellsExpr_iff.trans (Climb.run_iff h hne)

/-- The empty slice spells no expression. -/
theorem not_spellsExpr_nil (expr : Expr P) : ¬ SpellsExpr [] expr := by
  intro he
  generalize ht : [] = trees at he
  cases spellsExpr_iff.1 he with
  | prefixed => cases ht
  | operand hne => exact hne (List.append_eq_nil_iff.1 ht.symm).1

/-- A prefix operator is applied to what the rest of its slice spells. -/
theorem spellsExpr_prefixed_iff {token : Token P} (hk : token.kind = .operator)
    {rest : List (Tree P)} {expr : Expr P} :
    SpellsExpr (.leaf token :: rest) expr ↔
      ∃ op, PrefixOp.ofSymbol? token.text = some op ∧ ∃ operand, SpellsExpr rest operand ∧
        expr = .operation (.prefixed op) [operand] (token.span.through operand.span) := by
  simp only [spellsExpr_iff]
  refine ⟨?_, ?_⟩
  · intro h
    generalize ht : Tree.leaf token :: rest = trees at h
    cases h with
    | prefixed _ ho hoperand =>
      cases ht
      exact ⟨_, ho, _, hoperand, rfl⟩
    | @operand _ run _ _ _ _ hne hrun =>
      cases run with
      | nil => exact absurd rfl hne
      | cons tree run =>
        cases ht
        exact absurd ((hrun _ (by simp)).symm.trans (Chain.isKind_operator_leaf hk)) nofun
  · intro h'
    obtain ⟨op, ho, operand, hoperand, rfl⟩ := h'
    exact .prefixed hk ho hoperand

namespace Reader

/-- The readings one level deeper decide the grammar. -/
structure Decides (inner : Reader P) : Prop where
  expr : ∀ origin trees, (inner.expr origin trees).Decides (SpellsExpr trees)
  type : ∀ origin trees, (inner.type origin trees).Decides (SpellsType trees)
  block : ∀ outline, (inner.block outline).Decides (SpellsBlock outline)

variable {inner : Reader P}

/-- Reading a token decides which operand it spells. -/
theorem readToken_decides (token : Token P) :
    (readToken token).Decides (SpellsOperand [.leaf token]) := by
  unfold readToken
  -- The kinds of tokens that are operands, in the order of the reader, and then all others.
  split
  · rename_i hk
    refine (Outcome.Decides.ok _).congr fun expr => ⟨?_, ?_⟩
    · rintro rfl
      exact .symbol hk
    · intro h
      cases h <;> simp_all
  · rename_i hk
    refine (Outcome.Decides.ok _).congr fun expr => ⟨?_, ?_⟩
    · rintro rfl
      exact .boolean hk
    · intro h
      cases h <;> simp_all
  · rename_i hk
    split
    · rename_i value hvalue
      refine (Outcome.Decides.ok _).congr fun expr => ⟨?_, ?_⟩
      · rintro rfl
        exact .number hk hvalue
      · intro h
        cases h <;> simp_all
    · refine .error _ fun expr h => ?_
      cases h <;> simp_all
  · rename_i hk
    refine (Outcome.Decides.ok _).congr fun expr => ⟨?_, ?_⟩
    · rintro rfl
      exact .string hk
    · intro h
      cases h <;> simp_all
  · refine .error _ fun expr h => ?_
    cases h <;> simp_all

/-- Reading a primary decides which operand the tree spells, given what is in its parentheses. -/
theorem readPrimary_decides (h : inner.Decides) (tree : Tree P) :
    (inner.readPrimary tree).Decides (SpellsOperand [tree]) := by
  unfold readPrimary
  split
  · exact readToken_decides _
  · refine (h.expr _ _).congr fun expr => ⟨.paren, fun h => ?_⟩
    cases h
    assumption
  · exact .error _ nofun

/-- Reading behind a prefix operator decides which expression the whole slice spells. -/
theorem readPrefixed_decides (h : inner.Decides) {token : Token P} (hk : token.kind = .operator)
    (rest : List (Tree P)) :
    (inner.readPrefixed token rest).Decides (SpellsExpr (.leaf token :: rest)) := by
  unfold readPrefixed
  split
  · rename_i ho
    refine .error _ fun expr h => ?_
    obtain ⟨op, ho', _⟩ := (spellsExpr_prefixed_iff hk).1 h
    exact absurd (ho.symm.trans ho') nofun
  · rename_i op ho
    refine ((h.expr token.span.stop rest).map _).congr fun expr => ?_
    rw [spellsExpr_prefixed_iff hk, ho]
    simp

/-- Reading a call decides which operand the callee and its arguments spell. -/
theorem readCall_decides (h : inner.Decides) {callee : Tree P} {args : List (Tree P)} {span : Span P}
    (hc : isCallable callee = true) :
    (inner.readCall callee ⟨args, span⟩).Decides
      (SpellsOperand [callee, .group .paren args span]) := by
  refine ((readPrimary_decides h callee).bind fun function _ =>
    (Outcome.Decides.mapM _ fun part => h.expr span.start part).map
      (Expr.call function · (callee.span.through span))).congr fun expr => ⟨?_, fun h => ?_⟩
  · intro h'
    obtain ⟨function, hfunction, values, hvalues, rfl⟩ := h'
    exact .call hc hfunction hvalues
  · cases h with
    | call _ hfunction hvalues => exact ⟨_, hfunction, _, hvalues, rfl⟩

/-- Reading a part between commas decides which name of a parameter it spells. -/
theorem parameterName_decides (origin : P) (part : List (Tree P)) :
    (parameterName origin part).Decides (SpellsParameter part) := by
  unfold parameterName
  split
  · refine .error _ fun name h => ?_
    cases h
  · rename_i tree rest
    split
    · rename_i token htoken
      cases tree with
      | group => cases htoken
      | leaf token' =>
        simp only [Tree.token?, Option.ite_none_right_eq_some, Option.some.injEq] at htoken
        obtain ⟨hk, rfl⟩ := htoken
        refine (Outcome.Decides.ok _).congr fun name => ⟨?_, ?_⟩
        · rintro rfl
          exact .name hk
        · intro h'
          cases h'
          rfl
    · rename_i hnot
      refine .error _ fun name h => ?_
      cases h with
      | name hk => exact hnot _ (if_pos hk) rfl

/-- Reading a function literal decides which operand its parameters and its body spell. -/
theorem readFunction_decides (h : inner.Decides) {params body : List (Tree P)}
    {paramsSpan bodySpan : Span P} {arrow : Tree P} (harrow : arrow.isKind .lambdaArrow = true) :
    (inner.readFunction ⟨params, paramsSpan⟩ ⟨body, bodySpan⟩).Decides
      (SpellsOperand [.group .paren params paramsSpan, arrow, .group .brace body bodySpan]) := by
  refine ((Outcome.Decides.mapM _ fun part => parameterName_decides paramsSpan.start part).bind
    fun names _ => (Outcome.Decides.self (Outline.ofRegion ⟨body, bodySpan⟩)).bind
      fun outline _ => (h.block outline).map
        (Expr.function names · (paramsSpan.through bodySpan))).congr fun expr => ⟨?_, fun h => ?_⟩
  · intro h'
    obtain ⟨names, hnames, outline, houtline, block, hblock, rfl⟩ := h'
    exact .function harrow hnames houtline hblock
  · cases h with
    | function _ hnames houtline hblock =>
      exact ⟨_, hnames, _, houtline, _, hblock, rfl⟩

/-- Folding the links of a chain from the left reads what a climb reads. -/
theorem foldlM_readLink_decides (h : inner.Decides) {power : Nat} {bound : Bool}
    {trees operand : List (Tree P)} {links : List (Chain.Link P)}
    (hcuts : Chain.Cuts power bound trees operand links) (hbound : bound = true) (origin : P)
    (join : Expr P → Expr P) :
    (do
      let right ← inner.expr origin operand
      links.foldlM inner.readLink (join right)).Decides
      (Climb.Joined SpellsOperand power join trees) := by
  induction hcuts generalizing origin join with
  | operand hleast =>
    subst hbound
    refine ((h.expr origin _).map join).congr fun expr => ?_
    simp only [Climb.joined_operand_iff hleast, spellsExpr_iff]
  | link hleast hafter hk ho hp _ ih =>
    subst hbound
    simp only [List.foldlM_cons, readLink, bind_assoc]
    refine ((h.expr origin _).bind fun left _ => ih rfl _ _).congr fun expr => ?_
    simp only [Climb.joined_link_iff hleast hafter hk ho hp, spellsExpr_iff]

/-- Reading a chain decides which expression a slice spells that is no single operand. -/
theorem readChain_decides (h : inner.Decides) (origin : P) {first : Tree P} {rest : List (Tree P)}
    (hfirst : first.isKind .operator = false) (hshape : ∀ expr, ¬ SpellsOperand (first :: rest) expr) :
    (inner.readChain origin (first :: rest)).Decides (SpellsExpr (first :: rest)) := by
  unfold readChain
  simp only
  split
  · rename_i hlowest
    split
    · rename_i hjoints
      have hops : Chain.NoOperators (first :: rest) := by
        refine List.forall_mem_cons.2 ⟨hfirst, Chain.noOperators_of_joints_eq_nil ?_⟩
        rw [← hfirst]
        exact (List.append_eq_nil_iff.1 hjoints).2
      exact .error _ fun expr he => hshape expr ((spellsExpr_run_iff hops (List.cons_ne_nil _ _)).1 he)
    · rename_i token more hjoints
      refine .error _ fun expr he => Climb.of_unknown ?_ ?_ ?_ (spellsExpr_iff.1 he)
      · exact fun token ht => Chain.not_binary_of_lowestPower? hlowest ht
      · rw [hjoints]
        exact List.cons_ne_nil _ _
      · rw [Chain.AtOperator, hfirst]
        exact Bool.false_ne_true
  · rename_i power hlowest
    have hleast := Chain.atLeast_lowestPower? hlowest
    refine (foldlM_readLink_decides h (Chain.cut_cuts hleast) rfl _ id).congr fun expr => ?_
    rw [spellsExpr_iff, Climb.joined_iff hfirst hleast]

/-- A slice that has the shape of a call is a callee and a group of arguments. -/
theorem shapeOf_eq_call {trees : List (Tree P)} {callee : Tree P} {args : Region P}
    (h : shapeOf trees = .call callee args) :
    isCallable callee = true ∧ trees = [callee, .group .paren args.trees args.span] := by
  unfold shapeOf at h
  split at h
  · split at h
    · rename_i hargs
      split at h
      · rename_i hc
        cases h
        rw [Tree.region?_eq_some_iff.1 hargs]
        exact ⟨hc, rfl⟩
      · cases h
    · cases h
  · repeat' split at h
    all_goals cases h
  · cases h

/-- A slice that has the shape of a function is two groups with an arrow between them. -/
theorem shapeOf_eq_function {trees : List (Tree P)} {params body : Region P}
    (h : shapeOf trees = .function params body) :
    ∃ arrow : Tree P, arrow.isKind .lambdaArrow = true ∧
      trees = [.group .paren params.trees params.span, arrow,
        .group .brace body.trees body.span] := by
  unfold shapeOf at h
  split at h
  · repeat' split at h
    all_goals cases h
  · split at h
    · rename_i hparams hbody
      split at h
      · rename_i harrow
        cases h
        rw [Tree.region?_eq_some_iff.1 hparams, Tree.region?_eq_some_iff.1 hbody]
        exact ⟨_, harrow, rfl⟩
      · cases h
    · cases h
  · cases h

/-- A slice that is a chain by its shape is no operand, unless it is a single tree. -/
theorem not_spellsOperand_of_chain {first second : Tree P} {rest : List (Tree P)}
    (h : shapeOf (first :: second :: rest) = .chain) (expr : Expr P) :
    ¬ SpellsOperand (first :: second :: rest) expr := by
  intro he
  cases he with
  | call hc => simp [shapeOf, Tree.region?, hc] at h
  | function harrow => simp [shapeOf, Tree.region?, harrow] at h

/-- No operator can be called. -/
theorem isKind_operator_of_isCallable {tree : Tree P} (h : isCallable tree = true) :
    tree.isKind .operator = false := by
  cases tree with
  | group => rfl
  | leaf token =>
    have hk : token.kind = .identifier := by simpa [isCallable, Tree.isKind, Tree.region?] using h
    simp [Tree.isKind, hk]

/-- A token of another kind is no operator. -/
theorem isKind_operator_of_isKind {tree : Tree P} {kind : Kind} (h : tree.isKind kind = true)
    (hne : kind ≠ .operator) : tree.isKind .operator = false := by
  cases tree with
  | group => rfl
  | leaf token =>
    have hk : token.kind = kind := by simpa [Tree.isKind] using h
    simpa [Tree.isKind, hk] using hne

/-- A tree on its own is no place for an operator. -/
theorem readPrimary_decides_spellsExpr (h : inner.Decides) (tree : Tree P) :
    (inner.readPrimary tree).Decides (SpellsExpr [tree]) := by
  cases ht : tree.isKind .operator with
  | false =>
    have hops : Chain.NoOperators [tree] := by simpa [Chain.NoOperators] using ht
    exact (readPrimary_decides h tree).congr fun expr => (spellsExpr_run_iff hops nofun).symm
  | true =>
    obtain ⟨token, rfl, hk⟩ := Chain.isKind_operator_eq_true_iff.1 ht
    simp only [readPrimary, readToken, hk]
    refine .error _ fun expr he => ?_
    obtain ⟨_, _, operand, hoperand, _⟩ := (spellsExpr_prefixed_iff hk).1 he
    exact not_spellsExpr_nil operand hoperand

/-- One level of reading expressions decides the grammar if the levels below do. -/
theorem readSlice_decides (h : inner.Decides) (origin : P) (trees : List (Tree P)) :
    (inner.readSlice origin trees).Decides (SpellsExpr trees) := by
  unfold readSlice
  split
  -- No trees, or one.
  · exact .error _ not_spellsExpr_nil
  · exact readPrimary_decides_spellsExpr h _
  · rename_i first rest hrest
    obtain ⟨second, rest, rfl⟩ := List.exists_cons_of_ne_nil hrest
    split
    -- An operator in front.
    · rename_i token htoken
      cases first with
      | group => cases htoken
      | leaf token' =>
        simp only [Tree.token?, Option.ite_none_right_eq_some, Option.some.injEq] at htoken
        obtain ⟨hk, rfl⟩ := htoken
        exact readPrefixed_decides h hk _
    · rename_i htoken
      have hfirst : first.isKind .operator = false := by
        cases first with
        | group => rfl
        | leaf token => simpa [Tree.token?, Tree.isKind] using htoken
      split
      -- A call, a function literal, or operands and operators.
      · rename_i callee args hshape
        obtain ⟨hc, ht⟩ := shapeOf_eq_call hshape
        have hops : Chain.NoOperators [callee, .group .paren args.trees args.span] := by
          simpa [Chain.NoOperators] using ⟨isKind_operator_of_isCallable hc, rfl⟩
        rw [ht]
        exact (readCall_decides h hc).congr fun expr =>
          (spellsExpr_run_iff hops (List.cons_ne_nil _ _)).symm
      · rename_i params body hshape
        obtain ⟨arrow, harrow, ht⟩ := shapeOf_eq_function hshape
        have hops : Chain.NoOperators [.group .paren params.trees params.span, arrow,
            .group .brace body.trees body.span] := by
          simpa [Chain.NoOperators] using
            ⟨rfl, isKind_operator_of_isKind harrow (by decide), rfl⟩
        rw [ht]
        exact (readFunction_decides h harrow).congr fun expr =>
          (spellsExpr_run_iff hops (List.cons_ne_nil _ _)).symm
      · rename_i hshape
        exact readChain_decides h origin hfirst (not_spellsOperand_of_chain hshape)

/-! ## Blocks -/

/-- Reading an outline of a statement decides which statement it spells. -/
theorem readStmt_decides (h : inner.Decides) (outline : Outline.Stmt P) :
    (inner.readStmt outline).Decides (SpellsStmt outline) := by
  unfold readStmt
  -- One case for each form of an outline: its parts are decided by the readers below.
  split
  · rename_i name signature trees span
    refine ((h.type span.start signature).bind fun type _ => (h.expr span.stop trees).map
      (Stmt.declare name type · span)).congr fun stmt => ⟨?_, fun hs => ?_⟩
    · intro h'
      obtain ⟨type, htype, value, hvalue, rfl⟩ := h'
      exact .declare htype hvalue
    · cases hs with
      | declare htype hvalue => exact ⟨_, htype, _, hvalue, rfl⟩
  · rename_i name trees span
    refine ((h.expr span.stop trees).map (Stmt.assign name · span)).congr fun stmt =>
      ⟨?_, fun hs => ?_⟩
    · intro h'
      obtain ⟨value, hvalue, rfl⟩ := h'
      exact .assign hvalue
    · cases hs with
      | assign hvalue => exact ⟨_, hvalue, rfl⟩
  · rename_i condition yes no span
    refine ((h.expr condition.span.start condition.trees).bind fun value _ =>
      (h.block yes).bind fun yes _ => (h.block no).map (Stmt.branch value yes · span)).congr
        fun stmt => ⟨?_, fun hs => ?_⟩
    · intro h'
      obtain ⟨value, hvalue, yes, hyes, no, hno, rfl⟩ := h'
      exact .branch hvalue hyes hno
    · cases hs with
      | branch hvalue hyes hno => exact ⟨_, hvalue, _, hyes, _, hno, rfl⟩
  · rename_i condition body span
    refine ((h.expr condition.span.start condition.trees).bind fun value _ =>
      (h.block body).map (Stmt.loop value · span)).congr fun stmt => ⟨?_, fun hs => ?_⟩
    · intro h'
      obtain ⟨value, hvalue, body, hbody, rfl⟩ := h'
      exact .loop hvalue hbody
    · cases hs with
      | loop hvalue hbody => exact ⟨_, hvalue, _, hbody, rfl⟩
  · rename_i trees span
    refine ((h.expr span.stop trees).map (Stmt.returnValue · span)).congr fun stmt =>
      ⟨?_, fun hs => ?_⟩
    · intro h'
      obtain ⟨value, hvalue, rfl⟩ := h'
      exact .returnValue hvalue
    · cases hs with
      | returnValue hvalue => exact ⟨_, hvalue, rfl⟩
  · refine (Outcome.Decides.ok _).congr fun stmt => ⟨?_, fun hs => ?_⟩
    · rintro rfl
      exact .returnVoid
    · cases hs
      rfl
  · rename_i trees span
    refine ((h.expr span.start trees).map (Stmt.expression · span)).congr fun stmt =>
      ⟨?_, fun hs => ?_⟩
    · intro h'
      obtain ⟨value, hvalue, rfl⟩ := h'
      exact .expression hvalue
    · cases hs with
      | expression hvalue => exact ⟨_, hvalue, rfl⟩

/-- One level of reading blocks decides the grammar if the levels below do. -/
theorem readBlock_decides (h : inner.Decides) (outline : Outline.Block P) :
    (inner.readBlock outline).Decides (SpellsBlock outline) := by
  cases outline with
  | mk outlines span =>
    refine ((Outcome.Decides.mapM outlines (readStmt_decides h)).map (Block.mk · span)).congr
      fun block => ⟨?_, fun hs => ?_⟩
    · intro h'
      obtain ⟨stmts, hstmts, rfl⟩ := h'
      exact .block hstmts
    · cases hs with
      | block hstmts => exact ⟨_, hstmts, rfl⟩

/-- Reading decides the grammar at every budget. -/
theorem ofBudget_decides (limit budget : Nat) : (ofBudget (P := P) limit budget).Decides := by
  induction budget with
  | zero =>
    exact ⟨fun _ _ => .inl ⟨limit, _, rfl⟩, Ty.ofTrees_decides limit 0,
      fun _ => .inl ⟨limit, _, rfl⟩⟩
  | succ budget ih =>
    exact ⟨readSlice_decides ih, Ty.ofTrees_decides limit (budget + 1), readBlock_decides ih⟩

end Reader

end LetWhile
