import LetWhile.Proofs.Outline.Laid
import LetWhile.Proofs.Program.Drawn
import LetWhile.Proofs.Relocation.Sources

/-!
# The spans of a program nest

Each expression and each statement of a program stands somewhere in its source, and its parts stand
within it, one after another, in the order in which they are written (`Block.SpansNest`). Reading
preserves how trees and outlines are laid out (`Reader.NestsSpans`), so this holds of every program
that is read from a source (`Source.program_spansNest`).
-/

namespace LetWhile

open LetWhile.Span (InOrder)

/-! ## Nested spans -/

/-- A span that is not empty in a text of the given size. -/
def Span.StandsIn (size : Nat) (span : Span Nat) : Prop :=
  span.start < span.stop ∧ span.stop ≤ size

mutual

/-- An expression stands in a text of the given size, and its operands, its callee and arguments or
its body stand within it, one after another. -/
def Expr.SpansNest (size : Nat) : Expr Nat → Prop
  | .boolean _ span | .number _ span | .string _ span | .symbol _ span => span.StandsIn size
  | .operation _ args span =>
    span.StandsIn size ∧ InOrder span.start (args.map Expr.span) span.stop ∧
      Expr.AllSpansNest size args
  | .call callee args span =>
    span.StandsIn size ∧ InOrder span.start (callee.span :: args.map Expr.span) span.stop ∧
      callee.SpansNest size ∧ Expr.AllSpansNest size args
  | .function _ body span =>
    span.StandsIn size ∧ InOrder span.start [body.span] span.stop ∧ body.SpansNest size

/-- `Expr.SpansNest` over a list of expressions. -/
def Expr.AllSpansNest (size : Nat) : List (Expr Nat) → Prop
  | [] => True
  | expr :: rest => expr.SpansNest size ∧ Expr.AllSpansNest size rest

/-- A statement stands in a text of the given size, and its value or its condition and blocks stand
within it, one after another. -/
def Stmt.SpansNest (size : Nat) : Stmt Nat → Prop
  | .declare _ _ value span | .assign _ value span | .returnValue value span
  | .expression value span =>
    span.StandsIn size ∧ InOrder span.start [value.span] span.stop ∧ value.SpansNest size
  | .branch condition yes no span =>
    span.StandsIn size ∧ InOrder span.start [condition.span, yes.span, no.span] span.stop ∧
      condition.SpansNest size ∧ yes.SpansNest size ∧ no.SpansNest size
  | .loop condition body span =>
    span.StandsIn size ∧ InOrder span.start [condition.span, body.span] span.stop ∧
      condition.SpansNest size ∧ body.SpansNest size
  | .returnVoid span => span.StandsIn size

/-- `Stmt.SpansNest` over a list of statements. -/
def Stmt.AllSpansNest (size : Nat) : List (Stmt Nat) → Prop
  | [] => True
  | stmt :: rest => stmt.SpansNest size ∧ Stmt.AllSpansNest size rest

/-- The statements of a block stand within it, one after another. -/
def Block.SpansNest (size : Nat) : Block Nat → Prop
  | .mk stmts span => InOrder span.start (stmts.map Stmt.span) span.stop ∧ Stmt.AllSpansNest size stmts

end

/-- An expression whose spans nest stands in the text itself. -/
theorem Expr.SpansNest.standsIn {size : Nat} {expr : Expr Nat} (h : expr.SpansNest size) :
    expr.span.StandsIn size := by
  cases expr with
  | boolean | number | string | symbol => exact h
  | operation | call | function => exact h.1

/-- The spans in an expression nest, and it stands between two offsets. -/
structure Expr.NestsIn (size start : Nat) (expr : Expr Nat) (stop : Nat) : Prop where
  nest : expr.SpansNest size
  start_le : start ≤ expr.span.start
  le_stop : expr.span.stop ≤ stop

namespace Expr.NestsIn
variable {size start stop : Nat} {expr : Expr Nat} {spans : List (Span Nat)}

/-- An expression between two offsets takes up at least one byte. -/
theorem proper (h : expr.NestsIn size start stop) : expr.span.start < expr.span.stop :=
  h.nest.standsIn.1

/-- An expression stands before what comes after the end of its slice. -/
theorem inOrder_cons {last : Nat} (h : expr.NestsIn size start stop)
    (hspans : InOrder stop spans last) : InOrder start (expr.span :: spans) last :=
  ⟨h.start_le, h.proper, hspans.mono h.le_stop (Nat.le_refl _)⟩

end Expr.NestsIn

/-- Expressions that are read from runs of neighbours stand one after another. -/
theorem Expr.inOrder_of_parts {size : Nat} {parts : List (List (Tree Nat))}
    {values : List (Expr Nat)} (hvalues : List.Forall₂ (fun part value => ∀ start stop,
      Tree.LaidIn start part stop → stop ≤ size → Expr.NestsIn size start value stop) parts values) :
    ∀ {start stop}, Tree.PartsIn start parts stop → stop ≤ size →
      InOrder start (values.map Expr.span) stop ∧ Expr.AllSpansNest size values := by
  induction hvalues with
  | nil => exact fun h _ => ⟨h, trivial⟩
  | cons hvalue _ ih =>
    intro start stop h hsize
    obtain ⟨mid, hpart, hrest⟩ := h
    obtain ⟨hinOrder, hall⟩ := ih hrest hsize
    have hnests := hvalue start mid hpart (Nat.le_trans hinOrder.le hsize)
    exact ⟨hnests.inOrder_cons hinOrder, hnests.nest, hall⟩

/-! ## Reading -/

open Outcome

namespace Reader

/-- The readings one level deeper read an expression that stands where its slice does, and a block
that stands where its outline does, with the spans in them nested. -/
structure NestsSpans (size : Nat) (inner : Reader Nat) : Prop where
  expr : ∀ origin trees start stop, Tree.LaidIn start trees stop → stop ≤ size →
    (inner.expr origin trees).Yields fun expr => expr.NestsIn size start stop
  block : ∀ outline, outline.Laid → outline.span.stop ≤ size →
    (inner.block outline).Yields fun block => block.SpansNest size ∧ block.span = outline.span

variable {size : Nat} {inner : Reader Nat}

/-- What is read from a token lies where the token does. -/
theorem readToken_nests {token : Token Nat} (hproper : token.span.start < token.span.stop)
    (hsize : token.span.stop ≤ size) : (readToken token).Yields fun expr =>
      expr.NestsIn size token.span.start token.span.stop := by
  have hends {expr : Expr Nat} (hnest : expr.SpansNest size) (hspan : expr.span = token.span) :
      expr.NestsIn size token.span.start token.span.stop :=
    ⟨hnest, by rw [hspan], by rw [hspan]⟩
  unfold readToken
  split
  · exact .ok (hends ⟨hproper, hsize⟩ rfl)
  · exact .ok (hends ⟨hproper, hsize⟩ rfl)
  · split
    · exact .ok (hends ⟨hproper, hsize⟩ rfl)
    · exact .error _
  · exact .ok (hends ⟨hproper, hsize⟩ rfl)
  · exact .error _

/-- What is read from a tree nests between the ends of the tree. -/
theorem readPrimary_nests (hi : inner.NestsSpans size) {tree : Tree Nat} (htree : tree.Laid)
    (hproper : tree.span.start < tree.span.stop) (hsize : tree.span.stop ≤ size) :
    (inner.readPrimary tree).Yields fun expr =>
      expr.NestsIn size tree.span.start tree.span.stop := by
  unfold readPrimary
  split
  · exact readToken_nests hproper hsize
  · exact hi.expr _ _ _ _ (.of_group htree) hsize
  · exact .error _

/-- A prefix operation nests in its slice: the operator lies in front of the operand. -/
theorem readPrefixed_nests (hi : inner.NestsSpans size) {token : Token Nat}
    {rest : List (Tree Nat)} {start stop : Nat}
    (h : Tree.LaidIn start (.leaf token :: rest) stop) (hsize : stop ≤ size) :
    (inner.readPrefixed token rest).Yields fun expr => expr.NestsIn size start stop := by
  obtain ⟨hstart, hproper, -, hrest⟩ := Tree.LaidIn.cons_iff.1 h
  unfold readPrefixed
  split
  · exact .error _
  · refine (hi.expr _ _ _ _ hrest hsize).bind fun operand hoperand => .ok ?_
    have hstop := Nat.le_trans hoperand.le_stop hsize
    have hoperands : InOrder token.span.start [operand.span] operand.span.stop :=
      ⟨Nat.le_trans (Nat.le_of_lt hproper) hoperand.start_le, hoperand.proper, Nat.le_refl _⟩
    have hends : token.span.start < operand.span.stop := Nat.lt_of_le_of_lt hoperands.1 hoperand.proper
    exact ⟨⟨⟨hends, hstop⟩, hoperands, hoperand.nest, trivial⟩, hstart, hoperand.le_stop⟩

/-- A call nests in its slice: the callee lies in front of the arguments, and these are in order. -/
theorem readCall_nests (hi : inner.NestsSpans size) {callee : Tree Nat} {args : Region Nat}
    {start stop : Nat}
    (h : Tree.LaidIn start [callee, .group .paren args.trees args.span] stop)
    (hsize : stop ≤ size) :
    (inner.readCall callee args).Yields fun expr => expr.NestsIn size start stop := by
  obtain ⟨hstart, hproper, hcallee, h⟩ := Tree.LaidIn.cons_iff.1 h
  obtain ⟨hbetween, hargsProper, hargs, h⟩ := Tree.LaidIn.cons_iff.1 h
  have hargsSize : args.span.stop ≤ size := Nat.le_trans h.inOrder hsize
  have hcalleeSize : callee.span.stop ≤ size :=
    Nat.le_trans hbetween (Nat.le_trans (Nat.le_of_lt hargsProper) hargsSize)
  have hvalues : ((Tree.commaParts args.trees).mapM (inner.expr args.span.start)).Yields
      (List.Forall₂ (fun part value => ∀ start stop, Tree.LaidIn start part stop → stop ≤ size →
        value.NestsIn size start stop) (Tree.commaParts args.trees)) :=
    .mapM_forall₂ _ fun part _ value hvalue start stop hpart hstop =>
      hi.expr _ part start stop hpart hstop value hvalue
  refine (readPrimary_nests hi hcallee hproper hcalleeSize).bind fun function hfunction =>
    hvalues.bind fun values hvalues => .ok ?_
  obtain ⟨hinOrder, hall⟩ :=
    Expr.inOrder_of_parts hvalues (Tree.LaidIn.of_group hargs).commaParts hargsSize
  have hparts := hfunction.inOrder_cons (hinOrder.mono hbetween (Nat.le_refl _))
  have hends : callee.span.start < args.span.stop :=
    Nat.lt_of_lt_of_le hproper (Nat.le_trans hbetween (Nat.le_of_lt hargsProper))
  exact ⟨⟨⟨hends, hargsSize⟩, hparts, hfunction.nest, hall⟩, hstart, h.inOrder⟩

/-- A function literal nests in its slice, and its body in the second group. -/
theorem readFunction_nests (hi : inner.NestsSpans size) {params body : Region Nat}
    {arrow : Tree Nat} {start stop : Nat}
    (h : Tree.LaidIn start [.group .paren params.trees params.span, arrow,
      .group .brace body.trees body.span] stop) (hsize : stop ≤ size) :
    (inner.readFunction params body).Yields fun expr => expr.NestsIn size start stop := by
  obtain ⟨hstart, hproper, -, h⟩ := Tree.LaidIn.cons_iff.1 h
  obtain ⟨harrow, harrowProper, -, h⟩ := Tree.LaidIn.cons_iff.1 h
  obtain ⟨hbetween, hbodyProper, hbody, h⟩ := Tree.LaidIn.cons_iff.1 h
  have hbodySize : body.span.stop ≤ size := Nat.le_trans h.inOrder hsize
  have houtline : (Outline.ofRegion body).Yields fun outline =>
      outline.Laid ∧ outline.span = body.span :=
    fun _ houtline => Outline.ofRegion_laid (.of_group hbody) houtline
  refine Yields.bind (p := fun _ => True) (fun _ _ => trivial) fun names _ =>
    houtline.bind fun outline hlaid =>
      (hi.block outline hlaid.1 (hlaid.2 ▸ hbodySize)).bind fun block hblock => .ok ?_
  obtain ⟨hnest, hspan⟩ := hblock
  have hbefore : params.span.start ≤ body.span.start := Nat.le_trans (Nat.le_of_lt hproper)
    (Nat.le_trans harrow (Nat.le_trans (Nat.le_of_lt harrowProper) hbetween))
  have hparts : InOrder params.span.start [block.span] body.span.stop := by
    rw [hspan, hlaid.2]
    exact ⟨hbefore, hbodyProper, Nat.le_refl _⟩
  exact ⟨⟨⟨Nat.lt_of_le_of_lt hbefore hbodyProper, hbodySize⟩, hparts, hnest⟩, hstart, h.inOrder⟩

/-- Folding the links of a chain keeps what is read so far between the start of the chain and the
next link. `join` is what the operand read first is joined to. -/
theorem foldlM_readLink_nests (hi : inner.NestsSpans size) {power : Nat} {bound : Bool}
    {trees operand : List (Tree Nat)} {links : List (Chain.Link Nat)}
    (hcuts : Chain.Cuts power bound trees operand links) {first stop : Nat} (hsize : stop ≤ size)
    (origin : Nat) : ∀ {start} (join : Expr Nat → Expr Nat), Tree.LaidIn start trees stop →
      (∀ right mid, right.NestsIn size start mid → mid ≤ size →
        (join right).NestsIn size first mid) →
      Yields (fun expr => expr.NestsIn size first stop) (do
        let right ← inner.expr origin operand
        links.foldlM inner.readLink (join right)) := by
  induction hcuts generalizing origin with
  | operand =>
    intro start join h hjoin
    exact (hi.expr _ _ _ _ h hsize).bind fun right hright => .ok (hjoin right stop hright hsize)
  | @link _ operand rest next token op links _ _ _ _ _ _ ih =>
    intro start join h hjoin
    obtain ⟨mid, hoperand, hrest⟩ := Tree.LaidIn.append_iff.1 h
    obtain ⟨hafter, hproper, -, hrest⟩ := Tree.LaidIn.cons_iff.1 hrest
    have hmid : mid ≤ size := Nat.le_trans hafter
      (Nat.le_trans (Nat.le_of_lt hproper) (Nat.le_trans hrest.inOrder.le hsize))
    simp only [List.foldlM_cons, readLink, bind_assoc]
    refine (hi.expr _ _ _ _ hoperand hmid).bind fun left hleft =>
      ih _ (fun right => .operation (.binary op) [join left, right]
        ((join left).span.through right.span)) hrest fun right last hright hlast => ?_
    have hjoined := hjoin left mid hleft hmid
    have hbetween : mid ≤ right.span.start :=
      Nat.le_trans hafter (Nat.le_trans (Nat.le_of_lt hproper) hright.start_le)
    have hoperands : InOrder (join left).span.start [(join left).span, right.span]
        right.span.stop :=
      ⟨Nat.le_refl _, hjoined.proper, Nat.le_trans hjoined.le_stop hbetween, hright.proper,
        Nat.le_refl _⟩
    have hends : (join left).span.start < right.span.stop :=
      Nat.lt_of_lt_of_le hjoined.proper hoperands.2.2.le
    exact ⟨⟨⟨hends, Nat.le_trans hright.le_stop hlast⟩, hoperands, hjoined.nest, hright.nest,
      trivial⟩, hjoined.start_le, hright.le_stop⟩

/-- A chain nests in its slice. Each link extends the span to the right. -/
theorem readChain_nests (hi : inner.NestsSpans size) (origin : Nat) {trees : List (Tree Nat)}
    {start stop : Nat} (h : Tree.LaidIn start trees stop) (hsize : stop ≤ size) :
    (inner.readChain origin trees).Yields fun expr => expr.NestsIn size start stop := by
  unfold readChain
  simp only
  split
  · split
    · exact .error _
    · exact .error _
  · rename_i power hlowest
    exact foldlM_readLink_nests hi (Chain.cut_cuts (Chain.atLeast_lowestPower? hlowest)) hsize _ id h
      fun _ _ hright _ => hright

/-- An expression stands where its slice does if this holds one level deeper. -/
theorem readSlice_nests (hi : inner.NestsSpans size) (origin : Nat) {trees : List (Tree Nat)}
    {start stop : Nat} (h : Tree.LaidIn start trees stop) (hsize : stop ≤ size) :
    (inner.readSlice origin trees).Yields fun expr => expr.NestsIn size start stop := by
  unfold readSlice
  split
  · exact .error _
  · obtain ⟨hstart, hproper, htree, hrest⟩ := Tree.LaidIn.cons_iff.1 h
    have hstop := hrest.inOrder.le
    exact (readPrimary_nests hi htree hproper (Nat.le_trans hstop hsize)).mono fun _ hexpr =>
      ⟨hexpr.nest, Nat.le_trans hstart hexpr.start_le, Nat.le_trans hexpr.le_stop hstop⟩
  · split
    · rename_i token htoken
      obtain ⟨rfl, -⟩ := Tree.token?_eq_some_iff.1 htoken
      exact readPrefixed_nests hi h hsize
    · split
      · rename_i callee args hshape
        obtain ⟨-, htrees⟩ := shapeOf_eq_call hshape
        exact readCall_nests hi (htrees ▸ h) hsize
      · rename_i params body hshape
        obtain ⟨arrow, -, htrees⟩ := shapeOf_eq_function hshape
        exact readFunction_nests hi (htrees ▸ h) hsize
      · exact readChain_nests hi origin h hsize

/-- A statement stands where its outline does if this holds one level deeper. -/
theorem readStmt_nests (hi : inner.NestsSpans size) {outline : Outline.Stmt Nat}
    (h : outline.Laid) (hspan : outline.span.StandsIn size) :
    (inner.readStmt outline).Yields fun stmt =>
      stmt.SpansNest size ∧ stmt.span = outline.span := by
  have hvalue {origin : Nat} {value : List (Tree Nat)} {span : Span Nat}
      (h : Tree.LaidIn span.start value span.stop) (hspan : span.StandsIn size) :
      (inner.expr origin value).Yields fun expr =>
        span.StandsIn size ∧ InOrder span.start [expr.span] span.stop ∧ expr.SpansNest size :=
    (hi.expr _ _ _ _ h hspan.2).mono fun expr hexpr =>
      ⟨hspan, hexpr.inOrder_cons (Nat.le_refl span.stop), hexpr.nest⟩
  cases outline with
  | declare name type value span =>
    exact Yields.bind (p := fun _ => True) (fun _ _ => trivial) fun _ _ =>
      (hvalue h hspan).bind fun _ hnests => .ok ⟨hnests, rfl⟩
  | assign name value span => exact (hvalue h hspan).bind fun _ hnests => .ok ⟨hnests, rfl⟩
  | branch condition yes no span =>
    obtain ⟨⟨hstart, hproper, hyesStart, hyesProper, hnoStart, hnoProper, hstop⟩, hcondition, hyes,
      hno⟩ := h
    have hnoSize : no.span.stop ≤ size := Nat.le_trans hstop hspan.2
    have hyesSize : yes.span.stop ≤ size :=
      Nat.le_trans hnoStart (Nat.le_trans (Nat.le_of_lt hnoProper) hnoSize)
    have hsize : condition.span.stop ≤ size :=
      Nat.le_trans hyesStart (Nat.le_trans (Nat.le_of_lt hyesProper) hyesSize)
    refine (hi.expr _ _ _ _ hcondition hsize).bind fun value hvalue =>
      (hi.block yes hyes hyesSize).bind fun yesBlock hyesBlock =>
        (hi.block no hno hnoSize).bind fun noBlock hnoBlock => .ok ⟨⟨hspan, ?_, hvalue.nest,
          hyesBlock.1, hnoBlock.1⟩, rfl⟩
    rw [hyesBlock.2, hnoBlock.2]
    have hblocks : InOrder condition.span.stop [yes.span, no.span] span.stop :=
      ⟨hyesStart, hyesProper, hnoStart, hnoProper, hstop⟩
    exact (hvalue.inOrder_cons hblocks).mono hstart (Nat.le_refl _)
  | loop condition body span =>
    obtain ⟨⟨hstart, hproper, hbodyStart, hbodyProper, hstop⟩, hcondition, hbody⟩ := h
    have hbodySize : body.span.stop ≤ size := Nat.le_trans hstop hspan.2
    have hsize : condition.span.stop ≤ size :=
      Nat.le_trans hbodyStart (Nat.le_trans (Nat.le_of_lt hbodyProper) hbodySize)
    refine (hi.expr _ _ _ _ hcondition hsize).bind fun value hvalue =>
      (hi.block body hbody hbodySize).bind fun block hblock =>
        .ok ⟨⟨hspan, ?_, hvalue.nest, hblock.1⟩, rfl⟩
    rw [hblock.2]
    have hblocks : InOrder condition.span.stop [body.span] span.stop :=
      ⟨hbodyStart, hbodyProper, hstop⟩
    exact (hvalue.inOrder_cons hblocks).mono hstart (Nat.le_refl _)
  | returnValue value span => exact (hvalue h hspan).bind fun _ hnests => .ok ⟨hnests, rfl⟩
  | returnVoid span => exact .ok ⟨hspan, rfl⟩
  | expression value span => exact (hvalue h hspan).bind fun _ hnests => .ok ⟨hnests, rfl⟩

/-- Statements nest in order if each of them nests in the span of its outline. -/
theorem allSpansNest_of_outlines {outlines : List (Outline.Stmt Nat)} {stmts : List (Stmt Nat)}
    (h : List.Forall₂ (fun outline stmt => stmt.SpansNest size ∧ stmt.span = outline.span)
      outlines stmts) :
    Stmt.AllSpansNest size stmts ∧ stmts.map Stmt.span = outlines.map Outline.Stmt.span := by
  induction h with
  | nil => exact ⟨trivial, rfl⟩
  | cons hstmt _ ih => exact ⟨⟨hstmt.1, ih.1⟩, by rw [List.map_cons, List.map_cons, hstmt.2, ih.2]⟩

/-- A block stands where its outline does if this holds one level deeper. -/
theorem readBlock_nests (hi : inner.NestsSpans size) {outline : Outline.Block Nat}
    (h : outline.Laid) (hsize : outline.span.stop ≤ size) :
    (inner.readBlock outline).Yields fun block =>
      block.SpansNest size ∧ block.span = outline.span := by
  cases outline with
  | mk outlines span =>
    obtain ⟨hinOrder, hall⟩ := h
    have hstands : ∀ outline ∈ outlines, outline.span.StandsIn size := fun outline houtline =>
      have hmem := hinOrder.of_mem (List.mem_map_of_mem houtline)
      ⟨hmem.2.1, Nat.le_trans hmem.2.2 hsize⟩
    have hstmts : (outlines.mapM inner.readStmt).Yields (List.Forall₂ (fun outline stmt =>
        stmt.SpansNest size ∧ stmt.span = outline.span) outlines) :=
      .mapM_forall₂ _ fun outline houtline => readStmt_nests hi
        (Outline.Stmt.allLaid_iff.1 hall outline houtline) (hstands outline houtline)
    refine hstmts.bind fun stmts hstmts => .ok ?_
    obtain ⟨hnest, hspans⟩ := allSpansNest_of_outlines hstmts
    exact ⟨⟨hspans ▸ hinOrder, hnest⟩, rfl⟩

/-- Programs stand where their outlines do, whatever the budget. -/
theorem ofBudget_nestsSpans (size limit budget : Nat) :
    (ofBudget (P := Nat) limit budget).NestsSpans size := by
  induction budget with
  | zero => exact ⟨fun _ _ _ _ _ _ => .error _, fun _ _ _ => .error _⟩
  | succ budget ih =>
    exact ⟨fun origin _ _ _ h hsize => readSlice_nests ih origin h hsize,
      fun _ h hsize => readBlock_nests ih h hsize⟩

end Reader

/-! ## Sources -/

/-- Tokens that cover a text stand in it one after another. -/
theorem Token.Covers.inOrder {text : String} {tokens : List (Token Nat)} (h : Covers text tokens) :
    InOrder 0 (tokens.map Token.span) text.utf8ByteSize := by
  refine .of_pairwise (List.forall_mem_map.2 fun token htoken => ?_) (Nat.zero_le _)
    (List.pairwise_map.2 h.ordered)
  exact ⟨Nat.zero_le _, h.nonempty token htoken, (h.boundaries token htoken).2.le_utf8ByteSize⟩

/-- The program of a source shorter than `2 ^ 32` bytes stands in its text. Each of its expressions
and statements is a stretch of the text that is not empty, and its parts stand within it, one after
another. -/
theorem Source.program_spansNest {source : Source} {limit : Nat} {program : Block Position}
    (hsize : source.text.utf8ByteSize < 2 ^ 32) (h : source.program limit = .ok program) :
    (program.map Position.byte).SpansNest source.text.utf8ByteSize ∧
      (program.map Position.byte).span.stop ≤ source.text.utf8ByteSize := by
  obtain ⟨tokens, htokens, hread⟩ := Outcome.bind_eq_ok.1 h
  have hcovers := (tokens_cover hsize htokens).1
  have hspelled : ∀ token ∈ tokens.map (Token.map Position.byte), token.Spelled :=
    List.forall_mem_map.2 (tokens_spelled htokens)
  have hbytes := Block.ofTokens_relocate Position.byte limit (source.place 0) tokens
  rw [hread] at hbytes
  obtain ⟨region, hregion, hbytes⟩ := Outcome.bind_eq_ok.1 hbytes.symm
  obtain ⟨outline, houtline, hbytes⟩ := Outcome.bind_eq_ok.1 hbytes
  obtain ⟨hlaid, hstop⟩ := Tree.laidIn_of_nest hregion hspelled hcovers.inOrder
  obtain ⟨hlaid, hspan⟩ := Outline.ofRegion_laid hlaid houtline
  obtain ⟨hnest, hsame⟩ := (Reader.ofBudget_nestsSpans _ limit limit).block outline hlaid
    (hspan ▸ hstop) _ hbytes
  exact ⟨hnest, by rw [hsame, hspan]; exact hstop⟩

/-- A call behind a space. -/
theorem Source.program_spansNest_call :
    let source : Source := ⟨" f(1);", "demo.let"⟩
    let span (start stop : Nat) : Span Position := ⟨source.place start, source.place stop⟩
    let program : Block Position :=
      .mk [.expression (.call (.symbol "f" (span 1 2)) [.number 1 (span 3 4)] (span 1 5)) (span 1 6)]
        (span 1 6)
    source.text.utf8ByteSize < 2 ^ 32 ∧ source.program 4 = .ok program ∧
      (program.map Position.byte).SpansNest source.text.utf8ByteSize := by
  intro source span program
  have hsize : source.text.utf8ByteSize < 2 ^ 32 := by decide +kernel
  have htokens : source.tokens = .ok [⟨.identifier, "f", span 1 2⟩, ⟨.opening .paren, "(", span 2 3⟩,
      ⟨.number, "1", span 3 4⟩, ⟨.closing .paren, ")", span 4 5⟩, ⟨.semicolon, ";", span 5 6⟩] := by
    decide +kernel
  have hprogram : source.program 4 = .ok program := by
    rw [Source.program_eq htokens]
    cbv
  exact ⟨hsize, hprogram, (Source.program_spansNest hsize hprogram).1⟩

end LetWhile
