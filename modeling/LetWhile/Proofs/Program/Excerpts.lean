import LetWhile.Proofs.Program.Operations
import LetWhile.Proofs.Relocation.Nodes
import LetWhile.Proofs.Scanning.Excerpts

/-!
# The text of an operation

The text between the ends of an operation is that of the operation, but for the parentheses that
its first and last operands have lost (`Expr.WrittenAs`). With these put back it is read as the
operation: its trees are those of the source, moved to where they are in the excerpt (`refit`). None
are lost exactly if the brackets in the text match (`Source.operation_excerpt`).
-/

namespace LetWhile

variable {P : Type}

open LetWhile.Span (InOrder)

/-! ## Operations among tokens -/

/-- Tokens that make trees which spell an expression: opening parentheses, the tokens from the start
of the expression to its stop, and closing parentheses. They stand in a text of the given size, one
after another. -/
structure Expr.WrittenAs (size : Nat) (part : List (Tree Nat)) (opens core closes : List (Token Nat))
    (expr : Expr Nat) : Prop where
  spells : SpellsExpr part expr
  marks : Tree.allMarks part = (opens ++ (core ++ closes)).map Token.mark
  opening : ∀ token ∈ opens, token.kind = .opening .paren
  closing : ∀ token ∈ closes, token.kind = .closing .paren
  starts : ∃ first, core.head? = some first ∧ first.span.start = expr.span.start
  stops : ∃ last, core.getLast? = some last ∧ last.span.stop = expr.span.stop
  inOrder : InOrder 0 ((opens ++ (core ++ closes)).map Token.span) size
  spansNest : expr.SpansNest size

/-- An operation in the program of a text is written as neighbours among the tokens of the text. -/
theorem Block.ofTokens_written {text : String} {found : List (Token Nat)} {limit : Nat}
    {program : Block Nat} (hscan : Token.scan text.toList = .ok found)
    (h : Block.ofTokens limit 0 found = .ok program) {op : Operator} {args : List (Expr Nat)}
    {span : Span Nat} (hnode : .operation op args span ∈ program.nodes) :
    ∃ before opens core closes after part token,
      found = before ++ ((opens ++ (core ++ closes)) ++ after) ∧ .leaf token ∈ part ∧
        Expr.WrittenAs text.utf8ByteSize part opens core closes (.operation op args span) := by
  have hspelled := (Token.layout_of_scanFrom 0 _ _ hscan).spelled
  obtain ⟨region, hregion, hlocated⟩ := Block.ofTokens_located hspelled h
  obtain ⟨part, token, hslice, htoken, hspells, hbegins, hends⟩ := hlocated op args span hnode
  obtain ⟨front, back, hinfix⟩ := hslice.allMarks_isInfix
  rw [(nestsTo_of_nest hregion).marks, List.append_assoc] at hinfix
  obtain ⟨before, rest, rfl, -, hrest⟩ := List.map_eq_append_iff.1 hinfix.symm
  obtain ⟨tokens, after, rfl, hpart, -⟩ := List.map_eq_append_iff.1 hrest
  have hinOrder := (Token.scan_covers hscan).inOrder
  rw [List.map_append, List.map_append] at hinOrder
  obtain ⟨_, hbefore, hinOrder⟩ := InOrder.append_iff.1 hinOrder
  obtain ⟨_, hinOrder, hafter⟩ := InOrder.append_iff.1 hinOrder
  have hinOrder := hinOrder.mono hbefore.le hafter.le
  have hpartSpelled : ∀ token ∈ tokens, token.Spelled :=
    (List.forall_mem_append.1 (List.forall_mem_append.1 hspelled).2).1
  have hlaid := Tree.laidIn_of_marks hpart.symm hpartSpelled hinOrder
  have hread := Expr.ofTrees_of_spells hspells (Nat.lt_succ_self _) 0
  have hnests := (Reader.ofBudget_nestsSpans text.utf8ByteSize (Tree.sizes part + 1)
    (Tree.sizes part + 1)).expr 0 part _ _ hlaid (Nat.le_refl _) _ hread
  obtain ⟨opens, core, closes, first, last, rfl, hopening, hclosing, hfirst, hlast, hstart, hstop⟩ :=
    Tree.tokens_of_edges hpart.symm hbegins hends
  exact ⟨before, opens, core, closes, after, part, token, rfl, htoken, hspells, hpart.symm, hopening,
    hclosing, ⟨first, hfirst, hstart⟩, ⟨last, hlast, hstop⟩, hinOrder, hnests.nest⟩

/-! ## Positions in an excerpt -/

/-- Where an offset in a text is in an excerpt of `size` bytes from `start` on that has parentheses
around it: those in front stand for what starts at `starts`, and those behind for what stops at
`stops`. -/
def refit (starts stops : List Nat) (start size offset : Nat) : Nat :=
  if offset < start then starts.idxOf offset
  else if offset ≤ start + size then offset - start + starts.length
  else starts.length + size + 1 + stops.idxOf offset

/-- The places of distinct keys among themselves are counted from zero. -/
theorem map_idxOf {keys : List Nat} (h : keys.Nodup) :
    keys.map keys.idxOf = List.range keys.length := by
  refine List.ext_getElem (by simp) fun i hi _ => ?_
  rw [List.getElem_map, h.idxOf_getElem, List.getElem_range]

section
variable {starts stops : List Nat} {start size : Nat}

/-- What starts in front of the excerpt gets the first offsets, in order. -/
theorem map_refit_starts (stops : List Nat) (size : Nat) (h : starts.Nodup)
    (hbefore : ∀ offset ∈ starts, offset < start) :
    starts.map (refit starts stops start size) = List.range' 0 starts.length := by
  have hrefit : ∀ offset ∈ starts, refit starts stops start size offset = starts.idxOf offset :=
    fun offset hmem => if_pos (hbefore offset hmem)
  rw [List.map_congr_left hrefit, map_idxOf h, List.range_eq_range']

/-- What stops behind the excerpt gets the last offsets, in order. -/
theorem map_refit_stops (starts : List Nat) (h : stops.Nodup)
    (hafter : ∀ offset ∈ stops, start + size < offset) :
    stops.map (refit starts stops start size) =
      List.range' (starts.length + size + 1) stops.length := by
  have hrefit : ∀ offset ∈ stops,
      refit starts stops start size offset = starts.length + size + 1 + stops.idxOf offset := by
    intro offset hmem
    have := hafter offset hmem
    rw [refit, if_neg (by omega), if_neg (by omega)]
  calc stops.map (refit starts stops start size)
      = (stops.map stops.idxOf).map (starts.length + size + 1 + ·) := by
        rw [List.map_map]
        exact List.map_congr_left hrefit
    _ = List.range' (starts.length + size + 1) stops.length := by
        rw [map_idxOf h, List.range_eq_range', List.map_add_range', Nat.add_zero]

/-- An offset in the excerpt keeps its distance from the start of it. -/
theorem refit_inside (starts stops : List Nat) {offset : Nat} (hstart : start ≤ offset)
    (hstop : offset ≤ start + size) :
    refit starts stops start size offset = offset - start + starts.length := by
  rw [refit, if_neg (by omega), if_pos hstop]

end

/-! ## Tokens in an excerpt -/

namespace Token
variable {starts stops : List Nat} {start stop size : Nat} {tokens core : List (Token Nat)}

/-- Tokens that are marked by one of their ends, with the marks moved. -/
theorem map_mark_moved {marked : Nat → Mark Nat} {edge : Token Nat → Nat} {move : Nat → Nat}
    (hmark : ∀ token ∈ tokens, token.mark = marked (edge token))
    (hmove : ∀ offset, (marked offset).map move = marked (move offset)) :
    (tokens.map mark).map (Mark.map move) = ((tokens.map edge).map move).map marked := by
  rw [List.map_map, List.map_map, List.map_map]
  refine List.map_congr_left fun token htoken => ?_
  rw [Function.comp, Function.comp, Function.comp, hmark token htoken, hmove]

/-- Parentheses in front of an excerpt stand for the opening parentheses before it. -/
theorem map_mark_refit_openings (h : ∀ token ∈ tokens, token.kind = .opening .paren)
    (hbefore : InOrder 0 (tokens.map span) start) :
    (tokens.map mark).map (Mark.map (refit (tokens.map (·.span.start)) stops start size)) =
      (row (.opening .paren) "(" 0 tokens.length).map mark := by
  have hnodup : (tokens.map (·.span.start)).Nodup :=
    List.pairwise_map.2 ((List.pairwise_map.1 hbefore.pairwise).imp fun hlt => Nat.ne_of_lt hlt.1)
  have hlt : ∀ offset ∈ tokens.map (·.span.start), offset < start := by
    refine List.forall_mem_map.2 fun token htoken => ?_
    obtain ⟨-, hproper, hstop⟩ := hbefore.of_mem (List.mem_map_of_mem htoken)
    exact Nat.lt_of_lt_of_le hproper hstop
  have hmoved := map_refit_starts stops size hnodup hlt
  rw [map_mark_moved (fun token htoken => mark_of_opening (h token htoken)) fun _ => rfl, hmoved,
    List.length_map, row, List.map_map]
  rfl

/-- Parentheses behind an excerpt stand for the closing parentheses after it. -/
theorem map_mark_refit_closings (starts : List Nat)
    (h : ∀ token ∈ tokens, token.kind = .closing .paren)
    (hafter : InOrder (start + size) (tokens.map span) stop) :
    (tokens.map mark).map (Mark.map (refit starts (tokens.map (·.span.stop)) start size)) =
      (row (.closing .paren) ")" (starts.length + size) tokens.length).map mark := by
  have hnodup : (tokens.map (·.span.stop)).Nodup :=
    List.pairwise_map.2 ((List.pairwise_map.1 hafter.pairwise).imp fun hlt => Nat.ne_of_lt hlt.2)
  have hlt : ∀ offset ∈ tokens.map (·.span.stop), start + size < offset := by
    refine List.forall_mem_map.2 fun token htoken => ?_
    obtain ⟨hstart, hproper, -⟩ := hafter.of_mem (List.mem_map_of_mem htoken)
    exact Nat.lt_of_le_of_lt hstart hproper
  have hmoved := map_refit_stops starts hnodup hlt
  have hrow : row (.closing .paren) ")" (starts.length + size) tokens.length =
      (List.range' (starts.length + size) tokens.length).map fun offset =>
        ⟨.closing .paren, ")", ⟨offset, offset + 1⟩⟩ := rfl
  rw [map_mark_moved (fun token htoken => mark_of_closing (h token htoken)) fun _ => rfl, hmoved,
    List.length_map, hrow, List.map_map, Nat.add_comm _ 1, ← List.map_add_range', List.map_map]
  refine List.map_congr_left fun offset _ => ?_
  rw [Function.comp, Function.comp, mark_of_closing rfl, Nat.add_comm]

/-- The tokens of an excerpt come behind the parentheses in front. -/
theorem map_refit (starts stops : List Nat) (hinside : InOrder start (core.map span) (start + size))
    (hcore : core = tokens.map (Token.map (· + start))) :
    core.map (Token.map (refit starts stops start size)) =
      tokens.map (Token.map (· + starts.length)) := by
  subst hcore
  rw [List.map_map]
  refine List.map_congr_left fun token htoken => ?_
  obtain ⟨hstart, hproper, hstop⟩ :=
    hinside.of_mem (List.mem_map_of_mem (List.mem_map_of_mem htoken))
  have hle := Nat.le_of_lt hproper
  have hfirst := refit_inside starts stops hstart (Nat.le_trans hle hstop)
  have hlast := refit_inside starts stops (Nat.le_trans hstart hle) hstop
  simp only [Token.map, Span.map, Nat.add_sub_cancel] at hfirst hlast
  simp only [Function.comp, Token.map, Span.map, hfirst, hlast]

end Token

namespace Expr.WrittenAs
variable {size length : Nat} {part : List (Tree Nat)} {opens core closes : List (Token Nat)}
  {expr : Expr Nat}

/-- The brackets between the ends of what is not all in one group match exactly if there are no
parentheses around. -/
theorem balanced_iff (h : expr.WrittenAs size part opens core closes) {token : Token Nat}
    (htoken : .leaf token ∈ part) : (∃ depth, Balanced core depth) ↔ opens = [] ∧ closes = [] := by
  refine ⟨fun hbalanced => ?_, fun hnil => ?_⟩
  · obtain ⟨depth, hbalanced⟩ := hbalanced
    exact Tree.edges_eq_nil h.marks h.opening h.closing htoken hbalanced
  · obtain ⟨rfl, rfl⟩ := hnil
    have hmarks := h.marks
    rw [List.nil_append, List.append_nil] at hmarks
    exact balanced_of_marks hmarks

/-- The parentheses come before the expression and behind it, and the tokens between them lie between
its start and its stop. -/
theorem inOrder_split (h : expr.WrittenAs size part opens core closes) :
    InOrder 0 (opens.map Token.span) expr.span.start ∧
      InOrder expr.span.start (core.map Token.span) expr.span.stop ∧
      InOrder expr.span.stop (closes.map Token.span) size := by
  obtain ⟨first, hfirst, hstart⟩ := h.starts
  obtain ⟨last, hlast, hstop⟩ := h.stops
  have hinOrder := h.inOrder
  rw [List.map_append, List.map_append] at hinOrder
  obtain ⟨_, hopens, hinOrder⟩ := InOrder.append_iff.1 hinOrder
  obtain ⟨_, hcore, hcloses⟩ := InOrder.append_iff.1 hinOrder
  have hhead : (core.map Token.span).head? = some first.span := by rw [List.head?_map, hfirst]; rfl
  have hend : (core.map Token.span).getLast? = some last.span := by
    rw [List.getLast?_map, hlast]
    rfl
  obtain ⟨hthrough, hbefore, -, hafter⟩ := hcore.through hhead hend
  rw [hstart, hstop] at hthrough
  exact ⟨hopens.mono (Nat.le_refl _) (hstart ▸ hbefore), hthrough,
    hcloses.mono (hstop ▸ hafter) (Nat.le_refl _)⟩

/-- The trees that an expression is written as, moved to where they are in an excerpt, are made of
the tokens of the excerpt. -/
theorem marks_refit (h : expr.WrittenAs size part opens core closes)
    (hstop : expr.span.stop = expr.span.start + length) {tokens : List (Token Nat)}
    (htokens : core = tokens.map (Token.map (· + expr.span.start))) :
    Tree.allMarks (part.map (Tree.map
      (refit (opens.map (·.span.start)) (closes.map (·.span.stop)) expr.span.start length))) =
        (Token.row (.opening .paren) "(" 0 opens.length ++
          (tokens.map (Token.map (· + opens.length)) ++
            Token.row (.closing .paren) ")" (opens.length + length) closes.length)).map
              Token.mark := by
  obtain ⟨hbefore, hinside, hafter⟩ := h.inOrder_split
  rw [hstop] at hinside hafter
  have hcore := Token.map_refit (opens.map (·.span.start)) (closes.map (·.span.stop)) hinside htokens
  have hcloses := Token.map_mark_refit_closings (opens.map (·.span.start)) h.closing hafter
  rw [List.length_map] at hcore hcloses
  have hmarks (move : Nat → Nat) :
      (core.map Token.mark).map (Mark.map move) = (core.map (Token.map move)).map Token.mark := by
    rw [List.map_map, List.map_map]
    exact List.map_congr_left fun token _ => (Token.mark_map move token).symm
  rw [Tree.allMarks_map, h.marks, List.map_append, List.map_append, List.map_append, List.map_append,
    Token.map_mark_refit_openings h.opening hbefore, hmarks, hcore, hcloses, List.map_append,
    List.map_append]

/-- Where an expression starts, it starts in its excerpt behind the parentheses in front. -/
theorem map_refit (h : expr.WrittenAs size part opens core closes)
    (hstop : expr.span.stop = expr.span.start + length) (starts stops : List Nat) (source : Source) :
    ((expr.map (refit starts stops expr.span.start length)).map source.place).map
        (Position.shift expr.span.start) =
      (expr.map source.place).map (Position.shift starts.length) := by
  have hproper := h.spansNest.standsIn.1
  rw [Expr.map_map, Expr.map_map, Expr.map_map]
  refine h.spansNest.map_congr (fun offset hstart hle => ?_)
    ⟨Nat.le_refl expr.span.start, hproper, Nat.le_refl expr.span.stop⟩
  simp only [Function.comp]
  rw [← Source.place_add, ← Source.place_add, refit_inside starts stops hstart (hstop ▸ hle)]
  congr 1
  omega

end Expr.WrittenAs

/-! ## Sources -/

namespace Source
variable {source : Source} {limit : Nat} {program : Block Position}

/-- The brackets between the ends of a span match. -/
def BalancedBetween (source : Source) (span : Span Position) : Prop :=
  ∃ tokens depth, (source.excerpt span 0 0).tokens = .ok tokens ∧ Balanced tokens depth

/-- The text between the ends of an expression, with some parentheses put around it, is read as the
expression, within every limit from some limit on. What is read is as far behind the parentheses in
front as the expression is behind its own start. -/
def SpellsBetween (source : Source) (expr : Expr Position) (opened closed : Nat) : Prop :=
  ∃ bound, ∀ limit, bound ≤ limit → ∀ origin, ∃ read,
    (source.excerpt expr.span opened closed).expr limit origin = .ok read ∧
      read.map (Position.shift expr.span.start.byte) = expr.map (Position.shift opened)

/-- Directly around a span stand at least as many parentheses as given, with nothing but white space
and comments between. -/
def Encloses (source : Source) (span : Span Position) (opened closed : Nat) : Prop :=
  ∃ before opens core closes after,
    source.tokens = .ok (before ++ ((opens ++ (core ++ closes)) ++ after)) ∧
      opens.map Token.kind = List.replicate opened (.opening .paren) ∧
      closes.map Token.kind = List.replicate closed (.closing .paren) ∧
      core.head?.map (·.span.start) = some span.start ∧
      core.getLast?.map (·.span.stop) = some span.stop

/-- What is read as an expression has matching brackets. -/
theorem balancedBetween_of_expr {span : Span Position} {origin : Position} {expr : Expr Position}
    (h : (source.excerpt span 0 0).expr limit origin = .ok expr) : source.BalancedBetween span := by
  obtain ⟨region, hregion, -⟩ := Outcome.bind_eq_ok.1 h
  obtain ⟨tokens, htokens, hnest⟩ := Outcome.bind_eq_ok.1 hregion
  obtain ⟨depth, -, hbalanced⟩ := (nestsTo_of_nest hnest).balanced
  exact ⟨tokens, depth, htokens, hbalanced⟩

/-- The program of a source is that of its text, placed in its file. -/
theorem program_eq_ok (h : source.program limit = .ok program) :
    ∃ found unplaced, Token.scan source.text.toList = .ok found ∧
      Block.ofTokens limit 0 found = .ok unplaced ∧ program = unplaced.map source.place := by
  obtain ⟨tokens, htokens, hread⟩ := Outcome.bind_eq_ok.1 h
  obtain ⟨found, hscan, rfl⟩ := tokens_eq_ok htokens
  rw [← Block.ofTokens_relocate] at hread
  cases hunplaced : Block.ofTokens limit 0 found with
  | error fault =>
    rw [hunplaced] at hread
    cases hread
  | ok unplaced =>
    rw [hunplaced] at hread
    cases hread
    exact ⟨found, unplaced, hscan, hunplaced, rfl⟩

end Source

namespace Expr.WrittenAs
variable {source : Source} {part : List (Tree Nat)} {before opens core closes after : List (Token Nat)}
  {expr : Expr Nat} {size : Nat}

/-- The tokens between the ends of an expression. -/
theorem tokens_excerpt (h : expr.WrittenAs size part opens core closes)
    (hsize : source.text.utf8ByteSize < 2 ^ 32)
    (hscan : Token.scan source.text.toList = .ok (before ++ ((opens ++ (core ++ closes)) ++ after)))
    (opened closed : Nat) : ∃ (length : Nat) (tokens : List (Token Nat)),
      expr.span.stop = expr.span.start + length ∧
      core = tokens.map (Token.map (· + expr.span.start)) ∧
      (source.excerpt (expr.span.map source.place) opened closed).tokens =
        .ok ((Token.row (.opening .paren) "(" 0 opened ++ (tokens.map (Token.map (· + opened)) ++
          Token.row (.closing .paren) ")" (opened + length) closed)).map
            (Token.map source.place)) := by
  obtain ⟨first, hfirst, hstart⟩ := h.starts
  obtain ⟨last, hlast, hstop⟩ := h.stops
  have hscan : Token.scan source.text.toList =
      .ok ((before ++ opens) ++ (core ++ (closes ++ after))) := by
    rw [hscan]
    simp only [List.append_assoc]
  have htokens := Source.tokens_excerpt hsize hscan hfirst hlast opened closed
  rwa [hstart, hstop] at htokens

/-- The brackets between the ends of an expression match if those of the tokens between them do. -/
theorem balancedBetween_iff (h : expr.WrittenAs size part opens core closes)
    (hsize : source.text.utf8ByteSize < 2 ^ 32)
    (hscan : Token.scan source.text.toList =
      .ok (before ++ ((opens ++ (core ++ closes)) ++ after))) :
    source.BalancedBetween (expr.span.map source.place) ↔ ∃ depth, Balanced core depth := by
  obtain ⟨length, tokens, -, hcore, hexcerpt⟩ := h.tokens_excerpt hsize hscan 0 0
  have hkinds : (((Token.row (.opening .paren) "(" 0 0 ++ (tokens.map (Token.map (· + 0)) ++
      Token.row (.closing .paren) ")" (0 + length) 0)).map (Token.map source.place)).map
        Token.kind) = core.map Token.kind := by
    rw [hcore, show Token.row (.opening .paren) "(" 0 0 = [] from rfl,
      show Token.row (.closing .paren) ")" (0 + length) 0 = [] from rfl, List.nil_append,
      List.append_nil, List.map_map, List.map_map, List.map_map]
    rfl
  refine ⟨fun h => ?_, fun h => ?_⟩
  · obtain ⟨found, depth, hfound, hbalanced⟩ := h
    cases hexcerpt.symm.trans hfound
    exact ⟨depth, hbalanced.congr hkinds.symm⟩
  · obtain ⟨depth, hbalanced⟩ := h
    exact ⟨_, depth, hexcerpt, hbalanced.congr hkinds⟩

/-- With the parentheses that an expression is written in, the text between its ends is read as it
is. -/
theorem spellsBetween (h : expr.WrittenAs source.text.utf8ByteSize part opens core closes)
    (hsize : source.text.utf8ByteSize < 2 ^ 32)
    (hscan : Token.scan source.text.toList =
      .ok (before ++ ((opens ++ (core ++ closes)) ++ after))) :
    source.SpellsBetween (expr.map source.place) opens.length closes.length := by
  obtain ⟨length, tokens, hstop, hcore, htokens⟩ := h.tokens_excerpt hsize hscan opens.length
    closes.length
  generalize hfound : Token.row (.opening .paren) "(" 0 opens.length ++
    (tokens.map (Token.map (· + opens.length)) ++
      Token.row (.closing .paren) ")" (opens.length + length) closes.length) = found at htokens
  let move := refit (opens.map (·.span.start)) (closes.map (·.span.stop)) expr.span.start length
  let trees := (part.map (Tree.map move)).map (Tree.map source.place)
  have hmarks : Tree.allMarks trees = (found.map (Token.map source.place)).map Token.mark := by
    rw [Tree.allMarks_map, h.marks_refit hstop hcore, hfound, List.map_map, List.map_map]
    exact List.map_congr_left fun token _ => (Token.mark_map source.place token).symm
  have hspells : SpellsExpr trees ((expr.map move).map source.place) :=
    (h.spells.map move).map source.place
  refine ⟨max found.length (Tree.sizes trees + 1), fun limit hlimit origin =>
    ⟨(expr.map move).map source.place, ?_, ?_⟩⟩
  · have hdepth := Tree.maxDepth_le_length_allMarks trees
    rw [hmarks, List.length_map, List.length_map] at hdepth
    have hnest : nest limit origin (found.map (Token.map source.place)) = .ok ⟨trees, _⟩ :=
      nest_of_marks hmarks (by omega) origin
    rw [Source.expr, Source.region, Expr.span_map, htokens]
    show (nest limit origin _ >>= _) = _
    rw [hnest]
    exact Expr.ofTrees_of_spells hspells (by omega) origin
  · have hmoved := h.map_refit hstop (opens.map (·.span.start)) (closes.map (·.span.stop)) source
    obtain ⟨hproper, hle⟩ := h.spansNest.standsIn
    have hbyte : (source.place expr.span.start).byte = expr.span.start :=
      source.byte_place (Nat.lt_of_le_of_lt (Nat.le_trans (Nat.le_of_lt hproper) hle) hsize)
    rw [Expr.span_map, Span.map, hbyte]
    rwa [List.length_map] at hmoved

/-- The parentheses that an expression is written in stand directly around its span. -/
theorem encloses (h : expr.WrittenAs size part opens core closes)
    (hscan : Token.scan source.text.toList =
      .ok (before ++ ((opens ++ (core ++ closes)) ++ after))) :
    source.Encloses (expr.span.map source.place) opens.length closes.length := by
  obtain ⟨first, hfirst, hstart⟩ := h.starts
  obtain ⟨last, hlast, hstop⟩ := h.stops
  have hkinds {kind : Kind} {tokens : List (Token Nat)} (h : ∀ token ∈ tokens, token.kind = kind) :
      (tokens.map (Token.map source.place)).map Token.kind =
        List.replicate tokens.length kind := by
    rw [List.map_map, ← List.map_const']
    exact List.map_congr_left h
  refine ⟨before.map (Token.map source.place), opens.map (Token.map source.place),
    core.map (Token.map source.place), closes.map (Token.map source.place),
    after.map (Token.map source.place), ?_, hkinds h.opening, hkinds h.closing, ?_, ?_⟩
  · rw [Source.tokens, hscan, Outcome.relocate_ok]
    simp only [List.map_append]
  · rw [List.head?_map, hfirst]
    exact congrArg (fun offset => some (source.place offset)) hstart
  · rw [List.getLast?_map, hlast]
    exact congrArg (fun offset => some (source.place offset)) hstop

end Expr.WrittenAs

/-- The text between the ends of an operation in the program of a source spells the operation, once
the parentheses around it are put back that its first and last operands have lost. None are lost
exactly if the brackets in the text match. -/
theorem Source.operation_excerpt {source : Source} {limit : Nat} {program : Block Position}
    (hsize : source.text.utf8ByteSize < 2 ^ 32) (h : source.program limit = .ok program)
    {op : Operator} {args : List (Expr Position)} {span : Span Position}
    (hnode : .operation op args span ∈ program.nodes) : ∃ opened closed,
      source.Encloses span opened closed ∧
      source.SpellsBetween (.operation op args span) opened closed ∧
      (source.BalancedBetween span ↔ opened = 0 ∧ closed = 0) := by
  obtain ⟨found, unplaced, hscan, hread, rfl⟩ := Source.program_eq_ok h
  rw [Block.nodes_map] at hnode
  obtain ⟨node, hmem, hplaced⟩ := List.mem_map.1 hnode
  obtain ⟨args', span', rfl⟩ : ∃ args' span', node = .operation op args' span' := by
    cases node with
    | operation op' args' span' =>
      cases hplaced
      exact ⟨args', span', rfl⟩
    | _ => cases hplaced
  obtain ⟨before, opens, core, closes, after, part, token, rfl, htoken, hwritten⟩ :=
    Block.ofTokens_written hscan hread hmem
  have hspan : span'.map source.place = span := by
    cases hplaced
    rfl
  refine ⟨opens.length, closes.length, hspan ▸ hwritten.encloses hscan,
    hplaced ▸ hwritten.spellsBetween hsize hscan, ?_⟩
  rw [← hspan, List.length_eq_zero_iff, List.length_eq_zero_iff, ← hwritten.balanced_iff htoken]
  exact hwritten.balancedBetween_iff hsize hscan

/-- A sum in an argument list has lost no parentheses. -/
theorem Source.operation_excerpt_argument :
    let source : Source := ⟨"f(a + b);", "demo.let"⟩
    let span (start stop : Nat) : Span Position := ⟨source.place start, source.place stop⟩
    let sum : Expr Position :=
      .operation (.binary .plus) [.symbol "a" (span 2 3), .symbol "b" (span 6 7)] (span 2 7)
    ∃ program, source.text.utf8ByteSize < 2 ^ 32 ∧ source.program 4 = .ok program ∧
      sum ∈ program.nodes ∧ ∃ opened closed, source.Encloses (span 2 7) opened closed ∧
        source.SpellsBetween sum opened closed ∧
        (source.BalancedBetween (span 2 7) ↔ opened = 0 ∧ closed = 0) := by
  intro source span sum
  have hsize : source.text.utf8ByteSize < 2 ^ 32 := by decide +kernel
  have htokens : source.tokens = .ok [⟨.identifier, "f", span 0 1⟩, ⟨.opening .paren, "(", span 1 2⟩,
      ⟨.identifier, "a", span 2 3⟩, ⟨.operator, "+", span 4 5⟩, ⟨.identifier, "b", span 6 7⟩,
      ⟨.closing .paren, ")", span 7 8⟩, ⟨.semicolon, ";", span 8 9⟩] := by
    decide +kernel
  have hprogram : source.program 4 = .ok (.mk [.expression
      (.call (.symbol "f" (span 0 1)) [sum] (span 0 8)) (span 0 9)] (span 0 9)) := by
    rw [Source.program_eq htokens]
    cbv
  have hnode : sum ∈ (Block.mk [.expression (.call (.symbol "f" (span 0 1)) [sum] (span 0 8))
      (span 0 9)] (span 0 9)).nodes := by
    simp [sum, Block.nodes, Stmt.allNodes, Stmt.nodes, Expr.nodes, Expr.allNodes]
  exact ⟨_, hsize, hprogram, hnode, Source.operation_excerpt hsize hprogram hnode⟩

/-- A sum whose first operand is in parentheses has lost the opening one. -/
theorem Source.operation_unbalanced :
    let source : Source := ⟨"(a) + b;", "demo.let"⟩
    let span (start stop : Nat) : Span Position := ⟨source.place start, source.place stop⟩
    let sum : Expr Position :=
      .operation (.binary .plus) [.symbol "a" (span 1 2), .symbol "b" (span 6 7)] (span 1 7)
    ∃ program, source.program 4 = .ok program ∧ sum ∈ program.nodes ∧
      ¬ source.BalancedBetween (span 1 7) ∧ ∀ limit origin expr,
        (source.excerpt (span 1 7) 0 0).expr limit origin ≠ .ok expr := by
  intro source span sum
  have htokens : source.tokens = .ok [⟨.opening .paren, "(", span 0 1⟩, ⟨.identifier, "a", span 1 2⟩,
      ⟨.closing .paren, ")", span 2 3⟩, ⟨.operator, "+", span 4 5⟩, ⟨.identifier, "b", span 6 7⟩,
      ⟨.semicolon, ";", span 7 8⟩] := by
    decide +kernel
  have hprogram : source.program 4 = .ok (.mk [.expression sum (span 0 8)] (span 0 8)) := by
    rw [Source.program_eq htokens]
    cbv
  have hexcerpt : (source.excerpt (span 1 7) 0 0).tokens = .ok [⟨.identifier, "a", span 0 1⟩,
      ⟨.closing .paren, ")", span 1 2⟩, ⟨.operator, "+", span 3 4⟩, ⟨.identifier, "b", span 5 6⟩] := by
    decide +kernel
  have hunbalanced : ¬ source.BalancedBetween (span 1 7) := by
    rintro ⟨tokens, depth, htokens, hbalanced⟩
    cases hexcerpt.symm.trans htokens
    exact absurd hbalanced.net_eq_zero (by decide)
  exact ⟨_, hprogram, .head _, hunbalanced, fun limit origin expr h =>
    hunbalanced (Source.balancedBetween_of_expr h)⟩

end LetWhile
