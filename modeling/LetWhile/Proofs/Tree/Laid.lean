import LetWhile.Proofs.Scanning.Spelling

/-!
# Trees laid out in a text

Tokens that stand in a text one after another make trees that do so too, with the children of a
group between its brackets (`Tree.Laid`, `Tree.laidIn_of_nest`). Positions are byte offsets here.
That tokens are written as their kinds say is part of it, since outlining relies on it.
-/

namespace LetWhile

/-! ## Spans in order -/

namespace Span

/-- Spans between two offsets, one after another and none of them empty. -/
def InOrder : Nat → List (Span Nat) → Nat → Prop
  | start, [], stop => start ≤ stop
  | start, span :: rest, stop =>
    start ≤ span.start ∧ span.start < span.stop ∧ InOrder span.stop rest stop

namespace InOrder
variable {start stop start' stop' : Nat} {spans more : List (Span Nat)}

/-- Spans in order lie between offsets in order. -/
theorem le (h : InOrder start spans stop) : start ≤ stop := by
  induction spans generalizing start with
  | nil => exact h
  | cons span rest ih =>
    obtain ⟨hstart, hspan, hrest⟩ := h
    have := ih hrest
    omega

/-- Spans in order are in order between offsets further apart. -/
theorem mono (h : InOrder start spans stop) (hstart : start' ≤ start) (hstop : stop ≤ stop') :
    InOrder start' spans stop' := by
  induction spans generalizing start start' with
  | nil => exact Nat.le_trans hstart (Nat.le_trans h hstop)
  | cons span rest ih =>
    obtain ⟨hfirst, hspan, hrest⟩ := h
    exact ⟨Nat.le_trans hstart hfirst, hspan, ih hrest (Nat.le_refl _)⟩

/-- Each of the spans in order is not empty and lies between the offsets. -/
theorem of_mem {span : Span Nat} (h : InOrder start spans stop) (hmem : span ∈ spans) :
    start ≤ span.start ∧ span.start < span.stop ∧ span.stop ≤ stop := by
  induction spans generalizing start with
  | nil => cases hmem
  | cons first rest ih =>
    obtain ⟨hstart, hspan, hrest⟩ := h
    rcases List.mem_cons.1 hmem with rfl | hmem
    · exact ⟨hstart, hspan, hrest.le⟩
    · obtain ⟨hafter, hproper, hstop⟩ := ih hrest hmem
      exact ⟨by omega, hproper, hstop⟩

/-- Spans are in order if the first ones are up to an offset and the others from it on. -/
theorem append_iff :
    InOrder start (spans ++ more) stop ↔ ∃ mid, InOrder start spans mid ∧ InOrder mid more stop := by
  induction spans generalizing start with
  | nil =>
    refine ⟨fun h => ⟨start, Nat.le_refl _, h⟩, fun h' => ?_⟩
    obtain ⟨mid, hmid, hmore⟩ := h'
    exact hmore.mono hmid (Nat.le_refl _)
  | cons span rest ih =>
    rw [List.cons_append, InOrder, ih]
    refine ⟨fun h' => ?_, fun h' => ?_⟩
    · obtain ⟨hstart, hspan, mid, hrest, hmore⟩ := h'
      exact ⟨mid, ⟨hstart, hspan, hrest⟩, hmore⟩
    · obtain ⟨mid, ⟨hstart, hspan, hrest⟩, hmore⟩ := h'
      exact ⟨hstart, hspan, mid, hrest, hmore⟩

/-- Spans of which each stops before the next one starts. -/
theorem of_pairwise (hspans : ∀ span ∈ spans, start ≤ span.start ∧ span.start < span.stop ∧
    span.stop ≤ stop) (hle : start ≤ stop)
    (hpairs : spans.Pairwise fun first second => first.stop ≤ second.start) :
    InOrder start spans stop := by
  induction spans generalizing start with
  | nil => exact hle
  | cons span rest ih =>
    obtain ⟨⟨hstart, hspan, hstop⟩, hrest⟩ := List.forall_mem_cons.1 hspans
    obtain ⟨hafter, hpairs⟩ := List.pairwise_cons.1 hpairs
    exact ⟨hstart, hspan, ih (fun other hother => ⟨hafter other hother, (hrest other hother).2⟩)
      hstop hpairs⟩

/-- Spans in order differ in where they start and in where they stop. -/
theorem pairwise (h : InOrder start spans stop) :
    spans.Pairwise fun first second => first.start < second.start ∧ first.stop < second.stop := by
  induction spans generalizing start with
  | nil => exact .nil
  | cons span rest ih =>
    obtain ⟨hstart, hproper, hrest⟩ := h
    refine List.pairwise_cons.2 ⟨fun other hother => ?_, ih hrest⟩
    obtain ⟨hafter, hother, -⟩ := hrest.of_mem hother
    exact ⟨by omega, by omega⟩

/-- Spans in order lie between the start of the first and the stop of the last. -/
theorem through {first last : Span Nat} (h : InOrder start spans stop)
    (hfirst : spans.head? = some first) (hlast : spans.getLast? = some last) :
    InOrder first.start spans last.stop ∧ start ≤ first.start ∧ first.start < last.stop ∧
      last.stop ≤ stop := by
  obtain ⟨init, rfl⟩ := List.getLast?_eq_some_iff.1 hlast
  obtain ⟨mid, hinit, hmid, hspan, hstop⟩ := append_iff.1 h
  have hupTo : InOrder start (init ++ [last]) last.stop :=
    append_iff.2 ⟨mid, hinit, hmid, hspan, Nat.le_refl _⟩
  obtain ⟨rest, hrest⟩ := List.head?_eq_some_iff.1 hfirst
  rw [hrest] at hupTo ⊢
  obtain ⟨hstart, hproper, hupTo⟩ := hupTo
  exact ⟨⟨Nat.le_refl _, hproper, hupTo⟩, hstart, Nat.lt_of_lt_of_le hproper hupTo.le, hstop⟩

end InOrder

end Span

open LetWhile.Span (InOrder)

/-! ## Laid out trees -/

namespace Tree

mutual

/-- The tokens in a tree are written as their kinds say, and the children of each group stand between
its brackets, one after another. -/
def Laid : Tree Nat → Prop
  | leaf token => token.Spelled
  | group _ children span =>
    InOrder span.start (children.map Tree.span) span.stop ∧ AllLaid children

/-- `Laid` over a list of trees. -/
def AllLaid : List (Tree Nat) → Prop
  | [] => True
  | tree :: rest => tree.Laid ∧ AllLaid rest

end

/-- Trees are laid out if each of them is. -/
theorem allLaid_iff {trees : List (Tree Nat)} : AllLaid trees ↔ ∀ tree ∈ trees, tree.Laid := by
  induction trees with
  | nil => simp [AllLaid]
  | cons tree rest ih => simp [AllLaid, ih]

mutual

/-- A tree that is laid out is well spelled. -/
theorem Laid.allSpelled : ∀ {tree : Tree Nat}, tree.Laid → AllSpelled [tree]
  | leaf _, h => allSpelled_leaf.2 h
  | group _ _ _, h => allSpelled_group.2 (AllLaid.allSpelled h.2)

/-- Trees that are laid out are well spelled. -/
theorem AllLaid.allSpelled : ∀ {trees : List (Tree Nat)}, AllLaid trees → AllSpelled trees
  | [], _ => holds_nil
  | _ :: _, h => allSpelled_cons.2 ⟨h.1.allSpelled, AllLaid.allSpelled h.2⟩

end

/-- Trees stand between two offsets, one after another, and so do those in them. -/
structure LaidIn (start : Nat) (trees : List (Tree Nat)) (stop : Nat) : Prop where
  inOrder : InOrder start (trees.map span) stop
  laid : AllLaid trees

namespace LaidIn
variable {start stop start' stop' : Nat} {tree : Tree Nat} {trees more : List (Tree Nat)}

/-- No trees lie between any offsets in order. -/
theorem nil (h : start ≤ stop) : LaidIn start [] stop := ⟨h, trivial⟩

/-- Trees between offsets lie between offsets further apart. -/
theorem mono (h : LaidIn start trees stop) (hstart : start' ≤ start) (hstop : stop ≤ stop') :
    LaidIn start' trees stop' := ⟨h.inOrder.mono hstart hstop, h.laid⟩

/-- Trees lie between offsets if the first one does and the others lie behind it. -/
theorem cons_iff : LaidIn start (tree :: trees) stop ↔
    start ≤ tree.span.start ∧ tree.span.start < tree.span.stop ∧ tree.Laid ∧
      LaidIn tree.span.stop trees stop := by
  refine ⟨fun h => ?_, fun h' => ?_⟩
  · obtain ⟨⟨hstart, hspan, hrest⟩, htree, hlaid⟩ := h
    exact ⟨hstart, hspan, htree, hrest, hlaid⟩
  · obtain ⟨hstart, hspan, htree, hrest, hlaid⟩ := h'
    exact ⟨⟨hstart, hspan, hrest⟩, htree, hlaid⟩

/-- Trees lie between offsets if the first ones lie in front of an offset and the others
behind it. -/
theorem append_iff :
    LaidIn start (trees ++ more) stop ↔ ∃ mid, LaidIn start trees mid ∧ LaidIn mid more stop := by
  have hall : AllLaid (trees ++ more) ↔ AllLaid trees ∧ AllLaid more := by
    simp only [allLaid_iff, List.forall_mem_append]
  refine ⟨fun h => ?_, fun h' => ?_⟩
  · obtain ⟨hinOrder, hlaid⟩ := h
    rw [List.map_append] at hinOrder
    obtain ⟨mid, htrees, hmore⟩ := InOrder.append_iff.1 hinOrder
    exact ⟨mid, ⟨htrees, (hall.1 hlaid).1⟩, hmore, (hall.1 hlaid).2⟩
  · obtain ⟨mid, ⟨htrees, hlaid⟩, hmore, hlaid'⟩ := h'
    refine ⟨?_, hall.2 ⟨hlaid, hlaid'⟩⟩
    rw [List.map_append]
    exact InOrder.append_iff.2 ⟨mid, htrees, hmore⟩

/-- A slice of trees lies between the offsets of the trees. -/
theorem of_infix (h : LaidIn start trees stop) (hmore : more <:+: trees) :
    LaidIn start more stop := by
  obtain ⟨before, after, rfl⟩ := hmore
  obtain ⟨mid, h, hafter⟩ := append_iff.1 h
  obtain ⟨mid', hbefore, hmore⟩ := append_iff.1 h
  exact hmore.mono hbefore.inOrder.le hafter.inOrder.le

/-- What is in a group stands between its brackets. -/
theorem of_group {bracket : Bracket} {children : List (Tree Nat)} {span : Span Nat}
    (h : (group bracket children span).Laid) : LaidIn span.start children span.stop := ⟨h.1, h.2⟩

end LaidIn

/-- Runs of neighbours stand between two offsets, one after another. -/
def PartsIn : Nat → List (List (Tree Nat)) → Nat → Prop
  | start, [], stop => start ≤ stop
  | start, part :: rest, stop => ∃ mid, LaidIn start part mid ∧ PartsIn mid rest stop

/-- The parts between commas stand one after another. -/
theorem LaidIn.commaParts {start stop : Nat} {trees : List (Tree Nat)}
    (h : LaidIn start trees stop) : PartsIn start (commaParts trees) stop := by
  have hparts {trees : List (Tree Nat)} : ∀ {start}, LaidIn start trees stop →
      PartsIn start (commaParts.parts trees) stop := by
    induction trees with
    | nil => exact fun h => ⟨_, h, Nat.le_refl _⟩
    | cons tree rest ih =>
      intro start h
      obtain ⟨hstart, hspan, htree, hrest⟩ := cons_iff.1 h
      have hmore := ih hrest
      unfold commaParts.parts
      split
      · exact ⟨tree.span.stop, .nil (by omega), hmore⟩
      · split
        · rename_i hnil
          rw [hnil] at hmore
          exact ⟨stop, cons_iff.2 ⟨hstart, hspan, htree, .nil hmore⟩, Nat.le_refl _⟩
        · rename_i part more heq
          rw [heq] at hmore
          obtain ⟨mid, hpart, hmore⟩ := hmore
          exact ⟨mid, cons_iff.2 ⟨hstart, hspan, htree, hpart⟩, hmore⟩
  cases trees with
  | nil => exact h.inOrder
  | cons tree rest => exact hparts h

/-! ## Nested tokens -/

mutual

/-- A tree that is made of tokens in order stands where they stand. -/
theorem laid_of_marks : ∀ {tree : Tree Nat} {tokens : List (Token Nat)} {start stop : Nat},
    tree.marks = tokens.map Token.mark → (∀ token ∈ tokens, token.Spelled) →
      InOrder start (tokens.map Token.span) stop →
      start ≤ tree.span.start ∧ tree.span.start < tree.span.stop ∧ tree.span.stop ≤ stop ∧ tree.Laid
  | leaf token, tokens, start, stop, hmarks, hs, h => by
    rw [marks] at hmarks
    obtain ⟨other, rfl, hother⟩ := List.map_eq_singleton_iff.1 hmarks.symm
    cases Token.eq_of_mark hother
    obtain ⟨hstart, hspan, hstop⟩ := h
    exact ⟨hstart, hspan, hstop, hs token (.head _)⟩
  | group bracket children ⟨_, _⟩, tokens, start, stop, hmarks, hs, h => by
    rw [marks] at hmarks
    obtain ⟨opening, more, rfl, hopening, hmore⟩ := List.map_eq_cons_iff.1 hmarks.symm
    obtain ⟨inner, last, rfl, hinner, hlast⟩ := List.map_eq_append_iff.1 hmore
    obtain ⟨closing, rfl, hclosing⟩ := List.map_eq_singleton_iff.1 hlast
    rw [List.map_cons, List.map_append] at h
    obtain ⟨hstart, hspan, h⟩ := h
    obtain ⟨mid, hmid, hafter, hspan', hstop⟩ := InOrder.append_iff.1 h
    obtain ⟨-, rfl⟩ := Token.eq_of_mark_opens hopening
    obtain ⟨-, rfl⟩ := Token.eq_of_mark_closes hclosing
    have hle := hmid.le
    have hinside : ∀ token ∈ inner, token.Spelled :=
      (List.forall_mem_append.1 (List.forall_mem_cons.1 hs).2).1
    have hchildren := (laidIn_of_marks hinner.symm hinside hmid).mono (Nat.le_of_lt hspan)
      (Nat.le_of_lt (Nat.lt_of_le_of_lt hafter hspan'))
    have hgroup : opening.span.start < closing.span.stop := by omega
    exact ⟨hstart, hgroup, hstop.le, hchildren.inOrder, hchildren.laid⟩

/-- Trees that are made of tokens in order stand where they stand. -/
theorem laidIn_of_marks : ∀ {trees : List (Tree Nat)} {tokens : List (Token Nat)} {start stop : Nat},
    allMarks trees = tokens.map Token.mark → (∀ token ∈ tokens, token.Spelled) →
      InOrder start (tokens.map Token.span) stop → LaidIn start trees stop
  | [], tokens, start, stop, _, _, h => .nil h.le
  | tree :: rest, tokens, start, stop, hmarks, hs, h => by
    rw [allMarks] at hmarks
    obtain ⟨first, more, rfl, hfirst, hmore⟩ := List.map_eq_append_iff.1 hmarks.symm
    rw [List.map_append] at h
    obtain ⟨hfirstSpelled, hmoreSpelled⟩ := List.forall_mem_append.1 hs
    obtain ⟨mid, hmid, h⟩ := InOrder.append_iff.1 h
    obtain ⟨hstart, hspan, hstop, htree⟩ := laid_of_marks hfirst.symm hfirstSpelled hmid
    exact LaidIn.cons_iff.2 ⟨hstart, hspan, htree,
      (laidIn_of_marks hmore.symm hmoreSpelled h).mono hstop (Nat.le_refl _)⟩

end

/-- The trees of nested tokens lie in the span of all of them. -/
theorem laidIn_of_nest {limit origin stop : Nat} {tokens : List (Token Nat)} {region : Region Nat}
    (h : nest limit origin tokens = .ok region) (hs : ∀ token ∈ tokens, token.Spelled)
    (htokens : InOrder origin (tokens.map Token.span) stop) :
    LaidIn region.span.start region.trees region.span.stop ∧ region.span.stop ≤ stop := by
  have hmarks := (nestsTo_of_nest h).marks
  obtain ⟨trees, -, rfl⟩ := Outcome.map_eq_ok.1 h
  show LaidIn (Nesting.spanOf origin tokens).start trees (Nesting.spanOf origin tokens).stop ∧ _
  unfold Nesting.spanOf
  split
  · rename_i first last hfirst hlast
    obtain ⟨hinOrder, -, -, hstop⟩ := htokens.through
      (by rw [List.head?_map, hfirst]; rfl) (by rw [List.getLast?_map, hlast]; rfl)
    exact ⟨laidIn_of_marks hmarks hs hinOrder, hstop⟩
  · rename_i hnone
    have hnil : tokens = [] := by
      cases tokens with
      | nil => rfl
      | cons token rest =>
        exact (hnone token _ rfl (List.getLast?_eq_some_getLast (List.cons_ne_nil _ _))).elim
    subst hnil
    exact ⟨laidIn_of_marks hmarks hs (Nat.le_refl origin), htokens⟩

end Tree

end LetWhile
