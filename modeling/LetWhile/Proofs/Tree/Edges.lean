import LetWhile.Proofs.Relocation.Trees
import LetWhile.Proofs.Tree.Depth

/-!
# The edges of slices

Parentheses at the edges of a slice belong to the trees in it and may not belong to what the slice
spells. So a slice is said to begin at a position if nothing but opening parentheses comes before
(`Tree.Begins`), and likewise to end (`Tree.Ends`). Without these parentheses the brackets in it
still match only if there are none of them, unless the slice is all in one group
(`Tree.edges_eq_nil`).
-/

namespace LetWhile

variable {P Q : Type}

/-! ## Other tokens and places -/

/-- Tokens of the same kinds are balanced alike. -/
theorem Balanced.congr {tokens : List (Token P)} {others : List (Token Q)} {depth : Nat}
    (h : Balanced tokens depth) (hkinds : others.map Token.kind = tokens.map Token.kind) :
    Balanced others depth := by
  induction h generalizing others with
  | nil =>
    cases List.map_eq_nil_iff.1 hkinds
    exact .nil
  | leaf hleaf _ ih =>
    obtain ⟨other, rest, rfl, hother, hrest⟩ := List.map_eq_cons_iff.1 hkinds
    exact .leaf (hother ▸ hleaf) (ih hrest)
  | group hopening hclosing _ _ ihinner ih =>
    obtain ⟨opening, more, rfl, hopen, hmore⟩ := List.map_eq_cons_iff.1 hkinds
    rw [List.map_append] at hmore
    obtain ⟨inner, more, rfl, hinner, hmore⟩ := List.map_eq_append_iff.1 hmore
    obtain ⟨closing, rest, rfl, hclose, hrest⟩ := List.map_eq_cons_iff.1 hmore
    exact .group (hopen.trans hopening) (hclose.trans hclosing) (ihinner hinner) (ih hrest)

/-- A mark at another place. -/
def Mark.map (f : P → Q) : Mark P → Mark Q
  | leaf token => leaf (token.map f)
  | opens bracket start => opens bracket (f start)
  | closes bracket stop => closes bracket (f stop)

namespace Tree

mutual

/-- The marks of a moved tree are the moved marks. -/
theorem marks_map (f : P → Q) : ∀ tree : Tree P, (tree.map f).marks = tree.marks.map (Mark.map f)
  | leaf token => by simp [marks, Mark.map]
  | group bracket children span => by
    simp [marks, Mark.map, allMarks_map f children, Span.map]

/-- The marks of moved trees are the moved marks. -/
theorem allMarks_map (f : P → Q) : ∀ trees : List (Tree P),
    allMarks (trees.map (map f)) = (allMarks trees).map (Mark.map f)
  | [] => by simp [allMarks]
  | tree :: rest => by simp [allMarks, marks_map f tree, allMarks_map f rest]

end

end Tree

/-- The mark of a moved token is the moved mark. -/
theorem Token.mark_map (f : P → Q) (token : Token P) : (token.map f).mark = token.mark.map f := by
  obtain ⟨kind, text, span⟩ := token
  cases kind <;> rfl

/-! ## Counting brackets -/

/-- How many levels deeper it is behind a token than in front of it. -/
def Kind.deeper : Kind → Int
  | opening _ => 1
  | closing _ => -1
  | _ => 0

/-- A token that is no bracket leads neither in nor out. -/
theorem Kind.deeper_of_leaf {kind : Kind} (h : kind.bracket? = none) : kind.deeper = 0 := by
  cases kind with
  | opening | closing => cases h
  | _ => rfl

/-- How many more groups some tokens open than they close. -/
def Token.net : List (Token P) → Int
  | [] => 0
  | token :: rest => token.kind.deeper + Token.net rest

namespace Token
variable {tokens more : List (Token P)} {bracket : Bracket}

/-- No tokens lead nowhere. -/
@[simp]
theorem net_nil : net ([] : List (Token P)) = 0 := rfl

/-- A token adds its own step to those of the others. -/
@[simp]
theorem net_cons (token : Token P) : net (token :: tokens) = token.kind.deeper + net tokens := rfl

/-- The steps of two lists add up. -/
@[simp]
theorem net_append : net (tokens ++ more) = net tokens + net more := by
  induction tokens with
  | nil => simp
  | cons token rest ih => rw [List.cons_append, net_cons, net_cons, ih, Int.add_assoc]

/-- Opening brackets lead in by one each. -/
theorem net_of_openings (h : ∀ token ∈ tokens, token.kind = .opening bracket) :
    net tokens = tokens.length := by
  induction tokens with
  | nil => rfl
  | cons token rest ih =>
    obtain ⟨htoken, hrest⟩ := List.forall_mem_cons.1 h
    rw [net_cons, htoken, ih hrest, List.length_cons, Kind.deeper]
    omega

/-- Closing brackets lead out by one each. -/
theorem net_of_closings (h : ∀ token ∈ tokens, token.kind = .closing bracket) :
    net tokens = -tokens.length := by
  induction tokens with
  | nil => rfl
  | cons token rest ih =>
    obtain ⟨htoken, hrest⟩ := List.forall_mem_cons.1 h
    rw [net_cons, htoken, ih hrest, List.length_cons, Kind.deeper]
    omega

end Token

open Token (net)

namespace Balanced
variable {tokens front : List (Token P)} {depth : Nat}

/-- Matching brackets open as many groups as they close. -/
theorem net_eq_zero (h : Balanced tokens depth) : net tokens = 0 := by
  induction h with
  | nil => rfl
  | leaf hleaf _ ih => rw [Token.net_cons, Kind.deeper_of_leaf hleaf, ih, Int.add_zero]
  | group hopening hclosing _ _ ihinner ih =>
    simp only [Token.net_cons, Token.net_append, hopening, hclosing, ihinner, ih, Kind.deeper]
    omega

/-- Matching brackets close no group that they have not opened. -/
theorem net_nonneg (h : Balanced tokens depth) (hfront : front <+: tokens) : 0 ≤ net front := by
  induction h generalizing front with
  | nil =>
    cases List.prefix_nil.1 hfront
    exact Int.le_refl _
  | leaf hleaf _ ih =>
    rcases List.prefix_cons_iff.1 hfront with rfl | ⟨more, rfl, hmore⟩
    · exact Int.le_refl _
    · rw [Token.net_cons, Kind.deeper_of_leaf hleaf, Int.zero_add]
      exact ih hmore
  | @group opening closing bracket inner rest _ _ hopening hclosing hinner _ ihinner ih =>
    rcases List.prefix_cons_iff.1 hfront with rfl | ⟨more, rfl, hmore⟩
    · exact Int.le_refl _
    rw [Token.net_cons, hopening, Kind.deeper]
    -- The front ends in the group, or with it, or behind it.
    rcases List.prefix_or_prefix_of_prefix hmore (List.prefix_append inner _) with
      hin | ⟨behind, rfl⟩
    · have := ihinner hin
      omega
    rw [Token.net_append, hinner.net_eq_zero]
    rcases List.prefix_cons_iff.1 ((List.prefix_append_right_inj inner).1 hmore) with
      rfl | ⟨others, rfl, hothers⟩
    · simp
    · have := ih hothers
      rw [Token.net_cons, hclosing, Kind.deeper]
      omega

end Balanced

/-! ## Edges -/

/-- What is marked starts at a position. -/
def Mark.StartsAt (pos : P) : Mark P → Prop
  | leaf token => token.span.start = pos
  | opens _ start => start = pos
  | closes _ _ => False

/-- What is marked stops at a position. -/
def Mark.StopsAt (pos : P) : Mark P → Prop
  | leaf token => token.span.stop = pos
  | opens _ _ => False
  | closes _ stop => stop = pos

/-- A token whose mark starts at a position starts there. -/
theorem Token.start_eq {token : Token P} {pos : P} (h : token.mark.StartsAt pos) :
    token.span.start = pos := by
  unfold mark at h
  split at h
  · exact h
  · exact h.elim
  · exact h

/-- A token whose mark stops at a position stops there. -/
theorem Token.stop_eq {token : Token P} {pos : P} (h : token.mark.StopsAt pos) :
    token.span.stop = pos := by
  unfold mark at h
  split at h
  · exact h.elim
  · exact h
  · exact h

namespace Tree

/-- Behind opening parentheses some trees begin at a position. -/
def Begins (pos : P) (trees : List (Tree P)) : Prop :=
  ∃ opens mark rest, allMarks trees = opens ++ mark :: rest ∧
    (∀ other ∈ opens, ∃ start, other = Mark.opens .paren start) ∧ mark.StartsAt pos

/-- In front of closing parentheses some trees end at a position. -/
def Ends (pos : P) (trees : List (Tree P)) : Prop :=
  ∃ front mark closes, allMarks trees = front ++ mark :: closes ∧
    (∀ other ∈ closes, ∃ stop, other = Mark.closes .paren stop) ∧ mark.StopsAt pos

variable {pos start stop : P} {trees : List (Tree P)}

/-- Trees begin where the first of them does. -/
theorem begins_cons (tree : Tree P) (rest : List (Tree P)) : Begins tree.span.start (tree :: rest) := by
  cases tree with
  | leaf token => exact ⟨[], .leaf token, _, rfl, List.forall_mem_nil _, rfl⟩
  | group bracket children span =>
    exact ⟨[], .opens bracket span.start, _, by rw [allMarks, marks]; rfl, List.forall_mem_nil _, rfl⟩

/-- Trees end where the last of them does. -/
theorem ends_snoc (init : List (Tree P)) (tree : Tree P) : Ends tree.span.stop (init ++ [tree]) := by
  cases tree with
  | leaf token =>
    exact ⟨allMarks init, .leaf token, [], by simp [allMarks_append, allMarks, marks],
      List.forall_mem_nil _, rfl⟩
  | group bracket children span =>
    exact ⟨allMarks init ++ .opens bracket span.start :: allMarks children,
      .closes bracket span.stop, [], by simp [allMarks_append, allMarks, marks],
      List.forall_mem_nil _, rfl⟩

/-- Trees begin where they do, whatever stands behind them. -/
theorem Begins.append (h : Begins pos trees) (more : List (Tree P)) : Begins pos (trees ++ more) := by
  obtain ⟨opens, mark, rest, hmarks, hopens, hstart⟩ := h
  exact ⟨opens, mark, rest ++ allMarks more, by simp [allMarks_append, hmarks], hopens, hstart⟩

/-- Trees end where they do, whatever stands in front of them. -/
theorem Ends.append (h : Ends pos trees) (init : List (Tree P)) : Ends pos (init ++ trees) := by
  obtain ⟨front, mark, closes, hmarks, hcloses, hstop⟩ := h
  exact ⟨allMarks init ++ front, mark, closes, by simp [allMarks_append, hmarks], hcloses, hstop⟩

/-- What is in parentheses begins behind the opening one. -/
theorem Begins.group (h : Begins pos trees) (span : Span P) :
    Begins pos [.group .paren trees span] := by
  obtain ⟨opens, mark, rest, hmarks, hopens, hstart⟩ := h
  exact ⟨.opens .paren span.start :: opens, mark, rest ++ [.closes .paren span.stop],
    by simp [allMarks, marks, hmarks], List.forall_mem_cons.2 ⟨⟨_, rfl⟩, hopens⟩, hstart⟩

/-- What is in parentheses ends in front of the closing one. -/
theorem Ends.group (h : Ends pos trees) (span : Span P) : Ends pos [.group .paren trees span] := by
  obtain ⟨front, mark, closes, hmarks, hcloses, hstop⟩ := h
  refine ⟨.opens .paren span.start :: front, mark, closes ++ [.closes .paren span.stop],
    by simp [allMarks, marks, hmarks], ?_, hstop⟩
  exact List.forall_mem_append.2 ⟨hcloses, List.forall_mem_singleton.2 ⟨_, rfl⟩⟩

/-- The tokens of trees that begin and end at two positions: opening parentheses, the tokens from
the one position to the other, and closing parentheses. -/
theorem tokens_of_edges {tokens : List (Token P)} (h : allMarks trees = tokens.map Token.mark)
    (hbegins : Begins start trees) (hends : Ends stop trees) :
    ∃ opens core closes first last, tokens = opens ++ (core ++ closes) ∧
      (∀ token ∈ opens, token.kind = .opening .paren) ∧
      (∀ token ∈ closes, token.kind = .closing .paren) ∧
      core.head? = some first ∧ core.getLast? = some last ∧
      first.span.start = start ∧ last.span.stop = stop := by
  obtain ⟨opens, mark, rest, hfront, hopens, hstart⟩ := hbegins
  obtain ⟨front, mark', closes, hback, hcloses, hstop⟩ := hends
  obtain ⟨openings, others, rfl, hopenings, hothers⟩ :=
    List.map_eq_append_iff.1 (h.symm.trans hfront)
  obtain ⟨first, others, rfl, hfirst, -⟩ := List.map_eq_cons_iff.1 hothers
  obtain ⟨before, others', htokens, hbefore, hothers'⟩ :=
    List.map_eq_append_iff.1 (h.symm.trans hback)
  obtain ⟨last, closings, rfl, hlast, hclosings⟩ := List.map_eq_cons_iff.1 hothers'
  have hopening : ∀ token ∈ openings, token.kind = .opening .paren := by
    intro token htoken
    obtain ⟨_, hmark⟩ := hopens _ (hopenings ▸ List.mem_map_of_mem htoken)
    exact (Token.eq_of_mark_opens hmark).1
  have hclosing : ∀ token ∈ closings, token.kind = .closing .paren := by
    intro token htoken
    obtain ⟨_, hmark⟩ := hcloses _ (hclosings ▸ List.mem_map_of_mem htoken)
    exact (Token.eq_of_mark_closes hmark).1
  subst hfirst hlast
  -- An opening parenthesis stops nothing, so the last token is not in front of the first.
  obtain ⟨mid, hmid⟩ : ∃ mid, first :: others = mid ++ last :: closings := by
    rcases List.append_eq_append_iff.1 htokens with ⟨mid, -, hmid⟩ | ⟨mid, rfl, hmid⟩
    · exact ⟨mid, hmid⟩
    · cases mid with
      | nil => exact ⟨[], hmid.symm⟩
      | cons token mid =>
        cases hmid
        rw [Token.mark_of_opening (hopening last (by simp))] at hstop
        exact hstop.elim
  refine ⟨openings, mid ++ [last], closings, first, last, by rw [hmid, List.append_assoc]; rfl,
    hopening, hclosing, ?_, List.getLast?_concat, Token.start_eq hstart, Token.stop_eq hstop⟩
  have hhead := congrArg List.head? hmid
  rw [← List.singleton_append (l := closings), ← List.append_assoc,
    List.head?_append_of_ne_nil _ (by simp)] at hhead
  exact hhead.symm

/-- A leaf among some trees is one of the tokens that they are made of. -/
theorem mem_of_marks {tokens : List (Token P)} (h : allMarks trees = tokens.map Token.mark)
    {token : Token P} (htoken : leaf token ∈ trees) : token ∈ tokens ∧ token.mark = .leaf token := by
  obtain ⟨before, after, rfl⟩ := List.append_of_mem htoken
  have hmem : Mark.leaf token ∈ tokens.map Token.mark := by
    rw [← h, allMarks_append, allMarks, marks]
    simp
  obtain ⟨other, hother, hmark⟩ := List.mem_map.1 hmem
  cases Token.eq_of_mark hmark
  exact ⟨hother, hmark⟩

/-- Between parentheses at the edges of some trees that are not all in one group, the brackets match
only if there are no such parentheses. -/
theorem edges_eq_nil {opens core closes : List (Token P)} {depth : Nat}
    (h : allMarks trees = (opens ++ (core ++ closes)).map Token.mark)
    (hopens : ∀ token ∈ opens, token.kind = .opening .paren)
    (hcloses : ∀ token ∈ closes, token.kind = .closing .paren)
    {token : Token P} (htoken : leaf token ∈ trees) (hcore : Balanced core depth) :
    opens = [] ∧ closes = [] := by
  obtain ⟨_, hwhole⟩ := balanced_of_marks h
  have hwhole := hwhole.net_eq_zero
  simp only [Token.net_append, Token.net_of_openings hopens, Token.net_of_closings hcloses,
    hcore.net_eq_zero] at hwhole
  suffices hnil : opens = [] by
    subst hnil
    refine ⟨rfl, List.eq_nil_of_length_eq_zero ?_⟩
    simp only [List.length_nil] at hwhole
    omega
  obtain ⟨tree, rest, rfl⟩ := List.exists_cons_of_ne_nil (List.ne_nil_of_mem htoken)
  obtain ⟨front, back, hsplit, hfront, hback⟩ := List.map_eq_append_iff.1 h.symm
  have hfront' : allMarks [tree] = front.map Token.mark := by
    rw [allMarks, allMarks, List.append_nil, hfront]
  obtain ⟨_, hbalanced⟩ := balanced_of_marks hfront'
  have hnet := hbalanced.net_eq_zero
  -- The tokens of the first tree end in the core: they are more than opening parentheses, and those
  -- of the others are more than closing ones.
  rcases List.append_eq_append_iff.1 hsplit with ⟨mid, rfl, hmid⟩ | ⟨mid, rfl, -⟩
  · rcases List.append_eq_append_iff.1 hmid with ⟨others, rfl, hothers⟩ | ⟨others, rfl, -⟩
    · rcases List.mem_cons.1 htoken with rfl | hrest
      · cases opens with
        | nil => rfl
        | cons opening opens =>
          rw [List.cons_append, List.map_cons, Token.mark_of_opening (hopens opening (.head _)),
            marks] at hfront
          cases hfront
      · obtain ⟨hmem, hmark⟩ := mem_of_marks hback.symm hrest
        rw [Token.mark_of_closing (hcloses token (by simp [hothers, hmem]))] at hmark
        cases hmark
    · have hnonneg := hcore.net_nonneg (List.prefix_append mid others)
      rw [Token.net_append, Token.net_of_openings hopens] at hnet
      exact List.eq_nil_of_length_eq_zero (by omega)
  · have hopening : ∀ token ∈ front, token.kind = .opening .paren :=
      fun token hmem => hopens token (List.mem_append_left _ hmem)
    rw [Token.net_of_openings hopening] at hnet
    cases List.eq_nil_of_length_eq_zero (Int.ofNat_eq_zero.1 hnet)
    cases tree <;> cases hfront

end Tree

end LetWhile
