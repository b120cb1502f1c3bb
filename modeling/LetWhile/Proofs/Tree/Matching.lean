import LetWhile.Tree.Nesting
import Mathlib.Data.List.Forall2

/-!
# Bracket matching

A list of tokens is nested exactly if its brackets are well nested and not too deep, and its trees
are made of all its tokens in order: each group of its opening bracket, its children and its closing
bracket (`Tree.allMarks`). Otherwise the fault is at the first token after which nothing can be
added to make the brackets match (`NestFault`), or at the innermost bracket that is left open. Both
are said by `nest_balanced`.

`Nesting.Reached` is the invariant of the scan. It says of the tokens that were read how they are
nested inside the groups that are open, and that the scan of any tokens which begin with them gets
to the same groups.
-/

namespace LetWhile

variable {P : Type}

/-! ## Well-nested tokens -/

/-- The bracket of a token that opens or closes a group. -/
def Kind.bracket? : Kind → Option Bracket
  | opening bracket | closing bracket => some bracket
  | _ => none

/-- A token is no bracket, an opening one or a closing one. -/
theorem Kind.bracket_cases (kind : Kind) : kind.bracket? = none ∨
    (∃ bracket, kind = .opening bracket) ∨ ∃ bracket, kind = .closing bracket := by
  cases kind with
  | opening bracket => exact .inr (.inl ⟨bracket, rfl⟩)
  | closing bracket => exact .inr (.inr ⟨bracket, rfl⟩)
  | _ => exact .inl rfl

/-- The brackets of some tokens are well nested, to the given depth. -/
inductive Balanced : List (Token P) → Nat → Prop
  | nil : Balanced [] 0
  | leaf {token : Token P} {tokens : List (Token P)} {depth : Nat} :
    token.kind.bracket? = none → Balanced tokens depth → Balanced (token :: tokens) depth
  | group {opening closing : Token P} {bracket : Bracket} {inner rest : List (Token P)}
      {innerDepth depth : Nat} :
    opening.kind = .opening bracket → closing.kind = .closing bracket →
    Balanced inner innerDepth → Balanced rest depth →
    Balanced (opening :: (inner ++ closing :: rest)) (max (innerDepth + 1) depth)

/-- Balanced tokens are balanced one after another, as deep as the deeper ones. -/
theorem Balanced.append {tokens tokens' : List (Token P)} {depth depth' : Nat}
    (h : Balanced tokens depth) (h' : Balanced tokens' depth') :
    Balanced (tokens ++ tokens') (max depth depth') := by
  induction h with
  | nil => rwa [Nat.zero_max]
  | leaf hleaf _ ih => exact .leaf hleaf ih
  | group hopening hclosing hinner _ _ ih =>
    rw [List.cons_append, List.append_assoc, List.cons_append, Nat.max_assoc]
    exact .group hopening hclosing hinner ih

/-- The brackets of some tokens are well nested, at most `limit` deep. -/
def BalancedWithin (limit : Nat) (tokens : List (Token P)) : Prop :=
  ∃ depth ≤ limit, Balanced tokens depth

/-- Some tokens can be followed by others so that the brackets of all are well nested, at most
`limit` deep. -/
def Extensible (limit : Nat) (tokens : List (Token P)) : Prop :=
  ∃ more, BalancedWithin limit (tokens ++ more)

/-- The opening brackets that some tokens leave open, the innermost first. -/
inductive Unclosed : List (Token P) → List (Token P) → Prop
  | nil {tokens : List (Token P)} {depth : Nat} : Balanced tokens depth → Unclosed tokens []
  | cons {tokens inner outer : List (Token P)} {opening : Token P} {bracket : Bracket}
      {depth : Nat} :
    Unclosed tokens outer → opening.kind = .opening bracket → Balanced inner depth →
    Unclosed (tokens ++ opening :: inner) (opening :: outer)

/-- What is wrong with brackets that do not match. -/
inductive NestFault (limit : Nat) (tokens : List (Token P)) : Fault P → Prop
  | tooDeep {before after outer : List (Token P)} {token : Token P} {bracket : Bracket} :
    tokens = before ++ token :: after → Extensible limit before →
    ¬ Extensible limit (before ++ [token]) →
    token.kind = .opening bracket → Unclosed before outer → outer.length = limit →
    NestFault limit tokens ⟨.nestingTooDeep limit, token.span.start⟩
  | unopened {before after : List (Token P)} {token : Token P} {bracket : Bracket} :
    tokens = before ++ token :: after → Extensible limit before →
    ¬ Extensible limit (before ++ [token]) →
    token.kind = .closing bracket → Unclosed before [] →
    NestFault limit tokens ⟨.mismatchedBracket "no closing bracket" token.text, token.span.start⟩
  | mismatched {before after outer : List (Token P)} {token opening : Token P}
      {bracket expected : Bracket} :
    tokens = before ++ token :: after → Extensible limit before →
    ¬ Extensible limit (before ++ [token]) →
    token.kind = .closing bracket → Unclosed before (opening :: outer) →
    opening.kind = .opening expected → expected ≠ bracket →
    NestFault limit tokens ⟨.mismatchedBracket expected.closing token.text, token.span.start⟩
  | unclosed {outer : List (Token P)} {opening : Token P} {bracket : Bracket} :
    Extensible limit tokens → Unclosed tokens (opening :: outer) →
    opening.kind = .opening bracket →
    NestFault limit tokens ⟨.unclosedBracket bracket.opening, opening.span.start⟩

/-! ## Flattened trees -/

/-- What is left of a token in a tree: all of it, or, of a bracket, where its group starts or
stops. -/
inductive Mark (P : Type)
  | leaf (token : Token P)
  | opens (bracket : Bracket) (start : P)
  | closes (bracket : Bracket) (stop : P)

/-- The mark of a token. -/
def Token.mark (token : Token P) : Mark P :=
  match token.kind with
  | .opening bracket => .opens bracket token.span.start
  | .closing bracket => .closes bracket token.span.stop
  | _ => .leaf token

/-- The mark of a token that is no bracket is the token. -/
theorem Token.mark_of_leaf {token : Token P} (h : token.kind.bracket? = none) :
    token.mark = .leaf token := by
  unfold mark
  split
  · simp_all [Kind.bracket?]
  · simp_all [Kind.bracket?]
  · rfl

/-- The mark of an opening bracket keeps where it starts. -/
theorem Token.mark_of_opening {token : Token P} {bracket : Bracket}
    (h : token.kind = .opening bracket) : token.mark = .opens bracket token.span.start := by
  simp [mark, h]

/-- The mark of a closing bracket keeps where it stops. -/
theorem Token.mark_of_closing {token : Token P} {bracket : Bracket}
    (h : token.kind = .closing bracket) : token.mark = .closes bracket token.span.stop := by
  simp [mark, h]

/-- Only a token that is no bracket is left whole. -/
theorem Token.eq_of_mark {token other : Token P} (h : token.mark = .leaf other) :
    token = other := by
  unfold mark at h
  split at h
  · cases h
  · cases h
  · exact Mark.leaf.inj h

/-- A mark that opens is that of an opening bracket. -/
theorem Token.eq_of_mark_opens {token : Token P} {bracket : Bracket} {start : P}
    (h : token.mark = .opens bracket start) :
    token.kind = .opening bracket ∧ token.span.start = start := by
  unfold mark at h
  split at h
  · rename_i hk
    cases h
    exact ⟨hk, rfl⟩
  · cases h
  · cases h

/-- A mark that closes is that of a closing bracket. -/
theorem Token.eq_of_mark_closes {token : Token P} {bracket : Bracket} {stop : P}
    (h : token.mark = .closes bracket stop) :
    token.kind = .closing bracket ∧ token.span.stop = stop := by
  unfold mark at h
  split at h
  · cases h
  · rename_i hk
    cases h
    exact ⟨hk, rfl⟩
  · cases h

namespace Tree

mutual

/-- The marks of a flattened tree. -/
def marks : Tree P → List (Mark P)
  | leaf token => [.leaf token]
  | group bracket children span =>
    .opens bracket span.start :: (allMarks children ++ [.closes bracket span.stop])

/-- The marks of a flattened list of trees. -/
def allMarks : List (Tree P) → List (Mark P)
  | [] => []
  | tree :: rest => tree.marks ++ allMarks rest

end

/-- The marks of two lists of trees stand one after another. -/
theorem allMarks_append (trees trees' : List (Tree P)) :
    allMarks (trees ++ trees') = allMarks trees ++ allMarks trees' := by
  induction trees with
  | nil => simp [allMarks]
  | cons tree rest ih => simp [allMarks, ih]

end Tree

/-- Some trees are made of some tokens, whose brackets are nested at most `limit` deep. -/
structure NestsTo (limit : Nat) (tokens : List (Token P)) (trees : List (Tree P)) : Prop where
  balanced : BalancedWithin limit tokens
  marks : Tree.allMarks trees = tokens.map Token.mark

namespace NestsTo
variable {limit : Nat} {tokens tokens' : List (Token P)} {trees trees' : List (Tree P)}

/-- No tokens nest to no trees. -/
theorem nil (limit : Nat) : NestsTo limit ([] : List (Token P)) [] :=
  ⟨⟨0, limit.zero_le, .nil⟩, by simp [Tree.allMarks]⟩

/-- Tokens that nest do so one after another. -/
theorem append (h : NestsTo limit tokens trees) (h' : NestsTo limit tokens' trees') :
    NestsTo limit (tokens ++ tokens') (trees ++ trees') := by
  obtain ⟨depth, hdepth, hbalanced⟩ := h.balanced
  obtain ⟨depth', hdepth', hbalanced'⟩ := h'.balanced
  refine ⟨⟨max depth depth', Nat.max_le.2 ⟨hdepth, hdepth'⟩, hbalanced.append hbalanced'⟩, ?_⟩
  rw [Tree.allMarks_append, List.map_append, h.marks, h'.marks]

/-- A token that is no bracket nests to a leaf. -/
theorem leaf {token : Token P} (h : token.kind.bracket? = none) (limit : Nat) :
    NestsTo limit [token] [.leaf token] :=
  ⟨⟨0, limit.zero_le, .leaf h .nil⟩, by simp [Tree.allMarks, Tree.marks, Token.mark_of_leaf h]⟩

/-- Tokens that nest between matching brackets nest to a group, one level deeper. -/
theorem group {opening closing : Token P} {bracket : Bracket}
    (hopening : opening.kind = .opening bracket) (hclosing : closing.kind = .closing bracket)
    (h : NestsTo limit tokens trees) :
    NestsTo (limit + 1) (opening :: tokens ++ [closing])
      [.group bracket trees ⟨opening.span.start, closing.span.stop⟩] := by
  obtain ⟨depth, hdepth, hbalanced⟩ := h.balanced
  refine ⟨⟨max (depth + 1) 0, by omega, .group hopening hclosing hbalanced .nil⟩, ?_⟩
  simp [Tree.allMarks, Tree.marks, h.marks, Token.mark_of_opening hopening,
    Token.mark_of_closing hclosing]

end NestsTo

/-! ## Steps of the scan -/

namespace Nesting
variable {limit : Nat} {opened outer : List (Opened P)} {group : Opened P}
  {before : List (Tree P)} {token : Token P} {bracket : Bracket} (tokens : List (Token P))

/-- A token that is no bracket goes into the innermost group. -/
theorem nestFrom_leaf (h : token.kind.bracket? = none) :
    nestFrom limit opened before (token :: tokens) =
      nestFrom limit opened (.leaf token :: before) tokens := by
  rw [nestFrom]
  split
  · simp_all [Kind.bracket?]
  · simp_all [Kind.bracket?]
  · rfl

/-- An opening bracket opens a group if the limit allows one more. -/
theorem nestFrom_opening (h : token.kind = .opening bracket) (hlimit : opened.length < limit) :
    nestFrom limit opened before (token :: tokens) =
      nestFrom limit (⟨bracket, token.span.start, before⟩ :: opened) [] tokens := by
  rw [nestFrom, h]
  exact if_neg (by omega)

/-- An opening bracket is a fault where the limit allows no more groups. -/
theorem nestFrom_tooDeep (h : token.kind = .opening bracket) (hlimit : limit ≤ opened.length) :
    nestFrom limit opened before (token :: tokens) =
      .error ⟨.nestingTooDeep limit, token.span.start⟩ := by
  rw [nestFrom, h]
  exact if_pos hlimit

/-- A closing bracket closes the innermost group if it is of the same kind. -/
theorem nestFrom_closing (h : token.kind = .closing group.bracket) :
    nestFrom limit (group :: outer) before (token :: tokens) =
      nestFrom limit outer (.group group.bracket before.reverse ⟨group.start, token.span.stop⟩ ::
        group.before) tokens := by
  rw [nestFrom, h]
  exact if_pos rfl

/-- A closing bracket of another kind is a fault, which names the one that is expected. -/
theorem nestFrom_mismatched (h : token.kind = .closing bracket) (hne : group.bracket ≠ bracket) :
    nestFrom limit (group :: outer) before (token :: tokens) =
      .error ⟨.mismatchedBracket group.bracket.closing token.text, token.span.start⟩ := by
  rw [nestFrom, h]
  exact if_neg hne

/-- A closing bracket is a fault where no group is open. -/
theorem nestFrom_unopened (h : token.kind = .closing bracket) :
    nestFrom limit [] before (token :: tokens) =
      .error ⟨.mismatchedBracket "no closing bracket" token.text, token.span.start⟩ := by
  rw [nestFrom, h]
  rfl

/-- The scan passes over well-nested tokens and adds their trees to those it has read. -/
theorem nestFrom_balanced {tokens : List (Token P)} {depth : Nat} (h : Balanced tokens depth) :
    ∃ trees, ∀ limit opened before rest, opened.length + depth ≤ limit →
      nestFrom limit opened before (tokens ++ rest) =
        nestFrom limit opened (trees ++ before) rest := by
  induction h with
  | nil => exact ⟨[], fun _ _ _ _ _ => rfl⟩
  | @leaf token tokens depth hleaf _ ih =>
    obtain ⟨trees, ih⟩ := ih
    refine ⟨trees ++ [.leaf token], fun limit opened before rest hlimit => ?_⟩
    rw [List.cons_append, nestFrom_leaf _ hleaf, ih _ _ _ rest hlimit, List.append_assoc]
    rfl
  | @group opening closing bracket inner tokens innerDepth depth hopening hclosing _ _ ihinner ih =>
    obtain ⟨children, ihinner⟩ := ihinner
    obtain ⟨trees, ih⟩ := ih
    let span : Span P := ⟨opening.span.start, closing.span.stop⟩
    let group : Tree P := .group bracket children.reverse span
    refine ⟨trees ++ [group], fun limit opened before rest hlimit => ?_⟩
    have hinner : opened.length + 1 + innerDepth ≤ limit := by omega
    rw [List.cons_append, List.append_assoc, List.cons_append,
      nestFrom_opening _ hopening (by omega), ihinner _ _ _ _ hinner, List.append_nil,
      nestFrom_closing _ hclosing, ih _ _ _ rest (by omega), List.append_assoc]
    rfl

/-! ## What was read -/

/-- How the tokens that were read are nested inside the groups that are open. -/
inductive Reads (limit : Nat) : List (Token P) → List (Opened P) → List (Tree P) → Prop
  | top {tokens : List (Token P)} {trees : List (Tree P)} :
    NestsTo limit tokens trees → Reads limit tokens [] trees.reverse
  | inside {tokens inner : List (Token P)} {opening : Token P} {bracket : Bracket}
      {outer : List (Opened P)} {before trees : List (Tree P)} :
    Reads limit tokens outer before → opening.kind = .opening bracket → outer.length + 1 ≤ limit →
    NestsTo (limit - (outer.length + 1)) inner trees →
    Reads limit (tokens ++ opening :: inner) (⟨bracket, opening.span.start, before⟩ :: outer)
      trees.reverse

namespace Reads
variable {limit : Nat} {tokens : List (Token P)} {opened outer : List (Opened P)}
  {before : List (Tree P)}

/-- Well-nested tokens are read into the innermost group. -/
theorem append {chunk : List (Token P)} {trees : List (Tree P)}
    (h : Reads limit tokens opened before) (hchunk : NestsTo (limit - opened.length) chunk trees) :
    Reads limit (tokens ++ chunk) opened (trees.reverse ++ before) := by
  cases h with
  | top htop =>
    rw [← List.reverse_append]
    exact .top (htop.append hchunk)
  | inside houter hopening hlimit hinner =>
    rw [← List.reverse_append, List.append_assoc, List.cons_append]
    exact .inside houter hopening hlimit (hinner.append hchunk)

/-- A token that is no bracket is read into the innermost group. -/
theorem leaf {token : Token P} (h : Reads limit tokens opened before)
    (hleaf : token.kind.bracket? = none) :
    Reads limit (tokens ++ [token]) opened (.leaf token :: before) :=
  h.append (.leaf hleaf _)

/-- An opening bracket is read as one more group that is open. -/
theorem opening {token : Token P} {bracket : Bracket} (h : Reads limit tokens opened before)
    (hopening : token.kind = .opening bracket) (hlimit : opened.length < limit) :
    Reads limit (tokens ++ [token]) (⟨bracket, token.span.start, before⟩ :: opened) [] := by
  rw [← List.reverse_nil]
  exact .inside h hopening hlimit (.nil _)

/-- A closing bracket of the kind of the innermost group is read as its end. -/
theorem closing {token : Token P} {group : Opened P}
    (h : Reads limit tokens (group :: outer) before) (hclosing : token.kind = .closing group.bracket) :
    Reads limit (tokens ++ [token]) outer
      (.group group.bracket before.reverse ⟨group.start, token.span.stop⟩ :: group.before) := by
  cases h with
  | @inside tokens inner opening bracket _ before trees houter hopening hlimit hinner =>
    have hroom : limit - (outer.length + 1) + 1 = limit - outer.length := by omega
    have hgroup := hinner.group hopening hclosing
    rw [hroom] at hgroup
    rw [List.reverse_reverse, List.append_assoc]
    exact houter.append hgroup

/-- What is open can be closed. -/
theorem extensible (h : Reads limit tokens opened before) : Extensible limit tokens := by
  induction opened generalizing tokens before with
  | nil =>
    cases h with
    | top htop => exact ⟨[], by rw [List.append_nil]; exact htop.balanced⟩
  | cons group outer ih =>
    cases h with
    | @inside tokens inner opening bracket _ before trees houter hopening hlimit hinner =>
      let closing : Token P := ⟨.closing bracket, bracket.closing, opening.span⟩
      have hclosing : closing.kind = .closing bracket := rfl
      obtain ⟨more, hmore⟩ := ih ((Reads.inside houter hopening hlimit hinner).closing hclosing)
      exact ⟨closing :: more, by rwa [List.append_assoc] at hmore⟩

/-- No more groups are open than the limit allows. -/
theorem length_le (h : Reads limit tokens opened before) : opened.length ≤ limit := by
  cases h with
  | top => exact limit.zero_le
  | inside _ _ hlimit _ => exact hlimit

/-- The groups that are open are those of the brackets that the tokens leave open. -/
theorem unclosed (h : Reads limit tokens opened before) : ∃ openings, Unclosed tokens openings ∧
    List.Forall₂ (fun (group : Opened P) (opening : Token P) =>
        opening.kind = .opening group.bracket ∧ opening.span.start = group.start)
      opened openings := by
  induction h with
  | top htop =>
    obtain ⟨depth, -, hbalanced⟩ := htop.balanced
    exact ⟨[], .nil hbalanced, .nil⟩
  | @inside tokens inner opening bracket outer before trees _ hopening _ hinner ih =>
    obtain ⟨openings, hunclosed, hsame⟩ := ih
    obtain ⟨depth, -, hbalanced⟩ := hinner.balanced
    exact ⟨opening :: openings, .cons hunclosed hopening hbalanced, .cons ⟨hopening, rfl⟩ hsame⟩

end Reads

/-! ## Runs of the scan -/

/-- The scan has read some tokens, and the groups in `opened` are open. -/
structure Reached (limit : Nat) (tokens : List (Token P)) (opened : List (Opened P))
    (before : List (Tree P)) : Prop where
  reads : Reads limit tokens opened before
  run : ∀ rest, nestFrom limit [] [] (tokens ++ rest) = nestFrom limit opened before rest

/-- Tokens that fail to nest are not well nested. -/
theorem not_balancedWithin {limit : Nat} {tokens : List (Token P)} {fault : Fault P}
    (h : nestFrom limit [] [] tokens = .error fault) : ¬ BalancedWithin limit tokens := by
  rintro ⟨depth, hdepth, hbalanced⟩
  obtain ⟨trees, hpass⟩ := nestFrom_balanced hbalanced
  have hrun := hpass limit [] [] [] (by simpa using hdepth)
  rw [List.append_nil, h] at hrun
  cases hrun

namespace Reached
variable {limit : Nat} {read : List (Token P)} {opened outer : List (Opened P)}
  {before : List (Tree P)} {token : Token P}

/-- A step of the scan reaches what the step makes of the groups that were open. -/
theorem step {opened' : List (Opened P)} {before' : List (Tree P)}
    (h : Reached limit read opened before) (hreads : Reads limit (read ++ [token]) opened' before')
    (hstep : ∀ rest, nestFrom limit opened before (token :: rest) =
      nestFrom limit opened' before' rest) : Reached limit (read ++ [token]) opened' before' :=
  ⟨hreads, fun rest => by rw [List.append_assoc, List.singleton_append, h.run, hstep]⟩

/-- Nothing can be added after a token at which the scan fails. -/
theorem not_extensible {fault : Fault P} (h : Reached limit read opened before)
    (hfail : ∀ rest, nestFrom limit opened before (token :: rest) = .error fault) :
    ¬ Extensible limit (read ++ [token]) := by
  rintro ⟨more, hmore⟩
  rw [List.append_assoc] at hmore
  have hrun : nestFrom limit [] [] (read ++ (token :: more)) = .error fault := by
    rw [h.run, hfail]
  exact not_balancedWithin hrun hmore

/-- An opening bracket where the limit allows no more groups is the fault that is to be found. -/
theorem tooDeep {bracket : Bracket} (h : Reached limit read opened before)
    (hopening : token.kind = .opening bracket) (hlimit : limit ≤ opened.length)
    (rest : List (Token P)) :
    NestFault limit (read ++ token :: rest) ⟨.nestingTooDeep limit, token.span.start⟩ := by
  obtain ⟨openings, hunclosed, hsame⟩ := h.reads.unclosed
  have hlength := hsame.length_eq
  have hle := h.reads.length_le
  exact .tooDeep rfl h.reads.extensible
    (h.not_extensible fun rest => nestFrom_tooDeep rest hopening hlimit) hopening hunclosed
    (by omega)

/-- A closing bracket where no group is open is the fault that is to be found. -/
theorem unopened {bracket : Bracket} (h : Reached limit read [] before)
    (hclosing : token.kind = .closing bracket) (rest : List (Token P)) :
    NestFault limit (read ++ token :: rest)
      ⟨.mismatchedBracket "no closing bracket" token.text, token.span.start⟩ := by
  obtain ⟨openings, hunclosed, ⟨⟩⟩ := h.reads.unclosed
  exact .unopened rfl h.reads.extensible
    (h.not_extensible fun rest => nestFrom_unopened rest hclosing) hclosing hunclosed

/-- A closing bracket of another kind is the fault that is to be found. -/
theorem mismatched {group : Opened P} {bracket : Bracket}
    (h : Reached limit read (group :: outer) before) (hclosing : token.kind = .closing bracket)
    (hne : group.bracket ≠ bracket) (rest : List (Token P)) :
    NestFault limit (read ++ token :: rest)
      ⟨.mismatchedBracket group.bracket.closing token.text, token.span.start⟩ := by
  obtain ⟨_, hunclosed, hsame⟩ := h.reads.unclosed
  cases hsame with
  | cons hfirst _ =>
    exact .mismatched rfl h.reads.extensible
      (h.not_extensible fun rest => nestFrom_mismatched rest hclosing hne) hclosing hunclosed
      hfirst.1 hne

/-- At the end, the innermost group that is open is the fault that is to be found. -/
theorem unclosed {group : Opened P} (h : Reached limit read (group :: outer) before) :
    NestFault limit read ⟨.unclosedBracket group.bracket.opening, group.start⟩ := by
  obtain ⟨_, hunclosed, hsame⟩ := h.reads.unclosed
  cases hsame with
  | cons hfirst _ =>
    rw [← hfirst.2]
    exact .unclosed h.reads.extensible hunclosed hfirst.1

/-- The scan of the tokens that remain ends with the trees of all tokens, or with what is wrong with
their brackets. -/
theorem result : ∀ (rest : List (Token P)) {read : List (Token P)} {opened : List (Opened P)}
    {before : List (Tree P)}, Reached limit read opened before →
      match nestFrom limit opened before rest with
      | .ok trees => NestsTo limit (read ++ rest) trees
      | .error fault => NestFault limit (read ++ rest) fault
  | [], read, [], before, h => by
    obtain ⟨htop⟩ := h.reads
    rw [List.append_nil, nestFrom, List.reverse_reverse]
    exact htop
  | [], read, group :: outer, before, h => by
    rw [List.append_nil, nestFrom]
    exact h.unclosed
  | token :: rest, read, opened, before, h => by
    have happend : read ++ token :: rest = (read ++ [token]) ++ rest := by simp
    rcases token.kind.bracket_cases with hleaf | ⟨bracket, hopening⟩ | ⟨bracket, hclosing⟩
    · rw [nestFrom_leaf rest hleaf, happend]
      exact result rest (h.step (h.reads.leaf hleaf) fun rest => nestFrom_leaf rest hleaf)
    · rcases Nat.lt_or_ge opened.length limit with hlimit | hlimit
      · rw [nestFrom_opening rest hopening hlimit, happend]
        exact result rest (h.step (h.reads.opening hopening hlimit) fun rest =>
          nestFrom_opening rest hopening hlimit)
      · rw [nestFrom_tooDeep rest hopening hlimit]
        exact h.tooDeep hopening hlimit rest
    · cases opened with
      | nil =>
        rw [nestFrom_unopened rest hclosing]
        exact h.unopened hclosing rest
      | cons group outer =>
        by_cases hb : group.bracket = bracket
        · subst hb
          rw [nestFrom_closing rest hclosing, happend]
          exact result rest (h.step (h.reads.closing hclosing) fun rest =>
            nestFrom_closing rest hclosing)
        · rw [nestFrom_mismatched rest hclosing hb]
          exact h.mismatched hclosing hb rest

end Reached

/-- What the scan of all tokens ends with. -/
theorem nestFrom_result (limit : Nat) (tokens : List (Token P)) :
    match nestFrom limit [] [] tokens with
    | .ok trees => NestsTo limit tokens trees
    | .error fault => NestFault limit tokens fault := by
  have hstart : Reached limit ([] : List (Token P)) [] [] := ⟨.top (.nil limit), fun _ => rfl⟩
  simpa using hstart.result tokens

end Nesting

/-- Tokens nest to the trees that nesting comes to. -/
theorem nestsTo_of_nest {limit : Nat} {origin : P} {tokens : List (Token P)} {region : Region P}
    (h : nest limit origin tokens = .ok region) : NestsTo limit tokens region.trees := by
  obtain ⟨trees, hscan, rfl⟩ := Outcome.map_eq_ok.1 h
  have hresult := Nesting.nestFrom_result limit tokens
  rw [hscan] at hresult
  exact hresult

/-- Tokens are nested exactly if their brackets are well nested within the limit, and then the trees
are made of all of them in order. Otherwise the fault says what is wrong with the brackets. -/
theorem nest_balanced (limit : Nat) (origin : P) (tokens : List (Token P)) :
    ((∃ region, nest limit origin tokens = .ok region) ↔ BalancedWithin limit tokens) ∧
      match nest limit origin tokens with
      | .ok region => Tree.allMarks region.trees = tokens.map Token.mark
      | .error fault => NestFault limit tokens fault := by
  have hresult := Nesting.nestFrom_result limit tokens
  rw [nest]
  cases hscan : Nesting.nestFrom limit [] [] tokens with
  | ok trees =>
    rw [hscan] at hresult
    exact ⟨⟨fun _ => hresult.balanced, fun _ => ⟨_, rfl⟩⟩, hresult.marks⟩
  | error fault =>
    rw [hscan] at hresult
    refine ⟨⟨?_, fun hbalanced => ?_⟩, hresult⟩
    · rintro ⟨region, h⟩
      cases h
    · exact absurd hbalanced (Nesting.not_balancedWithin hscan)

end LetWhile
