import LetWhile.Proofs.Printing.Lexemes
import Mathlib.Data.List.Forall2

/-!
# Written text that forms trees

A text forms trees if it is scanned as tokens that nest to them. As with scanning, a text may do so
wherever it stands (`FormsOpen`) or where a boundary follows (`Forms`), and texts that are put
together form the trees put together; brackets around a text form a group.
-/

namespace LetWhile

/-! ## Nesting piece by piece -/

/-- Tokens that nest to the given trees inside any open groups, if the limit allows as many groups
again as there are tokens. -/
def Nests (tokens : List (Token Unit)) (trees : List (Tree Unit)) : Prop :=
  ∀ limit (opened : List (Nesting.Opened Unit)) before rest,
    opened.length + tokens.length ≤ limit →
    Nesting.nestFrom limit opened before (tokens ++ rest) =
      Nesting.nestFrom limit opened (trees.reverse ++ before) rest

/-- No tokens nest to no trees. -/
theorem Nests.nil : Nests [] [] := fun _ _ _ _ _ => rfl

/-- Tokens that nest one after another nest to the trees of both. -/
theorem Nests.append {tokens tokens' : List (Token Unit)} {trees trees' : List (Tree Unit)}
    (h : Nests tokens trees) (h' : Nests tokens' trees') :
    Nests (tokens ++ tokens') (trees ++ trees') := by
  intro limit opened before rest hlimit
  rw [List.length_append] at hlimit
  rw [List.append_assoc, h limit opened before _ (by omega), h' limit opened _ rest (by omega),
    List.reverse_append, List.append_assoc]

/-- A kind of token that is no bracket. -/
def Kind.IsLeaf : Kind → Prop
  | opening _ | closing _ => False
  | _ => True

/-- A token that is no bracket nests to a leaf. -/
theorem Nests.leaf {token : Token Unit} (h : token.kind.IsLeaf) :
    Nests [token] [.leaf token] := by
  intro limit opened before rest _
  rw [List.singleton_append, Nesting.nestFrom]
  cases hk : token.kind with
  | opening bracket =>
    rw [hk] at h
    exact h.elim
  | closing bracket =>
    rw [hk] at h
    exact h.elim
  | _ => rfl

/-- Tokens between brackets nest to a group. -/
theorem Nests.group (bracket : Bracket) {tokens : List (Token Unit)} {trees : List (Tree Unit)}
    (h : Nests tokens trees) : Nests
      (.placeless (.opening bracket) bracket.opening :: tokens ++
        [.placeless (.closing bracket) bracket.closing])
      [.group bracket trees ⟨(), ()⟩] := by
  intro limit opened before rest hlimit
  simp only [List.length_append, List.length_cons, List.length_nil] at hlimit
  rw [List.append_assoc, List.cons_append, Nesting.nestFrom]
  simp only [Token.placeless]
  rw [if_neg (by omega), h limit _ _ _ (by simp only [List.length_cons]; omega),
    List.append_nil, List.singleton_append, Nesting.nestFrom]
  simp

/-- Tokens that nest to some trees inside any groups do so on their own. -/
theorem Nests.nest {tokens : List (Token Unit)} {trees : List (Tree Unit)} (h : Nests tokens trees)
    {limit : Nat} (hlimit : tokens.length ≤ limit) :
    nest limit () tokens = .ok ⟨trees, Nesting.spanOf () tokens⟩ := by
  have hrun := h limit [] [] [] (by simpa using hlimit)
  rw [List.append_nil, List.append_nil] at hrun
  rw [LetWhile.nest, hrun, Nesting.nestFrom, List.reverse_reverse]
  rfl

/-! ## Forms -/

/-- A text that forms trees whatever follows. -/
def FormsOpen (text : List Char) (trees : List (Tree Unit)) : Prop :=
  ∃ tokens, Opens text tokens ∧ Nests tokens trees

/-- A text that forms trees where a boundary follows. -/
def Forms (text : List Char) (trees : List (Tree Unit)) : Prop :=
  ∃ tokens, Writes text tokens ∧ Nests tokens trees

section
variable {text text' : List Char} {trees trees' : List (Tree Unit)}

/-- What forms trees whatever follows forms them where a boundary follows. -/
theorem FormsOpen.forms (h : FormsOpen text trees) : Forms text trees := by
  obtain ⟨tokens, htext, htrees⟩ := h
  exact ⟨tokens, htext.writes, htrees⟩

/-- The empty text forms no trees. -/
theorem FormsOpen.nil : FormsOpen [] [] := ⟨[], .nil, .nil⟩

/-- Texts that do not care what follows form their trees one after another. -/
theorem FormsOpen.append (h : FormsOpen text trees) (h' : FormsOpen text' trees') :
    FormsOpen (text ++ text') (trees ++ trees') := by
  obtain ⟨tokens, htext, htrees⟩ := h
  obtain ⟨tokens', htext', htrees'⟩ := h'
  exact ⟨tokens ++ tokens', htext.append htext', htrees.append htrees'⟩

/-- A text that does not care what follows may stand in front of one that does. -/
theorem FormsOpen.append_forms (h : FormsOpen text trees) (h' : Forms text' trees') :
    Forms (text ++ text') (trees ++ trees') := by
  obtain ⟨tokens, htext, htrees⟩ := h
  obtain ⟨tokens', htext', htrees'⟩ := h'
  exact ⟨tokens ++ tokens', htext.append_writes htext', htrees.append htrees'⟩

/-- A text that needs a boundary behind it may stand in front of one that begins with a boundary. -/
theorem Forms.append (h : Forms text trees) (h' : FormsOpen text' trees') (hb : Bounds text') :
    FormsOpen (text ++ text') (trees ++ trees') := by
  obtain ⟨tokens, htext, htrees⟩ := h
  obtain ⟨tokens', htext', htrees'⟩ := h'
  exact ⟨tokens ++ tokens', htext.append htext' hb, htrees.append htrees'⟩

end

/-- A blank forms no tree. -/
theorem FormsOpen.blank : FormsOpen [' '] [] := ⟨[], .blank, .nil⟩

/-- A leaf that stands nowhere. -/
def Tree.placeless (kind : Kind) (text : String) : Tree Unit := .leaf (.placeless kind text)

/-- A text that is scanned as a token that is no bracket forms a leaf. -/
theorem Forms.leaf {kind : Kind} {text : String} (h : Writes text.toList [.placeless kind text])
    (hk : kind.IsLeaf) : Forms text.toList [.placeless kind text] :=
  ⟨_, h, .leaf hk⟩

/-- A text that is scanned as such a token whatever follows forms a leaf whatever follows. -/
theorem FormsOpen.leaf {kind : Kind} {text : String}
    (h : Opens text.toList [.placeless kind text]) (hk : kind.IsLeaf) :
    FormsOpen text.toList [.placeless kind text] :=
  ⟨_, h, .leaf hk⟩

/-- The group of trees in brackets that stands nowhere. -/
def Tree.within (bracket : Bracket) (trees : List (Tree Unit)) : Tree Unit :=
  .group bracket trees ⟨(), ()⟩

/-- A text is a boundary if no word and no operator goes on with its first character. -/
theorem Bounds.of_cons {c : Char} {cs : List Char}
    (h : Text.isWordChar c = false ∧ Lexeme.isOperatorChar c = false) : Bounds (c :: cs) :=
  fun _ => h

/-- Brackets around a text are scanned around its tokens. -/
theorem Opens.within (bracket : Bracket) {text : List Char} {tokens : List (Token Unit)}
    (h : Writes text tokens) :
    Opens (bracket.opening.toList ++ text ++ bracket.closing.toList)
      (.placeless (.opening bracket) bracket.opening :: tokens ++
        [.placeless (.closing bracket) bracket.closing]) := by
  have hopening : Opens bracket.opening.toList [.placeless (.opening bracket) bracket.opening] := by
    cases bracket with
    | paren => exact Opens.mark (.opening .paren) "(" (by decide)
    | brace => exact Opens.mark (.opening .brace) "\x7b" (by decide)
  have hclosing : Opens bracket.closing.toList [.placeless (.closing bracket) bracket.closing] := by
    cases bracket with
    | paren => exact Opens.mark (.closing .paren) ")" (by decide)
    | brace => exact Opens.mark (.closing .brace) "\x7d" (by decide)
  have hbounds : Bounds bracket.closing.toList := by
    cases bracket <;> exact .of_cons (by decide)
  rw [List.append_assoc]
  exact hopening.append (h.append hclosing hbounds)

/-- A text between brackets forms a group of the trees that it forms by itself. -/
theorem FormsOpen.within (bracket : Bracket) {text : List Char} {trees : List (Tree Unit)}
    (h : Forms text trees) :
    FormsOpen (bracket.opening.toList ++ text ++ bracket.closing.toList)
      [.within bracket trees] := by
  obtain ⟨tokens, htext, htrees⟩ := h
  exact ⟨_, .within bracket htext, htrees.group bracket⟩

/-! ## Lists -/

/-- Trees separated by commas. -/
def Tree.commas (parts : List (List (Tree Unit))) : List (Tree Unit) :=
  [Tree.placeless .comma ","].intercalate parts

/-- Texts with commas and blanks between them form their trees with commas between them. -/
theorem Forms.commas {texts : List String} {parts : List (List (Tree Unit))}
    (h : List.Forall₂ (fun text part => Forms text.toList part) texts parts) :
    Forms (", ".intercalate texts).toList (Tree.commas parts) := by
  have hcomma : FormsOpen [',', ' '] [.placeless .comma ","] :=
    (FormsOpen.leaf (Opens.mark .comma "," (by decide)) trivial).append .blank
  induction h with
  | nil => exact FormsOpen.nil.forms
  | @cons text part texts parts hfirst hrest ih =>
    cases hrest with
    | nil => simpa [Tree.commas, List.intercalate] using hfirst
    | @cons text' part' texts parts =>
      rw [String.intercalate_cons_cons, String.toList_append, String.toList_append]
      have htrees : Tree.commas (part :: part' :: parts) =
          (part ++ [.placeless .comma ","]) ++ Tree.commas (part' :: parts) := by
        simp [Tree.commas, List.intercalate]
      rw [htrees]
      exact (hfirst.append hcomma (.of_cons (by decide))).append_forms ih

end LetWhile
