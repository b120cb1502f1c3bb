import LetWhile.Proofs.Relocation.Trees
import LetWhile.Token.Scan

/-!
# Scanning written text

`Scans` says which tokens a text is scanned as, wherever it begins. A text that is written piece by
piece is scanned piece by piece, if no lexeme goes on from one piece into the next: some pieces are
scanned alike whatever follows (`Opens`), such as punctuation, and words and operators where a
boundary follows (`Writes`).
-/

namespace LetWhile

open Text (isBlank isWordChar)
open Lexeme (isNameChar isOperatorChar)

/-! ## Tokens without places -/

/-- A token that stands nowhere. -/
def Token.placeless (kind : Kind) (text : String) : Token Unit := ⟨kind, text, ⟨(), ()⟩⟩

/-- A text is scanned as some tokens. -/
inductive Scans : List Char → List (Token Unit) → Prop
  | nil : Scans [] []
  | skip {cs : List Char} {lexeme : Lexeme} {tokens : List (Token Unit)} :
    lexeme? cs = some lexeme → lexeme.kind? = none → Scans (cs.drop lexeme.length) tokens →
    Scans cs tokens
  | token {cs : List Char} {lexeme : Lexeme} {kind : Kind} {tokens : List (Token Unit)} :
    lexeme? cs = some lexeme → lexeme.kind? = some kind → Scans (cs.drop lexeme.length) tokens →
    Scans cs (.placeless kind (String.ofList (cs.take lexeme.length)) :: tokens)

/-- What a text is scanned as does not depend on where it begins. -/
theorem Scans.scanFrom {cs : List Char} {tokens : List (Token Unit)} (h : Scans cs tokens)
    (offset : Nat) : ∃ found, Token.scanFrom offset cs = .ok found ∧
      found.map (Token.map nowhere) = tokens := by
  induction h generalizing offset with
  | nil =>
    refine ⟨[], ?_, rfl⟩
    rw [Token.scanFrom]
  | @skip cs lexeme tokens hl hk _ ih =>
    obtain ⟨found, hfound, hmap⟩ := ih (offset + Text.utf8Size (cs.take lexeme.length))
    exact ⟨found, (Token.scanFrom_skip hl hk).trans hfound, hmap⟩
  | @token cs lexeme kind tokens hl hk _ ih =>
    obtain ⟨found, hfound, hmap⟩ := ih (offset + Text.utf8Size (cs.take lexeme.length))
    refine ⟨_, (Token.scanFrom_token hl hk).trans (congrArg _ hfound), ?_⟩
    rw [List.map_cons, hmap]
    rfl

/-! ## Pieces -/

/-- What neither a word nor an operator goes on into. -/
def Boundary : List Char → Prop
  | [] => True
  | c :: _ => isWordChar c = false ∧ isOperatorChar c = false

/-- A text that is scanned as the given tokens whatever follows. -/
def Opens (text : List Char) (tokens : List (Token Unit)) : Prop :=
  ∀ rest more, Scans rest more → Scans (text ++ rest) (tokens ++ more)

/-- A text that is scanned as the given tokens where a boundary follows. -/
def Writes (text : List Char) (tokens : List (Token Unit)) : Prop :=
  ∀ rest more, Boundary rest → Scans rest more → Scans (text ++ rest) (tokens ++ more)

/-- A text that begins with a boundary. -/
def Bounds (text : List Char) : Prop := ∀ rest, Boundary (text ++ rest)

section
variable {text text' : List Char} {tokens tokens' : List (Token Unit)}

/-- What is scanned alike whatever follows is so where a boundary follows. -/
theorem Opens.writes (h : Opens text tokens) : Writes text tokens :=
  fun rest more _ hrest => h rest more hrest

/-- Texts that are scanned alike whatever follows are so one after another. -/
theorem Opens.append (h : Opens text tokens) (h' : Opens text' tokens') :
    Opens (text ++ text') (tokens ++ tokens') := by
  intro rest more hrest
  rw [List.append_assoc, List.append_assoc]
  exact h _ _ (h' rest more hrest)

/-- A text that is scanned alike whatever follows may stand in front of one that needs a
boundary. -/
theorem Opens.append_writes (h : Opens text tokens) (h' : Writes text' tokens') :
    Writes (text ++ text') (tokens ++ tokens') := by
  intro rest more hb hrest
  rw [List.append_assoc, List.append_assoc]
  exact h _ _ (h' rest more hb hrest)

/-- A text that needs a boundary may stand in front of one that begins with a boundary. -/
theorem Writes.append (h : Writes text tokens) (h' : Opens text' tokens') (hb : Bounds text') :
    Opens (text ++ text') (tokens ++ tokens') := by
  intro rest more hrest
  rw [List.append_assoc, List.append_assoc]
  exact h _ _ (hb rest) (h' rest more hrest)

/-- The empty text is scanned as no tokens. -/
theorem Opens.nil : Opens [] [] := fun _ _ h => h

/-- A text that is scanned to its end. -/
theorem Writes.scans (h : Writes text tokens) : Scans text tokens := by
  have := h [] [] trivial .nil
  rwa [List.append_nil, List.append_nil] at this

end

/-! ## Rules -/

namespace Rule

/-- The first rule that takes something decides. -/
theorem first?_append {cs : List Char} {skipped others : List Rule} {rule : Rule} {n : Nat}
    (hskip : ∀ other ∈ skipped, other.take cs = 0) (htake : rule.take cs = n) (hn : 0 < n) :
    first? cs (skipped ++ rule :: others) = some ⟨rule.kind?, n, hn⟩ := by
  induction skipped with
  | nil =>
    subst htake
    rw [List.nil_append, first?, dif_pos hn]
  | cons other skipped ih =>
    obtain ⟨hother, hskip⟩ := List.forall_mem_cons.1 hskip
    rw [List.cons_append, first?, dif_neg (by omega)]
    exact ih hskip

end Rule

end LetWhile
