import LetWhile.Proofs.Relocation.Checks
import LetWhile.Source
import Mathlib.Data.List.OfFn

/-!
# Ends of tokens

Reading and checking make up no positions: a position in a program, or of a fault, is an end of one
of the tokens that were read (`Anchor`). So lists of tokens with the same kinds and texts have the
same outcome, with each position at the same end of the token at the same index
(`Block.ofTokens_corresponds`).
-/

namespace LetWhile

variable {P Q : Type}

/-- The kind and the text of a token. -/
def Token.spelling (token : Token P) : Kind × String := (token.kind, token.text)

/-! ## Anchors -/

/-- An end of one of `n` tokens, or the origin where there is no token. -/
inductive Anchor (n : Nat)
  | origin (empty : n = 0)
  | start (index : Fin n)
  | stop (index : Fin n)

namespace Anchor
variable {n : Nat}

/-- The first of all anchors. -/
def first : (n : Nat) → Anchor n
  | 0 => .origin rfl
  | _ + 1 => .start 0

/-- The position of an anchor, given the tokens. -/
def place (origin : P) (tokens : Fin n → Token P) : Anchor n → P
  | .origin _ => origin
  | .start index => (tokens index).span.start
  | .stop index => (tokens index).span.stop

/-- The tokens with the given kinds and texts, each standing at its own ends. -/
def tokens (spelling : Fin n → Kind × String) : List (Token (Anchor n)) :=
  List.ofFn fun index =>
    ⟨(spelling index).1, (spelling index).2, ⟨.start index, .stop index⟩⟩

/-- Tokens are found where their anchors are placed. -/
theorem map_tokens (origin : P) (found : Fin n → Token P) :
    (tokens fun index => (found index).spelling).map (Token.map (place origin found)) =
      List.ofFn found := by
  rw [tokens, List.map_ofFn]
  rfl

end Anchor

/-- The origin locates a program of no tokens only. -/
theorem nest_origin (limit : Nat) (origin other : P) {tokens : List (Token P)} (h : tokens ≠ []) :
    nest limit origin tokens = nest limit other tokens := by
  have hspan : Nesting.spanOf origin tokens = Nesting.spanOf other tokens := by
    unfold Nesting.spanOf
    rw [List.head?_eq_some_head h, List.getLast?_eq_some_getLast h]
  rw [nest, nest, hspan]

/-- What tokens spell is what their anchors spell, placed where the tokens are. -/
theorem Block.ofTokens_anchors {n : Nat} (limit : Nat) (origin : P) (found : Fin n → Token P) :
    Block.ofTokens limit origin (List.ofFn found) =
      (Block.ofTokens limit (Anchor.first n)
        (Anchor.tokens fun index => (found index).spelling)).relocate
          (Anchor.place origin found) (Block.map (Anchor.place origin found)) := by
  rw [Block.ofTokens_relocate, Anchor.map_tokens]
  cases n with
  | zero => rfl
  | succ n =>
    have hne : List.ofFn found ≠ [] := by simp [List.ofFn_succ]
    rw [Block.ofTokens, Block.ofTokens, nest_origin limit origin _ hne]

/-! ## Corresponding positions -/

/-- Positions are the same end of the tokens at one index of two lists, or the origins of two lists
without tokens. -/
inductive Token.Corresponds (origin : P) (tokens : List (Token P)) (origin' : Q)
    (tokens' : List (Token Q)) : P → Q → Prop
  | origin : tokens = [] → tokens' = [] → Corresponds origin tokens origin' tokens' origin origin'
  | start {index : Nat} {token : Token P} {token' : Token Q} :
    tokens[index]? = some token → tokens'[index]? = some token' →
    Corresponds origin tokens origin' tokens' token.span.start token'.span.start
  | stop {index : Nat} {token : Token P} {token' : Token Q} :
    tokens[index]? = some token → tokens'[index]? = some token' →
    Corresponds origin tokens origin' tokens' token.span.stop token'.span.stop

/-- An anchor has corresponding places in two lists of as many tokens. -/
theorem Anchor.place_corresponds {n : Nat} (origin : P) (tokens : Fin n → Token P) (origin' : Q)
    (tokens' : Fin n → Token Q) (anchor : Anchor n) :
    Token.Corresponds origin (List.ofFn tokens) origin' (List.ofFn tokens')
      (anchor.place origin tokens) (anchor.place origin' tokens') := by
  have hget {R : Type} (tokens : Fin n → Token R) (index : Fin n) :
      (List.ofFn tokens)[index.val]? = some (tokens index) := by simp
  cases anchor with
  | origin empty =>
    exact .origin (List.length_eq_zero_iff.1 (by rw [List.length_ofFn, empty]))
      (List.length_eq_zero_iff.1 (by rw [List.length_ofFn, empty]))
  | start index => exact .start (hget tokens index) (hget tokens' index)
  | stop index => exact .stop (hget tokens index) (hget tokens' index)

/-- Lists of tokens with the same kinds and texts spell the same, and positions in what they spell
correspond. -/
theorem Block.ofTokens_corresponds (limit : Nat) (origin : P) (origin' : Q)
    {tokens : List (Token P)} {tokens' : List (Token Q)}
    (h : tokens.map Token.spelling = tokens'.map Token.spelling) :
    ∃ (A : Type) (f : A → P) (g : A → Q) (outcome : Outcome A (Block A)),
      (∀ a, Token.Corresponds origin tokens origin' tokens' (f a) (g a)) ∧
      Block.ofTokens limit origin tokens = outcome.relocate f (Block.map f) ∧
      Block.ofTokens limit origin' tokens' = outcome.relocate g (Block.map g) := by
  have hlength : tokens.length = tokens'.length := by simpa using congrArg List.length h
  let found := tokens.get
  let found' (index : Fin tokens.length) := tokens'.get (index.cast hlength)
  have htokens : List.ofFn found = tokens := List.ofFn_get tokens
  have htokens' : List.ofFn found' = tokens' := by
    rw [← List.ofFn_congr hlength.symm, List.ofFn_get]
  have hspelling : (fun index => (found' index).spelling) = fun index => (found index).spelling := by
    funext index
    have hindex : index.val < (tokens.map Token.spelling).length := by simp
    simpa [found, found'] using (List.getElem_of_eq h hindex).symm
  have hcorresponds := Anchor.place_corresponds origin found origin' found'
  have hanchors := Block.ofTokens_anchors limit origin found
  have hanchors' := Block.ofTokens_anchors limit origin' found'
  rw [htokens] at hcorresponds hanchors
  rw [htokens'] at hcorresponds hanchors'
  rw [hspelling] at hanchors'
  exact ⟨_, _, _, _, hcorresponds, hanchors, hanchors'⟩

end LetWhile
