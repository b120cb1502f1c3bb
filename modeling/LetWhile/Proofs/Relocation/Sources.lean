import LetWhile.Proofs.Relocation.Anchors
import LetWhile.Proofs.Scanning.Coverage
import Mathlib

/-!
# Sources laid out differently

White space and comments decide where tokens stand and nothing else, so sources with the same tokens
are read and checked alike (`Source.layout_irrelevant`).
-/

namespace LetWhile

/-- A source with some tokens spells the program that these spell. -/
theorem Source.program_eq {source : Source} {tokens : List (Token Position)}
    (h : source.tokens = .ok tokens) (limit : Nat) :
    source.program limit = Block.ofTokens limit (source.place 0) tokens := by
  rw [Source.program, h]
  rfl

/-- Two sources whose tokens have the same kinds and texts in the same order are both well typed or
both not. In the first case they spell the same program up to its places, which returns the same
types and declares the same names. In the second they have faults of the same cause, at the same end
of the token at the same index, or at their beginnings if they have no tokens. -/
theorem Source.layout_irrelevant {source other : Source} {tokens found : List (Token Position)}
    (limit : Nat) (h : source.tokens = .ok tokens) (hother : other.tokens = .ok found)
    (hsame : tokens.map Token.spelling = found.map Token.spelling) :
    match source.checkWithin limit, other.checkWithin limit with
    | .ok checked, .ok others =>
      checked.program.map nowhere = others.program.map nowhere ∧
        checked.returns = others.returns ∧ checked.session = others.session
    | .error fault, .error others =>
      fault.cause = others.cause ∧
        Token.Corresponds (source.place 0) tokens (other.place 0) found fault.pos others.pos
    | _, _ => False := by
  obtain ⟨A, f, g, outcome, hcorresponds, hprogram, hprogram'⟩ :=
    Block.ofTokens_corresponds limit (source.place 0) (other.place 0) hsame
  unfold Source.checkWithin
  rw [Source.program_eq h, Source.program_eq hother, hprogram, hprogram']
  cases outcome with
  | error fault => exact ⟨rfl, hcorresponds fault.pos⟩
  | ok program =>
    have hrun := Session.run_relocate f Session.builtin program
    have hrun' := Session.run_relocate g Session.builtin program
    simp only [Outcome.relocate_ok, bind, Except.bind, hrun, hrun']
    cases (Session.builtin.run program).2 with
    | error fault => exact ⟨rfl, hcorresponds fault.pos⟩
    | ok returns => exact ⟨by rw [Block.map_map, Block.map_map]; rfl, rfl, rfl⟩

/-- A name that nothing declares, without and with a comment and a space. -/
theorem Source.layout_irrelevant_spaced :
    let plain : Source := ⟨"x;", "demo.let"⟩
    let tokens : List (Token Position) :=
      [⟨.identifier, "x", ⟨plain.place 0, plain.place 1⟩⟩,
        ⟨.semicolon, ";", ⟨plain.place 1, plain.place 2⟩⟩]
    let found : List (Token Position) :=
      [⟨.identifier, "x", ⟨Source.spaced.place 6, Source.spaced.place 7⟩⟩,
        ⟨.semicolon, ";", ⟨Source.spaced.place 9, Source.spaced.place 10⟩⟩]
    plain.tokens = .ok tokens ∧ Source.spaced.tokens = .ok found ∧
      ∃ fault others, plain.checkWithin 4 = .error fault ∧
        Source.spaced.checkWithin 4 = .error others ∧ fault.cause = others.cause ∧
        Token.Corresponds (plain.place 0) tokens (Source.spaced.place 0) found
          fault.pos others.pos := by
  intro plain tokens found
  have htokens : plain.tokens = .ok tokens := by decide +kernel
  have hfound : Source.spaced.tokens = .ok found := by decide +kernel
  have hsame : tokens.map Token.spelling = found.map Token.spelling := rfl
  have hcheck : plain.checkWithin 4 = .error ⟨.notDeclared "x", plain.place 0⟩ := by
    unfold Source.checkWithin
    rw [Source.program_eq htokens]
    cbv
  have hspaced : Source.spaced.checkWithin 4 = .error ⟨.notDeclared "x", Source.spaced.place 6⟩ := by
    unfold Source.checkWithin
    rw [Source.program_eq hfound]
    cbv
  have h := Source.layout_irrelevant 4 htokens hfound hsame
  rw [hcheck, hspaced] at h
  exact ⟨htokens, hfound, _, _, hcheck, hspaced, h⟩

end LetWhile
