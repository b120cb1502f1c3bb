import LetWhile.Proofs.Scanning.Excerpts
import LetWhile.Proofs.Scanning.Rescanned

/-!
# Comments between tokens

A comment that ends with its line is trivia, whatever stands around it. Put in where a token starts
or stops, it is passed over and the tokens stay the same, unless an operator stops there: operators
go on as long as there are operator characters, and the slashes of the comment are such. This is
`Source.tokens_insert_comment`.
-/

namespace LetWhile

open Text (isBlank isWordChar Trivia LineEnds utf8Size)

variable {P : Type}

/-! ## What a text is scanned as -/

/-- Trivia in front of a text makes no tokens. -/
theorem Text.Trivia.scans {after gap : List Char} {tokens : List (Token Unit)}
    (h : Trivia after gap) (hafter : Scans after tokens) : Scans (gap ++ after) tokens := by
  induction h with
  | nil => exact hafter
  | blank hc _ ih => exact Opens.blanks (List.forall_mem_singleton.2 hc) _ _ ih
  | @comment body cs hbody hends _ ih =>
    have hsplit : '/' :: '/' :: (body ++ cs) ++ after = '/' :: '/' :: body ++ (cs ++ after) := by
      simp
    rw [hsplit]
    refine .skip (lexeme?_comment hbody hends) rfl ?_
    rwa [List.drop_left]

/-- A laid out text is scanned as the tokens in it. -/
theorem Token.Layout.scans {offset : Nat} {cs : List Char} {tokens : List (Token Nat)}
    (h : Layout offset cs tokens) : Scans cs (tokens.map (Token.map nowhere)) := by
  induction h with
  | @done _ gap hgap =>
    rw [← gap.append_nil]
    exact hgap.scans .nil
  | token hgap hl hk _ _ _ ih => exact hgap.scans (.token hl hk ih)

namespace Scans
variable {cs : List Char} {tokens : List (Token Unit)}

/-- What a text is scanned as is what its tokens are, wherever it begins. -/
theorem iff_scanFrom (offset : Nat) : Scans cs tokens ↔
    ∃ found, Token.scanFrom offset cs = .ok found ∧ found.map (Token.map nowhere) = tokens := by
  refine ⟨fun h => h.scanFrom offset, ?_⟩
  rintro ⟨found, hfound, rfl⟩
  exact (Token.layout_of_scanFrom offset cs found hfound).scans

/-- Trivia in front of a text do not change what it is scanned as. -/
theorem trivia_iff {gap : List Char} (h : Trivia cs gap) :
    Scans (gap ++ cs) tokens ↔ Scans cs tokens := by
  rw [iff_scanFrom 0, Token.scanFrom_trivia h, ← iff_scanFrom]

/-- Behind the text of a token that ends there, a text is scanned as it is by itself. -/
theorem owned_iff {kind : Kind} {text : String} (h : kind.Owns text)
    (hends : kind.EndsBefore cs) :
    Scans (text.toList ++ cs) (.placeless kind text :: tokens) ↔ Scans cs tokens := by
  refine ⟨fun hscans => ?_, fun hscans => h.scans hends hscans⟩
  have hl := h.lexeme cs hends
  obtain ⟨found, hfound, hmap⟩ := (iff_scanFrom 0).1 hscans
  rw [Token.scanFrom_token hl rfl] at hfound
  obtain ⟨more, hmore, rfl⟩ := Outcome.map_eq_ok.1 hfound
  simp only [← String.length_toList, List.drop_left] at hmore
  exact (iff_scanFrom _).2 ⟨more, hmore, (List.cons.inj hmap).2⟩

end Scans

/-- A text is scanned in one way only. -/
theorem Scans.unique {cs : List Char} {tokens others : List (Token Unit)} (h : Scans cs tokens)
    (h' : Scans cs others) : tokens = others := by
  obtain ⟨found, hfound, rfl⟩ := h.scanFrom 0
  obtain ⟨more, hmore, rfl⟩ := h'.scanFrom 0
  cases hfound.symm.trans hmore
  rfl

/-! ## Comments -/

/-- A comment up to the end of its line. -/
def Text.commentLine (body : String) : String := "//" ++ body ++ "\n"

section
variable {body : String} {rest : List Char}

/-- A comment line is two slashes, its text and a line feed. -/
theorem Text.toList_commentLine (body : String) :
    (commentLine body).toList = '/' :: '/' :: (body.toList ++ ['\n']) := by
  simp [commentLine, String.toList_append]

/-- A comment that ends with its line is trivia whatever follows. -/
theorem Text.trivia_commentLine (h : '\n' ∉ body.toList) :
    Trivia rest (commentLine body).toList := by
  rw [toList_commentLine]
  refine .comment (fun c hc hline => h (hline ▸ hc)) ?_ (.blank rfl .nil)
  rintro _ ⟨⟩
  rfl

/-- Where trivia is followed by something on the same line, it is trivia whatever follows. -/
theorem Text.Trivia.of_not_lineEnds {after gap : List Char} (h : Trivia after gap)
    (hafter : ¬ LineEnds after) (other : List Char) : Trivia other gap := by
  induction h with
  | nil => exact .nil
  | blank hc _ ih => exact .blank hc ih
  | @comment body cs hbody hends _ ih =>
    refine .comment hbody ?_ ih
    cases cs with
    | nil => exact absurd hends hafter
    | cons c cs => exact hends

/-- A line does not end where a token is found. -/
theorem Lexeme.not_lineEnds {cs : List Char} {lexeme : Lexeme} {kind : Kind}
    (h : lexeme? cs = some lexeme) (hk : lexeme.kind? = some kind) : ¬ LineEnds cs := by
  intro hends
  cases cs with
  | nil => cases h
  | cons c cs =>
    cases hends c rfl
    cases hk.symm.trans (Lexeme.of_blank rfl h).1

/-- A comment ends every token but an operator. -/
theorem Kind.endsBefore_commentLine {kind : Kind} (h : kind ≠ .operator) :
    kind.EndsBefore ((Text.commentLine body).toList ++ rest) := by
  rw [Text.toList_commentLine]
  rintro _ ⟨⟩
  cases kind with
  | operator => exact absurd rfl h
  | keyword | boolean | number | typeName | identifier => exact (by decide : isWordChar '/' = false)
  | _ => rfl

end

/-! ## Operators in front of comments -/

/-- A slash in front of a comment is a part of the comment. -/
theorem Text.trivia_slash_commentLine {body : String} {rest : List Char}
    (h : '\n' ∉ body.toList) : Trivia rest ('/' :: (commentLine body).toList) := by
  have hlonger : Trivia rest (commentLine ("/" ++ body)).toList :=
    trivia_commentLine (by simpa using h)
  rw [toList_commentLine, String.toList_append] at hlonger
  rw [toList_commentLine]
  exact hlonger

/-- An operator goes on into a comment behind it, or begins it. -/
theorem Kind.Owns.not_scans_commentLine {text body : String} (h : Kind.operator.Owns text)
    (hbody : '\n' ∉ body.toList) {rest : List Char} {tokens : List (Token Unit)}
    (hrest : Scans rest tokens) :
    ¬ Scans (text.toList ++ ((Text.commentLine body).toList ++ rest))
      (.placeless .operator text :: tokens) := by
  intro hscans
  by_cases hslash : text.toList = ['/']
  · rw [hslash, ← List.append_assoc, List.singleton_append,
      Scans.trivia_iff (Text.trivia_slash_commentLine hbody)] at hscans
    exact absurd (congrArg List.length (hscans.unique hrest)) (Nat.succ_ne_self _)
  obtain ⟨found, hfound, hmap⟩ := (Scans.iff_scanFrom 0).1 hscans
  have hlayout := Token.layout_of_scanFrom 0 _ found hfound
  obtain ⟨c, more, htext⟩ : ∃ c more, text.toList = c :: more :=
    List.exists_cons_of_length_pos (by rw [String.length_toList]; exact h.length_pos)
  generalize hwhole : text.toList ++ ((Text.commentLine body).toList ++ rest) = whole at hlayout
  cases hlayout with
  | done => cases hmap
  | @token _ start stop gap cs lexeme kind _ hgap hl hk _ _ hlater =>
    obtain ⟨hfirst, -⟩ := List.cons.inj hmap
    obtain ⟨rfl, hlexeme⟩ : kind = .operator ∧ String.ofList (cs.take lexeme.length) = text := by
      cases hfirst
      exact ⟨rfl, rfl⟩
    -- No gap fits in front: with none the operator would end right before a slash, and a blank or a
    -- comment would begin as the operator does.
    cases hgap with
    | nil =>
      have hends := Lexeme.endsBefore hl hk hlater.settled
      rw [List.nil_append, ← hlexeme, String.toList_ofList] at hwhole
      have hdrop := hwhole.trans (List.take_append_drop lexeme.length cs).symm
      rw [← List.append_cancel_left hdrop, Text.toList_commentLine] at hends
      exact absurd (hends '/' rfl) (by decide)
    | blank hblank =>
      rw [htext, List.cons_append, List.cons_append] at hwhole
      obtain ⟨rfl, -⟩ := List.cons.inj hwhole
      have hl := h.lexeme [] nofun
      rw [List.append_nil, htext] at hl
      cases (Lexeme.of_blank hblank hl).1
    | comment =>
      cases more with
      | nil =>
        rw [htext, List.cons_append, List.cons_append] at hwhole
        obtain ⟨rfl, -⟩ := List.cons.inj hwhole
        exact hslash htext
      | cons d more =>
        rw [htext, List.cons_append, List.cons_append, List.cons_append, List.cons_append] at hwhole
        obtain ⟨rfl, hmore⟩ := List.cons.inj hwhole
        obtain ⟨rfl, -⟩ := List.cons.inj hmore
        refine h.not_begins ['/', '/'] (.head _) ?_
        rw [htext]
        exact List.prefix_append ['/', '/'] more

/-! ## Edges of tokens -/

namespace Token

/-- Each token of a layout stops behind its offset. -/
theorem Layout.lt_stop {offset : Nat} {cs : List Char} {tokens : List (Token Nat)}
    (h : Layout offset cs tokens) : ∀ token ∈ tokens, offset < token.span.stop := by
  induction h with
  | done => exact List.forall_mem_nil _
  | @token offset start stop gap cs lexeme kind tokens _ hl _ hstart hstop _ ih =>
    have hne : cs.take lexeme.length ≠ [] := by
      have := lexeme.length_pos
      cases cs with
      | nil => cases hl
      | cons => simp; omega
    have hpos := Text.utf8Size_pos hne
    refine List.forall_mem_cons.2 ⟨by simp only; omega, fun token htoken => ?_⟩
    have := ih token htoken
    omega

/-- An offset at which a token starts or stops. -/
def HasEdge (token : Token Nat) (offset : Nat) : Prop :=
  token.span.start = offset ∨ token.span.stop = offset

/-- A comment at an edge of a token of a layout leaves the tokens as they are exactly if no operator
stops there. -/
theorem Layout.scans_insert_comment {offset : Nat} {cs : List Char} {tokens : List (Token Nat)}
    (h : Layout offset cs tokens) {edge : Nat} (hedge : ∃ token ∈ tokens, token.HasEdge edge)
    {body : String} (hbody : '\n' ∉ body.toList) :
    ∃ before after, cs = before ++ after ∧ edge = offset + utf8Size before ∧
      (Scans (before ++ ((Text.commentLine body).toList ++ after))
          (tokens.map (Token.map nowhere)) ↔
        ∀ token ∈ tokens, token.span.stop = edge → token.kind ≠ .operator) := by
  induction h with
  | done =>
    obtain ⟨_, hmem, -⟩ := hedge
    cases hmem
  | @token offset start stop gap cs lexeme kind tokens hgap hl hk hstart hstop hrest ih =>
    have howned := Lexeme.owned hl hk hrest.settled
    have hends := Lexeme.endsBefore hl hk hrest.settled
    have hlines := Lexeme.not_lineEnds hl hk
    have hcore : Scans cs (.placeless kind (String.ofList (cs.take lexeme.length)) ::
        tokens.map (Token.map nowhere)) := .token hl hk hrest.scans
    have hlater := hrest.lt_stop
    have hlt : start < stop :=
      (Layout.token .nil hl hk (Nat.add_zero start).symm hstop hrest).lt_stop _ (.head _)
    generalize htext : String.ofList (cs.take lexeme.length) = text at howned hcore ⊢
    have htake : text.toList = cs.take lexeme.length := by rw [← htext, String.toList_ofList]
    have hcs : gap ++ cs = gap ++ text.toList ++ cs.drop lexeme.length := by
      rw [List.append_assoc, htake, List.take_append_drop]
    have hfree {other : List Char} : Trivia other gap := hgap.of_not_lineEnds hlines other
    -- At its start the first token has the comment in front as trivia, at its stop the comment comes
    -- right behind it, and every other edge is one of the later tokens.
    by_cases hstartEdge : edge = start
    · refine ⟨gap, cs, rfl, hstartEdge.trans hstart, iff_of_true ?_ ?_⟩
      · exact hfree.scans ((Text.trivia_commentLine hbody).scans hcore)
      · refine List.forall_mem_cons.2 ⟨fun heq => ?_, fun token htoken heq => ?_⟩
        · exact absurd (hstartEdge.symm.trans heq.symm) (Nat.ne_of_lt hlt)
        · exact absurd (hlater token htoken) (by omega)
    by_cases hstopEdge : edge = stop
    · have hlaterFree : ∀ token ∈ tokens, token.span.stop = edge → token.kind ≠ .operator :=
        fun token htoken heq => absurd (hlater token htoken) (by omega)
      refine ⟨gap ++ text.toList, cs.drop lexeme.length, hcs, ?_, ?_⟩
      · rw [hstopEdge, hstop, hstart, Text.utf8Size_append, htake, Nat.add_assoc]
      rw [List.append_assoc, Scans.trivia_iff hfree, List.forall_mem_cons]
      by_cases hop : kind = .operator
      · subst hop
        exact iff_of_false (howned.not_scans_commentLine hbody hrest.scans)
          fun hall => hall.1 hstopEdge.symm rfl
      · have hcommented := (Text.trivia_commentLine hbody).scans hrest.scans
        exact iff_of_true (howned.scans (Kind.endsBefore_commentLine hop) hcommented)
          ⟨fun _ => hop, hlaterFree⟩
    · obtain ⟨token, hmem, htokenEdge⟩ := hedge
      have hmem : token ∈ tokens := by
        rcases List.mem_cons.1 hmem with rfl | hmem
        · rcases htokenEdge with rfl | rfl
          · exact absurd rfl hstartEdge
          · exact absurd rfl hstopEdge
        · exact hmem
      obtain ⟨before, after, hdrop, hbefore, hiff⟩ := ih ⟨token, hmem, htokenEdge⟩
      have hne : before ≠ [] := by
        rintro rfl
        exact hstopEdge hbefore
      refine ⟨gap ++ text.toList ++ before, after, ?_, ?_, ?_⟩
      · rw [hcs, hdrop, List.append_assoc _ before]
      · rw [hbefore, hstop, hstart, Text.utf8Size_append, Text.utf8Size_append, htake]
        omega
      · have hhead : kind.EndsBefore (before ++ ((Text.commentLine body).toList ++ after)) := by
          unfold Kind.EndsBefore at hends ⊢
          rwa [List.head?_append_of_ne_nil _ hne, ← List.head?_append_of_ne_nil _ hne, ← hdrop]
        rw [List.append_assoc, List.append_assoc, Scans.trivia_iff hfree, List.map_cons,
          List.forall_mem_cons, and_iff_right fun heq => absurd heq.symm hstopEdge, ← hiff]
        exact Scans.owned_iff howned hhead

end Token

/-! ## Sources -/

/-- A source with a text put in at a byte offset. -/
def Source.insert (source : Source) (offset : Nat) (piece : String) : Source :=
  ⟨String.Pos.Raw.extract source.text ⟨0⟩ ⟨offset⟩ ++ piece ++
    String.Pos.Raw.extract source.text ⟨offset⟩ ⟨source.text.utf8ByteSize⟩, source.file⟩

namespace Source
variable {source : Source}

/-- A source is scanned as some tokens exactly if its own have their kinds and texts. -/
theorem scans_iff {found : List (Token P)} :
    Scans source.text.toList (found.map (Token.map nowhere)) ↔
      ∃ tokens, source.tokens = .ok tokens ∧
        tokens.map Token.spelling = found.map Token.spelling := by
  refine ⟨fun h => ?_, ?_⟩
  · obtain ⟨tokens, htokens, hmap⟩ := tokens_of_scans h
    exact ⟨tokens, htokens, Token.map_spelling_of_nowhere hmap⟩
  · rintro ⟨tokens, htokens, hsame⟩
    obtain ⟨scanned, hscanned, rfl⟩ := tokens_eq_ok htokens
    refine (Scans.iff_scanFrom 0).2 ⟨scanned, hscanned, ?_⟩
    have := congrArg (List.map fun spelling => Token.placeless spelling.1 spelling.2) hsame
    rwa [List.map_map, List.map_map, List.map_map] at this

/-- What is inserted at the size of a front stands behind that front. -/
theorem insert_of_append {before after : List Char} (h : source.text.toList = before ++ after)
    (piece : String) : (source.insert (utf8Size before) piece).text.toList =
      before ++ (piece.toList ++ after) := by
  have hbefore : Text.Stands source.text 0 before (utf8Size before) :=
    ⟨[], after, h, rfl, (Nat.zero_add _).symm⟩
  have hafter : Text.Stands source.text (utf8Size before) after source.text.utf8ByteSize := by
    refine ⟨before, [], by rw [List.append_nil, h], rfl, ?_⟩
    rw [Text.utf8ByteSize_eq, h, Text.utf8Size_append]
  rw [insert, hbefore.extract_eq, hafter.extract_eq]
  simp [String.toList_append]

/-- A comment that is put in where a token of a source starts or stops, with its line feed, leaves
the kinds and the texts of the tokens as they are exactly if no operator stops there. -/
theorem tokens_insert_comment {found : List (Token Nat)}
    (h : Token.scan source.text.toList = .ok found) {token : Token Nat} (htoken : token ∈ found)
    {edge : Nat} (hedge : token.HasEdge edge) {body : String} (hbody : '\n' ∉ body.toList) :
    (∃ tokens, (source.insert edge (Text.commentLine body)).tokens = .ok tokens ∧
        tokens.map Token.spelling = found.map Token.spelling) ↔
      ∀ other ∈ found, other.span.stop = edge → other.kind ≠ .operator := by
  have hlayout := Token.layout_of_scanFrom 0 _ found h
  obtain ⟨before, after, htext, hbefore, hiff⟩ :=
    hlayout.scans_insert_comment ⟨token, htoken, hedge⟩ hbody
  rw [Nat.zero_add] at hbefore
  subst hbefore
  rw [← hiff, ← insert_of_append htext, scans_iff]

/-- A comment between a reserved word and a parenthesis. -/
theorem tokens_insert_comment_keyword :
    let source : Source := ⟨"if(x)", "demo.let"⟩
    let found : List (Token Nat) :=
      [⟨.keyword .ifWord, "if", ⟨0, 2⟩⟩, ⟨.opening .paren, "(", ⟨2, 3⟩⟩,
        ⟨.identifier, "x", ⟨3, 4⟩⟩, ⟨.closing .paren, ")", ⟨4, 5⟩⟩]
    Token.scan source.text.toList = .ok found ∧ '\n' ∉ " é \" (".toList ∧
      ∃ tokens, (source.insert 2 (Text.commentLine " é \" (")).tokens = .ok tokens ∧
        tokens.map Token.spelling = found.map Token.spelling := by
  intro source found
  have hscan : Token.scan source.text.toList = .ok found := by decide +kernel
  have hbody : '\n' ∉ " é \" (".toList := by decide
  have hfirst : (⟨.keyword .ifWord, "if", ⟨0, 2⟩⟩ : Token Nat) ∈ found := .head _
  have hfree : ∀ other ∈ found, other.span.stop = 2 → other.kind ≠ .operator := by decide
  exact ⟨hscan, hbody, (tokens_insert_comment hscan hfirst (.inr rfl) hbody).2 hfree⟩

/-- A comment directly behind an operator makes another operator, and what was to be a comment is
scanned. -/
theorem tokens_insert_comment_operator :
    let source : Source := ⟨"x+y", "demo.let"⟩
    let found : List (Token Nat) :=
      [⟨.identifier, "x", ⟨0, 1⟩⟩, ⟨.operator, "+", ⟨1, 2⟩⟩, ⟨.identifier, "y", ⟨2, 3⟩⟩]
    Token.scan source.text.toList = .ok found ∧ (∃ token ∈ found, token.HasEdge 2) ∧
      '\n' ∉ " sum".toList ∧
      (∃ tokens, (source.insert 2 (Text.commentLine " sum")).tokens = .ok tokens ∧
        tokens.map Token.text = ["x", "+//", "sum", "y"]) ∧
      ¬ ∃ tokens, (source.insert 2 (Text.commentLine " sum")).tokens = .ok tokens ∧
        tokens.map Token.spelling = found.map Token.spelling := by
  intro source found
  have hinserted : (source.insert 2 (Text.commentLine " sum")).tokens.map (List.map Token.text) =
      .ok ["x", "+//", "sum", "y"] := by
    decide +kernel
  obtain ⟨tokens, htokens, htexts⟩ := Outcome.map_eq_ok.1 hinserted
  refine ⟨by decide +kernel, ⟨_, .tail _ (.head _), .inr rfl⟩, by decide,
    ⟨tokens, htokens, htexts⟩, ?_⟩
  rintro ⟨others, hothers, hsame⟩
  cases htokens.symm.trans hothers
  have hlength : tokens.length = 4 := by rw [← List.length_map, htexts]; rfl
  have := congrArg List.length hsame
  rw [List.length_map, List.length_map, hlength] at this
  exact absurd this (by decide)

end Source

end LetWhile
