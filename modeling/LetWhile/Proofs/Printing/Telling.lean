import LetWhile.Program.Text
import LetWhile.Proofs.Printing.Lexemes
import LetWhile.Proofs.Program.Drawn
import LetWhile.Proofs.Scanning.Rescanned

/-!
# Texts that tell what is written

A text tells what is written if nothing else is written alike, even where more text follows: the two
that may stand there are the same, and so is what follows them (`Tells`). This holds of words, which
end where no character of a name follows, of quoted texts, which end with their closing quote, and
of lists with separators between their items, if their items tell (`Tells.separated`). From these it
follows for types (`Ty.tells`).
-/

namespace LetWhile

open Lexeme (isNameChar)

/-- Something tells by its text what it is, among all that is `good` and wherever a text that
`follows` stands behind it. -/
def Tells {α : Type} (good : α → Prop) (text : α → String) (follows : List Char → Prop) (a : α) :
    Prop :=
  ∀ b s t, good b → follows s → follows t → (text a).toList ++ s = (text b).toList ++ t →
    a = b ∧ s = t

/-- What tells among many tells among fewer, and with fewer texts behind it. -/
theorem Tells.mono {α : Type} {good better : α → Prop} {text : α → String}
    {follows narrow : List Char → Prop} {a : α} (h : Tells good text follows a)
    (hgood : ∀ b, better b → good b) (hfollows : ∀ s, narrow s → follows s) :
    Tells better text narrow a :=
  fun b s t hb hs ht => h b s t (hgood b hb) (hfollows s hs) (hfollows t ht)

/-! ## Runs of characters -/

/-- What stands behind a run of characters of a class: nothing of the class. -/
def EndsRun (p : Char → Bool) (cs : List Char) : Prop := ∀ c ∈ cs.head?, p c = false

section
variable {p : Char → Bool}

/-- A run ends in front of a character that is not of the class. -/
theorem EndsRun.cons {c : Char} (h : p c = false) (cs : List Char) : EndsRun p (c :: cs) := by
  rintro _ ⟨⟩
  exact h

/-- A run ends where no character of its class follows. -/
theorem EndsRun.takeWhile_append {run rest : List Char} (hrun : ∀ c ∈ run, p c = true)
    (hrest : EndsRun p rest) : (run ++ rest).takeWhile p = run := by
  have hnone : rest.takeWhile p = [] := by
    cases rest with
    | nil => rfl
    | cons c rest => exact List.takeWhile_cons_of_neg (by simp [hrest c rfl])
  rw [List.takeWhile_append_of_pos hrun, hnone, List.append_nil]

/-- Runs that end are the same if they are with what follows them, which is then the same too. -/
theorem EndsRun.append_inj {run run' s t : List Char} (hrun : ∀ c ∈ run, p c = true)
    (hrun' : ∀ c ∈ run', p c = true) (hs : EndsRun p s) (ht : EndsRun p t)
    (h : run ++ s = run' ++ t) : run = run' ∧ s = t := by
  have hsame := congrArg (List.takeWhile p) h
  rw [takeWhile_append hrun hs, takeWhile_append hrun' ht] at hsame
  subst hsame
  exact ⟨rfl, List.append_cancel_left h⟩

/-- A text of characters of a class is told by where the run of them ends. -/
theorem Tells.run {text : String} (h : ∀ c ∈ text.toList, p c = true) :
    Tells (fun other => ∀ c ∈ other.toList, p c = true) id (EndsRun p) text := by
  intro other s t hother hs ht heq
  obtain ⟨htext, hrest⟩ := EndsRun.append_inj h hother hs ht heq
  exact ⟨String.toList_inj.1 htext, hrest⟩

end

/-! ## Quoted texts -/

namespace Text

/-- The character that a letter stands for behind a backslash. -/
def escaped : Char → Char
  | 'n' => '\n'
  | 'r' => '\r'
  | 't' => '\t'
  | '0' => Char.ofNat 0
  | c => c

/-- A character stands between quotes as it is, by a letter or by its code point. -/
theorem quotedChar_cases (c : Char) :
    (quotedChar c = [c] ∧ c ≠ '\\' ∧ c ≠ '"') ∨
    (∃ letter, quotedChar c = ['\\', letter] ∧ letter ≠ 'u' ∧ escaped letter = c) ∨
    quotedChar c = '\\' :: 'u' :: '\x7b' :: (Nat.toDigits 16 c.toNat ++ ['\x7d']) := by
  unfold quotedChar
  split
  · rename_i hc
    exact .inr (.inl ⟨'"', rfl, by decide, hc.symm⟩)
  rename_i hquote
  split
  · rename_i hc
    exact .inr (.inl ⟨'\\', rfl, by decide, hc.symm⟩)
  rename_i hslash
  split
  · rename_i hc
    exact .inr (.inl ⟨'n', rfl, by decide, hc.symm⟩)
  split
  · rename_i hc
    exact .inr (.inl ⟨'r', rfl, by decide, hc.symm⟩)
  split
  · rename_i hc
    exact .inr (.inl ⟨'t', rfl, by decide, hc.symm⟩)
  split
  · rename_i hc
    have hzero : Char.ofNat 0 = c := Char.toNat_inj.1 (hc.symm ▸ rfl)
    exact .inr (.inl ⟨'0', rfl, by decide, hzero⟩)
  split
  · exact .inl ⟨rfl, hslash, hquote⟩
  · exact .inr (.inr rfl)

/-- No hexadecimal digit is a brace. -/
theorem mem_toDigits_sixteen (n : Nat) : ∀ c ∈ Nat.toDigits 16 n, c ≠ '\x7d' := by
  have hdigit : ∀ i < 16, Nat.digitChar i ≠ '\x7d' := by decide
  induction n using Nat.strongRecOn with
  | ind n ih =>
    rw [Nat.toDigits_eq_if (by decide)]
    split
    · rename_i hn
      exact List.forall_mem_singleton.2 (hdigit n hn)
    · exact List.forall_mem_append.2 ⟨ih (n / 16) (by omega),
        List.forall_mem_singleton.2 (hdigit _ (Nat.mod_lt n (by decide)))⟩

/-- Hexadecimal digits determine the number. -/
theorem toDigits_sixteen_inj {m n : Nat} (h : Nat.toDigits 16 m = Nat.toDigits 16 n) : m = n := by
  have hdigit : ∀ i < 16, ∀ j < 16, Nat.digitChar i = Nat.digitChar j → i = j := by decide
  have hsplit (k : Nat) : ∃ front, Nat.toDigits 16 k = front ++ [Nat.digitChar (k % 16)] ∧
      (k < 16 → front = []) ∧ (¬ k < 16 → front = Nat.toDigits 16 (k / 16)) := by
    rw [Nat.toDigits_eq_if (by decide)]
    split
    · rename_i hk
      exact ⟨[], by rw [Nat.mod_eq_of_lt hk]; rfl, fun _ => rfl, fun h => absurd hk h⟩
    · rename_i hk
      exact ⟨_, rfl, fun h => absurd h hk, fun _ => rfl⟩
  induction m using Nat.strongRecOn generalizing n with
  | ind m ih =>
    obtain ⟨front, hm, hfront, hfront'⟩ := hsplit m
    obtain ⟨front', hn, hother, hother'⟩ := hsplit n
    rw [hm, hn] at h
    obtain ⟨hfronts, hlast⟩ := List.append_inj' h rfl
    have hmod : m % 16 = n % 16 :=
      hdigit _ (Nat.mod_lt m (by decide)) _ (Nat.mod_lt n (by decide)) (List.cons.inj hlast).1
    by_cases hsmall : m < 16 <;> by_cases hsmall' : n < 16
    · omega
    · rw [hfront hsmall, hother' hsmall'] at hfronts
      exact absurd hfronts.symm Nat.toDigits_ne_nil
    · rw [hfront' hsmall, hother hsmall'] at hfronts
      exact absurd hfronts Nat.toDigits_ne_nil
    · rw [hfront' hsmall, hother' hsmall'] at hfronts
      have hdiv : m / 16 = n / 16 := ih (m / 16) (by omega) hfronts
      omega

/-- A character is told by how it is written between quotes. -/
theorem quotedChar_append_inj {c d : Char} {s t : List Char}
    (h : quotedChar c ++ s = quotedChar d ++ t) : c = d ∧ s = t := by
  rcases quotedChar_cases c with ⟨hc, hslash, -⟩ | ⟨letter, hc, hletter, rfl⟩ | hc <;>
    rcases quotedChar_cases d with ⟨hd, hslash', -⟩ | ⟨letter', hd, hletter', rfl⟩ | hd <;>
    simp only [hc, hd, List.cons_append, List.nil_append, List.append_assoc, List.cons.injEq] at h
  · exact h
  · exact absurd h.1 hslash
  · exact absurd h.1 hslash
  · exact absurd h.1.symm hslash'
  · exact ⟨congrArg escaped h.2.1, h.2.2⟩
  · exact absurd h.2.1 hletter
  · exact absurd h.1.symm hslash'
  · exact absurd h.2.1.symm hletter'
  · -- The brace ends both numerals, since there is none in them.
    have hends (cs : List Char) : EndsRun (· != '\x7d') ('\x7d' :: cs) := .cons (by decide) cs
    have hnumeral (n : Nat) : ∀ c ∈ Nat.toDigits 16 n, (c != '\x7d') = true :=
      fun c hc => bne_iff_ne.2 (mem_toDigits_sixteen n c hc)
    obtain ⟨hdigits, hrest⟩ :=
      EndsRun.append_inj (hnumeral _) (hnumeral _) (hends s) (hends t) h.2.2.2
    exact ⟨Char.toNat_inj.1 (toDigits_sixteen_inj hdigits), (List.cons.inj hrest).2⟩

/-- No quoted character begins with a quote. -/
theorem quotedChar_append_ne (c : Char) (s t : List Char) : quotedChar c ++ s ≠ '"' :: t := by
  intro h
  rcases quotedChar_cases c with ⟨hc, -, hquote⟩ | ⟨letter, hc, -⟩ | hc <;> rw [hc] at h
  · exact hquote (List.cons.inj h).1
  · exact absurd (List.cons.inj h).1 (by decide)
  · exact absurd (List.cons.inj h).1 (by decide)

/-- What stands between quotes determines the quoted text, and what follows the closing quote. -/
theorem flatMap_quotedChar_inj {value other s t : List Char}
    (h : value.flatMap quotedChar ++ '"' :: s = other.flatMap quotedChar ++ '"' :: t) :
    value = other ∧ s = t := by
  induction value generalizing other with
  | nil =>
    cases other with
    | nil => exact ⟨rfl, (List.cons.inj h).2⟩
    | cons d other =>
      rw [List.flatMap_cons, List.append_assoc] at h
      exact absurd h.symm (quotedChar_append_ne d _ _)
  | cons c value ih =>
    rw [List.flatMap_cons, List.append_assoc] at h
    cases other with
    | nil => exact absurd h (quotedChar_append_ne c _ _)
    | cons d other =>
      rw [List.flatMap_cons, List.append_assoc] at h
      obtain ⟨hchar, h⟩ := quotedChar_append_inj h
      obtain ⟨hvalue, hrest⟩ := ih h
      exact ⟨by rw [hchar, hvalue], hrest⟩

/-- A quoted text is a quote, its quoted characters and a quote. -/
theorem toList_quoted (value : String) :
    (quoted value).toList = '"' :: (value.toList.flatMap quotedChar ++ ['"']) := by
  simp [quoted]

/-- Every text is told by its quoted form, and where this ends. -/
theorem tells_quoted (value : String) : Tells (fun _ => True) quoted (fun _ => True) value := by
  intro other s t _ _ _ h
  simp only [toList_quoted, List.cons_append, List.append_assoc, List.nil_append] at h
  obtain ⟨hvalue, hrest⟩ := flatMap_quotedChar_inj (List.cons.inj h).2
  exact ⟨String.toList_inj.1 hvalue, hrest⟩

end Text

/-! ## Lists -/

/-- What stands behind the first of some texts with separators between them, where `s` follows. -/
def afterFirst (sep : String) : List String → List Char → List Char
  | [], s => s
  | next :: rest, s => sep.toList ++ (next.toList ++ afterFirst sep rest s)

/-- Texts with separators between them are the first one and what stands behind it. -/
theorem toList_intercalate_cons (sep first : String) (rest : List String) (s : List Char) :
    (sep.intercalate (first :: rest)).toList ++ s = first.toList ++ afterFirst sep rest s := by
  induction rest generalizing first with
  | nil => simp [afterFirst]
  | cons next rest ih =>
    rw [String.intercalate_cons_cons, String.toList_append, String.toList_append, List.append_assoc,
      List.append_assoc, ih]
    rfl

section
variable {α : Type} {good : α → Prop} {text : α → String} {follows closes : List Char → Prop}
  {sep : String}

/-- What closes a list neither begins like an item nor like a separator and an item. -/
structure Closes (good : α → Prop) (text : α → String) (sep : String)
    (follows closes : List Char → Prop) : Prop where
  of_end : ∀ s, closes s → follows s
  of_sep : ∀ s, follows (sep.toList ++ s)
  first : ∀ a s, good a → ¬ closes ((text a).toList ++ s)
  next : ∀ a s, good a → ¬ closes (sep.toList ++ ((text a).toList ++ s))

/-- What stands behind the first item may follow an item. -/
theorem Closes.follows_afterFirst (h : Closes good text sep follows closes) (items : List String)
    {s : List Char} (hs : closes s) : follows (afterFirst sep items s) := by
  cases items with
  | nil => exact h.of_end s hs
  | cons next rest => exact h.of_sep _

/-- The items behind the first one are told by what stands there. The induction is on these items,
against those of the other list. -/
theorem Closes.afterFirst_inj (h : Closes good text sep follows closes) {items others : List α}
    (hothers : ∀ b ∈ others, good b) (hgood : ∀ a ∈ items, good a)
    (htells : ∀ a ∈ items, Tells good text follows a) {s t : List Char} (hs : closes s)
    (ht : closes t)
    (heq : afterFirst sep (items.map text) s = afterFirst sep (others.map text) t) :
    items = others ∧ s = t := by
  induction items generalizing others with
  | nil =>
    cases others with
    | nil => exact ⟨rfl, heq⟩
    | cons b others =>
      rw [show s = _ from heq] at hs
      exact absurd hs (h.next b _ (hothers b (.head _)))
  | cons a items ih =>
    obtain ⟨ha, hgood⟩ := List.forall_mem_cons.1 hgood
    obtain ⟨hfirst, htells⟩ := List.forall_mem_cons.1 htells
    cases others with
    | nil =>
      rw [show t = _ from heq.symm] at ht
      exact absurd ht (h.next a _ ha)
    | cons b others =>
      obtain ⟨hb, hothers⟩ := List.forall_mem_cons.1 hothers
      obtain ⟨hitem, hrest⟩ := hfirst b _ _ hb (h.follows_afterFirst _ hs)
        (h.follows_afterFirst _ ht) (List.append_cancel_left heq)
      obtain ⟨hmore, hend⟩ := ih hothers hgood htells hrest
      exact ⟨by rw [hitem, hmore], hend⟩

/-- Items with separators between them tell which these are, if each tells what it is. -/
theorem Tells.separated (h : Closes good text sep follows closes) {items : List α}
    (hgood : ∀ a ∈ items, good a) (htells : ∀ a ∈ items, Tells good text follows a) :
    Tells (∀ a ∈ ·, good a) (fun items => sep.intercalate (items.map text)) closes items := by
  intro others s t hothers hs ht heq
  cases items with
  | nil =>
    cases others with
    | nil => exact ⟨rfl, by simpa using heq⟩
    | cons b others =>
      rw [show s = _ from heq.trans (toList_intercalate_cons ..)] at hs
      exact absurd hs (h.first b _ (hothers b (.head _)))
  | cons a items =>
    obtain ⟨ha, hgood⟩ := List.forall_mem_cons.1 hgood
    obtain ⟨hfirst, htells⟩ := List.forall_mem_cons.1 htells
    cases others with
    | nil =>
      rw [show t = _ from heq.symm.trans (toList_intercalate_cons ..)] at ht
      exact absurd ht (h.first a _ ha)
    | cons b others =>
      obtain ⟨hb, hothers⟩ := List.forall_mem_cons.1 hothers
      simp only [List.map_cons, toList_intercalate_cons] at heq
      obtain ⟨hitem, hrest⟩ := hfirst b _ _ hb (h.follows_afterFirst _ hs)
        (h.follows_afterFirst _ ht) heq
      obtain ⟨hmore, hend⟩ := h.afterFirst_inj hothers hgood htells hs ht hrest
      exact ⟨by rw [hitem, hmore], hend⟩

/-- Arguments in parentheses tell which these are, if each tells what it is before a comma and
before a parenthesis. -/
theorem Tells.arguments (hcomma : ∀ s, follows (',' :: s)) (hparen : ∀ s, follows (')' :: s))
    (hfirst : ∀ a s t, good a → (text a).toList ++ s ≠ ')' :: t) {items : List α}
    (hgood : ∀ a ∈ items, good a) (htells : ∀ a ∈ items, Tells good text follows a) :
    Tells (∀ a ∈ ·, good a) (fun items => argumentText (items.map text)) (fun _ => True) items := by
  have hcloses : Closes good text ", " follows (fun s => ∃ t, s = ')' :: t) :=
    ⟨by rintro _ ⟨t, rfl⟩; exact hparen t, fun s => hcomma _,
      fun a s ha ⟨t, heq⟩ => hfirst a s t ha heq,
      fun a s _ ⟨t, heq⟩ => absurd (List.cons.inj heq).1 (by decide)⟩
  intro others s t hothers _ _ heq
  simp only [argumentText, String.toList_append, List.append_assoc] at heq
  obtain ⟨hitems, hrest⟩ := Tells.separated hcloses hgood htells others _ _ hothers ⟨s, rfl⟩
    ⟨t, rfl⟩ (List.cons.inj heq).2
  exact ⟨hitems, (List.cons.inj hrest).2⟩

end

/-! ## Words -/

/-- A text of digits stands for no negative number. -/
theorem Text.integerOf_nonneg {text : String} (h : ∀ c ∈ text.toList, c.isDigit = true)
    {value : Int} (hvalue : integerOf text = some value) : 0 ≤ value := by
  unfold integerOf at hvalue
  split at hvalue
  · cases hvalue
  · rename_i htext
    exact absurd (h '-' (htext ▸ .head _)) (by decide)
  · obtain ⟨n, -, rfl⟩ := Option.map_eq_some_iff.1 hvalue
    exact Int.natCast_nonneg n

/-- A text that tokens of a kind can have in a source, where no reserved word is a name. -/
def Kind.Allows (kind : Kind) (text : String) : Prop :=
  kind.Admits text ∧ (kind = .identifier → ∀ other ∈ reservedWords, other.2 ≠ text)

/-- Allowed texts are well spelled. -/
theorem Kind.allows_wellSpelled : WellSpelled Kind.Allows :=
  fun kind text h => Kind.admits_wellSpelled kind text h.1

/-- Tokens of a source have allowed texts. -/
theorem Source.tokens_allowed {source : Source} {tokens : List (Token Position)}
    (h : source.tokens = .ok tokens) : ∀ token ∈ tokens, token.Drawn Kind.Allows := by
  refine fun token htoken => ⟨tokens_admitted h token htoken, fun hk other hother heq => ?_⟩
  have hreserved : other.1.Owns token.text := heq ▸ Kind.Owns.reserved hother
  have hkinds : ∀ other ∈ reservedWords, other.1 ≠ .identifier := by decide
  exact hkinds other hother (hreserved.unique (hk ▸ tokens_owned h token htoken))

/-- An allowed name is a word that is not reserved. -/
theorem Kind.Allows.isName {name : String} (h : Kind.identifier.Allows name) :
    IsName beginsIdentifier name :=
  ⟨h.1, h.2 rfl⟩

/-- A name is told where no character of names follows. -/
theorem Kind.Allows.tells {name : String} (h : Kind.identifier.Allows name) :
    Tells (Kind.Allows .identifier) id (EndsRun isNameChar) name :=
  (Tells.run h.isName.chars).mono (fun _ hother => hother.isName.chars) fun _ hs => hs

/-- A word with anything behind it does not begin with a character that is none of names. -/
theorem IsWord.append_ne {begins : Char → Bool} {word : String} (h : IsWord begins word) {c : Char}
    (hc : isNameChar c = false) (s t : List Char) : word.toList ++ s ≠ c :: t := by
  obtain ⟨first, rest, hword, -⟩ := h.head
  intro heq
  rw [hword, List.cons_append] at heq
  have hfirst := h.chars first (hword ▸ .head _)
  rw [(List.cons.inj heq).1, hc] at hfirst
  cases hfirst

/-- The names of parameters in parentheses tell which these are. -/
theorem Tells.parameters {names : List String} (h : ∀ name ∈ names, Kind.identifier.Allows name) :
    Tells (∀ name ∈ ·, Kind.identifier.Allows name) argumentText (fun _ => True) names := by
  have hfirst (name : String) (s t : List Char) (hname : Kind.identifier.Allows name) :
      (id name).toList ++ s ≠ ')' :: t := hname.isName.append_ne (by decide) s t
  have harguments := Tells.arguments (fun s => .cons (by decide) s) (fun s => .cons (by decide) s)
    hfirst h fun name hname => (h name hname).tells
  simpa using harguments

/-! ## Types -/

/-- The type of a function is written as its parameters in parentheses, an arrow and its result. -/
theorem Ty.toList_text_function (params : List Ty) (result : Ty) :
    (function params result).text.toList =
      (argumentText (params.map Ty.text)).toList ++ (" -> ".toList ++ result.text.toList) := by
  simp [Ty.text, argumentText]

/-- The text of a type does not begin with a closing parenthesis. -/
theorem Ty.text_append_ne {type : Ty} (h : type.Drawn Kind.Allows) (s t : List Char) :
    type.text.toList ++ s ≠ ')' :: t := by
  cases type with
  | name n => exact h.1.append_ne (by decide) s t
  | function params result =>
    intro heq
    rw [toList_text_function, argumentText, String.toList_append, String.toList_append] at heq
    exact absurd (List.cons.inj heq).1 (by decide)

mutual

/-- A type is told by its text, where no character of a name follows. -/
theorem Ty.tells : ∀ {type : Ty}, type.Drawn Kind.Allows →
    Tells (Ty.Drawn Kind.Allows) Ty.text (EndsRun isNameChar) type
  | .name n, h => by
    intro other s t hother hs ht heq
    cases other with
    | name m =>
      obtain ⟨rfl, hrest⟩ := Tells.run h.1.chars m s t hother.1.chars hs ht heq
      exact ⟨rfl, hrest⟩
    | function params result =>
      rw [toList_text_function, argumentText, String.toList_append, String.toList_append] at heq
      exact absurd heq (h.1.append_ne (by decide) s _)
  | .function params result, h => by
    obtain ⟨hparams, hresult⟩ := h
    intro other s t hother hs ht heq
    cases other with
    | name m =>
      rw [toList_text_function, argumentText, String.toList_append, String.toList_append] at heq
      exact absurd heq.symm (hother.1.append_ne (by decide) t _)
    | function params' result' =>
      obtain ⟨hparams', hresult'⟩ := hother
      have harguments := Tells.arguments (fun s => .cons (by decide) s)
        (fun s => .cons (by decide) s) (fun _ s t hparam => Ty.text_append_ne hparam s t)
        (Ty.allDrawn_iff.1 hparams) (Ty.all_tell hparams)
      simp only [toList_text_function, List.append_assoc] at heq
      obtain ⟨rfl, hrest⟩ := harguments params' _ _ (Ty.allDrawn_iff.1 hparams') trivial trivial heq
      obtain ⟨rfl, hend⟩ :=
        Ty.tells hresult result' s t hresult' hs ht (List.append_cancel_left hrest)
      exact ⟨rfl, hend⟩

/-- Each of several types is told by its text. -/
theorem Ty.all_tell : ∀ {types : List Ty}, Ty.AllDrawn Kind.Allows types → ∀ type ∈ types,
    Tells (Ty.Drawn Kind.Allows) Ty.text (EndsRun isNameChar) type
  | [], _ => List.forall_mem_nil _
  | _ :: _, h => List.forall_mem_cons.2 ⟨Ty.tells h.1, Ty.all_tell h.2⟩

end

end LetWhile
