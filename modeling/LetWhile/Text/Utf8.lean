/-!
# Sizes in UTF-8

Offsets count bytes of UTF-8, also where a text is handled as a list of characters.
-/

namespace LetWhile.Text

/-- The number of bytes that a text takes in UTF-8. -/
def utf8Size (cs : List Char) : Nat := (String.ofList cs).utf8ByteSize

/-- The empty text takes no bytes. -/
@[simp]
theorem utf8Size_nil : utf8Size [] = 0 := rfl

/-- A text takes the bytes of its first character and those of the rest. -/
theorem utf8Size_cons (c : Char) (cs : List Char) :
    utf8Size (c :: cs) = c.utf8Size + utf8Size cs := by
  rw [utf8Size, String.ofList_cons, String.utf8ByteSize_append, String.utf8ByteSize_singleton,
    utf8Size]

/-- Two texts together take the bytes of both. -/
@[simp]
theorem utf8Size_append (cs ds : List Char) : utf8Size (cs ++ ds) = utf8Size cs + utf8Size ds := by
  rw [utf8Size, String.ofList_append, String.utf8ByteSize_append, utf8Size, utf8Size]

/-- Each character takes up at least one byte. -/
theorem length_le_utf8Size (cs : List Char) : cs.length ≤ utf8Size cs := by
  induction cs with
  | nil => exact Nat.le_refl _
  | cons c cs ih =>
    have := c.utf8Size_pos
    rw [List.length_cons, utf8Size_cons]
    omega

/-- A text takes up as many bytes as it has characters exactly if each of them takes up one. -/
theorem utf8Size_eq_length_iff {cs : List Char} :
    utf8Size cs = cs.length ↔ ∀ c ∈ cs, c.utf8Size = 1 := by
  induction cs with
  | nil => exact ⟨fun _ => List.forall_mem_nil _, fun _ => rfl⟩
  | cons c cs ih =>
    have hpos := c.utf8Size_pos
    have hle := length_le_utf8Size cs
    rw [List.forall_mem_cons, ← ih, List.length_cons, utf8Size_cons]
    omega

end LetWhile.Text
