import Markup.Text.Entity

/-!
# Reading entities back

`Text.decode` reads a text once from left to right and puts its character for each of the five
entities.  It refuses a character with a meaning in markup that stands for itself, so it reads
nothing but written forms, and it takes every written form back to its text (`decode_escape`).
-/

namespace Markup.Text

/-- Whether a character has a meaning in markup, so that it never stands for itself. -/
def isSpecial (c : Char) : Bool := ['&', '<', '>', '\x22', '\x27'].contains c

/-- The text that a written form stands for. -/
def decode : List Char → Option (List Char)
  | [] => some []
  | '&' :: 'a' :: 'm' :: 'p' :: ';' :: cs => ('&' :: ·) <$> decode cs
  | '&' :: 'l' :: 't' :: ';' :: cs => ('<' :: ·) <$> decode cs
  | '&' :: 'g' :: 't' :: ';' :: cs => ('>' :: ·) <$> decode cs
  | '&' :: 'q' :: 'u' :: 'o' :: 't' :: ';' :: cs => ('\x22' :: ·) <$> decode cs
  | '&' :: 'a' :: 'p' :: 'o' :: 's' :: ';' :: cs => ('\x27' :: ·) <$> decode cs
  | c :: cs => if isSpecial c then none else (c :: ·) <$> decode cs

theorem special_cases {c : Char} (h : isSpecial c) :
    c = '&' ∨ c = '<' ∨ c = '>' ∨ c = '\x22' ∨ c = '\x27' := by
  simpa [isSpecial] using h

theorem escapeChar_of_not_special {c : Char} (h : isSpecial c = false) : escapeChar c = [c] := by
  have hne : ∀ d, isSpecial d → c ≠ d := by
    rintro d hd rfl
    rw [h] at hd
    cases hd
  rw [escapeChar, if_neg (hne _ rfl), if_neg (hne _ rfl), if_neg (hne _ rfl), if_neg (hne _ rfl),
    if_neg (hne _ rfl)]

/-- The written form of a character is read as that character. -/
theorem decode_escapeChar_append (c : Char) (cs : List Char) :
    decode (escapeChar c ++ cs) = (c :: ·) <$> decode cs := by
  cases hc : isSpecial c with
  | true => rcases special_cases hc with rfl | rfl | rfl | rfl | rfl <;> rfl
  | false =>
    have hamp : c ≠ '&' := by
      rintro rfl
      cases hc
    rw [escapeChar_of_not_special hc, List.singleton_append, decode]
    · simp [hc]
    all_goals simp [hamp]

/-- Every written form is read as its text. -/
theorem decode_escape (s : String) : decode (escape s).toList = some s.toList := by
  rw [toList_escape]
  induction s.toList with
  | nil => rfl
  | cons c cs ih =>
    rw [List.flatMap_cons, decode_escapeChar_append, ih]
    rfl

/-- In the written form of a character the only character with a meaning is the ampersand. -/
theorem not_special_of_mem_escapeChar {c d : Char} (h : d ∈ escapeChar c) (hamp : d ≠ '&') :
    isSpecial d = false := by
  cases hc : isSpecial c with
  | true =>
    have hall : (escapeChar c).all fun e => e == '&' || !isSpecial e := by
      rcases special_cases hc with rfl | rfl | rfl | rfl | rfl <;> decide
    have hd := List.all_eq_true.mp hall d h
    simpa [hamp] using hd
  | false =>
    rw [escapeChar_of_not_special hc, List.mem_singleton] at h
    rw [h, hc]

theorem not_mem_escape {c : Char} (hc : isSpecial c) (hamp : c ≠ '&') (s : String) :
    c ∉ (escape s).toList := by
  rw [toList_escape, List.mem_flatMap]
  rintro ⟨d, -, hd⟩
  rw [not_special_of_mem_escapeChar hd hamp] at hc
  cases hc

/-- Two texts with the same written form are the same. -/
theorem escape_injective {s t : String} (h : escape s = escape t) : s = t := by
  have hread := decode_escape s
  rw [h, decode_escape, Option.some.injEq] at hread
  exact (String.toList_injective hread).symm

end Markup.Text
