import Markup.Html
import Markup.Proofs.Text.Entity

/-!
# Written forms

A text is a written form if the only character with a meaning that stands in it is the ampersand,
and an entity starts at each ampersand (`Text.Written`).  `Text.unescape` scans a text once from
left to right, puts its character for each entity and keeps everything else.  Escaping gives
written forms only, and all of them, each for one text, and scanning takes them back
(`escape_uniquely_decodable`).
-/

namespace Markup.Text

/-- The characters with a meaning, each with its entity. -/
def entities : List (Char × String) :=
  [('&', "&amp;"), ('<', "&lt;"), ('>', "&gt;"), ('\x22', "&quot;"), ('\x27', "&apos;")]

/-- An entity is the written form of its character. -/
theorem toList_entity {c : Char} {e : String} (h : (c, e) ∈ entities) :
    e.toList = escapeChar c := by
  simp only [entities, List.mem_cons, Prod.mk.injEq, List.not_mem_nil, or_false] at h
  rcases h with ⟨rfl, rfl⟩ | ⟨rfl, rfl⟩ | ⟨rfl, rfl⟩ | ⟨rfl, rfl⟩ | ⟨rfl, rfl⟩ <;> rfl

theorem exists_entity {c : Char} (h : isSpecial c) : ∃ e, (c, e) ∈ entities := by
  rcases special_cases h with rfl | rfl | rfl | rfl | rfl <;> simp [entities]

theorem escapeChar_ne_nil (c : Char) : escapeChar c ≠ [] := by
  cases h : isSpecial c with
  | true => rcases special_cases h with rfl | rfl | rfl | rfl | rfl <;> decide
  | false =>
    rw [escapeChar_of_not_special h]
    exact List.cons_ne_nil c []

/-- In the written form of a character an ampersand stands first only, where an entity starts. -/
theorem entity_of_ampersand {c : Char} {before after : List Char}
    (h : escapeChar c = before ++ '&' :: after) : before = [] ∧ isSpecial c := by
  cases hc : isSpecial c with
  | true =>
    refine ⟨?_, rfl⟩
    have hlater : '&' ∉ (escapeChar c).tail := by
      rcases special_cases hc with rfl | rfl | rfl | rfl | rfl <;> decide
    cases before with
    | nil => rfl
    | cons b before =>
      rw [h, List.cons_append, List.tail_cons] at hlater
      exact absurd (List.mem_append_right before List.mem_cons_self) hlater
  | false =>
    rw [escapeChar_of_not_special hc] at h
    have hmem : '&' ∈ [c] := h ▸ List.mem_append_right before List.mem_cons_self
    rw [← List.mem_singleton.mp hmem] at hc
    cases hc

/-- In a written form no other character with a meaning stands but where an entity starts. -/
structure Written (cs : List Char) : Prop where
  plain : ∀ c ∈ cs, isSpecial c → c = '&'
  entity : ∀ before after, cs = before ++ '&' :: after →
    ∃ e ∈ entities, e.2.toList <+: '&' :: after

theorem Written.of_append {before cs : List Char} (h : Written (before ++ cs)) :
    Written cs where
  plain c hc := h.plain c (List.mem_append_right before hc)
  entity before' after heq := by
    apply h.entity (before ++ before') after
    rw [heq, List.append_assoc]

/-- A written form starts with the written form of a character. -/
theorem Written.exists_escapeChar {c : Char} {cs : List Char} (h : Written (c :: cs)) :
    ∃ d rest, c :: cs = escapeChar d ++ rest ∧ Written rest := by
  obtain ⟨d, rest, heq⟩ : ∃ d rest, c :: cs = escapeChar d ++ rest := by
    cases hc : isSpecial c with
    | true =>
      obtain rfl := h.plain c List.mem_cons_self hc
      obtain ⟨⟨d, e⟩, hmem, rest, hrest⟩ := h.entity [] cs rfl
      rw [toList_entity hmem] at hrest
      exact ⟨d, rest, hrest.symm⟩
    | false =>
      refine ⟨c, cs, ?_⟩
      rw [escapeChar_of_not_special hc, List.singleton_append]
  refine ⟨d, rest, heq, ?_⟩
  rw [heq] at h
  exact h.of_append

/-- Every written form is the written form of some text. -/
theorem Written.exists_flatMap {cs : List Char} (h : Written cs) :
    ∃ ds : List Char, ds.flatMap escapeChar = cs := by
  -- what follows the written form of the first character is shorter
  induction hn : cs.length using Nat.strongRecOn generalizing cs with
  | ind n ih =>
    cases cs with
    | nil => exact ⟨[], rfl⟩
    | cons c cs =>
      obtain ⟨d, rest, heq, hrest⟩ := h.exists_escapeChar
      have hlt : rest.length < n := by
        have hpos := List.length_pos_iff.mpr (escapeChar_ne_nil d)
        rw [← hn, heq, List.length_append]
        omega
      obtain ⟨ds, hds⟩ := ih rest.length hlt hrest rfl
      refine ⟨d :: ds, ?_⟩
      rw [List.flatMap_cons, hds, heq]

/-- The written form of a character before a written form is one. -/
theorem Written.escapeChar_append {cs : List Char} (h : Written cs) (c : Char) :
    Written (escapeChar c ++ cs) where
  plain d hd hspecial := by
    rcases List.mem_append.mp hd with hd | hd
    · by_cases hamp : d = '&'
      · exact hamp
      · rw [not_special_of_mem_escapeChar hd hamp] at hspecial
        cases hspecial
    · exact h.plain d hd hspecial
  entity before after heq := by
    rcases List.append_eq_append_iff.mp heq with ⟨before', -, hrest⟩ | ⟨start, hchar, hrest⟩
    · exact h.entity before' after hrest
    · cases start with
      | nil => exact h.entity [] after hrest.symm
      | cons d start =>
        obtain ⟨rfl, hafter⟩ := List.cons.inj hrest
        obtain ⟨rfl, hspecial⟩ := entity_of_ampersand hchar
        obtain ⟨e, hmem⟩ := exists_entity hspecial
        refine ⟨(c, e), hmem, cs, ?_⟩
        rw [toList_entity hmem, hrest, hchar]
        rfl

theorem written_escape (s : String) : Written (escape s).toList := by
  rw [toList_escape]
  induction s.toList with
  | nil => exact ⟨by simp, by simp⟩
  | cons c cs ih =>
    rw [List.flatMap_cons]
    exact ih.escapeChar_append c

theorem written_iff (s : String) : Written s.toList ↔ ∃ t, escape t = s := by
  constructor
  · intro h
    obtain ⟨cs, hcs⟩ := h.exists_flatMap
    refine ⟨String.ofList cs, String.toList_injective ?_⟩
    rw [toList_escape, String.toList_ofList, hcs]
  · rintro ⟨t, rfl⟩
    exact written_escape t

/-! ## Scanning -/

/-- Some characters with each entity replaced by its character, in one scan from left to right. -/
def scan : List Char → List Char
  | [] => []
  | '&' :: 'a' :: 'm' :: 'p' :: ';' :: cs => '&' :: scan cs
  | '&' :: 'l' :: 't' :: ';' :: cs => '<' :: scan cs
  | '&' :: 'g' :: 't' :: ';' :: cs => '>' :: scan cs
  | '&' :: 'q' :: 'u' :: 'o' :: 't' :: ';' :: cs => '\x22' :: scan cs
  | '&' :: 'a' :: 'p' :: 'o' :: 's' :: ';' :: cs => '\x27' :: scan cs
  | c :: cs => c :: scan cs

/-- A text with each entity replaced by its character. -/
def unescape (s : String) : String := String.ofList (scan s.toList)

/-- The written form of a character is scanned as that character. -/
theorem scan_escapeChar_append (c : Char) (cs : List Char) :
    scan (escapeChar c ++ cs) = c :: scan cs := by
  cases hc : isSpecial c with
  | true => rcases special_cases hc with rfl | rfl | rfl | rfl | rfl <;> rfl
  | false =>
    have hamp : c ≠ '&' := by
      rintro rfl
      cases hc
    rw [escapeChar_of_not_special hc, List.singleton_append, scan]
    all_goals simp [hamp]

/-- Scanning takes every written form back to its text. -/
theorem unescape_escape (s : String) : unescape (escape s) = s := by
  have hscan : scan (s.toList.flatMap escapeChar) = s.toList := by
    induction s.toList with
    | nil => rfl
    | cons c cs ih => rw [List.flatMap_cons, scan_escapeChar_append, ih]
  rw [unescape, toList_escape, hscan, String.ofList_toList]

/--
Escaping texts is a homomorphism whose values can be read in one way only: in them the only
character with a meaning is the ampersand, an entity starts at each one, and one scan from left to
right takes them back.  So two texts have different written forms, the written form of a written
form is scanned as that written form, and every text of this shape is written again as it is after
it has been scanned.
-/
theorem escape_uniquely_decodable (s t : String) :
    Html.escapeTerm (.text s) = .ok (escape s) ∧
      escape (s ++ t) = escape s ++ escape t ∧
      Written (escape s).toList ∧
      unescape (escape s) = s ∧
      (escape s = escape t → s = t) ∧
      unescape (escape (escape s)) = escape s ∧
      (Written t.toList → escape (unescape t) = t) := by
  refine ⟨rfl, escape_append s t, written_escape s, unescape_escape s, escape_injective,
    unescape_escape (escape s), ?_⟩
  intro h
  obtain ⟨u, rfl⟩ := (written_iff t).mp h
  rw [unescape_escape]

/-- Text that looks like an entity is escaped like any other, and scanned as it was. -/
theorem escape_uniquely_decodable_lookalike :
    escape ("&lt; " ++ "&amp;amp") = escape "&lt; " ++ escape "&amp;amp" ∧
      escape "&lt; " = "&amp;lt; " ∧
      unescape "&amp;lt; " = "&lt; " ∧
      Written (escape "&amp;").toList ∧
      escape (unescape (escape "&amp;")) = escape "&amp;" := by
  have hform : escape "&lt; " = "&amp;lt; " := by decide
  obtain ⟨-, happend, -, hback, -⟩ := escape_uniquely_decodable "&lt; " "&amp;amp"
  obtain ⟨-, -, hwritten, -⟩ := escape_uniquely_decodable "&amp;" ""
  obtain ⟨-, -, -, -, -, -, hagain⟩ := escape_uniquely_decodable "" (escape "&amp;")
  exact ⟨happend, hform, hform ▸ hback, hwritten, hagain hwritten⟩

end Markup.Text
