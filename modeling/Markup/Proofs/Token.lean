import Markup.Proofs.Text.Entity
import Markup.Proofs.Tree.Rendered

/-!
# Reading written markup

A `Token` is an opening tag with its pairs, a closing tag, or a text.  `Token.read` is a reader of
markup that knows nothing of trees: it goes through a text character by character, and a `State`
says what it stands in.  A name goes on until a character that no name has, a value until the
next quote, a text until the next `<`, and entities are read back in values and texts.  Anything
else is refused.

`Token.writeAll` writes tokens with entities.  The main statement is `run_writeAll`: what is written
is read as the same tokens, with adjacent texts merged and empty ones left out, as long as names and
keys are names.
-/

namespace Markup

/-- What a reader of markup finds. -/
inductive Token where
  | opening (name : String) (pairs : List (String × String))
  | closing (name : String)
  | text (s : String)
deriving DecidableEq

namespace Token

/-- A text before some tokens: merged with the text they begin with, and left out if empty. -/
def consText (s : String) : List Token → List Token
  | .text t :: ts => .text (s ++ t) :: ts
  | ts => if s = "" then ts else .text s :: ts

/-- Tokens with adjacent texts merged and empty ones left out. -/
def merge : List Token → List Token
  | [] => []
  | .text s :: ts => consText s (merge ts)
  | t :: ts => t :: merge ts

@[simp] theorem consText_empty (ts : List Token) : consText "" ts = ts := by
  cases ts with
  | nil => rfl
  | cons t ts => cases t <;> simp [consText]

theorem consText_append (s t : String) (ts : List Token) :
    consText (s ++ t) ts = consText s (consText t ts) := by
  by_cases ht : t = ""
  · rw [ht, consText_empty, String.append_empty]
  · have hst : s ++ t ≠ "" := by simp [ht]
    cases ts with
    | nil => simp [consText, ht]
    | cons u ts => cases u <;> simp [consText, ht, String.append_assoc]

/-! ## The reader -/

/-- The white space that ends a name. -/
def nameEnds : List Char := [' ', '\t', '\n', '\x0c', '\r']

/-- Whether a character can be part of a name. -/
def isNameChar (c : Char) : Bool :=
  !Text.isSpecial c && !nameEnds.contains c && c != '=' && c != '/'

/-- Whether a text can be a name: it is not empty, and each of its characters can. -/
def IsName (s : String) : Prop := s ≠ "" ∧ ∀ c ∈ s.toList, isNameChar c

instance : DecidablePred IsName := fun s =>
  decidable_of_iff (s ≠ "" ∧ s.toList.all isNameChar = true) (by rw [List.all_eq_true, IsName])

/-- What a reader stands in, with what it has read of it. -/
inductive State where
  | text (raw : List Char)
  /-- Behind the `<` of a tag. -/
  | tag
  | name (raw : List Char)
  | closing (raw : List Char)
  | key (name : String) (pairs : List (String × String)) (raw : List Char)
  /-- Behind the `=` of an attribute. -/
  | equals (name : String) (pairs : List (String × String)) (key : String)
  | value (name : String) (pairs : List (String × String)) (key : String) (raw : List Char)
  /-- Behind the last quote of an attribute. -/
  | gap (name : String) (pairs : List (String × String))

namespace State

/-- The token of a text, if it is one and not empty. -/
def textTokens (raw : List Char) : Option (List Token) :=
  (Text.decode raw).map fun cs => consText (String.ofList cs) []

/-- One character further: the tokens that end there, and what comes next. -/
def step : State → Char → Option (List Token × State)
  | text raw, c =>
    if c = '<' then (textTokens raw).map (·, tag) else some ([], text (raw ++ [c]))
  | tag, c =>
    if c = '/' then some ([], closing [])
    else if isNameChar c then some ([], name [c]) else none
  | name raw, c =>
    if isNameChar c then some ([], name (raw ++ [c]))
    else if c = ' ' then some ([], key (String.ofList raw) [] [])
    else if c = '>' then some ([.opening (String.ofList raw) []], text []) else none
  | closing raw, c =>
    if isNameChar c then some ([], closing (raw ++ [c]))
    else if c = '>' ∧ raw ≠ [] then some ([.closing (String.ofList raw)], text []) else none
  | key n pairs raw, c =>
    if isNameChar c then some ([], key n pairs (raw ++ [c]))
    else if c = '=' ∧ raw ≠ [] then some ([], equals n pairs (String.ofList raw)) else none
  | equals n pairs k, c => if c = '\x22' then some ([], value n pairs k []) else none
  | value n pairs k raw, c =>
    if c = '\x22' then
      (Text.decode raw).map fun cs => ([], gap n (pairs ++ [(k, String.ofList cs)]))
    else some ([], value n pairs k (raw ++ [c]))
  | gap n pairs, c =>
    if c = ' ' then some ([], key n pairs [])
    else if c = '>' then some ([.opening n pairs], text []) else none

/-- What is found in the rest of a text; it has to end outside of tags. -/
def run : State → List Char → Option (List Token)
  | text raw, [] => textTokens raw
  | _, [] => none
  | s, c :: cs =>
    match s.step c with
    | some (ts, s) => (ts ++ ·) <$> s.run cs
    | none => none

end State

/-- The tokens of a text. -/
def read (s : String) : Option (List Token) := State.run (.text []) s.toList

namespace State

theorem run_cons {s s' : State} {c : Char} {ts : List Token} (h : s.step c = some (ts, s'))
    (cs : List Char) : s.run (c :: cs) = (ts ++ ·) <$> s'.run cs := by
  simp only [run, h]

theorem run_silent {s s' : State} {c : Char} (h : s.step c = some ([], s')) (cs : List Char) :
    s.run (c :: cs) = s'.run cs := by
  rw [run_cons h]
  cases s'.run cs <;> rfl

/-- A state that takes in characters one by one takes in a run of them. -/
theorem run_collect {collecting : List Char → State} {p : Char → Prop}
    (hstep : ∀ raw c, p c → (collecting raw).step c = some ([], collecting (raw ++ [c])))
    (raw cs rest : List Char) (hcs : ∀ c ∈ cs, p c) :
    (collecting raw).run (cs ++ rest) = (collecting (raw ++ cs)).run rest := by
  induction cs generalizing raw with
  | nil => simp
  | cons c cs ih =>
    have hc := hstep raw c (hcs c List.mem_cons_self)
    rw [List.cons_append, run_silent hc, ih _ fun d hd => hcs d (List.mem_cons_of_mem c hd)]
    simp

theorem run_text (raw cs rest : List Char) (hcs : '<' ∉ cs) :
    (text raw).run (cs ++ rest) = (text (raw ++ cs)).run rest :=
  run_collect (p := (· ≠ '<')) (fun _ _ hc => by rw [step, if_neg hc]) raw cs rest
    fun c hc h => hcs (h ▸ hc)

theorem run_name (raw cs rest : List Char) (hcs : ∀ c ∈ cs, isNameChar c) :
    (name raw).run (cs ++ rest) = (name (raw ++ cs)).run rest :=
  run_collect (p := (isNameChar ·)) (fun _ _ hc => by rw [step, if_pos hc]) raw cs rest hcs

theorem run_closing (raw cs rest : List Char) (hcs : ∀ c ∈ cs, isNameChar c) :
    (closing raw).run (cs ++ rest) = (closing (raw ++ cs)).run rest :=
  run_collect (p := (isNameChar ·)) (fun _ _ hc => by rw [step, if_pos hc]) raw cs rest hcs

theorem run_key (n : String) (pairs : List (String × String)) (raw cs rest : List Char)
    (hcs : ∀ c ∈ cs, isNameChar c) :
    (key n pairs raw).run (cs ++ rest) = (key n pairs (raw ++ cs)).run rest :=
  run_collect (p := (isNameChar ·)) (fun _ _ hc => by rw [step, if_pos hc]) raw cs rest hcs

theorem run_value (n : String) (pairs : List (String × String)) (k : String)
    (raw cs rest : List Char) (hcs : '\x22' ∉ cs) :
    (value n pairs k raw).run (cs ++ rest) = (value n pairs k (raw ++ cs)).run rest :=
  run_collect (p := (· ≠ '\x22')) (fun _ _ hc => by rw [step, if_neg hc]) raw cs rest
    fun c hc h => hcs (h ▸ hc)

/-- A text that is written with entities ends at the next tag. -/
theorem run_text_tag (s : String) (rest : List Char) :
    (text (Text.escape s).toList).run ('<' :: rest) = (consText s [] ++ ·) <$> tag.run rest := by
  refine run_cons ?_ rest
  rw [step, if_pos rfl, textTokens, Text.decode_escape]
  simp

/-- From the key of an attribute to behind its last quote. -/
theorem run_attribute {n k : String} (pairs : List (String × String)) (v : String)
    (rest : List Char) (hk : IsName k) :
    (key n pairs []).run (k.toList ++ '=' :: '\x22' :: ((Text.escape v).toList ++ '\x22' :: rest)) =
      (gap n (pairs ++ [(k, v)])).run rest := by
  have hne : k.toList ≠ [] := by simpa using hk.1
  have hquote : '\x22' ∉ (Text.escape v).toList := Text.not_mem_escape rfl (by decide) v
  have hequals : (key n pairs k.toList).step '=' = some ([], equals n pairs k) := by
    rw [step, if_neg (by decide), if_pos ⟨rfl, hne⟩, String.ofList_toList]
  have hopen : (equals n pairs k).step '\x22' = some ([], value n pairs k []) := rfl
  have hclose : (value n pairs k (Text.escape v).toList).step '\x22' =
      some ([], gap n (pairs ++ [(k, v)])) := by
    rw [step, if_pos rfl, Text.decode_escape]
    simp
  rw [run_key n pairs [] _ _ hk.2, List.nil_append, run_silent hequals, run_silent hopen,
    run_value n pairs k [] _ _ hquote, List.nil_append, run_silent hclose]

/-- From behind an attribute to the end of the opening tag. -/
theorem run_gap {n : String} (done pairs : List (String × String)) (rest : List Char)
    (hkeys : ∀ e ∈ pairs, IsName e.1) :
    (gap n done).run ((Html.attributesText pairs).toList ++ '>' :: rest) =
      ([.opening n (done ++ pairs)] ++ ·) <$> (text []).run rest := by
  induction pairs generalizing done with
  | nil =>
    have hend : (gap n done).step '>' = some ([.opening n done], text []) := rfl
    rw [List.append_nil]
    exact run_cons hend rest
  | cons e pairs ih =>
    have hspace : (gap n done).step ' ' = some ([], key n done []) := rfl
    have hwritten : (Html.attributesText (e :: pairs)).toList ++ '>' :: rest =
        ' ' :: (e.1.toList ++ '=' :: '\x22' :: ((Text.escape e.2).toList ++
          '\x22' :: ((Html.attributesText pairs).toList ++ '>' :: rest))) := by
      simp [Html.attributesText, Html.attributeText]
    rw [hwritten, run_silent hspace, run_attribute done e.2 _ (hkeys e List.mem_cons_self),
      ih _ fun d hd => hkeys d (List.mem_cons_of_mem e hd), List.append_assoc]
    rfl

/-- From the name of an opening tag to its end. -/
theorem run_attributes {n : String} (pairs : List (String × String)) (rest : List Char)
    (hkeys : ∀ e ∈ pairs, IsName e.1) :
    (name n.toList).run ((Html.attributesText pairs).toList ++ '>' :: rest) =
      ([.opening n pairs] ++ ·) <$> (text []).run rest := by
  cases pairs with
  | nil =>
    have hend : (name n.toList).step '>' = some ([.opening n []], text []) := by
      rw [step, if_neg (by decide), if_neg (by decide), if_pos rfl, String.ofList_toList]
    exact run_cons hend rest
  | cons e pairs =>
    -- Behind a name the first space leads where it leads behind an attribute.
    have hspace : (name n.toList).step ' ' = (gap n []).step ' ' := by
      rw [step, if_neg (by decide), if_pos rfl, String.ofList_toList]
      rfl
    have hfirst : (Html.attributesText (e :: pairs)).toList =
        ' ' :: (Html.attributesText (e :: pairs)).toList.tail := by
      simp [Html.attributesText, Html.attributeText]
    have hgap := run_gap (n := n) [] (e :: pairs) rest hkeys
    rw [hfirst, List.cons_append, run, ← hspace] at hgap
    rw [hfirst, List.cons_append, run, hgap, List.nil_append]

/-- From behind the bracket of an opening tag to the end of it. -/
theorem run_tag_opening {n : String} (pairs : List (String × String)) (rest : List Char)
    (hn : IsName n) (hkeys : ∀ e ∈ pairs, IsName e.1) :
    tag.run (n.toList ++ ((Html.attributesText pairs).toList ++ '>' :: rest)) =
      ([.opening n pairs] ++ ·) <$> (text []).run rest := by
  have hne : n.toList ≠ [] := by simpa using hn.1
  obtain ⟨c, cs, hcs⟩ := List.exists_cons_of_ne_nil hne
  have hc : isNameChar c := hn.2 c (hcs ▸ List.mem_cons_self)
  have hslash : c ≠ '/' := by
    rintro rfl
    cases hc
  have hfirst : tag.step c = some ([], name [c]) := by rw [step, if_neg hslash, if_pos hc]
  have hrest : ∀ d ∈ cs, isNameChar d := fun d hd => hn.2 d (hcs ▸ List.mem_cons_of_mem c hd)
  rw [hcs, List.cons_append, run_silent hfirst, run_name [c] cs _ hrest, List.singleton_append,
    ← hcs, run_attributes pairs rest hkeys]

/-- From behind the bracket of a closing tag to the end of it. -/
theorem run_tag_closing {n : String} (rest : List Char) (hn : IsName n) :
    tag.run ('/' :: (n.toList ++ '>' :: rest)) = ([.closing n] ++ ·) <$> (text []).run rest := by
  have hne : n.toList ≠ [] := by simpa using hn.1
  have hslash : tag.step '/' = some ([], closing []) := rfl
  have hend : (closing n.toList).step '>' = some ([.closing n], text []) := by
    rw [step, if_neg (by decide), if_pos ⟨rfl, hne⟩, String.ofList_toList]
  rw [run_silent hslash, run_closing [] _ _ hn.2, List.nil_append]
  exact run_cons hend rest

end State

/-! ## Written tokens -/

/-- The written form of a token. -/
def write : Token → String
  | .opening n pairs => Html.openingTag n pairs
  | .closing n => Html.closingTag n
  | .text s => Text.escape s

/-- The written forms of some tokens, one after the other. -/
def writeAll (ts : List Token) : List Char := ts.flatMap fun t => t.write.toList

@[simp] theorem writeAll_nil : writeAll [] = [] := rfl

@[simp] theorem writeAll_cons (t : Token) (ts : List Token) :
    writeAll (t :: ts) = t.write.toList ++ writeAll ts := rfl

@[simp] theorem writeAll_append (ts us : List Token) :
    writeAll (ts ++ us) = writeAll ts ++ writeAll us := List.flatMap_append

theorem writeAll_consText (s : String) (ts : List Token) :
    writeAll (consText s ts) = (Text.escape s).toList ++ writeAll ts := by
  by_cases hs : s = ""
  · rw [hs, consText_empty]
    rfl
  · cases ts with
    | nil => simp [consText, hs, write]
    | cons t ts => cases t <;> simp [consText, hs, write, Text.escape_append]

/-- Merging texts changes nothing in what is written. -/
theorem writeAll_merge (ts : List Token) : writeAll (merge ts) = writeAll ts := by
  induction ts with
  | nil => rfl
  | cons t ts ih => cases t <;> simp [merge, writeAll_consText, ih, write]

/-- A token can be read back: its names and keys are names. -/
def Readable : Token → Prop
  | .opening n pairs => IsName n ∧ ∀ e ∈ pairs, IsName e.1
  | .closing n => IsName n
  | .text _ => True

/-- Behind a text, written tokens are read as what they are, texts merged. -/
theorem run_writeAll (s : String) (ts : List Token) (h : ∀ t ∈ ts, t.Readable) :
    (State.text (Text.escape s).toList).run (writeAll ts) = some (consText s (merge ts)) := by
  induction ts generalizing s with
  | nil =>
    rw [writeAll_nil, State.run, State.textTokens, Text.decode_escape]
    simp [merge]
  | cons t ts ih =>
    have ht := h t List.mem_cons_self
    have ihts := fun s => ih s fun u hu => h u (List.mem_cons_of_mem t hu)
    have hclean : (State.text []).run (writeAll ts) = some (merge ts) := by simpa using ihts ""
    cases t with
    | text x =>
      have hbracket : '<' ∉ (Text.escape x).toList := Text.not_mem_escape rfl (by decide) x
      rw [writeAll_cons, write, State.run_text _ _ _ hbracket, ← String.toList_append,
        ← Text.escape_append, ihts, merge, consText_append]
    | opening n pairs =>
      have hwritten : writeAll (.opening n pairs :: ts) =
          '<' :: (n.toList ++ ((Html.attributesText pairs).toList ++ '>' :: writeAll ts)) := by
        simp [write, Html.openingTag]
      rw [hwritten, State.run_text_tag, State.run_tag_opening pairs _ ht.1 ht.2,
        hclean]
      by_cases hs : s = "" <;> simp [merge, consText, hs]
    | closing n =>
      have hwritten : writeAll (.closing n :: ts) =
          '<' :: '/' :: (n.toList ++ '>' :: writeAll ts) := by
        simp [write, Html.closingTag]
      rw [hwritten, State.run_text_tag, State.run_tag_closing _ ht, hclean]
      by_cases hs : s = "" <;> simp [merge, consText, hs]

end Token

end Markup
