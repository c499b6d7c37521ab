import Markup.Proofs.Token

/-!
# The tokens of a tree

`Tree.tokens` is what a tree holds in document order: the opening tag of each node with its shown
pairs, its content and children, and its closing tag, which only a void node without content and
children lacks.  Adjacent texts are merged, and empty ones left out.

The main statement is `read_render`: where names and keys are names, the written form of a tree is
read as exactly these tokens, whatever its values and texts are.
-/

namespace Markup

namespace Tree

mutual

/-- What a tree holds in document order, each text for itself. -/
def parts : Tree → List Token
  | .text s => [.text s]
  | .node h children =>
    .opening h.name h.pairs ::
      if h.opensOnly children then []
      else .text h.text :: (partsOf children ++ [.closing h.name])

/-- What some trees hold, one after the other. -/
def partsOf : List Tree → List Token
  | [] => []
  | t :: ts => t.parts ++ partsOf ts

end

/-- The tokens of a tree. -/
def tokens (t : Tree) : List Token := Token.merge t.parts

/-- A tree is written as its parts are. -/
theorem toList_html (t : Tree) : t.html.toList = Token.writeAll t.parts := by
  induction t with
  | text s => simp [html, parts, Token.write]
  | node h children ih =>
    have hbelow : (htmlOf children).toList = Token.writeAll (partsOf children) := by
      induction children with
      | nil => rfl
      | cons c cs ihcs =>
        rw [htmlOf, partsOf, String.toList_append, Token.writeAll_append,
          ih c List.mem_cons_self, ihcs fun d hd => ih d (List.mem_cons_of_mem c hd)]
    rw [html, parts]
    by_cases ho : h.opensOnly children
    · simp [ho, Token.write]
    · simp [ho, Token.write, hbelow]

end Tree

/-- The name and the keys of the plain attributes are names. -/
def Head.Readable (h : Head) : Prop := Token.IsName h.name ∧ ∀ e ∈ h.attrs, Token.IsName e.1

instance : DecidablePred Head.Readable := fun h =>
  inferInstanceAs (Decidable (Token.IsName h.name ∧ ∀ e ∈ h.attrs, Token.IsName e.1))

namespace Head

variable {h : Head}

/-- The keys of the pairs before the plain attributes. -/
theorem key_of_mem_ownPairs {e : String × String} (he : e ∈ h.ownPairs) :
    e.1 = "id" ∨ e.1 = "class" ∨ e.1 = "style" := by
  simp only [ownPairs, List.mem_append, Option.mem_toList, Option.map_eq_some_iff] at he
  rcases he with (⟨_, -, rfl⟩ | hclass) | ⟨_, -, rfl⟩
  · exact Or.inl rfl
  · split at hclass
    · cases hclass
    · rw [List.mem_singleton] at hclass
      exact Or.inr (Or.inl (congrArg Prod.fst hclass))
  · exact Or.inr (Or.inr rfl)

theorem isName_of_mem_pairs (hr : h.Readable) {e : String × String} (he : e ∈ h.pairs) :
    Token.IsName e.1 := by
  rcases List.mem_append.mp he with he | he
  · rcases key_of_mem_ownPairs he with hk | hk | hk
    all_goals
      rw [hk]
      decide
  · have hkey : e.1 ∈ Entries.keys h.attrs := h.keys_shownAttrs.subset (List.mem_map_of_mem he)
    obtain ⟨a, ha, hk⟩ := List.mem_map.mp hkey
    rw [← hk]
    exact hr.2 a ha

end Head

/-- In a tree whose nodes are readable every part is. -/
theorem Tree.readable_of_mem_parts {t : Tree} (hr : ∀ n ∈ t.nodes, n.1.Readable) :
    ∀ p ∈ t.parts, p.Readable := by
  induction t with
  | text s =>
    intro p hp
    rw [parts, List.mem_singleton] at hp
    rw [hp]
    trivial
  | node h children ih =>
    rw [nodes_node] at hr
    have hhead : h.Readable := hr _ List.mem_cons_self
    have hbelow : ∀ p ∈ partsOf children, p.Readable := by
      have hchildren : ∀ c ∈ children, ∀ p ∈ c.parts, p.Readable := fun c hc =>
        ih c hc fun n hn => hr n (List.mem_cons_of_mem _ (List.mem_flatMap.mpr ⟨c, hc, hn⟩))
      clear ih hr
      induction children with
      | nil => simp [partsOf]
      | cons c cs ihcs =>
        intro p hp
        rcases List.mem_append.mp hp with hp | hp
        · exact hchildren c List.mem_cons_self p hp
        · exact ihcs (fun d hd => hchildren d (List.mem_cons_of_mem c hd)) p hp
    intro p hp
    rw [parts] at hp
    rcases List.mem_cons.mp hp with rfl | hp
    · exact ⟨hhead.1, fun e he => Head.isName_of_mem_pairs hhead he⟩
    · split at hp
      · cases hp
      · simp only [List.mem_cons, List.mem_append, List.not_mem_nil, or_false] at hp
        rcases hp with rfl | hp | rfl
        · trivial
        · exact hbelow p hp
        · exact hhead.1

/-- The written form of a tree is read as the tokens of the tree. -/
theorem Tree.read_html {t : Tree} (hr : ∀ n ∈ t.nodes, n.1.Readable) :
    Token.read t.html = some t.tokens := by
  have hrun := Token.run_writeAll "" t.parts (readable_of_mem_parts hr)
  rw [Token.consText_empty] at hrun
  rw [Token.read, toList_html]
  exact hrun

/-- What is written of a value that shows a tree is read as the tokens of the tree. -/
theorem read_render {w : World} {v : Value} {h : Head} {children : List Tree}
    (shown : (w.read v).Shows (.node h children))
    (readable : ∀ n ∈ (Tree.node h children).nodes, n.1.Readable) :
    ∃ text, (Operation.render v).runIn w = (.ok text, w) ∧
      Token.read text = some (Tree.node h children).tokens :=
  ⟨_, Operation.render_of_shows shown, Tree.read_html readable⟩

/-- A node whose fields and child would all break out of their places. -/
def breakingWorld : World := .ofObjects #[
  .list [.text "\x22 onload=\x22x"], .map [], .map [(.text "title", .text "'>&amp;")],
  .list [.text "</p><p>"],
  .node ⟨.text "p", .bool false, .text "<", .ref 0, .none, .ref 1, .ref 2, .text "a&lt;", .ref 3⟩]

/-- The head of that node. -/
def breakingHead : Head :=
  { Head.bare "p" false with
    id := some "<", classes := ["\x22 onload=\x22x"], attrs := [("title", .text "'>&amp;")]
    content := some "a&lt;", attrs_nodup := by decide }

theorem read_render_breaking : ∃ text, (Operation.render (.ref 4)).runIn breakingWorld =
      (.ok text, breakingWorld) ∧ Token.read text = some [
        .opening "p" [("id", "<"), ("class", "\x22 onload=\x22x"), ("title", "'>&amp;")],
        .text "a&lt;</p><p>", .closing "p"] := by
  have shown : (breakingWorld.read (.ref 4)).Shows (.node breakingHead [.text "</p><p>"]) :=
    .node ⟨rfl, rfl, rfl, ⟨_, rfl⟩, rfl, ⟨_, _, rfl, .nil⟩, ⟨_, rfl⟩, rfl⟩ rfl
      (.cons (.text _) .nil)
  exact read_render shown (by decide)

end Markup
