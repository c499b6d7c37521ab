import Markup.Proofs.Tree.Tokens

/-!
# What the written form keeps of a tree

The `Normal` form of a node is its name, the pairs that it shows, and the normal forms of what is
below it, with the content for a first text, adjacent texts merged and empty ones left out.

A normal form is given by its tokens once it is settled which names are void
(`tokensOf_append_inj`): an opening tag is followed by what is below it and by its closing tag,
unless its name is void.  So trees whose void flags follow one set of names, and whose void nodes
are empty, have the same written form exactly if they have the same normal form (`render_eq_iff`).
-/

namespace Markup

/-- What the written form shows of a node or a text. -/
inductive Normal where
  | text (s : String)
  | node (name : String) (pairs : List (String × String)) (children : List Normal)

namespace Normal

@[elab_as_elim, induction_eliminator]
theorem ind {p : Normal → Prop} (text : ∀ s, p (.text s))
    (node : ∀ name pairs children, (∀ c ∈ children, p c) → p (.node name pairs children))
    (n : Normal) : p n := by
  refine n.rec (motive_2 := fun children => ∀ c ∈ children, p c) text node ?_ ?_
  · intro c hc
    cases hc
  · intro n ns hn hns c hc
    rcases List.mem_cons.mp hc with rfl | hc
    · exact hn
    · exact hns c hc

/-- A text before some normal forms: merged with the text they begin with, left out if empty. -/
def consText (s : String) : List Normal → List Normal
  | .text t :: ns => .text (s ++ t) :: ns
  | ns => if s = "" then ns else .text s :: ns

/-! ## Tokens of normal forms -/

variable (isVoid : String → Bool)

mutual

/-- The tokens of a normal form; a void name has no closing tag. -/
def tokens : Normal → List Token
  | .text s => [.text s]
  | .node name pairs children =>
    .opening name pairs :: if isVoid name then [] else tokensOf children ++ [.closing name]

/-- The tokens of some normal forms, one after the other. -/
def tokensOf : List Normal → List Token
  | [] => []
  | n :: ns => n.tokens ++ tokensOf ns

end

/-- What has a void name has nothing below it. -/
inductive Fits : Normal → Prop
  | text (s : String) : Fits (.text s)
  | node {name : String} {pairs : List (String × String)} {children : List Normal}
      (empty : isVoid name → children = []) (below : ∀ c ∈ children, Fits c) :
      Fits (.node name pairs children)

/-- Some tokens with which no normal form begins. -/
def Closes (ts : List Token) : Prop := ts = [] ∨ ∃ name rest, ts = .closing name :: rest

variable {isVoid}

theorem tokensOf_consText (s : String) (ns : List Normal) {ts : List Token} (h : Closes ts) :
    Token.consText s (tokensOf isVoid ns ++ ts) = tokensOf isVoid (consText s ns) ++ ts := by
  cases ns with
  | nil =>
    rcases h with rfl | ⟨name, rest, rfl⟩ <;> by_cases hs : s = "" <;>
      simp [tokensOf, tokens, consText, Token.consText, hs]
  | cons n ns =>
    cases n with
    | text t => simp [tokensOf, tokens, consText, Token.consText]
    | node name pairs children =>
      by_cases hs : s = "" <;> simp [tokensOf, tokens, consText, Token.consText, hs]

/-- No normal form begins like what closes a list of them. -/
theorem tokens_append_not_closes (n : Normal) (ts : List Token) :
    ¬ Closes (tokens isVoid n ++ ts) := by
  rintro (h | ⟨name, rest, h⟩) <;> cases n <;> simp [tokens] at h

/-- The tokens of a list of normal forms are told apart from what closes the list. -/
theorem tokensOf_append_inj_of {f g : List Normal} {ts us : List Token}
    (each : ∀ n ∈ f, ∀ m ∈ g, ∀ ts us,
      tokens isVoid n ++ ts = tokens isVoid m ++ us → n = m ∧ ts = us)
    (hts : Closes ts) (hus : Closes us)
    (h : tokensOf isVoid f ++ ts = tokensOf isVoid g ++ us) : f = g ∧ ts = us := by
  induction f generalizing g with
  | nil =>
    cases g with
    | nil => exact ⟨rfl, h⟩
    | cons m ms =>
      rw [tokensOf, tokensOf, List.append_assoc, List.nil_append] at h
      exact absurd (h ▸ hts) (tokens_append_not_closes m _)
  | cons n ns ih =>
    cases g with
    | nil =>
      rw [tokensOf, tokensOf, List.append_assoc, List.nil_append] at h
      exact absurd (h ▸ hus) (tokens_append_not_closes n _)
    | cons m ms =>
      rw [tokensOf, tokensOf, List.append_assoc, List.append_assoc] at h
      obtain ⟨rfl, hrest⟩ := each n List.mem_cons_self m List.mem_cons_self _ _ h
      have heach : ∀ a ∈ ns, ∀ b ∈ ms, ∀ ts us,
          tokens isVoid a ++ ts = tokens isVoid b ++ us → a = b ∧ ts = us := fun a ha b hb =>
        each a (List.mem_cons_of_mem n ha) b (List.mem_cons_of_mem n hb)
      obtain ⟨rfl, hts⟩ := ih heach hrest
      exact ⟨rfl, hts⟩

/-- A normal form is given by its tokens, whatever follows them. -/
theorem tokens_append_inj {n m : Normal} (hn : n.Fits isVoid) (hm : m.Fits isVoid)
    {ts us : List Token} (h : tokens isVoid n ++ ts = tokens isVoid m ++ us) :
    n = m ∧ ts = us := by
  induction n generalizing m ts us with
  | text s =>
    cases m with
    | text t => simpa [tokens] using h
    | node name pairs children => simp [tokens] at h
  | node name pairs children ih =>
    cases m with
    | text t => simp [tokens] at h
    | node name' pairs' children' =>
      cases hn with
      | node empty below =>
        cases hm with
        | node empty' below' =>
          rw [tokens, tokens, List.cons_append, List.cons_append, List.cons.injEq,
            Token.opening.injEq] at h
          obtain ⟨⟨rfl, rfl⟩, h⟩ := h
          by_cases hv : isVoid name
          · rw [if_pos hv, if_pos hv] at h
            rw [empty hv, empty' hv]
            exact ⟨rfl, h⟩
          · rw [if_neg hv, if_neg hv, List.append_assoc, List.append_assoc] at h
            have hclosed : ∀ rest : List Token, Closes ([.closing name] ++ rest) :=
              fun rest => Or.inr ⟨name, rest, rfl⟩
            obtain ⟨rfl, hrest⟩ := tokensOf_append_inj_of
              (fun a ha b hb ts us => ih a ha (below a ha) (below' b hb))
              (hclosed ts) (hclosed us) h
            exact ⟨rfl, List.append_cancel_left hrest⟩

end Normal

/-! ## The normal form of a tree -/

namespace Tree

mutual

/-- The normal form of a tree before some others, with which a text may merge. -/
def normalBefore : Tree → List Normal → List Normal
  | .text s, ns => Normal.consText s ns
  | .node h children, ns =>
    .node h.name h.pairs (Normal.consText h.text (normalsOf children)) :: ns

/-- The normal forms of some trees that follow one another. -/
def normalsOf : List Tree → List Normal
  | [] => []
  | t :: ts => t.normalBefore (normalsOf ts)

end

/-- The normal form of a node. -/
def normal (h : Head) (children : List Tree) : Normal :=
  .node h.name h.pairs (Normal.consText h.text (normalsOf children))

/-- The void flag of a node is that of its name, and a void node is empty. -/
def FollowsVoid (isVoid : String → Bool) (n : Head × List Tree) : Prop :=
  n.1.isVoid = isVoid n.1.name ∧ (n.1.isVoid → n.1.text = "" ∧ n.2 = [])

variable {isVoid : String → Bool}

theorem opensOnly_of_followsVoid {h : Head} {children : List Tree}
    (hv : FollowsVoid isVoid (h, children)) : h.opensOnly children = isVoid h.name := by
  obtain ⟨hflag, hempty⟩ := hv
  simp only at hflag hempty
  rw [← hflag, Head.opensOnly]
  cases hvoid : h.isVoid with
  | false => rfl
  | true =>
    obtain ⟨htext, hchildren⟩ := hempty hvoid
    rw [htext, hchildren]
    rfl

theorem followsVoid_child {h : Head} {children : List Tree}
    (hv : ∀ n ∈ (Tree.node h children).nodes, FollowsVoid isVoid n) {c : Tree}
    (hc : c ∈ children) : ∀ n ∈ c.nodes, FollowsVoid isVoid n := by
  rw [nodes_node] at hv
  exact fun n hn => hv n (List.mem_cons_of_mem _ (List.mem_flatMap.mpr ⟨c, hc, hn⟩))

/-- Merging the parts of a tree gives the tokens of its normal form. -/
theorem merge_parts_append {t : Tree} (hv : ∀ n ∈ t.nodes, FollowsVoid isVoid n)
    {ts us : List Token} {ns : List Normal} (hus : Normal.Closes us)
    (h : Token.merge ts = Normal.tokensOf isVoid ns ++ us) :
    Token.merge (t.parts ++ ts) = Normal.tokensOf isVoid (t.normalBefore ns) ++ us := by
  induction t generalizing ts us ns with
  | text s =>
    rw [parts, List.singleton_append, Token.merge, h, normalBefore,
      Normal.tokensOf_consText s ns hus]
  | node head children ih =>
    have hopens := opensOnly_of_followsVoid (hv _ (by rw [nodes_node]; exact List.mem_cons_self))
    rw [parts, hopens, normalBefore, Normal.tokensOf, Normal.tokens]
    by_cases hvoid : isVoid head.name
    · rw [if_pos hvoid, if_pos hvoid, List.singleton_append, Token.merge, h]
      · rfl
      · simp
    · rw [if_neg hvoid, if_neg hvoid]
      -- What closes the children is the closing tag, then what follows the node.
      have hbelow : ∀ cs : List Tree, (∀ c ∈ cs, c ∈ children) →
          Token.merge (partsOf cs ++ .closing head.name :: ts) =
            Normal.tokensOf isVoid (normalsOf cs) ++
              .closing head.name :: (Normal.tokensOf isVoid ns ++ us) := by
        intro cs hcs
        induction cs with
        | nil =>
          rw [partsOf, normalsOf, Normal.tokensOf, List.nil_append, List.nil_append, Token.merge, h]
          simp
        | cons c cs ihcs =>
          have hc : c ∈ children := hcs c List.mem_cons_self
          rw [partsOf, normalsOf, List.append_assoc]
          exact ih c hc (followsVoid_child hv hc) (Or.inr ⟨_, _, rfl⟩)
            (ihcs fun d hd => hcs d (List.mem_cons_of_mem c hd))
      have hcloses : Normal.Closes (.closing head.name :: (Normal.tokensOf isVoid ns ++ us)) :=
        Or.inr ⟨_, _, rfl⟩
      have htext : Token.consText head.text (Normal.tokensOf isVoid (normalsOf children) ++ _) =
          Normal.tokensOf isVoid (Normal.consText head.text (normalsOf children)) ++ _ :=
        Normal.tokensOf_consText head.text (normalsOf children) hcloses
      rw [List.cons_append, List.cons_append, List.append_assoc, List.singleton_append,
        Token.merge, Token.merge, hbelow children fun _ hc => hc, htext]
      · simp
      · simp

/-- The tokens of a node are those of its normal form. -/
theorem tokens_node {h : Head} {children : List Tree}
    (hv : ∀ n ∈ (Tree.node h children).nodes, FollowsVoid isVoid n) :
    (Tree.node h children).tokens = Normal.tokens isVoid (normal h children) := by
  have hnil : Token.merge [] = Normal.tokensOf isVoid [] ++ [] := rfl
  have hmerge := merge_parts_append hv (Or.inl rfl) hnil
  rw [List.append_nil, List.append_nil, normalBefore, Normal.tokensOf, Normal.tokensOf,
    List.append_nil] at hmerge
  exact hmerge

theorem fits_consText {s : String} {ns : List Normal} (h : ∀ n ∈ ns, n.Fits isVoid) :
    ∀ n ∈ Normal.consText s ns, n.Fits isVoid := by
  intro n hn
  unfold Normal.consText at hn
  split at hn
  · rcases List.mem_cons.mp hn with rfl | hn
    · exact .text _
    · exact h n (List.mem_cons_of_mem _ hn)
  · split at hn
    · exact h n hn
    · rcases List.mem_cons.mp hn with rfl | hn
      · exact .text s
      · exact h n hn

theorem fits_normalBefore {t : Tree} (hv : ∀ n ∈ t.nodes, FollowsVoid isVoid n)
    {ns : List Normal} (hns : ∀ n ∈ ns, n.Fits isVoid) :
    ∀ n ∈ t.normalBefore ns, n.Fits isVoid := by
  induction t generalizing ns with
  | text s => exact fits_consText hns
  | node head children ih =>
    have hhead : FollowsVoid isVoid (head, children) :=
      hv _ (by rw [nodes_node]; exact List.mem_cons_self)
    have hbelow : ∀ cs : List Tree, (∀ c ∈ cs, c ∈ children) →
        ∀ n ∈ normalsOf cs, n.Fits isVoid := by
      intro cs hcs
      induction cs with
      | nil => simp [normalsOf]
      | cons c cs ihcs =>
        have hc : c ∈ children := hcs c List.mem_cons_self
        exact ih c hc (followsVoid_child hv hc)
          (ihcs fun d hd => hcs d (List.mem_cons_of_mem c hd))
    intro n hn
    rw [normalBefore] at hn
    rcases List.mem_cons.mp hn with rfl | hn
    · refine .node (fun hvoid => ?_) (fits_consText (hbelow children fun _ hc => hc))
      obtain ⟨htext, hchildren⟩ := hhead.2 (hhead.1.trans hvoid)
      simp only at htext hchildren
      rw [htext, hchildren]
      rfl
    · exact hns n hn

theorem fits_normal {h : Head} {children : List Tree}
    (hv : ∀ n ∈ (Tree.node h children).nodes, FollowsVoid isVoid n) :
    (normal h children).Fits isVoid := by
  have hnil : ∀ n ∈ ([] : List Normal), n.Fits isVoid := by simp
  exact fits_normalBefore hv hnil _ List.mem_cons_self

/-- What is written of a node is what is written of its normal form. -/
theorem toList_html_node {h : Head} {children : List Tree}
    (hv : ∀ n ∈ (Tree.node h children).nodes, FollowsVoid isVoid n) :
    (Tree.node h children).html.toList =
      Token.writeAll (Normal.tokens isVoid (normal h children)) := by
  rw [toList_html, ← tokens_node hv, tokens, Token.writeAll_merge]

end Tree

/--
Where the void flags of two values follow one set of names, and void nodes are empty, the two have
the same written form exactly if they have the same normal form.
-/
theorem render_eq_iff {isVoid : String → Bool} {w w' : World} {v v' : Value} {h h' : Head}
    {children children' : List Tree}
    (shown : (w.read v).Shows (.node h children))
    (shown' : (w'.read v').Shows (.node h' children'))
    (readable : ∀ n ∈ (Tree.node h children).nodes, n.1.Readable)
    (readable' : ∀ n ∈ (Tree.node h' children').nodes, n.1.Readable)
    (void : ∀ n ∈ (Tree.node h children).nodes, Tree.FollowsVoid isVoid n)
    (void' : ∀ n ∈ (Tree.node h' children').nodes, Tree.FollowsVoid isVoid n) :
    ∃ text text', (Operation.render v).runIn w = (.ok text, w) ∧
      (Operation.render v').runIn w' = (.ok text', w') ∧
      (text = text' ↔ Tree.normal h children = Tree.normal h' children') := by
  refine ⟨_, _, Operation.render_of_shows shown, Operation.render_of_shows shown', ?_, ?_⟩
  · intro heq
    have hread := Tree.read_html readable
    rw [heq, Tree.read_html readable', Option.some.injEq, Tree.tokens_node void,
      Tree.tokens_node void'] at hread
    have hinj := Normal.tokens_append_inj (Tree.fits_normal void) (Tree.fits_normal void')
      (congrArg (· ++ []) hread.symm)
    exact hinj.1
  · intro heq
    rw [← String.toList_inj, Tree.toList_html_node void, Tree.toList_html_node void', heq]

/-- A text as the content of a node, and the same text in its content and a child. -/
def splitWorld : World := .ofObjects #[
  .list [], .map [], .list [.text "b"],
  .node ⟨.text "p", .bool false, .none, .ref 0, .none, .ref 1, .ref 1, .text "ab", .ref 0⟩,
  .node ⟨.text "p", .bool false, .none, .ref 0, .none, .ref 1, .ref 1, .text "a", .ref 2⟩]

theorem render_eq_iff_split : ∃ text text',
    (Operation.render (.ref 3)).runIn splitWorld = (.ok text, splitWorld) ∧
      (Operation.render (.ref 4)).runIn splitWorld = (.ok text', splitWorld) ∧
      (text = text' ↔
        Tree.normal { Head.bare "p" false with content := some "ab" } [] =
          Tree.normal { Head.bare "p" false with content := some "a" } [.text "b"]) := by
  have shown : (splitWorld.read (.ref 3)).Shows
      (.node { Head.bare "p" false with content := some "ab" } []) :=
    .node ⟨rfl, rfl, rfl, ⟨_, rfl⟩, rfl, ⟨_, _, rfl, .nil⟩, ⟨_, rfl⟩, rfl⟩ rfl .nil
  have shown' : (splitWorld.read (.ref 4)).Shows
      (.node { Head.bare "p" false with content := some "a" } [.text "b"]) :=
    .node ⟨rfl, rfl, rfl, ⟨_, rfl⟩, rfl, ⟨_, _, rfl, .nil⟩, ⟨_, rfl⟩, rfl⟩ rfl
      (.cons (.text _) .nil)
  have void : ∀ {h : Head} {children : List Tree}, (∀ n ∈ (Tree.node h children).nodes,
      n.1.isVoid = false) → ∀ n ∈ (Tree.node h children).nodes,
        Tree.FollowsVoid (fun _ => false) n := by
    intro h children hflags n hn
    have hflag := hflags n hn
    exact ⟨hflag, fun htrue => by simp [hflag] at htrue⟩
  exact render_eq_iff shown shown' (by decide) (by decide) (void (by decide)) (void (by decide))

end Markup
