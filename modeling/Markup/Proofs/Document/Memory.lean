import Markup.Proofs.Document.Building
import Markup.Proofs.Document.Following

/-!
# Documents in memory

A document in memory that lists nothing makes of each tree its element, of new objects only, and
changes no object that was there before (`runIn_materialize_memory`).
-/

namespace Markup

open World Operation

/-- A document in memory that is told of an assignment does nothing. -/
theorem runIn_tellAssigned_memory {w : World} {d : Nat} {v : Value} {l : Value}
    (hd : w.objects[d]? = some (.memoryDocument [])) (changed : ElementProperty) (value : Value)
    (hlabel : (label v).runIn w = (.ok l, w)) :
    (tellAssigned (.ref d) v changed value).runIn w = (.ok (), w) := by
  have hrecord : (record d (.setProperty l changed value)).runIn w = (.ok (), w) := by
    rw [record, runIn_bind_ok (runIn_get hd)]
    rfl
  exact runIn_tellAssigned hd rfl rfl hlabel hrecord

/-- A document in memory builds new elements and keeps all other objects. -/
theorem memoryHost_follows {w₀ : World} {d : Nat}
    (hd : w₀.objects[d]? = some (.memoryDocument [])) :
    (memoryHost d).Follows
      (fun w _ stack => Builds w₀.objects.size w₀ w ∧
        w.HoldsStack d w₀.objects.size w.objects.size stack) fun _ => True where
  createElement {w calls stack} name h := by
    obtain ⟨e, w₁, isVoid, hmake, hbuilds, hholds⟩ := runIn_makeElement h.2 name
    exact ⟨e, w₁, isVoid, hmake, h.1.trans hbuilds, hholds⟩
  keepVoid {w calls stack e p} isVoid h := by
    obtain ⟨w₁, hkeep, hbuilds, hholds⟩ := runIn_keepElementVoid h.2 isVoid
    exact ⟨w₁, hkeep, h.1.trans hbuilds, hholds⟩
  set {w calls stack e p s} _ h := by
    rcases s with ⟨key, value⟩ | ⟨changed, value⟩ | ⟨event, callee⟩
    · obtain ⟨w₁, hset, hbuilds, hholds⟩ := runIn_setElementAttribute h.2 key value
      exact ⟨w₁, hset, h.1.trans hbuilds, hholds⟩
    · obtain ⟨w₁, hassign, hbuilds, hholds⟩ := runIn_assign h.2 changed value
      have hd₁ : w₁.objects[d]? = some (.memoryDocument []) :=
        ((h.1.trans hbuilds).kept d (lt_size hd)).trans hd
      exact ⟨w₁, hassign.trans (runIn_tellAssigned_memory hd₁ changed _ (runIn_label_top hholds)),
        h.1.trans hbuilds, hholds⟩
    · obtain ⟨w₁, hset, hbuilds, hholds⟩ := runIn_addElementListener h.2 event callee
      exact ⟨w₁, hset, h.1.trans hbuilds, hholds⟩
  createTextNode {w calls stack} s h := by
    obtain ⟨v, w₁, hmake, hbuilds, hholds⟩ := runIn_makeText h.2 s
    exact ⟨v, w₁, hmake, h.1.trans hbuilds, hholds⟩
  appendChild {w calls stack v child e p children} h := by
    obtain ⟨w₁, happend, hbuilds, hholds⟩ := runIn_appendToElement h.2
    exact ⟨w₁, happend, h.1.trans hbuilds, hholds⟩
  appendText e v := rfl

/-- A document that lists nothing openly materialises a node by what the node unfolds to. -/
theorem runIn_materialize_at_once {w : World} {d id : Nat} {v : Value} {t : Node Term}
    {host : Host Operation Value} (hhost : (hostOf (.ref d)).runIn w = (.ok host, w))
    (hlists : (listsOpenly (.ref d)).runIn w = (.ok false, w)) (hv : w.read v = .node id t) :
    (materialize v (.ref d)).runIn w = (host.materializeNode t).runIn w := by
  show (materializeWith (.ref d) v).runIn w = _
  rw [materializeWith, runIn_bind_ok hhost, runIn_bind_ok (runIn_read v w), runIn_bind_ok hlists,
    hv]

/-- A document in memory that was not changed materialises a node at once. -/
theorem runIn_materialize_node {w : World} {d id : Nat} {v : Value} {t : Node Term}
    (hd : w.objects[d]? = some (.memoryDocument [])) (hv : w.read v = .node id t) :
    (materialize v (.ref d)).runIn w = ((memoryHost d).materializeNode t).runIn w := by
  refine runIn_materialize_at_once ?_ ?_ hv
  · rw [hostOf, runIn_bind_ok (runIn_objectOf hd)]
    rfl
  · rw [listsOpenly, runIn_bind_ok (runIn_objectOf hd)]
    rfl

/-- A document in memory makes of a tree its element, and nothing else happens. -/
theorem runIn_materialize_memory {w : World} {d : Nat} {v : Value} {h : Head}
    {children : List Tree} (hd : w.objects[d]? = some (.memoryDocument []))
    (hv : (w.read v).Shows (.node h children)) :
    ∃ e w', (materialize v (.ref d)).runIn w = (.ok e, w') ∧ Builds w.objects.size w w' ∧
      w'.Holds d w.objects.size w'.objects.size e (Tree.node h children).element := by
  have hall : (Tree.node h children).Hears fun _ => True := fun _ _ _ _ _ _ => trivial
  have hstart : Builds w.objects.size w w := ⟨Nat.le_refl _, fun _ _ => rfl, fun _ _ h => h⟩
  have hmakes := (memoryHost_follows hd).materializeChild hv hall
  obtain ⟨e, w', hrun, hbuilds, lo, hholds, hlo⟩ :=
    @hmakes w [] [] ⟨hstart, Nat.le_refl w.objects.size⟩
  refine ⟨e, w', ?_, hbuilds, hholds.lower hlo⟩
  obtain ⟨id, n, _, _, hread, -, -, -⟩ := hv.exists_node
  rw [runIn_materialize_node hd hread]
  rw [hread] at hrun
  exact hrun

end Markup
