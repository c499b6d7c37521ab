import Markup.Calling
import Markup.Proofs.Computation

/-!
# What changes when an object is made or replaced

A world changes in two ways only: an object is added at the end, or one is replaced where it is.
This file says what is at each number afterwards, and how members of an object and maps with texts
for keys are looked up.
-/

namespace Markup

namespace World

/-- The world with one more object. -/
def add (w : World) (o : Object Value) : World := { w with objects := w.objects.push o }

/-- The world with another object under a number. -/
def replace (w : World) (id : Nat) (o : Object Value) : World :=
  { w with objects := w.objects.setIfInBounds id o }

variable {w : World} {i id : Nat} {o : Object Value}

@[simp] theorem size_add : (w.add o).objects.size = w.objects.size + 1 := by
  simp [add]

@[simp] theorem size_replace : (w.replace id o).objects.size = w.objects.size := by
  simp [replace]

theorem lt_size {o : Object Value} (h : w.objects[i]? = some o) : i < w.objects.size :=
  (Array.getElem?_eq_some_iff.mp h).1

@[simp] theorem get_add_new : (w.add o).objects[w.objects.size]? = some o := by
  simp [add]

theorem get_add_old (h : i < w.objects.size) : (w.add o).objects[i]? = w.objects[i]? := by
  simp [add, Array.getElem?_push, Nat.ne_of_lt h]

/-- What is there stays there when an object is made. -/
theorem get_add {p : Object Value} (h : w.objects[i]? = some p) :
    (w.add o).objects[i]? = some p := by
  rw [get_add_old (lt_size h), h]

theorem get_replace_self (h : id < w.objects.size) :
    (w.replace id o).objects[id]? = some o := by
  simp [replace, h]

theorem get_replace_ne (h : i ≠ id) : (w.replace id o).objects[i]? = w.objects[i]? := by
  simp [replace, h.symm]

end World

namespace Operation

variable {w : World} {id : Nat} {o : Object Value}

theorem runIn_make' (o : Object Value) (w : World) :
    (make o).runIn w = (.ok (.ref w.objects.size), w.add o) := rfl

theorem runIn_put' (id : Nat) (o : Object Value) (w : World) :
    (put id o).runIn w = (.ok (), w.replace id o) := rfl

theorem runIn_update' (h : w.objects[id]? = some o) (f : Object Value → Object Value) :
    (update id f).runIn w = (.ok (), w.replace id (f o)) := by
  have hmodify : w.objects.modify id f = w.objects.setIfInBounds id (f o) := by
    refine Array.ext_getElem? fun i => ?_
    rw [Array.getElem?_modify, Array.getElem?_setIfInBounds]
    by_cases hi : id = i
    · subst hi
      rw [if_pos rfl, if_pos rfl, if_pos (World.lt_size h), h]
      rfl
    · simp [hi]
  rw [runIn_update, hmodify]
  rfl

/-- The world that an operation runs in. -/
theorem runIn_world (w : World) : (getThe World : Operation World).runIn w = (.ok w, w) := rfl

theorem runIn_get (h : w.objects[id]? = some o) : (get? id).runIn w = (.ok (some o), w) := by
  rw [runIn_get?, h]

theorem runIn_objectOf (h : w.objects[id]? = some o) :
    (objectOf (.ref id)).runIn w = (.ok (some (id, o)), w) := by
  rw [runIn_objectOf_ref, h]
  rfl

/-- Where no member is made when it is asked for, looking one up changes nothing. -/
theorem runIn_find {name : String} (h : w.objects[id]? = some o)
    (hmade : madeMember id o name = pure none) :
    (find (.ref id) name).runIn w = (o.find .atom name, w) := by
  rw [find, runIn_bind_ok (runIn_get h)]
  show ((madeMember id o name) >>= _).runIn w = _
  rw [hmade, runIn_bind_ok (runIn_pure none w)]
  rfl

/-- The value of a part that an object holds under a name. -/
theorem runIn_member {name : String} {part : Value} (h : w.objects[id]? = some o)
    (hmade : madeMember id o name = pure none) (hfind : o.find .atom name = .ok (.part part)) :
    (member (.ref id) name).runIn w = (.ok part, w) := by
  rw [member, runIn_bind_ok ((runIn_find h hmade).trans (by rw [hfind]))]
  rfl

/-- An object that has a skill of its own uses it when it is asked. -/
theorem runIn_request {name : String} (h : w.objects[id]? = some o)
    (hmade : madeMember id o name = pure none) (hfind : o.find .atom name = .ok .skill)
    (c : Call Value) (skill : Operation Value) :
    (request (.ref id) name c skill).runIn w = skill.runIn w := by
  rw [request, runIn_bind_ok ((runIn_find h hmade).trans (by rw [hfind]))]

end Operation

/-! ## Maps with texts for keys -/

namespace Entries

variable {β γ : Type}

/-- The entries as they are stored: each key and each value turned into what holds it. -/
def stored {κ : Type} (m : Entries String β) (key : String → κ) (f : β → γ) : Entries κ γ :=
  m.map fun e => (key e.1, f e.2)

variable {m : Entries String β} {k : String}

/-- Stored entries are altered where the entries are. -/
theorem alter_stored {start : β} {change : β → β} {f : β → γ} {change' : γ → γ}
    (h : ∀ b, change' (f b) = f (change b)) :
    (m.stored Term.text f).alter (.text k) (f start) change' =
      stored (m.alter k start change) Term.text f := by
  induction m with
  | nil => rfl
  | cons e m ih =>
    show Entries.alter ((Term.text e.1, f e.2) :: stored m Term.text f) _ _ _ = _
    rw [alter, alter, Term.text_beq_text]
    by_cases hk : e.1 == k
    · rw [if_pos hk, if_pos hk, h]
      rfl
    · rw [if_neg hk, if_neg hk, ih]
      rfl

theorem set_stored {v : β} {f : β → γ} :
    (m.stored Term.text f).set (.text k) (f v) = stored (m.set k v) Term.text f :=
  alter_stored fun _ => rfl

theorem get?_stored {f : β → γ} : (m.stored Term.text f).get? (.text k) = (m.get? k).map f := by
  induction m with
  | nil => rfl
  | cons e m ih =>
    show Entries.get? ((Term.text e.1, f e.2) :: stored m Term.text f) _ = _
    rw [get?_cons, get?_cons, ih, Term.text_beq_text]
    by_cases hk : e.1 == k <;> simp [hk]

theorem readKeys_stored {f : β → γ} (w : World) :
    w.readKeys (m.stored Value.text f) = m.stored Term.text f := by
  simp [World.readKeys, stored, World.read, Function.comp_def]

theorem valueKeys_stored {f : β → γ} :
    World.valueKeys (m.stored Term.text f) = m.stored Value.text f := by
  simp [World.valueKeys, stored, Function.comp_def]

end Entries

namespace Operation

variable {w : World} {id : Nat} {k : String}

theorem runIn_readKey (k : String) (w : World) :
    (readKey (.text k)).runIn w = (.ok (.text k), w) := rfl

/-- Setting a text in a map from texts. -/
theorem runIn_setItem {β : Type} {m : Entries String β} {f : β → Value}
    (h : w.objects[id]? = some (.map (m.stored Value.text f))) (v : β) :
    (setItem (.ref id) (.text k) (f v)).runIn w =
      (.ok (), w.replace id (.map (Entries.stored (m.set k v) Value.text f))) := by
  rw [setItem, runIn_bind_ok (runIn_objectOf h)]
  show (setKey id (m.stored Value.text f) (.text k) (f v)).runIn w = _
  rw [setKey, runIn_bind_ok (runIn_readKey k w)]
  show (put id (.map (World.valueKeys
    ((w.readKeys (m.stored Value.text f)).set (.text k) (f v))))).runIn w = _
  rw [Entries.readKeys_stored, Entries.set_stored, Entries.valueKeys_stored, runIn_put']

/-- Appending to a list. -/
theorem runIn_append {items : List Value} (h : w.objects[id]? = some (.list items))
    (v : Value) :
    (append (.ref id) v).runIn w = (.ok (), w.replace id (.list (items ++ [v]))) := by
  rw [append, runIn_bind_ok (runIn_objectOf h)]
  rfl

/-- Appending under a key for which there is a list. -/
theorem runIn_appendUnder_held {m : Entries String Nat} {cell : Nat} {items : List Value}
    (h : w.objects[id]? = some (.map (m.stored Value.text Value.ref))) (hk : m.get? k = some cell)
    (hcell : w.objects[cell]? = some (.list items)) (v : Value) :
    (appendUnder (.ref id) (.text k) v).runIn w =
      (.ok (), w.replace cell (.list (items ++ [v]))) := by
  have hheld : (w.readKeys (m.stored Value.text Value.ref)).get? (.text k) =
      some (.ref cell) := by
    rw [Entries.readKeys_stored, Entries.get?_stored, hk]
    rfl
  rw [appendUnder, runIn_bind_ok (runIn_objectOf h)]
  show (readKey (.text k) >>= _).runIn w = _
  rw [runIn_bind_ok (runIn_readKey k w)]
  rw [runIn_bind_ok (runIn_world w)]
  rw [hheld]
  exact runIn_append hcell v

/-- Appending under a key for which there is no list yet. -/
theorem runIn_appendUnder_missing {m : Entries String Nat}
    (h : w.objects[id]? = some (.map (m.stored Value.text Value.ref))) (hk : m.get? k = none)
    (v : Value) :
    (appendUnder (.ref id) (.text k) v).runIn w =
      (.ok (), (w.add (.list [v])).replace id
        (.map (Entries.stored (m ++ [(k, w.objects.size)]) Value.text Value.ref))) := by
  have hmissing : (w.readKeys (m.stored Value.text Value.ref)).get? (.text k) = none := by
    rw [Entries.readKeys_stored, Entries.get?_stored, hk]
    rfl
  rw [appendUnder, runIn_bind_ok (runIn_objectOf h)]
  show (readKey (.text k) >>= _).runIn w = _
  rw [runIn_bind_ok (runIn_readKey k w)]
  rw [runIn_bind_ok (runIn_world w)]
  rw [hmissing]
  simp [Entries.stored, makeList, runIn_bind, World.add, World.replace]

end Operation

end Markup
