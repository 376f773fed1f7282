import LivePath.Accessor.Walk
import LivePath.Proofs.SortEffects

/-!
# Reading the graph

A read can change the state of the foreign container that answers it, and nothing else. `g.ReadTo
g'`: reads lead from `g` to `g'`. All that walks and sorted collections do is reading
(`readTo_walk`, `yields_readKey`), so registrations and arrays stay as they are, and a graph without
foreign containers stays the same altogether (`ReadTo.eq`).
-/

namespace LivePath
namespace Graph
variable {F : Type} {g g' g'' : Graph F}

/-- Reads lead from `g` to `g'`. -/
inductive ReadTo (g : Graph F) : Graph F → Prop
  | refl : ReadTo g g
  | answer {g' : Graph F} {o : ObjectId} {state : F} (h : ReadTo g g')
      (ho : g'.objects.get o = .foreign state)
      (state' : F) : ReadTo g { g' with objects := g'.objects.set o (.foreign state') }

namespace ReadTo

theorem trans (h : g.ReadTo g') (h' : g'.ReadTo g'') : g.ReadTo g'' := by
  induction h' with
  | refl => exact h
  | answer _ ho state' ih => exact ih.answer ho state'

theorem registries (h : g.ReadTo g') : g'.registries = g.registries := by
  induction h with
  | refl => rfl
  | answer _ _ _ ih => exact ih

theorem arrays (h : g.ReadTo g') : g'.arrays = g.arrays := by
  induction h with
  | refl => rfl
  | answer _ _ _ ih => exact ih

theorem eq {g g' : Graph Empty} (h : g.ReadTo g') : g' = g := by
  induction h with
  | refl => rfl
  | @answer _ _ state _ _ _ _ => exact state.elim

end ReadTo

variable [Foreign F]

theorem readTo_readField (g : Graph F) (o : ObjectId) (name : String) :
    g.ReadTo (g.readField o name).2 := by
  unfold readField
  split
  · exact .refl
  · exact .refl
  · next state h => exact .answer .refl h _

theorem readTo_readItem (g : Graph F) (o : ObjectId) (index : Nat) :
    g.ReadTo (g.readItem o index).2 := by
  unfold readItem
  split
  · exact .refl
  · exact .refl
  · next state h => exact .answer .refl h _

theorem readTo_follow (g : Graph F) (node : Node) (target : Value) :
    g.ReadTo (g.follow node target).2 := by
  unfold follow
  split
  · exact readTo_readField ..
  · exact readTo_readItem ..
  · exact .refl
  · exact .refl

theorem walk_join (g : Graph F) (parent : Accessor) (node : Node) (v : Value) :
    g.walk (parent.join node) v =
      match (g.walk parent v).1.outcome with
      | .ok (some target) =>
        (⟨(g.walk parent v).1.visits ++ ((g.walk parent v).2.follow node target).1.visits,
          ((g.walk parent v).2.follow node target).1.outcome⟩,
            ((g.walk parent v).2.follow node target).2)
      | _ => g.walk parent v := by
  rw [walk]
  rcases g.walk parent v with ⟨⟨visits, outcome⟩, g'⟩
  rcases outcome with e | _ | target <;> rfl

theorem readTo_walk (g : Graph F) (a : Accessor) (v : Value) : g.ReadTo (g.walk a v).2 := by
  induction a with
  | root => exact .refl
  | join parent node ih =>
    rw [walk_join]
    split
    · exact ih.trans (readTo_follow ..)
    · exact ih

theorem readTo_get (g : Graph F) (a : Accessor) (v : Value) : g.ReadTo (g.get a v).2 :=
  readTo_walk g a v

theorem readTo_assignee (g : Graph F) (a : Accessor) (v : Value) : g.ReadTo (g.assignee a v).2 := by
  unfold assignee
  split
  · exact .refl
  · split
    · exact .refl
    · exact readTo_get ..

/-! ### Sorted collections -/

theorem yields_readKey (name : String) (v : Value) :
    (Judgement.yields g.ReadTo).Holds (readKey name v) fun _ => True := by
  unfold readKey
  split
  · exact fun g' h => ⟨trivial, h.trans (readTo_readField ..)⟩
  · exact .pure trivial

variable {J : Judgement (StateM (Graph F))}

theorem holds_compareItems (hk : ∀ name v, J.Holds (readKey name v) fun _ => True) (r : Ranking)
    (v w : Value) :
    J.Holds (compareItems r v w) fun _ => True := by
  unfold compareItems
  split
  · exact .pure trivial
  · refine (hk _ _).bind fun a _ => (hk _ _).bind fun b _ => ?_
    split
    · exact .pure trivial
    · exact .pure trivial

theorem holds_askOrder (hk : ∀ name v, J.Holds (readKey name v) fun _ => True) (r : Ranking)
    (v w : Value) :
    J.tolerant.Holds (askOrder r v w) fun _ => True :=
  (holds_compareItems hk r v w).tolerant_lift

theorem holds_newCollection {S : Value → Prop} {items : List Value}
    (hk : ∀ name v, J.Holds (readKey name v) fun _ => True) (h : Every S items)
    (ranking : Option Ranking) :
    J.Holds (newCollection items ranking) fun made =>
      ∀ object, made = .ok object → ∃ items', Every S items' ∧
      object = .collection items' ranking := by
  cases ranking with
  | none => exact .pure fun object hobject => by cases hobject; exact ⟨items, h, rfl⟩
  | some r =>
    exact (holds_sortM J.tolerates_tolerant (holds_askOrder hk r) h).bind fun zs hzs =>
      .pure ⟨zs, hzs, rfl⟩

end Graph
end LivePath
