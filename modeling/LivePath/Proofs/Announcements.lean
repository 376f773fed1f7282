import LivePath.Proofs.Reading
import Mathlib.Data.List.InsertIdx

/-!
# Mutations announce what they change

What a read of an object finds can only change through a mutation of that object, and the mutation
then announces a topic of that read (`Announces`): the change of the field, or one of the structural
topics. A collection stays a collection, and no other object becomes one. And a mutation stores no
value but those that it was given and those that were there (`holds_mutateObject`).
-/

namespace LivePath

namespace Fields
variable {f : Fields} {S : Value → Prop}

def values (f : Fields) : List Value :=
  f.pairs.map (·.2)

theorem mem_values_of_get? {name : String} {v : Value} (h : f.get? name = some v) :
    v ∈ f.values := by
  obtain ⟨pairs⟩ := f
  simp only [get?, values] at *
  induction pairs with
  | nil => simp at h
  | cons p pairs ih =>
    obtain ⟨n, w⟩ := p
    rw [lookup_pair] at h
    split at h
    · cases h; exact List.mem_cons_self ..
    · exact List.mem_cons_of_mem _ (ih h)

theorem every_put (h : Every S f.values) (name : String) {v : Value} (hv : S v) :
    Every S (f.put name v).values := by
  obtain ⟨pairs⟩ := f
  simp only [put, values] at *
  induction pairs with
  | nil => exact .cons hv .nil
  | cons p pairs ih =>
    obtain ⟨n, w⟩ := p
    simp only [putPair]
    split
    · exact .cons hv h.tail
    · exact .cons h.head (ih h.tail)

theorem every_erase (h : Every S f.values) (name : String) : Every S (f.erase name).values := by
  intro v hv
  obtain ⟨p, hp, rfl⟩ := List.mem_map.1 hv
  exact h _ (List.mem_map_of_mem (List.mem_filter.1 hp).1)

theorem every_ofList {pairs : List (String × Value)} (h : Every (fun p => S p.2) pairs) :
    Every S (ofList pairs).values := by
  have hfold : ∀ {pairs : List (String × Value)} {f : Fields}, Every (fun p => S p.2) pairs →
      Every S f.values →
      Every S (pairs.foldl (fun f p => f.put p.1 p.2) f).values := by
    intro pairs
    induction pairs with
    | nil => exact fun _ hf => hf
    | cons p pairs ih => exact fun hp hf => ih hp.tail (every_put hf p.1 hp.head)
  exact hfold h fun v hv => absurd hv List.not_mem_nil

theorem every_assign (h : Every S f.values) (changed : List String) {pairs : List (String × Value)}
    (hp : Every (fun p => S p.2) pairs) : Every S (f.assign changed pairs).1.values := by
  induction pairs generalizing f changed with
  | nil => exact h
  | cons p pairs ih =>
    simp only [assign]
    split
    · exact ih (every_put h p.1 hp.head) _ hp.tail
    · exact ih h _ hp.tail

theorem subset_assign (f : Fields) (changed : List String) (pairs : List (String × Value)) :
    changed ⊆ (f.assign changed pairs).2 := by
  induction pairs generalizing f changed with
  | nil => exact List.Subset.refl _
  | cons p pairs ih =>
    simp only [assign]
    split
    · refine List.Subset.trans ?_ (ih _ _)
      split
      · exact List.Subset.refl _
      · exact List.subset_append_left ..
    · exact ih _ _

theorem get?_assign (f : Fields) (changed : List String) (pairs : List (String × Value))
    {name : String} (h : name ∉ (f.assign changed pairs).2) :
    (f.assign changed pairs).1.get? name = f.get? name := by
  induction pairs generalizing f changed with
  | nil => rfl
  | cons p pairs ih =>
    obtain ⟨n, v⟩ := p
    simp only [assign] at h ⊢
    split at h
    · next hc =>
      rw [if_pos hc, ih _ _ h, get?_put, if_neg]
      rintro rfl
      refine h (subset_assign _ _ _ ?_)
      split
      · assumption
      · simp
    · next hc => rw [if_neg hc]; exact ih _ _ h

end Fields

namespace Object
variable {F : Type}

def values : Object F → List Value
  | model fields => fields.values
  | collection items _ => items
  | foreign _ => []

def field? (name : String) : Object F → Option Value
  | model fields => fields.get? name
  | _ => none

def item? (index : Nat) : Object F → Option Value
  | collection items _ => items[index]?
  | _ => none

/-- Whether values refer to an object as a collection. What is not one passes for a model. -/
def isCollection : Object F → Bool
  | collection .. => true
  | _ => false

theorem mem_values_of_field? {object : Object F} {name : String} {v : Value}
    (h : object.field? name = some v) :
    v ∈ object.values := by
  cases object with
  | model fields => exact Fields.mem_values_of_get? h
  | collection items ranking => cases h
  | foreign state => cases h

theorem mem_values_of_item? {object : Object F} {index : Nat} {v : Value}
    (h : object.item? index = some v) :
    v ∈ object.values := by
  cases object with
  | model fields => cases h
  | collection items ranking => exact List.mem_of_getElem? h
  | foreign state => cases h

/-- Two contents of an object are both those of a collection or both not, and the topics tell where
they differ. -/
structure Announces (before after : Object F) (topics : List Topic) : Prop where
  isCollection : after.isCollection = before.isCollection
  field : ∀ name, .change name ∉ topics → after.field? name = before.field? name
  item : (∀ t ∈ Topic.structural, t ∉ topics) → ∀ index, after.item? index = before.item? index

namespace Announces

theorem refl (object : Object F) (topics : List Topic) : Announces object object topics :=
  ⟨rfl, fun _ _ => rfl, fun _ _ => rfl⟩

theorem of_structural {items items' : List Value} {ranking ranking' : Option Ranking}
    {topics : List Topic} {t : Topic} (ht : t ∈ Topic.structural) (hm : t ∈ topics) :
    Announces (.collection items ranking : Object F) (.collection items' ranking') topics :=
  ⟨rfl, fun _ _ => rfl, fun h => absurd hm (h t ht)⟩

end Announces

end Object

def Mutation.values : Mutation → List Value
  | fields (.assign pairs) => pairs.map (·.2)
  | fields (.unassign _) => []
  | items (.add item) => [item]
  | items (.insert _ item) => [item]
  | items (.reset given) => given
  | items (.remove _) => []
  | items (.removeAt _) => []
  | items .sort => []

theorem FieldChange.announces {F : Type} (fields : Fields) (change : FieldChange) :
    (Object.model fields : Object F).Announces (.model (change.apply fields).state)
      (change.apply fields).topics := by
  refine ⟨rfl, fun name h => ?_, fun _ _ => rfl⟩
  cases change with
  | assign pairs =>
    refine Fields.get?_assign fields [] pairs fun hm => h ?_
    exact List.mem_map_of_mem hm
  | unassign n =>
    simp only [apply] at h ⊢
    split at h
    · next hs =>
      rw [if_pos hs]
      have hn : name ≠ n := fun hn => h (by simp [hn])
      exact (Fields.get?_erase ..).trans (if_neg hn)
    · next hs => rw [if_neg hs]

theorem FieldChange.every_apply {S : Value → Prop} {fields : Fields} (h : Every S fields.values)
    {change : FieldChange} (hc : Every S (Mutation.fields change).values) :
    Every S (change.apply fields).state.values := by
  cases change with
  | assign pairs => exact Fields.every_assign h [] fun p hp => hc p.2 (List.mem_map.2 ⟨p, hp, rfl⟩)
  | unassign name =>
    simp only [apply]
    split
    · exact Fields.every_erase h name
    · exact h

namespace ItemChange
variable {m : Type → Type} [Monad m] {J : Judgement m} {F : Type} {S : Value → Prop}
  {order : Option (Value → Value → m Ordering)}
  (ho : ∀ f ∈ order, ∀ v w, J.Holds (f v w) fun _ => True)
include ho

theorem holds_placeOf (items : List Value) (item : Value) :
    J.Holds (placeOf order items item) fun _ => True := by
  unfold placeOf
  split
  · exact .pure trivial
  · next f =>
      exact holds_partitionPointM (fun v => (ho f rfl v item).bind fun _ _ => .pure trivial) items

omit ho in
theorem every_insertIdx {items : List Value} (h : Every S items) {item : Value} (hi : S item)
    (index : Nat) :
    Every S (items.insertIdx index item) := by
  intro v hv
  rcases List.eq_or_mem_of_mem_insertIdx hv with rfl | hv
  · exact hi
  · exact h v hv

theorem holds_apply [MonadExcept Disorder m] (hJ : J.Tolerates) {items : List Value}
    (h : Every S items) {change : ItemChange} (hc : Every S (Mutation.items change).values)
    (ranking : Option Ranking) :
    J.Holds (change.apply order items) fun c => Every S c.state ∧
      (Object.collection items ranking : Object F).Announces
        (.collection c.state ranking) c.topics := by
  -- Where an item comes in or goes, a structural topic tells, which every place depends on.
  have hadd (place : Nat) (item : Value) (hi : S item) :
      Every S (insertAt items place item).state ∧
      (Object.collection items ranking : Object F).Announces
        (.collection (insertAt items place item).state ranking)
        (insertAt items place item).topics :=
    ⟨every_insertIdx h hi place,
      .of_structural (t := .add) (by simp [Topic.structural]) (by simp [insertAt])⟩
  have herase (i : Nat) : Every S (items.eraseIdx i) ∧
      (Object.collection items ranking : Object F).Announces
        (.collection (items.eraseIdx i) ranking) [.remove] :=
    ⟨fun v hv => h v (List.mem_of_mem_eraseIdx hv),
      .of_structural (t := .remove) (by simp [Topic.structural]) (by simp)⟩
  have hreset (zs : List Value) (hz : Every S zs) : Every S zs ∧
      (Object.collection items ranking : Object F).Announces
        (.collection zs ranking) [.reset] :=
    ⟨hz, .of_structural (t := .reset) (by simp [Topic.structural]) (by simp)⟩
  cases change with
  | add item =>
    have hi : S item := hc item (List.mem_cons_self ..)
    exact (holds_placeOf ho items item).bind fun place _ => .pure (hadd place item hi)
  | insert index item =>
    have hi : S item := hc item (List.mem_cons_self ..)
    simp only [apply]
    split
    · exact (holds_placeOf ho items item).bind fun place _ => .pure (hadd place item hi)
    · exact (Judgement.Holds.pure (P := fun _ => True) trivial).bind fun place _ =>
        .pure (hadd place item hi)
  | remove | removeAt =>
    simp only [apply]
    split
    · exact .pure ⟨h, .refl _ _⟩
    · exact .pure (herase _)
  | reset items' =>
    simp only [apply]
    split
    · exact .pure (hreset _ hc)
    · next f =>
      exact (holds_sortM hJ (ho f rfl) hc).bind fun zs hzs => .pure (hreset zs hzs)
  | sort =>
    simp only [apply]
    split
    · exact .pure ⟨h, .refl _ _⟩
    · next f =>
      exact (holds_sortM hJ (ho f rfl) h).bind fun zs hzs => .pure (hreset zs hzs)

end ItemChange

namespace Graph
variable {F : Type} [Foreign F] {g : Graph F} {S : Value → Prop}

theorem holds_mutateObject {J : Judgement (StateM (Graph F))}
    (hk : ∀ name v, J.Holds (readKey name v) fun _ => True) {object : Object F}
    (h : Every S object.values) {m : Mutation} (hm : Every S m.values) :
    J.Holds (mutateObject object m) fun c => Every S c.state.values ∧
      object.Announces c.state c.topics := by
  unfold mutateObject
  split
  · exact .pure ⟨FieldChange.every_apply h hm, FieldChange.announces _ _⟩
  · next items ranking change =>
    have hask : ∀ f ∈ ranking.map (askOrder (F := F)), ∀ v w, J.tolerant.Holds (f v w)
        fun _ => True := by
      intro f hf v w
      obtain ⟨r, -, rfl⟩ := Option.map_eq_some_iff.1 hf
      exact holds_askOrder hk r v w
    refine (ItemChange.holds_apply (F := F) hask J.tolerates_tolerant h hm ranking).bind (J := J)
      fun r hr => ?_
    cases r with
    | ok c => exact .pure (hr c rfl)
    | error d => exact .pure ⟨h, .refl _ _⟩
  · exact .pure ⟨.nil, rfl, fun _ _ => rfl, fun _ _ => rfl⟩
  · exact .pure ⟨.nil, rfl, fun _ _ => rfl, fun _ _ => rfl⟩
  · exact .pure ⟨h, .refl _ _⟩

/-- A mutation reads, replaces the content of one object, and announces the difference. -/
theorem exists_mutate (o : ObjectId) {m : Mutation} (h : Every S (g.objects.get o).values)
    (hm : Every S m.values) :
    ∃ g' object, g.ReadTo g' ∧
      (g.mutate o m).state = { g' with objects := g'.objects.set o object } ∧
      Every S object.values ∧ (g.objects.get o).Announces object (g.mutate o m).topics := by
  obtain ⟨hc, hr⟩ := holds_mutateObject (J := .yields g.ReadTo) yields_readKey h hm g .refl
  exact ⟨_, _, hr, rfl, hc.1, hc.2⟩

theorem mutate_of_model {o : ObjectId} {fields : Fields} (h : g.objects.get o = .model fields)
    (change : FieldChange) :
    g.mutate o (.fields change) = (change.apply fields).map fun fields =>
      { g with objects := g.objects.set o (.model fields) } := by
  rw [mutate, h]
  rfl

theorem mutate_of_collection {o : ObjectId} {items : List Value} {ranking : Option Ranking}
    (h : g.objects.get o = .collection items ranking) {change : ItemChange}
    {changed : Changed (List Value)} {g' : Graph F}
    (hrun : (change.apply (ranking.map askOrder) items).run.run g = (.ok changed, g')) :
    g.mutate o (.items change) = changed.map fun items =>
      { g' with objects := g'.objects.set o (.collection items ranking) } := by
  rw [mutate, h]
  simp only [mutateObject, StateT.run_bind, hrun]
  rfl

end Graph
end LivePath
