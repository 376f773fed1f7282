import LivePath.Proofs.Closure

/-!
# Commands on contents

Most commands look at objects, arrays and names only. A `Likeness` relates worlds that agree in
these, however their registrations and trackers differ. Between such worlds these commands do the
same, answer the same and announce the same (`Likeness.matches_effectOf`). Sorting asks its
questions of the objects alone, so that its outcome, too, is a function of them
(`Graph.exists_changed`).
-/

namespace LivePath

/-- Both succeed, with related results, or both fail in the same way. -/
inductive Matches {ε α β : Type} (R : α → β → Prop) : Except ε α → Except ε β → Prop
  | ok {a : α} {b : β} (h : R a b) : Matches R (.ok a) (.ok b)
  | error (e : ε) : Matches R (.error e) (.error e)

namespace Matches
variable {ε α β γ δ : Type} {R : α → β → Prop} {Q : γ → δ → Prop} {x : Except ε α} {y : Except ε β}

theorem cases (h : Matches R x y) :
    (∃ a b, x = .ok a ∧ y = .ok b ∧ R a b) ∨ ∃ e, x = .error e ∧ y = .error e := by
  cases h with
  | ok h => exact .inl ⟨_, _, rfl, rfl, h⟩
  | error e => exact .inr ⟨e, rfl, rfl⟩

theorem imp {R' : α → β → Prop} (h : Matches R x y) (hR : ∀ a b, R a b → R' a b) :
    Matches R' x y := by
  cases h with
  | ok h => exact .ok (hR _ _ h)
  | error e => exact .error e

theorem bind {f : α → Except ε γ} {g : β → Except ε δ} (h : Matches R x y)
    (hf : ∀ a b, R a b → Matches Q (f a) (g b)) : Matches Q (x >>= f) (y >>= g) := by
  cases h with
  | ok h => exact hf _ _ h
  | error e => exact .error e

theorem bind_eq {x' : Except ε α} {f : α → Except ε γ} {g : α → Except ε δ} (h : x' = x)
    (hf : ∀ a, Matches Q (f a) (g a)) : Matches Q (x >>= f) (x' >>= g) := by
  rw [h]
  cases x with
  | ok a => exact hf a
  | error e => exact .error e

theorem bind_value {σ τ : Type} {S : σ → τ → Prop} {x : Except ε (α × σ)} {y : Except ε (α × τ)}
    {f : α × σ → Except ε γ} {g : α × τ → Except ε δ}
    (h : Matches (fun a b => a.1 = b.1 ∧ S a.2 b.2) x y)
    (hf : ∀ a s t, S s t → Matches Q (f (a, s)) (g (a, t))) : Matches Q (x >>= f) (y >>= g) := by
  refine h.bind ?_
  rintro ⟨a, s⟩ ⟨b, t⟩ ⟨hab, hst⟩
  cases (show a = b from hab)
  exact hf a s t hst

theorem map {f : α → γ} {g : β → δ} (h : Matches R x y) (hf : ∀ a b, R a b → Q (f a) (g b)) :
    Matches Q (x.map f) (y.map g) := by
  cases h with
  | ok h => exact .ok (hf _ _ h)
  | error e => exact .error e

end Matches

namespace Graph
variable {g g' : Graph Empty}

/-- The same objects and arrays; registrations may differ. -/
structure Same (g g' : Graph Empty) : Prop where
  objects : g'.objects = g.objects
  arrays : g'.arrays = g.arrays

/-! ### Sorting and mutations -/

theorem settled_readKey (objects : Table (Object Empty)) (name : String) (v : Value) :
    (Judgement.settled fun g : Graph Empty => g.objects = objects).Holds (readKey name v)
      fun _ => True := by
  unfold readKey
  split
  · next o =>
    refine ⟨(objects.get o).field? name, trivial, fun g hg => ?_⟩
    show g.readField o name = _
    rw [readField_eq, look, hg]
  · exact .pure trivial

/-- What a mutation makes of an object is a function of the objects. -/
theorem exists_changed (objects : Table (Object Empty)) (object : Object Empty) (m : Mutation) :
    ∃ c : Changed (Object Empty), ∀ g : Graph Empty, g.objects = objects →
      (mutateObject object m).run g = (c, g) := by
  have hvalues : Every (fun _ => True) object.values := fun _ _ => trivial
  have hmutation : Every (fun _ => True) m.values := fun _ _ => trivial
  obtain ⟨c, -, hc⟩ := holds_mutateObject (settled_readKey objects) hvalues hmutation
  exact ⟨c, hc⟩

theorem exists_collection (objects : Table (Object Empty)) (items : List Value)
    (ranking : Option Ranking) :
    ∃ made : Except Disorder (Object Empty), ∀ g : Graph Empty, g.objects = objects →
      (newCollection items ranking).run g = (made, g) := by
  have hitems : Every (fun _ => True) items := fun _ _ => trivial
  obtain ⟨made, -, hc⟩ := holds_newCollection (settled_readKey objects) hitems ranking
  exact ⟨made, hc⟩

theorem exists_mutate_eq (objects : Table (Object Empty)) (o : ObjectId) (m : Mutation) :
    ∃ c : Changed (Object Empty), ∀ g : Graph Empty, g.objects = objects →
      g.mutate o m = c.map fun object => { g with objects := objects.set o object } := by
  obtain ⟨c, hc⟩ := exists_changed objects (objects.get o) m
  refine ⟨c, fun g hg => ?_⟩
  rw [mutate, hg, hc g hg, ← hg]

namespace Same

theorem refl (g : Graph Empty) : g.Same g :=
  ⟨rfl, rfl⟩

theorem trail (h : g.Same g') (a : Accessor) (root : Value) : g'.trail a root = g.trail a root :=
  trail_of_eq h.objects h.arrays

theorem items (h : g.Same g') (o : ObjectId) : g'.items o = g.items o := by
  rw [Graph.items, h.objects, Graph.items]

theorem isSorted (h : g.Same g') (o : ObjectId) : g'.isSorted o = g.isSorted o := by
  rw [Graph.isSorted, h.objects, Graph.isSorted]

end Same

theorem assignee_eq (g : Graph Empty) (a : Accessor) (root : Value) : (g.assignee a root).2 = g :=
  (readTo_assignee g a root).eq

theorem Same.assignee (h : g.Same g') (a : Accessor) (root : Value) :
    (g'.assignee a root).1 = (g.assignee a root).1 := by
  unfold Graph.assignee
  split
  · rfl
  · split
    · rfl
    · simp only [get_eq, h.trail]

end Graph

/-! ### Worlds that are alike -/

/--
`Rel` relates worlds that agree in their objects, arrays and names, and goes on to do so when these
change on both sides. Names of trackers stand for trackers that `Tr` relates, unless they are
reserved.
-/
structure Likeness (reserved : String → Prop) (Rel : World Empty → World Empty → Prop)
    (Tr : TrackerId → TrackerId → Prop) : Prop where
  same {w w' : World Empty} (h : Rel w w') : w.graph.Same w'.graph
  objects {w w' : World Empty} (h : Rel w w') : w'.names.objects = w.names.objects
  accessors {w w' : World Empty} (h : Rel w w') : w'.names.accessors = w.names.accessors
  dispatchers {w w' : World Empty} (h : Rel w w') : w'.dispatchers.next = w.dispatchers.next
  tracker {w w' : World Empty} (h : Rel w w') {name : String} (hname : ¬ reserved name) :
    Matches Tr (w.tracker name) (w'.tracker name)
  bound {w w' : World Empty} (h : Rel w w') {id id' : TrackerId} (ht : Tr id id') :
    (w'.trackers.get id').accessor = (w.trackers.get id).accessor ∧
      (w'.trackers.get id').root = (w.trackers.get id).root
  setArrays {w w' : World Empty} (h : Rel w w') (arrays : Table (List Value)) :
    Rel { w with graph := { w.graph with arrays } } { w' with graph := { w'.graph with arrays } }
  setObjects {w w' : World Empty} (h : Rel w w') (objects : Table (Object Empty)) :
    Rel { w with graph := { w.graph with objects } } { w' with graph := { w'.graph with objects } }
  nameObject {w w' : World Empty} (h : Rel w w') (name : String) (n : Named) :
    Rel (w.nameObject name n) (w'.nameObject name n)
  nameAccessor {w w' : World Empty} (h : Rel w w') (name : String) (a : Accessor) :
    Rel (w.nameAccessor name a) (w'.nameAccessor name a)
  addDispatcher {w w' : World Empty} (h : Rel w w') :
    Rel { w with dispatchers := w.dispatchers.push {} }
      { w' with dispatchers := w'.dispatchers.push {} }
  logAll {w w' : World Empty} (h : Rel w w') (es es' : List LogEntry) :
    Rel (w.logAll es) (w'.logAll es')

/-- The same answer and announcements, and worlds that are related. -/
structure Effect.Alike (Rel : World Empty → World Empty → Prop) (e e' : Effect Empty) : Prop where
  world : Rel e.world e'.world
  answer : e'.answer = e.answer
  notice : e'.notice = e.notice

/-- Questions that are not about listeners. -/
def Question.OnContents : Question → Prop
  | .count .. => False
  | .contains .. => False
  | .size _ => False
  | .countTagged .. => False
  | .describe _ => False
  | _ => True

/-- Actions that look at objects, arrays and names only, and at what trackers are bound to. -/
def Action.OnContents {F : Type} : Action F → Prop
  | .ask question => question.OnContents
  | .clear _ => False
  | .off _ => False
  | .tracker _ .get => True
  | .tracker _ .hasValue => True
  | .tracker _ (.set _) => True
  | .tracker .. => False
  | _ => True

def Action.names {F : Type} : Action F → List String
  | .ask (.contains _ label) => [label]
  | .ask (.describe on) => [on]
  | .tracker name (.clone other) => [name, other]
  | .tracker name _ => [name]
  | .off label => [label]
  | _ => []

def Source.names : Source → List String
  | .tracker on => [on]
  | _ => []

def Command.names {F : Type} : Command F → List String
  | .act action => action.names
  | .listen label source _ _ => label :: source.names

namespace Likeness
variable {reserved : String → Prop} {Rel : World Empty → World Empty → Prop}
  {Tr : TrackerId → TrackerId → Prop}

theorem addArray (hl : Likeness reserved Rel Tr) {w w' : World Empty} (h : Rel w w')
    (vs : List Value) :
    (w'.addArray vs).1 = (w.addArray vs).1 ∧ Rel (w.addArray vs).2 (w'.addArray vs).2 := by
  have ha := (hl.same h).arrays
  refine ⟨congrArg Table.next ha, ?_⟩
  have hset := hl.setArrays h (w.graph.arrays.push vs)
  rw [← ha] at hset
  nth_rewrite 1 [ha] at hset
  exact hset

theorem addObject (hl : Likeness reserved Rel Tr) {w w' : World Empty} (h : Rel w w')
    (object : Object Empty) :
    (w'.addObject object).1 = (w.addObject object).1 ∧
      Rel (w.addObject object).2 (w'.addObject object).2 := by
  have ho := (hl.same h).objects
  refine ⟨congrArg Table.next ho, ?_⟩
  have hset := hl.setObjects h (w.graph.objects.push object)
  rw [← ho] at hset
  nth_rewrite 1 [ho] at hset
  exact hset

mutual

theorem matches_evaluate (hl : Likeness reserved Rel Tr) :
    ∀ {w w' : World Empty} {t : Term}, Rel w w' →
      Matches (fun a b => a.1 = b.1 ∧ Rel a.2 b.2) (w.evaluate t) (w'.evaluate t)
  | w, w', .bool b, h => .ok ⟨rfl, h⟩
  | w, w', .int n, h => .ok ⟨rfl, h⟩
  | w, w', .float x, h => .ok ⟨rfl, h⟩
  | w, w', .str s, h => .ok ⟨rfl, h⟩
  | w, w', .reference name, h => by
    have hfind : w'.value name = w.value name := congrArg (World.find · name _) (hl.objects h)
    rw [World.evaluate, World.evaluate, hfind]
    cases w.value name with
    | ok v => exact .ok ⟨rfl, h⟩
    | error e => exact .error e
  | w, w', .list items, h => by
    rw [World.evaluate, World.evaluate]
    rcases (matches_evaluateList hl h).cases with
      ⟨⟨vs, w₁⟩, ⟨vs', w₁'⟩, hx, hy, rfl, h₁⟩ | ⟨e, hx, hy⟩
    · rw [hx, hy]
      obtain ⟨hid, hadd⟩ := hl.addArray h₁ vs
      exact .ok ⟨congrArg Value.array hid.symm, hadd⟩
    · rw [hx, hy]
      exact .error e

theorem matches_evaluateList (hl : Likeness reserved Rel Tr) :
    ∀ {w w' : World Empty} {ts : List Term}, Rel w w' →
      Matches (fun a b => a.1 = b.1 ∧ Rel a.2 b.2) (w.evaluateList ts) (w'.evaluateList ts)
  | w, w', [], h => by
    rw [World.evaluateList, World.evaluateList]
    exact .ok ⟨rfl, h⟩
  | w, w', t :: ts, h => by
    rw [World.evaluateList, World.evaluateList]
    rcases (matches_evaluate hl (t := t) h).cases with
      ⟨⟨v, w₁⟩, ⟨v', w₁'⟩, hx, hy, rfl, h₁⟩ | ⟨e, hx, hy⟩
    · rw [hx, hy]
      dsimp only
      have hrest : Matches (fun a b => a.1 = b.1 ∧ Rel a.2 b.2) (w₁.evaluateList ts)
          (w₁'.evaluateList ts) :=
        matches_evaluateList hl h₁
      rcases hrest.cases with ⟨⟨vs, w₂⟩, ⟨vs', w₂'⟩, hx, hy, rfl, h₂⟩ | ⟨e, hx, hy⟩
      · rw [hx, hy]
        exact .ok ⟨rfl, h₂⟩
      · rw [hx, hy]
        exact .error e
    · rw [hx, hy]
      exact .error e

end

variable (hl : Likeness reserved Rel Tr) {w w' : World Empty}
include hl

theorem find (h : Rel w w') {β : Type} (name : String) (need : Named → Option β) :
    World.find w'.names.objects name need = World.find w.names.objects name need := by
  rw [hl.objects h]

theorem matches_evaluatePairs (h : Rel w w') (pairs : List (String × Term)) :
    Matches (fun a b => a.1 = b.1 ∧ Rel a.2 b.2) (w.evaluatePairs pairs)
      (w'.evaluatePairs pairs) := by
  unfold World.evaluatePairs
  have hvalues : Matches _ (w.evaluateList (pairs.map (·.2))) (w'.evaluateList (pairs.map (·.2))) :=
    hl.matches_evaluateList h
  rcases hvalues.cases with
    ⟨⟨vs, w₁⟩, ⟨vs', w₁'⟩, hx, hy, rfl, h₁⟩ | ⟨e, hx, hy⟩
  · rw [hx, hy]
    exact .ok ⟨rfl, h₁⟩
  · rw [hx, hy]
    exact .error e

theorem accessorOf (h : Rel w w') (route : Route) : w'.accessorOf route = w.accessorOf route := by
  cases route with
  | named name => exact congrArg (World.find · name some) (hl.accessors h)
  | text path => rfl
  | nodes path => rfl

/-! ### Objects -/

theorem nameNew (h : Rel w w') (object : Object Empty) (name : String) (n : ObjectId → Named) :
    Rel ((w.addObject object).2.nameObject name (n (w.addObject object).1))
      ((w'.addObject object).2.nameObject name (n (w'.addObject object).1)) := by
  obtain ⟨ho, hadd⟩ := hl.addObject h object
  rw [ho]
  exact hl.nameObject hadd name _

theorem matches_create (h : Rel w w') (name : String) (blueprint : Blueprint Empty) :
    Matches (Effect.Alike Rel) (w.create name blueprint) (w'.create name blueprint) := by
  cases blueprint with
  | model attrs =>
    refine (hl.matches_evaluatePairs h attrs).bind_value fun pairs w₁ w₁' h₁ => ?_
    exact .ok ⟨hl.nameNew h₁ _ name .model, rfl, rfl⟩
  | array items =>
    refine (hl.matches_evaluateList h).bind_value fun values w₁ w₁' h₁ => ?_
    obtain ⟨ha, hadd⟩ := hl.addArray h₁ values
    refine .ok ⟨?_, rfl, rfl⟩
    show Rel ((w₁.addArray values).2.nameObject name (.array (w₁.addArray values).1))
      ((w₁'.addArray values).2.nameObject name (.array (w₁'.addArray values).1))
    rw [ha]
    exact hl.nameObject hadd name _
  | collection items ranking =>
    refine (hl.matches_evaluateList h).bind_value fun values w₁ w₁' h₁ => ?_
    obtain ⟨made, hmade⟩ := Graph.exists_collection w₁.graph.objects values ranking
    simp only [hmade w₁.graph rfl, hmade w₁'.graph (hl.same h₁).objects]
    cases made with
    | ok object => exact .ok ⟨hl.nameNew h₁ object name .collection, rfl, rfl⟩
    | error d => exact .ok ⟨h₁, rfl, rfl⟩
  | dispatcher =>
    refine .ok ⟨?_, rfl, rfl⟩
    have hname := hl.nameObject (hl.addDispatcher h) name (.dispatcher w.dispatchers.next)
    rw [← hl.dispatchers h] at hname
    nth_rewrite 1 [hl.dispatchers h] at hname
    exact hname
  | foreign fields make => exact (make []).elim

theorem matches_ask (h : Rel w w') {question : Question} (hq : question.OnContents) :
    Matches (fun a b => Rel a.1 b.1 ∧ b.2 = a.2) (w.ask question) (w'.ask question) := by
  have hread (o : ObjectId) (name : String) :
      Rel (w.readField o name).2 (w'.readField o name).2 ∧
      (w'.readField o name).1 = (w.readField o name).1 := by
    have hs := hl.same h
    rw [World.readField, World.readField, Graph.readField_eq, Graph.readField_eq]
    refine ⟨h, ?_⟩
    rw [Graph.look, Graph.look, hs.objects]
  cases question with
  | equal a b =>
    refine (hl.matches_evaluate h).bind_value fun a w₁ w₁' h₁ => ?_
    exact (hl.matches_evaluate h₁).bind_value fun b w₂ w₂' h₂ => .ok ⟨h₂, rfl⟩
  | compare a b =>
    refine (hl.matches_evaluate h).bind_value fun a w₁ w₁' h₁ => ?_
    exact (hl.matches_evaluate h₁).bind_value fun b w₂ w₂' h₂ => .ok ⟨h₂, rfl⟩
  | kind v => exact (hl.matches_evaluate h).bind_value fun v w₁ w₁' h₁ => .ok ⟨h₁, rfl⟩
  | get on name =>
    refine .bind_eq (hl.find h on _) fun o => .ok ⟨(hread o name).1, ?_⟩
    exact congrArg Answer.value (hread o name).2
  | has on name =>
    refine .bind_eq (hl.find h on _) fun o => .ok ⟨(hread o name).1, ?_⟩
    exact congrArg (fun v => Answer.truth v.isSome) (hread o name).2
  | field on name =>
    refine .bind_eq (hl.find h on _) fun o => .ok ⟨(hread o name).1, ?_⟩
    exact congrArg Answer.value (hread o name).2
  | itemAt on index =>
    refine .bind_eq (hl.find h on _) fun o => .ok ⟨h, ?_⟩
    exact congrArg (fun items => Answer.value items[index]?) ((hl.same h).items o)
  | indexOf on v =>
    refine .bind_eq (hl.find h on _) fun o => ?_
    refine (hl.matches_evaluate h).bind_value fun v w₁ w₁' h₁ => .ok ⟨h₁, ?_⟩
    exact congrArg (fun items => Reply.answer (.place (items.findIdx? (·.same v))))
      ((hl.same h₁).items o)
  | items on =>
    refine .bind_eq (hl.find h on _) fun o => .ok ⟨h, ?_⟩
    exact congrArg₂ Answer.items ((hl.same h).items o) ((hl.same h).isSorted o)
  | ordered on index =>
    refine .bind_eq (hl.find h on _) fun o => .ok ⟨h, ?_⟩
    exact congrArg (fun items => Answer.item items.length items[index]?) ((hl.same h).items o)
  | count | contains | size | countTagged | describe => exact hq.elim

theorem matches_mutationOf (h : Rel w w') (on : String) (edit : Edit) :
    Matches (fun a b => b.1 = a.1 ∧ b.2.1 = a.2.1 ∧ Rel a.2.2 b.2.2) (w.mutationOf on edit)
      (w'.mutationOf on edit) := by
  cases edit with
  | set name v | setField name v | add v | insert index v | remove v =>
    refine .bind_eq (hl.find h on _) fun o => ?_
    exact (hl.matches_evaluate h).bind_value fun v w₁ w₁' h₁ => .ok ⟨rfl, rfl, h₁⟩
  | setAll pairs =>
    refine .bind_eq (hl.find h on _) fun o => ?_
    exact (hl.matches_evaluatePairs h pairs).bind_value fun pairs w₁ w₁' h₁ => .ok ⟨rfl, rfl, h₁⟩
  | reset items =>
    refine .bind_eq (hl.find h on _) fun o => ?_
    exact (hl.matches_evaluateList h).bind_value fun values w₁ w₁' h₁ => .ok ⟨rfl, rfl, h₁⟩
  | unset name | unsetField name | removeAt index | sort =>
    exact .bind_eq (hl.find h on _) fun o => .ok ⟨rfl, rfl, h⟩

theorem alike_mutate (h : Rel w w') (o : ObjectId) (m : Mutation) :
    Effect.Alike Rel (w.mutate o m) (w'.mutate o m) := by
  obtain ⟨c, hc⟩ := Graph.exists_mutate_eq w.graph.objects o m
  rw [World.mutate, World.mutate, hc w.graph rfl, hc w'.graph (hl.same h).objects]
  exact ⟨hl.setObjects h _, rfl, rfl⟩

theorem matches_edit (h : Rel w w') (on : String) (edit : Edit) :
    Matches (Effect.Alike Rel) (w.edit on edit) (w'.edit on edit) := by
  refine (hl.matches_mutationOf h on edit).bind ?_
  rintro ⟨o, m, w₁⟩ ⟨o', m', w₁'⟩ ⟨ho, hm, h₁⟩
  cases (show o' = o from ho)
  cases (show m' = m from hm)
  exact .ok (hl.alike_mutate h₁ o m)

/-! ### Accessors and trackers -/

theorem alike_assign (h : Rel w w') (a : Accessor) (root v : Value) :
    Effect.Alike Rel (w.assign a root v) (w'.assign a root v) := by
  have hg := w.graph.assignee_eq a root
  have hg' := w'.graph.assignee_eq a root
  have ho := (hl.same h).assignee a root
  rw [World.assign, World.assign, Graph.set, Graph.set]
  rcases hw : w.graph.assignee a root with ⟨outcome, g⟩
  rcases hw' : w'.graph.assignee a root with ⟨outcome', g'⟩
  rw [hw] at hg ho
  rw [hw'] at hg' ho
  cases (show outcome' = outcome from ho)
  cases (show g = w.graph from hg)
  cases (show g' = w'.graph from hg')
  cases outcome with
  | error e => exact ⟨h, rfl, rfl⟩
  | ok place =>
    obtain ⟨o, name⟩ := place
    obtain ⟨c, hc⟩ := Graph.exists_mutate_eq w.graph.objects o (.fields (.assign [(name, v)]))
    simp only [hc w.graph rfl, hc w'.graph (hl.same h).objects]
    exact ⟨hl.setObjects h _, rfl, rfl⟩

theorem matches_access (h : Rel w w') (action : AccessAction) :
    Matches (Effect.Alike Rel) (w.access action) (w'.access action) := by
  cases action with
  | store name route =>
    exact .bind_eq (hl.accessorOf h route) fun a => .ok ⟨hl.nameAccessor h name a, rfl, rfl⟩
  | join name route node =>
    exact .bind_eq (hl.accessorOf h route) fun a =>
      .ok ⟨hl.nameAccessor h name (a.join node), rfl, rfl⟩
  | get route root =>
    refine .bind_eq (hl.accessorOf h route) fun a => ?_
    refine (hl.matches_evaluate h).bind_value fun root w₁ w₁' h₁ => ?_
    simp only [Graph.get_eq, (hl.same h₁).trail]
    exact .ok ⟨h₁, rfl, rfl⟩
  | set route root v =>
    refine .bind_eq (hl.accessorOf h route) fun a => ?_
    refine (hl.matches_evaluate h).bind_value fun root w₁ w₁' h₁ => ?_
    refine (hl.matches_evaluate h₁).bind_value fun v w₂ w₂' h₂ => ?_
    exact .ok (hl.alike_assign h₂ a root v)

theorem evaluateTracker (h : Rel w w') {id id' : TrackerId} (ht : Tr id id') :
    (w'.evaluateTracker id').1 = (w.evaluateTracker id).1 ∧
      Rel (w.evaluateTracker id).2 (w'.evaluateTracker id').2 := by
  obtain ⟨ha, hr⟩ := hl.bound h ht
  rw [World.evaluateTracker, World.evaluateTracker, ha, hr]
  simp only [Graph.get_eq, (hl.same h).trail]
  exact ⟨trivial, hl.logAll h _ _⟩

theorem matches_operate (h : Rel w w') {name : String} (hname : ¬ reserved name)
    {action : TrackerAction} (ha : (Action.tracker (F := Empty) name action).OnContents) :
    Matches (Effect.Alike Rel) (w.operate name action) (w'.operate name action) := by
  cases action with
  | get =>
    refine (hl.tracker h hname).bind fun id id' ht => ?_
    obtain ⟨ho, hr⟩ := hl.evaluateTracker h ht
    exact .ok ⟨hr, congrArg World.answerOf ho, rfl⟩
  | hasValue =>
    refine (hl.tracker h hname).bind fun id id' ht => ?_
    obtain ⟨ho, hr⟩ := hl.evaluateTracker h ht
    refine .ok ⟨hr, ?_, rfl⟩
    unfold World.evaluateTracker Graph.get at ho
    dsimp only at ho ⊢
    rw [ho]
  | set v =>
    refine (hl.tracker h hname).bind fun id id' ht => ?_
    refine (hl.matches_evaluate h).bind_value fun v w₁ w₁' h₁ => .ok ?_
    obtain ⟨hacc, hroot⟩ := hl.bound h ht
    rw [hacc, hroot]
    exact hl.alike_assign (hl.logAll h₁ _ _) _ _ v
  | track | clone | drop | observed | dispose | isDisposed => exact ha.elim

theorem matches_effectOf (h : Rel w w') {action : Action Empty} (ha : action.OnContents)
    (hn : ∀ name ∈ action.names, ¬ reserved name) :
    Matches (Effect.Alike Rel) (Machine.effectOf w action) (Machine.effectOf w' action) := by
  cases action with
  | create name blueprint => exact hl.matches_create h name blueprint
  | ask question =>
    refine (hl.matches_ask h ha).map ?_
    rintro ⟨w₁, answer⟩ ⟨w₁', answer'⟩ ⟨h₁, hanswer⟩
    exact ⟨h₁, hanswer, rfl⟩
  | edit on edit => exact hl.matches_edit h on edit
  | fire on topic =>
    have hfind : w'.foreign on = w.foreign on := hl.find h on _
    rw [Machine.effectOf, Machine.effectOf, hfind]
    cases w.foreign on with
    | ok o => exact .ok ⟨h, rfl, rfl⟩
    | error e => exact .error e
  | emit on text tags =>
    have hfind : w'.dispatcher on = w.dispatcher on := hl.find h on _
    rw [Machine.effectOf, Machine.effectOf, hfind]
    cases w.dispatcher on with
    | ok d => exact .ok ⟨h, rfl, rfl⟩
    | error e => exact .error e
  | access action => exact hl.matches_access h action
  | tracker name action =>
    refine hl.matches_operate h (hn name ?_) ha
    cases action <;> exact List.mem_cons_self ..
  | unknown text => exact .error _
  | clear | off => exact ha.elim

end Likeness
end LivePath
