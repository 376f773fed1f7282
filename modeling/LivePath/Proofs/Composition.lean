import LivePath.Graph.Cycle
import LivePath.Proofs.Trails
import Mathlib.Data.List.Induction

/-!
# Walks compose

An accessor is walked from its leaf, by way of its parents; told from the root, the walk of two
paths in a row is the walk of the first one and then, from what it found and in the graph that it
left, the walk of the second one. This is so because going on is associative (`goOn_assoc`),
whatever reads do to foreign containers. Hence a walk is what its links do one after the other: each
looks at one place, having reported first what it depends on (`exists_places`).
-/

namespace LivePath

namespace Graph
variable {F : Type} [Foreign F]

/-- Looks at a place. A foreign container may have another answer the next time. -/
def read (g : Graph F) : Place → Option Value × Graph F
  | .field o name => g.readField o name
  | .item o index => g.readItem o index
  | .slot a index => (g.readSlot a index, g)

def readAll (g : Graph F) : List Place → Graph F
  | [] => g
  | p :: places => (g.read p).2.readAll places

/-- From the value that a walk found, goes on in the graph that it left. A walk that found none is
over. -/
def goOn (w : Walk × Graph F) (further : Graph F → Value → Walk × Graph F) : Walk × Graph F :=
  match w.1.outcome with
  | .ok (some v) =>
    ({ visits := w.1.visits ++ (further w.2 v).1.visits, outcome := (further w.2 v).1.outcome },
      (further w.2 v).2)
  | _ => w

section
omit [Foreign F]
variable {w : Walk × Graph F} {f : Graph F → Value → Walk × Graph F}

theorem goOn_of_found {v : Value} (h : w.1.outcome = .ok (some v)) :
    goOn w f = ({ visits := w.1.visits ++ (f w.2 v).1.visits, outcome := (f w.2 v).1.outcome },
      (f w.2 v).2) := by
  rw [goOn, h]

theorem goOn_of_over (h : ∀ v, w.1.outcome ≠ .ok (some v)) : goOn w f = w := by
  unfold goOn
  split
  · next v hv => exact absurd hv (h v)
  · rfl

theorem goOn_assoc (w : Walk × Graph F) (f f' : Graph F → Value → Walk × Graph F) :
    goOn (goOn w f) f' = goOn w fun g v => goOn (f g v) f' := by
  by_cases h : ∃ v, w.1.outcome = .ok (some v)
  · obtain ⟨v, hv⟩ := h
    rw [goOn_of_found (f := f) hv, goOn_of_found hv]
    -- The first walk found a value, so that the rest is up to the second one.
    rcases f w.2 v with ⟨⟨visits, outcome⟩, g⟩
    rcases outcome with e | _ | v' <;> simp [goOn]
  · rw [goOn_of_over (not_exists.1 h), goOn_of_over (not_exists.1 h), goOn_of_over (not_exists.1 h)]

end

theorem goOn_root (w : Walk × Graph F) : (goOn w fun g v => g.walk .root v) = w := by
  by_cases h : ∃ v, w.1.outcome = .ok (some v)
  · obtain ⟨v, hv⟩ := h
    rw [goOn_of_found hv, walk, List.append_nil, ← hv]
  · exact goOn_of_over (not_exists.1 h)

theorem follow_eq_read (g : Graph F) (node : Node) (target : Value) :
    g.follow node target = match node.place target with
      | .ok p => ({ visits := p.visits, outcome := .ok (g.read p).1 }, (g.read p).2)
      | .error e => ({ outcome := .error e }, g) := by
  unfold follow Node.place
  rcases node.step with name | index <;> cases target <;> rfl

/-! ### Concatenation -/

theorem walk_concat (g : Graph F) (ns : List Node) (n : Node) (root : Value) :
    g.walk (.ofPath ⟨ns ++ [n]⟩) root = goOn (g.walk (.ofPath ⟨ns⟩) root) fun g v =>
      g.follow n v := by
  have hjoin : Accessor.ofPath ⟨ns ++ [n]⟩ = (Accessor.ofPath ⟨ns⟩).join n := List.foldl_append ..
  rw [hjoin, walk_join]
  rfl

theorem walk_append (g : Graph F) (xs ys : List Node) (root : Value) :
    g.walk (.ofPath ⟨xs ++ ys⟩) root =
      goOn (g.walk (.ofPath ⟨xs⟩) root) fun g v => g.walk (.ofPath ⟨ys⟩) v := by
  induction ys using List.reverseRecOn with
  | nil => rw [List.append_nil]; exact (goOn_root _).symm
  | append_singleton ys n ih =>
    rw [← List.append_assoc, walk_concat, ih, goOn_assoc]
    simp only [walk_concat]

theorem walk_cons (g : Graph F) (n : Node) (ns : List Node) (v : Value) :
    g.walk (.ofPath ⟨n :: ns⟩) v = goOn (g.follow n v) fun g v => g.walk (.ofPath ⟨ns⟩) v := by
  have hone (g : Graph F) : g.walk (.ofPath ⟨[n]⟩) v = g.follow n v := by
    rw [← List.nil_append [n], walk_concat]
    simp [goOn, Accessor.ofPath, Accessor.joinAll, walk]
  rw [← List.singleton_append, walk_append, hone]

/-! ### Links -/

/-- The links in front of number `i` lead to a value, and there this link looks at the place. -/
def LooksAt (g : Graph F) (ns : List Node) (root : Value) (i : Nat) (p : Place) : Prop :=
  ∃ n target, ns[i]? = some n ∧ (g.walk (.ofPath ⟨ns.take i⟩) root).1.outcome = .ok (some target) ∧
    n.place target = .ok p

theorem LooksAt.cons {g g' : Graph F} {n : Node} {ns : List Node} {v v' : Value} {i : Nat}
    {p q : Place} (hp : n.place v = .ok p) (hr : g.read p = (some v', g'))
    (h : g'.LooksAt ns v' i q) :
    g.LooksAt (n :: ns) v (i + 1) q := by
  obtain ⟨m, target, hm, hfound, hq⟩ := h
  refine ⟨m, target, hm, ?_, hq⟩
  rw [List.take_succ_cons, walk_cons, follow_eq_read, hp]
  simpa [goOn, hr] using hfound

/-- The links of a walk look at one place each, from the first link on, until the walk is over. -/
theorem exists_places (g : Graph F) (ns : List Node) (root : Value) :
    ∃ places, (∀ i p, places[i]? = some p → g.LooksAt ns root i p) ∧
      (g.walk (.ofPath ⟨ns⟩) root).1.visits = places.flatMap Place.visits ∧
      (g.walk (.ofPath ⟨ns⟩) root).2 = g.readAll places := by
  induction ns generalizing g root with
  | nil => exact ⟨[], nofun, rfl, rfl⟩
  | cons n ns ih =>
    rw [walk_cons, follow_eq_read]
    cases hp : n.place root with
    | error e => exact ⟨[], nofun, rfl, rfl⟩
    | ok p =>
      have hfirst : g.LooksAt (n :: ns) root 0 p := ⟨n, root, rfl, rfl, hp⟩
      rcases hr : g.read p with ⟨_ | v, g'⟩
      · refine ⟨[p], fun i q hq => ?_, by simp [goOn, hr], by simp [goOn, readAll, hr]⟩
        obtain ⟨rfl, rfl⟩ : i = 0 ∧ p = q := by simpa [List.getElem?_singleton] using hq
        exact hfirst
      · obtain ⟨places, hlooks, hvisits, hgraph⟩ := ih g' v
        refine ⟨p :: places, fun i q hq => ?_, ?_, ?_⟩
        · cases i with
          | zero => cases hq; exact hfirst
          | succ i => exact (hlooks i q hq).cons hp hr
        · simp [goOn, hr, hvisits]
        · simp [goOn, readAll, hr, hgraph]

/--
Walks compose. To walk two paths in a row is to walk the first one and then, if it led to a value,
the second one from there, in the graph that the first one left: the visits are those of the two
walks, the end is that of the latter. If the first walk comes to nothing or fails, the whole walk
ends like that, with no further visit. In all this the links look at one place each, from the first
link on, and report a dependency right before they look; looking at these places is all that a walk
does to the graph.
-/
theorem walk_along_paths_in_a_row (g : Graph F) (xs ys : List Node) (root : Value) :
    let first := g.walk (.ofPath ⟨xs⟩) root
    let whole := g.walk (.ofPath ⟨xs ++ ys⟩) root
    (match first.1.outcome with
      | .ok (some v) =>
        let second := first.2.walk (.ofPath ⟨ys⟩) v
        whole.1.visits = first.1.visits ++ second.1.visits ∧ whole.1.outcome = second.1.outcome ∧
        whole.2 = second.2
      | _ => whole = first) ∧
    ∃ places, (∀ i p, places[i]? = some p → g.LooksAt (xs ++ ys) root i p) ∧
      whole.1.visits = places.flatMap (fun p => p.dependency?.toList.map .depends ++ [.reads p]) ∧
      whole.2 = g.readAll places := by
  intro first whole
  refine ⟨?_, g.exists_places (xs ++ ys) root⟩
  have hwhole : whole = goOn first fun g v => g.walk (.ofPath ⟨ys⟩) v := g.walk_append xs ys root
  split
  · next v hv =>
    rw [hwhole, goOn_of_found hv]
    exact ⟨rfl, rfl, rfl⟩
  · next hover => rw [hwhole, goOn_of_over hover]

/-- A container that answers with itself and then with a number: the second link is not answered
like the first. -/
example :
    let g : Graph Cycle :=
      { objects := ⟨[.foreign (.ofFields [("self", [some (.model 0), some (.int 7)])])]⟩ }
    let self : Node := ⟨.attr "self", "self", 0⟩
    (g.walk (.ofPath ⟨[self]⟩) (.model 0)).1.outcome = .ok (some (.model 0)) ∧
      (g.walk (.ofPath ⟨[self, self]⟩) (.model 0)).1.outcome = .ok (some (.int 7)) := by
  exact ⟨rfl, rfl⟩

end Graph
end LivePath
