import LivePath.Accessor.Basic
import Mathlib.Data.List.Chain
import Mathlib.Data.List.Induction

/-!
# Accessors and paths

A path is a row of nodes and is rendered from the front; an accessor is made of the same nodes, but
refers from its leaf to its parents, and is rendered from there. Whatever the nodes are called, the
two come out alike, and going up from the leaf to the root one meets the nodes of the path,
unchanged and backwards (`Accessor.ofPath_realizes`). For this is so of the root, and one more node
at the end makes the same difference to both (`Realizes.join`).
-/

namespace LivePath

theorem Path.renderRest_append (ns ns' : List Node) :
    renderRest (ns ++ ns') = renderRest ns ++ renderRest ns' := by
  induction ns with
  | nil => exact String.empty_append.symm
  | cons n ns ih => rw [List.cons_append, renderRest, renderRest, ih, String.append_assoc]

/-- Only at the very front a node is rendered without a dot. -/
theorem Path.render_concat (ns : List Node) (n : Node) :
    render ⟨ns ++ [n]⟩ = render ⟨ns⟩ ++ if ns = [] then n.step.renderFirst else n.step.render := by
  cases ns with
  | nil =>
    show n.step.renderFirst ++ "" = "" ++ n.step.renderFirst
    rw [String.append_empty, String.empty_append]
  | cons n' ns =>
    show n'.step.renderFirst ++ renderRest (ns ++ [n]) = n'.step.renderFirst ++
      renderRest ns ++ n.step.render
    rw [renderRest_append, renderRest, renderRest, String.append_empty, String.append_assoc]

namespace Accessor

/-- An accessor is made of a row of nodes: it reads like their path, and has their links, the last
one outermost. -/
structure Realizes (a : Accessor) (ns : List Node) : Prop where
  render : a.render = Path.render ⟨ns⟩
  length : a.length = ns.length
  leaf : a.chain.head? = some a
  parents : a.chain.IsChain fun b c => b.parent? = some c
  root : a.chain.getLast? = some .root
  nodes : a.chain.map node? = ns.reverse.map some ++ [none]
  kinds : a.chain.map kind = ns.reverse.map (LinkKind.ofStep ·.step.kind) ++ [.root]

namespace Realizes
variable {a : Accessor} {ns : List Node}

theorem of_root : Accessor.root.Realizes [] where
  render := rfl
  length := rfl
  leaf := rfl
  parents := .singleton _
  root := rfl
  nodes := rfl
  kinds := rfl

theorem isRoot_iff (h : a.Realizes ns) : a.isRoot = true ↔ ns = [] := by
  have hlen := h.length
  cases a with
  | root => simpa [isRoot, parent?, Accessor.length, eq_comm] using hlen
  | join parent n =>
    have hne : ns ≠ [] := by
      rintro rfl
      cases hlen
    simp [isRoot, parent?, hne]

theorem join (h : a.Realizes ns) (n : Node) : (a.join n).Realizes (ns ++ [n]) where
  render := by
    rw [Path.render_concat, ← h.render, Accessor.render]
    simp only [h.isRoot_iff]
  length := by rw [Accessor.length, h.length, List.length_append, List.length_singleton]
  leaf := rfl
  parents := by
    refine List.isChain_cons.2 ⟨fun b hb => ?_, h.parents⟩
    rw [h.leaf] at hb
    exact hb
  root := by rw [chain, List.getLast?_cons, h.root]; rfl
  nodes := by rw [chain, List.map_cons, h.nodes, List.reverse_concat]; rfl
  kinds := by rw [chain, List.map_cons, h.kinds, List.reverse_concat]; rfl

end Realizes

theorem ofPath_concat (ns : List Node) (n : Node) : ofPath ⟨ns ++ [n]⟩ = (ofPath ⟨ns⟩).join n :=
  List.foldl_append ..

theorem realizes_ofPath (ns : List Node) : (ofPath ⟨ns⟩).Realizes ns := by
  induction ns using List.reverseRecOn with
  | nil => exact .of_root
  | append_singleton ns n ih =>
    rw [ofPath_concat]
    exact ih.join n

theorem getElem?_chain_ofPath (ns : List Node) (k : Nat) :
    (ofPath ⟨ns⟩).chain[ns.length - k]? = some (ofPath ⟨ns.take k⟩) := by
  induction ns using List.reverseRecOn with
  | nil => rw [List.length_nil, Nat.zero_sub, List.take_nil]; rfl
  | append_singleton ns n ih =>
    rw [ofPath_concat, chain, List.length_append, List.length_singleton]
    by_cases hk : k ≤ ns.length
    · have hsub : ns.length + 1 - k = ns.length - k + 1 := by omega
      rw [hsub, List.getElem?_cons_succ, ih, List.take_append_of_le_length hk]
    · have hsub : ns.length + 1 - k = 0 := by omega
      have htake : (ns ++ [n]).take k = ns ++ [n] := List.take_of_length_le (by simp; omega)
      rw [hsub, htake, ofPath_concat]
      rfl

/--
The accessor that is built from nodes reads like their path, has as many links, and from the leaf to
the root these have the nodes and their kinds, unchanged and backwards. Going up, one meets the
accessors of shorter and shorter beginnings of the path. One more node may be joined to each of
them, and the result is just as true to its nodes.
-/
theorem ofPath_realizes (nodes : List Node) :
    (ofPath ⟨nodes⟩).Realizes nodes ∧
    ∀ (k : Nat) (n : Node), (ofPath ⟨nodes⟩).chain[nodes.length - k]? =
      some (ofPath ⟨nodes.take k⟩) ∧
      ((ofPath ⟨nodes.take k⟩).join n).Realizes (nodes.take k ++ [n]) :=
  ⟨realizes_ofPath nodes, fun k n => ⟨getElem?_chain_ofPath nodes k, (realizes_ofPath _).join n⟩⟩

/-- Names that no text stands for, and texts that have nothing to do with them. -/
example :
    let nodes : List Node := [⟨.attr "a.b", "x", 7⟩, ⟨.item 3, "", 0⟩, ⟨.attr "", "[", 1⟩]
    (ofPath ⟨nodes⟩).render = "a.b[3]." ∧ Path.render ⟨nodes⟩ = "a.b[3]." := by
  decide

end Accessor
end LivePath
