import LivePath.Path.Document
import LivePath.Proofs.Grammar

/-!
# Reading what was rendered

The rendering of a path is the row of the tokens that its steps are rendered as (`render_eq_join`).
A step whose name is an identifier, or whose index fits into 64 bits, is rendered as a token that
stands for it, and no token stands for another step (`Token.step_unique`). Texts and offsets of the
nodes play no part in the rendering, and come back only where they are those of the normal form
(`parse_render`).
-/

namespace LivePath

/-- There is a way to write the step. -/
def Step.Readable : Step → Prop
  | .attr name => Identifier name
  | .item index => index < 2 ^ 64

attribute [ext] Node

theorem decimal_repr (n : Nat) : decimal n.repr = n := by
  rw [← decimal_eq, Nat.toList_repr]
  exact Nat.ofDigitChars_toDigits (by decide) (by decide)

namespace Token
variable {first : Bool} {t : String} {step step' : Step}

theorem readable (h : Token first t step) : step.Readable := by
  rcases h.item_or_attr with ⟨digits, -, -, hl, -, rfl⟩ | ⟨name, hid, -, rfl⟩
  · exact hl
  · exact hid

theorem of_readable (first : Bool) (h : step.Readable) :
    Token first (if first then step.renderFirst else step.render) step := by
  cases step with
  | attr name => exact .of_attr h first
  | item index =>
    have hd : ∀ c ∈ index.repr.toList, c.isDigit = true := by
      intro c hc
      rw [Nat.toList_repr] at hc
      exact Nat.isDigit_of_mem_toDigits (by decide) (by decide) hc
    have hl : decimal index.repr < 2 ^ 64 := by
      rw [decimal_repr]
      exact h
    have ht : (if first then (Step.item index).renderFirst else (Step.item index).render) =
        "[" ++ index.repr ++ "]" := ite_self _
    have htoken := Token.item first Nat.repr_ne_empty hd hl
    rw [decimal_repr] at htoken
    rw [ht]
    exact htoken

theorem step_unique (h : Token first t step) (h' : Token first t step') : step = step' := by
  have hread : Cursor.Reads ⟨t.toList, 0⟩ ⟨[], t.length⟩ t.toList :=
    ⟨(List.append_nil _).symm, by rw [String.length_toList, Nat.zero_add]⟩
  have hstop : Cursor.Stops ⟨[], t.length⟩ isNameRest := nofun
  have hn := Cursor.node_eq_ok_iff (n := ⟨step, t, 0⟩).2 ⟨hread, rfl, h, fun _ => hstop⟩
  have hn' := Cursor.node_eq_ok_iff (n := ⟨step', t, 0⟩).2 ⟨hread, rfl, h', fun _ => hstop⟩
  have heq := Except.ok.inj (hn.symm.trans hn')
  cases heq
  rfl

end Token

namespace Path
variable {p q : Path} {s : String}

def steps (p : Path) : List Step :=
  p.nodes.map (·.step)

def tokens (p : Path) : List String :=
  match p.steps with
  | [] => []
  | step :: steps => step.renderFirst :: steps.map (·.render)

theorem render_eq_join (p : Path) : p.render = String.join p.tokens := by
  have hrest (ns : List Node) : renderRest ns = String.join ((ns.map (·.step)).map (·.render)) := by
    induction ns with
    | nil => rfl
    | cons n ns ih => rw [renderRest, ih, List.map_cons, List.map_cons, String.join_cons]
  obtain ⟨nodes⟩ := p
  cases nodes with
  | nil => rfl
  | cons n ns =>
    show n.step.renderFirst ++ renderRest ns =
      String.join (n.step.renderFirst :: (ns.map (·.step)).map (·.render))
    rw [hrest, String.join_cons]

theorem tokens_congr (h : p.steps = q.steps) : p.tokens = q.tokens := by
  rw [tokens, h, tokens]

theorem render_congr (h : p.steps = q.steps) : p.render = q.render := by
  rw [render_eq_join, render_eq_join, tokens_congr h]

theorem getElem?_tokens (p : Path) (i : Nat) : p.tokens[i]? =
    p.nodes[i]?.map fun n => if i = 0 then n.step.renderFirst else n.step.render := by
  obtain ⟨nodes⟩ := p
  cases nodes with
  | nil => rfl
  | cons n ns =>
    cases i with
    | zero => rfl
    | succ i =>
      simp only [tokens, steps, List.map_cons, List.map_map, List.getElem?_cons_succ,
        List.getElem?_map, Nat.succ_ne_zero, if_false]
      rfl

theorem tokens_take (p : Path) (i : Nat) : (⟨p.nodes.take i⟩ : Path).tokens = p.tokens.take i := by
  obtain ⟨nodes⟩ := p
  cases i with
  | zero => rfl
  | succ i =>
    cases nodes with
    | nil => rfl
    | cons n ns => simp [tokens, steps, List.map_take]

theorem exists_node_of_steps (h : q.steps = p.steps) {i : Nat} {n : Node}
    (hn : p.nodes[i]? = some n) :
    ∃ m, q.nodes[i]? = some m ∧ m.step = n.step := by
  have hi : q.steps[i]? = p.steps[i]? := by rw [h]
  rw [steps, steps, List.getElem?_map, List.getElem?_map, hn] at hi
  exact Option.map_eq_some_iff.1 hi

theorem length_render_take (p : Path) (i : Nat) :
    (render ⟨p.nodes.take i⟩).length = ("" ++ String.join (p.tokens.take i)).length := by
  rw [render_eq_join, tokens_take, String.empty_append]

theorem readable_of_parse (h : parse s = .ok p) {n : Node} (hn : n ∈ p.nodes) :
    n.step.Readable := by
  obtain ⟨lead, ts, trail, hs⟩ := exists_spelling h
  obtain ⟨q, hq, -, hnodes⟩ := exists_parse hs
  have hsame : q = p := Except.ok.inj (hq.symm.trans h)
  obtain ⟨i, hi⟩ := List.mem_iff_getElem?.1 hn
  exact (hnodes i n (hsame ▸ hi)).2.readable

/-- Rendered steps are read as the same steps, and their nodes keep what was rendered. -/
theorem exists_parse_render (h : ∀ n ∈ p.nodes, n.step.Readable) :
    ∃ q, parse p.render = .ok q ∧ q.steps = p.steps ∧ ∀ i n, q.nodes[i]? = some n →
      n.text = (if i = 0 then n.step.renderFirst else n.step.render) ∧
      n.offset = (render ⟨p.nodes.take i⟩).length := by
  have hrendered : ∀ (i : Nat) (n : Node), p.nodes[i]? = some n →
      Token (i = 0) (if i = 0 then n.step.renderFirst else n.step.render) n.step := by
    intro i n hn
    have ht := Token.of_readable (i = 0) (h n (List.mem_of_getElem? hn))
    simpa using ht
  have hspelling : Spelling p.render "" p.tokens "" := by
    refine ⟨?_, nofun, nofun, fun i t ht => ?_⟩
    · rw [render_eq_join, String.empty_append, String.append_empty]
    · rw [getElem?_tokens] at ht
      obtain ⟨n, hn, rfl⟩ := Option.map_eq_some_iff.1 ht
      exact ⟨n.step, hrendered i n hn⟩
  obtain ⟨q, hq, htexts, hnodes⟩ := exists_parse hspelling
  have htext (i : Nat) : q.nodes[i]?.map (·.text) =
      p.nodes[i]?.map fun n => if i = 0 then n.step.renderFirst else n.step.render := by
    rw [← List.getElem?_map, htexts, getElem?_tokens]
  -- The same token stands at each place, and it stands for one step.
  have hsteps : q.steps = p.steps := by
    refine List.ext_getElem? fun i => ?_
    rw [steps, steps, List.getElem?_map, List.getElem?_map]
    have hi := htext i
    cases hn : p.nodes[i]? with
    | none =>
      rw [hn] at hi
      rw [Option.map_eq_none_iff.1 hi]
    | some n =>
      rw [hn] at hi
      obtain ⟨m, hm, ht⟩ := Option.map_eq_some_iff.1 hi
      have hmtoken := (hnodes i m hm).2
      rw [ht] at hmtoken
      rw [hm]
      exact congrArg some (hmtoken.step_unique (hrendered i n hn))
  refine ⟨q, hq, hsteps, fun i m hm => ?_⟩
  obtain ⟨n, hn, hstep⟩ := exists_node_of_steps hsteps.symm hm
  have hi := htext i
  rw [hm, hn] at hi
  refine ⟨?_, ?_⟩
  · rw [← hstep]
    exact Option.some.inj hi
  · rw [(hnodes i m hm).1, length_render_take]

/--
Rendering and parsing are inverse. The steps of a path come back if and only if the names among them
are identifiers; the whole path does if and only if moreover its nodes have the texts and offsets of
the rendering. So a path that was parsed has a normal form, which is parsed to the same steps and
has itself as its normal form, in documents too.
-/
theorem parse_render :
    (∀ p : Path, (∀ n ∈ p.nodes, ∀ i, n.step = .item i → i < 2 ^ 64) →
      ((∃ q, parse p.render = .ok q ∧ q.steps = p.steps) ↔
        ∀ n ∈ p.nodes, ∀ name, n.step = .attr name → Identifier name) ∧
      (parse p.render = .ok p ↔
        (∀ n ∈ p.nodes, ∀ name, n.step = .attr name → Identifier name) ∧
        ∀ i n, p.nodes[i]? = some n →
          n.text = (if i = 0 then n.step.renderFirst else n.step.render) ∧
          n.offset = (render ⟨p.nodes.take i⟩).length)) ∧
    ∀ s p, parse s = .ok p →
      (∃ q, parse p.render = .ok q ∧ q.steps = p.steps ∧ q.render = p.render) ∧
      ∃ q, ofDocument p.toDocument = .ok q ∧ q.steps = p.steps := by
  refine ⟨fun p hbound => ?_, fun s p hp => ?_⟩
  · have hreadable (h : ∀ n ∈ p.nodes, ∀ name, n.step = .attr name → Identifier name) :
        ∀ n ∈ p.nodes, n.step.Readable := by
      intro n hn
      cases hstep : n.step with
      | attr name => exact h n hn name hstep
      | item index => exact hbound n hn index hstep
    have hnames {q : Path} (hq : parse p.render = .ok q) (hsteps : q.steps = p.steps) :
        ∀ n ∈ p.nodes, ∀ name, n.step = .attr name → Identifier name := by
      intro n hn name hname
      have hmem : n.step ∈ q.steps := by
        rw [hsteps]
        exact List.mem_map_of_mem hn
      obtain ⟨m, hm, hstep⟩ := List.mem_map.1 hmem
      have hread := readable_of_parse hq hm
      rw [hstep, hname] at hread
      exact hread
    refine ⟨⟨?_, ?_⟩, ⟨?_, ?_⟩⟩
    · rintro ⟨q, hq, hsteps⟩
      exact hnames hq hsteps
    · intro h
      obtain ⟨q, hq, hsteps, -⟩ := exists_parse_render (hreadable h)
      exact ⟨q, hq, hsteps⟩
    · intro hp
      have h := hnames hp rfl
      obtain ⟨q, hq, -, hnodes⟩ := exists_parse_render (hreadable h)
      have hsame : q = p := Except.ok.inj (hq.symm.trans hp)
      rw [hsame] at hnodes
      exact ⟨h, hnodes⟩
    · rintro ⟨h, hnodes⟩
      obtain ⟨q, hq, hsteps, hnodes'⟩ := exists_parse_render (hreadable h)
      -- Step, text and offset are all there is to a node.
      have hsame : q.nodes = p.nodes := by
        have hlength : q.nodes.length = p.nodes.length := by
          simpa [steps] using congrArg List.length hsteps
        refine List.ext_getElem? fun i => ?_
        cases hn : p.nodes[i]? with
        | none =>
          rw [List.getElem?_eq_none_iff] at hn ⊢
          omega
        | some n =>
          obtain ⟨m, hm, hstep⟩ := exists_node_of_steps hsteps hn
          obtain ⟨htext, hoffset⟩ := hnodes i n hn
          obtain ⟨htext', hoffset'⟩ := hnodes' i m hm
          rw [hstep, ← htext] at htext'
          rw [hm, Node.ext hstep htext' (hoffset'.trans hoffset.symm)]
      have hq' : parse p.render = .ok ⟨q.nodes⟩ := hq
      rw [hsame] at hq'
      exact hq'
  · obtain ⟨q, hq, hsteps, -⟩ := exists_parse_render fun n hn => readable_of_parse hp hn
    refine ⟨⟨q, hq, hsteps, render_congr hsteps⟩, q, ?_, hsteps⟩
    rw [toDocument, ofDocument, hq]
    rfl

/-- The steps come back; the offset of the name, which is not that of the rendering, does not. -/
theorem parse_render_index :
    parse (render ⟨[.item 7, .attr "name" false]⟩) ≠ .ok ⟨[.item 7, .attr "name" false]⟩ ∧
    ∃ q, parse (render ⟨[.item 7, .attr "name" false]⟩) = .ok q ∧
      q.steps = [.item 7, .attr "name"] ∧
      ∃ r, parse q.render = .ok r ∧ r.render = q.render := by
  have hindex : ∀ n ∈ [Node.item 7, Node.attr "name" false], ∀ i, n.step = .item i →
      i < 2 ^ 64 := by
    simp [Node.item, Node.attr]
  have hname : ∀ n ∈ [Node.item 7, Node.attr "name" false], ∀ name, n.step = .attr name →
      Identifier name := by
    have hid : Identifier "name" := ⟨'n', ['a', 'm', 'e'], rfl, .inl rfl, by simp⟩
    simpa [Node.item, Node.attr] using hid
  obtain ⟨hboth, hnormal⟩ := parse_render
  obtain ⟨hsteps, hwhole⟩ := hboth ⟨[.item 7, .attr "name" false]⟩ hindex
  refine ⟨fun h => ?_, ?_⟩
  · have hoffset := ((hwhole.1 h).2 1 (.attr "name" false) rfl).2
    exact absurd hoffset (by decide)
  · obtain ⟨q, hq, hsame⟩ := hsteps.2 hname
    obtain ⟨⟨r, hr, -, hrender⟩, -⟩ := hnormal _ _ hq
    exact ⟨q, hq, hsame, r, hr, hrender⟩

end Path
end LivePath
