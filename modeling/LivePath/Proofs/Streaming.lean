import LivePath.Proofs.Faults

/-!
# Reading a path node by node

A stream yields nodes, then an error or nothing, and from then on nothing (`Stream.Yields`,
`Yields.take_eq`). Its cursor keeps in step with the text: what is unread is the text without as
many characters as the cursor counts (`reads_after`). Whether the nodes are collected, taken over
into a path as they come, or read in one go, they are the same, and so is the error
(`streaming_agrees_with_parsing`).
-/

namespace LivePath

/-! ### Rows of tokens -/

namespace Written
variable {first : Bool} {offset : Nat} {ns : List Node} {n : Node} {body : List Char}

theorem exists_slice (h : Written first offset ns body) (hn : n ∈ ns) :
    ∃ left right, body = left ++ (n.text.toList ++ right) ∧ n.offset = offset + left.length := by
  induction h with
  | nil => cases hn
  | @cons first m ns body ht hw ih =>
    rcases List.mem_cons.1 hn with rfl | hn
    · exact ⟨[], body, rfl, rfl⟩
    · obtain ⟨left, right, hbody, ho⟩ := ih hn
      refine ⟨m.text.toList ++ left, right, by rw [hbody, List.append_assoc], ?_⟩
      rw [ho, List.length_append, String.length_toList, Nat.add_assoc]

theorem offset_head? (h : Written first offset ns body) (hn : ns.head? = some n) :
    n.offset = offset := by
  cases h with
  | nil => cases hn
  | cons => cases hn; rfl

theorem end_getLast? (h : Written first offset ns body) (hn : ns.getLast? = some n) :
    n.offset + n.text.length = offset + body.length := by
  induction h with
  | nil => cases hn
  | @cons first m ns body ht hw ih =>
    rw [List.length_append, String.length_toList, ← Nat.add_assoc]
    cases ns with
    | nil =>
      cases hn
      obtain rfl : body = [] := hw.body_eq
      rfl
    | cons => exact ih (by rwa [List.getLast?_cons_cons] at hn)

end Written

namespace Stream
variable {s t : Stream} {ns : List Node} {n : Node} {fault : Option SyntaxError}

def front (s : Stream) : Cursor :=
  if s.stage = .start then s.cursor.skipSpace else s.cursor

def after (s : Stream) : Nat → Stream
  | 0 => s
  | k + 1 => s.next.2.after k

/-- A call, what it yields, and the stream after it. -/
inductive Call : Stream → Option (Except SyntaxError Node) → Stream → Prop
  | spent {s : Stream} (h : s.stage = .done) : Call s none s
  | last {s : Stream} (h : s.stage ≠ .done) (hn : s.front.next s.first = none) :
      Call s none { s with cursor := s.front, stage := .done }
  | fault {s : Stream} {f : Fault} (h : s.stage ≠ .done)
      (hn : s.front.next s.first = some (.error f)) :
      Call s (some (.error { f with path := s.path })) { s with cursor := s.front, stage := .done }
  | node {s : Stream} {n : Node} {d : Cursor} (h : s.stage ≠ .done)
      (hn : s.front.next s.first = some (.ok (n, d))) :
      Call s (some (.ok n)) { s with cursor := d, first := false, stage := .running }

theorem call_next (s : Stream) : s.Call s.next.1 s.next.2 := by
  unfold next
  split
  · next h => exact .spent h
  · next h =>
    simp only
    split
    · next hn => exact .last h hn
    · next hn => exact .fault h hn
    · next hn => exact .node h hn

theorem Call.next_eq {r : Option (Except SyntaxError Node)} (h : s.Call r t) : s.next = (r, t) := by
  unfold next
  cases h with
  | spent h => rw [h]
  | last h hn | fault h hn | node h hn =>
    split
    · next hd => exact absurd hd h
    · simp only [front] at hn ⊢
      rw [hn]

/-- What all calls together yield: nodes, and an error if there is one. -/
inductive Yields : Stream → List Node → Option SyntaxError → Prop
  | last {s t : Stream} (h : s.Call none t) : Yields s [] none
  | fault {s t : Stream} {e : SyntaxError} (h : s.Call (some (.error e)) t) : Yields s [] (some e)
  | node {s t : Stream} {n : Node} {ns : List Node} {fault : Option SyntaxError}
      (h : s.Call (some (.ok n)) t)
      (hrest : Yields t ns fault) : Yields s (n :: ns) fault

theorem exists_yields (s : Stream) : ∃ ns fault, s.Yields ns fault := by
  have hcall := s.call_next
  induction s using collect.induct with
  | case1 s t h => rw [h] at hcall; exact ⟨_, _, .last hcall⟩
  | case2 s t e h => rw [h] at hcall; exact ⟨_, _, .fault hcall⟩
  | case3 s n t h ih =>
    rw [h] at hcall
    obtain ⟨ns, fault, hrest⟩ := ih t.call_next
    exact ⟨_, _, .node hcall hrest⟩

/-! ### What the consumers of a stream get -/

theorem take_of_done (h : s.stage = .done) (k : Nat) : s.take k = List.replicate k none := by
  induction k with
  | zero => rfl
  | succ k ih => rw [take, (Call.spent h).next_eq, ih]; rfl

theorem Call.done_of_none (h : s.Call none t) : t.stage = .done := by
  cases h with
  | spent h => exact h
  | last => rfl

theorem Call.done_of_error {e : SyntaxError} (h : s.Call (some (.error e)) t) :
    t.stage = .done := by
  cases h with
  | fault => rfl

theorem Yields.take_eq (h : s.Yields ns fault) (k : Nat) :
    s.take k = ((ns.map Except.ok ++ fault.toList.map Except.error).map some).takeD k none := by
  induction h generalizing k with
  | last h =>
    cases k with
    | zero => rfl
    | succ k =>
      rw [take, h.next_eq, take_of_done h.done_of_none]
      simp
  | fault h =>
    cases k with
    | zero => rfl
    | succ k =>
      rw [take, h.next_eq, take_of_done h.done_of_error]
      simp
  | node h hrest ih =>
    cases k with
    | zero => rfl
    | succ k => rw [take, h.next_eq, ih]; rfl

theorem collect_eq (s : Stream) : s.collect = match s.next with
    | (none, _) => .ok []
    | (some (.error e), _) => .error e
    | (some (.ok n), rest) => rest.collect.map (n :: ·) := by
  rw [collect]
  split <;> simp [*]

theorem extend_eq (p : Path) (s : Stream) : p.extend s = match s.next with
    | (none, _) => .ok p
    | (some (.error e), _) => .error e
    | (some (.ok n), rest) => Path.extend ⟨p.nodes ++ [n]⟩ rest := by
  rw [Path.extend]
  split <;> simp [*]

theorem Yields.collect_eq (h : s.Yields ns fault) : s.collect = fault.elim (.ok ns) .error := by
  induction h with
  | last h | fault h => rw [Stream.collect_eq, h.next_eq]; rfl
  | @node s t n ns fault h hrest ih =>
    rw [Stream.collect_eq, h.next_eq]
    simp only
    rw [ih]
    cases fault <;> rfl

theorem Yields.extend_eq (h : s.Yields ns fault) (p : Path) :
    p.extend s = fault.elim (.ok ⟨p.nodes ++ ns⟩) .error := by
  induction h generalizing p with
  | last h => rw [Stream.extend_eq, h.next_eq, List.append_nil]; rfl
  | fault h => rw [Stream.extend_eq, h.next_eq]; rfl
  | node h hrest ih =>
    rw [Stream.extend_eq, h.next_eq]
    simp only
    rw [ih, List.append_assoc]
    rfl

/-- What is left is read in one go with the same nodes, or the same fault. -/
theorem Yields.nodes_front (h : s.Yields ns fault) (hs : s.stage ≠ .done) :
    s.front.nodes s.first = fault.elim (.ok ns) (fun e => .error e.toFault) ∧
      ∀ e ∈ fault, e.path = s.path := by
  induction h with
  | last h =>
    cases h with
    | spent h => exact absurd h hs
    | last h hn => exact ⟨Cursor.nodes_eq_nil_iff.2 (Cursor.next_eq_none_iff.1 hn), nofun⟩
  | fault h =>
    cases h with
    | fault h hn => exact ⟨Cursor.nodes_eq_error_iff.2 (.inl hn), by simp⟩
  | @node s t n ns fault h hrest ih =>
    cases h with
    | node h hn =>
      obtain ⟨hnodes, hpath⟩ := ih nofun
      refine ⟨?_, hpath⟩
      cases fault with
      | none => exact Cursor.nodes_eq_cons_iff.2 ⟨_, hn, hnodes⟩
      | some e => exact Cursor.nodes_eq_error_iff.2 (.inr ⟨_, _, hn, hnodes⟩)

theorem Yields.parse_eq {text : String} (h : (ofString text).Yields ns fault) :
    Path.parse text = fault.elim (.ok ⟨ns⟩) .error := by
  obtain ⟨hnodes, hpath⟩ := h.nodes_front nofun
  cases fault with
  | none => exact Path.parse_eq_ok_iff.2 hnodes
  | some e => exact Path.parse_eq_error_iff.2 ⟨hnodes, hpath e rfl⟩

/-! ### What is read -/

theorem Yields.exists_written (h : s.Yields ns fault) (hs : s.stage ≠ .done) :
    ∃ body rest, s.front.rest = body ++ rest ∧ Written s.first s.front.offset ns body := by
  induction h with
  | last | fault => exact ⟨[], _, rfl, .nil _ _⟩
  | node h hrest ih =>
    cases h with
    | node h hn =>
      obtain ⟨body, rest, hbody, hw⟩ := ih nofun
      obtain ⟨rest', hrest', -, hw'⟩ := Cursor.written_cons hn hbody hw
      exact ⟨_, rest', hrest', hw'⟩

theorem reads_front (s : Stream) : ∃ xs, s.cursor.Reads s.front xs := by
  unfold front
  split
  · exact ⟨_, s.cursor.reads_run isSpace⟩
  · exact ⟨[], .refl _⟩

theorem Call.reads {r : Option (Except SyntaxError Node)} (h : s.Call r t) :
    ∃ xs, s.cursor.Reads t.cursor xs ∧ ∀ n, r = some (.ok n) → xs ≠ [] := by
  obtain ⟨xs, hxs⟩ := s.reads_front
  cases h with
  | spent => exact ⟨[], .refl _, nofun⟩
  | last | fault => exact ⟨xs, hxs, nofun⟩
  | node h hn =>
    obtain ⟨read, hnode, rfl, -⟩ := Cursor.next_eq_ok_iff.1 hn
    obtain ⟨hread, -, ht, -⟩ := Cursor.node_eq_ok_iff.1 hnode
    refine ⟨_, (hxs.trans hread).trans (read.reads_run isSpace), fun _ _ => ?_⟩
    obtain ⟨y, ys, hy, -⟩ := ht.exists_head
    simp [hy]

theorem Yields.length_le (h : s.Yields ns fault) : ns.length ≤ s.cursor.rest.length := by
  induction h with
  | last | fault => exact Nat.zero_le _
  | node h hrest ih => exact Nat.succ_le_of_lt (Nat.lt_of_le_of_lt ih (length_of_next h.next_eq))

theorem reads_after (s : Stream) (k : Nat) : ∃ xs, s.cursor.Reads (s.after k).cursor xs := by
  induction k generalizing s with
  | zero => exact ⟨[], .refl _⟩
  | succ k ih =>
    obtain ⟨xs, hxs, -⟩ := s.call_next.reads
    obtain ⟨ys, hys⟩ := ih s.next.2
    exact ⟨xs ++ ys, hxs.trans hys⟩

theorem offset_lt_of_node (h : s.next.1 = some (.ok n)) :
    s.cursor.offset < s.next.2.cursor.offset := by
  obtain ⟨xs, hxs, hne⟩ := s.call_next.reads
  have := List.length_pos_iff.2 (hne n h)
  have := hxs.offset
  omega

/-- What stands in front of the nodes, the nodes in a row, and what stands behind them make up the
text. -/
theorem Yields.exists_row {text : String} (h : (ofString text).Yields ns fault) :
    ∃ before behind, text = before ++ String.join (ns.map (·.text)) ++ behind ∧
      Written true before.length ns (String.join (ns.map (·.text))).toList := by
  obtain ⟨xs, hxs⟩ := (ofString text).reads_front
  obtain ⟨body, rest, hrest, hw⟩ := h.exists_written nofun
  obtain rfl : body = (String.join (ns.map (·.text))).toList := by
    rw [hw.body_eq, String.toList_join]
  refine ⟨String.ofList xs, String.ofList rest, ?_, ?_⟩
  · rw [← String.toList_inj]
    have ht : text.toList = xs ++ (ofString text).front.rest := hxs.rest
    rw [ht, hrest]
    simp only [String.toList_append, String.toList_ofList, List.append_assoc]
  · have ho : (ofString text).front.offset = (String.ofList xs).length := by
      rw [hxs.offset, String.length_ofList]
      exact Nat.zero_add _
    exact ho ▸ hw

/--
Reading a path node by node, collecting the nodes, taking them over as they come and reading them in
one go agree. For each text there are nodes, not more than it has characters, and maybe one error,
such that the calls of a stream yield the nodes, then the error, and then nothing for good, and all
others end up with just these nodes, or with just this error if there is one. Between calls the
stream counts the characters that it has read, at least one for each node. The text of each node is
the piece at its offset, and in a row these texts are the piece from the offset of the first one to
the end of the last one.
-/
theorem streaming_agrees_with_parsing (text : String) :
    ∃ (nodes : List Node) (fault : Option SyntaxError),
      (∀ k, (ofString text).take k =
        ((nodes.map Except.ok ++ fault.toList.map Except.error).map some).takeD k none) ∧
      nodes.length ≤ text.length ∧
      (∀ k, let s := (ofString text).after k
        (∃ read, text = read ++ String.ofList s.cursor.rest ∧ s.cursor.offset = read.length) ∧
        ∀ n, s.next.1 = some (.ok n) → s.cursor.offset < s.next.2.cursor.offset) ∧
      (ofString text).collect = fault.elim (.ok nodes) .error ∧
      Path.extend ⟨[]⟩ (ofString text) = fault.elim (.ok ⟨nodes⟩) .error ∧
      Path.parse text = fault.elim (.ok ⟨nodes⟩) .error ∧
      (∀ n ∈ nodes, ∃ before behind, text = before ++ n.text ++ behind ∧ n.offset = before.length) ∧
      ∀ first last, nodes.head? = some first → nodes.getLast? = some last →
        ∃ before behind, text = before ++ String.join (nodes.map (·.text)) ++ behind ∧
          first.offset = before.length ∧
          last.offset + last.text.length = (before ++ String.join (nodes.map (·.text))).length := by
  -- What the calls yield decides all the rest: `collect`, `extend` and `parse` make the same calls.
  obtain ⟨nodes, fault, h⟩ := (ofString text).exists_yields
  obtain ⟨before, behind, htext, hw⟩ := h.exists_row
  refine ⟨nodes, fault, h.take_eq, ?_, fun k => ⟨?_, fun n => offset_lt_of_node⟩, h.collect_eq,
    h.extend_eq _, h.parse_eq, fun n hn => ?_, fun first last hfirst hlast =>
      ⟨before, behind, htext, hw.offset_head? hfirst, ?_⟩⟩
  · exact h.length_le.trans (Nat.le_of_eq String.length_toList)
  · obtain ⟨xs, hxs⟩ := (ofString text).reads_after k
    refine ⟨String.ofList xs, ?_, ?_⟩
    · rw [← String.toList_inj, String.toList_append, String.toList_ofList, String.toList_ofList]
      exact hxs.rest
    · rw [hxs.offset, String.length_ofList]
      exact Nat.zero_add _
  · obtain ⟨left, right, hrow, ho⟩ := hw.exists_slice hn
    refine ⟨before ++ String.ofList left, String.ofList right ++ behind, ?_, ?_⟩
    · rw [htext, ← String.toList_inj]
      simp only [String.toList_append, String.toList_ofList, hrow, List.append_assoc]
    · rw [ho, String.length_append, String.length_ofList]
  · rw [hw.end_getLast? hlast, String.length_append, String.length_toList]

end Stream
end LivePath
