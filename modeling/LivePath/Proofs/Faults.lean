import LivePath.Proofs.Grammar

/-!
# Where the first fault is

A node that can not be read stops its reader behind characters that some node begins with, at one
that no node goes on with there (`Halts`); only a number that is too large is reported before its
digits. The fault depends on no character behind the one it is at (`Shares.nodes`). Since the nodes
before it were read (`Begun`), what stands in front of a fault can still become a path, and together
with the character at the fault it can not (`parse_error_at_first_fault`).
-/

namespace LivePath

/-! ### Readers that fail -/

namespace Cursor
variable {c c' d d' : Cursor} {first : Bool} {f : Fault} {k : Nat} {xs : List Char}

/--
How the reader of a node fails: the characters of the node that were read, the cursor at the fault,
and the rule that is broken.
-/
inductive Halts : Bool → List Char → Cursor → SyntaxRule → Prop
  | number (first : Bool) {d : Cursor} (h : d.Stops Char.isDigit) :
      Halts first ['['] d .numberMissing
  | large (first : Bool) {d : Cursor} (h : 2 ^ 64 ≤ decimal (String.ofList (d.run Char.isDigit))) :
      Halts first ['['] d .indexTooLarge
  | close (first : Bool) {digits : String} {d : Cursor} (hne : digits ≠ "")
      (hd : ∀ x ∈ digits.toList, x.isDigit = true) (hl : decimal digits < 2 ^ 64)
      (hs : d.Stops Char.isDigit)
      (hc : d.Stops (· == ']')) : Halts first ('[' :: digits.toList) d (.expected ']' d.rest.head?)
  | dot {d : Cursor} (ho : d.Stops (· == '[')) (hs : d.Stops (· == '.')) :
      Halts false [] d (.expected '.' d.rest.head?)
  | name {d : Cursor} (hs : d.Stops isNameStart) : Halts false ['.'] d .nameStart
  | start {d : Cursor} (ho : d.Stops (· == '[')) (hs : d.Stops isNameStart) :
      Halts true [] d .nameStart

theorem stops_congr {p : Char → Bool} (h : d'.rest.head? = d.rest.head?) (hs : d.Stops p) :
    d'.Stops p := by
  intro x xs hx
  cases hd : d.rest with
  | nil => rw [hx, hd] at h; cases h
  | cons y ys =>
    rw [hx, hd] at h
    cases h
    exact hs _ _ hd

theorem stops_beq_iff {x : Char} : c.Stops (· == x) ↔ c.rest.head? ≠ some x := by
  cases hc : c.rest with
  | nil => exact ⟨nofun, fun _ y ys hy => by rw [hc] at hy; cases hy⟩
  | cons y ys =>
    constructor
    · intro h hy
      have := h y ys hc
      cases hy
      simp at this
    · intro h z zs hz
      rw [hc] at hz
      cases hz
      simpa using h

theorem skip_eq_error_iff {wanted : Char} :
    c.skip wanted = .error f ↔ c.Stops (· == wanted) ∧
      f = ⟨c.offset, .expected wanted c.rest.head?⟩ := by
  rw [stops_beq_iff]
  unfold skip
  cases hc : c.rest with
  | nil => simp [eq_comm]
  | cons found rest => 
    by_cases hf : found = wanted
    · simp [hf]
    · simp [hf, Ne.symm hf, eq_comm]

theorem number_eq_error_iff :
    c.number = .error f ↔ (c.Stops Char.isDigit ∧ f = ⟨c.offset, .numberMissing⟩) ∨
      (2 ^ 64 ≤ decimal (String.ofList (c.run Char.isDigit)) ∧ f = ⟨c.offset, .indexTooLarge⟩) := by
  have hlimit : indexLimit = 2 ^ 64 := rfl
  have hv : Nat.ofDigitChars 10 (c.run Char.isDigit) 0 =
      decimal (String.ofList (c.run Char.isDigit)) := by
    rw [← decimal_eq, String.toList_ofList]
  have hnil : c.run Char.isDigit = [] ↔ c.Stops Char.isDigit := by
    constructor
    · intro h
      have := c.stops_run Char.isDigit
      rw [h] at this
      exact this
    · intro h
      exact run_of_reads (.refl c) nofun h
  unfold number
  rw [hv, hlimit]
  by_cases hs : c.Stops Char.isDigit
  · have hzero : decimal (String.ofList (c.run Char.isDigit)) = 0 := by
      rw [hnil.2 hs]; rfl
    rw [if_pos (hnil.2 hs), hzero]
    simp [hs, eq_comm]
  · rw [if_neg fun h => hs (hnil.1 h)]
    by_cases hl : decimal (String.ofList (c.run Char.isDigit)) < 2 ^ 64
    · rw [if_pos hl]
      refine iff_of_false nofun ?_
      rintro (⟨h, -⟩ | ⟨h, -⟩)
      · exact hs h
      · exact absurd hl (Nat.not_lt.2 h)
    · rw [if_neg hl]
      simp only [hs, Nat.le_of_not_lt hl, false_and, true_and, false_or,
        Except.error.injEq, eq_comm]

theorem name_eq_error_iff :
    c.name = .error f ↔ c.Stops isNameStart ∧ f = ⟨c.offset, .nameStart⟩ := by
  unfold name
  cases hc : c.rest with
  | nil =>
    have hs : c.Stops isNameStart := fun x xs hx => by rw [hc] at hx; cases hx
    simp [hs, eq_comm]
  | cons x xs =>
    have hs : c.Stops isNameStart ↔ isNameStart x = false := by
      constructor
      · exact fun h => h x xs hc
      · intro h y ys hy
        rw [hc] at hy
        cases hy
        exact h
    by_cases hx : isNameStart x = true <;> simp [hs, hx, eq_comm]

theorem item_eq_error_iff (ho : c.Reads d ['[']) :
    c.item = .error f ↔ d.number = .error f ∨
      ∃ n numbered, d.number = .ok (n, numbered) ∧ numbered.skip ']' = .error f := by
  unfold item
  rw [skip_eq_ok_iff.2 ho]
  simp only
  cases hn : d.number with
  | error fault => simp
  | ok p =>
    obtain ⟨n, numbered⟩ := p
    cases hc : numbered.skip ']' <;> simp [hc]

theorem attr_eq_error_iff : c.attr first = .error f ↔ c.dot first = .error f ∨
    ∃ dotted, c.dot first = .ok dotted ∧ dotted.name = .error f := by
  unfold attr
  cases hd : c.dot first with
  | error fault => simp
  | ok dotted => cases hn : dotted.name <;> simp [hn]

theorem node_eq_error_iff :
    c.node first = .error f ↔ ∃ d xs, c.Reads d xs ∧ f.offset = d.offset ∧
      Halts first xs d f.rule := by
  have hopen {d : Cursor} {xs : List Char} (h : c.Reads d ('[' :: xs)) :
      c.rest.head? = some '[' := by
    rw [h.rest]; rfl
  -- A node halts where one of its parts does: an item at its number or its closing bracket, an
  -- attribute at its dot or its name.
  unfold node
  constructor
  · intro h
    split at h
    · next hhead =>
      obtain ⟨rest, hrest⟩ := List.head?_eq_some_iff.1 hhead
      have ho : c.Reads ⟨rest, c.offset + 1⟩ ['['] := ⟨hrest, rfl⟩
      rcases (item_eq_error_iff ho).1 h with hnum | ⟨n, numbered, hnum, hskip⟩
      · rcases number_eq_error_iff.1 hnum with ⟨hs, rfl⟩ | ⟨hl, rfl⟩
        · exact ⟨_, _, ho, rfl, .number first hs⟩
        · exact ⟨_, _, ho, rfl, .large first hl⟩
      · obtain ⟨digits, hr, hne, hd, hs, hl, -⟩ := number_eq_ok_iff.1 hnum
        obtain ⟨hc, rfl⟩ := skip_eq_error_iff.1 hskip
        exact ⟨numbered, _, ho.trans hr, rfl, .close first hne hd hl hs hc⟩
    · next hhead =>
      have ho : c.Stops (· == '[') := stops_beq_iff.2 hhead
      rcases attr_eq_error_iff.1 h with hdot | ⟨dotted, hdot, hname⟩
      · cases first with
        | true => cases hdot
        | false =>
          obtain ⟨hs, rfl⟩ := skip_eq_error_iff.1 hdot
          exact ⟨c, [], .refl c, rfl, .dot ho hs⟩
      · obtain ⟨hs, rfl⟩ := name_eq_error_iff.1 hname
        cases first with
        | true => cases hdot; exact ⟨c, [], .refl c, rfl, .start ho hs⟩
        | false => exact ⟨dotted, _, skip_eq_ok_iff.1 hdot, rfl, .name hs⟩
  · obtain ⟨offset, rule⟩ := f
    rintro ⟨d, xs, hr, rfl, h⟩
    cases h with
    | number first hs =>
      rw [if_pos (hopen hr), item_eq_error_iff hr]
      exact .inl (number_eq_error_iff.2 (.inl ⟨hs, rfl⟩))
    | large first hl =>
      rw [if_pos (hopen hr), item_eq_error_iff hr]
      exact .inl (number_eq_error_iff.2 (.inr ⟨hl, rfl⟩))
    | @close first digits _ hne hd hl hs hc =>
      have hparts : c.Reads d (['['] ++ digits.toList) := hr
      obtain ⟨opened, ho, hr'⟩ := hparts.split
      rw [if_pos (hopen hr), item_eq_error_iff ho]
      exact .inr ⟨_, d, number_eq_ok_iff.2 ⟨digits, hr', hne, hd, hs, hl, rfl⟩,
        skip_eq_error_iff.2 ⟨hc, rfl⟩⟩
    | dot ho hs =>
      obtain rfl := (Reads.refl c).unique hr
      rw [if_neg (stops_beq_iff.1 ho), attr_eq_error_iff]
      exact .inl (skip_eq_error_iff.2 ⟨hs, rfl⟩)
    | name hs =>
      have hhead : c.rest.head? ≠ some '[' := by
        rw [hr.rest]
        simp
      rw [if_neg hhead, attr_eq_error_iff]
      exact .inr ⟨d, skip_eq_ok_iff.2 hr, name_eq_error_iff.2 ⟨hs, rfl⟩⟩
    | start ho hs =>
      obtain rfl := (Reads.refl c).unique hr
      rw [if_neg (stops_beq_iff.1 ho), attr_eq_error_iff]
      exact .inr ⟨c, rfl, name_eq_error_iff.2 ⟨hs, rfl⟩⟩

theorem next_eq_error_iff :
    c.next first = some (.error f) ↔ c.rest ≠ [] ∧ (c.node first = .error f ∨
    ∃ n read, c.node first = .ok (n, read) ∧ read.run isSpace ≠ [] ∧ read.skipSpace.rest ≠ [] ∧
      f = ⟨read.offset, .spaceInside⟩) := by
  unfold next
  by_cases hrest : c.rest = []
  · simp [hrest]
  · rw [if_neg hrest]
    cases hn : c.node first with
    | error fault => simp [hrest]
    | ok p =>
      obtain ⟨n, read⟩ := p
      simp only [offset_skipSpace_ne_iff]
      by_cases hspace : read.run isSpace ≠ [] ∧ read.skipSpace.rest ≠ []
      · rw [if_pos hspace]
        constructor
        · intro h
          cases h
          exact ⟨hrest, .inr ⟨n, read, rfl, hspace.1, hspace.2, rfl⟩⟩
        · rintro ⟨-, h | ⟨n', read', h, -, -, rfl⟩⟩
          · cases h
          · cases h
            rfl
      · rw [if_neg hspace]
        refine iff_of_false nofun ?_
        rintro ⟨-, h | ⟨n', read', h, hrun, hskip, -⟩⟩
        · cases h
        · cases h
          exact hspace ⟨hrun, hskip⟩

theorem nodes_eq_error_iff : c.nodes first = .error f ↔ c.next first = some (.error f) ∨
    ∃ n d, c.next first = some (.ok (n, d)) ∧ d.nodes false = .error f := by
  rw [nodes]
  split
  · next h => simp [h]
  · next h => simp [h]
  · next node rest h =>
    rw [h]
    cases hrest : rest.nodes false <;> simp [hrest]

/-! ### What a fault depends on -/

/-- Two cursors have the same characters in front of them, up to and with the one at `k`. -/
def Shares (c c' : Cursor) (k : Nat) : Prop :=
  c'.offset = c.offset ∧ ∃ xs x ys zs, c.rest = xs ++ x :: ys ∧ c'.rest = xs ++ x :: zs ∧
  k = c.offset + xs.length

namespace Shares

theorem head (h : c.Shares c' k) : c'.rest.head? = c.rest.head? := by
  obtain ⟨-, xs, x, ys, zs, hc, hc', -⟩ := h
  rw [hc, hc']
  cases xs <;> rfl

theorem rest_ne_nil (h : c.Shares c' k) : c'.rest ≠ [] := by
  obtain ⟨-, xs, x, ys, zs, -, hc', -⟩ := h
  rw [hc']
  simp

theorem reads (h : c.Shares c' k) (hr : c.Reads d xs) (hk : d.offset ≤ k) :
    ∃ d', c'.Reads d' xs ∧ d.Shares d' k := by
  obtain ⟨ho, us, x, ys, zs, hc, hc', rfl⟩ := h
  have hlength : xs.length ≤ us.length := by
    have := hr.offset
    omega
  have hprefix : xs <+: us :=
    List.prefix_of_prefix_length_le ⟨d.rest, hr.rest.symm⟩ ⟨x :: ys, hc.symm⟩ hlength
  obtain ⟨vs, rfl⟩ := hprefix
  have hd : d.rest = vs ++ x :: ys := by
    have := hr.rest.symm.trans hc
    rw [List.append_assoc] at this
    exact List.append_cancel_left this
  refine ⟨⟨vs ++ x :: zs, d.offset⟩, ⟨?_, ?_⟩, rfl, vs, x, ys, zs, hd, rfl, ?_⟩
  · rw [hc', List.append_assoc]
  · rw [ho]
    exact hr.offset
  · rw [hr.offset, List.length_append, Nat.add_assoc]

theorem halts {rule : SyntaxRule} (h : d.Shares d' k) (hh : Halts first xs d rule)
    (hrule : rule ≠ .indexTooLarge) : Halts first xs d' rule := by
  have hhead := h.head
  cases hh with
  | number first hs => exact .number first (stops_congr hhead hs)
  | large first hl => exact absurd rfl hrule
  | close first hne hd hl hs hc =>
    rw [← hhead]
    exact .close first hne hd hl (stops_congr hhead hs) (stops_congr hhead hc)
  | dot ho hs =>
    rw [← hhead]
    exact .dot (stops_congr hhead ho) (stops_congr hhead hs)
  | name hs => exact .name (stops_congr hhead hs)
  | start ho hs => exact .start (stops_congr hhead ho) (stops_congr hhead hs)

theorem skipSpace (h : c.Shares c' k) (hk : c.skipSpace.offset ≤ k) :
    c'.run isSpace = c.run isSpace ∧ c.skipSpace.Shares c'.skipSpace k := by
  obtain ⟨d', hr', hd⟩ := h.reads (c.reads_run isSpace) hk
  have hs : d'.Stops isSpace := stops_congr hd.head (c.stops_run isSpace)
  have hrun : c'.run isSpace = c.run isSpace := run_of_reads hr' (fun _ => of_mem_run) hs
  have hto : c'.Reads d' (c'.run isSpace) := by rw [hrun]; exact hr'
  have hskip : c'.skipSpace = d' := (c'.reads_run isSpace).unique hto
  rw [hskip]
  exact ⟨hrun, hd⟩

theorem node_ok {n : Node} (h : c.Shares c' k) (hn : c.node first = .ok (n, d))
    (hk : d.offset ≤ k) :
    ∃ d', c'.node first = .ok (n, d') ∧ d.Shares d' k := by
  obtain ⟨hr, ho, ht, hs⟩ := node_eq_ok_iff.1 hn
  obtain ⟨d', hr', hd⟩ := h.reads hr hk
  refine ⟨d', node_eq_ok_iff.2 ⟨hr', ho.trans h.1.symm, ht, fun hkind => ?_⟩, hd⟩
  exact stops_congr hd.head (hs hkind)

end Shares

theorem offset_le_of_node_error (h : c.node first = .error f) : c.offset ≤ f.offset := by
  obtain ⟨d, xs, hr, ho, -⟩ := node_eq_error_iff.1 h
  have := hr.offset
  omega

theorem offset_le_of_nodes_error (h : c.nodes first = .error f) : c.offset ≤ f.offset := by
  induction hlength : c.rest.length using Nat.strongRecOn generalizing c first with
  | ind length ih =>
    rcases nodes_eq_error_iff.1 h with hnext | ⟨n, d, hnext, hd⟩
    · rcases (next_eq_error_iff.1 hnext).2 with hnode | ⟨n, read, hnode, -, -, rfl⟩
      · exact offset_le_of_node_error hnode
      · have := (node_eq_ok_iff.1 hnode).1.offset
        exact Nat.le.intro this.symm
    · have hrest := ih _ (hlength ▸ length_of_next hnext) hd rfl
      obtain ⟨read, hnode, rfl, -⟩ := next_eq_ok_iff.1 hnext
      have hread := (node_eq_ok_iff.1 hnode).1.offset
      have hskip : read.skipSpace.offset = read.offset + (read.run isSpace).length := rfl
      omega

/-- Behind white space that was skipped inside a path there is nothing, and so no fault. -/
theorem run_eq_nil_of_nodes_error (hs : c.run isSpace = [] ∨ c.skipSpace.rest = [])
    (hf : c.skipSpace.nodes first = .error f) : c.run isSpace = [] := by
  rcases hs with hrun | hend
  · exact hrun
  · rw [nodes_eq_nil_iff.2 hend] at hf
    cases hf

/-- The characters behind a fault play no part in it. -/
theorem Shares.nodes (h : c.Shares c' k) (hf : c.nodes first = .error f) (hk : f.offset = k)
    (hspace : f.rule ≠ .spaceInside) (hlarge : f.rule ≠ .indexTooLarge) :
    c'.nodes first = .error f := by
  induction hlength : c.rest.length using Nat.strongRecOn generalizing c c' first with
  | ind length ih =>
    rcases nodes_eq_error_iff.1 hf with hnext | ⟨n, d, hnext, hd⟩
    · rcases (next_eq_error_iff.1 hnext).2 with hnode | ⟨n, read, -, -, -, rfl⟩
      · obtain ⟨e, xs, hr, ho, hhalts⟩ := node_eq_error_iff.1 hnode
        obtain ⟨e', hr', he⟩ := h.reads hr (by omega)
        have hnode' : c'.node first = .error f :=
          node_eq_error_iff.2 ⟨e', xs, hr', ho.trans he.1.symm, he.halts hhalts hlarge⟩
        exact nodes_eq_error_iff.2 (.inl (next_eq_error_iff.2 ⟨h.rest_ne_nil, .inl hnode'⟩))
      · exact absurd rfl hspace
    · obtain ⟨read, hnode, rfl, hspaces⟩ := next_eq_ok_iff.1 hnext
      have hrun := run_eq_nil_of_nodes_error hspaces hd
      have hle := offset_le_of_nodes_error hd
      have hskip : read.skipSpace.offset = read.offset + (read.run isSpace).length := rfl
      obtain ⟨read', hnode', hread⟩ := h.node_ok hnode (by omega)
      obtain ⟨hrun', hskipped⟩ := hread.skipSpace (by omega)
      have hnext' := next_eq_ok_iff.2 ⟨read', hnode', rfl, .inl (hrun'.trans hrun)⟩
      have hrest := ih _ (hlength ▸ length_of_next hnext) hskipped hd rfl
      exact nodes_eq_error_iff.2 (.inr ⟨n, read'.skipSpace, hnext', hrest⟩)

end Cursor

/-! ### What stands in front of a fault -/

theorem isSpace_of_isNameRest {x : Char} (h : isNameRest x = true) : isSpace x = false := by
  rw [← Bool.not_eq_true, isSpace_iff]
  rintro (rfl | rfl | rfl | rfl | rfl) <;> exact absurd h (by decide)

theorem Token.exists_last {first : Bool} {t : String} {step : Step} (h : Token first t step) :
    ∃ xs x, t.toList = xs ++ [x] ∧ isSpace x = false := by
  rcases h.item_or_attr with
    ⟨digits, -, -, -, rfl, -⟩ | ⟨name, ⟨x, xs, hname, hstart, hrest⟩, rfl, -⟩
  · exact ⟨'[' :: digits.toList, ']', toList_brackets digits, by decide⟩
  · have hall : ∀ y ∈ name.toList, isNameRest y = true := by
      intro y hy
      rw [hname] at hy
      rcases List.mem_cons.1 hy with rfl | hy
      · exact Cursor.isNameRest_of_isNameStart ((isNameStart_iff y).2 hstart)
      · exact (isNameRest_iff y).2 (hrest y hy)
    have hlast : ∃ ys y, name.toList = ys ++ [y] := by
      rcases List.eq_nil_or_concat name.toList with hnil | ⟨ys, y, hys⟩
      · rw [hname] at hnil
        cases hnil
      · exact ⟨ys, y, by rw [hys, List.concat_eq_append]⟩
    obtain ⟨ys, y, hys⟩ := hlast
    have hy : isSpace y = false := isSpace_of_isNameRest (hall y (by rw [hys]; simp))
    cases first with
    | true => exact ⟨ys, y, hys, hy⟩
    | false =>
      refine ⟨'.' :: ys, y, ?_, hy⟩
      rw [if_neg Bool.false_ne_true, toList_dotted, hys, List.cons_append]

theorem Spelling.snoc {s lead t : String} {ts : List String} {step : Step}
    (h : Spelling s lead ts "") (ht : Token (ts = []) t step) :
    Spelling (s ++ t) lead (ts ++ [t]) "" := by
  refine ⟨?_, h.lead, h.trail, fun i t' hi => ?_⟩
  · rw [h.text, String.join_append, String.join_cons, String.join_nil]
    simp only [String.append_empty, String.append_assoc]
  · by_cases hlt : i < ts.length
    · rw [List.getElem?_append_left hlt] at hi
      exact h.tokens i t' hi
    · have hlast : i = ts.length := by
        have := (List.getElem?_eq_some_iff.1 hi).1
        rw [List.length_append, List.length_singleton] at this
        omega
      subst hlast
      rw [List.getElem?_append_right (Nat.le_refl _), Nat.sub_self] at hi
      cases hi
      have hnil : (ts.length = 0) = (ts = []) := propext List.length_eq_zero_iff
      exact ⟨step, by simpa only [hnil] using ht⟩

namespace Path
variable {first : Bool} {w : List Char} {s : String}

def Accepted (s : String) : Prop :=
  ∃ p, parse s = .ok p

def front (s : String) (k : Nat) : String :=
  String.ofList (s.toList.take k)

/-- The last character, if there is one, is not white space. -/
def Tight (s : String) : Prop :=
  ∀ x, s.toList.getLast? = some x → isSpace x = false

/-- White space, and the tokens of some steps behind it; `true` as long as there is none. -/
inductive Begun : Bool → List Char → Prop
  | blank {w : List Char} (h : ∀ x ∈ w, isSpace x = true) : Begun true w
  | token {first : Bool} {w : List Char} {t : String} {step : Step} (h : Begun first w)
      (ht : Token first t step) :
      Begun false (w ++ t.toList)

namespace Begun

theorem exists_spelling (h : Begun first w) :
    ∃ lead ts, Spelling (String.ofList w) lead ts "" ∧ first = decide (ts = []) := by
  induction h with
  | blank h =>
    refine ⟨String.ofList _, [], ⟨?_, blank_ofList h, nofun, nofun⟩, rfl⟩
    rw [String.join_nil, String.append_empty, String.append_empty]
  | @token first w t step h ht ih =>
    obtain ⟨lead, ts, hs, rfl⟩ := ih
    refine ⟨lead, ts ++ [t], ?_, by simp⟩
    rw [String.ofList_append, String.ofList_toList]
    exact hs.snoc ht

theorem exists_parse (h : Begun first w) :
    ∃ p, parse (String.ofList w) = .ok p ∧ (first = false → p.nodes ≠ []) := by
  obtain ⟨lead, ts, hs, rfl⟩ := h.exists_spelling
  obtain ⟨p, hp, hts, -⟩ := Path.exists_parse hs
  refine ⟨p, hp, fun hne hnil => ?_⟩
  rw [hnil] at hts
  exact of_decide_eq_false hne hts.symm

theorem accepted (h : Begun first w) : Accepted (String.ofList w) := by
  obtain ⟨p, hp, -⟩ := h.exists_parse
  exact ⟨p, hp⟩

theorem tight (h : Begun false w) : Tight (String.ofList w) := by
  cases h with
  | @token first w t step h ht =>
    intro x hx
    obtain ⟨ys, y, hy, hspace⟩ := ht.exists_last
    rw [String.toList_ofList, hy, ← List.append_assoc, List.getLast?_append] at hx
    cases hx
    exact hspace

/-- Where the reader of a node stops, a path can still go on. -/
theorem exists_begun {xs : List Char} {d : Cursor} {rule : SyntaxRule} (h : Begun first w)
    (hh : Cursor.Halts first xs d rule) : ∃ first' t, Begun first' (w ++ xs ++ t) := by
  have hzero : Token first ("[" ++ "0" ++ "]") (.item (decimal "0")) :=
    .item first (by decide) (by simp) (by simp [decimal])
  have ha : Identifier "a" := ⟨'a', [], rfl, .inl rfl, by simp⟩
  cases hh with
  | number first hs => exact ⟨false, ['0', ']'], by simpa using h.token hzero⟩
  | large first hl => exact ⟨false, ['0', ']'], by simpa using h.token hzero⟩
  | @close first digits _ hne hd hl hs hc =>
    have := h.token (.item first hne hd hl)
    rw [toList_brackets] at this
    exact ⟨false, [']'], by simpa using this⟩
  | dot ho hs => exact ⟨false, [], by simpa using h⟩
  | name hs => exact ⟨false, ['a'], by simpa using h.token (.dotted ha)⟩
  | start ho hs => exact ⟨true, [], by simpa using h⟩

end Begun

/-- What a broken rule says about the characters in front of the fault and those behind. -/
def Broken (left right : List Char) : SyntaxRule → Prop
  | .spaceInside =>
    Begun false left ∧ ∃ x xs, right = x :: xs ∧ isSpace x = true ∧ ∃ y ∈ xs, isSpace y = false
  | .indexTooLarge => ∃ first w, Begun first w ∧ left = w ++ ['['] ∧
      2 ^ 64 ≤ decimal (String.ofList (right.takeWhile Char.isDigit))
  | _ => ∃ first t, Begun first (left ++ t)

/-- A fault behind what was begun. The nodes that could be read go on with it. -/
theorem Begun.broken {c : Cursor} {f : Fault} (hw : Begun first w) (h : c.nodes first = .error f) :
    ∃ mid right, c.rest = mid ++ right ∧ f.offset = c.offset + mid.length ∧
      Broken (w ++ mid) right f.rule := by
  -- The induction is on what is left to be read. A node that is read is part of what was begun.
  induction hlength : c.rest.length using Nat.strongRecOn generalizing c first w with
  | ind length ih =>
    rcases Cursor.nodes_eq_error_iff.1 h with hnext | ⟨n, d, hnext, hd⟩
    · rcases (Cursor.next_eq_error_iff.1 hnext).2 with hnode | ⟨n, read, hnode, hrun, hend, rfl⟩
      · obtain ⟨d, xs, hr, ho, hh⟩ := Cursor.node_eq_error_iff.1 hnode
        refine ⟨xs, d.rest, hr.rest, ho.trans hr.offset, ?_⟩
        cases hrule : f.rule with
        | spaceInside => rw [hrule] at hh; cases hh
        | indexTooLarge =>
          rw [hrule] at hh
          cases hh with
          | large first hl => exact ⟨first, w, hw, rfl, hl⟩
        | nameStart => exact hw.exists_begun hh
        | numberMissing => exact hw.exists_begun hh
        | expected wanted found => exact hw.exists_begun hh
      · obtain ⟨hr, -, ht, -⟩ := Cursor.node_eq_ok_iff.1 hnode
        refine ⟨n.text.toList, read.rest, hr.rest, hr.offset, hw.token ht, ?_⟩
        obtain ⟨x, xs, hxs⟩ := List.exists_cons_of_ne_nil hrun
        obtain ⟨y, ys, hys⟩ := List.exists_cons_of_ne_nil hend
        have hx : isSpace x = true :=
          Cursor.of_mem_run (c := read) (by rw [hxs]; exact List.mem_cons_self ..)
        have hy : isSpace y = false := read.stops_run isSpace y ys hys
        refine ⟨x, xs ++ y :: ys, ?_, hx, y, by simp, hy⟩
        have hskip : read.rest = read.run isSpace ++ read.skipSpace.rest :=
          (read.reads_run isSpace).rest
        rw [hskip, hxs, hys, List.cons_append]
    · obtain ⟨read, hnode, rfl, hspaces⟩ := Cursor.next_eq_ok_iff.1 hnext
      obtain ⟨hr, -, ht, -⟩ := Cursor.node_eq_ok_iff.1 hnode
      have hskip := read.reads_run isSpace
      have hrun : read.run isSpace = [] := Cursor.run_eq_nil_of_nodes_error hspaces hd
      obtain ⟨mid, right, hrest, ho, hbroken⟩ :=
        ih _ (hlength ▸ Cursor.length_of_next hnext) (hw.token ht) hd rfl
      have hto : c.Reads read.skipSpace n.text.toList := by
        have := hr.trans hskip
        rw [hrun, List.append_nil] at this
        rw [Cursor.skipSpace, hrun]
        exact this
      refine ⟨n.text.toList ++ mid, right, ?_, ?_, ?_⟩
      · rw [hto.rest, hrest, List.append_assoc]
      · rw [ho, hto.offset, List.length_append, Nat.add_assoc]
      · rw [← List.append_assoc]
        exact hbroken

theorem parse_eq_error_iff {e : SyntaxError} :
    parse s = .error e ↔ (Cursor.ofString s).skipSpace.nodes true = .error e.toFault ∧
      e.path = s := by
  obtain ⟨fault, path⟩ := e
  unfold parse
  cases (Cursor.ofString s).skipSpace.nodes true with
  | ok nodes => exact iff_of_false nofun nofun
  | error fault' => simp [eq_comm]

/-- A text that shares all characters up to the fault is rejected for the same reason. -/
theorem parse_error_of_front {e : SyntaxError} (h : parse s = .error e)
    (hspace : e.rule ≠ .spaceInside) (hlarge : e.rule ≠ .indexTooLarge)
    (hk : e.offset < s.length) (t : String) :
    parse (front s (e.offset + 1) ++ t) =
      .error { e with path := front s (e.offset + 1) ++ t } := by
  obtain ⟨hnodes, -⟩ := parse_eq_error_iff.1 h
  refine parse_eq_error_iff.2 ⟨?_, rfl⟩
  have hshares :
      (Cursor.ofString s).Shares (Cursor.ofString (front s (e.offset + 1) ++ t)) e.offset := by
    have hlt : e.offset < s.toList.length := by rwa [String.length_toList]
    refine ⟨rfl, s.toList.take e.offset, s.toList[e.offset], s.toList.drop (e.offset + 1),
      t.toList, ?_, ?_, ?_⟩
    · rw [← List.drop_eq_getElem_cons hlt]
      exact (List.take_append_drop ..).symm
    · show (front s (e.offset + 1) ++ t).toList = _
      rw [front, String.toList_append, String.toList_ofList, ← List.take_append_getElem hlt,
        List.append_assoc]
      rfl
    · rw [List.length_take, Nat.min_eq_left (Nat.le_of_lt hlt)]
      exact (Nat.zero_add _).symm
  have hle := Cursor.offset_le_of_nodes_error hnodes
  exact (hshares.skipSpace hle).2.nodes hnodes rfl hspace hlarge

end Path

/-! ### Which rule a message is about -/

theorem SyntaxRule.head_message_expected (wanted : Char) (found : Option Char) :
    (expected wanted found).message.toList.head? = some 'E' := by
  cases found <;> simp [message, String.toList_append] <;> exact .inl rfl

theorem SyntaxRule.message_eq_spaceInside {rule : SyntaxRule} :
    rule.message = "Unexpected whitespace in middle of path" ↔ rule = .spaceInside := by
  constructor
  · intro h
    cases rule with
    | spaceInside => rfl
    | nameStart => exact absurd h (by decide)
    | numberMissing => exact absurd h (by decide)
    | indexTooLarge => exact absurd h (by decide)
    | expected wanted found =>
      have hhead := head_message_expected wanted found
      rw [h] at hhead
      exact absurd hhead (by decide)
  · rintro rfl
    rfl

theorem SyntaxRule.message_eq_indexTooLarge {rule : SyntaxRule} :
    rule.message = "Collection index is too large" ↔ rule = .indexTooLarge := by
  constructor
  · intro h
    cases rule with
    | indexTooLarge => rfl
    | spaceInside => exact absurd h (by decide)
    | nameStart => exact absurd h (by decide)
    | numberMissing => exact absurd h (by decide)
    | expected wanted found =>
      have hhead := head_message_expected wanted found
      rw [h] at hhead
      exact absurd hhead (by decide)
  · rintro rfl
    rfl

namespace Path

/--
An error is at the first fault. White space inside a path is reported where it begins, behind a path
that would be accepted; a number that is too large where its digits begin, behind an opening
bracket. For every other rule the characters in front of the fault begin some path, and with the one
at the fault they begin none.
-/
theorem parse_error_at_first_fault (s : String) (e : SyntaxError) (h : parse s = .error e) :
    e.path = s ∧ e.offset ≤ s.length ∧
    (e.rule.message = "Unexpected whitespace in middle of path" →
      (∃ p, parse (front s e.offset) = .ok p ∧ p.nodes ≠ []) ∧ Tight (front s e.offset) ∧
      ∃ x xs, s.toList.drop e.offset = x :: xs ∧ isSpace x = true ∧ ∃ y ∈ xs, isSpace y = false) ∧
    (e.rule.message = "Collection index is too large" →
      ∃ w, front s e.offset = w ++ "[" ∧ (Blank w ∨ Accepted w ∧ Tight w) ∧
        2 ^ 64 ≤ decimal (String.ofList ((s.toList.drop e.offset).takeWhile Char.isDigit))) ∧
    (e.rule.message ≠ "Unexpected whitespace in middle of path" →
      e.rule.message ≠ "Collection index is too large" →
      (∃ t, Accepted (front s e.offset ++ t)) ∧
      (e.offset = s.length ∨ ∀ t, ¬ Accepted (front s (e.offset + 1) ++ t))) := by
  obtain ⟨hnodes, hpath⟩ := parse_eq_error_iff.1 h
  -- White space in front of a path begins one, and from there on the nodes break off at the fault.
  have hlead : Begun true ((Cursor.ofString s).run isSpace) := .blank fun x => Cursor.of_mem_run
  obtain ⟨mid, right, hrest, ho, hbroken⟩ := hlead.broken hnodes
  have hskip := (Cursor.ofString s).reads_run isSpace
  have hs : s.toList = ((Cursor.ofString s).run isSpace ++ mid) ++ right := by
    rw [List.append_assoc, ← hrest]
    exact hskip.rest
  generalize hleft : (Cursor.ofString s).run isSpace ++ mid = left at hbroken hs
  have hlength : e.offset = left.length := by
    rw [← hleft, List.length_append, ho]
    exact congrArg (· + mid.length) (hskip.offset.trans (Nat.zero_add _))
  have hfront : front s e.offset = String.ofList left := by
    rw [front, hs, hlength, List.take_left']
    rfl
  have hdrop : s.toList.drop e.offset = right := by
    rw [hs, hlength, List.drop_left']
    rfl
  have hle : e.offset ≤ s.length := by
    rw [← String.length_toList, hs, List.length_append, hlength]
    exact Nat.le_add_right _ _
  simp only [ne_eq, SyntaxRule.message_eq_spaceInside, SyntaxRule.message_eq_indexTooLarge]
  rw [hfront, hdrop]
  refine ⟨hpath, hle, fun hrule => ?_, fun hrule => ?_, fun hspace hlarge => ⟨?_, ?_⟩⟩
  · rw [hrule] at hbroken
    obtain ⟨hbegun, hright⟩ := hbroken
    obtain ⟨p, hp, hne⟩ := hbegun.exists_parse
    exact ⟨⟨p, hp, hne rfl⟩, hbegun.tight, hright⟩
  · rw [hrule] at hbroken
    obtain ⟨first, w, hbegun, rfl, hlarge⟩ := hbroken
    refine ⟨String.ofList w, String.ofList_append, ?_, hlarge⟩
    cases first with
    | true =>
      cases hbegun with
      | blank hw => exact .inl (blank_ofList hw)
    | false => exact .inr ⟨hbegun.accepted, hbegun.tight⟩
  · have hbegun : ∃ first t, Begun first (left ++ t) := by
      cases hrule : e.rule with
      | spaceInside => exact absurd hrule hspace
      | indexTooLarge => exact absurd hrule hlarge
      | nameStart => rw [hrule] at hbroken; exact hbroken
      | numberMissing => rw [hrule] at hbroken; exact hbroken
      | expected wanted found => rw [hrule] at hbroken; exact hbroken
    obtain ⟨first, t, hbegun⟩ := hbegun
    refine ⟨String.ofList t, ?_⟩
    rw [← String.ofList_append]
    exact hbegun.accepted
  · -- A text that goes on differently behind the fault is rejected for it as well.
    rcases Nat.eq_or_lt_of_le hle with hend | hlt
    · exact .inl hend
    · refine .inr fun t => ?_
      rintro ⟨p, hp⟩
      rw [parse_error_of_front h hspace hlarge hlt t] at hp
      cases hp

/-- White space is reported at its beginning, a digit where no name can begin with it. -/
theorem parse_error_at_first_fault_blank :
    parse "a b" = .error ⟨⟨1, .spaceInside⟩, "a b"⟩ ∧ Tight (front "a b" 1) ∧
    parse "a.7" = .error ⟨⟨2, .nameStart⟩, "a.7"⟩ ∧ ∀ t, ¬ Accepted (front "a.7" 3 ++ t) := by
  have hspace : parse "a b" = .error ⟨⟨1, .spaceInside⟩, "a b"⟩ := by
    have hnode : (Cursor.mk ['a', ' ', 'b'] 0).node true =
        .ok (⟨.attr "a", "a", 0⟩, ⟨[' ', 'b'], 1⟩) := rfl
    refine parse_eq_error_iff.2 ⟨Cursor.nodes_eq_error_iff.2 (.inl ?_), rfl⟩
    exact Cursor.next_eq_error_iff.2 ⟨by decide, .inr ⟨_, _, hnode, by decide, by decide, rfl⟩⟩
  have hname : parse "a.7" = .error ⟨⟨2, .nameStart⟩, "a.7"⟩ := by
    have hnode : (Cursor.mk ['a', '.', '7'] 0).next true =
        some (.ok (⟨.attr "a", "a", 0⟩, ⟨['.', '7'], 1⟩)) := rfl
    refine parse_eq_error_iff.2 ⟨Cursor.nodes_eq_error_iff.2 (.inr ⟨_, _, hnode, ?_⟩), rfl⟩
    exact Cursor.nodes_eq_error_iff.2 (.inl rfl)
  obtain ⟨-, -, hwhite, -⟩ := parse_error_at_first_fault _ _ hspace
  obtain ⟨-, -, -, -, hother⟩ := parse_error_at_first_fault _ _ hname
  refine ⟨hspace, (hwhite rfl).2.1, hname, ?_⟩
  rcases (hother (by decide) (by decide)).2 with hend | hnone
  · exact absurd hend (by decide)
  · exact hnone

end Path
end LivePath
