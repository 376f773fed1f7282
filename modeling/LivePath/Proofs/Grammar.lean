import LivePath.Proofs.Tokens

/-!
# The grammar of paths

A path is white space, tokens, white space (`Spelling`). No token can be taken for a part of
another, since each begins with a character that the one in front of it can not go on with. So by
induction what is written in a row is what is read (`exists_written`, `Written.nodes_eq`). The main
statement is `parse_accepts_grammar`.
-/

namespace LivePath

def Blank (w : String) : Prop :=
  ∀ c ∈ w.toList, c = ' ' ∨ c = '\t' ∨ c = '\n' ∨ c = '\x0c' ∨ c = '\r'

/-- `s` consists of white space, the tokens `ts`, and white space. -/
structure Spelling (s lead : String) (ts : List String) (trail : String) : Prop where
  text : s = lead ++ String.join ts ++ trail
  lead : Blank lead
  trail : Blank trail
  tokens : ∀ i t, ts[i]? = some t → ∃ step, Token (i = 0) t step

namespace Cursor
variable {c d : Cursor}

theorem offset_skipSpace_ne_iff : c.skipSpace.offset ≠ c.offset ↔ c.run isSpace ≠ [] := by
  have : c.skipSpace.offset = c.offset + (c.run isSpace).length := rfl
  rw [this, ← List.length_pos_iff]
  omega

theorem next_eq_ok_iff {first : Bool} {n : Node} :
    c.next first = some (.ok (n, d)) ↔
      ∃ read, c.node first = .ok (n, read) ∧ d = read.skipSpace ∧
      (read.run isSpace = [] ∨ d.rest = []) := by
  unfold next
  constructor
  · intro h
    split at h
    · cases h
    · split at h
      · cases h
      · next node read hread =>
        split at h
        · cases h
        · next hspace =>
          cases h
          refine ⟨read, hread, rfl, ?_⟩
          rw [offset_skipSpace_ne_iff] at hspace
          by_cases hrun : read.run isSpace = []
          · exact .inl hrun
          · exact .inr (Decidable.not_not.1 fun hrest => hspace ⟨hrun, hrest⟩)
  · rintro ⟨read, hread, rfl, hspace⟩
    have hne : c.rest ≠ [] := by
      obtain ⟨hr, -, ht, -⟩ := node_eq_ok_iff.1 hread
      obtain ⟨x, xs, hx, -⟩ := ht.exists_head
      rw [hr.rest, hx]
      exact List.cons_ne_nil _ _
    rw [if_neg hne, hread]
    simp only
    rw [if_neg]
    rintro ⟨hmove, hrest⟩
    rcases hspace with hrun | hend
    · exact offset_skipSpace_ne_iff.1 hmove hrun
    · exact hrest hend

theorem next_eq_none_iff {first : Bool} : c.next first = none ↔ c.rest = [] := by
  unfold next
  constructor
  · intro h
    by_contra hne
    rw [if_neg hne] at h
    split at h
    · cases h
    · split at h <;> cases h
  · intro h
    rw [if_pos h]

theorem nodes_eq_nil_iff {first : Bool} : c.nodes first = .ok [] ↔ c.rest = [] := by
  rw [← @next_eq_none_iff c first, nodes]
  constructor
  · intro h
    split at h
    · next hnext => exact hnext
    · cases h
    · split at h <;> cases h
  · intro h
    split
    · rfl
    · next hnext => cases h.symm.trans hnext
    · next hnext => cases h.symm.trans hnext

theorem nodes_eq_cons_iff {first : Bool} {n : Node} {ns : List Node} :
    c.nodes first = .ok (n :: ns) ↔ ∃ d, c.next first = some (.ok (n, d)) ∧
      d.nodes false = .ok ns := by
  rw [nodes]
  constructor
  · intro h
    split at h
    · cases h
    · cases h
    · next node rest hnext =>
      split at h
      · cases h
      · next hrest =>
        cases h
        exact ⟨rest, hnext, hrest⟩
  · rintro ⟨d, hd, hns⟩
    split
    · next hnext => cases hd.symm.trans hnext
    · next hnext => cases hd.symm.trans hnext
    · next hnext =>
      cases hd.symm.trans hnext
      rw [hns]

end Cursor

/-- Nodes as they were written in a row, the first of them at an offset. -/
inductive Written : Bool → Nat → List Node → List Char → Prop
  | nil (first : Bool) (offset : Nat) : Written first offset [] []
  | cons {first : Bool} {n : Node} {ns : List Node} {body : List Char}
      (ht : Token first n.text n.step)
      (hw : Written false (n.offset + n.text.length) ns body) :
      Written first n.offset (n :: ns) (n.text.toList ++ body)

namespace Written
variable {first : Bool} {offset : Nat} {ns : List Node} {body w : List Char}

theorem body_eq (h : Written first offset ns body) :
    body = (ns.map (·.text)).flatMap String.toList := by
  induction h with
  | nil => rfl
  | cons ht hw ih => rw [ih]; rfl

theorem eq_nil (h : Written first offset ns []) : ns = [] := by
  cases ns with
  | nil => rfl
  | cons n ns =>
    generalize hb : ([] : List Char) = body at h
    cases h with
    | cons ht hw =>
      obtain ⟨x, xs, hx, -⟩ := ht.exists_head
      rw [hx] at hb
      cases hb

theorem stops_isSpace (h : Written first offset ns body) (hne : ns ≠ []) (w : List Char) :
    Cursor.Stops ⟨body ++ w, offset⟩ isSpace := by
  cases h with
  | nil => exact absurd rfl hne
  | @cons _ n ns body ht hrest =>
    intro x xs hx
    obtain ⟨y, ys, hy, hspace, -⟩ := ht.exists_head
    have hx : (n.text.toList ++ body) ++ w = x :: xs := hx
    rw [hy] at hx
    rw [← (List.cons.inj hx).1]
    exact hspace

theorem stops_isNameRest (h : Written false offset ns body) (hw : ∀ x ∈ w, isSpace x = true) :
    Cursor.Stops ⟨body ++ w, offset⟩ isNameRest := by
  intro x xs hx
  cases h with
  | nil =>
    have hspace : isSpace x = true :=
      hw x (by rw [show w = x :: xs from hx]; exact List.mem_cons_self ..)
    rw [← Bool.not_eq_true]
    intro hname
    rcases (isSpace_iff x).1 hspace with rfl | rfl | rfl | rfl | rfl <;>
      exact absurd hname (by decide)
  | @cons _ n ns body ht hrest =>
    obtain ⟨y, ys, hy, -, -, hname⟩ := ht.exists_head
    have hx : (n.text.toList ++ body) ++ w = x :: xs := hx
    rw [hy] at hx
    rw [← (List.cons.inj hx).1]
    exact hname rfl

/-- What is written in a row is read again, together with white space behind it. -/
theorem nodes_eq (h : Written first offset ns body) (hw : ∀ x ∈ w, isSpace x = true)
    (hne : ns = [] → w = []) :
    (⟨body ++ w, offset⟩ : Cursor).nodes first = .ok ns := by
  induction h with
  | nil first offset =>
    rw [hne rfl]
    exact Cursor.nodes_eq_nil_iff.2 rfl
  | @cons first n ns body ht hrest ih =>
    have hread : Cursor.Reads ⟨(n.text.toList ++ body) ++ w, n.offset⟩ ⟨body ++ w,
        n.offset + n.text.length⟩ n.text.toList :=
          ⟨List.append_assoc .., by rw [String.length_toList]⟩
    have hnode := Cursor.node_eq_ok_iff.2 ⟨hread, rfl, ht, fun _ => hrest.stops_isNameRest hw⟩
    by_cases hns : ns = []
    · -- The last token: what is left is white space, which is skipped.
      subst hns
      obtain rfl : body = [] := hrest.body_eq
      have hrun : Cursor.run ⟨w, n.offset + n.text.length⟩ isSpace = w :=
        Cursor.run_of_reads (d := ⟨[], n.offset + n.text.length + w.length⟩)
          ⟨(List.append_nil w).symm, rfl⟩ hw fun _ _ hx => by cases hx
      have hskip : Cursor.skipSpace ⟨w, n.offset + n.text.length⟩ =
          ⟨[], n.offset + n.text.length + w.length⟩ := by
        rw [Cursor.skipSpace, hrun, Cursor.advance, List.drop_length]
      have hnext := Cursor.next_eq_ok_iff.2 ⟨_, hnode, hskip.symm, .inr rfl⟩
      exact Cursor.nodes_eq_cons_iff.2 ⟨_, hnext, Cursor.nodes_eq_nil_iff.2 rfl⟩
    · have hrun : Cursor.run ⟨body ++ w, n.offset + n.text.length⟩ isSpace = [] :=
        Cursor.run_of_reads (.refl _) (fun x hx => absurd hx List.not_mem_nil)
          (hrest.stops_isSpace hns w)
      have hskip : Cursor.skipSpace ⟨body ++ w, n.offset + n.text.length⟩ =
          ⟨body ++ w, n.offset + n.text.length⟩ := by
        rw [Cursor.skipSpace, hrun]; rfl
      have hnext := Cursor.next_eq_ok_iff.2 ⟨_, hnode, hskip.symm, .inl hrun⟩
      exact Cursor.nodes_eq_cons_iff.2 ⟨_, hnext, ih fun h => absurd h hns⟩

theorem at_index (h : Written first offset ns body) {i : Nat} {n : Node} (hn : ns[i]? = some n) :
    n.offset = offset + (String.join ((ns.map (·.text)).take i)).length ∧
      Token (first && decide (i = 0)) n.text n.step := by
  induction h generalizing i with
  | nil => cases hn
  | @cons first n' ns body ht hw ih =>
    cases i with
    | zero =>
      cases hn
      refine ⟨rfl, ?_⟩
      simpa using ht
    | succ i =>
      obtain ⟨ho, hi⟩ := ih hn
      refine ⟨?_, by simpa using hi⟩
      rw [ho, List.map_cons, List.take_succ_cons, String.length_join, String.length_join,
        List.map_cons, List.sum_cons]
      omega

end Written

theorem exists_written_of_tokens (first : Bool) {ts : List String}
    (h : ∀ i t, ts[i]? = some t → ∃ step, Token (first && decide (i = 0)) t step) (offset : Nat) :
    ∃ ns : List Node, ns.map (·.text) = ts ∧
      Written first offset ns (ts.flatMap String.toList) := by
  induction ts generalizing first offset with
  | nil => exact ⟨[], rfl, .nil first offset⟩
  | cons t ts ih =>
    obtain ⟨step, ht⟩ := h 0 t rfl
    have hrest : ∀ i t', ts[i]? = some t' → ∃ step, Token (false && decide (i = 0)) t' step := by
      intro i t' hi
      obtain ⟨step', ht'⟩ := h (i + 1) t' hi
      exact ⟨step', by simpa using ht'⟩
    obtain ⟨ns, rfl, hw⟩ := ih false hrest (offset + t.length)
    refine ⟨⟨step, t, offset⟩ :: ns, rfl, ?_⟩
    exact .cons (n := ⟨step, t, offset⟩) (by simpa using ht) hw

theorem Cursor.written_cons {c d : Cursor} {first : Bool} {n : Node} {ns : List Node}
    {body w : List Char} (h : c.next first = some (.ok (n, d))) (hd : d.rest = body ++ w)
    (hw : Written false d.offset ns body) :
    ∃ w', c.rest = n.text.toList ++ body ++ w' ∧
      ((∀ x ∈ w, isSpace x = true) → ∀ x ∈ w', isSpace x = true) ∧
      Written first c.offset (n :: ns) (n.text.toList ++ body) := by
  obtain ⟨read, hnode, rfl, hspace⟩ := Cursor.next_eq_ok_iff.1 h
  obtain ⟨hread, ho, ht, -⟩ := Cursor.node_eq_ok_iff.1 hnode
  have hmoved : n.offset + n.text.length = read.offset := by
    rw [ho, hread.offset, String.length_toList]
  rw [← ho, hread.rest]
  rcases hspace with hrun | hend
  · have hstay : read.skipSpace = read := by rw [Cursor.skipSpace, hrun]; rfl
    rw [hstay] at hd hw
    refine ⟨w, ?_, id, .cons ht (hmoved ▸ hw)⟩
    rw [hd, List.append_assoc]
  · -- Behind the white space the path ends, so that this was the last token.
    obtain ⟨rfl, rfl⟩ := List.append_eq_nil_iff.1 (hd.symm.trans hend)
    obtain rfl := hw.eq_nil
    refine ⟨read.run isSpace, ?_, fun _ x => Cursor.of_mem_run, .cons ht (.nil false _)⟩
    have hall : read.rest = read.run isSpace ++ [] :=
      (read.reads_run isSpace).rest.trans (congrArg _ hend)
    rw [hall, List.append_nil, List.append_nil]

theorem Cursor.exists_written {c : Cursor} {first : Bool} {ns : List Node}
    (h : c.nodes first = .ok ns) :
    ∃ body w, c.rest = body ++ w ∧ (∀ x ∈ w, isSpace x = true) ∧
      Written first c.offset ns body := by
  induction ns generalizing c first with
  | nil =>
    refine ⟨[], [], ?_, nofun, .nil first c.offset⟩
    exact Cursor.nodes_eq_nil_iff.1 h
  | cons n ns ih =>
    obtain ⟨d, hnext, hns⟩ := Cursor.nodes_eq_cons_iff.1 h
    obtain ⟨body, w, hbody, hw, hwritten⟩ := ih hns
    obtain ⟨w', hrest, hspace, hwritten⟩ := Cursor.written_cons hnext hbody hwritten
    exact ⟨_, w', hrest, hspace hw, hwritten⟩

namespace Path
variable {s : String}

theorem blank_ofList {xs : List Char} (h : ∀ x ∈ xs, isSpace x = true) :
    Blank (String.ofList xs) := by
  intro x hx
  rw [String.toList_ofList] at hx
  exact (isSpace_iff x).1 (h x hx)

theorem parse_eq_ok_iff {p : Path} :
    parse s = .ok p ↔ (Cursor.ofString s).skipSpace.nodes true = .ok p.nodes := by
  unfold parse
  split
  · next nodes h =>
    rw [h]
    constructor
    · intro hp; cases hp; rfl
    · intro hp; cases hp; rfl
  · next fault h =>
    rw [h]
    exact iff_of_false nofun nofun

/-- Where a path is accepted it was written by the grammar. -/
theorem exists_spelling {p : Path} (h : parse s = .ok p) :
    ∃ lead ts trail, Spelling s lead ts trail := by
  obtain ⟨body, w, hrest, hw, hwritten⟩ := Cursor.exists_written (parse_eq_ok_iff.1 h)
  have hskip := (Cursor.ofString s).reads_run isSpace
  refine ⟨String.ofList ((Cursor.ofString s).run isSpace), p.nodes.map (·.text), String.ofList w,
    ?_, ?_, ?_, ?_⟩
  · rw [← String.toList_inj]
    have hs : s.toList = (Cursor.ofString s).run isSpace ++ (body ++ w) := by
      rw [← hrest]; exact hskip.rest
    simp only [String.toList_append, String.toList_ofList, String.toList_join, ← hwritten.body_eq,
      List.append_assoc]
    exact hs
  · exact blank_ofList fun x => Cursor.of_mem_run
  · exact blank_ofList hw
  · intro i t ht
    rw [List.getElem?_map] at ht
    obtain ⟨n, hn, rfl⟩ := Option.map_eq_some_iff.1 ht
    exact ⟨n.step, by simpa using (hwritten.at_index hn).2⟩

/-- What the grammar accepts is read as its tokens. -/
theorem exists_parse {lead : String} {ts : List String} {trail : String}
    (h : Spelling s lead ts trail) :
    ∃ p, parse s = .ok p ∧ p.nodes.map (·.text) = ts ∧ ∀ i n, p.nodes[i]? = some n →
      n.offset = (lead ++ String.join (ts.take i)).length ∧ Token (i = 0) n.text n.step := by
  obtain ⟨rfl, hlead, htrail, htokens⟩ := h
  have hlead : ∀ x ∈ lead.toList, isSpace x = true := fun x hx => (isSpace_iff x).2 (hlead x hx)
  have htrail : ∀ x ∈ trail.toList, isSpace x = true := fun x hx => (isSpace_iff x).2 (htrail x hx)
  obtain ⟨ns, rfl, hw⟩ := exists_written_of_tokens true (by simpa using htokens) lead.length
  refine ⟨⟨ns⟩, parse_eq_ok_iff.2 ?_, rfl, fun i n hn => ?_⟩
  · generalize hbody : (ns.map (·.text)).flatMap String.toList = body at hw
    have hs : (lead ++ String.join (ns.map (·.text)) ++ trail).toList = lead.toList ++
        (body ++ trail.toList) := by
      rw [String.toList_append, String.toList_append, String.toList_join, hbody, List.append_assoc]
    rw [Cursor.ofString, hs]
    generalize trail.toList = w at htrail
    -- Without tokens the text is white space throughout; with some, the white space in front ends
    -- at the first one.
    by_cases hne : ns = []
    · subst hne
      obtain rfl : body = [] := hbody.symm
      have hall : ∀ x ∈ lead.toList ++ ([] ++ w), isSpace x = true := by
        intro x hx
        rcases List.mem_append.1 hx with hx | hx
        · exact hlead x hx
        · exact htrail x hx
      have hrun : Cursor.run ⟨lead.toList ++ ([] ++ w), 0⟩ isSpace = lead.toList ++ ([] ++ w) :=
        List.takeWhile_eq_self_iff.2 hall
      refine Cursor.nodes_eq_nil_iff.2 ?_
      rw [Cursor.skipSpace, hrun]
      exact List.drop_length
    · have hread : Cursor.Reads ⟨lead.toList ++ (body ++ w), 0⟩
          ⟨body ++ w, lead.length⟩ lead.toList :=
        ⟨rfl, by rw [String.length_toList, Nat.zero_add]⟩
      have hrun := Cursor.run_of_reads hread hlead (hw.stops_isSpace hne w)
      have hskip := Cursor.reads_run ⟨lead.toList ++ (body ++ w), 0⟩ isSpace
      rw [hrun] at hskip
      rw [Cursor.skipSpace, hrun, hskip.unique hread]
      exact hw.nodes_eq htrail fun h => absurd h hne
  · obtain ⟨ho, ht⟩ := hw.at_index hn
    refine ⟨?_, by simpa using ht⟩
    rw [ho, String.length_append]

/--
The parser accepts exactly what the grammar accepts: white space, tokens, white space. The tokens
are unique, and each node keeps its token as its text, the number of characters before it as its
offset, and what the token stands for as its step.
-/
theorem parse_accepts_grammar (s : String) :
    ((∃ p, parse s = .ok p) ↔ ∃ lead ts trail, Spelling s lead ts trail) ∧
    ∀ lead ts trail, Spelling s lead ts trail →
      (∀ lead' ts' trail', Spelling s lead' ts' trail' → ts' = ts) ∧
      ∃ p, parse s = .ok p ∧ p.nodes.map (·.text) = ts ∧ ∀ i n, p.nodes[i]? = some n →
        n.offset = (lead ++ String.join (ts.take i)).length ∧ Token (i = 0) n.text n.step := by
  refine ⟨⟨?_, ?_⟩, ?_⟩
  · rintro ⟨p, hp⟩
    exact exists_spelling hp
  · rintro ⟨lead, ts, trail, h⟩
    obtain ⟨p, hp, -⟩ := exists_parse h
    exact ⟨p, hp⟩
  · intro lead ts trail h
    obtain ⟨p, hp, hts, hnodes⟩ := exists_parse h
    refine ⟨?_, p, hp, hts, hnodes⟩
    -- Two rows of tokens for one text are the texts of the same nodes.
    intro lead' ts' trail' h'
    obtain ⟨p', hp', rfl, -⟩ := exists_parse h'
    have hsame : p' = p := Except.ok.inj (hp'.symm.trans hp)
    rw [hsame, hts]

/-- An index with leading zeros, and a name behind it. -/
theorem parse_accepts_grammar_index :
    Spelling " [007].name\t" " " ["[007]", ".name"] "\t" ∧
    ∃ p, parse " [007].name\t" = .ok p ∧ p.nodes.map (·.text) = ["[007]", ".name"] ∧
      ∀ n, p.nodes[1]? = some n → n.offset = 6 := by
  have hindex : Token true "[007]" (.item (decimal "007")) :=
    @Token.item true "007" (by decide) (by simp) (by simp [decimal, Nat.ofDigits])
  have hname : Token false ".name" (.attr "name") :=
    @Token.dotted "name" ⟨'n', ['a', 'm', 'e'], rfl, .inl rfl, by simp⟩
  have hs : Spelling " [007].name\t" " " ["[007]", ".name"] "\t" := by
    refine ⟨rfl, by simp [Blank], by simp [Blank], fun i t ht => ?_⟩
    rcases i with - | - | i
    · cases ht
      exact ⟨_, hindex⟩
    · cases ht
      exact ⟨_, hname⟩
    · cases ht
  obtain ⟨-, p, hp, hts, hnodes⟩ := (parse_accepts_grammar _).2 _ _ _ hs
  refine ⟨hs, p, hp, hts, fun n hn => ?_⟩
  exact (hnodes 1 n hn).1

end Path
end LivePath
