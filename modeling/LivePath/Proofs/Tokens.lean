import LivePath.Path.Basic
import Mathlib.Data.List.TakeWhile
import Mathlib.Data.Nat.Digits.Defs

/-!
# Tokens of paths

A token is an index in brackets, or a name, which has a dot in front unless it is the first token of
its path. What a step can be written as is said by `Token`, without any reader.

The readers of a cursor take the longest run of characters of a class (`Cursor.Reads`,
`Cursor.Stops`). Behind a bracket no digit follows and in front of a dot, a bracket or white space
no name goes on, so that reading a step and spelling it are inverse to each other
(`node_eq_ok_iff`).
-/

namespace LivePath

/-! ### Tokens -/

/-- An ASCII letter or an underscore, then ASCII letters, digits and underscores. -/
def Identifier (name : String) : Prop :=
  ∃ c cs, name.toList = c :: cs ∧ (c.isAlpha = true ∨ c = '_') ∧
  ∀ d ∈ cs, d.isAlphanum = true ∨ d = '_'

def decimal (digits : String) : Nat :=
  Nat.ofDigits 10 (digits.toList.reverse.map fun c => c.toNat - '0'.toNat)

/-- What a step can be written as at the front of a path (`true`) and behind other steps
(`false`). -/
inductive Token : Bool → String → Step → Prop
  | item (first : Bool) {digits : String} (hne : digits ≠ "")
      (hd : ∀ c ∈ digits.toList, c.isDigit = true)
      (hl : decimal digits < 2 ^ 64) : Token first ("[" ++ digits ++ "]") (.item (decimal digits))
  | name {name : String} (h : Identifier name) : Token true name (.attr name)
  | dotted {name : String} (h : Identifier name) : Token false ("." ++ name) (.attr name)

theorem isSpace_iff (c : Char) :
    isSpace c = true ↔ c = ' ' ∨ c = '\t' ∨ c = '\n' ∨ c = '\x0c' ∨ c = '\r' := by
  simp [isSpace, or_assoc]

theorem isNameStart_iff (c : Char) : isNameStart c = true ↔ c.isAlpha = true ∨ c = '_' := by
  simp [isNameStart]

theorem isNameRest_iff (c : Char) : isNameRest c = true ↔ c.isAlphanum = true ∨ c = '_' := by
  simp [isNameRest]

theorem decimal_eq (digits : String) : Nat.ofDigitChars 10 digits.toList 0 = decimal digits := by
  have h (cs : List Char) (init : Nat) : Nat.ofDigitChars 10 cs init =
      Nat.ofDigits 10 (cs.reverse.map fun c => c.toNat - '0'.toNat) + 10 ^ cs.length * init := by
    induction cs generalizing init with
    | nil => simp [Nat.ofDigitChars]
    | cons c cs ih =>
      rw [Nat.ofDigitChars_cons, ih, List.reverse_cons, List.map_append, Nat.ofDigits_append]
      simp only [List.map_cons, List.map_nil, Nat.ofDigits_singleton, List.length_map,
        List.length_reverse, List.length_cons, Nat.pow_succ]
      ring
  exact (h digits.toList 0).trans (by simp [decimal])

theorem toList_brackets (digits : String) :
    ("[" ++ digits ++ "]").toList = '[' :: (digits.toList ++ [']']) := by
  rw [String.toList_append, String.toList_append]; rfl

theorem toList_dotted (name : String) : ("." ++ name).toList = '.' :: name.toList := by
  rw [String.toList_append]; rfl

namespace Token
variable {first : Bool} {t : String} {step : Step}

theorem item_or_attr (h : Token first t step) :
    (∃ digits, digits ≠ "" ∧ (∀ c ∈ digits.toList, c.isDigit = true) ∧ decimal digits < 2 ^ 64 ∧
      t = "[" ++ digits ++ "]" ∧ step = .item (decimal digits)) ∨
    ∃ name, Identifier name ∧ t = (if first then name else "." ++ name) ∧ step = .attr name := by
  cases h with
  | item first hne hd hl => exact .inl ⟨_, hne, hd, hl, rfl, rfl⟩
  | name h => exact .inr ⟨_, h, rfl, rfl⟩
  | dotted h => exact .inr ⟨_, h, rfl, rfl⟩

theorem of_attr {name : String} (h : Identifier name) (first : Bool) :
    Token first (if first then name else "." ++ name) (.attr name) := by
  cases first with
  | true => exact .name h
  | false => exact .dotted h

theorem exists_head (h : Token first t step) :
    ∃ c cs, t.toList = c :: cs ∧ isSpace c = false ∧ (c = '[' ↔ step.kind = .item) ∧
      (first = false → isNameRest c = false) := by
  rcases h.item_or_attr with ⟨digits, -, -, -, rfl, rfl⟩ | ⟨name, ⟨c, cs, hc, hs, -⟩, rfl, rfl⟩
  · exact ⟨'[', _, toList_brackets digits, by decide, ⟨fun _ => rfl, fun _ => rfl⟩,
      fun _ => by decide⟩
  · cases first with
    | false => exact ⟨'.', _, toList_dotted name, by decide, ⟨nofun, nofun⟩, fun _ => by decide⟩
    | true =>
      have hstart : isNameStart c = true := (isNameStart_iff c).2 hs
      refine ⟨c, cs, hc, ?_, ⟨?_, nofun⟩, nofun⟩
      · rw [← Bool.not_eq_true, isSpace_iff]
        rintro (rfl | rfl | rfl | rfl | rfl) <;> exact absurd hstart (by decide)
      · rintro rfl
        exact absurd hstart (by decide)

end Token

/-! ### What readers take -/

namespace Cursor
variable {c d e : Cursor} {p : Char → Bool} {xs ys : List Char}

/-- Reading `xs` leads from one cursor to the other. -/
structure Reads (c d : Cursor) (xs : List Char) : Prop where
  rest : c.rest = xs ++ d.rest
  offset : d.offset = c.offset + xs.length

/-- The next character, if there is one, is not in the class `p`. -/
def Stops (c : Cursor) (p : Char → Bool) : Prop :=
  ∀ x xs, c.rest = x :: xs → p x = false

namespace Reads

theorem refl (c : Cursor) : c.Reads c [] :=
  ⟨rfl, rfl⟩

theorem trans (h : c.Reads d xs) (h' : d.Reads e ys) : c.Reads e (xs ++ ys) := by
  constructor
  · rw [h.rest, h'.rest, List.append_assoc]
  · rw [h'.offset, h.offset, List.length_append, Nat.add_assoc]

theorem unique (h : c.Reads d xs) (h' : c.Reads e xs) : d = e := by
  obtain ⟨rest, offset⟩ := d
  obtain ⟨rest', offset'⟩ := e
  have hr : rest = rest' := List.append_cancel_left (h.rest.symm.trans h'.rest)
  have ho : offset = offset' := h.offset.trans h'.offset.symm
  rw [hr, ho]

theorem split (h : c.Reads e (xs ++ ys)) : ∃ d, c.Reads d xs ∧ d.Reads e ys := by
  refine ⟨⟨ys ++ e.rest, c.offset + xs.length⟩, ⟨?_, rfl⟩, ⟨rfl, ?_⟩⟩
  · rw [h.rest, List.append_assoc]
  · rw [h.offset, List.length_append, Nat.add_assoc]

theorem textTo (h : c.Reads d xs) : c.textTo d = String.ofList xs := by
  have hn : d.offset - c.offset = xs.length := by have := h.offset; omega
  rw [Cursor.textTo, hn, h.rest, List.take_left']
  rfl

end Reads

theorem reads_run (c : Cursor) (p : Char → Bool) :
    c.Reads (c.advance (c.run p).length) (c.run p) := by
  refine ⟨?_, rfl⟩
  have h := List.takeWhile_append_dropWhile (p := p) (l := c.rest)
  have hd : c.rest.drop (c.run p).length = c.rest.dropWhile p := by
    nth_rewrite 1 [← h]
    exact List.drop_left' rfl
  rw [advance, hd]
  exact h.symm

theorem of_mem_run {x : Char} (h : x ∈ c.run p) : p x = true :=
  List.mem_takeWhile_imp h

theorem stops_run (c : Cursor) (p : Char → Bool) : (c.advance (c.run p).length).Stops p := by
  intro x xs hx
  have hr := (c.reads_run p).rest
  have ht : c.run p ++ (x :: xs).takeWhile p = c.run p ++ [] := by
    rw [hx] at hr
    have := congrArg (List.takeWhile p) hr
    rw [List.takeWhile_append_of_pos fun _ => of_mem_run] at this
    rw [← this, List.append_nil]; rfl
  have hnil := List.append_cancel_left ht
  cases hp : p x with
  | false => rfl
  | true => rw [List.takeWhile_cons, hp] at hnil; cases hnil

theorem run_of_reads (h : c.Reads d xs) (hp : ∀ x ∈ xs, p x = true) (hs : d.Stops p) :
    c.run p = xs := by
  rw [run, h.rest, List.takeWhile_append_of_pos hp]
  have : d.rest.takeWhile p = [] := by
    cases hd : d.rest with
    | nil => rfl
    | cons x xs => rw [List.takeWhile_cons, hs x xs hd]; rfl
  rw [this, List.append_nil]

theorem skip_eq_ok_iff {wanted : Char} : c.skip wanted = .ok d ↔ c.Reads d [wanted] := by
  unfold skip
  constructor
  · intro h
    split at h
    · cases h
    · next found rest hc =>
      split at h
      · next hf =>
        cases h
        exact ⟨by rw [hc, hf]; simp [advance, hc], rfl⟩
      · cases h
  · intro h
    have hr : c.rest = wanted :: d.rest := h.rest
    simp only [hr, if_true]
    refine congrArg Except.ok (Reads.unique ⟨?_, rfl⟩ h)
    simp [advance, hr]

theorem number_eq_ok_iff {n : Nat} :
    c.number = .ok (n, d) ↔ ∃ digits : String, c.Reads d digits.toList ∧ digits ≠ "" ∧
      (∀ x ∈ digits.toList, x.isDigit = true) ∧ d.Stops Char.isDigit ∧ decimal digits < 2 ^ 64 ∧
      n = decimal digits := by
  have hlimit : indexLimit = 2 ^ 64 := rfl
  constructor
  · intro h
    have hv : Nat.ofDigitChars 10 (c.run Char.isDigit) 0 =
        decimal (String.ofList (c.run Char.isDigit)) := by
      rw [← decimal_eq, String.toList_ofList]
    unfold number at h
    split at h
    · cases h
    · next hne =>
      split at h
      · next hl =>
        cases h
        rw [hv, hlimit] at hl
        refine ⟨String.ofList (c.run Char.isDigit), ?_, ?_, ?_, stops_run _ _, hl, hv⟩
        · rw [String.toList_ofList]; exact c.reads_run _
        · intro he
          exact hne (by simpa using congrArg String.toList he)
        · rw [String.toList_ofList]; exact fun x => of_mem_run
      · cases h
  · rintro ⟨digits, hr, hne, hd, hs, hl, rfl⟩
    have hrun : c.run Char.isDigit = digits.toList := run_of_reads hr hd hs
    have hnil : digits.toList ≠ [] := fun h => hne (String.toList_inj.1 h)
    have hto : c.Reads d (c.run Char.isDigit) := by rw [hrun]; exact hr
    unfold number
    rw [(c.reads_run _).unique hto, hrun, if_neg hnil, decimal_eq, hlimit, if_pos hl]

theorem name_eq_ok_iff {s : String} :
    c.name = .ok (s, d) ↔ Identifier s ∧ c.Reads d s.toList ∧ d.Stops isNameRest := by
  constructor
  · intro h
    unfold name at h
    split at h
    · next hs =>
      cases h
      rw [String.toList_ofList]
      refine ⟨?_, c.reads_run _, stops_run _ _⟩
      cases hc : c.rest with
      | nil => simp [hc] at hs
      | cons x xs =>
        have hstart : isNameStart x = true := by simpa [hc] using hs
        refine ⟨x, xs.takeWhile isNameRest, ?_, (isNameStart_iff x).1 hstart, fun y hy => ?_⟩
        · rw [String.toList_ofList, run, hc, List.takeWhile_cons,
            isNameRest_of_isNameStart hstart]
          rfl
        · exact (isNameRest_iff y).1 (List.mem_takeWhile_imp hy)
    · cases h
  · rintro ⟨⟨x, xs, hx, hstart, hrest⟩, hr, hs⟩
    have hall : ∀ y ∈ s.toList, isNameRest y = true := by
      intro y hy
      rw [hx] at hy
      rcases List.mem_cons.1 hy with rfl | hy
      · exact isNameRest_of_isNameStart ((isNameStart_iff y).2 hstart)
      · exact (isNameRest_iff y).2 (hrest y hy)
    have hrun : c.run isNameRest = s.toList := run_of_reads hr hall hs
    have hhead : c.rest.head?.any isNameStart = true := by
      rw [hr.rest, hx]
      simpa using (isNameStart_iff x).2 hstart
    have hto : c.Reads d (c.run isNameRest) := by rw [hrun]; exact hr
    unfold name
    rw [if_pos hhead, (c.reads_run _).unique hto, hrun, String.ofList_toList]

/-! ### Steps -/

theorem item_eq_ok_iff {n : Node} :
    c.item = .ok (n, d) ↔ c.Reads d n.text.toList ∧ n.offset = c.offset ∧ ∃ digits, digits ≠ "" ∧
      (∀ x ∈ digits.toList, x.isDigit = true) ∧ decimal digits < 2 ^ 64 ∧
      n.text = "[" ++ digits ++ "]" ∧
      n.step = .item (decimal digits) := by
  constructor
  · intro h
    unfold item at h
    split at h
    · cases h
    · next opened ho =>
      split at h
      · cases h
      · next index numbered hn =>
        split at h
        · cases h
        · next closed hc =>
          cases h
          obtain ⟨digits, hr, hne, hd, -, hl, rfl⟩ := number_eq_ok_iff.1 hn
          have hread : c.Reads d ("[" ++ digits ++ "]").toList := by
            rw [toList_brackets]
            exact (skip_eq_ok_iff.1 ho).trans (hr.trans (skip_eq_ok_iff.1 hc))
          have ht : c.textTo d = "[" ++ digits ++ "]" := by rw [hread.textTo, String.ofList_toList]
          exact ⟨by rw [ht]; exact hread, rfl, digits, hne, hd, hl, ht, rfl⟩
  · obtain ⟨step, text, offset⟩ := n
    rintro ⟨hread, rfl, digits, hne, hd, hl, rfl, rfl⟩
    have ht : c.textTo d = "[" ++ digits ++ "]" := by rw [hread.textTo, String.ofList_toList]
    have hread : c.Reads d (['['] ++ (digits.toList ++ [']'])) := by
      rw [toList_brackets] at hread; exact hread
    obtain ⟨opened, ho, hread⟩ := hread.split
    obtain ⟨numbered, hn, hc⟩ := hread.split
    -- The digits end at the bracket, so that the number takes all of them.
    have hstop : numbered.Stops Char.isDigit := by
      intro x xs hx
      have hclose : numbered.rest = ']' :: d.rest := hc.rest
      rw [hx] at hclose
      cases hclose; decide
    unfold item
    rw [skip_eq_ok_iff.2 ho]
    simp only
    rw [number_eq_ok_iff.2 ⟨digits, hn, hne, hd, hstop, hl, rfl⟩]
    simp only
    rw [skip_eq_ok_iff.2 hc, ← ht]

theorem attr_eq_ok_iff {first : Bool} {n : Node} :
    c.attr first = .ok (n, d) ↔ c.Reads d n.text.toList ∧ n.offset = c.offset ∧ d.Stops isNameRest ∧
      ∃ name, Identifier name ∧ n.text = (if first then name else "." ++ name) ∧
      n.step = .attr name := by
  constructor
  · intro h
    unfold attr at h
    split at h
    · cases h
    · next dotted hdot =>
      split at h
      · cases h
      · next name named hname =>
        cases h
        obtain ⟨hid, hr, hs⟩ := name_eq_ok_iff.1 hname
        have hread : c.Reads d (if first then name else "." ++ name).toList := by
          cases first with
          | true => cases hdot; exact hr
          | false =>
            show c.Reads d ("." ++ name).toList
            rw [toList_dotted]
            exact (skip_eq_ok_iff.1 hdot).trans hr
        have ht : c.textTo d = if first then name else "." ++ name := by
          rw [hread.textTo, String.ofList_toList]
        exact ⟨by rw [ht]; exact hread, rfl, hs, name, hid, ht, rfl⟩
  · obtain ⟨step, text, offset⟩ := n
    rintro ⟨hread, rfl, hs, name, hid, rfl, rfl⟩
    have ht : c.textTo d = if first then name else "." ++ name := by
      rw [hread.textTo, String.ofList_toList]
    have hdot : ∃ dotted, c.dot first = .ok dotted ∧ dotted.Reads d name.toList := by
      cases first with
      | true => exact ⟨c, rfl, hread⟩
      | false =>
        have hread : c.Reads d (['.'] ++ name.toList) := by
          rw [if_neg Bool.false_ne_true, toList_dotted] at hread; exact hread
        obtain ⟨dotted, hdot, hr⟩ := hread.split
        exact ⟨dotted, skip_eq_ok_iff.2 hdot, hr⟩
    obtain ⟨dotted, hdot, hr⟩ := hdot
    unfold attr
    rw [hdot]
    simp only
    rw [name_eq_ok_iff.2 ⟨hid, hr, hs⟩, ← ht]

/-- A node is read exactly where a token stands that can not go on. -/
theorem node_eq_ok_iff {first : Bool} {n : Node} :
    c.node first = .ok (n, d) ↔ c.Reads d n.text.toList ∧ n.offset = c.offset ∧
      Token first n.text n.step ∧
      (n.step.kind = .attr → d.Stops isNameRest) := by
  unfold node
  constructor
  · intro h
    split at h
    · obtain ⟨hr, ho, digits, hne, hd, hl, ht, hstep⟩ := item_eq_ok_iff.1 h
      refine ⟨hr, ho, ?_, ?_⟩ <;> rw [hstep]
      · rw [ht]; exact .item first hne hd hl
      · nofun
    · obtain ⟨hr, ho, hs, name, hid, ht, hstep⟩ := attr_eq_ok_iff.1 h
      refine ⟨hr, ho, ?_, fun _ => hs⟩
      rw [ht, hstep]; exact .of_attr hid first
  · rintro ⟨hr, ho, ht, hs⟩
    obtain ⟨x, xs, hx, -, hopen, -⟩ := ht.exists_head
    have hrest : c.rest.head? = some x := by rw [hr.rest, hx]; rfl
    rcases ht.item_or_attr with ⟨digits, hne, hd, hl, htext, hstep⟩ | ⟨name, hid, htext, hstep⟩
    · have : x = '[' := hopen.2 (by rw [hstep]; rfl)
      rw [hrest, this, if_pos rfl]
      exact item_eq_ok_iff.2 ⟨hr, ho, digits, hne, hd, hl, htext, hstep⟩
    · have hne : c.rest.head? ≠ some '[' := by
        intro h
        have := hopen.1 (Option.some.inj (hrest.symm.trans h))
        rw [hstep] at this
        cases this
      rw [if_neg hne]
      exact attr_eq_ok_iff.2 ⟨hr, ho, hs (by rw [hstep]; rfl), name, hid, htext, hstep⟩

end Cursor
end LivePath
