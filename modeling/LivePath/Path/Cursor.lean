import LivePath.Path.Step
import LivePath.Path.SyntaxError

/-!
# Reading the steps of a path

A path is white space, steps, white space. A step is `[digits]` or `.name`, where the dot is left
out at the front of the path. `Cursor.node` reads one step, `Cursor.next` also looks past the white
space behind it, and `Cursor.nodes` reads all that is left. Each reader only ever shortens what is
left, which bounds the last one.
-/

namespace LivePath

/-- The white space of a path: space, tab, line feed, form feed and carriage return. -/
def isSpace (c : Char) : Bool :=
  c == ' ' || c == '\t' || c == '\n' || c == '\x0c' || c == '\r'

/-- Letters are the ASCII ones. -/
def isNameStart (c : Char) : Bool :=
  c.isAlpha || c == '_'

def isNameRest (c : Char) : Bool :=
  c.isAlphanum || c == '_'

def indexLimit : Nat := 1 <<< 64

/-- The unread part of a path and the number of characters read before it. -/
structure Cursor where
  rest : List Char
  offset : Nat
  deriving DecidableEq, Repr

namespace Cursor

def ofString (s : String) : Cursor :=
  ⟨s.toList, 0⟩

def advance (c : Cursor) (n : Nat) : Cursor :=
  ⟨c.rest.drop n, c.offset + n⟩

/-- The unread characters up to the first that is not in the class `p`. -/
def run (c : Cursor) (p : Char → Bool) : List Char :=
  c.rest.takeWhile p

def skipSpace (c : Cursor) : Cursor :=
  c.advance (c.run isSpace).length

/-- Skips `wanted`, which has to stand at the cursor. -/
def skip (c : Cursor) (wanted : Char) : Except Fault Cursor :=
  match c.rest with
  | [] => .error ⟨c.offset, .expected wanted none⟩
  | found :: _ =>
    if found = wanted then .ok (c.advance 1) else .error ⟨c.offset, .expected wanted (some found)⟩

/-- Reads digits, which may have leading zeros, as a number below `indexLimit`. -/
def number (c : Cursor) : Except Fault (Nat × Cursor) :=
  if c.run Char.isDigit = [] then .error ⟨c.offset, .numberMissing⟩
  else if Nat.ofDigitChars 10 (c.run Char.isDigit) 0 < indexLimit then
    .ok (Nat.ofDigitChars 10 (c.run Char.isDigit) 0, c.advance (c.run Char.isDigit).length)
  else .error ⟨c.offset, .indexTooLarge⟩

def name (c : Cursor) : Except Fault (String × Cursor) :=
  if c.rest.head?.any isNameStart then
    .ok (String.ofList (c.run isNameRest), c.advance (c.run isNameRest).length)
  else .error ⟨c.offset, .nameStart⟩

/-- The text between two cursors on one path. -/
def textTo (c d : Cursor) : String :=
  String.ofList (c.rest.take (d.offset - c.offset))

/-- Reads `[digits]`. -/
def item (c : Cursor) : Except Fault (Node × Cursor) :=
  match c.skip '[' with
  | .error fault => .error fault
  | .ok opened =>
    match opened.number with
    | .error fault => .error fault
    | .ok (index, numbered) =>
      match numbered.skip ']' with
      | .error fault => .error fault
      | .ok closed => .ok (⟨.item index, c.textTo closed, c.offset⟩, closed)

/-- Skips the dot in front of a name, which the first step of a path has not. -/
def dot (c : Cursor) (first : Bool) : Except Fault Cursor :=
  if first then .ok c else c.skip '.'

/-- Reads `.name`, or `name` at the front of a path. -/
def attr (c : Cursor) (first : Bool) : Except Fault (Node × Cursor) :=
  match c.dot first with
  | .error fault => .error fault
  | .ok dotted =>
    match dotted.name with
    | .error fault => .error fault
    | .ok (name, named) => .ok (⟨.attr name, c.textTo named, c.offset⟩, named)

/-- Reads one step. An opening bracket tells an item from an attribute. -/
def node (c : Cursor) (first : Bool) : Except Fault (Node × Cursor) :=
  if c.rest.head? = some '[' then c.item else c.attr first

/-- Reads the next step, if there is one, and the white space behind it, behind which the path has
to end. -/
def next (c : Cursor) (first : Bool) : Option (Except Fault (Node × Cursor)) :=
  if c.rest = [] then none
  else match c.node first with
    | .error fault => some (.error fault)
    | .ok (node, read) =>
      if read.skipSpace.offset ≠ read.offset ∧ read.skipSpace.rest ≠ [] then
        some (.error ⟨read.offset, .spaceInside⟩)
      else some (.ok (node, read.skipSpace))

/-! ### Every reader shortens what is left -/

theorem length_advance_le (c : Cursor) (n : Nat) : (c.advance n).rest.length ≤ c.rest.length := by
  simp [advance]

theorem length_skipSpace_le (c : Cursor) : c.skipSpace.rest.length ≤ c.rest.length :=
  c.length_advance_le _

theorem length_of_skip {c d : Cursor} {wanted : Char} (h : c.skip wanted = .ok d) :
    d.rest.length < c.rest.length := by
  unfold skip at h
  split at h
  · cases h
  · next found rest hc =>
    split at h <;> cases h
    simp [advance, hc]

theorem length_of_number {c d : Cursor} {n : Nat} (h : c.number = .ok (n, d)) :
    d.rest.length ≤ c.rest.length := by
  unfold number at h
  split at h
  · cases h
  · split at h <;> cases h
    exact c.length_advance_le _

theorem isNameRest_of_isNameStart {a : Char} (h : isNameStart a = true) : isNameRest a = true := by
  simp only [isNameStart, isNameRest, Char.isAlphanum, Bool.or_eq_true] at h ⊢
  exact h.imp_left Or.inl

theorem length_of_name {c d : Cursor} {s : String} (h : c.name = .ok (s, d)) :
    d.rest.length < c.rest.length := by
  unfold name at h
  split at h <;> cases h
  next ha =>
  cases hc : c.rest with
  | nil => simp [hc] at ha
  | cons a rest =>
    have := isNameRest_of_isNameStart (by simpa [hc] using ha : isNameStart a = true)
    simp only [advance, run, hc, List.takeWhile_cons, this, if_true, List.length_cons,
      List.drop_succ_cons, List.length_drop]
    omega

theorem length_of_item {c d : Cursor} {n : Node} (h : c.item = .ok (n, d)) :
    d.rest.length < c.rest.length := by
  unfold item at h
  split at h
  · cases h
  · next h₁ =>
    split at h
    · cases h
    · next h₂ =>
      split at h <;> cases h
      next h₃ =>
      have := length_of_skip h₁
      have := length_of_number h₂
      have := length_of_skip h₃
      omega

theorem length_of_dot {c d : Cursor} {first : Bool} (h : c.dot first = .ok d) :
    d.rest.length ≤ c.rest.length := by
  unfold dot at h
  split at h
  · cases h; exact Nat.le_refl _
  · exact Nat.le_of_lt (length_of_skip h)

theorem length_of_attr {c d : Cursor} {first : Bool} {n : Node} (h : c.attr first = .ok (n, d)) :
    d.rest.length < c.rest.length := by
  unfold attr at h
  split at h
  · cases h
  · next h₁ =>
    split at h <;> cases h
    next h₂ => exact Nat.lt_of_lt_of_le (length_of_name h₂) (length_of_dot h₁)

theorem length_of_node {c d : Cursor} {first : Bool} {n : Node} (h : c.node first = .ok (n, d)) :
    d.rest.length < c.rest.length := by
  unfold node at h
  split at h
  · exact length_of_item h
  · exact length_of_attr h

theorem length_of_next {c d : Cursor} {first : Bool} {n : Node}
    (h : c.next first = some (.ok (n, d))) :
    d.rest.length < c.rest.length := by
  unfold next at h
  split at h
  · cases h
  · split at h
    · cases h
    · next h₁ =>
      split at h <;> cases h
      exact Nat.lt_of_le_of_lt (length_skipSpace_le _) (length_of_node h₁)

def nodes (c : Cursor) (first : Bool) : Except Fault (List Node) :=
  match _h : c.next first with
  | none => .ok []
  | some (.error fault) => .error fault
  | some (.ok (node, rest)) =>
    match rest.nodes false with
    | .error fault => .error fault
    | .ok further => .ok (node :: further)
termination_by c.rest.length
decreasing_by exact length_of_next _h

end Cursor

end LivePath
