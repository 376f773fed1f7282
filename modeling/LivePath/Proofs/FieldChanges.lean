import LivePath.Proofs.Dispatch
import Mathlib.Data.List.Induction

/-!
# Assignments in a row

Pairs of names and values are assigned to a model from left to right, and only then the model
announces the names that changed. A name may be assigned several times, and whether a pair changes
anything depends on the value that the pairs in front of it left (`heldAfter`); a name that changes
and changes back has changed. The names are announced once each, in the order in which they first
changed (`Fields.Assigned`, an invariant of every beginning of the row), and whatever listeners do
meanwhile, they are all that this announcement sends out (`assignments_announce_first_changes`).
-/

namespace LivePath

/-! ### What is held, and what changes -/

/-- Assigns one value. A value that is strictly equal to the one in place does not replace it. -/
def assignOne (held : String → Option Value) (p : String × Value) : String → Option Value :=
  fun n => if n = p.1 ∧ (held n).any (·.same p.2) = false then some p.2 else held n

/-- What the names hold after the pairs are assigned, one by one. -/
def heldAfter (held : String → Option Value) (pairs : List (String × Value)) :
    String → Option Value :=
  pairs.foldl assignOne held

/-- Pair number `i` gives the name a value that is not strictly equal to the one it has right
before, if it has one. -/
def Changes (held : String → Option Value) (pairs : List (String × Value)) (i : Nat)
    (name : String) : Prop :=
  ∃ v, pairs[i]? = some (name, v) ∧ (heldAfter held (pairs.take i) name).any (·.same v) = false

section
variable {held : String → Option Value} {pairs : List (String × Value)} {i : Nat} {n name : String}
  {v : Value}

theorem heldAfter_concat (held : String → Option Value) (pairs : List (String × Value))
    (p : String × Value) :
    heldAfter held (pairs ++ [p]) = assignOne (heldAfter held pairs) p :=
  List.foldl_concat ..

theorem Changes.lt_length (h : Changes held pairs i n) : i < pairs.length := by
  obtain ⟨v, hv, -⟩ := h
  exact (List.getElem?_eq_some_iff.1 hv).1

theorem changes_concat_iff : Changes held (pairs ++ [(name, v)]) i n ↔
    Changes held pairs i n ∨
      (i = pairs.length ∧ n = name ∧ (heldAfter held pairs name).any (·.same v) = false) := by
  unfold Changes
  -- What an earlier pair changes does not depend on the last one.
  rcases Nat.lt_trichotomy i pairs.length with hi | rfl | hi
  · rw [List.getElem?_append_left hi, List.take_append_of_le_length (Nat.le_of_lt hi)]
    constructor
    · exact .inl
    · rintro (h | ⟨rfl, -⟩)
      · exact h
      · exact absurd hi (Nat.lt_irrefl _)
  · rw [List.getElem?_concat_length, List.take_append_of_le_length (Nat.le_refl _),
      List.take_length]
    constructor
    · rintro ⟨w, hw, hc⟩
      cases hw
      exact .inr ⟨rfl, rfl, hc⟩
    · rintro (⟨w, hw, -⟩ | ⟨-, rfl, hc⟩)
      · rw [List.getElem?_eq_none (Nat.le_refl _)] at hw
        cases hw
      · exact ⟨v, rfl, hc⟩
  · have hlen : (pairs ++ [(name, v)]).length ≤ i := by simp; omega
    rw [List.getElem?_eq_none hlen, List.getElem?_eq_none (Nat.le_of_lt hi)]
    constructor
    · rintro ⟨w, hw, -⟩
      cases hw
    · rintro (⟨w, hw, -⟩ | ⟨rfl, -⟩)
      · cases hw
      · exact absurd hi (Nat.lt_irrefl _)

end

/-! ### The names that changed -/

namespace Fields

/-- What is known when the pairs have been assigned: what the names hold now, and which of them
changed, in order. -/
structure Assigned (before : String → Option Value) (pairs : List (String × Value)) (f : Fields)
    (changed : List String) : Prop where
  held (n : String) : f.get? n = heldAfter before pairs n
  nodup : changed.Nodup
  mem_iff (n : String) : n ∈ changed ↔ ∃ i, Changes before pairs i n
  /-- Of two names, the former one changed before the latter one ever did. -/
  order : changed.Pairwise fun n n' => ∃ i, Changes before pairs i n ∧
  ∀ j, Changes before pairs j n' → i < j

namespace Assigned
variable {before : String → Option Value} {pairs : List (String × Value)} {f : Fields}
  {changed : List String} {name : String} {v : Value}

theorem start (f : Fields) : Assigned f.get? [] f [] where
  held _ := rfl
  nodup := .nil
  mem_iff n := by simp [Changes]
  order := .nil

theorem changesBy_iff (h : Assigned before pairs f changed) :
    f.changesBy name v = true ↔ (heldAfter before pairs name).any (·.same v) = false := by
  rw [changesBy, h.held, Bool.not_eq_true']

theorem skip (h : Assigned before pairs f changed) (hc : f.changesBy name v = false) :
    Assigned before (pairs ++ [(name, v)]) f changed := by
  have hsame : (heldAfter before pairs name).any (·.same v) ≠ false := fun hf =>
    absurd (h.changesBy_iff.2 hf) (by rw [hc]; exact Bool.false_ne_true)
  have hiff (i : Nat) (n : String) : Changes before (pairs ++ [(name, v)]) i n ↔
      Changes before pairs i n := by
    rw [changes_concat_iff]
    exact or_iff_left fun hlast => hsame hlast.2.2
  constructor
  · intro n
    rw [h.held, heldAfter_concat, assignOne, if_neg]
    rintro ⟨rfl, hf⟩
    exact hsame hf
  · exact h.nodup
  · intro n
    simp only [hiff]
    exact h.mem_iff n
  · simp only [hiff]
    exact h.order

theorem held_put (h : Assigned before pairs f changed) (hc : f.changesBy name v = true)
    (n : String) :
    (f.put name v).get? n = heldAfter before (pairs ++ [(name, v)]) n := by
  rw [get?_put, h.held, heldAfter_concat, assignOne]
  by_cases hn : n = name
  · subst hn
    rw [if_pos rfl, if_pos ⟨rfl, h.changesBy_iff.1 hc⟩]
  · rw [if_neg hn, if_neg fun hand => hn hand.1]

theorem order_concat (h : Assigned before pairs f changed) (name : String) (v : Value) :
    changed.Pairwise fun n n' => ∃ i, Changes before (pairs ++ [(name, v)]) i n ∧
      ∀ j, Changes before (pairs ++ [(name, v)]) j n' → i < j := by
  refine h.order.imp ?_
  rintro n n' ⟨i, hi, hfirst⟩
  refine ⟨i, changes_concat_iff.2 (.inl hi), fun j hj => ?_⟩
  rcases changes_concat_iff.1 hj with hj | ⟨rfl, -⟩
  · exact hfirst j hj
  · exact hi.lt_length

theorem again (h : Assigned before pairs f changed) (hc : f.changesBy name v = true)
    (hm : name ∈ changed) :
    Assigned before (pairs ++ [(name, v)]) (f.put name v) changed := by
  constructor
  · exact h.held_put hc
  · exact h.nodup
  · intro n
    rw [h.mem_iff]
    constructor
    · rintro ⟨i, hi⟩
      exact ⟨i, changes_concat_iff.2 (.inl hi)⟩
    · rintro ⟨i, hi⟩
      rcases changes_concat_iff.1 hi with hi | ⟨-, rfl, -⟩
      · exact ⟨i, hi⟩
      · exact (h.mem_iff n).1 hm
  · exact h.order_concat name v

theorem first (h : Assigned before pairs f changed) (hc : f.changesBy name v = true)
    (hm : name ∉ changed) :
    Assigned before (pairs ++ [(name, v)]) (f.put name v) (changed ++ [name]) := by
  have hlast : Changes before (pairs ++ [(name, v)]) pairs.length name :=
    changes_concat_iff.2 (.inr ⟨rfl, rfl, h.changesBy_iff.1 hc⟩)
  constructor
  · exact h.held_put hc
  · exact List.nodup_append.2 ⟨h.nodup, List.nodup_singleton _, fun n hn n' hn' heq => by
      rw [List.mem_singleton.1 hn'] at heq
      exact hm (heq ▸ hn)⟩
  · intro n
    rw [List.mem_append, List.mem_singleton, h.mem_iff]
    constructor
    · rintro (⟨i, hi⟩ | hn)
      · exact ⟨i, changes_concat_iff.2 (.inl hi)⟩
      · rw [hn]
        exact ⟨_, hlast⟩
    · rintro ⟨i, hi⟩
      rcases changes_concat_iff.1 hi with hi | ⟨-, hn, -⟩
      · exact .inl ⟨i, hi⟩
      · exact .inr hn
  · refine List.pairwise_append.2 ⟨h.order_concat name v, List.pairwise_singleton ..,
      fun n hn n' hn' => ?_⟩
    -- The new name has changed nowhere but in the last pair.
    obtain ⟨i, hi⟩ := (h.mem_iff n).1 hn
    refine ⟨i, changes_concat_iff.2 (.inl hi), fun j hj => ?_⟩
    rw [List.mem_singleton.1 hn'] at hj
    rcases changes_concat_iff.1 hj with hj | ⟨rfl, -⟩
    · exact absurd ((h.mem_iff name).2 ⟨j, hj⟩) hm
    · exact hi.lt_length

end Assigned

theorem assign_append (f : Fields) (changed : List String) (pairs pairs' : List (String × Value)) :
    f.assign changed (pairs ++ pairs') = (f.assign changed pairs).1.assign
      (f.assign changed pairs).2 pairs' := by
  induction pairs generalizing f changed with
  | nil => rfl
  | cons p pairs ih =>
    rw [List.cons_append, assign, assign]
    split
    · exact ih _ _
    · exact ih _ _

theorem assigned_assign (f : Fields) (pairs : List (String × Value)) :
    Assigned f.get? pairs (f.assign [] pairs).1 (f.assign [] pairs).2 := by
  induction pairs using List.reverseRecOn with
  | nil => exact .start f
  | append_singleton pairs p ih =>
    obtain ⟨name, v⟩ := p
    rw [assign_append, assign, assign, assign]
    split
    · next hc =>
      split
      · next hm => exact ih.again hc hm
      · next hm => exact ih.first hc hm
    · next hc => exact ih.skip (Bool.eq_false_iff.2 hc)

end Fields

/-! ### The announcement -/

namespace Machine
variable {F : Type} [Foreign F] {m m' : Machine F} {o : ObjectId} {below : List (Frame F)}
  {ts : List Topic} {sent : List (Topic × Machine F)}

/-- A run in which an announcement right above `below` goes on, be it over or not, with the topics
that it sends out and the states in which it does. -/
inductive SendsOut (o : ObjectId) (below : List (Frame F)) :
    Machine F → List (Topic × Machine F) → Machine F → Prop
  | refl (m : Machine F) : SendsOut o below m [] m
  | send {m m' : Machine F} {t : Topic} {ts : List Topic} {sent : List (Topic × Machine F)}
      (h : m.stack = .announce o (t :: ts) :: below) (hr : SendsOut o below m.next sent m') :
      SendsOut o below m ((t, m) :: sent) m'
  | step {m k m' : Machine F} {sent : List (Topic × Machine F)} (h : m.Step k)
      (hb : m.stack ≠ below)
      (hn : ∀ t ts, m.stack ≠ .announce o (t :: ts) :: below) (hr : SendsOut o below k sent m') :
      SendsOut o below m sent m'

theorem delivers_next {t : Topic} (h : m.stack = .announce o (t :: ts) :: below) :
    m.next.Delivers o t ∧ .announce o ts :: below <:+ m.next.stack := by
  obtain ⟨world, scripts, stack⟩ := m
  obtain rfl : stack = _ := h
  exact ⟨⟨_, rfl⟩, List.suffix_cons ..⟩

namespace SendsOut

/-- A topic that is sent out goes to those who observe it at this moment. -/
theorem delivers (h : SendsOut o below m sent m') : ∀ s ∈ sent, s.2.next.Delivers o s.1 := by
  induction h with
  | refl => exact fun s hs => absurd hs List.not_mem_nil
  | send hs _ ih => exact List.forall_mem_cons.2 ⟨(delivers_next hs).1, ih⟩
  | step _ _ _ _ ih => exact ih

theorem eq_nil (h : SendsOut o below m sent m') (hs : m.stack = below) : sent = [] ∧ m' = m := by
  cases h with
  | refl => exact ⟨rfl, rfl⟩
  | send h => exact absurd (h.symm.trans hs) (append_cons_ne [] _ _)
  | step _ hb => exact absurd hs hb

theorem pending {above : List (Frame F)} (h : SendsOut o below m sent m')
    (hs : m.stack = above ++ .announce o ts :: below) :
    ∃ ts', ts = sent.map Prod.fst ++ ts' ∧
      ((∃ above', m'.stack = above' ++ .announce o ts' :: below) ∨ ts' = [] ∧
        m'.stack = below) := by
  induction h generalizing above ts with
  | refl => exact ⟨ts, rfl, .inl ⟨above, hs⟩⟩
  | @send m m' t ts₀ sent h hr ih =>
    rcases above with - | ⟨frame, above⟩
    · cases hs.symm.trans h
      obtain ⟨above', ha⟩ := (delivers_next h).2
      obtain ⟨ts', hts, hend⟩ := ih ha.symm
      exact ⟨ts', by rw [hts]; rfl, hend⟩
    · exact absurd (List.cons.inj (hs.symm.trans h)).2 (append_cons_ne _ _ _)
  | @step m k m' sent h hb hn hrun ih =>
    by_cases ha : above = []
    · -- The announcement is on top, and has no topic left.
      subst ha
      cases ts with
      | cons t ts => exact absurd hs (hn t ts)
      | nil =>
        have hk : k.stack = below := by
          cases h with
          | turn => rw [next, hs]; rfl
          | command hr => rw [hr] at hs; cases hs
          | divert hf => cases hs.symm.trans hf
        obtain ⟨rfl, rfl⟩ := hrun.eq_nil hk
        exact ⟨[], rfl, .inr ⟨rfl, hk⟩⟩
    · obtain ⟨above', ha'⟩ := h.exists_above hs ha
      exact ih ha'

end SendsOut

theorem exists_sendsOut (o : ObjectId) (hs : below <:+ m.stack) :
    ∃ n sent, SendsOut o below m sent (next^[n] m) ∧ (next^[n] m).stack = below := by
  induction m using run.induct with
  | case1 m hr =>
    rw [hr] at hs
    exact ⟨0, [], .refl m, hr.trans (List.suffix_nil.1 hs).symm⟩
  | case2 m hr ih =>
    by_cases hb : m.stack = below
    · exact ⟨0, [], .refl m, hb⟩
    · obtain ⟨n, sent, ht, hn⟩ := ih ((Step.turn hr).suffix hs hb)
      by_cases hc : ∃ t ts, m.stack = .announce o (t :: ts) :: below
      · obtain ⟨t, ts, hc⟩ := hc
        exact ⟨n + 1, (t, m) :: sent, .send hc ht, hn⟩
      · exact ⟨n + 1, sent, .step (.turn hr) hb (fun t ts h => hc ⟨t, ts, h⟩) ht, hn⟩

/--
The law of assignments in a row. Assigning any pairs to a model takes effect at once, on the model
alone: its attributes are then those that single assignments lead to, each of which leaves a
strictly equal value in place. After that the model announces the names that some pair changed, each
once, by their first change. The announcement comes to its end, and whatever listeners do meanwhile,
these topics are what it sends out, in this order.
-/
theorem assignments_announce_first_changes {fields : Fields}
    (h : m.world.graph.objects.get o = .model fields) (pairs : List (String × Value)) :
    let effect := m.world.mutate o (.fields (.assign pairs))
    let begun := { m with world := effect.world }.notify effect.notice
    ∃ after names, Fields.Assigned fields.get? pairs after names ∧
      effect.world =
        { m.world with
          graph := { m.world.graph with objects := m.world.graph.objects.set o (.model after) } } ∧
      begun =
        { m with world := effect.world, stack := .announce o (names.map .change) :: m.stack } ∧
      (∃ n sent, SendsOut o m.stack begun sent (next^[n] begun) ∧
        (next^[n] begun).stack = m.stack) ∧
      ∀ sent m', SendsOut o m.stack begun sent m' →
        sent.map Prod.fst <+: names.map .change ∧
        (m'.stack = m.stack → sent.map Prod.fst = names.map .change) ∧
        ∀ s ∈ sent, s.2.next.Delivers o s.1 := by
  intro effect begun
  have heffect : effect =
      { world := { m.world with
          graph := { m.world.graph with
            objects := m.world.graph.objects.set o (.model (fields.assign [] pairs).1) } }
        answer := .nothing
        notice := .topics o ((fields.assign [] pairs).2.map .change) } := by
    show World.mutate .. = _
    rw [World.mutate, Graph.mutate_of_model h]
    rfl
  -- The pairs are all assigned before the first of their topics is announced.
  have hbegun : begun =
      { m with
        world := effect.world
        stack := .announce o ((fields.assign [] pairs).2.map .change) :: m.stack } := by
    show notify _ effect.notice = _
    rw [heffect]
    rfl
  have hstack : begun.stack =
      [] ++ .announce o ((fields.assign [] pairs).2.map .change) :: m.stack := by
    rw [hbegun]
    rfl
  refine ⟨_, _, fields.assigned_assign pairs, by rw [heffect], hbegun, exists_sendsOut o ?_, ?_⟩
  · rw [hstack]
    exact List.suffix_cons ..
  intro sent m' hsent
  obtain ⟨rest, hrest, hend⟩ := hsent.pending hstack
  refine ⟨⟨rest, hrest.symm⟩, fun hs => ?_, hsent.delivers⟩
  rcases hend with ⟨above, ha⟩ | ⟨hnil, -⟩
  · exact absurd (ha.symm.trans hs) (append_cons_ne _ _ _)
  · rw [hrest, hnil, List.append_nil]

/-- A model that holds a number, a zero and something that is not a number, the last of which equals
nothing. -/
def measuring : Machine Empty :=
  ({} : Machine Empty).begin (.act (.create "m" (.model
    [("a", .int 1), ("zero", .float ⟨0⟩), ("nan", .float ⟨0x7ff8000000000000⟩)])))

/-- A name that changes is announced once, also if it changes back, and the other zero is no
change. -/
theorem assignments_announce_first_changes_measuring :
    let pairs : List (String × Value) :=
      [("a", .int 1), ("b", .int 5), ("a", .int 2), ("zero", .float ⟨0x8000000000000000⟩),
        ("nan", .float ⟨0x7ff8000000000000⟩), ("a", .int 1), ("b", .int 5)]
    let effect := measuring.world.mutate 0 (.fields (.assign pairs))
    let begun := { measuring with world := effect.world }.notify effect.notice
    ∃ n sent, SendsOut 0 [] begun sent (next^[n] begun) ∧
      sent.map Prod.fst = [.change "b", .change "a", .change "nan"] ∧
      ∀ s ∈ sent, s.2.next.Delivers 0 s.1 := by
  intro pairs effect begun
  have hmodel : measuring.world.graph.objects.get 0 =
    .model ⟨[("a", .int 1), ("zero", .float ⟨0⟩), ("nan", .float ⟨0x7ff8000000000000⟩)]⟩ := rfl
  obtain ⟨after, names, -, -, hbegun, ⟨n, sent, hsent, hend⟩, hall⟩ :=
    assignments_announce_first_changes hmodel pairs
  obtain ⟨-, hsame, hdeliver⟩ := hall sent _ hsent
  refine ⟨n, sent, hsent, ?_, hdeliver⟩
  have hnames : ((⟨[("a", .int 1), ("zero", .float ⟨0⟩), ("nan", .float ⟨0x7ff8000000000000⟩)]⟩ :
      Fields).assign [] pairs).2 = ["b", "a", "nan"] := by decide +kernel
  have hstack : begun.stack = [.announce 0 (["b", "a", "nan"].map .change)] := by
    rw [← hnames]
    rfl
  have htopics := hstack.symm.trans (congrArg Machine.stack hbegun)
  rw [hsame hend]
  exact (Frame.announce.inj (List.cons.inj htopics).1).2.symm

end Machine
end LivePath
