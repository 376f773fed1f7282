import LivePath.Proofs.Visits

/-!
# Passive trackers are invisible

In a run with strangers (`Accompanied`) the strangers come whenever commands can be given: they bind
trackers, listen to them, take back, drop and dispose. Their trackers are notified like all others,
and make their passes in between. Still nothing of all this shows: the same choices without the
strangers lead to the same announcements to all others, the same answers and the same contents
(`strangers_invisible`). Nor do strangers hold anybody up (`Accompanied.exists_acts`).
-/

namespace LivePath
namespace Machine
variable {reserved : String → Prop} {P P' : Pairing} {m m' n n' : Machine Empty}

namespace Twin

/-- Unless it is a stranger's turn, both machines are at rest, or both have the same to do next. -/
theorem next_frames (h : m.Twin reserved P n) (hown : ¬ n.StrangersTurn P.crowd) :
    m.stack = [] ∧ n.stack = [] ∨
      ∃ f fs f' fs', m.stack = f :: fs ∧ n.stack = f' :: fs' ∧ f.Twin P f' ∧ P.Stacks fs fs' := by
  obtain ⟨world, scripts, stack⟩ := n
  have hstack : P.Stacks m.stack stack := h.stack
  cases stack with
  | nil => exact .inl ⟨hstack.eq_nil, rfl⟩
  | cons f' fs' =>
    have hf' : ¬ f'.Strange P := by
      intro hf
      cases hf with
      | change hj => exact hown hj
      | handling hj => exact hown hj
    obtain ⟨f, fs, hm, hf, hrest⟩ := hstack.exists_twin hf'
    exact .inr ⟨f, fs, f', fs', hm, rfl, hf, hrest⟩

theorem acts (h : m.Twin reserved P n) (hown : ¬ n.StrangersTurn P.crowd) {c : Choice Empty}
    {s' : Option (Sight Empty)} (ha : n.Acts c s' n')
    (hn : ∀ c a, s' = some (.ran c a) → ∀ x ∈ c.names, ¬ reserved x) :
    ∃ s m', m.Acts c s m' ∧ Twins reserved P m' n' ∧
      List.Forall₂ Sight.Like s.toList s'.toList := by
  rcases h.next_frames hown with ⟨hm, hr⟩ | ⟨f, fs, f', fs', hm, hr, hf, hrest⟩
  · cases ha with
    | command _ c =>
      have hw : m.afresh.world.Twin reserved P n.afresh.world := { h.world with }
      -- A command leaves the same notice on both sides, so that the same frames are put on top.
      obtain ⟨P', hP, hcrowd, hw', hs', hnotice, hanswer⟩ := twin_perform hw h.scripts (hn c _ rfl)
      have hstack : P'.Stacks (m.afresh.perform c).1.stack (n.afresh.perform c).1.stack := by
        rw [stack_perform, stack_perform]
        exact h.stack.mono hP
      have hafter : (m.afresh.perform c).1.Twin reserved P' (n.afresh.perform c).1 :=
        ⟨hw', hs', hstack⟩
      refine ⟨_, _, .command hm c, ⟨P', hcrowd, ?_⟩, .cons (.ran c hanswer) .nil⟩
      rw [begin, begin, hnotice]
      exact hafter.notify _
    | divert hs => exact absurd (hr.symm.trans hs).symm (List.cons_ne_nil _ _)
    | turn hbusy => exact absurd hr hbusy
  · cases ha with
    | command hs => exact absurd (hr.symm.trans hs) (List.cons_ne_nil _ _)
    | divert hs cs' =>
      cases hr.symm.trans hs
      cases hf with
      | script cs =>
        have hafter : Twin reserved P { m with stack := .script cs' :: fs }
            { n with stack := .script cs' :: fs' } :=
          { h with stack := .twin (.script cs') hrest }
        exact ⟨_, _, .divert hm cs', hafter.twins, .nil⟩
    | turn =>
      obtain ⟨world, scripts, stack⟩ := n
      obtain rfl : stack = f' :: fs' := hr
      obtain ⟨mworld, mscripts, mstack⟩ := m
      obtain rfl : mstack = f :: fs := hm
      have hbelow : (⟨mworld, mscripts, fs⟩ : Machine Empty).Twin reserved P
          ⟨world, scripts, fs'⟩ :=
        ⟨h.world, h.scripts, hrest⟩
      obtain ⟨htwins, hlike⟩ := hbelow.turn hf hown hn
      exact ⟨_, _, .turn (List.cons_ne_nil _ _), htwins, hlike⟩

theorem exists_acts (h : m.Twin reserved P n) (hown : ¬ n.StrangersTurn P.crowd) {c : Choice Empty}
    {s : Option (Sight Empty)} (ha : m.Acts c s m') :
    ∃ s' n', n.Acts c s' n' ∧ ∀ c a', s' = some (.ran c a') → ∃ a, s = some (.ran c a) := by
  rcases h.next_frames hown with ⟨hm, hr⟩ | ⟨f, fs, f', fs', hm, hr, hf, -⟩
  · cases ha with
    | command _ c => exact ⟨_, _, .command hr c, fun c a he => by cases he; exact ⟨_, rfl⟩⟩
    | divert hs => exact absurd (hm.symm.trans hs).symm (List.cons_ne_nil _ _)
    | turn hbusy => exact absurd hm hbusy
  · have hbusy : n.stack ≠ [] := hr ▸ List.cons_ne_nil _ _
    cases ha with
    | command hs => exact absurd (hm.symm.trans hs) (List.cons_ne_nil _ _)
    | divert hs cs' =>
      cases hm.symm.trans hs
      cases hf
      exact ⟨_, _, .divert hr cs', fun c a he => by cases he⟩
    | turn =>
      refine ⟨_, _, .turn hbusy, fun c a he => ?_⟩
      obtain ⟨cs, rest, hscript, -⟩ := script_of_sight? he
      cases hr.symm.trans hscript
      cases hf
      exact ⟨_, by rw [sight?, hm]⟩

end Twin

theorem twin_empty (reserved : String → Prop) :
    Twin reserved ⟨fun _ _ => False, fun _ _ => False, fun _ _ _ => False, fun _ => False,
      fun _ => False, fun _ _ => False⟩ {} {} where
  world :=
    { graph := ⟨.refl _, fun _ => Registry.wellFormed_default,
        fun _ => Registry.wellFormed_default, fun _ => .nil,
        False.elim, False.elim, False.elim, False.elim⟩
      trackers := ⟨False.elim, False.elim, False.elim, False.elim, False.elim, False.elim⟩
      dispatcher := fun _ => .empty
      dispatchers := rfl
      objects := rfl
      accessors := rfl
      names := .nil
      subscriptions := .nil }
  scripts := ⟨False.elim, False.elim, False.elim, False.elim, False.elim, False.elim⟩
  stack := .nil

/--
A run that strangers accompany. They come at rest, or while a listener is running, and their
trackers form the crowd. The choices are those of all others, and so is what shows. All names of
strangers are reserved.
-/
inductive Accompanied (reserved : String → Prop) :
    (TrackerId → Prop) → List (Choice Empty) → List (Sight Empty) → Machine Empty → Prop
  | start : Accompanied reserved (fun _ => False) [] [] {}
  | act {crowd : TrackerId → Prop} {cs : List (Choice Empty)} {seen : List (Sight Empty)}
      {n n' : Machine Empty}
      {c : Choice Empty} {s : Option (Sight Empty)} (h : Accompanied reserved crowd cs seen n)
      (hown : ¬ n.StrangersTurn crowd) (ha : n.Acts c s n')
      (hn : ∀ c a, s = some (.ran c a) → ∀ x ∈ c.names, ¬ reserved x) :
      Accompanied reserved crowd (cs ++ [c]) (seen ++ s.toList) n'
  | attend {crowd : TrackerId → Prop} {cs : List (Choice Empty)} {seen : List (Sight Empty)}
      {n : Machine Empty} (h : Accompanied reserved crowd cs seen n)
      (hs : n.StrangersTurn crowd) :
      Accompanied reserved crowd cs seen n.attend
  | visit {crowd : TrackerId → Prop} {cs : List (Choice Empty)} {seen : List (Sight Empty)}
      {n : Machine Empty} (h : Accompanied reserved crowd cs seen n)
      (hr : n.stack = [] ∨ ∃ cs rest, n.stack = .script cs :: rest)
      {c : Command Empty} (hc : c.Passive) (hn : ∀ x ∈ c.names, reserved x) :
      Accompanied reserved (fun j => crowd j ∨ n.world.trackers.next ≤ j ∧
        j < (n.visit c).world.trackers.next) cs seen (n.visit c)

theorem rank_attend_lt {crowd : TrackerId → Prop} (hs : m.StrangersTurn crowd) :
    Relation.TransGen WellFoundedRelation.rel m.attend.rank m.rank := by
  have hbusy : m.stack ≠ [] := by
    intro he
    simp [StrangersTurn, he] at hs
  have hnext := rank_next_lt m hbusy
  unfold attend
  split
  · next j v r rs rest hstack =>
    split
    · next hc =>
      have hcalls : m.next.stack ≠ [] := by
        obtain ⟨world, scripts, stack⟩ := m
        obtain rfl : stack = _ := hstack
        simp [next, Machine.turn, hc, call, push]
      exact .head (rank_next_lt _ hcalls) (.single hnext)
    · exact .single hnext
  · exact .single hnext

theorem leads_attend (m : Machine Empty) : m.Leads m.attend := by
  unfold attend
  split
  · split
    · exact m.leads_next.trans m.next.leads_next
    · exact m.leads_next
  · exact m.leads_next

theorem leads_visit (c : Command Empty)
    (hr : m.stack = [] ∨ ∃ cs rest, m.stack = .script cs :: rest) :
    m.Leads (m.visit c) := by
  unfold visit
  split
  · next cs rest hstack =>
    exact .head (.divert hstack (c :: cs)) ((leads_next _).trans (leads_next _))
  · next hscript =>
    rcases hr with hr | ⟨cs, rest, hr⟩
    · exact .single (.command hr c)
    · exact absurd hr (hscript cs rest)

namespace Accompanied
variable {crowd : TrackerId → Prop} {cs : List (Choice Empty)} {seen : List (Sight Empty)}

/-- Strangers do nothing that could not happen in any run. -/
theorem reachable (h : Accompanied reserved crowd cs seen n) : n.Reachable := by
  induction h with
  | start => exact .refl
  | act _ _ ha _ ih => exact ih.tail ha.step
  | attend _ _ ih => exact ih.leads (leads_attend _)
  | visit _ hr _ _ ih => exact ih.leads (leads_visit _ hr)

theorem exists_twin (h : Accompanied reserved crowd cs seen n) :
    ∃ m seen₀ P, Unfolds {} cs seen₀ m ∧ (∀ j, P.crowd j ↔ crowd j) ∧ m.Twin reserved P n ∧
      List.Forall₂ Sight.Like seen₀ seen := by
  induction h with
  | start => exact ⟨_, _, _, .refl, fun _ => Iff.rfl, twin_empty reserved, .nil⟩
  | @act crowd cs seen n n' c s _ hown ha hn ih =>
    obtain ⟨m, seen₀, P, hu, hcrowd, htwin, hlike⟩ := ih
    have hsame : P.crowd = crowd := funext fun j => propext (hcrowd j)
    obtain ⟨s₀, m', ha', ⟨P', hcrowd', htwin'⟩, hlike'⟩ := htwin.acts (hsame ▸ hown) ha hn
    exact ⟨m', _, P', hu.tail ha', fun j => by rw [hcrowd', hcrowd], htwin',
      List.rel_append hlike hlike'⟩
  | @attend crowd cs seen n _ hs ih =>
    obtain ⟨m, seen₀, P, hu, hcrowd, htwin, hlike⟩ := ih
    have hsame : P.crowd = crowd := funext fun j => propext (hcrowd j)
    obtain ⟨P', hcrowd', htwin'⟩ := htwin.attend (hsame ▸ hs)
    exact ⟨m, seen₀, P', hu, fun j => by rw [hcrowd', hcrowd], htwin', hlike⟩
  | @visit crowd cs seen n _ _ c hc hn ih =>
    obtain ⟨m, seen₀, P, hu, hcrowd, htwin, hlike⟩ := ih
    obtain ⟨P', hcrowd', htwin'⟩ := htwin.visit hc hn
    exact ⟨m, seen₀, P', hu, fun j => by rw [hcrowd', hcrowd], htwin', hlike⟩

theorem exists_attended (h : Accompanied reserved crowd cs seen n) :
    ∃ k, Accompanied reserved crowd cs seen k ∧ ¬ k.StrangersTurn crowd := by
  induction n using (InvImage.wf rank WellFoundedRelation.wf.transGen).induction with
  | _ n ih =>
    by_cases hs : n.StrangersTurn crowd
    · exact ih n.attend (rank_attend_lt hs) (h.attend hs)
    · exact ⟨n, h, hs⟩

/-- Strangers hold nobody up: however a run without them goes on, one with them can go on the same
way. -/
theorem exists_acts (h : Accompanied reserved crowd cs seen n) {seen₀ : List (Sight Empty)}
    (hu : Unfolds {} cs seen₀ m) {c : Choice Empty} {s : Option (Sight Empty)} (ha : m.Acts c s m')
    (hn : ∀ c a, s = some (.ran c a) → ∀ x ∈ c.names, ¬ reserved x) :
    ∃ s' : Option (Sight Empty), ∃ k, Accompanied reserved crowd (cs ++ [c])
      (seen ++ s'.toList) k := by
  obtain ⟨n₁, h₁, hown⟩ := h.exists_attended
  obtain ⟨m₁, seen₁, P, hu₁, hcrowd, htwin, -⟩ := h₁.exists_twin
  obtain ⟨rfl, rfl⟩ := hu.unique hu₁
  have hsame : P.crowd = crowd := funext fun j => propext (hcrowd j)
  obtain ⟨s', k, ha', hran⟩ := htwin.exists_acts (hsame ▸ hown) ha
  refine ⟨s', k, h₁.act hown ha' fun c a' he => ?_⟩
  obtain ⟨a, he'⟩ := hran c a' he
  exact hn c a he'

end Accompanied

/--
Strangers are invisible: the same choices can be made without them, and then the same is heard by
the same listeners in the same order, the same is answered, unless it is about listeners, and all
contents are the same.
-/
theorem strangers_invisible {crowd : TrackerId → Prop} {cs : List (Choice Empty)}
    {seen : List (Sight Empty)} (h : Accompanied reserved crowd cs seen n) :
    (∃ seen₀, ∃ m : Machine Empty, Unfolds {} cs seen₀ m) ∧
      ∀ seen₀, ∀ m : Machine Empty, Unfolds {} cs seen₀ m →
        List.Forall₂ Sight.Like seen₀ seen ∧ m.world.graph.Same n.world.graph ∧
        (n.stack = [] → m.stack = []) := by
  obtain ⟨m, seen₀, P, hu, -, htwin, hlike⟩ := h.exists_twin
  refine ⟨⟨seen₀, m, hu⟩, fun seen₁ m₁ hu₁ => ?_⟩
  obtain ⟨rfl, rfl⟩ := hu.unique hu₁
  refine ⟨hlike, htwin.world.graph.same, fun hr => ?_⟩
  have hstack := htwin.stack
  rw [hr] at hstack
  exact hstack.eq_nil

/-- A tracker comes, and makes a pass when the model that it observes is changed. -/
theorem strangers_invisible_tracking :
    ∃ crowd cs seen, ∃ n : Machine Empty, Accompanied (· = "s") crowd cs seen n ∧
    crowd 0 ∧ (∃ seen₀, ∃ m : Machine Empty, Unfolds {} cs seen₀ m) ∧
      ∀ seen₀, ∀ m : Machine Empty, Unfolds {} cs seen₀ m →
        List.Forall₂ Sight.Like seen₀ seen ∧ m.world.graph.Same n.world.graph ∧
        (n.stack = [] → m.stack = []) := by
  have hmade : Accompanied (· = "s") _ _ _ _ :=
    Accompanied.start.act id (.command rfl (.act (.create "m" (.model [])))) fun c a hc x hx => by
      cases hc
      cases hx
  have hbound := hmade.visit (.inl rfl)
    (c := .act (.tracker "s" (.track (.reference "m") (.nodes ⟨[⟨.attr "x", "x", 0⟩]⟩))))
    (fun items hl => by cases hl) fun x hx => List.mem_singleton.1 hx
  have hset := hbound.act id (.command rfl (.act (.edit "m" (.set "x" (.bool true)))))
    fun c a hc x hx => by
    cases hc
    cases hx
  have hannounced := hset.act id (.turn (List.cons_ne_nil _ _)) fun c a hc => by cases hc
  have hcrowd : False ∨ 0 ≤ 0 ∧ 0 < 1 := by omega
  have hpassed := hannounced.attend ⟨0, hcrowd, rfl⟩
  exact ⟨_, _, _, _, hpassed, hcrowd, strangers_invisible hpassed⟩

end Machine
end LivePath
