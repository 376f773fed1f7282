import LivePath.Proofs.Lifetimes

/-!
# What shows of a run

A run is decided by choices: to take a turn, to give a machine at rest a command, to let a listener
go on with other commands (`Choice`). What shows of it are the commands with their answers, in the
order in which they begin, and the announcements that listeners hear, interleaved as they happen
(`Sight`). The choices fix all that shows (`Unfolds.unique`).
-/

namespace LivePath

inductive Choice (F : Type) where
  | turn
  | command (c : Command F)
  | divert (cs : List (Command F))

/-- What shows of a run: a command begins, and is answered once its effect is over; a listener hears
something. -/
inductive Sight (F : Type) where
  | ran (c : Command F) (answer : Answer)
  | heard (e : Event)

namespace Sight
variable {F : Type}

def ran? : Sight F → Option (Command F × Answer)
  | ran c answer => some (c, answer)
  | heard _ => none

end Sight

namespace Machine
variable {F : Type} [Foreign F] {m m' m'' : Machine F}

def labelOf (m : Machine F) (id : ScriptId) : String :=
  (m.scripts.get id).label

/-- What shows in the next turn. -/
def sight? (m : Machine F) : Option (Sight F) :=
  match m.stack with
  | .script (c :: _) :: rest => some (.ran c ({ m with stack := rest }.perform c).2.1)
  | .topic o topic (r :: _) :: _ =>
    match r.listener with
    | .script id =>
      if (m.world.graph.registries.get o).contains r.key then some
        (.heard (.topic (m.labelOf id) topic)) else none
    | .tracker _ => none
  | .text d text (r :: _) :: _ =>
    if (m.world.dispatchers.get d).contains r.key then some
      (.heard (.text (m.labelOf r.listener) text)) else none
  | .change id value (r :: _) :: _ =>
    if (m.world.trackers.get id).listeners.contains r.key then some
      (.heard (.change (m.labelOf r.listener) value))
    else none
  | _ => none

theorem script_of_sight? {c : Command F} {answer : Answer} (h : m.sight? = some (.ran c answer)) :
    ∃ cs rest, m.stack = .script (c :: cs) :: rest ∧
      answer = ({ m with stack := rest }.perform c).2.1 := by
  unfold sight? at h
  split at h
  · next c cs rest hstack =>
    cases h
    exact ⟨cs, rest, hstack, rfl⟩
  · split at h
    · split at h <;> cases h
    · cases h
  · split at h <;> cases h
  · split at h <;> cases h
  · cases h

/-- The answer of a command that begins lies ready, to be recorded when all that the command leads
to is over. -/
theorem finish_of_sight? {c : Command F} {answer : Answer} (h : m.sight? = some (.ran c answer)) :
    ∃ above below, m.next.stack = above ++ .finish answer :: below := by
  obtain ⟨world, scripts, stack⟩ := m
  obtain ⟨cs, rest, hstack, rfl⟩ := script_of_sight? h
  obtain rfl : stack = _ := hstack
  obtain ⟨frames, hs, -⟩ := stack_notify
    ((((perform ⟨world, scripts, rest⟩ c).1.push (.script cs)).push
      (.finish (perform ⟨world, scripts, rest⟩ c).2.1)))
    (perform ⟨world, scripts, rest⟩ c).2.2
  exact ⟨frames, _, hs⟩

/-- What a choice leads to, and what shows of it. -/
inductive Acts : Machine F → Choice F → Option (Sight F) → Machine F → Prop
  | turn {m : Machine F} (h : m.stack ≠ []) : Acts m .turn m.sight? m.next
  | command {m : Machine F} (h : m.stack = []) (c : Command F) :
      Acts m (.command c) (some (.ran c (m.afresh.perform c).2.1)) (m.begin c)
  | divert {m : Machine F} {cs : List (Command F)} {rest : List (Frame F)}
      (h : m.stack = .script cs :: rest)
      (cs' : List (Command F)) : Acts m (.divert cs') none { m with stack := .script cs' :: rest }

/-- A run with the choices made in it and what shows of it, in order. -/
inductive Unfolds (m : Machine F) : List (Choice F) → List (Sight F) → Machine F → Prop
  | refl : Unfolds m [] [] m
  | tail {cs : List (Choice F)} {seen : List (Sight F)} {m' m'' : Machine F} {c : Choice F}
      {s : Option (Sight F)}
      (h : Unfolds m cs seen m') (ha : m'.Acts c s m'') :
      Unfolds m (cs ++ [c]) (seen ++ s.toList) m''

variable {c : Choice F} {s s' : Option (Sight F)} {cs cs' : List (Choice F)}
  {seen seen' : List (Sight F)}

theorem Acts.step (h : m.Acts c s m') : m.Step m' := by
  cases h with
  | turn h => exact .turn h
  | command h c => exact .command h c
  | divert h cs' => exact .divert h cs'

theorem Step.exists_acts (h : m.Step m') : ∃ c s, m.Acts c s m' := by
  cases h with
  | turn h => exact ⟨_, _, .turn h⟩
  | command h c => exact ⟨_, _, .command h c⟩
  | divert h cs' => exact ⟨_, _, .divert h cs'⟩

theorem Acts.unique (h : m.Acts c s m') (h' : m.Acts c s' m'') : s' = s ∧ m'' = m' := by
  cases h with
  | turn h => cases h'; exact ⟨rfl, rfl⟩
  | command h c => cases h'; exact ⟨rfl, rfl⟩
  | divert h cs' =>
    cases h' with
    | divert h' =>
      cases h.symm.trans h'
      exact ⟨rfl, rfl⟩

namespace Unfolds

theorem leads (h : m.Unfolds cs seen m') : m.Leads m' := by
  induction h with
  | refl => exact .refl
  | tail h ha ih => exact ih.tail ha.step

/-- The choices decide what shows. -/
theorem unique (h : m.Unfolds cs seen m') (h' : m.Unfolds cs seen' m'') :
    seen' = seen ∧ m'' = m' := by
  induction h generalizing seen' m'' with
  | refl =>
    generalize hcs : ([] : List (Choice F)) = cs at h'
    cases h' with
    | refl => exact ⟨rfl, rfl⟩
    | tail => exact absurd hcs.symm (by simp)
  | @tail cs seen k k' c s h ha ih =>
    generalize hcs : cs ++ [c] = cs' at h'
    cases h' with
    | refl => exact absurd hcs (by simp)
    | tail h' ha' =>
      obtain ⟨rfl, hc⟩ := List.append_inj' hcs rfl
      cases hc
      obtain ⟨rfl, rfl⟩ := ih h'
      obtain ⟨rfl, rfl⟩ := ha.unique ha'
      exact ⟨rfl, rfl⟩

theorem split (h : m.Unfolds cs seen m') {before after : List (Sight F)} {x : Sight F}
    (hs : seen = before ++ x :: after) :
    ∃ k k' c cs₁ cs₂, m.Unfolds cs₁ before k ∧ k.Acts c (some x) k' ∧ k'.Unfolds cs₂ after m' := by
  induction h generalizing after with
  | refl => exact absurd hs (by simp)
  | @tail cs seen l l' c s h ha ih =>
    have hgoes {after' : List (Sight F)} (hs' : seen = before ++ x :: after')
        (happ : after = after' ++ s.toList) : ∃ k k' c cs₁ cs₂, m.Unfolds cs₁ before k ∧
          k.Acts c (some x) k' ∧ k'.Unfolds cs₂ after l' := by
      obtain ⟨k, k', c', cs₁, cs₂, h₁, hx, h₂⟩ := ih hs'
      refine ⟨k, k', c', cs₁, cs₂ ++ [c], h₁, hx, ?_⟩
      rw [happ]
      exact h₂.tail ha
    cases s with
    | none =>
      rw [Option.toList_none, List.append_nil] at hs
      exact hgoes hs (by simp)
    | some y =>
      -- It shows now, or it showed before.
      rcases List.eq_nil_or_concat after with rfl | ⟨after', y', rfl⟩
      · have hlast : seen ++ [y] = before ++ [x] := hs
        obtain ⟨rfl, hx⟩ := List.append_inj' hlast rfl
        cases hx
        exact ⟨l, l', c, cs, [], h, ha, .refl⟩
      · have hlast : seen ++ [y] = (before ++ x :: after') ++ [y'] := by
          rw [List.append_assoc]
          simpa using hs
        obtain ⟨hs', hy⟩ := List.append_inj' hlast rfl
        cases hy
        exact hgoes hs' (by simp)

end Unfolds

theorem Leads.exists_unfolds (h : m.Leads m') : ∃ cs seen, m.Unfolds cs seen m' := by
  induction h with
  | refl => exact ⟨[], [], .refl⟩
  | tail _ hs ih =>
    obtain ⟨cs, seen, hu⟩ := ih
    obtain ⟨c, s, ha⟩ := hs.exists_acts
    exact ⟨_, _, hu.tail ha⟩

end Machine
end LivePath
