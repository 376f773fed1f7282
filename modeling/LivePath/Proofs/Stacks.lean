import LivePath.Proofs.Lifetimes
import Mathlib.Data.List.Infix

/-!
# What lies below

Work that has begun goes on top of work that began earlier, and a turn takes one frame from the top
and puts others in its place. So whatever lies below stays as it is until all above it is done
(`Step.suffix`), and this comes about in every run that goes on (`exists_stack_iterate_next`). An
announcement that lies somewhere on the stack delivers each of its topics before what lies below it
is reached again (`exists_delivery`).
-/

namespace LivePath

theorem append_cons_ne {α : Type} (above below : List α) (a : α) : above ++ a :: below ≠ below := by
  intro h
  have := congrArg List.length h
  simp only [List.length_append, List.length_cons] at this
  omega

namespace Machine
variable {F : Type} [Foreign F] {m m' : Machine F} {below : List (Frame F)}

omit [Foreign F] in
theorem suffix_notify (m : Machine F) (notice : Notice) : m.stack <:+ (m.notify notice).stack := by
  obtain ⟨frames, hs, -⟩ := m.stack_notify notice
  rw [hs]
  exact List.suffix_append ..

theorem suffix_pass (m : Machine F) (id : TrackerId) : m.stack <:+ (m.pass id).stack := by
  rw [stack_pass]
  exact (List.suffix_cons ..).trans (List.suffix_append ..)

theorem Turn.suffix {frame : Frame F} (h : m.Turn frame m') : m.stack <:+ m'.stack := by
  have htwo (f g : Frame F) : m.stack <:+ f :: g :: m.stack := List.suffix_append [f, g] m.stack
  cases h with
  | perform c cs =>
    refine List.IsSuffix.trans ?_ (suffix_notify _ _)
    show m.stack <:+ _ :: _ :: (m.perform c).1.stack
    rw [stack_perform]
    exact htwo _ _
  | pass pending =>
    exact (List.suffix_cons (Frame.topic ..) m.stack).trans (suffix_pass (m.push _) _)
  | again => exact suffix_pass m _
  | announce | hear | call => exact htwo _ _
  | miss | mark | ignore | skip => exact List.suffix_cons ..
  | spent | answer | settle | finished => exact List.suffix_refl _

theorem Step.suffix (h : m.Step m') (hs : below <:+ m.stack) (hne : m.stack ≠ below) :
    below <:+ m'.stack := by
  have hcons {frame : Frame F} {rest : List (Frame F)} (hf : m.stack = frame :: rest) :
      below <:+ rest := by
    rw [hf] at hs hne
    exact (List.suffix_cons_iff.1 hs).resolve_left fun he => hne he.symm
  cases h with
  | turn hn =>
    obtain ⟨frame, m₀, rfl, ht⟩ := exists_turn hn
    exact (hcons rfl).trans ht.suffix
  | command hr c =>
    rw [hr] at hs hne
    exact absurd (List.suffix_nil.1 hs).symm hne
  | divert hf => exact (hcons hf).trans (List.suffix_cons ..)

/-- A frame stays in its place as long as there is work above it. -/
theorem Step.exists_above {frame : Frame F} {above : List (Frame F)} (h : m.Step m')
    (hs : m.stack = above ++ frame :: below) (ha : above ≠ []) :
    ∃ above', m'.stack = above' ++ frame :: below := by
  have hne : m.stack ≠ frame :: below :=
    fun he => ha (List.append_left_eq_self.1 (hs.symm.trans he))
  obtain ⟨above', ha'⟩ := h.suffix ⟨above, hs.symm⟩ hne
  exact ⟨above', ha'.symm⟩

/-- Work that goes on comes to an end. -/
theorem exists_stack_iterate_next (h : below <:+ m.stack) : ∃ n, (next^[n] m).stack = below := by
  induction m using run.induct with
  | case1 m hr =>
    rw [hr] at h
    exact ⟨0, hr.trans (List.suffix_nil.1 h).symm⟩
  | case2 m hr ih =>
    by_cases hb : m.stack = below
    · exact ⟨0, hb⟩
    · obtain ⟨n, hn⟩ := ih ((Step.turn hr).suffix h hb)
      exact ⟨n + 1, hn⟩

/-- A topic goes out to the observers that are registered for it now. -/
def Delivers (m : Machine F) (o : ObjectId) (t : Topic) : Prop :=
  ∃ below, m.stack = .topic o t ((m.world.graph.registries.get o).select (· = t)) :: below

theorem exists_delivery {o : ObjectId} {t : Topic} {above : List (Frame F)} {ts : List Topic}
    (hl : m.Leads m') (hs : m.stack = above ++ .announce o ts :: below) (ht : t ∈ ts)
    (hb : m'.stack = below) :
    ∃ k, m.Leads k ∧ k.Delivers o t ∧ k.Leads m' := by
  induction hl using Relation.ReflTransGen.head_induction_on generalizing above ts with
  | refl => exact absurd (hs.symm.trans hb) (append_cons_ne _ _ _)
  | @head m m₁ h hl ih =>
    rcases above with - | ⟨frame, above⟩
    · -- The announcement is on top, and takes the next topic.
      cases h with
      | command hr => rw [hr] at hs; cases hs
      | divert hf => cases hs.symm.trans hf
      | turn hn =>
        obtain ⟨world, scripts, stack⟩ := m
        obtain rfl : stack = _ := hs
        obtain ⟨t', ts, rfl⟩ := List.exists_cons_of_ne_nil (List.ne_nil_of_mem ht)
        rcases List.mem_cons.1 ht with rfl | ht
        · exact ⟨_, .single (.turn hn), ⟨_, rfl⟩, hl⟩
        · obtain ⟨k, hk, hd, hk'⟩ := ih (show _ = [_] ++ .announce o ts :: below from rfl) ht
          exact ⟨k, .head (.turn hn) hk, hd, hk'⟩
    · obtain ⟨above', ha⟩ := h.exists_above hs (List.cons_ne_nil frame above)
      obtain ⟨k, hk, hd, hk'⟩ := ih ha ht
      exact ⟨k, .head h hk, hd, hk'⟩

end Machine
end LivePath
