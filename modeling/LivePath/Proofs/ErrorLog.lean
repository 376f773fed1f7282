import LivePath.Proofs.Passes

/-!
# What is logged as an error

Every error in the log of a machine tells of a walk that came to a value of the wrong kind
(`Reachable.explained`). In particular no pass ever reports that the records of its tracker differ
from the dependencies of the chain: the two messages end in different letters
(`Explained.not_mismatch`).
-/

namespace LivePath

/-- A tracker reports that it holds other records than its chain depends on. -/
def LogEntry.IsMismatch (e : LogEntry) : Prop :=
  ∃ (t : Tracker) (held needed : Nat),
    e = t.log .error s!"holds {held} records, the chain depends on {needed} objects"

/-! ### Last letters -/

theorem getLast?_append {a b : String} {c : Char} (h : b.toList.getLast? = some c) :
    (a ++ b).toList.getLast? = some c := by
  rw [String.toList_append, List.getLast?_append, h]; rfl

theorem getLast?_log (t : Tracker) (level : Level) {what : String} {c : Char}
    (h : what.toList.getLast? = some c) :
    (t.log level what).message.toList.getLast? = some c :=
  getLast?_append h

/-- No name of a kind is a plural. -/
theorem Kind.exists_getLast? (kind : Kind) : ∃ c, kind.name.toList.getLast? = some c ∧ c ≠ 's' := by
  cases kind <;> exact ⟨_, rfl, by decide⟩

theorem LogEntry.Explained.not_mismatch {e : LogEntry} (h : e.Explained) : ¬ e.IsMismatch := by
  rintro ⟨t, held, needed, rfl⟩
  obtain ⟨t', node, kind, he⟩ := h rfl
  obtain ⟨c, hc, hne⟩ := kind.exists_getLast?
  have hs : (t.log .error
      s!"holds {held} records, the chain depends on {needed} objects").message.toList.getLast? =
        some 's' := getLast?_log t .error (getLast?_append (b := " objects") rfl)
  have hk : (t'.log .error
      s!"-> {(AccessError.typeMismatch node kind).message}").message.toList.getLast? = some c :=
    getLast?_log t' .error (getLast?_append (getLast?_append hc))
  rw [he, hk] at hs
  exact hne (Option.some.inj hs)

/-! ### Machines -/

namespace World
variable {w w' : World Empty}

def Explained (w : World Empty) : Prop :=
  ∀ e, .logged e ∈ w.trace → e.Explained

theorem Explained.logAll (h : w.Explained) {es : List LogEntry} (hes : ∀ e ∈ es, e.Explained) :
    (w.logAll es).Explained := by
  intro e he
  rcases List.mem_append.1 he with he | he
  · obtain ⟨e', he', hee⟩ := List.mem_map.1 (List.mem_reverse.1 he)
    cases hee; exact hes e he'
  · exact h e he

theorem Explained.record (h : w.Explained) {event : Event} (he : ∀ e, event ≠ .logged e) :
    (w.record event).Explained := by
  intro e hm
  rcases List.mem_cons.1 hm with hm | hm
  · exact absurd hm.symm (he e)
  · exact h e hm

theorem explained_of_level {es : List LogEntry} (h : ∀ e ∈ es, e.level ≠ .error) :
    ∀ e ∈ es, e.Explained :=
  fun e he hl => absurd hl (h e he)

theorem Move.explained (hm : Move w w') (h : w.Explained) : w'.Explained := by
  cases hm with
  | log hes => exact h.logAll (explained_of_level hes)
  | @bind name a root t es g hb hr =>
    obtain ⟨_, _, _, _, _, _, _, _, _, hes⟩ := Tracker.exists_bind_ok hb
    have hw : Explained { w with trackers := w.trackers.push t, graph := g } := h
    exact hw.logAll (explained_of_level hes)
  | @dispose id hid =>
    have hw : Explained { w with
        trackers := w.trackers.set id ((w.trackers.get id).dispose w.graph).tracker
        graph := ((w.trackers.get id).dispose w.graph).graph } := h
    exact hw.logAll (explained_of_level (Tracker.level_dispose _ _))
  | _ => exact h

theorem Moves.explained (hm : Moves w w') (h : w.Explained) : w'.Explained := by
  induction hm with
  | refl => exact h
  | tail _ hm ih => exact hm.explained ih

theorem Does.explained {notice : Notice} (hd : w.Does w' notice) (h : w.Explained) :
    w'.Explained := by
  cases hd with
  | moves hm => exact Moves.explained hm h
  | mutates hm => exact hm.explained h

theorem Explained.pass (h : w.Explained) (id : TrackerId) :
    (w.retrack id ((w.trackers.get id).pass id w.graph).1).Explained := by
  have hw : Explained { w with
      trackers := w.trackers.set id ((w.trackers.get id).pass id w.graph).1.tracker
      graph := ((w.trackers.get id).pass id w.graph).1.graph } := h
  exact hw.logAll (Tracker.passed_pass id (w.trackers.get id) w.graph).log

end World

namespace Machine
variable {m m' : Machine Empty}

theorem Turn.explained {frame : Frame Empty} (ht : m.Turn frame m') (h : m.world.Explained) :
    m'.world.Explained := by
  cases ht with
  | perform c cs => rw [world_notify]; exact (m.does_perform c).explained h
  | answer => exact h.record nofun
  | hear => exact h.record nofun
  | call _ _ he => exact h.record (he _)
  | pass | again => exact h.pass _
  | _ => exact h

theorem Step.explained (hs : m.Step m') (h : m.world.Explained) : m'.world.Explained := by
  cases hs with
  | turn hn =>
    obtain ⟨frame, m₀, rfl, ht⟩ := exists_turn hn
    exact ht.explained h
  | command _ c =>
    rw [begin, world_notify]; exact (m.afresh.does_perform c).explained fun e he =>
      absurd he List.not_mem_nil
  | divert => exact h

theorem Reachable.explained (h : m.Reachable) : m.world.Explained :=
  h.rec_step nofun fun _ _ => Step.explained

end Machine
end LivePath
