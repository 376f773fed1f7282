import LivePath.Proofs.Agreement
import LivePath.Proofs.Sights

/-!
# Commands are atomic

Listeners run further commands while an announcement goes on, and those announce in turn, to any
depth. Still every command is carried out as a whole when it begins: contents and answers are as if
all commands of the run had been given one after the other, in the order in which they began, to a
machine without listeners (`Machine.flat`). For between two commands a run delivers announcements
and lets trackers look at the graph, but changes no contents (`Turn.agrees`). What a listener finds
when it is called are the contents after all commands that began before.
-/

namespace LivePath

/-! ### Machines without listeners -/

def Table.map {α : Type} (f : α → α) (t : Table α) : Table α :=
  ⟨t.entries.map f⟩

namespace Table
variable {α : Type} {f : α → α}

@[simp] theorem next_map (t : Table α) : (t.map f).next = t.next := by
  simp [next, map]

theorem get_map [Inhabited α] (h : f default = default) (t : Table α) (i : Nat) :
    (t.map f).get i = f (t.get i) := by
  simp only [get, map, List.getD_eq_getElem?_getD, List.getElem?_map]
  cases t.entries[i]? with
  | none => exact h.symm
  | some a => rfl

end Table

namespace World
variable {F : Type}

/-- The world with every listener removed. -/
def deaf (w : World F) : World F :=
  { w with
    graph := { w.graph with registries := {} }
    trackers := w.trackers.map fun t => { t with listeners := {} }
    dispatchers := w.dispatchers.map fun _ => {} }

/-- Nobody listens to an object or to a dispatcher. -/
structure Unheard (w : World F) : Prop where
  objects (o : ObjectId) : (w.graph.registries.get o).entries = []
  dispatchers (d : DispatcherId) : (w.dispatchers.get d).entries = []

theorem unheard_deaf (w : World F) : w.deaf.Unheard := by
  refine ⟨fun _ => rfl, fun d => ?_⟩
  show ((w.dispatchers.map fun _ => {}).get d).entries = []
  rw [Table.get_map rfl]

theorem Agrees.deaf {w v : World Empty} (h : w.Agrees v) : w.Agrees v.deaf := by
  have htrackers : w.trackers.Agrees v.deaf.trackers := by
    refine ⟨(Table.next_map _).trans h.trackers.next, fun id => ?_⟩
    show (w.trackers.get id).Agrees ((v.trackers.map _).get id)
    rw [Table.get_map rfl]
    exact ⟨(h.trackers.tracker id).accessor, (h.trackers.tracker id).root,
      (h.trackers.tracker id).disposed⟩
  exact { h with
    same := ⟨h.same.objects, h.same.arrays⟩
    trackers := htrackers
    dispatchers := (Table.next_map _).trans h.dispatchers }

theorem likeness_unheard : Likeness (fun _ => False) (fun w w' => w.Agrees w' ∧ w'.Unheard) Eq where
  same h := h.1.same
  objects h := h.1.objects
  accessors h := h.1.accessors
  dispatchers h := h.1.dispatchers
  tracker h := Agrees.likeness.tracker h.1
  bound h _ _ ht := Agrees.likeness.bound h.1 ht
  setArrays h arrays := ⟨Agrees.likeness.setArrays h.1 arrays, h.2.objects, h.2.dispatchers⟩
  setObjects h objects := ⟨Agrees.likeness.setObjects h.1 objects, h.2.objects, h.2.dispatchers⟩
  nameObject h name n := ⟨Agrees.likeness.nameObject h.1 name n, h.2.objects, h.2.dispatchers⟩
  nameAccessor h name a := ⟨Agrees.likeness.nameAccessor h.1 name a, h.2.objects, h.2.dispatchers⟩
  addDispatcher {w w'} h := by
    refine ⟨Agrees.likeness.addDispatcher h.1, h.2.objects, fun d => ?_⟩
    show ((w'.dispatchers.push {}).get d).entries = []
    by_cases hd : d = w'.dispatchers.next
    · rw [hd, Table.get_push_next]
    · rw [Table.get_push_ne _ hd]
      exact h.2.dispatchers d
  logAll h es es' := ⟨Agrees.likeness.logAll h.1 es es', h.2.objects, h.2.dispatchers⟩

end World

namespace Machine

section
variable {F : Type} [Foreign F]

/-- The machine with every listener removed. -/
def deaf (m : Machine F) : Machine F :=
  { m with world := m.world.deaf }

/-- Carries out commands in order, each after every listener was removed. -/
def flat (m : Machine F) : List (Command F) → List Report × Machine F
  | [] => ([], m)
  | c :: cs =>
    ((m.deaf.execute c).1 :: ((m.deaf.execute c).2.flat cs).1, ((m.deaf.execute c).2.flat cs).2)

theorem flat_concat (m : Machine F) (cs : List (Command F)) (c : Command F) :
    m.flat (cs ++ [c]) =
      ((m.flat cs).1 ++ [((m.flat cs).2.deaf.execute c).1], ((m.flat cs).2.deaf.execute c).2) := by
  induction cs generalizing m with
  | nil => rfl
  | cons c' cs ih =>
    rw [List.cons_append, flat, flat, ih]
    rfl

theorem run_of_stack_eq_nil {m : Machine F} (h : m.stack = []) : m.run = m := by
  rw [run, dif_pos h]

theorem run_of_stack_ne_nil {m : Machine F} (h : m.stack ≠ []) : m.run = m.next.run := by
  rw [run, dif_neg h]

theorem run_notify_of_unheard {m : Machine F} (hs : m.stack = []) (hu : m.world.Unheard)
    (notice : Notice) :
    (m.notify notice).run = m := by
  obtain ⟨world, scripts, stack⟩ := m
  obtain rfl : stack = [] := hs
  cases notice with
  | silent => exact run_of_stack_eq_nil rfl
  | topics o ts =>
    show (push ⟨world, scripts, []⟩ (.announce o ts)).run = _
    induction ts with
    | nil =>
      rw [run_of_stack_ne_nil (List.cons_ne_nil _ _)]
      exact run_of_stack_eq_nil rfl
    | cons t ts ih =>
      -- Nobody is registered, so that each topic is over as soon as it begins.
      have hselect : (world.graph.registries.get o).select (· = t) = [] := by
        rw [Registry.select, hu.objects o, List.filter_nil]
      have hnext : (push ⟨world, scripts, []⟩ (.announce o (t :: ts))).next =
          push (push ⟨world, scripts, []⟩ (.announce o ts)) (.topic o t []) := by
        rw [← hselect]
        rfl
      rw [run_of_stack_ne_nil (List.cons_ne_nil _ _), hnext,
        run_of_stack_ne_nil (List.cons_ne_nil _ _)]
      exact ih
  | text d text tags =>
    have hselect : (world.dispatchers.get d).select (fun tag => tags.all (tag ∈ ·)) = [] := by
      rw [Registry.select, hu.dispatchers d, List.filter_nil]
    have hnotify : notify ⟨world, scripts, []⟩ (.text d text tags) =
        push ⟨world, scripts, []⟩ (.text d text []) := by
      rw [← hselect]
      rfl
    rw [hnotify, run_of_stack_ne_nil (List.cons_ne_nil _ _)]
    exact run_of_stack_eq_nil rfl

theorem silent_of_not_onContents {w : World F} {a : Action F} (ha : ¬ a.OnContents) {e : Effect F}
    (h : effectOf w a = .ok e) : e.notice = .silent := by
  cases a with
  | ask question => exact silent_of_map h fun _ => rfl
  | clear on => exact silent_of_map h fun _ => rfl
  | off label => exact silent_of_map h fun _ => rfl
  | tracker name action =>
    refine World.silent_operate h fun v hv => ha ?_
    rw [hv]
    trivial
  | _ => exact absurd trivial ha

end

variable {m m' k : Machine Empty}

theorem agrees_execute_deaf (h : m.world.Agrees k.world) (hs : k.stack = []) (c : Command Empty) :
    (m.perform c).1.world.Agrees (k.deaf.execute c).2.world ∧
      (¬ c.AboutListeners → (k.deaf.execute c).1.answer = (m.perform c).2.1) := by
  have hdeaf : m.world.Agrees k.deaf.afresh.world := { h.deaf with }
  have hunheard : k.deaf.afresh.world.Unheard :=
    ⟨k.world.unheard_deaf.objects, k.world.unheard_deaf.dispatchers⟩
  obtain ⟨hw, ha⟩ := agrees_perform hdeaf c
  have hrest : (k.deaf.afresh.perform c).1.stack = [] := (stack_perform _ c).trans hs
  have hrun : ((k.deaf.afresh.perform c).1.notify (k.deaf.afresh.perform c).2.2).run =
      (k.deaf.afresh.perform c).1 := by
    cases c with
    | listen label source times commands =>
      have hsilent :
          (k.deaf.afresh.perform (.listen label source times commands)).2.2 = .silent := by
        simp only [perform, listen]
        split <;> rfl
      rw [hsilent]
      exact run_of_stack_eq_nil hrest
    | act action =>
      by_cases hc : action.OnContents
      · refine run_notify_of_unheard hrest ?_ _
        have hmatches := World.likeness_unheard.matches_effectOf ⟨hdeaf, hunheard⟩ hc fun _ _ => id
        rcases act_of_matches hmatches with ⟨e, e', he, -, hact⟩ | ⟨f, -, hact⟩
        · rw [perform, hact]
          exact he.world.2
        · rw [perform, hact]
          exact hunheard
      · have hsilent : (k.deaf.afresh.perform (.act action)).2.2 = .silent := by
          simp only [perform, act]
          split
          · next e he => exact silent_of_not_onContents hc he
          · rfl
        rw [hsilent]
        exact run_of_stack_eq_nil hrest
  refine ⟨?_, ha⟩
  rw [show (k.deaf.execute c).2 = _ from hrun]
  exact hw

end Machine

/-! ### Runs -/

namespace World
variable {w v : World Empty}

theorem Agrees.setLeft (h : w.Agrees v) {id : TrackerId}
    (hp : (w.trackers.get id).phase ≠ .disposed) {t : Tracker} (ht : t.Agrees (v.trackers.get id)) :
    Agrees { w with trackers := w.trackers.set id t } v :=
  { h with trackers := h.trackers.setLeft (lt_next_of_phase hp) ht }

theorem Agrees.passLeft (h : w.Agrees v) {id : TrackerId}
    (hp : (w.trackers.get id).phase ≠ .disposed) :
    (w.retrack id ((w.trackers.get id).pass id w.graph).1).Agrees v := by
  have ht := h.trackers.tracker id
  obtain ⟨ho, ha⟩ := Tracker.graph_pass (g := w.graph) id (w.trackers.get id)
  have htracker : ((w.trackers.get id).pass id w.graph).1.tracker.Agrees (v.trackers.get id) := by
    rw [Tracker.tracker_pass]
    refine ⟨ht.accessor, ht.root, ht.disposed.trans ?_⟩
    simpa [Tracker.isDisposed] using hp
  exact { h.setLeft hp htracker with
    same := ⟨h.same.objects.trans ho.symm, h.same.arrays.trans ha.symm⟩ }

end World

namespace Machine
variable {m m' k : Machine Empty} {v : World Empty}

/-- No turn changes contents but one in which a command begins. -/
theorem Turn.agrees {frame : Frame Empty} (h : m.Turn frame m')
    (hf : ∀ c cs, frame ≠ .script (c :: cs)) (hv : m.world.Agrees v) : m'.world.Agrees v := by
  cases h with
  | perform c cs => exact absurd rfl (hf c cs)
  | pass _ _ hp => exact hv.passLeft (by simp [hp])
  | again hp => exact hv.passLeft hp
  | @mark _ _ _ _ id _ hp =>
    have ht := hv.trackers.tracker id
    exact hv.setLeft (by simp [hp]) ⟨ht.accessor, ht.root, ht.disposed⟩
  | @settle id hp =>
    have ht := hv.trackers.tracker id
    refine hv.setLeft hp ⟨ht.accessor, ht.root, ht.disposed.trans ?_⟩
    simpa [Tracker.isDisposed] using hp
  | answer | hear | call => exact { hv with }
  | spent | announce | miss | ignore | skip | finished => exact hv

/-- What a step does to contents: nothing, unless a command begins. -/
theorem Acts.agrees {c : Choice Empty} {s : Option (Sight Empty)} (h : m.Acts c s m')
    (hv : m.world.Agrees v) :
    (s.bind Sight.ran? = none ∧ m'.world.Agrees v) ∨
      ∃ c' : Command Empty, ∃ k : Machine Empty, s = some (.ran c' (k.perform c').2.1) ∧
      k.world.Agrees v ∧ m'.world = (k.perform c').1.world := by
  cases h with
  | divert h cs' => exact .inl ⟨rfl, hv⟩
  | command h c => exact .inr ⟨c, m.afresh, rfl, { hv with }, world_notify ..⟩
  | turn h =>
    obtain ⟨frame, m₀, rfl, ht⟩ := exists_turn h
    by_cases hf : ∃ c cs, frame = .script (c :: cs)
    · obtain ⟨c, cs, rfl⟩ := hf
      exact .inr ⟨c, m₀, rfl, hv, world_notify ..⟩
    · refine .inl ⟨?_, ht.agrees (fun c cs he => hf ⟨c, cs, he⟩) hv⟩
      unfold sight? push
      split
      · next c cs rest hstack => exact absurd ⟨c, cs, (List.cons.inj hstack).1⟩ hf
      · split
        · split <;> rfl
        · rfl
      · split <;> rfl
      · split <;> rfl
      · rfl

/-- The commands of what shows, in the order in which they began. -/
def commandsOf {F : Type} (seen : List (Sight F)) : List (Command F) :=
  (seen.filterMap Sight.ran?).map (·.1)

theorem Unfolds.agrees_flat {cs : List (Choice Empty)} {seen : List (Sight Empty)}
    (h : m.Unfolds cs seen m') (hs : m.stack = []) :
    m'.world.Agrees (m.flat (commandsOf seen)).2.world ∧ (m.flat (commandsOf seen)).2.stack = [] ∧
      List.Forall₂ (fun ran report => ¬ ran.1.AboutListeners → report.answer = ran.2)
        (seen.filterMap Sight.ran?)
        (m.flat (commandsOf seen)).1 := by
  induction h with
  | refl => exact ⟨.refl _, hs, .nil⟩
  | @tail cs seen l l' c s h ha ih =>
    obtain ⟨hw, hrest, hanswers⟩ := ih
    rcases ha.agrees hw with ⟨hnone, hl⟩ | ⟨c', k, rfl, hk, hl⟩
    · -- No command began in this step.
      have hseen : (seen ++ s.toList).filterMap Sight.ran? = seen.filterMap Sight.ran? := by
        cases s with
        | none => simp
        | some x => simpa using hnone
      rw [commandsOf, hseen]
      exact ⟨hl, hrest, hanswers⟩
    · obtain ⟨hw', ha'⟩ := agrees_execute_deaf hk hrest c'
      have hseen : (seen ++ [Sight.ran c' (k.perform c').2.1]).filterMap Sight.ran? =
          seen.filterMap Sight.ran? ++ [(c', (k.perform c').2.1)] := by
        rw [List.filterMap_append]
        rfl
      have hcommands : commandsOf (seen ++ [Sight.ran c' (k.perform c').2.1]) =
          commandsOf seen ++ [c'] := by
        rw [commandsOf, hseen, List.map_append]
        rfl
      rw [Option.toList_some, hcommands, hseen, flat_concat, hl]
      exact ⟨hw', stack_run _, List.rel_append hanswers (.cons ha' .nil)⟩

/--
Contents and answers of a run are those of its commands carried out one after the other, in the
order in which they began, with every listener removed. And whenever a listener is called, the
contents are those after all commands that began before, that of the announcement among them.
-/
theorem commands_atomic {cs : List (Choice Empty)} {seen : List (Sight Empty)}
    (h : m.Unfolds cs seen m') (hs : m.stack = []) :
    m'.world.graph.Same (m.flat (commandsOf seen)).2.world.graph ∧
      List.Forall₂ (fun ran report => ¬ ran.1.AboutListeners → report.answer = ran.2)
        (seen.filterMap Sight.ran?)
        (m.flat (commandsOf seen)).1 ∧
      ∀ before e after, seen = before ++ .heard e :: after →
        ∃ k k' c cs₁ cs₂, m.Unfolds cs₁ before k ∧ k.Acts c (some (.heard e)) k' ∧
        k'.Unfolds cs₂ after m' ∧
          k.world.graph.Same (m.flat (commandsOf before)).2.world.graph := by
  obtain ⟨hw, -, hanswers⟩ := h.agrees_flat hs
  refine ⟨hw.same, hanswers, fun before e after hseen => ?_⟩
  obtain ⟨k, k', c, cs₁, cs₂, h₁, ha, h₂⟩ := h.split hseen
  exact ⟨k, k', c, cs₁, cs₂, h₁, ha, h₂, (h₁.agrees_flat hs).1.same⟩

/-- A model whose listener assigns another attribute of it. -/
def echoing : List (Command Empty) :=
  [.act (.create "m" (.model [])),
    .listen "l" (.topic "m" (.change "x")) 1 [.act (.edit "m" (.set "y" (.bool true)))],
    .act (.edit "m" (.set "x" (.bool true)))]

theorem commands_atomic_echoing : ∃ cs seen, ∃ m : Machine Empty, Unfolds {} cs seen m ∧
    commandsOf seen = echoing ++ [.act (.edit "m" (.set "y" (.bool true)))] ∧
    m.world.graph.Same (flat {} (commandsOf seen)).2.world.graph := by
  have hbegun := ((Unfolds.refl.tail (.command (m := ({} : Machine Empty)) rfl echoing[0])).tail
    (.command rfl echoing[1])).tail (.command rfl echoing[2])
  have hheard := (hbegun.tail (.turn (List.cons_ne_nil _ _))).tail (.turn (List.cons_ne_nil _ _))
  have hran := hheard.tail (.turn (List.cons_ne_nil _ _))
  exact ⟨_, _, _, hran, rfl, (commands_atomic hran rfl).1⟩

end Machine
end LivePath
