import LivePath.Proofs.TwinMachines

/-!
# Visits

Strangers give commands that are about trackers and those who listen to them (`Command.Passive`), at
rest or while a listener is running. A visit leaves the second of two twins a twin of the first
(`Twin.visit`): nothing is announced, and whatever is registered or taken back belongs to a
stranger.
-/

namespace LivePath

/-! ### Commands of strangers -/

/--
Commands that leave everything alone but trackers and who listens to them. To bind a tracker to a
new array would be to make an array.
-/
def Command.Passive {F : Type} : Command F → Prop
  | .act (.tracker _ (.track root _)) => ∀ items, root ≠ .list items
  | .act (.tracker _ (.set _)) => False
  | .act (.tracker ..) => True
  | .act (.off _) => True
  | .listen _ (.tracker _) _ commands => commands = []
  | _ => False

/-- Strangers came, with keys of their own. The new ones have the numbers from `n` to `n'`. -/
structure Pairing.Admits (P P' : Pairing) (n n' : TrackerId) : Prop where
  grows : P.Grows P'
  script : P'.script = P.script
  mute : P'.mute = P.mute
  crowd (j : TrackerId) : P'.crowd j ↔ P.crowd j ∨ n ≤ j ∧ j < n'

theorem Pairing.Admits.refl (P : Pairing) (n : TrackerId) : P.Admits P n n where
  grows := .refl P
  script := rfl
  mute := rfl
  crowd _ := (or_iff_left fun hj => Nat.lt_irrefl _ (Nat.lt_of_le_of_lt hj.1 hj.2)).symm

namespace World

theorem evaluate_eq_self {w w' : World Empty} {t : Term} {v : Value}
    (h : w.evaluate t = .ok (v, w')) (ht : ∀ items, t ≠ .list items) : w' = w := by
  cases t with
  | list items => exact absurd rfl (ht items)
  | reference name =>
    rw [evaluate] at h
    split at h
    · cases h
      rfl
    · cases h
  | _ =>
    cases h
    rfl

theorem world_evaluateTracker (w : World Empty) (id : TrackerId) :
    (w.evaluateTracker id).2 = w.logAll (w.trackers.get id).usedAfterDispose := by
  rw [evaluateTracker, Graph.get_eq]

namespace Twin
variable {reserved : String → Prop} {P P' : Pairing} {w w' : World Empty}

theorem crowd_tracker (h : Twin reserved P w w') {name : String} (hname : reserved name)
    {j : TrackerId} (hj : w'.tracker name = .ok j) : P.crowd j :=
  h.names.of_find hname hj

theorem visit_track (h : Twin reserved P w w') {name : String} (hname : reserved name)
    (a : Accessor) (root : Value) :
    ∃ P', P.Admits P' w'.trackers.next (w'.track name a root).world.trackers.next ∧
      Twin reserved P' w (w'.track name a root).world := by
  have hjoin := P.grows_joinCrowd w'.trackers.next
  rw [World.track]
  rcases (h.graph.grow hjoin rfl rfl).bindStranger (.inr rfl) a root with
    ⟨e, hb⟩ | ⟨t, es, g, O, hb, hO, hg, ht⟩
  · rw [hb]
    exact ⟨P, .refl P _, h⟩
  · rw [hb]
    have hown : P.Grows { P with own := O } := { Pairing.Grows.refl P with own := hO.own }
    have hgrows := hjoin.trans hO
    have htrackers := (h.trackers.grow hown rfl rfl).pushStranger ht
    refine ⟨_, ⟨hgrows, rfl, rfl, fun j => ?_⟩, { h with
      graph := hg
      trackers := htrackers
      dispatcher := fun d => (h.dispatcher d).mono hgrows
      names := .alien ⟨hname, .inr rfl⟩ (h.names.mono (fun _ _ => hgrows.tracker)
        fun _ => hgrows.crowd)
      subscriptions := h.subscriptions.mono (fun _ _ hs => hs.mono hgrows) fun _ => id }⟩
    show P.crowd j ∨ j = w'.trackers.next ↔ P.crowd j ∨ w'.trackers.next ≤ j ∧
      j < (w'.trackers.push t).next
    rw [Table.next_push]
    refine or_congr_right ⟨fun he => ?_, fun hj => Nat.le_antisymm (Nat.le_of_lt_succ hj.2) hj.1⟩
    rw [he]
    exact ⟨Nat.le_refl _, Nat.lt_succ_self _⟩

theorem visit_operate (h : Twin reserved P w w') {name : String} {action : TrackerAction}
    {e : Effect Empty} (hn : ∀ x ∈ (Action.tracker (F := Empty) name action).names, reserved x)
    (hp : (Command.act (F := Empty) (.tracker name action)).Passive)
    (he : w'.operate name action = .ok e) :
    ∃ P', P.Admits P' w'.trackers.next e.world.trackers.next ∧ Twin reserved P' w e.world := by
  -- The name is a stranger's, and so is its tracker: whatever becomes of it has no counterpart in
  -- `w`.
  have hname : reserved name := by
    refine hn name ?_
    cases action <;> exact List.mem_cons_self ..
  cases action with
  | track root route =>
    obtain ⟨a, -, ha⟩ := exists_of_bind he
    obtain ⟨⟨value, w₁⟩, hroot, hw⟩ := exists_of_bind ha
    cases hw
    have hself : w₁ = w' := evaluate_eq_self hroot hp
    rw [hself]
    exact h.visit_track hname a value
  | clone other =>
    obtain ⟨j, hj, he⟩ := exists_of_bind he
    cases he
    have hcrowd := h.crowd_tracker hname hj
    have hother : reserved other := hn other (List.mem_cons_of_mem _ (List.mem_cons_self ..))
    obtain ⟨hm, hnext⟩ := h.modifyStranger hcrowd (fun t => { t with handles := t.handles + 1 })
      fun t ht => ⟨ht.hooks, ht.listeners⟩
    refine ⟨P, hnext ▸ .refl P _, { hm with names := .alien ⟨hother, hcrowd⟩ h.names }⟩
  | drop =>
    obtain ⟨j, hj, he⟩ := exists_of_bind he
    cases he
    obtain ⟨hm, hnext⟩ :=
      h.modifyStranger (h.crowd_tracker hname hj) (fun t => { t with handles := t.handles - 1 })
        fun t ht => ⟨ht.hooks, ht.listeners⟩
    exact ⟨P, hnext ▸ .refl P _, { hm with names := h.names.eraseP_reserved hname }⟩
  | dispose =>
    obtain ⟨j, hj, he⟩ := exists_of_bind he
    cases he
    have hcrowd := h.crowd_tracker hname hj
    obtain ⟨hgraph, htracker⟩ := (h.trackers.strange hcrowd).dispose h.graph
    have hw := (h.setGraph (.refl P) rfl rfl hgraph).setTrackers
      (h.trackers.setStranger hcrowd htracker)
    have hnext := Table.next_set_of_lt w'.trackers (h.trackers.lt_strange hcrowd)
      ((w'.trackers.get j).dispose w'.graph).tracker
    exact ⟨P, hnext ▸ .refl P _, { hw with }⟩
  | get | hasValue =>
    obtain ⟨j, hj, he⟩ := exists_of_bind he
    cases he
    have hw : Twin reserved P w (w'.evaluateTracker j).2 := by
      rw [world_evaluateTracker]
      exact { h with }
    have hnext : (w'.evaluateTracker j).2.trackers.next = w'.trackers.next := by
      rw [world_evaluateTracker]; rfl
    exact ⟨P, hnext ▸ .refl P _, hw⟩
  | observed | isDisposed =>
    obtain ⟨j, hj, he⟩ := exists_of_bind he
    cases he
    exact ⟨P, .refl P _, h⟩
  | set v => exact hp.elim

theorem visit_listen (h : Twin reserved P w w') {label on : String} (hlabel : reserved label)
    (hon : reserved on) {script : ScriptId} (hs : P.mute script) {w₁ : World Empty}
    {answer : Answer} (he : w'.listen label script (.tracker on) = .ok (w₁, answer)) :
    P.Admits P w'.trackers.next w₁.trackers.next ∧ Twin reserved P w w₁ := by
  obtain ⟨j, hj, hw⟩ := exists_of_bind he
  cases hw
  obtain ⟨hm, hnext⟩ := h.modifyStranger (h.crowd_tracker hon hj)
    (fun t => { t with listeners := t.listeners.insert () script }) fun t ht =>
      ⟨ht.hooks, List.forall_mem_append.2 ⟨ht.listeners, List.forall_mem_singleton.2 hs⟩⟩
  refine ⟨hnext ▸ .refl P _,
    { hm with subscriptions := .alien ⟨hlabel, on, _, hon, rfl⟩ h.subscriptions }⟩

theorem visit_off (h : Twin reserved P w w') {label : String} (hlabel : reserved label)
    {w₁ : World Empty} {answer : Answer} (he : w'.off label = .ok (w₁, answer)) :
    P.Admits P w'.trackers.next w₁.trackers.next ∧ Twin reserved P w w₁ := by
  obtain ⟨s, hs, hoff⟩ := exists_of_bind he
  obtain ⟨name, k, hname, rfl⟩ := h.subscriptions.of_find hlabel hs
  obtain ⟨j, hj, hw⟩ := exists_of_bind hoff
  cases hw
  have herase (t : Tracker) (ht : t.Strange P) :
      { t with listeners := t.listeners.erase k }.Strange P := by
    refine ⟨ht.hooks, fun r hr => ht.listeners r ?_⟩
    rw [Registry.entries_erase] at hr
    exact List.mem_of_mem_filter hr
  obtain ⟨hm, hnext⟩ := h.modifyStranger (h.crowd_tracker hname hj) _ herase
  exact ⟨hnext ▸ .refl P _, hm⟩

end Twin
end World

namespace Machine
variable {reserved : String → Prop} {P P' : Pairing} {m n : Machine Empty}

/-! ### Visits -/

/-- A stranger gives a command, at rest or while a listener is running, and waits until it is
answered. -/
def visit (m : Machine Empty) (c : Command Empty) : Machine Empty :=
  match m.stack with
  | .script cs :: rest => { m with stack := .script (c :: cs) :: rest }.next.next
  | _ => m.begin c

theorem silent_of_passive {c : Command Empty} (hc : c.Passive) (m : Machine Empty) :
    (m.perform c).2.2 = .silent := by
  cases c with
  | listen label source times commands =>
    simp only [perform, listen]
    split <;> rfl
  | act action =>
    simp only [perform, act]
    split
    · next e he =>
      cases action with
      | tracker name action =>
        refine World.silent_operate he fun v hv => ?_
        rw [hv] at hc
        exact hc
      | off label => exact silent_of_map he fun _ => rfl
      | _ => exact hc.elim
    · rfl

theorem perform_push (m : Machine Empty) (f : Frame Empty) (c : Command Empty) :
    (m.push f).perform c = ((m.perform c).1.push f, (m.perform c).2) := by
  cases c with
  | act action =>
    simp only [perform, act, push]
    split <;> rfl
  | listen label source times commands =>
    simp only [perform, listen, push]
    split <;> rfl

/-- Twins again, after strangers came with the trackers from number `next` on. -/
def Joined (reserved : String → Prop) (P : Pairing) (next : TrackerId) (m n : Machine Empty) :
    Prop :=
  ∃ P', (∀ j, P'.crowd j ↔ P.crowd j ∨ next ≤ j ∧ j < n.world.trackers.next) ∧ m.Twin reserved P' n

namespace Twin

theorem joined (h : m.Twin reserved P n) (hP : P.Grows P') {w : World Empty}
    {ss : Table (Script Empty)} (hs : P'.Scripts m.scripts ss) {P'' : Pairing}
    (hadmits : P'.Admits P'' n.world.trackers.next w.trackers.next)
    (hw : m.world.Twin reserved P'' w) (hcrowd : P'.crowd = P.crowd) :
    Joined reserved P n.world.trackers.next m { n with world := w, scripts := ss } := by
  refine ⟨P'', fun j => ?_, hw, hs.grow hadmits.script hadmits.mute,
    h.stack.mono (hP.trans hadmits.grows)⟩
  rw [hadmits.crowd, hcrowd]

theorem listen_passive (h : m.Twin reserved P n) {label on : String} (hlabel : reserved label)
    (hon : reserved on) (times : Nat) :
    Joined reserved P n.world.trackers.next m (n.listen label (.tracker on) times []).1 := by
  have hgrows := P.grows_silence n.scripts.next
  have hw := h.world.grow hgrows rfl rfl rfl rfl
  have hs : (P.silence n.scripts.next).Scripts m.scripts
      (n.scripts.push { label, times, commands := [] }) :=
    h.scripts.pushStranger rfl
  simp only [listen]
  split
  · next w answer he =>
    obtain ⟨hadmits, hw'⟩ := hw.visit_listen hlabel hon (.inr rfl) he
    exact h.joined hgrows hs hadmits hw' rfl
  · exact h.joined hgrows hs (.refl _ _) hw rfl

theorem act_passive (h : m.Twin reserved P n) {action : Action Empty}
    (hp : (Command.act action).Passive) (hn : ∀ x ∈ action.names, reserved x) :
    Joined reserved P n.world.trackers.next m (n.act action).1 := by
  simp only [act]
  split
  · next e he =>
    have hvisit : ∃ P', P.Admits P' n.world.trackers.next e.world.trackers.next ∧
        m.world.Twin reserved P' e.world := by
      cases action with
      | tracker name action => exact h.world.visit_operate hn hp he
      | off label =>
        rcases hoff : n.world.off label with f | ⟨w, answer⟩
        · rw [effectOf, hoff] at he
          cases he
        · rw [effectOf, hoff] at he
          cases he
          exact ⟨P, h.world.visit_off (hn label (List.mem_singleton.2 rfl)) hoff⟩
      | _ => exact hp.elim
    obtain ⟨P', hadmits, hw⟩ := hvisit
    exact h.joined (.refl P) h.scripts hadmits hw rfl
  · exact h.joined (.refl P) h.scripts (.refl _ _) h.world rfl

/-- A command of a stranger leaves the second machine a twin. -/
theorem perform_passive (h : m.Twin reserved P n) {c : Command Empty} (hc : c.Passive)
    (hn : ∀ x ∈ c.names, reserved x) :
    Joined reserved P n.world.trackers.next m (n.perform c).1 := by
  cases c with
  | act action => exact h.act_passive hc hn
  | listen label source times commands =>
    cases source with
    | tracker on =>
      obtain rfl : commands = [] := hc
      exact h.listen_passive (hn label (List.mem_cons_self ..))
        (hn on (List.mem_cons_of_mem _ (List.mem_cons_self ..))) times
    | _ => exact hc.elim

theorem visit (h : m.Twin reserved P n) {c : Command Empty} (hc : c.Passive)
    (hn : ∀ x ∈ c.names, reserved x) :
    Joined reserved P n.world.trackers.next m (n.visit c) := by
  obtain ⟨world, scripts, stack⟩ := n
  unfold Machine.visit
  split
  · next cs rest hstack =>
    obtain rfl : stack = _ := hstack
    have hnext : (⟨world, scripts, .script (c :: cs) :: rest⟩ : Machine Empty).next =
        (((perform ⟨world, scripts, rest⟩ c).1.push (.script cs)).push
          (.finish (perform ⟨world, scripts, rest⟩ c).2.1)) := by
      show Machine.notify _ (perform ⟨world, scripts, rest⟩ c).2.2 = _
      rw [silent_of_passive hc]
      rfl
    have hperform : (⟨world, scripts, .script cs :: rest⟩ : Machine Empty).perform c = _ :=
      perform_push ⟨world, scripts, rest⟩ (.script cs) c
    have hjoined := h.perform_passive hc hn
    rw [hperform] at hjoined
    obtain ⟨P', hcrowd, htwin⟩ := hjoined
    rw [hnext]
    exact ⟨P', hcrowd, { htwin with world := { htwin.world with } }⟩
  · have hafresh : m.Twin reserved P (afresh ⟨world, scripts, stack⟩) :=
      { h with world := { h.world with } }
    rw [begin, silent_of_passive hc]
    exact hafresh.perform_passive hc hn

end Twin

end Machine
end LivePath
