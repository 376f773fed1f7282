import LivePath.Proofs.Registries
import LivePath.Proofs.Stacks

/-!
# Dispatches

Topics of objects, texts of dispatchers and values of trackers are all announced in the same way:
the listeners of a registry that want to hear of it are put into a frame, and take their turns from
there (`Channel`). Between two turns of a dispatch anything may happen above its frame, other
dispatches to the same listeners among it, but the frame itself stays as it is
(`Channel.Turns.pending`). So it is the listeners from the beginning that have their turns, in the
order of their registration, and as keys do not come back, the test whether a key is still in use
tells whether it is still that listener who uses it. The main statement is
`dispatches_in_order_of_registration`.
-/

namespace LivePath
variable {F τ α : Type}

/-- Something that is announced to the listeners of a registry. -/
structure Channel (F τ α : Type) [Foreign F] where
  registry : World F → Registry τ α
  /-- The listeners that have not had their turns yet. -/
  frame : List (Registration τ α) → Frame F
  invoke : Registration τ α → Machine F → Machine F
  registry_empty : registry {} = {}
  leadsTo : ∀ {w w' : World F}, w.LeadsTo w' → (registry w).LeadsTo (registry w')
  frame_injective : Function.Injective frame
  frame_ne_script : ∀ rs cs, frame rs ≠ .script cs
  suffix_invoke : ∀ r m, m.stack <:+ (invoke r m).stack
  turn_nil : ∀ m : Machine F, m.turn (frame []) = m
  turn_cons : ∀ (m : Machine F) r rs, m.turn (frame (r :: rs)) =
    if (registry m.world).contains r.key then invoke r (m.push (frame rs)) else m.push (frame rs)

namespace Channel
variable [Foreign F]

def topic (o : ObjectId) (t : Topic) : Channel F Topic Observer where
  registry w := w.graph.registries.get o
  frame := .topic o t
  invoke r m := match r.listener with
    | .script id => m.call id (.topic · t)
    | .tracker id => m.notifyTracker id
  registry_empty := rfl
  leadsTo h := h.objects o
  frame_injective _ _ h := by cases h; rfl
  frame_ne_script := nofun
  suffix_invoke r m := by
    split
    · exact List.suffix_cons ..
    · simp only [Machine.notifyTracker]
      split
      · split
        · exact List.suffix_refl _
        · exact Machine.suffix_pass m _
      · exact List.suffix_refl _
      · exact List.suffix_refl _
  turn_nil _ := rfl
  turn_cons _ _ _ := rfl

def text (d : DispatcherId) (s : String) : Channel F Int ScriptId where
  registry w := w.dispatchers.get d
  frame := .text d s
  invoke r m := m.call r.listener (.text · s)
  registry_empty := rfl
  leadsTo h := h.dispatchers d
  frame_injective _ _ h := by cases h; rfl
  frame_ne_script := nofun
  suffix_invoke _ _ := List.suffix_cons ..
  turn_nil _ := rfl
  turn_cons _ _ _ := rfl

def change (id : TrackerId) (v : Option Value) : Channel F Unit ScriptId where
  registry w := (w.trackers.get id).listeners
  frame := .change id v
  invoke r m := m.call r.listener (.change · v)
  registry_empty := rfl
  leadsTo h := h.trackers.listeners id
  frame_injective _ _ h := by cases h; rfl
  frame_ne_script := nofun
  suffix_invoke _ _ := List.suffix_cons ..
  turn_nil _ := rfl
  turn_cons _ _ _ := rfl

/-- A dispatch begins, to the listeners whose tags satisfy `p`. -/
def emit (ch : Channel F τ α) (p : τ → Bool) (m : Machine F) : Machine F :=
  m.push (ch.frame ((ch.registry m.world).select p))

end Channel

namespace Machine
variable [Foreign F] {m m' : Machine F}

/-! ### Where dispatches begin -/

theorem notify_text (m : Machine F) (d : DispatcherId) (s : String) (tags : Option (List Int)) :
    m.notify (.text d s tags) = (Channel.text d s).emit (fun tag => tags.all (tag ∈ ·)) m := rfl

theorem turn_announce (m : Machine F) (o : ObjectId) (t : Topic) (ts : List Topic) :
    m.turn (.announce o (t :: ts)) = (Channel.topic o t).emit (· = t) (m.push (.announce o ts)) :=
  rfl

theorem pass_eq_emit {id : TrackerId} {v : Option Value}
    (h : ((m.world.trackers.get id).pass id m.world.graph).2 = some v) :
    m.pass id = (Channel.change id v).emit (fun _ => true)
      { m with
        world := m.world.retrack id ((m.world.trackers.get id).pass id m.world.graph).1
        stack := .handling id :: m.stack } := by
  have hget : (m.world.retrack id ((m.world.trackers.get id).pass id m.world.graph).1).trackers.get
      id = ((m.world.trackers.get id).pass id m.world.graph).1.tracker := Table.get_set_self ..
  simp only [pass, h, Channel.emit, Channel.change, push, hget]
  rfl

end Machine

namespace Channel
variable [Foreign F] {ch : Channel F τ α} {m m' : Machine F} {below : List (Frame F)}
  {r : Registration τ α} {rs : List (Registration τ α)} {ts : List (Registration τ α × Machine F)}

/-! ### Turns of a dispatch -/

theorem next_of_nil (h : m.stack = ch.frame [] :: below) : m.next.stack = below := by
  obtain ⟨world, scripts, stack⟩ := m
  obtain rfl : stack = _ := h
  exact congrArg Machine.stack (ch.turn_nil _)

theorem next_of_cons (h : m.stack = ch.frame (r :: rs) :: below) :
    m.next = if (ch.registry m.world).contains r.key then ch.invoke r
      { m with stack := ch.frame rs :: below }
      else { m with stack := ch.frame rs :: below } := by
  obtain ⟨world, scripts, stack⟩ := m
  obtain rfl : stack = _ := h
  exact ch.turn_cons _ r rs

theorem suffix_next (h : m.stack = ch.frame (r :: rs) :: below) :
    ch.frame rs :: below <:+ m.next.stack := by
  rw [next_of_cons h]
  split
  · exact ch.suffix_invoke r { m with stack := ch.frame rs :: below }
  · exact List.suffix_refl _

/-- A run of a dispatch above `below`, be it over or not, with the states in which its listeners
have their turns. -/
inductive Turns (ch : Channel F τ α) (below : List (Frame F)) :
    Machine F → List (Registration τ α × Machine F) → Machine F → Prop
  | refl (m : Machine F) : Turns ch below m [] m
  | turn {m m' : Machine F} {r : Registration τ α} {rs : List (Registration τ α)}
      {ts : List (Registration τ α × Machine F)} (h : m.stack = ch.frame (r :: rs) :: below)
      (ht : Turns ch below m.next ts m') : Turns ch below m ((r, m) :: ts) m'
  | step {m k m' : Machine F} {ts : List (Registration τ α × Machine F)} (h : m.Step k)
      (hb : m.stack ≠ below)
      (hn : ∀ r rs, m.stack ≠ ch.frame (r :: rs) :: below) (ht : Turns ch below k ts m') :
      Turns ch below m ts m'

namespace Turns

theorem leads_turn (h : ch.Turns below m ts m') :
    ∀ t ∈ ts, m.Leads t.2 ∧ ∃ rs, t.2.stack = ch.frame (t.1 :: rs) :: below := by
  induction h with
  | refl => exact fun t ht => absurd ht List.not_mem_nil
  | @turn m m' r rs ts hs _ ih =>
    refine List.forall_mem_cons.2 ⟨⟨.refl, rs, hs⟩, fun t ht => ?_⟩
    obtain ⟨hl, ht⟩ := ih t ht
    exact ⟨.head (.turn (by rw [hs]; exact List.cons_ne_nil _ _)) hl, ht⟩
  | step h _ _ _ ih =>
    intro t ht
    obtain ⟨hl, ht⟩ := ih t ht
    exact ⟨.head h hl, ht⟩

theorem eq_nil (h : ch.Turns below m ts m') (hs : m.stack = below) : ts = [] ∧ m' = m := by
  cases h with
  | refl => exact ⟨rfl, rfl⟩
  | turn h => exact absurd (h.symm.trans hs) (append_cons_ne [] _ _)
  | step _ hb => exact absurd hs hb

theorem pending {above : List (Frame F)} (h : ch.Turns below m ts m')
    (hs : m.stack = above ++ ch.frame rs :: below) :
    ∃ rs', rs = ts.map Prod.fst ++ rs' ∧
      ((∃ above', m'.stack = above' ++ ch.frame rs' :: below) ∨ rs' = [] ∧ m'.stack = below) := by
  induction h generalizing above rs with
  | refl => exact ⟨rs, rfl, .inl ⟨above, hs⟩⟩
  | @turn m m' r rs₀ ts h ht ih =>
    rcases above with - | ⟨frame, above⟩
    · obtain rfl : rs = r :: rs₀ := ch.frame_injective (List.cons.inj (hs.symm.trans h)).1
      obtain ⟨above', ha⟩ := suffix_next h
      obtain ⟨rs', hrs, hend⟩ := ih ha.symm
      exact ⟨rs', by rw [hrs]; rfl, hend⟩
    · exact absurd (List.cons.inj (hs.symm.trans h)).2 (append_cons_ne _ _ _)
  | @step m k m' ts h hb hn ht ih =>
    by_cases ha : above = []
    · -- The frame is on top, and no listener is left in it.
      subst ha
      cases rs with
      | cons r rs => exact absurd hs (hn r rs)
      | nil =>
        have hk : k.stack = below := by
          cases h with
          | turn => exact next_of_nil hs
          | command hr => rw [hr] at hs; cases hs
          | divert hf => exact absurd (List.cons.inj (hs.symm.trans hf)).1 (ch.frame_ne_script _ _)
        obtain ⟨rfl, rfl⟩ := ht.eq_nil hk
        exact ⟨[], rfl, .inr ⟨rfl, hk⟩⟩
    · obtain ⟨above', ha'⟩ := h.exists_above hs ha
      exact ih ha'

end Turns

theorem exists_turns (ch : Channel F τ α) (hs : below <:+ m.stack) :
    ∃ n ts, ch.Turns below m ts (Machine.next^[n] m) ∧ (Machine.next^[n] m).stack = below := by
  induction m using Machine.run.induct with
  | case1 m hr =>
    rw [hr] at hs
    exact ⟨0, [], .refl m, hr.trans (List.suffix_nil.1 hs).symm⟩
  | case2 m hr ih =>
    by_cases hb : m.stack = below
    · exact ⟨0, [], .refl m, hb⟩
    · obtain ⟨n, ts, ht, hn⟩ := ih ((Machine.Step.turn hr).suffix hs hb)
      by_cases hc : ∃ r rs, m.stack = ch.frame (r :: rs) :: below
      · obtain ⟨r, rs, hc⟩ := hc
        exact ⟨n + 1, (r, m) :: ts, .turn hc ht, hn⟩
      · exact ⟨n + 1, ts, .step (.turn hr) hb (fun r rs h => hc ⟨r, rs, h⟩) ht, hn⟩

theorem leadsTo_of_emit (ch : Channel F τ α) {p : τ → Bool} (hl : (ch.emit p m).Leads m') :
    (ch.registry m.world).LeadsTo (ch.registry m'.world) :=
  ch.leadsTo (w := m.world) hl.leadsTo

/-- What the registry of a channel went through since the run began. -/
theorem exists_history (ch : Channel F τ α) (hm : m.Reachable) :
    ∃ log, Registry.Evolves {} log (ch.registry m.world) := by
  have hl := ch.leadsTo (Machine.Leads.leadsTo hm)
  rw [ch.registry_empty] at hl
  exact hl

/-- In its turn a listener is called if it is still registered, and passed over if it is not. -/
theorem next_of_turn {new : List (Registration τ α)} {r' : Registry τ α} (hr : r'.WellFormed)
    (hm : r ∈ r'.entries) (he : r'.Evolves new (ch.registry m.world))
    (hs : m.stack = ch.frame (r :: rs) :: below) :
    (r ∈ (ch.registry m.world).entries →
      m.next = ch.invoke r { m with stack := ch.frame rs :: below }) ∧
      (r ∉ (ch.registry m.world).entries → m.next = { m with stack := ch.frame rs :: below }) := by
  rw [next_of_cons hs]
  refine ⟨fun h => if_pos (Registry.contains_iff.2 (Registry.mem_keys h)), fun h =>
    if_neg fun hc => h ?_⟩
  exact he.mem_of_key hr hm (Registry.contains_iff.1 hc)

/--
The law of dispatches. Take a registry that any operations led to, with the registrations `log` made
on the way. A dispatch to the listeners that `p` selects comes to its end. Whatever the listeners do
meanwhile, those that have their turns are the ones that were registered with such a tag when the
dispatch began, each once and in the order of their registration, which is how any list of them
comes out when it is sorted by their numbers. In its turn a listener is called if it is still
registered, and else passed over. None that was registered since the dispatch began has a turn, not
even one that was registered before and had been taken back.
-/
theorem dispatches_in_order_of_registration (ch : Channel F τ α) (p : τ → Bool)
    {log : List (Registration τ α)} (hlog : Registry.Evolves {} log (ch.registry m.world)) :
    (∃ n ts, ch.Turns m.stack (ch.emit p m) ts (Machine.next^[n] (ch.emit p m)) ∧
      (Machine.next^[n] (ch.emit p m)).stack = m.stack) ∧
    (∀ l : List (Registration τ α), l.Perm ((ch.registry m.world).select p) →
      l.Pairwise (fun e e' => Registry.number log e ≤ Registry.number log e') →
      l = log.filter fun e => (ch.registry m.world).contains e.key && p e.tag) ∧
    ∀ ts m', ch.Turns m.stack (ch.emit p m) ts m' →
      ts.map Prod.fst <+: log.filter (fun e => (ch.registry m.world).contains e.key && p e.tag) ∧
      (m'.stack = m.stack →
        ts.map Prod.fst = log.filter fun e => (ch.registry m.world).contains e.key && p e.tag) ∧
      (ts.map fun t => t.1.key).Nodup ∧
      (∀ t ∈ ts, ∃ rs, t.2.stack = ch.frame (t.1 :: rs) :: m.stack ∧
        (t.1 ∈ (ch.registry t.2.world).entries →
          t.2.next = ch.invoke t.1 { t.2 with stack := ch.frame rs :: m.stack }) ∧
        (t.1 ∉ (ch.registry t.2.world).entries →
          t.2.next = { t.2 with stack := ch.frame rs :: m.stack })) ∧
      ∀ k, (ch.emit p m).Leads k →
        (∃ new, (ch.registry m.world).Evolves new (ch.registry k.world)) ∧
        ∀ new, (ch.registry m.world).Evolves new (ch.registry k.world) →
          ∀ e ∈ new, e.key ∉ ts.map fun t => t.1.key := by
  have hwf : (ch.registry m.world).WellFormed := hlog.wellFormed Registry.wellFormed_default
  have hstack : (ch.emit p m).stack = [] ++ ch.frame ((ch.registry m.world).select p) :: m.stack :=
    rfl
  rw [← hlog.select_eq p]
  refine ⟨ch.exists_turns (List.suffix_cons ..), fun l hp hs => hlog.eq_select hp hs,
    fun ts m' ht => ?_⟩
  obtain ⟨rest, hrest, hend⟩ := ht.pending hstack
  have hpre : ts.map Prod.fst <+: (ch.registry m.world).select p := ⟨rest, hrest.symm⟩
  -- Whoever has a turn is in the snapshot, and was registered when it was taken.
  have hentry : ∀ t ∈ ts, t.1 ∈ (ch.registry m.world).entries := fun t htm =>
    (List.mem_filter.1 (hpre.subset (List.mem_map_of_mem htm))).1
  have hkeys : (ts.map fun t => t.1.key).Sublist (ch.registry m.world).keys := by
    have hsub := (hpre.sublist.trans List.filter_sublist).map Registration.key
    rw [List.map_map] at hsub
    exact hsub
  refine ⟨hpre, fun hs => ?_, hwf.nodup_keys.sublist hkeys, fun t htm => ?_, fun k hk => ?_⟩
  · rcases hend with ⟨above, ha⟩ | ⟨hnil, -⟩
    · exact absurd (ha.symm.trans hs) (append_cons_ne _ _ _)
    · rw [hrest, hnil, List.append_nil]
  · obtain ⟨hl, rs, hs⟩ := ht.leads_turn t htm
    obtain ⟨new, he⟩ := ch.leadsTo_of_emit hl
    exact ⟨rs, hs, next_of_turn hwf (hentry t htm) he hs⟩
  · refine ⟨ch.leadsTo_of_emit hk, fun new he e hm hmem => ?_⟩
    exact he.fresh hwf e hm (Registry.issued_of_mem (hkeys.subset hmem))

/-- A dispatcher with two listeners, of which the first takes the second back and registers a third
one. -/
def listening : Machine Empty :=
  ((({} : Machine Empty).begin (.act (.create "d" .dispatcher))).begin
    (.listen "first" (.dispatcher "d" 1) 1 [.act (.off "second"),
      .listen "third" (.dispatcher "d" 1) 1 []])).begin
    (.listen "second" (.dispatcher "d" 1) 1 [])

/-- Both listeners of `listening` have their turns, and nobody else. -/
theorem dispatches_in_order_of_registration_listening :
    ∃ n ts, (text 0 "now").Turns [] ((text 0 "now").emit (· = 1) listening) ts
        (Machine.next^[n] ((text 0 "now").emit (· = 1) listening)) ∧
      ts.map Prod.fst = [⟨⟨0, 0⟩, 1, 0⟩, ⟨⟨1, 0⟩, 1, 1⟩] := by
  have hlog : Registry.Evolves {} [⟨⟨0, 0⟩, 1, 0⟩, ⟨⟨1, 0⟩, 1, 1⟩]
      ((text 0 "now" : Channel Empty Int ScriptId).registry listening.world) :=
    .insert (.insert .refl 1 0) 1 1
  obtain ⟨⟨n, ts, ht, hs⟩, -, hall⟩ :=
    dispatches_in_order_of_registration (text 0 "now") (· = 1) hlog
  exact ⟨n, ts, ht, (hall ts _ ht).2.1 hs⟩

/-- Only the first of them is called. -/
example : (Machine.next^[8] ((text 0 "now").emit (· = 1) listening)).stack = [] ∧
    (Machine.next^[8] ((text 0 "now").emit (· = 1) listening)).world.trace =
      [.ran .done, .ran (.truth true), .text "first" "now"] :=
  ⟨rfl, rfl⟩

end Channel
end LivePath
