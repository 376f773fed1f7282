import LivePath.Proofs.Dispatch
import LivePath.Proofs.HookExactness

/-!
# One handling for each announcement

A tracker whose chain comes to one object several times has several hooks for one topic there, and
an announcement of this topic goes to all of them. The first of these hooks that finds the tracker
waiting makes it handle the announcement. The pass takes back every hook that the tracker had, and
those that it makes instead have keys that were never in use (`not_mem_keys_pass`). So none of the
hooks that the announcement goes to is there any more when its turn comes, whatever went on in
between. The main statement is `handles_each_announcement_once`.
-/

namespace LivePath
variable {F : Type} [Foreign F]

theorem countP_le_one_of_pairwise {α : Type} {p : α → Bool} {xs : List α}
    (h : xs.Pairwise fun x y => p x = true → p y = false) : xs.countP p ≤ 1 := by
  induction xs with
  | nil => exact Nat.zero_le 1
  | cons x xs ih =>
    obtain ⟨hx, hxs⟩ := List.pairwise_cons.1 h
    by_cases hp : p x = true
    · have hnone : xs.countP p = 0 := List.countP_eq_zero.2 fun y hy => by simp [hx y hy hp]
      rw [List.countP_cons_of_pos hp, hnone]
    · rw [List.countP_cons_of_neg hp]
      exact ih hxs

namespace Machine
variable {m m' : Machine F} {id : TrackerId} {o : ObjectId} {t : Topic}

/-- A tracker that waits is made to handle something by the next turn. -/
def enters (m : Machine F) (id : TrackerId) : Bool :=
  (m.world.trackers.get id).phase = .bound ∧ (m.next.world.trackers.get id).phase ≠ .bound

/-- Only a pass through one of its own hooks brings a tracker to handle a topic. -/
theorem Turn.pass_of_phase {r : Registration Topic Observer}
    {pending : List (Registration Topic Observer)} (h : m.Turn (.topic o t (r :: pending)) m')
    (hb : (m.world.trackers.get id).phase = .bound)
    (hn : (m'.world.trackers.get id).phase ≠ .bound) :
    r.listener = .tracker id ∧ m' = (m.push (.topic o t pending)).pass id := by
  cases h with
  | spent hs => cases hs
  | miss | hear | ignore => exact absurd hb hn
  | @pass _ _ _ _ i hl =>
    by_cases hi : id = i
    · subst hi
      exact ⟨hl, rfl⟩
    · refine absurd ?_ hn
      exact (congrArg Tracker.phase (Table.get_set_ne m.world.trackers hi _)).trans hb
  | mark => exact absurd ((Table.apply_get_set Tracker.phase (by rfl) id).trans hb) hn
  | skip ha => cases ha
  | call ha => cases ha

theorem pass_of_enters {r : Registration Topic Observer}
    {pending : List (Registration Topic Observer)} {below : List (Frame F)}
    (hs : m.stack = .topic o t (r :: pending) :: below) (he : m.enters id = true) :
    r.listener = .tracker id ∧
      m.next = pass { m with stack := .topic o t pending :: below } id := by
  obtain ⟨hb, hn⟩ := of_decide_eq_true he
  obtain ⟨world, scripts, stack⟩ := m
  obtain rfl : stack = _ := hs
  exact (turn_turn ⟨world, scripts, below⟩ _).pass_of_phase hb hn

/-- A pass takes back every hook that the tracker had, and hands out none of their keys again. -/
theorem not_mem_keys_pass (h : m.world.Hooked) {r : Registration Topic Observer}
    (hr : r ∈ (m.world.graph.registries.get o).entries) (hl : r.listener = .tracker id) :
    r.key ∉ ((m.pass id).world.graph.registries.get o).keys := by
  obtain ⟨g₁, ps, hread, -, hread'⟩ :=
    Tracker.exists_pass id (m.world.trackers.get id) m.world.graph
  have hgraph : ((m.pass id).world.graph.registries.get o).entries =
      ((g₁.observeAll (.tracker id) ps).2.registries.get o).entries := by
    rw [← hread'.registries]; rfl
  have hback := Graph.LeadsTo.unobserveAll m.world.graph
    ((hooksOf (m.world.trackers.get id).records).map Hook.address)
  intro hk
  obtain ⟨e, he, hkey⟩ := List.mem_map.1 hk
  rw [hgraph, Graph.entries_observeAll, hread.registries] at he
  rcases List.mem_append.1 he with he | he
  · rw [Graph.entries_unobserveAll] at he
    refine of_decide_eq_true (List.mem_filter.1 he).2 ?_
    exact List.mem_map.2 ⟨_, h.graph.mem_hooks hr hl, by rw [Hook.address, hkey]⟩
  · -- A new hook has a key that had not been issued, but the old one's had.
    have hkeyed : g₁.Keyed := fun o' => hread.registries ▸ hback.keyed h.graph.keyed o'
    refine (Graph.keys_observeAll hkeyed (.tracker id) ps).1 _ (mem_registrationsOn.1 he).2 ?_
    rw [hread.registries]
    exact (hback o).issued _ (hkey ▸ Registry.issued_of_mem (Registry.mem_keys hr))

end Machine

namespace Channel
variable {τ α : Type} {ch : Channel F τ α} {m m' : Machine F} {below : List (Frame F)}
  {ts : List (Registration τ α × Machine F)}

theorem next_of_gone (ch : Channel F τ α) {r : Registration τ α} {rs : List (Registration τ α)}
    (hs : m.stack = ch.frame (r :: rs) :: below)
    (hc : (ch.registry m.world).contains r.key = false) :
    m.next = { m with stack := ch.frame rs :: below } := by
  rw [next_of_cons hs, if_neg (by rw [hc]; exact Bool.false_ne_true)]

theorem Turns.pairwise_leads (h : ch.Turns below m ts m') :
    ts.Pairwise fun u u' => u.2.next.Leads u'.2 := by
  induction h with
  | refl => exact .nil
  | turn hs ht ih => exact List.pairwise_cons.2 ⟨fun u hu => (ht.leads_turn u hu).1, ih⟩
  | step _ _ _ _ ih => exact ih

end Channel

namespace Machine
variable {m m' : Machine F} {o : ObjectId} {t : Topic}

/-- A hook that an announcement goes to is not there any more once its tracker handled the
announcement. -/
theorem contains_of_handled {j k : Machine F} {id : TrackerId} {r₁ r : Registration Topic Observer}
    {pending : List (Registration Topic Observer)} {below : List (Frame F)} (hm : m.Reachable)
    (hr : r ∈ (m.world.graph.registries.get o).entries) (hl : r.listener = .tracker id)
    (hj : m.Leads j) (hs : j.stack = .topic o t (r₁ :: pending) :: below) (he : j.enters id = true)
    (hk : j.next.Leads k) :
    (k.world.graph.registries.get o).contains r.key = false := by
  have hjm : j.Reachable := hm.leads hj
  have hkeyed := hm.hooked.graph.keyed o
  have hissued := Registry.issued_of_mem (Registry.mem_keys hr)
  have hmj : (m.world.graph.registries.get o).LeadsTo (j.world.graph.registries.get o) :=
    (Leads.leadsTo hj).objects o
  have hjn : (j.world.graph.registries.get o).LeadsTo (j.next.world.graph.registries.get o) :=
    (Leads.leadsTo j.leads_next).objects o
  have hnk : (j.next.world.graph.registries.get o).LeadsTo (k.world.graph.registries.get o) :=
    (Leads.leadsTo hk).objects o
  -- The pass takes out the hooks that its tracker has at that time, and a key that was taken out
  -- before does not come back.
  have hgone : r.key ∉ (j.next.world.graph.registries.get o).keys := by
    by_cases hmem : r.key ∈ (j.world.graph.registries.get o).keys
    · obtain ⟨log, hlog⟩ := hmj
      rw [(pass_of_enters hs he).2]
      exact not_mem_keys_pass (m := { j with stack := _ }) hjm.hooked
        (hlog.mem_of_key hkeyed hr hmem) hl
    · exact hjn.gone (hmj.wellFormed hkeyed) _ (hmj.issued _ hissued) hmem
  rw [← Bool.not_eq_true, Registry.contains_iff]
  have hmn := hmj.trans hjn
  exact hnk.gone (hmn.wellFormed hkeyed) _ (hmn.issued _ hissued) hgone

/--
An object announces a topic, in any state of any run. Of the turns that the listeners to it have, be
the dispatch over or not, at most one brings a given tracker from waiting to handling, and this is
the turn of one of its own hooks. From then on no other hook of the tracker that the announcement
goes to is registered when its turn comes, however often the chain of the tracker visits the object;
so it is passed over.
-/
theorem handles_each_announcement_once (hm : m.Reachable) {topics : List Topic}
    {below : List (Frame F)} (hs : m.stack = .announce o (t :: topics) :: below)
    {ts : List (Registration Topic Observer × Machine F)}
    (h : (Channel.topic o t).Turns (.announce o topics :: below) m.next ts m') (id : TrackerId) :
    ts.map Prod.fst <+: (m.world.graph.registries.get o).select (· = t) ∧
    ts.countP (fun u => u.2.enters id) ≤ 1 ∧
    (∀ u ∈ ts, u.2.enters id = true → u.1.listener = .tracker id) ∧
    ts.Pairwise fun u u' => u.2.enters id = true → u'.1.listener = .tracker id →
      (u'.2.world.graph.registries.get o).contains u'.1.key = false ∧
      ∃ pending, u'.2.stack = .topic o t (u'.1 :: pending) :: .announce o topics :: below ∧
        u'.2.next = { u'.2 with stack := .topic o t pending :: .announce o topics :: below } := by
  obtain ⟨world, scripts, stack⟩ := m
  obtain rfl : stack = _ := hs
  obtain ⟨rest, hrest, -⟩ := h.pending (show _ = [] ++ _ from rfl)
  have hsnapshot : ∀ u ∈ ts, u.1 ∈ (world.graph.registries.get o).entries := by
    intro u hu
    have hmem := List.mem_append_left rest (List.mem_map_of_mem (f := Prod.fst) hu)
    rw [← hrest] at hmem
    exact (List.mem_filter.1 hmem).1
  have hleads : ∀ u ∈ ts, Leads ⟨world, scripts, _⟩ u.2 := fun u hu =>
    (leads_next _).trans (h.leads_turn u hu).1
  have hgone : ts.Pairwise fun u u' => u.2.enters id = true → u'.1.listener = .tracker id →
      (u'.2.world.graph.registries.get o).contains u'.1.key = false := by
    refine h.pairwise_leads.imp_of_mem fun {u u'} hu hu' hl he hlistener => ?_
    obtain ⟨pending, hsu⟩ := (h.leads_turn u hu).2
    exact contains_of_handled hm (hsnapshot u' hu') hlistener (hleads u hu) hsu he hl
  -- A turn that makes the tracker begin a pass is one of its own hooks, still registered.
  have hself : ∀ u ∈ ts, u.2.enters id = true → u.1.listener = .tracker id ∧
      (u.2.world.graph.registries.get o).contains u.1.key = true := by
    intro u hu he
    obtain ⟨pending, hsu⟩ := (h.leads_turn u hu).2
    refine ⟨(pass_of_enters hsu he).1, ?_⟩
    by_contra hc
    obtain ⟨hb, hn⟩ := of_decide_eq_true he
    rw [Channel.next_of_gone (.topic o t) hsu (Bool.not_eq_true _ ▸ hc)] at hn
    exact hn hb
  refine ⟨⟨rest, hrest.symm⟩, countP_le_one_of_pairwise ?_, fun u hu he => (hself u hu he).1, ?_⟩
  · refine hgone.imp_of_mem fun {u u'} hu hu' hg he => ?_
    by_contra he'
    rw [Bool.not_eq_false] at he'
    obtain ⟨hl, hc⟩ := hself u' hu' he'
    rw [hg he hl] at hc
    cases hc
  · refine hgone.imp_of_mem fun {u u'} _ hu' hg he hl => ⟨hg he hl, ?_⟩
    obtain ⟨pending, hsu⟩ := (h.leads_turn u' hu').2
    exact ⟨pending, hsu, Channel.next_of_gone (.topic o t) hsu (hg he hl)⟩

/-- A model that contains itself, with a tracker whose chain visits it twice. -/
def looping : Machine Empty :=
  (((({} : Machine Empty).begin (.act (.create "m" (.model [])))).begin
      (.act (.edit "m" (.set "self" (.reference "m"))))).next.next.next).begin
    (.act (.tracker "t"
      (.track (.reference "m") (.nodes ⟨[⟨.attr "self", "self", 0⟩, ⟨.attr "self", ".self", 4⟩]⟩))))

theorem reachable_looping : looping.Reachable := by
  have hset := ((reachable_empty (F := Empty)).begin rfl (.act (.create "m" (.model [])))).begin rfl
    (.act (.edit "m" (.set "self" (.reference "m"))))
  have hrest := ((hset.leads (leads_next _)).leads (leads_next _)).leads (leads_next _)
  exact hrest.begin rfl _

/-- The tracker of `looping` has two hooks for its link, both have their turns, and at most one
makes it handle. -/
theorem handles_each_announcement_once_looping :
    let m := looping.begin (.act (.edit "m" (.set "self" (.bool true))))
    m.Reachable ∧ m.stack = [.announce 0 [.change "self"]] ∧
    ∃ ts m', (Channel.topic 0 (.change "self")).Turns [.announce 0 []] m.next ts m' ∧
      m'.stack = [.announce 0 []] ∧
      ts.map (fun u => u.1.listener) = [.tracker 0, .tracker 0] ∧
      ts.countP (fun u => u.2.enters 0) ≤ 1 := by
  intro m
  have hm : m.Reachable := reachable_looping.begin rfl _
  have hs : [.announce 0 []] <:+ m.next.stack := ⟨[_], rfl⟩
  obtain ⟨n, ts, ht, hn⟩ := (Channel.topic 0 (.change "self")).exists_turns hs
  obtain ⟨rest, hrest, ⟨above, ha⟩ | ⟨rfl, -⟩⟩ := ht.pending (show _ = [] ++ _ from rfl)
  · exact absurd (ha.symm.trans hn) (append_cons_ne _ _ _)
  · have hlisteners := congrArg (List.map Registration.listener) hrest
    rw [List.append_nil, List.map_map] at hlisteners
    exact ⟨hm, rfl, ts, _, ht, hn, hlisteners.symm,
      (handles_each_announcement_once hm rfl ht 0).2.1⟩

/-- The first hook makes it handle the change, and the second one is gone. -/
example :
    let m := looping.begin (.act (.edit "m" (.set "self" (.bool true))))
    (next^[1] m).enters 0 = true ∧ (next^[2] m).stack.length = 3 ∧ (next^[3] m).enters 0 = false :=
  ⟨rfl, rfl, rfl⟩

end Machine
end LivePath
