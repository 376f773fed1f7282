import LivePath.Proofs.Lifetimes
import Mathlib.Logic.Function.Basic

/-!
# Registrations of trackers

The registrations of a tracker on the objects of a graph are the hooks of its records, each once
(`Graph.Hooked`). Keys lent to scripted listeners are never those of a tracker, not even when they
were given back long ago; so taking one back, be it for a second time, costs no tracker a hook. This
is kept by every move and by every turn, whatever foreign containers answer, and a disposed tracker
has no records. The main statement is `hooks_exact_and_disposal_final`.
-/

namespace LivePath
variable {F : Type}

namespace Graph
variable {g g' : Graph F} {hooks : TrackerId → List Hook} {lent : List (ObjectId × Key)}

/-- On every object, the registrations of each tracker are its hooks; the lent keys are of no
tracker. -/
structure Hooked (g : Graph F) (hooks : TrackerId → List Hook) (lent : List (ObjectId × Key)) :
    Prop where
  keyed : g.Keyed
  exact : ∀ id o, (g.registries.get o).entries.filter (·.listener = .tracker id) =
    registrationsOn o (.tracker id) (hooks id)
  nodup : ∀ id, (hooks id).Nodup
  issued : ∀ k ∈ lent, (g.registries.get k.1).Issued k.2
  apart : ∀ k ∈ lent, ∀ id, k ∉ (hooks id).map Hook.address

namespace Hooked

theorem of_registries (h : g.Hooked hooks lent) (hr : g'.registries = g.registries) :
    g'.Hooked hooks lent := by
  refine ⟨fun o => ?_, fun id o => ?_, h.nodup, fun k hk => ?_, h.apart⟩ <;> rw [hr]
  · exact h.keyed o
  · exact h.exact id o
  · exact h.issued k hk

theorem forget {lent' : List (ObjectId × Key)} (h : g.Hooked hooks lent) (hl : lent' ⊆ lent) :
    g.Hooked hooks lent' :=
  ⟨h.keyed, h.exact, h.nodup, fun k hk => h.issued k (hl hk), fun k hk => h.apart k (hl hk)⟩

theorem mem_entries (h : g.Hooked hooks lent) {id : TrackerId} {k : Hook} (hk : k ∈ hooks id) :
    k.registration (.tracker id) ∈ (g.registries.get k.target).entries := by
  have hm : k.registration (.tracker id) ∈ registrationsOn k.target (.tracker id) (hooks id) :=
    mem_registrationsOn.2 ⟨rfl, hk⟩
  rw [← h.exact] at hm
  exact (List.mem_filter.1 hm).1

theorem mem_hooks (h : g.Hooked hooks lent) {id : TrackerId} {o : ObjectId}
    {e : Registration Topic Observer} (he : e ∈ (g.registries.get o).entries)
    (hl : e.listener = .tracker id) : ⟨o, e.tag, e.key⟩ ∈ hooks id := by
  have hm : e ∈ registrationsOn o (.tracker id) (hooks id) := by
    rw [← h.exact]
    exact List.mem_filter.2 ⟨he, by simpa using hl⟩
  exact (mem_registrationsOn.1 hm).2

theorem issued_hook (h : g.Hooked hooks lent) {id : TrackerId} {k : Hook} (hk : k ∈ hooks id) :
    (g.registries.get k.target).Issued k.key :=
  Registry.issued_of_mem (Registry.mem_keys (h.mem_entries hk))

theorem eq_of_address (h : g.Hooked hooks lent) {id id' : TrackerId} {k k' : Hook}
    (hk : k ∈ hooks id) (hk' : k' ∈ hooks id') (ha : k.address = k'.address) : id = id' := by
  obtain ⟨ho, hkey⟩ := Prod.mk.inj ha
  have he := h.mem_entries hk'
  rw [← ho] at he
  have := (h.keyed k.target).eq_of_key (h.mem_entries hk) he hkey
  simpa [Hook.registration] using congrArg Registration.listener this

theorem entries_unobserveAll (h : g.Hooked hooks lent) (ks : List (ObjectId × Key)) (id : TrackerId)
    (o : ObjectId) :
    ((g.unobserveAll ks).registries.get o).entries.filter (·.listener = .tracker id) =
      (registrationsOn o (.tracker id) (hooks id)).filter fun e => (o, e.key) ∉ ks := by
  rw [Graph.entries_unobserveAll, ← h.exact, List.filter_filter, List.filter_filter]
  exact List.filter_congr fun e _ => Bool.and_comm ..

theorem registrationsOn_apart {id : TrackerId} {o : ObjectId} {ks : List (ObjectId × Key)}
    (ha : ∀ k ∈ ks, k ∉ (hooks id).map Hook.address) :
    (registrationsOn o (.tracker id) (hooks id)).filter (fun e => (o, e.key) ∉ ks) =
      registrationsOn o (.tracker id) (hooks id) := by
  refine List.filter_eq_self.2 fun e he => decide_eq_true fun hm => ha _ hm ?_
  exact List.mem_map_of_mem (mem_registrationsOn.1 he).2

theorem observe_script (h : g.Hooked hooks lent) (script : ScriptId)
    (ps : List (ObjectId × Topic)) :
    (g.observeAll (.script script) ps).2.Hooked hooks
      ((g.observeAll (.script script) ps).1.map Hook.address ++ lent) := by
  have hl := LeadsTo.observeAll g (.script script) ps
  refine ⟨hl.keyed h.keyed, fun id o => ?_, h.nodup, fun k hk => ?_, fun k hk id hm => ?_⟩
  · rw [entries_observeAll, List.filter_append, h.exact]
    have : (registrationsOn o (.script script) (g.observeAll (.script script) ps).1).filter
        (·.listener = .tracker id) = [] := by
      refine List.filter_eq_nil_iff.2 fun e he => ?_
      rw [(mem_registrationsOn.1 he).1]; simp
    rw [this, List.append_nil]
  · rcases List.mem_append.1 hk with hk | hk
    · obtain ⟨k₀, hk₀, rfl⟩ := List.mem_map.1 hk
      exact issued_observeAll _ _ hk₀
    · exact (hl k.1).issued _ (h.issued k hk)
  · rcases List.mem_append.1 hk with hk | hk
    · obtain ⟨k₀, hk₀, rfl⟩ := List.mem_map.1 hk
      obtain ⟨k', hk', ha⟩ := List.mem_map.1 hm
      obtain ⟨ho, hkey⟩ := Prod.mk.inj ha
      exact (keys_observeAll h.keyed _ ps).1 k₀ hk₀ (ho ▸ hkey ▸ h.issued_hook hk')
    · exact h.apart k hk id hm

theorem unobserve_lent (h : g.Hooked hooks lent) {ks : List (ObjectId × Key)} (hk : ks ⊆ lent) :
    (g.unobserveAll ks).Hooked hooks lent := by
  have hl := LeadsTo.unobserveAll g ks
  refine ⟨hl.keyed h.keyed, fun id o => ?_, h.nodup, fun k hk =>
    (hl k.1).issued _ (h.issued k hk), h.apart⟩
  rw [h.entries_unobserveAll, registrationsOn_apart fun k hm => h.apart k (hk hm) id]

theorem unobserve_own (h : g.Hooked hooks lent) (id : TrackerId) :
    (g.unobserveAll ((hooks id).map Hook.address)).Hooked (Function.update hooks id []) lent := by
  have hl := LeadsTo.unobserveAll g ((hooks id).map Hook.address)
  refine ⟨hl.keyed h.keyed, fun j o => ?_, fun j => ?_, fun k hk =>
    (hl k.1).issued _ (h.issued k hk), fun k hk j => ?_⟩
  · rw [h.entries_unobserveAll]
    by_cases hj : j = id
    · rw [hj, Function.update_self]
      refine List.filter_eq_nil_iff.2 fun e he => ?_
      rw [decide_eq_true_eq, not_not]
      exact List.mem_map_of_mem (mem_registrationsOn.1 he).2
    · rw [Function.update_of_ne hj]
      refine registrationsOn_apart fun k hk hm => hj ?_
      obtain ⟨k₀, hk₀, rfl⟩ := List.mem_map.1 hk
      obtain ⟨k', hk', ha⟩ := List.mem_map.1 hm
      exact h.eq_of_address hk' hk₀ ha
  · by_cases hj : j = id
    · rw [hj, Function.update_self]; exact List.nodup_nil
    · rw [Function.update_of_ne hj]; exact h.nodup j
  · by_cases hj : j = id
    · rw [hj, Function.update_self]; exact List.not_mem_nil
    · rw [Function.update_of_ne hj]; exact h.apart k hk j

theorem observe_tracker (h : g.Hooked hooks lent) {id : TrackerId} (hid : hooks id = [])
    (ps : List (ObjectId × Topic)) :
    (g.observeAll (.tracker id) ps).2.Hooked
      (Function.update hooks id (g.observeAll (.tracker id) ps).1) lent := by
  have hl := LeadsTo.observeAll g (.tracker id) ps
  obtain ⟨hnew, hnodup⟩ := keys_observeAll h.keyed (.tracker id) ps
  refine ⟨hl.keyed h.keyed, fun j o => ?_, fun j => ?_, fun k hk =>
    (hl k.1).issued _ (h.issued k hk), fun k hk j hm => ?_⟩
  · rw [entries_observeAll, List.filter_append, h.exact]
    by_cases hj : j = id
    · rw [hj, Function.update_self, hid]
      refine List.filter_eq_self.2 fun e he => ?_
      simpa using (mem_registrationsOn.1 he).1
    · rw [Function.update_of_ne hj]
      have : (registrationsOn o (.tracker id) (g.observeAll (.tracker id) ps).1).filter
          (·.listener = .tracker j) = [] := by
        refine List.filter_eq_nil_iff.2 fun e he => ?_
        rw [(mem_registrationsOn.1 he).1]; simpa using Ne.symm hj
      rw [this, List.append_nil]
  · by_cases hj : j = id
    · rw [hj, Function.update_self]; exact hnodup
    · rw [Function.update_of_ne hj]; exact h.nodup j
  · by_cases hj : j = id
    · rw [hj, Function.update_self] at hm
      obtain ⟨k', hk', rfl⟩ := List.mem_map.1 hm
      exact hnew k' hk' (h.issued _ hk)
    · rw [Function.update_of_ne hj] at hm; exact h.apart k hk j hm

end Hooked
end Graph

/-! ### Worlds -/

namespace Table
variable {ts : Table Tracker}

def hooks (ts : Table Tracker) (id : TrackerId) : List Hook :=
  hooksOf (ts.get id).records

theorem hooks_set (id : TrackerId) (t : Tracker) :
    (ts.set id t).hooks = Function.update ts.hooks id (hooksOf t.records) := by
  funext j
  by_cases hj : j = id
  · rw [hj, Function.update_self, hooks, get_set_self]
  · rw [Function.update_of_ne hj, hooks, get_set_ne ts hj, hooks]

theorem hooks_push (t : Tracker) :
    (ts.push t).hooks = Function.update ts.hooks ts.next (hooksOf t.records) := by
  funext j
  by_cases hj : j = ts.next
  · rw [hj, Function.update_self, hooks, get_push_next]
  · rw [Function.update_of_ne hj, hooks, get_push_ne ts hj, hooks]

theorem hooks_set_of_records {id : TrackerId} {t : Tracker} (h : t.records = (ts.get id).records) :
    (ts.set id t).hooks = ts.hooks := by
  rw [hooks_set, h]; exact Function.update_eq_self id ts.hooks

theorem hooks_next (ts : Table Tracker) : ts.hooks ts.next = [] := by
  rw [hooks, get_of_next_le ts (Nat.le_refl _)]; rfl

end Table

namespace World
variable {w w' : World F}

/-- The keys that subscriptions of scripted listeners tell, whether or not they were taken back
since. -/
def lent (w : World F) : List (ObjectId × Key) :=
  w.names.subscriptions.flatMap (·.2.addresses)

/-- The registrations of trackers are the hooks of their records, and disposed trackers have
none. -/
structure Hooked (w : World F) : Prop where
  graph : w.graph.Hooked w.trackers.hooks w.lent
  released : ∀ id, (w.trackers.get id).phase = .disposed → (w.trackers.get id).records = []

theorem mem_modifyNewest {α : Type} {name : String} {f : α → α} {entries : List (String × α)}
    {e : String × α} (h : e ∈ modifyNewest name f entries) : e ∈ entries ∨ ∃ a, e.2 = f a := by
  induction entries with
  | nil => cases h
  | cons e' entries ih =>
    obtain ⟨n, a⟩ := e'
    rw [modifyNewest] at h
    split at h
    · rcases List.mem_cons.1 h with rfl | h
      · exact .inr ⟨a, rfl⟩
      · exact .inl (List.mem_cons_of_mem _ h)
    · rcases List.mem_cons.1 h with rfl | h
      · exact .inl (List.mem_cons_self ..)
      · exact (ih h).imp_left (List.mem_cons_of_mem _)

theorem lent_setSubscription {label : String} {s : Subscription} (h : s.addresses = []) :
    (w.setSubscription label s).lent ⊆ w.lent := by
  intro k hk
  obtain ⟨e, he, hk⟩ := List.mem_flatMap.1 hk
  rcases mem_modifyNewest he with he | ⟨-, he⟩
  · exact List.mem_flatMap.2 ⟨e, he, hk⟩
  · rw [he, h] at hk; cases hk

theorem addresses_subset {label : String} {s : Subscription}
    (h : (label, s) ∈ w.names.subscriptions) :
    s.addresses ⊆ w.lent :=
  fun _ hk => List.mem_flatMap.2 ⟨_, h, hk⟩

theorem released_set {ts : Table Tracker}
    (h : ∀ id, (ts.get id).phase = .disposed → (ts.get id).records = []) {id : TrackerId}
    {t : Tracker} (ht : t.phase = .disposed → t.records = []) (j : TrackerId) :
    ((ts.set id t).get j).phase = .disposed → ((ts.set id t).get j).records = [] := by
  rw [Table.get_set]
  split
  · exact ht
  · exact h j

theorem Hooked.of_set (h : w.Hooked) {id : TrackerId} {t : Tracker} (hg : w'.graph = w.graph)
    (hs : w'.names.subscriptions = w.names.subscriptions) (ht : w'.trackers = w.trackers.set id t)
    (hr : t.records = (w.trackers.get id).records)
    (hp : t.phase = .disposed → (w.trackers.get id).phase = .disposed) : w'.Hooked := by
  refine ⟨?_, ?_⟩
  · rw [lent, hg, hs, ht, Table.hooks_set_of_records hr]; exact h.graph
  · rw [ht]; exact released_set h.released fun hd => hr ▸ h.released id (hp hd)

variable [Foreign F]

theorem Hooked.pass (h : w.Hooked) {id : TrackerId} :
    (w.retrack id ((w.trackers.get id).pass id w.graph).1).Hooked := by
  obtain ⟨g₁, ps, hr, hh, hr'⟩ := Tracker.exists_pass id (w.trackers.get id) w.graph
  have h₁ := (h.graph.unobserve_own id).of_registries hr.registries
  have h₂ := (h₁.observe_tracker (Function.update_self ..) ps).of_registries hr'.registries
  rw [Function.update_idem, ← hh] at h₂
  refine ⟨?_, released_set h.released fun hp => ?_⟩
  · show Graph.Hooked _ (Table.hooks (w.trackers.set id _)) _
    rw [Table.hooks_set]; exact h₂
  · rw [Tracker.tracker_pass] at hp; cases hp

omit [Foreign F] in
theorem Hooked.dispose (h : w.Hooked) {id : TrackerId} :
    (w.retrack id ((w.trackers.get id).dispose w.graph)).Hooked := by
  by_cases hp : (w.trackers.get id).phase = .disposed
  · obtain ⟨ht, hg⟩ := Tracker.dispose_of_disposed hp w.graph
    exact h.of_set hg rfl rfl (by rw [ht]) fun _ => hp
  · obtain ⟨ht, hg⟩ := Tracker.dispose_of_not_disposed hp w.graph
    refine ⟨?_, released_set h.released fun _ => by rw [ht]⟩
    show Graph.Hooked _ (Table.hooks (w.trackers.set id _)) _
    rw [Table.hooks_set, ht]
    exact (h.graph.unobserve_own id).of_registries (congrArg Graph.registries hg)

theorem Move.hooked (hm : Move w w') (h : w.Hooked) : w'.Hooked := by
  cases hm with
  | read hr => exact ⟨h.graph.of_registries hr.registries, h.released⟩
  | subscribe label script ps hs =>
    refine ⟨(h.graph.observe_script script ps).forget ?_, h.released⟩
    exact List.append_subset.2 ⟨List.subset_append_of_subset_left _ hs, List.subset_append_right ..⟩
  | giveUp script ps =>
    refine ⟨?_, h.released⟩
    exact ((h.graph.observe_script script ps).unobserve_lent (List.subset_append_left ..)).forget
      (List.subset_append_right ..)
  | unsubscribe hs => exact ⟨h.graph.unobserve_lent (addresses_subset hs), h.released⟩
  | setSubscription label hs => exact ⟨h.graph.forget (lent_setSubscription hs), h.released⟩
  | @bind name a root t es g hb hr =>
    obtain ⟨g₁, g₂, wk, hget, hwalk, ht, -, hh, rfl, -⟩ := Tracker.exists_bind_ok hb
    have hread := w.graph.readTo_get a root
    have hread' := g₁.readTo_walk a root
    rw [hget] at hread
    rw [hwalk] at hread'
    -- The new tracker has no hooks yet. It takes over those of the pairs that it begins to observe.
    have h₂ := (h.graph.of_registries (hread.trans hread').registries).observe_tracker
      w.trackers.hooks_next wk.pairs
    rw [← hh, ← Table.hooks_push] at h₂
    refine ⟨h₂, fun j => ?_⟩
    show ((w.trackers.push t).get j).phase = _ → ((w.trackers.push t).get j).records = _
    by_cases hj : j = w.trackers.next
    · rw [hj, Table.get_push_next, ht]; exact nofun
    · rw [Table.get_push_ne _ hj]; exact h.released j
  | bindFailed hb =>
    obtain ⟨g₁, hr, ps, rfl⟩ := Tracker.exists_bind_error hb
    -- What the tracker would have observed is given up again, and nobody has its hooks.
    have h₁ := (h.graph.of_registries hr.registries).observe_tracker w.trackers.hooks_next ps
    have h₂ := h₁.unobserve_own w.trackers.next
    rw [Function.update_self, Function.update_idem, ← w.trackers.hooks_next,
      Function.update_eq_self] at h₂
    exact ⟨h₂, h.released⟩
  | clone | drop | listeners => exact h.of_set rfl rfl rfl rfl id
  | dispose => exact h.dispose
  | _ => exact ⟨h.graph.of_registries rfl, h.released⟩

theorem Moves.hooked (hm : Moves w w') (h : w.Hooked) : w'.Hooked := by
  induction hm with
  | refl => exact h
  | tail _ hm ih => exact hm.hooked ih

theorem registries_mutate (g : Graph F) (o : ObjectId) (m : Mutation) :
    (g.mutate o m).state.registries = g.registries := by
  obtain ⟨g', object, hr, hs, -⟩ := Graph.exists_mutate (g := g) (S := fun _ => True) o (m := m)
    (fun _ _ => trivial) fun _ _ => trivial
  rw [hs]; exact hr.registries

theorem Does.hooked {notice : Notice} (hd : w.Does w' notice) (h : w.Hooked) : w'.Hooked := by
  cases hd with
  | moves hm => exact Moves.hooked hm h
  | mutates hm =>
    have h' := hm.hooked h (F := F)
    exact ⟨h'.graph.of_registries (registries_mutate ..), h'.released⟩

theorem entries_of_track_failed (h : w.Hooked) {name : String} {a : Accessor} {root : Value}
    {f : Failure} (hf : (w.track name a root).answer = .failed f) (o : ObjectId) :
    ((w.track name a root).world.graph.registries.get o).entries =
      (w.graph.registries.get o).entries := by
  rw [track] at hf ⊢
  rcases hb : Tracker.bind w.trackers.next a root w.graph with ⟨e | ⟨t, es⟩, g⟩
  · obtain ⟨g₁, hr, ps, rfl⟩ := Tracker.exists_bind_error hb
    have hk : g₁.Keyed := fun o => hr.registries ▸ h.graph.keyed o
    exact (Graph.entries_unobserveAll_observeAll hk _ ps o).trans (by rw [hr.registries])
  · rw [hb] at hf; cases hf

end World

/-! ### Machines -/

namespace Machine
variable [Foreign F] {m m' : Machine F}

theorem Turn.hooked {frame : Frame F} (ht : m.Turn frame m') (h : m.world.Hooked) :
    m'.world.Hooked := by
  cases ht with
  | perform c cs => rw [world_notify]; exact (m.does_perform c).hooked h
  | pass | again => exact h.pass
  | mark => exact h.of_set rfl rfl rfl rfl id
  | settle hp => exact h.of_set rfl rfl rfl rfl nofun
  | _ => exact ⟨h.graph, h.released⟩

theorem Step.hooked (hs : m.Step m') (h : m.world.Hooked) : m'.world.Hooked := by
  cases hs with
  | turn hn =>
    obtain ⟨frame, m₀, rfl, ht⟩ := exists_turn hn
    exact ht.hooked h
  | command _ c =>
    rw [begin, world_notify]; exact (m.afresh.does_perform c).hooked ⟨h.graph, h.released⟩
  | divert => exact h

omit [Foreign F] in
theorem hooked_empty : ({} : Machine F).world.Hooked := by
  refine ⟨⟨fun _ => Registry.wellFormed_default, fun _ _ => rfl, fun _ => .nil, nofun, nofun⟩,
    fun _ _ => rfl⟩

theorem Reachable.hooked (h : m.Reachable) : m.world.Hooked :=
  h.rec_step hooked_empty fun _ _ => Step.hooked

omit [Foreign F] in
theorem listener_ne_of_disposed (h : m.world.Hooked) {id : TrackerId}
    (hd : (m.world.trackers.get id).phase = .disposed) (o : ObjectId) :
    ∀ r ∈ (m.world.graph.registries.get o).entries, r.listener ≠ .tracker id := by
  intro r hr hl
  have hm := h.graph.mem_hooks hr hl
  rw [Table.hooks, h.released id hd] at hm; cases hm

theorem next_change_of_disposed (h : m.Listening) {id : TrackerId}
    (hd : (m.world.trackers.get id).phase = .disposed) {value : Option Value}
    {r : Registration Unit ScriptId} {pending : List (Registration Unit ScriptId)}
    {rest : List (Frame F)} (hs : m.stack = .change id value (r :: pending) :: rest) :
    m.next = { m with stack := .change id value pending :: rest } := by
  obtain ⟨-, hp⟩ : (Frame.change id value (r :: pending)).Sound m.world.trackers := by
    refine h.frames _ ?_
    rw [hs]; exact List.mem_cons_self ..
  have hk := (hp r (List.mem_cons_self ..)).2 hd
  obtain ⟨world, scripts, stack⟩ := m
  obtain rfl : stack = _ := hs
  have hc : (world.trackers.get id).listeners.contains r.key = false := by
    rw [← Bool.not_eq_true, Registry.contains_iff]; exact hk
  simp [next, turn, push, hc]

theorem entries_of_track_failed (h : m.world.Hooked) {name : String} {root : Term} {route : Route}
    {f : Failure} (hf : (m.perform (.act (.tracker name (.track root route)))).2.1 = .failed f)
    (o : ObjectId) :
    ((m.perform
        (.act (.tracker name (.track root route)))).1.world.graph.registries.get o).entries =
      (m.world.graph.registries.get o).entries := by
  simp only [perform, act] at hf ⊢
  split
  · next e he =>
    rw [he] at hf
    obtain ⟨a, -, he⟩ := exists_of_bind he
    obtain ⟨⟨v, w⟩, hv, he⟩ := exists_of_bind he
    cases he
    obtain ⟨hev, -⟩ := World.evaluates_evaluate hv
    rw [World.entries_of_track_failed (hev.moves.hooked h) hf, hev.registries]
  · rfl

theorem phase_of_dispose {name : String} {id : TrackerId} (h : m.world.tracker name = .ok id) :
    ((m.perform (.act (.tracker name .dispose))).1.world.trackers.get id).phase = .disposed := by
  have : effectOf m.world (.tracker name .dispose) =
      .ok ⟨m.world.retrack id ((m.world.trackers.get id).dispose m.world.graph),
        .nothing, .silent⟩ := by
    simp only [effectOf, World.operate, h]; rfl
  simp only [perform, act, this]
  exact (congrArg Tracker.phase (Table.get_set_self ..)).trans (Tracker.phase_dispose ..)

/--
In every state of every run, the registrations of a tracker on an object are the hooks of its
records there, in their order and each once. Disposing a tracker is final: in all that follows it
stays disposed, has no registration on any object, and no value on its way to its listeners is
delivered to one of them. A binding that fails leaves the registrations on all objects as they were.
-/
theorem hooks_exact_and_disposal_final (hm : m.Reachable) :
    (∀ id o, (m.world.graph.registries.get o).entries.filter (·.listener = .tracker id) =
      registrationsOn o (.tracker id) (hooksOf (m.world.trackers.get id).records)) ∧
    (∀ id, (hooksOf (m.world.trackers.get id).records).Nodup) ∧
    (∀ name id, m.world.tracker name = .ok id →
      ((m.perform (.act (.tracker name .dispose))).1.world.trackers.get id).phase = .disposed) ∧
    (∀ id < m.world.trackers.next, (m.world.trackers.get id).phase = .disposed → ∀ m', m.Leads m' →
      (m'.world.trackers.get id).phase = .disposed ∧
      (∀ o, ∀ r ∈ (m'.world.graph.registries.get o).entries, r.listener ≠ .tracker id) ∧
      ∀ value r pending rest, m'.stack = .change id value (r :: pending) :: rest →
        m'.next = { m' with stack := .change id value pending :: rest }) ∧
    ∀ name root route f, (m.perform (.act (.tracker name (.track root route)))).2.1 = .failed f →
      ∀ o,
        ((m.perform
            (.act (.tracker name (.track root route)))).1.world.graph.registries.get o).entries =
          (m.world.graph.registries.get o).entries := by
  refine ⟨hm.hooked.graph.exact, hm.hooked.graph.nodup, fun _ _ => phase_of_dispose,
    fun id hid hd m' hl => ?_, fun _ _ _ _ hf => entries_of_track_failed hm.hooked hf⟩
  have hd' := ((Leads.continues hl).tracker id hid).disposed hd
  exact ⟨hd', listener_ne_of_disposed (hm.leads hl).hooked hd',
    fun _ _ _ _ hs => next_change_of_disposed (hm.leads hl).listening hd' hs⟩

/-- The tracker of `tracking` has one registration, and none once it is disposed. -/
theorem hooks_exact_and_disposal_final_tracking :
    tracking.Reachable ∧
    (tracking.world.graph.registries.get 0).entries.filter (·.listener = .tracker 0) =
      registrationsOn 0 (.tracker 0) [⟨0, .change "name", ⟨0, 0⟩⟩] ∧
    ∀ m', (tracking.begin (.act (.tracker "t" .dispose))).Leads m' → ∀ o,
      ∀ r ∈ (m'.world.graph.registries.get o).entries, r.listener ≠ .tracker 0 := by
  have hm : (tracking.begin (.act (.tracker "t" .dispose))).Reachable :=
    reachable_tracking.begin rfl _
  refine ⟨reachable_tracking, (hooks_exact_and_disposal_final reachable_tracking).1 0 0,
    fun m' hl => ?_⟩
  exact ((hooks_exact_and_disposal_final hm).2.2.2.1 0 (by decide) rfl m' hl).2.1

end Machine
end LivePath
