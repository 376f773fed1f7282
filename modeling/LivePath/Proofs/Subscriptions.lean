import LivePath.Proofs.Registries
import Mathlib.Data.List.Perm.Subperm

/-!
# Subscriptions of scripted listeners

To subscribe appends one registration for each object and topic that the walk meets, and leaves none
behind if the walk fails (`Graph.exists_subscribed`). The subscription of its label tells the keys,
which are those of no other subscription. Nothing but taking it back ends one of these registrations
(`Step.held`): a pass takes back the hooks of its tracker only, and what other subscriptions take
back are other keys. So whatever happens meanwhile, taking a subscription back finds each of its
registrations. The main statement is `subscriptions_exact_and_reversible`.
-/

namespace LivePath
variable {F : Type}

def Node.dependencies (node : Node) (target : Value) : List Dependency :=
  match node.step, target with
  | .attr name, .model o => [.field o name]
  | .item _, .collection o => [.items o]
  | _, _ => []

namespace Graph

section
variable [Foreign F]

theorem dependencies_follow (g : Graph F) (node : Node) (target : Value) :
    (g.follow node target).1.dependencies = node.dependencies target := by
  unfold follow Node.dependencies
  rcases node.step with name | index <;> cases target <;> rfl

theorem dependencies_walk_join (g : Graph F) (parent : Accessor) (node : Node) (v : Value) :
    (g.walk (parent.join node) v).1.dependencies = (g.walk parent v).1.dependencies ++
      match (g.walk parent v).1.outcome with
      | .ok (some target) => node.dependencies target
      | _ => [] := by
  rw [walk_join]
  rcases (g.walk parent v).1.outcome with e | _ | target
  · exact (List.append_nil _).symm
  · exact (List.append_nil _).symm
  · simp only
    rw [← (g.walk parent v).2.dependencies_follow]
    exact List.filterMap_append

theorem entries_of_subscribed {g g' : Graph F} {a : Accessor} {v : Value} {observer : Observer}
    {records : List Record} (h : g.subscribe a v observer = (.ok records, g')) (o : ObjectId) :
    (g'.registries.get o).entries =
      (g.registries.get o).entries ++ registrationsOn o observer (hooksOf records) := by
  obtain ⟨rfl, hh, -⟩ := exists_subscribe_ok h
  rw [hh, entries_observeAll, (g.readTo_walk a v).registries]

theorem entries_of_subscribe_failed {g g' : Graph F} (hg : g.Keyed) {a : Accessor} {v : Value}
    {observer : Observer} {e : AccessError} (h : g.subscribe a v observer = (.error e, g'))
    (o : ObjectId) :
    (g'.registries.get o).entries = (g.registries.get o).entries := by
  have hregistries := (g.readTo_walk a v).registries
  have hkeyed : (g.walk a v).2.Keyed := fun o => hregistries ▸ hg o
  rw [exists_subscribe_error h, entries_unobserveAll_observeAll hkeyed, hregistries]

/-- What subscribing does, as its walk succeeds or fails. -/
theorem exists_subscribed {g : Graph F} (hg : g.Keyed) (a : Accessor) (v : Value)
    (observer : Observer) :
    match (g.walk a v).1.outcome with
    | .ok _ => ∃ records g', g.subscribe a v observer = (.ok records, g') ∧
        (hooksOf records).map (fun h => (h.target, h.topic)) = (g.walk a v).1.pairs ∧
        ∀ o, (g'.registries.get o).entries =
          (g.registries.get o).entries ++ registrationsOn o observer (hooksOf records)
    | .error e => ∃ g', g.subscribe a v observer = (.error e, g') ∧
        ∀ o, (g'.registries.get o).entries = (g.registries.get o).entries := by
  rcases hr : g.subscribeReached a v observer with ⟨outcome, records, g₁⟩
  have ho : (g.walk a v).1.outcome = outcome := congrArg Prod.fst hr
  rw [ho]
  cases outcome with
  | ok value =>
    have hs : g.subscribe a v observer = (.ok records, g₁) := by rw [subscribe, hr]
    refine ⟨records, _, hs, ?_, entries_of_subscribed hs⟩
    rw [(exists_subscribe_ok hs).2.1, pairs_observeAll]
  | error e =>
    have hs : g.subscribe a v observer = (.error e, (g₁.detachAll records).2) := by
      rw [subscribe, hr]
    exact ⟨_, hs, entries_of_subscribe_failed hg hs⟩

end

/-! ### Taking registrations back -/

variable {g g' : Graph F}

theorem count_unobserveEach {o : ObjectId} {es : List (Topic × Key)} (hn : (es.map Prod.snd).Nodup)
    (hk : ∀ e ∈ es, e.2 ∈ (g.registries.get o).keys) : (g.unobserveEach o es).1 = es.length := by
  induction es generalizing g with
  | nil => rfl
  | cons e es ih =>
    obtain ⟨t, k⟩ := e
    obtain ⟨hk₀, hk⟩ := List.forall_mem_cons.1 hk
    obtain ⟨hne, hn⟩ := List.nodup_cons.1 hn
    have hrest := ih (g := g.unobserve o k) hn fun e he => by
      rw [registries_unobserve, if_pos rfl, Registry.keys_erase]
      exact List.mem_filter.2 ⟨hk e he, decide_eq_true fun h => hne (List.mem_map.2 ⟨e, he, h⟩)⟩
    have hfound : (g.registries.get o).contains k = true := Registry.contains_iff.2 hk₀
    simp only [unobserveEach, hfound, hrest, if_true, List.length_cons, Nat.add_comm]

theorem mem_keys_unobserveAll {ks : List (ObjectId × Key)} {o : ObjectId} {k : Key} :
    k ∈ ((g.unobserveAll ks).registries.get o).keys ↔ k ∈ (g.registries.get o).keys ∧
      (o, k) ∉ ks := by
  simp only [Registry.keys, List.mem_map, entries_unobserveAll, List.mem_filter, decide_eq_true_eq]
  constructor
  · rintro ⟨e, ⟨he, hk⟩, rfl⟩
    exact ⟨⟨e, he, rfl⟩, hk⟩
  · rintro ⟨⟨e, he, rfl⟩, hk⟩
    exact ⟨e, ⟨he, hk⟩, rfl⟩

theorem count_detachAll {rs : List Record} (hn : ((hooksOf rs).map Hook.address).Nodup)
    (hk : ∀ h ∈ hooksOf rs, h.key ∈ (g.registries.get h.target).keys) :
    (g.detachAll rs).1 = (hooksOf rs).length := by
  induction rs generalizing g with
  | nil => rfl
  | cons r rs ih =>
    have hsplit : hooksOf (r :: rs) = r.hooks ++ hooksOf rs := rfl
    rw [hsplit, List.map_append, List.nodup_append] at hn
    rw [hsplit] at hk ⊢
    obtain ⟨hr, hrs, hd⟩ := hn
    have hfirst : (g.detach r).1 = r.hooks.length := by
      rw [Record.hooks, List.length_map]
      refine count_unobserveEach (List.Nodup.of_map (r.target, ·) ?_) fun e he => ?_
      · rw [Record.hooks, List.map_map] at hr
        rw [List.map_map]; exact hr
      · exact hk _ (List.mem_append_left _ (List.mem_map_of_mem he))
    have hrest : ((g.detach r).2.detachAll rs).1 = (hooksOf rs).length := by
      refine ih hrs fun h hh => ?_
      rw [detach_eq, mem_keys_unobserveAll]
      exact ⟨hk h (List.mem_append_right _ hh), fun hm => hd _ hm _ (List.mem_map_of_mem hh) rfl⟩
    show (g.detach r).1 + ((g.detach r).2.detachAll rs).1 = _
    rw [hfirst, hrest, List.length_append]

theorem filter_address_mem (hg : g.Keyed) (hl : g.LeadsTo g') {o : ObjectId} {observer : Observer}
    {hs : List Hook} {old : List (Registration Topic Observer)}
    (hnew : (g.registries.get o).entries = old ++ registrationsOn o observer hs)
    (hstay : ∀ h ∈ hs, h.key ∈ (g'.registries.get h.target).keys) :
    (g'.registries.get o).entries.filter (fun e => (o, e.key) ∈ hs.map Hook.address) =
      registrationsOn o observer hs := by
  obtain ⟨log, hev⟩ := hl o
  have hregistered {k : Key} (hk : (o, k) ∈ hs.map Hook.address) :
      ∃ e ∈ registrationsOn o observer hs, e.key = k := by
    obtain ⟨h, hh, ha⟩ := List.mem_map.1 hk
    obtain ⟨rfl, rfl⟩ := Prod.mk.inj ha
    exact ⟨h.registration observer, mem_registrationsOn.2 ⟨rfl, hh⟩, rfl⟩
  have hkeys : (old.map (·.key) ++ (registrationsOn o observer hs).map (·.key)).Nodup := by
    rw [← List.map_append, ← hnew]; exact (hg o).nodup_keys
  obtain ⟨-, hnodup, hdisjoint⟩ := List.nodup_append.1 hkeys
  have hold : old.filter (fun e => (o, e.key) ∈ hs.map Hook.address) = [] := by
    refine List.filter_eq_nil_iff.2 fun e he hm => ?_
    obtain ⟨e', he', hk⟩ := hregistered (of_decide_eq_true hm)
    exact hdisjoint _ (List.mem_map_of_mem he) _ (List.mem_map_of_mem he') hk.symm
  have hown : (registrationsOn o observer hs).filter (fun e => (o, e.key) ∈ hs.map Hook.address) =
      registrationsOn o observer hs :=
    List.filter_eq_self.2 fun e he =>
      decide_eq_true (List.mem_map_of_mem (mem_registrationsOn.1 he).2)
  -- Keys are not issued again, so that no later registration has one of these.
  have hlater : log.filter (fun e => (o, e.key) ∈ hs.map Hook.address) = [] := by
    refine List.filter_eq_nil_iff.2 fun e he hm => hev.fresh (hg o) e he ?_
    obtain ⟨e', he', hk⟩ := hregistered (of_decide_eq_true hm)
    rw [← hk]
    exact Registry.issued_of_mem (Registry.mem_keys (hnew ▸ List.mem_append_right _ he'))
  have hsub := hev.sublist.filter fun e => (o, e.key) ∈ hs.map Hook.address
  rw [hnew, List.filter_append, List.filter_append, hold, hown, hlater, List.nil_append,
    List.append_nil] at hsub
  -- On the other hand all of them are still there, and with the order kept nothing else can be.
  have hall : registrationsOn o observer hs ⊆
      (g'.registries.get o).entries.filter fun e => (o, e.key) ∈ hs.map Hook.address := by
    intro e he
    have hm := (mem_registrationsOn.1 he).2
    refine List.mem_filter.2 ⟨hev.mem_of_key (hg o) ?_ (hstay _ hm),
      decide_eq_true (List.mem_map_of_mem hm)⟩
    rw [hnew]; exact List.mem_append_right _ he
  exact hsub.eq_of_length_le (List.subperm_of_subset (.of_map _ hnodup) hall).length_le

/-! ### Registrations of scripts stay -/

/-- No registration is lost but those of trackers. -/
def Spares (g g' : Graph F) : Prop :=
  ∀ o, ∀ e ∈ (g.registries.get o).entries, (∀ id, e.listener ≠ .tracker id) →
  e ∈ (g'.registries.get o).entries

namespace Spares

theorem of_entries (h : ∀ o, (g'.registries.get o).entries = (g.registries.get o).entries) :
    g.Spares g' :=
  fun o _ he _ => h o ▸ he

theorem of_registries (h : g'.registries = g.registries) : g.Spares g' :=
  of_entries fun o => by rw [h]

theorem trans {g'' : Graph F} (h : g.Spares g') (h' : g'.Spares g'') : g.Spares g'' :=
  fun o e he hl => h' o e (h o e he hl) hl

theorem observeAll (g : Graph F) (observer : Observer) (ps : List (ObjectId × Topic)) :
    g.Spares (g.observeAll observer ps).2 := by
  intro o e he _
  rw [entries_observeAll]
  exact List.mem_append_left _ he

theorem unobserve_own {hooks : TrackerId → List Hook} {lent : List (ObjectId × Key)}
    (h : g.Hooked hooks lent) (id : TrackerId) :
    g.Spares (g.unobserveAll ((hooks id).map Hook.address)) := by
  intro o e he hl
  rw [entries_unobserveAll]
  refine List.mem_filter.2 ⟨he, decide_eq_true fun hm => ?_⟩
  obtain ⟨k, hk, ha⟩ := List.mem_map.1 hm
  obtain ⟨rfl, hkey⟩ := Prod.mk.inj ha
  have heq := (h.keyed k.target).eq_of_key (h.mem_entries hk) he hkey
  exact hl id (congrArg Registration.listener heq).symm

variable [Foreign F]

theorem pass {hooks : TrackerId → List Hook} {lent : List (ObjectId × Key)}
    (h : g.Hooked hooks lent) {id : TrackerId} {t : Tracker} (ht : hooksOf t.records = hooks id) :
    g.Spares (t.pass id g).1.graph := by
  obtain ⟨g₁, ps, hread, -, hread'⟩ := Tracker.exists_pass id t g
  rw [ht] at hread
  exact (((unobserve_own h id).trans (.of_registries hread.registries)).trans
    (.observeAll g₁ _ ps)).trans (.of_registries hread'.registries)

omit [Foreign F] in
theorem dispose {hooks : TrackerId → List Hook} {lent : List (ObjectId × Key)}
    (h : g.Hooked hooks lent) {id : TrackerId} {t : Tracker} (ht : hooksOf t.records = hooks id) :
    g.Spares (t.dispose g).graph := by
  by_cases hp : t.phase = .disposed
  · exact .of_registries (by rw [(Tracker.dispose_of_disposed hp g).2])
  · rw [(Tracker.dispose_of_not_disposed hp g).2, ht]
    exact unobserve_own h id

theorem bind (hg : g.Keyed) {id : TrackerId} {a : Accessor} {root : Value}
    {r : Except AccessError (Tracker × List LogEntry)} (h : Tracker.bind id a root g = (r, g')) :
    g.Spares g' := by
  cases r with
  | error e =>
    obtain ⟨g₁, hread, ps, rfl⟩ := Tracker.exists_bind_error h
    have hkeyed : g₁.Keyed := fun o => hread.registries ▸ hg o
    refine .of_entries fun o => ?_
    rw [entries_unobserveAll_observeAll hkeyed, hread.registries]
  | ok r =>
    obtain ⟨g₁, g₂, w, hget, hwalk, -, -, -, rfl, -⟩ := Tracker.exists_bind_ok h
    have hread := g.readTo_get a root
    have hread' := g₁.readTo_walk a root
    rw [hget] at hread
    rw [hwalk] at hread'
    exact (of_registries (hread.trans hread').registries).trans (.observeAll g₂ _ _)

end Spares
end Graph

namespace World
variable {w w' : World F}

/-- Neither a registration of a script nor a subscription is touched. -/
structure Spares (w w' : World F) : Prop where
  graph : w.graph.Spares w'.graph
  subscriptions : w'.names.subscriptions = w.names.subscriptions

namespace Spares

theorem of_eq (hr : w'.graph.registries = w.graph.registries)
    (hs : w'.names.subscriptions = w.names.subscriptions) : w.Spares w' :=
  ⟨.of_registries hr, hs⟩

theorem refl (w : World F) : w.Spares w :=
  .of_eq rfl rfl

theorem trans {w'' : World F} (h : w.Spares w') (h' : w'.Spares w'') : w.Spares w'' :=
  ⟨h.graph.trans h'.graph, h'.subscriptions.trans h.subscriptions⟩

variable [Foreign F]

theorem evaluates (h : Evaluates w w') : w.Spares w' :=
  .of_eq h.registries (congrArg Names.subscriptions h.names)

omit [Foreign F] in
theorem retrack {id : TrackerId} {done : Tracked F} (h : w.graph.Spares done.graph) :
    w.Spares (w.retrack id done) :=
  ⟨h, rfl⟩

theorem mutate (w : World F) (o : ObjectId) (m : Mutation) : w.Spares (w.mutate o m).world :=
  .of_eq (registries_mutate ..) rfl

theorem assign (w : World F) (a : Accessor) (root v : Value) :
    w.Spares (w.assign a root v).world := by
  have hread := w.graph.readTo_assignee a root
  rw [World.assign, Graph.set]
  rcases ha : w.graph.assignee a root with ⟨e | ⟨o, name⟩, g⟩ <;> rw [ha] at hread
  · exact .of_eq hread.registries rfl
  · exact .of_eq ((registries_mutate g o _).trans hread.registries) rfl

theorem create {name : String} {blueprint : Blueprint F} {e : Effect F}
    (h : w.create name blueprint = .ok e) :
    w.Spares e.world := by
  cases blueprint with
  | model attrs =>
    obtain ⟨⟨vs, w₁⟩, hv, h⟩ := exists_of_bind h
    cases h
    exact (evaluates (evaluates_evaluatePairs hv).1).trans (.of_eq rfl rfl)
  | array items =>
    obtain ⟨⟨vs, w₁⟩, hv, h⟩ := exists_of_bind h
    cases h
    exact (evaluates (evaluates_evaluateList hv).1).trans (.of_eq rfl rfl)
  | collection items ranking =>
    obtain ⟨⟨vs, w₁⟩, hv, h⟩ := exists_of_bind h
    have hall : Every (fun _ => True) vs := fun _ _ => trivial
    obtain ⟨-, hr⟩ :=
      Graph.holds_newCollection (J := .yields w₁.graph.ReadTo) Graph.yields_readKey hall
        ranking w₁.graph .refl
    rcases hn : (Graph.newCollection vs ranking).run w₁.graph with ⟨d | object, g⟩
    all_goals
      rw [hn] at hr
      simp only [hn] at h
      cases h
      exact (evaluates (evaluates_evaluateList hv).1).trans (.of_eq hr.registries rfl)
  | dispatcher =>
    cases h
    exact .of_eq rfl rfl
  | foreign fields make =>
    obtain ⟨⟨vs, w₁⟩, hv, h⟩ := exists_of_bind h
    cases h
    exact (evaluates (evaluates_evaluateRotations hv)).trans (.of_eq rfl rfl)

theorem access {action : AccessAction} {e : Effect F} (h : w.access action = .ok e) :
    w.Spares e.world := by
  cases action with
  | store name route | join name route node =>
    obtain ⟨a, -, h⟩ := exists_of_bind h
    cases h
    exact .of_eq rfl rfl
  | get route root =>
    obtain ⟨a, -, h⟩ := exists_of_bind h
    obtain ⟨⟨root, w₁⟩, hr, h⟩ := exists_of_bind h
    cases h
    exact (evaluates (evaluates_evaluate hr).1).trans
      (.of_eq (w₁.graph.readTo_get a root).registries rfl)
  | set route root v =>
    obtain ⟨a, -, h⟩ := exists_of_bind h
    obtain ⟨⟨root, w₁⟩, hr, h⟩ := exists_of_bind h
    obtain ⟨⟨v, w₂⟩, hv, h⟩ := exists_of_bind h
    cases h
    exact (evaluates ((evaluates_evaluate hr).1.trans (evaluates_evaluate hv).1)).trans (assign ..)

theorem track (hk : w.graph.Keyed) (name : String) (a : Accessor) (root : Value) :
    w.Spares (w.track name a root).world := by
  rw [World.track]
  rcases hb : Tracker.bind w.trackers.next a root w.graph with ⟨e | ⟨t, es⟩, g⟩
  · exact ⟨.bind hk hb, rfl⟩
  · exact ⟨.bind hk hb, rfl⟩

theorem operate (hw : w.Hooked) {name : String} {action : TrackerAction} {e : Effect F}
    (h : w.operate name action = .ok e) : w.Spares e.world := by
  cases action with
  | track root route =>
    obtain ⟨a, -, h⟩ := exists_of_bind h
    obtain ⟨⟨root, w₁⟩, hr, h⟩ := exists_of_bind h
    cases h
    obtain ⟨he, -⟩ := evaluates_evaluate hr
    exact (evaluates he).trans (track (he.moves.hooked hw).graph.keyed name a root)
  | clone other =>
    obtain ⟨id, -, h⟩ := exists_of_bind h
    cases h
    exact .of_eq rfl rfl
  | drop | observed | isDisposed =>
    obtain ⟨id, -, h⟩ := exists_of_bind h
    cases h
    exact .of_eq rfl rfl
  | get | hasValue =>
    obtain ⟨id, -, h⟩ := exists_of_bind h
    cases h
    exact .of_eq (w.graph.readTo_get _ _).registries rfl
  | set v =>
    obtain ⟨id, -, h⟩ := exists_of_bind h
    obtain ⟨⟨v, w₁⟩, hv, h⟩ := exists_of_bind h
    cases h
    have hlog : w₁.Spares (w₁.logAll (w.trackers.get id).usedAfterDispose) := .of_eq rfl rfl
    exact ((evaluates (evaluates_evaluate hv).1).trans hlog).trans (assign ..)
  | dispose =>
    obtain ⟨id, -, h⟩ := exists_of_bind h
    cases h
    exact .retrack (.dispose hw.graph rfl)

omit [Foreign F] in
theorem clear {on : String} {answer : Answer} (h : w.clear on = .ok (w', answer)) :
    w.Spares w' := by
  obtain ⟨d, -, h⟩ := exists_of_bind h
  cases h
  exact .of_eq rfl rfl

theorem effectOf (hw : w.Hooked) {a : Action F} {e : Effect F} (h : Machine.effectOf w a = .ok e)
    (ha : ∀ label, a ≠ .off label) : w.Spares e.world := by
  cases a with
  | create name blueprint => exact .create h
  | ask question =>
    obtain ⟨answer, h⟩ := Machine.exists_of_map h
    exact evaluates (evaluates_ask h)
  | edit on edit =>
    obtain ⟨⟨o, m, w₁⟩, hm, h⟩ := exists_of_bind h
    cases h
    exact (evaluates (exists_mutationOf hm).1).trans (mutate ..)
  | fire on topic | emit on text tags => exact Machine.world_of_map h (fun _ => rfl) ▸ .refl w
  | clear on =>
    obtain ⟨answer, h⟩ := Machine.exists_of_map h
    exact .clear h
  | access action => exact .access h
  | tracker name action => exact .operate hw h
  | off label => exact absurd rfl (ha label)
  | unknown text => cases h

end Spares
end World

/-! ### What subscriptions tell -/

/-- The hooks that a subscription has until it is taken back. -/
def Subscription.hooks : Subscription → List Hook
  | accessor (some rs) => hooksOf rs
  | attached (some r) => r.hooks
  | _ => []

theorem Subscription.address_mem {s : Subscription} {h : Hook} (hh : h ∈ s.hooks) :
    h.address ∈ s.addresses := by
  cases s with
  | accessor records =>
    cases records with
    | none => cases hh
    | some rs => exact List.mem_map_of_mem hh
  | attached record =>
    cases record with
    | none => cases hh
    | some r => exact List.mem_map_of_mem hh
  | _ => cases hh

namespace World
variable {w w' : World F} {before after : List (String × Subscription)} {label : String}
  {s s' : Subscription}

/-- Each subscription has its registrations, which no other one tells. -/
structure Held (w : World F) : Prop where
  hooked : w.Hooked
  apart : w.names.subscriptions.Pairwise fun e e' => e.2.addresses.Disjoint e'.2.addresses
  stand : ∀ e ∈ w.names.subscriptions, ∀ h ∈ e.2.hooks,
    ∃ script, h.registration (.script script) ∈ (w.graph.registries.get h.target).entries
  nodup : ∀ e ∈ w.names.subscriptions, e.2.hooks.Nodup

theorem exists_of_subscription (h : w.subscription label = .ok s) :
    ∃ before after, w.names.subscriptions = before ++ (label, s) :: after ∧
      ∀ s', modifyNewest label (fun _ => s') w.names.subscriptions = before ++
        (label, s') :: after := by
  have hl := lookup_of_find h
  rw [Option.bind_fun_some] at hl
  obtain ⟨before, after, heq, hb⟩ := List.lookup_eq_some_iff.1 hl
  refine ⟨before, after, heq, fun s' => ?_⟩
  rw [heq]
  clear heq
  induction before with
  | nil => rw [List.nil_append, modifyNewest, if_pos rfl]; rfl
  | cons e before ih =>
    obtain ⟨he, hb⟩ := List.forall_mem_cons.1 hb
    rw [List.cons_append, modifyNewest, if_neg fun hn => by simp [hn] at he, ih hb]
    rfl

namespace Held

theorem of_spares (h : w.Held) (hs : w.Spares w') (hh : w'.Hooked) : w'.Held := by
  refine ⟨hh, ?_, ?_, ?_⟩ <;> rw [hs.subscriptions]
  · exact h.apart
  · intro e he k hk
    obtain ⟨script, hm⟩ := h.stand e he k hk
    exact ⟨script, hs.graph k.target _ hm fun _ => Observer.noConfusion⟩
  · exact h.nodup

theorem subscribe (h : w.Held) (script : ScriptId) (ps : List (ObjectId × Topic))
    (hg : w'.graph = (w.graph.observeAll (.script script) ps).2)
    (hs : w'.names.subscriptions = (label, s) :: w.names.subscriptions)
    (ha : s.addresses ⊆ (w.graph.observeAll (.script script) ps).1.map Hook.address)
    (hk : s.hooks = (w.graph.observeAll (.script script) ps).1 ∨ s.hooks = []) (hh : w'.Hooked) :
    w'.Held := by
  obtain ⟨hnew, hnodup⟩ := Graph.keys_observeAll h.hooked.graph.keyed (.script script) ps
  refine ⟨hh, ?_, ?_, ?_⟩ <;> rw [hs]
  · refine List.pairwise_cons.2 ⟨fun e he k hm hm' => ?_, h.apart⟩
    obtain ⟨k₀, hk₀, rfl⟩ := List.mem_map.1 (ha hm)
    exact hnew k₀ hk₀ (h.hooked.graph.issued _ (addresses_subset he hm'))
  · refine List.forall_mem_cons.2 ⟨fun k hm => ⟨script, ?_⟩, fun e he k hm => ?_⟩
    · rw [hg, Graph.entries_observeAll]
      rcases hk with hk | hk <;> rw [hk] at hm
      · exact List.mem_append_right _ (mem_registrationsOn.2 ⟨rfl, hm⟩)
      · cases hm
    · obtain ⟨script', hm⟩ := h.stand e he k hm
      rw [hg, Graph.entries_observeAll]
      exact ⟨script', List.mem_append_left _ hm⟩
  · refine List.forall_mem_cons.2 ⟨?_, h.nodup⟩
    rcases hk with hk | hk <;> rw [hk]
    · exact hnodup
    · exact .nil

theorem takeBack (h : w.Held) (hs : w.names.subscriptions = before ++ (label, s) :: after)
    (hs' : w'.names.subscriptions = before ++ (label, s') :: after)
    (hg : w'.graph = w.graph.unobserveAll s.addresses) (ha : s'.addresses ⊆ s.addresses)
    (hk : s'.hooks = []) (hh : w'.Hooked) : w'.Held := by
  have hapart := h.apart
  rw [hs, List.pairwise_append, List.pairwise_cons] at hapart
  obtain ⟨hb, ⟨hsa, hafter⟩, hba⟩ := hapart
  have hother : ∀ e, e ∈ before ∨ e ∈ after → s.addresses.Disjoint e.2.addresses ∧
      e ∈ w.names.subscriptions := by
    rintro e (he | he) <;> rw [hs]
    · exact ⟨fun k hk hk' => hba e he _ (List.mem_cons_self ..) hk' hk, List.mem_append_left _ he⟩
    · exact ⟨hsa e he, List.mem_append_right _ (List.mem_cons_of_mem _ he)⟩
  have hcases : ∀ e ∈ before ++ (label, s') :: after, e = (label, s') ∨ e ∈ before ∨ e ∈ after := by
    intro e he
    rcases List.mem_append.1 he with he | he
    · exact .inr (.inl he)
    · exact (List.mem_cons.1 he).imp_right .inr
  refine ⟨hh, ?_, ?_, ?_⟩ <;> rw [hs']
  · refine List.pairwise_append.2 ⟨hb, List.pairwise_cons.2 ⟨fun e he => ?_, hafter⟩,
      fun e he e' he' => ?_⟩
    · exact fun k hk => hsa e he (ha hk)
    · rcases List.mem_cons.1 he' with rfl | he'
      · exact fun k hk hk' => hba e he _ (List.mem_cons_self ..) hk (ha hk')
      · exact hba e he e' (List.mem_cons_of_mem _ he')
  · intro e he k hm
    rcases hcases e he with rfl | he
    · rw [hk] at hm; cases hm
    · obtain ⟨hd, hmem⟩ := hother e he
      obtain ⟨script, hentry⟩ := h.stand e hmem k hm
      refine ⟨script, ?_⟩
      rw [hg, Graph.entries_unobserveAll]
      exact List.mem_filter.2 ⟨hentry, decide_eq_true fun ht => hd ht (Subscription.address_mem hm)⟩
  · intro e he
    rcases hcases e he with rfl | he
    · rw [hk]; exact .nil
    · exact h.nodup e (hother e he).2

theorem nodup_addresses (h : w.Held) (hm : (label, s) ∈ w.names.subscriptions) :
    (s.hooks.map Hook.address).Nodup := by
  refine List.Nodup.map_on (fun k hk k' hk' ha => ?_) (h.nodup _ hm)
  obtain ⟨o, t, key⟩ := k
  obtain ⟨o', t', key'⟩ := k'
  obtain ⟨rfl, rfl⟩ := Prod.mk.inj ha
  obtain ⟨script, he⟩ := h.stand _ hm _ hk
  obtain ⟨script', he'⟩ := h.stand _ hm _ hk'
  obtain rfl : t = t' := congrArg Registration.tag ((h.hooked.graph.keyed o).eq_of_key he he' rfl)
  rfl

theorem mem_keys (h : w.Held) (hm : (label, s) ∈ w.names.subscriptions) :
    ∀ k ∈ s.hooks, k.key ∈ (w.graph.registries.get k.target).keys := by
  intro k hk
  obtain ⟨script, he⟩ := h.stand _ hm k hk
  exact Registry.mem_keys he

variable [Foreign F]

theorem off (h : w.Held) {answer : Answer} (ho : w.off label = .ok (w', answer)) : w'.Held := by
  have hh : w'.Hooked := Moves.hooked (moves_off ho) h.hooked
  obtain ⟨s, hs, ho⟩ := exists_of_bind ho
  obtain ⟨before, after, hbefore, hset⟩ := exists_of_subscription hs
  cases s with
  | object o key =>
    cases ho
    exact h.takeBack hbefore hbefore rfl (List.Subset.refl _) rfl hh
  | dispatcher d key =>
    cases ho
    exact h.of_spares (.of_eq rfl rfl) hh
  | tracker name key =>
    obtain ⟨id, -, ho⟩ := exists_of_bind ho
    cases ho
    exact h.of_spares (.of_eq rfl rfl) hh
  | accessor records =>
    cases ho
    refine h.takeBack hbefore (hset (.accessor none)) ?_ (List.nil_subset _) rfl hh
    cases records with
    | none => rfl
    | some rs => exact Graph.detachAll_eq rs
  | attached record =>
    cases record with
    | none => cases ho; exact h
    | some r =>
      cases ho
      exact h.takeBack hbefore (hset (.attached none)) (Graph.detach_eq r)
        (List.nil_subset _) rfl hh

theorem listen (h : w.Held) {script : ScriptId} {source : Source} {answer : Answer}
    (hl : w.listen label script source = .ok (w', answer)) : w'.Held := by
  have hh : w'.Hooked := Moves.hooked (moves_listen hl) h.hooked
  cases source with
  | topic on topic =>
    obtain ⟨o, -, hl⟩ := exists_of_bind hl
    cases hl
    exact h.subscribe script [(o, topic)] rfl rfl (List.Subset.refl _) (.inr rfl) hh
  | topics on topics =>
    obtain ⟨o, -, hl⟩ := exists_of_bind hl
    cases hl
    have ha := Graph.attach_eq (g := w.graph) o topics (.script script)
    have hhooks := congrArg Prod.fst ha
    have hgraph := congrArg Prod.snd ha
    refine h.subscribe script _ hgraph rfl ?_ (.inl hhooks) hh
    rw [← hhooks]; exact List.Subset.refl _
  | dispatcher on tag =>
    obtain ⟨d, -, hl⟩ := exists_of_bind hl
    cases hl
    exact h.subscribe script [] rfl rfl (List.nil_subset _) (.inr rfl) hh
  | accessor route root =>
    obtain ⟨a, -, hl⟩ := exists_of_bind hl
    obtain ⟨⟨root, w₁⟩, hr, hl⟩ := exists_of_bind hl
    obtain ⟨he, -⟩ := evaluates_evaluate hr
    have hread := w₁.graph.readTo_walk a root
    have h₁ : w₁.Held := h.of_spares (.evaluates he) (he.moves.hooked h.hooked)
    rcases hs : w₁.graph.subscribe a root (.script script) with ⟨e | records, g⟩
    · simp only [hs] at hl
      cases hl
      exact h₁.of_spares ⟨.of_entries (Graph.entries_of_subscribe_failed h₁.hooked.graph.keyed hs),
        rfl⟩ hh
    · simp only [hs] at hl
      cases hl
      obtain ⟨rfl, hhooks, -⟩ := Graph.exists_subscribe_ok hs
      have h₂ : World.Held { w₁ with graph := (w₁.graph.walk a root).2 } :=
        h₁.of_spares (.of_eq hread.registries rfl) (Move.hooked (.read hread) h₁.hooked)
      refine h₂.subscribe script _ rfl rfl ?_ (.inl hhooks) hh
      rw [← hhooks]; exact List.Subset.refl _
  | tracker on =>
    obtain ⟨id, -, hl⟩ := exists_of_bind hl
    cases hl
    exact h.subscribe script [] rfl rfl (List.nil_subset _) (.inr rfl) hh

end Held
variable [Foreign F]

theorem subscriptions_listen {script : ScriptId} {source : Source} {answer : Answer}
    (h : w.listen label script source = .ok (w', answer)) :
    w.names.subscriptions <:+ w'.names.subscriptions := by
  cases source with
  | topic on topic | topics on topics | dispatcher on tag | tracker on =>
    obtain ⟨o, -, h⟩ := exists_of_bind h
    cases h
    exact List.suffix_cons ..
  | accessor route root =>
    obtain ⟨a, -, h⟩ := exists_of_bind h
    obtain ⟨⟨root, w₁⟩, hr, h⟩ := exists_of_bind h
    have hnames := (evaluates_evaluate hr).1.names
    rcases hs : w₁.graph.subscribe a root (.script script) with ⟨e | records, g⟩
    · simp only [hs] at h
      cases h
      exact ⟨[], congrArg Names.subscriptions hnames.symm⟩
    · simp only [hs] at h
      cases h
      rw [← hnames]
      exact List.suffix_cons ..

omit [Foreign F] in
/-- Of the subscriptions with an accessor, to take one back leaves the others alone. -/
theorem taken_of_off {name : String} {records : List Record} {answer : Answer}
    (hm : (name, .accessor (some records)) ∈ w.names.subscriptions)
    (h : w.off label = .ok (w', answer))
    (hn : (name, .accessor (some records)) ∉ w'.names.subscriptions) :
    w'.graph = (w.graph.detachAll records).2 := by
  obtain ⟨s, hs, h⟩ := exists_of_bind h
  obtain ⟨before, after, hbefore, hset⟩ := exists_of_subscription hs
  have hrest {s' : Subscription} (hw : w'.names.subscriptions = before ++ (label, s') :: after) :
      (name, .accessor (some records)) = (label, s) := by
    rw [hbefore] at hm
    rw [hw] at hn
    rcases List.mem_append.1 hm with hm | hm
    · exact absurd (List.mem_append_left _ hm) hn
    · refine (List.mem_cons.1 hm).resolve_right fun hm => hn ?_
      exact List.mem_append_right _ (List.mem_cons_of_mem _ hm)
  cases s with
  | object o key | dispatcher d key => cases h; exact absurd hm hn
  | tracker on key =>
    obtain ⟨id, -, h⟩ := exists_of_bind h
    cases h
    exact absurd hm hn
  | accessor records' =>
    cases h
    cases hrest (hset (.accessor none))
    rfl
  | attached record =>
    cases record with
    | none => cases h; exact absurd hm hn
    | some r => cases h; cases hrest (hset (.attached none))

end World

namespace Machine
variable [Foreign F] {m m' : Machine F}

theorem held_perform (h : m.world.Held) (c : Command F) : (m.perform c).1.world.Held := by
  have hh : (m.perform c).1.world.Hooked := (m.does_perform c).hooked h.hooked
  cases c with
  | act action =>
    simp only [perform, act] at hh ⊢
    split
    · next e he =>
      rw [he] at hh
      by_cases ha : ∃ label, action = .off label
      · obtain ⟨label, rfl⟩ := ha
        obtain ⟨answer, ho⟩ := exists_of_map he
        exact h.off ho
      · exact h.of_spares (.effectOf h.hooked he fun label hl => ha ⟨label, hl⟩) hh
    · exact h
  | listen label source times commands =>
    simp only [perform, Machine.listen]
    split
    · next hl => exact h.listen hl
    · exact h

/-- Whatever touches registrations of scripts is a command. -/
theorem Turn.spares {frame : Frame F} (ht : m.Turn frame m') (h : m.world.Hooked) :
    m.world.Spares m'.world ∨ ∃ c, m'.world = (m.perform c).1.world := by
  cases ht with
  | perform c cs => exact .inr ⟨c, world_notify ..⟩
  | pass | again => exact .inl (.retrack (.pass h.graph rfl))
  | _ => exact .inl (.of_eq rfl rfl)

theorem Step.spares (hs : m.Step m') (h : m.world.Hooked) :
    m.world.Spares m'.world ∨ ∃ b c, b.world.Hooked ∧ b.world.graph = m.world.graph ∧
      b.world.names = m.world.names ∧
      m'.world = (perform b c).1.world := by
  cases hs with
  | turn hn =>
    obtain ⟨frame, m₀, rfl, ht⟩ := exists_turn hn
    exact (ht.spares h).imp_right fun ⟨c, hc⟩ => ⟨m₀, c, h, rfl, rfl, hc⟩
  | command _ c => exact .inr ⟨m.afresh, c, ⟨h.graph, h.released⟩, rfl, rfl, world_notify ..⟩
  | divert => exact .inl (.refl _)

theorem Step.held (hs : m.Step m') (h : m.world.Held) : m'.world.Held := by
  rcases hs.spares h.hooked with hspares | ⟨b, c, hb, hg, hn, hc⟩
  · exact h.of_spares hspares (hs.hooked h.hooked)
  · rw [hc]
    exact held_perform (h.of_spares (.of_eq (by rw [hg]) (by rw [hn])) hb) c

theorem Leads.held (hl : m.Leads m') (h : m.world.Held) : m'.world.Held := by
  induction hl with
  | refl => exact h
  | tail _ hs ih => exact hs.held ih

theorem taken_of_perform (h : m.world.Hooked) {c : Command F} {name : String}
    {records : List Record} (hm : (name, .accessor (some records)) ∈ m.world.names.subscriptions)
    (hn : (name, .accessor (some records)) ∉ (m.perform c).1.world.names.subscriptions) :
    (m.perform c).1.world.graph = (m.world.graph.detachAll records).2 := by
  cases c with
  | act action =>
    simp only [perform, act] at hn ⊢
    split at hn
    · next e he =>
      by_cases ha : ∃ label, action = .off label
      · obtain ⟨label, rfl⟩ := ha
        obtain ⟨answer, ho⟩ := exists_of_map he
        exact World.taken_of_off hm ho hn
      · rw [(World.Spares.effectOf h he fun label hl => ha ⟨label, hl⟩).subscriptions] at hn
        exact absurd hm hn
    · exact absurd hm hn
  | listen label source times commands =>
    simp only [perform, Machine.listen] at hn ⊢
    split at hn
    · next hl => exact absurd ((World.subscriptions_listen hl).subset hm) hn
    · exact absurd hm hn

theorem Step.taken (hs : m.Step m') (h : m.world.Hooked) {name : String} {records : List Record}
    (hm : (name, .accessor (some records)) ∈ m.world.names.subscriptions)
    (hn : (name, .accessor (some records)) ∉ m'.world.names.subscriptions) :
    m'.world.graph = (m.world.graph.detachAll records).2 := by
  rcases hs.spares h with hspares | ⟨b, c, hb, hg, hnames, hc⟩
  · exact absurd (hspares.subscriptions ▸ hm) hn
  · rw [hc] at hn ⊢
    rw [taken_of_perform hb (hnames ▸ hm) hn, hg]

/-- What a command does that registers a listener with all that an accessor depends on. -/
theorem exists_of_subscribed {label : String} {route : Route} {root : Term} {times : Nat}
    {commands : List (Command F)} {records : List Record}
    (h : (m.perform (.listen label (.accessor route root) times commands)).2.1 =
      .subscribed records) :
    ∃ a v w g, m.world.accessorOf route = .ok a ∧ m.world.evaluate root = .ok (v, w) ∧
      w.graph.subscribe a v (.script m.scripts.next) = (.ok records, g) ∧
      (m.perform (.listen label (.accessor route root) times commands)).1.world =
        { w with graph := g }.nameSubscription label (.accessor (some records)) := by
  simp only [perform, Machine.listen] at h ⊢
  split at h
  · next w' answer hl =>
    obtain rfl : answer = .subscribed records := h
    obtain ⟨a, ha, hl⟩ := exists_of_bind hl
    obtain ⟨⟨v, w⟩, hv, hl⟩ := exists_of_bind hl
    rcases hs : w.graph.subscribe a v (.script m.scripts.next) with ⟨e | rs, g⟩
    · simp only [hs] at hl
      cases hl
    · simp only [hs] at hl
      cases hl
      exact ⟨a, v, w, g, ha, hv, hs, rfl⟩
  · cases h

theorem entries_of_listen_failed (h : m.world.Hooked) {label : String} {route : Route} {root : Term}
    {times : Nat} {commands : List (Command F)} {f : Failure}
    (hf : (m.perform (.listen label (.accessor route root) times commands)).2.1 = .failed f)
    (o : ObjectId) :
    ((m.perform
        (.listen label (.accessor route root) times commands)).1.world.graph.registries.get
          o).entries =
      (m.world.graph.registries.get o).entries := by
  simp only [perform, Machine.listen] at hf ⊢
  split at hf
  · next w' answer hl =>
    obtain rfl : answer = .failed f := hf
    obtain ⟨a, ha, hl⟩ := exists_of_bind hl
    obtain ⟨⟨v, w⟩, hv, hl⟩ := exists_of_bind hl
    obtain ⟨he, -⟩ := World.evaluates_evaluate hv
    rcases hs : w.graph.subscribe a v (.script m.scripts.next) with ⟨e | rs, g⟩
    · simp only [hs] at hl
      cases hl
      have hkeyed := (he.moves.hooked h).graph.keyed
      exact (Graph.entries_of_subscribe_failed hkeyed hs o).trans (by rw [he.registries])
    · simp only [hs] at hl
      cases hl
  · rfl

theorem perform_off {label : String} {records : List Record}
    (h : m.world.subscription label = .ok (.accessor (some records))) :
    (m.perform (.act (.off label))).2.1 = .number (m.world.graph.detachAll records).1 ∧
      (m.perform (.act (.off label))).1.world.graph = (m.world.graph.detachAll records).2 := by
  have hoff : effectOf m.world (.off label) = .ok
      ⟨{ m.world with graph := (m.world.graph.detachAll records).2 }.setSubscription label
        (.accessor none), .number (m.world.graph.detachAll records).1, .silent⟩ := by
    simp only [effectOf, World.off, h]; rfl
  simp only [perform, act, hoff, true_and]
  rfl

omit [Foreign F] in
theorem held_empty : ({} : Machine F).world.Held :=
  ⟨hooked_empty, .nil, nofun, nofun⟩

theorem Reachable.held (h : m.Reachable) : m.world.Held :=
  Leads.held h held_empty

/--
Subscriptions are exact, reversible and all or nothing. On any graph with the registries of a
reachable state, to subscribe registers the observer once for each object and topic of the
dependencies of the walk, outermost first and behind all other registrations; if the walk fails,
every object has the registrations that it had. The dependencies are those of the links, one after
the other, up to the first absent value. A script that listens so keeps these registrations,
whatever happens, until a step takes its subscription back. Then just these are taken out, each
counts, and all others stay as they are, in their order.
-/
theorem subscriptions_exact_and_reversible (hm : m.Reachable) :
    (∀ (g : Graph F) a v observer, g.registries = m.world.graph.registries →
      match (g.walk a v).1.outcome with
      | .ok _ => ∃ records g', g.subscribe a v observer = (.ok records, g') ∧
          (hooksOf records).map (fun h => (h.target, h.topic)) = (g.walk a v).1.pairs ∧
          ∀ o, (g'.registries.get o).entries =
            (g.registries.get o).entries ++ registrationsOn o observer (hooksOf records)
      | .error e => ∃ g', g.subscribe a v observer = (.error e, g') ∧
          ∀ o, (g'.registries.get o).entries = (g.registries.get o).entries) ∧
    (∀ (g : Graph F) v, (g.walk .root v).1.dependencies = []) ∧
    (∀ (g : Graph F) parent node v, (g.walk (.join parent node) v).1.dependencies =
      (g.walk parent v).1.dependencies ++ match (g.walk parent v).1.outcome with
        | .ok (some target) => node.dependencies target
        | _ => []) ∧
    ∀ b, b = m ∨ b = m.afresh → ∀ label route root times commands,
      let after := b.perform (.listen label (.accessor route root) times commands)
      (∀ f, after.2.1 = .failed f → ∀ o,
        (after.1.world.graph.registries.get o).entries = (m.world.graph.registries.get o).entries) ∧
      ∀ records, after.2.1 = .subscribed records →
        (∃ a v w, b.world.accessorOf route = .ok a ∧ b.world.evaluate root = .ok (v, w) ∧
          w.graph.registries = b.world.graph.registries ∧
          w.graph.subscribe a v (.script b.scripts.next) = (.ok records, after.1.world.graph)) ∧
        (label, .accessor (some records)) ∈ after.1.world.names.subscriptions ∧
        ∀ j k : Machine F, j.world = after.1.world → j.Leads k → ∀ name,
          (name, .accessor (some records)) ∈ k.world.names.subscriptions →
          let back := k.world.graph.detachAll records
          back.1 = (hooksOf records).length ∧
          (∀ o, (k.world.graph.registries.get o).entries.filter
              (fun e => (o, e.key) ∈ (hooksOf records).map Hook.address) =
              registrationsOn o (.script b.scripts.next) (hooksOf records) ∧
            (back.2.registries.get o).entries = (k.world.graph.registries.get o).entries.filter
              fun e => (o, e.key) ∉ (hooksOf records).map Hook.address) ∧
          (∀ k', k.Step k' → (name, .accessor (some records)) ∉ k'.world.names.subscriptions →
            k'.world.graph = back.2) ∧
          (k.world.subscription name = .ok (.accessor (some records)) →
            (k.perform (.act (.off name))).2.1 = .number back.1 ∧
            (k.perform (.act (.off name))).1.world.graph = back.2) := by
  refine ⟨fun g a v observer hr =>
    Graph.exists_subscribed (fun o => hr ▸ hm.hooked.graph.keyed o) a v observer, fun _ _ => rfl,
      Graph.dependencies_walk_join, ?_⟩
  intro b hb label route root times commands after
  have hgraph : b.world.graph = m.world.graph := by rcases hb with rfl | rfl <;> rfl
  have hbegin : b.world.Held := by
    rcases hb with rfl | rfl
    · exact hm.held
    · exact hm.held.of_spares (.of_eq rfl rfl) ⟨hm.hooked.graph, hm.hooked.released⟩
  rw [← hgraph]
  refine ⟨fun f hf => entries_of_listen_failed hbegin.hooked hf, fun records hrecords => ?_⟩
  obtain ⟨a, v, w, g, ha, hv, hs, hafter⟩ := exists_of_subscribed hrecords
  obtain ⟨he, -⟩ := World.evaluates_evaluate hv
  refine ⟨⟨a, v, w, ha, hv, he.registries, ?_⟩, ?_, fun j k hj hl name hname => ?_⟩
  · rw [hs, show after.1.world = _ from hafter]; rfl
  · rw [show after.1.world = _ from hafter]; exact List.mem_cons_self ..
  -- In every run a world holds what its subscriptions tell, so that the keys are still registered
  -- when the subscription is taken back.
  have hheld : j.world.Held := hj ▸ held_perform hbegin _
  have hk : k.world.Held := hl.held hheld
  have hstay := hk.mem_keys hname
  refine ⟨Graph.count_detachAll (hk.nodup_addresses hname) hstay, fun o => ⟨?_, ?_⟩,
    fun k' hs => hs.taken hk.hooked hname, perform_off⟩
  · -- Before the run the registrations of the script stand behind all others of the object.
    have hnew : (j.world.graph.registries.get o).entries = (w.graph.registries.get o).entries ++
        registrationsOn o (.script b.scripts.next) (hooksOf records) := by
      rw [hj, show after.1.world = _ from hafter]
      exact Graph.entries_of_subscribed hs o
    exact Graph.filter_address_mem hheld.hooked.graph.keyed hl.leadsTo.objects hnew hstay
  · rw [Graph.detachAll_eq, Graph.entries_unobserveAll]

/-- Beside the tracker of `tracking`, a script listens to the same attribute. -/
def listeningBeside : Command Empty :=
  .listen "l" (.accessor (.nodes ⟨[⟨.attr "name", "name", 0⟩]⟩) (.reference "m")) 1 []

/-- The attribute is set, the tracker observes it anew, and then the script takes its registration
back. -/
theorem subscriptions_exact_and_reversible_tracking :
    let records : List Record := [⟨0, [(.change "name", ⟨1, 0⟩)]⟩]
    let k := next^[8]
      ((tracking.begin listeningBeside).begin (.act (.edit "m" (.set "name" (.int 7)))))
    tracking.Reachable ∧ (tracking.perform listeningBeside).2.1 = .subscribed records ∧
      k.stack = [] ∧
      (k.world.graph.registries.get 0).entries.length = 2 ∧
      (k.perform (.act (.off "l"))).2.1 = .number 1 := by
  intro records k
  have hl : (tracking.begin listeningBeside).Leads k :=
    .head (.command rfl _) (leads_iterate_next _ _)
  obtain ⟨-, -, -, hlisten⟩ := subscriptions_exact_and_reversible reachable_tracking
  obtain ⟨-, hsubscribed⟩ :=
    hlisten tracking.afresh (.inr rfl) "l" (.nodes ⟨[⟨.attr "name", "name", 0⟩]⟩)
    (.reference "m") 1 []
  obtain ⟨-, -, htaken⟩ := hsubscribed records rfl
  obtain ⟨hcount, -, -, hoff⟩ :=
    htaken (tracking.begin listeningBeside) k rfl hl "l" (List.mem_cons_self ..)
  refine ⟨reachable_tracking, rfl, rfl, rfl, (hoff rfl).1.trans ?_⟩
  rw [hcount]
  rfl

end Machine
end LivePath
