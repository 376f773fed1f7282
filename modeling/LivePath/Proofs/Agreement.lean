import LivePath.Proofs.Contents
import LivePath.Proofs.Lifetimes

/-!
# Worlds that agree

Two worlds agree if they hold the same objects and arrays under the same names, and trackers of the
same places; who listens to what may differ altogether. They agree after the same command, and the
answers are the same unless the command is about listeners (`Machine.agrees_perform`).
-/

namespace LivePath

/-- Subscriptions with one kind of source. -/
inductive Subscription.Kin : Subscription → Subscription → Prop
  | object (o o' : ObjectId) (k k' : Key) : Kin (.object o k) (.object o' k')
  | dispatcher (d : DispatcherId) (k k' : Key) : Kin (.dispatcher d k) (.dispatcher d k')
  | tracker (name : String) (k k' : Key) : Kin (.tracker name k) (.tracker name k')
  | accessor (rs rs' : Option (List Record)) : Kin (.accessor rs) (.accessor rs')
  | attached {r r' : Option Record} (h : r'.isSome = r.isSome) : Kin (.attached r) (.attached r')

/-- The same names in the same order, for related things. -/
abbrev Entries {α β : Type} (R : α → β → Prop) : List (String × α) → List (String × β) → Prop :=
  List.Forall₂ fun a b => a.1 = b.1 ∧ R a.2 b.2

namespace Entries
variable {α β : Type} {R : α → β → Prop} {xs : List (String × α)} {ys : List (String × β)}

theorem matches_find (h : Entries R xs ys) (name : String) :
    Matches R (World.find xs name some) (World.find ys name some) := by
  unfold World.find
  induction h with
  | nil => exact .error _
  | @cons a b xs ys hab h ih =>
    obtain ⟨n, x⟩ := a
    obtain ⟨n', y⟩ := b
    obtain ⟨hn, hr⟩ := hab
    cases (show n = n' from hn)
    by_cases hname : name = n
    · simp only [hname, List.lookup_cons_self, Option.bind_some]
      exact .ok hr
    · simp only [List.lookup_cons, beq_eq_false_iff_ne.2 hname]
      exact ih

theorem modifyNewest (h : Entries R xs ys) (name : String) {f : α → α} {g : β → β}
    (hf : ∀ a b, R a b → R (f a) (g b)) :
    Entries R (LivePath.modifyNewest name f xs) (LivePath.modifyNewest name g ys) := by
  induction h with
  | nil => exact .nil
  | @cons a b xs ys hab h ih =>
    obtain ⟨n, x⟩ := a
    obtain ⟨n', y⟩ := b
    obtain ⟨hn, hr⟩ := hab
    cases (show n = n' from hn)
    unfold LivePath.modifyNewest
    split
    · exact .cons ⟨rfl, hf _ _ hr⟩ h
    · exact .cons ⟨rfl, hr⟩ ih

end Entries

theorem Subscription.Kin.refl (s : Subscription) : s.Kin s := by
  cases s with
  | object o k => exact .object ..
  | dispatcher d k => exact .dispatcher ..
  | tracker name k => exact .tracker ..
  | accessor rs => exact .accessor ..
  | attached r => exact .attached rfl

/-! ### Trackers -/

/-- Both observe the same place, or are both disposed. -/
structure Tracker.Agrees (t t' : Tracker) : Prop where
  accessor : t'.accessor = t.accessor
  root : t'.root = t.root
  disposed : t'.isDisposed = t.isDisposed

/-- The same trackers, up to what they observe and who listens to them. -/
structure Table.Agrees (ts ts' : Table Tracker) : Prop where
  next : ts'.next = ts.next
  tracker (id : TrackerId) : (ts.get id).Agrees (ts'.get id)

namespace Table.Agrees
variable {ts ts' : Table Tracker}

theorem set (h : ts.Agrees ts') (id : TrackerId) {t t' : Tracker} (ht : t.Agrees t') :
    (ts.set id t).Agrees (ts'.set id t') := by
  refine ⟨by rw [next_set, next_set, h.next], fun i => ?_⟩
  rw [get_set, get_set]
  split
  · exact ht
  · exact h.tracker i

theorem setLeft (h : ts.Agrees ts') {id : TrackerId} (hlt : id < ts.next) {t : Tracker}
    (ht : t.Agrees (ts'.get id)) :
    (ts.set id t).Agrees ts' := by
  refine ⟨by rw [next_set_of_lt ts hlt, h.next], fun i => ?_⟩
  rw [get_set]
  split
  · next hi => rw [hi]; exact ht
  · exact h.tracker i

theorem push (h : ts.Agrees ts') {t t' : Tracker} (ht : t.Agrees t') :
    (ts.push t).Agrees (ts'.push t') := by
  refine ⟨by rw [next_push, next_push, h.next], fun i => ?_⟩
  by_cases hi : i = ts.next
  · have hi' : i = ts'.next := hi.trans h.next.symm
    rw [hi, get_push_next, ← hi, hi', get_push_next]
    exact ht
  · rw [get_push_ne _ hi, get_push_ne _ (h.next ▸ hi)]
    exact h.tracker i

end Table.Agrees

theorem Tracker.agrees_dispose {t t' : Tracker} (h : t.Agrees t') (g g' : Graph Empty) :
    (t.dispose g).tracker.Agrees (t'.dispose g').tracker := by
  refine ⟨?_, ?_, ?_⟩
  · rw [(Continues.dispose g').accessor, (Continues.dispose g).accessor, h.accessor]
  · rw [(Continues.dispose g').root, (Continues.dispose g).root, h.root]
  · rw [isDisposed, isDisposed, phase_dispose, phase_dispose]

theorem Tracker.exists_bind_of_ok (id : TrackerId) {a : Accessor} {root : Value} {g : Graph Empty}
    {v : Option Value} (h : (g.trail a root).outcome = .ok v) :
    ∃ t es g', bind id a root g = (.ok (t, es), g') := by
  rw [bind, Graph.get_eq, h]
  simp only [Graph.subscribe, Graph.subscribeReached, Graph.walk_eq, h]
  exact ⟨_, _, _, rfl⟩

theorem Tracker.bind_of_error {id : TrackerId} {a : Accessor} {root : Value} {g : Graph Empty}
    {e : AccessError} (h : (g.trail a root).outcome = .error e) :
    bind id a root g = (.error e, g) := by
  rw [bind, Graph.get_eq, h]

namespace Graph
variable {g : Graph Empty} {a : Accessor} {root : Value}

theorem same_observeAll (g : Graph Empty) (observer : Observer) (ps : List (ObjectId × Topic)) :
    g.Same (g.observeAll observer ps).2 :=
  ⟨by simp, by simp⟩

theorem same_attach (g : Graph Empty) (o : ObjectId) (ts : List Topic) (observer : Observer) :
    g.Same (g.attach o ts observer).2 := by
  have heq := congrArg Prod.snd (attach_eq (g := g) o ts observer)
  rw [show (g.attach o ts observer).2 = _ from heq]
  exact g.same_observeAll observer _

theorem exists_subscribe_of_ok {v : Option Value} (h : (g.trail a root).outcome = .ok v)
    (observer : Observer) :
    ∃ rs, g.subscribe a root observer = (.ok rs, (g.observeAll observer (g.trail a root).pairs).2) ∧
      hooksOf rs = (g.observeAll observer (g.trail a root).pairs).1 := by
  rcases hs : g.subscribe a root observer with ⟨result, g'⟩
  have hresult : ∃ rs, result = .ok rs := by
    simp only [subscribe, subscribeReached, walk_eq, h] at hs
    exact ⟨_, (congrArg Prod.fst hs).symm⟩
  obtain ⟨rs, rfl⟩ := hresult
  obtain ⟨hg, hh, -⟩ := exists_subscribe_ok hs
  rw [walk_eq] at hg hh
  exact ⟨rs, by rw [hg], hh⟩

theorem subscribe_of_error {e : AccessError} (h : (g.trail a root).outcome = .error e)
    (observer : Observer) :
    g.subscribe a root observer =
      (.error e, (g.observeAll observer (g.trail a root).pairs).2.unobserveAll
      ((g.observeAll observer (g.trail a root).pairs).1.map Hook.address)) := by
  rcases hs : g.subscribe a root observer with ⟨result, g'⟩
  have hresult : result = .error e := by
    simp only [subscribe, subscribeReached, walk_eq, h] at hs
    exact (congrArg Prod.fst hs).symm
  rw [hresult] at hs
  have hg := exists_subscribe_error hs
  rw [walk_eq] at hg
  rw [hresult, hg]

end Graph

/-! ### Commands -/

/-- What actions tell about listeners, or do to them, and nothing else. -/
def Action.AboutListeners {F : Type} : Action F → Prop
  | .ask question => ¬ question.OnContents
  | .clear _ => True
  | .off _ => True
  | .tracker _ .observed => True
  | _ => False

def Command.AboutListeners {F : Type} : Command F → Prop
  | .act action => action.AboutListeners
  | .listen .. => True

namespace World

/-- The same contents under the same names; listeners may differ. -/
structure Agrees (w w' : World Empty) : Prop where
  same : w.graph.Same w'.graph
  objects : w'.names.objects = w.names.objects
  accessors : w'.names.accessors = w.names.accessors
  names : w'.names.trackers = w.names.trackers
  subscriptions : Entries Subscription.Kin w.names.subscriptions w'.names.subscriptions
  trackers : w.trackers.Agrees w'.trackers
  dispatchers : w'.dispatchers.next = w.dispatchers.next

namespace Agrees
variable {w w' : World Empty}

theorem refl (w : World Empty) : w.Agrees w where
  same := .refl _
  objects := rfl
  accessors := rfl
  names := rfl
  subscriptions := List.forall₂_same.2 fun e _ => ⟨rfl, .refl e.2⟩
  trackers := ⟨rfl, fun _ => ⟨rfl, rfl, rfl⟩⟩
  dispatchers := rfl

theorem likeness : Likeness (fun _ => False) Agrees Eq where
  same h := h.same
  objects h := h.objects
  accessors h := h.accessors
  dispatchers h := h.dispatchers
  tracker {w w'} h {name} _ := by
    have hname : w'.tracker name = w.tracker name := congrArg (find · name some) h.names
    rw [hname]
    cases w.tracker name with
    | ok id => exact .ok rfl
    | error e => exact .error e
  bound h id id' ht := by
    cases ht
    exact ⟨(h.trackers.tracker id).accessor, (h.trackers.tracker id).root⟩
  setArrays h arrays := { h with same := ⟨h.same.objects, rfl⟩ }
  setObjects h objects := { h with same := ⟨rfl, h.same.arrays⟩ }
  nameObject h name n := { h with objects := congrArg ((name, n) :: ·) h.objects }
  nameAccessor h name a := { h with accessors := congrArg ((name, a) :: ·) h.accessors }
  addDispatcher h := { h with dispatchers := by simp [h.dispatchers] }
  logAll h _ _ := { h with }

theorem nameTracker (h : Agrees w w') (name : String) (id : TrackerId) :
    Agrees (w.nameTracker name id) (w'.nameTracker name id) :=
  { h with names := congrArg ((name, id) :: ·) h.names }

theorem nameSubscription (h : Agrees w w') (label : String) {s s' : Subscription} (hs : s.Kin s') :
    Agrees (w.nameSubscription label s) (w'.nameSubscription label s') :=
  { h with subscriptions := .cons ⟨rfl, hs⟩ h.subscriptions }

theorem setGraph (h : Agrees w w') (g g' : Graph Empty) (hg : w.graph.Same g)
    (hg' : w'.graph.Same g') :
    Agrees { w with graph := g } { w' with graph := g' } :=
  { h with
    same := ⟨by rw [hg'.objects, h.same.objects, hg.objects],
      by rw [hg'.arrays, h.same.arrays, hg.arrays]⟩ }

theorem setTracker (h : Agrees w w') (id : TrackerId) {t t' : Tracker} (ht : t.Agrees t') :
    Agrees { w with trackers := w.trackers.set id t }
      { w' with trackers := w'.trackers.set id t' } :=
  { h with trackers := h.trackers.set id ht }

theorem modifyTracker (h : Agrees w w') (id : TrackerId) (f f' : Tracker → Tracker)
    (hf : ∀ t t', t.Agrees t' → (f t).Agrees (f' t')) :
    Agrees (w.modifyTracker id f) (w'.modifyTracker id f') :=
  h.setTracker id (hf _ _ (h.trackers.tracker id))

theorem modifyDispatcher (h : Agrees w w') (d : DispatcherId)
    (f f' : Registry Int ScriptId → Registry Int ScriptId) :
    Agrees (w.modifyDispatcher d f) (w'.modifyDispatcher d f') := by
  have hnext : (w'.dispatchers.set d (f' (w'.dispatchers.get d))).next =
      (w.dispatchers.set d (f (w.dispatchers.get d))).next := by
    rw [Table.next_set, Table.next_set, h.dispatchers]
  exact { h with dispatchers := hnext }

/-! ### Trackers -/

theorem track (h : Agrees w w') (name : String) (a : Accessor) (root : Value) :
    Agrees (w.track name a root).world (w'.track name a root).world ∧
      (w'.track name a root).answer = (w.track name a root).answer := by
  have htrail := h.same.trail a root
  rw [World.track, World.track]
  cases hout : (w.graph.trail a root).outcome with
  | error e =>
    rw [Tracker.bind_of_error hout, Tracker.bind_of_error (htrail ▸ hout)]
    exact ⟨h, rfl⟩
  | ok v =>
    obtain ⟨t, es, g, hb⟩ := Tracker.exists_bind_of_ok w.trackers.next hout
    obtain ⟨t', es', g', hb'⟩ := Tracker.exists_bind_of_ok w'.trackers.next (htrail ▸ hout)
    obtain ⟨-, ht, hobs, ho, ha⟩ := Tracker.exists_bind hb
    obtain ⟨-, ht', hobs', ho', ha'⟩ := Tracker.exists_bind hb'
    rw [hb, hb']
    have hlength : t'.records.length = t.records.length := by
      have hl := congrArg List.length (of_decide_eq_true hobs)
      have hl' := congrArg List.length (of_decide_eq_true hobs')
      rw [htrail] at hl'
      simpa using hl'.trans hl.symm
    have hagree : t.Agrees t' := by
      rw [ht, ht']
      exact ⟨rfl, rfl, rfl⟩
    have hgraph := h.setGraph g g' ⟨ho, ha⟩ ⟨ho', ha'⟩
    have hpush : Agrees { w with trackers := w.trackers.push t, graph := g }
        { w' with trackers := w'.trackers.push t', graph := g' } :=
      { hgraph with trackers := h.trackers.push hagree }
    refine ⟨?_, by simp only [hlength]⟩
    show Agrees (({ w with trackers := w.trackers.push t, graph := g }.logAll es).nameTracker name
      w.trackers.next)
        (({ w' with trackers := w'.trackers.push t', graph := g' }.logAll es').nameTracker name
        w'.trackers.next)
    rw [h.trackers.next]
    exact (likeness.logAll hpush es es').nameTracker name _

theorem matches_operate (h : Agrees w w') (name : String) (action : TrackerAction) :
    Matches (fun e e' => Agrees e.world e'.world ∧
      (¬ (Action.tracker (F := Empty) name action).AboutListeners → e'.answer = e.answer))
      (w.operate name action) (w'.operate name action) := by
  have hid : Matches Eq (w.tracker name) (w'.tracker name) := likeness.tracker h id
  have hplain {action : TrackerAction} (ha : (Action.tracker (F := Empty) name action).OnContents) :
      Matches (fun e e' => Agrees e.world e'.world ∧
        (¬ (Action.tracker (F := Empty) name action).AboutListeners → e'.answer = e.answer))
        (w.operate name action) (w'.operate name action) :=
    (likeness.matches_operate h id ha).imp fun _ _ he => ⟨he.world, fun _ => he.answer⟩
  cases action with
  | track root route =>
    refine .bind_eq (likeness.accessorOf h route) fun a => ?_
    refine (likeness.matches_evaluate h).bind_value fun root w₁ w₁' h₁ => .ok ?_
    obtain ⟨hw, ha⟩ := h₁.track name a root
    exact ⟨hw, fun _ => ha⟩
  | clone other =>
    refine hid.bind fun id id' ht => ?_
    cases ht
    have hm := h.modifyTracker id (fun t => { t with handles := t.handles + 1 })
      (fun t => { t with handles := t.handles + 1 }) fun t t' ht =>
        ⟨ht.accessor, ht.root, ht.disposed⟩
    exact .ok ⟨hm.nameTracker other id, fun _ => rfl⟩
  | drop =>
    refine hid.bind fun id id' ht => ?_
    cases ht
    have hm := h.modifyTracker id (fun t => { t with handles := t.handles - 1 })
      (fun t => { t with handles := t.handles - 1 }) fun t t' ht =>
        ⟨ht.accessor, ht.root, ht.disposed⟩
    have hnames :
        w'.names.trackers.eraseP (·.1 = name) = w.names.trackers.eraseP (·.1 = name) := by
      rw [h.names]
    exact .ok ⟨{ hm with names := hnames }, fun _ => rfl⟩
  | get => exact hplain trivial
  | hasValue => exact hplain trivial
  | set v => exact hplain trivial
  | observed =>
    refine hid.bind fun id id' ht => .ok ⟨h, fun hn => absurd trivial hn⟩
  | dispose =>
    refine hid.bind fun id id' ht => ?_
    cases ht
    obtain ⟨ho, ha⟩ := Tracker.graph_dispose (g := w.graph) (w.trackers.get id)
    obtain ⟨ho', ha'⟩ := Tracker.graph_dispose (g := w'.graph) (w'.trackers.get id)
    have hgraph := h.setGraph _ _ ⟨ho, ha⟩ ⟨ho', ha'⟩
    have hset := hgraph.setTracker id
      (Tracker.agrees_dispose (h.trackers.tracker id) w.graph w'.graph)
    exact .ok ⟨likeness.logAll hset _ _, fun _ => rfl⟩
  | isDisposed =>
    refine hid.bind fun id id' ht => ?_
    cases ht
    exact .ok ⟨h, fun _ => congrArg Answer.truth (h.trackers.tracker id).disposed⟩

/-! ### Listeners -/

theorem matches_listen (h : Agrees w w') (label : String) (script script' : ScriptId)
    (source : Source) :
    Matches (fun a b => Agrees a.1 b.1) (w.listen label script source)
      (w'.listen label script' source) := by
  cases source with
  | topic on topic =>
    refine .bind_eq (likeness.find h on _) fun o => .ok ?_
    exact (h.setGraph (w.graph.observe o topic _) (w'.graph.observe o topic _) ⟨rfl, rfl⟩
      ⟨rfl, rfl⟩).nameSubscription label (.object ..)
  | topics on topics =>
    refine .bind_eq (likeness.find h on _) fun o => .ok ?_
    exact (h.setGraph _ _ (w.graph.same_attach o topics _)
      (w'.graph.same_attach o topics _)).nameSubscription label (.attached rfl)
  | dispatcher on tag =>
    refine .bind_eq (likeness.find h on _) fun d => .ok ?_
    exact (h.modifyDispatcher d _ _).nameSubscription label (.dispatcher ..)
  | accessor route root =>
    refine .bind_eq (likeness.accessorOf h route) fun a => ?_
    refine (likeness.matches_evaluate h).bind_value fun root w₁ w₁' h₁ => ?_
    have htrail := h₁.same.trail a root
    cases hout : (w₁.graph.trail a root).outcome with
    | error e =>
      have hs := Graph.subscribe_of_error hout (.script script)
      have hs' := Graph.subscribe_of_error (htrail ▸ hout) (.script script')
      simp only [hs, hs']
      exact .ok (h₁.setGraph _ _ ⟨by simp, by simp⟩ ⟨by simp, by simp⟩)
    | ok v =>
      obtain ⟨rs, hs, -⟩ := Graph.exists_subscribe_of_ok hout (.script script)
      obtain ⟨rs', hs', -⟩ := Graph.exists_subscribe_of_ok (htrail ▸ hout) (.script script')
      simp only [hs, hs']
      exact .ok ((h₁.setGraph _ _ (Graph.same_observeAll ..)
        (Graph.same_observeAll ..)).nameSubscription label (.accessor ..))
  | tracker on =>
    refine (likeness.tracker h id).bind fun id id' ht => ?_
    cases ht
    have hlog := likeness.logAll h (w.trackers.get id).usedAfterDispose
      (w'.trackers.get id).usedAfterDispose
    have hm := hlog.modifyTracker id (fun t => { t with listeners := t.listeners.insert () script })
      (fun t => { t with listeners := t.listeners.insert () script' })
      fun t t' ht => ⟨ht.accessor, ht.root, ht.disposed⟩
    exact .ok (hm.nameSubscription label (.tracker ..))

theorem setSubscription (h : Agrees w w') (label : String) {s s' : Subscription} (hs : s.Kin s') :
    Agrees (w.setSubscription label s) (w'.setSubscription label s') :=
  { h with subscriptions := h.subscriptions.modifyNewest label fun _ _ _ => hs }

theorem matches_off (h : Agrees w w') (label : String) :
    Matches (fun a b => Agrees a.1 b.1) (w.off label) (w'.off label) := by
  have hsame (g : Graph Empty) (ks : List (ObjectId × Key)) : g.Same (g.unobserveAll ks) :=
    ⟨by simp, by simp⟩
  refine (h.subscriptions.matches_find label).bind fun s s' hs => ?_
  cases hs with
  | object o o' k k' =>
    exact .ok (h.setGraph _ _ (hsame w.graph [(o, k)]) (hsame w'.graph [(o', k')]))
  | dispatcher d k k' => exact .ok (h.modifyDispatcher d _ _)
  | tracker name k k' =>
    refine (likeness.tracker h id).bind fun id id' ht => ?_
    cases ht
    exact .ok (h.modifyTracker id _ _ fun t t' ht => ⟨ht.accessor, ht.root, ht.disposed⟩)
  | accessor rs rs' =>
    have hdetach (g : Graph Empty) (rs : List Record) : g.Same (g.detachAll rs).2 := by
      rw [Graph.detachAll_eq]
      exact hsame g _
    exact .ok <| (h.setGraph _ _ (hdetach w.graph _) (hdetach w'.graph _)).setSubscription label
      (.accessor ..)
  | attached hr =>
    next r r' =>
    have hdetach (g : Graph Empty) (r : Record) : g.Same (g.detach r).2 := by
      rw [Graph.detach_eq]
      exact hsame g _
    cases r with
    | none =>
      cases r' with
      | none => exact .ok h
      | some r' => cases hr
    | some r =>
      cases r' with
      | none => cases hr
      | some r' =>
        exact .ok ((h.setGraph _ _ (hdetach w.graph r) (hdetach w'.graph r')).setSubscription label
          (.attached rfl))

/-! ### All commands -/

theorem matches_clear (h : Agrees w w') (on : String) :
    Matches (fun a b => Agrees a.1 b.1) (w.clear on) (w'.clear on) :=
  .bind_eq (likeness.find h on _) fun d => .ok (h.modifyDispatcher d _ _)

end Agrees

theorem world_ask {w w' : World Empty} {question : Question} (hq : ¬ question.OnContents)
    {answer : Answer} (h : w.ask question = .ok (w', answer)) : w' = w := by
  cases question with
  | count on topic | size on | countTagged on tag | describe on =>
    obtain ⟨o, -, h⟩ := exists_of_bind h
    cases h
    rfl
  | contains on label =>
    obtain ⟨d, -, h⟩ := exists_of_bind h
    obtain ⟨key, -, h⟩ := exists_of_bind h
    cases h
    rfl
  | _ => exact absurd trivial hq

end World

/-! ### Announcements -/

section
variable {F : Type} [Foreign F]

omit [Foreign F] in
theorem Machine.silent_of_map {x : Except Failure (World F × Answer)}
    {f : World F × Answer → Effect F} {e : Effect F} (h : x.map f = .ok e)
    (hf : ∀ r, (f r).notice = .silent) : e.notice = .silent := by
  cases x with
  | error f => cases h
  | ok r =>
    cases h
    exact hf r

theorem World.silent_operate {w : World F} {name : String} {action : TrackerAction} {e : Effect F}
    (h : w.operate name action = .ok e) (ha : ∀ v, action ≠ .set v) : e.notice = .silent := by
  cases action with
  | set v => exact absurd rfl (ha v)
  | track root route =>
    obtain ⟨a, -, h⟩ := exists_of_bind h
    obtain ⟨⟨root, w₁⟩, -, h⟩ := exists_of_bind h
    cases h
    unfold World.track
    split <;> rfl
  | _ =>
    obtain ⟨id, -, h⟩ := exists_of_bind h
    cases h
    rfl

end

namespace Machine
variable {m k : Machine Empty}

theorem exists_act_ask (m : Machine Empty) {question : Question} (hq : ¬ question.OnContents) :
    ∃ answer, m.act (.ask question) = (m, answer, .silent) := by
  simp only [act, effectOf]
  rcases hask : m.world.ask question with f | ⟨w, answer⟩
  · exact ⟨_, rfl⟩
  · obtain rfl := World.world_ask hq hask
    exact ⟨answer, rfl⟩

theorem act_of_matches {P : Effect Empty → Effect Empty → Prop} {a : Action Empty}
    (h : Matches P (effectOf m.world a) (effectOf k.world a)) :
    (∃ e e', P e e' ∧ m.act a = ({ m with world := e.world }, e.answer, e.notice) ∧
      k.act a = ({ k with world := e'.world }, e'.answer, e'.notice)) ∨
    ∃ f, m.act a = (m, .failed f, .silent) ∧ k.act a = (k, .failed f, .silent) := by
  unfold act
  rcases h.cases with ⟨e, e', he, he', hp⟩ | ⟨f, he, he'⟩
  · rw [he, he']
    exact .inl ⟨e, e', hp, rfl, rfl⟩
  · rw [he, he']
    exact .inr ⟨f, rfl, rfl⟩

/-- Worlds that agree do so after the same command, and give the same answer unless it is about
listeners. -/
theorem agrees_perform (h : m.world.Agrees k.world) (c : Command Empty) :
    (m.perform c).1.world.Agrees (k.perform c).1.world ∧
      (¬ c.AboutListeners → (k.perform c).2.1 = (m.perform c).2.1) := by
  cases c with
  | listen label source times commands =>
    refine ⟨?_, fun hn => absurd trivial hn⟩
    simp only [perform, listen]
    rcases (h.matches_listen label m.scripts.next k.scripts.next source).cases with
      ⟨⟨w, a⟩, ⟨w', a'⟩, hw, hw', hr⟩ | ⟨f, hw, hw'⟩
    · rw [hw, hw']
      exact hr
    · rw [hw, hw']
      exact h
  | act action =>
    -- An action takes effect on both sides alike, or fails on both.
    have hmatches {P : Effect Empty → Effect Empty → Prop}
        (hm : Matches P (effectOf m.world action) (effectOf k.world action))
        (hp : ∀ e e', P e e' →
          e.world.Agrees e'.world ∧ (¬ action.AboutListeners → e'.answer = e.answer)) :
        (m.act action).1.world.Agrees (k.act action).1.world ∧
          (¬ action.AboutListeners → (k.act action).2.1 = (m.act action).2.1) := by
      rcases act_of_matches hm with ⟨e, e', he, hx, hy⟩ | ⟨f, hx, hy⟩
      · rw [hx, hy]
        exact hp e e' he
      · rw [hx, hy]
        exact ⟨h, fun _ => rfl⟩
    have hcontents (ha : action.OnContents) :=
      hmatches (World.Agrees.likeness.matches_effectOf h ha fun _ _ => id) fun e e' he =>
        ⟨he.world, fun _ => he.answer⟩
    cases action with
    | ask question =>
      by_cases hq : question.OnContents
      · exact hcontents hq
      · refine ⟨?_, fun hn => absurd hq hn⟩
        obtain ⟨a, hm⟩ := m.exists_act_ask hq
        obtain ⟨a', hk⟩ := k.exists_act_ask hq
        rw [perform, perform, hm, hk]
        exact h
    | clear on =>
      refine hmatches ((h.matches_clear on).map (Q := fun e e' => e.world.Agrees e'.world)
        fun _ _ hr => hr) ?_
      exact fun e e' he => ⟨he, fun hn => absurd trivial hn⟩
    | off label =>
      refine hmatches ((h.matches_off label).map (Q := fun e e' => e.world.Agrees e'.world)
        fun _ _ hr => hr) ?_
      exact fun e e' he => ⟨he, fun hn => absurd trivial hn⟩
    | tracker name action => exact hmatches (h.matches_operate name action) fun e e' he => he
    | create | edit | fire | emit | access | unknown => exact hcontents trivial

end Machine
end LivePath
