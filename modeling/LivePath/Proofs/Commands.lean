import LivePath.Proofs.Moves
import LivePath.Session.Machine

/-!
# What commands do

Each command that succeeds is taken apart into moves. Only three kinds of commands mutate an object
(`mutates`); whatever else a command is, it leaves the content of all objects alone
(`moves_perform`).
-/

namespace LivePath

theorem exists_of_bind {ε α β : Type} {x : Except ε α} {f : α → Except ε β} {b : β}
    (h : x.bind f = .ok b) :
    ∃ a, x = .ok a ∧ f a = .ok b := by
  cases x with
  | error e => cases h
  | ok a => exact ⟨a, rfl, h⟩

/-- Whether a command changes the content of an object. -/
def Action.mutates {F : Type} : Action F → Bool
  | edit .. => true
  | access (.set ..) => true
  | tracker _ (.set _) => true
  | _ => false

def Command.mutates {F : Type} : Command F → Bool
  | act action => action.mutates
  | listen .. => false

theorem Tracker.level_usedAfterDispose {t : Tracker} :
    ∀ e ∈ t.usedAfterDispose, e.level ≠ .error := by
  unfold usedAfterDispose
  split <;> simp [log]

namespace World
variable {F : Type} [Foreign F] {w w' : World F}

/-! ### Terms -/

theorem evaluates_evaluatePairs {pairs : List (String × Term)} {vs : List (String × Value)}
    (h : w.evaluatePairs pairs = .ok (vs, w')) :
    Evaluates w w' ∧ Every (fun p => w'.Denotes p.2) vs := by
  unfold evaluatePairs at h
  split at h
  · next values w₁ hv =>
    cases h
    obtain ⟨he, hd⟩ := evaluates_evaluateList hv
    exact ⟨he, fun p hp => hd p.2 (List.of_mem_zip hp).2⟩
  · cases h

theorem evaluates_evaluateOptions {ts : List (Option Term)} {vs : List (Option Value)}
    (h : w.evaluateOptions ts = .ok (vs, w')) : Evaluates w w' := by
  induction ts generalizing w vs with
  | nil => cases h; exact .refl _
  | cons t ts ih =>
    rw [evaluateOptions] at h
    split at h
    · cases h
    · next v w₁ hv =>
      split at h
      · cases h
      · next vs w₂ hvs =>
        cases h
        refine .trans ?_ (ih hvs)
        unfold evaluateOption at hv
        split at hv
        · cases hv; exact .refl _
        · split at hv
          · next hv' => cases hv; exact (evaluates_evaluate hv').1
          · cases hv

theorem evaluates_evaluateRotations {fields : List (String × List (Option Term))}
    {vs : List (String × List (Option Value))} (h : w.evaluateRotations fields = .ok (vs, w')) :
    Evaluates w w' := by
  induction fields generalizing w vs with
  | nil => cases h; exact .refl _
  | cons field fields ih =>
    rw [evaluateRotations] at h
    split at h
    · cases h
    · next v w₁ hv =>
      split at h
      · cases h
      · next vs w₂ hvs => cases h; exact (evaluates_evaluateOptions hv).trans (ih hvs)

theorem Does.of_moves {w₁ : World F} {notice : Notice} (h : Does w₁ w' notice) (hm : Moves w w₁) :
    Does w w' notice := by
  cases h with
  | moves h notice => exact .moves (hm.trans h) notice
  | mutates h o hv => exact .mutates (hm.trans h) o hv

/-! ### Dispatchers -/

theorem move_addDispatcher (w : World F) :
    Move w { w with dispatchers := w.dispatchers.push {} } := by
  refine .dispatchers fun d => ?_
  by_cases hd : d = w.dispatchers.next
  · rw [hd, Table.get_push_next, Table.get_of_next_le _ (Nat.le_refl _)]; exact .refl _
  · rw [Table.get_push_ne _ hd]; exact .refl _

theorem move_modifyDispatcher (w : World F) (d : DispatcherId)
    {f : Registry Int ScriptId → Registry Int ScriptId} (hf : ∀ r, Registry.LeadsTo r (f r)) :
    Move w (w.modifyDispatcher d f) := by
  refine .dispatchers fun d' => ?_
  rw [Table.modify, Table.get_set]
  split
  · next hd => rw [hd]; exact hf _
  · exact .refl _

/-! ### Commands on objects -/

theorem moves_nameNew {object : Object F} (h : Every w.Denotes object.values)
    (name : String) {n : Named}
    (hn : n.value? = some (if object.isCollection then .collection w.graph.objects.next
      else .model w.graph.objects.next)) :
    Moves w ((w.addObject object).2.nameObject name n) := by
  refine (Relation.ReflTransGen.single (.addObject h)).tail (.nameObject name fun v hv => ?_)
  rw [hn] at hv
  cases hv
  split
  · next hc => simpa [Value.KnownIn, addObject] using hc
  · next hc => simpa [Value.KnownIn, addObject] using hc

theorem moves_create {name : String} {blueprint : Blueprint F} {e : Effect F}
    (h : w.create name blueprint = .ok e) : Moves w e.world := by
  cases blueprint with
  | model attrs =>
    obtain ⟨⟨vs, w₁⟩, hv, h⟩ := exists_of_bind h
    obtain ⟨he, hd⟩ := evaluates_evaluatePairs hv
    cases h
    exact he.moves.trans (moves_nameNew (Fields.every_ofList hd) name rfl)
  | array items =>
    obtain ⟨⟨vs, w₁⟩, hv, h⟩ := exists_of_bind h
    obtain ⟨he, hd⟩ := evaluates_evaluateList hv
    cases h
    refine (he.moves.tail (.addArray hd)).tail (.nameObject name fun v hv => ?_)
    cases hv; simp [Value.KnownIn, addArray]
  | collection items ranking =>
    obtain ⟨⟨vs, w₁⟩, hv, h⟩ := exists_of_bind h
    obtain ⟨he, hd⟩ := evaluates_evaluateList hv
    obtain ⟨hmade, hr⟩ :=
      Graph.holds_newCollection (J := .yields w₁.graph.ReadTo) Graph.yields_readKey hd
        ranking w₁.graph .refl
    rcases hn : (Graph.newCollection vs ranking).run w₁.graph with ⟨d | object, g⟩
    all_goals
      rw [hn] at hr hmade
      simp only [hn] at h
      cases h
      have hread := Evaluates.read hr
    · exact (he.trans hread).moves
    · obtain ⟨items', hs, rfl⟩ := hmade object rfl
      refine (he.trans hread).moves.trans (moves_nameNew ?_ name rfl)
      exact hread.every hs
  | dispatcher =>
    cases h
    exact (Relation.ReflTransGen.single w.move_addDispatcher).tail
      (.nameObject name fun v hv => by cases hv)
  | foreign fields make =>
    obtain ⟨⟨vs, w₁⟩, hv, h⟩ := exists_of_bind h
    cases h
    exact (evaluates_evaluateRotations hv).moves.trans (moves_nameNew .nil name rfl)

theorem evaluates_readField (o : ObjectId) (name : String) : Evaluates w (w.readField o name).2 :=
  .read (w.graph.readTo_readField o name)

theorem evaluates_ask {q : Question} {answer : Answer} (h : w.ask q = .ok (w', answer)) :
    Evaluates w w' := by
  cases q with
  | equal a b | compare a b =>
    obtain ⟨⟨v, w₁⟩, hv, h⟩ := exists_of_bind h
    obtain ⟨⟨v', w₂⟩, hv', h⟩ := exists_of_bind h
    cases h
    exact (evaluates_evaluate hv).1.trans (evaluates_evaluate hv').1
  | kind v =>
    obtain ⟨⟨v, w₁⟩, hv, h⟩ := exists_of_bind h
    cases h
    exact (evaluates_evaluate hv).1
  | get on name | has on name | field on name =>
    obtain ⟨o, -, h⟩ := exists_of_bind h
    cases h
    exact evaluates_readField ..
  | indexOf on v =>
    obtain ⟨o, -, h⟩ := exists_of_bind h
    obtain ⟨⟨v, w₁⟩, hv, h⟩ := exists_of_bind h
    cases h
    exact (evaluates_evaluate hv).1
  | itemAt on index | items on | ordered on index | count on topic | size on | countTagged on tag
  | describe on =>
    obtain ⟨o, -, h⟩ := exists_of_bind h
    cases h
    exact .refl _
  | contains on label =>
    obtain ⟨d, -, h⟩ := exists_of_bind h
    obtain ⟨key, -, h⟩ := exists_of_bind h
    cases h
    exact .refl _

theorem exists_mutationOf {on : String} {edit : Edit} {o : ObjectId} {m : Mutation}
    (h : w.mutationOf on edit = .ok (o, m, w')) : Evaluates w w' ∧ Every w'.Denotes m.values := by
  cases edit with
  | set name v | setField name v | add v | insert index v =>
    obtain ⟨o', -, h⟩ := exists_of_bind h
    obtain ⟨⟨v, w₁⟩, hv, h⟩ := exists_of_bind h
    cases h
    obtain ⟨he, hd⟩ := evaluates_evaluate hv
    exact ⟨he, .cons hd .nil⟩
  | setAll pairs =>
    obtain ⟨o', -, h⟩ := exists_of_bind h
    obtain ⟨⟨vs, w₁⟩, hv, h⟩ := exists_of_bind h
    cases h
    obtain ⟨he, hd⟩ := evaluates_evaluatePairs hv
    refine ⟨he, fun v hm => ?_⟩
    obtain ⟨p, hp, rfl⟩ := List.mem_map.1 hm
    exact hd p hp
  | remove v =>
    obtain ⟨o', -, h⟩ := exists_of_bind h
    obtain ⟨⟨v, w₁⟩, hv, h⟩ := exists_of_bind h
    cases h
    exact ⟨(evaluates_evaluate hv).1, .nil⟩
  | reset items =>
    obtain ⟨o', -, h⟩ := exists_of_bind h
    obtain ⟨⟨vs, w₁⟩, hv, h⟩ := exists_of_bind h
    cases h
    exact evaluates_evaluateList hv
  | unset name | unsetField name | removeAt index | sort =>
    obtain ⟨o', -, h⟩ := exists_of_bind h
    cases h
    exact ⟨.refl _, .nil⟩

/-! ### Accessors and trackers -/

theorem does_assign (a : Accessor) (root : Value) {v : Value} (hv : w.Denotes v) :
    Does w (w.assign a root v).world (w.assign a root v).notice := by
  have hread := w.graph.readTo_assignee a root
  rw [assign, Graph.set]
  rcases ha : w.graph.assignee a root with ⟨e | ⟨o, name⟩, g⟩ <;> rw [ha] at hread
  · exact .moves (.single (.read hread)) _
  · have he : Evaluates w { w with graph := g } := .read hread
    exact .mutates he.moves o (m := .fields (.assign [(name, v)])) (.cons (he.denotes hv) .nil)

theorem moves_access {action : AccessAction} {e : Effect F} (h : w.access action = .ok e)
    (hq : (Action.access (F := F) action).mutates = false) : Moves w e.world := by
  cases action with
  | store name route | join name route node =>
    obtain ⟨a, -, h⟩ := exists_of_bind h
    cases h
    exact .single (.nameAccessor ..)
  | get route root =>
    obtain ⟨a, -, h⟩ := exists_of_bind h
    obtain ⟨⟨root, w₁⟩, hr, h⟩ := exists_of_bind h
    cases h
    exact (evaluates_evaluate hr).1.moves.tail (.read (w₁.graph.readTo_get a root))
  | set route root v => cases hq

theorem does_access {action : AccessAction} {e : Effect F} (h : w.access action = .ok e) :
    Does w e.world e.notice := by
  cases action with
  | set route root v =>
    obtain ⟨a, -, h⟩ := exists_of_bind h
    obtain ⟨⟨root, w₁⟩, hr, h⟩ := exists_of_bind h
    obtain ⟨⟨v, w₂⟩, hv, h⟩ := exists_of_bind h
    cases h
    obtain ⟨he, hd⟩ := evaluates_evaluate hv
    exact (does_assign a root hd).of_moves ((evaluates_evaluate hr).1.moves.trans he.moves)
  | _ => exact .moves (moves_access h rfl) _

theorem moves_track {root : Value} (hr : w.Denotes root) (name : String) (a : Accessor) :
    Moves w (w.track name a root).world := by
  rw [track]
  rcases hb : Tracker.bind w.trackers.next a root w.graph with ⟨e | ⟨t, es⟩, g⟩
  · exact .single (.bindFailed hb)
  · exact .single (.bind name hb hr)

omit [Foreign F] in
theorem holds_of_tracker {name : String} {id : TrackerId} (h : w.tracker name = .ok id) :
    w.Holds id := by
  obtain ⟨id', hm, h⟩ := exists_of_find h
  cases h
  exact ⟨name, hm⟩

theorem moves_evaluateTracker (id : TrackerId) : Moves w (w.evaluateTracker id).2 := by
  refine (Relation.ReflTransGen.single (.read (w.graph.readTo_get _ _))).tail (.log fun e he => ?_)
  exact Tracker.level_usedAfterDispose e he

theorem moves_operate {name : String} {action : TrackerAction} {e : Effect F}
    (h : w.operate name action = .ok e)
    (hq : (Action.tracker (F := F) name action).mutates = false) : Moves w e.world := by
  cases action with
  | track root route =>
    obtain ⟨a, -, h⟩ := exists_of_bind h
    obtain ⟨⟨root, w₁⟩, hr, h⟩ := exists_of_bind h
    cases h
    obtain ⟨he, hd⟩ := evaluates_evaluate hr
    exact he.moves.trans (moves_track hd name a)
  | clone other =>
    obtain ⟨id, hid, h⟩ := exists_of_bind h
    cases h
    exact .single (.clone other (holds_of_tracker hid))
  | drop =>
    obtain ⟨id, hid, h⟩ := exists_of_bind h
    cases h
    exact .single (.drop hid)
  | get | hasValue =>
    obtain ⟨id, hid, h⟩ := exists_of_bind h
    cases h
    exact moves_evaluateTracker id
  | set v => cases hq
  | observed | isDisposed =>
    obtain ⟨id, hid, h⟩ := exists_of_bind h
    cases h
    exact .refl
  | dispose =>
    obtain ⟨id, hid, h⟩ := exists_of_bind h
    cases h
    exact .single (.dispose (holds_of_tracker hid))

theorem does_operate {name : String} {action : TrackerAction} {e : Effect F}
    (h : w.operate name action = .ok e) :
    Does w e.world e.notice := by
  cases action with
  | set v =>
    obtain ⟨id, hid, h⟩ := exists_of_bind h
    obtain ⟨⟨v, w₁⟩, hv, h⟩ := exists_of_bind h
    cases h
    obtain ⟨he, hd⟩ := evaluates_evaluate hv
    refine (does_assign _ _ ?_).of_moves (he.moves.tail (.log Tracker.level_usedAfterDispose))
    exact hd.mono (w := w₁) rfl (Nat.le_refl _)
  | _ => exact .moves (moves_operate h rfl) _

/-! ### Listeners -/

theorem move_nameSubscription (label : String) (script : ScriptId) {s : Subscription}
    (h : s.addresses = []) :
    Move w (w.nameSubscription label s) :=
  .subscribe label script [] (h ▸ List.Subset.refl _)

theorem moves_listen {label : String} {script : ScriptId} {source : Source} {answer : Answer}
    (h : w.listen label script source = .ok (w', answer)) : Moves w w' := by
  cases source with
  | topic on topic =>
    obtain ⟨o, -, h⟩ := exists_of_bind h
    cases h
    exact .single (.subscribe label script [(o, topic)] (List.Subset.refl _))
  | topics on topics =>
    obtain ⟨o, -, h⟩ := exists_of_bind h
    cases h
    have ha := Graph.attach_eq (g := w.graph) o topics (.script script)
    have hh := congrArg Prod.fst ha
    have hg := congrArg Prod.snd ha
    refine .single ?_
    show w.Move
      ({ w with graph := (w.graph.attach o topics (.script script)).2 }.nameSubscription label _)
    rw [show (w.graph.attach o topics (.script script)).2 = _ from hg]
    exact .subscribe label script _ (by rw [← hh]; exact List.Subset.refl _)
  | dispatcher on tag =>
    obtain ⟨d, -, h⟩ := exists_of_bind h
    cases h
    have hd := w.move_modifyDispatcher d fun r => .insert r tag script
    exact (Relation.ReflTransGen.single hd).tail (move_nameSubscription label script rfl)
  | accessor route root =>
    obtain ⟨a, -, h⟩ := exists_of_bind h
    obtain ⟨⟨root, w₁⟩, hr, h⟩ := exists_of_bind h
    obtain ⟨he, -⟩ := evaluates_evaluate hr
    have hread := w₁.graph.readTo_walk a root
    rcases hs : w₁.graph.subscribe a root (.script script) with ⟨e | records, g⟩
    · simp only [hs] at h
      cases h
      obtain rfl := Graph.exists_subscribe_error hs
      exact (he.moves.tail (.read hread)).tail (.giveUp _ script _)
    · simp only [hs] at h
      cases h
      obtain ⟨rfl, hh, -⟩ := Graph.exists_subscribe_ok hs
      refine (he.moves.tail (.read hread)).tail (.subscribe label script _ ?_)
      rw [← hh]; exact List.Subset.refl _
  | tracker on =>
    obtain ⟨id, hid, h⟩ := exists_of_bind h
    cases h
    have hl := Move.listeners (w := w.logAll (w.trackers.get id).usedAfterDispose)
      (holds_of_tracker (w := w) hid) fun r => .insert r () script
    exact ((Relation.ReflTransGen.single (.log Tracker.level_usedAfterDispose)).tail hl).tail
      (move_nameSubscription label script rfl)

theorem moves_off {label : String} {answer : Answer} (h : w.off label = .ok (w', answer)) :
    Moves w w' := by
  obtain ⟨s, hs, h⟩ := exists_of_bind h
  obtain ⟨s', hm, hs⟩ := exists_of_find hs
  cases hs
  cases s with
  | object o key => cases h; exact .single (.unsubscribe hm)
  | dispatcher d key => cases h; exact .single (w.move_modifyDispatcher d fun r => .erase r key)
  | tracker name key =>
    obtain ⟨id, hid, h⟩ := exists_of_bind h
    cases h
    exact .single (.listeners (f := (·.erase key)) (holds_of_tracker hid) fun r => .erase r key)
  | accessor records =>
    cases h
    rw [Graph.detachAll_eq]
    refine (Relation.ReflTransGen.single ?_).tail (.setSubscription _ label rfl)
    cases records with
    | none => exact .unsubscribe hm
    | some records => exact .unsubscribe hm
  | attached record =>
    cases record with
    | none => cases h; exact .refl
    | some record =>
      cases h
      show w.Moves ({ w with graph := (w.graph.detach record).2 }.setSubscription label _)
      rw [Graph.detach_eq]
      exact (Relation.ReflTransGen.single (.unsubscribe hm)).tail (.setSubscription _ label rfl)

theorem moves_clear {on : String} {answer : Answer} (h : w.clear on = .ok (w', answer)) :
    Moves w w' := by
  obtain ⟨d, -, h⟩ := exists_of_bind h
  cases h
  exact .single (w.move_modifyDispatcher d .clear)

end World

/-! ### Commands -/

namespace Machine
variable {F : Type} [Foreign F]

omit [Foreign F] in
theorem exists_of_map {x : Except Failure (World F × Answer)} {e : Effect F}
    (h : (x.map fun (w, answer) => (⟨w, answer, .silent⟩ : Effect F)) = .ok e) :
    ∃ answer, x = .ok (e.world, answer) := by
  cases x with
  | error f => cases h
  | ok r => cases h; exact ⟨r.2, rfl⟩

omit [Foreign F] in
theorem world_of_map {α : Type} {w : World F} {x : Except Failure α} {f : α → Effect F}
    {e : Effect F} (h : x.map f = .ok e) (hf : ∀ a, (f a).world = w) : e.world = w := by
  cases x with
  | error e => cases h
  | ok a => cases h; exact hf a

theorem moves_effectOf {w : World F} {a : Action F} {e : Effect F} (h : effectOf w a = .ok e)
    (hq : a.mutates = false) : World.Moves w e.world := by
  cases a with
  | create name blueprint => exact World.moves_create h
  | ask question =>
    obtain ⟨answer, h⟩ := exists_of_map h
    exact (World.evaluates_ask h).moves
  | edit on edit => cases hq
  | fire on topic => exact world_of_map h (fun _ => rfl) ▸ .refl
  | clear on =>
    obtain ⟨answer, h⟩ := exists_of_map h
    exact World.moves_clear h
  | emit on text tags => exact world_of_map h (fun _ => rfl) ▸ .refl
  | access action => exact World.moves_access h hq
  | tracker name action => exact World.moves_operate h hq
  | off label =>
    obtain ⟨answer, h⟩ := exists_of_map h
    exact World.moves_off h
  | unknown text => cases h

theorem does_effectOf {w : World F} {a : Action F} {e : Effect F} (h : effectOf w a = .ok e) :
    w.Does e.world e.notice := by
  cases a with
  | edit on edit =>
    obtain ⟨⟨o, m, w'⟩, hm, h⟩ := exists_of_bind h
    cases h
    obtain ⟨he, hv⟩ := World.exists_mutationOf hm
    exact .mutates he.moves o hv
  | access action => exact World.does_access h
  | tracker name action => exact World.does_operate h
  | _ => exact .moves (moves_effectOf h rfl) _

@[simp] theorem stack_perform (m : Machine F) (c : Command F) :
    (m.perform c).1.stack = m.stack := by
  cases c with
  | act action => simp only [perform, act]; split <;> rfl
  | listen label source times commands => simp only [perform, listen]; split <;> rfl

theorem moves_listen (m : Machine F) (label : String) (source : Source) (times : Nat)
    (commands : List (Command F)) :
    World.Moves m.world (m.listen label source times commands).1.world := by
  unfold listen
  split
  · next h => exact World.moves_listen h
  · exact .refl

theorem does_perform (m : Machine F) (c : Command F) :
    m.world.Does (m.perform c).1.world (m.perform c).2.2 := by
  cases c with
  | act action =>
    simp only [perform, act]
    split
    · next h => exact does_effectOf h
    · exact .moves .refl _
  | listen label source times commands => exact .moves (m.moves_listen ..) _

theorem moves_perform (m : Machine F) {c : Command F} (h : c.mutates = false) :
    World.Moves m.world (m.perform c).1.world := by
  cases c with
  | act action =>
    simp only [perform, act]
    split
    · next he => exact moves_effectOf he h
    · exact .refl
  | listen label source times commands => exact m.moves_listen ..

end Machine
end LivePath
