import LivePath.Proofs.Announcements
import LivePath.Proofs.Observing
import LivePath.Session.Listening
import LivePath.Session.Objects
import Mathlib.Logic.Relation

/-!
# What commands are made of

Whatever a command does to a world, it does by moves, each of which touches one part of it
(`World.Move`). What holds of every move holds of all commands that do not mutate an object, and the
others are moves followed by one mutation (`World.Does`). The values that commands handle are those
that terms denote: primitives, arrays, and objects that were given a name.
-/

namespace LivePath

/-- Where a subscription is to be taken back from objects. -/
def Subscription.addresses : Subscription → List (ObjectId × Key)
  | object o key => [(o, key)]
  | accessor (some rs) => (hooksOf rs).map Hook.address
  | attached (some r) => r.hooks.map Hook.address
  | _ => []

/-- What a value refers to exists, and is a collection only for those that refer to it as one. -/
def Value.KnownIn {F : Type} (g : Graph F) : Value → Prop
  | array a => a < g.arrays.next
  | model o => o < g.objects.next ∧ (g.objects.get o).isCollection = false
  | collection o => o < g.objects.next ∧ (g.objects.get o).isCollection = true
  | _ => True

namespace World
variable {F : Type}

/-- What a term can denote: a primitive, an array, or an object with a name. -/
inductive Denotes (w : World F) : Value → Prop
  | bool (b : Bool) : Denotes w (.bool b)
  | int (n : Int64) : Denotes w (.int n)
  | float (x : Binary64) : Denotes w (.float x)
  | str (s : String) : Denotes w (.str s)
  | array {a : ArrayId} (h : a < w.graph.arrays.next) : Denotes w (.array a)
  | named {name : String} {n : Named} {v : Value} (h : (name, n) ∈ w.names.objects)
      (hv : n.value? = some v) :
      Denotes w v

def Holds (w : World F) (id : TrackerId) : Prop :=
  ∃ name, (name, id) ∈ w.names.trackers

variable [Foreign F]

/-- A part of what a command does. -/
inductive Move : World F → World F → Prop
  | read {w : World F} {g : Graph F} (h : w.graph.ReadTo g) : Move w { w with graph := g }
  | log {w : World F} {es : List LogEntry} (h : ∀ e ∈ es, e.level ≠ .error) : Move w (w.logAll es)
  | dispatchers {w : World F} {ds : Table (Registry Int ScriptId)}
      (h : ∀ d, (w.dispatchers.get d).LeadsTo (ds.get d)) : Move w { w with dispatchers := ds }
  | nameAccessor (w : World F) (name : String) (a : Accessor) : Move w (w.nameAccessor name a)
  | addArray {w : World F} {vs : List Value} (h : Every w.Denotes vs) : Move w (w.addArray vs).2
  | addObject {w : World F} {object : Object F} (h : Every w.Denotes object.values) :
      Move w (w.addObject object).2
  | nameObject {w : World F} (name : String) {n : Named} (h : ∀ v ∈ n.value?, v.KnownIn w.graph) :
      Move w (w.nameObject name n)
  /-- A script observes objects, and a subscription tells where. -/
  | subscribe {w : World F} (label : String) (script : ScriptId)
      (ps : List (ObjectId × Topic)) {s : Subscription}
      (h : s.addresses ⊆ (w.graph.observeAll (.script script) ps).1.map Hook.address) :
      Move w
        ({ w with graph := (w.graph.observeAll (.script script) ps).2 }.nameSubscription label s)
  /-- What a script began to observe is given up at once. -/
  | giveUp (w : World F) (script : ScriptId) (ps : List (ObjectId × Topic)) :
      Move w
        { w with graph := (w.graph.observeAll (.script script) ps).2.unobserveAll
                  ((w.graph.observeAll (.script script) ps).1.map Hook.address) }
  | unsubscribe {w : World F} {label : String} {s : Subscription}
      (h : (label, s) ∈ w.names.subscriptions) :
      Move w { w with graph := w.graph.unobserveAll s.addresses }
  | setSubscription (w : World F) (label : String) {s : Subscription} (h : s.addresses = []) :
      Move w (w.setSubscription label s)
  | bind {w : World F} (name : String) {a : Accessor} {root : Value} {t : Tracker}
      {es : List LogEntry} {g : Graph F}
      (h : Tracker.bind w.trackers.next a root w.graph = (.ok (t, es), g)) (hr : w.Denotes root) :
      Move w (({ w with trackers := w.trackers.push t, graph := g }.logAll es).nameTracker name
        w.trackers.next)
  | bindFailed {w : World F} {a : Accessor} {root : Value} {e : AccessError} {g : Graph F}
      (h : Tracker.bind w.trackers.next a root w.graph = (.error e, g)) :
      Move w { w with graph := g }
  | clone {w : World F} (name : String) {id : TrackerId} (h : w.Holds id) :
      Move w ((w.modifyTracker id fun t => { t with handles := t.handles + 1 }).nameTracker name id)
  | drop {w : World F} {name : String} {id : TrackerId} (h : w.tracker name = .ok id) :
      Move w ((w.modifyTracker id fun t => { t with handles := t.handles - 1 }).forgetTracker name)
  | listeners {w : World F} {id : TrackerId} (h : w.Holds id)
      {f : Registry Unit ScriptId → Registry Unit ScriptId} (hf : ∀ r, Registry.LeadsTo r (f r)) :
      Move w (w.modifyTracker id fun t => { t with listeners := f t.listeners })
  | dispose {w : World F} {id : TrackerId} (h : w.Holds id) :
      Move w (w.retrack id ((w.trackers.get id).dispose w.graph))

abbrev Moves : World F → World F → Prop :=
  Relation.ReflTransGen Move

/-- What a command does, and what it leaves to be announced: at most one object is mutated, and then
it is the topics of this object. -/
inductive Does (w : World F) : World F → Notice → Prop
  | moves {w' : World F} (h : Moves w w') (notice : Notice) : Does w w' notice
  | mutates {w' : World F} (h : Moves w w') (o : ObjectId) {m : Mutation}
      (hm : Every w'.Denotes m.values) :
      Does w { w' with graph := (w'.graph.mutate o m).state }
      (.topics o (w'.graph.mutate o m).topics)

/-! ### Values of terms -/

variable {w w' w'' : World F}

omit [Foreign F] in
theorem Denotes.mono {v : Value} (hn : w'.names.objects = w.names.objects)
    (ha : w.graph.arrays.next ≤ w'.graph.arrays.next) (h : w.Denotes v) : w'.Denotes v := by
  cases h with
  | array h => exact .array (Nat.lt_of_lt_of_le h ha)
  | named h hv => exact .named (hn ▸ h) hv
  | bool b => exact .bool b
  | int n => exact .int n
  | float x => exact .float x
  | str s => exact .str s

/-- Evaluating terms leads from `w` to `w'`: at most arrays were added. -/
structure Evaluates (w w' : World F) : Prop where
  moves : Moves w w'
  names : w'.names = w.names
  arrays : w.graph.arrays.next ≤ w'.graph.arrays.next
  registries : w'.graph.registries = w.graph.registries

namespace Evaluates

theorem refl (w : World F) : Evaluates w w :=
  ⟨.refl, rfl, Nat.le_refl _, rfl⟩

theorem trans (h : Evaluates w w') (h' : Evaluates w' w'') : Evaluates w w'' :=
  ⟨h.moves.trans h'.moves, h'.names.trans h.names, Nat.le_trans h.arrays h'.arrays,
    h'.registries.trans h.registries⟩

theorem read {g : Graph F} (h : w.graph.ReadTo g) : Evaluates w { w with graph := g } :=
  ⟨.single (.read h), rfl, Nat.le_of_eq (congrArg Table.next h.arrays).symm, h.registries⟩

theorem addArray {vs : List Value} (h : Every w.Denotes vs) : Evaluates w (w.addArray vs).2 :=
  ⟨.single (.addArray h), rfl, by simp [World.addArray], rfl⟩

theorem denotes (h : Evaluates w w') {v : Value} (hv : w.Denotes v) : w'.Denotes v :=
  hv.mono (congrArg Names.objects h.names) h.arrays

theorem every (h : Evaluates w w') {vs : List Value} (hv : Every w.Denotes vs) :
    Every w'.Denotes vs :=
  fun v hm => h.denotes (hv v hm)

end Evaluates

omit [Foreign F] in
theorem lookup_of_find {α β : Type} {entries : List (String × α)} {name : String}
    {need : α → Option β} {b : β} (h : find entries name need = .ok b) :
    (entries.lookup name).bind need = some b := by
  unfold find at h
  split at h
  · next hb => cases h; exact hb
  · cases h

omit [Foreign F] in
theorem exists_of_find {α β : Type} {entries : List (String × α)} {name : String}
    {need : α → Option β} {b : β} (h : find entries name need = .ok b) :
    ∃ a, (name, a) ∈ entries ∧ need a = some b := by
  obtain ⟨a, ha, hn⟩ := Option.bind_eq_some_iff.1 (lookup_of_find h)
  obtain ⟨before, after, rfl, -⟩ := List.lookup_eq_some_iff.1 ha
  exact ⟨a, List.mem_append_right _ (List.mem_cons_self ..), hn⟩

omit [Foreign F] in
theorem denotes_value {name : String} {v : Value} (h : w.value name = .ok v) : w.Denotes v := by
  obtain ⟨n, hn, hv⟩ := exists_of_find h
  exact .named hn hv

mutual

theorem evaluates_evaluate {w' : World F} {v : Value} :
    ∀ {w : World F} {t : Term}, w.evaluate t = .ok (v, w') → Evaluates w w' ∧ w'.Denotes v
  | w, .bool b, h => by cases h; exact ⟨.refl _, .bool b⟩
  | w, .int n, h => by cases h; exact ⟨.refl _, .int n⟩
  | w, .float x, h => by cases h; exact ⟨.refl _, .float x⟩
  | w, .str s, h => by cases h; exact ⟨.refl _, .str s⟩
  | w, .reference name, h => by
    rw [evaluate] at h
    split at h
    · next hv => cases h; exact ⟨.refl _, denotes_value hv⟩
    · cases h
  | w, .list items, h => by
    rw [evaluate] at h
    split at h
    · next vs w₁ hvs =>
      cases h
      obtain ⟨he, hd⟩ := evaluates_evaluateList hvs
      exact ⟨he.trans (.addArray hd), .array (by simp [addArray])⟩
    · cases h

theorem evaluates_evaluateList {w' : World F} {vs : List Value} :
    ∀ {w : World F} {ts : List Term}, w.evaluateList ts = .ok (vs, w') → Evaluates w w' ∧
      Every w'.Denotes vs
  | w, [], h => by rw [evaluateList] at h; cases h; exact ⟨.refl _, .nil⟩
  | w, t :: ts, h => by
    rw [evaluateList] at h
    split at h
    · cases h
    · next v w₁ hv =>
      split at h
      · cases h
      · next vs w₂ hvs =>
        cases h
        obtain ⟨he, hd⟩ := evaluates_evaluate hv
        obtain ⟨hes, hds⟩ := evaluates_evaluateList hvs
        exact ⟨he.trans hes, .cons (hes.denotes hd) hds⟩

end

end World
end LivePath
