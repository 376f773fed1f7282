import LivePath.Proofs.Currency

/-!
# A tracker refines a poller

A poller evaluates the path of a tracker after each operation, and reports the value if it is not
strictly equal to the one it reported last (`poll`). As long as listeners leave the graph alone, a
tracker announces exactly what this poller reports, in the same operation (`emissions_eq_poll`).
While an operation goes on, the path leads to one value, and however often the tracker makes a pass
it announces it at most once (`World.Watches`). When the operation is over no update is lost, so
that a value to be announced has been announced.
-/

namespace LivePath

/-! ### Strict equality -/

theorem Binary64.same_iff {x y : Binary64} :
    x.same y = true ↔ (x.isNaN = false ∧ y.isNaN = false) ∧ x.key = y.key := by
  unfold same compare?
  cases x.isNaN <;> cases y.isNaN <;> simp

namespace Value

theorem sameOption_self {v : Option Value} (h : ∀ x, v = some (.float x) → x.isNaN = false) :
    sameOption v v = true := by
  cases v with
  | none => rfl
  | some v =>
    cases v with
    | float x => exact Binary64.same_iff.2 ⟨⟨h x rfl, h x rfl⟩, rfl⟩
    | _ => exact decide_eq_true rfl

theorem sameOption_congr {v w : Option Value} (h : sameOption v w = true) (u : Option Value) :
    sameOption v u = sameOption w u := by
  rcases v with - | v <;> rcases w with - | w
  · rfl
  · cases h
  · cases h
  · by_cases hf : ∃ x y, v = float x ∧ w = float y
    · obtain ⟨x, y, rfl, rfl⟩ := hf
      obtain ⟨⟨hx, hy⟩, hkey⟩ := Binary64.same_iff.1 h
      rcases u with - | u
      · rfl
      · cases u with
        | float z => simp [sameOption, same, Binary64.same, Binary64.compare?, hx, hy, hkey]
        | _ => simp [sameOption, same]
    · have heq : v = w := by
        cases v <;> cases w <;> simp_all [sameOption, same]
      rw [heq]

end Value

/-! ### The poller -/

/-- What a poller reports after each operation, when the path leads to `outcomes` one after the
other. -/
def poll (last : Option Value) : List Outcome → List (List (Option Value))
  | [] => []
  | .error _ :: outcomes => [] :: poll last outcomes
  | .ok v :: outcomes =>
    if Value.sameOption last v then [] :: poll last outcomes else [v] :: poll v outcomes

/-- What there is to report if the path leads to `found`. -/
def news (last : Option Value) : Outcome → List (Option Value)
  | .ok v => if Value.sameOption last v then [] else [v]
  | .error _ => []

def kept (last : Option Value) : Outcome → Option Value
  | .ok v => v
  | .error _ => last

theorem poll_congr {last last' : Option Value}
    (h : ∀ v, Value.sameOption last v = Value.sameOption last' v) (outcomes : List Outcome) :
    poll last outcomes = poll last' outcomes := by
  induction outcomes with
  | nil => rfl
  | cons found outcomes ih =>
    cases found with
    | error e => rw [poll, poll, ih]
    | ok v => rw [poll, poll, ih, h]

theorem poll_cons (last : Option Value) (found : Outcome) (outcomes : List Outcome) :
    poll last (found :: outcomes) = news last found :: poll (kept last found) outcomes := by
  cases found with
  | error e => rfl
  | ok v =>
    simp only [poll, news, kept]
    split
    · next h => rw [poll_congr (Value.sameOption_congr h)]
    · rfl

theorem length_news (last : Option Value) (found : Outcome) : (news last found).length ≤ 1 := by
  unfold news
  split
  · split <;> simp
  · exact Nat.zero_le 1

theorem Tracker.last_dispose (t : Tracker) (g : Graph Empty) :
    (t.dispose g).tracker.last = t.last := by
  unfold dispose
  split <;> rfl

namespace World

/--
While the path of a tracker leads to `found`, the tracker either has announced nothing, and
remembers what it did before, or it remembers what was found, and has announced it if it is new. Of
what is not a number this can not be said, since it is new each time.
-/
structure Watches (w : World Empty) (id : TrackerId) (last : Option Value) (found : Outcome)
    (announced : List (Option Value)) : Prop where
  lt : id < w.trackers.next
  leads : ((w.trackers.get id).trail w.graph).outcome = found
  told : (∀ v, found = .ok v → Value.sameOption v v = true) →
    announced = [] ∧ (w.trackers.get id).last = last ∨
      found = .ok (w.trackers.get id).last ∧ announced = news last found

namespace Watches
variable {w w' : World Empty} {id : TrackerId} {last : Option Value} {found : Outcome}
  {announced : List (Option Value)}

theorem congr (h : w.Watches id last found announced) (hlt : w.trackers.next ≤ w'.trackers.next)
    (hlast : (w'.trackers.get id).last = (w.trackers.get id).last)
    (htrail : (w'.trackers.get id).trail w'.graph = (w.trackers.get id).trail w.graph) :
    w'.Watches id last found announced := by
  refine ⟨Nat.lt_of_lt_of_le h.lt hlt, htrail ▸ h.leads, ?_⟩
  rw [hlast]; exact h.told

theorem set (h : w.Watches id last found announced) {i : TrackerId} {t : Tracker}
    (hr : t.root = (w.trackers.get i).root) (ha : t.accessor = (w.trackers.get i).accessor)
    (hl : t.last = (w.trackers.get i).last) :
    Watches { w with trackers := w.trackers.set i t } id last found announced := by
  refine h.congr (Table.next_le_set ..) (Table.apply_get_set Tracker.last hl id) ?_
  unfold Tracker.trail
  rw [Table.apply_get_set Tracker.root hr, Table.apply_get_set Tracker.accessor ha]

theorem pass (h : w.Watches id last found announced) (i : TrackerId) :
    (w.retrack i ((w.trackers.get i).pass i w.graph).1).Watches id last found
      (announced ++ if i = id then ((w.trackers.get i).pass i w.graph).2.toList else []) := by
  have hp := Tracker.passed_pass i (w.trackers.get i) w.graph
  have htracker := Tracker.tracker_pass i (w.trackers.get i) w.graph
  have htrail (a : Accessor) (root : Value) :
      ((w.trackers.get i).pass i w.graph).1.graph.trail a root = w.graph.trail a root :=
    Graph.trail_of_eq hp.objects hp.arrays
  by_cases hi : i = id
  · subst hi
    have hget : (w.retrack i ((w.trackers.get i).pass i w.graph).1).trackers.get i =
        ((w.trackers.get i).pass i w.graph).1.tracker := Table.get_set_self ..
    refine ⟨Nat.lt_of_lt_of_le h.lt (Table.next_le_set ..), ?_, fun hn => ?_⟩
    · rw [hget, Tracker.trail, htracker]; exact (congrArg Walk.outcome (htrail _ _)).trans h.leads
    · rw [hget, if_pos rfl]
      cases hf : found with
      | error e =>
        obtain ⟨hlast, hnone⟩ := hp.failed e (h.leads.trans hf)
        rcases h.told hn with ⟨hnil, hl⟩ | ⟨hok, -⟩
        · exact .inl ⟨by rw [hnil, hnone]; rfl, hlast.trans hl⟩
        · cases hf.symm.trans hok
      | ok v =>
        -- Either this pass announces the value, or an earlier one did and this one finds nothing
        -- new.
        obtain ⟨hlast, hnew⟩ := hp.found v (h.leads.trans hf)
        refine .inr ⟨congrArg Except.ok hlast.symm, ?_⟩
        rw [hnew]
        rcases h.told hn with ⟨hnil, hl⟩ | ⟨hok, hnews⟩
        · rw [hnil, hl, news]; split <;> rfl
        · obtain rfl := Except.ok.inj (hf.symm.trans hok)
          rw [if_pos (hn _ hok), hnews, hf]; exact List.append_nil _
  · rw [if_neg hi, List.append_nil]
    have hget : (w.retrack i ((w.trackers.get i).pass i w.graph).1).trackers.get id =
        w.trackers.get id :=
      Table.get_set_ne _ (Ne.symm hi) _
    exact h.congr (Table.next_le_set ..) (congrArg Tracker.last hget)
      (by rw [hget]; exact htrail _ _)

end Watches

variable {w w' : World Empty} {id : TrackerId}

theorem Move.last (hm : Move w w') (hid : id < w.trackers.next) :
    (w'.trackers.get id).last = (w.trackers.get id).last := by
  cases hm with
  | bind => exact congrArg Tracker.last (Table.get_push_ne _ (Nat.ne_of_lt hid) _)
  | clone | drop | listeners => exact Table.apply_get_set Tracker.last (by rfl) id
  | @dispose i => exact Table.apply_get_set Tracker.last (Tracker.last_dispose ..) id
  | _ => rfl

theorem Moves.last (hm : Moves w w') (hid : id < w.trackers.next) :
    (w'.trackers.get id).last = (w.trackers.get id).last := by
  induction hm with
  | refl => rfl
  | tail hms hm ih =>
    exact (hm.last (Nat.lt_of_lt_of_le hid (Moves.continues hms).next_le)).trans ih

theorem Does.last {notice : Notice} (hd : w.Does w' notice) (hid : id < w.trackers.next) :
    (w'.trackers.get id).last = (w.trackers.get id).last := by
  cases hd with
  | moves hm => exact Moves.last hm hid
  | mutates hm => exact hm.last hid

theorem Moves.watches {last : Option Value} {found : Outcome} {announced : List (Option Value)}
    (hm : Moves w w') (hc : w.Closed) (h : w.Watches id last found announced) :
    w'.Watches id last found announced := by
  have ht := (Moves.continues hm).tracker id h.lt
  refine h.congr (Moves.continues hm).next_le (Moves.last hm h.lt) ?_
  rw [Tracker.trail, ht.root, ht.accessor]
  exact Graph.trail_extends hc.graph (hc.roots id) (Moves.extends hm)

end World

/-! ### Emissions -/

namespace Machine
variable {m m' before after : Machine Empty} {id : TrackerId}

/-- What a tracker emits in one step: a delivery to its change listeners has begun. -/
def emits (before after : Machine Empty) (id : TrackerId) : List (Option Value) :=
  match after.stack with
  | .change i v _ :: below => if i = id ∧ before.stack.length ≤ below.length then [v] else []
  | _ => []

theorem emits_of_length_le (h : after.stack.length ≤ before.stack.length) :
    before.emits after id = [] := by
  unfold emits
  split
  · next i v rs below hs =>
    rw [hs, List.length_cons] at h
    rw [if_neg fun hi => absurd hi.2 (by omega)]
  · rfl

theorem emits_notify (h : before.emits after id = []) (notice : Notice) :
    before.emits (after.notify notice) id = [] := by
  cases notice with
  | silent => exact h
  | topics | text => rfl

def mutates (m : Machine Empty) : Bool :=
  match m.stack with
  | .script (c :: _) :: _ => c.mutates
  | _ => false

theorem emits_pass (h : before.stack.length ≤ m.stack.length + 1) (i : TrackerId) :
    before.emits (m.pass i) id =
      if i = id then ((m.world.trackers.get i).pass i m.world.graph).2.toList else [] := by
  unfold emits
  rw [stack_pass]
  cases ((m.world.trackers.get i).pass i m.world.graph).2 with
  | none => simp
  | some v => simp [h]

theorem watches_pass {last : Option Value} {found : Outcome} {announced : List (Option Value)}
    (h : m.world.Watches id last found announced) (hl : before.stack.length ≤ m.stack.length + 1)
    (i : TrackerId) :
    (m.pass i).world.Watches id last found (announced ++ before.emits (m.pass i) id) := by
  rw [world_pass, emits_pass hl]
  exact h.pass i

theorem Turn.watches {frame : Frame Empty} {last : Option Value} {found : Outcome}
    {announced : List (Option Value)} (ht : m.Turn frame m') (hq : (m.push frame).mutates = false)
    (hc : m.world.Closed) (h : m.world.Watches id last found announced) :
    m'.world.Watches id last found (announced ++ (m.push frame).emits m' id) := by
  have hquiet {w : World Empty} {es : List (Option Value)} (hes : es = [])
      (hw : w.Watches id last found announced) : w.Watches id last found (announced ++ es) := by
    rw [hes, List.append_nil]; exact hw
  have hrecord (e : Event) : (m.world.record e).Watches id last found announced :=
    h.congr (Nat.le_refl _) rfl rfl
  cases ht with
  | spent => exact hquiet (emits_of_length_le (Nat.le_succ _)) h
  | perform c cs =>
    refine hquiet (emits_notify (by rfl) _) ?_
    rw [world_notify]; exact World.Moves.watches (m.moves_perform hq) hc h
  | answer a => exact hquiet (emits_of_length_le (Nat.le_succ _)) (hrecord _)
  | announce | miss | ignore => exact hquiet rfl h
  | hear | call => exact hquiet rfl (hrecord _)
  | pass => exact watches_pass (m := m.push _) h (Nat.le_succ _) _
  | mark => exact hquiet rfl (h.set rfl rfl rfl)
  | skip => exact hquiet (emits_of_length_le (Nat.le_refl _)) h
  | again => exact watches_pass h (Nat.le_refl _) _
  | settle => exact hquiet (emits_of_length_le (Nat.le_succ _)) (h.set rfl rfl rfl)
  | finished => exact hquiet (emits_of_length_le (Nat.le_succ _)) h

/-! ### Operations -/

/-- Listeners finish what has begun, and mutate nothing. What the tracker emits is collected. -/
inductive Settles (id : TrackerId) : Machine Empty → List (Option Value) → Machine Empty → Prop
  | rest {m : Machine Empty} (h : m.stack = []) : Settles id m [] m
  | turn {m m' : Machine Empty} {es : List (Option Value)} (h : m.stack ≠ [])
      (hq : m.mutates = false)
      (hs : Settles id m.next es m') : Settles id m (m.emits m.next id ++ es) m'
  | divert {m m' : Machine Empty} {cs : List (Command Empty)} {frames : List (Frame Empty)}
      {es : List (Option Value)} (h : m.stack = .script cs :: frames) (cs' : List (Command Empty))
      (hs : Settles id { m with stack := .script cs' :: frames } es m') : Settles id m es m'

namespace Settles
variable {es : List (Option Value)}

theorem leads (hs : m.Settles id es m') : m.Leads m' := by
  induction hs with
  | rest => exact .refl
  | turn h _ _ ih => exact .head (.turn h) ih
  | divert h cs' _ ih => exact .head (.divert h cs') ih

theorem stack_eq_nil (hs : m.Settles id es m') : m'.stack = [] := by
  induction hs with
  | rest h => exact h
  | turn _ _ _ ih => exact ih
  | divert _ _ _ ih => exact ih

theorem watches {last : Option Value} {found : Outcome} {announced : List (Option Value)}
    (hs : m.Settles id es m') (hc : m.world.Closed) (h : m.world.Watches id last found announced) :
    m'.world.Watches id last found (announced ++ es) := by
  induction hs generalizing announced with
  | rest => rw [List.append_nil]; exact h
  | turn hne hq _ ih =>
    have hc' := (Step.turn hne).closed hc
    obtain ⟨frame, m₀, rfl, ht⟩ := exists_turn hne
    rw [← List.append_assoc]
    exact ih hc' (ht.watches hq hc h)
  | divert _ _ _ ih => exact ih hc h

end Settles

theorem exists_settles_iterate {n : Nat} (h : ∀ k < n, (next^[k] m).mutates = false)
    (hs : (next^[n] m).stack = []) (id : TrackerId) : ∃ es, m.Settles id es (next^[n] m) := by
  induction n generalizing m with
  | zero => exact ⟨[], .rest hs⟩
  | succ n ih =>
    by_cases hne : m.stack = []
    · rw [Function.iterate_fixed (next_of_rest hne)]
      exact ⟨[], .rest hne⟩
    · obtain ⟨es, he⟩ := ih (fun k hk => h (k + 1) (Nat.succ_lt_succ hk)) hs
      exact ⟨_, .turn hne (h 0 (Nat.zero_lt_succ n)) he⟩

theorem exists_settles (h : ∀ n, (next^[n] m).mutates = false) (id : TrackerId) :
    ∃ es, m.Settles id es m.run := by
  obtain ⟨n, hn⟩ := m.exists_run_eq
  have hs := m.stack_run
  rw [hn] at hs ⊢
  exact exists_settles_iterate (fun k _ => h k) hs id

def Live (m : Machine Empty) (id : TrackerId) : Prop :=
  (m.world.trackers.get id).handles ≠ 0 ∧ (m.world.trackers.get id).phase ≠ .disposed

def found (m : Machine Empty) (id : TrackerId) : Outcome :=
  (m.world.graph.get (m.world.trackers.get id).accessor (m.world.trackers.get id).root).1

/-- What a tracker emits during an operation, and what its path leads to after it. -/
structure Operation where
  emitted : List (Option Value)
  found : Outcome

/-- Operations one after the other, with listeners that mutate nothing. -/
inductive Operates (id : TrackerId) : Machine Empty → List Operation → Prop
  | nil (m : Machine Empty) : Operates id m []
  | cons {m m' : Machine Empty} {es : List (Option Value)} {ops : List Operation}
      (c : Command Empty)
      (h : m.stack = []) (hs : (m.begin c).Settles id es m') (hl : m'.Live id)
      (ho : Operates id m' ops) :
      Operates id m (⟨m.emits (m.begin c) id ++ es, m'.found id⟩ :: ops)

theorem watches_begin (c : Command Empty) (hid : id < m.world.trackers.next) :
    (m.begin c).world.Watches id (m.world.trackers.get id).last ((m.begin c).found id) [] := by
  have hd := m.afresh.does_perform c
  have hw : (m.begin c).world = (m.afresh.perform c).1.world := world_notify ..
  refine ⟨?_, (congrArg Prod.fst (Graph.get_eq ..)).symm, fun _ => .inl ⟨rfl, ?_⟩⟩ <;> rw [hw]
  · exact Nat.lt_of_lt_of_le hid hd.continues.next_le
  · exact hd.last hid

/-- After an operation a tracker has emitted what is new, and remembers what was found. -/
theorem emitted_of_settles {es : List (Option Value)} (hm : m.Reachable) (c : Command Empty)
    (hs : m.stack = []) (hid : id < m.world.trackers.next) (hse : (m.begin c).Settles id es m')
    (hl : m'.Live id) (hn : ∀ v, m'.found id = .ok v → Value.sameOption v v = true) :
    m.emits (m.begin c) id ++ es = news (m.world.trackers.get id).last (m'.found id) ∧
      (m'.world.trackers.get id).last = kept (m.world.trackers.get id).last (m'.found id) := by
  have hb : (m.begin c).Reachable := hm.begin hs c
  have hw := hse.watches hb.closed (watches_begin c hid)
  have hfound : (m.begin c).found id = m'.found id :=
    hw.leads.symm.trans (congrArg Prod.fst (Graph.get_eq ..)).symm
  have hbegin : m.emits (m.begin c) id = [] :=
    emits_notify (emits_of_length_le (Nat.le_of_eq (congrArg List.length (stack_perform ..)))) _
  have hcur := (current_at_rest (hb.leads hse.leads) hse.stack_eq_nil id hl.1 hl.2).2.2
  have htold := hw.told (hfound ▸ hn)
  rw [hfound, List.nil_append] at htold
  rw [hbegin, List.nil_append]
  cases hf : m'.found id with
  | error e =>
    rcases htold with ⟨hnil, hlast⟩ | ⟨hok, -⟩
    · exact ⟨hnil, hlast⟩
    · cases hf.symm.trans hok
  | ok v =>
    refine ⟨?_, hcur v hf⟩
    rcases htold with ⟨hnil, hlast⟩ | ⟨-, hnews⟩
    · -- Nothing was announced, and yet the tracker is current: it has remembered this value all
      -- along.
      rw [hnil, news, ← hlast, hcur v hf, if_pos (hn v hf)]
    · rw [hnews, hf]

theorem Operates.emitted_eq {ops : List Operation} (ho : m.Operates id ops) (hm : m.Reachable)
    (hid : id < m.world.trackers.next)
    (hn : ∀ op ∈ ops, ∀ v, op.found = .ok v → Value.sameOption v v = true) :
    ops.map (·.emitted) = poll (m.world.trackers.get id).last (ops.map (·.found)) := by
  induction ho with
  | nil => rfl
  | @cons m m' es ops c h hs hl ho ih =>
    obtain ⟨he, hlast⟩ := emitted_of_settles hm c h hid hs hl (hn _ (List.mem_cons_self ..))
    have hm' : m'.Reachable := (hm.begin h c).leads hs.leads
    rw [List.map_cons, List.map_cons, poll_cons, he, ← hlast]
    rw [ih hm' (lt_next_of_phase hl.2) fun op hop => hn op (List.mem_cons_of_mem _ hop)]

namespace Operation
variable {ops : List Operation} {last : Option Value}

/-- A poller reports at most one value at a time, and none if it can not find one. -/
theorem emitted_of_poll (h : ops.map (·.emitted) = poll last (ops.map (·.found))) :
    ∀ op ∈ ops, op.emitted.length ≤ 1 ∧ ∀ e, op.found = .error e → op.emitted = [] := by
  induction ops generalizing last with
  | nil => exact nofun
  | cons op ops ih =>
    rw [List.map_cons, List.map_cons, poll_cons] at h
    obtain ⟨he, hrest⟩ := List.cons.inj h
    refine List.forall_mem_cons.2 ⟨⟨he ▸ length_news .., fun e hf => ?_⟩, ih hrest⟩
    rw [he, hf]; rfl

/-- What was not found in between does not matter to a poller. -/
theorem emitted_of_failed {failed : List Operation} {op : Operation}
    (h : (failed ++ op :: ops).map (·.emitted) = poll last ((failed ++ op :: ops).map (·.found)))
    (hf : ∀ o ∈ failed, ∃ e, o.found = .error e) : op.emitted = news last op.found := by
  induction failed with
  | nil =>
    rw [List.nil_append, List.map_cons, List.map_cons, poll_cons] at h
    exact (List.cons.inj h).1
  | cons o failed ih =>
    obtain ⟨⟨e, he⟩, hf⟩ := List.forall_mem_cons.1 hf
    rw [List.cons_append, List.map_cons, List.map_cons, poll_cons, he] at h
    exact ih (List.cons.inj h).2 hf

end Operation

/--
A tracker refines a poller. As long as listeners mutate nothing, and the path never leads to what is
not a number, what a tracker emits in each operation is what a poller reports that evaluates the
path after the operation. So in an operation there is at most one emission, and none when the path
fails; and when it can be walked again, there is one if the value differs from the one remembered
before the failure.
-/
theorem emissions_eq_poll {ops : List Operation} (hm : m.Reachable) (hl : m.Live id)
    (ho : m.Operates id ops)
    (hn : ∀ op ∈ ops, ∀ x, op.found = .ok (some (.float x)) → x.isNaN = false) :
    ops.map (·.emitted) = poll (m.world.trackers.get id).last (ops.map (·.found)) ∧
    (∀ op ∈ ops, op.emitted.length ≤ 1 ∧ ∀ e, op.found = .error e → op.emitted = []) ∧
    ∀ failed op rest v, ops = failed ++ op :: rest → (∀ o ∈ failed, ∃ e, o.found = .error e) →
      op.found = .ok v →
      op.emitted = if Value.sameOption (m.world.trackers.get id).last v then [] else [v] := by
  have hself : ∀ op ∈ ops, ∀ v, op.found = .ok v → Value.sameOption v v = true := by
    intro op hop v hv
    refine Value.sameOption_self fun x hx => hn op hop x ?_
    rw [hv, hx]
  have heq := ho.emitted_eq hm (lt_next_of_phase hl.2) hself
  refine ⟨heq, Operation.emitted_of_poll heq, ?_⟩
  rintro failed op rest v rfl hf hv
  rw [Operation.emitted_of_failed heq hf, hv]
  rfl

/-- The tracker of `tracking` reports an assignment. -/
theorem emissions_eq_poll_tracking :
    ∃ op, tracking.Reachable ∧ tracking.Live 0 ∧ tracking.Operates 0 [op] ∧
      op.found = .ok (some (.bool false)) ∧
      op.emitted = [some (.bool false)] := by
  have hl : tracking.Live 0 := ⟨by decide, by decide⟩
  obtain ⟨es, hs⟩ :=
    exists_settles_iterate (m := tracking.begin (.act (.edit "m" (.set "name" (.bool false)))))
      (n := 6) (by decide) rfl 0
  have ho : tracking.Operates 0 [⟨es, .ok (some (.bool false))⟩] :=
    .cons _ rfl hs ⟨by decide, by decide⟩ (.nil _)
  have heq := (emissions_eq_poll reachable_tracking hl ho (List.forall_mem_singleton.2 nofun)).1
  exact ⟨_, reachable_tracking, hl, ho, rfl, (List.cons.inj heq).1⟩

end Machine
end LivePath
