import LivePath.Proofs.Twins

/-!
# Twin trackers

A tracker and its twin observe the same place, know the same value and have the same listeners. In
twin graphs both do the same when they are bound, make a pass or are disposed (`Twin.pass`,
`Twin.dispose`, `Graph.Twin.bind`), and find the same value to be announced. A stranger among the
trackers only ever touches what is its own (`Strange.pass`, `Strange.dispose`).
-/

namespace LivePath

/-! ### Registries of scripts -/

/-- The same registration of a script. -/
structure Pairing.Listens {τ : Type} (P : Pairing) (r r' : Registration τ ScriptId) : Prop where
  key : r'.key = r.key
  tag : r'.tag = r.tag
  script : P.script r.listener r'.listener

theorem Pairing.Listens.mono {τ : Type} {P P' : Pairing} {r r' : Registration τ ScriptId}
    (h : P.Listens r r') (hP : P.Grows P') : P'.Listens r r' :=
  ⟨h.key, h.tag, hP.script h.script⟩

abbrev Pairing.Listen {τ : Type} (P : Pairing) :
    List (Registration τ ScriptId) → List (Registration τ ScriptId) → Prop :=
  List.Forall₂ P.Listens

theorem Pairing.Listen.mono {τ : Type} {P P' : Pairing} {rs rs' : List (Registration τ ScriptId)}
    (h : P.Listen rs rs') (hP : P.Grows P') : P'.Listen rs rs' :=
  List.Forall₂.imp (fun _ _ hr => hr.mono hP) h

/-- The same registrations under the same keys. -/
structure Registry.Twin {τ : Type} (P : Pairing) (r r' : Registry τ ScriptId) : Prop where
  entries : P.Listen r.entries r'.entries
  freed : r'.freed = r.freed
  slots : r'.slots = r.slots

namespace Registry.Twin
variable {τ : Type} {P P' : Pairing} {r r' : Registry τ ScriptId}

theorem mono (h : Twin P r r') (hP : P.Grows P') : Twin P' r r' :=
  ⟨h.entries.mono hP, h.freed, h.slots⟩

theorem empty : Twin P ({} : Registry τ ScriptId) {} :=
  ⟨.nil, rfl, rfl⟩

theorem keys (h : Twin P r r') : r'.keys = r.keys := by
  have hkeys {rs rs' : List (Registration τ ScriptId)} (h : P.Listen rs rs') :
      rs'.map (·.key) = rs.map (·.key) := by
    induction h with
    | nil => rfl
    | cons hr _ ih => rw [List.map_cons, List.map_cons, hr.key, ih]
  exact hkeys h.entries

theorem contains (h : Twin P r r') (k : Key) : r'.contains k = r.contains k := by
  rw [Bool.eq_iff_iff, contains_iff, contains_iff, h.keys]

theorem nextKey (h : Twin P r r') : r'.nextKey = r.nextKey := by
  rw [Registry.nextKey, h.freed, h.slots, Registry.nextKey]

theorem insert (h : Twin P r r') (tag : τ) {i i' : ScriptId} (hi : P.script i i') :
    Twin P (r.insert tag i) (r'.insert tag i') := by
  refine ⟨List.rel_append h.entries (.cons ⟨h.nextKey, rfl, hi⟩ .nil),
    congrArg List.tail h.freed, ?_⟩
  rw [Registry.insert, Registry.insert, h.freed, h.slots]

theorem erase (h : Twin P r r') (k : Key) : Twin P (r.erase k) (r'.erase k) := by
  unfold Registry.erase
  rw [h.contains]
  split
  · refine ⟨List.rel_filter (fun e e' he => ?_) h.entries,
      congrArg (k.renewed :: ·) h.freed, h.slots⟩
    show decide (e.key ≠ k) = true ↔ decide (e'.key ≠ k) = true
    rw [he.key]
  · exact h

theorem clear (h : Twin P r r') : Twin P r.clear r'.clear := by
  have hkeys : r'.entries.map (·.key) = r.entries.map (·.key) := h.keys
  refine ⟨.nil, ?_, h.slots⟩
  simp only [Registry.clear, hkeys, h.freed]

theorem select (h : Twin P r r') (p : τ → Bool) : P.Listen (r.select p) (r'.select p) := by
  refine List.rel_filter (fun e e' he => ?_) h.entries
  show p e.tag = true ↔ p e'.tag = true
  rw [he.tag]

end Registry.Twin

/-! ### Trackers -/

abbrev Pairing.Records (P : Pairing) : List Hook → List Hook → Prop :=
  List.Forall₂ P.Recorded

theorem Pairing.Records.mono {P P' : Pairing} {hs hs' : List Hook} (h : P.Records hs hs')
    (hP : P.Grows P') :
    P'.Records hs hs' :=
  List.Forall₂.imp (fun _ _ hr => hr.mono hP) h

namespace Tracker

structure Twin (P : Pairing) (t t' : Tracker) : Prop where
  root : t'.root = t.root
  accessor : t'.accessor = t.accessor
  last : t'.last = t.last
  phase : t'.phase = t.phase
  dirty : t'.dirty = t.dirty
  handles : t'.handles = t.handles
  hooks : P.Records (hooksOf t.records) (hooksOf t'.records)
  listeners : t.listeners.Twin P t'.listeners

/-- A stranger remembers its own registrations, and its listeners do nothing. -/
structure Strange (P : Pairing) (t : Tracker) : Prop where
  hooks : ∀ h ∈ hooksOf t.records, P.own h.target h.key
  listeners : ∀ r ∈ t.listeners.entries, P.mute r.listener

variable {P P' : Pairing} {t t' : Tracker} {g g' : Graph Empty}

theorem Twin.mono (h : Twin P t t') (hP : P.Grows P') : Twin P' t t' :=
  { h with hooks := h.hooks.mono hP, listeners := h.listeners.mono hP }

theorem Strange.mono (h : Strange P t) (hP : P.Grows P') : Strange P' t :=
  ⟨fun x hx => hP.own (h.hooks x hx), fun r hr => hP.mute (h.listeners r hr)⟩

theorem pairs_hooksOf {rs : List Record} {ds : List Dependency}
    (h : rs.map (fun r => (r.target, r.topics)) = ds.map fun d => (d.target, d.topics)) :
    (hooksOf rs).map (fun x => (x.target, x.topic)) = ds.flatMap Dependency.pairs := by
  have hpairs := congrArg (List.flatMap fun p : ObjectId × List Topic => p.2.map (p.1, ·)) h
  simp only [List.flatMap_map, Record.topics, List.map_map, Function.comp_def] at hpairs
  simp only [hooksOf, Record.hooks, List.map_flatMap, List.map_map, Function.comp_def]
  exact hpairs

theorem pass_eq (id : TrackerId) (t : Tracker) (g : Graph Empty) :
    hooksOf (t.pass id g).1.tracker.records =
        ((g.unobserveAll ((hooksOf t.records).map Hook.address)).observeAll (.tracker id)
          (t.trail g).pairs).1 ∧
      (t.pass id g).1.graph =
        ((g.unobserveAll ((hooksOf t.records).map Hook.address)).observeAll (.tracker id)
          (t.trail g).pairs).2 := by
  obtain ⟨g₁, ps, hr, hh, hr'⟩ := exists_pass id t g
  obtain rfl := hr.eq
  have hps : ps = (t.trail g).pairs := by
    have hpairs := pairs_hooksOf (observes_iff.1 (passed_pass id t g).observes)
    rw [hh, Graph.pairs_observeAll] at hpairs
    exact hpairs
  rw [← hps]
  exact ⟨hh, hr'.eq⟩

theorem Twin.pass (h : Twin P t t') (hg : g.Twin P g') {i i' : TrackerId} (hi : P.tracker i i') :
    ∃ K, P.Grows { P with key := K } ∧
      Graph.Twin { P with key := K } (t.pass i g).1.graph (t'.pass i' g').1.graph ∧
      Twin { P with key := K } (t.pass i g).1.tracker (t'.pass i' g').1.tracker ∧
      (t'.pass i' g').2 = (t.pass i g).2 := by
  have htrail : t'.trail g' = t.trail g := by
    rw [trail, h.accessor, h.root]
    exact hg.same.trail ..
  obtain ⟨hhooks, hgraph⟩ := pass_eq i t g
  obtain ⟨hhooks', hgraph'⟩ := pass_eq i' t' g'
  have hp := passed_pass i t g
  have hp' := passed_pass i' t' g'
  have htracker := tracker_pass i t g
  have htracker' := tracker_pass i' t' g'
  -- Both passes give up paired hooks and observe the same pairs anew.
  obtain ⟨K, hK, htwin, hrecords⟩ :=
    (hg.unobserveAll h.hooks).observeAll (t.trail g).pairs (.tracker hi)
  rw [htrail] at hhooks' hgraph'
  rw [← hgraph, ← hgraph'] at htwin
  rw [← hhooks, ← hhooks'] at hrecords
  have hfound : (t'.pass i' g').1.tracker.last = (t.pass i g).1.tracker.last ∧
      (t'.pass i' g').2 = (t.pass i g).2 := by
    cases ho : (t.trail g).outcome with
    | ok v =>
      obtain ⟨hlast, hannounced⟩ := hp.found v ho
      obtain ⟨hlast', hannounced'⟩ := hp'.found v (htrail ▸ ho)
      rw [hlast, hlast', hannounced, hannounced', h.last]
      exact ⟨rfl, rfl⟩
    | error e =>
      obtain ⟨hlast, hannounced⟩ := hp.failed e ho
      obtain ⟨hlast', hannounced'⟩ := hp'.failed e (htrail ▸ ho)
      rw [hlast, hlast', hannounced, hannounced', h.last]
      exact ⟨rfl, rfl⟩
  refine ⟨K, hK, htwin, ?_, hfound.2⟩
  rw [htracker, htracker']
  exact ⟨h.root, h.accessor, hfound.1, rfl, rfl, h.handles, hrecords, h.listeners.mono hK⟩

theorem Strange.pass (h : Strange P t) (hg : g.Twin P g') {j : TrackerId} (hj : P.crowd j) :
    ∃ O, P.Grows { P with own := O } ∧ Graph.Twin { P with own := O } g (t.pass j g').1.graph ∧
      Strange { P with own := O } (t.pass j g').1.tracker := by
  obtain ⟨hhooks, hgraph⟩ := pass_eq j t g'
  obtain ⟨O, hO, htwin, hown⟩ := (hg.releaseAll h.hooks).claimAll (t.trail g').pairs hj
  rw [← hgraph] at htwin
  rw [← hhooks] at hown
  have htracker := tracker_pass j t g'
  refine ⟨O, hO, htwin, ?_⟩
  rw [htracker]
  exact ⟨hown, h.listeners⟩

theorem Twin.dispose (h : Twin P t t') (hg : g.Twin P g') :
    Graph.Twin P (t.dispose g).graph (t'.dispose g').graph ∧
      Twin P (t.dispose g).tracker (t'.dispose g').tracker := by
  by_cases hp : t.phase = .disposed
  · obtain ⟨htracker, hgraph⟩ := dispose_of_disposed hp g
    obtain ⟨htracker', hgraph'⟩ := dispose_of_disposed (h.phase.trans hp) g'
    rw [htracker, htracker', hgraph, hgraph']
    exact ⟨hg, h⟩
  · obtain ⟨htracker, hgraph⟩ := dispose_of_not_disposed hp g
    obtain ⟨htracker', hgraph'⟩ := dispose_of_not_disposed (fun hd => hp (h.phase.symm.trans hd)) g'
    rw [htracker, htracker', hgraph, hgraph']
    exact ⟨hg.unobserveAll h.hooks, h.root, h.accessor, h.last, rfl, h.dirty, h.handles, .nil,
      h.listeners.clear⟩

theorem Strange.dispose (h : Strange P t) (hg : g.Twin P g') :
    g.Twin P (t.dispose g').graph ∧ Strange P (t.dispose g').tracker := by
  by_cases hp : t.phase = .disposed
  · obtain ⟨htracker, hgraph⟩ := dispose_of_disposed hp g'
    rw [htracker, hgraph]
    exact ⟨hg, h⟩
  · obtain ⟨htracker, hgraph⟩ := dispose_of_not_disposed hp g'
    rw [htracker, hgraph]
    exact ⟨hg.releaseAll h.hooks, fun x hx => absurd hx List.not_mem_nil, fun r hr =>
      absurd hr List.not_mem_nil⟩

/-! ### New trackers -/

theorem bind_eq {id : TrackerId} {a : Accessor} {root : Value} {t : Tracker} {es : List LogEntry}
    {g₁ : Graph Empty} (h : bind id a root g = (.ok (t, es), g₁)) :
    hooksOf t.records = (g.observeAll (.tracker id) (g.trail a root).pairs).1 ∧
      g₁ = (g.observeAll (.tracker id) (g.trail a root).pairs).2 := by
  obtain ⟨g₂, g₃, w, hget, hwalk, -, -, hhooks, hgraph, -⟩ := exists_bind_ok h
  rw [Graph.get_eq] at hget
  obtain ⟨-, rfl⟩ := Prod.mk.inj hget
  rw [Graph.walk_eq] at hwalk
  obtain ⟨rfl, rfl⟩ := Prod.mk.inj hwalk
  exact ⟨hhooks, hgraph⟩

end Tracker

theorem Graph.Twin.bind {P : Pairing} {g g' : Graph Empty} (hg : g.Twin P g') {i i' : TrackerId}
    (hi : P.tracker i i') (a : Accessor) (root : Value) :
    (∃ e, Tracker.bind i a root g = (.error e, g) ∧ Tracker.bind i' a root g' = (.error e, g')) ∨
      ∃ t t' es es' g₁ g₁' K, Tracker.bind i a root g = (.ok (t, es), g₁) ∧
        Tracker.bind i' a root g' = (.ok (t', es'), g₁') ∧ P.Grows { P with key := K } ∧
        g₁.Twin { P with key := K } g₁' ∧ t.Twin { P with key := K } t' ∧
        t'.records.length = t.records.length := by
  have htrail := hg.same.trail a root
  cases hout : (g.trail a root).outcome with
  | error e => exact .inl ⟨e, Tracker.bind_of_error hout, Tracker.bind_of_error (htrail ▸ hout)⟩
  | ok v =>
    obtain ⟨t, es, g₁, hb⟩ := Tracker.exists_bind_of_ok i hout
    obtain ⟨t', es', g₁', hb'⟩ := Tracker.exists_bind_of_ok i' (htrail ▸ hout)
    obtain ⟨hlast, ht, hobs, -, -⟩ := Tracker.exists_bind hb
    obtain ⟨hlast', ht', hobs', -, -⟩ := Tracker.exists_bind hb'
    obtain ⟨hhooks, hgraph⟩ := Tracker.bind_eq hb
    obtain ⟨hhooks', hgraph'⟩ := Tracker.bind_eq hb'
    rw [htrail] at hlast' hobs' hhooks' hgraph'
    obtain ⟨K, hK, htwin, hrecords⟩ := hg.observeAll (g.trail a root).pairs (.tracker hi)
    rw [← hgraph, ← hgraph'] at htwin
    rw [← hhooks, ← hhooks'] at hrecords
    have hlength : t'.records.length = t.records.length := by
      have hl := congrArg List.length (Tracker.observes_iff.1 hobs)
      have hl' := congrArg List.length (Tracker.observes_iff.1 hobs')
      rw [List.length_map, List.length_map] at hl hl'
      rw [hl, hl']
    refine .inr ⟨t, t', es, es', g₁, g₁', K, hb, hb', hK, htwin, ?_, hlength⟩
    have hsame : t'.last = t.last := Except.ok.inj (hlast'.symm.trans hlast)
    rw [ht, ht']
    exact ⟨rfl, rfl, hsame, rfl, rfl, rfl, hrecords, .empty⟩

theorem Graph.Twin.bindStranger {P : Pairing} {g g' : Graph Empty} (hg : g.Twin P g')
    {j : TrackerId} (hj : P.crowd j) (a : Accessor) (root : Value) :
    (∃ e, Tracker.bind j a root g' = (.error e, g')) ∨
      ∃ t es g₁ O, Tracker.bind j a root g' = (.ok (t, es), g₁) ∧ P.Grows { P with own := O } ∧
        g.Twin { P with own := O } g₁ ∧ t.Strange { P with own := O } := by
  cases hout : (g'.trail a root).outcome with
  | error e => exact .inl ⟨e, Tracker.bind_of_error hout⟩
  | ok v =>
    obtain ⟨t, es, g₁, hb⟩ := Tracker.exists_bind_of_ok j hout
    obtain ⟨-, ht, -, -, -⟩ := Tracker.exists_bind hb
    obtain ⟨hhooks, hgraph⟩ := Tracker.bind_eq hb
    obtain ⟨O, hO, htwin, hown⟩ := hg.claimAll (g'.trail a root).pairs hj
    rw [← hgraph] at htwin
    rw [← hhooks] at hown
    refine .inr ⟨t, es, g₁, O, hb, hO, htwin, ?_⟩
    rw [ht]
    exact ⟨hown, fun r hr => absurd hr List.not_mem_nil⟩

end LivePath
