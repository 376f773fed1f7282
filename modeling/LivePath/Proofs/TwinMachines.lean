import LivePath.Proofs.Sights
import LivePath.Proofs.TwinWorlds

/-!
# Twin machines

Two machines are twins if their worlds are, if their listeners have the same scripts, and if the
work that the first has begun is woven into that of the second, where strangers make passes of their
own and have their listeners called. Whenever no stranger is at work, both machines take the same
turn, and the same shows of it (`Twin.turn`). When a stranger is at work, the second machine goes on
alone (`Twin.attend`).
-/

namespace LivePath

/-! ### Scripts -/

namespace Pairing

def pairScript (P : Pairing) (i i' : ScriptId) : Pairing :=
  { P with script := fun j j' => P.script j j' ∨ j = i ∧ j' = i' }

def silence (P : Pairing) (i : ScriptId) : Pairing :=
  { P with mute := fun j => P.mute j ∨ j = i }

theorem grows_pairScript (P : Pairing) (i i' : ScriptId) : P.Grows (P.pairScript i i') :=
  { Grows.refl P with script := .inl }

theorem grows_silence (P : Pairing) (i : ScriptId) : P.Grows (P.silence i) :=
  { Grows.refl P with mute := .inl }

/-- The same scripts, and the scripts of strangers, which do nothing. -/
abbrev Scripts (P : Pairing) : Table (Script Empty) → Table (Script Empty) → Prop :=
  Table.Paired P.script P.mute (fun s s' => s' = s) fun s => s.commands = []

theorem Scripts.grow {P P' : Pairing} {ss ss' : Table (Script Empty)} (h : P.Scripts ss ss')
    (hscript : P'.script = P.script) (hmute : P'.mute = P.mute) : P'.Scripts ss ss' := by
  unfold Scripts
  rw [hscript, hmute]
  exact h

end Pairing

/-! ### Frames -/

namespace Frame

/-- The same piece of work. -/
inductive Twin (P : Pairing) : Frame Empty → Frame Empty → Prop
  | script (cs : List (Command Empty)) : Twin P (.script cs) (.script cs)
  | finish (a a' : Answer) : Twin P (.finish a) (.finish a')
  | announce (o : ObjectId) (ts : List Topic) : Twin P (.announce o ts) (.announce o ts)
  | topic {o : ObjectId} (t : Topic) {rs rs' : List (Registration Topic Observer)}
      (h : P.Weaves o rs rs') :
      Twin P (.topic o t rs) (.topic o t rs')
  | text (d : DispatcherId) (s : String) {rs rs' : List (Registration Int ScriptId)}
      (h : P.Listen rs rs') :
      Twin P (.text d s rs) (.text d s rs')
  | change {i i' : TrackerId} (hi : P.tracker i i') (v : Option Value)
      {rs rs' : List (Registration Unit ScriptId)}
      (h : P.Listen rs rs') : Twin P (.change i v rs) (.change i' v rs')
  | handling {i i' : TrackerId} (hi : P.tracker i i') : Twin P (.handling i) (.handling i')

/-- The work of a stranger. -/
inductive Strange (P : Pairing) : Frame Empty → Prop
  | change {j : TrackerId} (hj : P.crowd j) (v : Option Value)
      {rs : List (Registration Unit ScriptId)}
      (h : ∀ r ∈ rs, P.mute r.listener) : Strange P (.change j v rs)
  | handling {j : TrackerId} (hj : P.crowd j) : Strange P (.handling j)

variable {P P' : Pairing} {f f' : Frame Empty}

theorem Twin.mono (h : f.Twin P f') (hP : P.Grows P') : f.Twin P' f' := by
  cases h with
  | script cs => exact .script cs
  | finish a a' => exact .finish a a'
  | announce o ts => exact .announce o ts
  | topic t h => exact .topic t (h.mono hP)
  | text d s h => exact .text d s (h.mono hP)
  | change hi v h => exact .change (hP.tracker hi) v (h.mono hP)
  | handling hi => exact .handling (hP.tracker hi)

theorem Strange.mono (h : f.Strange P) (hP : P.Grows P') : f.Strange P' := by
  cases h with
  | change hj v h => exact .change (hP.crowd hj) v fun r hr => hP.mute (h r hr)
  | handling hj => exact .handling (hP.crowd hj)

end Frame

/-- The work of the one machine is woven into that of the other. -/
abbrev Pairing.Stacks (P : Pairing) : List (Frame Empty) → List (Frame Empty) → Prop :=
  Woven (Frame.Twin P) (Frame.Strange P)

theorem Pairing.Stacks.mono {P P' : Pairing} {fs fs' : List (Frame Empty)} (h : P.Stacks fs fs')
    (hP : P.Grows P') :
    P'.Stacks fs fs' :=
  Woven.mono h (fun _ _ hf => hf.mono hP) fun _ hf => hf.mono hP

/-! ### Machines -/

/-- The same shows, up to what is told about listeners. -/
inductive Sight.Like {F : Type} : Sight F → Sight F → Prop
  | ran (c : Command F) {a a' : Answer} (h : ¬ c.AboutListeners → a' = a) :
      Like (.ran c a) (.ran c a')
  | heard (e : Event) : Like (.heard e) (.heard e)

namespace Machine

/-- A stranger takes its turn. A listener of its that is called returns at once. -/
def attend {F : Type} [Foreign F] (m : Machine F) : Machine F :=
  match m.stack with
  | .change j _ (r :: _) :: _ =>
    if (m.world.trackers.get j).listeners.contains r.key then m.next.next else m.next
  | _ => m.next

def StrangersTurn {F : Type} (crowd : TrackerId → Prop) (m : Machine F) : Prop :=
  match m.stack with
  | .topic _ _ (r :: _) :: _ => ∃ j, crowd j ∧ r.listener = .tracker j
  | .change j _ _ :: _ => crowd j
  | .handling j :: _ => crowd j
  | _ => False

/-- The second machine has all that the first has, and strangers besides. -/
structure Twin (reserved : String → Prop) (P : Pairing) (m n : Machine Empty) : Prop where
  world : m.world.Twin reserved P n.world
  scripts : P.Scripts m.scripts n.scripts
  stack : P.Stacks m.stack n.stack

/-- Twins under a pairing with the same strangers. -/
def Twins (reserved : String → Prop) (P : Pairing) (m n : Machine Empty) : Prop :=
  ∃ P', P'.crowd = P.crowd ∧ m.Twin reserved P' n

/-- Both machines stay twins in their turns, and the same shows. -/
def Parallel (reserved : String → Prop) (P : Pairing) (m n : Machine Empty) (f f' : Frame Empty) :
    Prop :=
  Twins reserved P (m.turn f) (n.turn f') ∧
    List.Forall₂ Sight.Like (m.push f).sight?.toList (n.push f').sight?.toList

variable {reserved : String → Prop} {P P' : Pairing} {m n : Machine Empty}

theorem twin_perform (hw : m.world.Twin reserved P n.world) (hs : P.Scripts m.scripts n.scripts)
    {c : Command Empty} (hn : ∀ x ∈ c.names, ¬ reserved x) :
    ∃ P', P.Grows P' ∧ P'.crowd = P.crowd ∧
      (m.perform c).1.world.Twin reserved P' (n.perform c).1.world ∧
      P'.Scripts (m.perform c).1.scripts (n.perform c).1.scripts ∧
      (n.perform c).2.2 = (m.perform c).2.2 ∧
      (¬ c.AboutListeners → (n.perform c).2.1 = (m.perform c).2.1) := by
  cases c with
  | listen label source times commands =>
    -- The new scripts are paired first, since what they register is paired by them.
    have hgrows := P.grows_pairScript m.scripts.next n.scripts.next
    have hw₁ := hw.grow hgrows rfl rfl rfl rfl
    have hs₁ : (P.pairScript m.scripts.next n.scripts.next).Scripts _ _ :=
      hs.push (t := { label, times, commands }) rfl
    have hsource : ∀ x ∈ source.names, ¬ reserved x := fun x hx => hn x (List.mem_cons_of_mem _ hx)
    have hlisten := hw₁.matches_listen (hn label (List.mem_cons_self ..)) (.inr ⟨rfl, rfl⟩) hsource
    simp only [perform, listen]
    rcases hlisten.cases with ⟨⟨w, a⟩, ⟨w', a'⟩, hx, hy, P', hP, hr⟩ | ⟨f, hx, hy⟩
    · rw [hx, hy]
      exact ⟨P', hgrows.trans hP.grows, hP.crowd, hr, hs₁.grow hP.script hP.mute, rfl, fun hq =>
        absurd trivial hq⟩
    · rw [hx, hy]
      exact ⟨_, hgrows, rfl, hw₁, hs₁, rfl, fun _ => rfl⟩
  | act action =>
    -- An action takes effect on both sides alike, or fails on both.
    have hmatches (hm : Matches (World.Twin.Agreed reserved P action.AboutListeners)
        (effectOf m.world action) (effectOf n.world action)) :
        ∃ P', P.Grows P' ∧ P'.crowd = P.crowd ∧
        (m.act action).1.world.Twin reserved P' (n.act action).1.world ∧
          P'.Scripts (m.act action).1.scripts (n.act action).1.scripts ∧
          (n.act action).2.2 = (m.act action).2.2 ∧
          (¬ action.AboutListeners → (n.act action).2.1 = (m.act action).2.1) := by
      rcases act_of_matches hm with ⟨e, e', ⟨⟨P', hP, hr⟩, hanswer, hnotice⟩, hx, hy⟩ | ⟨f, hx, hy⟩
      · rw [hx, hy]
        exact ⟨P', hP.grows, hP.crowd, hr, hs.grow hP.script hP.mute, hnotice, hanswer⟩
      · rw [hx, hy]
        exact ⟨P, .refl P, rfl, hw, hs, rfl, fun _ => rfl⟩
    have hcontents (ha : action.OnContents) :=
      hmatches (((World.Twin.likeness reserved P).matches_effectOf hw ha hn).imp
        fun _ _ => .of_alike)
    cases action with
    | ask question =>
      by_cases hq : question.OnContents
      · exact hcontents hq
      · obtain ⟨a, hm⟩ := m.exists_act_ask hq
        obtain ⟨a', hk⟩ := n.exists_act_ask hq
        rw [perform, perform, hm, hk]
        exact ⟨P, .refl P, rfl, hw, hs, rfl, fun ha => absurd hq ha⟩
    | clear on =>
      refine hmatches ((hw.matches_clear on).map fun a b hr => ?_)
      exact ⟨⟨P, .refl P, hr⟩, fun ha => absurd trivial ha, rfl⟩
    | off label =>
      refine hmatches ((hw.matches_off (hn label (List.mem_singleton.2 rfl))).map fun a b hr => ?_)
      exact ⟨⟨P, .refl P, hr⟩, fun ha => absurd trivial ha, rfl⟩
    | tracker name action => exact hmatches (hw.matches_operate hn)
    | create | edit | fire | emit | access | unknown => exact hcontents trivial

namespace Twin

theorem twins (h : m.Twin reserved P n) : Twins reserved P m n :=
  ⟨P, rfl, h⟩

theorem push (h : m.Twin reserved P n) {f f' : Frame Empty} (hf : f.Twin P f') :
    (m.push f).Twin reserved P (n.push f') :=
  { h with stack := .twin hf h.stack }

theorem notify (h : m.Twin reserved P n) (notice : Notice) :
    (m.notify notice).Twin reserved P (n.notify notice) := by
  cases notice with
  | silent => exact h
  | topics o ts => exact h.push (.announce o ts)
  | text d s tags => exact h.push (.text d s ((h.world.dispatcher d).select _))

theorem call (h : m.Twin reserved P n) {i i' : ScriptId} (hi : P.script i i')
    (event event' : String → Event) :
    (m.call i event).Twin reserved P (n.call i' event') := by
  have hsame := h.scripts.twin hi
  refine ⟨{ h.world with }, ?_, ?_⟩
  · simp only [Machine.call, hsame]
    exact h.scripts.set hi rfl
  · simp only [Machine.call, hsame]
    exact .twin (.script _) h.stack

theorem callIf (h : m.Twin reserved P n) {i i' : ScriptId} (hi : P.script i i') (b : Bool)
    (event : String → Event) :
    (if b then m.call i event else m).Twin reserved P (if b then n.call i' event else n) ∧
      List.Forall₂ Sight.Like (if b then some (Sight.heard (F := Empty) (event (m.labelOf i)))
        else none).toList
        (if b then some (.heard (event (n.labelOf i'))) else none).toList := by
  have hlabel : n.labelOf i' = m.labelOf i := congrArg Script.label (h.scripts.twin hi)
  rw [hlabel]
  cases b with
  | true => exact ⟨h.call hi event event, .cons (.heard _) .nil⟩
  | false => exact ⟨h, .nil⟩

theorem pass (h : m.Twin reserved P n) {i i' : TrackerId} (hi : P.tracker i i') :
    Twins reserved P (m.pass i) (n.pass i') := by
  have ht := h.world.trackers.twin hi
  obtain ⟨K, hK, hgraph, htracker, hannounced⟩ := ht.pass h.world.graph hi
  have hw := (h.world.setGraph hK rfl rfl hgraph).setTrackers
    ((h.world.trackers.grow hK rfl rfl).set hi htracker)
  refine ⟨{ P with key := K }, rfl, { hw with }, h.scripts.grow rfl rfl, ?_⟩
  rw [stack_pass, stack_pass, hannounced]
  have hlisteners : Pairing.Listen { P with key := K } (m.world.trackers.get i).listeners.entries
      (n.world.trackers.get i').listeners.entries := ht.listeners.entries.mono hK
  have hbelow : Pairing.Stacks { P with key := K } (.handling i :: m.stack)
      (.handling i' :: n.stack) :=
    .twin (.handling (hK.tracker hi)) (h.stack.mono hK)
  cases ((m.world.trackers.get i).pass i m.world.graph).2 with
  | none => exact hbelow
  | some v => exact .twin (.change (hK.tracker hi) v hlisteners) hbelow

theorem modifyTracker (h : m.Twin reserved P n) {i i' : TrackerId} (hi : P.tracker i i')
    (f : Tracker → Tracker) (hf : ∀ t t', t.Twin P t' → (f t).Twin P (f t')) :
    Twin reserved P { m with world := m.world.modifyTracker i f }
      { n with world := n.world.modifyTracker i' f } :=
  { h with world := h.world.modifyTracker hi f f hf }

theorem notifyTracker (h : m.Twin reserved P n) {i i' : TrackerId} (hi : P.tracker i i') :
    Twins reserved P (m.notifyTracker i) (n.notifyTracker i') := by
  have ht := h.world.trackers.twin hi
  simp only [Machine.notifyTracker, ht.phase, ht.handles]
  split
  · split
    · exact h.twins
    · exact h.pass hi
  · exact twins (h.modifyTracker hi _ fun t t' ht => { ht with dirty := rfl })
  · exact h.twins

theorem endPass (h : m.Twin reserved P n) {i i' : TrackerId} (hi : P.tracker i i') :
    Twins reserved P (m.endPass i) (n.endPass i') := by
  have ht := h.world.trackers.twin hi
  simp only [Machine.endPass, ht.phase, ht.dirty]
  split
  · exact h.twins
  · split
    · exact h.pass hi
    · exact twins (h.modifyTracker hi _ fun t t' ht => { ht with phase := rfl })

theorem parallel_script (h : m.Twin reserved P n) {c : Command Empty} (cs : List (Command Empty))
    (hn : ∀ x ∈ c.names, ¬ reserved x) :
    Parallel reserved P m n (.script (c :: cs)) (.script (c :: cs)) := by
  obtain ⟨P', hP, hcrowd, hw, hs, hnotice, hanswer⟩ := twin_perform h.world h.scripts hn
  have hstack : P'.Stacks (m.perform c).1.stack (n.perform c).1.stack := by
    rw [stack_perform, stack_perform]
    exact h.stack.mono hP
  have hafter : (m.perform c).1.Twin reserved P' (n.perform c).1 := ⟨hw, hs, hstack⟩
  refine ⟨⟨P', hcrowd, ?_⟩, .cons (.ran c hanswer) .nil⟩
  simp only [Machine.turn, hnotice]
  exact ((hafter.push (.script cs)).push (.finish ..)).notify _

theorem parallel_topic (h : m.Twin reserved P n) {o : ObjectId} (t : Topic)
    {rs : List (Registration Topic Observer)} {r r' : Registration Topic Observer}
    {rs' : List (Registration Topic Observer)} (hr : P.Registered o r r')
    (hrs : P.Weaves o rs rs') :
    Parallel reserved P m n (.topic o t (r :: rs)) (.topic o t (r' :: rs')) := by
  have hbelow : (m.push (.topic o t rs)).Twin reserved P (n.push (.topic o t rs')) :=
    h.push (.topic t hrs)
  have hcontains := h.world.graph.contains hr.key
  obtain ⟨k, tag, l⟩ := r
  obtain ⟨k', tag', l'⟩ := r'
  have hl : P.Observes l l' := hr.listener
  cases hl with
  | script hi =>
    obtain ⟨htwin, hlike⟩ :=
      hbelow.callIf hi ((m.world.graph.registries.get o).contains k) (.topic · t)
    refine ⟨⟨P, rfl, ?_⟩, ?_⟩
    · simp only [Machine.turn, deliver, Machine.push, hcontains]
      exact htwin
    · simp only [sight?, Machine.push, hcontains]
      exact hlike
  | tracker hi =>
    refine ⟨?_, .nil⟩
    cases hc : (m.world.graph.registries.get o).contains k with
    | true =>
      simp only [Machine.turn, deliver, Machine.push, hcontains, hc, if_true]
      exact hbelow.notifyTracker hi
    | false =>
      simp only [Machine.turn, deliver, Machine.push, hcontains, hc]
      exact hbelow.twins

theorem parallel_text (h : m.Twin reserved P n) (d : DispatcherId) (s : String)
    {r r' : Registration Int ScriptId} {rs rs' : List (Registration Int ScriptId)}
    (hr : P.Listens r r') (hrs : P.Listen rs rs') :
    Parallel reserved P m n (.text d s (r :: rs)) (.text d s (r' :: rs')) := by
  have hbelow : (m.push (.text d s rs)).Twin reserved P (n.push (.text d s rs')) :=
    h.push (.text d s hrs)
  have hcontains := (h.world.dispatcher d).contains r.key
  obtain ⟨htwin, hlike⟩ :=
    hbelow.callIf hr.script ((m.world.dispatchers.get d).contains r.key) (.text · s)
  refine ⟨⟨P, rfl, ?_⟩, ?_⟩
  · simp only [Machine.turn, hr.key, hcontains]
    exact htwin
  · simp only [sight?, Machine.push, hr.key, hcontains]
    exact hlike

theorem parallel_change (h : m.Twin reserved P n) {i i' : TrackerId} (hi : P.tracker i i')
    (v : Option Value) {r r' : Registration Unit ScriptId}
    {rs rs' : List (Registration Unit ScriptId)} (hr : P.Listens r r') (hrs : P.Listen rs rs') :
    Parallel reserved P m n (.change i v (r :: rs)) (.change i' v (r' :: rs')) := by
  have hbelow : (m.push (.change i v rs)).Twin reserved P (n.push (.change i' v rs')) :=
    h.push (.change hi v hrs)
  have hcontains := (h.world.trackers.twin hi).listeners.contains r.key
  obtain ⟨htwin, hlike⟩ :=
    hbelow.callIf hr.script ((m.world.trackers.get i).listeners.contains r.key) (.change · v)
  refine ⟨⟨P, rfl, ?_⟩, ?_⟩
  · simp only [Machine.turn, hr.key, hcontains]
    exact htwin
  · simp only [sight?, Machine.push, hr.key, hcontains]
    exact hlike

/-- Unless it is a stranger's turn, twins do the same in their turn. -/
theorem turn (h : m.Twin reserved P n) {f f' : Frame Empty} (hf : f.Twin P f')
    (hown : ¬ (n.push f').StrangersTurn P.crowd)
    (hn : ∀ c a, (n.push f').sight? = some (.ran c a) → ∀ x ∈ c.names, ¬ reserved x) :
    Parallel reserved P m n f f' := by
  cases hf with
  | script cs =>
    cases cs with
    | nil => exact ⟨h.twins, .nil⟩
    | cons c cs => exact h.parallel_script cs (hn c _ rfl)
  | finish a a' =>
    have hafter : (m.turn (.finish a)).Twin reserved P (n.turn (.finish a')) :=
      { h with world := { h.world with } }
    exact ⟨hafter.twins, .nil⟩
  | announce o ts =>
    cases ts with
    | nil => exact ⟨h.twins, .nil⟩
    | cons t ts =>
      have hselect := (h.world.graph.weaves o).filter (p := fun r => decide (r.tag = t))
        (q := fun r => decide (r.tag = t)) fun r r' hr => by rw [hr.tag]
      exact ⟨((h.push (.announce o ts)).push (.topic t hselect)).twins, .nil⟩
  | @topic o t rs rs' hrs =>
    cases rs' with
    | nil =>
      obtain rfl := hrs.eq_nil
      exact ⟨h.twins, .nil⟩
    | cons r' rs' =>
      obtain ⟨r, rs, rfl, hr, hrs⟩ := hrs.exists_twin fun hr' => hown hr'.listener
      exact h.parallel_topic t hr hrs
  | text d s hrs =>
    cases hrs with
    | nil => exact ⟨h.twins, .nil⟩
    | cons hr hrs => exact h.parallel_text d s hr hrs
  | change hi v hrs =>
    cases hrs with
    | nil => exact ⟨h.twins, .nil⟩
    | cons hr hrs => exact h.parallel_change hi v hr hrs
  | handling hi => exact ⟨h.endPass hi, .nil⟩

/-! ### Strangers at work -/

theorem below_stranger (h : m.Twin reserved P n) {f' : Frame Empty} {rest : List (Frame Empty)}
    (hs : n.stack = f' :: rest) (hf : f'.Strange P) :
    m.Twin reserved P { n with stack := rest } := by
  have hstack := h.stack
  rw [hs] at hstack
  refine { h with stack := hstack.of_alien fun f hft => ?_ }
  cases hf with
  | change hj =>
    cases hft with
    | change hi => exact h.world.trackers.apart hi hj
  | handling hj =>
    cases hft with
    | handling hi => exact h.world.trackers.apart hi hj

theorem below_registration (h : m.Twin reserved P n) {o : ObjectId} {t : Topic}
    {r : Registration Topic Observer} {rs : List (Registration Topic Observer)}
    {rest : List (Frame Empty)} (hs : n.stack = .topic o t (r :: rs) :: rest) {j : TrackerId}
    (hj : P.crowd j) (hl : r.listener = .tracker j) :
    m.Twin reserved P { n with stack := .topic o t rs :: rest } := by
  have hstack := h.stack
  rw [hs] at hstack
  obtain ⟨f, fs, hm, hf, hrest⟩ := hstack.exists_twin fun hf => by cases hf
  cases hf with
  | topic _ hrs =>
    have hrs' : P.Weaves o _ rs := hrs.of_alien fun x hx => by
      have hobserves := hx.listener
      rw [hl] at hobserves
      generalize x.listener = l at hobserves
      cases hobserves with
      | tracker hi => exact h.world.trackers.apart hi hj
    refine { h with stack := ?_ }
    rw [hm]
    exact .twin (.topic t hrs') hrest

theorem mute_of_change (h : m.Twin reserved P n) {j : TrackerId} (hj : P.crowd j) {v : Option Value}
    {rs : List (Registration Unit ScriptId)} {rest : List (Frame Empty)}
    (hs : n.stack = .change j v rs :: rest) :
    ∀ r ∈ rs, P.mute r.listener := by
  have hstack := h.stack
  rw [hs] at hstack
  generalize m.stack = fs at hstack
  cases hstack with
  | twin hf =>
    cases hf with
    | change hi => exact absurd hj (h.world.trackers.apart hi)
  | alien hf =>
    cases hf with
    | change _ _ hmute => exact hmute

theorem pushStranger (h : m.Twin reserved P n) {f : Frame Empty} (hf : f.Strange P) :
    m.Twin reserved P (n.push f) :=
  { h with stack := .alien hf h.stack }

theorem passStranger (h : m.Twin reserved P n) {j : TrackerId} (hj : P.crowd j) :
    Twins reserved P m (n.pass j) := by
  have ht := h.world.trackers.strange hj
  obtain ⟨O, hO, hgraph, htracker⟩ := ht.pass h.world.graph hj
  have hw := (h.world.setGraph hO rfl rfl hgraph).setTrackers
    ((h.world.trackers.grow hO rfl rfl).setStranger hj htracker)
  refine ⟨{ P with own := O }, rfl, { hw with }, h.scripts.grow rfl rfl, ?_⟩
  rw [stack_pass]
  have hbelow : Pairing.Stacks { P with own := O } m.stack (.handling j :: n.stack) :=
    .alien (.handling (hO.crowd hj)) (h.stack.mono hO)
  cases ((n.world.trackers.get j).pass j n.world.graph).2 with
  | none => exact hbelow
  | some v => exact .alien (.change (hO.crowd hj) v fun r hr => hO.mute (ht.listeners r hr)) hbelow

theorem modifyStranger (h : m.Twin reserved P n) {j : TrackerId} (hj : P.crowd j)
    (f : Tracker → Tracker) (hf : ∀ t, t.Strange P → (f t).Strange P) :
    m.Twin reserved P { n with world := n.world.modifyTracker j f } :=
  { h with world := (h.world.modifyStranger hj f hf).1 }

theorem notifyStranger (h : m.Twin reserved P n) {j : TrackerId} (hj : P.crowd j) :
    Twins reserved P m (n.notifyTracker j) := by
  simp only [Machine.notifyTracker]
  split
  · split
    · exact h.twins
    · exact h.passStranger hj
  · exact twins (h.modifyStranger hj _ fun t ht => ⟨ht.hooks, ht.listeners⟩)
  · exact h.twins

theorem endStrangersPass (h : m.Twin reserved P n) {j : TrackerId} (hj : P.crowd j) :
    Twins reserved P m (n.endPass j) := by
  simp only [Machine.endPass]
  split
  · exact h.twins
  · split
    · exact h.passStranger hj
    · exact twins (h.modifyStranger hj _ fun t ht => ⟨ht.hooks, ht.listeners⟩)

theorem callMute (h : m.Twin reserved P n) {i : ScriptId} (hi : P.mute i) (event : String → Event) :
    m.Twin reserved P (n.call i event).next := by
  have hmute := h.scripts.strange hi
  have hcommands :
      (if (n.scripts.get i).times = 0 then [] else (n.scripts.get i).commands) = [] := by
    rw [hmute, ite_self]
  simp only [Machine.call, hcommands]
  exact ⟨{ h.world with }, h.scripts.setStranger hi hmute, h.stack⟩

/-- A stranger's turn leaves the second machine a twin. -/
theorem attend (h : m.Twin reserved P n) (hs : n.StrangersTurn P.crowd) :
    Twins reserved P m n.attend := by
  obtain ⟨world, scripts, stack⟩ := n
  unfold StrangersTurn at hs
  split at hs
  · next o t r rs rest hstack =>
    obtain rfl : stack = _ := hstack
    obtain ⟨j, hj, hl⟩ := hs
    have hbelow := h.below_registration rfl hj hl
    show Twins reserved P m (deliver ⟨world, scripts, .topic o t rs :: rest⟩ o t r)
    simp only [deliver, hl]
    split
    · exact hbelow.notifyStranger hj
    · exact hbelow.twins
  · next j v rs rest hstack =>
    obtain rfl : stack = _ := hstack
    have hmute := h.mute_of_change hs rfl
    have hrest := h.below_stranger rfl (.change hs v hmute)
    cases rs with
    | nil => exact hrest.twins
    | cons r rs =>
      obtain ⟨hr, hrs⟩ := List.forall_mem_cons.1 hmute
      have hbelow := hrest.pushStranger (.change hs v hrs)
      simp only [Machine.attend]
      cases hc : (world.trackers.get j).listeners.contains r.key with
      | false =>
        simp only [next, Machine.turn, hc]
        exact hbelow.twins
      | true =>
        simp only [next, Machine.turn, hc, if_true]
        exact (hbelow.callMute hr (.change · v)).twins
  · next j rest hstack =>
    obtain rfl : stack = _ := hstack
    exact (h.below_stranger rfl (.handling hs)).endStrangersPass hs
  · exact hs.elim

end Twin

end Machine
end LivePath
