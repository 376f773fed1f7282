import LivePath.Proofs.TwinTrackers

/-!
# Twin worlds

Strangers live in the second of two twin worlds: trackers that nobody in the first knows of. Their
names, and the labels of their listeners, are reserved. A command that refers to no reserved name
does the same in both worlds (`Likeness.matches_effectOf`, `Twin.matches_operate`,
`Twin.matches_listen`).
-/

namespace LivePath

/-! ### Tables of trackers -/

namespace Pairing

def pairTracker (P : Pairing) (i i' : TrackerId) : Pairing :=
  { P with tracker := fun j j' => P.tracker j j' ∨ j = i ∧ j' = i' }

def joinCrowd (P : Pairing) (i : TrackerId) : Pairing :=
  { P with crowd := fun j => P.crowd j ∨ j = i }

theorem grows_pairTracker (P : Pairing) (i i' : TrackerId) : P.Grows (P.pairTracker i i') :=
  { Grows.refl P with tracker := .inl }

theorem grows_joinCrowd (P : Pairing) (i : TrackerId) : P.Grows (P.joinCrowd i) :=
  { Grows.refl P with crowd := .inl }

end Pairing

/-- The trackers of the one table have twins in the other, where there are strangers besides. -/
abbrev Table.Twin (P : Pairing) (ts ts' : Table Tracker) : Prop :=
  Paired P.tracker P.crowd (Tracker.Twin P) (Tracker.Strange P) ts ts'

namespace Table.Twin
variable {P P' : Pairing} {ts ts' : Table Tracker} {t t' : Tracker}

theorem grow (h : Twin P ts ts') (hP : P.Grows P') (htracker : P'.tracker = P.tracker)
    (hcrowd : P'.crowd = P.crowd) :
    Twin P' ts ts' := by
  unfold Twin
  rw [htracker, hcrowd]
  exact h.mono (fun _ _ ht => ht.mono hP) fun _ ht => ht.mono hP

theorem push (h : Twin P ts ts') (ht : t.Twin (P.pairTracker ts.next ts'.next) t') :
    Twin (P.pairTracker ts.next ts'.next) (ts.push t) (ts'.push t') :=
  have hP := P.grows_pairTracker ts.next ts'.next
  (h.mono (fun _ _ ht => ht.mono hP) fun _ ht => ht.mono hP).push ht

theorem pushStranger (h : Twin P ts ts') (ht : t.Strange (P.joinCrowd ts'.next)) :
    Twin (P.joinCrowd ts'.next) ts (ts'.push t) :=
  have hP := P.grows_joinCrowd ts'.next
  (h.mono (fun _ _ ht => ht.mono hP) fun _ ht => ht.mono hP).pushStranger ht

end Table.Twin

/-! ### Names -/

/-- The entries of the one list, none of them reserved, woven into those of the other, where
strangers' are reserved. -/
abbrev Ledgers {α β : Type} (reserved : String → Prop) (R : α → β → Prop) (A : β → Prop) :
    List (String × α) → List (String × β) → Prop :=
  Woven (fun a b => b.1 = a.1 ∧ ¬ reserved a.1 ∧ R a.2 b.2) fun b => reserved b.1 ∧ A b.2

namespace Ledgers
variable {α β : Type} {reserved : String → Prop} {R R' : α → β → Prop} {A A' : β → Prop}
  {xs : List (String × α)} {ys : List (String × β)} {name : String}

theorem mono (h : Ledgers reserved R A xs ys) (hR : ∀ a b, R a b → R' a b) (hA : ∀ b, A b → A' b) :
    Ledgers reserved R' A' xs ys :=
  Woven.mono h (fun _ _ ⟨hn, hname, hr⟩ => ⟨hn, hname, hR _ _ hr⟩) fun _ ⟨hname, ha⟩ =>
    ⟨hname, hA _ ha⟩

theorem matches_find (h : Ledgers reserved R A xs ys) (hname : ¬ reserved name) :
    Matches R (World.find xs name some) (World.find ys name some) := by
  unfold World.find
  induction h with
  | nil => exact .error _
  | @twin a b xs ys hab _ ih =>
    obtain ⟨n, x⟩ := a
    obtain ⟨n', y⟩ := b
    obtain ⟨hn, -, hr⟩ := hab
    cases (show n' = n from hn)
    by_cases hnew : name = n
    · simp only [hnew, List.lookup_cons_self, Option.bind_some]
      exact .ok hr
    · simp only [List.lookup_cons, beq_eq_false_iff_ne.2 hnew]
      exact ih
  | @alien b xs ys hb _ ih =>
    obtain ⟨n, y⟩ := b
    have hnew : name ≠ n := fun he => hname (he ▸ hb.1)
    simp only [List.lookup_cons, beq_eq_false_iff_ne.2 hnew]
    exact ih

theorem of_find (h : Ledgers reserved R A xs ys) (hname : reserved name) {b : β}
    (hb : World.find ys name some = .ok b) : A b := by
  have hall : ∀ e ∈ ys, reserved e.1 → A e.2 := by
    clear hb
    induction h with
    | nil => exact fun e he => absurd he List.not_mem_nil
    | twin hab _ ih => exact List.forall_mem_cons.2 ⟨fun hr => absurd (hab.1 ▸ hr) hab.2.1, ih⟩
    | alien hb _ ih => exact List.forall_mem_cons.2 ⟨fun _ => hb.2, ih⟩
  obtain ⟨b', hm, hb'⟩ := World.exists_of_find hb
  cases hb'
  exact hall _ hm hname

theorem modifyNewest (h : Ledgers reserved R A xs ys) (hname : ¬ reserved name) {f : α → α}
    {g : β → β} (hf : ∀ a b, R a b → R (f a) (g b)) :
    Ledgers reserved R A (LivePath.modifyNewest name f xs) (LivePath.modifyNewest name g ys) := by
  induction h with
  | nil => exact .nil
  | @twin a b xs ys hab h ih =>
    obtain ⟨n, x⟩ := a
    obtain ⟨n', y⟩ := b
    obtain ⟨hn, hn', hr⟩ := hab
    cases (show n' = n from hn)
    unfold LivePath.modifyNewest
    split
    · exact .twin ⟨rfl, hn', hf _ _ hr⟩ h
    · exact .twin ⟨rfl, hn', hr⟩ ih
  | @alien b xs ys hb h ih =>
    obtain ⟨n, y⟩ := b
    have hnew : n ≠ name := fun he => hname (he ▸ hb.1)
    rw [LivePath.modifyNewest, if_neg hnew]
    exact .alien hb ih

theorem eraseP (h : Ledgers reserved R A xs ys) (hname : ¬ reserved name) :
    Ledgers reserved R A (xs.eraseP (·.1 = name)) (ys.eraseP (·.1 = name)) := by
  induction h with
  | nil => exact .nil
  | @twin a b xs ys hab h ih =>
    by_cases hn : a.1 = name
    · rw [List.eraseP_cons_of_pos (by simpa using hn),
        List.eraseP_cons_of_pos (by simpa using hab.1.trans hn)]
      exact h
    · have hn' : b.1 ≠ name := fun he => hn (hab.1.symm.trans he)
      rw [List.eraseP_cons_of_neg (by simpa using hn), List.eraseP_cons_of_neg (by simpa using hn')]
      exact .twin hab ih
  | @alien b xs ys hb h ih =>
    have hn : b.1 ≠ name := fun he => hname (he ▸ hb.1)
    rw [List.eraseP_cons_of_neg (by simpa using hn)]
    exact .alien hb ih

theorem eraseP_reserved (h : Ledgers reserved R A xs ys) (hname : reserved name) :
    Ledgers reserved R A xs (ys.eraseP (·.1 = name)) := by
  induction h with
  | nil => exact .nil
  | @twin a b xs ys hab h ih =>
    have hn : b.1 ≠ name := fun he => hab.2.1 (hab.1 ▸ he ▸ hname)
    rw [List.eraseP_cons_of_neg (by simpa using hn)]
    exact .twin hab ih
  | @alien b xs ys hb h ih =>
    by_cases hn : b.1 = name
    · rw [List.eraseP_cons_of_pos (by simpa using hn)]
      exact h
    · rw [List.eraseP_cons_of_neg (by simpa using hn)]
      exact .alien hb ih

end Ledgers

/-! ### Worlds -/

namespace Pairing

/-- The same subscription. -/
inductive Subscribed (P : Pairing) (reserved : String → Prop) : Subscription → Subscription → Prop
  | object {o : ObjectId} {k k' : Key} (h : P.key o k k') :
      Subscribed P reserved (.object o k) (.object o k')
  | dispatcher (d : DispatcherId) (k : Key) :
      Subscribed P reserved (.dispatcher d k) (.dispatcher d k)
  | tracker {name : String} (h : ¬ reserved name) (k : Key) :
      Subscribed P reserved (.tracker name k) (.tracker name k)
  | accessor {rs rs' : Option (List Record)}
      (h : P.Records (hooksOf (rs.getD [])) (hooksOf (rs'.getD []))) :
      Subscribed P reserved (.accessor rs) (.accessor rs')
  | attached {r r' : Record} (h : P.Records r.hooks r'.hooks) :
      Subscribed P reserved (.attached (some r)) (.attached (some r'))
  | detached : Subscribed P reserved (.attached none) (.attached none)

variable {P P' : Pairing}

theorem Subscribed.mono {reserved : String → Prop} {s s' : Subscription}
    (h : P.Subscribed reserved s s') (hP : P.Grows P') : P'.Subscribed reserved s s' := by
  cases h with
  | object h => exact .object (hP.key h)
  | dispatcher d k => exact .dispatcher d k
  | tracker h k => exact .tracker h k
  | accessor h => exact .accessor (h.mono hP)
  | attached h => exact .attached (h.mono hP)
  | detached => exact .detached

/-- More keys and trackers were paired. -/
structure Widens (P P' : Pairing) : Prop where
  grows : P.Grows P'
  script : P'.script = P.script
  mute : P'.mute = P.mute
  crowd : P'.crowd = P.crowd

theorem Widens.refl (P : Pairing) : P.Widens P :=
  ⟨.refl P, rfl, rfl, rfl⟩

theorem Widens.of_key {K : ObjectId → Key → Key → Prop} (h : P.Grows { P with key := K }) :
    P.Widens { P with key := K } :=
  ⟨h, rfl, rfl, rfl⟩

end Pairing

/-- Strangers listen to trackers of their own only. -/
def Subscription.Strange (reserved : String → Prop) (s : Subscription) : Prop :=
  ∃ name k, reserved name ∧ s = .tracker name k

namespace World

/-- The second world has all that the first has, and strangers besides. -/
structure Twin (reserved : String → Prop) (P : Pairing) (w w' : World Empty) : Prop where
  graph : w.graph.Twin P w'.graph
  trackers : w.trackers.Twin P w'.trackers
  dispatcher (d : DispatcherId) : (w.dispatchers.get d).Twin P (w'.dispatchers.get d)
  dispatchers : w'.dispatchers.next = w.dispatchers.next
  objects : w'.names.objects = w.names.objects
  accessors : w'.names.accessors = w.names.accessors
  names : Ledgers reserved P.tracker P.crowd w.names.trackers w'.names.trackers
  subscriptions :
    Ledgers reserved (P.Subscribed reserved) (Subscription.Strange reserved) w.names.subscriptions
      w'.names.subscriptions

namespace Twin
variable {reserved : String → Prop} {P P' : Pairing} {w w' : World Empty}

theorem grow (h : Twin reserved P w w') (hP : P.Grows P') (hkey : P'.key = P.key)
    (hown : P'.own = P.own) (htracker : P'.tracker = P.tracker) (hcrowd : P'.crowd = P.crowd) :
    Twin reserved P' w w' :=
  { h with
    graph := h.graph.grow hP hkey hown
    trackers := h.trackers.grow hP htracker hcrowd
    dispatcher := fun d => (h.dispatcher d).mono hP
    names := h.names.mono (fun _ _ => hP.tracker) fun _ => hP.crowd
    subscriptions := h.subscriptions.mono (fun _ _ hs => hs.mono hP) fun _ => id }

theorem setGraph (h : Twin reserved P w w') (hP : P.Grows P') (htracker : P'.tracker = P.tracker)
    (hcrowd : P'.crowd = P.crowd) {g g' : Graph Empty} (hg : g.Twin P' g') :
    Twin reserved P' { w with graph := g } { w' with graph := g' } :=
  { h with
    graph := hg
    trackers := h.trackers.grow hP htracker hcrowd
    dispatcher := fun d => (h.dispatcher d).mono hP
    names := h.names.mono (fun _ _ => hP.tracker) fun _ => hP.crowd
    subscriptions := h.subscriptions.mono (fun _ _ hs => hs.mono hP) fun _ => id }

theorem setTrackers (h : Twin reserved P w w') {ts ts' : Table Tracker} (ht : ts.Twin P ts') :
    Twin reserved P { w with trackers := ts } { w' with trackers := ts' } :=
  { h with trackers := ht }

theorem modifyTracker (h : Twin reserved P w w') {i i' : TrackerId} (hi : P.tracker i i')
    (f f' : Tracker → Tracker) (hf : ∀ t t', t.Twin P t' → (f t).Twin P (f' t')) :
    Twin reserved P (w.modifyTracker i f) (w'.modifyTracker i' f') :=
  h.setTrackers (h.trackers.set hi (hf _ _ (h.trackers.twin hi)))

theorem modifyStranger (h : Twin reserved P w w') {j : TrackerId} (hj : P.crowd j)
    (f : Tracker → Tracker) (hf : ∀ t, t.Strange P → (f t).Strange P) :
    Twin reserved P w (w'.modifyTracker j f) ∧
      (w'.modifyTracker j f).trackers.next = w'.trackers.next :=
  ⟨h.setTrackers (h.trackers.setStranger hj (hf _ (h.trackers.strange hj))),
    Table.next_set_of_lt _ (h.trackers.lt_strange hj) _⟩

theorem modifyDispatcher (h : Twin reserved P w w') (d : DispatcherId)
    (f f' : Registry Int ScriptId → Registry Int ScriptId)
    (hf : ∀ r r', r.Twin P r' → (f r).Twin P (f' r')) :
    Twin reserved P (w.modifyDispatcher d f) (w'.modifyDispatcher d f') := by
  refine { h with dispatcher := fun d' => ?_, dispatchers := ?_ }
  · show ((w.dispatchers.set d _).get d').Twin P ((w'.dispatchers.set d _).get d')
    rw [Table.get_set, Table.get_set]
    split
    · exact hf _ _ (h.dispatcher d)
    · exact h.dispatcher d'
  · show (w'.dispatchers.set d _).next = (w.dispatchers.set d _).next
    rw [Table.next_set, Table.next_set, h.dispatchers]

theorem nameTracker (h : Twin reserved P w w') {name : String} (hname : ¬ reserved name)
    {i i' : TrackerId} (hi : P.tracker i i') :
    Twin reserved P (w.nameTracker name i) (w'.nameTracker name i') :=
  { h with names := .twin ⟨rfl, hname, hi⟩ h.names }

theorem nameSubscription (h : Twin reserved P w w') {label : String} (hlabel : ¬ reserved label)
    {s s' : Subscription} (hs : P.Subscribed reserved s s') :
    Twin reserved P (w.nameSubscription label s) (w'.nameSubscription label s') :=
  { h with subscriptions := .twin ⟨rfl, hlabel, hs⟩ h.subscriptions }

theorem setSubscription (h : Twin reserved P w w') {label : String} (hlabel : ¬ reserved label)
    {s s' : Subscription} (hs : P.Subscribed reserved s s') :
    Twin reserved P (w.setSubscription label s) (w'.setSubscription label s') :=
  { h with subscriptions := h.subscriptions.modifyNewest hlabel fun _ _ _ => hs }

theorem likeness (reserved : String → Prop) (P : Pairing) :
    Likeness reserved (Twin reserved P) P.tracker where
  same h := h.graph.same
  objects h := h.objects
  accessors h := h.accessors
  dispatchers h := h.dispatchers
  tracker {_ _} h {_} hname := h.names.matches_find hname
  bound h _ _ hi := ⟨(h.trackers.twin hi).accessor, (h.trackers.twin hi).root⟩
  setArrays h arrays := { h with graph := { h.graph with same := ⟨h.graph.same.objects, rfl⟩ } }
  setObjects h objects := { h with graph := { h.graph with same := ⟨rfl, h.graph.same.arrays⟩ } }
  nameObject h name n := { h with objects := congrArg ((name, n) :: ·) h.objects }
  nameAccessor h name a := { h with accessors := congrArg ((name, a) :: ·) h.accessors }
  addDispatcher {w w'} h := by
    refine { h with dispatcher := fun d => ?_, dispatchers := by simp [h.dispatchers] }
    show ((w.dispatchers.push {}).get d).Twin P ((w'.dispatchers.push {}).get d)
    by_cases hd : d = w.dispatchers.next
    · have hd' : d = w'.dispatchers.next := hd.trans h.dispatchers.symm
      rw [hd, Table.get_push_next, ← hd, hd', Table.get_push_next]
      exact .empty
    · rw [Table.get_push_ne _ hd, Table.get_push_ne _ (h.dispatchers ▸ hd)]
      exact h.dispatcher d
  logAll h _ _ := { h with }

/-! ### Commands that refer to no reserved name -/

theorem track (h : Twin reserved P w w') {name : String} (hname : ¬ reserved name) (a : Accessor)
    (root : Value) :
    ∃ P', P.Widens P' ∧ Twin reserved P' (w.track name a root).world (w'.track name a root).world ∧
      (w'.track name a root).answer = (w.track name a root).answer := by
  have hpair := P.grows_pairTracker w.trackers.next w'.trackers.next
  rw [World.track, World.track]
  rcases (h.graph.grow hpair rfl rfl).bind (.inr ⟨rfl, rfl⟩) a root with
    ⟨e, hb, hb'⟩ | ⟨t, t', es, es', g, g', K, hb, hb', hK, hg, ht, hlength⟩
  · rw [hb, hb']
    exact ⟨P, .refl P, h, rfl⟩
  · rw [hb, hb']
    have hkey : P.Grows { P with key := K } := { Pairing.Grows.refl P with key := hK.key }
    have hgrows := hpair.trans hK
    have htrackers := (h.trackers.grow hkey rfl rfl).push ht
    refine ⟨_, ⟨hgrows, rfl, rfl, rfl⟩, ?_, by simp only [hlength]⟩
    exact { h with
      graph := hg
      trackers := htrackers
      dispatcher := fun d => (h.dispatcher d).mono hgrows
      names := .twin ⟨rfl, hname, .inr ⟨rfl, rfl⟩⟩ (h.names.mono (fun _ _ => hgrows.tracker)
        fun _ => hgrows.crowd)
      subscriptions := h.subscriptions.mono (fun _ _ hs => hs.mono hgrows) fun _ => id }

/-- What a command comes to in twin worlds: the same answer, unless it is about listeners, and the
same announcement. -/
structure Agreed (reserved : String → Prop) (P : Pairing) (listeners : Prop) (e e' : Effect Empty) :
    Prop where
  world : ∃ P', P.Widens P' ∧ Twin reserved P' e.world e'.world
  answer : ¬ listeners → e'.answer = e.answer
  notice : e'.notice = e.notice

theorem Agreed.of_alike {listeners : Prop} {e e' : Effect Empty}
    (h : Effect.Alike (Twin reserved P) e e') :
    Agreed reserved P listeners e e' :=
  ⟨⟨P, .refl P, h.world⟩, fun _ => h.answer, h.notice⟩

theorem matches_operate (h : Twin reserved P w w') {name : String} {action : TrackerAction}
    (hn : ∀ x ∈ (Action.tracker (F := Empty) name action).names, ¬ reserved x) :
    Matches (Agreed reserved P (Action.tracker (F := Empty) name action).AboutListeners)
      (w.operate name action)
      (w'.operate name action) := by
  have hname : ¬ reserved name := by
    refine hn name ?_
    cases action <;> exact List.mem_cons_self ..
  have hid : Matches P.tracker (w.tracker name) (w'.tracker name) := h.names.matches_find hname
  have hl := likeness reserved P
  have hplain {action : TrackerAction} (ha : (Action.tracker (F := Empty) name action).OnContents) :
      Matches (Agreed reserved P (Action.tracker (F := Empty) name action).AboutListeners)
        (w.operate name action) (w'.operate name action) :=
    (hl.matches_operate h hname ha).imp fun _ _ => .of_alike
  cases action with
  | track root route =>
    refine .bind_eq (hl.accessorOf h route) fun a => ?_
    refine (hl.matches_evaluate h).bind_value fun root w₁ w₁' h₁ => ?_
    obtain ⟨P', hP, htwin, hanswer⟩ := h₁.track hname a root
    have hnotice (w : World Empty) : (w.track name a root).notice = .silent := by
      unfold World.track
      split <;> rfl
    exact .ok ⟨⟨P', hP, htwin⟩, fun _ => hanswer, by rw [hnotice, hnotice]⟩
  | clone other =>
    have hother : ¬ reserved other := hn other (List.mem_cons_of_mem _ (List.mem_cons_self ..))
    refine hid.bind fun i i' hi => ?_
    have hm := h.modifyTracker hi (fun t => { t with handles := t.handles + 1 })
      (fun t => { t with handles := t.handles + 1 }) fun t t' ht =>
        { ht with handles := by simp [ht.handles] }
    exact .ok (.of_alike ⟨hm.nameTracker hother hi, rfl, rfl⟩)
  | drop =>
    refine hid.bind fun i i' hi => ?_
    have hm := h.modifyTracker hi (fun t => { t with handles := t.handles - 1 })
      (fun t => { t with handles := t.handles - 1 }) fun t t' ht =>
        { ht with handles := by simp [ht.handles] }
    exact .ok (.of_alike ⟨{ hm with names := h.names.eraseP hname }, rfl, rfl⟩)
  | get | hasValue | set => exact hplain trivial
  | observed =>
    refine hid.bind fun i i' hi => .ok ⟨⟨P, .refl P, h⟩, fun hq => absurd trivial hq, rfl⟩
  | dispose =>
    refine hid.bind fun i i' hi => ?_
    obtain ⟨hgraph, htracker⟩ := (h.trackers.twin hi).dispose h.graph
    have hw := (h.setGraph (.refl P) rfl rfl hgraph).setTrackers (h.trackers.set hi htracker)
    exact .ok (.of_alike ⟨hl.logAll hw _ _, rfl, rfl⟩)
  | isDisposed =>
    refine hid.bind fun i i' hi => ?_
    have hphase : (w'.trackers.get i').isDisposed = (w.trackers.get i).isDisposed := by
      rw [Tracker.isDisposed, Tracker.isDisposed, (h.trackers.twin hi).phase]
    exact .ok (.of_alike ⟨h, congrArg Answer.truth hphase, rfl⟩)

theorem matches_listen (h : Twin reserved P w w') {label : String} (hlabel : ¬ reserved label)
    {script script' : ScriptId} (hs : P.script script script') {source : Source}
    (hsource : ∀ x ∈ source.names, ¬ reserved x) :
    Matches (fun a b => ∃ P', P.Widens P' ∧ Twin reserved P' a.1 b.1) (w.listen label script source)
      (w'.listen label script' source) := by
  have hl := likeness reserved P
  cases source with
  | topic on topic =>
    refine .bind_eq (hl.find h on _) fun o => .ok ?_
    have hgrows := P.grows_pairKey o (w.graph.nextKey o) (w'.graph.nextKey o)
    have hg := h.setGraph hgrows rfl rfl (h.graph.observe o topic (.script hs))
    exact ⟨_, .of_key hgrows, hg.nameSubscription hlabel (.object (.inr ⟨rfl, rfl, rfl⟩))⟩
  | topics on topics =>
    refine .bind_eq (hl.find h on _) fun o => .ok ?_
    have ha := Graph.attach_eq (g := w.graph) o topics (.script script)
    have ha' := Graph.attach_eq (g := w'.graph) o topics (.script script')
    obtain ⟨K, hK, htwin, hrecords⟩ := h.graph.observeAll (topics.map (o, ·)) (.script hs)
    rw [← ha, ← ha'] at htwin hrecords
    exact ⟨_, .of_key hK,
      (h.setGraph hK rfl rfl htwin).nameSubscription hlabel (.attached hrecords)⟩
  | dispatcher on tag =>
    refine .bind_eq (hl.find h on _) fun d => .ok ⟨P, .refl P, ?_⟩
    have hd := h.modifyDispatcher d (·.insert tag script) (·.insert tag script') fun _ _ hr =>
      hr.insert tag hs
    refine hd.nameSubscription hlabel ?_
    rw [(h.dispatcher d).nextKey]
    exact .dispatcher ..
  | accessor route root =>
    refine .bind_eq (hl.accessorOf h route) fun a => ?_
    refine (hl.matches_evaluate h).bind_value fun root w₁ w₁' h₁ => ?_
    -- Both walks lead through the same contents, so that both scripts observe the same pairs. If
    -- the walks fail, both give up what they observed.
    have htrail := h₁.graph.same.trail a root
    obtain ⟨K, hK, htwin, hrecords⟩ :=
      h₁.graph.observeAll (w₁.graph.trail a root).pairs (.script hs)
    cases hout : (w₁.graph.trail a root).outcome with
    | error e =>
      have hsub := Graph.subscribe_of_error hout (.script script)
      have hsub' := Graph.subscribe_of_error (htrail ▸ hout) (.script script')
      rw [htrail] at hsub'
      simp only [hsub, hsub']
      exact .ok ⟨_, .of_key hK, h₁.setGraph hK rfl rfl (htwin.unobserveAll hrecords)⟩
    | ok v =>
      obtain ⟨rs, hsub, hhooks⟩ := Graph.exists_subscribe_of_ok hout (.script script)
      obtain ⟨rs', hsub', hhooks'⟩ := Graph.exists_subscribe_of_ok (htrail ▸ hout) (.script script')
      rw [htrail] at hsub' hhooks'
      rw [← hhooks, ← hhooks'] at hrecords
      simp only [hsub, hsub']
      exact .ok ⟨_, .of_key hK,
        (h₁.setGraph hK rfl rfl htwin).nameSubscription hlabel (.accessor hrecords)⟩
  | tracker on =>
    refine (hl.tracker h (hsource on (List.mem_singleton.2 rfl))).bind fun i i' hi => ?_
    have hkey := (h.trackers.twin hi).listeners.nextKey
    have hlogged := hl.logAll h (w.trackers.get i).usedAfterDispose
      (w'.trackers.get i').usedAfterDispose
    have hm := hlogged.modifyTracker hi
      (fun t => { t with listeners := t.listeners.insert () script })
      (fun t => { t with listeners := t.listeners.insert () script' })
      fun t t' ht => { ht with listeners := ht.listeners.insert () hs }
    refine .ok ⟨P, .refl P, hm.nameSubscription hlabel ?_⟩
    rw [hkey]
    exact .tracker (hsource on (List.mem_singleton.2 rfl)) _

theorem matches_off (h : Twin reserved P w w') {label : String} (hlabel : ¬ reserved label) :
    Matches (fun a b => Twin reserved P a.1 b.1) (w.off label) (w'.off label) := by
  have hgraph {g g' : Graph Empty} (hg : g.Twin P g') :
      Twin reserved P { w with graph := g } { w' with graph := g' } :=
    h.setGraph (.refl P) rfl rfl hg
  have hs := h.subscriptions.matches_find hlabel
  refine hs.bind fun s s' hs => ?_
  cases hs with
  | object hk => exact .ok (hgraph (h.graph.unobserve hk))
  | dispatcher d k => exact .ok (h.modifyDispatcher d _ _ fun _ _ hr => hr.erase k)
  | tracker hname k =>
    refine ((likeness reserved P).tracker h hname).bind fun i i' hi => ?_
    exact .ok (h.modifyTracker hi _ _ fun t t' ht => { ht with listeners := ht.listeners.erase k })
  | @accessor rs rs' hr =>
    have hg := h.graph.unobserveAll hr
    rw [← Graph.detachAll_eq, ← Graph.detachAll_eq] at hg
    exact .ok ((hgraph hg).setSubscription hlabel (.accessor .nil))
  | attached hr =>
    have hg := h.graph.unobserveAll hr
    rw [← Graph.detach_eq, ← Graph.detach_eq] at hg
    exact .ok ((hgraph hg).setSubscription hlabel .detached)
  | detached => exact .ok h

theorem matches_clear (h : Twin reserved P w w') (on : String) :
    Matches (fun a b => Twin reserved P a.1 b.1) (w.clear on) (w'.clear on) :=
  .bind_eq ((likeness reserved P).find h on _) fun d =>
    .ok (h.modifyDispatcher d _ _ fun _ _ hr => hr.clear)

end Twin
end World

end LivePath
