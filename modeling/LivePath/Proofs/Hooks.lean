import LivePath.Accessor.Subscription
import LivePath.Proofs.FreshKeys

/-!
# Hooks

A hook is a registration on an object as its observer remembers it: object, topic and key. Observing
appends the hooks to the registries of their objects (`entries_observeAll`), taking them back
removes what stands under their keys (`entries_unobserveAll`), and neither touches what the objects
hold. `attachAll` and `detachAll` are these two operations on the hooks of records.
-/

namespace LivePath

/-- A registration as its observer remembers it. -/
structure Hook where
  target : ObjectId
  topic : Topic
  key : Key
  deriving DecidableEq, Repr

def Hook.address (h : Hook) : ObjectId × Key :=
  (h.target, h.key)

def Hook.registration (observer : Observer) (h : Hook) : Registration Topic Observer :=
  ⟨h.key, h.topic, observer⟩

def Record.hooks (r : Record) : List Hook :=
  r.entries.map fun e => ⟨r.target, e.1, e.2⟩

def hooksOf (rs : List Record) : List Hook :=
  rs.flatMap Record.hooks

/-- The registrations on one object that hooks stand for. -/
def registrationsOn (o : ObjectId) (observer : Observer) (hs : List Hook) :
    List (Registration Topic Observer) :=
  (hs.filter (·.target = o)).map (Hook.registration observer)

theorem mem_registrationsOn {o : ObjectId} {observer : Observer} {hs : List Hook}
    {e : Registration Topic Observer} :
    e ∈ registrationsOn o observer hs ↔ e.listener = observer ∧ ⟨o, e.tag, e.key⟩ ∈ hs := by
  obtain ⟨key, tag, listener⟩ := e
  simp only [registrationsOn, List.mem_map, List.mem_filter, decide_eq_true_eq, Hook.registration,
    Registration.mk.injEq]
  constructor
  · rintro ⟨⟨o', t, k⟩, ⟨hm, rfl⟩, rfl, rfl, rfl⟩
    exact ⟨rfl, hm⟩
  · rintro ⟨rfl, hm⟩
    exact ⟨_, ⟨hm, rfl⟩, rfl, rfl, rfl⟩

def Dependency.pairs (d : Dependency) : List (ObjectId × Topic) :=
  d.topics.map (d.target, ·)

namespace Graph
variable {F : Type} {g g' : Graph F}

def observeAll (g : Graph F) (observer : Observer) : List (ObjectId × Topic) → List Hook × Graph F
  | [] => ([], g)
  | p :: ps =>
    let (hs, after) := (g.observe p.1 p.2 observer).observeAll observer ps
    (⟨p.1, p.2, g.nextKey p.1⟩ :: hs, after)

def unobserveAll (g : Graph F) (ks : List (ObjectId × Key)) : Graph F :=
  ks.foldl (fun g k => g.unobserve k.1 k.2) g

/-! ### One registration -/

theorem registries_observe (o o' : ObjectId) (t : Topic) (observer : Observer) :
    (g.observe o t observer).registries.get o' =
      if o' = o then (g.registries.get o).insert t observer else g.registries.get o' := by
  simp [observe, modifyRegistry, Table.modify, Table.get_set]

theorem registries_unobserve (o o' : ObjectId) (k : Key) :
    (g.unobserve o k).registries.get o' = if o' = o then (g.registries.get o).erase k
      else g.registries.get o' := by
  simp [unobserve, modifyRegistry, Table.modify, Table.get_set]

/-- The registries of `g'` came about from those of `g`. -/
def LeadsTo (g g' : Graph F) : Prop :=
  ∀ o, (g.registries.get o).LeadsTo (g'.registries.get o)

def Keyed (g : Graph F) : Prop :=
  ∀ o, (g.registries.get o).WellFormed

namespace LeadsTo

theorem refl (g : Graph F) : g.LeadsTo g :=
  fun _ => .refl _

theorem trans {g'' : Graph F} (h : g.LeadsTo g') (h' : g'.LeadsTo g'') : g.LeadsTo g'' :=
  fun o => (h o).trans (h' o)

theorem keyed (h : g.LeadsTo g') (hg : g.Keyed) : g'.Keyed :=
  fun o => (h o).wellFormed (hg o)

theorem observe (g : Graph F) (o : ObjectId) (t : Topic) (observer : Observer) :
    g.LeadsTo (g.observe o t observer) := by
  intro o'
  rw [registries_observe]
  split
  · next h => rw [h]; exact .insert ..
  · exact .refl _

theorem unobserve (g : Graph F) (o : ObjectId) (k : Key) : g.LeadsTo (g.unobserve o k) := by
  intro o'
  rw [registries_unobserve]
  split
  · next h => rw [h]; exact .erase ..
  · exact .refl _

theorem observeAll (g : Graph F) (observer : Observer) (ps : List (ObjectId × Topic)) :
    g.LeadsTo (g.observeAll observer ps).2 := by
  induction ps generalizing g with
  | nil => exact .refl g
  | cons p ps ih => exact (LeadsTo.observe g _ _ _).trans (ih _)

theorem unobserveAll (g : Graph F) (ks : List (ObjectId × Key)) :
    g.LeadsTo (g.unobserveAll ks) := by
  induction ks generalizing g with
  | nil => exact .refl g
  | cons k ks ih => exact (LeadsTo.unobserve g _ _).trans (ih _)

end LeadsTo

/-! ### Many registrations -/

@[simp] theorem objects_observeAll (observer : Observer) (ps : List (ObjectId × Topic)) :
    (g.observeAll observer ps).2.objects = g.objects := by
  induction ps generalizing g with
  | nil => rfl
  | cons p ps ih => exact ih

@[simp] theorem arrays_observeAll (observer : Observer) (ps : List (ObjectId × Topic)) :
    (g.observeAll observer ps).2.arrays = g.arrays := by
  induction ps generalizing g with
  | nil => rfl
  | cons p ps ih => exact ih

@[simp] theorem objects_unobserveAll (ks : List (ObjectId × Key)) :
    (g.unobserveAll ks).objects = g.objects := by
  induction ks generalizing g with
  | nil => rfl
  | cons k ks ih => exact ih

@[simp] theorem arrays_unobserveAll (ks : List (ObjectId × Key)) :
    (g.unobserveAll ks).arrays = g.arrays := by
  induction ks generalizing g with
  | nil => rfl
  | cons k ks ih => exact ih

theorem pairs_observeAll (observer : Observer) (ps : List (ObjectId × Topic)) :
    (g.observeAll observer ps).1.map (fun h => (h.target, h.topic)) = ps := by
  induction ps generalizing g with
  | nil => rfl
  | cons p ps ih => simp only [observeAll, List.map_cons, ih]

theorem entries_observeAll (observer : Observer) (ps : List (ObjectId × Topic)) (o : ObjectId) :
    ((g.observeAll observer ps).2.registries.get o).entries =
      (g.registries.get o).entries ++ registrationsOn o observer (g.observeAll observer ps).1 := by
  induction ps generalizing g with
  | nil => simp [observeAll, registrationsOn]
  | cons p ps ih =>
    simp only [observeAll, ih, registries_observe]
    by_cases h : o = p.1
    · simp [h, registrationsOn, Hook.registration, nextKey]
    · simp [h, registrationsOn, Ne.symm h]

theorem entries_unobserveAll (ks : List (ObjectId × Key)) (o : ObjectId) :
    ((g.unobserveAll ks).registries.get o).entries =
      (g.registries.get o).entries.filter fun e => (o, e.key) ∉ ks := by
  induction ks generalizing g with
  | nil => simp [unobserveAll]
  | cons k ks ih =>
    obtain ⟨o', k⟩ := k
    show (((g.unobserve o' k).unobserveAll ks).registries.get o).entries = _
    rw [ih, registries_unobserve]
    by_cases ho : o = o'
    · simp only [ho, if_true, Registry.entries_erase, List.filter_filter]
      refine List.filter_congr fun e _ => ?_
      simp [Bool.and_comm]
    · simp [ho]

theorem keys_observeAll (hg : g.Keyed) (observer : Observer) (ps : List (ObjectId × Topic)) :
    (∀ h ∈ (g.observeAll observer ps).1, ¬ (g.registries.get h.target).Issued h.key) ∧
      (g.observeAll observer ps).1.Nodup := by
  induction ps generalizing g with
  | nil => simp [observeAll]
  | cons p ps ih =>
    obtain ⟨hnew, hnd⟩ := ih ((LeadsTo.observe g p.1 p.2 observer).keyed hg)
    have hissued : ((g.observe p.1 p.2 observer).registries.get p.1).Issued (g.nextKey p.1) := by
      rw [registries_observe, if_pos rfl]; exact Registry.issued_nextKey_insert ..
    simp only [observeAll, List.mem_cons, forall_eq_or_imp, List.nodup_cons]
    exact ⟨⟨(hg p.1).not_issued_nextKey,
      fun h hm hi => hnew h hm ((LeadsTo.observe g p.1 p.2 observer h.target).issued _ hi)⟩,
      fun hm => hnew _ hm hissued, hnd⟩

theorem issued_observeAll (observer : Observer) (ps : List (ObjectId × Topic)) {h : Hook}
    (hm : h ∈ (g.observeAll observer ps).1) :
    ((g.observeAll observer ps).2.registries.get h.target).Issued h.key := by
  refine Registry.issued_of_mem (Registry.mem_keys (e := ⟨h.key, h.topic, observer⟩) ?_)
  rw [entries_observeAll]
  exact List.mem_append_right _ (mem_registrationsOn.2 ⟨rfl, hm⟩)

/-- Hooks that are taken back at once leave no registration behind. -/
theorem entries_unobserveAll_observeAll (hg : g.Keyed) (observer : Observer)
    (ps : List (ObjectId × Topic)) (o : ObjectId) :
    (((g.observeAll observer ps).2.unobserveAll
      ((g.observeAll observer ps).1.map Hook.address)).registries.get
      o).entries = (g.registries.get o).entries := by
  rw [entries_unobserveAll, entries_observeAll, List.filter_append]
  have hold : (g.registries.get o).entries.filter
      (fun e => (o, e.key) ∉ (g.observeAll observer ps).1.map Hook.address) =
        (g.registries.get o).entries := by
    refine List.filter_eq_self.2 fun e he => decide_eq_true fun hm => ?_
    obtain ⟨h, hh, ha⟩ := List.mem_map.1 hm
    obtain ⟨rfl, hk⟩ := Prod.mk.inj ha
    exact (keys_observeAll hg observer ps).1 h hh
      (hk ▸ Registry.issued_of_mem (Registry.mem_keys he))
  have hnew : (registrationsOn o observer (g.observeAll observer ps).1).filter
      (fun e => (o, e.key) ∉ (g.observeAll observer ps).1.map Hook.address) = [] := by
    refine List.filter_eq_nil_iff.2 fun e he => ?_
    rw [decide_eq_true_eq, not_not]
    exact List.mem_map_of_mem (mem_registrationsOn.1 he).2
  rw [hold, hnew, List.append_nil]

/-! ### Records -/

theorem observeAll_append (observer : Observer) (ps qs : List (ObjectId × Topic)) :
    g.observeAll observer (ps ++ qs) =
      ((g.observeAll observer ps).1 ++ ((g.observeAll observer ps).2.observeAll observer qs).1,
        ((g.observeAll observer ps).2.observeAll observer qs).2) := by
  induction ps generalizing g with
  | nil => rfl
  | cons p ps ih => simp only [List.cons_append, observeAll, ih]

theorem observeEach_eq (o : ObjectId) (observer : Observer) (ts : List Topic) :
    (((g.observeEach o observer ts).1.map fun e => (⟨o, e.1, e.2⟩ : Hook)),
      (g.observeEach o observer ts).2) =
      g.observeAll observer (ts.map (o, ·)) := by
  induction ts generalizing g with
  | nil => rfl
  | cons t ts ih =>
    have := ih (g := g.observe o t observer)
    simp only [observeEach, observeAll, List.map_cons, ← this]

theorem attach_eq (o : ObjectId) (ts : List Topic) (observer : Observer) :
    ((g.attach o ts observer).1.hooks, (g.attach o ts observer).2) =
      g.observeAll observer (ts.map (o, ·)) :=
  observeEach_eq o observer ts

theorem attachAll_eq (observer : Observer) (ds : List Dependency) :
    (hooksOf (g.attachAll observer ds).1, (g.attachAll observer ds).2) =
      g.observeAll observer (ds.flatMap Dependency.pairs) := by
  induction ds generalizing g with
  | nil => rfl
  | cons d ds ih =>
    have hd := attach_eq (g := g) d.target d.topics observer
    have := ih (g := (g.attach d.target d.topics observer).2)
    simp only [Prod.ext_iff] at hd this
    simp only [attachAll, List.flatMap_cons, hooksOf, observeAll_append, Dependency.pairs,
      ← hd.1, ← hd.2] at *
    simp [this.1, this.2]

theorem topics_attach (o : ObjectId) (ts : List Topic) (observer : Observer) :
    (g.attach o ts observer).1.target = o ∧ (g.attach o ts observer).1.topics = ts := by
  refine ⟨rfl, ?_⟩
  have := congrArg (List.map Hook.topic) (congrArg Prod.fst (attach_eq (g := g) o ts observer))
  have hp := congrArg (List.map Prod.snd) (pairs_observeAll (g := g) observer (ts.map (o, ·)))
  simp only [List.map_map, Function.comp_def, List.map_id'] at hp
  simpa [Record.hooks, Record.topics, Function.comp_def, hp] using this

theorem topics_attachAll (observer : Observer) (ds : List Dependency) :
    (g.attachAll observer ds).1.map (fun r => (r.target, r.topics)) = ds.map fun d =>
      (d.target, d.topics) := by
  induction ds generalizing g with
  | nil => rfl
  | cons d ds ih =>
    obtain ⟨ho, ht⟩ := topics_attach (g := g) d.target d.topics observer
    simp only [attachAll, List.map_cons, ho, ht, ih]

theorem unobserveEach_eq (o : ObjectId) (es : List (Topic × Key)) :
    (g.unobserveEach o es).2 = g.unobserveAll (es.map fun e => (o, e.2)) := by
  induction es generalizing g with
  | nil => rfl
  | cons e es ih => exact ih

theorem detach_eq (r : Record) : (g.detach r).2 = g.unobserveAll (r.hooks.map Hook.address) := by
  rw [Record.hooks, List.map_map]; exact unobserveEach_eq r.target r.entries

theorem detachAll_eq (rs : List Record) :
    (g.detachAll rs).2 = g.unobserveAll ((hooksOf rs).map Hook.address) := by
  induction rs generalizing g with
  | nil => rfl
  | cons r rs ih =>
    show (detachAll (g.detach r).2 rs).2 = _
    rw [ih, detach_eq]; simp [unobserveAll, hooksOf]

end Graph
end LivePath
