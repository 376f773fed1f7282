import LivePath.Proofs.Agreement
import LivePath.Proofs.Passes

/-!
# Twins

Two graphs are twins if one of them has all that the other has, and besides it observers that the
other knows nothing of. Keys, scripts and trackers have other names there; a `Pairing` tells which
are the same. The registrations of the one are woven into those of the other (`Woven`), in their
order, so that an announcement comes to the same observers in the same order. Observing and taking
back keep graphs twins, whether both do it (`Twin.observe`, `Twin.unobserve`) or a stranger on one
side alone (`Twin.claim`, `Twin.release`).
-/

namespace LivePath

/-- `ys` consists of twins of `xs`, in their order, and of strangers in between. -/
inductive Woven {α β : Type} (R : α → β → Prop) (A : β → Prop) : List α → List β → Prop
  | nil : Woven R A [] []
  | twin {x : α} {y : β} {xs : List α} {ys : List β} (h : R x y) (hs : Woven R A xs ys) :
      Woven R A (x :: xs) (y :: ys)
  | alien {y : β} {xs : List α} {ys : List β} (h : A y) (hs : Woven R A xs ys) :
      Woven R A xs (y :: ys)

namespace Woven
variable {α β : Type} {R R' : α → β → Prop} {A A' : β → Prop} {xs xs' : List α} {y : β}
  {ys ys' : List β}

theorem mono (h : Woven R A xs ys) (hR : ∀ x y, R x y → R' x y) (hA : ∀ y, A y → A' y) :
    Woven R' A' xs ys := by
  induction h with
  | nil => exact .nil
  | twin h _ ih => exact .twin (hR _ _ h) ih
  | alien h _ ih => exact .alien (hA _ h) ih

theorem append (h : Woven R A xs ys) (h' : Woven R A xs' ys') :
    Woven R A (xs ++ xs') (ys ++ ys') := by
  induction h with
  | nil => exact h'
  | twin h _ ih => exact .twin h ih
  | alien h _ ih => exact .alien h ih

theorem filter (h : Woven R A xs ys) {p : α → Bool} {q : β → Bool} (hR : ∀ x y, R x y → q y = p x) :
    Woven R A (xs.filter p) (ys.filter q) := by
  induction h with
  | nil => exact .nil
  | @twin x y xs ys h _ ih =>
    rw [List.filter_cons, List.filter_cons, hR x y h]
    split
    · exact .twin h ih
    · exact ih
  | alien h _ ih =>
    rw [List.filter_cons]
    split
    · exact .alien h ih
    · exact ih

theorem filter_right (h : Woven R A xs ys) {q : β → Bool} (hR : ∀ x y, R x y → q y = true) :
    Woven R A xs (ys.filter q) := by
  induction h with
  | nil => exact .nil
  | @twin x y xs ys h _ ih =>
    rw [List.filter_cons_of_pos (hR x y h)]
    exact .twin h ih
  | alien h _ ih =>
    rw [List.filter_cons]
    split
    · exact .alien h ih
    · exact ih

theorem any_eq (h : Woven R A xs ys) {p : α → Bool} {q : β → Bool} (hR : ∀ x y, R x y → q y = p x)
    (hA : ∀ y, A y → q y = false) : ys.any q = xs.any p := by
  induction h with
  | nil => rfl
  | @twin x y xs ys h _ ih => rw [List.any_cons, List.any_cons, hR x y h, ih]
  | @alien y xs ys h _ ih => rw [List.any_cons, hA y h, Bool.false_or, ih]

theorem eq_nil (h : Woven R A xs []) : xs = [] := by
  cases h
  rfl

theorem exists_twin (h : Woven R A xs (y :: ys)) (hy : ¬ A y) :
    ∃ x xs', xs = x :: xs' ∧ R x y ∧ Woven R A xs' ys := by
  cases h with
  | twin h hs => exact ⟨_, _, rfl, h, hs⟩
  | alien h => exact absurd h hy

theorem of_alien (h : Woven R A xs (y :: ys)) (hy : ∀ x, ¬ R x y) : Woven R A xs ys := by
  cases h with
  | twin h => exact absurd h (hy _)
  | alien _ hs => exact hs

end Woven

/-! ### Tables -/

/-- Entries of the one table have twins in the other, one each, and there are strangers besides. -/
structure Table.Paired {α : Type} [Inhabited α] (R : Nat → Nat → Prop) (A : Nat → Prop) (E : α → α →
    Prop) (B : α → Prop) (ts ts' : Table α) : Prop where
  twin {i i' : Nat} (h : R i i') : E (ts.get i) (ts'.get i')
  strange {j : Nat} (h : A j) : B (ts'.get j)
  lt {i i' : Nat} (h : R i i') : i < ts.next ∧ i' < ts'.next
  lt_strange {j : Nat} (h : A j) : j < ts'.next
  unique {i i' j j' : Nat} (h : R i i') (h' : R j j') : i = j ↔ i' = j'
  apart {i i' : Nat} (h : R i i') : ¬ A i'

namespace Table.Paired
variable {α : Type} [Inhabited α] {R : Nat → Nat → Prop} {A : Nat → Prop} {E E' : α → α → Prop}
  {B B' : α → Prop} {ts ts' : Table α} {i i' j : Nat} {t t' : α}

theorem mono (h : Paired R A E B ts ts') (hE : ∀ t t', E t t' → E' t t') (hB : ∀ t, B t → B' t) :
    Paired R A E' B' ts ts' :=
  { h with
    twin := fun hi => hE _ _ (h.twin hi)
    strange := fun hj => hB _ (h.strange hj) }

theorem set (h : Paired R A E B ts ts') (hi : R i i') (ht : E t t') :
    Paired R A E B (ts.set i t) (ts'.set i' t') := by
  refine ⟨fun hj => ?_, fun hj => ?_, fun hj => ?_, fun hj => ?_, h.unique, h.apart⟩
  · next j j' =>
    rw [get_set, get_set]
    by_cases hji : j = i
    · rw [if_pos hji, if_pos ((h.unique hj hi).1 hji)]
      exact ht
    · rw [if_neg hji, if_neg (mt (h.unique hj hi).2 hji)]
      exact h.twin hj
  · next j =>
    have hne : j ≠ i' := fun he => h.apart hi (he ▸ hj)
    rw [get_set_ne _ hne]
    exact h.strange hj
  · rw [next_set_of_lt _ (h.lt hi).1, next_set_of_lt _ (h.lt hi).2]
    exact h.lt hj
  · rw [next_set_of_lt _ (h.lt hi).2]
    exact h.lt_strange hj

theorem setStranger (h : Paired R A E B ts ts') (hj : A j) (ht : B t) :
    Paired R A E B ts (ts'.set j t) := by
  refine ⟨fun hi => ?_, fun hi => ?_, fun hi => ?_, fun hi => ?_, h.unique, h.apart⟩
  · next i i' =>
    have hne : i' ≠ j := fun he => h.apart hi (he ▸ hj)
    rw [get_set_ne _ hne]
    exact h.twin hi
  · rw [get_set]
    split
    · exact ht
    · exact h.strange hi
  · rw [next_set_of_lt _ (h.lt_strange hj)]
    exact h.lt hi
  · rw [next_set_of_lt _ (h.lt_strange hj)]
    exact h.lt_strange hi

theorem push (h : Paired R A E B ts ts') (ht : E t t') :
    Paired (fun i i' => R i i' ∨ i = ts.next ∧ i' = ts'.next) A E B (ts.push t) (ts'.push t') := by
  refine ⟨fun hi => ?_, fun hj => ?_, fun hi => ?_, fun hj => ?_, fun hi hj => ?_, fun hi hj => ?_⟩
  · rcases hi with hi | ⟨rfl, rfl⟩
    · rw [get_push_ne _ (Nat.ne_of_lt (h.lt hi).1), get_push_ne _ (Nat.ne_of_lt (h.lt hi).2)]
      exact h.twin hi
    · rw [get_push_next, get_push_next]
      exact ht
  · rw [get_push_ne _ (Nat.ne_of_lt (h.lt_strange hj))]
    exact h.strange hj
  · rw [next_push, next_push]
    rcases hi with hi | ⟨rfl, rfl⟩
    · exact ⟨Nat.lt_succ_of_lt (h.lt hi).1, Nat.lt_succ_of_lt (h.lt hi).2⟩
    · exact ⟨Nat.lt_succ_self _, Nat.lt_succ_self _⟩
  · rw [next_push]
    exact Nat.lt_succ_of_lt (h.lt_strange hj)
  · rcases hi with hi | ⟨rfl, rfl⟩ <;> rcases hj with hj | ⟨rfl, rfl⟩
    · exact h.unique hi hj
    · have := h.lt hi
      omega
    · have := h.lt hj
      omega
    · exact ⟨fun _ => rfl, fun _ => rfl⟩
  · rcases hi with hi | ⟨rfl, rfl⟩
    · exact h.apart hi hj
    · exact Nat.lt_irrefl _ (h.lt_strange hj)

theorem pushStranger (h : Paired R A E B ts ts') (ht : B t) :
    Paired R (fun j => A j ∨ j = ts'.next) E B ts (ts'.push t) := by
  refine ⟨fun hi => ?_, fun hj => ?_, fun hi => ?_, fun hj => ?_, h.unique, fun hi hj => ?_⟩
  · rw [get_push_ne _ (Nat.ne_of_lt (h.lt hi).2)]
    exact h.twin hi
  · rcases hj with hj | rfl
    · rw [get_push_ne _ (Nat.ne_of_lt (h.lt_strange hj))]
      exact h.strange hj
    · rw [get_push_next]
      exact ht
  · rw [next_push]
    exact ⟨(h.lt hi).1, Nat.lt_succ_of_lt (h.lt hi).2⟩
  · rw [next_push]
    rcases hj with hj | rfl
    · exact Nat.lt_succ_of_lt (h.lt_strange hj)
    · exact Nat.lt_succ_self _
  · rcases hj with hj | rfl
    · exact h.apart hi hj
    · exact Nat.lt_irrefl _ (h.lt hi).2

end Table.Paired

/-! ### Pairings -/

/-- Which things of two machines are the same, and which ones of the second are strangers to the
first. -/
structure Pairing where
  script : ScriptId → ScriptId → Prop
  tracker : TrackerId → TrackerId → Prop
  key : ObjectId → Key → Key → Prop
  /-- Scripts of strangers; they do nothing. -/
  mute : ScriptId → Prop
  /-- Trackers that are strangers. -/
  crowd : TrackerId → Prop
  /-- Keys of strangers. -/
  own : ObjectId → Key → Prop

namespace Pairing

/-- What was paired stays paired. -/
structure Grows (P P' : Pairing) : Prop where
  script {i i' : ScriptId} (h : P.script i i') : P'.script i i'
  tracker {i i' : TrackerId} (h : P.tracker i i') : P'.tracker i i'
  key {o : ObjectId} {k k' : Key} (h : P.key o k k') : P'.key o k k'
  mute {i : ScriptId} (h : P.mute i) : P'.mute i
  crowd {j : TrackerId} (h : P.crowd j) : P'.crowd j
  own {o : ObjectId} {k : Key} (h : P.own o k) : P'.own o k

theorem Grows.refl (P : Pairing) : P.Grows P :=
  ⟨id, id, id, id, id, id⟩

theorem Grows.trans {P P' P'' : Pairing} (h : P.Grows P') (h' : P'.Grows P'') : P.Grows P'' :=
  ⟨h'.script ∘ h.script, h'.tracker ∘ h.tracker, h'.key ∘ h.key, h'.mute ∘ h.mute,
    h'.crowd ∘ h.crowd, h'.own ∘ h.own⟩

def pairKey (P : Pairing) (o : ObjectId) (k k' : Key) : Pairing :=
  { P with key := fun o₁ k₁ k₁' => P.key o₁ k₁ k₁' ∨ o₁ = o ∧ k₁ = k ∧ k₁' = k' }

def claimKey (P : Pairing) (o : ObjectId) (k : Key) : Pairing :=
  { P with own := fun o₁ k₁ => P.own o₁ k₁ ∨ o₁ = o ∧ k₁ = k }

theorem grows_pairKey (P : Pairing) (o : ObjectId) (k k' : Key) : P.Grows (P.pairKey o k k') :=
  { Grows.refl P with key := .inl }

theorem grows_claimKey (P : Pairing) (o : ObjectId) (k : Key) : P.Grows (P.claimKey o k) :=
  { Grows.refl P with own := .inl }

variable {P P' : Pairing}

inductive Observes (P : Pairing) : Observer → Observer → Prop
  | script {i i' : ScriptId} (h : P.script i i') : Observes P (.script i) (.script i')
  | tracker {i i' : TrackerId} (h : P.tracker i i') : Observes P (.tracker i) (.tracker i')

theorem Observes.mono {l l' : Observer} (h : P.Observes l l') (hP : P.Grows P') :
    P'.Observes l l' := by
  cases h with
  | script h => exact .script (hP.script h)
  | tracker h => exact .tracker (hP.tracker h)

/-- The same registration with an object. -/
structure Registered (P : Pairing) (o : ObjectId) (r r' : Registration Topic Observer) : Prop where
  key : P.key o r.key r'.key
  tag : r'.tag = r.tag
  listener : P.Observes r.listener r'.listener

/-- A registration of a stranger. -/
structure Strange (P : Pairing) (o : ObjectId) (r : Registration Topic Observer) : Prop where
  key : P.own o r.key
  listener : ∃ j, P.crowd j ∧ r.listener = .tracker j

/-- The same registration as its observers remember it. -/
structure Recorded (P : Pairing) (h h' : Hook) : Prop where
  target : h'.target = h.target
  topic : h'.topic = h.topic
  key : P.key h.target h.key h'.key

theorem Registered.mono {o : ObjectId} {r r' : Registration Topic Observer}
    (h : P.Registered o r r') (hP : P.Grows P') : P'.Registered o r r' :=
  ⟨hP.key h.key, h.tag, h.listener.mono hP⟩

theorem Strange.mono {o : ObjectId} {r : Registration Topic Observer} (h : P.Strange o r)
    (hP : P.Grows P') :
    P'.Strange o r := by
  obtain ⟨j, hj, hl⟩ := h.listener
  exact ⟨hP.own h.key, j, hP.crowd hj, hl⟩

theorem Recorded.mono {h h' : Hook} (hr : P.Recorded h h') (hP : P.Grows P') : P'.Recorded h h' :=
  ⟨hr.target, hr.topic, hP.key hr.key⟩

end Pairing

/-- The registrations of the one list are woven into the other. -/
abbrev Pairing.Weaves (P : Pairing) (o : ObjectId) :
    List (Registration Topic Observer) → List (Registration Topic Observer) → Prop :=
  Woven (P.Registered o) (P.Strange o)

theorem Pairing.Weaves.mono {P P' : Pairing} {o : ObjectId}
    {rs rs' : List (Registration Topic Observer)} (h : P.Weaves o rs rs') (hP : P.Grows P') :
    P'.Weaves o rs rs' :=
  Woven.mono h (fun _ _ hr => hr.mono hP) fun _ hr => hr.mono hP

/-! ### Graphs -/

/-- The same objects and arrays, and registrations woven into each other. -/
structure Graph.Twin (P : Pairing) (g g' : Graph Empty) : Prop where
  same : g.Same g'
  keyed : g.Keyed
  keyed_right : g'.Keyed
  weaves (o : ObjectId) : P.Weaves o (g.registries.get o).entries (g'.registries.get o).entries
  issued {o : ObjectId} {k k' : Key} (h : P.key o k k') :
    (g.registries.get o).Issued k ∧ (g'.registries.get o).Issued k'
  unique {o : ObjectId} {k k' l l' : Key} (h : P.key o k k') (h' : P.key o l l') : k = l ↔ k' = l'
  own {o : ObjectId} {k : Key} (h : P.own o k) : (g'.registries.get o).Issued k
  apart {o : ObjectId} {k k' : Key} (h : P.key o k k') : ¬ P.own o k'

namespace Graph.Twin
variable {P P' : Pairing} {g g' : Graph Empty} {o : ObjectId} {k k' : Key}

theorem grow (h : Twin P g g') (hP : P.Grows P') (hkey : P'.key = P.key) (hown : P'.own = P.own) :
    Twin P' g g' where
  same := h.same
  keyed := h.keyed
  keyed_right := h.keyed_right
  weaves o := (h.weaves o).mono hP
  issued hk := h.issued (hkey ▸ hk)
  unique hk hl := h.unique (hkey ▸ hk) (hkey ▸ hl)
  own hk := h.own (hown ▸ hk)
  apart hk hl := h.apart (hkey ▸ hk) (hown ▸ hl)

theorem contains (h : Twin P g g') (hk : P.key o k k') :
    (g'.registries.get o).contains k' = (g.registries.get o).contains k := by
  refine (h.weaves o).any_eq (fun r r' hr => ?_) fun r' hr => ?_
  · exact decide_eq_decide.2 (h.unique hr.key hk).symm
  · refine decide_eq_false fun he => h.apart hk ?_
    rw [← he]
    exact hr.key

theorem observe (h : Twin P g g') (o : ObjectId) (t : Topic) {l l' : Observer}
    (hl : P.Observes l l') :
    Twin (P.pairKey o (g.nextKey o) (g'.nextKey o)) (g.observe o t l) (g'.observe o t l') := by
  have hgrows := P.grows_pairKey o (g.nextKey o) (g'.nextKey o)
  have hleads := LeadsTo.observe g o t l
  have hleads' := LeadsTo.observe g' o t l'
  -- The new keys were never issued before, so that the pairing stays one to one.
  have hnew : ¬ (g.registries.get o).Issued (g.nextKey o) := (h.keyed o).not_issued_nextKey
  have hnew' : ¬ (g'.registries.get o).Issued (g'.nextKey o) := (h.keyed_right o).not_issued_nextKey
  refine ⟨⟨h.same.objects, h.same.arrays⟩, hleads.keyed h.keyed,
    hleads'.keyed h.keyed_right, fun o₁ => ?_, fun hk => ?_, fun hk hl => ?_, fun hk =>
      (hleads' _).issued _ (h.own hk), fun hk hown => ?_⟩
  · rw [registries_observe, registries_observe]
    split
    · next ho =>
      subst ho
      have hr : (P.pairKey o₁ (g.nextKey o₁) (g'.nextKey o₁)).Registered o₁ ⟨g.nextKey o₁, t, l⟩
          ⟨g'.nextKey o₁, t, l'⟩ :=
        ⟨.inr ⟨rfl, rfl, rfl⟩, rfl, hl.mono hgrows⟩
      exact ((h.weaves o₁).mono hgrows).append (.twin hr .nil)
    · exact (h.weaves o₁).mono hgrows
  · rcases hk with hk | ⟨rfl, rfl, rfl⟩
    · exact ⟨(hleads _).issued _ (h.issued hk).1, (hleads' _).issued _ (h.issued hk).2⟩
    · rw [registries_observe, registries_observe, if_pos rfl, if_pos rfl]
      exact ⟨Registry.issued_nextKey_insert .., Registry.issued_nextKey_insert ..⟩
  · rcases hk with hk | ⟨rfl, rfl, rfl⟩
    · rcases hl with hl | ⟨rfl, rfl, rfl⟩
      · exact h.unique hk hl
      · have hissued := h.issued hk
        exact ⟨fun he => absurd (he ▸ hissued.1) hnew, fun he => absurd (he ▸ hissued.2) hnew'⟩
    · rcases hl with hl | ⟨-, rfl, rfl⟩
      · have hissued := h.issued hl
        exact ⟨fun he => absurd (he ▸ hissued.1) hnew, fun he => absurd (he ▸ hissued.2) hnew'⟩
      · exact ⟨fun _ => rfl, fun _ => rfl⟩
  · rcases hk with hk | ⟨rfl, rfl, rfl⟩
    · exact h.apart hk hown
    · exact hnew' (h.own hown)

theorem claim (h : Twin P g g') (o : ObjectId) (t : Topic) {j : TrackerId} (hj : P.crowd j) :
    Twin (P.claimKey o (g'.nextKey o)) g (g'.observe o t (.tracker j)) := by
  have hgrows := P.grows_claimKey o (g'.nextKey o)
  have hleads' := LeadsTo.observe g' o t (.tracker j)
  have hnew' : ¬ (g'.registries.get o).Issued (g'.nextKey o) := (h.keyed_right o).not_issued_nextKey
  refine ⟨⟨h.same.objects, h.same.arrays⟩, h.keyed, hleads'.keyed h.keyed_right, fun o₁ => ?_,
    fun hk => ⟨(h.issued hk).1, (hleads' _).issued _ (h.issued hk).2⟩, h.unique, fun hk => ?_,
      fun hk hown => ?_⟩
  · rw [registries_observe]
    split
    · next ho =>
      subst ho
      have hr : (P.claimKey o₁ (g'.nextKey o₁)).Strange o₁ ⟨g'.nextKey o₁, t, .tracker j⟩ :=
        ⟨.inr ⟨rfl, rfl⟩, j, hj, rfl⟩
      have happ := ((h.weaves o₁).mono hgrows).append (.alien hr .nil)
      rw [List.append_nil] at happ
      exact happ
    · exact (h.weaves o₁).mono hgrows
  · rcases hk with hk | ⟨rfl, rfl⟩
    · exact (hleads' _).issued _ (h.own hk)
    · rw [registries_observe, if_pos rfl]
      exact Registry.issued_nextKey_insert ..
  · rcases hown with hown | ⟨rfl, rfl⟩
    · exact h.apart hk hown
    · exact hnew' (h.issued hk).2

theorem unobserve (h : Twin P g g') (hk : P.key o k k') :
    Twin P (g.unobserve o k) (g'.unobserve o k') := by
  have hleads := LeadsTo.unobserve g o k
  have hleads' := LeadsTo.unobserve g' o k'
  refine ⟨⟨h.same.objects, h.same.arrays⟩, hleads.keyed h.keyed,
    hleads'.keyed h.keyed_right, fun o₁ => ?_, fun hk =>
      ⟨(hleads _).issued _ (h.issued hk).1, (hleads' _).issued _ (h.issued hk).2⟩, h.unique,
    fun hk => (hleads' _).issued _ (h.own hk), h.apart⟩
  rw [registries_unobserve, registries_unobserve]
  split
  · next ho =>
    subst ho
    rw [Registry.entries_erase, Registry.entries_erase]
    refine (h.weaves o₁).filter fun r r' hr => ?_
    exact decide_eq_decide.2 (not_congr (h.unique hr.key hk).symm)
  · exact h.weaves o₁

theorem release (h : Twin P g g') (hk : P.own o k) : Twin P g (g'.unobserve o k) := by
  have hleads' := LeadsTo.unobserve g' o k
  refine ⟨⟨h.same.objects, h.same.arrays⟩, h.keyed, hleads'.keyed h.keyed_right, fun o₁ => ?_,
    fun hk => ⟨(h.issued hk).1, (hleads' _).issued _ (h.issued hk).2⟩, h.unique,
    fun hk => (hleads' _).issued _ (h.own hk), h.apart⟩
  rw [registries_unobserve]
  split
  · next ho =>
    subst ho
    rw [Registry.entries_erase]
    refine (h.weaves o₁).filter_right fun r r' hr => decide_eq_true fun he => ?_
    exact h.apart hr.key (he ▸ hk)
  · exact h.weaves o₁

/-! ### Many registrations -/

theorem observeAll (h : Twin P g g') (ps : List (ObjectId × Topic)) {l l' : Observer}
    (hl : P.Observes l l') :
    ∃ K, P.Grows { P with key := K } ∧
      Twin { P with key := K } (g.observeAll l ps).2 (g'.observeAll l' ps).2 ∧
      List.Forall₂ (Pairing.Recorded { P with key := K }) (g.observeAll l ps).1
        (g'.observeAll l' ps).1 := by
  induction ps generalizing P g g' with
  | nil => exact ⟨P.key, .refl P, h, .nil⟩
  | cons p ps ih =>
    have hgrows := P.grows_pairKey p.1 (g.nextKey p.1) (g'.nextKey p.1)
    obtain ⟨K, hK, htwin, hhooks⟩ := ih (h.observe p.1 p.2 hl) (hl.mono hgrows)
    exact ⟨K, hgrows.trans hK, htwin, .cons ⟨rfl, rfl, hK.key (.inr ⟨rfl, rfl, rfl⟩)⟩ hhooks⟩

theorem claimAll (h : Twin P g g') (ps : List (ObjectId × Topic)) {j : TrackerId} (hj : P.crowd j) :
    ∃ O, P.Grows { P with own := O } ∧
      Twin { P with own := O } g (g'.observeAll (.tracker j) ps).2 ∧
      ∀ x ∈ (g'.observeAll (.tracker j) ps).1, O x.target x.key := by
  induction ps generalizing P g' with
  | nil => exact ⟨P.own, .refl P, h, fun x hx => absurd hx List.not_mem_nil⟩
  | cons p ps ih =>
    have hgrows := P.grows_claimKey p.1 (g'.nextKey p.1)
    obtain ⟨O, hO, htwin, hhooks⟩ := ih (h.claim p.1 p.2 hj) hj
    exact ⟨O, hgrows.trans hO, htwin, List.forall_mem_cons.2 ⟨hO.own (.inr ⟨rfl, rfl⟩), hhooks⟩⟩

theorem unobserveAll (h : Twin P g g') {hs hs' : List Hook} (hh : List.Forall₂ P.Recorded hs hs') :
    Twin P (g.unobserveAll (hs.map Hook.address)) (g'.unobserveAll (hs'.map Hook.address)) := by
  induction hh generalizing g g' with
  | nil => exact h
  | @cons x x' hs hs' hx _ ih =>
    refine ih ?_
    show Twin P (g.unobserve x.target x.key) (g'.unobserve x'.target x'.key)
    rw [hx.target]
    exact h.unobserve hx.key

theorem releaseAll (h : Twin P g g') {hs : List Hook} (hh : ∀ x ∈ hs, P.own x.target x.key) :
    Twin P g (g'.unobserveAll (hs.map Hook.address)) := by
  induction hs generalizing g' with
  | nil => exact h
  | cons x hs ih =>
    obtain ⟨hx, hh⟩ := List.forall_mem_cons.1 hh
    exact ih (h.release hx) hh

end Graph.Twin
end LivePath
