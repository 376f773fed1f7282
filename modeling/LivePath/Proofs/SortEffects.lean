import LivePath.Sorting.Adaptive
import LivePath.Sorting.Bisection

/-!
# What sorting can do

Sorting asks questions that have effects. A `Judgement` says something about computations and their
results, and passes from the parts of a computation to the whole. Whatever it is, if it holds of the
questions it holds of sorting, and the result of sorting consists of items that were given
(`holds_sortM`), whatever the answers are.

There are two judgements about computations on a state. `Yields I x P`: as long as the state
satisfies `I` before `x`, it does so after it, and the result satisfies `P`. `Settled I x P`: in all
states that satisfy `I` the result of `x` is one and the same, it satisfies `P`, and the state stays
as it is.

Either passes to computations that may give up, in two ways: `tolerant` says `P` of the result if
there is one, `successful` says that there is one. Sorting gives up if the answers contradict each
other, so what holds of any answers at all is a matter of tolerant judgements (`Tolerates`).
-/

namespace LivePath

/-- A property of computations and what their results satisfy, which can be told from the parts of a
computation. -/
structure Judgement (m : Type → Type) [Monad m] where
  Holds : ∀ {α : Type}, m α → (α → Prop) → Prop
  return_ : ∀ {α : Type} {P : α → Prop} {a : α}, P a → Holds (pure a) P
  bind_ : ∀ {α β : Type} {P : α → Prop} {Q : β → Prop} {x : m α} {f : α → m β},
    Holds x P → (∀ a, P a → Holds (f a) Q) → Holds (x >>= f) Q

namespace Judgement.Holds
variable {m : Type → Type} [Monad m] {J : Judgement m} {α β : Type}

theorem pure {P : α → Prop} {a : α} (h : P a) : J.Holds (pure a) P :=
  J.return_ h

theorem bind {P : α → Prop} {Q : β → Prop} {x : m α} {f : α → m β} (hx : J.Holds x P)
    (hf : ∀ a, P a → J.Holds (f a) Q) : J.Holds (x >>= f) Q :=
  J.bind_ hx hf

theorem mono [LawfulMonad m] {P Q : α → Prop} {x : m α} (h : J.Holds x P) (hpq : ∀ a, P a → Q a) :
    J.Holds x Q := by
  rw [← bind_pure x]
  exact h.bind fun a ha => .pure (hpq a ha)

end Judgement.Holds

namespace Judgement
variable {m : Type → Type} [Monad m] {ε α : Type}

/-- What is said of a computation that may give up, and of its result if it has one. -/
def tolerant (J : Judgement m) : Judgement (ExceptT ε m) where
  Holds x P := J.Holds x.run fun r => ∀ a, r = .ok a → P a
  return_ h := J.return_ fun a ha => by cases ha; exact h
  bind_ hx hf := J.bind_ hx fun r hr => by
    cases r with
    | ok a => exact hf a (hr a rfl)
    | error e => exact J.return_ nofun

/-- The same, and the computation does have a result. -/
def successful (J : Judgement m) : Judgement (ExceptT ε m) where
  Holds x P := J.Holds x.run fun r => ∃ a, r = .ok a ∧ P a
  return_ h := J.return_ ⟨_, rfl, h⟩
  bind_ hx hf := J.bind_ hx fun r hr => by
    obtain ⟨a, rfl, ha⟩ := hr
    exact hf a ha

/-- To give up is allowed, whatever is said of results. -/
def Tolerates [MonadExcept Disorder m] (J : Judgement m) : Prop :=
  ∀ (β : Type) (P : β → Prop) (d : Disorder), J.Holds (throw d : m β) P

theorem tolerates_tolerant (J : Judgement m) : Tolerates (m := ExceptT Disorder m) J.tolerant :=
  fun _ _ _ => J.return_ nofun

variable [LawfulMonad m] {J : Judgement m} {x : m α} {P : α → Prop}

theorem Holds.tolerant_lift (h : J.Holds x P) :
    J.tolerant.Holds (ExceptT.lift x : ExceptT ε m α) P := by
  show J.Holds (Except.ok <$> x) _
  rw [map_eq_pure_bind]
  exact h.bind fun a ha => .pure fun b hb => by cases hb; exact ha

theorem Holds.successful_lift (h : J.Holds x P) :
    J.successful.Holds (ExceptT.lift x : ExceptT ε m α) P := by
  show J.Holds (Except.ok <$> x) _
  rw [map_eq_pure_bind]
  exact h.bind fun a ha => .pure ⟨a, rfl, ha⟩

end Judgement

section
variable {σ α : Type}

/-- `x` keeps `I` and has a result with the property `P`. -/
def Yields (I : σ → Prop) (x : StateM σ α) (P : α → Prop) : Prop :=
  ∀ s, I s → P (x.run s).1 ∧ I (x.run s).2

/-- `x` has one result in all states that satisfy `I`, with the property `P`, and changes none of
them. -/
def Settled (I : σ → Prop) (x : StateM σ α) (P : α → Prop) : Prop :=
  ∃ a, P a ∧ ∀ s, I s → x.run s = (a, s)

def Judgement.yields (I : σ → Prop) : Judgement (StateM σ) where
  Holds := Yields I
  return_ h := fun _ hs => ⟨h, hs⟩
  bind_ hx hf := fun s hs => hf _ (hx s hs).1 _ (hx s hs).2

def Judgement.settled (I : σ → Prop) : Judgement (StateM σ) where
  Holds := Settled I
  return_ h := ⟨_, h, fun _ _ => rfl⟩
  bind_ hx hf := by
    obtain ⟨a, ha, hx⟩ := hx
    obtain ⟨b, hb, hf⟩ := hf a ha
    refine ⟨b, hb, fun s hs => ?_⟩
    rw [StateT.run_bind, hx s hs]
    exact hf s hs

end

variable {m : Type → Type} [Monad m] {J : Judgement m} {α β : Type}

def Every (S : α → Prop) (xs : List α) : Prop :=
  ∀ x ∈ xs, S x

namespace Every
variable {S : α → Prop} {xs ys : List α} {x : α}

theorem nil : Every S [] := fun _ h => absurd h List.not_mem_nil

theorem cons (hx : S x) (h : Every S xs) : Every S (x :: xs) :=
  List.forall_mem_cons.2 ⟨hx, h⟩

theorem head (h : Every S (x :: xs)) : S x := h x (List.mem_cons_self ..)

theorem tail (h : Every S (x :: xs)) : Every S xs := fun y hy => h y (List.mem_cons_of_mem _ hy)

theorem append (h : Every S xs) (h' : Every S ys) : Every S (xs ++ ys) :=
  List.forall_mem_append.2 ⟨h, h'⟩

theorem take (h : Every S xs) (n : Nat) : Every S (xs.take n) :=
  fun y hy => h y (List.mem_of_mem_take hy)

theorem drop (h : Every S xs) (n : Nat) : Every S (xs.drop n) :=
  fun y hy => h y (List.mem_of_mem_drop hy)

theorem reverse (h : Every S xs) : Every S xs.reverse := fun y hy => h y (List.mem_reverse.1 hy)

theorem filter (h : Every S xs) (p : α → Bool) : Every S (xs.filter p) :=
  fun y hy => h y (List.mem_filter.1 hy).1

end Every

theorem every_append {S : α → Prop} {xs ys : List α} :
    Every S (xs ++ ys) ↔ Every S xs ∧ Every S ys :=
  List.forall_mem_append

section
variable {S : α → Prop} {less : α → α → m Bool} (hless : ∀ x y, J.Holds (less x y) fun _ => True)
include hless

/-! ### Insertion and merging -/

theorem holds_insertBackM {x : α} {ys : List α} (hx : S x) (hys : Every S ys) :
    J.Holds (insertBackM less x ys) (Every S) := by
  induction ys with
  | nil => exact .pure (.cons hx .nil)
  | cons y ys ih =>
    refine (hless x y).bind fun b _ => ?_
    cases b
    · exact .pure (.cons hx hys)
    · exact (ih hys.tail).bind fun zs hzs => .pure (.cons hys.head hzs)

theorem holds_insertAllM {sorted xs : List α} (hs : Every S sorted) (hxs : Every S xs) :
    J.Holds (insertAllM less sorted xs) (Every S) := by
  have hfold : ∀ {xs back : List α}, Every S xs → Every S back →
      J.Holds (xs.foldlM (fun back x => insertBackM less x back) back) (Every S) := by
    intro xs
    induction xs with
    | nil => exact fun _ hb => .pure hb
    | cons x xs ih =>
      intro back hxs hb
      rw [List.foldlM_cons]
      exact (holds_insertBackM hless hxs.head hb).bind fun back' hb' => ih hxs.tail hb'
  exact (hfold hxs hs.reverse).bind fun zs hzs => .pure hzs.reverse

theorem holds_mergeByM {xs ys : List α} (hxs : Every S xs) (hys : Every S ys) :
    J.Holds (mergeByM less xs ys) (Every S) := by
  induction xs, ys using mergeByM.induct with
  | case1 ys => simp only [mergeByM]; exact .pure hys
  | case2 xs hne => cases xs <;> simp only [mergeByM] <;> exact .pure hxs
  | case3 x xs y ys ih₁ ih₂ =>
    simp only [mergeByM]
    refine (hless x y).bind fun b _ => ?_
    cases b
    · exact (ih₂ hxs hys.tail).bind fun zs hzs => .pure (.cons hys.head hzs)
    · exact (ih₁ hxs.tail hys).bind fun zs hzs => .pure (.cons hxs.head hzs)

omit hless in
theorem holds_not {x : m Bool} (h : J.Holds x fun _ => True) :
    J.Holds (do return !(← x)) fun _ => True :=
  h.bind fun _ _ => .pure trivial

theorem holds_mergeM {xs ys : List α} (hxs : Every S xs) (hys : Every S ys) :
    J.Holds (mergeM less xs ys) (Every S) := by
  unfold mergeM
  split
  · exact holds_mergeByM (fun x y => holds_not (hless y x)) hxs hys
  · exact (holds_mergeByM (fun x y => hless y x) hxs.reverse hys.reverse).bind fun zs hzs =>
      .pure hzs.reverse

theorem holds_takeOneM {xs ys : List α} (hxs : Every S xs) (hys : Every S ys) :
    J.Holds (takeOneM less xs ys) fun r => Every S r.1 ∧ Every S r.2.1 ∧ Every S r.2.2 := by
  unfold takeOneM
  split
  · exact .pure ⟨hys.take 1, .nil, hys.drop 1⟩
  · exact .pure ⟨.cons hxs.head .nil, hxs.tail, .nil⟩
  · refine (hless _ _).bind fun b _ => ?_
    cases b
    · exact .pure ⟨.cons hys.head .nil, hxs, hys.tail⟩
    · exact .pure ⟨.cons hxs.head .nil, hxs.tail, hys⟩

theorem holds_mergeEndsM [MonadExcept Disorder m] (hJ : J.Tolerates) (left right n : Nat)
    {xs ys sx sy : List α} (hxs : Every S xs) (hys : Every S ys) (hsx : Every S sx)
    (hsy : Every S sy) :
    J.Holds (mergeEndsM less left right n xs ys sx sy) (Every S) := by
  induction n generalizing xs ys sx sy with
  | zero =>
    unfold mergeEndsM
    split
    · exact .pure ((hxs.take _).append (hys.take _))
    · exact hJ _ _ _
  | succ n ih =>
    refine (holds_takeOneM (fun x y => holds_not (hless y x)) hxs hys).bind fun r hr => ?_
    refine (holds_takeOneM (fun x y => hless y x) hsx hsy).bind fun r' hr' => ?_
    exact (ih hr.2.1 hr.2.2 hr'.2.1 hr'.2.2).bind fun zs hzs =>
      .pure ((hr.1.append hzs).append hr'.1)

theorem holds_sortFourM {a b c d : α} (ha : S a) (hb : S b) (hc : S c) (hd : S d) :
    J.Holds (sortFourM less a b c d) (Every S) := by
  -- Each of the two pairs is put in order; from there on only its items matter.
  have hpair : ∀ (b : Bool) {x y : α}, S x → S y →
      S (if b then (y, x) else (x, y)).1 ∧ S (if b then (y, x) else (x, y)).2 := by
    intro b x y hx hy
    cases b
    · exact ⟨hx, hy⟩
    · exact ⟨hy, hx⟩
  refine (hless b a).bind fun b₁ _ => ?_
  have hab := hpair b₁ ha hb
  generalize (if b₁ = true then (b, a) else (a, b)) = ab at hab ⊢
  obtain ⟨a, b⟩ := ab
  refine (hless d c).bind fun b₂ _ => ?_
  have hcd := hpair b₂ hc hd
  generalize (if b₂ = true then (d, c) else (c, d)) = cd at hcd ⊢
  obtain ⟨c, d⟩ := cd
  refine (hless c a).bind fun b₃ _ => (hless d b).bind fun b₄ _ => ?_
  cases b₃ <;> cases b₄ <;> refine (hless _ _).bind fun b₅ _ => ?_ <;> cases b₅ <;>
    exact .pure (by simp [Every, hab.1, hab.2, hcd.1, hcd.2])

theorem holds_sortStartM {xs : List α} (hxs : Every S xs) :
    J.Holds (sortStartM less xs) (Every S) := by
  unfold sortStartM
  split
  · next a b c d =>
    simp only [Every, List.forall_mem_cons] at hxs
    exact holds_sortFourM hless hxs.1 hxs.2.1 hxs.2.2.1 hxs.2.2.2.1
  · exact .pure hxs

theorem holds_shortSortM [MonadExcept Disorder m] (hJ : J.Tolerates) {xs : List α}
    (hxs : Every S xs) :
    J.Holds (shortSortM less xs) (Every S) := by
  have hl := hxs.take (xs.length / 2)
  have hr := hxs.drop (xs.length / 2)
  simp only [shortSortM, List.splitAt_eq]
  refine (holds_sortStartM hless (hl.take _)).bind fun ls hls => ?_
  refine (holds_sortStartM hless (hr.take _)).bind fun rs hrs => ?_
  refine (holds_insertAllM hless hls (hl.drop _)).bind fun left hleft => ?_
  refine (holds_insertAllM hless hrs (hr.drop _)).bind fun right hright => ?_
  exact holds_mergeEndsM hless hJ _ _ _ hleft hright hleft.reverse hright.reverse

/-! ### Runs -/

theorem holds_runsOnM (down : Bool) (x : α) (xs : List α) :
    J.Holds (runsOnM less down x xs) fun _ => True := by
  induction xs generalizing x with
  | nil => exact .pure trivial
  | cons y ys ih =>
    refine (hless y x).bind fun b _ => ?_
    split
    · exact (ih y).bind fun _ _ => .pure trivial
    · exact .pure trivial

theorem holds_firstRunM (xs : List α) : J.Holds (firstRunM less xs) fun _ => True := by
  unfold firstRunM
  split
  · exact (hless _ _).bind fun b _ => (holds_runsOnM hless b _ _).bind fun _ _ => .pure trivial
  · exact .pure trivial

section
variable {make : List α → m (Run α)} {sort : List α → m (List α)}

theorem holds_nextRunM (hmake : ∀ xs, Every S xs → J.Holds (make xs) fun r => Every S r.items)
    (good : Nat) {xs : List α} (hxs : Every S xs) :
    J.Holds (nextRunM less good make xs) fun r => Every S r.items := by
  unfold nextRunM
  split
  · refine (holds_firstRunM hless xs).bind fun r _ => ?_
    obtain ⟨n, down⟩ := r
    dsimp only
    split
    · cases down
      · exact .pure (hxs.take n)
      · exact .pure (hxs.take n).reverse
    · exact hmake xs hxs
  · exact hmake xs hxs

variable (hsort : ∀ xs, Every S xs → J.Holds (sort xs) (Every S))
include hsort

omit hless in
theorem holds_settleM {r : Run α} (hr : Every S r.items) : J.Holds (r.settleM sort) (Every S) := by
  cases r with
  | sorted items => exact .pure hr
  | raw items => exact hsort items hr

theorem holds_joinM {r r' : Run α} (hr : Every S r.items) (hr' : Every S r'.items) :
    J.Holds (Run.joinM less sort r r') fun j => Every S j.items := by
  unfold Run.joinM
  split
  · exact .pure (hr.append hr')
  · refine (holds_settleM hsort hr).bind fun xs hxs => (holds_settleM hsort hr').bind
      fun ys hys => ?_
    exact (holds_mergeM hless hxs hys).bind fun zs hzs => .pure hzs

theorem holds_collapseM (depth : Nat) {pending : List (Run α × Nat)} {last : Run α}
    (hp : Every (fun p => Every S p.1.items) pending) (hl : Every S last.items) :
    J.Holds (collapseM less sort depth pending last)
      fun r => Every S r.1.items ∧ Every (fun p => Every S p.1.items) r.2 := by
  induction pending generalizing last with
  | nil => exact .pure ⟨hl, .nil⟩
  | cons p pending ih =>
    simp only [collapseM]
    split
    · exact (holds_joinM hless hsort hp.head hl).bind fun j hj => ih hp.tail hj
    · exact .pure ⟨hl, hp⟩

theorem holds_joinRunsM {next : List α → m (Run α)}
    (hnext : ∀ xs, Every S xs → J.Holds (next xs) fun r => Every S r.items) (n : Nat) {last : Run α}
    {pending : List (Run α × Nat)} {xs : List α} (hl : Every S last.items)
    (hp : Every (fun p => Every S p.1.items) pending) (hxs : Every S xs) :
    J.Holds (joinRunsM less sort next n last pending xs) fun r => Every S r.items := by
  induction hk : xs.length using Nat.strongRecOn generalizing last pending xs with
  | ind k ih =>
    subst hk
    cases xs with
    | nil =>
      rw [joinRunsM]
      exact (holds_collapseM hless hsort 0 hp hl).bind fun r hr => .pure hr.1
    | cons x xs =>
      rw [joinRunsM]
      refine (hnext _ hxs).bind fun run hrun => ?_
      refine (holds_collapseM hless hsort _ hp hl).bind fun r hr => ?_
      refine ih _ ?_ hrun (.cons hr.1 hr.2) (hxs.tail.drop _) rfl
      simp only [List.length_drop, List.length_cons]; omega

theorem holds_runSortM (hmake : ∀ xs, Every S xs → J.Holds (make xs) fun r => Every S r.items)
    {xs : List α} (hxs : Every S xs) : J.Holds (runSortM less make sort xs) (Every S) := by
  have hnext := fun ys (hys : Every S ys) => holds_nextRunM hless hmake (goodLength xs.length) hys
  refine (hnext xs hxs).bind fun run hrun => ?_
  exact (holds_joinRunsM hless hsort hnext _ hrun .nil (hxs.drop _)).bind fun r hr =>
    holds_settleM hsort hr

end

theorem holds_eagerSortM [MonadExcept Disorder m] (hJ : J.Tolerates) {xs : List α}
    (hxs : Every S xs) :
    J.Holds (eagerSortM less xs) (Every S) := by
  refine holds_runSortM hless (fun ys hys => holds_insertAllM hless .nil hys) (fun ys hys => ?_) hxs
  exact (holds_shortSortM hless hJ (hys.take _)).bind fun zs hzs => .pure hzs

/-! ### Partition -/

omit hless in
theorem holds_medianOfThreeM {lessAt : Nat → Nat → m Bool}
    (h : ∀ i j, J.Holds (lessAt i j) fun _ => True) (i j k : Nat) :
    J.Holds (medianOfThreeM lessAt i j k) fun _ => True := by
  refine (h i j).bind fun b _ => (h i k).bind fun b' _ => ?_
  split
  · exact (h j k).bind fun _ _ => .pure trivial
  · exact .pure trivial

omit hless in
theorem holds_medianM {lessAt : Nat → Nat → m Bool} (h : ∀ i j, J.Holds (lessAt i j) fun _ => True)
    (i j k size : Nat) : J.Holds (medianM lessAt i j k size) fun _ => True := by
  induction size using Nat.strongRecOn generalizing i j k with
  | ind size ih =>
    rw [medianM]
    split
    · exact holds_medianOfThreeM h i j k
    · have hlt : size / 8 < size := by omega
      exact (ih _ hlt _ _ _).bind fun i _ => (ih _ hlt _ _ _).bind fun j _ =>
        (ih _ hlt _ _ _).bind fun k _ => holds_medianOfThreeM h i j k

theorem holds_pivotPlaceM (xs : List α) : J.Holds (pivotPlaceM less xs) fun _ => True := by
  refine holds_medianM (fun i j => ?_) _ _ _ _
  split
  · exact hless _ _
  · exact .pure trivial

omit hless in
theorem holds_splitM {p : α → m Bool} (hp : ∀ x, J.Holds (p x) fun _ => True) {xs : List α}
    (hxs : Every S xs) : J.Holds (splitM p xs) fun r => Every S r.1 ∧ Every S r.2 := by
  induction xs with
  | nil => exact .pure ⟨.nil, .nil⟩
  | cons x xs ih =>
    refine (hp x).bind fun b _ => (ih hxs.tail).bind fun r hr => ?_
    cases b
    · exact .pure ⟨hr.1, .cons hxs.head hr.2⟩
    · exact .pure ⟨.cons hxs.head hr.1, hr.2⟩

omit hless in
theorem holds_splitSides {p : α → m Bool} (hp : ∀ x, J.Holds (p x) fun _ => True)
    {before behind : List α} (hb : Every S before) (hb' : Every S behind) {Q : β → Prop}
    {f : List α × List α → List α × List α → m β}
    (hf : ∀ a a', Every S a.1 ∧ Every S a.2 → Every S a'.1 ∧ Every S a'.2 → J.Holds (f a a') Q) :
    J.Holds (splitM p before >>= fun a => splitM p behind >>= fun a' => f a a') Q := by
  refine (holds_splitM hp hb).bind fun a ha => ?_
  exact (holds_splitM hp hb').bind fun a' ha' => hf a a' ha ha'

theorem holds_partitionSortM [MonadExcept Disorder m] (hJ : J.Tolerates) (splits : Nat)
    (bound : Option α) {xs : List α} (hxs : Every S xs) :
    J.Holds (partitionSortM less splits bound xs) (Every S) := by
  induction splits generalizing bound xs with
  | zero =>
    unfold partitionSortM
    split
    · exact holds_shortSortM hless hJ hxs
    · exact holds_eagerSortM hless hJ hxs
  | succ splits ih =>
    unfold partitionSortM
    split
    · exact holds_shortSortM hless hJ hxs
    refine (holds_pivotPlaceM hless xs).bind fun place _ => ?_
    have hdrop := hxs.drop place
    split
    · exact holds_eagerSortM hless hJ hxs
    next pivot behind hb =>
    rw [hb] at hdrop
    have hfinish : ∀ r : List α × List α, Every S r.1 ∧ Every S r.2 →
        J.Holds (if r.1.isEmpty then do
          let a ← splitM (fun x => do return !(← less pivot x)) (xs.take place)
          let a' ← splitM (fun x => do return !(← less pivot x)) behind
          return a.1 ++ pivot :: a'.1 ++ (← partitionSortM less splits none (a.2 ++ a'.2))
        else do
          let right ← partitionSortM less splits (some pivot) r.2
          return (← partitionSortM less splits bound r.1) ++ right) (Every S) := by
      intro r hr
      split
      · exact holds_splitSides (fun x => holds_not (hless pivot x)) (hxs.take place) hdrop.tail
          fun a a' ha ha' => (ih none (ha.2.append ha'.2)).bind fun zs hzs =>
            .pure ((ha.1.append (.cons hdrop.head ha'.1)).append hzs)
      · exact (ih _ hr.2).bind fun zs hzs => (ih _ hr.1).bind fun ys hys => .pure (hys.append hzs)
    have hrest : ∀ {finish : List α × List α → m (List α)} (least : Bool),
        (∀ r, Every S r.1 ∧ Every S r.2 → J.Holds (finish r) (Every S)) →
        J.Holds (if least then Pure.pure ([], xs) >>= finish else do
          let a ← splitM (less · pivot) (xs.take place)
          let a' ← splitM (less · pivot) behind
          Pure.pure (a.1 ++ a'.1, a.2 ++ pivot :: a'.2) >>= finish) (Every S) := by
      intro finish least hfinish
      split
      · exact (Judgement.Holds.pure ⟨.nil, hxs⟩).bind hfinish
      · refine holds_splitSides (fun x => hless x pivot) (hxs.take place) hdrop.tail
          fun a a' ha ha' => (Judgement.Holds.pure ⟨?_, ?_⟩).bind hfinish
        · exact ha.1.append ha'.1
        · exact ha.2.append (.cons hdrop.head ha'.2)
    cases bound with
    | none =>
      exact (Judgement.Holds.pure (P := fun _ => True) trivial).bind fun least _ =>
        hrest least hfinish
    | some b =>
      refine (hless b pivot).bind fun c _ => ?_
      exact (Judgement.Holds.pure (P := fun _ => True) trivial).bind fun least _ =>
        hrest least hfinish

end

/-! ### Whole lists -/

/-- Sorting does nothing that comparing does not do, and makes up no item. -/
theorem holds_sortM [MonadExcept Disorder m] (hJ : J.Tolerates) {S : α → Prop}
    {order : α → α → m Ordering} (ho : ∀ x y, J.Holds (order x y) fun _ => True) {xs : List α}
    (hxs : Every S xs) :
    J.Holds (sortM order xs) (Every S) := by
  have hless : ∀ x y, J.Holds (do return decide ((← order x y) = .lt)) fun _ => True :=
    fun x y => (ho x y).bind fun _ _ => .pure trivial
  unfold sortM
  split
  · exact holds_insertAllM hless .nil hxs
  split
  · exact holds_eagerSortM hless hJ hxs
  · exact holds_runSortM hless (fun ys hys => holds_partitionSortM hless hJ _ _ hys)
      (fun ys hys => Judgement.Holds.pure (a := Run.raw (ys.take _)) (hys.take _)) hxs

theorem holds_narrowM {p : α → m Bool} (hp : ∀ x, J.Holds (p x) fun _ => True) (xs : List α)
    (base size : Nat) : J.Holds (narrowM p xs base size) fun _ => True := by
  induction size using Nat.strongRecOn generalizing base with
  | ind size ih =>
    rw [narrowM]
    split
    · exact .pure trivial
    · refine Judgement.Holds.bind (P := fun _ => True) ?_ fun b _ => ih _ (by omega) _
      unfold holdsAtM
      split
      · exact .pure trivial
      · exact hp _

theorem holds_partitionPointM {p : α → m Bool} (hp : ∀ x, J.Holds (p x) fun _ => True)
    (xs : List α) :
    J.Holds (partitionPointM p xs) fun _ => True := by
  refine (holds_narrowM hp xs 0 xs.length).bind fun base _ => ?_
  refine Judgement.Holds.bind (P := fun _ => True) ?_ fun b _ => .pure trivial
  unfold holdsAtM
  split
  · exact .pure trivial
  · exact hp _

end LivePath
