import LivePath.Proofs.StableMerging

/-!
# Sorting is stable

If comparing tells the truth about a consistent order, then sorting is stable, whatever its length
makes of it (`sorts_sortM`): the runs that are found, made and joined, and the parts of a partition.
Bisection, asked where a predicate stops to hold, answers with that place (`finds_partitionPointM`).
-/

namespace LivePath

variable {m : Type → Type} [Monad m] {J : Judgement m} {α : Type} {S : α → Prop}
  {order : α → α → Ordering} {less : α → α → m Bool} {make : List α → m (Run α)}
  {sort : List α → m (List α)}

/-! ### Runs -/

/-- The items of a run belong to `S`, and if it is said to be sorted, it is. -/
def Run.Valid (order : α → α → Ordering) (S : α → Prop) : Run α → Prop
  | sorted items => Every S items ∧ Ascends order items
  | raw items => Every S items

/-- A run that a list can begin with: it rearranges a beginning of the list, which is not empty if
the list is not. -/
structure Run.Begins (order : α → α → Ordering) (S : α → Prop) (xs : List α) (r : Run α) :
    Prop where
  valid : r.Valid order S
  rearranges : Rearranges order (xs.take r.length) r.items
  pos : xs ≠ [] → 0 < r.length

/-- The items in pending runs, of which the nearest comes first. -/
def pendingItems : List (Run α × Nat) → List α
  | [] => []
  | p :: pending => pendingItems pending ++ p.1.items

theorem Run.Valid.every {r : Run α} (h : r.Valid order S) : Every S r.items := by
  cases r with
  | sorted items => exact h.1
  | raw items => exact h

theorem Run.begins_sorted [Std.TransCmp order] {xs zs : List α} {n : Nat} (hn : xs ≠ [] → 0 < n)
    (hxs : Every S xs) (h : Sorts order (xs.take n) zs) : (Run.sorted zs).Begins order S xs := by
  have hlen : zs.length = (xs.take n).length := h.rearranges.perm.length_eq.symm
  refine ⟨⟨h.every (hxs.take n), h.ascends⟩, ?_, fun hne => ?_⟩
  · show Rearranges order (xs.take zs.length) zs
    rw [hlen, List.length_take, ← List.take_eq_take_min]
    exact h.rearranges
  · show 0 < zs.length
    rw [hlen, List.length_take]
    exact Nat.lt_min.2 ⟨hn hne, List.length_pos_iff.2 hne⟩

theorem Run.begins_raw {xs : List α} {n : Nat} (hn : 0 < n) (hxs : Every S xs) :
    (Run.raw (xs.take n)).Begins order S xs := by
  refine ⟨hxs.take n, ?_, fun hne => ?_⟩
  · show Rearranges order (xs.take (xs.take n).length) (xs.take n)
    rw [List.length_take, ← List.take_eq_take_min]
    exact .refl order _
  · show 0 < (xs.take n).length
    rw [List.length_take]
    exact Nat.lt_min.2 ⟨hn, List.length_pos_iff.2 hne⟩

section
variable (hless : ∀ x y, S x → S y → J.Holds (less x y) (· = decide (order x y = .lt)))
include hless

theorem chains_runsOnM {down : Bool} {x : α} {xs : List α} (hx : S x) (hxs : Every S xs) :
    J.Holds (runsOnM less down x xs) fun n =>
      (x :: xs.take n).IsChain fun x y => decide (order y x = .lt) = down := by
  induction xs generalizing x with
  | nil => exact .pure (.singleton x)
  | cons y ys ih =>
    refine (hless y x hxs.head hx).bind fun b hb => ?_
    split
    next hdown => exact (ih hxs.head hxs.tail).bind fun n hn => .pure (.cons_cons (hb ▸ hdown) hn)
    · exact .pure (.singleton x)

theorem sorts_firstRunM [Std.TransCmp order] {xs : List α} (hxs : Every S xs) :
    J.Holds (firstRunM less xs) fun r => (xs ≠ [] → 0 < r.1) ∧
      Sorts order (xs.take r.1) (if r.2 then (xs.take r.1).reverse else xs.take r.1) := by
  rcases xs with - | ⟨x, - | ⟨y, ys⟩⟩
  · exact .pure ⟨absurd rfl, .of_ascends .nil⟩
  · exact .pure ⟨fun _ => Nat.one_pos, .of_ascends (List.pairwise_singleton ..)⟩
  · refine (hless y x hxs.tail.head hxs.head).bind fun down hdown => ?_
    refine (chains_runsOnM hless hxs.tail.head hxs.tail.tail).bind fun n hn =>
      .pure ⟨fun _ => by simp, ?_⟩
    have hchain : ((x :: y :: ys).take (n + 2)).IsChain fun x y =>
        decide (order y x = .lt) = down :=
      .cons_cons hdown.symm hn
    cases down with
    | true => exact .reverse_of_isChain (hchain.imp fun _ _ => of_decide_eq_true)
    | false =>
      exact .of_ascends
        (ascends_of_isChain (hchain.imp fun _ _ h => isLE_of_not_lt (of_decide_eq_false h)))

variable [Std.TransCmp order] [LawfulMonad m]

omit [LawfulMonad m] in
theorem begins_nextRunM (hmake : ∀ xs, Every S xs → J.Holds (make xs) (Run.Begins order S xs))
    (good : Nat) {xs : List α} (hxs : Every S xs) :
    J.Holds (nextRunM less good make xs) (Run.Begins order S xs) := by
  unfold nextRunM
  split
  · refine (sorts_firstRunM hless hxs).bind fun r hr => ?_
    obtain ⟨n, down⟩ := r
    dsimp only at hr ⊢
    split
    · exact .pure (Run.begins_sorted hr.1 hxs hr.2)
    · exact hmake xs hxs
  · exact hmake xs hxs

variable (hsort : ∀ xs, Every S xs → J.Holds (sort xs) (Sorts order xs))
include hsort

omit hless [Std.TransCmp order] [LawfulMonad m] in
theorem sorts_settleM {r : Run α} (hr : r.Valid order S) :
    J.Holds (r.settleM sort) (Sorts order r.items) := by
  cases r with
  | sorted items => exact .pure (.of_ascends hr.2)
  | raw items => exact hsort items hr

omit [LawfulMonad m] in
theorem rearranges_joinM {r r' : Run α} (hr : r.Valid order S) (hr' : r'.Valid order S) :
    J.Holds (Run.joinM less sort r r') fun j =>
      j.Valid order S ∧ Rearranges order (r.items ++ r'.items) j.items := by
  unfold Run.joinM
  split
  · exact .pure ⟨hr.every.append hr'.every, .refl order _⟩
  · refine (sorts_settleM hsort hr).bind fun xs hxs => (sorts_settleM hsort hr').bind
      fun ys hys => ?_
    have hx := hxs.every hr.every
    have hy := hys.every hr'.every
    refine (sorts_mergeM hless hx hy hxs.ascends hys.ascends).bind fun zs hzs => .pure ?_
    exact ⟨⟨hzs.every (hx.append hy), hzs.ascends⟩,
      (hxs.rearranges.append hys.rearranges).trans hzs.rearranges⟩

theorem rearranges_collapseM (depth : Nat) {pending : List (Run α × Nat)} {last : Run α}
    (hp : Every (fun p => p.1.Valid order S) pending) (hl : last.Valid order S) :
    J.Holds (collapseM less sort depth pending last) fun r =>
      r.1.Valid order S ∧ Every (fun p => p.1.Valid order S) r.2 ∧ (depth = 0 → r.2 = []) ∧
      Rearranges order (pendingItems pending ++ last.items) (pendingItems r.2 ++ r.1.items) := by
  induction pending generalizing last with
  | nil => exact .pure ⟨hl, .nil, fun _ => rfl, .refl order _⟩
  | cons p pending ih =>
    simp only [collapseM]
    split
    · refine (rearranges_joinM hless hsort hp.head hl).bind fun j hj => ?_
      refine (ih hp.tail hj.1).mono fun r hr => ⟨hr.1, hr.2.1, hr.2.2.1, ?_⟩
      have hjoin : Rearranges order (pendingItems (p :: pending) ++ last.items)
          (pendingItems pending ++ j.items) := by
        rw [pendingItems, List.append_assoc]
        exact .append (.refl order _) hj.2
      exact hjoin.trans hr.2.2.2
    · exact .pure ⟨hl, hp, fun hd => by omega, .refl order _⟩

theorem rearranges_joinRunsM {next : List α → m (Run α)}
    (hnext : ∀ xs, Every S xs → J.Holds (next xs) (Run.Begins order S xs)) (n : Nat) {last : Run α}
    {pending : List (Run α × Nat)} {xs : List α} (hl : last.Valid order S)
    (hp : Every (fun p => p.1.Valid order S) pending) (hxs : Every S xs) :
    J.Holds (joinRunsM less sort next n last pending xs) fun r =>
      r.Valid order S ∧ Rearranges order (pendingItems pending ++ last.items ++ xs) r.items := by
  -- The induction is on the length of the rest, of which the next run takes at least one item.
  induction hk : xs.length using Nat.strongRecOn generalizing last pending xs with
  | ind k ih =>
    subst hk
    cases xs with
    | nil =>
      rw [joinRunsM]
      refine (rearranges_collapseM hless hsort 0 hp hl).bind fun r hr => .pure ⟨hr.1, ?_⟩
      have hitems := hr.2.2.2
      rw [hr.2.2.1 rfl] at hitems
      simpa [pendingItems] using hitems
    | cons x xs =>
      rw [joinRunsM]
      refine (hnext _ hxs).bind fun run hrun => ?_
      refine (rearranges_collapseM hless hsort _ hp hl).bind fun r hr => ?_
      have hrest : xs.drop (run.length - 1) = (x :: xs).drop run.length := by
        obtain ⟨k, hk⟩ :=
          Nat.exists_eq_add_one_of_ne_zero (Nat.ne_of_gt (hrun.pos (List.cons_ne_nil x xs)))
        rw [hk]; rfl
      have hlt : (xs.drop (run.length - 1)).length < (x :: xs).length := by
        simp only [List.length_drop, List.length_cons]; omega
      refine (ih _ hlt hrun.valid (.cons hr.1 hr.2.1) (hxs.tail.drop _) rfl).mono
        fun r' hr' => ⟨hr'.1, ?_⟩
      have hparts := hr.2.2.2.append (.of_parts _ hrun.rearranges (.refl order _))
      rw [← List.append_assoc, ← hrest] at hparts
      exact hparts.trans hr'.2

theorem sorts_runSortM (hmake : ∀ xs, Every S xs → J.Holds (make xs) (Run.Begins order S xs))
    {xs : List α} (hxs : Every S xs) : J.Holds (runSortM less make sort xs) (Sorts order xs) := by
  have hnext := fun ys (hys : Every S ys) => begins_nextRunM hless hmake (goodLength xs.length) hys
  refine (hnext xs hxs).bind fun run hrun => ?_
  refine (rearranges_joinRunsM hless hsort hnext _ hrun.valid .nil (hxs.drop _)).bind fun r hr => ?_
  refine (sorts_settleM hsort hr.1).mono fun zs hzs => hzs.of_rearranges (.trans ?_ hr.2)
  exact .of_parts _ hrun.rearranges (.refl order _)

omit hsort in
theorem sorts_eagerSortM [MonadExcept Disorder m] {xs : List α} (hxs : Every S xs) :
    J.Holds (eagerSortM less xs) (Sorts order xs) := by
  refine sorts_runSortM hless (fun ys hys => sorts_insertAllM hless .nil hys .nil)
    (fun ys hys => ?_) hxs
  refine (sorts_shortSortM hless (hys.take _)).bind fun zs hzs => .pure ?_
  exact Run.begins_sorted (fun _ => by decide) hys hzs

end

/-! ### Partition -/

section
variable [LawfulMonad m] [Std.TransCmp order]
  (hless : ∀ x y, S x → S y → J.Holds (less x y) (· = decide (order x y = .lt)))
include hless

omit [Std.TransCmp order] in
theorem answers_pivotPlaceM {xs : List α} (hxs : Every S xs) :
    J.Holds (pivotPlaceM less xs) fun _ => True := by
  refine holds_medianM (fun i j => ?_) _ _ _ _
  split
  next x y hx hy =>
    exact (hless x y (hxs x (List.mem_of_getElem? hx)) (hxs y (List.mem_of_getElem? hy))).mono
      fun _ _ => trivial
  · exact .pure trivial

omit hless [LawfulMonad m] [Std.TransCmp order] in
theorem splits_splitM {ask : α → m Bool} {p : α → Bool} (hp : ∀ x, S x → J.Holds (ask x) (· = p x))
    {xs : List α} (hxs : Every S xs) :
    J.Holds (splitM ask xs) (· = (xs.filter p, xs.filter (!p ·))) := by
  induction xs with
  | nil => exact .pure rfl
  | cons x xs ih =>
    refine (hp x hxs.head).bind fun b hb => (ih hxs.tail).bind fun r hr => .pure ?_
    rw [hr, hb, List.filter_cons, List.filter_cons]
    cases p x <;> rfl

omit hless [LawfulMonad m] [Std.TransCmp order] in
theorem splits_sides {β : Type} {ask : α → m Bool} {p : α → Bool}
    (hp : ∀ x, S x → J.Holds (ask x) (· = p x)) {before behind : List α} (hb : Every S before)
    (hb' : Every S behind) {Q : β → Prop} {f : List α × List α → List α × List α → m β}
    (hf : J.Holds (f (before.filter p, before.filter (!p ·)) (behind.filter p,
      behind.filter (!p ·))) Q) :
    J.Holds (splitM ask before >>= fun a => splitM ask behind >>= fun a' => f a a') Q := by
  refine (splits_splitM hp hb).bind fun a ha => (splits_splitM hp hb').bind fun a' ha' => ?_
  rw [ha, ha']
  exact hf

omit [LawfulMonad m] in
/-- Where nothing is less than the pivot, what equals it is in order, and comes before the rest. -/
theorem sorts_equals {rest : List α → m (List α)}
    (hrest : ∀ xs, Every S xs → J.Holds (rest xs) (Sorts order xs)) {pivot : α}
    {before behind : List α} (hxs : Every S (before ++ pivot :: behind))
    (hle : ∀ x ∈ before ++ pivot :: behind, (order pivot x).isLE = true) :
    J.Holds (do
      let a ← splitM (fun x => do return !(← less pivot x)) before
      let a' ← splitM (fun x => do return !(← less pivot x)) behind
      return a.1 ++ pivot :: a'.1 ++ (← rest (a.2 ++ a'.2)))
        (Sorts order (before ++ pivot :: behind)) := by
  obtain ⟨hbefore, hbehind⟩ := every_append.1 hxs
  let p (x : α) : Bool := !decide (order pivot x = .lt)
  have hp (x : α) (hx : S x) : J.Holds (do return !(← less pivot x)) (· = p x) :=
    (hless pivot x hbehind.head hx).bind fun b hb => .pure (by rw [hb])
  have hequal (x : α) (hpx : p x = true) : (order x pivot).isLE = true :=
    isLE_of_not_lt (by simpa [p] using hpx)
  have hself : order pivot pivot = .eq := Std.ReflCmp.compare_self
  have hpivot : p pivot = true := by simp [p, hself]
  refine splits_sides hp hbefore hbehind.tail ((hrest _ ?_).bind fun zs hzs => .pure ?_)
  · exact (hbefore.filter _).append (hbehind.tail.filter _)
  · have hlow : (before ++ pivot :: behind).filter p = before.filter p ++ pivot ::
        behind.filter p := by
      rw [List.filter_append, List.filter_cons_of_pos hpivot]
    have hhigh : (before ++ pivot :: behind).filter (!p ·) = before.filter (!p ·) ++
        behind.filter (!p ·) := by
      rw [List.filter_append, List.filter_cons_of_neg (by simp [hpivot])]
    rw [← hhigh] at hzs
    rw [← hlow]
    refine .partition (fun x hx y hy hpx hpy => ?_) (.of_ascends ?_) hzs
    · exact Std.TransCmp.lt_of_isLE_of_lt (hequal x hpx) (by simpa [p] using hpy)
    · refine List.pairwise_of_forall_mem_list fun x hx y hy => ?_
      obtain ⟨-, hpx⟩ := List.mem_filter.1 hx
      exact Std.TransCmp.isLE_trans (hequal x hpx) (hle y (List.mem_of_mem_filter hy))

omit hless [LawfulMonad m] [Std.TransCmp order] in
theorem splits_around {β : Type} {ask : α → m Bool} {p : α → Bool}
    (hp : ∀ x, S x → J.Holds (ask x) (· = p x)) {pivot : α} {before behind : List α}
    (hxs : Every S (before ++ pivot :: behind)) (hpivot : p pivot = false) {least : Bool}
    (hleast : least = true → ∀ x ∈ before ++ pivot :: behind, p x = false) {Q : β → Prop}
    {finish : List α × List α → m β}
    (hfinish : ∀ r, r = ((before ++ pivot :: behind).filter p,
      (before ++ pivot :: behind).filter (!p ·)) → J.Holds (finish r) Q) :
    J.Holds (if least then Pure.pure ([], before ++ pivot :: behind) >>= finish else do
      let a ← splitM ask before
      let a' ← splitM ask behind
      Pure.pure (a.1 ++ a'.1, a.2 ++ pivot :: a'.2) >>= finish) Q := by
  split
  next h =>
    have hlow : (before ++ pivot :: behind).filter p = [] :=
      List.filter_eq_nil_iff.2 fun x hx => by simp [hleast h x hx]
    have hhigh : (before ++ pivot :: behind).filter (!p ·) = before ++ pivot :: behind :=
      List.filter_eq_self.2 fun x hx => by simp [hleast h x hx]
    exact (Judgement.Holds.pure rfl).bind fun r hr => hfinish r (by rw [hlow, hhigh, ← hr])
  next h =>
    obtain ⟨hbefore, hbehind⟩ := every_append.1 hxs
    refine splits_sides hp hbefore hbehind.tail ((Judgement.Holds.pure rfl).bind
      fun r hr => hfinish r ?_)
    rw [List.filter_append, List.filter_append, List.filter_cons_of_neg (by simp [hpivot]),
      List.filter_cons_of_pos (p := (!p ·)) (by simp [hpivot]), ← hr]

omit [LawfulMonad m] in
/-- What is less than the pivot is sorted apart from the rest. If nothing is, what equals the pivot
comes first. -/
theorem sorts_parts {sort : Option α → List α → m (List α)}
    (hsort : ∀ bound {xs}, Every S xs → (∀ b ∈ bound, S b ∧ ∀ x ∈ xs, (order b x).isLE = true) →
      J.Holds (sort bound xs) (Sorts order xs))
    {bound : Option α} {pivot : α} {before behind xs : List α}
    (hparts : before ++ pivot :: behind = xs) (hxs : Every S xs)
    (hbound : ∀ b ∈ bound, S b ∧ ∀ x ∈ xs, (order b x).isLE = true) {r : List α × List α}
    (hr : r = (xs.filter (fun x => order x pivot = .lt),
      xs.filter (fun x => !decide (order x pivot = .lt)))) :
    J.Holds (if r.1.isEmpty then do
      let a ← splitM (fun x => do return !(← less pivot x)) before
      let a' ← splitM (fun x => do return !(← less pivot x)) behind
      return a.1 ++ pivot :: a'.1 ++ (← sort none (a.2 ++ a'.2))
    else do
      let right ← sort (some pivot) r.2
      return (← sort bound r.1) ++ right) (Sorts order xs) := by
  subst hr
  have hpivot : S pivot := hxs pivot (by rw [← hparts]; simp)
  split
  next hempty =>
    subst hparts
    -- Nothing is less than the pivot, so that the pivot and its equals come first.
    refine sorts_equals hless (fun ys hys => hsort none hys (by simp)) hxs fun x hx => ?_
    have hpx := List.filter_eq_nil_iff.1 (List.isEmpty_iff.1 hempty) x hx
    exact isLE_of_not_lt (by simpa using hpx)
  · refine (hsort (some pivot) (hxs.filter _) ?_).bind fun right hright => ?_
    · intro b hb
      cases hb
      exact ⟨hpivot, fun x hx => isLE_of_not_lt (by simpa using (List.mem_filter.1 hx).2)⟩
    refine (hsort bound (hxs.filter _) ?_).bind fun left hleft => .pure (.partition ?_ hleft hright)
    · exact fun b hb => ⟨(hbound b hb).1, fun x hx => (hbound b hb).2 x (List.mem_of_mem_filter hx)⟩
    · intro x _ y _ hx hy
      exact Std.TransCmp.lt_of_lt_of_isLE (of_decide_eq_true hx)
        (isLE_of_not_lt (of_decide_eq_false hy))

theorem sorts_partitionSortM [MonadExcept Disorder m] (splits : Nat) (bound : Option α)
    {xs : List α} (hxs : Every S xs)
    (hbound : ∀ b ∈ bound, S b ∧ ∀ x ∈ xs, (order b x).isLE = true) :
    J.Holds (partitionSortM less splits bound xs) (Sorts order xs) := by
  induction splits generalizing bound xs with
  | zero =>
    unfold partitionSortM
    split
    · exact sorts_shortSortM hless hxs
    · exact sorts_eagerSortM hless hxs
  | succ splits ih =>
    unfold partitionSortM
    split
    · exact sorts_shortSortM hless hxs
    refine (answers_pivotPlaceM hless hxs).bind fun place _ => ?_
    split
    · exact sorts_eagerSortM hless hxs
    next pivot behind hdrop =>
    have hparts := List.take_append_drop place xs
    rw [hdrop] at hparts
    generalize xs.take place = before at hparts ⊢
    subst hparts
    clear hdrop
    have hpivot : S pivot := (every_append.1 hxs).2.head
    have hself : order pivot pivot = .eq := Std.ReflCmp.compare_self
    have hask (x : α) (hx : S x) := hless x pivot hx hpivot
    cases bound with
    | none =>
      refine (Judgement.Holds.pure rfl).bind fun least hl => ?_
      exact splits_around hask hxs (by simp [hself]) (by simp [hl]) fun r hr =>
        sorts_parts hless ih rfl hxs hbound hr
    | some b =>
      obtain ⟨hb, hle⟩ := hbound b rfl
      refine (hless b pivot hb hpivot).bind fun c hc => ?_
      refine (Judgement.Holds.pure (P := (· = !c)) rfl).bind fun least hl => ?_
      refine splits_around hask hxs (by simp [hself]) (fun h x hx => ?_) fun r hr =>
        sorts_parts hless ih rfl hxs hbound hr
      -- The bound is not less than the pivot and yet no greater than any item. So nothing is less
      -- than the pivot.
      have hnot : order b pivot ≠ .lt := fun hlt => by simp [hl, hc, hlt] at h
      have hpx := Std.TransCmp.isLE_trans (isLE_of_not_lt hnot) (hle x hx)
      exact decide_eq_false (Std.OrientedCmp.not_lt_of_isLE hpx)

end

/-! ### Whole lists -/

theorem goodLength_pos {n : Nat} (h : 0 < n) : 0 < goodLength n := by
  unfold goodLength
  split
  · omega
  · have hlog : 1 ≤ n.log2 := (Nat.le_log2 (by omega)).2 (by omega)
    have hroot : 2 ^ 1 ≤ 2 ^ ((1 + n.log2) / 2) := Nat.pow_le_pow_right (by omega) (by omega)
    rw [Nat.one_shiftLeft]
    generalize 2 ^ ((1 + n.log2) / 2) = root at hroot
    show 0 < (root + n / root) / 2
    generalize n / root = rest
    omega

theorem sorts_sortM [LawfulMonad m] [MonadExcept Disorder m] [Std.TransCmp order]
    {ask : α → α → m Ordering} (hask : ∀ x y, S x → S y → J.Holds (ask x y) (· = order x y))
    {xs : List α} (hxs : Every S xs) :
    J.Holds (sortM ask xs) (Sorts order xs) := by
  have hless : ∀ x y, S x → S y →
      J.Holds (do return decide ((← ask x y) = .lt)) (· = decide (order x y = .lt)) :=
    fun x y hx hy => (hask x y hx hy).bind fun o ho => .pure (by rw [ho])
  unfold sortM
  split
  · exact sorts_insertAllM hless .nil hxs .nil
  split
  · exact sorts_eagerSortM hless hxs
  · refine sorts_runSortM hless (fun ys hys => sorts_partitionSortM hless _ none hys (by simp))
      (fun ys hys => ?_) hxs
    exact .pure (Run.begins_raw (goodLength_pos (by omega)) hys)

/-! ### Bisection -/

section
variable {ask : α → m Bool} {p : α → Bool} (hask : ∀ x, S x → J.Holds (ask x) (· = p x))
  {xs ys : List α} (hxs : Every S (xs ++ ys)) (hp : ∀ x ∈ xs, p x = true)
  (hp' : ∀ y ∈ ys, p y = false)
include hask hxs hp hp'

theorem answers_holdsAtM (i : Nat) :
    J.Holds (holdsAtM ask (xs ++ ys) i) (· = decide (i < xs.length)) := by
  unfold holdsAtM
  split
  next hnone =>
    have hle := List.getElem?_eq_none_iff.1 hnone
    rw [List.length_append] at hle
    exact .pure (decide_eq_false (by omega)).symm
  next x hx =>
    have hpx : p x = decide (i < xs.length) := by
      by_cases hi : i < xs.length
      · rw [List.getElem?_append_left hi] at hx
        rw [decide_eq_true hi, hp x (List.mem_of_getElem? hx)]
      · rw [List.getElem?_append_right (Nat.le_of_not_lt hi)] at hx
        rw [decide_eq_false hi, hp' x (List.mem_of_getElem? hx)]
    rw [← hpx]
    exact hask x (hxs x (List.mem_of_getElem? hx))

/-- The stretch that is left always contains the place, or ends there. -/
theorem finds_narrowM {base size : Nat} (hbase : base ≤ xs.length)
    (hsize : xs.length ≤ base + size) :
    J.Holds (narrowM ask (xs ++ ys) base size) fun i => i ≤ xs.length ∧ xs.length ≤ i + 1 := by
  induction size using Nat.strongRecOn generalizing base with
  | ind size ih =>
    rw [narrowM]
    split
    · exact .pure ⟨hbase, by omega⟩
    · refine (answers_holdsAtM hask hxs hp hp' _).bind fun b hb => ?_
      by_cases h : base + size / 2 < xs.length
      · rw [hb, decide_eq_true h, if_pos rfl]
        exact ih _ (by omega) (Nat.le_of_lt h) (by omega)
      · rw [hb, decide_eq_false h, if_neg Bool.false_ne_true]
        exact ih _ (by omega) hbase (by omega)

/-- Where `p` holds in front only, bisection counts the items there. -/
theorem finds_partitionPointM : J.Holds (partitionPointM ask (xs ++ ys)) (· = xs.length) := by
  refine (finds_narrowM hask hxs hp hp' (Nat.zero_le _) (by simp)).bind fun base hbase => ?_
  refine (answers_holdsAtM hask hxs hp hp' base).bind fun b hb => .pure ?_
  by_cases h : base < xs.length
  · rw [hb, decide_eq_true h]
    exact Nat.le_antisymm h hbase.2
  · rw [hb, decide_eq_false h]
    exact Nat.le_antisymm hbase.1 (Nat.le_of_not_lt h)

end
end LivePath
