import LivePath.Proofs.StableOrder

/-!
# Merging is stable

Whatever else comparing does, if it tells the truth about a consistent order, then a short list is
sorted stably (`sorts_shortSortM`): insertion and merging from the front, from the back or from both
ends rearrange items only where these are not equal. A judgement carries this through the
computations, since each depends on the answers alone. Merging from both ends asks about items that
the other end has taken already; that it takes none twice is an invariant of its own (`Middle`).
-/

namespace LivePath

variable {m : Type → Type} [Monad m] {J : Judgement m} {α : Type} {S : α → Prop}
  {order : α → α → Ordering} [Std.TransCmp order] {less : α → α → m Bool}

section
variable (hless : ∀ x y, S x → S y → J.Holds (less x y) (· = decide (order x y = .lt)))
include hless

/-! ### Insertion -/

theorem sorts_insertBackM {x : α} {ys : List α} (hx : S x) (hys : Every S ys)
    (ha : Ascends order ys.reverse) :
    J.Holds (insertBackM less x ys) fun zs => Sorts order (ys.reverse ++ [x]) zs.reverse := by
  induction ys with
  | nil => exact .pure (.of_ascends (List.pairwise_singleton ..))
  | cons y ys ih =>
    rw [List.reverse_cons] at ha ⊢
    obtain ⟨hrest, -, hy⟩ := ascends_append.1 ha
    have hle : ∀ z ∈ ys.reverse, (order z y).isLE = true :=
      fun z hz => hy z hz y (List.mem_singleton_self y)
    refine (hless x y hx hys.head).bind fun b hb => ?_
    by_cases hxy : order x y = .lt
    · rw [hb, decide_eq_true hxy]
      refine (ih hys.tail hrest).bind fun zs hzs => .pure ?_
      rw [List.reverse_cons]
      have hswap : Rearranges order (ys.reverse ++ ([y] ++ [x])) (ys.reverse ++ ([x] ++ [y])) :=
        (Rearranges.refl order _).append (.swap (ne_eq_of_gt hxy))
      rw [← List.append_assoc, ← List.append_assoc] at hswap
      refine .of_rearranges hswap (hzs.snoc ?_)
      exact List.forall_mem_append.2 ⟨hle, List.forall_mem_singleton.2 (isLE_of_lt hxy)⟩
    · rw [hb, decide_eq_false hxy]
      have hyx := isLE_of_not_lt hxy
      refine .pure ?_
      rw [List.reverse_cons, List.reverse_cons]
      refine (Sorts.of_ascends ha).snoc
        (List.forall_mem_append.2 ⟨fun z hz => ?_, List.forall_mem_singleton.2 hyx⟩)
      exact Std.TransCmp.isLE_trans (hle z hz) hyx

theorem sorts_insertAllM {sorted xs : List α} (hs : Every S sorted) (hxs : Every S xs)
    (ha : Ascends order sorted) :
    J.Holds (insertAllM less sorted xs) (Sorts order (sorted ++ xs)) := by
  have hfold : ∀ {xs back done : List α}, Every S xs → Every S back →
      Sorts order done back.reverse →
      J.Holds (xs.foldlM (fun back x => insertBackM less x back) back)
        fun r => Sorts order (done ++ xs) r.reverse := by
    intro xs
    induction xs with
    | nil =>
      intro back done _ _ hd
      rw [List.append_nil]
      exact .pure hd
    | cons x xs ih =>
      intro back done hxs hb hd
      rw [List.foldlM_cons, List.append_cons]
      refine (sorts_insertBackM hless hxs.head hb hd.ascends).bind fun back' hb' => ?_
      have hevery := (hb'.every (hb.reverse.append (.cons hxs.head .nil))).reverse
      rw [List.reverse_reverse] at hevery
      exact ih hxs.tail hevery (hb'.of_rearranges (hd.rearranges.append (.refl order [x])))
  have hback : Sorts order sorted sorted.reverse.reverse := by
    rw [List.reverse_reverse]; exact .of_ascends ha
  exact (hfold hxs hs.reverse hback).bind fun r hr => .pure hr

/-! ### Merging -/

omit hless in
/-- Where `first` lets items of the first list go in front, and equal ones only if `tie`. -/
theorem sorts_mergeByM {first : α → α → m Bool} (tie : Bool)
    (hfirst : ∀ x y, S x → S y →
      J.Holds (first x y) (· = if tie then (order x y).isLE else order x y = .lt))
    {xs ys : List α} (hxs : Every S xs) (hys : Every S ys) (hx : Ascends order xs)
    (hy : Ascends order ys) :
    J.Holds (mergeByM first xs ys) (Sorts order (if tie then xs ++ ys else ys ++ xs)) := by
  induction xs, ys using mergeByM.induct with
  | case1 ys =>
    simp only [mergeByM, List.nil_append, List.append_nil, ite_self]
    exact .pure (.of_ascends hy)
  | case2 xs hne =>
    simp only [List.nil_append, List.append_nil, ite_self]
    cases xs <;> simp only [mergeByM] <;> exact .pure (.of_ascends hx)
  | case3 x xs y ys ih₁ ih₂ =>
    obtain ⟨hxx, hx'⟩ := ascends_cons.1 hx
    obtain ⟨hyy, hy'⟩ := ascends_cons.1 hy
    simp only [mergeByM]
    refine (hfirst x y hxs.head hys.head).bind fun b hb => ?_
    cases b with
    | true =>
      refine (ih₁ hxs.tail hys hx' hy).bind fun zs hzs => .pure ?_
      cases tie with
      | true =>
        have hxy : (order x y).isLE = true := hb.symm
        exact hzs.cons (List.forall_mem_append.2 ⟨hxx, hy.isLE_all (by simpa using hxy)⟩)
      | false =>
        have hxy : order x y = .lt := of_decide_eq_true hb.symm
        exact hzs.cons_between (hy.lt_all (by simpa using hxy)) hxx
    | false =>
      refine (ih₂ hxs hys.tail hx hy').bind fun zs hzs => .pure ?_
      cases tie with
      | true =>
        have hyx : order y x = .lt := lt_of_not_isLE hb.symm
        exact hzs.cons_between (hx.lt_all (by simpa using hyx)) hyy
      | false =>
        have hyx : (order y x).isLE = true := isLE_of_not_lt (of_decide_eq_false hb.symm)
        exact hzs.cons (List.forall_mem_append.2 ⟨hyy, hx.isLE_all (by simpa using hyx)⟩)

theorem sorts_mergeM {xs ys : List α} (hxs : Every S xs) (hys : Every S ys) (hx : Ascends order xs)
    (hy : Ascends order ys) : J.Holds (mergeM less xs ys) (Sorts order (xs ++ ys)) := by
  unfold mergeM
  split
  · refine sorts_mergeByM true (fun x y hx hy => (hless y x hy hx).bind fun b hb =>
      .pure ?_) hxs hys hx hy
    rw [hb]; exact not_lt_eq_isLE x y
  · -- The same from the back, where the later of two equal items goes first.
    have hback : J.Holds (mergeByM (fun x y => less y x) xs.reverse ys.reverse)
        (Sorts (fun x y => order y x) (ys.reverse ++ xs.reverse)) :=
      sorts_mergeByM false (fun x y hx hy => hless y x hy hx) hxs.reverse hys.reverse
        (List.pairwise_reverse.2 hx) (List.pairwise_reverse.2 hy)
    refine hback.bind fun zs hzs => .pure (.of_flip ?_)
    rw [List.reverse_append]
    exact hzs

end

/-! ### Merging from both ends -/

/-- An item is taken from the front of `L` or of `R`, as long as one of them is left, and never from
behind them. -/
theorem takes_takeOneM {first : α → α → m Bool} {p : α → α → Bool}
    (hfirst : ∀ x y, S x → S y → J.Holds (first x y) (· = p x y)) {L R B D : List α}
    (hl : Every S (L ++ B)) (hr : Every S (R ++ D)) (hne : L ++ R ≠ [])
    (hb : ∀ b ∈ B, ∀ r ∈ R, p b r = false) (hd : ∀ l ∈ L, ∀ d ∈ D, p l d = true) :
    J.Holds (takeOneM first (L ++ B) (R ++ D)) fun t => ∃ f, t.1 = [f] ∧
      ((∃ L', L = f :: L' ∧ t.2 = (L' ++ B, R ++ D) ∧ ∀ r ∈ R.head?, p f r = true) ∨
        ∃ R', R = f :: R' ∧ t.2 = (L ++ B, R' ++ D) ∧ ∀ l ∈ L.head?, p l f = false) := by
  cases L with
  | nil =>
    cases R with
    | nil => exact absurd rfl hne
    | cons r R =>
      have hsecond : ∃ R', r :: R = r :: R' ∧ (B, R ++ D) = (B, R' ++ D) ∧
          ∀ l ∈ ([] : List α).head?, p l r = false := ⟨R, rfl, rfl, nofun⟩
      cases B with
      | nil => exact .pure ⟨r, rfl, .inr hsecond⟩
      | cons b B =>
        have hbr := hb b (List.mem_cons_self ..) r (List.mem_cons_self ..)
        refine (hfirst b r hl.head hr.head).bind fun c hc => ?_
        rw [hc, hbr]
        exact .pure ⟨r, rfl, .inr hsecond⟩
  | cons l L =>
    cases R with
    | nil =>
      have hfirst' : ∃ L', l :: L = l :: L' ∧ (L ++ B, D) = (L' ++ B, D) ∧
          ∀ r ∈ ([] : List α).head?, p l r = true := ⟨L, rfl, rfl, nofun⟩
      cases D with
      | nil => exact .pure ⟨l, rfl, .inl hfirst'⟩
      | cons d D =>
        have hld := hd l (List.mem_cons_self ..) d (List.mem_cons_self ..)
        refine (hfirst l d hl.head hr.head).bind fun c hc => ?_
        rw [hc, hld]
        exact .pure ⟨l, rfl, .inl hfirst'⟩
    | cons r R =>
      refine (hfirst l r hl.head hr.head).bind fun c hc => ?_
      cases hp : p l r with
      | true =>
        rw [hc, hp]
        exact .pure ⟨l, rfl, .inl ⟨L, rfl, rfl, fun r' hr' => by cases hr'; exact hp⟩⟩
      | false =>
        rw [hc, hp]
        exact .pure ⟨r, rfl, .inr ⟨R, rfl, rfl, fun l' hl' => by cases hl'; exact hp⟩⟩

/-- Of two sorted lists, `A` and `C` were taken from the front and `B` and `D` from the back. What
is left of them, `L` and `R`, comes between. -/
structure Middle (order : α → α → Ordering) (A L B C R D : List α) : Prop where
  first : Ascends order (A ++ L ++ B)
  second : Ascends order (C ++ R ++ D)
  front_first : ∀ a ∈ A, ∀ r ∈ R, (order a r).isLE = true
  front_second : ∀ c ∈ C, ∀ l ∈ L, order c l = .lt
  back_first : ∀ r ∈ R, ∀ b ∈ B, order r b = .lt
  back_second : ∀ l ∈ L, ∀ d ∈ D, (order l d).isLE = true

namespace Middle
variable {A L B C R D zs : List α} {f : α}

omit [Std.TransCmp order] in
theorem flip (h : Middle order A L B C R D) :
    Middle (fun x y => order y x) D.reverse R.reverse C.reverse B.reverse L.reverse A.reverse := by
  refine ⟨?_, ?_, ?_, ?_, ?_, ?_⟩
  · rw [← List.reverse_append, ← List.reverse_append, ← List.append_assoc]
    exact List.pairwise_reverse.2 h.second
  · rw [← List.reverse_append, ← List.reverse_append, ← List.append_assoc]
    exact List.pairwise_reverse.2 h.first
  · exact fun d hd l hl => h.back_second l (List.mem_reverse.1 hl) d (List.mem_reverse.1 hd)
  · exact fun b hb r hr => h.back_first r (List.mem_reverse.1 hr) b (List.mem_reverse.1 hb)
  · exact fun l hl c hc => h.front_second c (List.mem_reverse.1 hc) l (List.mem_reverse.1 hl)
  · exact fun r hr a ha => h.front_first a (List.mem_reverse.1 ha) r (List.mem_reverse.1 hr)

omit [Std.TransCmp order] in
theorem ascends_left (h : Middle order A L B C R D) : Ascends order L :=
  (ascends_append.1 (ascends_append.1 h.first).1).2.1

omit [Std.TransCmp order] in
theorem ascends_right (h : Middle order A L B C R D) : Ascends order R :=
  (ascends_append.1 (ascends_append.1 h.second).1).2.1

theorem takeFirst (h : Middle order A (f :: L) B C R D)
    (hf : ∀ r ∈ R.head?, (order f r).isLE = true) :
    Middle order (A ++ [f]) L B C R D ∧ ∀ zs, Sorts order (L ++ R) zs →
      Sorts order (f :: L ++ R) (f :: zs) := by
  have hright := h.ascends_right.isLE_all hf
  refine ⟨⟨?_, h.second, ?_, fun c hc l hl => h.front_second c hc l (List.mem_cons_of_mem _ hl),
    h.back_first, fun l hl => h.back_second l (List.mem_cons_of_mem _ hl)⟩,
      fun zs hzs => hzs.cons ?_⟩
  · rw [List.append_assoc A]; exact h.first
  · exact List.forall_mem_append.2 ⟨h.front_first, List.forall_mem_singleton.2 hright⟩
  · exact List.forall_mem_append.2 ⟨(ascends_cons.1 h.ascends_left).1, hright⟩

theorem takeSecond (h : Middle order A L B C (f :: R) D) (hf : ∀ l ∈ L.head?, order f l = .lt) :
    Middle order A L B (C ++ [f]) R D ∧ ∀ zs, Sorts order (L ++ R) zs →
      Sorts order (L ++ f :: R) (f :: zs) := by
  have hleft := h.ascends_left.lt_all hf
  refine ⟨⟨h.first, ?_, fun a ha r hr => h.front_first a ha r (List.mem_cons_of_mem _ hr), ?_,
    fun r hr => h.back_first r (List.mem_cons_of_mem _ hr), h.back_second⟩, fun zs hzs => ?_⟩
  · rw [List.append_assoc C]; exact h.second
  · exact List.forall_mem_append.2 ⟨h.front_second, List.forall_mem_singleton.2 hleft⟩
  · exact hzs.cons_between hleft (ascends_cons.1 h.ascends_right).1

theorem takeLastSecond (h : Middle order A L B C (R ++ [f]) D)
    (hf : ∀ l ∈ L.getLast?, (order l f).isLE = true) :
    Middle order A L B C R (f :: D) ∧
      ∀ zs, Sorts order (L ++ R) zs → Sorts order (L ++ (R ++ [f])) (zs ++ [f]) := by
  have hflip := h.flip
  rw [List.reverse_concat] at hflip
  obtain ⟨hmiddle, hsorts⟩ := hflip.takeFirst fun l hl => hf l (by rwa [List.head?_reverse] at hl)
  refine ⟨by simpa using hmiddle.flip, fun zs hzs => ?_⟩
  have hback := hsorts zs.reverse (by simpa using hzs.flip)
  simpa using hback.flip

theorem takeLastFirst (h : Middle order A (L ++ [f]) B C R D)
    (hf : ∀ r ∈ R.getLast?, order r f = .lt) :
    Middle order A L (f :: B) C R D ∧
      ∀ zs, Sorts order (L ++ R) zs → Sorts order (L ++ [f] ++ R) (zs ++ [f]) := by
  have hflip := h.flip
  rw [List.reverse_concat] at hflip
  obtain ⟨hmiddle, hsorts⟩ := hflip.takeSecond fun r hr => hf r (by rwa [List.head?_reverse] at hr)
  refine ⟨by simpa using hmiddle.flip, fun zs hzs => ?_⟩
  have hback := hsorts zs.reverse (by simpa using hzs.flip)
  simpa using hback.flip

end Middle

section
variable [LawfulMonad m]
  (hless : ∀ x y, S x → S y → J.Holds (less x y) (· = decide (order x y = .lt)))
include hless

theorem takes_front {A L B C R D : List α} (h : Middle order A L B C R D) (hl : Every S (L ++ B))
    (hr : Every S (R ++ D)) (hne : L ++ R ≠ []) :
    J.Holds (takeOneM (fun x y => return !(← less y x)) (L ++ B) (R ++ D)) fun t => ∃ A' L' C' R',
      A' ++ L' = A ++ L ∧ C' ++ R' = C ++ R ∧ (L' ++ R').length + 1 = (L ++ R).length ∧
      t.2 = (L' ++ B, R' ++ D) ∧
      Middle order A' L' B C' R' D ∧ ∀ zs, Sorts order (L' ++ R') zs →
      Sorts order (L ++ R) (t.1 ++ zs) := by
  have hfirst : ∀ x y, S x → S y → J.Holds (do return !(← less y x)) (· = (order x y).isLE) :=
    fun x y hx hy => (hless y x hy hx).bind fun b hb => .pure (by rw [hb]; exact not_lt_eq_isLE x y)
  have hback : ∀ b ∈ B, ∀ r ∈ R, (order b r).isLE = false :=
    fun b hb r hr => Bool.eq_false_iff.2 (Std.OrientedCmp.not_isLE_of_lt (h.back_first r hr b hb))
  refine (takes_takeOneM hfirst hl hr hne hback h.back_second).mono ?_
  rintro ⟨-, -⟩ ⟨f, rfl, ⟨L', rfl, rfl, hf⟩ | ⟨R', rfl, rfl, hf⟩⟩
  · obtain ⟨hmiddle, hsorts⟩ := h.takeFirst hf
    exact ⟨A ++ [f], L', C, R, by simp, rfl, by simp, rfl, hmiddle, hsorts⟩
  · obtain ⟨hmiddle, hsorts⟩ := h.takeSecond fun l hl => lt_of_not_isLE (hf l hl)
    exact ⟨A, L, C ++ [f], R', rfl, by simp, by simp; omega, rfl, hmiddle, hsorts⟩

theorem takes_back {A L B C R D : List α} (h : Middle order A L B C R D) (hl : Every S (A ++ L))
    (hr : Every S (C ++ R)) (hne : L ++ R ≠ []) :
    J.Holds (takeOneM (fun x y => less y x) (A ++ L).reverse (C ++ R).reverse)
      fun t => ∃ L' B' R' D',
      L' ++ B' = L ++ B ∧ R' ++ D' = R ++ D ∧ (L' ++ R').length + 1 = (L ++ R).length ∧
      t.2 = ((A ++ L').reverse, (C ++ R').reverse) ∧
      Middle order A L' B' C R' D' ∧ ∀ zs, Sorts order (L' ++ R') zs →
      Sorts order (L ++ R) (zs ++ t.1) := by
  have hback : ∀ a ∈ A.reverse, ∀ r ∈ R.reverse, decide (order r a = .lt) = false :=
    fun a ha r hr => decide_eq_false <| Std.OrientedCmp.not_lt_of_isLE <|
      h.front_first a (List.mem_reverse.1 ha) r (List.mem_reverse.1 hr)
  have hfront : ∀ l ∈ L.reverse, ∀ c ∈ C.reverse, decide (order c l = .lt) = true :=
    fun l hl c hc => decide_eq_true <|
      h.front_second c (List.mem_reverse.1 hc) l (List.mem_reverse.1 hl)
  rw [List.reverse_append, List.reverse_append]
  have hne' : L.reverse ++ R.reverse ≠ [] := by simpa [and_comm] using hne
  have hl' : Every S (L.reverse ++ A.reverse) := by simpa using hl.reverse
  have hr' : Every S (R.reverse ++ C.reverse) := by simpa using hr.reverse
  refine (takes_takeOneM (fun x y hx hy => hless y x hy hx) hl' hr' hne' hback hfront).mono ?_
  rintro ⟨-, -⟩ ⟨f, rfl, ⟨L', hL, rfl, hf⟩ | ⟨R', hR, rfl, hf⟩⟩
  · obtain rfl : L = L'.reverse ++ [f] := by simpa using congrArg List.reverse hL
    obtain ⟨hmiddle, hsorts⟩ :=
      h.takeLastFirst fun r hr => of_decide_eq_true (hf r (by rwa [List.head?_reverse]))
    exact ⟨L'.reverse, f :: B, R, D, by simp, rfl, by simp; omega, by simp, hmiddle, hsorts⟩
  · obtain rfl : R = R'.reverse ++ [f] := by simpa using congrArg List.reverse hR
    obtain ⟨hmiddle, hsorts⟩ := h.takeLastSecond fun l hl =>
      isLE_of_not_lt (of_decide_eq_false (hf l (by rwa [List.head?_reverse])))
    exact ⟨L, B, R'.reverse, f :: D, rfl, by simp, by simp; omega, by simp, hmiddle, hsorts⟩

/-- What is left between both ends is sorted by `n` steps, if it has twice as many items or one
more. -/
theorem sorts_mergeEndsM [MonadExcept Disorder m] {A L B C R D : List α} {n : Nat}
    (h : Middle order A L B C R D) (hl : Every S (A ++ L ++ B)) (hr : Every S (C ++ R ++ D))
    (hn : 2 * n ≤ (L ++ R).length) (hn' : (L ++ R).length ≤ 2 * n + 1) :
    J.Holds (mergeEndsM less (A ++ L ++ B).length (C ++ R ++ D).length n (L ++ B) (R ++ D)
      (A ++ L).reverse
      (C ++ R).reverse) (Sorts order (L ++ R)) := by
  induction n generalizing A L B C R D with
  | zero =>
    have hleft : (L ++ B).length + (A ++ L).reverse.length = (A ++ L ++ B).length + L.length := by
      simp; omega
    have hright : (R ++ D).length + (C ++ R).reverse.length = (C ++ R ++ D).length + R.length := by
      simp; omega
    unfold mergeEndsM
    -- The ends have not passed each other: what was taken at neither is all that is left.
    rw [hleft, hright, if_pos ⟨Nat.le_add_right .., Nat.le_add_right ..⟩, Nat.add_sub_cancel_left,
      Nat.add_sub_cancel_left, List.take_left, List.take_left]
    exact .pure (.of_ascends (ascends_of_length_le_one hn'))
  | succ n ih =>
    have hne : L ++ R ≠ [] := List.ne_nil_of_length_pos (by omega)
    have hl' := hl
    have hr' := hr
    rw [List.append_assoc] at hl' hr'
    refine (takes_front hless h (every_append.1 hl').2 (every_append.1 hr').2 hne).bind ?_
    rintro ⟨front, -, -⟩ ⟨A', L', C', R', hA, hC, hlen, ⟨⟩, hmiddle, hfront⟩
    have hne' : L' ++ R' ≠ [] := List.ne_nil_of_length_pos (by omega)
    rw [← hA] at hl ⊢
    rw [← hC] at hr ⊢
    refine (takes_back hless hmiddle (every_append.1 hl).1 (every_append.1 hr).1 hne').bind ?_
    rintro ⟨back, -, -⟩ ⟨L'', B', R'', D', hB, hD, hlen', ⟨⟩, hmiddle', hback⟩
    have hleft : A' ++ L' ++ B = A' ++ L'' ++ B' := by
      rw [List.append_assoc, ← hB, List.append_assoc]
    have hright : C' ++ R' ++ D = C' ++ R'' ++ D' := by
      rw [List.append_assoc, ← hD, List.append_assoc]
    rw [hleft] at hl
    rw [hright] at hr
    rw [hleft, hright, ← hB, ← hD]
    refine (ih hmiddle' hl hr (by omega) (by omega)).bind fun zs hzs => .pure ?_
    rw [List.append_assoc]
    exact hfront _ (hback _ hzs)

theorem sorts_mergeBothWaysM [MonadExcept Disorder m] {xs ys : List α} (hxs : Every S xs)
    (hys : Every S ys) (hx : Ascends order xs) (hy : Ascends order ys)
    (hlen : xs.length ≤ ys.length) (hlen' : ys.length ≤ xs.length + 1) :
    J.Holds (mergeBothWaysM less xs ys) (Sorts order (xs ++ ys)) := by
  have hmiddle : Middle order [] xs [] [] ys [] :=
    ⟨by simpa using hx, by simpa using hy, nofun, nofun, fun _ _ => nofun, fun _ _ => nofun⟩
  have hends := sorts_mergeEndsM hless (n := xs.length) hmiddle (by simpa using hxs)
    (by simpa using hys) (by simp; omega) (by simp; omega)
  simpa [mergeBothWaysM] using hends

/-! ### Short lists -/

omit [LawfulMonad m] hless in
theorem sorts_pair {b : Bool} {x y : α} (hb : b = decide (order y x = .lt)) (hx : S x) (hy : S y)
    {p : α × α} (hp : (if b then (y, x) else (x, y)) = p) :
    S p.1 ∧ S p.2 ∧ (order p.1 p.2).isLE = true ∧ Rearranges order [x, y] [p.1, p.2] := by
  subst hp
  by_cases h : order y x = .lt
  · rw [hb, decide_eq_true h]
    exact ⟨hy, hx, isLE_of_lt h, .swap (ne_eq_of_gt h)⟩
  · rw [hb, decide_eq_false h]
    exact ⟨hx, hy, isLE_of_not_lt h, .refl order [x, y]⟩

omit [LawfulMonad m] in
theorem sorts_sortFourM {a b c d : α} (ha : S a) (hb : S b) (hc : S c) (hd : S d) :
    J.Holds (sortFourM less a b c d) (Sorts order [a, b, c, d]) := by
  refine (hless b a hb ha).bind fun b₁ hb₁ => ?_
  generalize hp : (if b₁ = true then (b, a) else (a, b)) = p
  obtain ⟨ha', hb', hab, hr⟩ := sorts_pair hb₁ ha hb hp
  refine (hless d c hd hc).bind fun b₂ hb₂ => ?_
  generalize hq : (if b₂ = true then (d, c) else (c, d)) = q
  obtain ⟨hc', hd', hcd, hr'⟩ := sorts_pair hb₂ hc hd hq
  obtain ⟨a', b'⟩ := p
  obtain ⟨c', d'⟩ := q
  dsimp only at ha' hb' hc' hd' hab hcd hr hr' ⊢
  refine (hless c' a' hc' ha').bind fun b₃ hb₃ => (hless d' b' hd' hb').bind fun b₄ hb₄ => ?_
  have hpairs : Rearranges order [a, b, c, d] [a', b', c', d'] := hr.append hr'
  have hdone {w x y z : α} (hwx : (order w x).isLE = true) (hxy : (order x y).isLE = true)
      (hyz : (order y z).isLE = true) (h : Rearranges order [a', b', c', d'] [w, x, y, z]) :
      Sorts order [a, b, c, d] [w, x, y, z] :=
    ⟨ascends_of_isChain (.cons_cons hwx (.cons_cons hxy (.cons_cons hyz (.singleton z)))),
      hpairs.trans h⟩
  have hask {x y : α} {zs ws : List α} (hx : S x) (hy : S y)
      (hzs : order x y = .lt → Sorts order [a, b, c, d] zs) (hws : order x y ≠ .lt →
        Sorts order [a, b, c, d] ws) :
      J.Holds (do if ← less x y then return zs else return ws) (Sorts order [a, b, c, d]) := by
    refine (hless x y hx hy).bind fun b hb => ?_
    by_cases h : order x y = .lt
    · rw [hb, decide_eq_true h]; exact .pure (hzs h)
    · rw [hb, decide_eq_false h]; exact .pure (hws h)
  by_cases hca : order c' a' = .lt <;> by_cases hdb : order d' b' = .lt <;>
    simp only [hb₃, hb₄, hca, hdb, decide_true, decide_false, if_true, if_false, Bool.false_eq_true]
  · -- `c'` is the least and `b'` the greatest, which leaves `d'` and `a'` to be compared.
    have hcb := Std.TransCmp.lt_of_lt_of_isLE hca hab
    have hfront : Rearranges order [a', b', c', d'] [c', a', b', d'] :=
      .symm (.pass_two (ne_eq_of_lt hca) (ne_eq_of_lt hcb))
    refine hask hd' ha' (fun hda => hdone hcd (isLE_of_lt hda) hab (hfront.trans ?_)) fun hda =>
      hdone (isLE_of_lt hca) (isLE_of_not_lt hda) (isLE_of_lt hdb) (hfront.trans ?_)
    · exact .cons c' (.symm (.pass_two (ne_eq_of_lt hda) (ne_eq_of_lt hdb)))
    · exact .cons c' (.cons a' (.swap (ne_eq_of_gt hdb)))
  · -- `c'` is the least and `d'` the greatest; `a'` and `b'` are in order already.
    refine hask hb' ha' (fun hba => absurd hba (Std.OrientedCmp.not_lt_of_isLE hab)) fun _ => ?_
    have hcb := Std.TransCmp.lt_of_lt_of_isLE hca hab
    exact hdone (isLE_of_lt hca) hab (isLE_of_not_lt hdb)
      (.symm (.pass_two (ne_eq_of_lt hca) (ne_eq_of_lt hcb)))
  · -- `a'` is the least and `b'` the greatest; `c'` and `d'` are in order already.
    refine hask hd' hc' (fun hdc => absurd hdc (Std.OrientedCmp.not_lt_of_isLE hcd)) fun _ => ?_
    have hcb := Std.TransCmp.lt_of_isLE_of_lt hcd hdb
    exact hdone (isLE_of_not_lt hca) hcd (isLE_of_lt hdb)
      (.cons a' (.pass_two (ne_eq_of_gt hcb) (ne_eq_of_gt hdb)))
  · -- `a'` is the least and `d'` the greatest, which leaves `c'` and `b'` to be compared.
    refine hask hc' hb' (fun hcb => ?_) fun hcb => ?_
    · exact hdone (isLE_of_not_lt hca) (isLE_of_lt hcb) (isLE_of_not_lt hdb)
        (.cons a' (.swap (ne_eq_of_gt hcb)))
    · exact hdone hab (isLE_of_not_lt hcb) hcd (.refl order _)

omit [LawfulMonad m] in
theorem sorts_sortStartM {xs : List α} (hxs : Every S xs) (hlen : xs.length = 4 ∨ xs.length ≤ 1) :
    J.Holds (sortStartM less xs) (Sorts order xs) := by
  unfold sortStartM
  split
  · next a b c d =>
    simp only [Every, List.forall_mem_cons] at hxs
    exact sorts_sortFourM hless hxs.1 hxs.2.1 hxs.2.2.1 hxs.2.2.2.1
  · next hne =>
    refine .pure (.of_ascends (ascends_of_length_le_one (hlen.resolve_left fun h => ?_)))
    obtain ⟨a, ys, rfl⟩ := List.exists_cons_of_length_eq_add_one h
    obtain ⟨b, c, d, rfl⟩ := List.length_eq_three.1 (Nat.succ.inj h)
    exact hne a b c d rfl

theorem sorts_shortSortM [MonadExcept Disorder m] {xs : List α} (hxs : Every S xs) :
    J.Holds (shortSortM less xs) (Sorts order xs) := by
  have hl := hxs.take (xs.length / 2)
  have hr := hxs.drop (xs.length / 2)
  simp only [shortSortM, List.splitAt_eq]
  generalize hstart : (if 8 ≤ xs.length then 4 else 1) = start
  refine (sorts_sortStartM hless (hl.take start) (by simp; split at hstart <;> omega)).bind
    fun ls hls => ?_
  refine (sorts_sortStartM hless (hr.take start) (by simp; split at hstart <;> omega)).bind
    fun rs hrs => ?_
  have hinsert {ys zs : List α} (hys : Every S ys) (hzs : Sorts order (ys.take start) zs) :
      J.Holds (insertAllM less zs (ys.drop start)) (Sorts order ys) := by
    refine (sorts_insertAllM hless (hzs.every (hys.take _)) (hys.drop _) hzs.ascends).mono
      fun ws hws => ?_
    exact hws.of_rearranges (.of_parts start hzs.rearranges (.refl order _))
  refine (hinsert hl hls).bind fun left hleft => (hinsert hr hrs).bind fun right hright => ?_
  have hlength := hleft.rearranges.perm.length_eq
  have hlength' := hright.rearranges.perm.length_eq
  rw [List.length_take] at hlength
  rw [List.length_drop] at hlength'
  refine (sorts_mergeBothWaysM hless (hleft.every hl) (hright.every hr) hleft.ascends
    hright.ascends (by omega) (by omega)).mono fun zs hzs => ?_
  exact hzs.of_rearranges (.of_parts _ hleft.rearranges hright.rearranges)

end
end LivePath
