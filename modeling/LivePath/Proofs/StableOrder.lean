import LivePath.Proofs.SortEffects
import Mathlib.Data.List.Chain

/-!
# Stable order

To sort stably is to put items in ascending order and to leave those that compare as equal in the
order in which they were (`Sorts`). The second half says that every class of equal items reads the
same before and after (`Rearranges`). So rearrangements can be put together piece by piece: two
stretches without equal items may change places (`Rearranges.exchange`), and everything else follows
from there. There is only one way to sort a list stably (`Sorts.unique`), which is what
`List.mergeSort` finds (`Sorts.eq_mergeSort`).
-/

namespace LivePath
variable {α : Type} {order : α → α → Ordering} {xs ys zs ws : List α} {x y : α}

/-- Each item is no greater than those behind it. -/
def Ascends (order : α → α → Ordering) (xs : List α) : Prop :=
  xs.Pairwise fun x y => (order x y).isLE = true

/-- The same items, those that are equal to each other in the same order. -/
def Rearranges (order : α → α → Ordering) (xs zs : List α) : Prop :=
  ∀ x, xs.filter (order x · = .eq) = zs.filter (order x · = .eq)

/-- `zs` is `xs`, sorted stably. -/
structure Sorts (order : α → α → Ordering) (xs zs : List α) : Prop where
  ascends : Ascends order zs
  rearranges : Rearranges order xs zs

theorem isLE_of_lt (h : order x y = .lt) : (order x y).isLE = true := by
  rw [h]; rfl

theorem isLE_of_not_lt [Std.TransCmp order] (h : order x y ≠ .lt) : (order y x).isLE = true := by
  by_contra hn
  exact h (Std.OrientedCmp.lt_of_not_isLE hn)

theorem not_lt_eq_isLE [Std.TransCmp order] (x y : α) :
    (!decide (order y x = .lt)) = (order x y).isLE := by
  by_cases h : order y x = .lt
  · rw [decide_eq_true h, Bool.eq_false_iff.2 (Std.OrientedCmp.not_isLE_of_lt h)]; rfl
  · rw [decide_eq_false h, isLE_of_not_lt h]; rfl

theorem lt_of_not_isLE [Std.TransCmp order] (h : (order x y).isLE = false) : order y x = .lt :=
  Std.OrientedCmp.lt_of_not_isLE (Bool.eq_false_iff.1 h)

theorem ne_eq_of_lt (h : order x y = .lt) : order x y ≠ .eq := by
  rw [h]; exact Ordering.noConfusion

theorem ne_eq_of_gt [Std.TransCmp order] (h : order y x = .lt) : order x y ≠ .eq :=
  fun he => ne_eq_of_lt h (Std.OrientedCmp.eq_comm.1 he)

/-! ### Rearranging -/

namespace Rearranges

theorem refl (order : α → α → Ordering) (xs : List α) : Rearranges order xs xs :=
  fun _ => rfl

theorem symm (h : Rearranges order xs zs) : Rearranges order zs xs :=
  fun x => (h x).symm

theorem trans (h : Rearranges order xs ys) (h' : Rearranges order ys zs) : Rearranges order xs zs :=
  fun x => (h x).trans (h' x)

theorem append (h : Rearranges order xs zs) (h' : Rearranges order ys ws) :
    Rearranges order (xs ++ ys) (zs ++ ws) := by
  intro x
  rw [List.filter_append, List.filter_append, h x, h' x]

theorem of_parts (n : Nat) (h : Rearranges order (xs.take n) ys)
    (h' : Rearranges order (xs.drop n) zs) :
    Rearranges order xs (ys ++ zs) := by
  have hparts := h.append h'
  rwa [List.take_append_drop] at hparts

theorem cons (x : α) (h : Rearranges order xs zs) : Rearranges order (x :: xs) (x :: zs) :=
  append (refl order [x]) h

theorem filter (h : Rearranges order xs zs) (p : α → Bool) :
    Rearranges order (xs.filter p) (zs.filter p) := by
  intro x
  rw [List.filter_filter, List.filter_filter]
  simp only [Bool.and_comm (decide _)]
  rw [← List.filter_filter, ← List.filter_filter, h x]

variable [Std.TransCmp order]

theorem perm (h : Rearranges order xs zs) : xs.Perm zs := by
  classical
  refine List.perm_iff_count.2 fun a => ?_
  have ha : decide (order a a = .eq) = true := decide_eq_true Std.ReflCmp.compare_self
  have hcount (l : List α) : (l.filter (order a · = .eq)).count a = l.count a :=
    List.count_filter ha
  rw [← hcount xs, h a, hcount]

theorem every {S : α → Prop} (h : Rearranges order xs zs) (hs : Every S xs) : Every S zs :=
  fun x hx => hs x (h.perm.mem_iff.2 hx)

/-- Two stretches in which no items are equal to each other may change places. -/
theorem exchange (h : ∀ x ∈ xs, ∀ y ∈ ys, order x y ≠ .eq) :
    Rearranges order (xs ++ ys) (ys ++ xs) := by
  intro z
  rw [List.filter_append, List.filter_append]
  rcases hx : xs.filter (order z · = .eq) with - | ⟨x, xs'⟩
  · rw [List.nil_append, List.append_nil]
  · have hy : ys.filter (order z · = .eq) = [] := by
      refine List.filter_eq_nil_iff.2 fun y hy hzy => ?_
      have hmem : x ∈ xs.filter (order z · = .eq) := by rw [hx]; exact List.mem_cons_self ..
      obtain ⟨hxs, hzx⟩ := List.mem_filter.1 hmem
      have hxz := Std.OrientedCmp.eq_comm.1 (of_decide_eq_true hzx)
      exact h x hxs y hy (Std.TransCmp.eq_trans hxz (of_decide_eq_true hzy))
    rw [hy, List.append_nil, List.nil_append]

theorem pass (h : ∀ y ∈ ys, order x y ≠ .eq) :
    Rearranges order (x :: (ys ++ zs)) (ys ++ x :: zs) := by
  have hx : Rearranges order ([x] ++ ys) (ys ++ [x]) := exchange fun x' hx' => by
    rw [List.mem_singleton.1 hx']; exact h
  simpa using hx.append (refl order zs)

theorem swap (h : order x y ≠ .eq) : Rearranges order (x :: y :: zs) (y :: x :: zs) :=
  show Rearranges order (x :: ([y] ++ zs)) ([y] ++ x :: zs) from
    pass fun y' hy' => by rw [List.mem_singleton.1 hy']; exact h

theorem pass_two {y' : α} (h : order x y ≠ .eq) (h' : order x y' ≠ .eq) :
    Rearranges order (x :: y :: y' :: zs) (y :: y' :: x :: zs) :=
  (swap h).trans (cons y (swap h'))

theorem of_pairwise_ne (h : xs.Pairwise fun x y => order x y ≠ .eq) :
    Rearranges order xs xs.reverse := by
  induction xs with
  | nil => exact refl order []
  | cons x xs ih =>
    obtain ⟨hx, hxs⟩ := List.pairwise_cons.1 h
    have hpass : Rearranges order (x :: (xs ++ [])) (xs ++ [x]) := pass hx
    rw [List.append_nil] at hpass
    rw [List.reverse_cons]
    exact hpass.trans ((ih hxs).append (refl order [x]))

theorem partition {p : α → Bool}
    (h : ∀ x ∈ xs, ∀ y ∈ xs, p x = true → p y = false → order x y ≠ .eq) :
    Rearranges order xs (xs.filter p ++ xs.filter (!p ·)) := by
  induction xs with
  | nil => exact refl order []
  | cons x xs ih =>
    have hxs := ih fun y hy z hz => h y (List.mem_cons_of_mem _ hy) z (List.mem_cons_of_mem _ hz)
    refine (hxs.cons x).trans ?_
    cases hp : p x with
    | true =>
      rw [List.filter_cons_of_pos hp, List.filter_cons_of_neg (by simp [hp])]; exact refl order _
    | false =>
      rw [List.filter_cons_of_neg (by simp [hp]), List.filter_cons_of_pos (by simp [hp])]
      refine pass fun y hy he => ?_
      obtain ⟨hy, hpy⟩ := List.mem_filter.1 hy
      exact h y (List.mem_cons_of_mem _ hy) x (List.mem_cons_self ..) hpy hp
        (Std.OrientedCmp.eq_comm.1 he)

end Rearranges

/-! ### Sorting -/

theorem Ascends.sublist (h : Ascends order zs) (hs : xs.Sublist zs) : Ascends order xs :=
  List.Pairwise.sublist hs h

theorem ascends_of_length_le_one (h : xs.length ≤ 1) : Ascends order xs := by
  match xs, h with
  | [], _ => exact .nil
  | [x], _ => exact List.pairwise_singleton ..

theorem ascends_append : Ascends order (xs ++ ys) ↔
    Ascends order xs ∧ Ascends order ys ∧ ∀ x ∈ xs, ∀ y ∈ ys, (order x y).isLE = true :=
  List.pairwise_append

theorem ascends_cons :
    Ascends order (x :: xs) ↔ (∀ y ∈ xs, (order x y).isLE = true) ∧ Ascends order xs :=
  List.pairwise_cons

theorem Ascends.isLE_all [Std.TransCmp order] (h : Ascends order ys)
    (hx : ∀ y ∈ ys.head?, (order x y).isLE = true) :
    ∀ y ∈ ys, (order x y).isLE = true := by
  cases ys with
  | nil => exact nofun
  | cons y ys =>
    have hxy := hx y rfl
    exact List.forall_mem_cons.2 ⟨hxy, fun z hz =>
      Std.TransCmp.isLE_trans hxy ((ascends_cons.1 h).1 z hz)⟩

theorem Ascends.lt_all [Std.TransCmp order] (h : Ascends order ys)
    (hx : ∀ y ∈ ys.head?, order x y = .lt) :
    ∀ y ∈ ys, order x y = .lt := by
  cases ys with
  | nil => exact nofun
  | cons y ys =>
    have hxy := hx y rfl
    exact List.forall_mem_cons.2 ⟨hxy, fun z hz =>
      Std.TransCmp.lt_of_lt_of_isLE hxy ((ascends_cons.1 h).1 z hz)⟩

theorem ascends_of_isChain [Std.TransCmp order]
    (h : xs.IsChain fun x y => (order x y).isLE = true) :
    Ascends order xs :=
  have : Trans (fun x y => (order x y).isLE = true) (fun x y => (order x y).isLE = true)
      (fun x y => (order x y).isLE = true) := ⟨Std.TransCmp.isLE_trans⟩
  h.pairwise

namespace Sorts

theorem of_ascends (h : Ascends order xs) : Sorts order xs xs :=
  ⟨h, .refl order xs⟩

theorem of_rearranges (h : Rearranges order xs ys) (hs : Sorts order ys zs) : Sorts order xs zs :=
  ⟨hs.ascends, h.trans hs.rearranges⟩

theorem filter (h : Sorts order xs zs) (p : α → Bool) : Sorts order (xs.filter p) (zs.filter p) :=
  ⟨h.ascends.sublist List.filter_sublist, h.rearranges.filter p⟩

variable [Std.TransCmp order]

theorem mem_iff (h : Sorts order xs zs) : x ∈ xs ↔ x ∈ zs :=
  h.rearranges.perm.mem_iff

theorem append (h : Sorts order xs zs) (h' : Sorts order ys ws)
    (hle : ∀ x ∈ xs, ∀ y ∈ ys, (order x y).isLE = true) :
    Sorts order (xs ++ ys) (zs ++ ws) := by
  refine ⟨ascends_append.2 ⟨h.ascends, h'.ascends, fun x hx y hy => ?_⟩,
    h.rearranges.append h'.rearranges⟩
  exact hle x (h.mem_iff.2 hx) y (h'.mem_iff.2 hy)

theorem every {S : α → Prop} (h : Sorts order xs zs) (hs : Every S xs) : Every S zs :=
  h.rearranges.every hs

theorem cons (h : Sorts order xs zs) (hle : ∀ y ∈ xs, (order x y).isLE = true) :
    Sorts order (x :: xs) (x :: zs) :=
  ⟨ascends_cons.2 ⟨fun y hy => hle y (h.mem_iff.2 hy), h.ascends⟩, h.rearranges.cons x⟩

theorem cons_between (h : Sorts order (xs ++ ys) zs) (hlt : ∀ y ∈ xs, order x y = .lt)
    (hle : ∀ y ∈ ys, (order x y).isLE = true) : Sorts order (xs ++ x :: ys) (x :: zs) := by
  refine of_rearranges (Rearranges.pass fun y hy => ne_eq_of_lt (hlt y hy)).symm (h.cons ?_)
  exact List.forall_mem_append.2 ⟨fun y hy => isLE_of_lt (hlt y hy), hle⟩

theorem snoc (h : Sorts order xs zs) (hle : ∀ y ∈ xs, (order y x).isLE = true) :
    Sorts order (xs ++ [x]) (zs ++ [x]) := by
  refine h.append (of_ascends (List.pairwise_singleton ..)) fun y hy x' hx => ?_
  rw [List.mem_singleton.1 hx]; exact hle y hy

theorem flip (h : Sorts order xs zs) : Sorts (fun x y => order y x) xs.reverse zs.reverse := by
  have hswap (x y : α) : decide (order y x = .eq) = decide (order x y = .eq) :=
    decide_eq_decide.2 Std.OrientedCmp.eq_comm
  refine ⟨List.pairwise_reverse.2 h.ascends, fun x => ?_⟩
  simp only [hswap]
  rw [List.filter_reverse, List.filter_reverse, h.rearranges x]

theorem of_flip (h : Sorts (fun x y => order y x) xs.reverse zs) : Sorts order xs zs.reverse := by
  have hback := h.flip
  rwa [List.reverse_reverse] at hback

theorem reverse_of_isChain (h : xs.IsChain fun x y => order y x = .lt) :
    Sorts order xs xs.reverse := by
  have : Trans (fun x y => order y x = .lt) (fun x y => order y x = .lt) (fun x y =>
      order y x = .lt) :=
    ⟨fun hyx hzy => Std.TransCmp.lt_trans hzy hyx⟩
  refine ⟨List.pairwise_reverse.2 (h.pairwise.imp isLE_of_lt),
    .of_pairwise_ne (h.pairwise.imp ne_eq_of_gt)⟩

theorem partition {p : α → Bool}
    (h : ∀ x ∈ xs, ∀ y ∈ xs, p x = true → p y = false → order x y = .lt)
    (hz : Sorts order (xs.filter p) zs) (hw : Sorts order (xs.filter (!p ·)) ws) :
    Sorts order xs (zs ++ ws) := by
  have hsplit := Rearranges.partition fun x hx y hy hpx hpy => ne_eq_of_lt (h x hx y hy hpx hpy)
  refine of_rearranges hsplit (hz.append hw fun x hx y hy => ?_)
  obtain ⟨hx, hpx⟩ := List.mem_filter.1 hx
  obtain ⟨hy, hpy⟩ := List.mem_filter.1 hy
  exact isLE_of_lt (h x hx y hy hpx (by simpa using hpy))

/-- There is one way to sort a list stably. -/
theorem unique (h : Sorts order xs zs) (h' : Sorts order xs ws) : zs = ws := by
  obtain ⟨hz, hrz⟩ := h
  obtain ⟨hw, hrw⟩ := h'
  replace hrw := hrz.symm.trans hrw
  clear hrz
  induction zs generalizing ws with
  | nil => exact (List.nil_perm.1 hrw.perm).symm
  | cons z zs ih =>
    obtain ⟨w, ws, rfl⟩ := List.exists_cons_of_ne_nil (fun hnil => by
      subst hnil; exact List.cons_ne_nil z zs (List.perm_nil.1 hrw.perm) : ws ≠ [])
    obtain ⟨hzs, hz'⟩ := ascends_cons.1 hz
    obtain ⟨hws, hw'⟩ := ascends_cons.1 hw
    -- The two first items are each no greater than the other, so they head the same class.
    have hself (a : α) : order a a = .eq := Std.ReflCmp.compare_self
    have hzw : (order z w).isLE = true := by
      rcases List.mem_cons.1 (hrw.perm.mem_iff.2 (List.mem_cons_self ..)) with rfl | hm
      · exact Std.ReflCmp.isLE_rfl
      · exact hzs w hm
    have hwz : (order w z).isLE = true := by
      rcases List.mem_cons.1 (hrw.perm.mem_iff.1 (List.mem_cons_self ..)) with rfl | hm
      · exact Std.ReflCmp.isLE_rfl
      · exact hws z hm
    have heq : order z w = .eq := Std.OrientedCmp.isLE_antisymm hzw hwz
    have hclass := hrw z
    simp only [List.filter_cons, hself, heq, decide_true, if_true] at hclass
    obtain ⟨rfl, -⟩ := List.cons.inj hclass
    refine congrArg (z :: ·) (ih hz' hw' fun x => ?_)
    have hx := hrw x
    rw [List.filter_cons, List.filter_cons] at hx
    split at hx
    · exact (List.cons.inj hx).2
    · exact hx

/-- What `List.mergeSort` finds. -/
theorem mergeSort (order : α → α → Ordering) [Std.TransCmp order] (xs : List α) :
    Sorts order xs (xs.mergeSort fun x y => (order x y).isLE) := by
  have htrans : ∀ a b c, (order a b).isLE = true → (order b c).isLE = true →
      (order a c).isLE = true :=
    fun _ _ _ => Std.TransCmp.isLE_trans
  have htotal : ∀ a b, ((order a b).isLE || (order b a).isLE) = true := by
    intro a b
    have hswap : order b a = (order a b).swap := Std.OrientedCmp.eq_swap
    rw [hswap]
    cases order a b <;> rfl
  refine ⟨List.pairwise_mergeSort htrans htotal xs, fun x => ?_⟩
  have hequal : (xs.filter (order x · = .eq)).Pairwise fun a b => (order a b).isLE = true := by
    refine List.pairwise_iff_forall_sublist.2 fun {a b} hab => ?_
    have ha := of_decide_eq_true (List.mem_filter.1 (hab.subset (List.mem_cons_self ..))).2
    have hb := of_decide_eq_true
      (List.mem_filter.1 (hab.subset (List.mem_cons_of_mem _ (List.mem_cons_self ..)))).2
    rw [Std.TransCmp.eq_trans (Std.OrientedCmp.eq_comm.1 ha) hb]
    rfl
  have hsub := (List.sublist_mergeSort htrans htotal hequal List.filter_sublist).filter
    (order x · = .eq)
  rw [List.filter_filter] at hsub
  simp only [Bool.and_self] at hsub
  exact hsub.eq_of_length_le (Nat.le_of_eq ((List.mergeSort_perm xs _).filter _).length_eq)

theorem eq_mergeSort (h : Sorts order xs zs) : zs = xs.mergeSort fun x y => (order x y).isLE :=
  h.unique (.mergeSort order xs)

end Sorts
end LivePath
