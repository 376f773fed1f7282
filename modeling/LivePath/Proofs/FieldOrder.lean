import LivePath.Proofs.Comparisons
import LivePath.Proofs.SortedCollections

/-!
# Sorted by a field

A collection that is sorted by a field compares its items by what they have there, and an item
without the field, or with one that does not compare, counts as equal to any other (`keyOrder`).
This makes no consistent order: an item without the field counts as equal to a greater one in front
of it and to a smaller one behind it, and with it in between the two are never compared
(`sorted_by_field_around_gap`). If there are more than twenty items, sorting may even give up.

Items are sorted, and stand in the order of their fields, as far as being no greater is transitive
(`Coherent`). If it is so among all items, all are in order; of a very short list, which is sorted
by insertion, any stretch of the outcome is in order for which it is so
(`sorted_by_field_in_key_order`). It is so among models whose fields all compare with each other,
unless floats stand for integers that they cannot tell apart (`coherent_of_keys`).
-/

namespace LivePath

/-! ### Insertion -/

section
variable {α : Type}

/-- Puts `x` into a list that is kept backwards: past the items that it comes before, and no
further. -/
def insertBack (order : α → α → Ordering) (x : α) : List α → List α
  | [] => [x]
  | y :: ys => if order x y = .lt then y :: insertBack order x ys else x :: y :: ys

/-- The items one after the other, each put into the sorted ones before it. -/
def insertAll (order : α → α → Ordering) (xs : List α) : List α :=
  (xs.foldl (fun back x => insertBack order x back) []).reverse

variable {order : α → α → Ordering}

theorem perm_insertBack (x : α) (ys : List α) : (insertBack order x ys).Perm (x :: ys) := by
  induction ys with
  | nil => exact .refl _
  | cons y ys ih =>
    rw [insertBack]
    split
    · exact (ih.cons y).trans (.swap x y ys)
    · exact .refl _

theorem perm_insertAll (xs : List α) : (insertAll order xs).Perm xs := by
  have hfold : ∀ {xs back : List α}, (xs.foldl (fun back x => insertBack order x back) back).Perm
      (xs ++ back) := by
    intro xs
    induction xs with
    | nil => exact .refl _
    | cons x xs ih => exact ih.trans (((perm_insertBack x _).append_left xs).trans List.perm_middle)
  refine (List.reverse_perm _).trans (hfold.trans ?_)
  rw [List.append_nil]

theorem mem_head?_insertBack {x z : α} {ys : List α} (h : z ∈ (insertBack order x ys).head?) :
    z = x ∨ z ∈ ys.head? := by
  cases ys with
  | nil => exact .inl (Option.some.inj h).symm
  | cons y ys =>
    rw [insertBack] at h
    split at h
    · exact .inr h
    · exact .inl (Option.some.inj h).symm

variable (hswap : ∀ x y, order y x = (order x y).swap)
include hswap

/-- No item that is put in place is less than its neighbour, even if others are passed over that it
is not compared with. -/
theorem isChain_insertBack (x : α) {ys : List α}
    (h : ys.IsChain fun y z => (order z y).isLE = true) :
    (insertBack order x ys).IsChain fun y z => (order z y).isLE = true := by
  induction ys with
  | nil => exact .singleton x
  | cons y ys ih =>
    rw [insertBack]
    split
    · next hxy =>
      obtain ⟨hhead, htail⟩ := List.isChain_cons.1 h
      refine List.isChain_cons.2 ⟨fun z hz => ?_, ih htail⟩
      rcases mem_head?_insertBack hz with rfl | hz
      · exact isLE_of_lt hxy
      · exact hhead z hz
    · next hxy =>
      refine .cons_cons ?_ h
      rw [hswap]
      cases hc : order x y with
      | lt => exact absurd hc hxy
      | eq => rfl
      | gt => rfl

theorem isChain_insertAll (xs : List α) :
    (insertAll order xs).IsChain fun y z => (order y z).isLE = true := by
  have hfold : ∀ {xs back : List α}, back.IsChain (fun y z => (order z y).isLE = true) →
      (xs.foldl (fun back x => insertBack order x back) back).IsChain fun y z =>
        (order z y).isLE = true := by
    intro xs
    induction xs with
    | nil => exact id
    | cons x xs ih => exact fun h => ih (isChain_insertBack hswap x h)
  exact List.isChain_reverse.2 (hfold .nil)

end

section
variable {m : Type → Type} [Monad m] {J : Judgement m} {α : Type} {S : α → Prop}
  {order : α → α → Ordering}

theorem eq_insertBackM {less : α → α → m Bool}
    (hless : ∀ x y, S x → S y → J.Holds (less x y) (· = decide (order x y = .lt))) {x : α}
    {ys : List α} (hx : S x) (hys : Every S ys) :
    J.Holds (insertBackM less x ys) (· = insertBack order x ys) := by
  induction ys with
  | nil => exact .pure rfl
  | cons y ys ih =>
    refine (hless x y hx hys.head).bind fun b hb => ?_
    rw [hb, insertBack]
    by_cases hxy : order x y = .lt
    · rw [decide_eq_true hxy, if_pos hxy]
      exact (ih hys.tail).bind fun zs hzs => .pure (by rw [hzs])
    · rw [decide_eq_false hxy, if_neg hxy]
      exact .pure rfl

/-- A very short list is sorted by insertion, however little the answers fit together. -/
theorem eq_sortM_of_length_le [MonadExcept Disorder m] {ask : α → α → m Ordering}
    (hask : ∀ x y, S x → S y → J.Holds (ask x y) (· = order x y)) {xs : List α} (hxs : Every S xs)
    (hlen : xs.length ≤ 20) : J.Holds (sortM ask xs) (· = insertAll order xs) := by
  have hless : ∀ x y, S x → S y →
      J.Holds (do return decide ((← ask x y) = .lt)) (· = decide (order x y = .lt)) :=
    fun x y hx hy => (hask x y hx hy).bind fun o ho => .pure (by rw [ho])
  have hfold : ∀ {xs back : List α}, Every S xs → Every S back →
      J.Holds (xs.foldlM (fun back x =>
        insertBackM (fun x y => do return decide ((← ask x y) = .lt)) x back) back)
          (· = xs.foldl (fun back x => insertBack order x back) back) := by
    intro xs
    induction xs with
    | nil => exact fun _ _ => .pure rfl
    | cons x xs ih =>
      intro back hxs hback
      rw [List.foldlM_cons]
      refine (eq_insertBackM hless hxs.head hback).bind fun back' hback' => ?_
      subst hback'
      exact ih hxs.tail fun y hy => (hback.cons hxs.head) y ((perm_insertBack x back).mem_iff.1 hy)
  unfold sortM
  rw [if_pos hlen]
  exact (hfold hxs .nil).bind fun zs hzs => .pure (by rw [hzs]; rfl)

end

theorem ascends_extend {α : Type} {order : α → α → Ordering} {S : α → Prop} {xs : List α}
    (h : Every S xs) :
    Ascends (extend order S) xs ↔ Ascends order xs := by
  refine ⟨fun ha => ha.imp_of_mem fun hx hy hle => ?_, fun ha => ha.imp_of_mem fun hx hy hle => ?_⟩
  · rwa [extend_eq (h _ hx) (h _ hy)] at hle
  · rwa [extend_eq (h _ hx) (h _ hy)]

/-! ### The order of fields -/

namespace Graph
variable {F : Type} [Foreign F] {g : Graph F} {name : String} {items : List Value} {v w : Value}

/-- What an item is sorted by. -/
def sortKey (g : Graph F) (name : String) : Value → Option Value
  | .model o => (g.readField o name).1
  | _ => none

/-- The order of the fields of two items. Where there is none, they count as equal. -/
def keyOrder (g : Graph F) (name : String) (v w : Value) : Ordering :=
  match g.sortKey name v, g.sortKey name w with
  | some a, some b => (a.compare? b).getD .eq
  | _, _ => .eq

/-- Of any two items whose fields compare, the one in front has the field that is not greater. -/
def InKeyOrder (g : Graph F) (name : String) (items : List Value) : Prop :=
  items.Pairwise fun v w => ∀ a b, g.sortKey name v = some a → g.sortKey name w = some b →
  a.compare? b ≠ some .gt

/-- Among the items, to be no greater or to count as equal is transitive. -/
def Coherent (g : Graph F) (name : String) (items : List Value) : Prop :=
  ∀ u ∈ items, ∀ v ∈ items, ∀ w ∈ items,
    (g.keyOrder name u v).isLE = true → (g.keyOrder name v w).isLE = true →
    (g.keyOrder name u w).isLE = true

theorem keyOrder_swap (g : Graph F) (name : String) (v w : Value) :
    g.keyOrder name w v = (g.keyOrder name v w).swap := by
  unfold keyOrder
  cases g.sortKey name v with
  | none => cases g.sortKey name w <;> rfl
  | some a =>
    cases g.sortKey name w with
    | none => rfl
    | some b =>
      show (b.compare? a).getD .eq = ((a.compare? b).getD .eq).swap
      rw [Value.compare?_swap a b]
      cases a.compare? b <;> rfl

theorem isLE_keyOrder_iff : (g.keyOrder name v w).isLE = true ↔
    ∀ a b, g.sortKey name v = some a → g.sortKey name w = some b → a.compare? b ≠ some .gt := by
  unfold keyOrder
  constructor
  · intro h a b ha hb hgt
    rw [ha, hb] at h
    simp only [hgt] at h
    cases h
  · intro h
    split
    · next a b ha hb =>
      have hne := h a b ha hb
      cases hc : a.compare? b with
      | none => rfl
      | some o => cases o <;> first | rfl | exact absurd hc hne
    · rfl

theorem inKeyOrder_iff : g.InKeyOrder name items ↔ Ascends (g.keyOrder name) items :=
  ⟨fun h => h.imp isLE_keyOrder_iff.2, fun h => h.imp isLE_keyOrder_iff.1⟩

namespace Coherent

theorem consistentOn (h : g.Coherent name items) : ConsistentOn (g.keyOrder name) (· ∈ items) :=
  ⟨fun v w _ _ => g.keyOrder_swap name w v, fun u v w hu hv hw => h u hu v hv w hw⟩

theorem inKeyOrder_of_isChain (h : g.Coherent name items)
    (hchain : items.IsChain fun v w => (g.keyOrder name v w).isLE = true) :
    g.InKeyOrder name items := by
  have := h.consistentOn.transCmp
  have hall : Every (· ∈ items) items := fun _ => id
  refine inKeyOrder_iff.2 ((ascends_extend hall).1 (ascends_of_isChain ?_))
  refine hchain.imp_of_mem_imp fun v w hv hw hle => ?_
  rwa [extend_eq hv hw]

end Coherent

/-- Fields that all compare with each other make a coherent order, unless integers that floats
cannot tell apart are to be ordered together with floats. -/
theorem coherent_of_keys (keys : List Value)
    (hkeys : ∀ v ∈ items, ∃ a ∈ keys, g.sortKey name v = some a)
    (hcompare : ∀ a ∈ keys, ∀ b ∈ keys, a.compare? b ≠ none)
    (hround : (∀ x, Value.float x ∉ keys) ∨ ∀ n, Value.int n ∈ keys → n.toInt.natAbs ≤ 2 ^ 53) :
    g.Coherent name items := by
  intro u hu v hv w hw huv hvw
  obtain ⟨a, ha, hua⟩ := hkeys u hu
  obtain ⟨b, hb, hvb⟩ := hkeys v hv
  obtain ⟨c, hc, hwc⟩ := hkeys w hw
  obtain ⟨o, ho⟩ := Option.ne_none_iff_exists'.1 (hcompare a ha b hb)
  obtain ⟨o', ho'⟩ := Option.ne_none_iff_exists'.1 (hcompare b hb c hc)
  have hgt : o ≠ .gt := fun hgt => isLE_keyOrder_iff.1 huv a b hua hvb (by rw [ho, hgt])
  have hgt' : o' ≠ .gt := fun hgt => isLE_keyOrder_iff.1 hvw b c hvb hwc (by rw [ho', hgt])
  obtain ⟨o'', hac, hex⟩ := Value.compare?_trans_or_rounded ho ho' hgt hgt'
  refine isLE_keyOrder_iff.2 fun a' c' ha' hc' hac' => ?_
  cases hua.symm.trans ha'
  cases hwc.symm.trans hc'
  obtain ⟨-, -, m, x, n, rfl, rfl, rfl, hlarge⟩ := hex (Option.some.inj (hac.symm.trans hac'))
  rcases hround with hround | hround
  · exact hround x hb
  · have hm := hround m ha
    have hn := hround n hc
    omega

/-! ### Sorting by a field -/

theorem readField_still {o : ObjectId}
    (h : ∀ state, g.objects.get o = .foreign state → (Foreign.field state name).2 = state) :
    (g.readField o name).2 = g := by
  unfold readField
  split
  · rfl
  · rfl
  · next state hstate =>
    have hlt : o < g.objects.next := by
      by_contra hle
      have hmodel := g.objects.get_of_next_le (Nat.le_of_not_lt hle)
      rw [hstate] at hmodel
      cases hmodel
    show { g with objects := g.objects.set o (.foreign (Foreign.field state name).2) } = g
    rw [h state hstate, ← hstate, Table.set_get _ hlt]

section
variable (hstill : ∀ o state, .model o ∈ items → g.objects.get o = .foreign state →
    (Foreign.field state name).2 = state)
include hstill

theorem settled_sortKey (hv : v ∈ items) :
    Settled (· = g) (readKey name v) (· = g.sortKey name v) := by
  cases v with
  | model o =>
    refine ⟨(g.readField o name).1, rfl, ?_⟩
    rintro _ rfl
    exact Prod.ext rfl (readField_still fun state => hstill o state hv)
  | _ => exact ⟨none, rfl, fun _ _ => rfl⟩

theorem settled_keyOrder (v w : Value) (hv : v ∈ items) (hw : w ∈ items) :
    Settled (· = g) (compareItems (.byField name) v w) (· = g.keyOrder name v w) := by
  refine Judgement.Holds.bind (J := .settled _) (settled_sortKey hstill hv) fun a ha => ?_
  refine Judgement.Holds.bind (J := .settled _) (settled_sortKey hstill hw) fun b hb => ?_
  rw [keyOrder, ← ha, ← hb]
  cases a <;> cases b <;> exact .pure rfl

theorem answers_askOrder (v w : Value) (hv : v ∈ items) (hw : w ∈ items) :
    (Judgement.settled (· = g)).successful.Holds (askOrder (.byField name) v w)
      (· = g.keyOrder name v w) :=
  Judgement.Holds.successful_lift (settled_keyOrder hstill v w hv hw)

theorem exists_sortM_of_coherent (h : g.Coherent name items) :
    ∃ sorted, (sortM (askOrder (.byField name)) items).run.run g = (.ok sorted, g) ∧
      sorted.Perm items ∧ g.InKeyOrder name sorted := by
  have := h.consistentOn.transCmp
  have hall : Every (· ∈ items) items := fun _ => id
  have hask : ∀ v w, v ∈ items → w ∈ items →
      (Judgement.settled (· = g)).successful.Holds (askOrder (.byField name) v w)
        (· = extend (g.keyOrder name) (· ∈ items) v w) := by
    intro v w hv hw
    rw [extend_eq hv hw]
    exact answers_askOrder hstill v w hv hw
  obtain ⟨_, ⟨sorted, rfl, hsorts⟩, hrun⟩ := sorts_sortM hask hall
  have horder := (ascends_extend (hsorts.every hall)).1 hsorts.ascends
  exact ⟨sorted, hrun g rfl, hsorts.rearranges.perm.symm, inKeyOrder_iff.2 horder⟩

theorem exists_sortM_of_length_le (hlen : items.length ≤ 20) :
    ∃ sorted, (sortM (askOrder (.byField name)) items).run.run g = (.ok sorted, g) ∧
      sorted.Perm items ∧ ∀ stretch, stretch <:+: sorted → g.Coherent name stretch →
      g.InKeyOrder name stretch := by
  obtain ⟨_, ⟨sorted, rfl, rfl⟩, hrun⟩ :=
    eq_sortM_of_length_le (answers_askOrder hstill) (fun _ => id) hlen
  refine ⟨_, hrun g rfl, perm_insertAll items, fun stretch hin hcoherent => ?_⟩
  obtain ⟨before, behind, hsplit⟩ := hin
  have hchain := isChain_insertAll (g.keyOrder_swap name) items
  rw [← hsplit] at hchain
  exact hcoherent.inKeyOrder_of_isChain hchain.left_of_append.right_of_append

end

/-- A new collection that is sorted by the field has the items in the sequence `sorted`, and so has
one that is reset to them. Nothing else is changed. -/
structure SortsInto (g : Graph F) (name : String) (items sorted : List Value) : Prop where
  made : (newCollection items (some (.byField name))).run g =
    (.ok (.collection sorted (some (.byField name))), g)
  reset : ∀ o old, g.objects.get o = .collection old (some (.byField name)) →
    g.mutate o (.items (.reset items)) =
      { state := { g with objects := g.objects.set o (.collection sorted (some (.byField name))) },
        topics := [.reset] }

theorem sortsInto_of_run {sorted : List Value}
    (h : (sortM (askOrder (.byField name)) items).run.run g = (.ok sorted, g)) :
    g.SortsInto name items sorted := by
  have hthen {β : Type} (f : List Value → β) :
      (do return f (← sortM (askOrder (.byField name)) items) :
        ExceptT Disorder (StateM (Graph F)) β).run.run g = (.ok (f sorted), g) := by
    rw [ExceptT.run_bind, StateT.run_bind, h]
    rfl
  refine ⟨hthen _, fun o old ho => ?_⟩
  have hreset : ((ItemChange.reset items).apply (some (askOrder (.byField name))) old).run.run g =
      (.ok { state := sorted, topics := [.reset] }, g) :=
    hthen fun sorted => ({ state := sorted, topics := [.reset] } : Changed (List Value))
  rw [mutate_of_collection ho hreset]
  rfl

/--
The law of collections that are sorted by a field. Items may be values of any kind, and models with
and without the field; foreign containers, if there are any, have to stay as they are when the field
is read. If to be no greater is transitive among the items, a collection can be made of them and be
reset to them, and those whose fields compare stand in the order of their fields. The same goes for
any items, if they are at most twenty, as far as a stretch of the sequence is concerned in which it
is transitive.
-/
theorem sorted_by_field_in_key_order
    (hstill : ∀ o state, .model o ∈ items → g.objects.get o = .foreign state →
      (Foreign.field state name).2 = state) :
    (g.Coherent name items → ∃ sorted, g.SortsInto name items sorted ∧ sorted.Perm items ∧
      g.InKeyOrder name sorted) ∧
      (items.length ≤ 20 → ∃ sorted, g.SortsInto name items sorted ∧ sorted.Perm items ∧
        ∀ stretch, stretch <:+: sorted → g.Coherent name stretch → g.InKeyOrder name stretch) := by
  refine ⟨fun h => ?_, fun h => ?_⟩
  · obtain ⟨sorted, hrun, hsorted⟩ := exists_sortM_of_coherent hstill h
    exact ⟨sorted, sortsInto_of_run hrun, hsorted⟩
  · obtain ⟨sorted, hrun, hsorted⟩ := exists_sortM_of_length_le hstill h
    exact ⟨sorted, sortsInto_of_run hrun, hsorted⟩

/-- Four errands, of which the third one is not due at all, and a collection by the time when they
are due. -/
def errands : Graph Empty where
  objects := ⟨[.model (.ofList [("due", .int 2)]),
    .model (.ofList [("due", .float ⟨0x3fe0000000000000⟩)]), .model {},
    .model (.ofList [("due", .int 1)]), .collection [] (some (.byField "due"))]⟩

/-- The first two errands come first, the latter of them in front. -/
theorem sorted_by_field_in_key_order_errands :
    ∃ sorted,
      errands.SortsInto "due" [.model 0, .model 1, .model 2, .str "later", .model 3] sorted ∧
      [.model 1, .model 0] <+: sorted ∧ errands.InKeyOrder "due" [.model 1, .model 0] := by
  have hstill : ∀ o state, .model o ∈ [Value.model 0, .model 1, .model 2, .str "later", .model 3] →
      errands.objects.get o = .foreign state → (Foreign.field state "due").2 = state :=
    fun _ state => state.elim
  obtain ⟨sorted, hsorts, -, hstretch⟩ := (sorted_by_field_in_key_order hstill).2 (by decide)
  have hsorted : sorted = [.model 1, .model 0, .model 2, .str "later", .model 3] :=
    (Object.collection.inj (Except.ok.inj (congrArg Prod.fst hsorts.made))).1.symm
  have hfront : [.model 1, .model 0] <+: sorted := by
    rw [hsorted]
    exact List.prefix_append [Value.model 1, .model 0] _
  have hcoherent : errands.Coherent "due" [.model 1, .model 0] :=
    coherent_of_keys [.float ⟨0x3fe0000000000000⟩, .int 2] (by decide) (by decide) (.inr (by simp))
  exact ⟨sorted, hsorts, hfront, hstretch _ hfront.isInfix hcoherent⟩

/-- What is due later stays in front of what is due earlier, around the errand that is not due at
all. -/
theorem sorted_by_field_around_gap :
    errands.SortsInto "due" [.model 0, .model 2, .model 3] [.model 0, .model 2, .model 3] ∧
      ¬ errands.InKeyOrder "due" [.model 0, .model 2, .model 3] := by
  refine ⟨sortsInto_of_run rfl, fun h => ?_⟩
  have hgap := List.rel_of_pairwise_cons h
    (List.mem_cons_of_mem _ (List.mem_singleton_self (Value.model 3)))
  exact hgap (.int 2) (.int 1) rfl rfl rfl

/-- Twenty-one errands, of which the one in the middle is not due at all. -/
def jumble : Graph Empty where
  objects := ⟨(List.range 21).map fun i =>
    .model (if i = 10 then {} else .ofList [("due", .int (.ofNat (7 * i % 23)))])⟩

/-- What the two ends of a merge are told about them does not fit together. -/
example : ((newCollection ((List.range 21).map .model) (some (.byField "due"))).run jumble).1 =
    .error {} := by cbv

end Graph
end LivePath
