import LivePath.Proofs.Announcements
import LivePath.Proofs.StableSorting
import Mathlib.Data.List.InsertIdx
import Mathlib.Data.Prod.Basic

/-!
# Sorted collections

At all times a sorted collection is the stable sort of those that arrived and were not taken away
again (`sorted_collection_sorts_survivors`), if its comparisons tell the truth about a consistent
order of the items. In front of an item that was just added there is none that is greater, and
behind it all are.
-/

namespace LivePath

/-! ### Orders of some values -/

section
variable {α : Type} {order : α → α → Ordering} {S : α → Prop}

/-- A consistent order of what has the property `S`. What it makes of the rest does not matter. -/
structure ConsistentOn (order : α → α → Ordering) (S : α → Prop) : Prop where
  swap : ∀ x y, S x → S y → order x y = (order y x).swap
  trans : ∀ x y z, S x → S y → S z → (order x y).isLE = true → (order y z).isLE = true →
  (order x z).isLE = true

open Classical in
/-- The order of what has the property `S`, with the rest behind it. -/
noncomputable def extend (order : α → α → Ordering) (S : α → Prop) (x y : α) : Ordering :=
  if S x then if S y then order x y else .lt else if S y then .gt else .eq

theorem extend_eq {x y : α} (hx : S x) (hy : S y) : extend order S x y = order x y := by
  rw [extend, if_pos hx, if_pos hy]

theorem mem_of_isLE {x y : α} (h : (extend order S x y).isLE = true) (hy : S y) : S x := by
  by_contra hx
  rw [extend, if_neg hx, if_pos hy] at h
  cases h

theorem ConsistentOn.transCmp (h : ConsistentOn order S) : Std.TransCmp (extend order S) where
  eq_swap {x y} := by
    by_cases hx : S x <;> by_cases hy : S y <;> simp only [extend, hx, hy, if_true, if_false]
    · exact h.swap x y hx hy
    all_goals rfl
  isLE_trans {x y z} hxy hyz := by
    by_cases hz : S z
    · have hy := mem_of_isLE hyz hz
      have hx := mem_of_isLE hxy hy
      rw [extend_eq hx hy] at hxy
      rw [extend_eq hy hz] at hyz
      rw [extend_eq hx hz]
      exact h.trans x y z hx hy hz hxy hyz
    · simp only [extend, hz, if_false]
      split <;> rfl

end

/-! ### What survives of the arrivals -/

/-- Values in ascending order, equal ones in the order of their arrival. -/
def inOrder (order : Value → Value → Ordering) (arrivals : List Value) : List Value :=
  arrivals.mergeSort fun v w => (order v w).isLE

/-- The arrivals in ascending order, each with its number. -/
def numbered (order : Value → Value → Ordering) (arrivals : List Value) : List (Value × Nat) :=
  arrivals.zipIdx.mergeSort fun a b => (order a.1 b.1).isLE

/-- Takes away the arrival that stands at a place of the ascending order. -/
def takeAway (order : Value → Value → Ordering) (arrivals : List Value) (place : Nat) :
    List Value :=
  match (numbered order arrivals)[place]? with
  | none => arrivals
  | some (_, number) => arrivals.eraseIdx number

/-- What is left of the arrivals after a change, those of the change behind the earlier ones. -/
def survivors (order : Value → Value → Ordering) (arrivals : List Value) : ItemChange → List Value
  | .add item => arrivals ++ [item]
  | .insert _ item => arrivals ++ [item]
  | .remove item =>
    match (inOrder order arrivals).findIdx? (·.same item) with
    | none => arrivals
    | some place => takeAway order arrivals place
  | .removeAt place => takeAway order arrivals place
  | .reset items => items
  | .sort => arrivals

section
variable {α β : Type} {order : β → β → Ordering} [Std.TransCmp order] {f : α → β}

instance transCmp_key : Std.TransCmp fun a b => order (f a) (f b) where
  eq_swap := Std.OrientedCmp.eq_swap
  isLE_trans := Std.TransCmp.isLE_trans

omit [Std.TransCmp order] in
theorem Sorts.map (hf : f.Surjective) {xs zs : List α}
    (h : Sorts (fun a b => order (f a) (f b)) xs zs) :
    Sorts order (xs.map f) (zs.map f) := by
  refine ⟨List.pairwise_map.2 h.ascends, fun y => ?_⟩
  obtain ⟨x, rfl⟩ := hf y
  rw [List.filter_map, List.filter_map]
  exact congrArg (List.map f) (h.rearranges x)

theorem filter_ne_eq_eraseIdx {α : Type} {f : α → Nat} {xs : List α} (h : (xs.map f).Nodup)
    {i : Nat} {x : α} (hx : xs[i]? = some x) : xs.filter (f · ≠ f x) = xs.eraseIdx i := by
  induction xs generalizing i with
  | nil => simp at hx
  | cons y ys ih =>
    obtain ⟨hy, hys⟩ := List.nodup_cons.1 (by rwa [List.map_cons] at h)
    cases i with
    | zero =>
      obtain rfl : y = x := by simpa using hx
      have hall : ys.filter (f · ≠ f y) = ys :=
        List.filter_eq_self.2 fun z hz => decide_eq_true fun he => hy (List.mem_map.2 ⟨z, hz, he⟩)
      rw [List.filter_cons_of_neg (by simp), hall]
      rfl
    | succ i =>
      have hx' : ys[i]? = some x := by simpa using hx
      have hne : f y ≠ f x := fun he => hy (List.mem_map.2 ⟨x, List.mem_of_getElem? hx', he.symm⟩)
      rw [List.filter_cons_of_pos (by simpa using hne), ih hys hx']
      rfl

end

section
variable {order : Value → Value → Ordering} {S : Value → Prop} {arrivals items : List Value}

theorem mergeSort_congr {α : Type} {le le' : α → α → Bool} {xs : List α}
    (h : ∀ x ∈ xs, ∀ y ∈ xs, le x y = le' x y) : xs.mergeSort le = xs.mergeSort le' := by
  have hmap := List.map_mergeSort (f := id) h
  rwa [List.map_id, List.map_id] at hmap

theorem inOrder_extend (h : Every S arrivals) :
    inOrder (extend order S) arrivals = inOrder order arrivals :=
  mergeSort_congr fun v hv w hw => by rw [extend_eq (h v hv) (h w hw)]

theorem numbered_extend (h : Every S arrivals) :
    numbered (extend order S) arrivals = numbered order arrivals :=
  mergeSort_congr fun a ha b hb => by
    rw [extend_eq (h _ (List.fst_mem_of_mem_zipIdx ha)) (h _ (List.fst_mem_of_mem_zipIdx hb))]

theorem survivors_extend (h : Every S arrivals) (c : ItemChange) :
    survivors (extend order S) arrivals c = survivors order arrivals c := by
  cases c <;> simp only [survivors, takeAway, inOrder_extend h, numbered_extend h]

theorem every_takeAway (h : Every S arrivals) (place : Nat) :
    Every S (takeAway order arrivals place) := by
  unfold takeAway
  split
  · exact h
  · exact fun v hv => h v (List.mem_of_mem_eraseIdx hv)

theorem every_survivors (h : Every S arrivals) {c : ItemChange}
    (hc : Every S (Mutation.items c).values) :
    Every S (survivors order arrivals c) := by
  cases c with
  | add item => exact h.append hc
  | insert index item => exact h.append hc
  | remove item =>
    simp only [survivors]
    split
    · exact h
    · exact every_takeAway h _
  | removeAt place => exact every_takeAway h place
  | reset items => exact hc
  | sort => exact h

variable [Std.TransCmp order]

theorem sorts_numbered (order : Value → Value → Ordering) [Std.TransCmp order]
    (arrivals : List Value) :
    Sorts (fun a b : Value × Nat => order a.1 b.1) arrivals.zipIdx (numbered order arrivals) :=
  .mergeSort _ _

theorem map_fst_numbered (h : Sorts order arrivals items) :
    (numbered order arrivals).map Prod.fst = items := by
  have hkeys := (sorts_numbered order arrivals).map Prod.fst_surjective
  rw [List.zipIdx_map_fst] at hkeys
  exact hkeys.unique h

/-- Taking an arrival away does not disturb the order of the others. -/
theorem sorts_takeAway (h : Sorts order arrivals items) (place : Nat) :
    Sorts order (takeAway order arrivals place) (items.eraseIdx place) := by
  have hitems := map_fst_numbered h
  have hnumbered := sorts_numbered order arrivals
  unfold takeAway
  split
  next hnone =>
    rw [List.eraseIdx_of_length_le]
    · exact h
    · rw [← hitems, List.length_map]
      exact List.getElem?_eq_none_iff.1 hnone
  next v number hv =>
    have hnodup : (arrivals.zipIdx.map Prod.snd).Nodup := by
      rw [List.zipIdx_map_snd]; exact List.nodup_range' ..
    have hperm := hnumbered.rearranges.perm
    have harrival : arrivals.zipIdx[number]? = some (v, number) := by
      have hmem := hperm.mem_iff.2 (List.mem_of_getElem? hv)
      simpa [List.getElem?_zipIdx] using List.mem_zipIdx_iff_getElem?.1 hmem
    have hrest := hnumbered.filter (·.2 ≠ number)
    rw [filter_ne_eq_eraseIdx hnodup harrival,
      filter_ne_eq_eraseIdx ((hperm.map Prod.snd).nodup_iff.1 hnodup) hv] at hrest
    have hkeys := hrest.map Prod.fst_surjective
    rwa [← List.eraseIdx_map, ← List.eraseIdx_map, List.zipIdx_map_fst, hitems] at hkeys

theorem exists_place (h : Ascends order items) (v : Value) :
    ∃ before behind, items = before ++ behind ∧
    (∀ w ∈ before, (order w v).isLE = true) ∧ ∀ w ∈ behind, order v w = .lt := by
  induction items with
  | nil => exact ⟨[], [], rfl, nofun, nofun⟩
  | cons w items ih =>
    by_cases hwv : (order w v).isLE = true
    · obtain ⟨before, behind, rfl, hbefore, hbehind⟩ := ih (ascends_cons.1 h).2
      exact ⟨w :: before, behind, rfl, List.forall_mem_cons.2 ⟨hwv, hbefore⟩, hbehind⟩
    · have hvw : order v w = .lt := lt_of_not_isLE (Bool.eq_false_iff.2 hwv)
      exact ⟨[], w :: items, rfl, nofun, h.lt_all (by simpa using hvw)⟩

theorem insertIdx_length {α : Type} (xs ys : List α) (v : α) :
    (xs ++ ys).insertIdx xs.length v = xs ++ v :: ys := by
  induction xs with
  | nil => rfl
  | cons x xs ih => exact congrArg (x :: ·) ih

theorem Sorts.insert {before behind : List Value} {v : Value}
    (h : Sorts order arrivals (before ++ behind)) (hbefore : ∀ w ∈ before, (order w v).isLE = true)
    (hbehind : ∀ w ∈ behind, order v w = .lt) :
    Sorts order (arrivals ++ [v]) (before ++ v :: behind) := by
  obtain ⟨hasc, hasc', hle⟩ := ascends_append.1 h.ascends
  refine ⟨ascends_append.2 ⟨hasc, ascends_cons.2 ⟨fun w hw => isLE_of_lt (hbehind w hw), hasc'⟩,
    fun w hw => ?_⟩, ?_⟩
  · exact List.forall_mem_cons.2 ⟨hbefore w hw, hle w hw⟩
  · have hpass : Rearranges order (v :: (behind ++ [])) (behind ++ [v]) :=
      .pass fun w hw => ne_eq_of_lt (hbehind w hw)
    rw [List.append_nil] at hpass
    have hlast := h.rearranges.append (.refl order [v])
    rw [List.append_assoc] at hlast
    exact hlast.trans ((Rearranges.refl order before).append hpass.symm)

end

/-! ### What a change makes of a sorted collection -/

def ItemChange.added? : ItemChange → Option Value
  | .add item => some item
  | .insert _ item => some item
  | _ => none

/-- An item was put behind all that are not greater, and its place was told. -/
def Lands (order : Value → Value → Ordering) (v : Value) (c : Changed (List Value)) : Prop :=
  ∃ before behind, c.reply = .place (some before.length) ∧ c.state = before ++ v :: behind ∧
    (∀ w ∈ before, (order w v).isLE = true) ∧ ∀ w ∈ behind, order v w = .lt

/-- The arrivals are sorted, which was not given up, and an item that was added stands at its
place. -/
structure KeepsSorted (order : Value → Value → Ordering) (arrivals : List Value)
    (added : Option Value) (c : Changed (List Value)) : Prop where
  sorts : Sorts order arrivals c.state
  reply_ne : ∀ d, c.reply ≠ .disorder d
  lands : ∀ v, added = some v → Lands order v c

theorem KeepsSorted.of_sorts {order : Value → Value → Ordering} {arrivals : List Value}
    {c : Changed (List Value)} (h : Sorts order arrivals c.state)
    (hreply : ∀ d, c.reply ≠ .disorder d) : KeepsSorted order arrivals none c :=
  ⟨h, hreply, fun _ hv => absurd hv (Option.some_ne_none _).symm⟩

theorem Lands.of_extend {order : Value → Value → Ordering} {S : Value → Prop} {v : Value}
    {c : Changed (List Value)} (h : Lands (extend order S) v c) (hv : S v) (hc : Every S c.state) :
    Lands order v c := by
  obtain ⟨before, behind, hreply, hstate, hbefore, hbehind⟩ := h
  rw [hstate] at hc
  obtain ⟨hs, hs'⟩ := every_append.1 hc
  refine ⟨before, behind, hreply, hstate, fun w hw => ?_, fun w hw => ?_⟩
  · have hle := hbefore w hw
    rwa [extend_eq (hs w hw) hv] at hle
  · have hlt := hbehind w hw
    rwa [extend_eq hv (hs'.tail w hw)] at hlt

section
variable {m : Type → Type} [Monad m] [LawfulMonad m] {J : Judgement m}
  {order : Value → Value → Ordering} [Std.TransCmp order] {S : Value → Prop}
  {compare : Value → Value → m Ordering} {arrivals items : List Value}
  (hcompare : ∀ v w, S v → S w → J.Holds (compare v w) (· = order v w))
include hcompare

omit [LawfulMonad m] in
theorem keepsSorted_placeOf (h : Sorts order arrivals items) (hs : Every S arrivals) {v : Value}
    (hv : S v) :
    J.Holds (do return ItemChange.insertAt items (← ItemChange.placeOf (some compare) items v) v)
      (KeepsSorted order (arrivals ++ [v]) (some v)) := by
  obtain ⟨before, behind, rfl, hbefore, hbehind⟩ := exists_place h.ascends v
  have hask : ∀ w, S w →
      J.Holds (do return decide ((← compare w v) ≠ .gt)) (· = (order w v).isLE) :=
    fun w hw => (hcompare w v hw hv).bind fun o ho => .pure (by rw [ho]; cases order w v <;> rfl)
  have hgreater : ∀ w ∈ behind, (order w v).isLE = false :=
    fun w hw => Bool.eq_false_iff.2 (Std.OrientedCmp.not_isLE_of_lt (hbehind w hw))
  refine (finds_partitionPointM hask (h.every hs) hbefore hgreater).bind fun place hplace =>
    .pure ?_
  have hstate : (before ++ behind).insertIdx place v = before ++ v :: behind := by
    rw [hplace]; exact insertIdx_length before behind v
  refine ⟨?_, fun _ => Reply.noConfusion, fun w hw => ?_⟩
  · rw [ItemChange.insertAt, hstate]
    exact h.insert hbefore hbehind
  · cases hw
    exact ⟨before, behind, congrArg (fun i => Reply.place (some i)) hplace, hstate,
      hbefore, hbehind⟩

theorem keepsSorted_apply [MonadExcept Disorder m] (h : Sorts order arrivals items)
    (hs : Every S arrivals) {c : ItemChange} (hc : Every S (Mutation.items c).values) :
    J.Holds (c.apply (some compare) items)
      (KeepsSorted order (survivors order arrivals c) c.added?) := by
  have hitems : inOrder order arrivals = items := h.eq_mergeSort.symm
  cases c with
  | add item => exact keepsSorted_placeOf hcompare h hs hc.head
  | insert index item => exact keepsSorted_placeOf hcompare h hs hc.head
  | remove item =>
    simp only [ItemChange.apply, survivors, hitems]
    cases items.findIdx? (·.same item) with
    | none => exact .pure (.of_sorts h fun _ => Reply.noConfusion)
    | some place => exact .pure (.of_sorts (sorts_takeAway h place) fun _ => Reply.noConfusion)
  | removeAt index =>
    simp only [ItemChange.apply, survivors]
    split
    next hnone =>
      -- Behind the last item there is nothing to take away.
      have hstay := sorts_takeAway h index
      rw [List.eraseIdx_of_length_le (List.getElem?_eq_none_iff.1 hnone)] at hstay
      exact .pure (.of_sorts hstay fun _ => Reply.noConfusion)
    · exact .pure (.of_sorts (sorts_takeAway h _) fun _ => Reply.noConfusion)
  | reset given =>
    exact (sorts_sortM hcompare hc).bind fun zs hzs =>
      .pure (.of_sorts hzs fun _ => Reply.noConfusion)
  | sort =>
    refine (sorts_sortM hcompare (h.every hs)).bind fun zs hzs =>
      .pure (.of_sorts ?_ fun _ => Reply.noConfusion)
    exact hzs.of_rearranges h.rearranges

end

/-! ### Comparisons that always answer the same -/

namespace Graph
variable {F : Type} [Foreign F] {S : Value → Prop} {shelf g : Graph F}

/-- The models in `S` have the content that they have in `shelf`. -/
def Keeps (S : Value → Prop) (shelf g : Graph F) : Prop :=
  ∀ o, S (.model o) → g.objects.get o = shelf.objects.get o

section
variable (hmodels : ∀ o, S (.model o) → ∃ fields, shelf.objects.get o = .model fields)
include hmodels

theorem keeps_readKey (name : String) (v : Value) :
    Yields (Keeps S shelf) (readKey name v) fun _ => True := by
  intro g hg
  refine ⟨trivial, ?_⟩
  cases v with
  | model o =>
    show Keeps S shelf (g.readField o name).2
    unfold readField
    split
    · exact hg
    · exact hg
    next state hstate =>
      -- What a read changes is foreign, and therefore no model.
      intro o' ho'
      have hne : o' ≠ o := by
        rintro rfl
        obtain ⟨fields, hfields⟩ := hmodels o' ho'
        rw [hg o' ho', hfields] at hstate
        cases hstate
      exact (Table.get_set_ne _ hne _).trans (hg o' ho')
  | _ => exact hg

theorem settled_readKey_of_keeps (name : String) {v : Value} (hv : S v) :
    Settled (Keeps S shelf) (readKey name v) fun _ => True := by
  cases v with
  | model o =>
    obtain ⟨fields, hfields⟩ := hmodels o hv
    refine ⟨fields.get? name, trivial, fun g hg => ?_⟩
    show g.readField o name = _
    rw [readField, hg o hv, hfields]
  | _ => exact ⟨none, trivial, fun _ _ => rfl⟩

/-- As long as the models that are compared keep their content, comparing them always gives the same
answers. -/
theorem yields_compareItems (r : Ranking) (v w : Value) (hv : S v) (hw : S w) :
    Yields (Keeps S shelf) (compareItems r v w) (· = ((compareItems r v w).run shelf).1) := by
  have hsettled : (Judgement.settled (Keeps S shelf)).Holds (compareItems r v w) fun _ => True := by
    unfold compareItems
    split
    · exact .pure trivial
    next name =>
      refine Judgement.Holds.bind (settled_readKey_of_keeps hmodels name hv) fun a _ => ?_
      refine Judgement.Holds.bind (settled_readKey_of_keeps hmodels name hw) fun b _ => ?_
      split
      · exact .pure trivial
      · exact .pure trivial
  obtain ⟨answer, -, hanswer⟩ := hsettled
  intro g hg
  rw [hanswer g hg, hanswer shelf fun _ _ => rfl]
  exact ⟨rfl, hg⟩

theorem Keeps.mutate (hg : Keeps S shelf g) {o : ObjectId} (ho : ¬ S (.model o)) (m : Mutation) :
    Keeps S shelf (g.mutate o m).state := by
  have hany (vs : List Value) : Every (fun _ => True) vs := fun _ _ => trivial
  obtain ⟨-, hkeeps⟩ :=
    holds_mutateObject (J := .yields _) (keeps_readKey hmodels) (hany _) (hany m.values) g hg
  intro o' ho'
  have hne : o' ≠ o := fun h => ho (h ▸ ho')
  exact (Table.get_set_ne _ hne _).trans (hkeeps o' ho')

end
end Graph

/-! ### Histories -/

namespace Graph
variable {F : Type} [Foreign F] {I : Graph F → Prop} {o : ObjectId} {g g' : Graph F}

/-- What becomes of a graph as the items of `o` are changed, time and again. In between anything may
happen elsewhere. All the while `I` is kept. -/
inductive Undergoes (I : Graph F → Prop) (o : ObjectId) (g : Graph F) :
    List ItemChange → Graph F → Prop where
  | start : I g → Undergoes I o g [] g
  | elsewhere {changes : List ItemChange} {g' g'' : Graph F} : Undergoes I o g changes g' →
    g''.objects.get o = g'.objects.get o → I g'' → Undergoes I o g changes g''
  | change {changes : List ItemChange} {g' : Graph F} (c : ItemChange) :
    Undergoes I o g changes g' → I (g'.mutate o (.items c)).state →
    Undergoes I o g (changes ++ [c]) (g'.mutate o (.items c)).state

theorem Undergoes.keeps {changes : List ItemChange} (h : g.Undergoes I o changes g') : I g' := by
  cases h <;> assumption

section
variable {order : Value → Value → Ordering} [Std.TransCmp order] {S : Value → Prop} {r : Ranking}
  (hcompare : ∀ v w, S v → S w → Yields I (compareItems r v w) (· = order v w))
include hcompare

omit [Std.TransCmp order] in
theorem successful_askOrder (v w : Value) (hv : S v) (hw : S w) :
    (Judgement.yields I).successful.Holds (askOrder r v w) (· = order v w) :=
  Judgement.Holds.successful_lift (hcompare v w hv hw)

theorem exists_newCollection {items : List Value} (hg : I g) (hs : Every S items) :
    ∃ sorted, ((newCollection items (some r)).run g).1 = .ok (.collection sorted (some r)) ∧
      Sorts order items sorted := by
  have hsorts : (Judgement.yields I).successful.Holds (do
      return Object.collection (F := F) (← sortM (askOrder r) items) (some r))
      fun object => ∃ sorted, object = .collection sorted (some r) ∧ Sorts order items sorted :=
    (sorts_sortM (successful_askOrder hcompare) hs).bind fun sorted h => .pure ⟨sorted, rfl, h⟩
  obtain ⟨⟨_, hmade, sorted, rfl, h⟩, -⟩ := hsorts g hg
  exact ⟨sorted, hmade, h⟩

theorem keepsSorted_mutate {arrivals items : List Value} (hg : I g)
    (ho : g.objects.get o = .collection items (some r)) (h : Sorts order arrivals items)
    (hs : Every S arrivals) {c : ItemChange} (hc : Every S (Mutation.items c).values) :
    ∃ changed, (g.mutate o (.items c)).reply = changed.reply ∧
      (g.mutate o (.items c)).state.objects.get o = .collection changed.state (some r) ∧
      KeepsSorted order (survivors order arrivals c) c.added? changed := by
  obtain ⟨⟨changed, hchanged, hkeeps⟩, -⟩ :=
    keepsSorted_apply (successful_askOrder hcompare) h hs hc g hg
  have hmutate := mutate_of_collection ho (Prod.ext hchanged rfl)
  refine ⟨changed, ?_, ?_, hkeeps⟩
  · rw [hmutate]; rfl
  · rw [hmutate]; exact Table.get_set_self ..

end

section
variable {order : Value → Value → Ordering} {S : Value → Prop} {r : Ranking} {initial : List Value}
  {changes : List ItemChange} (horder : ConsistentOn order S)
  (hcompare : ∀ v w, S v → S w → Yields I (compareItems r v w) (· = order v w))
include horder hcompare

omit horder in
theorem yields_extend (v w : Value) (hv : S v) (hw : S w) :
    Yields I (compareItems r v w) (· = extend order S v w) := by
  rw [extend_eq hv hw]
  exact hcompare v w hv hw

theorem sorts_undergoes {items : List Value} (ho : g.objects.get o = .collection items (some r))
    (h : Sorts (extend order S) initial items) (hs : Every S initial)
    (hrun : g.Undergoes I o changes g')
    (hchanges : ∀ c ∈ changes, Every S (Mutation.items c).values) :
    Every S (changes.foldl (survivors order) initial) ∧
      ∃ items', g'.objects.get o = .collection items' (some r) ∧
      Sorts (extend order S) (changes.foldl (survivors order) initial) items' := by
  have := horder.transCmp
  induction hrun with
  | start _ => exact ⟨hs, items, ho, h⟩
  | elsewhere _ hsame _ ih =>
    obtain ⟨hsurvive, items', ho', h'⟩ := ih hchanges
    exact ⟨hsurvive, items', hsame.trans ho', h'⟩
  | change c hrun _ ih =>
    obtain ⟨hsurvive, items', ho', h'⟩ := ih fun c' hc' => hchanges c' (List.mem_append_left _ hc')
    have hc := hchanges c (List.mem_append_right _ (List.mem_singleton_self c))
    obtain ⟨changed, -, hstate, hkeeps⟩ :=
      keepsSorted_mutate (yields_extend hcompare) hrun.keeps ho' h' hsurvive hc
    have hsorts := hkeeps.sorts
    rw [survivors_extend hsurvive] at hsorts
    rw [List.foldl_concat]
    exact ⟨every_survivors hsurvive hc, changed.state, hstate, hsorts⟩

/--
A collection can be made with a ranking, and contains, after any changes, the stable sort of what
has survived of its arrivals. Sorting is given up at no change. An item that is added next comes
behind all that are not greater, and its place is told. The ranking has to order the items
consistently, and to answer the same as long as `I` is kept, whatever else happens.
-/
theorem sorted_collection_sorts_survivors {g₀ : Graph F} (hinitial : Every S initial) (hg₀ : I g₀)
    (hmade : ∀ object, ((newCollection initial (some r)).run g₀).1 = .ok object →
      g.objects.get o = object)
    (hrun : g.Undergoes I o changes g')
    (hchanges : ∀ c ∈ changes, Every S (Mutation.items c).values) :
    ((newCollection initial (some r)).run g₀).1 = .ok (g.objects.get o) ∧
    g'.items o = inOrder order (changes.foldl (survivors order) initial) ∧
    (∀ c d, Every S (Mutation.items c).values → (g'.mutate o (.items c)).reply ≠ .disorder d) ∧
    ∀ c v, c.added? = some v → S v → ∃ before behind,
      (g'.mutate o (.items c)).reply = .place (some before.length) ∧
      (g'.mutate o (.items c)).state.items o = before ++ v :: behind ∧
      (∀ w ∈ before, (order w v).isLE = true) ∧ ∀ w ∈ behind, order v w = .lt := by
  have := horder.transCmp
  obtain ⟨sorted, hsorted, hstart⟩ := exists_newCollection (yields_extend hcompare) hg₀ hinitial
  have ho := hmade _ hsorted
  obtain ⟨hsurvive, items, ho', hsorts⟩ :=
    sorts_undergoes horder hcompare ho hstart hinitial hrun hchanges
  have hitems : ∀ {g : Graph F} {items : List Value}, g.objects.get o = .collection items (some r) →
      g.items o = items :=
    fun h => by rw [Graph.items, h]
  have hnext := fun {c} => keepsSorted_mutate (c := c) (yields_extend hcompare) hrun.keeps ho'
    hsorts hsurvive
  refine ⟨by rw [ho, hsorted], ?_, fun c d hc => ?_, fun c v hcv hv => ?_⟩
  · rw [hitems ho', ← inOrder_extend hsurvive]
    exact hsorts.eq_mergeSort
  · obtain ⟨changed, hreply, -, hkeeps⟩ := hnext hc
    rw [hreply]
    exact hkeeps.reply_ne d
  · have hc : Every S (Mutation.items c).values := by
      cases c <;> cases hcv <;> exact .cons hv .nil
    obtain ⟨changed, hreply, hstate, hkeeps⟩ := hnext hc
    rw [survivors_extend hsurvive] at hkeeps
    have hevery := hkeeps.sorts.every (every_survivors hsurvive hc)
    obtain ⟨before, behind, hplace, hsplit, hbefore, hbehind⟩ :=
      (hkeeps.lands v hcv).of_extend hv hevery
    exact ⟨before, behind, hreply.trans hplace, (hitems hstate).trans hsplit, hbefore, hbehind⟩

end

def tasks : Graph Empty where
  objects := ⟨[true, false, true].map fun done => .model (.ofList [("done", .bool done)])⟩

/-- The tasks with a collection of the first two, which puts first what is yet to be done. -/
def filed : Graph Empty :=
  match (newCollection [.model 0, .model 1] (some (.byField "done"))).run tasks with
  | (.ok object, g) => { g with objects := g.objects.push object }
  | (.error _, g) => g

/-- The third task is inserted in front, the first is removed, and then it is added again. -/
theorem sorted_collection_sorts_survivors_filed :
    let order (v w : Value) : Ordering := ((compareItems (.byField "done") v w).run tasks).1
    let g := ((filed.mutate 3 (.items (.insert 0 (.model 2)))).state.mutate 3
      (.items (.remove (.model 0)))).state
    g.items 3 = [.model 1, .model 2] ∧ ∃ before behind,
      (g.mutate 3 (.items (.add (.model 0)))).reply = .place (some before.length) ∧
      (g.mutate 3 (.items (.add (.model 0)))).state.items 3 = before ++ .model 0 :: behind ∧
      (∀ w ∈ before, (order w (.model 0)).isLE = true) ∧
      ∀ w ∈ behind, order (.model 0) w = .lt := by
  intro order g
  let models : List Value := [.model 0, .model 1, .model 2]
  have horder : ConsistentOn order (· ∈ models) := by
    have hswap : ∀ v ∈ models, ∀ w ∈ models, order v w = (order w v).swap := by decide
    have htrans : ∀ u ∈ models, ∀ v ∈ models, ∀ w ∈ models,
        (order u v).isLE = true → (order v w).isLE = true → (order u w).isLE = true := by decide
    exact ⟨fun v w hv hw => hswap v hv w hw, fun u v w hu hv hw => htrans u hu v hv w hw⟩
  have hmodel (o : ObjectId) (ho : .model o ∈ models) : o = 0 ∨ o = 1 ∨ o = 2 := by
    simpa [models] using ho
  have hmodels : ∀ o, .model o ∈ models → ∃ fields, tasks.objects.get o = .model fields := by
    intro o ho
    rcases hmodel o ho with rfl | rfl | rfl <;> exact ⟨_, rfl⟩
  have hkeeps : Keeps (· ∈ models) tasks filed := by
    intro o ho
    rcases hmodel o ho with rfl | rfl | rfl <;> rfl
  have hout : ¬ Value.model 3 ∈ models := by decide
  have hinserted := hkeeps.mutate hmodels hout (.items (.insert 0 (.model 2)))
  have hremoved := hinserted.mutate hmodels hout (.items (.remove (.model 0)))
  have hrun := ((Undergoes.start hkeeps).change _ hinserted).change _ hremoved
  have hinitial : Every (· ∈ models) [.model 0, .model 1] :=
    .cons (by decide) (.cons (by decide) .nil)
  have hchanges : ∀ c ∈ [ItemChange.insert 0 (.model 2), .remove (.model 0)],
      Every (· ∈ models) (Mutation.items c).values :=
    List.forall_mem_cons.2 ⟨.cons (by decide) .nil, List.forall_mem_singleton.2 .nil⟩
  have hmade : ∀ object,
      ((newCollection [.model 0, .model 1] (some (.byField "done"))).run tasks).1 = .ok object →
      filed.objects.get 3 = object := fun _ h => Except.ok.inj h
  obtain ⟨-, hitems, -, hadd⟩ := sorted_collection_sorts_survivors horder
    (yields_compareItems hmodels (.byField "done")) hinitial (fun _ _ => rfl) hmade hrun hchanges
  refine ⟨hitems.trans ?_, hadd (.add (.model 0)) (.model 0) rfl (by decide)⟩
  have h01 : order (.model 0) (.model 1) = .gt := by decide
  have h12 : order (.model 1) (.model 2) = .lt := by decide
  have h02 : order (.model 0) (.model 2) = .eq := by decide
  simp [inOrder, survivors, takeAway, numbered, List.mergeSort, List.findIdx?_cons,
    Value.same, h01, h12, h02]

end Graph
end LivePath
