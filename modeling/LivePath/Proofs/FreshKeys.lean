import LivePath.Registry
import Mathlib.Data.List.Nodup

/-!
# Keys never come back

`Registry.Issued r k`: `r` handed `k` out at some time. A slot is either in use, and then its key is
the latest that was handed out for it, or free, and then the key waiting there is newer than all
that were. So the next key is never one that was issued (`not_issued_nextKey`), and what was issued
stays issued under every operation.
-/

namespace LivePath
namespace Registry
variable {τ α : Type} {r : Registry τ α} {k : Key}

def keys (r : Registry τ α) : List Key :=
  r.entries.map (·.key)

/-- No slot is used twice, be it by registrations or by keys waiting to be handed out. -/
structure WellFormed (r : Registry τ α) : Prop where
  slot_lt : ∀ k ∈ r.keys ++ r.freed, k.slot < r.slots
  nodup : ((r.keys ++ r.freed).map Key.slot).Nodup

/-- The key was handed out: its slot is in use under it or a later key, or waits with a later
key. -/
def Issued (r : Registry τ α) (k : Key) : Prop :=
  (∃ u ∈ r.keys, u.slot = k.slot ∧ k.generation ≤ u.generation) ∨
    ∃ f ∈ r.freed, f.slot = k.slot ∧ k.generation < f.generation

theorem contains_iff : r.contains k = true ↔ k ∈ r.keys := by
  simp [contains, keys]

theorem mem_keys {e : Registration τ α} (h : e ∈ r.entries) : e.key ∈ r.keys :=
  List.mem_map_of_mem h

theorem issued_of_mem (h : k ∈ r.keys) : r.Issued k :=
  .inl ⟨k, h, rfl, Nat.le_refl _⟩

/-! ### What the operations do to the keys -/

@[simp] theorem entries_insert (tag : τ) (a : α) :
    (r.insert tag a).entries = r.entries ++ [⟨r.nextKey, tag, a⟩] := rfl

theorem keys_insert (tag : τ) (a : α) : (r.insert tag a).keys = r.keys ++ [r.nextKey] := by
  simp [keys]

@[simp] theorem entries_erase : (r.erase k).entries = r.entries.filter (·.key ≠ k) := by
  unfold erase
  split
  · rfl
  · next h =>
    refine (List.filter_eq_self.2 fun e he => ?_).symm
    have : e.key ≠ k := fun hk => h (contains_iff.2 (hk ▸ mem_keys he))
    simpa using this

theorem keys_erase : (r.erase k).keys = r.keys.filter (· ≠ k) := by
  simp only [keys, entries_erase, List.filter_map]; rfl

theorem entries_clear : r.clear.entries = [] := rfl

theorem freed_clear : r.clear.freed.Perm (r.keys.map Key.renewed ++ r.freed) := by
  refine List.Perm.append_right _ ((List.reverse_perm _).trans ?_)
  exact (List.mergeSort_perm _ _).map _

/-! ### Well-formed registries -/

theorem wellFormed_default : (default : Registry τ α).WellFormed :=
  ⟨by simp [default, keys], by simp [default, keys]⟩

namespace WellFormed

theorem nodup_keys (h : r.WellFormed) : r.keys.Nodup :=
  (List.nodup_append.1 (List.Nodup.of_map _ h.nodup)).1

theorem eq_of_key (h : r.WellFormed) {e e' : Registration τ α} (he : e ∈ r.entries)
    (he' : e' ∈ r.entries) (hk : e.key = e'.key) : e = e' :=
  List.inj_on_of_nodup_map h.nodup_keys he he' hk

theorem eq_of_slot (h : r.WellFormed) {k k' : Key} (hk : k ∈ r.keys ++ r.freed)
    (hk' : k' ∈ r.keys ++ r.freed) (hs : k.slot = k'.slot) : k = k' :=
  List.inj_on_of_nodup_map h.nodup hk hk' hs

theorem not_issued_nextKey (h : r.WellFormed) : ¬ r.Issued r.nextKey := by
  rintro hi
  cases hf : r.freed with
  | nil =>
    have hn : r.nextKey = ⟨r.slots, 0⟩ := by simp [nextKey, hf]
    rcases hi with ⟨u, hu, hs, -⟩ | ⟨f, hf', -⟩
    · have := h.slot_lt u (List.mem_append_left _ hu)
      rw [hs, hn] at this; exact Nat.lt_irrefl _ this
    · simp [hf] at hf'
  | cons f fs =>
    have hn : r.nextKey = f := by simp [nextKey, hf]
    have hmem : f ∈ r.freed := by simp [hf]
    rw [hn] at hi
    rcases hi with ⟨u, hu, hs, -⟩ | ⟨f', hf', hs, hg⟩
    · have hd := (List.nodup_append.1 (List.map_append ▸ h.nodup)).2.2
      exact hd u.slot (List.mem_map_of_mem hu) f.slot (List.mem_map_of_mem hmem) hs
    · obtain rfl := h.eq_of_slot (List.mem_append_right _ hf') (List.mem_append_right _ hmem) hs
      exact Nat.lt_irrefl _ hg

theorem insert (h : r.WellFormed) (tag : τ) (a : α) : (r.insert tag a).WellFormed := by
  cases hf : r.freed with
  | nil =>
    have hk : (r.insert tag a).keys ++ (r.insert tag a).freed = r.keys ++ [⟨r.slots, 0⟩] := by
      simp [keys, Registry.insert, nextKey, hf]
    have hs : (r.insert tag a).slots = r.slots + 1 := by simp [Registry.insert, hf]
    have hlt : ∀ k ∈ r.keys, k.slot < r.slots := fun k hk => h.slot_lt k (List.mem_append_left _ hk)
    refine ⟨fun k hm => ?_, ?_⟩
    · rw [hk] at hm; rw [hs]
      rcases List.mem_append.1 hm with hm | hm
      · have := hlt k hm; omega
      · rw [List.mem_singleton.1 hm]; exact Nat.lt_succ_self _
    · rw [hk, List.map_append]
      have hnd : (r.keys.map Key.slot).Nodup := by simpa [hf] using h.nodup
      refine List.nodup_append.2 ⟨hnd, List.nodup_singleton _, fun a ha b hb => ?_⟩
      obtain ⟨k, hk, rfl⟩ := List.mem_map.1 ha
      rw [List.mem_singleton.1 hb]; exact Nat.ne_of_lt (hlt k hk)
  | cons f fs =>
    have hk : (r.insert tag a).keys ++ (r.insert tag a).freed = r.keys ++ r.freed := by
      simp [keys, Registry.insert, nextKey, hf]
    have hs : (r.insert tag a).slots = r.slots := by simp [Registry.insert, hf]
    exact ⟨by rw [hk, hs]; exact h.slot_lt, by rw [hk]; exact h.nodup⟩

theorem slots_erase (h : r.WellFormed) (hk : k ∈ r.keys) :
    (((r.erase k).keys ++ (r.erase k).freed).map Key.slot).Perm
      ((r.keys ++ r.freed).map Key.slot) := by
  have hf : (r.erase k).freed = k.renewed :: r.freed := by simp [erase, contains_iff.2 hk]
  have hp : r.keys.Perm (k :: (r.erase k).keys) := by
    have he : r.keys.erase k = r.keys.filter (· ≠ k) :=
      (h.nodup_keys.erase_eq_filter k).trans
        (List.filter_congr fun x _ => by by_cases hx : x = k <;> simp [hx])
    rw [keys_erase, ← he]; exact List.perm_cons_erase hk
  rw [hf]
  have : (k.renewed :: ((r.erase k).keys ++ r.freed)).map Key.slot =
      (k :: ((r.erase k).keys ++ r.freed)).map Key.slot := rfl
  refine (List.perm_middle.map _).trans ?_
  rw [this]
  exact ((hp.append_right _).symm).map _

theorem of_slots {r' : Registry τ α} (h : r.WellFormed) (hs : r'.slots = r.slots)
    (hp : ((r'.keys ++ r'.freed).map Key.slot).Perm ((r.keys ++ r.freed).map Key.slot)) :
    r'.WellFormed := by
  refine ⟨fun k hk => ?_, hp.nodup_iff.2 h.nodup⟩
  obtain ⟨k', hk', he⟩ := List.mem_map.1 (hp.subset (List.mem_map_of_mem hk))
  rw [hs, ← he]; exact h.slot_lt k' hk'

theorem erase (h : r.WellFormed) (k : Key) : (r.erase k).WellFormed := by
  by_cases hk : k ∈ r.keys
  · exact h.of_slots (by simp [Registry.erase, contains_iff.2 hk]) (h.slots_erase hk)
  · have : r.erase k = r := by simp [Registry.erase, mt contains_iff.1 hk]
    rw [this]; exact h

theorem clear (h : r.WellFormed) : r.clear.WellFormed := by
  refine h.of_slots rfl ?_
  have hk : r.clear.keys = [] := by simp [keys, entries_clear]
  rw [hk, List.nil_append]
  refine (freed_clear.map _).trans ?_
  rw [List.map_append, List.map_append, List.map_map]; exact List.Perm.refl _

end WellFormed

/-! ### Issued keys stay issued -/

namespace Issued

theorem insert (h : r.Issued k) (tag : τ) (a : α) : (r.insert tag a).Issued k := by
  rcases h with ⟨u, hu, hs, hg⟩ | ⟨f, hf, hs, hg⟩
  · exact .inl ⟨u, by rw [keys_insert]; exact List.mem_append_left _ hu, hs, hg⟩
  · cases hr : r.freed with
    | nil => simp [hr] at hf
    | cons f' fs =>
      rw [hr] at hf
      rcases List.mem_cons.1 hf with rfl | hf
      · have hn : r.nextKey = f := by simp [nextKey, hr]
        exact .inl ⟨f, by rw [keys_insert, hn]; simp, hs, Nat.le_of_lt hg⟩
      · exact .inr ⟨f, by simpa [Registry.insert, hr] using hf, hs, hg⟩

theorem of_renewed {r' : Registry τ α} (h : r.Issued k)
    (hk : ∀ u ∈ r.keys, u ∈ r'.keys ∨ u.renewed ∈ r'.freed) (hf : ∀ f ∈ r.freed, f ∈ r'.freed) :
    r'.Issued k := by
  rcases h with ⟨u, hu, hs, hg⟩ | ⟨f, hf', hs, hg⟩
  · rcases hk u hu with hu | hu
    · exact .inl ⟨u, hu, hs, hg⟩
    · exact .inr ⟨u.renewed, hu, hs, Nat.lt_succ_of_le hg⟩
  · exact .inr ⟨f, hf f hf', hs, hg⟩

theorem erase (h : r.Issued k) (k' : Key) : (r.erase k').Issued k := by
  by_cases hk : k' ∈ r.keys
  · have hf : (r.erase k').freed = k'.renewed :: r.freed := by
      simp [Registry.erase, contains_iff.2 hk]
    refine h.of_renewed (fun u hu => ?_) fun f hf' => by rw [hf]; exact List.mem_cons_of_mem _ hf'
    by_cases huk : u = k'
    · right; rw [hf, huk]; exact List.mem_cons_self ..
    · left; rw [keys_erase]; exact List.mem_filter.2 ⟨hu, by simpa using huk⟩
  · have : r.erase k' = r := by simp [Registry.erase, mt contains_iff.1 hk]
    rw [this]; exact h

theorem clear (h : r.Issued k) : r.clear.Issued k := by
  refine h.of_renewed (fun u hu => .inr ?_) fun f hf => ?_
  · exact freed_clear.mem_iff.2 (List.mem_append_left _ (List.mem_map_of_mem hu))
  · exact freed_clear.mem_iff.2 (List.mem_append_right _ hf)

end Issued

theorem issued_nextKey_insert (tag : τ) (a : α) : (r.insert tag a).Issued r.nextKey :=
  issued_of_mem (by rw [keys_insert]; simp)

/-! ### Histories -/

/-- `r'` came about from `r` by operations on registries; `log` are the registrations made on the
way, in order. -/
inductive Evolves (r : Registry τ α) : List (Registration τ α) → Registry τ α → Prop
  | refl : Evolves r [] r
  | insert {log : List (Registration τ α)} {r' : Registry τ α} (h : Evolves r log r')
      (tag : τ) (a : α) :
      Evolves r (log ++ [⟨r'.nextKey, tag, a⟩]) (r'.insert tag a)
  | erase {log : List (Registration τ α)} {r' : Registry τ α} (h : Evolves r log r') (k : Key) :
      Evolves r log (r'.erase k)
  | clear {log : List (Registration τ α)} {r' : Registry τ α} (h : Evolves r log r') :
      Evolves r log r'.clear

namespace Evolves
variable {r' r'' : Registry τ α} {log log' : List (Registration τ α)}

theorem trans (h : r.Evolves log r') (h' : r'.Evolves log' r'') : r.Evolves (log ++ log') r'' := by
  induction h' with
  | refl => rw [List.append_nil]; exact h
  | insert _ tag a ih => rw [← List.append_assoc]; exact ih.insert tag a
  | erase _ k ih => exact ih.erase k
  | clear _ ih => exact ih.clear

theorem wellFormed (h : r.Evolves log r') (hr : r.WellFormed) : r'.WellFormed := by
  induction h with
  | refl => exact hr
  | insert _ tag a ih => exact ih.insert tag a
  | erase _ k ih => exact ih.erase k
  | clear _ ih => exact ih.clear

theorem issued (h : r.Evolves log r') {k : Key} (hk : r.Issued k) : r'.Issued k := by
  induction h with
  | refl => exact hk
  | insert _ tag a ih => exact ih.insert tag a
  | erase _ k ih => exact ih.erase k
  | clear _ ih => exact ih.clear

theorem issued_log (h : r.Evolves log r') : ∀ e ∈ log, r'.Issued e.key := by
  induction h with
  | refl => exact fun e he => absurd he List.not_mem_nil
  | insert h tag a ih =>
    refine List.forall_mem_append.2 ⟨fun e he => (ih e he).insert tag a, ?_⟩
    exact List.forall_mem_singleton.2 (issued_nextKey_insert tag a)
  | erase _ k ih => exact fun e he => (ih e he).erase k
  | clear _ ih => exact fun e he => (ih e he).clear

theorem sublist (h : r.Evolves log r') : r'.entries.Sublist (r.entries ++ log) := by
  induction h with
  | refl => rw [List.append_nil]
  | insert _ tag a ih => rw [entries_insert, ← List.append_assoc]; exact ih.append_right _
  | erase _ k ih => rw [entries_erase]; exact List.filter_sublist.trans ih
  | clear => exact List.nil_sublist _

theorem fresh (h : r.Evolves log r') (hr : r.WellFormed) : ∀ e ∈ log, ¬ r.Issued e.key := by
  induction h with
  | refl => exact fun e he => absurd he List.not_mem_nil
  | insert h tag a ih =>
    refine List.forall_mem_append.2 ⟨ih, List.forall_mem_singleton.2 fun hi => ?_⟩
    exact (h.wellFormed hr).not_issued_nextKey (h.issued hi)
  | erase _ k ih => exact ih
  | clear _ ih => exact ih

theorem nodup_log (h : r.Evolves log r') (hr : r.WellFormed) : (log.map (·.key)).Nodup := by
  induction h with
  | refl => exact .nil
  | insert h tag a ih =>
    rw [List.map_append, List.nodup_append]
    refine ⟨ih, List.nodup_singleton _, fun k hk k' hk' he => ?_⟩
    obtain ⟨e, hm, rfl⟩ := List.mem_map.1 hk
    obtain rfl := List.mem_singleton.1 hk'
    have hi := h.issued_log e hm
    rw [he] at hi
    exact (h.wellFormed hr).not_issued_nextKey hi
  | erase _ k ih => exact ih
  | clear _ ih => exact ih

theorem mem_of_key (h : r.Evolves log r') (hr : r.WellFormed) {e : Registration τ α}
    (he : e ∈ r.entries) (hk : e.key ∈ r'.keys) : e ∈ r'.entries := by
  obtain ⟨e', he', hkey⟩ := List.mem_map.1 hk
  rcases List.mem_append.1 (h.sublist.subset he') with hm | hm
  · exact hr.eq_of_key hm he hkey ▸ he'
  · exact absurd (hkey ▸ issued_of_mem (mem_keys he)) (h.fresh hr e' hm)

end Evolves

/-- How many registrations were made before this one. -/
def number (log : List (Registration τ α)) (e : Registration τ α) : Nat :=
  (log.map (·.key)).idxOf e.key

section History
variable {log : List (Registration τ α)} {p : τ → Bool}

theorem pairwise_number (hn : (log.map (·.key)).Nodup) :
    log.Pairwise fun e e' => number log e ≤ number log e' := by
  have hnumber (i : Nat) (hi : i < log.length) : number log log[i] = i := by
    have hidx := hn.idxOf_getElem i (by simpa using hi)
    rw [List.getElem_map] at hidx
    exact hidx
  refine List.pairwise_iff_getElem.2 fun i j hi hj hij => ?_
  rw [hnumber i hi, hnumber j hj]
  exact Nat.le_of_lt hij

theorem filter_keys_of_sublist {l : List (Registration τ α)} (h : l.Sublist log)
    (hn : (log.map (·.key)).Nodup) :
    l = log.filter fun e => e.key ∈ l.map (·.key) := by
  induction h with
  | slnil => rfl
  | @cons l log e h ih =>
    obtain ⟨he, hn⟩ := List.nodup_cons.1 hn
    have hout : e.key ∉ l.map (·.key) := fun hm => he (h.map _ |>.subset hm)
    rw [List.filter_cons_of_neg (by simpa using hout)]
    exact ih hn
  | @cons_cons l log e h ih =>
    obtain ⟨he, hn⟩ := List.nodup_cons.1 hn
    rw [List.filter_cons_of_pos (by simp)]
    refine congrArg (e :: ·) ((ih hn).trans (List.filter_congr fun e' he' => ?_))
    have hne : e'.key ≠ e.key := fun hk => he (List.mem_map.2 ⟨e', he', hk⟩)
    rw [List.map_cons, decide_eq_decide, List.mem_cons]
    exact (or_iff_right hne).symm

theorem Evolves.select_eq (h : Evolves {} log r) (p : τ → Bool) :
    r.select p = log.filter fun e => r.contains e.key && p e.tag := by
  have hentries : r.entries = log.filter fun e => e.key ∈ r.keys :=
    filter_keys_of_sublist h.sublist (h.nodup_log wellFormed_default)
  have hselect : r.select p = (log.filter fun e => e.key ∈ r.keys).filter (p ·.tag) := by
    rw [← hentries, select]
  rw [hselect, List.filter_filter]
  refine List.filter_congr fun e _ => ?_
  have hc : r.contains e.key = decide (e.key ∈ r.keys) := Bool.eq_iff_iff.2 (by simp [contains_iff])
  rw [hc, Bool.and_comm]

/-- However these listeners are listed, sorted by their numbers they come out in this order. -/
theorem Evolves.eq_select (h : Evolves {} log r) {l : List (Registration τ α)}
    (hp : l.Perm (r.select p)) (hs : l.Pairwise fun e e' => number log e ≤ number log e') :
    l = r.select p := by
  have hn := h.nodup_log wellFormed_default
  have hsub : (r.select p).Sublist log := List.filter_sublist.trans h.sublist
  refine List.Perm.eq_of_pairwise (fun e e' he he' hle hge => ?_) hs
    ((pairwise_number hn).sublist hsub) hp
  have hlog := hsub.subset (hp.subset he)
  have hkey := (List.idxOf_inj (List.mem_map_of_mem hlog)).1 (Nat.le_antisymm hle hge)
  exact List.inj_on_of_nodup_map hn hlog (hsub.subset he') hkey

end History

/-- `r'` came about from `r` by operations on registries. -/
def LeadsTo (r r' : Registry τ α) : Prop :=
  ∃ log, r.Evolves log r'

namespace LeadsTo
variable {r' r'' : Registry τ α}

theorem refl (r : Registry τ α) : r.LeadsTo r :=
  ⟨[], .refl⟩

theorem trans (h : r.LeadsTo r') (h' : r'.LeadsTo r'') : r.LeadsTo r'' := by
  obtain ⟨log, h⟩ := h
  obtain ⟨log', h'⟩ := h'
  exact ⟨log ++ log', h.trans h'⟩

theorem insert (r : Registry τ α) (tag : τ) (a : α) : r.LeadsTo (r.insert tag a) :=
  ⟨_, .insert .refl tag a⟩

theorem erase (r : Registry τ α) (k : Key) : r.LeadsTo (r.erase k) :=
  ⟨_, .erase .refl k⟩

theorem clear (r : Registry τ α) : r.LeadsTo r.clear :=
  ⟨_, .clear .refl⟩

theorem wellFormed (h : r.LeadsTo r') (hr : r.WellFormed) : r'.WellFormed := by
  obtain ⟨log, h⟩ := h
  exact h.wellFormed hr

theorem issued (h : r.LeadsTo r') (k : Key) (hk : r.Issued k) : r'.Issued k := by
  obtain ⟨log, h⟩ := h
  exact h.issued hk

theorem gone (h : r.LeadsTo r') (hr : r.WellFormed) (k : Key) (hi : r.Issued k) (hk : k ∉ r.keys) :
    k ∉ r'.keys := by
  obtain ⟨log, h⟩ := h
  intro hm
  obtain ⟨e, he, rfl⟩ := List.mem_map.1 hm
  rcases List.mem_append.1 (h.sublist.subset he) with he | he
  · exact hk (mem_keys he)
  · exact h.fresh hr e he hi

end LeadsTo

end Registry
end LivePath
