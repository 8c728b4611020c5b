import Mathlib.Data.List.Basic
import Mathlib.Data.List.Nodup
import Mathlib.Tactic.Common

/-!
# Lists of keys and values

An ordered list of keys with one value each.  Keys are the same when their folded
forms are; adding a key that is there replaces its value.
-/

namespace AdbcBridge.Lib.KeyValue

variable {κ κ' ν : Type*} [DecidableEq κ'] (fold : κ → κ')

def add : List (κ × ν) → κ → ν → List (κ × ν)
  | [], k, v => [(k, v)]
  | (j, w) :: kvs, k, v => if fold j = fold k then (j, v) :: kvs else (j, w) :: add kvs k v

def addAll (kvs new : List (κ × ν)) : List (κ × ν) := new.foldl (fun l e => add fold l e.1 e.2) kvs

def get (kvs : List (κ × ν)) (k : κ) : Option ν :=
  (kvs.find? fun e => fold e.1 = fold k).map Prod.snd

variable {fold}

theorem get_cons {kvs : List (κ × ν)} {j k : κ} {w : ν} :
    get fold ((j, w) :: kvs) k = if fold j = fold k then some w else get fold kvs k := by
  by_cases h : fold j = fold k
  · simp [get, h]
  · simp [get, h]

theorem get_append {kvs new : List (κ × ν)} {k : κ} :
    get fold (kvs ++ new) k = (get fold kvs k).or (get fold new k) := by
  rw [get, List.find?_append, Option.map_or, get, get]

theorem get_toList {o : Option ν} {j k : κ} :
    get fold (o.map fun v => (j, v)).toList k = if fold j = fold k then o else none := by
  cases o with
  | none => simp [get]
  | some v =>
      rw [Option.map_some, Option.toList_some, get_cons]
      rfl

theorem get_map {μ : Type*} {kvs : List (κ × ν)} {k : κ} (f : ν → μ) :
    get fold (kvs.map fun e => (e.1, f e.2)) k = (get fold kvs k).map f := by
  induction kvs with
  | nil => rfl
  | cons e kvs ih =>
      rw [List.map_cons, get_cons, ih, get_cons]
      split_ifs
      · rfl
      · rfl

/-- The first pair of a key is the one that counts. -/
theorem mem_of_get {kvs : List (κ × ν)} {k : κ} {v : ν} (h : get fold kvs k = some v) :
    ∃ j, (j, v) ∈ kvs ∧ fold j = fold k := by
  rw [get, Option.map_eq_some_iff] at h
  obtain ⟨⟨j, w⟩, hfind, hw⟩ := h
  have hmem := List.mem_of_find?_eq_some hfind
  have hkey := List.find?_some hfind
  exact ⟨j, hw ▸ hmem, by simpa using hkey⟩

theorem get_add {kvs : List (κ × ν)} {j k : κ} {w : ν} :
    get fold (add fold kvs j w) k = if fold j = fold k then some w else get fold kvs k := by
  induction kvs with
  | nil =>
      rw [add, get_cons]
  | cons e kvs ih =>
      obtain ⟨i, u⟩ := e
      rw [add, get_cons]
      by_cases hij : fold i = fold j
      · rw [if_pos hij, get_cons, hij]
        split
        · rfl
        · rfl
      · rw [if_neg hij, get_cons, ih]
        by_cases hik : fold i = fold k
        · rw [if_pos hik, if_pos hik, if_neg fun h => hij (hik.trans h.symm)]
        · rw [if_neg hik, if_neg hik]

/-- After adding a list of pairs a key has the value of the last one, or its old one. -/
theorem get_addAll {kvs new : List (κ × ν)} {k : κ} :
    get fold (addAll fold kvs new) k = (get fold new.reverse k).or (get fold kvs k) := by
  induction new generalizing kvs with
  | nil => rfl
  | cons e new ih =>
      have hstep : addAll fold kvs (e :: new) = addAll fold (add fold kvs e.1 e.2) new := rfl
      have happ : get fold ((e :: new).reverse) k =
          (get fold new.reverse k).or (if fold e.1 = fold k then some e.2 else none) := by
        rw [List.reverse_cons, get, List.find?_append, Option.map_or]
        congr 1
        by_cases h : fold e.1 = fold k
        · simp [h]
        · simp [h]
      rw [hstep, ih, get_add, happ, Option.or_assoc]
      congr 1
      split
      · rfl
      · rfl

/-- A key that was added has a value, and it is one of those added for it. -/
theorem get_addAll_of_mem {new : List (κ × ν)} {k : κ} {v : ν} (h : (k, v) ∈ new) :
    ∃ w j, get fold (addAll fold [] new) k = some w ∧ (j, w) ∈ new ∧ fold j = fold k := by
  have hsome : get fold new.reverse k ≠ none := by
    rw [get, ne_eq, Option.map_eq_none_iff, List.find?_eq_none]
    exact fun hnone => hnone (k, v) (List.mem_reverse.mpr h) (decide_eq_true rfl)
  obtain ⟨w, hw⟩ := Option.ne_none_iff_exists'.mp hsome
  obtain ⟨j, hj, hkey⟩ := mem_of_get hw
  refine ⟨w, j, ?_, List.mem_reverse.mp hj, hkey⟩
  rw [get_addAll, hw, Option.some_or]

/-- Only nothing adds up to nothing. -/
theorem eq_nil_of_addAll {new : List (κ × ν)} (h : addAll fold [] new = []) : new = [] := by
  cases new with
  | nil => rfl
  | cons e new =>
      have hmem : (e.1, e.2) ∈ e :: new := List.mem_cons_self
      obtain ⟨w, j, hget, -⟩ := @get_addAll_of_mem _ _ _ _ fold _ _ _ hmem
      rw [h] at hget
      exact nomatch hget

theorem add_of_not_mem {kvs : List (κ × ν)} {k : κ} {v : ν}
    (h : fold k ∉ kvs.map fun e => fold e.1) : add fold kvs k v = kvs ++ [(k, v)] := by
  induction kvs with
  | nil => rfl
  | cons e kvs ih =>
      rw [List.map_cons, List.mem_cons, not_or] at h
      rw [add, if_neg (Ne.symm h.1), ih h.2, List.cons_append]

/-- Pairs of different keys are all kept, in order. -/
theorem addAll_distinct {kvs new : List (κ × ν)}
    (h : ((kvs ++ new).map fun e => fold e.1).Nodup) : addAll fold kvs new = kvs ++ new := by
  induction new generalizing kvs with
  | nil => exact (List.append_nil kvs).symm
  | cons e new ih =>
      have hstep : addAll fold kvs (e :: new) = addAll fold (add fold kvs e.1 e.2) new := rfl
      have hnew : fold e.1 ∉ kvs.map fun e => fold e.1 := by
        rw [List.map_append, List.nodup_append] at h
        exact fun hmem => h.2.2 _ hmem _ List.mem_cons_self rfl
      have happ : kvs ++ e :: new = kvs ++ [e] ++ new := by simp
      rw [hstep, add_of_not_mem hnew, ih (by rwa [happ] at h), happ]

/-! ## Two ways to fold -/

theorem map_add {kvs : List (κ × ν)} {k : κ} {v : ν} :
    (add fold kvs k v).map (fun e => fold e.1) =
      if fold k ∈ kvs.map fun e => fold e.1 then kvs.map fun e => fold e.1
      else (kvs.map fun e => fold e.1) ++ [fold k] := by
  induction kvs with
  | nil => rfl
  | cons e kvs ih =>
      rw [add]
      by_cases h : fold e.1 = fold k
      · rw [if_pos h, if_pos (by rw [List.map_cons, ← h]; exact List.mem_cons_self)]
        rfl
      · rw [if_neg h, List.map_cons, ih, List.map_cons]
        by_cases hmem : fold k ∈ kvs.map fun e => fold e.1
        · rw [if_pos hmem, if_pos (List.mem_cons_of_mem _ hmem)]
        · have hcons : fold k ∉ fold e.1 :: kvs.map fun e => fold e.1 := by
            rw [List.mem_cons, not_or]
            exact ⟨Ne.symm h, hmem⟩
          rw [if_neg hmem, if_neg hcons]
          rfl

/-- Keys that are added stay different. -/
theorem nodup_addAll {kvs new : List (κ × ν)} (h : (kvs.map fun e => fold e.1).Nodup) :
    ((addAll fold kvs new).map fun e => fold e.1).Nodup := by
  induction new generalizing kvs with
  | nil => exact h
  | cons e new ih =>
      have hstep : addAll fold kvs (e :: new) = addAll fold (add fold kvs e.1 e.2) new := rfl
      rw [hstep]
      apply ih
      rw [map_add]
      split_ifs with hmem
      · exact h
      · exact List.nodup_append.mpr ⟨h, List.nodup_singleton _, fun a ha b hb heq =>
          hmem (by rw [← List.mem_singleton.mp hb, ← heq]; exact ha)⟩

/-- Where keys are different, each has the value it is paired with. -/
theorem mem_iff_get [DecidableEq κ] {kvs : List (κ × ν)} {k : κ} {v : ν}
    (h : (kvs.map Prod.fst).Nodup) : (k, v) ∈ kvs ↔ get id kvs k = some v := by
  induction kvs with
  | nil => simp [get]
  | cons e kvs ih =>
      obtain ⟨j, w⟩ := e
      rw [List.map_cons, List.nodup_cons] at h
      rw [get_cons, List.mem_cons, ih h.2, id, id]
      by_cases hkey : j = k
      · have hother : get id kvs k ≠ some v := by
          rw [ne_eq, ← ih h.2, ← hkey]
          exact fun hmem => h.1 (List.mem_map.mpr ⟨(j, v), hmem, rfl⟩)
        rw [if_pos hkey, Option.some.injEq, or_iff_left hother, Prod.mk.injEq]
        exact ⟨fun heq => heq.2.symm, fun heq => ⟨hkey.symm, heq.symm⟩⟩
      · rw [if_neg hkey, or_iff_right]
        exact fun heq => hkey (congrArg Prod.fst heq).symm

/-- Where keys are different, the values paired with a key are the one it has. -/
theorem filterMap_eq_get [DecidableEq κ] {kvs : List (κ × ν)} {k : κ}
    (h : (kvs.map Prod.fst).Nodup) :
    (kvs.filterMap fun e => if e.1 = k then some e.2 else none) = (get id kvs k).toList := by
  induction kvs with
  | nil => rfl
  | cons e kvs ih =>
      obtain ⟨j, w⟩ := e
      rw [List.map_cons, List.nodup_cons] at h
      rw [get_cons, List.filterMap_cons, ih h.2, id, id]
      by_cases hkey : j = k
      · have hother : get id kvs k = none := by
          rw [Option.eq_none_iff_forall_ne_some]
          intro v hget
          rw [← mem_iff_get h.2, ← hkey] at hget
          exact h.1 (List.mem_map.mpr ⟨(j, v), hget, rfl⟩)
        rw [if_pos hkey, if_pos hkey, hother]
        rfl
      · rw [if_neg hkey, if_neg hkey]

theorem key_of_add {kvs : List (κ × ν)} {k : κ} {v : ν} {e : κ × ν} (h : e ∈ add fold kvs k v) :
    e.1 = k ∨ e.1 ∈ kvs.map Prod.fst := by
  induction kvs with
  | nil =>
      rw [add, List.mem_singleton] at h
      exact Or.inl (by rw [h])
  | cons d kvs ih =>
      rw [add] at h
      rw [List.map_cons, List.mem_cons]
      by_cases hfold : fold d.1 = fold k
      · rw [if_pos hfold, List.mem_cons] at h
        cases h with
        | inl heq => exact Or.inr (Or.inl (by rw [heq]))
        | inr hmem => exact Or.inr (Or.inr (List.mem_map_of_mem hmem))
      · rw [if_neg hfold, List.mem_cons] at h
        cases h with
        | inl heq => exact Or.inr (Or.inl (by rw [heq]))
        | inr hmem => exact (ih hmem).imp_right Or.inr

theorem value_of_add {kvs : List (κ × ν)} {k : κ} {v : ν} {e : κ × ν} (h : e ∈ add fold kvs k v) :
    e.2 = v ∨ e.2 ∈ kvs.map Prod.snd := by
  induction kvs with
  | nil =>
      rw [add, List.mem_singleton] at h
      exact Or.inl (by rw [h])
  | cons d kvs ih =>
      rw [add] at h
      rw [List.map_cons, List.mem_cons]
      by_cases hfold : fold d.1 = fold k
      · rw [if_pos hfold, List.mem_cons] at h
        cases h with
        | inl heq => exact Or.inl (by rw [heq])
        | inr hmem => exact Or.inr (Or.inr (List.mem_map_of_mem hmem))
      · rw [if_neg hfold, List.mem_cons] at h
        cases h with
        | inl heq => exact Or.inr (Or.inl (by rw [heq]))
        | inr hmem => exact (ih hmem).imp_right Or.inr

/-- Nothing is left after adding pairs but their keys and their values. -/
theorem mem_addAll {kvs new : List (κ × ν)} {e : κ × ν} (h : e ∈ addAll fold kvs new) :
    e.1 ∈ (kvs ++ new).map Prod.fst ∧ e.2 ∈ (kvs ++ new).map Prod.snd := by
  induction new generalizing kvs with
  | nil =>
      rw [List.append_nil]
      exact ⟨List.mem_map_of_mem h, List.mem_map_of_mem h⟩
  | cons d new ih =>
      have hstep : addAll fold kvs (d :: new) = addAll fold (add fold kvs d.1 d.2) new := rfl
      rw [hstep] at h
      obtain ⟨hkey, hvalue⟩ := ih h
      simp only [List.map_append, List.mem_append, List.map_cons, List.mem_cons] at hkey hvalue ⊢
      refine ⟨?_, ?_⟩
      · rcases hkey with hkey | hkey
        · obtain ⟨b, hb, hbkey⟩ := List.mem_map.mp hkey
          rw [← hbkey]
          exact (key_of_add hb).elim (fun heq => Or.inr (Or.inl heq)) Or.inl
        · exact Or.inr (Or.inr hkey)
      · rcases hvalue with hvalue | hvalue
        · obtain ⟨b, hb, hbvalue⟩ := List.mem_map.mp hvalue
          rw [← hbvalue]
          exact (value_of_add hb).elim (fun heq => Or.inr (Or.inl heq)) Or.inl
        · exact Or.inr (Or.inr hvalue)

/-- Where keys are different, the last pair of a key is its first. -/
theorem get_reverse {kvs : List (κ × ν)} {k : κ} (h : (kvs.map fun e => fold e.1).Nodup) :
    get fold kvs.reverse k = get fold kvs k := by
  have hself : addAll fold [] kvs = kvs := addAll_distinct h
  have hget := @get_addAll _ _ _ _ fold [] kvs k
  rw [hself] at hget
  rw [hget]
  exact Option.or_none.symm

variable {κ'' : Type*} [DecidableEq κ''] {fold' : κ → κ''}

theorem add_congr {kvs : List (κ × ν)} {k : κ} {v : ν}
    (h : ∀ j ∈ kvs.map Prod.fst, fold j = fold k ↔ fold' j = fold' k) :
    add fold kvs k v = add fold' kvs k v := by
  induction kvs with
  | nil => rfl
  | cons e kvs ih =>
      rw [List.map_cons, List.forall_mem_cons] at h
      rw [add, add, ih h.2]
      by_cases hfold : fold e.1 = fold k
      · rw [if_pos hfold, if_pos (h.1.mp hfold)]
      · rw [if_neg hfold, if_neg fun heq => hfold (h.1.mpr heq)]

/-- Keys that are the same either way are added the same either way. -/
theorem addAll_congr {kvs new : List (κ × ν)}
    (h : ∀ j ∈ (kvs ++ new).map Prod.fst, ∀ k ∈ new.map Prod.fst,
      fold j = fold k ↔ fold' j = fold' k) :
    addAll fold kvs new = addAll fold' kvs new := by
  induction new generalizing kvs with
  | nil => rfl
  | cons e new ih =>
      have hstep : addAll fold kvs (e :: new) = addAll fold (add fold kvs e.1 e.2) new := rfl
      have hstep' : addAll fold' kvs (e :: new) = addAll fold' (add fold' kvs e.1 e.2) new := rfl
      have hadd : add fold kvs e.1 e.2 = add fold' kvs e.1 e.2 := by
        apply add_congr
        intro j hj
        apply h j _ e.1 List.mem_cons_self
        rw [List.map_append]
        exact List.mem_append_left _ hj
      rw [hstep, hstep', ← hadd]
      apply ih
      intro j hj k hk
      apply h j _ k (List.mem_cons_of_mem _ hk)
      rw [List.map_append, List.mem_append] at hj ⊢
      cases hj with
      | inl hadded =>
          obtain ⟨d, hd, rfl⟩ := List.mem_map.mp hadded
          cases key_of_add hd with
          | inl heq =>
              rw [heq]
              exact Or.inr List.mem_cons_self
          | inr hmem => exact Or.inl hmem
      | inr hmem => exact Or.inr (List.mem_cons_of_mem _ hmem)

/-- A coarser fold leaves the same list exactly when it takes no two of the keys for one. -/
theorem addAll_eq_iff {new : List (κ × ν)} (hcoarse : ∀ j k, fold' j = fold' k → fold j = fold k) :
    addAll fold [] new = addAll fold' [] new ↔
      ∀ j ∈ new.map Prod.fst, ∀ k ∈ new.map Prod.fst, fold j = fold k → fold' j = fold' k := by
  constructor
  · intro heq j hj k hk hsame
    have hfound : ∀ i ∈ new.map Prod.fst,
        ∃ e ∈ addAll fold [] new, fold' e.1 = fold' i := by
      intro i hi
      obtain ⟨d, hd, rfl⟩ := List.mem_map.mp hi
      obtain ⟨w, j, hget, -, -⟩ := @get_addAll_of_mem _ _ _ _ fold' _ _ _ hd
      obtain ⟨i', hmem, hi'⟩ := mem_of_get hget
      rw [heq]
      exact ⟨_, hmem, hi'⟩
    obtain ⟨e, he, hej⟩ := hfound j hj
    obtain ⟨d, hd, hdk⟩ := hfound k hk
    have hnodup : ((addAll fold [] new).map fun e => fold e.1).Nodup :=
      nodup_addAll List.nodup_nil
    have hone : e = d := by
      apply List.inj_on_of_nodup_map hnodup he hd
      rw [hcoarse _ _ hej, hcoarse _ _ hdk, hsame]
    rw [← hej, ← hdk, hone]
  · intro h
    apply addAll_congr
    intro j hj k hk
    exact ⟨h j hj k hk, hcoarse j k⟩

end AdbcBridge.Lib.KeyValue
