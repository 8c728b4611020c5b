import Mathlib.Data.List.Basic
import Mathlib.Data.List.TakeWhile
import Mathlib.Data.List.Nodup
import Mathlib.Tactic.Common

/-!
# Runs of one key

In a list that is sorted by a key the elements of one key are next to each other.  `dedupe`
leaves the first of each run, and `groups` cuts the list where the key changes; either way a
key is there once.
-/

namespace AdbcBridge.Lib.Groups

variable {α κ : Type*} [DecidableEq κ] (key : α → κ)

/-- The first of each run, where the element that was kept last has the key `last`. -/
def dedupeFrom (last : Option κ) : List α → List α
  | [] => []
  | a :: l =>
      if last = some (key a) then dedupeFrom last l else a :: dedupeFrom (some (key a)) l

def dedupe (l : List α) : List α := dedupeFrom key none l

/-- The runs, each with its key. -/
def groups : List α → List (κ × List α)
  | [] => []
  | a :: l =>
      (key a, a :: l.takeWhile fun b => key b = key a) ::
        groups (l.dropWhile fun b => key b = key a)
termination_by l => l.length
decreasing_by exact Nat.lt_succ_of_le (List.length_dropWhile_le _ l)

variable {key} {r : κ → κ → Prop} {l : List α} {last : Option κ}

theorem dedupeFrom_sublist : (dedupeFrom key last l).Sublist l := by
  induction l generalizing last with
  | nil => exact List.Sublist.slnil
  | cons a l ih =>
      rw [dedupeFrom]
      split_ifs
      · exact ih.cons a
      · exact ih.cons_cons a

theorem dedupe_sublist : (dedupe key l).Sublist l := dedupeFrom_sublist

/-- No key is lost. -/
theorem exists_kept {a : α} (h : a ∈ l) :
    last = some (key a) ∨ ∃ b ∈ dedupeFrom key last l, key b = key a := by
  induction l generalizing last with
  | nil => cases h
  | cons c l ih =>
      rw [dedupeFrom]
      rw [List.mem_cons] at h
      split_ifs with hlast
      · cases h with
        | inl heq => exact Or.inl (by rw [hlast, heq])
        | inr hmem => exact ih hmem
      · right
        cases h with
        | inl heq => exact ⟨c, List.mem_cons_self, by rw [heq]⟩
        | inr hmem =>
            cases @ih (some (key c)) hmem with
            | inl hkey => exact ⟨c, List.mem_cons_self, Option.some.inj hkey⟩
            | inr hkept =>
                obtain ⟨b, hb, hkey⟩ := hkept
                exact ⟨b, List.mem_cons_of_mem c hb, hkey⟩

theorem exists_mem_dedupe {a : α} (h : a ∈ l) : ∃ b ∈ dedupe key l, key b = key a := by
  cases @exists_kept _ _ _ key l none a h with
  | inl hnone => cases hnone
  | inr hkept => exact hkept

/-- The first element of its key in a list stays. -/
theorem mem_dedupeFrom_append {before after : List α} {a : α} (hlast : last ≠ some (key a))
    (h : ∀ b ∈ before, key b ≠ key a) : a ∈ dedupeFrom key last (before ++ a :: after) := by
  induction before generalizing last with
  | nil =>
      rw [List.nil_append, dedupeFrom, if_neg hlast]
      exact List.mem_cons_self
  | cons b before ih =>
      have hb := h b List.mem_cons_self
      have hrest := fun c hc => h c (List.mem_cons_of_mem b hc)
      rw [List.cons_append, dedupeFrom]
      split_ifs
      · exact ih hlast hrest
      · exact List.mem_cons_of_mem b (ih (fun heq => hb (Option.some.inj heq)) hrest)

section
variable (hanti : ∀ x y, r x y → r y x → x = y)
include hanti

theorem nodup_dedupeFrom (h : l.Pairwise fun a b => r (key a) (key b))
    (hlast : ∀ k, last = some k → ∀ a ∈ l, r k (key a)) :
    ((dedupeFrom key last l).map key).Nodup ∧
      ∀ k, last = some k → k ∉ (dedupeFrom key last l).map key := by
  induction l generalizing last with
  | nil => exact ⟨List.nodup_nil, fun k _ => List.not_mem_nil⟩
  | cons a l ih =>
      rw [List.pairwise_cons] at h
      rw [dedupeFrom]
      split_ifs with hsame
      · exact ih h.2 fun k hk b hb => hlast k hk b (List.mem_cons_of_mem a hb)
      · have hbelow : ∀ k, some (key a) = some k → ∀ b ∈ l, r k (key b) := by
          intro k hk b hb
          rw [← Option.some.inj hk]
          exact h.1 b hb
        obtain ⟨hnodup, hfresh⟩ := ih h.2 hbelow
        rw [List.map_cons]
        refine ⟨List.nodup_cons.mpr ⟨hfresh (key a) rfl, hnodup⟩, ?_⟩
        intro k hk hmem
        have hka := hlast k hk a List.mem_cons_self
        have hne : key a ≠ k := fun heq => hsame (by rw [hk, heq])
        rw [List.mem_cons] at hmem
        cases hmem with
        | inl heq => exact hne heq.symm
        | inr hlater =>
            obtain ⟨b, hb, hbk⟩ := List.mem_map.mp hlater
            have hab := h.1 b (dedupeFrom_sublist.subset hb)
            rw [hbk] at hab
            exact hne (hanti _ _ hab hka)

/-- In a sorted list every key is kept once. -/
theorem nodup_dedupe (h : l.Pairwise fun a b => r (key a) (key b)) :
    ((dedupe key l).map key).Nodup :=
  (nodup_dedupeFrom hanti h fun k hk => by cases hk).1

end

/-! ## Groups -/

theorem flatMap_groups (l : List α) : (groups key l).flatMap Prod.snd = l := by
  induction l using groups.induct key with
  | case1 =>
      rw [groups]
      rfl
  | case2 a l ih =>
      rw [groups, List.flatMap_cons, ih, List.cons_append, List.takeWhile_append_dropWhile]

theorem groups_sublist {g : κ × List α} (h : g ∈ groups key l) : g.2.Sublist l := by
  induction l using groups.induct key with
  | case1 =>
      rw [groups] at h
      cases h
  | case2 a l ih =>
      rw [groups, List.mem_cons] at h
      cases h with
      | inl heq =>
          rw [heq]
          exact (List.takeWhile_sublist _).cons_cons a
      | inr hmem => exact ((ih hmem).trans (List.dropWhile_sublist _)).cons a

theorem key_of_mem_groups {g : κ × List α} (h : g ∈ groups key l) : ∀ a ∈ g.2, key a = g.1 := by
  induction l using groups.induct key with
  | case1 =>
      rw [groups] at h
      cases h
  | case2 a l ih =>
      rw [groups, List.mem_cons] at h
      cases h with
      | inl heq =>
          rw [heq, List.forall_mem_cons]
          refine ⟨rfl, ?_⟩
          intro b hb
          have hkey := List.mem_takeWhile_imp hb
          exact of_decide_eq_true hkey
      | inr hmem => exact ih hmem

theorem exists_of_mem_groups {g : κ × List α} (h : g ∈ groups key l) : ∃ a ∈ l, key a = g.1 := by
  induction l using groups.induct key with
  | case1 =>
      rw [groups] at h
      cases h
  | case2 a l ih =>
      rw [groups, List.mem_cons] at h
      cases h with
      | inl heq => exact ⟨a, List.mem_cons_self, by rw [heq]⟩
      | inr hmem =>
          obtain ⟨b, hb, hkey⟩ := ih hmem
          exact ⟨b, List.mem_cons_of_mem a ((List.dropWhile_sublist _).subset hb), hkey⟩

/-- Every element is in a group of its key. -/
theorem exists_group (key : α → κ) {a : α} (h : a ∈ l) :
    ∃ g ∈ groups key l, g.1 = key a ∧ a ∈ g.2 := by
  have hmem : a ∈ (groups key l).flatMap Prod.snd := by
    rw [flatMap_groups]
    exact h
  obtain ⟨g, hg, ha⟩ := List.mem_flatMap.mp hmem
  exact ⟨g, hg, (key_of_mem_groups hg a ha).symm, ha⟩

/-- Of a sorted list every key has one group. -/
theorem nodup_groups (hanti : ∀ x y, r x y → r y x → x = y)
    (h : l.Pairwise fun a b => r (key a) (key b)) : ((groups key l).map Prod.fst).Nodup := by
  induction l using groups.induct key with
  | case1 =>
      rw [groups]
      exact List.nodup_nil
  | case2 a l ih =>
      have hrest := ih ((List.pairwise_cons.mp h).2.sublist (List.dropWhile_sublist _))
      rw [groups, List.map_cons]
      refine List.nodup_cons.mpr ⟨?_, hrest⟩
      intro hmem
      obtain ⟨g, hg, hkey⟩ := List.mem_map.mp hmem
      obtain ⟨b, hb, hbg⟩ := exists_of_mem_groups hg
      -- what the rest starts with has another key, so all of it has
      cases hdrop : l.dropWhile (fun b => key b = key a) with
      | nil =>
          rw [hdrop] at hb
          cases hb
      | cons c rest =>
          have hc : key c ≠ key a := by
            have hhead := List.head?_dropWhile_not (fun b => decide (key b = key a)) l
            rw [hdrop] at hhead
            simpa using hhead
          have hsub : (c :: rest).Sublist l := by
            rw [← hdrop]
            exact List.dropWhile_sublist _
          have hac := (List.pairwise_cons.mp h).1 c (hsub.subset List.mem_cons_self)
          rw [hdrop, List.mem_cons] at hb
          cases hb with
          | inl heq => exact hc (by rw [← heq, hbg, hkey])
          | inr hlater =>
              have hsorted := (List.pairwise_cons.mp h).2.sublist hsub
              have hcb := (List.pairwise_cons.mp hsorted).1 b hlater
              rw [hbg, hkey] at hcb
              exact hc (hanti _ _ hcb hac)

end AdbcBridge.Lib.Groups
