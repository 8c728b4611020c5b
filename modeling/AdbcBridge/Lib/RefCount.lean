import Mathlib.Data.Multiset.AddSub
import Mathlib.Data.Multiset.Count
import Mathlib.Logic.Function.Basic

/-!
# Reference counts

Resources that several holders share.  Each has a count of its references; whoever drops the
last one frees it.  Where a reference is only taken by someone who has one, and everyone drops
what they hold, the counts are the references held, nothing is freed while it is held, and
nothing is freed twice.
-/

namespace AdbcBridge.Lib

variable {ρ : Type*} [DecidableEq ρ]

/-- The references to each resource, and what has been freed, in order. -/
structure RefCounts (ρ : Type*) where
  refs : ρ → Nat := fun _ => 0
  freed : List ρ := []

namespace RefCounts

/-- A new resource, with the reference of its maker. -/
def make (c : RefCounts ρ) (r : ρ) : RefCounts ρ :=
  { c with refs := Function.update c.refs r 1 }

def ref (c : RefCounts ρ) (r : ρ) : RefCounts ρ :=
  { c with refs := Function.update c.refs r (c.refs r + 1) }

/-- Drop a reference, and free the resource with the last one. -/
def unref (c : RefCounts ρ) (r : ρ) : RefCounts ρ :=
  let left := c.refs r - 1
  { refs := Function.update c.refs r left
    freed := if left = 0 then c.freed ++ [r] else c.freed }

theorem make_refs (c : RefCounts ρ) (r : ρ) :
    (c.make r).refs = Function.update c.refs r 1 := rfl

theorem ref_refs (c : RefCounts ρ) (r : ρ) :
    (c.ref r).refs = Function.update c.refs r (c.refs r + 1) := rfl

theorem unref_refs (c : RefCounts ρ) (r : ρ) :
    (c.unref r).refs = Function.update c.refs r (c.refs r - 1) := rfl

/-- Drop these references one after the other. -/
def unrefAll (c : RefCounts ρ) (l : List ρ) : RefCounts ρ := l.foldl unref c

/-- The counts account for the references held: what has been made and is not held is freed. -/
structure Accounts (c : RefCounts ρ) (made : List ρ) (held : Multiset ρ) : Prop where
  counted : ∀ r, c.refs r = held.count r
  once : c.freed.Nodup
  freed : ∀ r, r ∈ c.freed ↔ r ∈ made ∧ r ∉ held
  distinct : made.Nodup
  made : ∀ r ∈ held, r ∈ made

variable {c : RefCounts ρ} {made : List ρ} {held : Multiset ρ} {r : ρ}

namespace Accounts

theorem empty : Accounts ({} : RefCounts ρ) [] 0 where
  counted := fun r => (Multiset.count_zero r).symm
  once := List.nodup_nil
  freed := by simp
  made := by simp
  distinct := List.nodup_nil

/-- What is held is not freed. -/
theorem alive (h : c.Accounts made held) (hr : r ∈ held) : r ∉ c.freed := by
  intro hfreed
  exact ((h.freed r).mp hfreed).2 hr

/-- Where nothing is held all that was made is freed, each once. -/
theorem all_freed (h : c.Accounts made 0) : c.freed.Perm made := by
  rw [List.perm_ext_iff_of_nodup h.once h.distinct]
  intro r
  rw [h.freed r]
  exact and_iff_left (Multiset.notMem_zero r)

theorem make (h : c.Accounts made held) (hnew : r ∉ made) :
    (c.make r).Accounts (r :: made) (r ::ₘ held) where
  counted := by
    have hheld : r ∉ held := fun hr => hnew (h.made r hr)
    intro x
    by_cases hx : x = r
    · rw [hx, make_refs, Function.update_self, Multiset.count_cons_self,
        Multiset.count_eq_zero_of_notMem hheld]
    · rw [make_refs, Function.update_of_ne hx, Multiset.count_cons_of_ne hx]
      exact h.counted x
  once := h.once
  freed := by
    intro x
    rw [List.mem_cons, Multiset.mem_cons]
    by_cases hx : x = r
    · rw [hx]
      constructor
      · exact fun hfreed => absurd ((h.freed r).mp hfreed).1 hnew
      · exact fun hleft => absurd (Or.inl rfl) hleft.2
    · rw [or_iff_right hx, or_iff_right hx]
      exact h.freed x
  made := by
    intro x hx
    rw [Multiset.mem_cons] at hx
    rw [List.mem_cons]
    exact hx.imp_right (h.made x)
  distinct := List.nodup_cons.mpr ⟨hnew, h.distinct⟩

theorem ref (h : c.Accounts made held) (hr : r ∈ held) :
    (c.ref r).Accounts made (r ::ₘ held) where
  counted := by
    intro x
    by_cases hx : x = r
    · rw [hx, ref_refs, Function.update_self, Multiset.count_cons_self, h.counted r]
    · rw [ref_refs, Function.update_of_ne hx, Multiset.count_cons_of_ne hx]
      exact h.counted x
  once := h.once
  freed := by
    intro x
    have hmem : x ∈ r ::ₘ held ↔ x ∈ held := by
      rw [Multiset.mem_cons]
      exact or_iff_right_of_imp fun hx => hx ▸ hr
    rw [hmem]
    exact h.freed x
  made := by
    intro x hx
    rw [Multiset.mem_cons] at hx
    exact hx.elim (fun heq => heq ▸ h.made r hr) (h.made x)
  distinct := h.distinct

theorem mem_erase_iff {x : ρ} : x ∈ held.erase r ↔ x ∈ held ∧ (x = r → held.count r ≠ 1) := by
  rw [← Multiset.count_pos, ← Multiset.count_pos]
  by_cases hx : x = r
  · rw [hx, Multiset.count_erase_self]
    simp only [forall_const]
    omega
  · rw [Multiset.count_erase_of_ne hx]
    simp [hx]

theorem unref (h : c.Accounts made held) (hr : r ∈ held) :
    (c.unref r).Accounts made (held.erase r) where
  counted := by
    intro x
    by_cases hx : x = r
    · rw [hx, unref_refs, Function.update_self, Multiset.count_erase_self, h.counted r]
    · rw [unref_refs, Function.update_of_ne hx, Multiset.count_erase_of_ne hx]
      exact h.counted x
  once := by
    unfold RefCounts.unref
    dsimp only
    split_ifs
    · rw [List.nodup_append]
      refine ⟨h.once, List.nodup_singleton r, ?_⟩
      intro x hx y hy heq
      rw [List.mem_singleton] at hy
      exact h.alive hr (hy ▸ heq ▸ hx)
    · exact h.once
  freed := by
    intro x
    have hpos : 0 < held.count r := Multiset.count_pos.mpr hr
    have hmem : x ∈ (c.unref r).freed ↔ x ∈ c.freed ∨ x = r ∧ held.count r = 1 := by
      unfold RefCounts.unref
      dsimp only
      rw [h.counted r]
      split_ifs with hlast
      · rw [List.mem_append, List.mem_singleton]
        have hone : held.count r = 1 := by omega
        simp [hone]
      · have hmore : held.count r ≠ 1 := by omega
        simp [hmore]
    rw [hmem, h.freed x, mem_erase_iff]
    by_cases hx : x = r
    · rw [hx]
      simp [h.made r hr, hr]
    · simp [hx]
  made := fun x hx => h.made x (Multiset.mem_of_mem_erase hx)
  distinct := h.distinct

theorem ref_cons (h : c.Accounts made (r ::ₘ held)) :
    (c.ref r).Accounts made (r ::ₘ r ::ₘ held) :=
  h.ref (Multiset.mem_cons_self r held)

theorem unref_cons (h : c.Accounts made (r ::ₘ held)) : (c.unref r).Accounts made held := by
  have hunref := h.unref (Multiset.mem_cons_self r held)
  rw [Multiset.erase_cons_head] at hunref
  exact hunref

theorem unrefAll (h : c.Accounts made held) {l : List ρ} (hl : (l : Multiset ρ) ≤ held) :
    (c.unrefAll l).Accounts made (held - l) := by
  induction l generalizing c held with
  | nil =>
      rw [Multiset.coe_nil, Multiset.sub_zero]
      exact h
  | cons r rest ih =>
      have hr : r ∈ held := Multiset.mem_of_le hl (Multiset.mem_coe.mpr List.mem_cons_self)
      have hrest : (rest : Multiset ρ) ≤ held.erase r := by
        rw [← Multiset.cons_coe] at hl
        have herase := Multiset.erase_le_erase r hl
        rw [Multiset.erase_cons_head] at herase
        exact herase
      have herase := ih (h.unref hr) hrest
      rw [← Multiset.cons_coe, Multiset.sub_cons]
      exact herase

end Accounts

end RefCounts

end AdbcBridge.Lib
