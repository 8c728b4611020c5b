import Mathlib.Data.List.Infix
import Mathlib.Tactic.Common

/-!
# Scripts told to another party

A script of calls is told to a party one call after the other, up to the first that cannot be made
or that fails.  What the party holds for the caller by then is given back, handle by handle.
-/

namespace AdbcBridge.Lib.Script

variable {κ φ η : Type*}

/-- A party: the calls that cannot be made to it, and what is wrong with its answer to the last of
the calls made so far. -/
structure Party (κ φ : Type*) where
  cannot : κ → Option φ
  fault : List κ → Option φ

/-- The calls made so far, and the fault that ended them. -/
structure Told (κ φ : Type*) where
  log : List κ := []
  failure : Option φ := none

namespace Party

variable (p : Party κ φ)

/-- The next call, unless one before it failed. -/
def tell (t : Told κ φ) (c : κ) : Told κ φ :=
  match t.failure with
  | some _ => t
  | none =>
      match p.cannot c with
      | some f => { t with failure := some f }
      | none => { log := t.log ++ [c], failure := p.fault (t.log ++ [c]) }

def tellAll (t : Told κ φ) (script : List κ) : Told κ φ := script.foldl p.tell t

/-- Every call of the script can be made, and is answered well. -/
def Obliges (log script : List κ) : Prop :=
  ∀ sent c, sent ++ [c] <+: script →
    p.cannot c = none ∧ p.fault (log ++ sent ++ [c]) = none

/-- Part of the script was sent; the next call cannot be made, or the last one failed. -/
def Stops (log script : List κ) (t : Told κ φ) : Prop :=
  ∃ sent, sent <+: script ∧ t.log = log ++ sent ∧
    ((∃ c f, sent ++ [c] <+: script ∧ p.cannot c = some f ∧ t.failure = some f) ∨
      ∃ f, p.fault t.log = some f ∧ t.failure = some f)

variable {p}

theorem tellAll_append {t : Told κ φ} {s s' : List κ} :
    p.tellAll t (s ++ s') = p.tellAll (p.tellAll t s) s' := List.foldl_append

theorem tellAll_failed {t : Told κ φ} {f : φ} (hfail : t.failure = some f) {script : List κ} :
    p.tellAll t script = t := by
  induction script with
  | nil => rfl
  | cons c script ih =>
      have hstep : p.tell t c = t := by
        unfold tell
        rw [hfail]
      rw [tellAll, List.foldl_cons, hstep]
      exact ih

theorem obliges_cons {log script : List κ} {c : κ} :
    p.Obliges log (c :: script) ↔
      (p.cannot c = none ∧ p.fault (log ++ [c]) = none) ∧ p.Obliges (log ++ [c]) script := by
  constructor
  · intro h
    constructor
    · have hfirst := h [] c (by simp)
      rwa [List.append_nil] at hfirst
    · intro sent d hsent
      have hnext := h (c :: sent) d (by simpa using hsent)
      simpa using hnext
  · intro h sent d hsent
    cases sent with
    | nil =>
        rw [List.nil_append, List.cons_prefix_cons] at hsent
        rw [hsent.1, List.append_nil]
        exact h.1
    | cons e sent =>
        rw [List.cons_append, List.cons_prefix_cons] at hsent
        have hnext := h.2 sent d hsent.2
        rw [hsent.1]
        simpa using hnext

theorem stops_cons {log script : List κ} {c : κ} {t : Told κ φ}
    (h : p.Stops (log ++ [c]) script t) : p.Stops log (c :: script) t := by
  obtain ⟨sent, hsent, hlog, hwhy⟩ := h
  refine ⟨c :: sent, List.cons_prefix_cons.mpr ⟨rfl, hsent⟩, by simp [hlog], hwhy.imp_left ?_⟩
  rintro ⟨d, f, hd, hcannot⟩
  exact ⟨d, f, List.cons_prefix_cons.mpr ⟨rfl, hd⟩, hcannot⟩

/-- A script is told to its end to a party that obliges, and up to the failure to another. -/
theorem tell_script {log script : List κ} :
    (p.Obliges log script ∧ p.tellAll { log := log } script = { log := log ++ script }) ∨
      (¬ p.Obliges log script ∧ p.Stops log script (p.tellAll { log := log } script)) := by
  induction script generalizing log with
  | nil =>
      refine Or.inl ⟨?_, by simp [tellAll]⟩
      intro sent c hsent
      simp at hsent
  | cons c script ih =>
      rw [tellAll, List.foldl_cons, ← tellAll, obliges_cons]
      cases hcannot : p.cannot c with
      | some f =>
          have hstep : p.tell { log := log } c = { log := log, failure := some f } := by
            simp [tell, hcannot]
          rw [hstep, tellAll_failed rfl]
          exact Or.inr ⟨by simp, [], List.nil_prefix, by simp,
            Or.inl ⟨c, f, by simp, hcannot, rfl⟩⟩
      | none =>
          have hstep : p.tell { log := log } c =
              { log := log ++ [c], failure := p.fault (log ++ [c]) } := by
            simp [tell, hcannot]
          rw [hstep]
          cases hfault : p.fault (log ++ [c]) with
          | some f =>
              rw [tellAll_failed rfl]
              exact Or.inr ⟨by simp, [c], by simp, rfl, Or.inr ⟨f, hfault, rfl⟩⟩
          | none =>
              cases @ih (log ++ [c]) with
              | inl hall =>
                  refine Or.inl ⟨⟨⟨rfl, rfl⟩, hall.1⟩, ?_⟩
                  rw [hall.2, List.append_assoc]
                  rfl
              | inr hstop => exact Or.inr ⟨fun hobl => hstop.1 hobl.2, stops_cons hstop.2⟩

/-- What telling a script keeps, call by call. -/
theorem tellAll_keeps {P : List κ → Prop} {t : Told κ φ} {script : List κ} (hlog : P t.log)
    (hstep : ∀ log, ∀ c ∈ script, P log → P (log ++ [c])) : P (p.tellAll t script).log := by
  induction script generalizing t with
  | nil => exact hlog
  | cons c script ih =>
      apply ih
      · unfold tell
        split
        · exact hlog
        · split
          · exact hlog
          · exact hstep _ c List.mem_cons_self hlog
      · exact fun log d hd => hstep log d (List.mem_cons_of_mem c hd)

/-- A script that came to its end was sent. -/
theorem tellAll_sent {t : Told κ φ} {script : List κ}
    (hend : (p.tellAll t script).failure = none) :
    t.failure = none ∧ (p.tellAll t script).log = t.log ++ script := by
  cases hfail : t.failure with
  | some f =>
      rw [tellAll_failed hfail, hfail] at hend
      exact nomatch hend
  | none =>
      have ht : t = { log := t.log } := by rw [← hfail]
      rw [ht] at hend ⊢
      cases @tell_script _ _ p t.log script with
      | inl hall =>
          rw [hall.2]
          exact ⟨rfl, rfl⟩
      | inr hstop =>
          obtain ⟨-, sent, -, -, ⟨c, f, -, -, hf⟩ | ⟨f, -, hf⟩⟩ := hstop
          · rw [hf] at hend
            exact nomatch hend
          · rw [hf] at hend
            exact nomatch hend

end Party

/-! ## What the party holds -/

/-- The handles of a party: which one a call may make, how one is given back, and whether it is
there after the calls made so far. -/
structure Handles (κ η : Type*) where
  makes : κ → Option η
  release : η → κ
  holds : η → List κ → Bool

namespace Handles

variable (H : Handles κ η)

/-- What a party is to keep to: a handle comes of its own call, and its release is the end of
it. -/
structure Lawful : Prop where
  injective : Function.Injective H.release
  start : ∀ h, H.holds h [] = false
  release_makes : ∀ h, H.makes (H.release h) = none
  released : ∀ h log, H.holds h (log ++ [H.release h]) = false
  made : ∀ h log c, H.makes c ≠ some h → H.holds h log = false → H.holds h (log ++ [c]) = false

/-- A handle is only given back while it is there. -/
def Proper (log : List κ) : Prop :=
  ∀ before h after, log = before ++ H.release h :: after → H.holds h before = true

/-- Give a handle back, if it is there. -/
def close (h : η) (log : List κ) : List κ :=
  if H.holds h log then log ++ [H.release h] else log

def closeAll (hs : List η) (log : List κ) : List κ := hs.foldl (fun log h => H.close h log) log

variable {H} {log : List κ}

theorem proper_nil : H.Proper [] := by
  intro before h after heq
  simp at heq

/-- The release at the end of a log, or one before it. -/
theorem proper_append {c : κ} (hlog : H.Proper log)
    (hc : ∀ h, c = H.release h → H.holds h log = true) : H.Proper (log ++ [c]) := by
  intro before h after heq
  rcases List.eq_nil_or_concat after with rfl | ⟨after, d, rfl⟩
  · have hboth := List.append_inj' heq rfl
    rw [← hboth.1]
    exact hc h (List.singleton_inj.mp hboth.2)
  · rw [List.concat_eq_append, ← List.cons_append, ← List.append_assoc] at heq
    exact hlog before h after (List.append_inj' heq rfl).1

theorem proper_close {h : η} (hlaw : H.Lawful) (hlog : H.Proper log) :
    H.Proper (H.close h log) := by
  unfold close
  split
  · next hholds =>
      apply proper_append hlog
      intro h' heq
      rw [← hlaw.injective heq]
      exact hholds
  · exact hlog

theorem proper_closeAll {hs : List η} (hlaw : H.Lawful) (hlog : H.Proper log) :
    H.Proper (H.closeAll hs log) := by
  induction hs generalizing log with
  | nil => exact hlog
  | cons h hs ih => exact ih (proper_close hlaw hlog)

/-- What giving back keeps, handle by handle. -/
theorem closeAll_keeps {P : List κ → Prop} {hs : List η} (hlog : P log)
    (hstep : ∀ log, ∀ h ∈ hs, P log → P (log ++ [H.release h])) : P (H.closeAll hs log) := by
  induction hs generalizing log with
  | nil => exact hlog
  | cons h hs ih =>
      apply ih
      · dsimp only [close]
        split
        · exact hstep log h List.mem_cons_self hlog
        · exact hlog
      · exact fun log h' hmem => hstep log h' (List.mem_cons_of_mem h hmem)

/-- What is not there does not come back when others are given back. -/
theorem gone_close {h h' : η} (hlaw : H.Lawful) (hgone : H.holds h' log = false) :
    H.holds h' (H.close h log) = false := by
  unfold close
  split
  · exact hlaw.made h' log _ (by simp [hlaw.release_makes]) hgone
  · exact hgone

theorem gone_closeAll {hs : List η} {h : η} (hlaw : H.Lawful) (hgone : H.holds h log = false) :
    H.holds h (H.closeAll hs log) = false := by
  induction hs generalizing log with
  | nil => exact hgone
  | cons h' hs ih => exact ih (gone_close hlaw hgone)

theorem close_gone {h : η} (hlaw : H.Lawful) : H.holds h (H.close h log) = false := by
  unfold close
  split
  · exact hlaw.released h log
  · next hholds => exact Bool.not_eq_true _ ▸ hholds

/-- Nothing is left of what is given back. -/
theorem closeAll_gone {hs : List η} {h : η} (hlaw : H.Lawful) (hmem : h ∈ hs) :
    H.holds h (H.closeAll hs log) = false := by
  induction hs generalizing log with
  | nil => exact absurd hmem List.not_mem_nil
  | cons h' hs ih =>
      rw [List.mem_cons] at hmem
      cases hmem with
      | inl heq =>
          have hstep : H.closeAll (h' :: hs) log = H.closeAll hs (H.close h' log) := rfl
          rw [heq, hstep]
          exact gone_closeAll hlaw (close_gone hlaw)
      | inr hmem => exact ih hmem

variable {p : Party κ φ} {t : Told κ φ} {script : List κ}

/-- Telling a script without releases gives nothing back. -/
theorem proper_tellAll (hlog : H.Proper t.log) (hquiet : ∀ c ∈ script, ∀ h, c ≠ H.release h) :
    H.Proper (p.tellAll t script).log := by
  apply Party.tellAll_keeps hlog
  intro log c hc hproper
  exact proper_append hproper fun h heq => absurd heq (hquiet c hc h)

end Handles

end AdbcBridge.Lib.Script
