import AdbcBridge.Lib.Delimited
import Mathlib.Data.List.Basic

/-!
# Generic URIs

The generic syntax of a URI, `scheme://authority`, then a path, a query and a fragment, and that of
an authority, `userinfo@host:port`, as grammars.
-/

namespace AdbcBridge.Lib.GenericUri

open AdbcBridge.Lib.Delimited

/-- The characters that end an authority. -/
def endsAuthority (c : Char) : Bool := c = '/' ∨ c = '?' ∨ c = '#'

/-- A URI; its scheme may be left out where nothing else in it looks like one. -/
structure Uri where
  scheme : Option (List Char)
  authority : List Char
  rest : List Char
  scheme_closed : ∀ s ∈ scheme, ':' ∉ s
  authority_closed : ∀ c ∈ authority, endsAuthority c = false
  rest_opens : ∀ c ∈ rest.head?, endsAuthority c = true
  bare : scheme = none → ¬ "://".toList <:+: authority ++ rest

def Uri.text (u : Uri) : List Char :=
  (u.scheme.map fun s => s ++ "://".toList).getD [] ++ (u.authority ++ u.rest)

/-- A character of a host or a port as it stands. -/
def plain (c : Char) : Bool := c ∉ [':', '@', '[', ']', '/', '?', '#']

/-- A host: a name as it stands, or an address in brackets. -/
inductive IsHost : List Char → Prop where
  | name {h : List Char} : h ≠ [] → (∀ c ∈ h, plain c = true) → IsHost h
  | address {h : List Char} : (∀ c ∈ h, c = ':' ∨ plain c = true) → IsHost ('[' :: (h ++ [']']))

/-- The authority of a URI. -/
structure Authority where
  userinfo : Option (List Char) := none
  host : List Char
  port : Option (List Char) := none
  isHost : IsHost host
  port_plain : ∀ p ∈ port, ∀ c ∈ p, plain c = true

namespace Authority

/-- The host and the port, as they stand. -/
def hostPort (a : Authority) : List Char := a.host ++ (a.port.map fun p => ':' :: p).getD []

def text (a : Authority) : List Char :=
  (a.userinfo.map fun u => u ++ ['@']).getD [] ++ a.hostPort

/-- The port; an empty one is the default one. -/
def portOr (default : List Char) (a : Authority) : List Char :=
  match a.port with
  | none => default
  | some p => if p = [] then default else p

/-- The host and the port, the default one where there is none. -/
def address (default : List Char) (a : Authority) : List Char :=
  a.host ++ ':' :: a.portOr default

end Authority

/-! ## The text -/

theorem takeWhile_authority (u : Uri) :
    (u.authority ++ u.rest).takeWhile (fun c => ¬ endsAuthority c) = u.authority := by
  have hall : ∀ c ∈ u.authority, decide (¬ endsAuthority c = true) = true := by
    intro c hc
    rw [u.authority_closed c hc]
    rfl
  rw [List.takeWhile_append_of_pos hall]
  cases hrest : u.rest with
  | nil => exact List.append_nil _
  | cons c rest =>
      have hc : endsAuthority c = true := u.rest_opens c (by rw [hrest]; rfl)
      rw [List.takeWhile_cons_of_neg (by simp [hc]), List.append_nil]

/-- A text is an authority and what follows it. -/
theorem exists_authority (t : List Char) :
    ∃ authority rest, authority ++ rest = t ∧ (∀ c ∈ authority, endsAuthority c = false) ∧
      ∀ c ∈ rest.head?, endsAuthority c = true := by
  refine ⟨t.takeWhile fun c => ¬ endsAuthority c, t.dropWhile fun c => ¬ endsAuthority c,
    List.takeWhile_append_dropWhile, fun c hc => ?_, fun c hc => ?_⟩
  · simpa using List.mem_takeWhile_imp hc
  · have hhead := List.head?_dropWhile_not (fun c => decide ¬ endsAuthority c = true) t
    rw [hc] at hhead
    simpa using hhead

/-- A text that a scheme stands in front of. -/
theorem exists_uri {s : List Char} (hs : ':' ∉ s) (t : List Char) :
    ∃ u : Uri, u.scheme = some s ∧ u.text = s ++ "://".toList ++ t := by
  obtain ⟨authority, rest, rfl, hclosed, hopens⟩ := exists_authority t
  exact ⟨⟨some s, authority, rest, fun s' hs' => Option.some.inj hs' ▸ hs, hclosed, hopens,
    fun h => by cases h⟩, rfl, rfl⟩

/-- A text that does not look like one with a scheme. -/
theorem exists_bare_uri {t : List Char} (ht : ¬ "://".toList <:+: t) :
    ∃ u : Uri, u.scheme = none ∧ u.text = t := by
  obtain ⟨authority, rest, rfl, hclosed, hopens⟩ := exists_authority t
  exact ⟨⟨none, authority, rest, (fun s' hs' => by cases hs'), hclosed, hopens, fun _ => ht⟩,
    rfl, rfl⟩

/-! ## Host and port -/

theorem plain_ne {c : Char} (h : plain c = true) : c ≠ ':' ∧ c ≠ ']' := by
  simp only [plain, decide_eq_true_eq, List.mem_cons, List.not_mem_nil, or_false, not_or] at h
  exact ⟨h.1, h.2.2.2.1⟩

theorem portOr_plain {default : List Char} (hdefault : ∀ c ∈ default, plain c = true)
    (a : Authority) : ∀ c ∈ a.portOr default, plain c = true := by
  unfold Authority.portOr
  split
  · exact hdefault
  · rename_i p hp
    split
    · exact hdefault
    · exact a.port_plain p hp

/-- Host and port can be told from the address. -/
theorem address_injective {default : List Char} (hdefault : ∀ c ∈ default, plain c = true)
    {a b : Authority} (h : a.address default = b.address default) :
    a.host = b.host ∧ a.portOr default = b.portOr default := by
  have hcut (a : Authority) : lastCut ':' (a.address default) =
      (some a.host, a.portOr default) :=
    lastCut_append (fun hmem => (plain_ne (portOr_plain hdefault a ':' hmem)).1 rfl) _
  have hsame := hcut a
  rw [h, hcut b, Prod.mk.injEq, Option.some.injEq] at hsame
  exact ⟨hsame.1.symm, hsame.2.symm⟩

/-- No colon stands behind the last bracket of a host. -/
theorem host_no_colon {h : List Char} (hh : IsHost h) : ':' ∉ (lastCut ']' h).2 := by
  cases hh with
  | name _ hplain =>
      rw [lastCut_of_not_mem fun hmem => (plain_ne (hplain _ hmem)).2 rfl]
      exact fun hmem => (plain_ne (hplain _ hmem)).1 rfl
  | @address inside _ =>
      have hcut : lastCut ']' ('[' :: inside ++ [']']) = (some ('[' :: inside), []) :=
        lastCut_append List.not_mem_nil ('[' :: inside)
      rw [← List.cons_append, hcut]
      simp

/-- A colon stands behind the last bracket of an authority exactly if it has a port. -/
theorem colon_iff_port {a : Authority} (h : a.userinfo = none) :
    ':' ∈ (lastCut ']' a.text).2 ↔ a.port ≠ none := by
  unfold Authority.text Authority.hostPort
  rw [h]
  cases hport : a.port with
  | none =>
      simp only [Option.map_none, Option.getD_none, List.append_nil, List.nil_append]
      exact ⟨fun hmem => absurd hmem (host_no_colon a.isHost), fun hne => absurd rfl hne⟩
  | some p =>
      have hp : ']' ∉ ':' :: p := by
        intro hmem
        rcases List.mem_cons.mp hmem with hcolon | hmem
        · exact absurd hcolon (by decide)
        · exact (plain_ne (a.port_plain p hport _ hmem)).2 rfl
      simp only [Option.map_none, Option.map_some, Option.getD_none, Option.getD_some,
        List.nil_append]
      refine ⟨fun _ => Option.some_ne_none p, fun _ => ?_⟩
      have hhost := a.isHost
      generalize a.host = host at hhost ⊢
      cases hhost with
      | name _ hplain =>
          rw [lastCut_of_not_mem]
          · exact List.mem_append_right _ List.mem_cons_self
          · intro hmem
            rcases List.mem_append.mp hmem with hmem | hmem
            · exact (plain_ne (hplain _ hmem)).2 rfl
            · exact hp hmem
      | @address inside _ =>
          have hcut := lastCut_append hp ('[' :: inside)
          have hjoin : '[' :: (inside ++ [']']) ++ ':' :: p =
              '[' :: inside ++ ']' :: ':' :: p := by simp
          rw [hjoin, hcut]
          exact List.mem_cons_self

end AdbcBridge.Lib.GenericUri
