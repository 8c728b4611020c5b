import AdbcBridge.Delegate.UriRoundTrip
import AdbcBridge.Lib.PgUri
import Mathlib

/-!
# What libpq takes from a URI

The settings of a PostgreSQL URI under libpq's rules, stated of the parts of its grammar, and what
`ParseUriRest` finds in the same text.
-/

namespace AdbcBridge.Delegate.LibpqUri

open AdbcBridge.Lib AdbcBridge.Lib.Delimited AdbcBridge.Lib.PgUri
  AdbcBridge.Delegate.Keywords AdbcBridge.Delegate.NativeUri AdbcBridge.Delegate.ParseUri
  AdbcBridge.Delegate.UriRoundTrip

/-! ## The settings -/

/-- The parameter that stands over a part. -/
def settingParam : Setting → Text
  | .host => "host".toList
  | .port => "port".toList
  | .database => "dbname".toList
  | .user => "user".toList
  | .password => "password".toList

/-- What the authority and the path say of a setting. -/
def component (w : ConnectionUri) : Setting → Option Text
  | .host => some w.hostValue
  | .port => some w.portValue
  | .database => w.database.map Component.value
  | .user => w.userinfo.map fun u => u.user.value
  | .password => w.userinfo.bind fun u => u.password.map Component.value

/-- The last value the query has for a parameter; libpq knows their names in one case only. -/
def parameter (w : ConnectionUri) (name : Text) : Option Text :=
  KeyValue.get lower w.params.reverse name

/-- What libpq takes for a setting: a parameter stands over the part it names, and an empty value
counts as none. -/
def effective (w : ConnectionUri) (s : Setting) : Option Text :=
  given ((parameter w (settingParam s)).or (component w s))

/-! ## Decoding -/

theorem hexValue_of {c : Char} {n : Nat} (h : HexDigit c n) : hexValue c = some n ∧ n < 16 := by
  cases h with
  | digit h => interval_cases n <;> decide
  | @lower n h => interval_cases n <;> decide
  | @upper n h => interval_cases n <;> decide

theorem unescaped_of {s v : Text} (h : Spells s v) : unescaped s = v := by
  induction h with
  | nil => rfl
  | plain hc _ _ ih => rw [unescaped_ordinary hc, ih]
  | escape ha hb _ _ ih => rw [unescaped, (hexValue_of ha).1, (hexValue_of hb).1, ih]

theorem not_nul_of {s v : Text} (h : Spells s v) : '\x00' ∉ v := by
  induction h with
  | nil => exact List.not_mem_nil
  | plain _ hnul _ ih =>
      rw [List.mem_cons, not_or]
      exact ⟨Ne.symm hnul, ih⟩
  | @escape a b hi lo s v ha hb hne _ ih =>
      rw [List.mem_cons, not_or]
      refine ⟨?_, ih⟩
      intro heq
      have hnat := congrArg Char.toNat heq
      have hhi := (hexValue_of ha).2
      have hlo := (hexValue_of hb).2
      have hvalid : (hi * 16 + lo).isValidChar := Or.inl (by omega)
      rw [Char.toNat_ofNat (hi * 16 + lo), if_pos hvalid] at hnat
      exact hne hnat.symm

/-- `PercentDecode` gives the value that a text spells. -/
theorem percentDecode_of {s v : Text} (h : Spells s v) : percentDecode s = v := by
  rw [percentDecode, unescaped_of h, List.takeWhile_eq_self_iff]
  intro c hc
  rw [decide_eq_true_iff]
  exact fun hnul => not_nul_of h (hnul ▸ hc)

theorem percentDecode_component {ends : Text} (p : Component ends) :
    percentDecode p.text = p.value := percentDecode_of p.spells

theorem eq_nil_of_spells {s v : Text} (h : Spells s v) (hv : v = []) : s = [] := by
  cases h with
  | nil => rfl
  | plain _ _ _ => cases hv
  | escape _ _ _ _ => cases hv

/-! ## The authority -/

theorem not_mem_component {ends : Text} (p : Component ends) {c : Char} (hc : c ∈ ends) :
    c ∉ p.text := p.closed c hc

/-- No delimiter of the authority stands in the hosts. -/
theorem not_mem_hostPort (h : HostPort) {c : Char} (hc : c ∈ authorityEnds) : c ∉ h.text := by
  have hne : c ≠ ':' ∧ c ≠ '[' ∧ c ≠ ']' := by
    have hall : ∀ d ∈ authorityEnds, d ≠ ':' ∧ d ≠ '[' ∧ d ≠ ']' := by simp [authorityEnds]
    exact hall c hc
  have hhost : c ∉ h.host.text := by
    cases h.host with
    | name n => exact n.closed c (List.mem_append_right _ hc)
    | address a =>
        have ha := a.closed c (List.mem_cons_of_mem _ hc)
        simp [Host.text, hne.2.1, hne.2.2, ha]
  rw [HostPort.text, List.mem_append, not_or]
  refine ⟨hhost, ?_⟩
  cases h.port with
  | none => exact List.not_mem_nil
  | some p =>
      rw [Option.map_some, Option.getD_some, List.mem_cons, not_or]
      exact ⟨hne.1, p.closed c (List.mem_append_right _ hc)⟩

theorem mem_intercalate {sep : Text} {parts : List Text} {c : Char}
    (h : c ∈ List.intercalate sep parts) : c ∈ sep ∨ ∃ part ∈ parts, c ∈ part := by
  induction parts with
  | nil => cases h
  | cons part parts ih =>
      cases parts with
      | nil =>
          rw [List.intercalate_singleton] at h
          exact Or.inr ⟨part, List.mem_cons_self, h⟩
      | cons next parts =>
          rw [List.intercalate_cons_cons, List.mem_append, List.mem_append] at h
          rcases h with (h | h) | h
          · exact Or.inr ⟨part, List.mem_cons_self, h⟩
          · exact Or.inl h
          · rcases ih h with hsep | ⟨other, hother, hc⟩
            · exact Or.inl hsep
            · exact Or.inr ⟨other, List.mem_cons_of_mem part hother, hc⟩

theorem not_mem_hostText (w : ConnectionUri) {c : Char} (hc : c ∈ authorityEnds) :
    c ∉ w.hostText := by
  intro hmem
  rcases mem_intercalate hmem with hcomma | ⟨part, hpart, hc'⟩
  · rw [List.mem_singleton] at hcomma
    have hall : ',' ∉ authorityEnds := by simp [authorityEnds]
    exact hall (hcomma ▸ hc)
  · obtain ⟨h, -, rfl⟩ := List.mem_map.mp hpart
    exact not_mem_hostPort h hc hc'

theorem not_mem_userinfo (u : Userinfo) {c : Char} (hc : c ∈ ['/', '?', '#']) : c ∉ u.text := by
  have hends : c ∈ authorityEnds := List.mem_append_left ['@'] hc
  have hcolon : c ≠ ':' := by
    have hall : ∀ d ∈ ['/', '?', '#'], d ≠ ':' := by simp
    exact hall c hc
  rw [Userinfo.text, List.mem_append, not_or]
  refine ⟨u.user.closed c (List.mem_cons_of_mem _ hends), ?_⟩
  cases u.password with
  | none => exact List.not_mem_nil
  | some p =>
      rw [Option.map_some, Option.getD_some, List.mem_cons, not_or]
      exact ⟨hcolon, p.closed c hends⟩

/-- The authority ends where the path or the query starts. -/
theorem ends_authority (w : ConnectionUri) : ∀ c ∈ w.authority, endsAuthority c = false := by
  intro c hc
  by_contra hend
  have hmem : c ∈ ['/', '?', '#'] := by
    rw [Bool.not_eq_false] at hend
    simpa [endsAuthority] using hend
  have hhosts := not_mem_hostText w (List.mem_append_left ['@'] hmem)
  have hat : c ≠ '@' := by
    have hall : ∀ d ∈ ['/', '?', '#'], d ≠ '@' := by simp
    exact hall c hmem
  rw [ConnectionUri.authority, List.mem_append] at hc
  rcases hc with hc | hc
  · cases huser : w.userinfo with
    | none =>
        rw [huser] at hc
        cases hc
    | some u =>
        rw [huser, Option.map_some, Option.getD_some, List.mem_append, List.mem_singleton] at hc
        rcases hc with hc | hc
        · exact not_mem_userinfo u hmem hc
        · exact hat hc
  · exact hhosts hc

/-- What follows the authority starts with a character that ends it, or there is nothing. -/
theorem tail_ends (w : ConnectionUri) :
    ∀ c, (w.path ++ w.queryText).head? = some c → endsAuthority c = true := by
  intro c hc
  unfold ConnectionUri.path ConnectionUri.queryText at hc
  cases hdatabase : w.database with
  | some d =>
      rw [hdatabase] at hc
      rw [← Option.some.inj hc]
      decide
  | none =>
      rw [hdatabase] at hc
      split at hc
      · cases hc
      · rw [← Option.some.inj hc]
        decide

theorem takeWhile_authority {a t : Text} (ha : ∀ c ∈ a, endsAuthority c = false)
    (ht : ∀ c, t.head? = some c → endsAuthority c = true) :
    (a ++ t).takeWhile (fun c => ¬ endsAuthority c) = a ∧
      (a ++ t).dropWhile (fun c => ¬ endsAuthority c) = t := by
  have hall : ∀ c ∈ a, decide (¬ endsAuthority c) = true := by
    intro c hc
    rw [ha c hc]
    rfl
  rw [List.takeWhile_append_of_pos hall, List.dropWhile_append_of_pos hall]
  cases t with
  | nil => exact ⟨List.append_nil a, rfl⟩
  | cons c t =>
      have hc := ht c rfl
      rw [List.takeWhile_cons_of_neg (by simp [hc]), List.dropWhile_cons_of_neg (by simp [hc])]
      exact ⟨List.append_nil a, rfl⟩

/-- The user and the password that are found in front of the hosts. -/
theorem lastCut_hosts (w : ConnectionUri) :
    lastCut '@' w.authority = (w.userinfo.map Userinfo.text, w.hostText) := by
  have hhosts : '@' ∉ w.hostText := not_mem_hostText w (by decide)
  unfold ConnectionUri.authority
  cases w.userinfo with
  | none => exact lastCut_of_not_mem hhosts
  | some u =>
      rw [Option.map_some, Option.getD_some, List.append_assoc, List.singleton_append,
        lastCut_append hhosts]
      rfl

theorem cut_userinfo (u : Userinfo) :
    cut ':' u.text = (u.user.text, u.password.map Component.text) := by
  have hcolon : ':' ∉ u.user.text := u.user.closed ':' List.mem_cons_self
  unfold Userinfo.text
  cases u.password with
  | none =>
      rw [Option.map_none, Option.getD_none, List.append_nil]
      exact cut_of_not_mem hcolon
  | some p => exact cut_append hcolon p.text

/-- A single host with its port, as `ParseUriRest` finds them. -/
theorem hostAndPort_single (h : HostPort) :
    hostAndPort h.text =
      (if h.text = [] then none else some h.host.value, h.port.map Component.value) := by
  unfold HostPort.text
  cases h.host with
  | address a hne =>
      have hclose : ']' ∉ a.text := a.closed ']' List.mem_cons_self
      have hnil : ¬ (Host.address a hne).text ++ (h.port.map fun p => ':' :: p.text).getD [] = [] :=
        List.cons_ne_nil _ _
      have htext : (Host.address a hne).text ++ (h.port.map fun p => ':' :: p.text).getD [] =
          '[' :: (a.text ++ ']' :: (h.port.map fun p => ':' :: p.text).getD []) := by
        simp [Host.text]
      rw [if_neg hnil, htext, hostAndPort, cut_append hclose]
      cases h.port with
      | none =>
          simp only [Option.map_none, Option.getD_none, percentDecode_component]
          rfl
      | some p =>
          simp only [Option.map_some, Option.getD_some, percentDecode_component]
          rfl
  | name n =>
      have hcolon : ':' ∉ n.text := n.closed ':' (by decide)
      have hbracket : '[' ∉ n.text := n.closed '[' (by decide)
      change hostAndPort (n.text ++ _) =
        (if n.text ++ (h.port.map fun p => ':' :: p.text).getD [] = [] then none
          else some n.value, _)
      cases h.port with
      | none =>
          rw [Option.map_none, Option.getD_none, List.append_nil, Option.map_none]
          by_cases hnil : n.text = []
          · rw [hnil, if_pos rfl]
            rfl
          · rw [if_neg hnil, hostAndPort_plain hnil, plainHost, cut_of_not_mem hcolon,
              percentDecode_component]
            · rfl
            · exact fun hhead => hbracket (List.mem_of_mem_head? hhead)
      | some p =>
          rw [Option.map_some, Option.getD_some, if_neg (by simp), hostAndPort_plain (by simp),
            plainHost, cut_append hcolon, percentDecode_component, Option.map_some,
            Option.map_some, percentDecode_component]
          intro hhead
          rw [List.head?_append] at hhead
          cases hfirst : n.text.head? with
          | none => simp [hfirst] at hhead
          | some c =>
              rw [hfirst, Option.some_or] at hhead
              exact hbracket (List.mem_of_mem_head? (hfirst.trans hhead))

/-! ## One host -/

theorem hostText_single {w : ConnectionUri} (h : w.others = []) : w.hostText = w.host.text := by
  rw [ConnectionUri.hostText, h]
  exact List.intercalate_singleton

theorem hostValue_single {w : ConnectionUri} (h : w.others = []) :
    w.hostValue = w.host.host.value := by
  rw [ConnectionUri.hostValue, h]
  exact List.intercalate_singleton

theorem portValue_single {w : ConnectionUri} (h : w.others = []) :
    w.portValue = (w.host.port.map Component.value).getD [] := by
  rw [ConnectionUri.portValue, h]
  exact List.intercalate_singleton

theorem host_value_nil {h : HostPort} (hnil : h.text = []) : h.host.value = [] := by
  rw [HostPort.text, List.append_eq_nil_iff] at hnil
  cases hkind : h.host with
  | name n =>
      rw [hkind] at hnil
      have hnil' : n.text = [] := hnil.1
      have hvalue := percentDecode_component n
      rw [hnil'] at hvalue
      exact hvalue.symm
  | address a hne =>
      rw [hkind] at hnil
      exact absurd hnil.1 (List.cons_ne_nil _ _)

/-! ## The query -/

theorem not_amp_piece (piece : Piece) : '&' ∉ piece.text := by
  cases piece with
  | param name value =>
      have hname : '&' ∉ name.text := name.closed '&' (by decide)
      have hvalue : '&' ∉ value.text := value.closed '&' (by decide)
      simp [Piece.text, hname, hvalue]
  | flag text closed => exact closed.2

/-- The pieces that are read are those of the query. -/
theorem queryPairs_pieces {pieces : List Piece} (hne : pieces ≠ []) :
    queryPairs (List.intercalate ['&'] (pieces.map Piece.text)) =
      pieces.filterMap Piece.pair? := by
  have hamp : ∀ text ∈ pieces.map Piece.text, '&' ∉ text := by
    intro text htext
    obtain ⟨piece, -, rfl⟩ := List.mem_map.mp htext
    exact not_amp_piece piece
  rw [queryPairs, List.splitOn_intercalate '&' hamp (by simpa using hne), List.filterMap_map]
  apply List.filterMap_congr
  intro piece _
  cases piece with
  | param name value =>
      have hequals : '=' ∉ name.text := name.closed '=' (by decide)
      have hcut : cut '=' (Piece.param name value).text = (name.text, some value.text) :=
        cut_append hequals value.text
      change ((cut '=' (Piece.param name value).text).2.map _) = some (name.value, value.value)
      rw [hcut, Option.map_some, percentDecode_component, percentDecode_component]
  | flag text closed =>
      change ((cut '=' text).2.map _) = none
      rw [cut_of_not_mem closed.1, Option.map_none]

/-- What `ParseUriRest` finds behind the path. -/
theorem cut_query (w : ConnectionUri) :
    cut '?' (w.path ++ w.queryText) =
      (w.path, if w.query = [] then none
        else some (List.intercalate ['&'] (w.query.map Piece.text))) := by
  have hpath : '?' ∉ w.path := by
    unfold ConnectionUri.path
    cases w.database with
    | none => exact List.not_mem_nil
    | some d =>
        rw [Option.map_some, Option.getD_some, List.mem_cons, not_or]
        exact ⟨by decide, d.closed '?' List.mem_cons_self⟩
  unfold ConnectionUri.queryText
  split_ifs
  · rw [List.append_nil, cut_of_not_mem hpath]
  · exact cut_append hpath _

theorem parsePath_path (w : ConnectionUri) :
    parsePath w.path = given (w.database.map Component.value) := by
  unfold ConnectionUri.path
  cases w.database with
  | none => rfl
  | some d =>
      have hvalue := percentDecode_component d
      change (if d.text = [] then none else some (percentDecode d.text)) = given (some d.value)
      rw [hvalue]
      by_cases hnil : d.text = []
      · rw [hnil] at hvalue
        rw [if_pos hnil, ← hvalue]
        rfl
      · rw [if_neg hnil]
        have hne : d.value ≠ [] := fun hempty => hnil (eq_nil_of_spells d.spells hempty)
        exact (given_eq_some.mpr ⟨rfl, hne⟩).symm

/-! ## The whole text -/

/-- What `ParseUriRest` finds in a URI. -/
theorem parseUriRest_rest (w : ConnectionUri) :
    parseUriRest w.rest =
      { user := w.userinfo.map fun u => u.user.value
        password := w.userinfo.bind fun u => u.password.map Component.value
        host := (hostAndPort w.hostText).1
        port := (hostAndPort w.hostText).2
        path := given (w.database.map Component.value)
        params := KeyValue.addAll lower [] w.params } := by
  obtain ⟨htake, hdrop⟩ := takeWhile_authority (ends_authority w) (tail_ends w)
  have hafter : afterAuthority w.rest = w.path ++ w.queryText := hdrop
  have hparams : ((uriQuery w.rest).map parseUriQuery).getD [] =
      KeyValue.addAll lower [] w.params := by
    rw [uriQuery, hafter, cut_query]
    unfold ConnectionUri.params
    by_cases hquery : w.query = []
    · rw [if_pos hquery, hquery]
      rfl
    · rw [if_neg hquery, Option.map_some, Option.getD_some, parseUriQuery, queryPairs_pieces hquery]
  have hauthority : parseAuthority w.rest =
      { user := w.userinfo.map fun u => u.user.value
        password := w.userinfo.bind fun u => u.password.map Component.value
        host := (hostAndPort w.hostText).1
        port := (hostAndPort w.hostText).2 } := by
    have hcut : lastCut '@' ((w.authority ++ (w.path ++ w.queryText)).takeWhile
        fun c => ¬ endsAuthority c) = (w.userinfo.map Userinfo.text, w.hostText) := by
      rw [htake, lastCut_hosts]
    unfold ConnectionUri.rest
    simp only [parseAuthority, hcut]
    cases w.userinfo with
    | none => rfl
    | some u =>
        simp only [Option.map_some, Option.bind_some, cut_userinfo, percentDecode_component,
          Option.map_map]
        congr 1
        cases u.password with
        | none => rfl
        | some p => exact congrArg some (percentDecode_component p)
  rw [parseUriRest, hauthority, hparams, hafter, cut_query, parsePath_path]

theorem familyFromUri_text (w : ConnectionUri) :
    familyFromUri w.text = (.postgresql, some w.rest) := by
  unfold ConnectionUri.text
  cases w.scheme with
  | postgresql => exact familyFromUri_scheme (List.all_eq_true.mp (by decide)) (by decide)
  | postgres => exact familyFromUri_scheme (List.all_eq_true.mp (by decide)) (by decide)

theorem spells_plain {s : Text} (h : ∀ c ∈ s, c ≠ '%' ∧ c ≠ '\x00') : Spells s s := by
  induction s with
  | nil => exact .nil
  | cons c s ih =>
      obtain ⟨hc, hs⟩ := List.forall_mem_cons.mp h
      exact .plain hc.1 hc.2 (ih hs)

theorem closed_of_all {ends text : Text} (h : (ends.all fun c => !text.contains c) = true) :
    ∀ c ∈ ends, c ∉ text := by
  intro c hc
  simpa using List.all_eq_true.mp h c hc

/-- A text without a `%` as a part of a URI. -/
def plainPart (ends text : Text) (h : (text.all fun c => c ≠ '%' ∧ c ≠ '\x00') = true)
    (closed : (ends.all fun c => !text.contains c) = true) : Component ends where
  text := text
  value := text
  spells := spells_plain fun c hc => of_decide_eq_true (List.all_eq_true.mp h c hc)
  closed := closed_of_all closed

def emptyPart (ends : Text) : Component ends where
  text := []
  value := []
  spells := spells_plain fun _ hc => absurd hc List.not_mem_nil
  closed := fun _ _ => List.not_mem_nil

/-- `sslmode=require`. -/
def sslmodeRequire : Piece :=
  .param (plainPart _ "sslmode".toList (by decide) (by decide))
    (plainPart _ "require".toList (by decide) (by decide))

end AdbcBridge.Delegate.LibpqUri
