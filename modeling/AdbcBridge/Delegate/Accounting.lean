import AdbcBridge.Delegate.BuiltUri

/-!
# What becomes of a keyword

Whether the text of the URI that `BuildNativeUri` returns has a part for every keyword and option
with a value.
-/

namespace AdbcBridge.Delegate.Accounting

open AdbcBridge.Lib AdbcBridge.Lib.PgUri AdbcBridge.Delegate.Keywords AdbcBridge.Delegate.NativeUri
  AdbcBridge.Delegate.ParseUri AdbcBridge.Delegate.UriRoundTrip AdbcBridge.Delegate.LibpqUri
  AdbcBridge.Delegate.BuiltUri

/-! ## What a keyword says -/

/-- The parameters a keyword gives, as they are written: an empty value is empty. -/
def saidOf (family : OdbcNativeFamily) (kv : Text × Text) : Except Text (List (Text × Text)) :=
  match classifyKeyword family kv.1 with
  | .consumed => .ok []
  | .ignored => .ok []
  | .forward param => .ok (if kv.2 = [] then [] else [(param, kv.2)])
  | .pqopt => pqoptOptions kv.2
  | .unknown =>
      .error ("the ODBC keyword \"".toList ++ kv.1 ++
        "\" has no equivalent in the native ".toList ++ familyDriverName family ++
        " driver, so delegating would silently change the connection".toList)

def allSaid (family : OdbcNativeFamily) (kvs : List (Text × Text)) : List (Text × Text) :=
  kvs.flatMap fun kv => (saidOf family kv).toOption.getD []

theorem paramsOf_eq (heap : Text) (family : OdbcNativeFamily) (kv : Text × Text) :
    paramsOf heap family kv = (saidOf family kv).map (List.map (recorded heap)) := by
  unfold paramsOf saidOf
  cases classifyKeyword family kv.1 with
  | consumed => rfl
  | ignored => rfl
  | unknown => rfl
  | pqopt => rfl
  | forward param =>
      dsimp only
      by_cases hempty : kv.2 = []
      · rw [if_pos hempty]
        rfl
      · rw [if_neg hempty]
        change _ = Except.ok [recorded heap (param, kv.2)]
        unfold recorded
        rw [if_neg hempty]

/-- What is recorded is what is said, with the block of an empty value in its place. -/
theorem allParams_eq (heap : Text) (family : OdbcNativeFamily) (kvs : List (Text × Text)) :
    allParams heap family kvs = (allSaid family kvs).map (recorded heap) := by
  unfold allParams allSaid
  rw [List.map_flatMap]
  apply List.flatMap_congr
  intro kv _
  rw [paramsOf_eq]
  cases saidOf family kv with
  | error why => rfl
  | ok said => rfl

/-! ## Bytes -/

theorem readBraced_subset (s : Text) : (readBraced s).1 ⊆ s ∧ (readBraced s).2 ⊆ s := by
  induction s using readBraced.induct with
  | case1 => exact ⟨List.Subset.refl _, List.Subset.refl _⟩
  | case2 s ih =>
      rw [readBraced]
      refine ⟨?_, ?_⟩
      · intro c hc
        rcases List.mem_cons.mp hc with rfl | hc
        · exact List.mem_cons_self
        · exact List.mem_cons_of_mem _ (List.mem_cons_of_mem _ (ih.1 hc))
      · exact fun c hc => List.mem_cons_of_mem _ (List.mem_cons_of_mem _ (ih.2 hc))
  | case3 s hs =>
      rw [readBraced]
      · exact ⟨List.nil_subset _, List.subset_cons_self _ _⟩
      · exact hs
  | case4 c s h1 h2 ih =>
      rw [readBraced]
      · refine ⟨?_, fun d hd => List.mem_cons_of_mem _ (ih.2 hd)⟩
        intro d hd
        rcases List.mem_cons.mp hd with rfl | hd
        · exact List.mem_cons_self
        · exact List.mem_cons_of_mem _ (ih.1 hd)
      · exact h1
      · exact h2

theorem readValue_subset (s : Text) : (readValue s).1 ⊆ s ∧ (readValue s).2 ⊆ s := by
  unfold readValue
  split
  · rename_i s
    have hbraced := readBraced_subset s
    refine ⟨fun c hc => List.mem_cons_of_mem _ (hbraced.1 hc), fun c hc => ?_⟩
    exact List.mem_cons_of_mem _ (hbraced.2 ((List.dropWhile_sublist _).subset hc))
  · exact ⟨(List.takeWhile_sublist _).subset, (List.dropWhile_sublist _).subset⟩

/-- The characters of a pair are some of the string's. -/
theorem connStringNext_subset {s rest : Text} {kv : Text × Text}
    (h : connStringNext s = some (kv, rest)) : kv.1 ⊆ s ∧ kv.2 ⊆ s ∧ rest ⊆ s := by
  have hp : s.dropWhile isSeparator ⊆ s := (List.dropWhile_sublist _).subset
  unfold connStringNext at h
  dsimp only at h
  split at h
  · cases h
  · rename_i c v hv
    have hvsub : v ⊆ s := by
      intro d hd
      apply hp
      apply (List.dropWhile_sublist (· ≠ '=')).subset
      rw [hv]
      exact List.mem_cons_of_mem c hd
    rw [Option.some.injEq, Prod.mk.injEq] at h
    obtain ⟨rfl, rfl⟩ := h
    refine ⟨fun d hd => ?_, fun d hd => hvsub ((readValue_subset v).1 hd),
      fun d hd => hvsub ((readValue_subset v).2 hd)⟩
    exact hp ((List.takeWhile_sublist _).subset ((List.rdropWhile_prefix _ _).subset hd))

theorem connPairs_subset {s : Text} : ∀ kv ∈ connPairs s, kv.1 ⊆ s ∧ kv.2 ⊆ s := by
  induction hlen : s.length using Nat.strong_induction_on generalizing s with
  | _ n ih =>
    intro kv hkv
    cases hnext : connStringNext s with
    | none =>
        rw [connPairs_end hnext] at hkv
        exact absurd hkv List.not_mem_nil
    | some first =>
        obtain ⟨pair, rest⟩ := first
        have hsub := connStringNext_subset hnext
        rw [connPairs_next hnext] at hkv
        rcases List.mem_cons.mp hkv with rfl | hkv
        · exact ⟨hsub.1, hsub.2.1⟩
        · have hless := connStringNext_length hnext
          obtain ⟨hkey, hvalue⟩ := ih rest.length (hlen ▸ hless) rfl kv hkv
          exact ⟨List.Subset.trans hkey hsub.2.2, List.Subset.trans hvalue hsub.2.2⟩

theorem readQuoted_subset (s : Text) : (readQuoted s).1 ⊆ s ∧ (readQuoted s).2 ⊆ s := by
  induction s using readQuoted.induct with
  | case1 => exact ⟨List.Subset.refl _, List.Subset.refl _⟩
  | case2 c s ih =>
      rw [readQuoted]
      refine ⟨?_, fun d hd => List.mem_cons_of_mem _ (List.mem_cons_of_mem _ (ih.2 hd))⟩
      intro d hd
      rcases List.mem_cons.mp hd with rfl | hd
      · exact List.mem_cons_of_mem _ List.mem_cons_self
      · exact List.mem_cons_of_mem _ (List.mem_cons_of_mem _ (ih.1 hd))
  | case3 s hs =>
      rw [readQuoted, if_pos rfl]
      · exact ⟨List.nil_subset _, List.subset_cons_self _ _⟩
      · exact hs
  | case4 c s hs hc ih =>
      rw [readQuoted, if_neg hc]
      · refine ⟨?_, fun d hd => List.mem_cons_of_mem _ (ih.2 hd)⟩
        intro d hd
        rcases List.mem_cons.mp hd with rfl | hd
        · exact List.mem_cons_self
        · exact List.mem_cons_of_mem _ (ih.1 hd)
      · exact hs

theorem readBare_subset (s : Text) : (readBare s).1 ⊆ s ∧ (readBare s).2 ⊆ s := by
  induction s using readBare.induct with
  | case1 => exact ⟨List.Subset.refl _, List.Subset.refl _⟩
  | case2 c s ih =>
      rw [readBare]
      refine ⟨?_, fun d hd => List.mem_cons_of_mem _ (List.mem_cons_of_mem _ (ih.2 hd))⟩
      intro d hd
      rcases List.mem_cons.mp hd with rfl | hd
      · exact List.mem_cons_of_mem _ List.mem_cons_self
      · exact List.mem_cons_of_mem _ (List.mem_cons_of_mem _ (ih.1 hd))
  | case3 c s hs hc =>
      rw [readBare, if_pos hc]
      · exact ⟨List.nil_subset _, List.Subset.refl _⟩
      · exact hs
  | case4 c s hs hc ih =>
      rw [readBare, if_neg hc]
      · refine ⟨?_, fun d hd => List.mem_cons_of_mem _ (ih.2 hd)⟩
        intro d hd
        rcases List.mem_cons.mp hd with rfl | hd
        · exact List.mem_cons_self
        · exact List.mem_cons_of_mem _ (ih.1 hd)
      · exact hs

/-- The characters of an option are some of the block's. -/
theorem pqoptNext_subset {s rest : Text} {kv : Text × Text} (h : pqoptNext s = some (kv, rest)) :
    kv.1 ⊆ s ∧ kv.2 ⊆ s ∧ rest ⊆ s := by
  unfold pqoptNext at h
  dsimp only at h
  split at h
  · cases h
  · split at h
    · rename_i v hv
      have hvsub : v.dropWhile isBlank ⊆ s := by
        intro d hd
        have hmem : d ∈ '=' :: v :=
          List.mem_cons_of_mem _ ((List.dropWhile_sublist _).subset hd)
        rw [← hv] at hmem
        exact List.mem_of_mem_drop ((List.dropWhile_sublist _).subset hmem)
      have hread : (readPqoptValue (v.dropWhile isBlank)).1 ⊆ v.dropWhile isBlank ∧
          (readPqoptValue (v.dropWhile isBlank)).2 ⊆ v.dropWhile isBlank := by
        unfold readPqoptValue
        split
        · rename_i t heq
          rw [heq]
          obtain ⟨hvalue, hrest⟩ := readQuoted_subset t
          exact ⟨fun c hc => List.mem_cons_of_mem _ (hvalue hc),
            fun c hc => List.mem_cons_of_mem _ (hrest hc)⟩
        · exact readBare_subset _
      rw [Option.some.injEq, Prod.mk.injEq] at h
      obtain ⟨rfl, rfl⟩ := h
      exact ⟨(List.takeWhile_sublist _).subset, List.Subset.trans hread.1 hvsub,
        List.Subset.trans hread.2 hvsub⟩
    · cases h

/-- What a block of options gives: listed names, and characters of the block. -/
theorem pqoptOptions_mem {s : Text} {options : List (Text × Text)}
    (h : pqoptOptions s = .ok options) :
    ∀ kv ∈ options, inNameList kPqoptKeys kv.1 = true ∧ kv.1 ⊆ s ∧ kv.2 ⊆ s := by
  induction hlen : s.length using Nat.strong_induction_on generalizing s options with
  | _ n ih =>
    have hsub : s.dropWhile isBlank ⊆ s := (List.dropWhile_sublist _).subset
    rw [pqoptOptions] at h
    split at h
    · rw [← Except.ok.inj h]
      exact fun kv hkv => absurd hkv List.not_mem_nil
    · split at h
      · cases h
      · rename_i pair rest hnext
        split_ifs at h with hname
        split at h
        · cases h
        · rename_i tail htail
          obtain ⟨hkey, hvalue, hrest⟩ := pqoptNext_subset hnext
          rw [← Except.ok.inj h]
          intro kv hkv
          rcases List.mem_cons.mp hkv with rfl | hkv
          · exact ⟨hname, List.Subset.trans hkey hsub, List.Subset.trans hvalue hsub⟩
          · have hless := pqoptNext_length hnext
            have hle := List.length_dropWhile_le isBlank s
            obtain ⟨hlisted, hkey', hvalue'⟩ := ih rest.length (by omega) htail rfl kv hkv
            have htext := List.Subset.trans hrest hsub
            exact ⟨hlisted, List.Subset.trans hkey' htext, List.Subset.trans hvalue' htext⟩

/-- What `char *` can hold of what delegation is given. -/
structure GivenBytes (t : OdbcDelegateTarget) : Prop where
  string : Bytes t.connectionString
  entries : ∀ dsn ∈ t.dsn, ∀ kv ∈ dsn.entries.getD [], Bytes kv.1 ∧ Bytes kv.2
  username : ∀ v ∈ t.username, Bytes v
  password : ∀ v ∈ t.password, Bytes v

theorem bytes_subset {s v : Text} (hs : Bytes s) (h : v ⊆ s) : Bytes v :=
  fun c hc => hs c (h hc)

theorem bytes_nil : Bytes [] := fun _ hc => absurd hc List.not_mem_nil

theorem bytes_keywords {t : OdbcDelegateTarget} (ht : GivenBytes t) :
    ∀ kv ∈ allKeywords t, Bytes kv.2 := by
  intro kv hkv
  have hbase : kv ∈ connPairs t.connectionString → Bytes kv.2 := fun hmem =>
    bytes_subset ht.string (connPairs_subset kv hmem).2
  unfold allKeywords keywords at hkv
  cases hdsn : t.dsn with
  | none =>
      rw [hdsn] at hkv
      exact hbase hkv
  | some dsn =>
      rw [hdsn] at hkv
      dsimp only at hkv
      cases hnames : profileNames dsn with
      | none =>
          rw [hnames] at hkv
          exact absurd hkv List.not_mem_nil
      | some names =>
          rw [hnames, Option.map_some, Option.getD_some, List.mem_append] at hkv
          rcases hkv with hkv | hkv
          · obtain ⟨name, -, rfl⟩ := List.mem_map.mp hkv
            cases hvalue : dsnGet dsn name with
            | none => exact bytes_nil
            | some v =>
                rw [dsnGet, Option.filter_eq_some_iff] at hvalue
                obtain ⟨key, hkey, -⟩ := KeyValue.mem_of_get hvalue.1
                exact (ht.entries dsn hdsn (key, v) hkey).2
          · exact hbase hkv

theorem bytes_lookup {t : OdbcDelegateTarget} (ht : GivenBytes t) (hkeywords : keywords t ≠ none)
    {s : Setting} {v : Text} (h : given (lookup t s) = some v) : Bytes v := by
  obtain ⟨-, hoption | ⟨kv, hkv, -, rfl⟩⟩ := mem_valuesOf.mp (lookup_mem hkeywords h)
  · cases s with
    | user => exact ht.username v hoption
    | password => exact ht.password v hoption
    | host => cases hoption
    | port => cases hoption
    | database => cases hoption
  · exact bytes_keywords ht kv hkv

/-- The name of a forwarded keyword's parameter is one of the list. -/
theorem classify_forward {family : OdbcNativeFamily} {key param : Text}
    (h : classifyKeyword family key = .forward param) : param ∈ kPgForwardKeys := by
  have hpg : classifyPg key = .forward param → param ∈ kPgForwardKeys := by
    intro hclass
    unfold classifyPg at hclass
    split at hclass
    · cases hclass
    · split at hclass
      · rename_i name hfind
        split at hclass
        · rw [← KeywordClass.forward.inj hclass]
          decide
        · rw [← KeywordClass.forward.inj hclass]
          exact List.mem_of_find?_eq_some hfind
      · split at hclass
        · cases hclass
        · cases hclass
  unfold classifyKeyword at h
  split at h
  · cases h
  · split at h
    · cases h
    · split at h
      · cases h
      · cases family with
        | postgresql => exact hpg h
        | sqlite =>
            dsimp only at h
            split at h
            · cases h
            · cases h
        | duckdb =>
            dsimp only at h
            split at h
            · cases h
            · cases h
        | none => cases h
        | snowflake => cases h
        | bigquery => cases h
        | flightsql => cases h

/-- A parameter has a listed name, and its value is the keyword's or part of it. -/
theorem saidOf_mem {family : OdbcNativeFamily} {kv e : Text × Text} {said : List (Text × Text)}
    (h : saidOf family kv = .ok said) (he : e ∈ said) :
    (e.1 ∈ kPgForwardKeys ∨ inNameList kPqoptKeys e.1 = true ∧ e.1 ⊆ kv.2) ∧ e.2 ⊆ kv.2 := by
  unfold saidOf at h
  cases hclass : classifyKeyword family kv.1 with
  | consumed =>
      rw [hclass] at h
      rw [← Except.ok.inj h] at he
      exact absurd he List.not_mem_nil
  | ignored =>
      rw [hclass] at h
      rw [← Except.ok.inj h] at he
      exact absurd he List.not_mem_nil
  | unknown =>
      rw [hclass] at h
      cases h
  | forward param =>
      rw [hclass] at h
      rw [← Except.ok.inj h] at he
      split at he
      · exact absurd he List.not_mem_nil
      · rw [List.mem_singleton.mp he]
        exact ⟨Or.inl (classify_forward hclass), List.Subset.refl _⟩
  | pqopt =>
      rw [hclass] at h
      obtain ⟨hlisted, hkey, hvalue⟩ := pqoptOptions_mem h e he
      exact ⟨Or.inr ⟨hlisted, hkey⟩, hvalue⟩

theorem mem_allSaid {family : OdbcNativeFamily} {kvs : List (Text × Text)} {e : Text × Text} :
    e ∈ allSaid family kvs ↔ ∃ kv ∈ kvs, ∃ said, saidOf family kv = .ok said ∧ e ∈ said := by
  unfold allSaid
  rw [List.mem_flatMap]
  apply exists_congr
  intro kv
  apply and_congr_right
  intro _
  cases saidOf family kv with
  | error why => simp [Except.toOption]
  | ok said => simp [Except.toOption]

/-- No parameter is one of the settings. -/
theorem said_other {family : OdbcNativeFamily} {kvs : List (Text × Text)} {e : Text × Text}
    (he : e ∈ allSaid family kvs) (s : Setting) : lower e.1 ≠ settingParam s := by
  have hforward : ∀ name ∈ kPgForwardKeys, ∀ s : Setting, lower name ≠ settingParam s := by
    intro name hname s
    cases s with
    | host => revert hname name; decide
    | port => revert hname name; decide
    | database => revert hname name; decide
    | user => revert hname name; decide
    | password => revert hname name; decide
  have hpqopt : ∀ name ∈ kPqoptKeys, ∀ s : Setting, lower name ≠ settingParam s := by
    intro name hname s
    cases s with
    | host => revert hname name; decide
    | port => revert hname name; decide
    | database => revert hname name; decide
    | user => revert hname name; decide
    | password => revert hname name; decide
  obtain ⟨kv, -, said, hsaid, hmem⟩ := mem_allSaid.mp he
  rcases (saidOf_mem hsaid hmem).1 with hname | ⟨hlisted, -⟩
  · exact hforward e.1 hname s
  · obtain ⟨name, hname, hkey⟩ := inNameList_iff.mp hlisted
    rw [← hkey]
    exact hpqopt name hname s

theorem bytes_said {family : OdbcNativeFamily} {t : OdbcDelegateTarget} (ht : GivenBytes t) :
    ∀ e ∈ allSaid family (allKeywords t), Bytes e.1 ∧ Bytes e.2 := by
  have hnames : ∀ name ∈ kPgForwardKeys, Bytes name := by
    intro name hname
    apply bytes_of_all
    revert hname name
    decide
  intro e he
  obtain ⟨kv, hkv, said, hsaid, hmem⟩ := mem_allSaid.mp he
  obtain ⟨hname, hvalue⟩ := saidOf_mem hsaid hmem
  have hbytes := bytes_keywords ht kv hkv
  refine ⟨?_, bytes_subset hbytes hvalue⟩
  rcases hname with hname | ⟨-, hkey⟩
  · exact hnames e.1 hname
  · exact bytes_subset hbytes hkey

/-! ## Which value is taken -/

/-- Of the aliases of a setting that have a value in some keywords, the one that the
setting's list has first has the value `v`. -/
def Leads (kvs : List (Text × Text)) (s : Setting) (v : Text) : Prop :=
  ∃ before key after, s.keys = before ++ key :: after ∧
    given (KeyValue.get lower kvs key) = some v ∧
    ∀ k ∈ before, given (KeyValue.get lower kvs k) = none

/-- No alias of a setting has a value in some keywords. -/
def Silent (kvs : List (Text × Text)) (s : Setting) : Prop :=
  ∀ key ∈ s.keys, given (KeyValue.get lower kvs key) = none

def baseKeywords (t : OdbcDelegateTarget) : List (Text × Text) := connPairs t.connectionString

def sectionKeywords (t : OdbcDelegateTarget) : List (Text × Text) :=
  (t.dsn.bind Dsn.entries).getD []

/-- What delegation prefers for a setting: the option over the base string, that over the
section, and in each of these the first alias of the list, wherever it stands. -/
inductive Preferred (t : OdbcDelegateTarget) (s : Setting) : Option Text → Prop where
  | option {v : Text} : s.option t = some v → Preferred t s (given (some v))
  | base {v : Text} : s.option t = none → Leads (baseKeywords t) s v → Preferred t s (some v)
  | dsn {v : Text} : s.option t = none → Silent (baseKeywords t) s →
      Leads (sectionKeywords t) s v → Preferred t s (some v)
  | missing : s.option t = none → Silent (baseKeywords t) s → Silent (sectionKeywords t) s →
      Preferred t s none

theorem leads_iff {kvs : List (Text × Text)} {s : Setting} {v : Text} :
    Leads kvs s v ↔
      (s.keys.findSome? fun key => given (KeyValue.get lower kvs key)) = some v := by
  rw [List.findSome?_eq_some_iff]
  rfl

theorem silent_iff {kvs : List (Text × Text)} {s : Setting} :
    Silent kvs s ↔ (s.keys.findSome? fun key => given (KeyValue.get lower kvs key)) = none := by
  rw [List.findSome?_eq_none_iff]
  rfl

/-- `KeywordGet` of a setting, on the keywords of the string and of the section. -/
theorem keywordGet_eq (t : OdbcDelegateTarget) (s : Setting) :
    keywordGet t.connectionString t.dsn s.keys =
      (s.keys.findSome? fun key => given (KeyValue.get lower (baseKeywords t) key)).or
        (s.keys.findSome? fun key => given (KeyValue.get lower (sectionKeywords t) key)) := by
  unfold keywordGet sectionKeywords
  cases hdsn : t.dsn with
  | some dsn => rfl
  | none =>
      have hnone : (s.keys.findSome? fun key =>
          given (KeyValue.get lower (((none : Option Dsn).bind Dsn.entries).getD []) key)) =
            none := by
        rw [List.findSome?_eq_none_iff]
        exact fun key _ => rfl
      rw [hnone]
      rfl

/-- A value taken from the keywords is not empty. -/
theorem given_keywordGet (t : OdbcDelegateTarget) (s : Setting) :
    given (keywordGet t.connectionString t.dsn s.keys) =
      keywordGet t.connectionString t.dsn s.keys := by
  have hgiven (kvs : List (Text × Text)) {v : Text}
      (h : (s.keys.findSome? fun key => given (KeyValue.get lower kvs key)) = some v) :
      v ≠ [] := by
    obtain ⟨key, -, hkey⟩ := List.exists_of_findSome?_eq_some h
    exact (given_eq_some.mp hkey).2
  cases hvalue : keywordGet t.connectionString t.dsn s.keys with
  | none => rfl
  | some v =>
      refine given_eq_some.mpr ⟨rfl, ?_⟩
      rw [keywordGet_eq, Option.or_eq_some_iff] at hvalue
      rcases hvalue with h | ⟨-, h⟩
      · exact hgiven _ h
      · exact hgiven _ h

/-- What the code looks up is what it prefers. -/
theorem preferred_iff {t : OdbcDelegateTarget} {s : Setting} {v : Option Text} :
    Preferred t s v ↔ given (lookup t s) = v := by
  cases hoption : s.option t with
  | some w =>
      rw [lookup, hoption, optionOr]
      constructor
      · intro h
        cases h with
        | option h =>
            rw [hoption, Option.some.injEq] at h
            rw [h]
        | base h _ | dsn h _ _ | missing h _ _ =>
            rw [hoption] at h
            cases h
      · rintro rfl
        exact .option hoption
  | none =>
      rw [lookup, hoption, optionOr, given_keywordGet, keywordGet_eq]
      constructor
      · intro h
        cases h with
        | option h =>
            rw [hoption] at h
            cases h
        | base _ h => rw [leads_iff.mp h, Option.some_or]
        | dsn _ hbase h => rw [silent_iff.mp hbase, Option.none_or, leads_iff.mp h]
        | missing _ hbase h => rw [silent_iff.mp hbase, Option.none_or, silent_iff.mp h]
      · rintro rfl
        cases hbase : s.keys.findSome? fun key =>
            given (KeyValue.get lower (baseKeywords t) key) with
        | some v => exact .base hoption (leads_iff.mpr hbase)
        | none =>
            rw [Option.none_or]
            cases hdsn : s.keys.findSome? fun key =>
                given (KeyValue.get lower (sectionKeywords t) key) with
            | some v => exact .dsn hoption (silent_iff.mpr hbase) (leads_iff.mpr hdsn)
            | none => exact .missing hoption (silent_iff.mpr hbase) (silent_iff.mpr hdsn)

/-! ## The text that is built -/

/-- The text of a PostgreSQL URI that is built has one reading: the settings are what the code takes
for them, and the parameters the last that were said. -/
theorem built_reading {heap : Text} {t : OdbcDelegateTarget} {uri : Uri} (ht : GivenBytes t)
    (hheap : Bytes heap) (h : buildNativeUri heap .postgresql t = .ok uri) :
    ∃ params w, uri = .postgres (postgresParts t params) ∧ w.text = uri.text ∧ ',' ∉ w.hostText ∧
      (∀ s, effective w s = saidParts (postgresParts t params) s) ∧
      ∀ name, (∀ s, lower name ≠ settingParam s) → parameter w name =
        KeyValue.get lower ((allSaid .postgresql (allKeywords t)).map (recorded heap)).reverse
          name := by
  obtain ⟨params, hparams, ⟨-, rfl⟩ | ⟨hfamily, -⟩⟩ := buildNativeUri_ok h
  swap
  · exact absurd rfl hfamily
  have hkeywords := keywords_ne_none hparams
  obtain ⟨hport, haddress⟩ := buildNativeUri_checked h
  obtain ⟨kvs, hkvs, -, hrecorded⟩ := collectKeywords_ok hparams
  have hall : allKeywords t = kvs := by rw [allKeywords, hkvs, Option.getD_some]
  rw [← hall, allParams_eq] at hrecorded
  have htaken {s : Setting} : ∀ v ∈ given (lookup t s), v ≠ [] ∧ Bytes v := fun v hv =>
    ⟨(given_eq_some.mp hv).2, bytes_lookup ht hkeywords hv⟩
  have hname : ∀ kv ∈ params, ∃ e ∈ allSaid .postgresql (allKeywords t), kv.1 = e.1 := by
    intro kv hkv
    rw [hrecorded] at hkv
    obtain ⟨r, hr, hkey⟩ := List.mem_map.mp (KeyValue.mem_addAll hkv).1
    obtain ⟨e, he, rfl⟩ := List.mem_map.mp hr
    exact ⟨e, he, hkey.symm⟩
  have hvalue : ∀ kv ∈ params, Bytes kv.2 := by
    intro kv hkv
    rw [hrecorded] at hkv
    obtain ⟨r, hr, hkey⟩ := List.mem_map.mp (KeyValue.mem_addAll hkv).2
    obtain ⟨e, he, rfl⟩ := List.mem_map.mp hr
    rw [← hkey]
    unfold recorded
    dsimp only
    split_ifs
    · exact hheap
    · exact (bytes_said ht e he).2
  have hwritten : Written (postgresParts t params) :=
    { user := fun v hv => htaken v hv
      password := by
        intro v hv
        obtain ⟨user, -, hpassword⟩ := Option.bind_eq_some_iff.mp hv
        exact htaken v hpassword
      login := by
        intro huser
        change (given (lookup t .user)).bind _ = none
        rw [show given (lookup t .user) = none from huser]
        rfl
      host := fun v hv => htaken v hv
      address := haddress
      port := fun v hv => ⟨(htaken v hv).1, hport v hv⟩
      database := fun v hv => htaken v hv
      params := by
        intro kv hkv
        obtain ⟨e, he, hkey⟩ := hname kv hkv
        rw [hkey]
        exact ⟨(bytes_said ht e he).1, hvalue kv hkv⟩
      names := by
        intro kv hkv s
        obtain ⟨e, he, hkey⟩ := hname kv hkv
        rw [hkey]
        exact said_other he s }
  obtain ⟨w, htext, hcomma, hw⟩ := exists_written hwritten
  refine ⟨params, w, rfl, htext, hcomma, fun s => effective_written hwritten hw s, ?_⟩
  intro name hname
  have hget := parameter_written hw hname
  rw [hget]
  change KeyValue.get lower params.reverse name = _
  rw [KeyValue.get_reverse (by rw [hrecorded]; exact KeyValue.nodup_addAll List.nodup_nil),
    hrecorded, KeyValue.get_addAll]
  exact Option.or_none

/-! ## What the text says -/

/-- A URI says `v` for a setting: libpq takes it from the text, or the text is the path of a
file. -/
def Says (family : OdbcNativeFamily) (text : Text) (s : Setting) (v : Text) : Prop :=
  match family with
  | .postgresql => ∃ w : ConnectionUri, w.text = text ∧ effective w s = some v
  | _ => s = .database ∧ text = v

def SaysParam (family : OdbcNativeFamily) (text name v : Text) : Prop :=
  match family with
  | .postgresql => ∃ w : ConnectionUri, w.text = text ∧ parameter w name = some v
  | _ => False

/-- A value as a URI has it: the brackets of an IPv6 address are its notation. -/
def shown : Setting → Text → Text
  | .host, v => unbracketed v
  | _, v => v

/-- A keyword is accounted for: it is listed as one without effect, it chooses the driver or the
section, or the URI says a value that was given for the setting, or for each parameter, that the
keyword is about. -/
def Accounted (family : OdbcNativeFamily) (t : OdbcDelegateTarget) (text : Text)
    (kv : Text × Text) : Prop :=
  classifyKeyword family kv.1 = .ignored ∨ inNameList kRoutingKeys kv.1 ∨
    (∃ s, settingOf kv.1 = some s ∧ ∃ v ∈ valuesOf t s, Says family text s (shown s v)) ∨
    (classifyKeyword family kv.1 ≠ .consumed ∧ ∃ said, saidOf family kv = .ok said ∧
      ∀ e ∈ said, ∃ v j, SaysParam family text e.1 v ∧
        (j, v) ∈ allSaid family (allKeywords t) ∧ lower j = lower e.1)

/-- Every keyword with a value is accounted for, and so is every option. -/
structure Accounts (family : OdbcNativeFamily) (t : OdbcDelegateTarget) (text : Text) : Prop where
  keyword : ∀ kv ∈ allKeywords t, kv.2 ≠ [] → Accounted family t text kv
  option : ∀ s v, s.option t = some v → v ≠ [] → Says family text s v

/-- A setting has a value, but an empty one stands in front of each: an empty option, or an empty
keyword of the same name. -/
def PassedOver (t : OdbcDelegateTarget) (s : Setting) : Prop :=
  valuesOf t s ≠ [] ∧ (s.option t = some [] ∨
    s.option t = none ∧ Silent (baseKeywords t) s ∧ Silent (sectionKeywords t) s)

/-- Something that was given is lost.  A file has a place for the database alone.  A PostgreSQL URI
has none for a password without a user or an address of no characters, a value that is passed
over is not looked up (`localhost` is written all the same), and an empty option of the `pqopt`
block that is its parameter's last is written as whatever the memory holds. -/
inductive Loses (heap : Text) (family : OdbcNativeFamily) (t : OdbcDelegateTarget) : Prop where
  | file (s : Setting) : family ≠ .postgresql → s ≠ .database → valuesOf t s ≠ [] →
      Loses heap family t
  | passedOver (s : Setting) : family = .postgresql → PassedOver t s →
      (s = .host → ∀ v ∈ valuesOf t s, unbracketed v ≠ "localhost".toList) → Loses heap family t
  | password : family = .postgresql → valuesOf t .password ≠ [] → valuesOf t .user = [] →
      Loses heap family t
  | brackets : family = .postgresql → Preferred t .host (some "[]".toList) → Loses heap family t
  | emptyOption (name : Text) : family = .postgresql →
      KeyValue.get lower (allSaid family (allKeywords t)).reverse name = some [] →
      (∀ e ∈ allSaid family (allKeywords t), lower e.1 = lower name → e.2 ≠ heap) →
      Loses heap family t

theorem says_iff {w : ConnectionUri} {text : Text} (hw : w.text = text) (hcomma : ',' ∉ w.hostText)
    {s : Setting} {v : Text} : Says .postgresql text s v ↔ effective w s = some v := by
  constructor
  · rintro ⟨w', hw', hmeans⟩
    rw [effective_unique (hw.trans hw'.symm) hcomma, hmeans]
  · exact fun hmeans => ⟨w, hw, hmeans⟩

theorem saysParam_iff {w : ConnectionUri} {text : Text} (hw : w.text = text) {name v : Text} :
    SaysParam .postgresql text name v ↔ parameter w name = some v := by
  constructor
  · rintro ⟨w', hw', hmeans⟩
    rw [params_unique (hw.trans hw'.symm), hmeans]
  · exact fun hmeans => ⟨w, hw, hmeans⟩

/-- A setting with a value is passed over where the code finds none. -/
theorem passedOver_iff {t : OdbcDelegateTarget} {s : Setting} (hvalues : valuesOf t s ≠ []) :
    PassedOver t s ↔ given (lookup t s) = none := by
  rw [← preferred_iff]
  constructor
  · rintro ⟨-, hoption | ⟨hoption, hbase, hsection⟩⟩
    · exact .option hoption
    · exact .missing hoption hbase hsection
  · intro hnone
    refine ⟨hvalues, ?_⟩
    generalize hvalue : (none : Option Text) = value at hnone
    cases hnone with
    | @option v hoption =>
        left
        by_cases hempty : v = []
        · rw [hoption, hempty]
        · rw [given_eq_some.mpr ⟨rfl, hempty⟩] at hvalue
          cases hvalue
    | base => cases hvalue
    | dsn => cases hvalue
    | missing hoption hbase hsection => exact Or.inr ⟨hoption, hbase, hsection⟩

/-! ## Settings -/

/-- Every setting that is given has a part in the text that says one of its values. -/
def Carries (family : OdbcNativeFamily) (t : OdbcDelegateTarget) (text : Text) : Prop :=
  ∀ s, valuesOf t s ≠ [] → ∃ v ∈ valuesOf t s, Says family text s (shown s v)

theorem unbracketed_socket {h : Text} (hsocket : isSocket h = true) : unbracketed h = h := by
  unfold unbracketed
  rw [if_neg]
  rintro ⟨hopen, -⟩
  unfold isSocket at hsocket
  rw [hopen] at hsocket
  exact absurd hsocket (by decide)

/-- A host that is taken is said, unless it is nothing but brackets. -/
theorem said_host {u : PostgresUri} {h : Text} (hhost : u.host = some h) (hne : h ≠ []) :
    saidParts u .host = if h = "[]".toList then none else some (unbracketed h) := by
  unfold saidParts
  rw [hhost]
  dsimp only
  by_cases hsocket : isSocket h
  · rw [if_pos hsocket, unbracketed_socket hsocket, if_neg]
    rintro rfl
    exact absurd hsocket (by decide)
  · rw [if_neg hsocket]
    by_cases hbrackets : h = "[]".toList
    · rw [if_pos hbrackets, hbrackets]
      decide
    · rw [if_neg hbrackets]
      exact given_eq_some.mpr ⟨rfl, fun hnil => hbrackets ((unbracketed_eq_nil_iff hne).mp hnil)⟩

/-- A PostgreSQL URI carries every setting exactly when none is passed over, a password comes with a
user and the host is more than brackets. -/
theorem carries_postgres {t : OdbcDelegateTarget} {params : List (Text × Text)} {w : ConnectionUri}
    {text : Text} (hkeywords : keywords t ≠ none) (hw : w.text = text) (hcomma : ',' ∉ w.hostText)
    (hreading : ∀ s, effective w s = saidParts (postgresParts t params) s) :
    Carries .postgresql t text ↔
      (∀ s, PassedOver t s →
        s = .host ∧ ∃ v ∈ valuesOf t s, unbracketed v = "localhost".toList) ∧
      (valuesOf t .password ≠ [] → valuesOf t .user ≠ []) ∧
      ¬ Preferred t .host (some "[]".toList) := by
  have hmeans {s : Setting} {v : Text} : Says .postgresql text s v ↔
      saidParts (postgresParts t params) s = some v := by
    rw [says_iff hw hcomma, hreading]
  have huserNone : valuesOf t .user = [] → given (lookup t .user) = none := by
    intro hnil
    cases huser : given (lookup t .user) with
    | none => rfl
    | some v =>
        have hmem := lookup_mem hkeywords huser
        rw [hnil] at hmem
        exact absurd hmem List.not_mem_nil
  constructor
  · intro hcarries
    refine ⟨?_, ?_, ?_⟩
    · intro s hpassed
      obtain ⟨v, hv, hsaid⟩ := hcarries s hpassed.1
      have hnone := (passedOver_iff hpassed.1).mp hpassed
      rw [hmeans] at hsaid
      cases s with
      | host =>
          have hhost : (postgresParts t params).host = none := hnone
          unfold saidParts at hsaid
          rw [hhost] at hsaid
          exact ⟨rfl, v, hv, (Option.some.inj hsaid).symm⟩
      | port =>
          rw [show saidParts (postgresParts t params) .port = none from hnone] at hsaid
          cases hsaid
      | database =>
          rw [show saidParts (postgresParts t params) .database = none from hnone] at hsaid
          cases hsaid
      | user =>
          rw [show saidParts (postgresParts t params) .user = none from hnone] at hsaid
          cases hsaid
      | password =>
          have hpassword : saidParts (postgresParts t params) .password =
              (given (lookup t .user)).bind fun _ => given (lookup t .password) := rfl
          rw [hpassword, hnone] at hsaid
          cases huser : given (lookup t .user) with
          | none =>
              rw [huser] at hsaid
              cases hsaid
          | some u =>
              rw [huser] at hsaid
              cases hsaid
    · intro hvalues hnil
      obtain ⟨v, hv, hsaid⟩ := hcarries .password hvalues
      have hpassword : saidParts (postgresParts t params) .password =
          (given (lookup t .user)).bind fun _ => given (lookup t .password) := rfl
      rw [hmeans, hpassword, huserNone hnil] at hsaid
      cases hsaid
    · intro hbrackets
      have htaken := preferred_iff.mp hbrackets
      obtain ⟨v, hv, hsaid⟩ := hcarries .host (List.ne_nil_of_mem (lookup_mem hkeywords htaken))
      have hhost : (postgresParts t params).host = some "[]".toList := htaken
      rw [hmeans, said_host hhost (by decide), if_pos rfl] at hsaid
      cases hsaid
  · rintro ⟨hpassed, hpassword, hbrackets⟩ s hvalues
    simp only [hmeans]
    cases htaken : given (lookup t s) with
    | none =>
        obtain ⟨rfl, v, hv, hlocal⟩ := hpassed s ((passedOver_iff hvalues).mpr htaken)
        refine ⟨v, hv, ?_⟩
        have hhost : (postgresParts t params).host = none := htaken
        unfold saidParts
        rw [hhost]
        exact congrArg some hlocal.symm
    | some v =>
        refine ⟨v, lookup_mem hkeywords htaken, ?_⟩
        cases s with
        | port => exact htaken
        | database => exact htaken
        | user => exact htaken
        | host =>
            have hhost : (postgresParts t params).host = some v := htaken
            rw [said_host hhost (given_eq_some.mp htaken).2, if_neg]
            · rfl
            · rintro rfl
              exact hbrackets (preferred_iff.mpr htaken)
        | password =>
            have huser : given (lookup t .user) ≠ none := by
              intro hnone
              have huserValues := hpassword hvalues
              exact absurd (hpassed .user ((passedOver_iff huserValues).mpr hnone)).1 (by decide)
            obtain ⟨u, hu⟩ := Option.ne_none_iff_exists'.mp huser
            change ((given (lookup t .user)).bind fun _ => given (lookup t .password)) = some v
            rw [hu]
            exact htaken

/-- A file carries every setting exactly when none but the database has a value. -/
theorem carries_file {family : OdbcNativeFamily} (hfamily : family ≠ .postgresql)
    {t : OdbcDelegateTarget} {path : Text} (hkeywords : keywords t ≠ none)
    (hpath : given (lookup t .database) = some path) :
    Carries family t path ↔ ∀ s, s ≠ .database → valuesOf t s = [] := by
  have hmeans {s : Setting} {v : Text} : Says family path s v ↔ s = .database ∧ path = v := by
    cases family with
    | postgresql => exact absurd rfl hfamily
    | none | sqlite | duckdb | snowflake | bigquery | flightsql => exact Iff.rfl
  constructor
  · intro hcarries s hs
    by_contra hvalues
    obtain ⟨v, -, hsaid⟩ := hcarries s hvalues
    exact hs (hmeans.mp hsaid).1
  · intro hnone s hvalues
    have hs : s = .database := by
      by_contra hs
      exact hvalues (hnone s hs)
    rw [hs]
    exact ⟨path, lookup_mem hkeywords hpath, hmeans.mpr ⟨rfl, rfl⟩⟩

/-! ## Parameters -/

/-- Every parameter that is said is in the text, with a value that was said for it. -/
def CarriesParams (family : OdbcNativeFamily) (t : OdbcDelegateTarget) (text : Text) : Prop :=
  ∀ e ∈ allSaid family (allKeywords t), ∃ v j, SaysParam family text e.1 v ∧
    (j, v) ∈ allSaid family (allKeywords t) ∧ lower j = lower e.1

/-- The parameters are carried unless one of them has an empty option last. -/
theorem carriesParams_postgres {heap : Text} {t : OdbcDelegateTarget} {w : ConnectionUri}
    {text : Text} (hw : w.text = text)
    (hreading : ∀ name, (∀ s, lower name ≠ settingParam s) → parameter w name =
      KeyValue.get lower ((allSaid .postgresql (allKeywords t)).map (recorded heap)).reverse name) :
    CarriesParams .postgresql t text ↔
      ∀ name, KeyValue.get lower (allSaid .postgresql (allKeywords t)).reverse name = some [] →
        ∃ e ∈ allSaid .postgresql (allKeywords t), lower e.1 = lower name ∧ e.2 = heap := by
  let said := allSaid .postgresql (allKeywords t)
  have hget (name : Text) (hname : ∀ s, lower name ≠ settingParam s) : parameter w name =
      (KeyValue.get lower said.reverse name).map fun v => if v = [] then heap else v := by
    have hrecorded : said.reverse.map (recorded heap) =
        said.reverse.map fun e => (e.1, (fun v => if v = [] then heap else v) e.2) := rfl
    rw [hreading name hname, ← List.map_reverse, hrecorded]
    exact KeyValue.get_map fun v : Text => if v = [] then heap else v
  constructor
  · intro hcarries name hempty
    obtain ⟨j, hj, hkey⟩ := KeyValue.mem_of_get hempty
    rw [List.mem_reverse] at hj
    obtain ⟨v, i, hsaid, hi, hfold⟩ := hcarries (j, []) hj
    have hlast : KeyValue.get lower said.reverse j = some [] := by
      rw [← hempty, KeyValue.get, KeyValue.get, hkey]
    rw [saysParam_iff hw, hget j fun s => said_other hj s, hlast] at hsaid
    have hv : heap = v := Option.some.inj hsaid
    exact ⟨(i, v), hi, hfold.trans hkey, hv.symm⟩
  · intro hclear e he
    have hname : ∀ s, lower e.1 ≠ settingParam s := fun s => said_other he s
    obtain ⟨v, j, hlast, hj, hkey⟩ : ∃ v j, KeyValue.get lower (KeyValue.addAll lower [] said) e.1 =
        some v ∧ (j, v) ∈ said ∧ lower j = lower e.1 := KeyValue.get_addAll_of_mem he
    have hnil : KeyValue.get lower ([] : List (Text × Text)) e.1 = none := rfl
    rw [KeyValue.get_addAll, hnil, Option.or_none] at hlast
    simp only [saysParam_iff hw, hget e.1 hname, hlast, Option.map_some]
    by_cases hempty : v = []
    · rw [hempty] at hlast
      obtain ⟨d, hd, hfold, hvalue⟩ := hclear e.1 hlast
      refine ⟨heap, d.1, ?_, ?_, hfold⟩
      · rw [if_pos hempty]
      · rw [← hvalue]
        exact hd
    · refine ⟨v, j, ?_, hj, hkey⟩
      rw [if_neg hempty]

/-! ## Every keyword -/

theorem pqoptOptions_nil : pqoptOptions [] = .ok [] := by
  have hend : ([] : Text).dropWhile isBlank = [] := rfl
  rw [pqoptOptions, if_pos hend]

/-- A keyword without a value says nothing. -/
theorem value_of_said {family : OdbcNativeFamily} {kv : Text × Text} {said : List (Text × Text)}
    (h : saidOf family kv = .ok said) (hne : said ≠ []) : kv.2 ≠ [] := by
  intro hempty
  apply hne
  unfold saidOf at h
  rw [hempty] at h
  cases hclass : classifyKeyword family kv.1 with
  | consumed =>
      rw [hclass] at h
      exact (Except.ok.inj h).symm
  | ignored =>
      rw [hclass] at h
      exact (Except.ok.inj h).symm
  | forward param =>
      rw [hclass] at h
      exact (Except.ok.inj h).symm
  | pqopt =>
      rw [hclass] at h
      dsimp only at h
      rw [pqoptOptions_nil] at h
      exact (Except.ok.inj h).symm
  | unknown =>
      rw [hclass] at h
      cases h

/-- Where the keywords are accepted, they are accounted for exactly when every setting and every
parameter that is given is carried. -/
theorem accounts_iff_carries {family : OdbcNativeFamily} {t : OdbcDelegateTarget} {text : Text}
    (haccepted : ∀ kv ∈ allKeywords t, ∃ said, saidOf family kv = .ok said)
    (hoption : ∀ s v w, s.option t = some v → Says family text s w → w = v) :
    Accounts family t text ↔ Carries family t text ∧ CarriesParams family t text := by
  have hshown {s : Setting} {v w : Text} (h : s.option t = some v) : shown s w = w := by
    cases s with
    | host => cases h
    | port => rfl
    | database => rfl
    | user => rfl
    | password => rfl
  constructor
  · intro haccounts
    refine ⟨?_, ?_⟩
    · intro s hvalues
      obtain ⟨v, hv⟩ := List.exists_mem_of_ne_nil _ hvalues
      obtain ⟨hne, hgiven | ⟨kv, hkv, hsetting, rfl⟩⟩ := mem_valuesOf.mp hv
      · refine ⟨v, hv, ?_⟩
        rw [hshown hgiven]
        exact haccounts.option s v hgiven hne
      · have hclass := @classify_setting family _ _ hsetting
        rcases haccounts.keyword kv hkv hne with hignored | hrouting | ⟨s', hs', hpart⟩ | hother
        · rw [hclass] at hignored
          cases hignored
        · exact absurd hrouting (not_routing hsetting)
        · rw [hsetting, Option.some.injEq] at hs'
          exact hs' ▸ hpart
        · exact absurd hclass hother.1
    · intro e he
      obtain ⟨kv, hkv, said, hsaid, hmem⟩ := mem_allSaid.mp he
      have hne := value_of_said hsaid (List.ne_nil_of_mem hmem)
      have hclass : classifyKeyword family kv.1 ≠ .ignored ∧
          classifyKeyword family kv.1 ≠ .consumed := by
        constructor
        · intro hclass
          rw [saidOf, hclass] at hsaid
          rw [← Except.ok.inj hsaid] at hmem
          exact absurd hmem List.not_mem_nil
        · intro hclass
          rw [saidOf, hclass] at hsaid
          rw [← Except.ok.inj hsaid] at hmem
          exact absurd hmem List.not_mem_nil
      rcases haccounts.keyword kv hkv hne with hignored | hrouting | ⟨s, hs, -⟩ |
        ⟨-, said', hsaid', hparams⟩
      · exact absurd hignored hclass.1
      · exact absurd (classify_routing hrouting) hclass.2
      · exact absurd (classify_setting hs) hclass.2
      · rw [hsaid, Except.ok.injEq] at hsaid'
        exact hparams e (hsaid' ▸ hmem)
  · rintro ⟨hcarries, hparams⟩
    constructor
    · intro kv hkv hne
      by_cases hignored : classifyKeyword family kv.1 = .ignored
      · exact Or.inl hignored
      by_cases hconsumed : classifyKeyword family kv.1 = .consumed
      · rcases consumed_cases (consumed_of_classify hconsumed) with hrouting | ⟨s, hs⟩
        · exact Or.inr (Or.inl hrouting)
        · have hv : kv.2 ∈ valuesOf t s := mem_valuesOf.mpr ⟨hne, Or.inr ⟨kv, hkv, hs, rfl⟩⟩
          exact Or.inr (Or.inr (Or.inl ⟨s, hs, hcarries s (List.ne_nil_of_mem hv)⟩))
      · obtain ⟨said, hsaid⟩ := haccepted kv hkv
        refine Or.inr (Or.inr (Or.inr ⟨hconsumed, said, hsaid, fun e he => ?_⟩))
        exact hparams e (mem_allSaid.mpr ⟨kv, hkv, said, hsaid, he⟩)
    · intro s v hgiven hne
      have hv : v ∈ valuesOf t s := mem_valuesOf.mpr ⟨hne, Or.inl hgiven⟩
      obtain ⟨w, -, hw⟩ := hcarries s (List.ne_nil_of_mem hv)
      rw [hshown hgiven] at hw
      rw [← hoption s v w hgiven hw]
      exact hw

/-- A native URI that is built accounts in its text for every keyword and option exactly when
nothing is lost. -/
theorem accounts_iff {heap : Text} {family : OdbcNativeFamily} {t : OdbcDelegateTarget} {uri : Uri}
    (ht : GivenBytes t) (hheap : Bytes heap) (h : buildNativeUri heap family t = .ok uri) :
    Accounts family t uri.text ↔ ¬ Loses heap family t := by
  obtain ⟨params, hparams, hbuilt⟩ := buildNativeUri_ok h
  have hkeywords := keywords_ne_none hparams
  have haccepted : ∀ kv ∈ allKeywords t, ∃ said, saidOf family kv = .ok said := by
    obtain ⟨kvs, hkvs, hall, -⟩ := collectKeywords_ok hparams
    intro kv hkv
    rw [allKeywords, hkvs, Option.getD_some] at hkv
    obtain ⟨new, hnew⟩ := hall kv hkv
    rw [paramsOf_eq] at hnew
    cases hsaid : saidOf family kv with
    | error why =>
        rw [hsaid] at hnew
        cases hnew
    | ok said => exact ⟨said, rfl⟩
  rcases hbuilt with ⟨rfl, -⟩ | ⟨hfamily, path, hpath, rfl⟩
  · obtain ⟨params, w, rfl, hw, hcomma, hsettings, hnames⟩ := built_reading ht hheap h
    have hoption : ∀ s v v', s.option t = some v →
        Says .postgresql (Uri.postgres (postgresParts t params)).text s v' → v' = v := by
      intro s v v' hgiven hsaid
      have hlookup : lookup t s = some v := by rw [lookup, hgiven, optionOr]
      rw [says_iff hw hcomma, hsettings] at hsaid
      cases s with
      | host => cases hgiven
      | port => cases hgiven
      | database => cases hgiven
      | user =>
          change given (lookup t .user) = some v' at hsaid
          rw [hlookup] at hsaid
          exact Option.some.inj (given_eq_some.mp hsaid).1.symm
      | password =>
          change ((given (lookup t .user)).bind fun _ => given (lookup t .password)) =
            some v' at hsaid
          obtain ⟨user, -, hpassword⟩ := Option.bind_eq_some_iff.mp hsaid
          rw [hlookup] at hpassword
          exact Option.some.inj (given_eq_some.mp hpassword).1.symm
    rw [accounts_iff_carries haccepted hoption, carries_postgres hkeywords hw hcomma hsettings,
      carriesParams_postgres hw hnames]
    constructor
    · rintro ⟨⟨hpassed, hpassword, hbrackets⟩, hempty⟩ hloses
      cases hloses with
      | file s hfamily => exact hfamily rfl
      | passedOver s _ hpass hlocal =>
          obtain ⟨hs, v, hv, hsame⟩ := hpassed s hpass
          exact hlocal hs v hv hsame
      | password _ hvalues huser => exact hpassword hvalues huser
      | brackets _ htaken => exact hbrackets htaken
      | emptyOption name _ hlast hother =>
          obtain ⟨e, he, hkey, hvalue⟩ := hempty name hlast
          exact hother e he hkey hvalue
    · intro hkept
      refine ⟨⟨?_, ?_, ?_⟩, ?_⟩
      · intro s hpass
        by_contra hlost
        refine hkept (.passedOver s rfl hpass fun hs v hv hsame => ?_)
        exact hlost ⟨hs, v, hv, hsame⟩
      · exact fun hvalues huser => hkept (.password rfl hvalues huser)
      · exact fun htaken => hkept (.brackets rfl htaken)
      · intro name hlast
        by_contra hlost
        refine hkept (.emptyOption name rfl hlast fun e he hkey hvalue => ?_)
        exact hlost ⟨e, he, hkey, hvalue⟩
  · have hnone : ∀ kv ∈ allKeywords t, saidOf family kv = .ok [] := by
      intro kv hkv
      obtain ⟨said, hsaid⟩ := haccepted kv hkv
      unfold saidOf at hsaid ⊢
      rcases @classify_file family kv.1 hfamily with hclass | hclass | hclass
      · rw [hclass]
      · rw [hclass]
      · rw [hclass] at hsaid
        cases hsaid
    have hempty : allSaid family (allKeywords t) = [] := by
      rw [List.eq_nil_iff_forall_not_mem]
      intro e he
      obtain ⟨kv, hkv, said, hsaid, hmem⟩ := mem_allSaid.mp he
      rw [hnone kv hkv, Except.ok.injEq] at hsaid
      rw [← hsaid] at hmem
      exact List.not_mem_nil hmem
    have hmeans {s : Setting} {v : Text} (hsaid : Says family path s v) : s = .database := by
      cases family with
      | postgresql => exact absurd rfl hfamily
      | none | sqlite | duckdb | snowflake | bigquery | flightsql => exact hsaid.1
    have hoption : ∀ s v v', s.option t = some v → Says family path s v' → v' = v := by
      intro s v v' hgiven hsaid
      rw [hmeans hsaid] at hgiven
      cases hgiven
    have hcarriesParams : CarriesParams family t path := by
      intro e he
      rw [hempty] at he
      exact absurd he List.not_mem_nil
    change Accounts family t path ↔ _
    rw [accounts_iff_carries haccepted hoption, carries_file hfamily hkeywords hpath,
      and_iff_left hcarriesParams]
    constructor
    · intro hcarries hloses
      cases hloses with
      | file s _ hs hvalues => exact hvalues (hcarries s hs)
      | passedOver s hpg => exact hfamily hpg
      | password hpg => exact hfamily hpg
      | brackets hpg => exact hfamily hpg
      | emptyOption name hpg => exact hfamily hpg
    · intro hkept s hs
      by_contra hvalues
      exact hkept (.file s hfamily hs hvalues)

/-- A SQLite file with a user's name. -/
def sqliteUser : OdbcDelegateTarget := { connectionString := "Database=x;Uid=u".toList }

theorem sqliteUser_pairs : connPairs sqliteUser.connectionString =
    [("Database".toList, ['x']), ("Uid".toList, ['u'])] := by
  have h1 : connStringNext sqliteUser.connectionString =
      some (("Database".toList, ['x']), ";Uid=u".toList) := by decide
  have h2 : connStringNext ";Uid=u".toList = some (("Uid".toList, ['u']), []) := by decide
  have h3 : connStringNext [] = none := by decide
  rw [connPairs_next h1, connPairs_next h2, connPairs_end h3]

theorem sqliteUser_uri : buildNativeUri [] .sqlite sqliteUser = .ok (.file ['x']) := by
  unfold buildNativeUri collectKeywords keywords lookup keywordGet connStringGet
  rw [sqliteUser_pairs]
  rfl

theorem sqliteUser_bytes : GivenBytes sqliteUser where
  string := bytes_of_all (by decide)
  entries := fun dsn hdsn => absurd hdsn (Option.not_mem_none dsn)
  username := fun v hv => absurd hv (Option.not_mem_none v)
  password := fun v hv => absurd hv (Option.not_mem_none v)

/-- A user's name in front of a SQLite file is dropped without a word. -/
theorem sqlite_drops_user : ¬ ∀ (heap : Text) (t : OdbcDelegateTarget) (uri : Uri), GivenBytes t →
    buildNativeUri heap .sqlite t = .ok uri → Accounts .sqlite t uri.text := by
  intro h
  have haccounts := h [] sqliteUser _ sqliteUser_bytes sqliteUser_uri
  have hmem : ("Uid".toList, ['u']) ∈ allKeywords sqliteUser := by
    unfold allKeywords keywords
    rw [show sqliteUser.dsn = none from rfl]
    dsimp only
    rw [sqliteUser_pairs]
    exact List.mem_cons_of_mem _ List.mem_cons_self
  rcases haccounts.keyword _ hmem (by decide) with hignored | hrouting | ⟨s, hs, v, -, hsaid⟩ |
    ⟨hconsumed, -⟩
  · exact absurd hignored (by decide)
  · exact absurd hrouting (by decide)
  · rw [hsaid.1] at hs
    exact absurd hs (by decide)
  · exact absurd rfl hconsumed

theorem accounts_iff_sqliteUser :
    Accounts .sqlite sqliteUser ['x'] ↔ ¬ Loses [] .sqlite sqliteUser :=
  accounts_iff sqliteUser_bytes bytes_nil sqliteUser_uri

end AdbcBridge.Delegate.Accounting
