import AdbcBridge.Lib.Cuts
import Mathlib.Data.Prod.Lex
import Mathlib.Tactic.Ring

/-!
# Boundaries and partition counts

The numeric half of `odbc_partition.c`: how many slices a table gets and where
they are cut.  The boundary formula works on an unsigned 64-bit span with a
quotient/remainder split, so that an extent covering all of `int64` cannot
overflow; the lemmas below say that it never does, that the boundaries increase
strictly, and that the predicates cut at them cover the split expression.
-/

namespace AdbcBridge.Partition.Split

open AdbcBridge.Lib.Cuts

/-- `OdbcSplitKind`: which ordered expression a table is cut on. -/
inductive OdbcSplitKind where
  | none
  | ctid
  | keyRange
  | ybHash
deriving DecidableEq, Repr

/-- `OdbcSplit`: the chosen expression, the inclusive extent of its values and
the count used when the caller asked for an automatic one (`-1`: no estimate). -/
structure OdbcSplit where
  kind : OdbcSplitKind
  expr : List Char
  lo : Int64
  hi : Int64
  autoPartitions : Int64
deriving DecidableEq, Repr

def partitionAutoBlocks : Int64 := 8192
def partitionAutoMax : Int64 := 8
def partitionAutoRows : Int64 := 1000000
def partitionMax : Int64 := 256

/-- The width of an extent, in the unsigned arithmetic of the source. -/
def extentSpan (lo hi : Int64) : UInt64 := hi.toUInt64 - lo.toUInt64

/-- Boundary `k` of `n` over `[lo, hi]`, for `1 ≤ k ≤ n - 1`. -/
def splitBoundary (lo hi n k : Int64) : Int64 :=
  let span := extentSpan lo hi
  let un := n.toUInt64
  let uk := k.toUInt64
  let offset := span / un * uk + (span % un) * uk / un
  (lo.toUInt64 + offset).toInt64

/-- How many slices the caller gets: the request (or the automatic count),
capped, and never more than the extent can cut apart. -/
def resolvePartitionCount (requested : Int64) (split : OdbcSplit) : Int64 :=
  let want :=
    if requested ≤ 0 then
      let auto := if split.autoPartitions < 0 then 1 else split.autoPartitions
      if auto > partitionAutoMax then partitionAutoMax else auto
    else requested
  let want := if want > partitionMax then partitionMax else want
  let want := if want < 1 then 1 else want
  let span := extentSpan split.lo split.hi
  let want := if span < want.toUInt64 then span.toInt64 else want
  if want < 1 then 1 else want

/-- The bounds written into slice `k` of `nparts`: the first slice is unbounded
below, the last one above, every other one is half-open. -/
def slicePredicate (split : OdbcSplit) (nparts : Int64) (k : Nat) : Slice Int64 :=
  let boundary := fun i : Nat => splitBoundary split.lo split.hi nparts (Int64.ofNat i)
  if k = 0 then ⟨none, some (boundary 1)⟩
  else if k = nparts.toNatClampNeg - 1 then ⟨some (boundary k), none⟩
  else ⟨some (boundary k), some (boundary (k + 1))⟩

/-! ## The fixed-width arithmetic, read in the integers -/

theorem toUInt64_toNat_cast (x : Int64) : (x.toUInt64.toNat : Int) = x.toInt % 2 ^ 64 := by
  have hcond := BitVec.toInt_eq_toNat_cond x.toBitVec
  rw [Int64.toInt_toBitVec, Int64.toNat_toBitVec] at hcond
  have hlt := UInt64.toNat_lt x.toUInt64
  split at hcond <;> omega

theorem toInt64_toInt_eq (u : UInt64) :
    u.toInt64.toInt = if u.toNat < 2 ^ 63 then (u.toNat : Int) else u.toNat - 2 ^ 64 := by
  have hcond := BitVec.toInt_eq_toNat_cond u.toInt64.toBitVec
  rw [Int64.toInt_toBitVec, UInt64.toBitVec_toInt64] at hcond
  rw [hcond]
  change (if 2 * u.toNat < 2 ^ 64 then (u.toNat : Int) else u.toNat - ((2 ^ 64 : Nat) : Int)) = _
  split <;> split <;> omega

theorem toUInt64_toNat_of_nonneg {x : Int64} (hx : 0 ≤ x.toInt) :
    (x.toUInt64.toNat : Int) = x.toInt := by
  have hcast := toUInt64_toNat_cast x
  have hlt := Int64.toInt_lt x
  omega

theorem extentSpan_toNat {lo hi : Int64} (hle : lo ≤ hi) :
    ((extentSpan lo hi).toNat : Int) = hi.toInt - lo.toInt := by
  have hint := Int64.le_iff_toInt_le.1 hle
  have hlo := toUInt64_toNat_cast lo
  have hhi := toUInt64_toNat_cast hi
  have hlob := Int64.le_toInt lo
  have hhib := Int64.toInt_lt hi
  have hlou := UInt64.toNat_lt lo.toUInt64
  unfold extentSpan
  rw [UInt64.toNat_sub]
  omega

/-! ## The offset of a boundary, as a natural number -/

/-- `span / n * k + span % n * k / n`, the exact value of the boundary's offset. -/
def offsetNat (span n k : Nat) : Nat := span / n * k + span % n * k / n

theorem offsetNat_le {span n k : Nat} (hk : k ≤ n) : offsetNat span n k ≤ span := by
  rcases Nat.eq_zero_or_pos n with hn | hn
  · subst hn
    have hk0 : k = 0 := by omega
    simp [offsetNat, hk0]
  have hquot : span / n * k ≤ span / n * n := Nat.mul_le_mul_left _ hk
  have hrem : span % n * k / n ≤ span % n := by
    calc span % n * k / n ≤ span % n * n / n :=
          Nat.div_le_div_right (Nat.mul_le_mul_left _ hk)
      _ = span % n := Nat.mul_div_cancel _ hn
  have hdm := Nat.div_add_mod' span n
  unfold offsetNat
  omega

theorem offsetNat_lt_succ {span n : Nat} (hn : 0 < n) (hspan : n ≤ span) (k : Nat) :
    offsetNat span n k < offsetNat span n (k + 1) := by
  have hquot : 1 ≤ span / n := (Nat.one_le_div_iff hn).2 hspan
  have hrem : span % n * k / n ≤ span % n * (k + 1) / n :=
    Nat.div_le_div_right (Nat.mul_le_mul_left _ (Nat.le_succ k))
  have hexpand : span / n * (k + 1) = span / n * k + span / n := by ring
  unfold offsetNat
  omega

theorem offsetNat_pos {span n k : Nat} (hn : 0 < n) (hspan : n ≤ span) (hk : 1 ≤ k) :
    0 < offsetNat span n k := by
  have hquot : 1 ≤ span / n := (Nat.one_le_div_iff hn).2 hspan
  have hmul : 1 * 1 ≤ span / n * k := Nat.mul_le_mul hquot hk
  unfold offsetNat
  exact Nat.add_pos_left (by omega) _

theorem quotient_term_le {span n k : Nat} (hk : k ≤ n) : span / n * k ≤ span :=
  (Nat.le_add_right _ _).trans (offsetNat_le hk)

theorem remainder_term_lt {span n k : Nat} (hn0 : 0 < n) (hn : n ≤ 256) (hk : k ≤ n) :
    span % n * k < 2 ^ 64 := by
  have hmod : span % n < n := Nat.mod_lt _ hn0
  have hmul : span % n * k ≤ 256 * 256 := Nat.mul_le_mul (by omega) (by omega)
  omega

/-- Every intermediate value of `splitBoundary` is the exact one: nothing wraps. -/
structure SplitExact (lo hi n k : Int64) : Prop where
  span : ((extentSpan lo hi).toNat : Int) = hi.toInt - lo.toInt
  quotient : (extentSpan lo hi).toNat / n.toUInt64.toNat * k.toUInt64.toNat < 2 ^ 64
  remainder : (extentSpan lo hi).toNat % n.toUInt64.toNat * k.toUInt64.toNat < 2 ^ 64
  offset : offsetNat (extentSpan lo hi).toNat n.toUInt64.toNat k.toUInt64.toNat < 2 ^ 64
  boundary : (splitBoundary lo hi n k).toInt =
    lo.toInt + offsetNat (extentSpan lo hi).toNat n.toUInt64.toNat k.toUInt64.toNat

theorem splitBoundary_offset {span un uk : UInt64} (hun : 0 < un.toNat)
    (hun' : un.toNat ≤ 256) (huk : uk.toNat ≤ un.toNat) :
    (span / un * uk + (span % un) * uk / un).toNat =
      offsetNat span.toNat un.toNat uk.toNat := by
  have hspan := UInt64.toNat_lt span
  have hquot : span.toNat / un.toNat * uk.toNat < 2 ^ 64 :=
    (quotient_term_le huk).trans_lt hspan
  have hrem := @remainder_term_lt span.toNat _ _ hun hun' huk
  have hoff := (@offsetNat_le span.toNat _ _ huk).trans_lt hspan
  simp only [UInt64.toNat_add, UInt64.toNat_mul, UInt64.toNat_div, UInt64.toNat_mod]
  rw [Nat.mod_eq_of_lt hquot, Nat.mod_eq_of_lt hrem]
  exact Nat.mod_eq_of_lt hoff

theorem splitBoundary_exact {lo hi n k : Int64} (hle : lo ≤ hi)
    (hk0 : 0 ≤ k.toInt) (hkn : k.toInt ≤ n.toInt) (hn0 : 0 < n.toInt) (hn : n.toInt ≤ 256) :
    SplitExact lo hi n k := by
  have hspan := extentSpan_toNat hle
  have hun := toUInt64_toNat_of_nonneg (x := n) (by omega)
  have huk := toUInt64_toNat_of_nonneg (x := k) hk0
  have hslt := UInt64.toNat_lt (extentSpan lo hi)
  have hukle : k.toUInt64.toNat ≤ n.toUInt64.toNat := by omega
  have hoffle := @offsetNat_le (extentSpan lo hi).toNat _ _ hukle
  have hoffset := @splitBoundary_offset (extentSpan lo hi) n.toUInt64 k.toUInt64
    (by omega) (by omega) hukle
  refine ⟨hspan, (quotient_term_le hukle).trans_lt hslt,
    remainder_term_lt (by omega) (by omega) hukle, hoffle.trans_lt hslt, ?_⟩
  have hlob := Int64.le_toInt lo
  have hhib := Int64.toInt_lt hi
  have hlo := toUInt64_toNat_cast lo
  unfold splitBoundary
  rw [toInt64_toInt_eq, UInt64.toNat_add, hoffset]
  generalize offsetNat _ _ _ = off at hoffle
  split <;> omega

/-! ## The resolved count -/

theorem resolvePartitionCount_spec (requested : Int64) (split : OdbcSplit)
    (hle : split.lo ≤ split.hi) :
    1 ≤ (resolvePartitionCount requested split).toInt ∧
      (resolvePartitionCount requested split).toInt ≤ 256 ∧
      (2 ≤ (resolvePartitionCount requested split).toInt →
        (resolvePartitionCount requested split).toInt ≤ split.hi.toInt - split.lo.toInt) := by
  have hspan := extentSpan_toNat hle
  have h1 : (1 : Int64).toInt = 1 := rfl
  have h256 : partitionMax.toInt = 256 := rfl
  unfold resolvePartitionCount
  generalize (if requested ≤ 0 then _ else requested) = want
  simp only [gt_iff_lt]
  -- the two clamps before the span is looked at leave `1 ≤ want ≤ 256`
  generalize hcap : (if partitionMax < want then partitionMax else want) = capped
  have hcapped : capped.toInt ≤ 256 := by
    rw [← hcap]
    split
    · omega
    · rename_i hnot
      rw [Int64.not_lt, Int64.le_iff_toInt_le, h256] at hnot
      exact hnot
  generalize hfloor : (if capped < 1 then 1 else capped) = floored
  have hfloored : 1 ≤ floored.toInt ∧ floored.toInt ≤ 256 := by
    rw [← hfloor]
    split
    · omega
    · rename_i hnot
      rw [Int64.not_lt, Int64.le_iff_toInt_le, h1] at hnot
      exact ⟨hnot, hcapped⟩
  have hunsigned := toUInt64_toNat_of_nonneg (x := floored) (by omega)
  by_cases hlt : extentSpan split.lo split.hi < floored.toUInt64
  · rw [if_pos hlt]
    have hltn := UInt64.lt_iff_toNat_lt.1 hlt
    have hcast := toInt64_toInt_eq (extentSpan split.lo split.hi)
    rw [if_pos (by omega)] at hcast
    split
    · omega
    · rename_i hnot
      rw [Int64.not_lt, Int64.le_iff_toInt_le, h1] at hnot
      omega
  · rw [if_neg hlt]
    have hge := UInt64.not_lt.1 hlt
    rw [UInt64.le_iff_toNat_le] at hge
    split
    · rename_i hless
      rw [Int64.lt_iff_toInt_lt, h1] at hless
      omega
    · omega

theorem resolvePartitionCount_one (split : OdbcSplit) : resolvePartitionCount 1 split = 1 := by
  unfold resolvePartitionCount
  have hcap : ¬ (1 : Int64) > partitionMax := by decide
  have hreq : ¬ (1 : Int64) ≤ 0 := by decide
  simp only [if_neg hreq, if_neg hcap, if_neg (show ¬ (1 : Int64) < 1 by decide)]
  split
  · rename_i hlt
    have hzero : extentSpan split.lo split.hi = 0 := by
      have hnat := UInt64.lt_iff_toNat_lt.1 hlt
      have hone : (1 : Int64).toUInt64.toNat = 1 := by decide
      exact UInt64.toNat_inj.1 (by rw [UInt64.toNat_zero]; omega)
    rw [hzero]
    decide
  · decide

/-! ## The boundaries of a resolved split -/

section Resolved

variable {requested n : Int64} {split : OdbcSplit}

theorem ofNat_toInt_of_le {k : Nat} (hk : k ≤ 256) : (Int64.ofNat k).toInt = k :=
  Int64.toInt_ofNat_of_lt (by omega)

theorem resolved_exact (hle : split.lo ≤ split.hi)
    (hn : resolvePartitionCount requested split = n) {k : Nat} (hk : (k : Int) ≤ n.toInt) :
    SplitExact split.lo split.hi n (Int64.ofNat k) := by
  obtain ⟨hpos, hmax, _⟩ := resolvePartitionCount_spec requested split hle
  rw [hn] at hpos hmax
  have hofNat := ofNat_toInt_of_le (k := k) (by omega)
  exact splitBoundary_exact hle (by omega) (by omega) (by omega) hmax

theorem resolved_boundary_toInt (hle : split.lo ≤ split.hi)
    (hn : resolvePartitionCount requested split = n) {k : Nat} (hk : (k : Int) ≤ n.toInt) :
    (splitBoundary split.lo split.hi n (Int64.ofNat k)).toInt =
      split.lo.toInt +
        offsetNat (split.hi.toInt - split.lo.toInt).toNat n.toInt.toNat k := by
  have hexact := resolved_exact hle hn hk
  obtain ⟨hpos, hmax, _⟩ := resolvePartitionCount_spec requested split hle
  rw [hn] at hpos hmax
  have hun := toUInt64_toNat_of_nonneg (x := n) (by omega)
  have hofNat := ofNat_toInt_of_le (k := k) (by omega)
  have huk := toUInt64_toNat_of_nonneg (x := Int64.ofNat k) (by omega)
  have hspan := hexact.span
  rw [hexact.boundary]
  have e1 : (extentSpan split.lo split.hi).toNat = (split.hi.toInt - split.lo.toInt).toNat := by
    omega
  have e2 : n.toUInt64.toNat = n.toInt.toNat := by omega
  have e3 : (Int64.ofNat k).toUInt64.toNat = k := by omega
  rw [e1, e2, e3]

theorem resolved_boundary_mem (hle : split.lo ≤ split.hi)
    (hn : resolvePartitionCount requested split = n) (h2 : 2 ≤ n) {k : Nat}
    (h1 : 1 ≤ k) (hk : (k : Int) ≤ n.toInt) :
    split.lo < splitBoundary split.lo split.hi n (Int64.ofNat k) ∧
      splitBoundary split.lo split.hi n (Int64.ofNat k) ≤ split.hi := by
  have hb := resolved_boundary_toInt hle hn hk
  obtain ⟨hpos, hmax, hfit⟩ := resolvePartitionCount_spec requested split hle
  rw [hn] at hpos hmax hfit
  have h2' : 2 ≤ n.toInt := Int64.le_iff_toInt_le.1 h2
  have hfit := hfit h2'
  have hoff := @offsetNat_pos (split.hi.toInt - split.lo.toInt).toNat n.toInt.toNat k
    (by omega) (by omega) h1
  have hoffle := @offsetNat_le (split.hi.toInt - split.lo.toInt).toNat n.toInt.toNat k
    (by omega)
  rw [Int64.lt_iff_toInt_lt, Int64.le_iff_toInt_le, hb]
  omega

theorem resolved_boundary_lt_succ (hle : split.lo ≤ split.hi)
    (hn : resolvePartitionCount requested split = n) (h2 : 2 ≤ n) {k : Nat}
    (hk : ((k + 1 : Nat) : Int) ≤ n.toInt) :
    splitBoundary split.lo split.hi n (Int64.ofNat k) <
      splitBoundary split.lo split.hi n (Int64.ofNat (k + 1)) := by
  have hb := resolved_boundary_toInt hle hn (k := k) (by omega)
  have hb' := resolved_boundary_toInt hle hn hk
  obtain ⟨hpos, hmax, hfit⟩ := resolvePartitionCount_spec requested split hle
  rw [hn] at hpos hmax hfit
  have hfit := hfit (Int64.le_iff_toInt_le.1 h2)
  have hstep := @offsetNat_lt_succ (split.hi.toInt - split.lo.toInt).toNat n.toInt.toNat
    (by omega) (by omega) k
  rw [Int64.lt_iff_toInt_lt, hb, hb']
  omega

end Resolved

/-! ## Which values a slice's predicate selects -/

/-- The predicate of a key-range or tablet-hash slice at the value `v`. -/
def HoldsKey (p : Slice Int64) (v : Int64) : Prop := p.Holds v

/-- The predicate of a `ctid` slice at the tuple `(block, offset)`: the boundary
`b` is written `'(b,0)'::tid`, and `tid` compares lexicographically. -/
def HoldsTid (p : Slice Int64) (block offset : Nat) : Prop :=
  (p.map fun b => toLex (b.toInt, (0 : Nat))).Holds (toLex ((block : Int), offset))

theorem slicePredicate_eq_cutSlice {split : OdbcSplit} {n : Int64} {k : Nat}
    (h2 : 2 ≤ n.toNatClampNeg) :
    slicePredicate split n k =
      cutSlice (fun i => splitBoundary split.lo split.hi n (Int64.ofNat i)) n.toNatClampNeg k := by
  unfold slicePredicate cutSlice
  by_cases hk0 : k = 0
  · subst hk0
    simp only [if_true, Nat.zero_add]
    rw [if_neg (by omega)]
  · simp only [hk0, if_false]
    by_cases hlast : k = n.toNatClampNeg - 1
    · rw [if_pos hlast, if_pos (by omega)]
    · rw [if_neg hlast, if_neg (by omega)]

theorem holdsKey_iff {p : Slice Int64} {v : Int64} :
    HoldsKey p v ↔ (p.map Int64.toInt).Holds v.toInt := by
  rcases p with ⟨_ | lo, _ | hi⟩ <;>
    simp [HoldsKey, Slice.Holds, Slice.map, Int64.le_iff_toInt_le, Int64.lt_iff_toInt_lt]

section Coverage

variable {requested n : Int64} {split : OdbcSplit}

theorem toNatClampNeg_eq (h2 : 2 ≤ n) : (n.toNatClampNeg : Int) = n.toInt := by
  have h := Int64.le_iff_toInt_le.1 h2
  have h0 : (2 : Int64).toInt = 2 := rfl
  unfold Int64.toNatClampNeg
  omega

theorem slices_cover_points {β : Type*} [LinearOrder β] (f : Int64 → β)
    (hf : ∀ a b : Int64, a ≤ b → f a ≤ f b) (hle : split.lo ≤ split.hi)
    (hn : resolvePartitionCount requested split = n) (h2 : 2 ≤ n) (x : β) :
    ∃! k, k < n.toNatClampNeg ∧ ((slicePredicate split n k).map f).Holds x := by
  have hcount := toNatClampNeg_eq h2
  have h2' : 2 ≤ n.toInt := Int64.le_iff_toInt_le.1 h2
  have hmono : ∀ i j, 1 ≤ i → i ≤ j → j < n.toNatClampNeg →
      f (splitBoundary split.lo split.hi n (Int64.ofNat i)) ≤
        f (splitBoundary split.lo split.hi n (Int64.ofNat j)) := by
    intro i j hi hij hj
    apply hf
    rw [Int64.le_iff_toInt_le]
    refine le_of_step_lt (n := n.toNatClampNeg)
      (b := fun k => (splitBoundary split.lo split.hi n (Int64.ofNat k)).toInt) ?_ i j hi hij hj
    intro k _ hk
    exact Int64.lt_iff_toInt_lt.1 (resolved_boundary_lt_succ hle hn h2 (by omega))
  simp only [@slicePredicate_eq_cutSlice split n _ (by omega),
    cutSlice_map]
  exact existsUnique_cutSlice (by omega) hmono x

theorem slices_cover_keys (hle : split.lo ≤ split.hi)
    (hn : resolvePartitionCount requested split = n) (h2 : 2 ≤ n) (v : Int64) :
    ∃! k, k < n.toNatClampNeg ∧ HoldsKey (slicePredicate split n k) v := by
  simp only [holdsKey_iff]
  exact slices_cover_points Int64.toInt (fun _ _ h => Int64.le_iff_toInt_le.1 h) hle hn h2 _

theorem slices_cover_tids (hle : split.lo ≤ split.hi)
    (hn : resolvePartitionCount requested split = n) (h2 : 2 ≤ n) (block offset : Nat) :
    ∃! k, k < n.toNatClampNeg ∧ HoldsTid (slicePredicate split n k) block offset := by
  refine slices_cover_points (fun b => toLex (b.toInt, (0 : Nat))) ?_ hle hn h2 _
  intro a b hab
  rcases (Int64.le_iff_toInt_le.1 hab).lt_or_eq with hlt | heq
  · exact (Prod.Lex.toLex_lt_toLex.2 (Or.inl hlt)).le
  · exact (congrArg (fun z => toLex (z, (0 : Nat))) heq).le

end Coverage

end AdbcBridge.Partition.Split
