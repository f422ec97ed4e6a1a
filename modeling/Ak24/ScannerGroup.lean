import Ak24.ScannerSkip

namespace Ak24.ScannerGroup

open ScannerModel ScannerCursor ScannerSkip

def weight (spec : GroupSpec) (byte : UInt8) : Int :=
  if spec.mustStartWith = spec.mustEndWith then
    if byte = spec.mustEndWith then -1 else 0
  else if byte = spec.mustStartWith then 1
  else if byte = spec.mustEndWith then -1
  else 0

section Depth

variable (escaped : Nat → Bool) (spec : GroupSpec) (buf : List UInt8) (start : Nat)

def weightAt (i : Nat) : Int := if escaped i then 0 else weight spec (byteAt buf i)

def depthAt (j : Nat) : Int := 1 + ∑ i ∈ Finset.Ioc start j, weightAt escaped spec buf i

/-- The least index at which the depth reaches zero. -/
structure Closes (j : Nat) : Prop where
  after : start < j
  inside : j < buf.length
  zero : depthAt escaped spec buf start j = 0
  least : ∀ i, start < i → i < j → depthAt escaped spec buf start i ≠ 0

variable {escaped spec buf start}

theorem depthAt_start : depthAt escaped spec buf start start = 1 := by simp [depthAt]

theorem depthAt_succ {j : Nat} (h : start ≤ j) : depthAt escaped spec buf start (j + 1) =
    depthAt escaped spec buf start j + weightAt escaped spec buf (j + 1) := by
  rw [depthAt, depthAt, Finset.sum_Ioc_succ_top h, add_assoc]

theorem depthAt_pred {pos : Nat} (h : start < pos) : depthAt escaped spec buf start pos =
    depthAt escaped spec buf start (pos - 1) + weightAt escaped spec buf pos := by
  obtain ⟨j, rfl⟩ : ∃ j, pos = j + 1 := ⟨pos - 1, by omega⟩
  rw [depthAt_succ (by omega), Nat.add_sub_cancel]

theorem neg_one_le_weightAt (i : Nat) : -1 ≤ weightAt escaped spec buf i := by
  simp only [weightAt, weight]
  split_ifs <;> omega

theorem depthAt_pos {j : Nat} (hleast : ∀ i, start < i → i < j → depthAt escaped spec buf start i ≠ 0)
    {k : Nat} (hk : start ≤ k) (hlt : k < j) : 0 < depthAt escaped spec buf start k := by
  induction k, hk using Nat.le_induction with
  | base => rw [depthAt_start]; exact Int.one_pos
  | succ k hk ih =>
      have hstep : depthAt escaped spec buf start (k + 1) =
          depthAt escaped spec buf start k + weightAt escaped spec buf (k + 1) := depthAt_succ hk
      have hw : -1 ≤ weightAt escaped spec buf (k + 1) := neg_one_le_weightAt (k + 1)
      have hne := hleast (k + 1) (by omega) hlt
      have hpos := ih (by omega)
      omega

theorem Closes.unique {j j' : Nat} (h : Closes escaped spec buf start j)
    (h' : Closes escaped spec buf start j') : j = j' := by
  rcases Nat.lt_trichotomy j j' with hlt | he | hlt
  · exact absurd h.zero (h'.least j h.after hlt)
  · exact he
  · exact absurd h'.zero (h.least j' h'.after hlt)

theorem exists_closes_of_zero {j : Nat} (hafter : start < j) (hin : j < buf.length)
    (hzero : depthAt escaped spec buf start j = 0) : ∃ k, k ≤ j ∧ Closes escaped spec buf start k := by
  have hex : ∃ k, start < k ∧ depthAt escaped spec buf start k = 0 := ⟨j, hafter, hzero⟩
  classical
  obtain ⟨hlt, hz⟩ := Nat.find_spec hex
  have hle : Nat.find hex ≤ j := Nat.find_min' hex ⟨hafter, hzero⟩
  exact ⟨Nat.find hex, hle, hlt, by omega, hz, fun i hi hlt' hi0 => Nat.find_min hex hlt' ⟨hi, hi0⟩⟩

/-- Two notions of an escaped byte close a group alike exactly if, as far as the
second one leaves it open, they reach depth zero at the same indices. -/
theorem closes_agree_iff {escaped' : Nat → Bool} :
    ((∃ k, Closes escaped spec buf start k) ↔ ∃ j, Closes escaped' spec buf start j) ∧
        (∀ k j, Closes escaped spec buf start k → Closes escaped' spec buf start j → k = j) ↔
      ∀ j, start < j → j < buf.length → (∀ i, start < i → i < j → depthAt escaped' spec buf start i ≠ 0) →
        (depthAt escaped spec buf start j = 0 ↔ depthAt escaped' spec buf start j = 0) := by
  constructor
  · rintro ⟨hexists, hsame⟩ j hj hjlen hleast
    constructor
    · intro hz
      obtain ⟨k, hkj, hk⟩ := exists_closes_of_zero hj hjlen hz
      obtain ⟨l, hl⟩ := hexists.mp ⟨k, hk⟩
      obtain rfl := hsame k l hk hl
      rcases hkj.eq_or_lt with rfl | hlt
      · exact hl.zero
      · exact absurd hl.zero (hleast k hl.after hlt)
    · intro hz
      have hcloses : Closes escaped' spec buf start j := ⟨hj, hjlen, hz, hleast⟩
      obtain ⟨k, hk⟩ := hexists.mpr ⟨j, hcloses⟩
      obtain rfl := hsame k j hk hcloses
      exact hk.zero
  · intro hagree
    have hcloses : ∀ k, Closes escaped spec buf start k → Closes escaped' spec buf start k := by
      intro k hk
      have hleast : ∀ i, start < i → i < k → depthAt escaped' spec buf start i ≠ 0 := by
        intro i
        induction i using Nat.strong_induction_on with
        | _ i ih =>
            intro hi hlt hz
            have hbefore := fun m hm hmi => ih m hmi hm (hmi.trans hlt)
            exact hk.least i hi hlt ((hagree i hi (hlt.trans hk.inside) hbefore).mpr hz)
      exact ⟨hk.after, hk.inside, (hagree k hk.after hk.inside hleast).mp hk.zero, hleast⟩
    refine ⟨⟨fun ⟨k, hk⟩ => ⟨k, hcloses k hk⟩, ?_⟩, fun k j hk hj => (hcloses k hk).unique hj⟩
    rintro ⟨j, hj⟩
    obtain ⟨k, -, hk⟩ :=
      exists_closes_of_zero hj.after hj.inside ((hagree j hj.after hj.inside hj.least).mpr hj.zero)
    exact ⟨k, hk⟩

end Depth

variable {spec : GroupSpec} {buf : List UInt8} {start pos : Nat} {depth : BitVec 32}

def lookBehind (spec : GroupSpec) (buf : List UInt8) (start i : Nat) : Bool :=
  decide (start + 1 < i ∧ spec.canEscapeWith = some (byteAt buf (i - 1)))

def codeDepth (spec : GroupSpec) (buf : List UInt8) (start j : Nat) : Int :=
  depthAt (lookBehind spec buf start) spec buf start j

/-- The loop variable holds the depth of what has been read. It is at most the
number of bytes read, so a short buffer cannot overflow it. -/
structure Counting (spec : GroupSpec) (buf : List UInt8) (start pos : Nat) (depth : BitVec 32) : Prop where
  after : start < pos
  value : (depth.toNat : Int) = codeDepth spec buf start (pos - 1)
  positive : 0 < depth.toNat
  bound : depth.toNat + start ≤ pos
  same : spec.mustStartWith = spec.mustEndWith → depth = 1

theorem counting_start : Counting spec buf start (start + 1) 1 := by
  refine ⟨by omega, ?_, by decide, by simp; omega, fun _ => rfl⟩
  rw [codeDepth, Nat.add_sub_cancel, depthAt_start]
  rfl

theorem codeDepth_pos (h : Counting spec buf start pos depth) : codeDepth spec buf start pos =
    depth.toNat + weightAt (lookBehind spec buf start) spec buf pos := by
  rw [h.value, codeDepth, depthAt_pred h.after, codeDepth]

theorem Counting.keep (h : Counting spec buf start pos depth)
    (hw : weightAt (lookBehind spec buf start) spec buf pos = 0) :
    Counting spec buf start (pos + 1) depth := by
  have hv := codeDepth_pos h
  refine ⟨h.after.trans (by omega), ?_, h.positive, h.bound.trans (by omega), h.same⟩
  rw [Nat.add_sub_cancel, hv, hw, add_zero]

theorem Counting.opened (h : Counting spec buf start pos depth) (hlen : pos < 2 ^ 31)
    (hne : spec.mustStartWith ≠ spec.mustEndWith)
    (hw : weightAt (lookBehind spec buf start) spec buf pos = 1) :
    Counting spec buf start (pos + 1) (depth + 1) := by
  have hv := codeDepth_pos h
  have hb := h.bound
  have hadd : (depth + 1).toNat = depth.toNat + 1 := by
    rw [BitVec.toNat_add]
    exact Nat.mod_eq_of_lt (by simp; omega)
  refine ⟨h.after.trans (by omega), ?_, by omega, by omega, fun hs => absurd hs hne⟩
  rw [Nat.add_sub_cancel, hv, hw, hadd]
  push_cast
  rfl

theorem toNat_sub_one (h : 0 < depth.toNat) : (depth - 1).toNat = depth.toNat - 1 := by
  have hlt := depth.isLt
  rw [BitVec.toNat_sub_of_le (by rw [BitVec.le_def]; exact h)]
  rfl

theorem Counting.closed (h : Counting spec buf start pos depth)
    (hne : spec.mustStartWith ≠ spec.mustEndWith) (hnz : ¬ depth - 1 = 0)
    (hw : weightAt (lookBehind spec buf start) spec buf pos = -1) :
    Counting spec buf start (pos + 1) (depth - 1) := by
  have hv := codeDepth_pos h
  have hb := h.bound
  have hp := h.positive
  have hsub := toNat_sub_one hp
  have hpos : 0 < (depth - 1).toNat := by
    rw [Nat.pos_iff_ne_zero]
    intro hz
    exact hnz (BitVec.eq_of_toNat_eq (by simpa using hz))
  refine ⟨h.after.trans (by omega), ?_, hpos, by omega, fun hs => absurd hs hne⟩
  rw [Nat.add_sub_cancel, hv, hw, hsub]
  omega

def ZeroFrom (spec : GroupSpec) (buf : List UInt8) (start pos j : Nat) : Prop :=
  pos ≤ j ∧ j < buf.length ∧ codeDepth spec buf start j = 0 ∧
    ∀ i, pos ≤ i → i < j → codeDepth spec buf start i ≠ 0

theorem zeroFrom_succ (h : codeDepth spec buf start pos ≠ 0) (j : Nat) :
    ZeroFrom spec buf start (pos + 1) j ↔ ZeroFrom spec buf start pos j := by
  constructor
  · rintro ⟨hle, hin, hz, hleast⟩
    refine ⟨by omega, hin, hz, fun i hi hlt => ?_⟩
    rcases hi.eq_or_lt with rfl | hi
    · exact h
    · exact hleast i hi hlt
  · rintro ⟨hle, hin, hz, hleast⟩
    have hne : pos ≠ j := by rintro rfl; exact h hz
    exact ⟨by omega, hin, hz, fun i hi hlt => hleast i (by omega) hlt⟩

theorem zeroFrom_here (hlt : pos < buf.length) (h : codeDepth spec buf start pos = 0) (j : Nat) :
    some pos = some j ↔ ZeroFrom spec buf start pos j := by
  constructor
  · rintro ⟨⟩
    exact ⟨le_rfl, hlt, h, fun i hi hlt' => by omega⟩
  · rintro ⟨hle, _, _, hleast⟩
    rcases hle.eq_or_lt with rfl | hlt'
    · rfl
    · exact absurd h (hleast pos le_rfl hlt')

theorem Counting.ne_zero (h : Counting spec buf start (pos + 1) depth) : codeDepth spec buf start pos ≠ 0 := by
  have hv := h.value
  have hp := h.positive
  rw [Nat.add_sub_cancel] at hv
  omega

theorem weightAt_unescaped (h : ¬ (start + 1 < pos ∧ spec.canEscapeWith = some (byteAt buf (pos - 1)))) :
    weightAt (lookBehind spec buf start) spec buf pos = weight spec (byteAt buf pos) := by
  rw [weightAt, lookBehind, decide_eq_false h]
  rfl

/-- The loop stops exactly at the first index where the depth by its own test
of escapes is zero. -/
theorem findClosing_iff (hlen : buf.length < 2 ^ 31) (h : Counting spec buf start pos depth) (j : Nat) :
    findClosing spec buf start pos depth = some j ↔ ZeroFrom spec buf start pos j := by
  fun_induction findClosing spec buf start pos depth with
  | case1 pos depth hlt escaped he ih =>
      have hk := h.keep (by rw [weightAt, lookBehind, decide_eq_true he]; rfl)
      rw [ih hk, zeroFrom_succ hk.ne_zero]
  | case2 pos depth hlt current escaped he hsame hc =>
      have hw := weightAt_unescaped he
      rw [weight, if_pos hsame, if_pos hc] at hw
      refine zeroFrom_here hlt ?_ j
      rw [codeDepth_pos h, hw, h.same hsame]
      rfl
  | case3 pos depth hlt current escaped he hsame hc ih =>
      have hw := weightAt_unescaped he
      rw [weight, if_pos hsame, if_neg hc] at hw
      have hk := h.keep hw
      rw [ih hk, zeroFrom_succ hk.ne_zero]
  | case4 pos depth hlt current escaped he hsame hc ih =>
      have hw := weightAt_unescaped he
      rw [weight, if_neg hsame, if_pos hc] at hw
      have hk := h.opened (by omega) hsame hw
      rw [ih hk, zeroFrom_succ hk.ne_zero]
  | case5 pos depth hlt current escaped he hsame hc hd hz =>
      have hw := weightAt_unescaped he
      rw [weight, if_neg hsame, if_neg hc, if_pos hd] at hw
      have hsub := toNat_sub_one h.positive
      have hp := h.positive
      rw [hz] at hsub
      refine zeroFrom_here hlt ?_ j
      rw [codeDepth_pos h, hw]
      simp at hsub
      omega
  | case6 pos depth hlt current escaped he hsame hc hd hz ih =>
      have hw := weightAt_unescaped he
      rw [weight, if_neg hsame, if_neg hc, if_pos hd] at hw
      have hk := h.closed hsame hz hw
      rw [ih hk, zeroFrom_succ hk.ne_zero]
  | case7 pos depth hlt current escaped he hsame hc hd ih =>
      have hw := weightAt_unescaped he
      rw [weight, if_neg hsame, if_neg hc, if_neg hd] at hw
      have hk := h.keep hw
      rw [ih hk, zeroFrom_succ hk.ne_zero]
  | case8 pos depth hlt =>
      refine iff_of_false (by simp) (fun hz => ?_)
      have := hz.1.trans_lt hz.2.1
      omega

theorem findClosing_closes_iff (hlen : buf.length < 2 ^ 31) (j : Nat) :
    findClosing spec buf start (start + 1) 1 = some j ↔
      Closes (lookBehind spec buf start) spec buf start j := by
  rw [findClosing_iff hlen counting_start]
  constructor
  · rintro ⟨hle, hin, hz, hleast⟩
    exact ⟨hle, hin, hz, fun i hi hlt => hleast i hi hlt⟩
  · intro h
    exact ⟨h.after, h.inside, h.zero, fun i hi hlt => h.least i hi hlt⟩

def groupStart (scanner : Scanner) (spec : GroupSpec) : Nat :=
  if spec.consumeLeadingWs then skipWhitespace scanner.buffer scanner.position else scanner.position

theorem le_groupStart {scanner : Scanner} (h : scanner.buffer.length ≤ scanner.position) :
    scanner.buffer.length ≤ groupStart scanner spec := by
  rw [groupStart]
  split_ifs
  · rw [skipWhitespace, if_neg (fun hw => absurd hw.1 (by omega))]
    exact h
  · exact h

theorem findGroup_refused {scanner : Scanner}
    (h : scanner.buffer.length ≤ groupStart scanner spec ∨
      byteAt scanner.buffer (groupStart scanner spec) ≠ spec.mustStartWith) :
    akScannerFindGroup scanner spec = (groupFailure, scanner) := by
  rw [groupStart] at h
  simp only [akScannerFindGroup]
  by_cases hpos : scanner.buffer.length ≤ scanner.position
  · rw [if_pos hpos]
  rw [if_neg hpos]
  generalize (if spec.consumeLeadingWs then skipWhitespace scanner.buffer scanner.position else
    scanner.position) = s at h ⊢
  by_cases hs : scanner.buffer.length ≤ s
  · rw [if_pos hs]
  · rw [if_neg hs, if_pos (h.resolve_left hs)]

theorem findGroup_opened {scanner : Scanner} (hin : groupStart scanner spec < scanner.buffer.length)
    (hopen : byteAt scanner.buffer (groupStart scanner spec) = spec.mustStartWith) :
    akScannerFindGroup scanner spec =
      match findClosing spec scanner.buffer (groupStart scanner spec) (groupStart scanner spec + 1) 1 with
      | some closing => (⟨true, groupStart scanner spec, closing⟩, { scanner with position := closing })
      | none => (groupFailure, scanner) := by
  have hpos : ¬ scanner.buffer.length ≤ scanner.position := by
    intro hle
    have hstart : scanner.buffer.length ≤ groupStart scanner spec := le_groupStart hle
    omega
  rw [groupStart] at hin hopen ⊢
  simp only [akScannerFindGroup]
  rw [if_neg hpos]
  generalize (if spec.consumeLeadingWs then skipWhitespace scanner.buffer scanner.position else
    scanner.position) = s at hin hopen ⊢
  refine (if_neg (not_le.mpr hin)).trans ((if_neg (not_not.mpr hopen)).trans ?_)
  rfl

/-- What a call on an opening delimiter returns: the least index at which the
depth is zero, or a failure if there is none. -/
theorem findGroup_spec {scanner : Scanner} (hlen : scanner.buffer.length < 2 ^ 31)
    (hin : groupStart scanner spec < scanner.buffer.length)
    (hopen : byteAt scanner.buffer (groupStart scanner spec) = spec.mustStartWith) :
    (∃ j, Closes (lookBehind spec scanner.buffer (groupStart scanner spec)) spec scanner.buffer
        (groupStart scanner spec) j ∧
      akScannerFindGroup scanner spec =
        (⟨true, groupStart scanner spec, j⟩, { scanner with position := j })) ∨
    (∀ j, ¬ Closes (lookBehind spec scanner.buffer (groupStart scanner spec)) spec scanner.buffer
        (groupStart scanner spec) j) ∧
      akScannerFindGroup scanner spec = (groupFailure, scanner) := by
  rw [findGroup_opened hin hopen]
  cases hc : findClosing spec scanner.buffer (groupStart scanner spec) (groupStart scanner spec + 1) 1 with
  | some j => exact Or.inl ⟨j, (findClosing_closes_iff hlen j).mp hc, rfl⟩
  | none =>
      refine Or.inr ⟨fun j hj => ?_, rfl⟩
      rw [← findClosing_closes_iff hlen, hc] at hj
      exact absurd hj (by simp)

theorem findGroup_success_iff {scanner : Scanner} (hlen : scanner.buffer.length < 2 ^ 31)
    (hin : groupStart scanner spec < scanner.buffer.length)
    (hopen : byteAt scanner.buffer (groupStart scanner spec) = spec.mustStartWith) :
    (akScannerFindGroup scanner spec).1.success = true ↔
      ∃ j, Closes (lookBehind spec scanner.buffer (groupStart scanner spec)) spec scanner.buffer
        (groupStart scanner spec) j := by
  rcases findGroup_spec hlen hin hopen with ⟨j, hj, hr⟩ | ⟨hnone, hr⟩
  · rw [hr]
    exact iff_of_true rfl ⟨j, hj⟩
  · rw [hr]
    exact iff_of_false Bool.false_ne_true fun ⟨j, hj⟩ => hnone j hj

theorem findGroup_closing {scanner : Scanner} (hlen : scanner.buffer.length < 2 ^ 31)
    (hin : groupStart scanner spec < scanner.buffer.length)
    (hopen : byteAt scanner.buffer (groupStart scanner spec) = spec.mustStartWith)
    (hsuccess : (akScannerFindGroup scanner spec).1.success = true) :
    (akScannerFindGroup scanner spec).1.indexOfStartSymbol = groupStart scanner spec ∧
      Closes (lookBehind spec scanner.buffer (groupStart scanner spec)) spec scanner.buffer (groupStart scanner spec)
        (akScannerFindGroup scanner spec).1.indexOfClosingSymbol := by
  rcases findGroup_spec hlen hin hopen with ⟨j, hj, hr⟩ | ⟨-, hr⟩
  · rw [hr]
    exact ⟨rfl, hj⟩
  · rw [hr] at hsuccess
    exact absurd hsuccess Bool.false_ne_true

theorem findGroup_position (scanner : Scanner) (spec : GroupSpec) (hlen : scanner.buffer.length < 2 ^ 31) :
    ((akScannerFindGroup scanner spec).1.success = true → (akScannerFindGroup scanner spec).2 =
      { scanner with position := (akScannerFindGroup scanner spec).1.indexOfClosingSymbol }) ∧
    ((akScannerFindGroup scanner spec).1.success = false → (akScannerFindGroup scanner spec).2 = scanner) := by
  by_cases hrange : scanner.buffer.length ≤ groupStart scanner spec ∨
      byteAt scanner.buffer (groupStart scanner spec) ≠ spec.mustStartWith
  · rw [findGroup_refused hrange]
    exact ⟨fun h => absurd h Bool.false_ne_true, fun _ => rfl⟩
  · simp only [not_or, not_le, ne_eq, not_not] at hrange
    rcases findGroup_spec hlen hrange.1 hrange.2 with ⟨j, -, hr⟩ | ⟨-, hr⟩
    · rw [hr]
      exact ⟨fun _ => rfl, fun h => absurd h (Ne.symm Bool.false_ne_true)⟩
    · rw [hr]
      exact ⟨fun h => absurd h Bool.false_ne_true, fun _ => rfl⟩

def occurrences (byte : UInt8) (buf : List UInt8) (s j : Nat) : Nat :=
  ((buf.drop s).take (j + 1 - s)).count byte

theorem occurrences_self (byte : UInt8) {s : Nat} (hs : s < buf.length) :
    occurrences byte buf s s = if byteAt buf s = byte then 1 else 0 := by
  rw [occurrences, Nat.add_sub_cancel_left, byteAt_eq hs]
  simp [List.count_cons]

theorem occurrences_succ (byte : UInt8) {s j : Nat} (hs : s ≤ j) (hj : j + 1 < buf.length) :
    occurrences byte buf s (j + 1) = occurrences byte buf s j + if byteAt buf (j + 1) = byte then 1 else 0 := by
  have hget : (buf.drop s)[j + 1 - s]? = some (byteAt buf (j + 1)) := by
    rw [List.getElem?_drop, show s + (j + 1 - s) = j + 1 by omega, List.getElem?_eq_getElem hj, byteAt,
      List.getD_eq_getElem _ _ hj]
  rw [occurrences, occurrences, show j + 1 + 1 - s = (j + 1 - s) + 1 by omega, List.take_add_one, hget,
    List.count_append]
  simp [List.count_cons]

theorem depthAt_occurrences (hesc : spec.canEscapeWith = none) (hne : spec.mustStartWith ≠ spec.mustEndWith)
    {s j : Nat} (hs : s ≤ j) (hj : j < buf.length) (hopen : byteAt buf s = spec.mustStartWith) :
    depthAt (lookBehind spec buf s) spec buf s j =
      occurrences spec.mustStartWith buf s j - occurrences spec.mustEndWith buf s j := by
  induction j, hs using Nat.le_induction with
  | base =>
      rw [depthAt_start, occurrences_self _ hj, occurrences_self _ hj, hopen, if_pos rfl, if_neg hne]
      rfl
  | succ j hs ih =>
      have hw : weightAt (lookBehind spec buf s) spec buf (j + 1) = weight spec (byteAt buf (j + 1)) :=
        weightAt_unescaped (by simp [hesc])
      rw [depthAt_succ hs, ih (by omega), hw, occurrences_succ _ hs hj, occurrences_succ _ hs hj, weight, if_neg hne]
      by_cases ho : byteAt buf (j + 1) = spec.mustStartWith
      · rw [if_pos ho, if_pos ho, if_neg (by rw [ho]; exact hne)]
        omega
      · rw [if_neg ho, if_neg ho]
        split_ifs <;> omega

theorem depthAt_same (hesc : spec.canEscapeWith = none) (hsame : spec.mustStartWith = spec.mustEndWith)
    {s j : Nat} (hs : s ≤ j) (hnone : ∀ i, s < i → i ≤ j → byteAt buf i ≠ spec.mustEndWith) :
    depthAt (lookBehind spec buf s) spec buf s j = 1 := by
  induction j, hs using Nat.le_induction with
  | base => exact depthAt_start
  | succ j hs ih =>
      have hw : weightAt (lookBehind spec buf s) spec buf (j + 1) = weight spec (byteAt buf (j + 1)) :=
        weightAt_unescaped (by simp [hesc])
      rw [depthAt_succ hs, ih (fun i hi hle => hnone i hi (by omega)), hw, weight, if_pos hsame,
        if_neg (hnone (j + 1) (by omega) le_rfl)]
      rfl

theorem closes_same_iff (hesc : spec.canEscapeWith = none) (hsame : spec.mustStartWith = spec.mustEndWith)
    {s j : Nat} : Closes (lookBehind spec buf s) spec buf s j ↔ s < j ∧ j < buf.length ∧
      byteAt buf j = spec.mustEndWith ∧ ∀ i, s < i → i < j → byteAt buf i ≠ spec.mustEndWith := by
  have hw (i : Nat) : weightAt (lookBehind spec buf s) spec buf i =
      if byteAt buf i = spec.mustEndWith then -1 else 0 := by
    rw [weightAt_unescaped (by simp [hesc]), weight, if_pos hsame]
  constructor
  · intro h
    have hleast : ∀ i, s < i → i < j → byteAt buf i ≠ spec.mustEndWith := by
      intro i hi
      induction i using Nat.strong_induction_on with
      | _ i ih =>
          intro hlt he
          have hd := depthAt_same hesc hsame (show s ≤ i - 1 by omega)
            (fun k hk hle => ih k (by omega) hk (by omega))
          refine h.least i hi hlt ?_
          rw [depthAt_pred hi, hd, hw, if_pos he]
          rfl
    refine ⟨h.after, h.inside, ?_, hleast⟩
    by_contra hne
    have hz := h.zero
    rw [depthAt_same hesc hsame h.after.le] at hz
    · exact absurd hz one_ne_zero
    · intro i hi hle
      rcases hle.eq_or_lt with rfl | hlt
      · exact hne
      · exact hleast i hi hlt
  · rintro ⟨hafter, hin, he, hleast⟩
    refine ⟨hafter, hin, ?_, fun i hi hlt => ?_⟩
    · rw [depthAt_pred hafter, depthAt_same hesc hsame (show s ≤ j - 1 by omega)
        (fun k hk hle => hleast k hk (by omega)), hw, if_pos he]
      rfl
    · rw [depthAt_same hesc hsame hi.le (fun k hk hle => hleast k hk (by omega))]
      exact one_ne_zero

theorem closes_distinct_iff (hesc : spec.canEscapeWith = none) (hne : spec.mustStartWith ≠ spec.mustEndWith)
    {s j : Nat} (hopen : byteAt buf s = spec.mustStartWith) :
    Closes (lookBehind spec buf s) spec buf s j ↔ s < j ∧ j < buf.length ∧
      occurrences spec.mustStartWith buf s j = occurrences spec.mustEndWith buf s j ∧
      ∀ k, s ≤ k → k < j → occurrences spec.mustEndWith buf s k < occurrences spec.mustStartWith buf s k := by
  constructor
  · intro h
    have hin := h.inside
    refine ⟨h.after, h.inside, ?_, fun k hk hlt => ?_⟩
    · have hz := h.zero
      rw [depthAt_occurrences hesc hne h.after.le h.inside hopen] at hz
      omega
    · have hp := depthAt_pos h.least hk hlt
      rw [depthAt_occurrences hesc hne hk (by omega) hopen] at hp
      omega
  · rintro ⟨hafter, hin, heq, hmore⟩
    refine ⟨hafter, hin, ?_, fun i hi hlt => ?_⟩
    · rw [depthAt_occurrences hesc hne hafter.le hin hopen]
      omega
    · have := hmore i hi.le hlt
      rw [depthAt_occurrences hesc hne hi.le (by omega) hopen]
      omega

theorem exists_closes_distinct_iff (hesc : spec.canEscapeWith = none) (hne : spec.mustStartWith ≠ spec.mustEndWith)
    {s : Nat} (hopen : byteAt buf s = spec.mustStartWith) :
    (∃ j, Closes (lookBehind spec buf s) spec buf s j) ↔ ∃ j, s < j ∧ j < buf.length ∧
      occurrences spec.mustStartWith buf s j = occurrences spec.mustEndWith buf s j := by
  constructor
  · rintro ⟨j, hj⟩
    obtain ⟨hafter, hin, heq, -⟩ := (closes_distinct_iff hesc hne hopen).mp hj
    exact ⟨j, hafter, hin, heq⟩
  · rintro ⟨j, hafter, hin, heq⟩
    have hz : depthAt (lookBehind spec buf s) spec buf s j = 0 := by
      rw [depthAt_occurrences hesc hne hafter.le hin hopen]
      omega
    obtain ⟨k, -, hk⟩ := exists_closes_of_zero hafter hin hz
    exact ⟨k, hk⟩

theorem exists_closes_same_iff (hesc : spec.canEscapeWith = none) (hsame : spec.mustStartWith = spec.mustEndWith)
    {s : Nat} : (∃ j, Closes (lookBehind spec buf s) spec buf s j) ↔
      ∃ j, s < j ∧ j < buf.length ∧ byteAt buf j = spec.mustEndWith := by
  constructor
  · rintro ⟨j, hj⟩
    obtain ⟨hafter, hin, hend, -⟩ := (closes_same_iff hesc hsame).mp hj
    exact ⟨j, hafter, hin, hend⟩
  · rintro ⟨j, hafter, hin, hend⟩
    classical
    have hex : ∃ k, s < k ∧ byteAt buf k = spec.mustEndWith := ⟨j, hafter, hend⟩
    obtain ⟨hlt, hk⟩ := Nat.find_spec hex
    have hle : Nat.find hex ≤ j := Nat.find_min' hex ⟨hafter, hend⟩
    refine ⟨Nat.find hex, (closes_same_iff hesc hsame).mpr ⟨hlt, hle.trans_lt hin, hk, ?_⟩⟩
    exact fun i hi hlt' hi' => Nat.find_min hex hlt' ⟨hi, hi'⟩

/-- Without an escape byte a call matches balanced delimiters: it ends at the
first index with as many closing as opening bytes, or at the next delimiter if the
two are equal, and it moves the cursor only there. -/
theorem findGroup_balanced (scanner : Scanner) (spec : GroupSpec) (hesc : spec.canEscapeWith = none)
    (hlen : scanner.buffer.length < 2 ^ 31) :
    let buf := scanner.buffer
    let s := groupStart scanner spec
    let r := akScannerFindGroup scanner spec
    (spec.consumeLeadingWs = false → s = scanner.position) ∧
    (spec.consumeLeadingWs = true → Relation.ReflTransGen (WhitespaceItem buf) scanner.position s ∧
      ∀ q, ¬ WhitespaceItem buf s q) ∧
    (buf.length ≤ s ∨ byteAt buf s ≠ spec.mustStartWith → r.1.success = false) ∧
    (s < buf.length → byteAt buf s = spec.mustStartWith → spec.mustStartWith ≠ spec.mustEndWith →
      (r.1.success = true ↔ ∃ j, s < j ∧ j < buf.length ∧
        occurrences spec.mustStartWith buf s j = occurrences spec.mustEndWith buf s j) ∧
      (r.1.success = true → r.1.indexOfStartSymbol = s ∧ s < r.1.indexOfClosingSymbol ∧
        r.1.indexOfClosingSymbol < buf.length ∧
        occurrences spec.mustStartWith buf s r.1.indexOfClosingSymbol =
          occurrences spec.mustEndWith buf s r.1.indexOfClosingSymbol ∧
        ∀ k, s ≤ k → k < r.1.indexOfClosingSymbol →
          occurrences spec.mustEndWith buf s k < occurrences spec.mustStartWith buf s k)) ∧
    (s < buf.length → byteAt buf s = spec.mustStartWith → spec.mustStartWith = spec.mustEndWith →
      (r.1.success = true ↔ ∃ j, s < j ∧ j < buf.length ∧ byteAt buf j = spec.mustEndWith) ∧
      (r.1.success = true → r.1.indexOfStartSymbol = s ∧ s < r.1.indexOfClosingSymbol ∧
        r.1.indexOfClosingSymbol < buf.length ∧ byteAt buf r.1.indexOfClosingSymbol = spec.mustEndWith ∧
        ∀ i, s < i → i < r.1.indexOfClosingSymbol → byteAt buf i ≠ spec.mustEndWith)) ∧
    (r.1.success = true → r.2 = { scanner with position := r.1.indexOfClosingSymbol }) ∧
    (r.1.success = false → r.2 = scanner) := by
  intro buf s r
  have hskip := skipWhitespace_items scanner.buffer scanner.position
  refine ⟨fun h => by simp [s, groupStart, h], fun h => by simpa [s, groupStart, h] using hskip,
    fun h => by simp only [r, findGroup_refused h]; rfl, ?_, ?_, findGroup_position scanner spec hlen⟩
  · intro hin hopen hne
    rw [← exists_closes_distinct_iff hesc hne hopen]
    refine ⟨findGroup_success_iff hlen hin hopen, fun hsuccess => ?_⟩
    obtain ⟨hstart, hcloses⟩ := findGroup_closing hlen hin hopen hsuccess
    exact ⟨hstart, (closes_distinct_iff hesc hne hopen).mp hcloses⟩
  · intro hin hopen hsame
    rw [← exists_closes_same_iff hesc hsame]
    refine ⟨findGroup_success_iff hlen hin hopen, fun hsuccess => ?_⟩
    obtain ⟨hstart, hcloses⟩ := findGroup_closing hlen hin hopen hsuccess
    exact ⟨hstart, (closes_same_iff hesc hsame).mp hcloses⟩

theorem findGroup_balanced_nested :
    (akScannerFindGroup ⟨[0x28, 0x28, 0x29, 0x29], 0⟩ ⟨0x28, 0x29, none, false⟩).1.success = true :=
  ((findGroup_balanced ⟨[0x28, 0x28, 0x29, 0x29], 0⟩ ⟨0x28, 0x29, none, false⟩ rfl (by decide)).2.2.2.1
    (by decide) (by decide) (by decide)).1.mpr ⟨3, by decide⟩

section Escapes

variable (escape : UInt8) (buf : List UInt8) (start : Nat)

def escapeRun : Nat → Nat
  | 0 => 0
  | p + 1 => if start < p ∧ byteAt buf p = escape then escapeRun p + 1 else 0

def oddRun (i : Nat) : Bool := escapeRun escape buf start i % 2 == 1

def afterEvenRun (i : Nat) : Bool := escapeRun escape buf start i != 0 && escapeRun escape buf start i % 2 == 0

def hiddenDepth (spec : GroupSpec) (j : Nat) : Int :=
  ∑ i ∈ Finset.Ioc start j, if afterEvenRun escape buf start i then weight spec (byteAt buf i) else 0

variable {escape buf start}

theorem lookBehind_eq {spec : GroupSpec} (hesc : spec.canEscapeWith = some escape) (i : Nat) :
    lookBehind spec buf start i = (escapeRun escape buf start i != 0) := by
  cases i with
  | zero => simp [lookBehind, escapeRun]
  | succ p =>
      simp only [lookBehind, escapeRun, hesc, Option.some.injEq, Nat.add_lt_add_iff_right, Nat.add_sub_cancel]
      by_cases h : start < p ∧ byteAt buf p = escape
      · rw [if_pos h]
        simp [h.1, h.2]
      · rw [if_neg h]
        simp only [bne_self_eq_false, decide_eq_false_iff_not]
        exact fun h' => h ⟨h'.1, h'.2.symm⟩

theorem codeDepth_eq {spec : GroupSpec} (hesc : spec.canEscapeWith = some escape) (j : Nat) :
    codeDepth spec buf start j =
      depthAt (oddRun escape buf start) spec buf start j - hiddenDepth escape buf start spec j := by
  rw [codeDepth, depthAt, depthAt, hiddenDepth, add_sub_assoc, ← Finset.sum_sub_distrib]
  congr 1
  apply Finset.sum_congr rfl
  intro i _
  simp only [weightAt, lookBehind_eq hesc, oddRun, afterEvenRun]
  rcases Nat.eq_zero_or_pos (escapeRun escape buf start i) with hz | hp
  · simp [hz]
  · rcases Nat.mod_two_eq_zero_or_one (escapeRun escape buf start i) with h2 | h2
    · simp [hp.ne', h2]
    · simp [hp.ne', h2]

end Escapes

/-- The law of escape runs for a call on an opening delimiter. -/
def EscapeLaw (scanner : Scanner) (spec : GroupSpec) (escape : UInt8) : Prop :=
  let s := groupStart scanner spec
  let r := akScannerFindGroup scanner spec
  (r.1.success = true ↔ ∃ j, Closes (oddRun escape scanner.buffer s) spec scanner.buffer s j) ∧
  ∀ j, Closes (oddRun escape scanner.buffer s) spec scanner.buffer s j → r.1.indexOfClosingSymbol = j

/-- Up to the index where the law closes the group, the delimiters after even
runs make up the whole depth only where that depth is zero. -/
def EvenRunsCancel (spec : GroupSpec) (escape : UInt8) (buf : List UInt8) (start : Nat) : Prop :=
  ∀ j, start < j → j < buf.length →
    (∀ i, start < i → i < j → depthAt (oddRun escape buf start) spec buf start i ≠ 0) →
    (hiddenDepth escape buf start spec j = depthAt (oddRun escape buf start) spec buf start j ↔
      depthAt (oddRun escape buf start) spec buf start j = 0)

theorem evenRunsCancel_of_weightless {escape : UInt8}
    (h : ∀ i, start < i → i < buf.length → afterEvenRun escape buf start i = true →
      weight spec (byteAt buf i) = 0) : EvenRunsCancel spec escape buf start := by
  intro j hj hlt _
  have hz : hiddenDepth escape buf start spec j = 0 := by
    apply Finset.sum_eq_zero
    intro i hi
    rw [Finset.mem_Ioc] at hi
    split_ifs with he
    · exact h i hi.1 (by omega) he
    · rfl
  rw [hz]
  exact eq_comm

/-- A call obeys the law of escape runs exactly if the delimiters after even
runs cancel out: the look-behind hides these and no others. -/
theorem escapeLaw_iff (scanner : Scanner) (spec : GroupSpec) (escape : UInt8)
    (hlen : scanner.buffer.length < 2 ^ 31) (hesc : spec.canEscapeWith = some escape)
    (hin : groupStart scanner spec < scanner.buffer.length)
    (hopen : byteAt scanner.buffer (groupStart scanner spec) = spec.mustStartWith) :
    EscapeLaw scanner spec escape ↔ EvenRunsCancel spec escape scanner.buffer (groupStart scanner spec) := by
  have hsuccess := findGroup_success_iff hlen hin hopen
  have hclosing := findGroup_closing hlen hin hopen
  simp only [EscapeLaw, EvenRunsCancel]
  generalize groupStart scanner spec = s at hsuccess hclosing hin hopen ⊢
  generalize akScannerFindGroup scanner spec = r at hsuccess hclosing ⊢
  have hcode (j : Nat) : hiddenDepth escape scanner.buffer s spec j =
      depthAt (oddRun escape scanner.buffer s) spec scanner.buffer s j ↔
      depthAt (lookBehind spec scanner.buffer s) spec scanner.buffer s j = 0 := by
    have h : codeDepth spec scanner.buffer s j = _ := codeDepth_eq hesc j
    rw [codeDepth] at h
    omega
  simp only [hcode, hsuccess]
  rw [← closes_agree_iff]
  refine and_congr_right fun hexists => ⟨fun hindex k j hk hj => ?_, fun hsame j hj => ?_⟩
  · rw [← hindex j hj]
    exact hk.unique (hclosing (hsuccess.mpr ⟨k, hk⟩)).2
  · obtain ⟨k, hk⟩ := hexists.mpr ⟨j, hj⟩
    rw [← hsame k j hk hj]
    exact (hclosing (hsuccess.mpr ⟨k, hk⟩)).2.unique hk

theorem escapeLaw_iff_escaped_closing :
    EscapeLaw ⟨[0x28, 0x5C, 0x29, 0x29], 0⟩ ⟨0x28, 0x29, some 0x5C, false⟩ 0x5C := by
  refine (escapeLaw_iff ⟨[0x28, 0x5C, 0x29, 0x29], 0⟩ ⟨0x28, 0x29, some 0x5C, false⟩ 0x5C (by decide) rfl
    (by decide) (by decide)).mpr (evenRunsCancel_of_weightless (fun i _ hlt he => absurd he ?_))
  change i < 4 at hlt
  interval_cases i <;> decide

theorem escapedEscape_hides_closing :
    ¬ EscapeLaw ⟨[0x28, 0x5C, 0x5C, 0x29], 0⟩ ⟨0x28, 0x29, some 0x5C, false⟩ 0x5C := by
  intro h
  have hlaw : Closes (oddRun 0x5C [0x28, 0x5C, 0x5C, 0x29] 0) ⟨0x28, 0x29, some 0x5C, false⟩
      [0x28, 0x5C, 0x5C, 0x29] 0 3 := by
    refine ⟨by decide, by decide, by decide, fun i hi hlt => ?_⟩
    interval_cases i <;> decide
  have hfail : (akScannerFindGroup ⟨[0x28, 0x5C, 0x5C, 0x29], 0⟩
      ⟨0x28, 0x29, some 0x5C, false⟩).1.success = false := by
    simp [akScannerFindGroup, findClosing, byteAt, groupFailure]
  have hsucc := h.1.mpr ⟨3, hlaw⟩
  rw [hfail] at hsucc
  exact Bool.false_ne_true hsucc

end Ak24.ScannerGroup
