import Ak24.SourcelocModel
import Ak24.Utf8Iteration

namespace Ak24.SourcelocLines

open Utf8Model Utf8Validity Utf8Boundary Utf8Iteration SourcelocModel

section Search

structure LastAtMost (table : List Nat) (key r : Nat) : Prop where
  entry : ∃ v, table[r]? = some v ∧ v ≤ key
  above : ∀ k w, r < k → table[k]? = some w → key < w

variable {table : List Nat} {key r : Nat}

theorem getElem?_mono (hsorted : table.Pairwise (· < ·)) {i j v w : Nat} (hij : i ≤ j)
    (hi : table[i]? = some v) (hj : table[j]? = some w) : v ≤ w := by
  obtain ⟨hi', rfl⟩ := List.getElem?_eq_some_iff.mp hi
  obtain ⟨hj', rfl⟩ := List.getElem?_eq_some_iff.mp hj
  rcases hij.eq_or_lt with rfl | hlt
  · exact le_rfl
  · exact (List.pairwise_iff_getElem.mp hsorted i j hi' hj' hlt).le

theorem LastAtMost.countP (h : LastAtMost table key r) (hsorted : table.Pairwise (· < ·)) :
    table.countP (fun v => decide (v ≤ key)) = r + 1 := by
  obtain ⟨v, hv, hle⟩ := h.entry
  obtain ⟨hr, -⟩ := List.getElem?_eq_some_iff.mp hv
  have htake : (table.take (r + 1)).countP (fun v => decide (v ≤ key)) = (table.take (r + 1)).length := by
    rw [List.countP_eq_length]
    intro w hw
    obtain ⟨i, hi, rfl⟩ := List.mem_take_iff_getElem.mp hw
    have hmono := getElem?_mono hsorted (show i ≤ r by omega) (List.getElem?_eq_getElem (by omega)) hv
    exact decide_eq_true (hmono.trans hle)
  have hdrop : (table.drop (r + 1)).countP (fun v => decide (v ≤ key)) = 0 := by
    rw [List.countP_eq_zero]
    intro w hw
    obtain ⟨i, hi, rfl⟩ := List.mem_drop_iff_getElem.mp hw
    have hget : table[r + 1 + i]? = some table[r + 1 + i] := List.getElem?_eq_getElem (by omega)
    have habove := h.above (r + 1 + i) _ (by omega) hget
    simp only [decide_eq_true_eq, not_le]
    exact habove
  conv_lhs => rw [← List.take_append_drop (r + 1) table]
  rw [List.countP_append, htake, hdrop, List.length_take]
  omega

structure Searching (table : List Nat) (offset left right lineIdx : UInt32) : Prop where
  right_lt : right.toNat < table.length
  left_le : left.toNat ≤ right.toNat + 1
  before : lineIdx.toNat + 1 = left.toNat ∨ left.toNat = 0
  entry : ∃ v, table[lineIdx.toNat]? = some v ∧ v ≤ offset.toNat
  above : ∀ k w, right.toNat < k → table[k]? = some w → offset.toNat < w

/-- The search ends, reads only entries of the table and finds the last one that
is not above the offset. -/
theorem findLine_spec {offset left right lineIdx : UInt32} (hsorted : table.Pairwise (· < ·))
    (hfirst : table[0]? = some 0) (h : Searching table offset left right lineIdx) :
    ∃ r, findLine table offset left right lineIdx = some r ∧ LastAtMost table offset.toNat r.toNat := by
  fun_induction findLine table offset left right lineIdx with
  | case1 left right lineIdx hle hnone =>
      have hm := toNat_midpoint hle
      have hlr := UInt32.le_iff_toNat_le.mp hle
      have hr := h.right_lt
      rw [List.getElem?_eq_none_iff] at hnone
      omega
  | case2 left right lineIdx hle v hv hlow hr =>
      refine ⟨_, rfl, ⟨v, hv, hlow⟩, fun k w hk hw => h.above k w ?_ hw⟩
      rwa [hr] at hk
  | case3 left right lineIdx hle v hv hlow hr ih =>
      have hm := toNat_midpoint hle
      have hlr := UInt32.le_iff_toNat_le.mp hle
      have hne : (midpoint left right).toNat ≠ right.toNat := fun he => hr (UInt32.toNat_inj.mp he)
      have hlt := right.toNat_lt
      have hsucc : (midpoint left right + 1).toNat = (midpoint left right).toNat + 1 := by
        rw [UInt32.toNat_add]
        exact Nat.mod_eq_of_lt (by simp; omega)
      exact ih ⟨h.right_lt, by omega, Or.inl hsucc.symm, ⟨v, hv, hlow⟩, h.above⟩
  | case4 left right lineIdx hle v hv hlow hz =>
      rw [hz] at hv
      obtain rfl : v = 0 := by simpa using hv.symm.trans hfirst
      exact absurd (Nat.zero_le _) hlow
  | case5 left right lineIdx hle v hv hlow hz ih =>
      have hm := toNat_midpoint hle
      have hlr := UInt32.le_iff_toNat_le.mp hle
      have hne : (midpoint left right).toNat ≠ 0 := fun he => hz (UInt32.toNat_inj.mp he)
      have hpred : (midpoint left right - 1).toNat = (midpoint left right).toNat - 1 := by
        rw [UInt32.toNat_sub_of_le _ _ (UInt32.le_iff_toNat_le.mpr (by simp; omega))]
        rfl
      have hr := h.right_lt
      refine ih ⟨by omega, by omega, h.before, h.entry, fun k w hk hw => ?_⟩
      have hmono := getElem?_mono hsorted (show (midpoint left right).toNat ≤ k by omega) hv hw
      omega
  | case6 left right lineIdx hle =>
      have hgt : ¬ left.toNat ≤ right.toNat := fun hle' => hle (UInt32.le_iff_toNat_le.mpr hle')
      have hb := h.before
      have hl := h.left_le
      refine ⟨_, rfl, h.entry, fun k w hk hw => h.above k w ?_ hw⟩
      omega

end Search

def newlines (contents : List UInt8) : List Nat :=
  (List.range contents.length).filter fun i => contents[i]? == some 10 && i + 1 < contents.length

def lineTable (contents : List UInt8) : List Nat := 0 :: (newlines contents).map (· + 1)

theorem mem_newlines {contents : List UInt8} {i : Nat} :
    i ∈ newlines contents ↔ contents[i]? = some 10 ∧ i + 1 < contents.length := by
  rw [newlines, List.mem_filter, List.mem_range]
  simp only [Bool.and_eq_true, beq_iff_eq, decide_eq_true_eq]
  exact ⟨fun h => h.2, fun h => ⟨by omega, h⟩⟩

theorem lineTable_sorted (contents : List UInt8) : (lineTable contents).Pairwise (· < ·) := by
  have hnew : (newlines contents).Pairwise (· < ·) := List.pairwise_lt_range.filter _
  rw [lineTable, List.pairwise_cons, List.pairwise_map]
  refine ⟨fun v hv => ?_, hnew.imp fun h => Nat.succ_lt_succ h⟩
  obtain ⟨i, _, rfl⟩ := List.mem_map.mp hv
  exact Nat.succ_pos i

theorem length_lineTable_le (contents : List UInt8) : (lineTable contents).length ≤ contents.length + 1 := by
  rw [lineTable, List.length_cons, List.length_map, newlines]
  have := List.length_filter_le (fun i => contents[i]? == some 10 && decide (i + 1 < contents.length))
    (List.range contents.length)
  rw [List.length_range] at this
  omega

/-- A file as `ak_source_file_new` leaves it, whatever its count is now. -/
def OfContents (file : SourceFile) (contents : List UInt8) : Prop :=
  ∃ base built : SourceFile, base.contents = some (contents ++ [0]) ∧ base.length = contents.length ∧
    computeLineStarts base true = some built ∧ file = { built with refCount := file.refCount }

theorem OfContents.spec {file : SourceFile} {contents : List UInt8} (h : OfContents file contents)
    (hlen : contents.length < 2 ^ 32 - 1) : file.contents = some (contents ++ [0]) ∧
      file.length = contents.length ∧ file.lineStarts = some (lineTable contents) ∧
      file.lineCount = (lineTable contents).length := by
  obtain ⟨base, built, hc, hl, hb, hfile⟩ := h
  have hends : base.lineEnds = newlines contents := by
    rw [SourceFile.lineEnds, newlines, hc, hl]
    apply List.filter_congr
    intro i hi
    rw [Option.getD_some, List.getElem?_append_left (List.mem_range.mp hi)]
  have hmod : (newlines contents).map (fun i => (i + 1) % 2 ^ 32) = (newlines contents).map (· + 1) := by
    apply List.map_congr_left
    intro i hi
    have := (mem_newlines.mp hi).2
    exact Nat.mod_eq_of_lt (by omega)
  have hcount : base.countLines = (lineTable contents).length := by
    have hle := length_lineTable_le contents
    rw [lineTable, List.length_cons, List.length_map] at hle ⊢
    rw [SourceFile.countLines, hends, Nat.mod_eq_of_lt (by omega), Nat.add_comm]
  rw [computeLineStarts, hends, hmod, hcount] at hb
  obtain rfl := Option.some.inj hb
  rw [hfile]
  exact ⟨hc, hl, rfl, rfl⟩

theorem countP_lineTable {contents : List UInt8} {offset : Nat} (h : offset ≤ contents.length) :
    (lineTable contents).countP (fun v => decide (v ≤ offset)) =
      1 + (List.range offset).countP (fun i => contents[i]? == some 10 && i + 1 < contents.length) := by
  obtain ⟨n, hn⟩ := Nat.exists_eq_add_of_le h
  have hlow : (List.range offset).countP (fun i => decide (i + 1 ≤ offset) &&
      (contents[i]? == some 10 && decide (i + 1 < contents.length))) =
      (List.range offset).countP (fun i => contents[i]? == some 10 && decide (i + 1 < contents.length)) := by
    apply List.countP_congr
    intro i hi
    rw [decide_eq_true (Nat.succ_le_of_lt (List.mem_range.mp hi)), Bool.true_and]
  have hhigh : ((List.range n).map (offset + ·)).countP (fun i => decide (i + 1 ≤ offset) &&
      (contents[i]? == some 10 && decide (i + 1 < contents.length))) = 0 := by
    rw [List.countP_eq_zero]
    intro i hi
    obtain ⟨k, _, rfl⟩ := List.mem_map.mp hi
    rw [decide_eq_false (by omega)]
    simp
  rw [lineTable, List.countP_cons, if_pos (by simp), List.countP_map, newlines, List.countP_filter]
  simp only [Function.comp_def]
  conv_lhs => rw [hn, List.range_add, ← hn]
  rw [List.countP_append, hlow, hhigh, Nat.add_zero, Nat.add_comm]

structure LineStart (contents : List UInt8) (offset lineStart : Nat) : Prop where
  starts : lineStart = 0 ∨ ∃ i ∈ newlines contents, lineStart = i + 1
  le : lineStart ≤ offset
  last : ∀ i ∈ newlines contents, i < offset → i < lineStart

theorem lineStart_of_lastAtMost {contents : List UInt8} {offset r : Nat}
    (h : LastAtMost (lineTable contents) offset r) :
    ∃ lineStart, (lineTable contents)[r]? = some lineStart ∧ LineStart contents offset lineStart := by
  obtain ⟨v, hv, hle⟩ := h.entry
  refine ⟨v, hv, ?_, hle, fun i hi hlt => ?_⟩
  · have hmem := List.mem_of_getElem? hv
    rw [lineTable, List.mem_cons, List.mem_map] at hmem
    rcases hmem with hz | ⟨i, hi, he⟩
    · exact Or.inl hz
    · exact Or.inr ⟨i, hi, he.symm⟩
  · have hmem : i + 1 ∈ lineTable contents := List.mem_cons_of_mem _ (List.mem_map_of_mem hi)
    obtain ⟨k, hk⟩ := List.getElem?_of_mem hmem
    by_cases hkr : k ≤ r
    · exact getElem?_mono (lineTable_sorted contents) hkr hk hv
    · exact absurd (h.above k _ (by omega) hk) (by omega)

theorem leadWidth_char {c : Char} {a : UInt8} {tail : List UInt8} (h : String.utf8EncodeChar c = a :: tail) :
    leadWidth a = c.utf8Size := by
  have hdecode := decode_utf8EncodeChar c []
  rw [List.append_nil, h] at hdecode
  have hbytes : (akUtf8Decode (a :: tail)).bytes = c.utf8Size := by rw [hdecode]
  rw [← hbytes, leadWidth]
  simp only [ascii_iff, twoByteLead_iff, threeByteLead_iff, fourByteLead_iff]
  have hvalid : (akUtf8Decode (a :: tail)).valid = true := by rw [hdecode]
  cases accepted_of_valid hvalid with
  | one ha => rw [decode_one ha, if_pos ha]
  | two ha hb _ => rw [decode_two ha hb, if_neg (by omega), if_pos ha]
  | three ha hb hc _ => rw [decode_three ha hb hc, if_neg (by omega), if_neg (by omega), if_pos ha]
  | four ha hb hc hd _ =>
      rw [decode_four ha hb hc hd, if_neg (by omega), if_neg (by omega), if_neg (by omega), if_pos ha]

theorem utf8Strlen_encode {cs : List Char} (h : (0 : UInt8) ∉ encode cs) : utf8Strlen (encode cs) = cs.length := by
  induction cs with
  | nil => rw [encode_nil, utf8Strlen]; rfl
  | cons c cs ih =>
      obtain ⟨a, tail, hc⟩ := List.exists_cons_of_length_pos (encodeChar_length_pos c)
      have hwidth := leadWidth_char hc
      have hsize := String.length_utf8EncodeChar c
      rw [hc, List.length_cons] at hsize
      rw [encode_cons, hc, List.cons_append] at h ⊢
      rw [List.mem_cons, List.mem_append, not_or, not_or] at h
      rw [utf8Strlen, if_neg (Ne.symm h.1), hwidth, show c.utf8Size - 1 = tail.length by omega, List.drop_left,
        ih h.2.2, List.length_cons, Nat.add_comm]

theorem boundary_between {contents : List UInt8} {p q : Nat} (hp : Boundary contents p)
    (hq : Boundary contents q) (hle : p ≤ q) : ∃ before text after : List Char,
      encode (before ++ text ++ after) = contents ∧ (encode before).length = p ∧
      (encode (before ++ text)).length = q := by
  obtain ⟨l, r, hlr, rfl⟩ := hp
  obtain ⟨l', r', hlr', rfl⟩ := hq
  rcases List.append_eq_append_iff.mp (encode_injective (hlr.trans hlr'.symm)) with ⟨m, rfl, rfl⟩ | ⟨m, rfl, rfl⟩
  · exact ⟨l, m, r', by rw [List.append_assoc, hlr], rfl, rfl⟩
  · cases m with
    | nil => exact ⟨l', [], r, by simpa using hlr, by simp, by simp⟩
    | cons c m =>
        have hpos := encodeChar_length_pos c
        rw [encode_append, List.length_append, encode_cons, List.length_append] at hle
        omega

theorem LineStart.boundary {contents : List UInt8} {offset lineStart : Nat}
    (h : LineStart contents offset lineStart) (hvalid : akUtf8Validate contents = true) :
    Boundary contents lineStart := by
  obtain ⟨cs, rfl⟩ := exists_encode_of_validate hvalid
  rcases h.starts with rfl | ⟨i, hi, rfl⟩
  · exact ⟨[], cs, rfl, rfl⟩
  · obtain ⟨hnl, hlt⟩ := mem_newlines.mp hi
    refine (ascii_boundary (show i < (encode cs).length by omega) ?_).2
    rw [List.getD_eq_getElem?_getD, hnl]
    decide

theorem utf8Strlen_le (bytes : List UInt8) : utf8Strlen bytes ≤ bytes.length := by
  fun_induction utf8Strlen bytes with
  | case1 => exact le_rfl
  | case2 rest => exact Nat.zero_le _
  | case3 c rest hne ih =>
      rw [List.length_drop] at ih
      rw [List.length_cons]
      omega

theorem toNat_sub_ofNat {x : UInt32} {n : Nat} (h : n ≤ x.toNat) : (x - UInt32.ofNat n).toNat = x.toNat - n := by
  have hof : (UInt32.ofNat n).toNat = n := UInt32.toNat_ofNat_of_lt' (h.trans_lt x.toNat_lt)
  rw [UInt32.toNat_sub_of_le _ _ (UInt32.le_iff_toNat_le.mpr (by rwa [hof])), hof]

theorem findLine_lineTable {contents : List UInt8} (hlen : contents.length < 2 ^ 32 - 1) (offset : UInt32) :
    ∃ r, findLine (lineTable contents) offset 0 (UInt32.ofNat (lineTable contents).length - 1) 0 = some r ∧
      LastAtMost (lineTable contents) offset.toNat r.toNat := by
  have htable := length_lineTable_le contents
  have hpos : 1 ≤ (lineTable contents).length := by rw [lineTable, List.length_cons]; omega
  have hof : (UInt32.ofNat (lineTable contents).length).toNat = (lineTable contents).length :=
    UInt32.toNat_ofNat_of_lt' (htable.trans_lt (by simp only [UInt32.size]; omega))
  have hright : (UInt32.ofNat (lineTable contents).length - 1).toNat = (lineTable contents).length - 1 := by
    have hsub : (UInt32.ofNat (lineTable contents).length - UInt32.ofNat 1).toNat = _ := toNat_sub_ofNat (by rwa [hof])
    rwa [hof] at hsub
  have hsearch : Searching (lineTable contents) offset 0 (UInt32.ofNat (lineTable contents).length - 1) 0 := by
    refine ⟨by omega, Nat.zero_le _, Or.inr rfl, ⟨0, rfl, Nat.zero_le _⟩, fun k w hk hw => ?_⟩
    obtain ⟨hlt, -⟩ := List.getElem?_eq_some_iff.mp hw
    omega
  exact findLine_spec (lineTable_sorted contents) rfl hsearch

theorem utf8Strlen_between {contents : List UInt8} {before text after : List Char}
    (he : encode (before ++ text ++ after) = contents) (hnul : 0 ∉ contents) :
    utf8Strlen (((contents ++ [0]).drop (encode before).length).take
      ((encode (before ++ text)).length - (encode before).length)) = text.length := by
  have hwidth : (encode (before ++ text)).length - (encode before).length = (encode text).length := by
    rw [encode_append, List.length_append, Nat.add_sub_cancel_left]
  have htext : ((contents ++ [0]).drop (encode before).length).take (encode text).length = encode text := by
    rw [← he, encode_append, encode_append, List.append_assoc, List.append_assoc, List.drop_left, List.take_left]
  have hfree : (0 : UInt8) ∉ encode text := by
    intro hmem
    apply hnul
    rw [← he, encode_append, encode_append]
    exact List.mem_append_left _ (List.mem_append_right _ hmem)
  rw [hwidth, htext, utf8Strlen_encode hfree]

/-- The location of an offset in terms of the line table: the entry the search
finds and the code points counted from it. -/
theorem akSourceLocFromOffset_value (s : Shared) (f : Nat) {contents : List UInt8} {offset : UInt32}
    (hfile : OfContents (s.file f) contents) (hlen : contents.length < 2 ^ 32 - 1)
    (hoff : offset.toNat ≤ contents.length) :
    ∃ loc r lineStart, akSourceLocFromOffset s (some f) offset = some loc ∧ loc.file = some f ∧
      loc.offset = offset ∧ LastAtMost (lineTable contents) offset.toNat r ∧
      (lineTable contents)[r]? = some lineStart ∧ LineStart contents offset.toNat lineStart ∧
      loc.line.toNat = r + 1 ∧ loc.column.toNat =
        1 + utf8Strlen (((contents ++ [0]).drop lineStart).take (offset.toNat - lineStart)) := by
  obtain ⟨hcontents, hlength, hstarts, hcount⟩ := hfile.spec hlen
  obtain ⟨r, hr, hlast⟩ := findLine_lineTable hlen offset
  obtain ⟨lineStart, hentry, hline⟩ := lineStart_of_lastAtMost hlast
  have hrlt : r.toNat < (lineTable contents).length := (List.getElem?_eq_some_iff.mp hentry).1
  have htable := length_lineTable_le contents
  have hle := hline.le
  refine ⟨⟨some f, r + 1, UInt32.ofNat (utf8Strlen
    (((contents ++ [0]).drop lineStart).take (offset.toNat - lineStart))) + 1, offset⟩, r.toNat, lineStart, ?_, rfl,
    rfl, hlast, hentry, hline, ?_, ?_⟩
  · simp only [akSourceLocFromOffset, hlength, hstarts, hcount, hcontents, Option.getD_some]
    rw [if_neg (by omega)]
    simp only [hr, hentry, toNat_sub_ofNat hle, Option.bind_eq_bind, Option.bind_some]
  · rw [UInt32.toNat_add]
    exact Nat.mod_eq_of_lt (by simp; omega)
  · have hshort := utf8Strlen_le (((contents ++ [0]).drop lineStart).take (offset.toNat - lineStart))
    rw [List.length_take] at hshort
    have hof : (UInt32.ofNat (utf8Strlen (((contents ++ [0]).drop lineStart).take
        (offset.toNat - lineStart)))).toNat = _ :=
      UInt32.toNat_ofNat_of_lt' (by simp only [UInt32.size]; omega)
    rw [UInt32.toNat_add, hof, Nat.add_comm 1]
    exact Nat.mod_eq_of_lt (by simp; omega)

/-- The call ends without reading out of bounds. Its line counts the newlines
before the offset that another line follows; on NUL-free valid text its column
counts the code points from the start of that line. -/
theorem akSourceLocFromOffset_exact (s : Shared) (f : Nat) (contents : List UInt8) (offset : UInt32)
    (hfile : OfContents (s.file f) contents) (hlen : contents.length < 2 ^ 32 - 1)
    (hoff : offset.toNat ≤ contents.length) :
    ∃ loc lineStart, akSourceLocFromOffset s (some f) offset = some loc ∧
      loc.file = some f ∧ loc.offset = offset ∧
      loc.line.toNat = 1 + (List.range offset.toNat).countP
        (fun i => contents[i]? == some 10 && i + 1 < contents.length) ∧
      LineStart contents offset.toNat lineStart ∧
      (akUtf8Validate contents = true → 0 ∉ contents → Boundary contents offset.toNat →
        ∃ before text after : List Char, encode (before ++ text ++ after) = contents ∧
          (encode before).length = lineStart ∧ (encode (before ++ text)).length = offset.toNat ∧
          loc.column.toNat = 1 + text.length) := by
  obtain ⟨loc, r, lineStart, hloc, hf, ho, hlast, -, hline, hrow, hcolumn⟩ :=
    akSourceLocFromOffset_value s f hfile hlen hoff
  have hcountP := hlast.countP (lineTable_sorted contents)
  rw [countP_lineTable hoff] at hcountP
  refine ⟨loc, lineStart, hloc, hf, ho, hrow.trans hcountP.symm, hline, fun hvalid hnul hbound => ?_⟩
  obtain ⟨before, text, after, he, hb, ht⟩ := boundary_between (hline.boundary hvalid) hbound hline.le
  have htext := utf8Strlen_between he hnul
  rw [hb, ht] at htext
  exact ⟨before, text, after, he, hb, ht, by rw [hcolumn, htext]⟩

def sample : SourceFile :=
  { SourceFile.fresh with
    contents := some ([0x61, 0x0A, 0xC3, 0xA9, 0x62] ++ [0])
    length := 5
    lineStarts := some [0, 2]
    lineCount := 2
    refCount := 1 }

theorem akSourceLocFromOffset_exact_secondLine :
    ∃ loc, akSourceLocFromOffset ⟨.zero, (Objects.Heap.empty SourceFile).alloc sample⟩ (some 0) 4 = some loc ∧
      loc.line.toNat = 2 := by
  obtain ⟨loc, lineStart, h, -, -, hline, -⟩ := akSourceLocFromOffset_exact
    ⟨.zero, (Objects.Heap.empty SourceFile).alloc sample⟩ 0 [0x61, 0x0A, 0xC3, 0xA9, 0x62] 4
    ⟨{ SourceFile.fresh with contents := some ([0x61, 0x0A, 0xC3, 0xA9, 0x62] ++ [0]), length := 5 },
      { sample with refCount := 0 }, rfl, rfl, by decide, rfl⟩ (by decide) (by decide)
  exact ⟨loc, h, hline.trans (by decide)⟩

end Ak24.SourcelocLines
