import Ak24.Utf8Iteration

namespace Ak24.Utf8Grapheme

open Utf8Model Utf8Validity Utf8Boundary Utf8Iteration

section Clusters

variable {α : Type} (mark : α → Bool)

def clusters : List α → List (List α)
  | [] => []
  | c :: cs => (c :: cs.takeWhile mark) :: clusters (cs.dropWhile mark)
termination_by cs => cs.length
decreasing_by
  have := (List.dropWhile_suffix (l := cs) mark).length_le
  simp only [List.length_cons]
  omega

/-- Each cluster is one element and a run of marks, and no run could have been
longer: what follows a cluster is not a mark. -/
structure Segmentation (cs : List α) (segs : List (List α)) : Prop where
  flatten : segs.flatten = cs
  shape : ∀ seg ∈ segs, ∃ base marks, seg = base :: marks ∧ ∀ m ∈ marks, mark m = true
  maximal : ∀ seg ∈ segs.tail, ∀ base ∈ seg.head?, mark base = false

theorem clusters_head (cs : List α) : ∀ seg ∈ (clusters mark cs).head?, seg.head? = cs.head? := by
  cases cs with
  | nil => simp [clusters]
  | cons c cs => simp [clusters]

theorem clusters_segmentation (cs : List α) : Segmentation mark cs (clusters mark cs) := by
  fun_induction clusters mark cs with
  | case1 => exact ⟨rfl, by simp, by simp⟩
  | case2 c cs ih =>
      refine ⟨?_, ?_, ?_⟩
      · rw [List.flatten_cons, ih.flatten, List.cons_append, List.takeWhile_append_dropWhile]
      · intro seg hseg
        rcases List.mem_cons.mp hseg with rfl | hseg
        · exact ⟨c, _, rfl, fun m hm => List.mem_takeWhile_imp hm⟩
        · exact ih.shape seg hseg
      · intro seg hseg base hbase
        rw [List.tail_cons] at hseg
        cases hcl : clusters mark (cs.dropWhile mark) with
        | nil => rw [hcl] at hseg; simp at hseg
        | cons first others =>
            rw [hcl] at hseg
            rcases List.mem_cons.mp hseg with rfl | hseg
            · have hh := clusters_head mark (cs.dropWhile mark) seg (by rw [hcl]; rfl)
              rw [hh] at hbase
              have hne := List.head?_dropWhile_not mark cs
              rw [Option.mem_def.mp hbase] at hne
              simpa using hne
            · exact ih.maximal seg (by rw [hcl]; exact hseg) base hbase

theorem length_clusters_cons (c : α) (cs : List α) :
    (clusters mark (c :: cs)).length = 1 + cs.countP (fun d => !mark d) := by
  induction hn : cs.length using Nat.strong_induction_on generalizing c cs with
  | _ n ih =>
      have hcount : cs.countP (fun d => !mark d) = (cs.dropWhile mark).countP (fun d => !mark d) := by
        conv_lhs => rw [← List.takeWhile_append_dropWhile (p := mark) (l := cs)]
        rw [List.countP_append, Nat.add_eq_right, List.countP_eq_zero]
        intro d hd
        rw [List.mem_takeWhile_imp hd]
        simp
      rw [clusters, List.length_cons, hcount]
      cases hd : cs.dropWhile mark with
      | nil => simp [clusters]
      | cons d ds =>
          have hlen := (List.dropWhile_suffix (l := cs) mark).length_le
          rw [hd, List.length_cons] at hlen
          have hnot := List.head?_dropWhile_not mark cs
          rw [hd] at hnot
          have hmark : mark d = false := by simpa using hnot
          rw [ih ds.length (by omega) d ds rfl, List.countP_cons, hmark]
          simp
          omega

theorem length_clusters (cs : List α) :
    (clusters mark cs).length = cs.zipIdx.countP (fun p => p.2 == 0 || !mark p.1) := by
  cases cs with
  | nil => rw [clusters]; rfl
  | cons c cs =>
      have hrest (start : Nat) : (cs.zipIdx (start + 1)).countP (fun p => p.2 == 0 || !mark p.1) =
          cs.countP (fun d => !mark d) := by
        induction cs generalizing start with
        | nil => rfl
        | cons d ds ih => simp [List.zipIdx_cons, List.countP_cons, ih]
      rw [length_clusters_cons, List.zipIdx_cons, List.countP_cons, hrest]
      simp
      omega

end Clusters

theorem combiningLen_le (data : List UInt8) : combiningLen data ≤ data.length := by
  fun_induction combiningLen data with
  | case1 data h next hv => omega
  | case2 data h next hv hm => omega
  | case3 data h next hv hm ih =>
      have hle := charLen_le data
      rw [List.length_drop] at ih
      simp only [next, akUtf8Decode_bytes] at ih ⊢
      omega
  | case4 data h => omega

/-- Every step of the segmentation makes progress and stays within the data. -/
theorem graphemeLen_bounds {data : List UInt8} (h : data ≠ []) :
    1 ≤ akUtf8GraphemeLen data ∧ akUtf8GraphemeLen data ≤ data.length := by
  have hpos := List.length_pos_iff.mpr h
  have hlen := akUtf8CharLen_pos hpos
  have hle := charLen_le data
  have hmarks := combiningLen_le (data.drop (akUtf8CharLen data))
  rw [List.length_drop] at hmarks
  simp only [akUtf8GraphemeLen]
  split_ifs <;> omega

theorem charCount_eq {data : List UInt8} (h : data ≠ []) :
    akUtf8CharCount data = 1 + akUtf8CharCount (data.drop (akUtf8CharLen data)) := by
  have hpos := List.length_pos_iff.mpr h
  have hlen := akUtf8CharLen_pos hpos
  conv_lhs => rw [akUtf8CharCount]
  rw [if_pos hpos]
  simp only
  rw [dif_neg (by omega)]

theorem charCount_drop_combining (data : List UInt8) :
    akUtf8CharCount (data.drop (combiningLen data)) ≤ akUtf8CharCount data := by
  fun_induction combiningLen data with
  | case1 data h next hv => rw [List.drop_zero]
  | case2 data h next hv hm => rw [List.drop_zero]
  | case3 data h next hv hm ih =>
      have hone : akUtf8CharCount data = 1 + _ := charCount_eq (List.length_pos_iff.mp h)
      rw [← akUtf8Decode_bytes] at hone
      rw [← List.drop_drop]
      exact ih.trans (hone ▸ Nat.le_add_left _ 1)
  | case4 data h => rw [List.drop_zero]

theorem graphemeLen_split {data : List UInt8} (h : data ≠ []) :
    akUtf8GraphemeLen data = akUtf8CharLen data ∨
      akUtf8GraphemeLen data = akUtf8CharLen data + combiningLen (data.drop (akUtf8CharLen data)) := by
  have hpos := List.length_pos_iff.mpr h
  simp only [akUtf8GraphemeLen]
  rw [if_neg (by omega)]
  split_ifs
  · exact Or.inl rfl
  · exact Or.inl rfl
  · exact Or.inr rfl

theorem charCount_graphemeLen {data : List UInt8} (h : data ≠ []) :
    1 + akUtf8CharCount (data.drop (akUtf8GraphemeLen data)) ≤ akUtf8CharCount data := by
  rcases graphemeLen_split h with he | he
  · rw [he, charCount_eq h]
  · rw [he, charCount_eq h, ← List.drop_drop]
    exact Nat.add_le_add_left (charCount_drop_combining _) 1

theorem graphemeCount_le_charCount (data : List UInt8) : akUtf8GraphemeCount data ≤ akUtf8CharCount data := by
  fun_induction akUtf8GraphemeCount data with
  | case1 data h g hz => exact Nat.zero_le _
  | case2 data h g hz ih =>
      have hstep : 1 + _ ≤ akUtf8CharCount data := charCount_graphemeLen (List.length_pos_iff.mp h)
      simp only [g] at ih ⊢
      omega
  | case3 data h => exact Nat.zero_le _

/-- The pieces into which the steps of `ak_utf8_grapheme_len` cut the data. -/
def graphemeSegments (data : List UInt8) : List (List UInt8) :=
  if _h : data = [] then []
  else data.take (akUtf8GraphemeLen data) :: graphemeSegments (data.drop (akUtf8GraphemeLen data))
termination_by data.length
decreasing_by
  have := graphemeLen_bounds _h
  simp only [List.length_drop]
  omega

theorem graphemeSegments_flatten (data : List UInt8) : (graphemeSegments data).flatten = data := by
  fun_induction graphemeSegments data with
  | case1 => rfl
  | case2 data h ih => rw [List.flatten_cons, ih, List.take_append_drop]

theorem graphemeCount_eq_length (data : List UInt8) : akUtf8GraphemeCount data = (graphemeSegments data).length := by
  fun_induction graphemeSegments data with
  | case1 => rw [akUtf8GraphemeCount]; rfl
  | case2 data h ih =>
      have hpos := List.length_pos_iff.mpr h
      have hb := graphemeLen_bounds h
      rw [akUtf8GraphemeCount, if_pos hpos]
      simp only
      rw [dif_neg (by omega), ih, List.length_cons, Nat.add_comm]

def isMark (c : Char) : Bool := akUtf8IsCombiningMark c.toNat

theorem combiningLen_encode (cs : List Char) :
    combiningLen (encode cs) = (encode (cs.takeWhile isMark)).length := by
  induction cs with
  | nil => rw [combiningLen]; simp
  | cons c cs ih =>
      have hpos := encodeChar_length_pos c
      rw [encode_cons, combiningLen, dif_pos (by rw [List.length_append]; omega)]
      simp only [decode_utf8EncodeChar, drop_encodeChar, ih, List.takeWhile_cons]
      cases hm : isMark c with
      | false =>
          rw [isMark] at hm
          simp [hm]
      | true =>
          rw [isMark] at hm
          simp [hm, String.length_utf8EncodeChar]

theorem graphemeLen_encode (c : Char) (cs : List Char) :
    akUtf8GraphemeLen (encode (c :: cs)) = (encode (c :: cs.takeWhile isMark)).length := by
  have hpos := encodeChar_length_pos c
  have hsize := c.utf8Size_pos
  simp only [encode_cons, akUtf8GraphemeLen, charLen_encodeChar, decode_utf8EncodeChar, drop_encodeChar,
    combiningLen_encode, List.length_append, String.length_utf8EncodeChar]
  rw [if_neg (by omega), if_neg (by omega)]
  rfl

theorem graphemeSegments_encode (cs : List Char) :
    graphemeSegments (encode cs) = (clusters isMark cs).map encode := by
  fun_induction clusters isMark cs with
  | case1 => rw [graphemeSegments]; rfl
  | case2 c cs ih =>
      have hsplit : encode (c :: cs) = encode (c :: cs.takeWhile isMark) ++ encode (cs.dropWhile isMark) := by
        rw [← encode_append, List.cons_append, List.takeWhile_append_dropWhile]
      rw [graphemeSegments, dif_neg (encode_cons_ne_nil c cs), graphemeLen_encode, List.map_cons, ← ih]
      conv_lhs => rw [hsplit, List.take_left, List.drop_left]

/-- On valid text the segments are the code points with their maximal runs of
combining marks, and their number is that of the code points that start one. On
any bytes the steps advance within the data, the segments are all of it, and
there are no more of them than characters. -/
theorem grapheme_segmentation :
    (∀ cs : List Char, ∃ segs : List (List Char), Segmentation isMark cs segs ∧
      graphemeSegments (encode cs) = segs.map encode ∧
      akUtf8GraphemeCount (encode cs) = cs.zipIdx.countP (fun p => p.2 == 0 || !isMark p.1)) ∧
    ∀ data : List UInt8,
      (data ≠ [] → 1 ≤ akUtf8GraphemeLen data ∧ akUtf8GraphemeLen data ≤ data.length) ∧
      (graphemeSegments data).flatten = data ∧
      akUtf8GraphemeCount data ≤ akUtf8CharCount data := by
  refine ⟨fun cs => ⟨clusters isMark cs, clusters_segmentation isMark cs, graphemeSegments_encode cs, ?_⟩,
    fun data => ⟨graphemeLen_bounds, graphemeSegments_flatten data, graphemeCount_le_charCount data⟩⟩
  rw [graphemeCount_eq_length, graphemeSegments_encode, List.length_map, length_clusters]

theorem grapheme_segmentation_accent :
    1 ≤ akUtf8GraphemeLen [0x65, 0xCC, 0x81, 0x61] ∧ akUtf8GraphemeLen [0x65, 0xCC, 0x81, 0x61] ≤ 4 :=
  (grapheme_segmentation.2 [0x65, 0xCC, 0x81, 0x61]).1 (by simp)

end Ak24.Utf8Grapheme
