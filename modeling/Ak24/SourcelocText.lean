import Ak24.SourcelocLines

namespace Ak24.SourcelocText

open SourcelocModel SourcelocLines

section Slices

variable {α : Type}

def slice (l : List α) (i j : Nat) : List α := (l.drop i).take (j - i)

variable {l : List α} {i j k : Nat}

theorem slice_self (l : List α) (i : Nat) : slice l i i = [] := by rw [slice, Nat.sub_self, List.take_zero]

theorem slice_all (l : List α) : slice l 0 l.length = l := by
  rw [slice, List.drop_zero, Nat.sub_zero, List.take_length]

theorem slice_append (l : List α) (hij : i ≤ j) (hjk : j ≤ k) : slice l i j ++ slice l j k = slice l i k := by
  obtain ⟨m, rfl⟩ := Nat.exists_eq_add_of_le hij
  obtain ⟨n, rfl⟩ := Nat.exists_eq_add_of_le hjk
  rw [slice, slice, slice, Nat.add_sub_cancel_left, Nat.add_sub_cancel_left, Nat.add_assoc, Nat.add_sub_cancel_left,
    List.take_add, List.drop_drop]

theorem slice_cons {c : α} (hi : l[i]? = some c) (hij : i < j) : slice l i j = c :: slice l (i + 1) j := by
  obtain ⟨hlt, rfl⟩ := List.getElem?_eq_some_iff.mp hi
  rw [slice, slice, List.drop_eq_getElem_cons hlt, show j - i = (j - (i + 1)) + 1 by omega, List.take_succ_cons]

theorem mem_slice {c : α} (h : c ∈ slice l i j) : ∃ m, i ≤ m ∧ m < j ∧ l[m]? = some c := by
  obtain ⟨n, hn, hget⟩ := List.mem_take_iff_getElem.mp h
  rw [List.length_drop] at hn
  refine ⟨i + n, Nat.le_add_right _ _, by omega, ?_⟩
  rw [← hget, List.getElem_drop, List.getElem?_eq_getElem]

theorem slices_tile (l : List α) (cut : Nat → Nat) (n : Nat) (h : ∀ m < n, cut m ≤ cut (m + 1)) :
    cut 0 ≤ cut n ∧ (List.range n).flatMap (fun m => slice l (cut m) (cut (m + 1))) = slice l (cut 0) (cut n) := by
  induction n with
  | zero => exact ⟨le_rfl, (slice_self l _).symm⟩
  | succ n ih =>
      obtain ⟨hle, hflat⟩ := ih fun m hm => h m (Nat.lt_succ_of_lt hm)
      have hstep := h n (Nat.lt_succ_self n)
      refine ⟨hle.trans hstep, ?_⟩
      rw [List.range_succ, List.flatMap_append, hflat, List.flatMap_singleton, slice_append l hle hstep]

end Slices

/-- A line of the text: where it starts, where the text of it ends, and where the
next one starts. Between the last two there is a line break or nothing. -/
structure Line (contents : List UInt8) (start stop next : Nat) : Prop where
  start_le : start ≤ stop
  stop_le : stop ≤ next
  text : 10 ∉ slice contents start stop
  ending : slice contents stop next = [] ∨ slice contents stop next = [10] ∨ slice contents stop next = [13, 10]

structure Span (contents : List UInt8) (start next : Nat) : Prop where
  le : start ≤ next
  next_le : next ≤ contents.length
  before : start = 0 ∨ contents[start - 1]? = some 10
  inner : ∀ i, start ≤ i → i + 1 < next → contents[i]? ≠ some 10

theorem Span.free {contents : List UInt8} {start next stop : Nat} (h : Span contents start next) (hs : stop < next) :
    10 ∉ slice contents start stop := by
  intro hmem
  obtain ⟨m, hm, hm', hget⟩ := mem_slice hmem
  exact h.inner m hm (by omega) hget

theorem Span.unbroken {contents : List UInt8} {start next : Nat} (h : Span contents start next)
    (hlast : start < next → contents[next - 1]? ≠ some 10) : Line contents start next next := by
  refine ⟨h.le, le_rfl, fun hmem => ?_, Or.inl (slice_self _ _)⟩
  obtain ⟨m, hm, hm', hget⟩ := mem_slice hmem
  by_cases hmn : m + 1 < next
  · exact h.inner m hm hmn hget
  · obtain rfl : m = next - 1 := by omega
    exact hlast (by omega) hget

theorem slice_newline {contents : List UInt8} {next : Nat} (hpos : 0 < next) (h : contents[next - 1]? = some 10) :
    slice contents (next - 1) next = [10] := by
  rw [slice_cons h (by omega), Nat.sub_add_cancel (by omega), slice_self]

theorem Span.lineFeed {contents : List UInt8} {start next : Nat} (h : Span contents start next) (hlt : start < next)
    (hlast : contents[next - 1]? = some 10) : Line contents start (next - 1) next :=
  ⟨by omega, by omega, h.free (by omega), Or.inr (Or.inl (slice_newline (by omega) hlast))⟩

theorem Span.crLf {contents : List UInt8} {start next : Nat} (h : Span contents start next) (hlt : start < next)
    (hmore : 0 < next - 1) (hlast : contents[next - 1]? = some 10) (hprev : contents[next - 2]? = some 13) :
    Line contents start (next - 2) next := by
  have hin : start ≤ next - 2 := by
    by_contra hout
    obtain rfl : start = next - 1 := by omega
    rcases h.before with hz | hb
    · omega
    · rw [show next - 1 - 1 = next - 2 by omega, hprev] at hb
      exact absurd hb (by decide)
  refine ⟨hin, by omega, h.free (by omega), Or.inr (Or.inr ?_)⟩
  rw [slice_cons hprev (by omega), show next - 2 + 1 = next - 1 by omega, slice_newline (by omega) hlast]

/-- The tests before the end of a span find its line break, whichever of the two
positions they do not look before. -/
theorem stripLineBreak_span {contents : List UInt8} {start next least : Nat} (h : Span contents start next)
    (hleast : least = start ∨ least = 0 ∧ start < next) :
    ∃ stop, stripLineBreak (contents ++ [0]) least next = some stop ∧ Line contents start stop next ∧
      (start < next → contents[next - 1]? = some 10 → stop < next) := by
  have hle := h.le
  have hnext := h.next_le
  have hget (i : Nat) (hi : i < contents.length) : (contents ++ [0])[i]? = contents[i]? := List.getElem?_append_left hi
  rw [stripLineBreak]
  by_cases hguard : least < next
  · have hlt : start < next := by omega
    obtain ⟨last, hlast⟩ : ∃ last, contents[next - 1]? = some last := ⟨_, List.getElem?_eq_getElem (by omega)⟩
    rw [if_pos hguard, hget _ (by omega), hlast]
    simp only [Option.bind_eq_bind, Option.bind_some]
    by_cases hnl : last = 10
    · subst hnl
      rw [if_pos rfl]
      by_cases hmore : least < next - 1
      · obtain ⟨prev, hprev⟩ : ∃ prev, contents[next - 2]? = some prev := ⟨_, List.getElem?_eq_getElem (by omega)⟩
        rw [if_pos hmore, hget _ (by omega), hprev]
        by_cases hcr : prev = 13
        · subst hcr
          exact ⟨next - 2, rfl, h.crLf hlt (by omega) hlast hprev, fun _ _ => by omega⟩
        · exact ⟨next - 1, by rw [Option.bind_some, if_neg hcr], h.lineFeed hlt hlast, fun _ _ => by omega⟩
      · rw [if_neg hmore]
        exact ⟨next - 1, rfl, h.lineFeed hlt hlast, fun _ _ => by omega⟩
    · rw [if_neg hnl]
      refine ⟨next, rfl, h.unbroken fun _ he => ?_, fun _ he => ?_⟩
      · exact hnl (Option.some.inj (hlast.symm.trans he))
      · exact absurd (Option.some.inj he) hnl
  · rw [if_neg hguard]
    exact ⟨next, rfl, h.unbroken fun hlt => by omega, fun hlt => by omega⟩

def lineCut (contents : List UInt8) (k : Nat) : Nat := (lineTable contents).getD k contents.length

theorem getElem?_lineTable {contents : List UInt8} {k : Nat} (h : k < (lineTable contents).length) :
    (lineTable contents)[k]? = some (lineCut contents k) := by
  rw [lineCut, List.getD_eq_getElem _ _ h, List.getElem?_eq_getElem h]

theorem lineCut_length (contents : List UInt8) : lineCut contents (lineTable contents).length = contents.length := by
  rw [lineCut, List.getD_eq_default _ _ le_rfl]

theorem mem_lineTable {contents : List UInt8} {v : Nat} :
    v ∈ lineTable contents ↔ v = 0 ∨ ∃ i ∈ newlines contents, v = i + 1 := by
  rw [lineTable, List.mem_cons, List.mem_map]
  simp only [eq_comm]

theorem lineCut_cases {contents : List UInt8} {k : Nat} (h : k < (lineTable contents).length) :
    lineCut contents k = 0 ∨ contents[lineCut contents k - 1]? = some 10 ∧ 0 < lineCut contents k ∧
      lineCut contents k < contents.length := by
  rcases mem_lineTable.mp (List.mem_of_getElem? (getElem?_lineTable h)) with hz | ⟨i, hi, he⟩
  · exact Or.inl hz
  · obtain ⟨hnl, hlt⟩ := mem_newlines.mp hi
    rw [he, Nat.add_sub_cancel]
    exact Or.inr ⟨hnl, Nat.succ_pos i, hlt⟩

theorem lineCut_le_length {contents : List UInt8} {k : Nat} (h : k ≤ (lineTable contents).length) :
    lineCut contents k ≤ contents.length := by
  rcases h.lt_or_eq with hlt | rfl
  · rcases lineCut_cases hlt with hz | ⟨-, -, hlt'⟩ <;> omega
  · exact (lineCut_length contents).le

theorem lineCut_succ {contents : List UInt8} {k : Nat} (h : k + 1 < (lineTable contents).length) :
    lineCut contents k < lineCut contents (k + 1) ∧ contents[lineCut contents (k + 1) - 1]? = some 10 := by
  have hlt : lineCut contents k < lineCut contents (k + 1) := by
    have hsorted := List.pairwise_iff_getElem.mp (lineTable_sorted contents) k (k + 1) (by omega) h (Nat.lt_succ_self k)
    rw [lineCut, lineCut, List.getD_eq_getElem _ _ h, List.getD_eq_getElem _ _ (by omega)]
    exact hsorted
  refine ⟨hlt, ?_⟩
  rcases lineCut_cases h with hz | ⟨hnl, -⟩
  · omega
  · exact hnl

theorem span_lineCut {contents : List UInt8} {k : Nat} (h : k < (lineTable contents).length) :
    Span contents (lineCut contents k) (lineCut contents (k + 1)) := by
  have hbound : lineCut contents (k + 1) ≤ contents.length := lineCut_le_length h
  refine ⟨?_, hbound, ?_, fun i hi hi' hnl => ?_⟩
  · rcases (Nat.succ_le_of_lt h).lt_or_eq with hlt | heq
    · exact (lineCut_succ hlt).1.le
    · rw [← Nat.succ_eq_add_one, heq, lineCut_length]
      exact lineCut_le_length h.le
  · rcases lineCut_cases h with hz | ⟨hnl, -⟩
    · exact Or.inl hz
    · exact Or.inr hnl
  · -- A newline within the span would start a line of its own.
    have hmem : i + 1 ∈ lineTable contents :=
      mem_lineTable.mpr (Or.inr ⟨i, mem_newlines.mpr ⟨hnl, by omega⟩, rfl⟩)
    obtain ⟨m, hm⟩ := List.getElem?_of_mem hmem
    have hmlt := (List.getElem?_eq_some_iff.mp hm).1
    by_cases hmk : m ≤ k
    · have := getElem?_mono (lineTable_sorted contents) hmk hm (getElem?_lineTable h)
      omega
    · have := getElem?_mono (lineTable_sorted contents) (show k + 1 ≤ m by omega)
        (getElem?_lineTable (show k + 1 < _ by omega)) hm
      omega

theorem line_calls (s : Shared) (f : Nat) {contents : List UInt8} {line : UInt32}
    (hfile : OfContents (s.file f) contents) (hlen : contents.length < 2 ^ 32 - 1) (hpos : 0 < line.toNat)
    (hline : line.toNat ≤ (s.file f).lineCount) :
    ∃ stop, akSourceGetLine s (some f) line = some (some (lineCut contents (line.toNat - 1))) ∧
      akSourceGetLineLen s (some f) line = some (stop - lineCut contents (line.toNat - 1)) ∧
      Line contents (lineCut contents (line.toNat - 1)) stop (lineCut contents line.toNat) ∧
      (line.toNat < (s.file f).lineCount → stop < lineCut contents line.toNat) := by
  obtain ⟨hcontents, hlength, hstarts, hcount⟩ := hfile.spec hlen
  rw [hcount] at hline
  have hle := line.toNat_lt
  have hidx : (line - 1).toNat = line.toNat - 1 := toNat_sub_ofNat (n := 1) hpos
  have hnext : (line - 1 + 1).toNat = line.toNat := by rw [sub_add_cancel]
  have hguard : ¬ (line = 0 ∨ (lineTable contents).length < line.toNat) := by
    rintro (rfl | hlt)
    · exact absurd hpos (Nat.lt_irrefl 0)
    · omega
  have hspan := span_lineCut (show line.toNat - 1 < (lineTable contents).length by omega)
  rw [Nat.sub_add_cancel hpos] at hspan
  have hentry := getElem?_lineTable (show line.toNat - 1 < (lineTable contents).length by omega)
  have hread : akSourceGetLine s (some f) line = some (some (lineCut contents (line.toNat - 1))) := by
    simp only [akSourceGetLine, hcount, hstarts, Option.getD_some, if_neg hguard, hidx, hentry, Option.bind_eq_bind,
      Option.bind_some]
  have hlen' (stop : Nat) : (if lineCut contents (line.toNat - 1) < stop then
      stop - lineCut contents (line.toNat - 1) else 0) = stop - lineCut contents (line.toNat - 1) := by
    split_ifs <;> omega
  by_cases hlast : line.toNat < (lineTable contents).length
  · have hsucc := lineCut_succ (show line.toNat - 1 + 1 < (lineTable contents).length by omega)
    rw [Nat.sub_add_cancel hpos] at hsucc
    obtain ⟨stop, hstop, hl, hlt⟩ := stripLineBreak_span hspan (Or.inr ⟨rfl, hsucc.1⟩)
    refine ⟨stop, hread, ?_, hl, fun _ => hlt hsucc.1 hsucc.2⟩
    simp only [akSourceGetLineLen, hcount, hstarts, hcontents, Option.getD_some, if_neg hguard, hidx, hentry, hnext,
      if_pos hlast, getElem?_lineTable hlast, hstop, Option.bind_eq_bind, Option.bind_some, hlen']
  · obtain ⟨stop, hstop, hl, -⟩ := stripLineBreak_span hspan (Or.inl rfl)
    have hend : lineCut contents line.toNat = contents.length := by
      rw [show line.toNat = (lineTable contents).length by omega, lineCut_length]
    refine ⟨stop, hread, ?_, hl, fun hlt => by omega⟩
    rw [hend] at hstop
    have hmod : contents.length % 2 ^ 32 = contents.length := Nat.mod_eq_of_lt (by omega)
    simp only [akSourceGetLineLen, hcount, hstarts, hcontents, hlength, Option.getD_some, if_neg hguard, hidx, hentry,
      hnext, if_neg hlast, hmod, hstop, Option.bind_eq_bind, Option.bind_some, hlen']

theorem slice_ne_nil {contents : List UInt8} {i j : Nat} (hij : i < j) (hj : j ≤ contents.length) :
    slice contents i j ≠ [] := by
  rw [slice_cons (List.getElem?_eq_getElem (show i < contents.length by omega)) hij]
  exact List.cons_ne_nil _ _

/-- The lines partition the file. Line `i` starts at `start i`, its text has
`len i` bytes and no newline, and what stands before the next line, or before the
end of the file, is a line break, which only the last line may lack. -/
theorem lines_partition (s : Shared) (f : Nat) (contents : List UInt8) (hfile : OfContents (s.file f) contents)
    (hlen : contents.length < 2 ^ 32 - 1) :
    ∃ start len : Nat → Nat, start 1 = 0 ∧ start ((s.file f).lineCount + 1) = contents.length ∧
      (∀ line : UInt32, 0 < line.toNat → line.toNat ≤ (s.file f).lineCount →
        akSourceGetLine s (some f) line = some (some (start line.toNat)) ∧
        akSourceGetLineLen s (some f) line = some (len line.toNat)) ∧
      (∀ i, 0 < i → i ≤ (s.file f).lineCount →
        start i + len i ≤ start (i + 1) ∧
        10 ∉ slice contents (start i) (start i + len i) ∧
        slice contents (start i + len i) (start (i + 1)) ∈ [[], [10], [13, 10]] ∧
        (i < (s.file f).lineCount → slice contents (start i + len i) (start (i + 1)) ≠ [])) ∧
      (List.range (s.file f).lineCount).flatMap (fun k => slice contents (start (k + 1)) (start (k + 1) + len (k + 1)) ++
        slice contents (start (k + 1) + len (k + 1)) (start (k + 2))) = contents := by
  obtain ⟨-, -, -, hcount⟩ := hfile.spec hlen
  have htable := length_lineTable_le contents
  have hof (i : Nat) (hi : i ≤ (s.file f).lineCount) : (UInt32.ofNat i).toNat = i :=
    UInt32.toNat_ofNat_of_lt' (by simp only [UInt32.size]; omega)
  have hlines (i : Nat) (hpos : 0 < i) (hi : i ≤ (s.file f).lineCount) :
      ∃ stop, lineCut contents (i - 1) + (akSourceGetLineLen s (some f) (UInt32.ofNat i)).getD 0 = stop ∧
        Line contents (lineCut contents (i - 1)) stop (lineCut contents i) ∧
        (i < (s.file f).lineCount → stop < lineCut contents i) := by
    obtain ⟨stop, -, hstop, hline, hlt⟩ :=
      line_calls s f hfile hlen (show 0 < (UInt32.ofNat i).toNat by rwa [hof i hi]) (by rwa [hof i hi])
    rw [hof i hi] at hstop hline hlt
    have := hline.start_le
    exact ⟨stop, by rw [hstop, Option.getD_some]; omega, hline, hlt⟩
  refine ⟨fun i => lineCut contents (i - 1), fun i => (akSourceGetLineLen s (some f) (UInt32.ofNat i)).getD 0, rfl, ?_,
    fun line hpos hline => ?_, fun i hpos hi => ?_, ?_⟩
  · simp only [hcount, Nat.add_sub_cancel]
    exact lineCut_length contents
  · obtain ⟨stop, hstart, hstop, -⟩ := line_calls s f hfile hlen hpos hline
    refine ⟨hstart, ?_⟩
    simp only [UInt32.ofNat_toNat, hstop, Option.getD_some]
  · obtain ⟨stop, hstop, hline, hlt⟩ := hlines i hpos hi
    simp only [hstop, Nat.add_sub_cancel]
    refine ⟨hline.stop_le, hline.text, ?_, fun hi' => slice_ne_nil (hlt hi') (lineCut_le_length (hcount ▸ hi))⟩
    rcases hline.ending with h | h | h <;> rw [h] <;> decide
  · -- Each line with its break is a slice between two cuts.
    have hpart (k : Nat) (hk : k ∈ List.range (s.file f).lineCount) :
        slice contents (lineCut contents k)
            (lineCut contents k + (akSourceGetLineLen s (some f) (UInt32.ofNat (k + 1))).getD 0) ++
          slice contents (lineCut contents k + (akSourceGetLineLen s (some f) (UInt32.ofNat (k + 1))).getD 0)
            (lineCut contents (k + 1)) = slice contents (lineCut contents k) (lineCut contents (k + 1)) := by
      obtain ⟨stop, hstop, hline, -⟩ := hlines (k + 1) (Nat.succ_pos k) (Nat.succ_le_of_lt (List.mem_range.mp hk))
      rw [Nat.add_sub_cancel] at hstop hline
      rw [hstop, slice_append contents hline.start_le hline.stop_le]
    simp only [Nat.add_sub_cancel, show ∀ k, k + 2 - 1 = k + 1 from fun k => rfl]
    rw [List.flatMap_congr hpart, hcount, (slices_tile contents (lineCut contents) _ fun k hk => (span_lineCut hk).le).2,
      lineCut_length]
    exact slice_all contents

def mixed : SourceFile :=
  { SourceFile.fresh with
    contents := some ([0x61, 0x0D, 0x0A, 0x0A, 0x0D] ++ [0])
    length := 5
    lineStarts := some [0, 3, 4]
    lineCount := 3
    refCount := 1 }

theorem lines_partition_mixed :
    ∃ start len : Nat → Nat, start 4 = 5 ∧
      akSourceGetLine ⟨.zero, (Objects.Heap.empty SourceFile).alloc mixed⟩ (some 0) 2 = some (some (start 2)) ∧
      akSourceGetLineLen ⟨.zero, (Objects.Heap.empty SourceFile).alloc mixed⟩ (some 0) 2 = some (len 2) ∧
      start 2 + len 2 ≤ start 3 := by
  obtain ⟨start, len, -, hend, hcalls, hlines, -⟩ := lines_partition
    ⟨.zero, (Objects.Heap.empty SourceFile).alloc mixed⟩ 0 [0x61, 0x0D, 0x0A, 0x0A, 0x0D]
    ⟨{ SourceFile.fresh with contents := some ([0x61, 0x0D, 0x0A, 0x0A, 0x0D] ++ [0]), length := 5 },
      { mixed with refCount := 0 }, rfl, rfl, by decide, rfl⟩ (by decide)
  obtain ⟨hstart, hlen⟩ := hcalls 2 (by decide) (by decide)
  exact ⟨start, len, hend, hstart, hlen, (hlines 2 (by decide) (by decide)).1⟩

end Ak24.SourcelocText
