import Ak24.ScannerCursor
import Ak24.Utf8Iteration

namespace Ak24.ScannerSkip

open Utf8Model Utf8Validity Utf8Boundary Utf8Iteration ScannerModel ScannerCursor

section Covering

variable {item : Nat → Nat → Prop} {start p : Nat}

def Covered (item : Nat → Nat → Prop) (start i : Nat) : Prop :=
  ∃ a b, Relation.ReflTransGen item start a ∧ item a b ∧ a ≤ i ∧ i < b

theorem covered_below (h : Relation.ReflTransGen item start p) {i : Nat} (hi : start ≤ i) (hp : i < p) :
    Covered item start i := by
  induction h with
  | refl => omega
  | @tail a b ha hab ih =>
      by_cases hlt : i < a
      · exact ih hlt
      · exact ⟨a, b, ha, hab, by omega, hp⟩

theorem le_of_items (hforward : ∀ {a b}, item a b → a < b) (h : Relation.ReflTransGen item start p) :
    start ≤ p := by
  induction h with
  | refl => exact le_rfl
  | tail _ hab ih => exact ih.trans (hforward hab).le

theorem not_covered (hunique : Relator.RightUnique item) (hforward : ∀ {a b}, item a b → a < b)
    (h : Relation.ReflTransGen item start p) (hstop : ∀ q, ¬ item p q) : ¬ Covered item start p := by
  rintro ⟨a, b, ha, hab, hap, hpb⟩
  rcases Relation.ReflTransGen.total_of_right_unique hunique ha h with hto | hto
  · rcases hto.cases_head with rfl | ⟨c, hac, hcp⟩
    · exact hstop b hab
    · obtain rfl := hunique hab hac
      exact absurd (le_of_items hforward hcp) (by omega)
  · rcases hto.cases_head with rfl | ⟨c, hpc, _⟩
    · exact hstop b hab
    · exact hstop c hpc

end Covering

structure WhitespaceItem (buf : List UInt8) (p q : Nat) : Prop where
  inside : p < buf.length
  valid : (akUtf8Decode (buf.drop p)).valid = true
  whitespace : akUtf8IsWhitespace (akUtf8Decode (buf.drop p)).codepoint = true
  next : q = p + (akUtf8Decode (buf.drop p)).bytes

/-- What the scanner skips: a whitespace character, or a comment together with
the newline that ends it or up to the end of the buffer. -/
inductive Item (buf : List UInt8) : Nat → Nat → Prop
  | whitespace {p q} (h : WhitespaceItem buf p q) : Item buf p q
  | comment {p eol} (hc : byteAt buf p = 0x3B) (hbefore : p < eol) (hin : eol < buf.length)
      (hn : byteAt buf eol = 0x0A) (hbody : ∀ i, p < i → i < eol → byteAt buf i ≠ 0x0A) :
      Item buf p (eol + 1)
  | lastComment {p} (hin : p < buf.length) (hc : byteAt buf p = 0x3B)
      (hbody : ∀ i, p < i → i < buf.length → byteAt buf i ≠ 0x0A) : Item buf p buf.length

variable {buf : List UInt8} {p q : Nat}

/-- An ASCII byte always decodes, so the fallback on the first byte never finds
whitespace. -/
theorem isWhitespaceAt_iff : isWhitespaceAt buf p = true ↔ p < buf.length ∧
    (akUtf8Decode (buf.drop p)).valid = true ∧
      akUtf8IsWhitespace (akUtf8Decode (buf.drop p)).codepoint = true := by
  rw [isWhitespaceAt, classifyAt]
  by_cases hle : buf.length ≤ p
  · rw [if_pos hle]
    exact iff_of_false Bool.false_ne_true (fun h => absurd h.1 (by omega))
  rw [if_neg hle]
  cases hv : (akUtf8Decode (buf.drop p)).valid with
  | true => exact ⟨fun h => ⟨by omega, rfl, by simpa [hv] using h⟩, fun h => by simpa [hv] using h.2.2⟩
  | false =>
      refine iff_of_false (fun hw => ?_) (fun h => Bool.false_ne_true h.2.1)
      have hb : (byteAt buf p).toNat < 0x80 := by
        simp only [hv, Bool.not_false, if_true, Bool.or_eq_true, beq_iff_eq] at hw
        rcases hw with ((hw | hw) | hw) | hw <;> rw [hw] <;> decide
      rw [byteAt_eq (by omega), decode_one hb] at hv
      exact Bool.false_ne_true hv.symm

theorem charByteLenAt_eq (hlt : p < buf.length) :
    charByteLenAt buf p = (akUtf8Decode (buf.drop p)).bytes := by
  rw [charByteLenAt, if_neg (by omega), akUtf8Decode_bytes]

theorem charByteLenAt_pos (hlt : p < buf.length) : 0 < charByteLenAt buf p := by
  rw [charByteLenAt, if_neg (by omega)]
  exact akUtf8CharLen_pos (by rw [List.length_drop]; omega)

theorem whitespaceItem_iff :
    WhitespaceItem buf p q ↔ isWhitespaceAt buf p = true ∧ q = p + charByteLenAt buf p := by
  rw [isWhitespaceAt_iff]
  constructor
  · intro h
    exact ⟨⟨h.inside, h.valid, h.whitespace⟩, h.next.trans (by rw [charByteLenAt_eq h.inside])⟩
  · rintro ⟨⟨hlt, hv, hw⟩, rfl⟩
    exact ⟨hlt, hv, hw, by rw [charByteLenAt_eq hlt]⟩

theorem WhitespaceItem.forward (h : WhitespaceItem buf p q) : p < q := by
  have hpos := charByteLenAt_pos h.inside
  obtain ⟨_, rfl⟩ := whitespaceItem_iff.mp h
  omega

theorem WhitespaceItem.unique : Relator.RightUnique (WhitespaceItem buf) := by
  intro p q q' h h'
  rw [h.next, h'.next]

theorem WhitespaceItem.not_semicolon (h : WhitespaceItem buf p q) : byteAt buf p ≠ 0x3B := by
  intro hc
  have hw := h.whitespace
  rw [byteAt_eq h.inside, decode_one (by rw [hc]; decide), hc] at hw
  exact absurd hw (by decide)

theorem skipWhitespace_items (buf : List UInt8) (pos : Nat) :
    Relation.ReflTransGen (WhitespaceItem buf) pos (skipWhitespace buf pos) ∧
      ∀ q, ¬ WhitespaceItem buf (skipWhitespace buf pos) q := by
  fun_induction skipWhitespace buf pos with
  | case1 pos hw hz => exact absurd hz (charByteLenAt_pos hw.1).ne'
  | case2 pos hw hz ih =>
      exact ⟨Relation.ReflTransGen.head (whitespaceItem_iff.mpr ⟨hw.2, rfl⟩) ih.1, ih.2⟩
  | case3 pos hw =>
      exact ⟨Relation.ReflTransGen.refl, fun q h => hw ⟨h.inside, (whitespaceItem_iff.mp h).1⟩⟩

theorem Item.forward (h : Item buf p q) : p < q := by
  cases h with
  | whitespace h => exact h.forward
  | comment hc hbefore hin hn hbody => omega
  | lastComment hin hc hbody => exact hin

theorem Item.inside (h : Item buf p q) : p < buf.length := by
  cases h with
  | whitespace h => exact h.inside
  | comment hc hbefore hin hn hbody => omega
  | lastComment hin hc hbody => exact hin

theorem Item.unique : Relator.RightUnique (Item buf) := by
  intro p q q' h h'
  cases h with
  | whitespace h =>
      cases h' with
      | whitespace h' => exact WhitespaceItem.unique h h'
      | comment hc _ _ _ _ => exact absurd hc h.not_semicolon
      | lastComment _ hc _ => exact absurd hc h.not_semicolon
  | @comment eol hc hbefore hin hn hbody =>
      cases h' with
      | whitespace h' => exact absurd hc h'.not_semicolon
      | @comment eol' _ hbefore' _ hn' hbody' =>
          rcases Nat.lt_trichotomy eol eol' with hlt | rfl | hlt
          · exact absurd hn (hbody' eol hbefore hlt)
          · rfl
          · exact absurd hn' (hbody eol' hbefore' hlt)
      | lastComment _ _ hbody' => exact absurd hn (hbody' eol hbefore hin)
  | lastComment hin hc hbody =>
      cases h' with
      | whitespace h' => exact absurd hc h'.not_semicolon
      | @comment eol' _ hbefore' hin' hn' _ => exact absurd hn' (hbody eol' hbefore' hin')
      | lastComment _ _ _ => rfl

theorem seekByte_first (target : UInt8) (buf : List UInt8) (pos : Nat) :
    ∀ i, pos ≤ i → i < seekByte target buf pos → byteAt buf i ≠ target := by
  fun_induction seekByte target buf pos with
  | case1 pos h ih =>
      intro i hle hlt
      rcases hle.eq_or_lt with rfl | hlt'
      · exact h.2
      · exact ih i hlt' hlt
  | case2 pos h => intro i hle hlt; omega

theorem seekByte_le_length (target : UInt8) {pos : Nat} (h : pos ≤ buf.length) :
    seekByte target buf pos ≤ buf.length := by
  fun_induction seekByte target buf pos with
  | case1 pos hlt ih => exact ih hlt.1
  | case2 pos hlt => exact h

theorem afterComment_item (hlt : p < buf.length) (hc : byteAt buf p = 0x3B) :
    Item buf p (afterComment buf p) := by
  have hfirst := seekByte_first 0x0A buf p
  have hle : seekByte 0x0A buf p ≤ buf.length := seekByte_le_length 0x0A hlt.le
  have hbefore : p < seekByte 0x0A buf p := by
    rcases (le_seekByte 0x0A buf p).eq_or_lt with he | hlt'
    · have hn := seekByte_spec 0x0A buf p (he ▸ hlt)
      rw [← he, hc] at hn
      exact absurd hn (by decide)
    · exact hlt'
  simp only [afterComment]
  split_ifs with hn
  · exact .comment hc hbefore hn.1 hn.2 (fun i hi hlt => hfirst i hi.le hlt)
  · have hend : seekByte 0x0A buf p = buf.length := by
      by_contra hne
      exact hn ⟨by omega, seekByte_spec 0x0A buf p (by omega)⟩
    rw [hend]
    exact .lastComment hlt hc (fun i hi hlt => hfirst i hi.le (hend.symm ▸ hlt))

theorem Item.starts (h : Item buf p q) : isWhitespaceAt buf p = true ∨ byteAt buf p = 0x3B := by
  cases h with
  | whitespace h => exact Or.inl (whitespaceItem_iff.mp h).1
  | comment hc _ _ _ _ => exact Or.inr hc
  | lastComment _ hc _ => exact Or.inr hc

/-- The loop passes whole items and stops at the first position where none
starts. -/
theorem skipWhitespaceAndComments_items (buf : List UInt8) (pos : Nat) :
    Relation.ReflTransGen (Item buf) pos (skipWhitespaceAndComments buf pos) ∧
      ∀ q, ¬ Item buf (skipWhitespaceAndComments buf pos) q := by
  fun_induction skipWhitespaceAndComments buf pos with
  | case1 pos hlt hw hz => exact absurd hz (charByteLenAt_pos hlt).ne'
  | case2 pos hlt hw hz ih =>
      exact ⟨Relation.ReflTransGen.head (.whitespace (whitespaceItem_iff.mpr ⟨hw, rfl⟩)) ih.1, ih.2⟩
  | case3 pos hlt hw hc ih =>
      exact ⟨Relation.ReflTransGen.head (afterComment_item hlt hc) ih.1, ih.2⟩
  | case4 pos hlt hw hc =>
      refine ⟨Relation.ReflTransGen.refl, fun q h => ?_⟩
      rcases h.starts with hw' | hc'
      · exact hw hw'
      · exact hc hc'
  | case5 pos hlt => exact ⟨Relation.ReflTransGen.refl, fun q h => hlt h.inside⟩

theorem skipWhitespaceAndComments_idem (buf : List UInt8) (pos : Nat) :
    skipWhitespaceAndComments buf (skipWhitespaceAndComments buf pos) =
      skipWhitespaceAndComments buf pos := by
  obtain ⟨hrun, _⟩ := skipWhitespaceAndComments_items buf (skipWhitespaceAndComments buf pos)
  rcases hrun.cases_head with he | ⟨q, hq, _⟩
  · exact he.symm
  · exact absurd hq ((skipWhitespaceAndComments_items buf pos).2 q)

theorem items_le_length {pos : Nat} (h : Relation.ReflTransGen (Item buf) pos p) (hpos : pos ≤ buf.length) :
    p ≤ buf.length := by
  induction h with
  | refl => exact hpos
  | @tail a b _ hab _ =>
      have hin := hab.inside
      cases hab with
      | whitespace h =>
          have hle := charLen_le (buf.drop a)
          rw [List.length_drop] at hle
          rw [h.next, akUtf8Decode_bytes]
          omega
      | comment _ _ hin _ _ => exact hin
      | lastComment _ _ _ => exact le_rfl

theorem items_end_unique {pos a b : Nat} (ha : Relation.ReflTransGen (Item buf) pos a)
    (hb : Relation.ReflTransGen (Item buf) pos b) (hstopa : ∀ q, ¬ Item buf a q)
    (hstopb : ∀ q, ¬ Item buf b q) : a = b := by
  rcases Relation.ReflTransGen.total_of_right_unique Item.unique ha hb with h | h
  · rcases h.cases_head with he | ⟨q, hq, _⟩
    · exact he
    · exact absurd hq (hstopa q)
  · rcases h.cases_head with he | ⟨q, hq, _⟩
    · exact he.symm
    · exact absurd hq (hstopb q)

theorem skip_to_end_iff (buf : List UInt8) (pos : Nat) : buf.length ≤ skipWhitespaceAndComments buf pos ↔
    Relation.ReflTransGen (Item buf) pos (max pos buf.length) := by
  obtain ⟨hrun, hstop⟩ := skipWhitespaceAndComments_items buf pos
  constructor
  · intro hend
    by_cases hpos : pos ≤ buf.length
    · have := items_le_length hrun hpos
      rw [max_eq_right hpos, show buf.length = skipWhitespaceAndComments buf pos by omega]
      exact hrun
    · rw [max_eq_left (by omega)]
  · intro h
    have hmax : ∀ q, ¬ Item buf (max pos buf.length) q := by
      intro q hq
      have := hq.inside
      omega
    rw [items_end_unique hrun h hstop hmax]
    exact le_max_right pos buf.length

/-- The call moves to the first position outside the whitespace and the comments
that follow the cursor, and stays there when it is repeated; it fails and moves
nothing exactly if they fill the rest of the buffer. -/
theorem akScannerSkipWhitespaceAndComments_exact (scanner : Scanner) :
    let r := akScannerSkipWhitespaceAndComments scanner
    (r.1 = true →
      r.2.buffer = scanner.buffer ∧ scanner.position ≤ r.2.position ∧ r.2.position < scanner.buffer.length ∧
      Relation.ReflTransGen (Item scanner.buffer) scanner.position r.2.position ∧
      (∀ i, scanner.position ≤ i → i < r.2.position → Covered (Item scanner.buffer) scanner.position i) ∧
      ¬ Covered (Item scanner.buffer) scanner.position r.2.position ∧
      akScannerSkipWhitespaceAndComments r.2 = (true, r.2)) ∧
    (r.1 = false ↔ Relation.ReflTransGen (Item scanner.buffer) scanner.position
      (max scanner.position scanner.buffer.length)) ∧
    (r.1 = false → r.2 = scanner) := by
  obtain ⟨hrun, hstop⟩ := skipWhitespaceAndComments_items scanner.buffer scanner.position
  intro r
  rw [← skip_to_end_iff]
  simp only [r, akScannerSkipWhitespaceAndComments, settle]
  by_cases hend : scanner.buffer.length ≤ skipWhitespaceAndComments scanner.buffer scanner.position
  · rw [if_pos hend]
    exact ⟨fun h => absurd h Bool.false_ne_true, iff_of_true rfl hend, fun _ => rfl⟩
  · rw [if_neg hend]
    refine ⟨fun _ => ⟨rfl, le_of_items Item.forward hrun, Nat.lt_of_not_le hend, hrun, ?_, ?_, ?_⟩, ?_, ?_⟩
    · exact fun i hi hlt => covered_below hrun hi hlt
    · exact not_covered Item.unique Item.forward hrun hstop
    · rw [skipWhitespaceAndComments_idem, if_neg hend]
    · exact iff_of_false (Ne.symm Bool.false_ne_true) hend
    · exact fun h => absurd h (Ne.symm Bool.false_ne_true)

end Ak24.ScannerSkip
