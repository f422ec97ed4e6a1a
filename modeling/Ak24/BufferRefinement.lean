import Ak24.BufferModel
import Ak24.Transition
import Ak24.Words

namespace Ak24.BufferRefinement

open Objects Transition Blocks BufferModel

def contents (b : Buffer) : List UInt8 := (b.data.take b.count).reduceOption

/-- What a call makes of a byte list, with its answer. A growth or a rotation may
fail when memory is refused, and leaves the list as it is. -/
def Outcome (grants : Grants) (l : List UInt8) : Call → Answer → List UInt8 → Prop
  | .copyTo src, answer, l' =>
    (∃ bytes, src = some bytes ∧ answer = .status 0 ∧ l' = l ++ bytes) ∨
      (src = none ∨ grants.data = false) ∧ answer = .status (-1) ∧ l' = l
  | .clear, answer, l' => answer = .done ∧ l' = []
  | .shrinkToFit, answer, l' => (answer = .status 0 ∨ grants.data = false ∧ answer = .status (-1)) ∧ l' = l
  | .rotateLeft n, answer, l' => answer = .done ∧ (l' = l.rotate n ∨ grants.data = false ∧ l' = l)
  | .rotateRight n, answer, l' => answer = .done ∧ (l' = (l.reverse.rotate n).reverse ∨ grants.data = false ∧ l' = l)
  | .trimLeft byte, answer, l' =>
    (answer = .status 0 ∨ grants.data = false ∧ answer = .status (-1)) ∧ l' = l.dropWhile (· == byte)
  | .trimRight byte, answer, l' =>
    (answer = .status 0 ∨ grants.data = false ∧ answer = .status (-1)) ∧ l' = l.rdropWhile (· == byte)
  | .subBuffer _ _, _, _ | .copy, _, _ => False

def derived (l : List UInt8) : Call → Option (List UInt8)
  | .subBuffer offset length => if offset < l.length then some ((l.drop offset).take length) else none
  | .copy => some l
  | _ => none

def Call.makes : Call → Bool
  | .subBuffer _ _ | .copy => true
  | _ => false

def Answer.made : Answer → Option Nat
  | .buffer made | .sub made _ => made
  | _ => none

/-- What the buffers are for: byte lists, by the pointers of their buffers. -/
inductive ListStep (lists : Nat → Option (List UInt8)) : List Event → (Nat → Option (List UInt8)) → Prop
  | new (size i : Nat) (grants : Grants) (hfresh : lists i = none) :
    ListStep lists [⟨.new size, grants, .buffer (some i)⟩] (Function.update lists i (some []))
  | newRefused (size : Nat) (grants : Grants) (hrefused : grants.buffer = false ∨ grants.data = false) :
    ListStep lists [⟨.new size, grants, .buffer none⟩] lists
  | null (call : Call) (grants : Grants) : ListStep lists [⟨.on none call, grants, nullAnswer call⟩] lists
  | change (i : Nat) (call : Call) (grants : Grants) (answer : Answer) (l l' : List UInt8) (hl : lists i = some l)
    (h : Outcome grants l call answer l') :
    ListStep lists [⟨.on (some i) call, grants, answer⟩] (Function.update lists i (some l'))
  | derive (i j : Nat) (call : Call) (grants : Grants) (answer : Answer) (l l' : List UInt8) (hl : lists i = some l)
    (h : derived l call = some l') (hfresh : lists j = none) (hanswer : Answer.made answer = some j) :
    ListStep lists [⟨.on (some i) call, grants, answer⟩] (Function.update lists j (some l'))
  | deriveRefused (i : Nat) (call : Call) (grants : Grants) (answer : Answer) (l : List UInt8) (hl : lists i = some l)
    (hcall : Call.makes call) (h : derived l call = none ∨ grants.buffer = false ∨ grants.data = false)
    (hanswer : Answer.made answer = none) : ListStep lists [⟨.on (some i) call, grants, answer⟩] lists

structure BufferOk (b : Buffer) (l : List UInt8) : Prop where
  held : Holds b.data l
  count : b.count = l.length
  capacity : b.data.length = b.capacity
  pos : 1 ≤ b.capacity

section Buffers

variable {b b' : Buffer} {l l' : List UInt8} {grants : Grants} {granted : Bool} {required n : Nat} {byte : UInt8}

theorem BufferOk.contents_eq (h : BufferOk b l) : contents b = l := by
  obtain ⟨rest, hdata⟩ := h.held
  rw [contents, hdata, h.count, List.take_left' (by simp), List.reduceOption, List.filterMap_map]
  exact List.filterMap_some

theorem BufferOk.count_le (h : BufferOk b l) : b.count ≤ b.capacity := by
  rw [h.count, ← h.capacity]
  exact h.held.length_le

theorem akBufferNew_ok (h : akBufferNew n grants = some b) : BufferOk b [] ∧ n ≤ b.capacity := by
  unfold akBufferNew at h
  split_ifs at h
  all_goals
    cases h
    refine ⟨⟨holds_nil _, rfl, length_alloc, ?_⟩, ?_⟩ <;> simp only [minBufferSize] at * <;> omega

theorem akBufferNew_refused (h : akBufferNew n grants = none) : grants.buffer = false ∨ grants.data = false := by
  unfold akBufferNew at h
  split_ifs at h <;> simp_all

theorem doublingLoop_eq : doublingLoop = Words.doubling 64 := by
  funext fuel
  induction fuel with
  | zero => rfl
  | succ fuel ih =>
      funext newCapacity required
      rw [doublingLoop, Words.doubling, ih]

theorem makeRoom_ok (h : BufferOk b l) (granted : Bool) (hrequired : required < 2 ^ 62) :
    (makeRoom b required granted = some none ∧ granted = false) ∨
      ∃ b', makeRoom b required granted = some (some b') ∧ BufferOk b' l ∧ required ≤ b'.capacity := by
  by_cases hroom : required > b.capacity
  · have hfuel : required ≤ b.capacity * 2 ^ doublings := by
      have hpos := Nat.mul_le_mul_right (2 ^ doublings) h.pos
      simp only [doublings] at *
      omega
    obtain ⟨c, hloop, hge, hle⟩ := Words.doubling_ok (w := 64) h.pos (by omega) hfuel
    rw [makeRoom, if_pos hroom, doublingLoop_eq, hloop]
    cases granted with
    | false => exact .inl ⟨rfl, rfl⟩
    | true =>
        refine .inr ⟨_, rfl, ⟨h.held.realloc ?_, h.count, length_realloc, ?_⟩, hge⟩
        · rw [← h.count]
          exact h.count_le.trans hle
        · exact h.pos.trans hle
  · rw [makeRoom, if_neg hroom]
    exact .inr ⟨b, rfl, h, by omega⟩

theorem BufferOk.append (h : BufferOk b l) (bytes : List UInt8) (hroom : b.count + bytes.length ≤ b.capacity) :
    ∃ data, write b.data b.count (bytes.map some) = some data ∧
      BufferOk { b with data, count := b.count + bytes.length } (l ++ bytes) := by
  rw [h.count] at hroom ⊢
  obtain ⟨data, hdata, hheld⟩ := h.held.write (l := bytes) (by rw [h.capacity]; exact hroom)
  exact ⟨data, hdata, hheld, by simp, (length_write hdata).trans h.capacity, h.pos⟩

theorem akBufferCopyTo_ok (h : BufferOk b l) (grants : Grants) (src : Option (List UInt8))
    (hsmall : ∀ bytes, src = some bytes → b.count + bytes.length < 2 ^ 62) :
    ∃ c b' l', akBufferCopyTo b src grants.data = some (c, b') ∧ BufferOk b' l' ∧
      Outcome grants l (.copyTo src) (.status c) l' := by
  cases src with
  | none => exact ⟨-1, b, l, rfl, h, .inr ⟨.inl rfl, rfl, rfl⟩⟩
  | some bytes =>
      have hlt := hsmall bytes rfl
      have hrequired : (b.count + bytes.length) % 2 ^ 64 = b.count + bytes.length := Nat.mod_eq_of_lt (by omega)
      by_cases hempty : bytes.length = 0
      · refine ⟨0, b, l, if_pos hempty, h, .inl ⟨bytes, rfl, rfl, ?_⟩⟩
        rw [List.length_eq_zero_iff.mp hempty, List.append_nil]
      · rw [akBufferCopyTo, if_neg hempty, hrequired]
        rcases makeRoom_ok h grants.data hlt with ⟨hroom, hrefused⟩ | ⟨b', hroom, hb', hle⟩
        · rw [hroom]
          exact ⟨-1, b, l, rfl, h, .inr ⟨.inr hrefused, rfl, rfl⟩⟩
        · have hcount : b'.count = b.count := hb'.count.trans h.count.symm
          obtain ⟨data, hdata, hok⟩ := hb'.append bytes (by rw [hcount]; exact hle)
          rw [hroom]
          rw [hcount] at hdata hok
          simp only [hcount, hrequired, hdata]
          exact ⟨0, _, l ++ bytes, rfl, hok, .inl ⟨bytes, rfl, rfl, rfl⟩⟩

theorem akBufferClear_ok (h : BufferOk b l) : BufferOk (akBufferClear b) [] :=
  ⟨holds_nil _, rfl, h.capacity, h.pos⟩

theorem akBufferShrinkToFit_ok (h : BufferOk b l) (granted : Bool) :
    BufferOk (akBufferShrinkToFit b granted).2 l ∧
      ((akBufferShrinkToFit b granted).1 = 0 ∨ granted = false ∧ (akBufferShrinkToFit b granted).1 = -1) := by
  unfold akBufferShrinkToFit
  split_ifs with hempty hfull hgranted
  · exact ⟨h, .inl rfl⟩
  · exact ⟨h, .inl rfl⟩
  · exact ⟨h, .inr ⟨by simpa using hgranted, rfl⟩⟩
  · refine ⟨⟨h.held.realloc ?_, h.count, length_realloc, ?_⟩, .inl rfl⟩
    · rw [h.count]
    · exact Nat.one_le_iff_ne_zero.mpr hempty

theorem shiftLeft_ok (h : BufferOk b l) (hn : n ≤ l.length) :
    ∃ data, shiftLeft b n = some data ∧ data.length = b.data.length ∧ Holds data (l.drop n ++ l.take n) := by
  have htemp : read b.data 0 n = some ((l.take n).map some) := h.held.read (by omega)
  have hmoved : read b.data n (l.length - n) = some ((l.drop n).map some) := by
    rw [h.held.read (by omega), List.take_of_length_le (by simp)]
  have hle := h.held.length_le
  obtain ⟨data, hdata, hheld⟩ := (holds_nil b.data).write (l := l.drop n) (by simp; omega)
  obtain ⟨data', hdata', hheld'⟩ := hheld.write (l := l.take n) (by rw [length_write hdata]; simp; omega)
  refine ⟨data', ?_, (length_write hdata').trans (length_write hdata), hheld'⟩
  rw [List.nil_append, List.length_drop] at hdata'
  rw [List.length_nil] at hdata
  simp only [shiftLeft, h.count, htemp, hmoved, hdata, hdata']

theorem shiftRight_ok (h : BufferOk b l) (hn : n ≤ l.length) :
    ∃ data, shiftRight b n = some data ∧ data.length = b.data.length ∧
      Holds data (l.drop (l.length - n) ++ l.take (l.length - n)) := by
  have htemp : read b.data (l.length - n) n = some ((l.drop (l.length - n)).map some) := by
    rw [h.held.read (by omega), List.take_of_length_le (by simp; omega)]
  have hmoved : read b.data 0 (l.length - n) = some ((l.take (l.length - n)).map some) := h.held.read (by omega)
  have hle := h.held.length_le
  have hlength : (l.take n).length = n := List.length_take_of_le hn
  obtain ⟨data, hdata, hheld⟩ := (h.held.take n).write (l := l.take (l.length - n)) (by simp; omega)
  obtain ⟨data', hdata', hheld'⟩ := hheld.overwrite (l := l.drop (l.length - n)) (by simp; omega)
  refine ⟨data', ?_, (length_write hdata').trans (length_write hdata), hheld'⟩
  rw [hlength] at hdata
  simp only [shiftRight, h.count, htemp, hmoved, hdata, hdata']

theorem rotate_ok (h : BufferOk b l) {rotated : List UInt8} {shift : Nat → Option (List (Option UInt8))}
    (hzero : l.length = 0 ∨ n % l.length = 0 → rotated = l) (hlength : rotated.length = l.length)
    (hshift : n % l.length < l.length →
      ∃ data, shift (n % l.length) = some data ∧ data.length = b.data.length ∧ Holds data rotated) :
    ∃ b' l', rotate b n granted shift = some b' ∧ BufferOk b' l' ∧ (l' = rotated ∨ granted = false ∧ l' = l) := by
  unfold rotate
  rw [h.count]
  split_ifs with hnone hmod hgranted
  · refine ⟨b, l, rfl, h, .inl (hzero ?_).symm⟩
    rcases hnone with hcount | rfl
    · exact .inl hcount
    · exact .inr (Nat.zero_mod _)
  · exact ⟨b, l, rfl, h, .inl (hzero (.inr hmod)).symm⟩
  · exact ⟨b, l, rfl, h, .inr ⟨by simpa using hgranted, rfl⟩⟩
  · obtain ⟨data, hdata, hsame, hheld⟩ := hshift (Nat.mod_lt _ (by omega))
    rw [hdata]
    exact ⟨_, rotated, rfl, ⟨hheld, hlength.symm, hsame.trans h.capacity, h.pos⟩, .inl rfl⟩

theorem akBufferRotateLeft_ok (h : BufferOk b l) (n : Nat) (granted : Bool) :
    ∃ b' l', akBufferRotateLeft b n granted = some b' ∧ BufferOk b' l' ∧
      (l' = l.rotate n ∨ granted = false ∧ l' = l) := by
  apply rotate_ok h
  · exact rotate_of_mod
  · exact l.length_rotate n
  · intro hlt
    rw [List.rotate_eq_drop_append_take_mod]
    exact shiftLeft_ok h hlt.le

theorem akBufferRotateRight_ok (h : BufferOk b l) (n : Nat) (granted : Bool) :
    ∃ b' l', akBufferRotateRight b n granted = some b' ∧ BufferOk b' l' ∧
      (l' = (l.reverse.rotate n).reverse ∨ granted = false ∧ l' = l) := by
  apply rotate_ok h
  · exact reverse_rotate_of_mod
  · rw [List.length_reverse, List.length_rotate, List.length_reverse]
  · intro hlt
    rw [reverse_rotate_eq]
    exact shiftRight_ok h hlt.le

theorem trimLoop_eq {data : List (Option UInt8)} {index : Nat → Nat} {bytes : List UInt8} {trimCount : Nat}
    (h : ∀ j (hj : j < bytes.length), data[index (trimCount + j)]? = some (some bytes[j])) :
    trimLoop data byte index bytes.length trimCount = some (trimCount + (bytes.takeWhile (· == byte)).length) := by
  induction bytes generalizing trimCount with
  | nil => rfl
  | cons x bytes ih =>
      have hx : data[index trimCount]? = some (some x) := h 0 (by simp)
      rw [List.length_cons, trimLoop, hx, List.takeWhile_cons]
      by_cases heq : x = byte
      · have hrest : ∀ j (hj : j < bytes.length), data[index (trimCount + 1 + j)]? = some (some bytes[j]) := by
          intro j hj
          have hj' := h (j + 1) (by simpa using hj)
          rwa [Nat.add_assoc, Nat.add_comm 1 j]
        simp only [heq, if_true, beq_self_eq_true, List.length_cons, ih hrest]
        congr 1
        omega
      · simp [heq]

theorem drop_length_takeWhile (p : UInt8 → Bool) (l : List UInt8) : l.drop (l.takeWhile p).length = l.dropWhile p := by
  calc l.drop (l.takeWhile p).length = (l.takeWhile p ++ l.dropWhile p).drop (l.takeWhile p).length := by
        rw [List.takeWhile_append_dropWhile]
    _ = l.dropWhile p := List.drop_left

theorem shrunk_ok (h : BufferOk b l) :
    ∃ c b', some (akBufferShrinkToFit b granted) = some (c, b') ∧ BufferOk b' l ∧ (c = 0 ∨ granted = false ∧ c = -1) :=
  ⟨_, _, rfl, akBufferShrinkToFit_ok h granted⟩

theorem akBufferTrimLeft_ok (h : BufferOk b l) (byte : UInt8) (granted : Bool) :
    ∃ c b', akBufferTrimLeft b byte granted = some (c, b') ∧ BufferOk b' (l.dropWhile (· == byte)) ∧
      (c = 0 ∨ granted = false ∧ c = -1) := by
  have hloop : trimLoop b.data byte id b.count 0 = some (l.takeWhile (· == byte)).length := by
    rw [h.count, trimLoop_eq fun j hj => ?_, Nat.zero_add]
    rw [Nat.zero_add]
    exact h.held.getElem? hj
  have hle : (l.takeWhile (· == byte)).length ≤ l.length := (List.takeWhile_sublist _).length_le
  unfold akBufferTrimLeft
  rw [hloop, ← drop_length_takeWhile]
  generalize (l.takeWhile (· == byte)).length = trimCount at hle ⊢
  by_cases hempty : b.count = 0
  · have hnil : l = [] := List.length_eq_zero_iff.mp (h.count.symm.trans hempty)
    subst hnil
    exact ⟨0, b, if_pos hempty, by simpa using h, .inl rfl⟩
  rw [if_neg hempty]
  by_cases hzero : trimCount = 0
  · subst hzero
    exact ⟨0, b, rfl, h, .inl rfl⟩
  simp only [if_neg hzero]
  by_cases hall : trimCount = b.count
  · rw [if_pos hall, hall, h.count, List.drop_length]
    exact shrunk_ok (akBufferClear_ok h)
  · have hmoved : read b.data trimCount (b.count - trimCount) = some ((l.drop trimCount).map some) := by
      rw [h.count, h.held.read (by omega), List.take_of_length_le (by simp)]
    have hroom := h.held.length_le
    obtain ⟨data, hdata, hheld⟩ := (holds_nil b.data).write (l := l.drop trimCount) (by simp; omega)
    rw [List.length_nil] at hdata
    simp only [if_neg hall, hmoved, hdata]
    exact shrunk_ok ⟨hheld, by simp [h.count], (length_write hdata).trans h.capacity, h.pos⟩

theorem akBufferTrimRight_ok (h : BufferOk b l) (byte : UInt8) (granted : Bool) :
    ∃ c b', akBufferTrimRight b byte granted = some (c, b') ∧ BufferOk b' (l.rdropWhile (· == byte)) ∧
      (c = 0 ∨ granted = false ∧ c = -1) := by
  have hloop : trimLoop b.data byte (fun trimCount => b.count - 1 - trimCount) b.count 0 =
      some (l.reverse.takeWhile (· == byte)).length := by
    rw [h.count, ← List.length_reverse, trimLoop_eq fun j hj => ?_, Nat.zero_add]
    rw [List.length_reverse] at hj ⊢
    rw [Nat.zero_add, h.held.getElem? (by omega), List.getElem_reverse]
  have hle : (l.reverse.takeWhile (· == byte)).length ≤ l.length :=
    (List.takeWhile_sublist _).length_le.trans_eq List.length_reverse
  unfold akBufferTrimRight
  rw [hloop, List.rdropWhile, ← drop_length_takeWhile, List.drop_reverse, List.reverse_reverse]
  generalize (l.reverse.takeWhile (· == byte)).length = trimCount at hle ⊢
  by_cases hempty : b.count = 0
  · have hnil : l = [] := List.length_eq_zero_iff.mp (h.count.symm.trans hempty)
    subst hnil
    exact ⟨0, b, if_pos hempty, by simpa using h, .inl rfl⟩
  rw [if_neg hempty]
  by_cases hzero : trimCount = 0
  · subst hzero
    rw [Nat.sub_zero, List.take_length]
    exact ⟨0, b, rfl, h, .inl rfl⟩
  · simp only [if_neg hzero]
    exact shrunk_ok ⟨h.held.take _, by simp [h.count], h.capacity, h.pos⟩

theorem filled_ok {bytes : List UInt8} (h : akBufferNew n grants = some b) (hn : bytes.length ≤ n)
    (originOffset : Nat) :
    ∃ data, write b.data 0 (bytes.map some) = some data ∧
      BufferOk { b with data, count := bytes.length, originOffset } bytes := by
  obtain ⟨hnew, hle⟩ := akBufferNew_ok h
  obtain ⟨data, hdata, hheld⟩ := (holds_nil b.data).write (l := bytes) (by rw [hnew.capacity]; simp; omega)
  exact ⟨data, hdata, hheld, rfl, (length_write hdata).trans hnew.capacity, hnew.pos⟩

theorem akBufferSubBuffer_ok (h : BufferOk b l) (offset length : Nat) (grants : Grants) :
    ∃ r copied, akBufferSubBuffer b offset length grants = some (r, copied) ∧
      ((∃ sub l', r = some sub ∧ derived l (.subBuffer offset length) = some l' ∧ BufferOk sub l') ∨
        r = none ∧ (derived l (.subBuffer offset length) = none ∨ grants.buffer = false ∨ grants.data = false)) := by
  unfold akBufferSubBuffer
  by_cases hoffset : offset ≥ b.count
  · rw [if_pos hoffset]
    refine ⟨none, 0, rfl, .inr ⟨rfl, .inl (if_neg ?_)⟩⟩
    rw [← h.count]
    omega
  · have hlt : offset < l.length := by
      rw [← h.count]
      omega
    have hderived : derived l (.subBuffer offset length) = some ((l.drop offset).take length) := if_pos hlt
    rw [hderived]
    simp only [if_neg hoffset]
    have hactual : (if length > b.count - offset then b.count - offset else length) =
        ((l.drop offset).take length).length := by
      rw [List.length_take, List.length_drop, h.count]
      split_ifs <;> omega
    rw [hactual]
    by_cases hempty : ((l.drop offset).take length).length = 0
    · rw [if_pos hempty, List.length_eq_zero_iff.mp hempty]
      cases hnew : akBufferNew minBufferSize grants with
      | none => exact ⟨none, 0, rfl, .inr ⟨rfl, .inr (akBufferNew_refused hnew)⟩⟩
      | some sub =>
          have hok := (akBufferNew_ok hnew).1
          exact ⟨_, 0, rfl, .inl ⟨_, [], rfl, rfl, ⟨hok.held, hok.count, hok.capacity, hok.pos⟩⟩⟩
    · rw [if_neg hempty]
      cases hnew : akBufferNew ((l.drop offset).take length).length grants with
      | none => exact ⟨none, 0, rfl, .inr ⟨rfl, .inr (akBufferNew_refused hnew)⟩⟩
      | some sub =>
          have hread : read b.data offset ((l.drop offset).take length).length =
              some (((l.drop offset).take length).map some) := by
            have hprefix := List.prefix_iff_eq_take.mp (List.take_prefix length (l.drop offset))
            rw [h.held.read (by simp only [List.length_take, List.length_drop]; omega), ← hprefix]
          obtain ⟨data, hdata, hok⟩ := filled_ok hnew le_rfl ((b.originOffset + offset) % 2 ^ 64)
          simp only [hread, hdata]
          exact ⟨_, _, rfl, .inl ⟨_, _, rfl, rfl, hok⟩⟩

theorem akBufferCopy_ok (h : BufferOk b l) (grants : Grants) :
    ∃ r, akBufferCopy b grants = some r ∧
      ((∃ copy, r = some copy ∧ BufferOk copy l) ∨ r = none ∧ (grants.buffer = false ∨ grants.data = false)) := by
  unfold akBufferCopy
  cases hnew : akBufferNew b.capacity grants with
  | none => exact ⟨none, rfl, .inr ⟨rfl, akBufferNew_refused hnew⟩⟩
  | some copy =>
      by_cases hcount : b.count > 0
      · have hread : read b.data 0 b.count = some (l.map some) := by
          rw [h.count, h.held.read (by omega), List.drop_zero, List.take_length]
        obtain ⟨data, hdata, hok⟩ := filled_ok hnew (h.count ▸ h.count_le) b.originOffset
        simp only [if_pos hcount, hread, hdata]
        rw [← h.count] at hok
        exact ⟨_, rfl, .inl ⟨_, rfl, hok⟩⟩
      · have hnil : l = [] := List.length_eq_zero_iff.mp (h.count.symm.trans (by omega))
        have hok := (akBufferNew_ok hnew).1
        simp only [if_neg hcount]
        refine ⟨_, rfl, .inl ⟨_, rfl, ?_⟩⟩
        rw [hnil]
        exact ⟨hok.held, hok.count, hok.capacity, hok.pos⟩

end Buffers

def HeapOk (heap : Heap Buffer) : Prop := ∀ i b, heap.cells i = some b → BufferOk b (contents b)

/-- An append ends below `2 ^ 62` bytes. -/
def SmallOp (heap : Heap Buffer) : Op → Prop
  | .on (some i) (.copyTo (some bytes)) => ∀ b, heap.cells i = some b → b.count + bytes.length < 2 ^ 62
  | _ => True

def Small (heap : Heap Buffer) (events : List Event) : Prop := ∀ e ∈ events, SmallOp heap e.op

section Heaps

variable {heap heap' : Heap Buffer} {b b' : Buffer} {l' : List UInt8} {i : Nat} {call : Call} {grants : Grants}
  {answer : Answer} {op : Op}

theorem BufferOk.self (h : BufferOk b l') : BufferOk b (contents b) := by
  rwa [h.contents_eq]

theorem HeapOk.store (h : HeapOk heap) (hb : BufferOk b l') : HeapOk (heap.store i b) := by
  intro j c hc
  by_cases hj : j = i
  · subst j
    obtain ⟨-, rfl⟩ : (∃ old, heap.cells i = some old) ∧ b = c := by simpa [Heap.store] using hc
    exact hb.self
  · rw [Heap.store_of_ne hj] at hc
    exact h j c hc

theorem HeapOk.alloc (h : HeapOk heap) (hb : BufferOk b l') : HeapOk (heap.alloc b) := by
  intro j c hc
  rcases Heap.alloc_eq_some hc with ⟨-, rfl⟩ | hold
  · exact hb.self
  · exact h j c hold

theorem view_some (hi : heap.cells i = some b) : heap.view contents i = some (contents b) := by
  rw [Heap.view, hi, Option.map_some]

theorem view_fresh : heap.view contents heap.next = none := by
  rw [Heap.view, heap.fresh _ le_rfl, Option.map_none]

def StepOk (heap : Heap Buffer) (op : Op) (grants : Grants) (r : Option (Answer × Heap Buffer)) : Prop :=
  ∃ answer heap', r = some (answer, heap') ∧ HeapOk heap' ∧
    ListStep (heap.view contents) [⟨op, grants, answer⟩] (heap'.view contents)

theorem HeapOk.change (h : HeapOk heap) (hi : heap.cells i = some b) (hb : BufferOk b' l')
    (houtcome : Outcome grants (contents b) call answer l') :
    StepOk heap (.on (some i) call) grants (some (answer, heap.store i b')) := by
  refine ⟨answer, _, rfl, h.store hb, ?_⟩
  rw [Heap.view_store hi, hb.contents_eq]
  exact .change i call grants answer _ l' (view_some hi) houtcome

theorem HeapOk.derive (h : HeapOk heap) (hi : heap.cells i = some b) (hb : BufferOk b' l')
    (hderived : derived (contents b) call = some l') (hanswer : Answer.made answer = some heap.next) :
    StepOk heap (.on (some i) call) grants (some (answer, heap.alloc b')) := by
  refine ⟨answer, _, rfl, h.alloc hb, ?_⟩
  rw [Heap.view_alloc, hb.contents_eq]
  exact .derive i heap.next call grants answer _ l' (view_some hi) hderived view_fresh hanswer

theorem HeapOk.deriveRefused (h : HeapOk heap) (hi : heap.cells i = some b) (hcall : Call.makes call)
    (hrefused : derived (contents b) call = none ∨ grants.buffer = false ∨ grants.data = false)
    (hanswer : Answer.made answer = none) : StepOk heap (.on (some i) call) grants (some (answer, heap)) :=
  ⟨answer, heap, rfl, h, .deriveRefused i call grants answer _ (view_some hi) hcall hrefused hanswer⟩

theorem HeapOk.execCall (h : HeapOk heap) (hi : heap.cells i = some b) (hsmall : SmallOp heap (.on (some i) call)) :
    StepOk heap (.on (some i) call) grants (execCall heap i b grants call) := by
  have hb := h i b hi
  cases call with
  | copyTo src =>
      obtain ⟨c, b', l', hcall, hb', houtcome⟩ := akBufferCopyTo_ok hb grants src
        (by rintro bytes rfl; exact hsmall b hi)
      rw [BufferModel.execCall, hcall]
      exact h.change hi hb' houtcome
  | clear => exact h.change hi (akBufferClear_ok hb) ⟨rfl, rfl⟩
  | shrinkToFit =>
      obtain ⟨hb', hstatus⟩ := akBufferShrinkToFit_ok hb grants.data
      refine h.change hi hb' ⟨?_, rfl⟩
      rcases hstatus with hzero | ⟨hrefused, hfail⟩
      · exact .inl (by rw [hzero])
      · exact .inr ⟨hrefused, by rw [hfail]⟩
  | rotateLeft n =>
      obtain ⟨b', l', hcall, hb', hrotated⟩ := akBufferRotateLeft_ok hb n grants.data
      rw [BufferModel.execCall, hcall]
      exact h.change hi hb' ⟨rfl, hrotated⟩
  | rotateRight n =>
      obtain ⟨b', l', hcall, hb', hrotated⟩ := akBufferRotateRight_ok hb n grants.data
      rw [BufferModel.execCall, hcall]
      exact h.change hi hb' ⟨rfl, hrotated⟩
  | trimLeft byte =>
      obtain ⟨c, b', hcall, hb', hstatus⟩ := akBufferTrimLeft_ok hb byte grants.data
      rw [BufferModel.execCall, hcall]
      refine h.change hi hb' ⟨?_, rfl⟩
      rcases hstatus with rfl | ⟨hrefused, rfl⟩
      · exact .inl rfl
      · exact .inr ⟨hrefused, rfl⟩
  | trimRight byte =>
      obtain ⟨c, b', hcall, hb', hstatus⟩ := akBufferTrimRight_ok hb byte grants.data
      rw [BufferModel.execCall, hcall]
      refine h.change hi hb' ⟨?_, rfl⟩
      rcases hstatus with rfl | ⟨hrefused, rfl⟩
      · exact .inl rfl
      · exact .inr ⟨hrefused, rfl⟩
  | subBuffer offset length =>
      obtain ⟨r, copied, hcall, hmade⟩ := akBufferSubBuffer_ok hb offset length grants
      rw [BufferModel.execCall, hcall]
      rcases hmade with ⟨sub, l', rfl, hderived, hsub⟩ | ⟨rfl, hrefused⟩
      · exact h.derive hi hsub hderived rfl
      · exact h.deriveRefused hi rfl hrefused rfl
  | copy =>
      obtain ⟨r, hcall, hmade⟩ := akBufferCopy_ok hb grants
      rw [BufferModel.execCall, hcall]
      rcases hmade with ⟨copy, rfl, hcopy⟩ | ⟨rfl, hrefused⟩
      · exact h.derive hi hcopy rfl rfl
      · exact h.deriveRefused hi rfl (.inr hrefused) rfl

theorem HeapOk.exec (h : HeapOk heap) (grants : Grants) (hvalid : Valid heap op) (hsmall : SmallOp heap op) :
    StepOk heap op grants (exec heap grants op) := by
  cases op with
  | new size =>
      cases hnew : akBufferNew size grants with
      | none =>
          refine ⟨.buffer none, heap, by rw [BufferModel.exec, hnew]; rfl, h, ?_⟩
          exact .newRefused size grants (akBufferNew_refused hnew)
      | some b =>
          have hb := (akBufferNew_ok hnew).1
          refine ⟨.buffer (some heap.next), heap.alloc b, by rw [BufferModel.exec, hnew]; rfl, h.alloc hb, ?_⟩
          rw [Heap.view_alloc, hb.contents_eq]
          exact .new size heap.next grants view_fresh
  | on buffer call =>
      cases buffer with
      | none => exact ⟨nullAnswer call, heap, rfl, h, .null call grants⟩
      | some i =>
          obtain ⟨b, hi⟩ := Option.ne_none_iff_exists'.mp hvalid
          rw [BufferModel.exec, hi]
          exact h.execCall hi hsmall

theorem HeapOk.step (h : HeapOk heap) {events : List Event} (hs : guarded Small Step heap events heap') :
    HeapOk heap' ∧ ListStep (heap.view contents) events (heap'.view contents) := by
  obtain ⟨⟨op, grants, answer, _, hvalid, hexec⟩, hsmall⟩ := hs
  have hop : SmallOp heap op := hsmall _ (List.mem_singleton.mpr rfl)
  obtain ⟨answer', heap'', hexec', hok, hlists⟩ := h.exec grants hvalid hop
  rw [hexec] at hexec'
  cases hexec'
  exact ⟨hok, hlists⟩

end Heaps

/-- In every run the contents of the buffers are those of byte lists, every buffer
has a positive capacity and its bytes within it, and every further call returns
without an access outside of a block. -/
theorem buffers_refine {trace : List Event} {heap : Heap Buffer}
    (hrun : Run (guarded Small Step) (Heap.empty Buffer) trace heap) :
    Run ListStep (fun _ => none) trace (heap.view contents) ∧
      (∀ i b, heap.cells i = some b → 1 ≤ b.capacity ∧ b.count ≤ b.capacity ∧ b.data.length = b.capacity) ∧
      ∀ op grants, Valid heap op → SmallOp heap op → ∃ answer heap', exec heap grants op = some (answer, heap') := by
  obtain ⟨hlists, hok⟩ : Run ListStep (fun _ => none) trace (heap.view contents) ∧ HeapOk heap := by
    apply hrun.invariant (P := fun trace heap => Run ListStep (fun _ => none) trace (heap.view contents) ∧ HeapOk heap)
    · exact ⟨.start, nofun⟩
    · rintro trace heap events heap' ⟨hlists, hok⟩ hs
      obtain ⟨hok', hstep⟩ := hok.step hs
      exact ⟨hlists.next hstep, hok'⟩
  refine ⟨hlists, ?_, ?_⟩
  · intro i b hb
    have h := hok i b hb
    exact ⟨h.pos, h.count_le, h.capacity⟩
  · intro op grants hvalid hsmall
    obtain ⟨answer, heap', hexec, -⟩ := hok.exec grants hvalid hsmall
    exact ⟨answer, heap', hexec⟩

/-- A buffer grows past its first capacity and is trimmed to three bytes. -/
theorem grown_then_trimmed : ∃ trace, ∃ heap : Heap Buffer,
    Run (guarded Small Step) (Heap.empty Buffer) trace heap ∧ heap.view contents 0 = some [1, 2, 3] ∧
      Run ListStep (fun _ => none) trace (heap.view contents) := by
  have r₁ : Run (guarded Small Step) (Heap.empty Buffer) _ _ :=
    .next .start ⟨.exec (.new 0) ⟨true, true⟩ _ _ trivial rfl, by simp [Small, SmallOp]⟩
  have r₂ := r₁.next
    ⟨.exec (.on (some 0) (.copyTo (some (List.replicate 20 0 ++ [1, 2, 3])))) ⟨true, true⟩ _ _ nofun rfl,
      by rintro e he; cases List.mem_singleton.mp he; rintro b hb; cases hb; decide⟩
  have r₃ := r₂.next ⟨.exec (.on (some 0) (.trimLeft 0)) ⟨true, true⟩ _ _ nofun rfl, by simp [Small, SmallOp]⟩
  exact ⟨_, _, r₃, by decide, (buffers_refine r₃).1⟩

end Ak24.BufferRefinement
