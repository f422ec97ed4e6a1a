import Mathlib

namespace Ak24.Decimal

def digitsOf (b n : Nat) : List Nat := if n = 0 then [0] else (Nat.digits b n).reverse

def digitByte (d : Nat) : UInt8 := UInt8.ofNat (if d < 10 then 48 + d else 87 + d)

def isDigit (c : UInt8) : Bool := 48 ≤ c.toNat ∧ c.toNat ≤ 57

def decimal (n : Nat) : List UInt8 := (digitsOf 10 n).map digitByte

def readDigits : Nat → List UInt8 → Nat
  | acc, [] => acc
  | acc, c :: text => if isDigit c then readDigits (acc * 10 + (c.toNat - 48)) text else acc

def hexField : Nat → Nat → List UInt8
  | 0, _ => []
  | w + 1, n => hexField w (n / 16) ++ [digitByte (n % 16)]

variable {b n m d w acc : Nat} {digits : List Nat} {rest : List UInt8}

theorem digitByte_toNat (hd : d < 16) : (digitByte d).toNat = if d < 10 then 48 + d else 87 + d := by
  rw [digitByte, UInt8.toNat_ofNat']
  split_ifs <;> exact Nat.mod_eq_of_lt (by omega)

theorem isDigit_digitByte (hd : d < 10) : isDigit (digitByte d) = true := by
  rw [isDigit, decide_eq_true_eq, digitByte_toNat (by omega), if_pos hd]
  omega

theorem digitsOf_lt (hb : 1 < b) (h : d ∈ digitsOf b n) : d < b := by
  rw [digitsOf] at h
  split_ifs at h
  · rw [List.mem_singleton.mp h]
    omega
  · exact Nat.digits_lt_base hb (List.mem_reverse.mp h)

theorem digitsOf_ne_nil (b n : Nat) : digitsOf b n ≠ [] := by
  rw [digitsOf]
  split_ifs with hn
  · exact List.cons_ne_nil _ _
  · exact List.reverse_ne_nil_iff.mpr (Nat.digits_ne_nil_iff_ne_zero.mpr hn)

theorem foldl_digitsOf (b n : Nat) : (digitsOf b n).foldl (fun acc d => acc * b + d) 0 = n := by
  rw [digitsOf]
  split_ifs with hn
  · simp [hn]
  · rw [List.foldl_reverse]
    calc List.foldr (fun d acc => acc * b + d) 0 (Nat.digits b n)
        = List.foldr (fun d acc => d + b * acc) 0 (Nat.digits b n) := by
          congr 1
          funext d acc
          rw [Nat.mul_comm, Nat.add_comm]
      _ = Nat.ofDigits b (Nat.digits b n) := by
          rw [Nat.ofDigits_eq_foldr]
          rfl
      _ = n := Nat.ofDigits_digits b n

section Decimal

theorem isDigit_of_mem_decimal {c : UInt8} (h : c ∈ decimal n) : isDigit c = true := by
  obtain ⟨d, hd, rfl⟩ := List.mem_map.mp h
  exact isDigit_digitByte (digitsOf_lt (by norm_num) hd)

theorem decimal_ne_nil (n : Nat) : decimal n ≠ [] := by
  rw [decimal, Ne, List.map_eq_nil_iff]
  exact digitsOf_ne_nil 10 n

theorem readDigits_map (hdigits : ∀ d ∈ digits, d < 10) (hrest : ∀ c ∈ rest.head?, isDigit c = false) (acc : Nat) :
    readDigits acc (digits.map digitByte ++ rest) = digits.foldl (fun acc d => acc * 10 + d) acc := by
  induction digits generalizing acc with
  | nil =>
      cases rest with
      | nil => rfl
      | cons c rest =>
          rw [List.map_nil, List.nil_append, readDigits, if_neg (by rw [hrest c rfl]; exact Bool.false_ne_true)]
          rfl
  | cons d digits ih =>
      have hd := hdigits d List.mem_cons_self
      rw [List.map_cons, List.cons_append, readDigits, if_pos (isDigit_digitByte hd),
        digitByte_toNat (by omega), if_pos hd, Nat.add_sub_cancel_left,
        ih (fun e he => hdigits e (List.mem_cons_of_mem d he)), List.foldl_cons]

theorem readDigits_decimal (n : Nat) (hrest : ∀ c ∈ rest.head?, isDigit c = false) :
    readDigits 0 (decimal n ++ rest) = n := by
  rw [decimal, readDigits_map (fun d hd => digitsOf_lt (by norm_num) hd) hrest, foldl_digitsOf]

end Decimal

end Ak24.Decimal
