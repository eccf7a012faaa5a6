/-
Webserv/StringUtils.lean

`lib::utils`: lower-casing, reading and printing integers.

`operator>>` into an integer skips white space, takes an optional sign, then the
longest run of digits; it fails without digits and on overflow.  `StrToLong` and
`StrToUnsignedShort` accept only if that run reaches the end of the string.
-/
import Webserv.Http
import Webserv.Theory.Numeral

namespace Webserv

/-! ### Letter case -/

/-- `std::tolower` in the C locale. -/
def toLower (c : Byte) : Byte := if 65 ≤ c && c ≤ 90 then c + 32 else c

/-- `lib::utils::ToLowerAscii`. -/
def toLowerAscii (s : Bytes) : Bytes := s.map toLower

/-! ### Reading integers -/

/-- `std::isspace` in the C locale. -/
def isSpace (c : Byte) : Bool := c == 32 || (9 ≤ c && c ≤ 13)

/-- `std::isdigit`. -/
def isDigit (c : Byte) : Bool := 48 ≤ c && c ≤ 57

/-- The value of a decimal digit. -/
def digitVal (c : Byte) : Nat := c.toNat - 48

/-- The value of a run of decimal digits. -/
def decimalVal (ds : Bytes) : Nat := Numeral.value 10 digitVal ds

/-- The sign and the digits `operator>>` reads from a stream holding `s`, and
what it leaves. -/
def scanInteger (s : Bytes) : Bool × Bytes × Bytes :=
  let s := s.dropWhile isSpace
  let (negative, s) :=
    match s with
    | 45 :: rest => (true, rest)
    | 43 :: rest => (false, rest)
    | _ => (false, s)
  (negative, s.takeWhile isDigit, s.dropWhile isDigit)

/-- `lib::utils::StrToLong`. -/
def strToLong (s : Bytes) : Option Int :=
  match scanInteger s with
  | (_, [], _) => none
  | (_, _ :: _, _ :: _) => none
  | (false, ds, []) => if decimalVal ds ≤ 2 ^ 63 - 1 then some (decimalVal ds) else none
  | (true, ds, []) => if decimalVal ds ≤ 2 ^ 63 then some (-(decimalVal ds : Int)) else none

/-- `lib::utils::StrToUnsignedShort`.  A negative number is read modulo 2^16. -/
def strToUnsignedShort (s : Bytes) : Option Nat :=
  match scanInteger s with
  | (_, [], _) => none
  | (_, _ :: _, _ :: _) => none
  | (false, ds, []) => if decimalVal ds ≤ 65535 then some (decimalVal ds) else none
  | (true, ds, []) =>
      if decimalVal ds ≤ 65535 then some ((65536 - decimalVal ds) % 65536) else none

/-! ### Printing integers -/

/-- The decimal numeral of a natural number. -/
def natToString (n : Nat) : Bytes := (Nat.toDigits 10 n).map fun c => c.toNat.toUInt8

/-- `lib::utils::ToString` and `operator<<` on an `int`. -/
def intToString : Int → Bytes
  | .ofNat n => natToString n
  | .negSucc n => 45 :: natToString (n + 1)

theorem isDigit_iff {c : Byte} : isDigit c = true ↔ 48 ≤ c.toNat ∧ c.toNat ≤ 57 := by
  simp [isDigit, UInt8.le_iff_toNat_le]

/-- The bytes of a numeral, one for each of its characters. -/
theorem toNat_of_mem_toDigits {n : Nat} {c : Char} (h : c ∈ Nat.toDigits 10 n) :
    48 ≤ c.toNat ∧ c.toNat ≤ 57 ∧ c.toNat.toUInt8.toNat = c.toNat := by
  obtain ⟨hlo, hhi⟩ := Char.isDigit_iff_toNat.mp
    (Nat.isDigit_of_mem_toDigits (by decide) (by decide) h)
  have hlo : 48 ≤ c.toNat := hlo
  have hhi : c.toNat ≤ 57 := hhi
  refine ⟨hlo, hhi, ?_⟩
  show c.toNat % 256 = c.toNat
  omega

theorem isDigit_natToString {n : Nat} {c : Byte} (h : c ∈ natToString n) : isDigit c = true := by
  obtain ⟨d, hd, rfl⟩ := List.mem_map.mp h
  obtain ⟨hlo, hhi, heq⟩ := toNat_of_mem_toDigits hd
  exact isDigit_iff.mpr ⟨by omega, by omega⟩

theorem natToString_ne_nil (n : Nat) : natToString n ≠ [] := by
  simp [natToString, Nat.toDigits_ne_nil]

/-- **Reading a numeral back.** -/
theorem decimalVal_natToString (n : Nat) : decimalVal (natToString n) = n := by
  have hfold : ∀ (cs : List Char), (∀ c ∈ cs, c ∈ Nat.toDigits 10 n) → ∀ m,
      Numeral.valueFrom 10 digitVal m (cs.map fun c => c.toNat.toUInt8)
        = Nat.ofDigitChars 10 cs m := by
    intro cs
    induction cs with
    | nil => exact fun _ m => (Nat.ofDigitChars_nil).symm
    | cons c cs ih =>
        intro h m
        obtain ⟨hc, hcs⟩ := List.forall_mem_cons.mp h
        obtain ⟨-, -, heq⟩ := toNat_of_mem_toDigits hc
        rw [List.map_cons, Numeral.valueFrom_cons, ih hcs, Nat.ofDigitChars_cons, digitVal, heq,
          Nat.mul_comm m]
        rfl
  rw [decimalVal, Numeral.value, natToString, hfold _ (fun _ h => h),
    Nat.ofDigitChars_ten_toDigits]

/-! ### Plain numerals -/

theorem natToString_of_lt {n : Nat} (h : n < 10) : natToString n = [(48 + n).toUInt8] := by
  rw [natToString, Nat.toDigits_of_lt_base h, List.map_singleton,
    Nat.toNat_digitChar_of_lt_ten h]

theorem natToString_append {n d : Nat} (hn : 0 < n) (hd : d < 10) :
    natToString n ++ natToString d = natToString (10 * n + d) := by
  rw [natToString, natToString, natToString, ← List.map_append,
    Nat.toDigits_append_toDigits (by decide) hn hd]

/-- A positive number is printed without leading zeros. -/
theorem natToString_head {n : Nat} (hn : 0 < n) : (natToString n).head? ≠ some 48 := by
  induction n using Nat.strongRecOn with
  | ind n ih =>
      by_cases hlt : n < 10
      · rw [natToString_of_lt hlt]
        intro h
        have h := congrArg UInt8.toNat (Option.some.inj h)
        have hval : (48 + n).toUInt8.toNat = 48 + n := by
          show (48 + n) % 256 = 48 + n
          omega
        rw [hval] at h
        have h48 : (48 : Byte).toNat = 48 := rfl
        omega
      · have hquot : 0 < n / 10 := by omega
        have hcut := @natToString_append (n / 10) (n % 10) hquot (Nat.mod_lt _ (by decide))
        rw [Nat.div_add_mod] at hcut
        rw [← hcut, List.head?_append_of_ne_nil _ (natToString_ne_nil _)]
        exact ih _ (by omega) hquot

/-- Digits with a leading zero only in `"0"`. -/
structure IsPlainNumeral (s : Bytes) : Prop where
  nonempty : s ≠ []
  digits : ∀ c ∈ s, isDigit c = true
  leading : 1 < s.length → s.head? ≠ some 48

/-- **A plain numeral is printed back.** -/
theorem natToString_decimalVal {s : Bytes} (h : IsPlainNumeral s) :
    natToString (decimalVal s) = s := by
  induction s using List.reverseRecOn with
  | nil => exact absurd rfl h.nonempty
  | append_singleton s d ih =>
      obtain ⟨hlo, hhi⟩ := isDigit_iff.mp (h.digits d (by simp))
      have hlast : natToString (digitVal d) = [d] := by
        have hlt : d.toNat - 48 < 10 := by omega
        rw [digitVal, natToString_of_lt hlt, Nat.add_sub_cancel' hlo]
        exact congrArg (fun c => [c]) (UInt8.ofNat_toNat)
      have hval : decimalVal (s ++ [d]) = 10 * decimalVal s + digitVal d := by
        rw [decimalVal, Numeral.value, Numeral.valueFrom_append, Nat.mul_comm]
        rfl
      by_cases hs : s = []
      · rw [hs] at hval ⊢
        rw [hval]
        show natToString (10 * 0 + digitVal d) = [d]
        rw [Nat.mul_zero, Nat.zero_add, hlast]
      · have hlen : 1 < (s ++ [d]).length := by
          have := List.length_pos_of_ne_nil hs
          simp only [List.length_append, List.length_singleton]
          omega
        have hhead := h.leading hlen
        rw [List.head?_append_of_ne_nil _ hs] at hhead
        -- the digits in front have a positive value, for the first is not 0
        have hpos : 0 < decimalVal s := by
          refine Nat.pos_of_ne_zero fun hzero => hhead ?_
          have hzeros := (Numeral.value_eq_zero_iff digitVal (by decide) s).mp hzero
          obtain ⟨c, cs, rfl⟩ := List.exists_cons_of_ne_nil hs
          obtain ⟨hc, -⟩ := isDigit_iff.mp (h.digits c (by simp))
          have hcval : c.toNat - 48 = 0 := hzeros c List.mem_cons_self
          refine congrArg some (UInt8.toNat_inj.mp ?_)
          show c.toNat = 48
          omega
        have ih := ih
          { nonempty := hs
            digits := fun c hc => h.digits c (List.mem_append_left _ hc)
            leading := fun _ => hhead }
        rw [hval, ← natToString_append hpos (by rw [digitVal]; omega), ih, hlast]

theorem isPlainNumeral_natToString (n : Nat) : IsPlainNumeral (natToString n) where
  nonempty := natToString_ne_nil n
  digits := fun _ hc => isDigit_natToString hc
  leading := by
    intro hlen
    apply natToString_head
    refine Nat.pos_of_ne_zero fun h => ?_
    rw [h] at hlen
    exact absurd hlen (by decide)

/-- What `operator>>` takes in front of the digits. -/
def isBlankOrSign (c : Byte) : Bool := isSpace c || c == 43 || c == 45

/-- A text that does not start with white space or a sign. -/
def Plain (s : Bytes) : Prop := ∀ c ∈ s.head?, isBlankOrSign c = false

theorem plain_of_digits {s : Bytes} (h : ∀ c ∈ s, isDigit c = true) : Plain s := by
  intro c hc
  obtain ⟨hlo, hhi⟩ := isDigit_iff.mp (h c (List.mem_of_mem_head? hc))
  have hne : ∀ d : Byte, d.toNat < 48 → c ≠ d := by
    intro d hd hcd
    rw [hcd] at hlo
    omega
  simp [isBlankOrSign, isSpace, hne 32 (by decide), hne 43 (by decide), hne 45 (by decide),
    UInt8.le_iff_toNat_le]
  omega

/-- A text that starts with neither is taken as it stands. -/
theorem scanInteger_plain {s : Bytes} (h : Plain s) :
    scanInteger s = (false, s.takeWhile isDigit, s.dropWhile isDigit) := by
  rcases s with - | ⟨c, s⟩
  · rfl
  · have hc := h c rfl
    simp only [isBlankOrSign, Bool.or_eq_false_iff, beq_eq_false_iff_ne] at hc
    obtain ⟨⟨hspace, hplus⟩, hminus⟩ := hc
    have hskip : (c :: s).dropWhile isSpace = c :: s := by simp [hspace]
    have hsign : (match c :: s with
        | 45 :: rest => (true, rest)
        | 43 :: rest => (false, rest)
        | _ => (false, c :: s)) = (false, c :: s) := by
      split
      · rename_i heq
        exact absurd (List.cons.inj heq).1 hminus
      · rename_i heq
        exact absurd (List.cons.inj heq).1 hplus
      · rfl
    simp only [scanInteger, hskip, hsign]

/-- A run of digits is read whole. -/
theorem scanInteger_digits {ds : Bytes} (h : ∀ c ∈ ds, isDigit c = true) :
    scanInteger ds = (false, ds, []) := by
  rw [scanInteger_plain (plain_of_digits h), List.takeWhile_eq_self_iff.mpr h,
    List.dropWhile_eq_nil_iff.mpr h]

theorem strToLong_natToString {n : Nat} (h : n ≤ 2 ^ 63 - 1) :
    strToLong (natToString n) = some (n : Int) := by
  have hscan := scanInteger_digits fun c hc => @isDigit_natToString n c hc
  obtain ⟨d, ds, hds⟩ := List.exists_cons_of_ne_nil (natToString_ne_nil n)
  have hval := decimalVal_natToString n
  rw [hds] at hscan hval
  rw [hds, strToLong, hscan]
  simp only [hval, if_pos h]

theorem strToLong_le {s : Bytes} {n : Int} (h : strToLong s = some n) : n ≤ 2 ^ 63 - 1 := by
  unfold strToLong at h
  split at h
  · cases h
  · cases h
  · split_ifs at h with hle
    cases h
    omega
  · split_ifs at h with hle
    cases h
    omega

/-! ### Tokens -/

/-- `lib::utils::GetFirstToken` with a one-byte delimiter. -/
def getFirstToken (s : Bytes) (delimiter : Byte) : Option Bytes :=
  if delimiter ∈ s then some (s.takeWhile (· ≠ delimiter)) else none

end Webserv
