/-
Webserv/Basic.lean

Bytes, `size_t` arithmetic and exceptions: the ground the models of the C++
classes stand on.

A `std::string` is the list of its bytes.  Its length never exceeds
`stringMaxSize` (`std::string::max_size()` of a 64-bit libstdc++); appending past
that throws `std::length_error`, so the bound is an invariant of every string
the program builds and not a side condition.  A `const char*` into a string is
the list of the bytes from the pointer to the end of the string; reading at the
end of that list gives the terminating NUL.

`size_t` values are natural numbers below `sizeMod`; additions and subtractions
that the source makes on them wrap, and are written with `addSize`, `subSize`.
-/
import Mathlib

namespace Webserv

/-! ### Bytes -/

/-- A `char`, read as an unsigned byte. -/
abbrev Byte := UInt8

/-- The contents of a `std::string`. -/
abbrev Bytes := List Byte

/-- The bytes of an ASCII literal of the source. -/
def bytes (s : String) : Bytes := s.toList.map fun c => c.toNat.toUInt8

/-- `'\r'`. -/
abbrev CR : Byte := 13

/-- `'\n'`. -/
abbrev LF : Byte := 10

/-- `"\r\n"`. -/
abbrev CRLF : Bytes := [CR, LF]

/-- `' '`. -/
abbrev SP : Byte := 32

/-- `':'`. -/
abbrev COLON : Byte := 58

/-- `'/'`. -/
abbrev SLASH : Byte := 47

/-- `'.'`. -/
abbrev DOT : Byte := 46

/-- `*p` for a pointer into a C string: the terminating NUL at the end. -/
def deref : Bytes → Byte
  | [] => 0
  | c :: _ => c

@[simp] theorem deref_nil : deref [] = 0 := rfl

@[simp] theorem deref_cons (c : Byte) (cs : Bytes) : deref (c :: cs) = c := rfl

/-- `std::string::max_size()`: `PTRDIFF_MAX` on the 64-bit target. -/
def stringMaxSize : Nat := 2 ^ 63 - 1

/-! ### `size_t` and `ptrdiff_t` -/

/-- The modulus of `size_t`. -/
def sizeMod : Nat := 2 ^ 64

/-- `a + b` in `size_t`. -/
def addSize (a b : Nat) : Nat := (a + b) % sizeMod

/-- `a - b` in `size_t`. -/
def subSize (a b : Nat) : Nat := (a + (sizeMod - b)) % sizeMod

/-- `static_cast<ptrdiff_t>(n)`. -/
def toPtrdiff (n : Nat) : Int := if n < 2 ^ 63 then n else (n : Int) - sizeMod

/-- `static_cast<size_t>(i)`. -/
def toSize (i : Int) : Nat := (i % (sizeMod : Int)).toNat

/-- `static_cast<int>(i)`. -/
def toInt (i : Int) : Int := (i + 2 ^ 31) % 2 ^ 32 - 2 ^ 31

theorem addSize_of_lt {a b : Nat} (h : a + b < sizeMod) : addSize a b = a + b :=
  Nat.mod_eq_of_lt h

theorem subSize_of_le {a b : Nat} (hb : b ≤ a) (ha : a < sizeMod) : subSize a b = a - b := by
  unfold subSize sizeMod at *
  omega

theorem toPtrdiff_of_lt {n : Nat} (h : n < 2 ^ 63) : toPtrdiff n = n := if_pos h

theorem toSize_natCast {n : Nat} (h : n < sizeMod) : toSize (n : Int) = n := by
  unfold toSize sizeMod at *
  omega

theorem toSize_eq {i : Int} (h : 0 ≤ i) (hlt : i < sizeMod) : (toSize i : Int) = i := by
  unfold toSize sizeMod at *
  omega

theorem toSize_toPtrdiff {n : Nat} (h : n < sizeMod) : toSize (toPtrdiff n) = n := by
  unfold toSize toPtrdiff sizeMod at *
  split_ifs <;> omega

theorem toPtrdiff_ne {n : Nat} (h : n < sizeMod - 1) : toPtrdiff n ≠ -1 := by
  unfold toPtrdiff sizeMod at *
  split_ifs <;> omega

theorem toPtrdiff_eq_zero {n : Nat} (h : n < sizeMod) : toPtrdiff n = 0 ↔ n = 0 := by
  unfold toPtrdiff sizeMod at *
  split_ifs <;> omega

end Webserv
