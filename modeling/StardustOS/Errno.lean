import Mathlib.Algebra.Order.Ring.Nat

/-!
# Error codes

The codes of `errno.h` that the modelled functions return, negated, as `int`.
Functions with an unsigned result return the same value modulo `2^32`
(`asU32`).
-/

namespace StardustOS

def ENOMEM : Int := 1
def ECHILD : Int := 2
def EEXIST : Int := 3
def ENODEV : Int := 4
def ENAMETOOLONG : Int := 5
def EIO : Int := 6
def EINVAL : Int := 7
def EINPROGRESS : Int := 8
def EINTR : Int := 9
def ENOSYS : Int := 10
def EISDIR : Int := 12
def EBUSY : Int := 13
def ENOENT : Int := 14
def EMFILE : Int := 15

/-- `NAME_MAX`: the size of a name field, its NUL included. -/
def NAME_MAX : Nat := 128

/-- An `int` returned as `unsigned int`. -/
def asU32 (r : Int) : Nat := (r % 2 ^ 32).toNat

/-- A negative `int`. -/
abbrev ErrorCode := { r : Int // -2 ^ 31 ≤ r ∧ r < 0 }

/-- `-e` for an error code `e` of `errno.h`. -/
def errno (e : Int) (h : 0 < e ∧ e ≤ 15 := by decide) : ErrorCode := ⟨-e, by omega⟩

/-! The ranges of codes that definitions of several modules share. -/

theorem ENOMEM_range : 0 < ENOMEM ∧ ENOMEM ≤ 15 := by decide

theorem EEXIST_range : 0 < EEXIST ∧ EEXIST ≤ 15 := by decide

theorem EINVAL_range : 0 < EINVAL ∧ EINVAL ≤ 15 := by decide

theorem ENOSYS_range : 0 < ENOSYS ∧ ENOSYS ≤ 15 := by decide

theorem EISDIR_range : 0 < EISDIR ∧ EISDIR ≤ 15 := by decide

theorem ENOENT_range : 0 < ENOENT ∧ ENOENT ≤ 15 := by decide

end StardustOS
