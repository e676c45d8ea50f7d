import Mathlib.Data.List.Forall2
import Mathlib.Data.Nat.Bitwise
import Mathlib.Tactic.Common

/-!
# Fields of a word

A word that is divided into fields of given widths, the first one at the top. The fields
are cut out by shifts and masks, and put together again by shifts and `or`.

## Main definitions

- `BitFields.pack`: the word of the values of fields
- `BitFields.unpack`: the values of the fields of a word
- `BitFields.Fits`: values that the widths can hold

## Main results

- `BitFields.unpack_pack`: values that fit are read back
- `BitFields.pack_unpack`: the fields determine the bits that they cover
-/

namespace BitFields

def pack : List ℕ → List ℕ → ℕ
  | _ :: widths, v :: values => v <<< widths.sum ||| pack widths values
  | _, _ => 0

def unpack : List ℕ → ℕ → List ℕ
  | [], _ => []
  | w :: widths, n => ((n >>> widths.sum) &&& (2 ^ w - 1)) :: unpack widths n

/-- The values have the widths. -/
def Fits (widths values : List ℕ) : Prop := List.Forall₂ (fun w v => v < 2 ^ w) widths values

/-- A field above lower bits. -/
theorem shiftLeft_or {k n : ℕ} (h : n < 2 ^ k) (v : ℕ) : v <<< k ||| n = v * 2 ^ k + n := by
  rw [← Nat.shiftLeft_add_eq_or_of_lt h, Nat.shiftLeft_eq]

theorem unpack_cons (w : ℕ) (widths : List ℕ) (n : ℕ) :
    unpack (w :: widths) n = n / 2 ^ widths.sum % 2 ^ w :: unpack widths n := by
  rw [unpack, Nat.and_two_pow_sub_one_eq_mod, Nat.shiftRight_eq_div_pow]

theorem unpack_fits (widths : List ℕ) (n : ℕ) : Fits widths (unpack widths n) := by
  induction widths with
  | nil => exact List.Forall₂.nil
  | cons w widths ih =>
    rw [unpack_cons]
    exact List.Forall₂.cons (Nat.mod_lt _ (Nat.two_pow_pos w)) ih

theorem pack_lt {widths values : List ℕ} (h : Fits widths values) :
    pack widths values < 2 ^ widths.sum := by
  induction h with
  | nil => exact Nat.one_pos
  | @cons w v widths values hv _ ih =>
    rw [pack, shiftLeft_or ih, List.sum_cons, Nat.pow_add]
    have hmul : (v + 1) * 2 ^ widths.sum ≤ 2 ^ w * 2 ^ widths.sum := Nat.mul_le_mul_right _ hv
    rw [Nat.add_mul, Nat.one_mul] at hmul
    omega

/-- Fields depend on the bits that they cover, and on no others. -/
theorem unpack_congr {widths : List ℕ} {m n : ℕ}
    (h : m % 2 ^ widths.sum = n % 2 ^ widths.sum) : unpack widths m = unpack widths n := by
  induction widths with
  | nil => rfl
  | cons w widths ih =>
    rw [List.sum_cons, Nat.add_comm, Nat.pow_add] at h
    have hhead := congrArg (· / 2 ^ widths.sum) h
    have htail := congrArg (· % 2 ^ widths.sum) h
    simp only [Nat.mod_mul_right_div_self] at hhead
    simp only [Nat.mod_mul_right_mod] at htail
    rw [unpack_cons, unpack_cons, hhead, ih htail]

/-- Values that fit are read back. -/
theorem unpack_pack {widths values : List ℕ} (h : Fits widths values) :
    unpack widths (pack widths values) = values := by
  induction h with
  | nil => rfl
  | @cons w v widths values hv hvalues ih =>
    have hlt := pack_lt hvalues
    have htail : unpack widths (v * 2 ^ widths.sum + pack widths values) =
        unpack widths (pack widths values) :=
      unpack_congr (Nat.mul_add_mod_self_right ..)
    have hhead : (v * 2 ^ widths.sum + pack widths values) / 2 ^ widths.sum = v := by
      rw [Nat.mul_comm, Nat.mul_add_div (Nat.two_pow_pos _), Nat.div_eq_of_lt hlt, Nat.add_zero]
    rw [pack, shiftLeft_or hlt, unpack_cons, htail, ih, hhead, Nat.mod_eq_of_lt hv]

/-- The fields of a word put together are the bits that they cover. -/
theorem pack_unpack (widths : List ℕ) (n : ℕ) :
    pack widths (unpack widths n) = n % 2 ^ widths.sum := by
  induction widths with
  | nil => exact (Nat.mod_one n).symm
  | cons w widths ih =>
    have hlt : n % 2 ^ widths.sum < 2 ^ widths.sum := Nat.mod_lt _ (Nat.two_pow_pos _)
    rw [unpack_cons, pack, ih, shiftLeft_or hlt, List.sum_cons, Nat.add_comm w, Nat.pow_add,
      Nat.mod_mul, Nat.mul_comm, Nat.add_comm]

end BitFields
