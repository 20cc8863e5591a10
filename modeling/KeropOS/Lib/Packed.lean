import Mathlib.Algebra.BigOperators.Fin
import Mathlib.Logic.Equiv.Fin.Basic

/-!
# Packed byte layouts

A `Layout α n` reads and writes the values of `α` in exactly `n` bytes, and the two are inverse.
Layouts compose as C's packed records and arrays do, so a record's round trips come from those of
its fields.

* `byte`, `u16`, `u32` (little-endian), `bytes`;
* `pair`, `array`, `map`.
-/

namespace Packed

/-- `n` bytes. -/
abbrev Bytes (n : ℕ) := Fin n → UInt8

/-- A packed layout of `α` in `n` bytes. -/
structure Layout (α : Type*) (n : ℕ) where
  decode : Bytes n → α
  encode : α → Bytes n
  decode_encode : ∀ a, decode (encode a) = a
  encode_decode : ∀ b, encode (decode b) = b

namespace Layout

variable {α β : Type*} {m n : ℕ}

attribute [simp] decode_encode encode_decode

/-- The layout of an equivalence. -/
def ofEquiv (e : Bytes n ≃ α) : Layout α n where
  decode := e
  encode := e.symm
  decode_encode := e.apply_symm_apply
  encode_decode := e.symm_apply_apply

/-- Read the same bytes as another type. -/
def map (L : Layout α n) (e : α ≃ β) : Layout β n where
  decode b := e (L.decode b)
  encode a := L.encode (e.symm a)
  decode_encode a := by simp
  encode_decode b := by simp

/-- One field after another, without padding. -/
def pair (L : Layout α m) (M : Layout β n) : Layout (α × β) (m + n) where
  decode b := (L.decode fun i => b (Fin.castAdd n i), M.decode fun i => b (Fin.natAdd m i))
  encode p := Fin.append (L.encode p.1) (M.encode p.2)
  decode_encode p := by simp
  encode_decode b := by simp [Fin.append_castAdd_natAdd]

/-- `k` values one after another. -/
def array (k : ℕ) (L : Layout α n) : Layout (Fin k → α) (k * n) where
  decode b i := L.decode fun j => b (finProdFinEquiv (i, j))
  encode t x := L.encode (t (finProdFinEquiv.symm x).1) (finProdFinEquiv.symm x).2
  decode_encode t := by
    funext i
    simp only [Equiv.symm_apply_apply]
    exact L.decode_encode (t i)
  encode_decode b := by
    funext x
    simp only [encode_decode]
    exact congrArg b (finProdFinEquiv.apply_symm_apply x)

end Layout

/-- The value of a byte. -/
def uint8EquivFin : UInt8 ≃ Fin 256 where
  toFun := UInt8.toFin
  invFun := UInt8.ofFin
  left_inv _ := rfl
  right_inv _ := rfl

/-- The value of a 16-bit word. -/
def uint16EquivFin : UInt16 ≃ Fin (256 ^ 2) where
  toFun := UInt16.toFin
  invFun := UInt16.ofFin
  left_inv _ := rfl
  right_inv _ := rfl

/-- The value of a 32-bit word. -/
def uint32EquivFin : UInt32 ≃ Fin (256 ^ 4) where
  toFun := UInt32.toFin
  invFun := UInt32.ofFin
  left_inv _ := rfl
  right_inv _ := rfl

/-- `k` bytes as a number, least significant byte first. -/
def littleEndian (k : ℕ) : Bytes k ≃ Fin (256 ^ k) :=
  (Equiv.piCongrRight fun _ => uint8EquivFin).trans finFunctionFinEquiv

/-- Raw bytes. -/
def bytes (n : ℕ) : Layout (Bytes n) n := Layout.ofEquiv (Equiv.refl _)

/-- One byte. -/
def byte : Layout UInt8 1 := Layout.ofEquiv (Equiv.funUnique (Fin 1) UInt8)

/-- A little-endian 16-bit word. -/
def u16 : Layout UInt16 2 := Layout.ofEquiv ((littleEndian 2).trans uint16EquivFin.symm)

/-- A little-endian 32-bit word. -/
def u32 : Layout UInt32 4 := Layout.ofEquiv ((littleEndian 4).trans uint32EquivFin.symm)

end Packed
