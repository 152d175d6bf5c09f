import Mathlib.Data.String.Basic
import SplitFleet.Lib.Python

set_option autoImplicit false

namespace SplitFleet.Lib

abbrev Bytes := List UInt8

/-! ### Numbers of four bytes, the first one highest -/

def be32 (n : ℕ) : Bytes :=
  [UInt8.ofNat (n / 2 ^ 24), UInt8.ofNat (n / 2 ^ 16), UInt8.ofNat (n / 2 ^ 8), UInt8.ofNat n]

def ofBe32 (b : Bytes) : ℕ := b.foldl (fun n x ↦ n * 256 + x.toNat) 0

@[simp] theorem be32_length (n : ℕ) : (be32 n).length = 4 := rfl

theorem ofBe32_be32 {n : ℕ} (h : n < 2 ^ 32) : ofBe32 (be32 n) = n := by
  simp only [ofBe32, be32, List.foldl, UInt8.toNat_ofNat']
  omega

/-! ### Text -/

/-- `s.encode("utf-8")`. -/
def utf8 (s : String) : Bytes := s.toByteArray.data.toList

/-- `b.decode("utf-8")`. -/
def utf8Decode (b : Bytes) : Except PyError String :=
  match String.fromUTF8? ⟨b.toArray⟩ with
  | some s => .ok s
  | none => .error (.raised "UnicodeDecodeError" "'utf-8' codec can't decode bytes")

theorem utf8Decode_utf8 (s : String) : utf8Decode (utf8 s) = .ok s := by
  have h : String.fromUTF8? ⟨(utf8 s).toArray⟩ = some s := by
    rw [utf8, Array.toArray_toList, String.fromUTF8?]
    exact dif_pos s.isValidUTF8
  rw [utf8Decode, h]

end SplitFleet.Lib
