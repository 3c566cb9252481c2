import Mathlib.Data.Nat.Digits.Defs

/-! Words as bytes, least significant first.

`bytesOf` takes a word apart and `value` puts a byte string together; a word cut to
`n` bytes is the word modulo `256 ^ n`. The two usual loops that load a word, adding
shifted bytes from the first on or shifting in bytes from the last on, both compute
`value` modulo the width they work in. -/
namespace MakerSpace.Codec.LittleEndian

/-- Byte `i` of a word. -/
def byte {w : Nat} (x : BitVec w) (i : Nat) : BitVec 8 := (x >>> (i * 8)).setWidth 8

/-- The low `n` bytes of a word. -/
def bytesOf {w : Nat} (x : BitVec w) (n : Nat) : List (BitVec 8) := (List.range n).map (byte x)

def value (bytes : List (BitVec 8)) : Nat := Nat.ofDigits 256 (bytes.map BitVec.toNat)

@[simp] theorem bytesOf_length {w : Nat} (x : BitVec w) (n : Nat) : (bytesOf x n).length = n := by
  simp [bytesOf]

@[simp] theorem value_nil : value [] = 0 := rfl

@[simp] theorem value_cons (b : BitVec 8) (bytes : List (BitVec 8)) :
    value (b :: bytes) = b.toNat + 256 * value bytes := by
  simp [value, Nat.ofDigits_cons]

theorem value_concat (bytes : List (BitVec 8)) (b : BitVec 8) :
    value (bytes ++ [b]) = value bytes + 256 ^ bytes.length * b.toNat := by
  simp [value, Nat.ofDigits_append]

theorem byte_toNat {w : Nat} (x : BitVec w) (i : Nat) :
    (byte x i).toNat = x.toNat / 256 ^ i % 256 := by
  rw [byte, BitVec.toNat_setWidth, BitVec.toNat_ushiftRight, Nat.shiftRight_eq_div_pow,
    Nat.mul_comm i 8, Nat.pow_mul]

/-- The low `n` bytes of a word are the word modulo `256 ^ n`. -/
theorem value_bytesOf {w : Nat} (x : BitVec w) (n : Nat) :
    value (bytesOf x n) = x.toNat % 256 ^ n := by
  induction n with
  | zero => simp [bytesOf, Nat.mod_one]
  | succ n ih =>
    have hconcat : bytesOf x (n + 1) = bytesOf x n ++ [byte x n] := by
      simp [bytesOf, List.range_succ]
    rw [hconcat, value_concat, ih, bytesOf_length, byte_toNat, Nat.mod_pow_succ]

/-! ### Loops that load -/

theorem ofNat_add_shifted {w : Nat} (v i : Nat) (b : BitVec 8) :
    BitVec.ofNat w v + b.setWidth w <<< (i * 8) = BitVec.ofNat w (v + 256 ^ i * b.toNat) := by
  apply BitVec.eq_of_toNat_eq
  simp only [BitVec.toNat_add, BitVec.toNat_ofNat, BitVec.toNat_shiftLeft, BitVec.toNat_setWidth,
    Nat.shiftLeft_eq]
  rw [Nat.mul_comm i 8, Nat.pow_mul, Nat.add_mod v, Nat.mul_comm (256 ^ i)]
  congr 1
  rw [Nat.mod_mul_mod]

/-- Adding shifted bytes, from the first on. -/
theorem load_adding {w : Nat} (n : Nat) (f : Fin n → BitVec 8) :
    Fin.foldl n (fun ts i => ts + (f i).setWidth w <<< (i.val * 8)) 0#w =
      BitVec.ofNat w (value (List.ofFn f)) := by
  induction n with
  | zero => simp
  | succ n ih =>
    rw [Fin.foldl_succ_last, List.ofFn_succ_last, value_concat, List.length_ofFn]
    have hinit := ih fun i => f i.castSucc
    simp only [Fin.val_castSucc, Fin.val_last] at hinit ⊢
    rw [hinit, ofNat_add_shifted]

/-- Loading a word's low bytes cuts it to them. -/
theorem load_bytesOf {v w : Nat} (x : BitVec v) (n : Nat) :
    Fin.foldl n (fun ts i => ts + (byte x i.val).setWidth w <<< (i.val * 8)) 0#w =
      BitVec.ofNat w (x.toNat % 256 ^ n) := by
  have hbytes : (List.ofFn fun i : Fin n => byte x i.val) = bytesOf x n :=
    List.ext_getElem (by simp) fun i _ _ => by simp [bytesOf]
  rw [load_adding, hbytes, value_bytesOf]

theorem shift_or_eq_add {w : Nat} (ts : BitVec w) (b : BitVec 8) :
    ts <<< 8 ||| b.setWidth w = ts <<< 8 + b.setWidth w := by
  refine (BitVec.add_eq_or_of_and_eq_zero _ _ ?_).symm
  ext i hi
  rcases Nat.lt_or_ge i 8 with hlow | hhigh
  · simp [hlow]
  · simp [hhigh]

/-- Shifting in bytes, from the last on. -/
theorem load_shifting {w : Nat} (bytes : List (BitVec 8)) :
    bytes.foldr (fun b (ts : BitVec w) => ts <<< 8 ||| b.setWidth w) 0#w = BitVec.ofNat w (value bytes) := by
  induction bytes with
  | nil => rfl
  | cons b rest ih =>
    rw [List.foldr_cons, ih, shift_or_eq_add, value_cons]
    apply BitVec.eq_of_toNat_eq
    simp [Nat.shiftLeft_eq, Nat.add_comm, Nat.mul_comm]

end MakerSpace.Codec.LittleEndian
