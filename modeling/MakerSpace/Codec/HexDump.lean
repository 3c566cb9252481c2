import Mathlib.Data.List.Basic
import Mathlib.Tactic.SplitIfs

/-! Hex dumps of byte strings.

A dump is a token `0xHH` and a blank for each byte, with uppercase digits. The
parser accepts exactly the dumps: it reads back what was dumped
(`parse_dump`), and a text it accepts is the dump of what it reads
(`parse_canonical`), so a text stands for one byte string at most and a byte
string has one dump. -/
namespace MakerSpace.Codec.HexDump

def hexDigit (n : Nat) : Char := if n < 10 then Char.ofNat (48 + n) else Char.ofNat (55 + n)

def hexValue (c : Char) : Option Nat :=
  if 48 ≤ c.toNat ∧ c.toNat ≤ 57 then some (c.toNat - 48)
  else if 65 ≤ c.toNat ∧ c.toNat ≤ 70 then some (c.toNat - 55)
  else none

def token (b : BitVec 8) : List Char :=
  ['0', 'x', hexDigit (b.toNat / 16), hexDigit (b.toNat % 16), ' ']

def dump (bytes : List (BitVec 8)) : List Char := bytes.flatMap token

def parseByte (zero x high low blank : Char) : Option (BitVec 8) :=
  if zero = '0' ∧ x = 'x' ∧ blank = ' ' then
    (hexValue high).bind fun h => (hexValue low).map fun l => BitVec.ofNat 8 (16 * h + l)
  else none

def parse : List Char → Option (List (BitVec 8))
  | [] => some []
  | zero :: x :: high :: low :: blank :: rest =>
    (parseByte zero x high low blank).bind fun b => (parse rest).map (b :: ·)
  | _ => none

theorem hexValue_hexDigit : ∀ n, n < 16 → hexValue (hexDigit n) = some n := by decide

theorem hexDigit_of_value {c : Char} {n : Nat} (h : hexValue c = some n) :
    n < 16 ∧ c = hexDigit n := by
  unfold hexValue at h
  split_ifs at h with hdec hhex
  · obtain rfl := Option.some.inj h
    refine ⟨by omega, ?_⟩
    rw [hexDigit, if_pos (by omega), Nat.add_sub_cancel' hdec.1, Char.ofNat_toNat]
  · obtain rfl := Option.some.inj h
    refine ⟨by omega, ?_⟩
    rw [hexDigit, if_neg (by omega), Nat.add_sub_cancel' (by omega), Char.ofNat_toNat]

/-- No digit is a line ending. -/
theorem hexDigit_printable : ∀ n, n < 16 → hexDigit n ≠ '\r' ∧ hexDigit n ≠ '\n' := by decide

theorem parseByte_token (b : BitVec 8) :
    parseByte '0' 'x' (hexDigit (b.toNat / 16)) (hexDigit (b.toNat % 16)) ' ' = some b := by
  have hb := b.isLt
  rw [parseByte, if_pos ⟨rfl, rfl, rfl⟩, hexValue_hexDigit _ (by omega),
    hexValue_hexDigit _ (by omega)]
  simp only [Option.bind_some, Option.map_some, Nat.div_add_mod, BitVec.ofNat_toNat,
    BitVec.setWidth_eq]

theorem token_of_parseByte {zero x high low blank : Char} {b : BitVec 8}
    (h : parseByte zero x high low blank = some b) : [zero, x, high, low, blank] = token b := by
  unfold parseByte at h
  split_ifs at h with hlit
  obtain ⟨rfl, rfl, rfl⟩ := hlit
  simp only [Option.bind_eq_some_iff, Option.map_eq_some_iff] at h
  obtain ⟨hv, hhigh, lv, hlow, rfl⟩ := h
  obtain ⟨hh, rfl⟩ := hexDigit_of_value hhigh
  obtain ⟨hl, rfl⟩ := hexDigit_of_value hlow
  have hnat : (BitVec.ofNat 8 (16 * hv + lv)).toNat = 16 * hv + lv := by
    rw [BitVec.toNat_ofNat]
    omega
  have hdiv : (16 * hv + lv) / 16 = hv := by omega
  have hmod : (16 * hv + lv) % 16 = lv := by omega
  rw [token, hnat, hdiv, hmod]

@[simp] theorem dump_nil : dump [] = [] := rfl

theorem dump_cons (b : BitVec 8) (rest : List (BitVec 8)) : dump (b :: rest) = token b ++ dump rest :=
  rfl

/-- A dump reads back as the bytes dumped. -/
theorem parse_dump (bytes : List (BitVec 8)) : parse (dump bytes) = some bytes := by
  induction bytes with
  | nil => rfl
  | cons b rest ih =>
    rw [dump_cons, token]
    simp only [List.cons_append, List.nil_append, parse, parseByte_token, ih, Option.bind_some,
      Option.map_some]

/-- Only a dump reads back at all. -/
theorem parse_canonical (text : List Char) (bytes : List (BitVec 8)) (h : parse text = some bytes) :
    text = dump bytes := by
  induction text using parse.induct generalizing bytes with
  | case1 =>
    obtain rfl : [] = bytes := Option.some.inj h
    rfl
  | case2 zero x high low blank rest ih =>
    rw [parse] at h
    simp only [Option.bind_eq_some_iff, Option.map_eq_some_iff] at h
    obtain ⟨b, hb, bytes', hrest, rfl⟩ := h
    rw [dump_cons, ← token_of_parseByte hb, ← ih bytes' hrest]
    rfl
  | case3 text hnil hfive => simp [parse] at h

theorem parse_eq_some_iff (text : List Char) (bytes : List (BitVec 8)) :
    parse text = some bytes ↔ text = dump bytes :=
  ⟨parse_canonical text bytes, fun h => h ▸ parse_dump bytes⟩

/-- A dump keeps to one line. -/
theorem dump_printable (bytes : List (BitVec 8)) : ∀ c ∈ dump bytes, c ≠ '\r' ∧ c ≠ '\n' := by
  intro c hc
  obtain ⟨b, -, hb⟩ := List.mem_flatMap.mp hc
  have hlt := b.isLt
  simp only [token, List.mem_cons, List.not_mem_nil, or_false] at hb
  rcases hb with rfl | rfl | rfl | rfl | rfl
  · decide
  · decide
  · exact hexDigit_printable _ (by omega)
  · exact hexDigit_printable _ (by omega)
  · decide

end MakerSpace.Codec.HexDump
