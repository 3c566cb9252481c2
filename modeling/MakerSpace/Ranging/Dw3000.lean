import MakerSpace.Codec.LittleEndian
import Mathlib.Tactic.SplitIfs

/-! What the two ranging sketches share: the radio driver's calls and the helpers of
`arduino/libraries/Dw3000/src/dw3000_shared_functions.cpp`.

Both sketches keep 20-byte messages and receive buffers, and read a frame into the
buffer over whatever was there. An index into a message carries its bound. -/
namespace MakerSpace.Ranging
open Codec LittleEndian

def allMsgCommonLen : Nat := 10
def allMsgSnIdx : Nat := 2
def respMsgPollRxTsIdx : Nat := 10
def respMsgRespTxTsIdx : Nat := 14
def respMsgTsLen : Nat := 4
def txAntDly : Nat := 16385
def uusToDwtTime : Nat := 63898

def sysStatusTxfrs : BitVec 32 := 0x80
def sysStatusRxfcg : BitVec 32 := 0x4000
/-- The header, CRC, sync, timeout, filter and CIA error bits. -/
def sysStatusAllRxErr : BitVec 32 := 0x24059000

abbrev Message := Vector (BitVec 8) 20

theorem snIdx_lt : allMsgSnIdx < 20 := by decide
theorem pollRxTs_fits : respMsgPollRxTsIdx + respMsgTsLen ≤ 20 := by decide
theorem respTxTs_fits : respMsgRespTxTsIdx + respMsgTsLen ≤ 20 := by decide

theorem ne_snIdx {k : Nat} (h : allMsgCommonLen ≤ k) : k ≠ allMsgSnIdx :=
  (Nat.lt_of_lt_of_le (by decide : allMsgSnIdx < allMsgCommonLen) h).ne'

/-- A good frame, of a length that `RXFLEN_MASK` can show. -/
structure Frame where
  bytes : List (BitVec 8)
  fits : bytes.length ≤ 127

/-- What the wait for the receiver ends with. -/
inductive Reception where
  | good (frame : Frame)
  | error

inductive StartMode where
  | immediateResponseExpected
  | delayed
  deriving DecidableEq, Repr

/-- What a sketch asks of the radio. -/
inductive Call where
  | rxenable
  | writeSysStatus (mask : BitVec 32)
  | setdelayedtrxtime (starttime : BitVec 32)
  | writetxdata (data : List (BitVec 8))
  | writetxfctrl (length offset ranging : Nat)
  | starttx (mode : StartMode)
  deriving DecidableEq, Repr

/-- Writes bytes into a message from `idx` on. -/
def store : (idx : Nat) → (bytes : List (BitVec 8)) → idx + bytes.length ≤ 20 → Message → Message
  | _, [], _, msg => msg
  | idx, b :: rest, h, msg =>
    have hlen : idx + 1 + rest.length ≤ 20 := by
      rw [List.length_cons] at h
      omega
    store (idx + 1) rest hlen (msg.set idx b (by omega))

theorem store_get (idx : Nat) (bytes : List (BitVec 8)) (h : idx + bytes.length ≤ 20)
    (msg : Message) (k : Nat) (hk : k < 20) :
    (store idx bytes h msg)[k] = if idx ≤ k then bytes[k - idx]?.getD msg[k] else msg[k] := by
  induction bytes generalizing idx msg with
  | nil => simp [store]
  | cons b rest ih =>
    rw [store, ih, Vector.getElem_set]
    rcases Nat.lt_trichotomy k idx with hlt | rfl | hgt
    · rw [if_neg (by omega), if_neg (by omega), if_neg (by omega)]
    · simp
    · obtain ⟨d, rfl⟩ := Nat.exists_eq_add_of_lt hgt
      rw [if_pos (by omega), if_neg (by omega), if_pos (by omega),
        show idx + d + 1 - idx = d + 1 by omega, show idx + d + 1 - (idx + 1) = d by omega,
        List.getElem?_cons_succ]

/-- `dwt_readrxdata` from offset 0: the frame over the start of the buffer. -/
def dwtReadrxdata (bytes : List (BitVec 8)) (h : bytes.length ≤ 20) (buffer : Message) : Message :=
  store 0 bytes (by omega) buffer

theorem dwtReadrxdata_get (bytes : List (BitVec 8)) (h : bytes.length ≤ 20) (buffer : Message)
    (k : Nat) (hk : k < 20) : (dwtReadrxdata bytes h buffer)[k] = bytes[k]?.getD buffer[k] := by
  rw [dwtReadrxdata, store_get, if_pos (Nat.zero_le k), Nat.sub_zero]

def memcmp : List (BitVec 8) → List (BitVec 8) → Nat → Int
  | a :: as, b :: bs, n + 1 => if a = b then memcmp as bs n else a.toNat - b.toNat
  | _, _, _ => 0

theorem memcmp_eq_zero_iff (as bs : List (BitVec 8)) (n : Nat) (ha : n ≤ as.length)
    (hb : n ≤ bs.length) : memcmp as bs n = 0 ↔ ∀ j < n, as[j]? = bs[j]? := by
  induction n generalizing as bs with
  | zero => simp [memcmp]
  | succ n ih =>
    obtain ⟨a, as, rfl⟩ := List.exists_cons_of_length_pos (l := as) (by omega)
    obtain ⟨b, bs, rfl⟩ := List.exists_cons_of_length_pos (l := bs) (by omega)
    have hrest := ih as bs (by simpa using ha) (by simpa using hb)
    have hdiff : a ≠ b → (a.toNat : Int) - b.toNat ≠ 0 := fun hne hzero =>
      hne (BitVec.eq_of_toNat_eq (by omega))
    simp only [memcmp, Nat.forall_lt_succ_left, List.getElem?_cons_zero, List.getElem?_cons_succ,
      Option.some.injEq, ← hrest]
    split_ifs with hab
    · simp [hab]
    · simp [hab, hdiff hab]

/-! ### Timestamps -/

def respMsgSetTs (idx : Nat) (h : idx + respMsgTsLen ≤ 20) (ts : BitVec 64) (msg : Message) :
    Message :=
  store idx (bytesOf ts respMsgTsLen) (by rwa [bytesOf_length]) msg

def respMsgGetTs (idx : Nat) (h : idx + respMsgTsLen ≤ 20) (msg : Message) : BitVec 32 :=
  Fin.foldl respMsgTsLen
    (fun ts i =>
      have hi : idx + i.val < 20 := by omega
      ts + (msg[idx + i.val]).setWidth 32 <<< (i.val * 8)) 0#32

theorem respMsgSetTs_get (idx : Nat) (h : idx + respMsgTsLen ≤ 20) (ts : BitVec 64)
    (msg : Message) (k : Nat) (hk : k < 20) :
    (respMsgSetTs idx h ts msg)[k] =
      if idx ≤ k ∧ k < idx + respMsgTsLen then byte ts (k - idx) else msg[k] := by
  rw [respMsgSetTs, store_get]
  by_cases hbefore : idx ≤ k
  · rw [if_pos hbefore]
    rcases Nat.lt_or_ge k (idx + respMsgTsLen) with hin | hafter
    · have hlt : k - idx < respMsgTsLen := by omega
      rw [if_pos ⟨hbefore, hin⟩]
      simp [bytesOf, hlt]
    · have hge : respMsgTsLen ≤ k - idx := by omega
      rw [if_neg (by omega)]
      simp [bytesOf, hge]
  · rw [if_neg hbefore, if_neg (fun hin => hbefore hin.1)]

/-- A field that holds the bytes of a timestamp reads as its low 32 bits. -/
theorem respMsgGetTs_of_bytes (idx : Nat) (h : idx + respMsgTsLen ≤ 20) (ts : BitVec 64)
    (msg : Message)
    (hfield : ∀ k (hk : k < 20), idx ≤ k → k < idx + respMsgTsLen → msg[k] = byte ts (k - idx)) :
    respMsgGetTs idx h msg = ts.setWidth 32 := by
  have hloop : respMsgGetTs idx h msg =
      Fin.foldl respMsgTsLen (fun ts' i => ts' + (byte ts i.val).setWidth 32 <<< (i.val * 8)) 0#32 := by
    unfold respMsgGetTs
    congr 1
    funext ts' i
    dsimp only
    rw [hfield _ _ (by omega) (by omega), Nat.add_sub_cancel_left]
  rw [hloop, load_bytesOf]
  apply BitVec.eq_of_toNat_eq
  simp [respMsgTsLen]

/-- The receive timestamp register, byte by byte. -/
def dwtReadrxtimestamp (counter : BitVec 40) : List (BitVec 8) := bytesOf counter 5

def getRxTimestampU64 (tsTab : List (BitVec 8)) : BitVec 64 :=
  tsTab.foldr (fun b ts => ts <<< 8 ||| b.setWidth 64) 0#64

theorem getRxTimestampU64_counter (counter : BitVec 40) :
    getRxTimestampU64 (dwtReadrxtimestamp counter) = counter.setWidth 64 := by
  rw [getRxTimestampU64, load_shifting, dwtReadrxtimestamp, value_bytesOf]
  apply BitVec.eq_of_toNat_eq
  have hcounter := counter.isLt
  simp
  omega

end MakerSpace.Ranging
