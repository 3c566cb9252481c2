import MakerSpace.WiFiEsp.Scan

/-! The name of the network the module is in, `getCurrentSSID`.

The name is copied into a buffer that stays from call to call, and only its first character
is cleared. `ssids_right_iff`: over any number of calls the names returned are right exactly
when no name comes after a longer one. -/
namespace MakerSpace.WiFiEsp.EspDrv
open Codec Search Decimal Reactive

def cwjapTag : Tag := ⟨ascii "+CWJAP:\"", by decide⟩

/-- `_ssid` is kept by the driver; here it is passed on. -/
def getCurrentSSID (ssid : Vector (BitVec 8) 32) (s : EspDrv) : Vector (BitVec 8) 32 × EspDrv :=
  let (_, ssid, s) := @sendCmdGet 31 cwjapTag quoteTag (ssid.set 0 0 (Nat.succ_pos 31)) s
  (ssid, s)

/-- What the module sends when it is asked. -/
structure Answer where
  old : Serial
  name : List (BitVec 8)
  rest : Serial
  dirty : .quiet ∉ old
  plain : 0 ∉ name ∧ 34 ∉ name ∧ 10 ∉ name
  short : name.length < wlSsidMaxLength

def Answer.line (a : Answer) : Serial :=
  a.old ++ .quiet :: (arriving cwjapTag.chars ++ (arriving (a.name ++ quoteTag.chars) ++ a.rest))

/-- The driver asked for the name again and again, and the names it returns. -/
def ssids : Machine Answer (EspDrv × Vector (BitVec 8) 32) (List (BitVec 8)) where
  pass a s :=
    let (ssid, driver) := getCurrentSSID s.2 {s.1 with espSerial := a.line}
    ((driver, ssid), [cString ssid])

/-! ### One call -/

theorem Answer.between (a : Answer) (rb : RingBuffer 32) :
    Between rb cwjapTag quoteTag cwjapTag.chars a.name where
  start := @first_of_last cwjapTag (ascii "+CWJAP:") [] 34 rfl (by decide) (by decide) _
  stop := by
    have hname : ∀ c ∈ a.name ++ [], c ≠ 34 ∧ c ≠ 10 := by
      rw [List.append_nil]
      exact fun c hc => ⟨fun h => a.plain.2.1 (h ▸ hc), fun h => a.plain.2.2 (h ▸ hc)⟩
    have hfirst := @first_of_last quoteTag [] a.name 34 rfl (by decide) hname []
    rwa [List.append_nil] at hfirst
  plain := by
    have hquote : 0 ∉ quoteTag.chars := by decide
    exact fun h => (List.mem_append.mp h).elim a.plain.1 hquote
  nonempty := by decide

/-- A call writes the name over what the buffer held. -/
theorem getCurrentSSID_writes (a : Answer) (ssid : Vector (BitVec 8) 32) (s : EspDrv) :
    ∃ out s', getCurrentSSID ssid {s with espSerial := a.line} = (out, s') ∧
      out.toList = a.name ++ (ssid.set 0 0 (Nat.succ_pos 31)).toList.drop a.name.length := by
  obtain ⟨s', hsent⟩ := @sendCmdGet_between 31 cwjapTag quoteTag
    (ssid.set 0 0 (Nat.succ_pos 31)) {s with espSerial := a.line} a.old a.rest cwjapTag.chars a.name
    a.dirty rfl (a.between _)
  have hsplit : RingBuffer.earlier 32 (a.name.length + quoteTag.chars.length) ≤ a.name.length :=
    Nat.mul_div_le _ _
  have hcopied := RingBuffer.getStrN_written
    ((ssid.set 0 0 (Nat.succ_pos 31)).set 0 0 (Nat.succ_pos 31))
    (s.ringBuf.written cwjapTag.chars).init (by decide) (a.between s.ringBuf).nonempty
    (by decide : 31 + quoteTag.chars.length ≤ 32) (by decide) hsplit a.plain.1
  have hwhole : (RingBuffer.lastPart 32 a.name quoteTag.chars).take 31 = a.name :=
    (ssid_whole_iff a.name).mpr a.short
  rw [hwhole] at hcopied
  refine ⟨_, s', ?_, hcopied.trans (by rw [Vector.set_set])⟩
  rw [getCurrentSSID, hsent]

/-! ### Any number of calls -/

/-- Behind its first cell the buffer has its first NUL where the longest name so far ended. -/
def Stale (longest : Nat) (ssid : Vector (BitVec 8) 32) : Prop :=
  ∀ p, p ≠ 0 → p < 32 → (ssid.toList[p]? = some 0 ↔ longest ≤ p)

theorem stale_zero : Stale 0 (.replicate 32 0) := by
  intro p _ hp
  rw [Vector.toList_replicate, List.getElem?_replicate, if_pos hp]
  exact iff_of_true rfl (Nat.zero_le p)

theorem cleared_get (ssid : Vector (BitVec 8) 32) {p : Nat} (hp : p ≠ 0) :
    (ssid.set 0 0 (Nat.succ_pos 31)).toList[p]? = ssid.toList[p]? := by
  rw [Vector.toList_set, List.getElem?_set_ne (Ne.symm hp)]

theorem Stale.right_iff {longest : Nat} {ssid out : Vector (BitVec 8) 32} (h : Stale longest ssid)
    (a : Answer)
    (hout : out.toList = a.name ++ (ssid.set 0 0 (Nat.succ_pos 31)).toList.drop a.name.length) :
    cString out = a.name ↔ a.name = [] ∨ longest ≤ a.name.length := by
  have hshort : a.name.length < 32 := a.short
  have htail : (ssid.set 0 0 (Nat.succ_pos 31)).toList.drop a.name.length ≠ [] := by
    refine List.ne_nil_of_length_pos ?_
    rw [List.length_drop, Vector.length_toList]
    omega
  rw [cString_iff hout a.plain.1 htail, List.head?_drop]
  by_cases hname : a.name = []
  · refine iff_of_true ?_ (.inl hname)
    rw [hname, List.length_nil, Vector.toList_set, List.getElem?_set_self (by simp)]
  · rw [cleared_get ssid fun h0 => hname (List.eq_nil_of_length_eq_zero h0), or_iff_right hname]
    exact h _ (fun h0 => hname (List.eq_nil_of_length_eq_zero h0)) hshort

theorem Stale.later {longest : Nat} {ssid out : Vector (BitVec 8) 32} (h : Stale longest ssid)
    (a : Answer)
    (hout : out.toList = a.name ++ (ssid.set 0 0 (Nat.succ_pos 31)).toList.drop a.name.length) :
    Stale (max longest a.name.length) out := by
  intro p hp hshort
  rw [hout]
  by_cases hin : p < a.name.length
  · rw [List.getElem?_append_left hin, List.getElem?_eq_getElem hin]
    refine iff_of_false (fun heq => a.plain.1 ?_) (by omega)
    rw [← Option.some.inj heq]
    exact List.getElem_mem hin
  · rw [List.getElem?_append_right (by omega), List.getElem?_drop, Nat.add_sub_of_le (by omega),
      cleared_get ssid hp, h p hp hshort]
    omega

/-- Empty, or no shorter than that. -/
def Answer.covers (a : Answer) (longest : Nat) : Prop := a.name = [] ∨ longest ≤ a.name.length

theorem ssids_run {longest : Nat} {ssid : Vector (BitVec 8) 32} (h : Stale longest ssid)
    (s : EspDrv) (asked : List Answer) :
    ssids.log (s, ssid) asked = asked.map Answer.name ↔
      (∀ a ∈ asked, a.covers longest) ∧ asked.Pairwise fun a b => b.covers a.name.length := by
  induction asked generalizing longest ssid s with
  | nil => simp
  | cons a asked ih =>
    obtain ⟨out, s', hcall, hout⟩ := getCurrentSSID_writes a ssid s
    have hpass : ssids.pass a (s, ssid) = ((s', out), [cString out]) := by
      simp only [ssids, hcall]
    have hboth : ∀ b : Answer, b.covers (max longest a.name.length) ↔
        b.covers longest ∧ b.covers a.name.length := fun b => by
      rw [Answer.covers, Answer.covers, Answer.covers, ← or_and_left, Nat.max_le]
    rw [Machine.log_cons, Machine.out, Machine.next, hpass, List.map_cons, List.singleton_append,
      List.cons.injEq, h.right_iff a hout, ih (h.later a hout), List.forall_mem_cons,
      List.pairwise_cons]
    simp only [hboth]
    constructor
    · rintro ⟨hfirst, hrest, hpairs⟩
      exact ⟨⟨hfirst, fun b hb => (hrest b hb).1⟩, fun b hb => (hrest b hb).2, hpairs⟩
    · rintro ⟨⟨hfirst, hlongest⟩, hname, hpairs⟩
      exact ⟨hfirst, fun b hb => ⟨hlongest b hb, hname b hb⟩, hpairs⟩

/-- **The names returned are right** exactly when none comes after a longer one: of that the
buffer still has the end. An empty one is right anyhow. -/
theorem ssids_right_iff (s : EspDrv) (asked : List Answer) :
    ssids.log (s, .replicate 32 0) asked = asked.map Answer.name ↔
      asked.Pairwise fun a b => b.name = [] ∨ a.name.length ≤ b.name.length :=
  (ssids_run stale_zero s asked).trans
    (and_iff_right fun _ _ => .inr (Nat.zero_le _))

/-- The end of "workshop" is still there. -/
example : ssids.log (cleared [], .replicate 32 0)
    [⟨[], ascii "workshop", [], by decide, by decide, by decide⟩,
      ⟨[], ascii "home", [], by decide, by decide, by decide⟩] =
    [ascii "workshop", ascii "homeshop"] := by decide

end MakerSpace.WiFiEsp.EspDrv
