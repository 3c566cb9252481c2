import MakerSpace.WiFiEsp.EspDrv
import Mathlib.Data.List.Chain

/-! What a sketch reads of its connection.

The module cuts the connection's data into packets, each with a header before it, and says
other things between them. `stream_read`: whatever the packets, what is said between them and
the calls the sketch makes, it is given the data in order, and all of it once it has asked
often enough. That holds among packets of other connections, but for connection 0:
`misled_run` is what a sketch is given that asks for another one while a packet of it is
there. -/
namespace MakerSpace.WiFiEsp
open Codec Search Decimal Reactive

/-! ### Reading numbers -/

namespace Serial

theorem parseDigits_digits {digits : List (BitVec 8)} (h : ∀ c ∈ digits, isDigit c = true)
    (value : Nat) (rest : Serial) :
    parseDigits value (arriving digits ++ rest) = parseDigits (readDigits value digits) rest := by
  induction digits generalizing value with
  | nil => rfl
  | cons c digits ih =>
    rw [arriving_cons, List.cons_append, parseDigits, if_pos (h c List.mem_cons_self)]
    exact ih (fun d hd => h d (List.mem_cons_of_mem c hd)) _

/-- A numeral is read up to the character after it. -/
theorem parseInt_numeral {c : BitVec 8} (hc : isDigit c = false) (n : Nat) (rest : Serial) :
    parseInt (arriving (numeral n) ++ .char c :: rest) = ((n : Int), .char c :: rest) := by
  obtain ⟨d, digits, hnumeral⟩ := List.exists_cons_of_ne_nil (numeral_ne_nil n)
  have hdigits : ∀ a ∈ d :: digits, isDigit a = true := fun a ha => numeral_digit (hnumeral ▸ ha)
  have hd := hdigits d List.mem_cons_self
  have hminus : d ≠ 45 := by
    intro h
    rw [h] at hd
    exact absurd hd (by decide)
  have hvalue : readDigits (d.toNat - 48) digits = n := by
    conv_rhs => rw [← readDigits_numeral n, hnumeral]
    simp [readDigits]
  have hstop : parseDigits n (.char c :: rest) = (n, .char c :: rest) := by
    rw [parseDigits, if_neg (by simp [hc])]
  rw [hnumeral, arriving_cons, List.cons_append, parseInt, if_neg hminus, if_pos hd,
    parseDigits_digits (fun a ha => hdigits a (List.mem_cons_of_mem d ha)), hvalue, hstop]

theorem parseInt_quote (rest : Serial) : parseInt (.char 34 :: rest) = parseInt rest := rfl

@[simp] theorem skip_char (c : BitVec 8) (rest : Serial) : skip (.char c :: rest) = rest := rfl

end Serial

/-! ### Headers -/

structure Header where
  connId : BitVec 8
  len : Nat
  remoteIp : Vector (BitVec 8) 4
  remotePort : BitVec 16

def Header.fields (h : Header) : List (BitVec 8) :=
  numeral h.connId.toNat ++ ascii "," ++ numeral h.len ++ ascii ",\"" ++
    (ascii ".").intercalate (h.remoteIp.toList.map fun b => numeral b.toNat) ++ ascii "\"," ++
    numeral h.remotePort.toNat ++ ascii ":"

/-- The driver once it has read a header. -/
def EspDrv.announced (h : Header) (rest : Serial) (s : EspDrv) : EspDrv :=
  {s with
    connId := h.connId, bufPos := h.len, remoteIp := h.remoteIp, remotePort := h.remotePort
    espSerial := rest}

theorem readHeader_fields (h : Header) (rest : Serial) (s : EspDrv) :
    {s with espSerial := arriving h.fields ++ rest}.readHeader = s.announced h rest := by
  obtain ⟨a, b, c, d, hip⟩ : ∃ a b c d, h.remoteIp = #v[a, b, c, d] := by
    refine ⟨h.remoteIp[0], h.remoteIp[1], h.remoteIp[2], h.remoteIp[3], ?_⟩
    ext i hi
    match i, hi with
    | 0, _ => rfl
    | 1, _ => rfl
    | 2, _ => rfl
    | 3, _ => rfl
  have hdots : [46].intercalate ([a, b, c, d].map fun b => numeral b.toNat) =
      numeral a.toNat ++ [46] ++ numeral b.toNat ++ [46] ++ numeral c.toNat ++ [46] ++
        numeral d.toNat := by
    simp [List.intercalate, List.intersperse]
  have hcomma : ascii "," = [44] := rfl
  have hopen : ascii ",\"" = [44, 34] := rfl
  have hdot : ascii "." = [46] := rfl
  have hclose : ascii "\"," = [34, 44] := rfl
  have hcolon : ascii ":" = [58] := rfl
  simp (disch := decide) only [EspDrv.readHeader, EspDrv.announced, Header.fields, hip,
    Vector.toList_mk, hcomma, hopen, hdot, hdots, hclose, hcolon, arriving_append, arriving_cons,
    arriving_nil, List.append_assoc, List.cons_append, List.nil_append, Serial.parseInt_numeral,
    Serial.parseInt_quote, Serial.skip_char, BitVec.ofInt_natCast, BitVec.ofNat_toNat,
    BitVec.setWidth_eq]

/-! ### What the module says

What it says, a sketch that reads connection `id` hears in pieces: a header, with whatever
stands before it, or what ends in a silence. After a packet of the connection none begins
like its end. -/

/-- A header, and what the module says before it. -/
structure Notice where
  noise : List (BitVec 8)
  header : Header
  announced : First (Serial.ends (ascii "+IPD,")) (noise ++ ascii "+IPD,") ()

/-- A packet of the connection. -/
structure Packet (id : BitVec 8) extends Notice where
  data : List (BitVec 8)
  own : header.connId = id
  len : header.len = data.length
  nonempty : data ≠ []
  short : data.length < 32768

/-- The header of another connection's packet. What is in the packet the driver searches like
all else that is said: it is noise of the next notice, or of a pause. -/
structure Foreign (id : BitVec 8) extends Notice where
  other : header.connId ≠ id
  nonzero : header.connId ≠ 0 ∧ id ≠ 0

/-- What is said before a silence. -/
structure Pause where
  said : List (BitVec 8)
  plain : ¬ascii "+IPD," <:+: said

inductive Piece (id : BitVec 8) where
  | packet (p : Packet id)
  | foreign (f : Foreign id)
  | pause (q : Pause)

variable {id : BitVec 8}

def Notice.text (n : Notice) : List (BitVec 8) := n.noise ++ ascii "+IPD," ++ n.header.fields

def Piece.said : Piece id → List (BitVec 8)
  | .packet p => p.text
  | .foreign f => f.text
  | .pause q => q.said

/-- What is said does not begin with the digit of the connection, as its end does. -/
def Piece.StillOpen (piece : Piece id) : Prop := ∀ c ∈ piece.said.head?, c.toNat ≠ 48 + id.toNat

/-- What may follow a piece: after a packet of the connection, nothing that begins like its end. -/
def Piece.Before : Piece id → Piece id → Prop
  | .packet _, next => next.StillOpen
  | .foreign _, _ => True
  | .pause _, _ => True

def wire : List (Piece id) → Serial
  | [] => []
  | .packet p :: rest => arriving p.text ++ (arriving p.data ++ wire rest)
  | .foreign f :: rest => arriving f.text ++ wire rest
  | .pause q :: rest => arriving q.said ++ .quiet :: wire rest

/-- The data of the packets: what the sketch is to read. -/
def dataOf : List (Piece id) → List (BitVec 8)
  | [] => []
  | .packet p :: rest => p.data ++ dataOf rest
  | .foreign _ :: rest => dataOf rest
  | .pause _ :: rest => dataOf rest

/-- How often a sketch may be told that there is nothing, before the end. -/
def delays : List (Piece id) → Nat
  | [] => 0
  | .packet _ :: rest => delays rest
  | .foreign _ :: rest => delays rest + 1
  | .pause _ :: rest => delays rest + 1

/-- No packet is announced any more. -/
def Silent (line : Serial) : Prop := ¬ascii "+IPD," <:+: chars line

theorem Silent.find {line : Serial} (h : Silent line) :
    ∃ rest, Serial.find (ascii "+IPD,") line = (false, rest) ∧ Silent rest := by
  obtain ⟨s, htext, hchars, hfound⟩ := search_spec (Serial.ends (ascii "+IPD,")) [] line
  refine ⟨(search (Serial.ends (ascii "+IPD,")) [] line).2.2, Prod.ext ?_ rfl, fun hin => h ?_⟩
  · show (search (Serial.ends (ascii "+IPD,")) [] line).1.isSome = false
    cases hret : (search (Serial.ends (ascii "+IPD,")) [] line).1 with
    | none => rfl
    | some r =>
      have hends := hfound r hret
      rw [Serial.ends, List.nil_append, Option.ite_none_right_eq_some, List.isSuffixOf_iff_suffix] at hends
      rw [Silent, hchars] at h
      exact absurd (hends.1.isInfix.trans (List.infix_append' [] s _)) h
  · rw [hchars]
    exact hin.trans (List.suffix_append s _).isInfix

theorem Silent.tail {line : Serial} {a : Arrival (BitVec 8)} (h : Silent (a :: line)) : Silent line := by
  cases a with
  | quiet => exact h
  | char c => exact fun hin => h (hin.trans (List.suffix_cons c _).isInfix)

/-- The pieces are still to come, and then no more packets. -/
def Ahead (pieces : List (Piece id)) (line : Serial) : Prop :=
  pieces.IsChain Piece.Before ∧ ∃ tail, Silent tail ∧ line = wire pieces ++ tail

/-- In the middle of a packet, of which `d` is left. -/
structure Within (d : List (BitVec 8)) (pieces : List (Piece id)) (s : WiFiEspClient) :
    Prop where
  sock : s.sock = id
  connId : s.espDrv.connId = id
  bufPos : s.espDrv.bufPos = d.length
  short : d.length < 32768
  after : ∀ piece ∈ pieces.head?, piece.StillOpen
  line : ∃ line, s.espDrv.espSerial = arriving d ++ line ∧ Ahead pieces line

/-- No packet of the connection has been begun. -/
def EspDrv.Unread (id : BitVec 8) (s : EspDrv) : Prop :=
  ¬(s.bufPos > 0 ∧ (s.connId = id ∨ s.connId = 0))

theorem EspDrv.unread_of_zero {s : EspDrv} (h : s.bufPos = 0) : s.Unread id := fun hread =>
  Int.ne_of_gt hread.1 h

/-- Between the pieces. -/
structure Idle (pieces : List (Piece id)) (s : WiFiEspClient) : Prop where
  sock : s.sock = id
  unread : s.espDrv.Unread id
  line : Ahead pieces s.espDrv.espSerial

/-! ### `available` -/

theorem Notice.text_cons (n : Notice) : ∃ c text, n.text = c :: text := by
  refine List.exists_cons_of_ne_nil ?_
  rw [Notice.text]
  exact List.append_ne_nil_of_left_ne_nil n.announced.nonempty _

theorem availData_notice {s : EspDrv} (hunread : s.Unread id) (n : Notice) {rest : Serial}
    (hline : s.espSerial = arriving n.text ++ rest) :
    s.availData id = (if n.header.connId = id ∨ id = 0 then .ofNat 16 n.header.len else 0,
      s.announced n.header rest) := by
  have havailable : s.espSerial.available = (true, s.espSerial) := by
    obtain ⟨c, text, htext⟩ := n.text_cons
    rw [hline, htext]
    rfl
  have hfind : Serial.find (ascii "+IPD,") s.espSerial =
      (true, arriving n.header.fields ++ rest) := by
    rw [hline, Notice.text, arriving_append, List.append_assoc, Serial.find,
      search_first n.announced]
    rfl
  have hheader := readHeader_fields n.header rest s
  rw [EspDrv.availData, if_neg hunread, havailable]
  simp only [hfind, hheader, if_true]
  rw [EspDrv.announced, BitVec.ofInt_natCast]

theorem availData_quiet {s : EspDrv} (hunread : s.Unread id) {rest : Serial}
    (hline : s.espSerial = .quiet :: rest) : s.availData id = (0, {s with espSerial := rest}) := by
  rw [EspDrv.availData, if_neg hunread, hline]
  rfl

theorem availData_pause {s : EspDrv} (hunread : s.Unread id) (q : Pause) {rest : Serial}
    (hline : s.espSerial = arriving q.said ++ .quiet :: rest) :
    s.availData id = (0, {s with espSerial := rest}) := by
  cases hsaid : q.said with
  | nil => exact availData_quiet hunread (by rw [hline, hsaid]; rfl)
  | cons c said =>
    have hskip : ∀ t, t ≠ [] → t <+: q.said → Serial.ends (ascii "+IPD,") ([] ++ t) = none := by
      intro t _ ht
      rw [Serial.ends, if_neg]
      intro hends
      exact q.plain ((List.isSuffixOf_iff_suffix.mp hends).isInfix.trans ht.isInfix)
    have hfind : Serial.find (ascii "+IPD,") s.espSerial = (false, rest) := by
      rw [hline, Serial.find, search_skip hskip]
      rfl
    have havailable : s.espSerial.available = (true, s.espSerial) := by
      rw [hline, hsaid]
      rfl
    rw [EspDrv.availData, if_neg hunread, havailable]
    simp only [hfind, if_true, if_false, Bool.false_eq_true]

theorem availData_silent {s : EspDrv} (hunread : s.Unread id) (h : Silent s.espSerial) :
    ∃ rest, s.availData id = (0, {s with espSerial := rest}) ∧ Silent rest := by
  cases hline : s.espSerial with
  | nil =>
    refine ⟨[], ?_, hline ▸ h⟩
    rw [EspDrv.availData, if_neg hunread, hline]
    rfl
  | cons arrival rest =>
    cases arrival with
    | quiet => exact ⟨rest, availData_quiet hunread hline, (hline ▸ h : Silent (.quiet :: rest)).tail⟩
    | char c =>
      obtain ⟨rest', hfind, hsilent⟩ := (hline ▸ h : Silent (.char c :: rest)).find
      refine ⟨rest', ?_, hsilent⟩
      rw [EspDrv.availData, if_neg hunread, hline]
      simp only [Serial.available, hfind, if_true, if_false, Bool.false_eq_true]

theorem toInt_short {n : Nat} (h : n < 32768) : (BitVec.ofNat 16 n).toInt = n := by
  rw [BitVec.toInt_eq_toNat_of_lt] <;> rw [BitVec.toNat_ofNat, Nat.mod_eq_of_lt (by omega)]
  omega

theorem Within.available (hid : id ≠ 255) {d : List (BitVec 8)} {pieces : List (Piece id)}
    {s : WiFiEspClient} (h : Within d pieces s) (hd : d ≠ []) :
    s.available = ((d.length : Int), s) := by
  have hpos := List.length_pos_iff.mpr hd
  have hshort := toInt_short h.short
  have hdata : s.espDrv.availData s.sock = (.ofNat 16 d.length, s.espDrv) := by
    rw [EspDrv.availData, if_pos ⟨by rw [h.bufPos]; omega, .inl (h.connId.trans h.sock.symm)⟩, h.bufPos,
      BitVec.ofInt_natCast]
  rw [WiFiEspClient.available, if_pos (by rw [h.sock]; exact hid), hdata]
  simp only [hshort, if_pos (show (d.length : Int) > 0 by omega)]

/-- Between the pieces either a packet begins, or nothing is there yet. -/
theorem Idle.available (hid : id ≠ 255) {pieces : List (Piece id)} {s : WiFiEspClient}
    (h : Idle pieces s) :
    (∃ p rest s', pieces = .packet p :: rest ∧ s.available = ((p.data.length : Int), s') ∧
        Within p.data rest s') ∨
      ∃ (pieces' : List (Piece id)) (s' : WiFiEspClient), s.available = (0, s') ∧
        Idle pieces' s' ∧ dataOf pieces' = dataOf pieces ∧
        (pieces = [] ∧ pieces' = [] ∨ delays pieces' < delays pieces) := by
  obtain ⟨hopen, tail, hsilent, hline⟩ := h.line
  have hgiven : ∀ bytes espDrv, s.espDrv.availData id = (bytes, espDrv) →
      s.available = (if bytes.toInt > 0 then bytes.toInt else 0, {s with espDrv}) := by
    intro bytes espDrv hdata
    rw [WiFiEspClient.available, if_pos (by rw [h.sock]; exact hid), h.sock, hdata]
  match pieces with
  | [] =>
    obtain ⟨rest, hdata, hrest⟩ := availData_silent h.unread (hline ▸ hsilent)
    exact .inr ⟨[], _, hgiven _ _ hdata, ⟨h.sock, h.unread, .nil, rest, hrest, rfl⟩, rfl, .inl ⟨rfl, rfl⟩⟩
  | .pause q :: rest =>
    have hdata : s.espDrv.availData id = (0, {s.espDrv with espSerial := wire rest ++ tail}) :=
      availData_pause h.unread q (by rw [hline, wire, List.append_assoc, List.cons_append])
    exact .inr ⟨rest, _, hgiven _ _ hdata, ⟨h.sock, h.unread, hopen.tail, tail, hsilent, rfl⟩, rfl,
      .inr (Nat.lt_succ_self _)⟩
  | .foreign f :: rest =>
    have hdata : s.espDrv.availData id = (if f.header.connId = id ∨ id = 0 then
        .ofNat 16 f.header.len else 0, s.espDrv.announced f.header (wire rest ++ tail)) :=
      availData_notice h.unread f.toNotice (by rw [hline, wire, List.append_assoc])
    rw [if_neg (not_or.mpr ⟨f.other, f.nonzero.2⟩)] at hdata
    exact .inr ⟨rest, _, hgiven _ _ hdata, ⟨h.sock, fun hread =>
      not_or.mpr ⟨f.other, f.nonzero.1⟩ hread.2, hopen.tail, tail, hsilent, rfl⟩, rfl,
      .inr (Nat.lt_succ_self _)⟩
  | .packet p :: rest =>
    have hdata : s.espDrv.availData id = (if p.header.connId = id ∨ id = 0 then
        .ofNat 16 p.header.len else 0,
          s.espDrv.announced p.header (arriving p.data ++ (wire rest ++ tail))) :=
      availData_notice h.unread p.toNotice
        (by rw [hline, wire, List.append_assoc, List.append_assoc])
    rw [if_pos (.inl p.own), p.len] at hdata
    have hpos := List.length_pos_iff.mpr p.nonempty
    have havailable := hgiven _ _ hdata
    rw [toInt_short p.short, if_pos (by omega)] at havailable
    exact .inl ⟨p, rest, _, rfl, havailable, ⟨h.sock, p.own, congrArg Nat.cast p.len, p.short,
      (List.isChain_cons.mp hopen).1, _, rfl, hopen.tail, tail, hsilent, rfl⟩⟩

/-! ### Reading -/

/-- What is still to be read, and the delays still to come. -/
inductive Pending (id : BitVec 8) : List (BitVec 8) → Nat → WiFiEspClient → Prop where
  | closed {s : WiFiEspClient} (h : s.sock = 255) : Pending id [] 0 s
  | idle {pieces : List (Piece id)} {s : WiFiEspClient} (h : Idle pieces s) :
    Pending id (dataOf pieces) (delays pieces) s
  | within {d : List (BitVec 8)} {pieces : List (Piece id)} {s : WiFiEspClient} (hd : d ≠ [])
    (h : Within d pieces s) : Pending id (d ++ dataOf pieces) (delays pieces) s

/-- A line that begins with another character does not end the connection. -/
theorem checkClosed_char {s : EspDrv} {c : BitVec 8} {line : Serial} (hline : s.espSerial = .char c :: line)
    (hc : c.toNat ≠ 48 + id.toNat) : s.checkClosed id = (false, s) := by
  have hsame : {s with espSerial := .char c :: line} = s := by rw [← hline]
  by_cases hdone : s.bufPos = 0
  · rw [EspDrv.checkClosed, if_pos hdone, hline]
    simp [Serial.available, Serial.peek, hc, hsame]
  · rw [EspDrv.checkClosed, if_neg hdone]

theorem checkClosed_quiet {s : EspDrv} (hdone : s.bufPos = 0) {line : Serial}
    (hline : s.espSerial = .quiet :: line) : s.checkClosed id = (false, {s with espSerial := line}) := by
  rw [EspDrv.checkClosed, if_pos hdone, hline]
  rfl

/-- The connection stays open, and what is left on the line brings the same data. -/
def StaysOpen (pieces : List (Piece id)) (s : EspDrv) : Prop :=
  ∃ (line : Serial) (pieces' : List (Piece id)),
    s.checkClosed id = (false, {s with espSerial := line}) ∧ Ahead pieces' line ∧
    dataOf pieces' = dataOf pieces ∧ delays pieces' ≤ delays pieces

theorem staysOpen_char {pieces : List (Piece id)} {s : EspDrv} (h : Ahead pieces s.espSerial)
    {c : BitVec 8} {line : Serial} (hline : s.espSerial = .char c :: line)
    (hc : c.toNat ≠ 48 + id.toNat) : StaysOpen pieces s :=
  ⟨s.espSerial, pieces, checkClosed_char hline hc, h, rfl, Nat.le_refl _⟩

/-- Only a pause begins with a silence. -/
theorem Piece.said_cases (piece : Piece id) :
    (∃ c text, piece.said = c :: text) ∨ ∃ q, piece = .pause q ∧ q.said = [] := by
  cases piece with
  | packet p => exact .inl p.text_cons
  | foreign f => exact .inl f.text_cons
  | pause q =>
    cases hsaid : q.said with
    | nil => exact .inr ⟨q, rfl, hsaid⟩
    | cons c said => exact .inl ⟨c, said, hsaid⟩

theorem wire_said (piece : Piece id) (rest : List (Piece id)) (tail : Serial) :
    ∃ line, wire (piece :: rest) ++ tail = arriving piece.said ++ line := by
  cases piece <;> exact ⟨_, List.append_assoc _ _ _⟩

/-- After the last character of a packet, only the end of the connection is taken for one. -/
theorem checkClosed_after {s : EspDrv} (hdone : s.bufPos = 0) {pieces : List (Piece id)}
    (hafter : ∀ piece ∈ pieces.head?, piece.StillOpen) (h : Ahead pieces s.espSerial) :
    (pieces = [] ∧ (s.checkClosed id).1 = true) ∨ StaysOpen pieces s := by
  obtain ⟨hopen, tail, hsilent, hline⟩ := h
  have hahead : Ahead pieces s.espSerial := ⟨hopen, tail, hsilent, hline⟩
  match pieces with
  | [] =>
    cases tail with
    | nil =>
      refine .inr ⟨[], [], ?_, ⟨.nil, [], hsilent, rfl⟩, rfl, Nat.le_refl _⟩
      rw [EspDrv.checkClosed, if_pos hdone, hline]
      rfl
    | cons arrival rest =>
      cases arrival with
      | quiet =>
        exact .inr ⟨rest, [], checkClosed_quiet hdone hline, ⟨.nil, rest, hsilent.tail, rfl⟩, rfl,
          Nat.le_refl _⟩
      | char c =>
        by_cases hc : c.toNat = 48 + id.toNat
        · refine .inl ⟨rfl, ?_⟩
          rw [EspDrv.checkClosed, if_pos hdone, hline]
          simp [wire, Serial.available, Serial.peek, hc]
        · exact .inr (staysOpen_char hahead hline hc)
  | piece :: rest =>
    rcases piece.said_cases with ⟨c, text, hsaid⟩ | ⟨q, rfl, hsaid⟩
    · obtain ⟨line, hwire⟩ := wire_said piece rest tail
      have hfirst : s.espSerial = .char c :: (arriving text ++ line) := by
        rw [hline, hwire, hsaid]
        rfl
      exact .inr (staysOpen_char hahead hfirst (hafter piece rfl c (by rw [hsaid]; rfl)))
    · have hfirst : s.espSerial = .quiet :: (wire rest ++ tail) := by
        rw [hline, wire, hsaid]
        rfl
      exact .inr ⟨_, rest, checkClosed_quiet hdone hfirst, ⟨hopen.tail, tail, hsilent, rfl⟩, rfl,
        Nat.le_succ _⟩

theorem getData_char {s : EspDrv} {c : BitVec 8} {rest : Serial} (hline : s.espSerial = .char c :: rest)
    (hid : s.connId = id) (data : BitVec 8) :
    s.getData id data false =
      (true, c, {s with bufPos := s.bufPos - 1, espSerial := rest}.checkClosed id) := by
  rw [EspDrv.getData, if_neg (not_not_intro hid.symm), hline]
  rfl

theorem Within.read (hid : id ≠ 255) {c : BitVec 8} {d : List (BitVec 8)}
    {pieces : List (Piece id)} {s : WiFiEspClient} (h : Within (c :: d) pieces s)
    (b : BitVec 8) :
    ∃ s' k, s.read b = (some c, s') ∧ Pending id (d ++ dataOf pieces) k s' ∧
      k ≤ delays pieces := by
  obtain ⟨line, hline, hahead⟩ := h.line
  have hdata := getData_char hline h.connId b
  have hleft : s.espDrv.bufPos - 1 = d.length := by
    rw [h.bufPos, List.length_cons]
    omega
  rw [WiFiEspClient.read, h.available hid (List.cons_ne_nil c d)]
  simp only [h.sock, hdata, hleft, List.length_cons, if_neg (show ((d.length + 1 : Nat) : Int) ≠ 0 by omega)]
  cases d with
  | nil =>
    rcases @checkClosed_after id {s.espDrv with bufPos := 0, espSerial := line} rfl pieces h.after hahead with
      ⟨rfl, hclosed⟩ | ⟨line', pieces', hchecked, hahead', hdata', hdelays⟩
    · refine ⟨_, 0, rfl, .closed ?_, Nat.zero_le _⟩
      show (WiFiEspClient.closeIf ({s.espDrv with bufPos := 0, espSerial := line}.checkClosed id).1 _).sock = 255
      rw [hclosed]
      rfl
    · refine ⟨_, delays pieces', rfl, ?_, hdelays⟩
      rw [List.nil_append, ← hdata']
      refine .idle ?_
      show Idle pieces' (WiFiEspClient.closeIf
        ({s.espDrv with bufPos := 0, espSerial := line}.checkClosed id).1
        ⟨id, ({s.espDrv with bufPos := 0, espSerial := line}.checkClosed id).2⟩)
      rw [hchecked]
      exact ⟨rfl, EspDrv.unread_of_zero rfl, hahead'⟩
  | cons e d =>
    have hchecked : ∀ s : EspDrv, s.bufPos = (e :: d).length → s.checkClosed id = (false, s) := by
      intro s hpos
      rw [EspDrv.checkClosed, if_neg (by rw [hpos, List.length_cons]; omega)]
    refine ⟨_, delays pieces, rfl, .within (List.cons_ne_nil e d) ?_, Nat.le_refl _⟩
    rw [hchecked]
    · exact ⟨rfl, h.connId, rfl, Nat.lt_of_succ_lt h.short, h.after, line, rfl, hahead⟩
    · rfl

theorem Within.peek (hid : id ≠ 255) {c : BitVec 8} {d : List (BitVec 8)}
    {pieces : List (Piece id)} {s : WiFiEspClient} (h : Within (c :: d) pieces s)
    (b : BitVec 8) : s.peek b = (some c, s) := by
  obtain ⟨line, hline, -⟩ := h.line
  have hchecked : s.espDrv.checkClosed id = (false, s.espDrv) := by
    rw [EspDrv.checkClosed, if_neg (by rw [h.bufPos, List.length_cons]; omega)]
  have hdata : s.espDrv.getData id b true = (true, c, false, s.espDrv) := by
    have hsame : {s.espDrv with espSerial := arriving (c :: d) ++ line} = s.espDrv := by rw [← hline]
    rw [EspDrv.getData, if_neg (not_not_intro h.connId.symm), if_pos rfl, hline]
    show (true, c, {s.espDrv with espSerial := arriving (c :: d) ++ line}.checkClosed id) = _
    rw [hsame, hchecked]
  rw [WiFiEspClient.peek, h.available hid (List.cons_ne_nil c d)]
  simp only [h.sock, hdata, List.length_cons, if_neg (show ((d.length + 1 : Nat) : Int) ≠ 0 by omega)]
  rw [← h.sock]
  rfl

theorem getDataLoop_arriving (a buf : List (BitVec 8)) (s : EspDrv) {rest : Serial}
    (hline : s.espSerial = arriving a ++ rest) :
    EspDrv.getDataLoop a.length buf s =
      (((buf ++ a).length : Int), buf ++ a, {s with bufPos := s.bufPos - a.length, espSerial := rest}) := by
  induction a generalizing buf s with
  | nil =>
    obtain rfl : s.espSerial = rest := hline
    simp [EspDrv.getDataLoop]
  | cons c a ih =>
    rw [List.length_cons, EspDrv.getDataLoop, hline]
    have hcount : s.bufPos - 1 - (a.length : Int) = s.bufPos - ((a.length + 1 : Nat) : Int) := by omega
    refine (ih (buf ++ [c]) _ rfl).trans ?_
    simp only [List.append_assoc, List.singleton_append, hcount]

theorem Within.readBuf (hid : id ≠ 255) {d : List (BitVec 8)} {pieces : List (Piece id)}
    {s : WiFiEspClient} (h : Within d pieces s) (hd : d ≠ []) (size : BitVec 16) :
    ∃ s', s.readBuf size = (((d.take size.toNat).length : Int), d.take size.toNat, s') ∧
      Pending id (d.drop size.toNat ++ dataOf pieces) (delays pieces) s' := by
  obtain ⟨line, hline, hahead⟩ := h.line
  have hpos := List.length_pos_iff.mpr hd
  have hshort := h.short
  have hcount : (if s.espDrv.bufPos < (size.toNat : Int) then BitVec.ofInt 16 s.espDrv.bufPos
      else size).toNat = (d.take size.toNat).length := by
    rw [h.bufPos, List.length_take, BitVec.ofInt_natCast]
    split
    · rw [BitVec.toNat_ofNat, Nat.mod_eq_of_lt (by omega)]
      omega
    · omega
  have hloop := @getDataLoop_arriving (d.take size.toNat) [] s.espDrv
    (arriving (d.drop size.toNat) ++ line)
    (by rw [hline, ← List.append_assoc, ← arriving_append, List.take_append_drop])
  have hdata : s.espDrv.getDataBuf id size = (((d.take size.toNat).length : Int), d.take size.toNat,
      {s.espDrv with bufPos := s.espDrv.bufPos - (d.take size.toNat).length
                     espSerial := arriving (d.drop size.toNat) ++ line}) := by
    rw [EspDrv.getDataBuf, if_neg (not_not_intro h.connId.symm)]
    simp only [hcount]
    exact hloop
  have hleft : s.espDrv.bufPos - ((d.take size.toNat).length : Int) = (d.drop size.toNat).length := by
    rw [h.bufPos, List.length_take, List.length_drop]
    omega
  rw [WiFiEspClient.readBuf, h.available hid hd]
  simp only [h.sock, hdata, if_neg (show (d.length : Int) ≠ 0 by omega), hleft]
  refine ⟨_, rfl, ?_⟩
  cases hdrop : d.drop size.toNat with
  | nil => exact .idle ⟨rfl, EspDrv.unread_of_zero rfl, hahead⟩
  | cons c rest =>
    refine .within (List.cons_ne_nil c rest) ⟨rfl, h.connId, rfl, ?_, h.after, line, rfl, hahead⟩
    have hlength := congrArg List.length hdrop
    rw [List.length_drop] at hlength
    omega

/-! ### Any calls -/

/-- Either there is nothing to be read yet, or the driver is in a packet. -/
theorem Pending.available (hid : id ≠ 255) {left : List (BitVec 8)} {k : Nat} {s : WiFiEspClient}
    (h : Pending id left k s) :
    (∃ s' k', s.available = (0, s') ∧ Pending id left k' s' ∧ k' ≤ k ∧ (left = [] ∨ k' < k)) ∨
      ∃ (d : List (BitVec 8)) (pieces : List (Piece id)) (s' : WiFiEspClient), d ≠ [] ∧
        s.available = s'.available ∧ Within d pieces s' ∧ left = d ++ dataOf pieces ∧
        delays pieces = k := by
  cases h with
  | closed h =>
    refine .inl ⟨s, 0, ?_, .closed h, Nat.le_refl 0, .inl rfl⟩
    rw [WiFiEspClient.available, if_neg (not_not_intro h)]
  | @idle pieces _ h =>
    rcases h.available hid with ⟨p, rest, s', rfl, havailable, hwithin⟩ |
      ⟨pieces', s', havailable, hidle, hdata, hless⟩
    · exact .inr ⟨p.data, rest, s', p.nonempty, havailable.trans (hwithin.available hid p.nonempty).symm,
        hwithin, rfl, rfl⟩
    · refine .inl ⟨s', delays pieces', havailable, hdata ▸ .idle hidle, ?_, ?_⟩
      · rcases hless with ⟨rfl, rfl⟩ | hless
        · exact Nat.le_refl _
        · exact Nat.le_of_lt hless
      · rcases hless with ⟨rfl, -⟩ | hless
        · exact .inl rfl
        · exact .inr hless
  | @within d pieces _ hd h => exact .inr ⟨d, pieces, s, hd, rfl, h, rfl, rfl⟩

/-- The calls that take characters, if there are any. -/
def Call.reads : Call → Bool
  | .available => false
  | .peek _ => false
  | .read _ => true
  | .readBuf size => size ≠ 0

/-- Every call begins by asking what is there. -/
theorem pass_congr {s s' : WiFiEspClient} (h : s.available = s'.available) (call : Call) :
    client.pass call s = client.pass call s' := by
  cases call <;>
    simp only [client, WiFiEspClient.peek, WiFiEspClient.read, WiFiEspClient.readBuf, h]

theorem pass_nothing {s s' : WiFiEspClient} (h : s.available = (0, s')) (call : Call) :
    client.pass call s = (s', []) := by
  cases call with
  | available => simp only [client, h]
  | peek b => simp only [client, WiFiEspClient.peek, h, if_true]
  | read b => simp only [client, WiFiEspClient.read, h, if_true, Option.toList]
  | readBuf size => simp [client, WiFiEspClient.readBuf, h]

/-- The calls in a packet, one by one. -/
theorem Within.step (hid : id ≠ 255) {d : List (BitVec 8)} {pieces : List (Piece id)}
    {s : WiFiEspClient} (h : Within d pieces s) (hd : d ≠ []) (call : Call) :
    ∃ left' k', d ++ dataOf pieces = client.out call s ++ left' ∧
      Pending id left' k' (client.next call s) ∧
      left'.length + k' ≤ (d ++ dataOf pieces).length + delays pieces ∧
      (call.reads = true → left'.length + k' < (d ++ dataOf pieces).length + delays pieces) := by
  obtain ⟨c, rest, rfl⟩ := List.exists_cons_of_ne_nil hd
  have hsame := Pending.within hd h
  cases call with
  | available =>
    refine ⟨_, delays pieces, rfl, ?_, Nat.le_refl _, fun hreads => absurd hreads Bool.false_ne_true⟩
    show Pending id _ _ s.available.2
    rw [h.available hid hd]
    exact hsame
  | peek b =>
    refine ⟨_, delays pieces, rfl, ?_, Nat.le_refl _, fun hreads => absurd hreads Bool.false_ne_true⟩
    show Pending id _ _ (s.peek b).2
    rw [h.peek hid b]
    exact hsame
  | read b =>
    obtain ⟨s', k', hgiven, hpending, hle⟩ := h.read hid b
    have hpass : client.pass (.read b) s = (s', [c]) := by
      simp only [client, hgiven, Option.toList]
    rw [Machine.out, Machine.next, hpass]
    refine ⟨rest ++ dataOf pieces, k', rfl, hpending, ?_, fun _ => ?_⟩ <;>
      rw [List.cons_append, List.length_cons] <;> omega
  | readBuf size =>
    obtain ⟨s', hgiven, hpending⟩ := h.readBuf hid hd size
    have hpass : client.pass (.readBuf size) s = (s', (c :: rest).take size.toNat) := by
      simp only [client, hgiven]
      cases hsize : size.toNat <;> simp
    rw [Machine.out, Machine.next, hpass]
    refine ⟨_, delays pieces, ?_, hpending, ?_, fun hreads => ?_⟩
    · rw [← List.append_assoc, List.take_append_drop]
    · simp only [List.length_append, List.length_drop]
      omega
    · have hsize : 0 < size.toNat := by
        have hne : size ≠ 0 := by simpa [Call.reads] using hreads
        exact Nat.pos_of_ne_zero fun h0 => hne (BitVec.eq_of_toNat_eq h0)
      simp only [List.length_append, List.length_drop, List.length_cons]
      omega

/-- **A call** gives the sketch the next part of the data. One that reads is nearer to the
end after it. -/
theorem Pending.step (hid : id ≠ 255) {left : List (BitVec 8)} {k : Nat} {s : WiFiEspClient}
    (h : Pending id left k s) (call : Call) :
    ∃ left' k', left = client.out call s ++ left' ∧ Pending id left' k' (client.next call s) ∧
      left'.length + k' ≤ left.length + k ∧
      (call.reads = true → left = [] ∨ left'.length + k' < left.length + k) := by
  rcases h.available hid with ⟨s', k', havailable, hpending, hle, hless⟩ |
    ⟨d, pieces, s', hd, havailable, hwithin, rfl, rfl⟩
  · rw [Machine.out, Machine.next, pass_nothing havailable call]
    refine ⟨left, k', rfl, hpending, by omega, fun _ => ?_⟩
    rcases hless with hempty | hless
    · exact .inl hempty
    · exact .inr (by omega)
  · obtain ⟨left', k', hleft, hpending, hle, hless⟩ := hwithin.step hid hd call
    rw [Machine.out, Machine.next, pass_congr havailable call]
    exact ⟨left', k', hleft, hpending, hle, fun hreads => .inr (hless hreads)⟩

/-- What `available` and `peek` say is there, is there. -/
theorem Pending.shown (hid : id ≠ 255) {left : List (BitVec 8)} {k : Nat} {s : WiFiEspClient}
    (h : Pending id left k s) :
    s.available.1 ≤ left.length ∧ ∀ b c, (s.peek b).1 = some c → left.head? = some c := by
  rcases h.available hid with ⟨s', k', havailable, -, -, -⟩ |
    ⟨d, pieces, s', hd, havailable, hwithin, rfl, -⟩
  · refine ⟨?_, fun b c hpeek => ?_⟩
    · rw [havailable]
      exact Int.natCast_nonneg _
    · rw [WiFiEspClient.peek, havailable] at hpeek
      cases hpeek
  · obtain ⟨c, rest, rfl⟩ := List.exists_cons_of_ne_nil hd
    refine ⟨?_, fun b c' hpeek => ?_⟩
    · rw [havailable, hwithin.available hid hd, List.length_append]
      show (((c :: rest).length : Nat) : Int) ≤ _
      omega
    · have hsame : s.peek b = s'.peek b := by rw [WiFiEspClient.peek, WiFiEspClient.peek, havailable]
      rwa [hsame, hwithin.peek hid b] at hpeek

theorem Pending.run (hid : id ≠ 255) {left : List (BitVec 8)} {k : Nat} {s : WiFiEspClient}
    (h : Pending id left k s) (calls : List Call) :
    ∃ rest k', client.log s calls ++ rest = left ∧ Pending id rest k' (client.run s calls) ∧
      (left.length + k ≤ (calls.filter Call.reads).length → rest = []) := by
  induction calls generalizing left k s with
  | nil =>
    refine ⟨left, k, rfl, h, fun hle => List.eq_nil_of_length_eq_zero ?_⟩
    rw [List.filter_nil, List.length_nil] at hle
    omega
  | cons call calls ih =>
    obtain ⟨left', k₁, hleft, hnext, hle, hless⟩ := h.step hid call
    obtain ⟨rest, k', hlog, hpending, hrest⟩ := ih hnext
    refine ⟨rest, k', ?_, hpending, fun hcount => ?_⟩
    · rw [Machine.log_cons, List.append_assoc, hlog, ← hleft]
    · cases hreads : call.reads with
      | false =>
        rw [List.filter_cons_of_neg (by simp [hreads])] at hcount
        exact hrest (Nat.le_trans hle hcount)
      | true =>
        rw [List.filter_cons_of_pos hreads, List.length_cons] at hcount
        rcases hless hreads with rfl | hless
        · rw [(List.nil_eq_append_iff.mp hleft).2] at hlog
          exact (List.append_eq_nil_iff.mp hlog).2
        · exact hrest (by omega)

/-- **The sketch reads its connection**: whatever packets the data comes in, whatever the
module says between them, of other connections too, and however often it is silent there, and
whichever calls the sketch makes with whichever buffers, it is given the data in order, all of
it once it has read as often as there are characters and delays; and what it is shown is what
comes next. -/
theorem stream_read (hid : id ≠ 255) {pieces : List (Piece id)} {s : WiFiEspClient}
    (h : Idle pieces s) (calls : List Call) :
    ∃ rest, client.log s calls ++ rest = dataOf pieces ∧
      ((dataOf pieces).length + delays pieces ≤ (calls.filter Call.reads).length → rest = []) ∧
      (client.run s calls).available.1 ≤ rest.length ∧
      ∀ b c, ((client.run s calls).peek b).1 = some c → rest.head? = some c := by
  obtain ⟨rest, k, hlog, hpending, hrest⟩ := (Pending.idle h).run hid calls
  exact ⟨rest, hlog, hrest, hpending.shown hid⟩

/-- A greeting to connection 1 in two packets, with one of connection 2 between them. -/
def greeting : List (Piece 1) :=
  [.pause ⟨ascii "\r\nOK\r\n", by decide⟩,
    .packet ⟨⟨ascii "\r\n", ⟨1, 3, #v[192, 168, 4, 2], 80⟩, first_iff.mpr (by decide)⟩,
      ascii "hel", rfl, rfl, by decide, by decide⟩,
    .foreign ⟨⟨ascii "\r\n", ⟨2, 4, #v[192, 168, 4, 3], 80⟩, first_iff.mpr (by decide)⟩,
      by decide, by decide⟩,
    .packet ⟨⟨ascii "1234\r\n", ⟨1, 2, #v[192, 168, 4, 2], 80⟩, first_iff.mpr (by decide)⟩,
      ascii "lo", rfl, rfl, by decide, by decide⟩]

theorem greeting_before : greeting.IsChain Piece.Before := by
  refine .cons_cons trivial (.cons_cons ?_ (.cons_cons trivial (.singleton _)))
  unfold Piece.Before Piece.StillOpen
  decide

/-- Seven reads take up its five characters and two delays, if one is not of a whole buffer. -/
theorem stream_read_greeting : ∃ rest,
    client.log ⟨1, EspDrv.cleared (wire greeting ++ arriving (ascii "1,CLOSED\r\n"))⟩
      [.peek 0, .read 0, .readBuf 64, .read 0, .available, .read 0, .read 0, .readBuf 1, .read 0] ++
        rest = ascii "hello" ∧ rest = [] := by
  obtain ⟨rest, hlog, hrest, -, -⟩ := @stream_read 1 (by decide) greeting
    ⟨1, EspDrv.cleared (wire greeting ++ arriving (ascii "1,CLOSED\r\n"))⟩
    ⟨rfl, EspDrv.unread_of_zero rfl, greeting_before, _,
      (by decide : ¬ascii "+IPD," <:+: chars (arriving (ascii "1,CLOSED\r\n"))), rfl⟩
    [.peek 0, .read 0, .readBuf 64, .read 0, .available, .read 0, .read 0, .readBuf 1, .read 0]
  exact ⟨rest, hlog, hrest (by decide)⟩

/-! ### Connection 0

It is also what the driver has for no connection, and its data is offered to everyone. -/

/-- A client of another connection, while the driver is in a packet of connection 0. -/
structure Misled (s : WiFiEspClient) : Prop where
  active : s.sock ≠ 255
  other : s.sock ≠ 0
  connId : s.espDrv.connId = 0
  waiting : 0 < s.espDrv.bufPos
  short : s.espDrv.bufPos < 32768

/-- What a call gives when nothing is read: `read` returns a variable it has not set. -/
def Call.unset : Call → List (BitVec 8)
  | .read b => [b]
  | _ => []

theorem Misled.available {s : WiFiEspClient} (h : Misled s) :
    s.available = (s.espDrv.bufPos, s) := by
  have hwaiting := h.waiting
  have hcount : (BitVec.ofInt 16 s.espDrv.bufPos).toInt = s.espDrv.bufPos := by
    rw [← Int.toNat_of_nonneg (Int.le_of_lt hwaiting), BitVec.ofInt_natCast]
    exact toInt_short (by have := h.short; omega)
  rw [WiFiEspClient.available, if_pos h.active, EspDrv.availData, if_pos ⟨hwaiting, .inr h.connId⟩]
  simp only [hcount, if_pos hwaiting]

theorem Misled.step {s : WiFiEspClient} (h : Misled s) (call : Call) :
    client.pass call s = (s, call.unset) := by
  have havailable := h.available
  have hsome : s.espDrv.bufPos ≠ 0 := Int.ne_of_gt h.waiting
  have hother : s.sock ≠ s.espDrv.connId := h.connId ▸ h.other
  have hdata : ∀ b peek, s.espDrv.getData s.sock b peek = (false, b, false, s.espDrv) :=
    fun b peek => if_pos hother
  cases call with
  | available => simp only [client, havailable, Call.unset]
  | peek b =>
    simp only [client, WiFiEspClient.peek, havailable, if_neg hsome, hdata]
    rfl
  | read b =>
    simp only [client, WiFiEspClient.read, havailable, if_neg hsome, hdata]
    rfl
  | readBuf size =>
    simp only [client, WiFiEspClient.readBuf, havailable, if_neg hsome, EspDrv.getDataBuf,
      if_pos hother]
    rfl

/-- **A client of another connection** is told of what came for connection 0, as often as it
asks, and gets none of it: what `read` returns is what its variable held, and the packet stays
where it is. -/
theorem misled_run {s : WiFiEspClient} (h : Misled s) (calls : List Call) :
    (client.run s calls).available = (s.espDrv.bufPos, s) ∧
      client.log s calls = calls.flatMap Call.unset := by
  induction calls with
  | nil => exact ⟨h.available, rfl⟩
  | cons call calls ih =>
    have hnext : client.next call s = s := congrArg Prod.fst (h.step call)
    have hout : client.out call s = call.unset := congrArg Prod.snd (h.step call)
    rw [Machine.run_cons, Machine.log_cons, hnext, hout, ih.2, List.flatMap_cons]
    exact ⟨ih.1, rfl⟩

/-- A packet for connection 0 and a client of connection 1, which looks first. -/
theorem misled_run_packet :
    let s := client.run ⟨1, EspDrv.cleared (arriving (ascii "+IPD,0,3,\"192.168.4.2\",80:hel"))⟩
      [.available]
    s.available.1 = 3 ∧ client.log s [.read 255, .readBuf 64, .read 254] = [255, 254] := by
  have h := misled_run (s := client.run
      ⟨1, EspDrv.cleared (arriving (ascii "+IPD,0,3,\"192.168.4.2\",80:hel"))⟩ [.available])
    ⟨by decide, by decide, by decide, by decide, by decide⟩
  exact ⟨(congrArg Prod.fst (h []).1).trans (by decide), (h _).2⟩

end MakerSpace.WiFiEsp
