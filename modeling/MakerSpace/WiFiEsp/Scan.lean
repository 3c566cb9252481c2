import MakerSpace.WiFiEsp.Answers
import MakerSpace.WiFiEsp.Packets

/-! The networks in reach, `getScanNetworks`.

The module lists them a line each, and the driver takes the lines apart with the functions it
reads answers with, so its ring buffer goes from one to the next. `getScanNetworks_reads`: the
first ten get into the tables as they are listed, all but the longest names, and the number
returned stops at nine. -/
namespace MakerSpace.WiFiEsp.EspDrv
open Codec Search Decimal

def wlNetworksListMaxnum : Nat := 10

def wlSsidMaxLength : Nat := 32

def cwlapTag : Tag := ⟨ascii "+CWLAP:(", by decide⟩

def quoteTag : Tag := ⟨ascii "\"", by decide⟩

def commaTag : Tag := ⟨ascii ",", by decide⟩

/-- The tables a scan fills. -/
structure Networks where
  networkSsid : Vector (Vector (BitVec 8) 32) 10
  networkRssi : Vector (BitVec 32) 10
  networkEncr : Vector (BitVec 8) 10

/-- One turn of the loop. -/
def scanNetwork (ssidListNum : Fin 10) (t : Networks) (s : EspDrv) :
    Option Nat × Networks × EspDrv :=
  let (encr, espSerial) := s.espSerial.parseInt
  let (_, s) := {s with espSerial}.readUntil (some quoteTag) true
  let (idx, s) := s.readUntil (some quoteTag) false
  let ssid := if idx = some numEspTags then s.ringBuf.getStrN (.replicate 32 0) 1 (wlSsidMaxLength - 1)
    else t.networkSsid.get ssidListNum
  let (_, s) := s.readUntil (some commaTag) true
  let (rssi, espSerial) := s.espSerial.parseInt
  let (idx, s) := {s with espSerial}.readUntil (some cwlapTag) true
  (idx, ⟨t.networkSsid.set ssidListNum ssid ssidListNum.isLt,
    t.networkRssi.set ssidListNum (.ofInt 32 rssi) ssidListNum.isLt,
    t.networkEncr.set ssidListNum (.ofInt 8 encr) ssidListNum.isLt⟩, s)

theorem turn_lt (left : Nat) : wlNetworksListMaxnum - 1 - left < 10 := Nat.lt_succ_of_le (Nat.sub_le _ _)

/-- `ssidListNum` when `left` turns may follow. -/
def turn (left : Nat) : Fin 10 := ⟨wlNetworksListMaxnum - 1 - left, turn_lt left⟩

/-- The loop, which may take `left` turns after this one. -/
def scanLoop : Nat → Option Nat → Networks → EspDrv → Option Nat × Nat × Networks × EspDrv
  | 0, idx, t, s =>
    if idx = some numEspTags then
      let (idx, t, s) := scanNetwork (turn 0) t s
      (idx, (turn 0).val, t, s)
    else (idx, (turn 0).val, t, s)
  | left + 1, idx, t, s =>
    if idx = some numEspTags then
      let (idx, t, s) := scanNetwork (turn (left + 1)) t s
      scanLoop left idx t s
    else (idx, (turn (left + 1)).val, t, s)

/-- The -1 of a timeout is returned as an unsigned byte. -/
def getScanNetworks (t : Networks) (s : EspDrv) : BitVec 8 × Networks × EspDrv :=
  let (idx, s) := s.espEmptyBuf.readUntil (some cwlapTag) true
  let (idx, ssidListNum, t, s) := scanLoop (wlNetworksListMaxnum - 1) idx t s
  (if idx = none then -1 else .ofNat 8 ssidListNum, t, s)

/-! ### The list of the module -/

/-- A network as the module lists it: the signal is below zero, and more of the line may follow. -/
structure Network where
  encr : Nat
  ssid : List (BitVec 8)
  rssi : Nat
  more : List (BitVec 8)
  plain : 0 ∉ ssid ∧ 34 ∉ ssid
  line : 10 ∉ more ∧ 40 ∉ more

def Network.text (n : Network) : List (BitVec 8) :=
  numeral n.encr ++ ascii ",\"" ++ n.ssid ++ ascii "\",-" ++ numeral n.rssi ++ ascii "," ++ n.more ++
    ascii ")\r\n"

def listed (networks : List Network) : List (BitVec 8) :=
  networks.flatMap (fun n => cwlapTag.chars ++ n.text) ++ ascii "\r\nOK\r\n"

/-! ### Up to the next network -/

/-- Before the last line break of a tag stands a letter. -/
theorem table_letter {old text : List (BitVec 8)} {c : BitVec 8} (hc : c = 41 ∨ c = 10) :
    ∀ t ∈ espTags, ¬t.chars <:+ old ++ (text ++ [c, 13, 10]) := by
  intro t ht hends
  have hletter : ∀ t ∈ espTags, 3 ≤ t.chars.length ∧ ¬[41, 13, 10] <:+ t.chars ∧
      ¬[10, 13, 10] <:+ t.chars := by decide
  obtain ⟨hlong, hclose, hfeed⟩ := hletter t ht
  have hin : [c, 13, 10] <:+ t.chars := by
    refine List.suffix_of_suffix_length_le ?_ hends hlong
    rw [← List.append_assoc]
    exact List.suffix_append _ _
  rcases hc with rfl | rfl
  · exact hclose hin
  · exact hfeed hin

theorem search_harmless {old text more : List (BitVec 8)} {tag : Tag} {findTags : Bool}
    (hsome : tag.chars ≠ [])
    (hmore : ∀ c ∈ more, tag.chars.getLast? ≠ some c ∧ (findTags = true → c ≠ 10)) (rest : Serial) :
    search (answer old (some tag) findTags) text (arriving more ++ rest) =
      search (answer old (some tag) findTags) (text ++ more) rest := by
  refine search_skip (fun q hq hin => ?_) rest
  obtain ⟨init, c, rfl⟩ := List.eq_nil_or_concat' q |>.resolve_left hq
  have hc := hmore c (hin.subset (List.mem_append_right _ List.mem_cons_self))
  rw [← List.append_assoc]
  exact answer_none hc.1 hsome fun hfind => table_line_feed (hc.2 hfind)

theorem search_break {old text : List (BitVec 8)} {c : BitVec 8} (hc : c = 41 ∨ c = 10)
    (rest : Serial) :
    search (answer old (some cwlapTag) true) (text ++ [c, 13]) (.char 10 :: rest) =
      search (answer old (some cwlapTag) true) (text ++ [c, 13, 10]) rest := by
  have hnone : answer old (some cwlapTag) true (text ++ [c, 13] ++ [10]) = none :=
    answer_none (by decide) (by decide) fun _ => by
      rw [List.append_assoc]
      exact table_letter hc
  rw [search, hnone, List.append_assoc]
  rfl

/-- A tag of one character is found where the character is. -/
theorem readUntil_char {tag : Tag} {findTags : Bool} {e : BitVec 8} (htag : tag.chars = [e])
    (he : e ≠ 10) {s : EspDrv} {text : List (BitVec 8)} {rest : Serial}
    (htext : ∀ c ∈ text, c ≠ e ∧ (findTags = true → c ≠ 10))
    (hline : s.espSerial = arriving text ++ .char e :: rest) :
    s.readUntil (some tag) findTags =
      (some numEspTags, {s with ringBuf := s.ringBuf.written (text ++ [e]), espSerial := rest}) := by
  have hfound := @answer_found tag [] e htag he s.ringBuf.cells text findTags
  have hskip : ∀ c ∈ text, tag.chars.getLast? ≠ some c ∧ (findTags = true → c ≠ 10) := fun c hc => by
    refine ⟨?_, (htext c hc).2⟩
    rw [htag]
    exact fun h => (htext c hc).1 (Option.some.inj h).symm
  rw [List.append_nil] at hfound
  rw [readUntil_remembers, hline, search_harmless (by rw [htag]; exact List.cons_ne_nil _ _) hskip,
    List.nil_append, search, hfound]

/-- The end of a network's line. -/
theorem search_rest {old more : List (BitVec 8)} (hmore : 10 ∉ more ∧ 40 ∉ more) (rest : Serial) :
    search (answer old (some cwlapTag) true) [] (arriving (more ++ [41, 13, 10]) ++ rest) =
      search (answer old (some cwlapTag) true) (more ++ [41, 13, 10]) rest := by
  have hskip : ∀ c ∈ more ++ [41, 13], cwlapTag.chars.getLast? ≠ some c ∧ (true = true → c ≠ 10) := by
    intro c hc
    rw [show cwlapTag.chars.getLast? = some 40 from rfl]
    rcases List.mem_append.mp hc with hc | hc
    · exact ⟨fun h => hmore.2 (Option.some.inj h ▸ hc), fun _ h => hmore.1 (h ▸ hc)⟩
    · have hbreak : ∀ c ∈ ([41, 13] : List (BitVec 8)), some 40 ≠ some c ∧ (true = true → c ≠ 10) := by
        decide
      exact hbreak c hc
  have hsplit : more ++ [41, 13, 10] = (more ++ [41, 13]) ++ [10] := by simp
  rw [hsplit, arriving_append, List.append_assoc, search_harmless (by decide) hskip]
  exact (search_break (.inl rfl) rest).trans (by rw [hsplit])

theorem search_cwlap (old text : List (BitVec 8)) (rest : Serial) :
    search (answer old (some cwlapTag) true) text (arriving cwlapTag.chars ++ rest) =
      (some numEspTags, text ++ ascii "+CWLAP:" ++ [40], rest) := by
  have htag : cwlapTag.chars = ascii "+CWLAP:" ++ [40] := rfl
  have hfound := answer_found htag (by decide) old text true
  rw [htag, arriving_append, List.append_assoc, search_harmless (by decide) (by decide),
    arriving_cons, List.cons_append, search, hfound]
  rfl

/-- The rest of a network, and the next one. -/
theorem readUntil_next {s : EspDrv} {more : List (BitVec 8)} {rest : Serial}
    (hmore : 10 ∉ more ∧ 40 ∉ more)
    (hline : s.espSerial = arriving (more ++ [41, 13, 10]) ++ (arriving cwlapTag.chars ++ rest)) :
    ∃ ringBuf, s.readUntil (some cwlapTag) true =
      (some numEspTags, {s with ringBuf, espSerial := rest}) :=
  ⟨_, by rw [readUntil_remembers, hline, search_rest hmore, search_cwlap]⟩

/-- The end of the list. -/
theorem readUntil_last {s : EspDrv} {more : List (BitVec 8)} {rest : Serial}
    (hmore : 10 ∉ more ∧ 40 ∉ more)
    (hline : s.espSerial =
      arriving (more ++ [41, 13, 10]) ++ (arriving (ascii "\r\nOK\r\n") ++ rest)) :
    ∃ ringBuf, s.readUntil (some cwlapTag) true =
      (some 0, {s with ringBuf, espSerial := rest}) := by
  have hok : ascii "\r\nOK\r\n" = [13, 10, 79, 75, 13, 10] := rfl
  have hsplit : more ++ [41, 13, 10] ++ [13] = (more ++ [41, 13]) ++ [10, 13] := by simp
  have hfound : answer s.ringBuf.cells (some cwlapTag) true
      (more ++ [41, 13] ++ [10, 13, 10] ++ [79, 75, 13] ++ [10]) = some 0 := by
    have hends : (ascii "\r\nOK\r\n").isSuffixOf (s.ringBuf.cells ++
        (more ++ [41, 13] ++ [10, 13, 10] ++ [79, 75, 13] ++ [10])) = true := by
      rw [List.isSuffixOf_iff_suffix]
      exact ⟨s.ringBuf.cells ++ (more ++ [41, 13] ++ [10]), by simp [hok]⟩
    rw [answer, foundTag, espTags, List.findIdx?_cons, if_pos hends]
    rfl
  have hclosed : search (answer s.ringBuf.cells (some cwlapTag) true) [] s.espSerial = search
      (answer s.ringBuf.cells (some cwlapTag) true) (more ++ [41, 13, 10])
      (arriving [13] ++ (.char 10 :: (arriving [79, 75, 13] ++ (.char 10 :: rest)))) := by
    rw [hline]
    exact search_rest hmore _
  have hbroken : ∀ rest, search (answer s.ringBuf.cells (some cwlapTag) true)
      (more ++ [41, 13, 10] ++ [13]) (.char 10 :: rest) =
        search (answer s.ringBuf.cells (some cwlapTag) true) (more ++ [41, 13] ++ [10, 13, 10]) rest := by
    rw [hsplit]
    exact search_break (.inr rfl)
  rw [search_harmless (by decide) (by decide), hbroken, search_harmless (by decide) (by decide),
    search, hfound] at hclosed
  exact ⟨_, by rw [readUntil_remembers, hclosed]⟩

/-! ### A network -/

theorem parseInt_minus {c : BitVec 8} (hc : isDigit c = false) (n : Nat) (rest : Serial) :
    Serial.parseInt (.char 45 :: (arriving (numeral n) ++ .char c :: rest)) =
      (-(n : Int), .char c :: rest) := by
  have hdigits : Serial.parseDigits 0 (arriving (numeral n) ++ .char c :: rest) =
      (n, .char c :: rest) := by
    rw [Serial.parseDigits_digits fun a ha => numeral_digit ha, readDigits_numeral,
      Serial.parseDigits, if_neg (by simp [hc])]
  rw [Serial.parseInt, if_pos rfl, hdigits]

/-- What the tables say of a network. -/
def Networks.entry (t : Networks) (k : Fin 10) : BitVec 8 × List (BitVec 8) × BitVec 32 :=
  (t.networkEncr.get k, cString (t.networkSsid.get k), t.networkRssi.get k)

def Network.entry (n : Network) : BitVec 8 × List (BitVec 8) × BitVec 32 :=
  (.ofNat 8 n.encr, (RingBuffer.lastPart 32 n.ssid [34]).take 31, .ofInt 32 (-n.rssi))

theorem ssid_copied {ssid : List (BitVec 8)} (hplain : 0 ∉ ssid) (rb : RingBuffer 32) :
    cString (RingBuffer.getStrN (.replicate 32 0) 1 (wlSsidMaxLength - 1)
      (rb.written (ssid ++ [34]))) = (RingBuffer.lastPart 32 ssid [34]).take 31 := by
  rw [show wlSsidMaxLength - 1 = 31 from rfl]
  have hsplit : RingBuffer.earlier 32 (ssid.length + [(34 : BitVec 8)].length) ≤ ssid.length :=
    Nat.mul_div_le _ _
  have hcopied := RingBuffer.getStrN_written (Vector.replicate 32 0) rb (by decide)
    (List.cons_ne_nil 34 []) (by decide : 31 + 1 ≤ 32) (by decide) hsplit hplain
  generalize hcut : (RingBuffer.lastPart 32 ssid [34]).take 31 = cut at hcopied ⊢
  have hlength : cut.length ≤ 31 := hcut ▸ List.length_take_le _ _
  have hzeros : (Vector.replicate 32 (0 : BitVec 8)).toList.drop cut.length =
      List.replicate (32 - cut.length) 0 := by
    rw [Vector.toList_replicate, List.drop_replicate]
  rw [hzeros] at hcopied
  refine (cString_iff hcopied ?_ ?_).mpr ?_
  · rw [← hcut]
    exact fun hin => hplain (List.mem_of_mem_drop (List.mem_of_mem_take hin))
  · refine List.ne_nil_of_length_pos ?_
    rw [List.length_replicate]
    omega
  · rw [List.head?_replicate, if_neg (by omega)]

theorem get_set_self {α : Type} {m : Nat} (v : Vector α m) (k : Fin m) (a : α) :
    (v.set k a k.isLt).get k = a := Vector.getElem_set_self k.isLt

theorem get_set_ne {α : Type} {m : Nat} (v : Vector α m) {j k : Fin m} (h : j ≠ k) (a : α) :
    (v.set k a k.isLt).get j = v.get j :=
  Vector.getElem_set_ne k.isLt j.isLt fun heq => h (Fin.ext heq.symm)

/-- A turn of the loop once its last search is known. -/
theorem scanNetwork_reads (k : Fin 10) (t : Networks) {s : EspDrv} {n : Network} {line rest : Serial}
    {idx : Option Nat}
    (hline : s.espSerial = arriving n.text ++ line)
    (hlast : ∀ s : EspDrv, s.espSerial = arriving (44 :: n.more ++ [41, 13, 10]) ++ line →
      ∃ ringBuf, s.readUntil (some cwlapTag) true = (idx, {s with ringBuf, espSerial := rest})) :
    ∃ t' ringBuf, scanNetwork k t s = (idx, t', {s with ringBuf, espSerial := rest}) ∧
      t'.entry k = n.entry ∧ ∀ j ≠ k, t'.entry j = t.entry j := by
  have hencr : s.espSerial.parseInt = ((n.encr : Int), .char 44 :: .char 34 :: (arriving n.ssid ++
      .char 34 :: .char 44 :: .char 45 :: (arriving (numeral n.rssi) ++
        .char 44 :: (arriving (n.more ++ [41, 13, 10]) ++ line)))) := by
    have hpunctuation : ascii ",\"" = [44, 34] ∧ ascii "\",-" = [34, 44, 45] ∧ ascii "," = [44] ∧
        ascii ")\r\n" = [41, 13, 10] := ⟨rfl, rfl, rfl, rfl⟩
    rw [hline, ← @Serial.parseInt_numeral 44 (by decide)]
    simp only [Network.text, hpunctuation, arriving_append, arriving_cons, arriving_nil,
      List.append_assoc, List.cons_append, List.nil_append]
  have hopen := @readUntil_char quoteTag true 34 rfl (by decide)
    {s with espSerial := .char 44 :: .char 34 :: (arriving n.ssid ++
      .char 34 :: .char 44 :: .char 45 :: (arriving (numeral n.rssi) ++
        .char 44 :: (arriving (n.more ++ [41, 13, 10]) ++ line)))} [44] _ (by decide) rfl
  have hssid := @readUntil_char quoteTag false 34 rfl (by decide)
    {s with
      ringBuf := s.ringBuf.written ([44] ++ [34])
      espSerial := arriving n.ssid ++ .char 34 :: .char 44 :: .char 45 ::
        (arriving (numeral n.rssi) ++ .char 44 :: (arriving (n.more ++ [41, 13, 10]) ++ line))} n.ssid _
    (fun c hc => ⟨fun h => n.plain.2 (h ▸ hc), fun h => absurd h Bool.false_ne_true⟩) rfl
  have hcomma := @readUntil_char commaTag true 44 rfl (by decide)
    {s with
      ringBuf := (s.ringBuf.written ([44] ++ [34])).written (n.ssid ++ [34])
      espSerial := .char 44 :: .char 45 :: (arriving (numeral n.rssi) ++
        .char 44 :: (arriving (n.more ++ [41, 13, 10]) ++ line))} [] _ (by simp) rfl
  have hrssi := @parseInt_minus 44 (by decide) n.rssi (arriving (n.more ++ [41, 13, 10]) ++ line)
  obtain ⟨ringBuf, hnext⟩ := hlast {s with
    ringBuf := ((s.ringBuf.written ([44] ++ [34])).written (n.ssid ++ [34])).written ([] ++ [44])
    espSerial := .char 44 :: (arriving (n.more ++ [41, 13, 10]) ++ line)} rfl
  have hcopied := ssid_copied n.plain.1 (s.ringBuf.written ([44] ++ [34]))
  simp only [scanNetwork, hencr, hopen, hssid, hcomma, hrssi, hnext, if_true]
  refine ⟨_, ringBuf, rfl, ?_, fun j hj => ?_⟩
  · simp only [Networks.entry, Network.entry, get_set_self, BitVec.ofInt_natCast]
    rw [hcopied]
  · simp only [Networks.entry, get_set_ne _ hj]

/-- A turn of the loop at a network of the list. -/
theorem scanNetwork_listed (k : Fin 10) (t : Networks) {s : EspDrv} {n : Network}
    {networks : List Network} {rest : Serial}
    (hline : s.espSerial = arriving (n.text ++ listed networks) ++ rest) :
    ∃ idx t' s', scanNetwork k t s = (some idx, t', s') ∧ t'.entry k = n.entry ∧
      (∀ j ≠ k, t'.entry j = t.entry j) ∧
      (networks = [] ∧ idx = 0 ∨ ∃ n' networks', networks = n' :: networks' ∧ idx = numEspTags ∧
        s'.espSerial = arriving (n'.text ++ listed networks') ++ rest) := by
  have hmore : 10 ∉ 44 :: n.more ∧ 40 ∉ 44 :: n.more :=
    ⟨List.not_mem_cons_of_ne_of_not_mem (by decide) n.line.1,
      List.not_mem_cons_of_ne_of_not_mem (by decide) n.line.2⟩
  cases networks with
  | nil =>
    rw [show listed [] = ascii "\r\nOK\r\n" from rfl, arriving_append, List.append_assoc] at hline
    obtain ⟨t', ringBuf, hscan, hentry, hother⟩ := scanNetwork_reads k t hline
      fun s h => readUntil_last hmore h
    exact ⟨0, t', _, hscan, hentry, hother, .inl ⟨rfl, rfl⟩⟩
  | cons n' networks =>
    have hnext : listed (n' :: networks) = cwlapTag.chars ++ (n'.text ++ listed networks) := by
      simp [listed]
    rw [hnext, arriving_append, arriving_append, List.append_assoc, List.append_assoc] at hline
    obtain ⟨t', ringBuf, hscan, hentry, hother⟩ := scanNetwork_reads k t hline
      fun s h => readUntil_next hmore h
    exact ⟨numEspTags, t', _, hscan, hentry, hother, .inr ⟨n', networks, rfl, rfl, rfl⟩⟩

theorem scanLoop_end {idx : Option Nat} (h : idx ≠ some numEspTags) (left : Nat) (t : Networks)
    (s : EspDrv) : scanLoop left idx t s = (idx, (turn left).val, t, s) := by
  cases left <;> rw [scanLoop, if_neg h]

theorem turn_ne {left : Nat} {j : Fin 10} (h : j.val < 9 - left) : j ≠ turn left :=
  fun heq => Nat.ne_of_lt h (congrArg Fin.val heq)

theorem turn_eq {left : Nat} {j : Fin 10} (h : j.val = 9 - left + 0) : j = turn left := Fin.ext h

/-- **The loop** puts the networks into the tables from the current index on, as long as there
is room, and counts them up to one less. -/
theorem scanLoop_reads {left : Nat} (hleft : left ≤ 9) (n : Network) (networks : List Network)
    (t : Networks) {s : EspDrv} {rest : Serial}
    (hline : s.espSerial = arriving (n.text ++ listed networks) ++ rest) :
    ∃ idx t' s', scanLoop left (some numEspTags) t s =
        (some idx, min (9 - left + (n :: networks).length) 9, t', s') ∧
      (∀ j : Fin 10, j.val < 9 - left → t'.entry j = t.entry j) ∧
      ∀ i (hi : i < (n :: networks).length) (j : Fin 10), j.val = 9 - left + i →
        t'.entry j = (n :: networks)[i].entry := by
  induction left generalizing n networks t s with
  | zero =>
    obtain ⟨idx, t', s', hscan, hentry, hother, -⟩ := scanNetwork_listed (turn 0) t hline
    refine ⟨idx, t', s', ?_, fun j hj => hother j (turn_ne hj), fun i hi j hj => ?_⟩
    · rw [scanLoop, if_pos rfl, hscan, List.length_cons, Nat.min_eq_right (by omega)]
      rfl
    · obtain rfl : i = 0 := by omega
      rw [turn_eq hj]
      exact hentry
  | succ left ih =>
    obtain ⟨idx, t', s', hscan, hentry, hother, ⟨rfl, rfl⟩ | ⟨n', networks, rfl, rfl, hline'⟩⟩ :=
      scanNetwork_listed (turn (left + 1)) t hline
    · refine ⟨0, t', s', ?_, fun j hj => hother j (turn_ne hj), fun i hi j hj => ?_⟩
      · rw [scanLoop, if_pos rfl, hscan]
        show scanLoop left (some 0) t' s' = _
        rw [@scanLoop_end (some 0) (by decide), List.length_singleton, Nat.min_eq_left (by omega)]
        refine congrArg (fun count => (some 0, count, t', s')) ?_
        show 9 - left = _
        omega
      · obtain rfl : i = 0 := by simpa using hi
        rw [turn_eq hj]
        exact hentry
    · obtain ⟨idx, t'', s'', hloop, hkept, hread⟩ := ih (by omega) n' networks t' hline'
      refine ⟨idx, t'', s'', ?_, fun j hj => ?_, fun i hi j hj => ?_⟩
      · rw [scanLoop, if_pos rfl, hscan]
        refine hloop.trans (congrArg (fun count => (some idx, count, t'', s'')) ?_)
        simp only [List.length_cons]
        omega
      · rw [hkept j (by omega)]
        exact hother j (turn_ne hj)
      · cases i with
        | zero =>
          rw [hkept j (by omega), turn_eq hj]
          exact hentry
        | succ i => exact hread i (Nat.lt_of_succ_lt_succ hi) j (by omega)

theorem ssid_whole_iff (ssid : List (BitVec 8)) :
    (RingBuffer.lastPart 32 ssid [34]).take 31 = ssid ↔ ssid.length < wlSsidMaxLength := by
  constructor
  · intro h
    have hlength := List.length_take_le 31 (RingBuffer.lastPart 32 ssid [34])
    rw [h] at hlength
    exact Nat.lt_succ_of_le hlength
  · intro h
    have hnone : RingBuffer.earlier 32 (ssid.length + [(34 : BitVec 8)].length) = 0 := by
      rw [RingBuffer.earlier, List.length_singleton, Nat.add_sub_cancel,
        Nat.div_eq_of_lt (show ssid.length < 32 from h)]
    rw [RingBuffer.lastPart, hnone, List.drop_zero, List.take_of_length_le (Nat.le_of_lt_succ h)]

/-- **The scan reads the list**: of the first ten networks the tables hold the encryption, the
signal strength and, if it is shorter than the table's 32 characters, the name. But the number
returned is never ten. -/
theorem getScanNetworks_reads {networks : List Network} (hsome : networks ≠ []) (t : Networks)
    {s : EspDrv} {old rest : Serial} (hold : .quiet ∉ old)
    (hline : s.espSerial = old ++ .quiet :: (arriving (listed networks) ++ rest)) :
    ∃ t' s', s.getScanNetworks t = (.ofNat 8 (min networks.length 9), t', s') ∧
      ∀ i (hi : i < networks.length) (j : Fin 10), j.val = i →
        t'.networkEncr.get j = .ofNat 8 networks[i].encr ∧
        t'.networkRssi.get j = .ofInt 32 (-networks[i].rssi) ∧
        (cString (t'.networkSsid.get j) = networks[i].ssid ↔
          networks[i].ssid.length < wlSsidMaxLength) := by
  obtain ⟨n, networks, rfl⟩ := List.exists_cons_of_ne_nil hsome
  have hnext : listed (n :: networks) = cwlapTag.chars ++ (n.text ++ listed networks) := by
    simp [listed]
  have hfirst : s.espEmptyBuf.readUntil (some cwlapTag) true = (some numEspTags,
      {s with
        ringBuf := s.ringBuf.written ([] ++ ascii "+CWLAP:" ++ [40])
        espSerial := arriving (n.text ++ listed networks) ++ rest}) := by
    rw [espEmptyBuf_line hold hline, readUntil_remembers, hnext, arriving_append, List.append_assoc,
      search_cwlap]
  obtain ⟨idx, t', s', hloop, -, hread⟩ := @scanLoop_reads 9 (Nat.le_refl 9) n networks t
    {s with
      ringBuf := s.ringBuf.written ([] ++ ascii "+CWLAP:" ++ [40])
      espSerial := arriving (n.text ++ listed networks) ++ rest} rest rfl
  refine ⟨t', s', ?_, fun i hi j hj => ?_⟩
  · have hloop' : scanLoop (wlNetworksListMaxnum - 1) (some numEspTags) t
        {s with
          ringBuf := s.ringBuf.written ([] ++ ascii "+CWLAP:" ++ [40])
          espSerial := arriving (n.text ++ listed networks) ++ rest} =
        (some idx, min (9 - 9 + (n :: networks).length) 9, t', s') := hloop
    rw [getScanNetworks, hfirst]
    simp only [hloop', reduceCtorEq, if_false, Nat.sub_self, Nat.zero_add]
  · have hentry := hread i hi j (by omega)
    simp only [Networks.entry, Network.entry, Prod.mk.injEq] at hentry
    obtain ⟨hencr, hssid, hrssi⟩ := hentry
    exact ⟨hencr, hrssi, by rw [hssid]; exact ssid_whole_iff _⟩

/-- Two networks, the second with the longest name there is. -/
def twoNetworks : List Network :=
  [⟨3, ascii "home", 60, ascii "1", by decide, by decide⟩,
    ⟨0, ascii "the longest name a network takes", 71, ascii "6", by decide, by decide⟩]

theorem getScanNetworks_reads_two : ∃ t' s',
    (cleared (.quiet :: (arriving (listed twoNetworks) ++ []))).getScanNetworks
        ⟨.replicate 10 (.replicate 32 0), .replicate 10 0, .replicate 10 0⟩ = (2, t', s') ∧
      t'.networkEncr.get (turn 9) = 3 ∧ cString (t'.networkSsid.get (turn 9)) = ascii "home" ∧
      cString (t'.networkSsid.get (turn 8)) ≠ ascii "the longest name a network takes" := by
  obtain ⟨t', s', hscan, hread⟩ := @getScanNetworks_reads twoNetworks (by decide)
    ⟨.replicate 10 (.replicate 32 0), .replicate 10 0, .replicate 10 0⟩
    (cleared (.quiet :: (arriving (listed twoNetworks) ++ []))) [] [] (by decide) rfl
  obtain ⟨hencr, -, hname⟩ := hread 0 (by decide) (turn 9) rfl
  obtain ⟨-, -, hlong⟩ := hread 1 (by decide) (turn 8) rfl
  exact ⟨t', s', hscan, hencr, hname.mpr (by decide), fun h => absurd (hlong.mp h) (by decide)⟩

end MakerSpace.WiFiEsp.EspDrv
