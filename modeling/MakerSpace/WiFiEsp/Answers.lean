import MakerSpace.WiFiEsp.EspDrv

/-! What the driver makes of the module's answers.

`readUntil_remembers`: a driver that keeps 32 characters finds what one would find that
kept the whole text, and before it what the buffer held already. `answers_right`: that
changes nothing until a text goes round the buffer. `sendCmdGet_reads`: when the text
between two tags gets to the sketch as it is. -/
namespace MakerSpace.WiFiEsp.EspDrv
open Codec Search Decimal

/-- The tag found at the end of a text, something standing before it. -/
def answer (old : List (BitVec 8)) (tag : Option Tag) (findTags : Bool) (text : List (BitVec 8)) :
    Option Nat :=
  foundTag (fun t => t.chars.isSuffixOf (old ++ text)) tag findTags

theorem foundTag_written (tag : Option Tag) (findTags : Bool) (text : List (BitVec 8))
    (rb : RingBuffer 32) :
    foundTag (fun t => (rb.written text).endsWith t.chars t.short) tag findTags =
      answer rb.cells tag findTags text := by
  have hends : (fun t : Tag => (rb.written text).endsWith t.chars t.short) =
      fun t => t.chars.isSuffixOf (rb.cells ++ text) := by
    funext t
    rw [Bool.eq_iff_iff, RingBuffer.endsWith_written, List.isSuffixOf_iff_suffix]
  rw [answer, hends]

theorem readUntilLoop_eq (tag : Option Tag) (findTags : Bool) (line : Serial)
    (text : List (BitVec 8)) (rb : RingBuffer 32) :
    readUntilLoop tag findTags line (rb.written text) =
      let (ret, text, rest) := search (answer rb.cells tag findTags) text line
      (ret, rb.written text, rest) := by
  induction line generalizing text with
  | nil => rfl
  | cons arrival rest ih =>
    cases arrival with
    | quiet => rfl
    | char c =>
      rw [readUntilLoop, ← RingBuffer.written_concat, foundTag_written, search]
      cases answer rb.cells tag findTags (text ++ [c]) with
      | some ret => rfl
      | none => exact ih (text ++ [c])

/-- **The ring buffer is as good as the whole text**, read after what it held before. -/
theorem readUntil_remembers (tag : Option Tag) (findTags : Bool) (s : EspDrv) :
    s.readUntil tag findTags =
      let (ret, text, rest) := search (answer s.ringBuf.cells tag findTags) [] s.espSerial
      (ret, {s with ringBuf := s.ringBuf.written text, espSerial := rest}) := by
  have hloop := readUntilLoop_eq tag findTags s.espSerial [] s.ringBuf
  rw [readUntil]
  exact congrArg (fun r : Option Nat × RingBuffer 32 × Serial =>
    (r.1, {s with ringBuf := r.2.1, espSerial := r.2.2})) hloop

/-! ### As if the buffer were not there -/

/-- What `readUntil` is asked for. -/
structure Request where
  tag : Option Tag
  findTags : Bool
  plain : ∀ t ∈ tag, 0 ∉ t.chars

theorem espTags_plain : ∀ t ∈ espTags, 0 ∉ t.chars := by decide

theorem answer_fresh {rb : RingBuffer 32} (h : rb.Fresh) (r : Request) :
    answer rb.cells r.tag r.findTags = answer [] r.tag r.findTags := by
  have hends : ∀ t : Tag, 0 ∉ t.chars → ∀ text : List (BitVec 8),
      t.chars.isSuffixOf (rb.cells ++ text) = t.chars.isSuffixOf ([] ++ text) := by
    intro t hplain text
    rw [Bool.eq_iff_iff, List.isSuffixOf_iff_suffix, List.isSuffixOf_iff_suffix,
      h.suffix_iff hplain, List.nil_append]
  funext text
  have htable : espTags.findIdx? (fun t => t.chars.isSuffixOf (rb.cells ++ text)) =
      espTags.findIdx? fun t => t.chars.isSuffixOf ([] ++ text) := by
    have hmap := congrArg (List.findIdx? id)
      (List.map_congr_left fun t ht => hends t (espTags_plain t ht) text)
    rwa [List.findIdx?_map, List.findIdx?_map] at hmap
  have htag : r.tag.any (fun t => t.chars.isSuffixOf (rb.cells ++ text)) =
      r.tag.any fun t => t.chars.isSuffixOf ([] ++ text) := by
    cases htag : r.tag with
    | none => rfl
    | some t => exact hends t (r.plain t htag) text
  rw [answer, answer, foundTag, foundTag, htable, htag]

/-- The driver asked for one thing after the other. -/
def asker : Reactive.Machine Request EspDrv (Option Nat) where
  pass r s := ((s.readUntil r.tag r.findTags).2, [(s.readUntil r.tag r.findTags).1])

/-- The same over the whole text of each answer, with no buffer. -/
def listener : Reactive.Machine Request Serial (Option Nat) where
  pass r line :=
    let (ret, _, rest) := search (answer [] r.tag r.findTags) [] line
    (rest, [ret])

/-- What is read for a request. -/
def textOf (r : Request) (line : Serial) : List (BitVec 8) :=
  (search (answer [] r.tag r.findTags) [] line).2.1

/-- **Tags are found in the answers alone**, as long as no answer goes round the buffer. -/
theorem answers_right {s : EspDrv} (hfresh : s.ringBuf.Fresh) (requests : List Request)
    (hshort : listener.Along (fun r line => (textOf r line).length < 32) s.espSerial requests) :
    asker.log s requests = listener.log s.espSerial requests := by
  induction requests generalizing s with
  | nil => rfl
  | cons r rest ih =>
    obtain ⟨hr, hrest⟩ := hshort
    have hread := readUntil_remembers r.tag r.findTags s
    rw [answer_fresh hfresh r] at hread
    have hnext : asker.next r s = {s with
        ringBuf := s.ringBuf.written (textOf r s.espSerial)
        espSerial := listener.next r s.espSerial} := congrArg Prod.snd hread
    have hout : asker.out r s = listener.out r s.espSerial :=
      congrArg (fun ret => [ret]) (congrArg Prod.fst hread)
    rw [Reactive.Machine.log_cons, Reactive.Machine.log_cons, hout, hnext]
    exact congrArg (_ ++ ·) (ih (hfresh.written hr) hrest)

/-- Two commands in a row, the second of them refused. -/
theorem answers_right_twice :
    asker.log (cleared (arriving (ascii "\r\nOK\r\n" ++ ascii "busy\r\n\r\nERROR\r\n")))
      [⟨none, true, nofun⟩, ⟨none, true, nofun⟩] = [some 0, some 1] :=
  (answers_right (s := cleared _) rfl [⟨none, true, nofun⟩, ⟨none, true, nofun⟩]
    ⟨by decide, by decide, trivial⟩).trans (by decide)

/-- After an answer of 34 characters the next one's first two make an OK with the end of it. -/
example :
    asker.log (cleared (arriving (ascii "+CWJAP:1,22,333,4444,5555555\r\nOK\r\n" ++ ascii "\r\nERROR\r\n")))
      [⟨none, true, nofun⟩, ⟨none, true, nofun⟩] = [some 0, some 0] := by decide

/-! ### Characters that end no tag -/

theorem answer_none {old text : List (BitVec 8)} {c : BitVec 8} {tag : Tag} {findTags : Bool}
    (hc : tag.chars.getLast? ≠ some c) (hsome : tag.chars ≠ [])
    (htable : findTags = true → ∀ t ∈ espTags, ¬t.chars <:+ old ++ (text ++ [c])) :
    answer old (some tag) findTags (text ++ [c]) = none := by
  have htag : tag.chars.isSuffixOf (old ++ (text ++ [c])) = false := by
    rw [Bool.eq_false_iff]
    intro hends
    obtain ⟨before, hbefore⟩ := List.isSuffixOf_iff_suffix.mp hends
    refine hc ?_
    have hlast := congrArg List.getLast? hbefore
    rw [List.getLast?_append_of_ne_nil _ hsome, ← List.append_assoc, List.getLast?_concat] at hlast
    exact hlast
  have hnone : findTags = true →
      espTags.findIdx? (fun t => t.chars.isSuffixOf (old ++ (text ++ [c]))) = none := by
    intro hfind
    rw [List.findIdx?_eq_none_iff]
    intro t ht
    rw [Bool.eq_false_iff]
    exact fun hends => htable hfind t ht (List.isSuffixOf_iff_suffix.mp hends)
  rw [answer, foundTag]
  cases findTags with
  | false => simp [htag]
  | true => simp [htag, hnone rfl]

/-- The tags of the table end in a line feed. -/
theorem table_line_feed {old text : List (BitVec 8)} {c : BitVec 8} (hc : c ≠ 10) :
    ∀ t ∈ espTags, ¬t.chars <:+ old ++ (text ++ [c]) := by
  intro t ht ⟨before, hbefore⟩
  have hends : ∀ t ∈ espTags, t.chars ≠ [] ∧ t.chars.getLast? = some 10 := by decide
  have hlast := congrArg List.getLast? hbefore
  rw [List.getLast?_append_of_ne_nil _ (hends t ht).1, ← List.append_assoc, List.getLast?_concat,
    (hends t ht).2, Option.some.injEq] at hlast
  exact hc hlast.symm

/-- A tag that does not end in a line feed is found at its end. -/
theorem answer_found {tag : Tag} {init : List (BitVec 8)} {e : BitVec 8}
    (htag : tag.chars = init ++ [e]) (he : e ≠ 10) (old text : List (BitVec 8)) (findTags : Bool) :
    answer old (some tag) findTags (text ++ init ++ [e]) = some numEspTags := by
  have hends : tag.chars.isSuffixOf (old ++ (text ++ init ++ [e])) = true := by
    rw [List.isSuffixOf_iff_suffix, htag, List.append_assoc text, ← List.append_assoc]
    exact List.suffix_append _ _
  have hnone : espTags.findIdx? (fun t => t.chars.isSuffixOf (old ++ (text ++ init ++ [e]))) =
      none := by
    rw [List.findIdx?_eq_none_iff]
    intro t ht
    rw [Bool.eq_false_iff]
    exact fun hin => table_line_feed he t ht (List.isSuffixOf_iff_suffix.mp hin)
  rw [answer, foundTag, Option.any_some, hends, hnone]
  cases findTags <;> rfl

/-- Tags whose last character does not come earlier are found at their end. -/
theorem first_of_last {tag : Tag} {init text : List (BitVec 8)} {e : BitVec 8}
    (htag : tag.chars = init ++ [e]) (he : e ≠ 10) (htext : ∀ c ∈ text ++ init, c ≠ e ∧ c ≠ 10)
    (old : List (BitVec 8)) :
    First (answer old (some tag) true) (text ++ init ++ [e]) numEspTags := by
  refine ⟨List.concat_ne_nil e _, answer_found htag he old text true, fun q hq hstart hne => ?_⟩
  have hin := (List.prefix_concat_iff.mp hstart).resolve_left hne
  obtain ⟨q, c, rfl⟩ := List.eq_nil_or_concat' q |>.resolve_left hq
  have hc := htext c (hin.subset (List.mem_append_right _ List.mem_cons_self))
  refine answer_none ?_ (by rw [htag]; exact List.concat_ne_nil e _) fun _ => table_line_feed hc.2
  rw [htag, List.getLast?_concat]
  exact fun h => hc.1 (Option.some.inj h).symm

/-! ### The text between two tags -/

/-- What a sketch reads in a buffer: up to the first NUL. -/
def cString {m : Nat} (v : Vector (BitVec 8) m) : List (BitVec 8) := v.toList.takeWhile (· ≠ 0)

theorem cString_iff {m : Nat} {v : Vector (BitVec 8) m} {text tail : List (BitVec 8)}
    (hv : v.toList = text ++ tail) (hplain : 0 ∉ text) (htail : tail ≠ []) :
    cString v = text ↔ tail.head? = some 0 := by
  have htext : ∀ c ∈ text, decide (c ≠ 0) = true := fun c hc =>
    decide_eq_true fun h => hplain (h ▸ hc)
  obtain ⟨c, tail, rfl⟩ := List.exists_cons_of_ne_nil htail
  rw [cString, hv, List.takeWhile_append_of_pos htext, List.append_right_eq_self,
    List.head?_cons, Option.some.injEq, List.takeWhile_cons]
  by_cases hc : c = 0 <;> simp [hc]

theorem espEmptyBuf_line {s : EspDrv} {old rest : Serial} (hold : .quiet ∉ old)
    (hline : s.espSerial = old ++ .quiet :: rest) :
    s.espEmptyBuf = {s with espSerial := rest} := by
  have hchars : ∀ a ∈ old, decide (a ≠ .quiet) = true := fun a ha =>
    decide_eq_true fun h => hold (h ▸ ha)
  rw [espEmptyBuf, hline, List.dropWhile_append_of_pos hchars]
  rfl

theorem readUntil_first {tag : Option Tag} {findTags : Bool} {s : EspDrv} {text : List (BitVec 8)}
    {ret : Nat} {rest : Serial} (h : First (answer s.ringBuf.cells tag findTags) text ret)
    (hline : s.espSerial = arriving text ++ rest) :
    s.readUntil tag findTags =
      (some ret, {s with ringBuf := s.ringBuf.written text, espSerial := rest}) := by
  rw [readUntil_remembers, hline, search_first h]

/-- An answer in which the two tags are found, each of them first. -/
structure Between (rb : RingBuffer 32) (startTag endTag : Tag) (before text : List (BitVec 8)) :
    Prop where
  start : First (answer rb.cells (some startTag) true) before numEspTags
  stop : First (answer [] (some endTag) true) (text ++ endTag.chars) numEspTags
  plain : 0 ∉ text ++ endTag.chars
  nonempty : endTag.chars ≠ []

theorem sendCmdGet_between {n : Nat} {startTag endTag : Tag} (outStr : Vector (BitVec 8) (n + 1))
    {s : EspDrv} {old rest : Serial} {before text : List (BitVec 8)} (hold : .quiet ∉ old)
    (hline : s.espSerial =
      old ++ .quiet :: (arriving before ++ (arriving (text ++ endTag.chars) ++ rest)))
    (h : Between s.ringBuf startTag endTag before text) :
    ∃ s', s.sendCmdGet startTag endTag outStr =
      (true, ((s.ringBuf.written before).init.written (text ++ endTag.chars)).getStrN
        (outStr.set 0 0 (Nat.succ_pos n)) endTag.chars.length n, s') := by
  have hfresh := answer_fresh (RingBuffer.fresh_init (s.ringBuf.written before))
    ⟨some endTag, true, fun t ht => by
      obtain rfl := Option.mem_some_iff.mp ht
      exact fun hin => h.plain (List.mem_append_right _ hin)⟩
  have hstop := h.stop
  rw [← show answer (s.ringBuf.written before).init.cells (some endTag) true =
    answer [] (some endTag) true from hfresh] at hstop
  have hstarted := @readUntil_first (some startTag) true
    {s with espSerial := arriving before ++ (arriving (text ++ endTag.chars) ++ rest)} before _ _
    h.start rfl
  have hstopped := @readUntil_first (some endTag) true
    {s with ringBuf := (s.ringBuf.written before).init
            espSerial := arriving (text ++ endTag.chars) ++ rest} _ _ _ hstop rfl
  rw [sendCmdGet, espEmptyBuf_line hold hline]
  simp only [hstarted, hstopped, if_true]
  exact ⟨_, rfl⟩

/-- What the driver cuts out of an answer for a buffer with room for `n`: the text from its
last whole round of the ring on. -/
def cutOf (n : Nat) (text endTag : List (BitVec 8)) : List (BitVec 8) :=
  (RingBuffer.lastPart 32 text endTag).take n

theorem cutOf_length_le (n : Nat) (text endTag : List (BitVec 8)) : (cutOf n text endTag).length ≤ n :=
  List.length_take_le _ _

theorem cutOf_plain {n : Nat} {text endTag : List (BitVec 8)} (h : 0 ∉ text) :
    0 ∉ cutOf n text endTag :=
  fun hin => h (List.mem_of_mem_drop (List.mem_of_mem_take hin))

/-- **What the sketch gets** of an answer: its buffer holds the text between the two tags,
from its last whole round of the ring on and cut to the buffer, and behind it what was
there, the first cell cleared. It reads as that text exactly when a NUL was there, since
nothing terminates the string. -/
theorem sendCmdGet_reads {n : Nat} {startTag endTag : Tag} (outStr : Vector (BitVec 8) (n + 1))
    {s : EspDrv} {old rest : Serial} {before text : List (BitVec 8)} (hold : .quiet ∉ old)
    (hline : s.espSerial =
      old ++ .quiet :: (arriving before ++ (arriving (text ++ endTag.chars) ++ rest)))
    (h : Between s.ringBuf startTag endTag before text) (hn : n + endTag.chars.length ≤ 32)
    (hsplit : RingBuffer.earlier 32 (text.length + endTag.chars.length) ≤ text.length) :
    ∃ out s', s.sendCmdGet startTag endTag outStr = (true, out, s') ∧
      out.toList = cutOf n text endTag.chars ++
        (outStr.set 0 0 (Nat.succ_pos n)).toList.drop (cutOf n text endTag.chars).length ∧
      (cString out = cutOf n text endTag.chars ↔
        cutOf n text endTag.chars = [] ∨ outStr[(cutOf n text endTag.chars).length]? = some 0) := by
  obtain ⟨s', hsent⟩ := sendCmdGet_between outStr hold hline h
  have htext : 0 ∉ text := fun hin => h.plain (List.mem_append_left _ hin)
  have hout := RingBuffer.getStrN_written (outStr.set 0 0 (Nat.succ_pos n))
    (s.ringBuf.written before).init (by decide) h.nonempty hn (Nat.le_succ n) hsplit htext
  rw [← cutOf] at hout
  refine ⟨_, s', hsent, hout, ?_⟩
  have hlength := cutOf_length_le n text endTag.chars
  have hleft : (outStr.set 0 0 (Nat.succ_pos n)).toList.drop (cutOf n text endTag.chars).length ≠ [] := by
    refine List.ne_nil_of_length_pos ?_
    rw [List.length_drop, Vector.length_toList]
    omega
  rw [cString_iff hout (cutOf_plain htext) hleft, List.head?_drop, Vector.getElem?_toList,
    Vector.getElem?_set]
  cases cutOf n text endTag.chars with
  | nil => simp
  | cons c cut => simp

/-- The name of the network the module is in, over a buffer that holds no NUL behind it. -/
theorem sendCmdGet_reads_ssid : ∃ out s',
    (cleared (.quiet :: arriving (ascii "+CWJAP:\"home\",\r\n\r\nOK\r\n"))).sendCmdGet
      ⟨ascii "+CWJAP:\"", by decide⟩ ⟨ascii "\"", by decide⟩
        #v[120, 120, 120, 120, 120, 0] = (true, out, s') ∧
      out.toList = ascii "homex" ++ [0] ∧ cString out ≠ ascii "home" := by
  obtain ⟨out, s', hsent, hcells, hout⟩ := @sendCmdGet_reads 5 ⟨ascii "+CWJAP:\"", by decide⟩
    ⟨ascii "\"", by decide⟩ #v[120, 120, 120, 120, 120, 0]
    (cleared (.quiet :: arriving (ascii "+CWJAP:\"home\",\r\n\r\nOK\r\n"))) []
    (arriving (ascii ",\r\n\r\nOK\r\n")) (ascii "+CWJAP:\"") (ascii "home") (by decide) (by decide)
    ⟨first_iff.mpr (by decide), first_iff.mpr (by decide), by decide, by decide⟩ (by decide) (by decide)
  refine ⟨out, s', hsent, hcells.trans (by decide), mt hout.mp ?_⟩
  decide

end MakerSpace.WiFiEsp.EspDrv
