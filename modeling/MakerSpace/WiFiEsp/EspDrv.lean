import MakerSpace.Codec.Decimal
import MakerSpace.Reactive.Machine
import MakerSpace.WiFiEsp.RingBuffer

/-! The driver of the WiFi module, `EspDrv.cpp`, and the client that sketches use,
`WiFiEspClient.cpp`.

The module answers over a serial line. Here the line is what will still arrive on it:
characters, and silences. At a silence whoever waits for a character gives up, however
long it is ready to wait: two seconds in `getData`, one in the core's `parseInt`, not at
all in `available`. So the clock is in the line, and any spacing of the characters is a
line. What the driver writes to the module has no part in what is read. -/
namespace MakerSpace.WiFiEsp
open Codec Search Decimal Reactive

abbrev Serial := List (Arrival (BitVec 8))

/-! ### The core's `Stream` -/

namespace Serial

/-- Whether there is a character now. -/
def available : Serial → Bool × Serial
  | [] => (false, [])
  | .quiet :: rest => (false, rest)
  | .char c :: rest => (true, .char c :: rest)

def read : Serial → Option (BitVec 8) × Serial
  | [] => (none, [])
  | .quiet :: rest => (none, rest)
  | .char c :: rest => (some c, rest)

def peek : Serial → Option (BitVec 8) × Serial
  | [] => (none, [])
  | .quiet :: rest => (none, rest)
  | .char c :: rest => (some c, .char c :: rest)

/-- A character read for being there. -/
def skip (serial : Serial) : Serial := (read serial).2

/-- The target is at the end of what has been read. -/
def ends (target text : List (BitVec 8)) : Option Unit :=
  if target.isSuffixOf text then some () else none

def find (target : List (BitVec 8)) (serial : Serial) : Bool × Serial :=
  let (found, _, rest) := search (ends target) [] serial
  (found.isSome, rest)

def parseDigits (value : Nat) : Serial → Nat × Serial
  | [] => (value, [])
  | .quiet :: rest => (value, rest)
  | .char c :: rest =>
    if isDigit c then parseDigits (value * 10 + (c.toNat - 48)) rest else (value, .char c :: rest)

/-- What is neither a digit nor a minus sign is skipped first. -/
def parseInt : Serial → Int × Serial
  | [] => (0, [])
  | .quiet :: rest => (0, rest)
  | .char c :: rest =>
    if c = 45 then
      let (value, rest) := parseDigits 0 rest
      (-value, rest)
    else if isDigit c then
      let (value, rest) := parseDigits (c.toNat - 48) rest
      (value, rest)
    else parseInt rest

end Serial

/-! ### The driver -/

/-- A string the ring buffer is long enough for. -/
structure Tag where
  chars : List (BitVec 8)
  short : chars.length ≤ 32

def espTags : List Tag :=
  [⟨ascii "\r\nOK\r\n", by decide⟩, ⟨ascii "\r\nERROR\r\n", by decide⟩,
    ⟨ascii "\r\nFAIL\r\n", by decide⟩, ⟨ascii "\r\nSEND OK\r\n", by decide⟩,
    ⟨ascii " CONNECT\r\n", by decide⟩]

def numEspTags : Nat := 5

def closedTag : Tag := ⟨ascii ",CLOSED\r\n", by decide⟩

/-- `_bufPos` is how much of a packet is still on the line, `_connId` whose packet it is. -/
structure EspDrv where
  bufPos : Int
  connId : BitVec 8
  remoteIp : Vector (BitVec 8) 4
  remotePort : BitVec 16
  ringBuf : RingBuffer 32
  espSerial : Serial

namespace EspDrv

/-- A driver whose buffer has just been cleared, and what the module will answer. -/
def cleared (line : Serial) : EspDrv where
  bufPos := 0
  connId := 0
  remoteIp := #v[0, 0, 0, 0]
  remotePort := 0
  ringBuf := ⟨.replicate 33 0, ⟨0, by decide⟩⟩
  espSerial := line

/-- Which tag is found; one of the table counts before the one asked for. -/
def foundTag (endsWith : Tag → Bool) (tag : Option Tag) (findTags : Bool) : Option Nat :=
  let ret := if tag.any endsWith then some numEspTags else none
  if findTags then (espTags.findIdx? endsWith).or ret else ret

def readUntilLoop (tag : Option Tag) (findTags : Bool) :
    Serial → RingBuffer 32 → Option Nat × RingBuffer 32 × Serial
  | [], rb => (none, rb, [])
  | .quiet :: rest, rb => (none, rb, rest)
  | .char c :: rest, rb =>
    match foundTag (fun t => (rb.push c).endsWith t.chars t.short) tag findTags with
    | some ret => (some ret, rb.push c, rest)
    | none => readUntilLoop tag findTags rest (rb.push c)

/-- The -1 of a timeout is `none`. -/
def readUntil (tag : Option Tag) (findTags : Bool) (s : EspDrv) : Option Nat × EspDrv :=
  let (ret, ringBuf, espSerial) := readUntilLoop tag findTags s.espSerial s.ringBuf.reset
  (ret, {s with ringBuf, espSerial})

def espEmptyBuf (s : EspDrv) : EspDrv :=
  {s with espSerial := (s.espSerial.dropWhile (· ≠ .quiet)).tail}

/-- `outStr` has one character more than are copied into it. -/
def sendCmdGet {n : Nat} (startTag endTag : Tag) (outStr : Vector (BitVec 8) (n + 1)) (s : EspDrv) :
    Bool × Vector (BitVec 8) (n + 1) × EspDrv :=
  let outStr := outStr.set 0 0 (Nat.succ_pos n)
  let s := s.espEmptyBuf
  let (idx, s) := s.readUntil (some startTag) true
  if idx = some numEspTags then
    let s := {s with ringBuf := s.ringBuf.init}
    let (idx, s) := s.readUntil (some endTag) true
    if idx = some numEspTags then
      let outStr := s.ringBuf.getStrN outStr endTag.chars.length n
      let (_, s) := s.readUntil none true
      (true, outStr, s)
    else (false, outStr, s)
  else (false, outStr, s)

/-- `+IPD,<ID>,<len>,"<remote IP>",<remote port>:`, once the `+IPD,` has been found. -/
def readHeader (s : EspDrv) : EspDrv :=
  let (id, serial) := s.espSerial.parseInt
  let (len, serial) := serial.skip.parseInt
  let (ip₀, serial) := serial.skip.parseInt
  let (ip₁, serial) := serial.skip.parseInt
  let (ip₂, serial) := serial.skip.parseInt
  let (ip₃, serial) := serial.skip.parseInt
  let (port, serial) := serial.skip.skip.parseInt
  {s with
    connId := .ofInt 8 id, bufPos := len,
    remoteIp := #v[.ofInt 8 ip₀, .ofInt 8 ip₁, .ofInt 8 ip₂, .ofInt 8 ip₃],
    remotePort := .ofInt 16 port, espSerial := serial.skip}

def availData (connId : BitVec 8) (s : EspDrv) : BitVec 16 × EspDrv :=
  if s.bufPos > 0 ∧ (s.connId = connId ∨ s.connId = 0) then (.ofInt 16 s.bufPos, s)
  else
    let (bytes, espSerial) := s.espSerial.available
    if bytes then
      let (found, espSerial) := Serial.find (ascii "+IPD,") espSerial
      if found then
        let s := {s with espSerial}.readHeader
        (if s.connId = connId ∨ connId = 0 then .ofInt 16 s.bufPos else 0, s)
      else (0, {s with espSerial})
    else (0, {s with espSerial})

/-- After the last character of a packet: whether the connection is closed. -/
def checkClosed (connId : BitVec 8) (s : EspDrv) : Bool × EspDrv :=
  if s.bufPos = 0 then
    let (bytes, espSerial) := s.espSerial.available
    if bytes then
      let (next, espSerial) := espSerial.peek
      if next.map (·.toNat) = some (48 + connId.toNat) then
        (true, ({s with espSerial}.readUntil (some closedTag) false).2)
      else (false, {s with espSerial})
    else (false, {s with espSerial})
  else (false, s)

/-- What it returns, the character, `*connClose`. A character that is not set is the one
that was there. -/
def getData (connId data : BitVec 8) (peek : Bool) (s : EspDrv) :
    Bool × BitVec 8 × Bool × EspDrv :=
  if connId ≠ s.connId then (false, data, false, s)
  else
    match if peek then s.espSerial.peek else s.espSerial.read with
    | (none, espSerial) => (false, 0, false, {s with bufPos := 0, connId := 0, espSerial})
    | (some c, espSerial) =>
      let bufPos := if peek then s.bufPos else s.bufPos - 1
      let (connClose, s) := {s with bufPos, espSerial}.checkClosed connId
      (true, c, connClose, s)

/-- The loop of `getDataBuf`: what it returns and what it has put into `buf`. -/
def getDataLoop : Nat → List (BitVec 8) → EspDrv → Int × List (BitVec 8) × EspDrv
  | 0, buf, s => (buf.length, buf, s)
  | count + 1, buf, s =>
    match s.espSerial.read with
    | (none, espSerial) => (-1, buf, {s with espSerial})
    | (some c, espSerial) =>
      getDataLoop count (buf ++ [c]) {s with bufPos := s.bufPos - 1, espSerial}

def getDataBuf (connId : BitVec 8) (bufSize : BitVec 16) (s : EspDrv) :
    Int × List (BitVec 8) × EspDrv :=
  if connId ≠ s.connId then (0, [], s)
  else
    let bufSize := if s.bufPos < bufSize.toNat then .ofInt 16 s.bufPos else bufSize
    getDataLoop bufSize.toNat [] s

end EspDrv

/-! ### The client -/

/-- A sketch's client, and the driver it uses. -/
structure WiFiEspClient where
  sock : BitVec 8
  espDrv : EspDrv

namespace WiFiEspClient

def available (s : WiFiEspClient) : Int × WiFiEspClient :=
  if s.sock ≠ 255 then
    let (bytes, espDrv) := s.espDrv.availData s.sock
    (if bytes.toInt > 0 then bytes.toInt else 0, {s with espDrv})
  else (0, s)

/-- `releaseSocket`, as far as the client sees it. -/
def closeIf (connClose : Bool) (s : WiFiEspClient) : WiFiEspClient :=
  if connClose then {s with sock := 255} else s

/-- `b` is what the variable holds before it is set; the -1 is `none`. -/
def read (b : BitVec 8) (s : WiFiEspClient) : Option (BitVec 8) × WiFiEspClient :=
  let (bytes, s) := s.available
  if bytes = 0 then (none, s)
  else
    let (_, b, connClose, espDrv) := s.espDrv.getData s.sock b false
    (some b, closeIf connClose {s with espDrv})

def peek (b : BitVec 8) (s : WiFiEspClient) : Option (BitVec 8) × WiFiEspClient :=
  let (bytes, s) := s.available
  if bytes = 0 then (none, s)
  else
    let (_, b, connClose, espDrv) := s.espDrv.getData s.sock b true
    (some b, closeIf connClose {s with espDrv})

def readBuf (size : BitVec 16) (s : WiFiEspClient) :
    Int × List (BitVec 8) × WiFiEspClient :=
  let (bytes, s) := s.available
  if bytes = 0 then (-1, [], s)
  else
    let (count, buf, espDrv) := s.espDrv.getDataBuf s.sock size
    (count, buf, {s with espDrv})

end WiFiEspClient

/-- What a sketch may ask of its client. -/
inductive Call where
  | available
  | peek (b : BitVec 8)
  | read (b : BitVec 8)
  | readBuf (size : BitVec 16)

/-- The client at work: it puts out the characters it hands to the sketch. -/
def client : Machine Call WiFiEspClient (BitVec 8) where
  pass
    | .available, s => (s.available.2, [])
    | .peek b, s => ((s.peek b).2, [])
    | .read b, s =>
      let (c, s) := s.read b
      (s, c.toList)
    | .readBuf size, s =>
      let (count, buf, s) := s.readBuf size
      (s, if count > 0 then buf else [])

end MakerSpace.WiFiEsp
