import MakerSpace.CommandDemo.Model
import MakerSpace.Codec.Lines

/-! The terminal and the three line endings.

`loop` takes LF for Enter and CR for Enter, each by itself, so it answers the lines of
the stream that either of them ends (`log_text`). A CR LF is then the end of a line and
an empty line after it: that one has no response, but it has a prompt.
`line_ending_iff` says which inputs are answered as if Enter had been pressed once a
line. -/
namespace MakerSpace.CommandDemo
open Arduino Reactive Codec

inductive Terminator where
  | lf
  | cr
  | crlf
  deriving DecidableEq, Repr

def Terminator.bytes : Terminator → List Char
  | .lf => ['\n']
  | .cr => ['\r']
  | .crlf => ['\r', '\n']

/-- A command line as it is sent; its text has no terminator in it. -/
structure Line where
  text : List Char
  terminator : Terminator
  plain : ∀ c ∈ text, isEnter c = false

/-- The bytes that arrive. -/
def stream (lines : List Line) : List Char :=
  lines.flatMap fun line => line.text ++ line.terminator.bytes

/-- A command's response and one prompt. -/
def answer (command : List Char) : List Char := serialText (processCommand command ++ printPrompt)

/-- Every line answered once. -/
def answers (lines : List Line) : List Char := lines.flatMap fun line => answer line.text

/-! ### What a run prints -/

theorem answer_nil : answer [] = ['>', ' '] := by
  simp [answer, processCommand, trim, equals, printPrompt, serialText, Effect.text]

/-- What is read in a pass moves from the stream to the command and the answers. -/
theorem receive_reads (incoming : Option Char) (s : State) (rest : List Char) :
    Lines.unfinished isEnter s.command (incoming.toList ++ rest) =
        Lines.unfinished isEnter (receive incoming s).1.command rest ∧
      (Lines.lines isEnter s.command (incoming.toList ++ rest)).flatMap answer =
        serialText (receive incoming s).2 ++
          (Lines.lines isEnter (receive incoming s).1.command rest).flatMap answer := by
  cases incoming with
  | none => exact ⟨rfl, rfl⟩
  | some incomingChar =>
    rw [Option.toList_some, List.singleton_append, Lines.unfinished, Lines.lines, receive]
    split_ifs
    · exact ⟨rfl, rfl⟩
    · exact ⟨rfl, rfl⟩

theorem incoming_cons (i : Inputs) (rest : List Inputs) :
    (i :: rest).filterMap Inputs.incoming = i.incoming.toList ++ rest.filterMap Inputs.incoming := by
  rw [List.filterMap_cons]
  cases i.incoming <;> rfl

/-- However passes and bytes interleave, the command held is the line left open. -/
theorem command_run (s : State) (calls : List Inputs) :
    (terminal.run s calls).command =
      Lines.unfinished isEnter s.command (calls.filterMap Inputs.incoming) := by
  induction calls generalizing s with
  | nil => rfl
  | cons i rest ih =>
    rw [Machine.run_cons, ih, command_next, incoming_cons, (receive_reads i.incoming s _).1]

/-- And the lines of the stream are answered in turn. -/
theorem log_text (s : State) (calls : List Inputs) :
    serialText (terminal.log s calls) =
      (Lines.lines isEnter s.command (calls.filterMap Inputs.incoming)).flatMap answer := by
  induction calls generalizing s with
  | nil => rfl
  | cons i rest ih =>
    rw [Machine.log_cons, serialText_append, text_out, ih, command_next, incoming_cons,
      (receive_reads i.incoming s _).2]

/-- A CR LF closes an empty line too. -/
def Terminator.blank : Terminator → List (List Char)
  | .crlf => [[]]
  | _ => []

theorem lines_stream (lines : List Line) :
    Lines.lines isEnter [] (stream lines) =
      lines.flatMap fun line => line.text :: line.terminator.blank := by
  induction lines with
  | nil => rfl
  | cons line rest ih =>
    rw [stream, List.flatMap_cons, ← stream, List.flatMap_cons, ← ih, List.append_assoc]
    cases line.terminator with
    | lf => exact Lines.lines_line line.plain rfl [] (stream rest)
    | cr => exact Lines.lines_line line.plain rfl [] (stream rest)
    | crlf => exact Lines.lines_line line.plain rfl [] ('\n' :: stream rest)

/-- What a run prints: the answers, and a prompt more for each CR LF. -/
theorem answered (lines : List Line) :
    (Lines.lines isEnter [] (stream lines)).flatMap answer =
      lines.flatMap fun line => answer line.text ++ line.terminator.blank.flatMap answer := by
  rw [lines_stream, List.flatMap_assoc]
  rfl

theorem answered_once (lines : List Line) (h : ∀ line ∈ lines, line.terminator ≠ .crlf) :
    (Lines.lines isEnter [] (stream lines)).flatMap answer = answers lines := by
  rw [answered, answers]
  refine List.flatMap_congr fun line hline => ?_
  have hsingle : line.terminator.blank = [] := by
    cases hterminator : line.terminator with
    | lf => rfl
    | cr => rfl
    | crlf => exact absurd hterminator (h line hline)
  rw [hsingle, List.flatMap_nil, List.append_nil]

/-- The prompts too many show in the length. -/
theorem length_answered (lines : List Line) :
    ((Lines.lines isEnter [] (stream lines)).flatMap answer).length =
      (answers lines).length + 2 * lines.countP (fun line => line.terminator = .crlf) := by
  rw [answered]
  induction lines with
  | nil => rfl
  | cons line rest ih =>
    rw [answers, List.flatMap_cons, List.flatMap_cons, ← answers, List.length_append,
      List.length_append, List.length_append, ih, List.countP_cons]
    have hblank : (line.terminator.blank.flatMap answer).length =
        2 * if line.terminator = .crlf then 1 else 0 := by
      cases line.terminator <;> simp [Terminator.blank, answer_nil]
    simp only [hblank, decide_eq_true_eq]
    omega

/-- **Line endings.** Of any lines, arriving in any way after `setup`, the terminal prints
each line's response and one prompt exactly when no line ends in CR LF. -/
theorem line_ending_iff (millis : BitVec 32) (lines : List Line) (calls : List Inputs)
    (hstream : calls.filterMap Inputs.incoming = stream lines) :
    serialText (terminal.log (setup millis powerUp).1 calls) = answers lines ↔
      ∀ line ∈ lines, line.terminator ≠ .crlf := by
  rw [log_text, hstream]
  show (Lines.lines isEnter [] (stream lines)).flatMap answer = answers lines ↔ _
  constructor
  · intro heq
    have hlength := length_answered lines
    rw [heq] at hlength
    have hcount : lines.countP (fun line => line.terminator = .crlf) = 0 := by omega
    simpa using hcount
  · exact answered_once lines

/-! ### A line typed -/

theorem hello_plain : ∀ c ∈ ['h', 'e', 'l', 'l', 'o'], isEnter c = false := by simp [isEnter]

def hello (terminator : Terminator) : Line := ⟨['h', 'e', 'l', 'l', 'o'], terminator, hello_plain⟩

/-- A pass for each byte. -/
def bytewise (bytes : List Char) : List Inputs := bytes.map fun c => ⟨some c, 0, .low⟩

/-- LF and CR are answered alike. -/
theorem line_ending_hello :
    serialText (terminal.log (setup 0 powerUp).1 (bytewise (stream [hello .lf, hello .cr]))) =
      answers [hello .lf, hello .cr] :=
  (line_ending_iff 0 [hello .lf, hello .cr] (bytewise (stream [hello .lf, hello .cr])) rfl).mpr
    (by decide)

/-- After CR LF there are two prompts. -/
theorem crlf_prompts_twice :
    (bytewise (stream [hello .crlf])).filterMap Inputs.incoming = stream [hello .crlf] ∧
      serialText (terminal.log (setup 0 powerUp).1 (bytewise (stream [hello .crlf]))) =
        answers [hello .crlf] ++ ['>', ' '] ∧
      serialText (terminal.log (setup 0 powerUp).1 (bytewise (stream [hello .crlf]))) ≠
        answers [hello .crlf] := by
  refine ⟨rfl, ?_, ?_⟩
  · decide
  · decide

end MakerSpace.CommandDemo
