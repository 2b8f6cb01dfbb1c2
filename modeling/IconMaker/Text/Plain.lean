import IconMaker.Text.Utf8

/-
  IconMaker.Text.Plain — a text without terminal control sequences.

  `plain` drops escape sequences (control sequences, operating system commands, device
  control strings) and the control characters other than tab, line feed, form feed and
  carriage return. A character outside ASCII belongs to the sequence it stands in; it ends
  none, but for the byte of a string terminator in its UTF-8 form.
-/

namespace IconMaker.Text

/-- Where in a control sequence the reader stands. -/
inductive Sequence where
  | none
  | escape
  | escapeIntermediate
  | controlEntry
  | controlParameter
  | controlIntermediate
  | controlIgnored
  | deviceEntry
  | deviceParameter
  | deviceIntermediate
  | devicePassed
  | deviceIgnored
  | command
  | message
  deriving DecidableEq, Repr

def isControl (n : Nat) : Bool := n < 0x18 || n == 0x19 || (0x1c ≤ n && n < 0x20)

/-- Do control characters take effect here rather than belong to the string? -/
def Sequence.executes : Sequence → Bool
  | .deviceEntry | .deviceParameter | .deviceIntermediate | .devicePassed | .deviceIgnored => false
  | .command | .message => false
  | _ => true

/-- Is this a string that the byte of the string terminator ends? -/
def Sequence.isTerminated : Sequence → Bool
  | .devicePassed | .deviceIgnored | .message => true
  | _ => false

def stringTerminator : UInt8 := 0x9c

/-- The place after a character outside ASCII. -/
def Sequence.pass (s : Sequence) (c : Char) : Sequence :=
  if s.isTerminated && (utf8 [c]).contains stringTerminator then .none else s

/-- The place after an ASCII character that is no control character and not escape. -/
def Sequence.next (s : Sequence) (n : Nat) : Sequence :=
  let low := 0x20 ≤ n && n ≤ 0x2f
  let digit := 0x30 ≤ n && n ≤ 0x3b
  let sign := 0x3c ≤ n && n ≤ 0x3f
  match s with
  | .none => .none
  | .escape =>
    if low then .escapeIntermediate
    else if n == 0x5b then .controlEntry
    else if n == 0x5d then .command
    else if n == 0x50 then .deviceEntry
    else if n == 0x58 || n == 0x5e || n == 0x5f then .message
    else if n == 0x7f then .escape
    else .none
  | .escapeIntermediate => if low || n == 0x7f then s else .none
  | .controlEntry =>
    if low then .controlIntermediate
    else if digit || sign then .controlParameter
    else if n == 0x7f then s
    else .none
  | .controlParameter =>
    if low then .controlIntermediate
    else if digit || n == 0x7f then s
    else if sign then .controlIgnored
    else .none
  | .controlIntermediate =>
    if low || n == 0x7f then s else if digit || sign then .controlIgnored else .none
  | .controlIgnored => if n ≤ 0x3f || n == 0x7f then s else .none
  | .deviceEntry =>
    if low then .deviceIntermediate
    else if digit || sign then .deviceParameter
    else if n == 0x7f then s
    else .devicePassed
  | .deviceParameter =>
    if low then .deviceIntermediate
    else if digit || n == 0x7f then s
    else if sign then .deviceIgnored
    else .devicePassed
  | .deviceIntermediate =>
    if low || n == 0x7f then s else if digit || sign then .deviceIgnored else .devicePassed
  | .devicePassed | .deviceIgnored | .command | .message => s

def plainFrom : Sequence → List Char → List Char
  | _, [] => []
  | s, c :: r =>
    let n := c.toNat
    if n = 0x18 ∨ n = 0x1a then plainFrom .none r
    else if n = 0x1b then plainFrom .escape r
    else if n ≥ 0x80 then if s = .none then c :: plainFrom .none r else plainFrom (s.pass c) r
    else if isControl n then
      if s = .command ∧ n = 0x07 then plainFrom .none r
      else if s.executes ∧ (n = 0x09 ∨ n = 0x0a ∨ n = 0x0c ∨ n = 0x0d) then c :: plainFrom .none r
      else plainFrom s r
    else if s = .none then if n = 0x7f then plainFrom .none r else c :: plainFrom .none r
    else plainFrom (s.next n) r

def plain (s : List Char) : List Char := plainFrom .none s

end IconMaker.Text
