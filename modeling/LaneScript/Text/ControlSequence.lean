import LaneScript.Text.CharClass

/-!
# Text without control sequences

A terminal takes some characters as commands and not as text: single controls, and sequences that
the escape character opens.  `shownText` is what is left of a text without them, such that a note
about a script cannot do anything to the terminal that shows it.

A sequence is found by its characters alone: what follows the escape character says which kind it
is, intermediate characters (U+0020 to U+002F) and parameters (U+0030 to U+003F) come next, and a
final character ends it.  Strings for a device or for the operating system run up to a terminator.
A sequence that never ends takes the rest of the text with it.
-/

namespace LaneScript.Text

/-- The part of a sequence in which a character stands. -/
inductive SequencePart where
  /-- Outside of all sequences. -/
  | text
  /-- Behind the escape character. -/
  | escape
  /-- Behind the escape character and an intermediate one. -/
  | escapeIntermediate
  /-- Behind a bracket: parameters and intermediate characters, up to a final one. -/
  | control
  /-- At the start of a string for a device. -/
  | device
  /-- In the parameters of a string for a device. -/
  | deviceParameter
  /-- In the intermediate characters of a string for a device. -/
  | deviceIntermediate
  /-- In a string that nobody reads, up to its terminator. -/
  | string
  /-- In a command for the operating system, up to a bell. -/
  | command
  deriving DecidableEq, Repr

/-- A control that moves on in a text: a tab, a line end or a form feed. -/
def isSpaceControl (c : Char) : Bool := c == '\t' || c == '\n' || c == '\x0c' || c == '\r'

/-- A character that is text where it stands outside of all sequences. -/
def isShown (c : Char) : Bool := (0x20 ≤ c.toNat && c.toNat != 0x7f) || isSpaceControl c

/-- A character with the terminator of strings among its bytes. -/
def holdsTerminator (c : Char) : Bool := (String.utf8EncodeChar c).contains 0x9c

namespace SequencePart

/-- White space interrupts the sequence. -/
def isInterruptible : SequencePart → Bool
  | .escape | .escapeIntermediate | .control => true
  | _ => false

/-- The part behind a character. -/
def next (part : SequencePart) (c : Char) : SequencePart :=
  let intermediate := ' ' ≤ c && c ≤ '/'
  let parameter := '0' ≤ c && c ≤ '?'
  match part with
  | .text => .text
  | .string => if holdsTerminator c then .text else .string
  | .command => if c == '\x07' then .text else .command
  | part =>
    if c.toNat < 0x20 || 0x7f ≤ c.toNat then part
    else match part with
      | .escape =>
        if intermediate then .escapeIntermediate
        else if c == '[' then .control
        else if c == ']' then .command
        else if c == 'P' then .device
        else if c == 'X' || c == '^' || c == '_' then .string
        else .text
      | .escapeIntermediate => if intermediate then .escapeIntermediate else .text
      | .control => if intermediate || parameter then .control else .text
      | .device =>
        if intermediate then .deviceIntermediate
        else if parameter then .deviceParameter
        else .string
      | .deviceParameter =>
        if intermediate then .deviceIntermediate
        else if '0' ≤ c && c ≤ ';' then .deviceParameter
        else .string
      | .deviceIntermediate => if intermediate then .deviceIntermediate else .string
      | part => part

end SequencePart

/-- Where a character stands: the part of a sequence, and whether white space has interrupted it. -/
structure SequencePlace where
  part : SequencePart := .text
  interrupted : Bool := false
  deriving DecidableEq, Repr

namespace SequencePlace

/-- The place behind a character, and whether the character is shown.

What follows white space in a sequence is text again, up to the next control, where the sequence
goes on; a character beyond ASCII ends the sequence. -/
def next (place : SequencePlace) (c : Char) : SequencePlace × Bool :=
  if place.interrupted && isShown c then (if isAscii c then place else {}, true)
  else if c == '\x1b' then (⟨.escape, false⟩, false)
  else if c == '\x18' || c == '\x1a' then ({}, false)
  else if place.part.isInterruptible && isSpaceControl c then (⟨place.part, true⟩, true)
  else (⟨place.part.next c, false⟩, place.part == .text && isShown c)

/-- The characters of a text that are shown, from a place on. -/
def shown (place : SequencePlace) : List Char → List Char
  | [] => []
  | c :: rest =>
    let (place, isText) := place.next c
    if isText then c :: shown place rest else shown place rest

end SequencePlace

/-- A text without its control sequences. -/
def shownText (text : String) : String := String.ofList (SequencePlace.shown {} text.toList)

end LaneScript.Text
