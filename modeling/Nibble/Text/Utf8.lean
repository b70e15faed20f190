import Nibble.Text.Quoted

/-! # UTF-8

A strict decoder that works byte by byte. A fault covers the longest valid beginning of the
sequence that cannot be completed, or the one byte that can start none.
-/

namespace Nibble.Text.Utf8

inductive Reason
  | invalidStart
  | invalidContinuation
  | unexpectedEnd
  deriving DecidableEq, Repr

/-- A sequence that has begun: where, with which byte, how long it is so far, how many bytes it
still lacks, between which bounds the next one has to lie, and the value read so far. -/
structure Pending where
  start : Nat
  lead : UInt8
  seen : Nat
  owed : Nat
  least : Nat
  greatest : Nat
  value : Nat
  deriving DecidableEq, Repr

/-- An invalid stretch of bytes: its position, its first byte and its length. -/
structure Fault where
  start : Nat
  lead : UInt8
  length : Nat
  reason : Reason
  deriving DecidableEq, Repr

/-- The decoder's state: the characters read, the bytes read, and the sequence that is open. -/
structure Decoder where
  chars : Array Char
  position : Nat
  pending : Option Pending

/-- The sequence that a lead byte begins: the bytes to follow, the bounds of the first of them,
and the value bits of the lead. Overlong forms, surrogates and values over U+10FFFF are kept out
by the bounds. -/
def leadOf (b : Nat) : Option (Nat × Nat × Nat × Nat) :=
  if 0xC2 ≤ b && b ≤ 0xDF then some (1, 0x80, 0xBF, b - 0xC0)
  else if b = 0xE0 then some (2, 0xA0, 0xBF, 0)
  else if b = 0xED then some (2, 0x80, 0x9F, 0xD)
  else if 0xE1 ≤ b && b ≤ 0xEF then some (2, 0x80, 0xBF, b - 0xE0)
  else if b = 0xF0 then some (3, 0x90, 0xBF, 0)
  else if b = 0xF4 then some (3, 0x80, 0x8F, 4)
  else if 0xF1 ≤ b && b ≤ 0xF3 then some (3, 0x80, 0xBF, b - 0xF0)
  else none

def Decoder.start (d : Decoder) (b : UInt8) : Except Fault Decoder :=
  let n := b.toNat
  if n < 0x80 then .ok ⟨d.chars.push (Char.ofNat n), d.position + 1, none⟩
  else match leadOf n with
    | some (owed, least, greatest, value) =>
      .ok ⟨d.chars, d.position + 1, some ⟨d.position, b, 1, owed, least, greatest, value⟩⟩
    | none => .error ⟨d.position, b, 1, .invalidStart⟩

def Decoder.continue (d : Decoder) (p : Pending) (b : UInt8) : Except Fault Decoder :=
  let n := b.toNat
  if p.least ≤ n && n ≤ p.greatest then
    let value := 64 * p.value + (n - 0x80)
    if p.owed = 1 then .ok ⟨d.chars.push (Char.ofNat value), d.position + 1, none⟩
    else .ok ⟨d.chars, d.position + 1,
      some ⟨p.start, p.lead, p.seen + 1, p.owed - 1, 0x80, 0xBF, value⟩⟩
  else .error ⟨p.start, p.lead, p.seen, .invalidContinuation⟩

def Decoder.step (d : Decoder) (b : UInt8) : Except Fault Decoder :=
  match d.pending with
  | none => d.start b
  | some p => d.continue p b

/-- The text read, unless a sequence is open. -/
def Decoder.finish (d : Decoder) : Except Fault (List Char) :=
  match d.pending with
  | none => .ok d.chars.toList
  | some p => .error ⟨p.start, p.lead, p.seen, .unexpectedEnd⟩

/-- The text that the bytes encode, or the first fault in them. -/
def decode (bytes : List UInt8) : Except Fault (List Char) := do
  (← bytes.foldlM Decoder.step ⟨#[], 0, none⟩).finish

def encode (s : String) : List UInt8 :=
  s.toUTF8.toList

def Reason.text : Reason → String
  | .invalidStart => "invalid start byte"
  | .invalidContinuation => "invalid continuation byte"
  | .unexpectedEnd => "unexpected end of data"

/-- Names the byte of a fault, or the positions of its first and its last byte. -/
def Fault.message (f : Fault) : String :=
  let place :=
    if f.length = 1 then
      "byte 0x" ++ String.ofList (hex 2 f.lead.toNat) ++ " in position " ++ toString f.start
    else
      "bytes in position " ++ toString f.start ++ "-" ++ toString (f.start + f.length - 1)
  "'utf-8' codec can't decode " ++ place ++ ": " ++ f.reason.text

end Nibble.Text.Utf8
