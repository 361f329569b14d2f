/-
# UTF-8

Reading bytes as text, with an account of the first place where they are not UTF-8: the bytes that
cannot be read there and why. A character of several bytes is read as far as it is well formed, so
the account covers its good bytes but not the one that breaks it.
-/

namespace Bol.Text

/-- Why some bytes are no character. -/
inductive Utf8Fault
  /-- A byte that no character starts with. -/
  | invalidStart
  /-- A byte that cannot go on with the character. -/
  | invalidContinuation
  /-- The bytes end before the character does. -/
  | unexpectedEnd
  deriving DecidableEq, Repr

def Utf8Fault.reason : Utf8Fault → String
  | invalidStart => "invalid start byte"
  | invalidContinuation => "invalid continuation byte"
  | unexpectedEnd => "unexpected end of data"

/-- The first bytes of a file that are no text. -/
structure Utf8Error where
  fault : Utf8Fault
  /-- The place of the first of them, from zero. -/
  start : Nat
  /-- How many bytes they are. -/
  width : Nat
  /-- The first of them. -/
  byte : UInt8
  deriving DecidableEq, Repr

/-- The account of an error. A single byte is shown, several are not. -/
def Utf8Error.message (error : Utf8Error) : String :=
  let where_ :=
    if error.width = 1 then
      s!"byte 0x{String.ofList (hexByte error.byte.toNat)} in position {error.start}"
    else s!"bytes in position {error.start}-{error.start + error.width - 1}"
  s!"'utf-8' codec can't decode {where_}: {error.fault.reason}"
where
  hexByte (n : Nat) : List Char := [Nat.digitChar (n / 16), Nat.digitChar (n % 16)]

/-- The bytes that may follow the first byte of a character, by their number and the range of the
first of them; all others range over the continuation bytes. -/
def continuation? (byte : UInt8) : Option (Nat × UInt8 × UInt8) :=
  if byte < 0x80 then some (0, 0x80, 0xbf)
  else if byte < 0xc2 then none
  else if byte < 0xe0 then some (1, 0x80, 0xbf)
  else if byte = 0xe0 then some (2, 0xa0, 0xbf)
  else if byte = 0xed then some (2, 0x80, 0x9f)
  else if byte < 0xf0 then some (2, 0x80, 0xbf)
  else if byte = 0xf0 then some (3, 0x90, 0xbf)
  else if byte < 0xf4 then some (3, 0x80, 0xbf)
  else if byte = 0xf4 then some (3, 0x80, 0x8f)
  else none

/-- Takes `count` continuation bytes, the first from the given range: what is left after them, or
the fault and the number of good ones before it. -/
def takeContinuation (good : Nat) (low high : UInt8) :
    (count : Nat) → List UInt8 → Except (Utf8Fault × Nat) (List UInt8)
  | 0, bytes => .ok bytes
  | _ + 1, [] => .error (.unexpectedEnd, good)
  | count + 1, byte :: rest =>
    if low ≤ byte ∧ byte ≤ high then takeContinuation (good + 1) 0x80 0xbf count rest
    else .error (.invalidContinuation, good)

theorem length_takeContinuation_le {good : Nat} {low high : UInt8} {count : Nat}
    {bytes rest : List UInt8} (h : takeContinuation good low high count bytes = .ok rest) :
    rest.length ≤ bytes.length := by
  induction count generalizing good low high bytes with
  | zero => simp [takeContinuation] at h; simp [h]
  | succ count ih =>
    cases bytes with
    | nil => simp [takeContinuation] at h
    | cons byte bytes =>
      simp only [takeContinuation] at h
      split at h
      · exact Nat.le_succ_of_le (ih h)
      · cases h

/-- The first place, counted on from `start`, where bytes are no text. -/
def utf8Error? (start : Nat) : List UInt8 → Option Utf8Error
  | [] => none
  | byte :: rest =>
    match continuation? byte with
    | none => some ⟨.invalidStart, start, 1, byte⟩
    | some (count, low, high) =>
      match h : takeContinuation 0 low high count rest with
      | .error (fault, good) => some ⟨fault, start, good + 1, byte⟩
      | .ok after => utf8Error? (start + 1 + count) after
termination_by bytes => bytes.length
decreasing_by exact Nat.lt_succ_of_le (length_takeContinuation_le h)

/-- The text that bytes encode. -/
def decodeUtf8 (bytes : ByteArray) : Except Utf8Error String :=
  match String.fromUTF8? bytes with
  | some text => .ok text
  | none => .error ((utf8Error? 0 bytes.toList).getD ⟨.unexpectedEnd, bytes.size, 0, 0⟩)

end Bol.Text
