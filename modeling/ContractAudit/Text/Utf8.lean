/-!
# Text from bytes

Every list of bytes reads as a text. Where the bytes are no UTF-8, the longest start of a character
that is broken off stands as one replacement character, and so does every byte that can start none.
-/

namespace ContractAudit.Text

def replacement : Char := Char.ofNat 0xfffd

/-- A character of which some bytes have been read: how many are owed, the least and the greatest
value of the next one, and the number read so far. -/
structure OpenChar where
  owed : Nat
  low : Nat
  high : Nat
  value : Nat
  deriving DecidableEq, Repr

namespace OpenChar

/-- The character that a first byte opens. -/
def ofFirst? (b : Nat) : Option OpenChar :=
  if 0xc2 ≤ b ∧ b ≤ 0xdf then some ⟨1, 0x80, 0xbf, b - 0xc0⟩
  else if b = 0xe0 then some ⟨2, 0xa0, 0xbf, 0⟩
  else if b = 0xed then some ⟨2, 0x80, 0x9f, 0xd⟩
  else if 0xe1 ≤ b ∧ b ≤ 0xef then some ⟨2, 0x80, 0xbf, b - 0xe0⟩
  else if b = 0xf0 then some ⟨3, 0x90, 0xbf, 0⟩
  else if 0xf1 ≤ b ∧ b ≤ 0xf3 then some ⟨3, 0x80, 0xbf, b - 0xf0⟩
  else if b = 0xf4 then some ⟨3, 0x80, 0x8f, 4⟩
  else none

/-- Reads the first byte of a character: what is complete after it, and what is open. -/
def start (b : Nat) : List Char × Option OpenChar :=
  if b < 0x80 then ([Char.ofNat b], none)
  else
    match ofFirst? b with
    | some o => ([], some o)
    | none => ([replacement], none)

/-- Reads one byte. A byte that does not go on with the open character starts another. -/
def step (o : Option OpenChar) (b : Nat) : List Char × Option OpenChar :=
  match o with
  | none => start b
  | some o =>
    if o.low ≤ b ∧ b ≤ o.high then
      let value := 64 * o.value + (b - 0x80)
      if o.owed ≤ 1 then ([Char.ofNat value], none)
      else ([], some ⟨o.owed - 1, 0x80, 0xbf, value⟩)
    else (replacement :: (start b).1, (start b).2)

end OpenChar

def decodeFrom (o : Option OpenChar) : List UInt8 → List Char
  | [] => if o.isSome then [replacement] else []
  | b :: bs =>
    let (done, next) := OpenChar.step o b.toNat
    done ++ decodeFrom next bs

/-- The text of a list of bytes. -/
def decode (bytes : List UInt8) : List Char := decodeFrom none bytes

end ContractAudit.Text
