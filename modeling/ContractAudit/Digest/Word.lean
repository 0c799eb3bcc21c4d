/-!
# Words and padding of the SHA digests

Messages are lists of bytes. A message is padded with a one bit, zeros and its length in bits to a
whole number of 64-byte blocks, each read as sixteen big-endian words.
-/

namespace ContractAudit.Digest

def rotateLeft (x : UInt32) (n : UInt32) : UInt32 := (x <<< n) ||| (x >>> (32 - n))

def rotateRight (x : UInt32) (n : UInt32) : UInt32 := (x >>> n) ||| (x <<< (32 - n))

/-- `count` bytes of a number, the most significant first. -/
def bigEndian : (count : Nat) → Nat → List UInt8
  | 0, _ => []
  | count + 1, n => UInt8.ofNat (n / 256 ^ count % 256) :: bigEndian count n

def pad (message : List UInt8) : List UInt8 :=
  let zeros := (119 - message.length % 64) % 64
  message ++ 0x80 :: List.replicate zeros 0 ++ bigEndian 8 (8 * message.length)

/-- Big-endian words of a list of bytes. -/
def words : List UInt8 → List UInt32
  | a :: b :: c :: d :: rest =>
    ((a.toUInt32 <<< 24) ||| (b.toUInt32 <<< 16) ||| (c.toUInt32 <<< 8) ||| d.toUInt32) ::
      words rest
  | _ => []

/-- Consecutive groups of sixteen; a shorter rest is dropped. -/
def blocks (ws : List UInt32) : List (List UInt32) :=
  (List.range (ws.length / 16)).map fun i => (ws.drop (16 * i)).take 16

def hexDigit (n : Nat) : Char := "0123456789abcdef".toList.getD n '0'

/-- The hexadecimal text of a list of words. -/
def hexText (ws : List UInt32) : String :=
  String.ofList <| (ws.flatMap fun w => bigEndian 4 w.toNat).flatMap fun b =>
    [hexDigit (b.toNat / 16), hexDigit (b.toNat % 16)]

/-- The words `w(0) … w(n-1)` of a message schedule, latest first: each word past the first sixteen
is computed from the sixteen before it, which `next` gets latest first. -/
def schedule (next : List UInt32 → UInt32) : (more : Nat) → List UInt32 → List UInt32
  | 0, ws => ws
  | more + 1, ws => schedule next more (next ws :: ws)

end ContractAudit.Digest
