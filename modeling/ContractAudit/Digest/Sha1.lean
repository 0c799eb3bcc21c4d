import ContractAudit.Digest.Word

/-!
# SHA-1
-/

namespace ContractAudit.Digest

namespace Sha1

structure State where
  a : UInt32
  b : UInt32
  c : UInt32
  d : UInt32
  e : UInt32

def start : State := ⟨0x67452301, 0xefcdab89, 0x98badcfe, 0x10325476, 0xc3d2e1f0⟩

/-- The round function and constant of round `t`. -/
def mix (t : Nat) (b c d : UInt32) : UInt32 × UInt32 :=
  if t < 20 then ((b &&& c) ||| ((~~~ b) &&& d), 0x5a827999)
  else if t < 40 then (b ^^^ c ^^^ d, 0x6ed9eba1)
  else if t < 60 then ((b &&& c) ||| (b &&& d) ||| (c &&& d), 0x8f1bbcdc)
  else (b ^^^ c ^^^ d, 0xca62c1d6)

def round (s : State) (w : UInt32 × Nat) : State :=
  let (f, k) := mix w.2 s.b s.c s.d
  ⟨rotateLeft s.a 5 + f + s.e + k + w.1, s.a, rotateLeft s.b 30, s.c, s.d⟩

def nextWord (ws : List UInt32) : UInt32 :=
  rotateLeft (ws.getD 2 0 ^^^ ws.getD 7 0 ^^^ ws.getD 13 0 ^^^ ws.getD 15 0) 1

def compress (s : State) (block : List UInt32) : State :=
  let ws := (schedule nextWord 64 block.reverse).reverse
  let r := (ws.zipIdx).foldl round s
  ⟨s.a + r.a, s.b + r.b, s.c + r.c, s.d + r.d, s.e + r.e⟩

end Sha1

/-- The SHA-1 digest of a message in hexadecimal. -/
def sha1 (message : List UInt8) : String :=
  let s := (blocks (words (pad message))).foldl Sha1.compress Sha1.start
  hexText [s.a, s.b, s.c, s.d, s.e]

end ContractAudit.Digest
