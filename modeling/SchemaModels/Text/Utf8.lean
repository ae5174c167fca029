namespace SchemaModels.Text

abbrev Bytes := List UInt8

/-- For the first byte of a sequence: how many bytes follow, and the bounds of the next one. -/
def leadShape (b : UInt8) : Option (Nat × UInt8 × UInt8) :=
  if b < 0x80 then some (0, 0x80, 0xbf)
  else if b < 0xc2 then none
  else if b < 0xe0 then some (1, 0x80, 0xbf)
  else if b = 0xe0 then some (2, 0xa0, 0xbf)
  else if b = 0xed then some (2, 0x80, 0x9f)
  else if b < 0xf0 then some (2, 0x80, 0xbf)
  else if b = 0xf0 then some (3, 0x90, 0xbf)
  else if b < 0xf4 then some (3, 0x80, 0xbf)
  else if b = 0xf4 then some (3, 0x80, 0x8f)
  else none

/-- The bytes in front, at most `n`, that continue a sequence. -/
def continuation : Nat → UInt8 → UInt8 → Bytes → Bytes
  | n + 1, lo, hi, b :: rest =>
    if lo ≤ b ∧ b ≤ hi then b :: continuation n 0x80 0xbf rest else []
  | _, _, _, _ => []

/-- The bits of the first byte of a sequence that count, with the number of bytes after it. -/
def leadBits (n : Nat) (b : UInt8) : Nat :=
  match n with
  | 0 => b.toNat
  | n + 1 => b.toNat % (1 <<< (5 - n))

def scalarValue (lead : Nat) (tail : Bytes) : Nat :=
  tail.foldl (fun acc b => acc * 64 + b.toNat % 64) lead

/-- One entry per sequence, `none` for one that is broken off. -/
def scalars : Bytes → List (Option Char)
  | [] => []
  | b :: rest =>
    match leadShape b with
    | none => none :: scalars rest
    | some (n, lo, hi) =>
      let tail := continuation n lo hi rest
      let scalar :=
        if tail.length = n then some (Char.ofNat (scalarValue (leadBits n b) tail)) else none
      scalar :: scalars (rest.drop tail.length)
termination_by bs => bs.length
decreasing_by
  · exact Nat.lt_add_one rest.length
  · simp only [List.length_drop, List.length_cons]
    omega

/-- Text of any bytes, with a replacement character for each sequence that is broken off. -/
def decodeLossy (bs : Bytes) : List Char := (scalars bs).map (·.getD '\uFFFD')

def decode? (bs : Bytes) : Option (List Char) := (scalars bs).mapM id

def encode (cs : List Char) : Bytes := cs.flatMap String.utf8EncodeChar

end SchemaModels.Text
