/-!
Bytes as text.  A body is read glyph by glyph: a character, or a stretch of bytes that encodes none;
`lossy` shows such a stretch as U+FFFD, the strict reading refuses it.
-/
namespace EngineMigrate.Text

/-- A character, or `none` for bytes that encode no character. -/
abbrev Glyph := Option Char

/-- How a multi-byte sequence goes on after its first byte: the number of further bytes, and the
bounds of the first of them (which rule out overlong forms, surrogates and values past U+10FFFF). -/
def continuation (b : UInt8) : Option (Nat × UInt8 × UInt8) :=
  if 0xC2 ≤ b && b ≤ 0xDF then some (1, 0x80, 0xBF)
  else if b == 0xE0 then some (2, 0xA0, 0xBF)
  else if b == 0xED then some (2, 0x80, 0x9F)
  else if 0xE1 ≤ b && b ≤ 0xEF then some (2, 0x80, 0xBF)
  else if b == 0xF0 then some (3, 0x90, 0xBF)
  else if 0xF1 ≤ b && b ≤ 0xF3 then some (3, 0x80, 0xBF)
  else if b == 0xF4 then some (3, 0x80, 0x8F)
  else none

/-- The bits of a first byte that belong to the code point, by the number of bytes that follow. -/
def leadBits (b : UInt8) : Nat → Nat
  | 1 => b.toNat % 32
  | 2 => b.toNat % 16
  | _ => b.toNat % 8

/-- The longest acceptable run of at most `n` continuation bytes: the bits gathered, how many bytes
were taken, and the rest. -/
def gather : Nat → UInt8 → UInt8 → Nat → List UInt8 → Nat × Nat × List UInt8
  | 0, _, _, acc, bs => (acc, 0, bs)
  | _ + 1, _, _, acc, [] => (acc, 0, [])
  | n + 1, lo, hi, acc, b :: bs =>
    if lo ≤ b && b ≤ hi then
      let (value, taken, rest) := gather n 0x80 0xBF (acc * 64 + b.toNat % 64) bs
      (value, taken + 1, rest)
    else (acc, 0, b :: bs)

theorem gather_length (n : Nat) (lo hi : UInt8) (acc : Nat) (bs : List UInt8) :
    (gather n lo hi acc bs).2.2.length ≤ bs.length := by
  induction n generalizing lo hi acc bs with
  | zero => simp [gather]
  | succ n ih =>
    cases bs with
    | nil => simp [gather]
    | cons b bs =>
      simp only [gather]
      split
      · exact Nat.le_succ_of_le (ih _ _ _ _)
      · exact Nat.le_refl _

/-- The glyphs of a byte string.  A broken sequence ends before the first byte that cannot continue
it, so that no ASCII byte is ever swallowed. -/
def glyphs : List UInt8 → List Glyph
  | [] => []
  | b :: bs =>
    if b < 0x80 then some (Char.ofNat b.toNat) :: glyphs bs
    else match continuation b with
      | none => none :: glyphs bs
      | some (n, lo, hi) =>
        let out := gather n lo hi (leadBits b n) bs
        (if out.2.1 = n then some (Char.ofNat out.1) else none) :: glyphs out.2.2
termination_by bs => bs.length
decreasing_by
  · simp
  · simp
  · exact Nat.lt_succ_of_le (gather_length _ _ _ _ _)

def ofBytes (bytes : ByteArray) : List Glyph := glyphs bytes.toList

def ofText (s : String) : List Glyph := s.toList.map some

def strict? (gs : List Glyph) : Option String := (gs.mapM id).map String.ofList

/-- The text with U+FFFD wherever bytes could not be read. -/
def lossy (bytes : ByteArray) : String :=
  String.ofList ((ofBytes bytes).map fun g => g.getD '\ufffd')

end EngineMigrate.Text
