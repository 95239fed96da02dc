/-!
Percent encoding.  Each part of a URL has its own set of characters that are written by their bytes;
everything outside printable ASCII is in all of them.
-/
namespace EngineMigrate.Url

def hexDigit (n : Nat) : Char := Char.ofNat (if n < 10 then 48 + n else 55 + n)

def encodeByte (b : UInt8) : List Char := ['%', hexDigit (b.toNat / 16), hexDigit (b.toNat % 16)]

/-- Controls and everything that is not ASCII. -/
def isControl (c : Char) : Bool := c.toNat < 32 || 126 < c.toNat

def isFragmentEscaped (c : Char) : Bool :=
  isControl c || c == ' ' || c == '"' || c == '<' || c == '>' || c == '\x60'

def isQueryEscaped (special : Bool) (c : Char) : Bool :=
  isControl c || c == ' ' || c == '"' || c == '#' || c == '<' || c == '>' || (special && c == '\'')

def isPathEscaped (c : Char) : Bool :=
  isFragmentEscaped c || c == '#' || c == '?' || c == '{' || c == '}'

def isUserEscaped (c : Char) : Bool :=
  isPathEscaped c || c == '/' || c == ':' || c == ';' || c == '=' || c == '@' || c == '[' ||
  c == '\\' || c == ']' || c == '^' || c == '|'

def encodeChar (escaped : Char → Bool) (c : Char) : List Char :=
  if escaped c then (String.utf8EncodeChar c).flatMap encodeByte else [c]

def encode (escaped : Char → Bool) (cs : List Char) : List Char := cs.flatMap (encodeChar escaped)

def hexValue? (c : Char) : Option Nat :=
  if c.isDigit then some (c.toNat - 48)
  else if 'a' ≤ c && c ≤ 'f' then some (c.toNat - 87)
  else if 'A' ≤ c && c ≤ 'F' then some (c.toNat - 55)
  else none

/-- The bytes of a text with its escapes decoded; a percent sign without two digits stands for itself. -/
def decodeBytes : List UInt8 → List UInt8
  | [] => []
  | 37 :: a :: b :: bs =>
    match hexValue? (Char.ofNat a.toNat), hexValue? (Char.ofNat b.toNat) with
    | some x, some y => UInt8.ofNat (16 * x + y) :: decodeBytes bs
    | _, _ => 37 :: decodeBytes (a :: b :: bs)
  | c :: bs => c :: decodeBytes bs

theorem encode_eq_self {p : Char → Bool} {cs : List Char} (h : ∀ c ∈ cs, p c = false) :
    encode p cs = cs := by
  induction cs with
  | nil => rfl
  | cons c cs ih =>
    have hc := h c (by simp)
    have hcs := ih fun d hd => h d (by simp [hd])
    simp only [encode, List.flatMap_cons] at hcs ⊢
    rw [hcs]
    simp [encodeChar, hc]

end EngineMigrate.Url
