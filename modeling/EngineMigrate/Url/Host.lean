import EngineMigrate.Server.Exchange
import EngineMigrate.Text.Printable
import EngineMigrate.Text.Utf8
import EngineMigrate.Url.Address
import EngineMigrate.Url.Encoding
import EngineMigrate.Url.Punycode

/-!
Hosts.  The host of a well-known scheme is a domain name or a numeric address and is brought into one
written form; that of any other scheme is taken as it is.
-/
namespace EngineMigrate.Url

def isDomainForbidden (c : Char) : Bool :=
  c.toNat ≤ 32 || c.toNat = 127 || "%#/:<>?@[\\]^|".toList.contains c

/-- The spellings of the dot between labels. -/
def isDot (c : Char) : Bool := c == '.' || c == '\u3002' || c == '\uff0e' || c == '\uff61'

/-- A character of a domain name in the form in which names are compared: letters of the common
alphabets in lower case, wide forms of ASCII as ASCII. -/
def foldChar (c : Char) : Char :=
  let n := c.toNat
  if isDot c then '.'
  else if 0xFF01 ≤ n && n ≤ 0xFF5E then (Char.ofNat (n - 0xFEE0)).toLower
  else if (0xC0 ≤ n && n ≤ 0xDE && n ≠ 0xD7) || (0x391 ≤ n && n ≤ 0x3A9) || (0x410 ≤ n && n ≤ 0x42F) then
    Char.ofNat (n + 32)
  else if 0x400 ≤ n && n ≤ 0x40F then Char.ofNat (n + 80)
  else if ((0x100 ≤ n && n ≤ 0x12F) || (0x14A ≤ n && n ≤ 0x177)) && n % 2 = 0 then Char.ofNat (n + 1)
  else c.toLower

def isIgnored (c : Char) : Bool :=
  c == '\u00ad' || c == '\u200b' || c == '\u2060' || c == '\ufeff' || ('\ufe00' ≤ c && c ≤ '\ufe0f')

/-- A label as letters, digits and hyphens; one that already is coded must decode. -/
def codeLabel (cs : List Char) : Option (List Char) :=
  if cs.all fun c => c.toNat < 128 then
    match cs with
    | 'x' :: 'n' :: '-' :: '-' :: coded =>
      match Punycode.decode? coded with
      | some text => if text.all fun c => c.toNat < 128 then none else some cs
      | none => none
    | _ => some cs
  else if cs.head?.any (Text.inRanges Text.extendingRanges) ||
      cs.any (Text.inRanges Text.unprintableRanges) then none
  else some ("xn--".toList ++ Punycode.encode cs)

def domain? (cs : List Char) : Option (List Char) := do
  let folded := (cs.filter (!isIgnored ·)).map foldChar
  let labels ← (folded.splitOn '.').mapM codeLabel
  let name := ['.'].intercalate labels
  if name.any isDomainForbidden then none else some name

/-- An address between brackets, if the text starts with one. -/
def bracketed? (cs : List Char) : Option (Except UrlFault (List Char)) :=
  match cs with
  | '[' :: inner =>
    match inner.getLast?, Ipv6.parse? inner.dropLast with
    | some ']', some ps => some (.ok ('[' :: Ipv6.text ps ++ [']']))
    | _, _ => some (.error .ipv6)
  | _ => none

/-- The host of a well-known scheme in its written form. -/
def parseHost (cs : List Char) : Except UrlFault (List Char) :=
  match bracketed? cs with
  | some r => r
  | none =>
    let bytes := decodeBytes (String.ofList cs).toUTF8.toList
    match (Text.strict? (Text.glyphs bytes)).bind fun s => domain? s.toList with
    | none => .error .internationalName
    | some name =>
      if name.isEmpty then .error .emptyHost
      else if Ipv4.endsInNumber name then
        match Ipv4.parse? name with
        | some n => .ok (Ipv4.text n)
        | none => .error .ipv4
      else .ok name

def isHostForbidden (c : Char) : Bool := c.toNat = 0 || "\t\n\r #/:<>?@[\\]^|".toList.contains c

def parseOpaqueHost (cs : List Char) : Except UrlFault (List Char) :=
  match bracketed? cs with
  | some r => r
  | none => if cs.any isHostForbidden then .error .hostCharacter else .ok (encode isControl cs)

end EngineMigrate.Url
