import StockGate.Text.Utf8
import StockGate.Text.Digit

namespace StockGate.Url

open Text

/-- The ASCII characters that a part of a URL escapes; control and non-ASCII ones are escaped
everywhere. -/
abbrev EncodeSet := List Char

namespace EncodeSet

def control : EncodeSet := []
def fragment : EncodeSet := [' ', '"', '<', '>', '\x60']
def query : EncodeSet := [' ', '"', '#', '<', '>']
def specialQuery : EncodeSet := '\'' :: query
def path : EncodeSet := fragment ++ ['#', '?', '\x7b', '\x7d']
def segment : EncodeSet := path ++ ['/', '%']
def specialSegment : EncodeSet := segment ++ ['\\']
def userinfo : EncodeSet := path ++ ['/', ':', ';', '=', '@', '[', '\\', ']', '^', '|']

end EncodeSet

def isControl (c : Char) : Bool :=
  c.toNat < 0x20 || c = '\x7f'

def EncodeSet.escapes (set : EncodeSet) (c : Char) : Bool :=
  isControl c || 0x80 ≤ c.toNat || set.contains c

def escapeByte (b : UInt8) : List Char :=
  ['%', hexDigitUpper (b.toNat / 16), hexDigitUpper (b.toNat % 16)]

def encodeChar (set : EncodeSet) (c : Char) : List Char :=
  if set.escapes c then (String.utf8EncodeChar c).flatMap escapeByte else [c]

def encode (set : EncodeSet) (cs : List Char) : List Char :=
  cs.flatMap (encodeChar set)

/-- Reads the escapes of a text; a percent sign without two hexadecimal digits stands for itself. -/
def decode : List Char → Bytes
  | [] => []
  | '%' :: a :: b :: rest =>
    match hexValue? a, hexValue? b with
    | some x, some y => UInt8.ofNat (x * 16 + y) :: decode rest
    | _, _ => String.utf8EncodeChar '%' ++ decode (a :: b :: rest)
  | c :: rest => String.utf8EncodeChar c ++ decode rest

end StockGate.Url
