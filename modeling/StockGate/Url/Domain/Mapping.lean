namespace StockGate.Url.Domain

inductive Fate where
  | kept
  | mapped (cs : List Char)
  | refused

namespace Fate

def dropped : Fate :=
  .mapped []

def point (n : Nat) : Fate :=
  .mapped [Char.ofNat n]

end Fate

def between (low high n : Nat) : Bool :=
  low ≤ n && n ≤ high

/-- Blocks in which capital and small letters alternate, with the parity of the capitals. -/
def alternating : List (Nat × Nat × Nat) :=
  [(0x100, 0x12F, 0), (0x134, 0x137, 0), (0x139, 0x13E, 1), (0x141, 0x148, 1), (0x14A, 0x177, 0),
    (0x179, 0x17E, 1), (0x1CD, 0x1DC, 1), (0x1DE, 0x1EF, 0), (0x1F8, 0x21F, 0), (0x222, 0x233, 0),
    (0x3D8, 0x3EF, 0), (0x460, 0x481, 0), (0x48A, 0x4BF, 0), (0x4C1, 0x4CE, 1), (0x4D0, 0x52F, 0),
    (0x1E00, 0x1E95, 0), (0x1EA0, 0x1EFF, 0)]

/-- Blocks of capitals that have their small letters at a fixed distance. -/
def shifted : List (Nat × Nat × Nat) :=
  [(0xC0, 0xD6, 32), (0xD8, 0xDE, 32), (0x388, 0x38A, 37), (0x38E, 0x38F, 63), (0x391, 0x3A1, 32),
    (0x3A3, 0x3AB, 32), (0x400, 0x40F, 80), (0x410, 0x42F, 32), (0x531, 0x556, 48)]

def singles : List (Nat × List Char) :=
  [(0xAA, ['a']), (0xB2, ['2']), (0xB3, ['3']), (0xB5, ['μ']), (0xB9, ['1']), (0xBA, ['o']),
    (0x130, ['i', '\u0307']), (0x132, ['i', 'j']), (0x133, ['i', 'j']), (0x13F, ['l', '·']),
    (0x140, ['l', '·']), (0x149, ['ʼ', 'n']), (0x178, ['ÿ']), (0x17F, ['s']), (0x386, ['ά']),
    (0x38C, ['ό']), (0x4C0, ['ӏ']), (0x1E9E, ['ß']), (0x3002, ['.']), (0xFF0E, ['.']),
    (0xFF61, ['.'])]

def isInvisible (n : Nat) : Bool :=
  n = 0xAD || n = 0x34F || between 0x180B 0x180F n || n = 0x200B || n = 0x2060 || n = 0x2064 ||
    between 0xFE00 0xFE0F n || n = 0xFEFF

def isRefused (n : Nat) : Bool :=
  between 0x80 0xA0 n || n = 0xA8 || n = 0xAF || n = 0xB4 || n = 0xB8 || n = 0x1680 ||
    between 0x2000 0x200A n || between 0x200C 0x200F n || between 0x2028 0x202F n ||
    between 0x205F 0x206F n || n = 0x3000 || between 0xE000 0xF8FF n || between 0xFDD0 0xFDEF n ||
    between 0xFFF0 0xFFFF n || 0xE0000 ≤ n || 0xFFFE ≤ n % 0x10000

/-- An approximation of the UTS 46 mapping of characters beyond ASCII. It names the
capitals of the cased European scripts, the wide forms of ASCII, some characters that
vanish and some that are refused; any other character stands for itself, also where the
standard maps or refuses it, and nothing is normalized. -/
def fate (c : Char) : Fate :=
  let n := c.toNat
  match singles.lookup n with
  | some cs => .mapped cs
  | none =>
    if isInvisible n then .dropped
    else if isRefused n then .refused
    else if between 0xFF01 0xFF5E n then .mapped [(Char.ofNat (n - 0xFEE0)).toLower]
    else if alternating.any fun (low, high, parity) => between low high n && n % 2 == parity then
      .point (n + 1)
    else
      match shifted.find? fun (low, high, _) => between low high n with
      | some (_, _, d) => .point (n + d)
      | none => .kept

end StockGate.Url.Domain
