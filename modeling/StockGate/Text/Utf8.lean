namespace StockGate.Text

abbrev Bytes := List UInt8

def utf8 (s : String) : Bytes :=
  s.toList.flatMap String.utf8EncodeChar

def isContinuation (b : UInt8) : Bool :=
  0x80 ≤ b && b ≤ 0xBF

def payload (b : UInt8) : Nat :=
  b.toNat - 0x80

/-- Overlong forms, surrogates and stray continuation bytes are refused. -/
def utf8Chars? : Bytes → Option (List Char)
  | [] => some []
  | a :: rest =>
    if a < 0x80 then (utf8Chars? rest).map (Char.ofNat a.toNat :: ·)
    else match rest with
      | [] => none
      | b :: rest =>
        if 0xC2 ≤ a ∧ a ≤ 0xDF ∧ isContinuation b then
          (utf8Chars? rest).map (Char.ofNat ((a.toNat - 0xC0) * 64 + payload b) :: ·)
        else match rest with
          | [] => none
          | c :: rest =>
            if 0xE0 ≤ a ∧ a ≤ 0xEF ∧ isContinuation b ∧ isContinuation c ∧
                (a = 0xE0 → 0xA0 ≤ b) ∧ (a = 0xED → b < 0xA0) then
              (utf8Chars? rest).map
                (Char.ofNat ((a.toNat - 0xE0) * 4096 + payload b * 64 + payload c) :: ·)
            else match rest with
              | [] => none
              | d :: rest =>
                if 0xF0 ≤ a ∧ a ≤ 0xF4 ∧ isContinuation b ∧ isContinuation c ∧ isContinuation d ∧
                    (a = 0xF0 → 0x90 ≤ b) ∧ (a = 0xF4 → b < 0x90) then
                  (utf8Chars? rest).map
                    (Char.ofNat ((a.toNat - 0xF0) * 262144 + payload b * 4096 + payload c * 64 +
                      payload d) :: ·)
                else none

def ofUtf8? (bytes : Bytes) : Option String :=
  (utf8Chars? bytes).map String.ofList

end StockGate.Text
