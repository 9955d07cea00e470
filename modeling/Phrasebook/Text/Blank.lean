namespace Phrasebook

def isBlank (c : Char) : Bool :=
  let n := c.toNat
  (9 ≤ n && n ≤ 13) || n == 0x20 || n == 0x85 || n == 0xA0 || n == 0x1680 ||
    (0x2000 ≤ n && n ≤ 0x200A) || n == 0x2028 || n == 0x2029 || n == 0x202F || n == 0x205F ||
    n == 0x3000

def dropTrailing {α : Type} (p : α → Bool) (text : List α) : List α :=
  (text.reverse.dropWhile p).reverse

def trimBlanks (text : List Char) : List Char :=
  dropTrailing isBlank (text.dropWhile isBlank)

def lowerAscii (c : Char) : Char := c.toLower

def foldCase (s : String) : String := String.ofList (s.toList.map lowerAscii)

def trimmed (s : String) : String := String.ofList (trimBlanks s.toList)

theorem isBlank_of_isWhitespace {c : Char} (h : c.isWhitespace = true) : isBlank c = true := by
  simp only [Char.isWhitespace, Bool.or_eq_true, decide_eq_true_eq] at h
  rcases h with ((rfl | rfl) | rfl) | rfl <;> decide

end Phrasebook
