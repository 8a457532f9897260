import LexicalRuns.Text.Hex

/-! The space of code points, and the label that names one in text. -/
namespace LexicalRuns.CodePoint

def last : Nat := 0x10FFFF

/-- The number of code points, and so the first number that is none. -/
def count : Nat := 0x110000

/-- `U+` and at least four upper-case hexadecimal digits. -/
def label (c : Nat) : String := "U+" ++ Text.Hex.upper 4 c

end LexicalRuns.CodePoint
