import LexicalRuns.Rule

/-! General categories: the classes that character data sorts code points into, and the lexical
rule that each class stands for, if any. -/
namespace LexicalRuns

inductive Category where
  | uppercaseLetter
  | lowercaseLetter
  | titlecaseLetter
  | modifierLetter
  | otherLetter
  | nonspacingMark
  | spacingMark
  | enclosingMark
  | decimalNumber
  | letterNumber
  | otherNumber
  | connectorPunctuation
  | dashPunctuation
  | openPunctuation
  | closePunctuation
  | initialPunctuation
  | finalPunctuation
  | otherPunctuation
  | mathSymbol
  | currencySymbol
  | modifierSymbol
  | otherSymbol
  | spaceSeparator
  | lineSeparator
  | paragraphSeparator
  | control
  | format
  | surrogate
  | privateUse
  | unassigned
  deriving DecidableEq, Repr

namespace Category

def all : List Category := [
  .uppercaseLetter, .lowercaseLetter, .titlecaseLetter, .modifierLetter, .otherLetter,
  .nonspacingMark, .spacingMark, .enclosingMark,
  .decimalNumber, .letterNumber, .otherNumber,
  .connectorPunctuation, .dashPunctuation, .openPunctuation, .closePunctuation,
  .initialPunctuation, .finalPunctuation, .otherPunctuation,
  .mathSymbol, .currencySymbol, .modifierSymbol, .otherSymbol,
  .spaceSeparator, .lineSeparator, .paragraphSeparator,
  .control, .format, .surrogate, .privateUse, .unassigned]

/-- The two-letter name of a category in character data. -/
def code : Category → String
  | .uppercaseLetter => "Lu"
  | .lowercaseLetter => "Ll"
  | .titlecaseLetter => "Lt"
  | .modifierLetter => "Lm"
  | .otherLetter => "Lo"
  | .nonspacingMark => "Mn"
  | .spacingMark => "Mc"
  | .enclosingMark => "Me"
  | .decimalNumber => "Nd"
  | .letterNumber => "Nl"
  | .otherNumber => "No"
  | .connectorPunctuation => "Pc"
  | .dashPunctuation => "Pd"
  | .openPunctuation => "Ps"
  | .closePunctuation => "Pe"
  | .initialPunctuation => "Pi"
  | .finalPunctuation => "Pf"
  | .otherPunctuation => "Po"
  | .mathSymbol => "Sm"
  | .currencySymbol => "Sc"
  | .modifierSymbol => "Sk"
  | .otherSymbol => "So"
  | .spaceSeparator => "Zs"
  | .lineSeparator => "Zl"
  | .paragraphSeparator => "Zp"
  | .control => "Cc"
  | .format => "Cf"
  | .surrogate => "Cs"
  | .privateUse => "Co"
  | .unassigned => "Cn"

def ofCode? (text : String) : Option Category := all.find? (·.code = text)

def label : Category → String
  | .uppercaseLetter => "UppercaseLetter"
  | .lowercaseLetter => "LowercaseLetter"
  | .titlecaseLetter => "TitlecaseLetter"
  | .modifierLetter => "ModifierLetter"
  | .otherLetter => "OtherLetter"
  | .nonspacingMark => "NonspacingMark"
  | .spacingMark => "SpacingMark"
  | .enclosingMark => "EnclosingMark"
  | .decimalNumber => "DecimalNumber"
  | .letterNumber => "LetterNumber"
  | .otherNumber => "OtherNumber"
  | .connectorPunctuation => "ConnectorPunctuation"
  | .dashPunctuation => "DashPunctuation"
  | .openPunctuation => "OpenPunctuation"
  | .closePunctuation => "ClosePunctuation"
  | .initialPunctuation => "InitialPunctuation"
  | .finalPunctuation => "FinalPunctuation"
  | .otherPunctuation => "OtherPunctuation"
  | .mathSymbol => "MathSymbol"
  | .currencySymbol => "CurrencySymbol"
  | .modifierSymbol => "ModifierSymbol"
  | .otherSymbol => "OtherSymbol"
  | .spaceSeparator => "SpaceSeparator"
  | .lineSeparator => "LineSeparator"
  | .paragraphSeparator => "ParagraphSeparator"
  | .control => "Control"
  | .format => "Format"
  | .surrogate => "Surrogate"
  | .privateUse => "PrivateUse"
  | .unassigned => "Unassigned"

def lexical : List (Category × Rule) := [
  (.spacingMark, .identifierPart),
  (.connectorPunctuation, .identifierPart),
  (.decimalNumber, .identifierPart),
  (.letterNumber, .identifierStart),
  (.lowercaseLetter, .identifierStart),
  (.modifierLetter, .identifierStart),
  (.nonspacingMark, .identifierPart),
  (.spaceSeparator, .whitespace),
  (.otherLetter, .identifierStart),
  (.titlecaseLetter, .identifierStart),
  (.uppercaseLetter, .identifierStart)]

def rule? (c : Category) : Option Rule := lexical.lookup c

@[simp] theorem ofCode?_code (c : Category) : ofCode? c.code = some c := by
  cases c <;> decide

theorem code_injective {c d : Category} (h : c.code = d.code) : c = d := by
  have same := congrArg ofCode? h
  simpa using same

end Category

end LexicalRuns
