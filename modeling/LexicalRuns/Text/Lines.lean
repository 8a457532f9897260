/-! Lines of a byte string. A line feed ends a line, and bytes after the last one form a line of
their own. -/
namespace LexicalRuns.Text

def lineFeed : UInt8 := 10

def lines (bytes : List UInt8) : List (List UInt8) :=
  let pieces := bytes.splitOn lineFeed
  if pieces.getLast? = some [] then pieces.dropLast else pieces

end LexicalRuns.Text
