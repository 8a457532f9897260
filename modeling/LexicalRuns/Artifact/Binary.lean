import LexicalRuns.Run

/-! Binary artifacts: eight bytes of magic, the number of runs, a word in reserve, and one packed
word for each run. Words have four bytes, the lowest first. -/
namespace LexicalRuns.Artifact.Binary

/-- The letters `CPRUN001`. -/
def magic : List UInt8 := [0x43, 0x50, 0x52, 0x55, 0x4E, 0x30, 0x30, 0x31]

def wordBytes (word : UInt32) : List UInt8 :=
  let n := word.toNat
  [.ofNat n, .ofNat (n >>> 8), .ofNat (n >>> 16), .ofNat (n >>> 24)]

def readWord? : List UInt8 → Option (UInt32 × List UInt8)
  | a :: b :: c :: d :: rest =>
    some (.ofNat (a.toNat + (b.toNat <<< 8) + (c.toNat <<< 16) + (d.toNat <<< 24)), rest)
  | _ => none

/-- The number of runs has to fit its word. -/
def write (runs : List Run) : Except Fault (List UInt8) :=
  if runs.length < UInt32.size then
    .ok (magic ++ wordBytes (.ofNat runs.length) ++ wordBytes 0 ++
      runs.flatMap fun r => wordBytes r.pack)
  else .error (.artifact (.tooManyRuns runs.length))

/-- Reads `count` runs after those read before, and then the end. -/
def readRuns (before : Array Run) : (count : Nat) → List UInt8 → Except Fault (List Run)
  | 0, [] => .ok before.toList
  | 0, b :: rest => .error (.artifact (.trailingBytes (b :: rest).length))
  | count + 1, bytes =>
    match readWord? bytes with
    | none => .error (.artifact .truncatedWord)
    | some (word, rest) =>
      match Run.unpack word with
      | .error fault => .error fault
      | .ok run => readRuns (before.push run) count rest

/-- The word in reserve may have any value. -/
def read (bytes : List UInt8) : Except Fault (List Run) :=
  if bytes.length < 16 then .error (.artifact .tooShort)
  else if bytes.take 8 ≠ magic then .error (.artifact .badMagic)
  else
    match readWord? (bytes.drop 8) with
    | none => .error (.artifact .truncatedWord)
    | some (count, rest) => readRuns #[] count.toNat (rest.drop 4)

end LexicalRuns.Artifact.Binary
