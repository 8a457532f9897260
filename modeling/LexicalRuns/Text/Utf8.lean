/-! Text as bytes. Reading succeeds on exactly the byte strings that writing produces. -/
namespace LexicalRuns.Text

def encode (text : String) : List UInt8 := text.toUTF8.data.toList

/-- The text with these bytes, if they are well-formed UTF-8. -/
def decode? (bytes : List UInt8) : Option String := String.fromUTF8? ⟨bytes.toArray⟩

theorem decode?_encode (text : String) : decode? (encode text) = some text := by
  have valid : (⟨(encode text).toArray⟩ : ByteArray).IsValidUTF8 := text.isValidUTF8
  simp only [decode?, String.fromUTF8?, dif_pos valid]
  rfl

theorem decode?_eq_some_iff {bytes : List UInt8} {text : String} :
    decode? bytes = some text ↔ bytes = encode text := by
  constructor
  · intro h
    simp only [decode?, String.fromUTF8?] at h
    split at h
    · cases h; rfl
    · cases h
  · rintro rfl
    exact decode?_encode text

end LexicalRuns.Text
