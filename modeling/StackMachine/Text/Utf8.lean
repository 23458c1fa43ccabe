/-!
# Text as bytes

`utf8` writes a text in UTF-8 and `ofUtf8?` reads it back: **`ofUtf8?` succeeds on the bytes of a
text and on nothing else** (`ofUtf8?_eq_some_iff`).
-/

namespace StackMachine

/-- A sequence of bytes. -/
abbrev Bytes := List UInt8

/-- The bytes of a text in UTF-8. -/
def utf8 (text : String) : Bytes :=
  text.toUTF8.data.toList

/-- The text whose UTF-8 form the bytes are, if they are well formed. -/
def ofUtf8? (bytes : Bytes) : Option String :=
  String.fromUTF8? ⟨bytes.toArray⟩

theorem ofUtf8?_utf8 (text : String) : ofUtf8? (utf8 text) = some text := by
  have h : (⟨(utf8 text).toArray⟩ : ByteArray) = text.toByteArray := by simp [utf8]
  unfold ofUtf8? String.fromUTF8?
  rw [h, dif_pos text.isValidUTF8]
  rfl

theorem utf8_of_ofUtf8? {bytes : Bytes} {text : String} (h : ofUtf8? bytes = some text) :
    utf8 text = bytes := by
  unfold ofUtf8? String.fromUTF8? at h
  split at h
  · cases h
    rfl
  · contradiction

/-- **Bytes read as a text exactly when they are its UTF-8 form.** -/
theorem ofUtf8?_eq_some_iff {bytes : Bytes} {text : String} :
    ofUtf8? bytes = some text ↔ utf8 text = bytes :=
  ⟨utf8_of_ofUtf8?, fun h => h ▸ ofUtf8?_utf8 text⟩

theorem utf8_injective {s t : String} (h : utf8 s = utf8 t) : s = t :=
  Option.some.inj <| by rw [← ofUtf8?_utf8 s, h, ofUtf8?_utf8]

@[simp] theorem length_utf8 (text : String) : (utf8 text).length = text.utf8ByteSize := rfl

end StackMachine
