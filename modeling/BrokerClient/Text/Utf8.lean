/-!
# Texts as octets

A text travels as its UTF-8 octets. Reading takes exactly the octets that writing gives.
-/
namespace BrokerClient.Text

abbrev Octets := List UInt8

def utf8 (s : String) : Octets :=
  s.toByteArray.data.toList

def ofUtf8? (bs : Octets) : Option String :=
  String.fromUTF8? ⟨bs.toArray⟩

theorem ofUtf8?_utf8 (s : String) : ofUtf8? (utf8 s) = some s := by
  have h : (⟨(utf8 s).toArray⟩ : ByteArray) = s.toByteArray := by simp [utf8]
  simp only [ofUtf8?, h, String.fromUTF8?]
  split
  · rfl
  · next hn => exact absurd (by simpa using s.isValidUTF8) hn

theorem utf8_of_ofUtf8? {bs : Octets} {s : String} (h : ofUtf8? bs = some s) : utf8 s = bs := by
  simp only [ofUtf8?, String.fromUTF8?] at h
  split at h
  · cases h; simp [utf8, String.fromUTF8]
  · cases h

end BrokerClient.Text
