import Mathlib.Data.List.Basic

/-!
# Texts as bytes

The UTF-8 bytes of a text, on lists. Decoding is that of `ByteArray`, which accepts nothing but what
encoding gives (`encode_of_decode`), so a text and its bytes determine each other.

A file or a path is compared byte by byte, and what is written in it character by character. The two
agree because the encoding is injective; that a text contains a character can be said of the text
and need not be said of its bytes.
-/

namespace Utf8

/-- The bytes of a text. -/
def encode (cs : List Char) : List UInt8 := cs.flatMap String.utf8EncodeChar

/-- The text that has these bytes, if there is one. -/
def decode (bytes : List UInt8) : Option (List Char) :=
  bytes.toByteArray.utf8Decode?.map Array.toList

variable {cs ds : List Char} {bytes : List UInt8}

@[simp] theorem encode_nil : encode [] = [] := rfl

@[simp] theorem encode_append : encode (cs ++ ds) = encode cs ++ encode ds := List.flatMap_append

theorem decode_encode (cs : List Char) : decode (encode cs) = some cs := by
  have hdecode : (encode cs).toByteArray.utf8Decode? = some cs.toArray :=
    List.utf8Decode?_utf8Encode
  rw [decode, hdecode, Option.map_some, List.toList_toArray]

theorem encode_of_decode (h : decode bytes = some cs) : encode cs = bytes := by
  obtain ⟨chars, hchars, rfl⟩ := Option.map_eq_some_iff.mp h
  have hsome : bytes.toByteArray.utf8Decode?.isSome = true := by rw [hchars, Option.isSome_some]
  have hget := ByteArray.utf8Encode_get_utf8Decode? (b := bytes.toByteArray) (h := hsome)
  rw [Option.get_of_eq_some hsome hchars] at hget
  exact List.toByteArray_inj.mp hget

theorem encode_injective : Function.Injective encode := by
  intro cs ds h
  have hds := decode_encode ds
  rw [← h, decode_encode] at hds
  exact Option.some_inj.mp hds

end Utf8
