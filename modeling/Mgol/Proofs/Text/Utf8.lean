import Mgol.Proofs.Scanner.Spelling
import Mgol.Text.LossyUtf8

/-! # Texts as bytes

How a text stands in a source: each character is one ASCII byte, or a byte that leads as many
continuation bytes as it says. So lossy decoding gives a text back, and a text can be cut behind any
ASCII byte.

* **`Text.encode_ofList`** — the bytes of a text, character by character.
* **`Text.decodeLossy_encode`** — decoding gives back the text that was encoded.
* **`Text.Character`, `Text.character_utf8EncodeChar`** — the bytes of a character.
* **`Text.IsText`, `Text.IsText.of_ascii`** — bytes that are a text, cut into two. -/

namespace Mgol.Text

/-! ## Encoding -/

/-- The bytes of an array from a place on, behind those found before. -/
theorem toList_loop (bytes : ByteArray) (i : Nat) (found : List UInt8) :
    ByteArray.toList.loop bytes i found = found.reverse ++ bytes.data.toList.drop i := by
  fun_induction ByteArray.toList.loop bytes i found with
  | case1 i found hlt ih =>
    have hi : i < bytes.data.toList.length := hlt
    rw [ih, List.drop_eq_getElem_cons hi, List.reverse_cons, List.append_assoc,
      List.singleton_append]
    congr 2
    simp [ByteArray.get!, hlt]
  | case2 i found hge =>
    have hi : bytes.data.toList.length ≤ i := Nat.not_lt.mp hge
    rw [List.drop_eq_nil_of_le hi, List.append_nil]

/-- The bytes of an array, as a list. -/
theorem toList_eq_data (bytes : ByteArray) : bytes.toList = bytes.data.toList := by
  rw [ByteArray.toList, toList_loop, List.reverse_nil, List.nil_append, List.drop_zero]

/-- **The bytes of a text** are those of its characters. -/
theorem encode_ofList (cs : List Char) :
    encode (String.ofList cs) = cs.flatMap String.utf8EncodeChar := by
  have hbytes : (String.ofList cs).toUTF8 = (cs.flatMap String.utf8EncodeChar).toByteArray :=
    String.toByteArray_ofList
  rw [encode, hbytes, toList_eq_data, List.toList_data_toByteArray]

/-- The bytes of one text after the other. -/
theorem encode_append (s t : String) : encode (s ++ t) = encode s ++ encode t := by
  rw [← String.ofList_toList (s := s), ← String.ofList_toList (s := t), ← String.ofList_append,
    encode_ofList, encode_ofList, encode_ofList, List.flatMap_append]

/-- A text has as many bytes as it takes up. -/
theorem length_encode (s : String) : (encode s).length = s.utf8ByteSize := by
  rw [encode, toList_eq_data]
  rfl

/-! ## Decoding what was encoded -/

/-- What a byte leads that stands at the beginning of a character of two bytes. -/
theorem opening_two {b : Nat} (h : 0xC2 ≤ b ∧ b < 0xE0) :
    opening b = .longer ⟨1, 0x80, 0xBF, b - 0xC0⟩ := by
  rw [opening, if_neg (by omega), if_neg (by omega), if_pos (by omega)]

/-- What a byte leads that stands at the beginning of a character of three bytes. -/
theorem opening_three {b : Nat} (h : 0xE0 ≤ b ∧ b < 0xF0) :
    opening b = .longer ⟨2, if b = 0xE0 then 0xA0 else 0x80, if b = 0xED then 0x9F else 0xBF,
      b - 0xE0⟩ := by
  rw [opening, if_neg (by omega), if_neg (by omega), if_neg (by omega)]
  by_cases hfirst : b = 0xE0
  · subst hfirst
    rfl
  · rw [if_neg hfirst, if_neg hfirst]
    by_cases hsurrogate : b = 0xED
    · subst hsurrogate
      rfl
    · rw [if_neg hsurrogate, if_neg hsurrogate, if_pos h.2]

/-- What a byte leads that stands at the beginning of a character of four bytes. -/
theorem opening_four {b : Nat} (h : 0xF0 ≤ b ∧ b ≤ 0xF4) :
    opening b = .longer ⟨3, if b = 0xF0 then 0x90 else 0x80, if b = 0xF4 then 0x8F else 0xBF,
      b - 0xF0⟩ := by
  rw [opening, if_neg (by omega), if_neg (by omega), if_neg (by omega), if_neg (by omega),
    if_neg (by omega), if_neg (by omega)]
  by_cases hfirst : b = 0xF0
  · subst hfirst
    rfl
  · rw [if_neg hfirst, if_neg hfirst]
    by_cases hlast : b = 0xF4
    · subst hlast
      rfl
    · rw [if_pos (by omega : b < 0xF4), if_neg hlast]

/-- A character in progress takes a byte of its range. -/
theorem step_pending (found : List Char) {u : Unfinished} {b : UInt8}
    (hin : u.low ≤ b.toNat ∧ b.toNat ≤ u.high) (hmore : 1 < u.missing) :
    Decoder.step ⟨found, some u⟩ b =
      ⟨found, some ⟨u.missing - 1, 0x80, 0xBF, u.bits * 64 + (b.toNat - 0x80)⟩⟩ := by
  simp only [Decoder.step]
  rw [if_pos hin, if_neg (by omega)]

/-- A character in progress ends with its last byte. -/
theorem step_last (found : List Char) {u : Unfinished} {b : UInt8}
    (hin : u.low ≤ b.toNat ∧ b.toNat ≤ u.high) (hlast : u.missing = 1) :
    Decoder.step ⟨found, some u⟩ b =
      ⟨Char.ofNat (u.bits * 64 + (b.toNat - 0x80)) :: found, none⟩ := by
  simp only [Decoder.step]
  rw [if_pos hin, if_pos (by omega)]

/-- A byte that leads others begins a character. -/
theorem step_lead (found : List Char) {b : UInt8} {u : Unfinished}
    (h : opening b.toNat = .longer u) : Decoder.step ⟨found, none⟩ b = ⟨found, some u⟩ := by
  simp only [Decoder.step, Decoder.start, h]

/-- **The decoder takes the bytes of a character** for that character. -/
theorem foldl_step_utf8EncodeChar (found : List Char) (c : Char) :
    (String.utf8EncodeChar c).foldl Decoder.step ⟨found, none⟩ = ⟨c :: found, none⟩ := by
  have hvalid : c.val.toNat < 0xD800 ∨ 0xDFFF < c.val.toNat ∧ c.val.toNat < 0x110000 := c.valid
  have hof : Char.ofNat c.val.toNat = c := Char.ofNat_toNat c
  have hbyte : ∀ n < 256, (UInt8.ofNat n).toNat = n := fun n hn => by
    simpa using Nat.mod_eq_of_lt hn
  unfold String.utf8EncodeChar
  generalize c.val.toNat = v at hvalid hof
  simp only
  -- by the number of bytes; the ranges of the second byte leave out what has a shorter form
  split_ifs with h₁ h₂ h₃
  · have hv := hbyte v (by omega)
    simp only [List.foldl_cons, List.foldl_nil, Decoder.step, Decoder.start, opening, hv]
    rw [if_pos (by omega), hof]
  · have hlead := hbyte (v / 64 % 32 + 192) (by omega)
    have hlast := hbyte (v % 64 + 128) (by omega)
    rw [List.foldl_cons, List.foldl_cons, List.foldl_nil,
      step_lead found (opening_two (by omega)), step_last found (by simp only [hlast]; omega) rfl]
    simp only [hlead, hlast]
    rw [show (v / 64 % 32 + 192 - 192) * 64 + (v % 64 + 128 - 128) = v by omega, hof]
  · have hlead := hbyte (v / 4096 % 16 + 224) (by omega)
    have hsecond := hbyte (v / 64 % 64 + 128) (by omega)
    have hlast := hbyte (v % 64 + 128) (by omega)
    rw [List.foldl_cons, List.foldl_cons, List.foldl_cons, List.foldl_nil,
      step_lead found (opening_three (by omega)),
      step_pending found (by simp only [hlead, hsecond]; split_ifs <;> omega) (by simp),
      step_last found (by simp only [hlast]; omega) rfl]
    simp only [hlead, hsecond, hlast]
    rw [show ((v / 4096 % 16 + 224 - 224) * 64 + (v / 64 % 64 + 128 - 128)) * 64
      + (v % 64 + 128 - 128) = v by omega, hof]
  · have hlead := hbyte (v / 262144 % 8 + 240) (by omega)
    have hsecond := hbyte (v / 4096 % 64 + 128) (by omega)
    have hthird := hbyte (v / 64 % 64 + 128) (by omega)
    have hlast := hbyte (v % 64 + 128) (by omega)
    rw [List.foldl_cons, List.foldl_cons, List.foldl_cons, List.foldl_cons, List.foldl_nil,
      step_lead found (opening_four (by omega)),
      step_pending found (by simp only [hlead, hsecond]; split_ifs <;> omega) (by simp),
      step_pending found (by simp only [hthird]; omega) (by simp),
      step_last found (by simp only [hlast]; omega) rfl]
    simp only [hlead, hsecond, hthird, hlast]
    rw [show (((v / 262144 % 8 + 240 - 240) * 64 + (v / 4096 % 64 + 128 - 128)) * 64
      + (v / 64 % 64 + 128 - 128)) * 64 + (v % 64 + 128 - 128) = v by omega, hof]

/-- **Decoding gives back what was encoded.** -/
@[simp] theorem decodeLossy_encode (s : String) : decodeLossy (encode s) = s := by
  have hfold : ∀ (cs found : List Char),
      (cs.flatMap String.utf8EncodeChar).foldl Decoder.step ⟨found, none⟩ =
        ⟨cs.reverse ++ found, none⟩ := by
    intro cs
    induction cs with
    | nil => exact fun _ => rfl
    | cons c cs ih =>
      intro found
      rw [List.flatMap_cons, List.foldl_append, foldl_step_utf8EncodeChar, ih]
      simp
  conv_rhs => rw [← String.ofList_toList (s := s)]
  rw [← String.ofList_toList (s := s), encode_ofList, decodeLossy, lossyChars, hfold]
  simp [Decoder.finish]

/-- Texts with the same bytes are the same. -/
theorem encode_injective {s t : String} (h : encode s = encode t) : s = t := by
  rw [← decodeLossy_encode s, h, decodeLossy_encode]

/-! ## The bytes of a character -/

/-- **The bytes of a character**: an ASCII byte, or a byte that leads as many as it says. -/
inductive Character : List UInt8 → Prop
  | ascii {b : UInt8} (low : b.toNat < 0x80) : Character [b]
  | longer {lead : UInt8} {rest : List UInt8} (high : 0x80 ≤ lead.toNat)
      (counted : continuationCount lead = rest.length)
      (continues : ∀ b ∈ rest, isContinuation b = true) : Character (lead :: rest)

/-- The bytes that continue a character, by their numbers. -/
theorem isContinuation_iff {b : UInt8} :
    isContinuation b = true ↔ 0x80 ≤ b.toNat ∧ b.toNat ≤ 0xBF := by
  simp only [isContinuation, Bool.and_eq_true, decide_eq_true_eq, UInt8.le_iff_toNat_le]
  rfl

/-- How many bytes a byte leads, by its number. -/
theorem continuationCount_eq (b : UInt8) :
    continuationCount b =
      if 0xC0 ≤ b.toNat ∧ b.toNat ≤ 0xDF then 1
      else if 0xE0 ≤ b.toNat ∧ b.toNat ≤ 0xEF then 2
      else if 0xF0 ≤ b.toNat ∧ b.toNat ≤ 0xF7 then 3
      else 0 := by
  simp only [continuationCount, Bool.and_eq_true, decide_eq_true_eq, UInt8.le_iff_toNat_le]
  rfl

/-- The encoding of a character has the bytes of a character. -/
theorem character_utf8EncodeChar (c : Char) : Character (String.utf8EncodeChar c) := by
  have hvalid : c.val.toNat < 0xD800 ∨ 0xDFFF < c.val.toNat ∧ c.val.toNat < 0x110000 := c.valid
  have hbyte : ∀ n < 256, (UInt8.ofNat n).toNat = n := fun n hn => by
    simpa using Nat.mod_eq_of_lt hn
  have hcontinues : ∀ ns : List Nat, ∀ b ∈ ns.map fun n => UInt8.ofNat (n % 64 + 128),
      isContinuation b = true := by
    intro ns b hb
    obtain ⟨n, _, rfl⟩ := List.mem_map.mp hb
    rw [isContinuation_iff, hbyte _ (by omega)]
    omega
  unfold String.utf8EncodeChar
  generalize c.val.toNat = v at hvalid
  simp only
  split_ifs with h₁ h₂ h₃
  · exact .ascii (by rw [hbyte v (by omega)]; omega)
  · have hlead := hbyte (v / 64 % 32 + 192) (by omega)
    refine .longer (by omega) ?_ (hcontinues [v])
    rw [continuationCount_eq, hlead, if_pos (by omega)]
    rfl
  · have hlead := hbyte (v / 4096 % 16 + 224) (by omega)
    refine .longer (by omega) ?_ (hcontinues [v / 64, v])
    rw [continuationCount_eq, hlead, if_neg (by omega), if_pos (by omega)]
    rfl
  · have hlead := hbyte (v / 262144 % 8 + 240) (by omega)
    refine .longer (by omega) ?_ (hcontinues [v / 4096, v / 64, v])
    rw [continuationCount_eq, hlead, if_neg (by omega), if_neg (by omega), if_pos (by omega)]
    rfl

/-- An ASCII byte in a character is all of it. -/
theorem Character.eq_of_mem {bytes : List UInt8} (h : Character bytes) {b : UInt8}
    (hb : b.toNat < 0x80) (hmem : b ∈ bytes) : bytes = [b] := by
  cases h with
  | ascii => rw [List.mem_singleton.mp hmem]
  | longer high _ continues =>
    rcases List.mem_cons.mp hmem with rfl | hrest
    · omega
    · have := isContinuation_iff.mp (continues b hrest)
      omega

/-! ## Texts in bytes -/

/-- **Bytes that are a text.** -/
def IsText (bytes : List UInt8) : Prop := ∃ s : String, bytes = encode s

/-- Bytes are a text if they are those of characters. -/
theorem isText_iff {bytes : List UInt8} :
    IsText bytes ↔ ∃ cs : List Char, bytes = cs.flatMap String.utf8EncodeChar := by
  constructor
  · rintro ⟨s, rfl⟩
    exact ⟨s.toList, by rw [← encode_ofList, String.ofList_toList]⟩
  · rintro ⟨cs, rfl⟩
    exact ⟨String.ofList cs, (encode_ofList cs).symm⟩

namespace IsText

/-- No bytes are a text. -/
theorem nil : IsText [] := isText_iff.mpr ⟨[], rfl⟩

/-- A text after a text is a text. -/
theorem append {u v : List UInt8} (hu : IsText u) (hv : IsText v) : IsText (u ++ v) := by
  obtain ⟨s, rfl⟩ := hu
  obtain ⟨t, rfl⟩ := hv
  exact ⟨s ++ t, (encode_append s t).symm⟩

/-- **A text can be cut behind an ASCII byte.** -/
theorem of_ascii {u v : List UInt8} {b : UInt8} (h : IsText (u ++ b :: v)) (hb : b.toNat < 0x80) :
    IsText (u ++ [b]) ∧ IsText v := by
  obtain ⟨cs, hcs⟩ := isText_iff.mp h
  clear h
  induction cs generalizing u with
  | nil => simp at hcs
  | cons c cs ih =>
    have hfirst : IsText (String.utf8EncodeChar c) := isText_iff.mpr ⟨[c], by simp⟩
    rw [List.flatMap_cons] at hcs
    rcases List.append_eq_append_iff.mp hcs with ⟨w, hw, hrest⟩ | ⟨w, rfl, hrest⟩
    · cases w with
      | nil =>
        -- the byte begins what is behind the first character
        obtain ⟨hbyte, hv⟩ := ih (u := []) hrest
        rw [List.append_nil] at hw
        exact ⟨hw ▸ hfirst.append hbyte, hv⟩
      | cons b' w =>
        -- the byte stands in the first character, so it is this character
        obtain ⟨rfl, rfl⟩ := List.cons.inj hrest
        have hone := (character_utf8EncodeChar c).eq_of_mem hb (by rw [hw]; simp)
        rw [hw] at hone
        obtain ⟨rfl, hw'⟩ : u = [] ∧ w = [] := by
          have := congrArg List.length hone
          simp only [List.length_append, List.length_cons, List.length_nil] at this
          exact ⟨List.length_eq_zero_iff.mp (by omega), List.length_eq_zero_iff.mp (by omega)⟩
        subst hw'
        exact ⟨hw ▸ hfirst, isText_iff.mpr ⟨cs, rfl⟩⟩
    · obtain ⟨hbyte, hv⟩ := ih hrest.symm
      exact ⟨by rw [List.append_assoc]; exact hfirst.append hbyte, hv⟩

/-- **A text begins with a character**: a first byte and those that it leads. -/
theorem exists_character {b : UInt8} {rest : List UInt8} (h : IsText (b :: rest)) :
    ∃ more after, rest = more ++ after ∧ continuationCount b = more.length ∧
      (∀ c ∈ more, isContinuation c = true) ∧ IsText (b :: more) ∧ IsText after := by
  obtain ⟨cs, hcs⟩ := isText_iff.mp h
  cases cs with
  | nil => cases hcs
  | cons c cs =>
    rw [List.flatMap_cons] at hcs
    have hfirst : IsText (String.utf8EncodeChar c) := isText_iff.mpr ⟨[c], by simp⟩
    have hrest : IsText (cs.flatMap String.utf8EncodeChar) := isText_iff.mpr ⟨cs, rfl⟩
    have hc := character_utf8EncodeChar c
    generalize String.utf8EncodeChar c = bytes at hcs hfirst hc
    cases hc with
    | @ascii b' low =>
      obtain ⟨rfl, rfl⟩ := List.cons.inj hcs
      refine ⟨[], _, rfl, ?_, by simp, hfirst, hrest⟩
      rw [continuationCount_eq, if_neg (by omega), if_neg (by omega), if_neg (by omega)]
      rfl
    | longer high counted continues =>
      obtain ⟨rfl, rfl⟩ := List.cons.inj hcs
      exact ⟨_, _, rfl, counted, continues, hfirst, hrest⟩

end IsText

/-- An ASCII character is encoded as its number. -/
theorem utf8EncodeChar_of_ascii {c : Char} (hc : c.toNat < 0x80) :
    String.utf8EncodeChar c = [c.toUInt8] := by
  have hle : c.val.toNat ≤ 127 := Nat.le_of_lt_succ hc
  unfold String.utf8EncodeChar
  simp only
  rw [if_pos hle]
  rfl

/-- A character has a byte, and exactly one if it is in ASCII. -/
theorem length_utf8EncodeChar (c : Char) :
    1 ≤ (String.utf8EncodeChar c).length ∧
      ((String.utf8EncodeChar c).length = 1 ↔ c.toNat < 0x80) := by
  rw [String.length_utf8EncodeChar]
  refine ⟨c.utf8Size_pos, ?_⟩
  rw [Char.utf8Size_eq_one_iff, UInt32.le_iff_toNat_le]
  exact Nat.lt_succ_iff.symm

/-- Characters are told apart by their bytes. -/
theorem utf8EncodeChar_injective {c d : Char}
    (h : String.utf8EncodeChar c = String.utf8EncodeChar d) : c = d := by
  have hfold := foldl_step_utf8EncodeChar [] c
  rw [h, foldl_step_utf8EncodeChar [] d] at hfold
  simpa using hfold.symm

/-- An ASCII byte stands in a text where its character does. -/
theorem mem_encode_iff {s : String} {c : Char} (hc : c.toNat < 0x80) :
    c.toUInt8 ∈ encode s ↔ c ∈ s.toList := by
  have hencode := utf8EncodeChar_of_ascii hc
  have hbyte : c.toUInt8.toNat < 0x80 := by
    have : c.toUInt8.toNat = c.toNat % 256 := rfl
    omega
  rw [← String.ofList_toList (s := s), encode_ofList, String.toList_ofList, List.mem_flatMap]
  constructor
  · rintro ⟨d, hd, hmem⟩
    have hone := (character_utf8EncodeChar d).eq_of_mem hbyte hmem
    rwa [utf8EncodeChar_injective (hencode.trans hone.symm)]
  · intro hmem
    exact ⟨c, hmem, by rw [hencode]; exact List.mem_singleton_self _⟩

end Mgol.Text
