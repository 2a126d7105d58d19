import Mathlib.Data.List.Forall2
import Mgol.Proofs.Text.Utf8

/-! # Bytes that are decoded and encoded again

Lossy decoding makes a text of any bytes, and that text has bytes of its own. They are never fewer.
They are as many exactly if everything that is no character has three bytes: then it is a character
of four bytes that lacks its last one, and the replacement for it has three bytes too.

* **`Text.lossyChars_append_encoded`, `Text.lossyFrom_torn`** — the decoder, character by character.
* **`Text.exists_beginning`** — what bytes begin with.
* **`Text.Torn`, `Text.Mended`** — bytes beside those of their text, if these are as many.
* **`Text.recoded`, `Text.mended_iff`** — when they are as many.
* **`Text.Mended.decodeLossy_take`** — the beginnings of both are read as the same text. -/

namespace Mgol.Text

/-! ## The decoder, character by character -/

/-- The bytes of a character are read as that character. -/
theorem lossyChars_append_encoded (c : Char) (bytes : List UInt8) :
    lossyChars (String.utf8EncodeChar c ++ bytes) = c :: lossyChars bytes := by
  unfold lossyChars
  rw [List.foldl_append, foldl_step_utf8EncodeChar, finish_foldl_step]
  rfl

/-- **What is read with a character in progress.** -/
def lossyFrom (u : Unfinished) (bytes : List UInt8) : List Char :=
  (bytes.foldl Decoder.step ⟨[], some u⟩).finish

/-- A character in progress can go on with a byte. -/
def Unfinished.Takes (u : Unfinished) (b : UInt8) : Prop := u.low ≤ b.toNat ∧ b.toNat ≤ u.high

/-- The character in progress after a byte that is not its last one. -/
def Unfinished.next (u : Unfinished) (b : UInt8) : Unfinished :=
  ⟨u.missing - 1, 0x80, 0xBF, u.bits * 64 + (b.toNat - 0x80)⟩

variable {b : UInt8} {u : Unfinished} {bytes : List UInt8}

/-- A byte that leads others begins a character. -/
theorem lossyChars_lead (h : opening b.toNat = .longer u) (bytes : List UInt8) :
    lossyChars (b :: bytes) = lossyFrom u bytes := by
  unfold lossyChars lossyFrom
  rw [List.foldl_cons, step_lead [] h]

/-- A byte that begins nothing is replaced. -/
theorem lossyChars_stray (h : opening b.toNat = .stray) (bytes : List UInt8) :
    lossyChars (b :: bytes) = replacement :: lossyChars bytes := by
  have hstep : Decoder.step {} b = ⟨[replacement], none⟩ := by
    simp only [Decoder.step, Decoder.start, h]
  unfold lossyChars
  rw [List.foldl_cons, hstep, finish_foldl_step]
  rfl

/-- A character in progress goes on with a byte that it takes. -/
theorem lossyFrom_takes (h : u.Takes b) (hmore : 1 < u.missing) (bytes : List UInt8) :
    lossyFrom u (b :: bytes) = lossyFrom (u.next b) bytes := by
  unfold lossyFrom
  rw [List.foldl_cons, step_pending [] h hmore]
  rfl

/-- **A character in progress is replaced** if it does not go on; what follows is read afresh. -/
theorem lossyFrom_torn (h : ∀ b ∈ bytes.head?, ¬u.Takes b) :
    lossyFrom u bytes = replacement :: lossyChars bytes := by
  cases bytes with
  | nil => rfl
  | cons b bytes =>
    have hstep : Decoder.step ⟨[], some u⟩ b = Decoder.step ⟨[replacement], none⟩ b := by
      simp only [Decoder.step]
      exact if_neg (h b rfl)
    unfold lossyFrom lossyChars
    rw [List.foldl_cons, hstep, ← List.foldl_cons, finish_foldl_step]
    rfl

/-- Either some bytes do not go on with a character in progress, or their first one does. -/
theorem Unfinished.takes_or_not (u : Unfinished) (bytes : List UInt8) :
    (∀ b ∈ bytes.head?, ¬u.Takes b) ∨ ∃ b rest, bytes = b :: rest ∧ u.Takes b := by
  cases bytes with
  | nil => exact .inl nofun
  | cons b rest =>
    by_cases hb : u.Takes b
    · exact .inr ⟨b, rest, rfl, hb⟩
    · refine .inl fun c hc => ?_
      obtain rfl := Option.some.inj (Option.mem_def.mp hc)
      exact hb

/-! ## The bytes of a decoded character -/

/-- The number of a character that is made of a number. -/
theorem val_ofNat {n : Nat} (h : n.isValidChar) : (Char.ofNat n).val.toNat = n := by
  rw [Char.ofNat, dif_pos h]
  rfl

/-- A byte is that of its number. -/
theorem ofNat_eq {n : Nat} {b : UInt8} (h : n = b.toNat) : UInt8.ofNat n = b := by
  rw [h, UInt8.ofNat_toNat]

/-- A byte that is read as a character is the byte of that character. -/
theorem utf8EncodeChar_one {b : UInt8} (h : b.toNat < 0x80) :
    String.utf8EncodeChar (Char.ofNat b.toNat) = [b] := by
  have hval := val_ofNat (n := b.toNat) (.inl (by omega))
  unfold String.utf8EncodeChar
  simp only [hval]
  rw [if_pos (by omega), ofNat_eq rfl]

/-- Two bytes that are read as a character are the bytes of that character. -/
theorem utf8EncodeChar_two {lead second : UInt8} (hlead : 0xC2 ≤ lead.toNat ∧ lead.toNat < 0xE0)
    (hsecond : 0x80 ≤ second.toNat ∧ second.toNat ≤ 0xBF) :
    String.utf8EncodeChar (Char.ofNat ((lead.toNat - 0xC0) * 64 + (second.toNat - 0x80))) =
      [lead, second] := by
  have hval := val_ofNat (n := (lead.toNat - 0xC0) * 64 + (second.toNat - 0x80))
    (.inl (by omega))
  unfold String.utf8EncodeChar
  simp only [hval]
  rw [if_neg (by omega), if_pos (by omega), ofNat_eq (b := lead) (by omega),
    ofNat_eq (b := second) (by omega)]

/-- Three bytes that are read as a character are the bytes of that character. -/
theorem utf8EncodeChar_three {lead second third : UInt8}
    (hlead : 0xE0 ≤ lead.toNat ∧ lead.toNat < 0xF0)
    (hsecond : (if lead.toNat = 0xE0 then 0xA0 else 0x80) ≤ second.toNat ∧
      second.toNat ≤ if lead.toNat = 0xED then 0x9F else 0xBF)
    (hthird : 0x80 ≤ third.toNat ∧ third.toNat ≤ 0xBF) :
    String.utf8EncodeChar (Char.ofNat (((lead.toNat - 0xE0) * 64 + (second.toNat - 0x80)) * 64 +
      (third.toNat - 0x80))) = [lead, second, third] := by
  split_ifs at hsecond
  all_goals
    have hval := val_ofNat (n := ((lead.toNat - 0xE0) * 64 + (second.toNat - 0x80)) * 64 +
      (third.toNat - 0x80)) (by unfold Nat.isValidChar; omega)
    unfold String.utf8EncodeChar
    simp only [hval]
    rw [if_neg (by omega), if_neg (by omega), if_pos (by omega), ofNat_eq (b := lead) (by omega),
      ofNat_eq (b := second) (by omega), ofNat_eq (b := third) (by omega)]

/-- Four bytes that are read as a character are the bytes of that character. -/
theorem utf8EncodeChar_four {lead second third fourth : UInt8}
    (hlead : 0xF0 ≤ lead.toNat ∧ lead.toNat ≤ 0xF4)
    (hsecond : (if lead.toNat = 0xF0 then 0x90 else 0x80) ≤ second.toNat ∧
      second.toNat ≤ if lead.toNat = 0xF4 then 0x8F else 0xBF)
    (hthird : 0x80 ≤ third.toNat ∧ third.toNat ≤ 0xBF)
    (hfourth : 0x80 ≤ fourth.toNat ∧ fourth.toNat ≤ 0xBF) :
    String.utf8EncodeChar (Char.ofNat ((((lead.toNat - 0xF0) * 64 + (second.toNat - 0x80)) * 64 +
      (third.toNat - 0x80)) * 64 + (fourth.toNat - 0x80))) = [lead, second, third, fourth] := by
  split_ifs at hsecond
  all_goals
    have hval := val_ofNat (n := (((lead.toNat - 0xF0) * 64 + (second.toNat - 0x80)) * 64 +
      (third.toNat - 0x80)) * 64 + (fourth.toNat - 0x80)) (by unfold Nat.isValidChar; omega)
    unfold String.utf8EncodeChar
    simp only [hval]
    rw [if_neg (by omega), if_neg (by omega), if_neg (by omega), ofNat_eq (b := lead) (by omega),
      ofNat_eq (b := second) (by omega), ofNat_eq (b := third) (by omega),
      ofNat_eq (b := fourth) (by omega)]

/-! ## What bytes begin with -/

/-- What a byte leads that begins a character of three bytes. -/
def ofThree (lead : UInt8) : Unfinished :=
  ⟨2, if lead.toNat = 0xE0 then 0xA0 else 0x80, if lead.toNat = 0xED then 0x9F else 0xBF,
    lead.toNat - 0xE0⟩

/-- What a byte leads that begins a character of four bytes. -/
def ofFour (lead : UInt8) : Unfinished :=
  ⟨3, if lead.toNat = 0xF0 then 0x90 else 0x80, if lead.toNat = 0xF4 then 0x8F else 0xBF,
    lead.toNat - 0xF0⟩

/-- **A character of four bytes that lacks its last one**, which does not follow. -/
structure Torn (lead second third : UInt8) (after : List UInt8) : Prop where
  leads : 0xF0 ≤ lead.toNat ∧ lead.toNat ≤ 0xF4
  second : (ofFour lead).Takes second
  third : 0x80 ≤ third.toNat ∧ third.toNat ≤ 0xBF
  lacks : ∀ b ∈ after.head?, ¬(0x80 ≤ b.toNat ∧ b.toNat ≤ 0xBF)

namespace Torn

variable {lead second third : UInt8} {after : List UInt8}

/-- What is read behind its first two bytes. -/
theorem lossyChars_two (h : Torn lead second third after) (bytes : List UInt8) :
    lossyChars (lead :: second :: bytes) = lossyFrom ((ofFour lead).next second) bytes := by
  rw [lossyChars_lead (opening_four h.leads)]
  exact lossyFrom_takes h.second (by decide : 1 < 3) bytes

/-- Its bytes are read as one replacement. -/
theorem lossyChars_eq (h : Torn lead second third after) :
    lossyChars (lead :: second :: third :: after) = replacement :: lossyChars after := by
  have hthird := lossyFrom_takes (u := (ofFour lead).next second) h.third (by decide : 1 < 2) after
  rw [h.lossyChars_two, hthird]
  exact lossyFrom_torn h.lacks

/-- The first of its bytes are one replacement already. -/
theorem lossyChars_begun (h : Torn lead second third after) :
    lossyChars [lead] = [replacement] ∧ lossyChars [lead, second] = [replacement] := by
  constructor
  · rw [lossyChars_lead (opening_four h.leads)]
    rfl
  · rw [h.lossyChars_two]
    rfl

/-- None of its bytes is in ASCII. -/
theorem high (h : Torn lead second third after) : ∀ b ∈ [lead, second, third], 0x80 ≤ b.toNat := by
  have hlead := h.leads
  have hsecond := h.second
  have hthird := h.third
  intro b hb
  simp only [List.mem_cons, List.not_mem_nil, or_false] at hb
  rcases hb with rfl | rfl | rfl
  · omega
  · unfold Unfinished.Takes ofFour at hsecond
    simp only at hsecond
    split_ifs at hsecond <;> omega
  · omega

/-- It lacks its last byte in front of less, too. -/
theorem take (h : Torn lead second third after) (n : Nat) :
    Torn lead second third (after.take n) where
  leads := h.leads
  second := h.second
  third := h.third
  lacks b hb := by
    cases n with
    | zero => cases hb
    | succ n =>
      refine h.lacks b ?_
      rwa [List.head?_take, if_neg (Nat.succ_ne_zero n)] at hb

end Torn

/-- Bytes that begin with a character. -/
def Whole (bytes : List UInt8) : Prop :=
  ∃ c after, bytes = String.utf8EncodeChar c ++ after

/-- **Bytes that begin with less than three** of which the decoder makes one replacement. -/
def Spoiled (bytes : List UInt8) : Prop :=
  ∃ r after, bytes = r ++ after ∧ r ≠ [] ∧ r.length < 3 ∧
    lossyChars bytes = replacement :: lossyChars after

section Beginnings

variable {b second : UInt8} {rest : List UInt8}

theorem spoiled_one (h : lossyChars (b :: rest) = replacement :: lossyChars rest) :
    Spoiled (b :: rest) :=
  ⟨[b], rest, rfl, List.cons_ne_nil b [], by simp, h⟩

theorem spoiled_two (h : lossyChars (b :: second :: rest) = replacement :: lossyChars rest) :
    Spoiled (b :: second :: rest) :=
  ⟨[b, second], rest, rfl, List.cons_ne_nil b _, by simp, h⟩

/-- What begins with a byte that leads one more. -/
theorem beginning_two (hb : 0xC2 ≤ b.toNat ∧ b.toNat < 0xE0) (rest : List UInt8) :
    Whole (b :: rest) ∨ Spoiled (b :: rest) := by
  have hlead := lossyChars_lead (opening_two hb)
  rcases Unfinished.takes_or_not ⟨1, 0x80, 0xBF, b.toNat - 0xC0⟩ rest with
    hnot | ⟨second, after, rfl, hsecond⟩
  · exact .inr (spoiled_one ((hlead rest).trans (lossyFrom_torn hnot)))
  · exact .inl ⟨_, after, by rw [utf8EncodeChar_two hb hsecond]; rfl⟩

/-- What begins with a byte that leads two more. -/
theorem beginning_three (hb : 0xE0 ≤ b.toNat ∧ b.toNat < 0xF0) (rest : List UInt8) :
    Whole (b :: rest) ∨ Spoiled (b :: rest) := by
  have hlead := lossyChars_lead (opening_three hb)
  rcases (ofThree b).takes_or_not rest with hnot | ⟨second, rest, rfl, hsecond⟩
  · exact .inr (spoiled_one ((hlead rest).trans (lossyFrom_torn hnot)))
  have hnext := lossyFrom_takes hsecond (by decide : 1 < 2) rest
  rcases ((ofThree b).next second).takes_or_not rest with hnot | ⟨third, after, rfl, hthird⟩
  · exact .inr (spoiled_two ((hlead _).trans (hnext.trans (lossyFrom_torn hnot))))
  · exact .inl ⟨_, after, by rw [utf8EncodeChar_three hb hsecond hthird]; rfl⟩

/-- What begins with a byte that leads three more: these may lack the last one. -/
theorem beginning_four (hb : 0xF0 ≤ b.toNat ∧ b.toNat ≤ 0xF4) (rest : List UInt8) :
    Whole (b :: rest) ∨
      (∃ second third after, Torn b second third after ∧ rest = second :: third :: after) ∨
      Spoiled (b :: rest) := by
  have hlead := lossyChars_lead (opening_four hb)
  rcases (ofFour b).takes_or_not rest with hnot | ⟨second, rest, rfl, hsecond⟩
  · exact .inr (.inr (spoiled_one ((hlead rest).trans (lossyFrom_torn hnot))))
  have hnext := lossyFrom_takes hsecond (by decide : 1 < 3) rest
  rcases ((ofFour b).next second).takes_or_not rest with hnot | ⟨third, rest, rfl, hthird⟩
  · exact .inr (.inr (spoiled_two ((hlead _).trans (hnext.trans (lossyFrom_torn hnot)))))
  rcases (((ofFour b).next second).next third).takes_or_not rest with
    hnot | ⟨fourth, after, rfl, hfourth⟩
  · exact .inr (.inl ⟨second, third, rest, ⟨hb, hsecond, hthird, hnot⟩, rfl⟩)
  · exact .inl ⟨_, after, by rw [utf8EncodeChar_four hb hsecond hthird hfourth]; rfl⟩

end Beginnings

/-- **Bytes begin** with a character, with one of four bytes that lacks its last, or with less than
three bytes that are replaced. -/
theorem exists_beginning (b : UInt8) (rest : List UInt8) :
    Whole (b :: rest) ∨
      (∃ second third after, Torn b second third after ∧ rest = second :: third :: after) ∨
      Spoiled (b :: rest) := by
  -- by the number of bytes that the first one asks for
  by_cases hascii : b.toNat < 0x80
  · exact .inl ⟨_, rest, by rw [utf8EncodeChar_one hascii]; rfl⟩
  by_cases hlow : b.toNat < 0xC2
  · refine .inr (.inr (spoiled_one (lossyChars_stray ?_ rest)))
    rw [opening, if_neg hascii, if_pos hlow]
  by_cases htwo : b.toNat < 0xE0
  · exact (beginning_two ⟨Nat.not_lt.mp hlow, htwo⟩ rest).imp_right .inr
  by_cases hthree : b.toNat < 0xF0
  · exact (beginning_three ⟨Nat.not_lt.mp htwo, hthree⟩ rest).imp_right .inr
  by_cases hfour : b.toNat ≤ 0xF4
  · exact beginning_four ⟨Nat.not_lt.mp hthree, hfour⟩ rest
  · refine .inr (.inr (spoiled_one (lossyChars_stray ?_ rest)))
    rw [opening, if_neg hascii, if_neg hlow, if_neg htwo, if_neg (by omega), if_neg (by omega),
      if_neg hthree, if_neg (by omega), if_neg (by omega), if_neg (by omega)]

/-- A character that is not in ASCII has no byte of it. -/
theorem high_of_mem {c : Char} (hc : 0x80 ≤ c.toNat) {b : UInt8}
    (hb : b ∈ String.utf8EncodeChar c) : 0x80 ≤ b.toNat := by
  by_contra hlow
  have hone := (character_utf8EncodeChar c).eq_of_mem (Nat.not_le.mp hlow) hb
  have hascii : c.toNat < 0x80 := (length_utf8EncodeChar c).2.mp (by rw [hone]; rfl)
  omega

/-! ## Bytes beside those of their text -/

/-- **Bytes beside those of their text**, if these are as many: the same characters, and three bytes
of a replacement for a character that lacks its last byte. -/
inductive Mended : List UInt8 → List UInt8 → Prop
  | nil : Mended [] []
  | ascii {b : UInt8} {u v : List UInt8} (low : b.toNat < 0x80) (rest : Mended u v) :
      Mended (b :: u) (b :: v)
  | character {c : Char} {u v : List UInt8} (high : 0x80 ≤ c.toNat) (rest : Mended u v) :
      Mended (String.utf8EncodeChar c ++ u) (String.utf8EncodeChar c ++ v)
  | torn {lead second third : UInt8} {u v : List UInt8} (torn : Torn lead second third u)
      (rest : Mended u v) :
      Mended (lead :: second :: third :: u) (String.utf8EncodeChar replacement ++ v)

/-- The bytes of a character go with themselves. -/
theorem Mended.encoded (c : Char) {u v : List UInt8} (h : Mended u v) :
    Mended (String.utf8EncodeChar c ++ u) (String.utf8EncodeChar c ++ v) := by
  by_cases hc : c.toNat < 0x80
  · rw [utf8EncodeChar_of_ascii hc]
    refine .ascii ?_ h
    have : c.toUInt8.toNat = c.toNat % 256 := rfl
    omega
  · exact .character (Nat.not_lt.mp hc) h

/-- They are as many. -/
theorem Mended.length_eq {u v : List UInt8} (h : Mended u v) : v.length = u.length := by
  induction h with
  | nil => rfl
  | ascii _ _ ih => rw [List.length_cons, List.length_cons, ih]
  | character _ _ ih => rw [List.length_append, List.length_append, ih]
  | torn _ _ ih =>
    have hthree : (String.utf8EncodeChar replacement).length = 3 := by decide
    rw [List.length_append, hthree, ih, List.length_cons, List.length_cons, List.length_cons]
    omega

/-- **A text has no fewer bytes than those that it was read from**, and if it has as many, they
stand beside each other. -/
theorem recoded (bytes : List UInt8) :
    bytes.length ≤ ((lossyChars bytes).flatMap String.utf8EncodeChar).length ∧
      (((lossyChars bytes).flatMap String.utf8EncodeChar).length = bytes.length →
        Mended bytes ((lossyChars bytes).flatMap String.utf8EncodeChar)) := by
  have hthree : (String.utf8EncodeChar replacement).length = 3 := by decide
  induction hn : bytes.length using Nat.strongRecOn generalizing bytes with
  | _ n ih =>
    subst hn
    cases bytes with
    | nil => exact ⟨Nat.zero_le _, fun _ => .nil⟩
    | cons b rest =>
      rcases exists_beginning b rest with ⟨c, after, hbytes⟩ | ⟨second, third, after, htorn, rfl⟩ |
        ⟨r, after, hbytes, hne, hshort, hread⟩
      · have hpos := (length_utf8EncodeChar c).1
        rw [hbytes, List.length_append] at ih ⊢
        obtain ⟨hle, hmended⟩ := ih after.length (by omega) after rfl
        rw [lossyChars_append_encoded, List.flatMap_cons, List.length_append]
        exact ⟨by omega, fun heq => (hmended (by omega)).encoded c⟩
      · obtain ⟨hle, hmended⟩ := ih after.length (by simp only [List.length_cons]; omega) after rfl
        rw [htorn.lossyChars_eq, List.flatMap_cons, List.length_append, hthree]
        simp only [List.length_cons]
        exact ⟨by omega, fun heq => .torn htorn (hmended (by omega))⟩
      · -- less than three bytes become three
        have hpos := List.length_pos_iff.mpr hne
        rw [hread]
        rw [hbytes, List.length_append] at ih ⊢
        obtain ⟨hle, -⟩ := ih after.length (by omega) after rfl
        rw [List.flatMap_cons, List.length_append, hthree]
        exact ⟨by omega, fun heq => by omega⟩

/-- **Bytes stand beside those of their text** exactly if they are as many. -/
theorem mended_iff {bytes : List UInt8} :
    Mended bytes (encode (decodeLossy bytes)) ↔
      (encode (decodeLossy bytes)).length = bytes.length := by
  rw [decodeLossy, encode_ofList]
  exact ⟨Mended.length_eq, (recoded bytes).2⟩

namespace Mended

variable {u v : List UInt8}

/-- **The beginnings of both are read as the same text.** -/
theorem decodeLossy_take (h : Mended u v) (n : Nat) :
    decodeLossy (v.take n) = decodeLossy (u.take n) := by
  refine congrArg String.ofList ?_
  induction h generalizing n with
  | nil => rfl
  | ascii low _ ih =>
    cases n with
    | zero => rfl
    | succ n => rw [List.take_succ_cons, List.take_succ_cons, lossyChars_cons low,
        lossyChars_cons low, ih]
  | @character c u v _ _ ih =>
    rw [List.take_append, List.take_append]
    rcases Nat.lt_or_ge n (String.utf8EncodeChar c).length with hn | hn
    · rw [Nat.sub_eq_zero_of_le (Nat.le_of_lt hn), List.take_zero, List.take_zero]
    · rw [List.take_of_length_le hn, lossyChars_append_encoded, lossyChars_append_encoded, ih]
  | @torn lead second third u v torn _ ih =>
    obtain ⟨hone, htwo⟩ := torn.lossyChars_begun
    match n with
    | 0 => rfl
    | 1 => exact Eq.trans (b := [replacement]) rfl hone.symm
    | 2 => exact Eq.trans (b := [replacement]) rfl htwo.symm
    | n + 3 =>
      have hfirst : (String.utf8EncodeChar replacement ++ v).take (n + 3) =
          String.utf8EncodeChar replacement ++ v.take n := rfl
      rw [hfirst, lossyChars_append_encoded, ih, List.take_succ_cons, List.take_succ_cons,
        List.take_succ_cons, (torn.take n).lossyChars_eq]

/-- Both are read as the same text. -/
theorem decodeLossy_eq (h : Mended u v) : decodeLossy v = decodeLossy u := by
  have htake := h.decodeLossy_take u.length
  rwa [List.take_length, ← h.length_eq, List.take_length] at htake

/-- Bytes that nothing tells apart that looks at ASCII bytes only. -/
def SameByte (b c : UInt8) : Prop := b = c ∨ 0x80 ≤ b.toNat ∧ 0x80 ≤ c.toNat

/-- **Both have the same ASCII bytes**, in the same places. -/
theorem sameBytes (h : Mended u v) : List.Forall₂ SameByte u v := by
  induction h with
  | nil => exact .nil
  | ascii _ _ ih => exact .cons (.inl rfl) ih
  | character _ _ ih => exact List.rel_append (List.forall₂_same.mpr fun _ _ => .inl rfl) ih
  | torn torn _ ih =>
    have high := torn.high
    exact .cons (.inr ⟨high _ (by simp), by decide⟩) (.cons (.inr ⟨high _ (by simp), by decide⟩)
      (.cons (.inr ⟨high _ (by simp), by decide⟩) ih))

/-- Both begin with the same ASCII byte. -/
theorem of_ascii {b : UInt8} (h : Mended (b :: u) v) (hb : b.toNat < 0x80) :
    ∃ v', v = b :: v' ∧ Mended u v' := by
  generalize hw : b :: u = w at h
  cases h with
  | nil => cases hw
  | ascii _ rest =>
    obtain ⟨rfl, rfl⟩ := List.cons.inj hw
    exact ⟨_, rfl, rest⟩
  | @character c _ _ high =>
    obtain ⟨d, more, hmore⟩ := List.exists_cons_of_ne_nil (String.utf8EncodeChar_ne_nil (c := c))
    rw [hmore] at hw
    have hd := high_of_mem high (b := d) (by rw [hmore]; exact List.mem_cons_self)
    obtain ⟨rfl, -⟩ := List.cons.inj hw
    omega
  | torn torn =>
    obtain ⟨rfl, -⟩ := List.cons.inj hw
    exact absurd torn.leads.1 (by omega)

/-- A byte that does not stand in the first part stands behind it. -/
theorem exists_behind {b : UInt8} {x r after : List UInt8} (h : x ++ u = r ++ b :: after)
    (hb : b ∉ x) : ∃ r', r = x ++ r' ∧ u = r' ++ b :: after := by
  rcases List.append_eq_append_iff.mp h with ⟨r', rfl, hu⟩ | ⟨more, rfl, hmore⟩
  · exact ⟨r', rfl, hu⟩
  · cases more with
    | nil => exact ⟨[], by simp, hmore.symm⟩
    | cons c more =>
      obtain ⟨rfl, -⟩ := List.cons.inj hmore
      exact absurd (List.mem_append_right r List.mem_cons_self) hb

/-- **Both can be cut behind the same ASCII byte.** -/
theorem cut {b : UInt8} {r after : List UInt8} (h : Mended (r ++ b :: after) v)
    (hb : b.toNat < 0x80) :
    ∃ r' after', v = r' ++ after' ∧ Mended (r ++ [b]) r' ∧ Mended after after' := by
  generalize hw : r ++ b :: after = w at h
  induction h generalizing r with
  | nil => simp at hw
  | @ascii c u v low rest ih =>
    cases r with
    | nil =>
      obtain ⟨rfl, rfl⟩ := List.cons.inj hw
      exact ⟨[b], v, rfl, .ascii hb .nil, rest⟩
    | cons d r =>
      obtain ⟨rfl, hrest⟩ := List.cons.inj hw
      obtain ⟨r', after', rfl, hr, hafter⟩ := ih hrest
      exact ⟨d :: r', after', rfl, .ascii low hr, hafter⟩
  | @character c u v high rest ih =>
    obtain ⟨r₁, rfl, hrest⟩ := exists_behind hw.symm fun hmem =>
      absurd (high_of_mem high hmem) (Nat.not_le.mpr hb)
    obtain ⟨r', after', rfl, hr, hafter⟩ := ih hrest.symm
    refine ⟨String.utf8EncodeChar c ++ r', after', (List.append_assoc ..).symm, ?_, hafter⟩
    rw [List.append_assoc]
    exact .character high hr
  | @torn lead second third u v torn rest ih =>
    obtain ⟨r₁, rfl, hrest⟩ := exists_behind (x := [lead, second, third]) hw.symm fun hmem =>
      absurd (torn.high b hmem) (Nat.not_le.mpr hb)
    obtain ⟨r', after', rfl, hr, hafter⟩ := ih hrest.symm
    refine ⟨String.utf8EncodeChar replacement ++ r', after', (List.append_assoc ..).symm, ?_,
      hafter⟩
    refine .torn ?_ hr
    -- in front of the cut the same byte follows
    have hhead : (r₁ ++ [b]).head? = u.head? := by
      rw [hrest, List.head?_append, List.head?_append]
      rfl
    exact ⟨torn.leads, torn.second, torn.third, hhead ▸ torn.lacks⟩

end Mended

end Mgol.Text
