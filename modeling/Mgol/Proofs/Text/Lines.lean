import Mathlib.Data.List.Basic
import Mathlib.Data.List.Induction
import Mgol.Compiler.SourceFile
import Mgol.Proofs.Text.Split
import Mgol.Proofs.Text.Utf8
import Mgol.Source.Lines

/-! # Lines in bytes

Lines are counted in three ways: by the line feeds that were passed, by cutting a text at its line
feeds, and by the line feeds of a file. The first counts bytes and the second characters, and they
agree because a line feed is one byte that no other character has.

* **`sinceFeed`** — how many bytes stand behind the last line feed.
* **`exists_line`** — a byte of a text in its line.
* **`countLines_eq`** — the lines of a file by its line feeds. -/

namespace Mgol.Text

/-! ## Bytes behind the last line feed -/

/-- **How many bytes stand behind the last line feed**, or all of them if there is none. -/
def sinceFeed (bytes : List UInt8) : Nat := (bytes.reverse.takeWhile (· ≠ 10)).length

/-- One byte more. -/
theorem sinceFeed_concat (bytes : List UInt8) (b : UInt8) :
    sinceFeed (bytes ++ [b]) = if b = 10 then 0 else sinceFeed bytes + 1 := by
  unfold sinceFeed
  rw [List.reverse_append, List.reverse_singleton, List.singleton_append, List.takeWhile_cons]
  by_cases hb : b = 10
  · simp [hb]
  · simp [hb]

/-- Bytes in front of a line feed do not count. -/
theorem sinceFeed_append_feed (u v : List UInt8) :
    sinceFeed (u ++ 10 :: v) = sinceFeed v := by
  induction v using List.reverseRecOn with
  | nil => exact sinceFeed_concat u 10
  | append_singleton v b ih =>
    rw [← List.cons_append, ← List.append_assoc, sinceFeed_concat, sinceFeed_concat, ih]

/-- Without a line feed all bytes count. -/
theorem sinceFeed_of_notMem {bytes : List UInt8} (h : 10 ∉ bytes) :
    sinceFeed bytes = bytes.length := by
  induction bytes using List.reverseRecOn with
  | nil => rfl
  | append_singleton bytes b ih =>
    rw [List.mem_append, not_or, List.mem_singleton] at h
    rw [sinceFeed_concat, if_neg (Ne.symm h.2), ih h.1, List.length_append, List.length_singleton]

/-! ## Bytes in their lines -/

/-- **A text is its parts** with a separator before each but the first. -/
theorem exists_parts (sep : Char) (cs : List Char) :
    ∃ part parts, splitOn sep cs = part :: parts ∧ cs = part ++ parts.flatMap (sep :: ·) := by
  induction cs with
  | nil => exact ⟨[], [], rfl, rfl⟩
  | cons c cs ih =>
    obtain ⟨part, parts, hsplit, hcs⟩ := ih
    rw [splitOn_cons, hsplit]
    unfold splitStep
    by_cases hc : c = sep
    · refine ⟨[], part :: parts, if_pos hc, ?_⟩
      rw [hcs, hc]
      rfl
    · refine ⟨c :: part, parts, if_neg hc, ?_⟩
      rw [hcs]
      rfl

/-- Characters other than a line feed have no byte of it. -/
theorem feed_notMem {cs : List Char} (h : '\n' ∉ cs) :
    (10 : UInt8) ∉ cs.flatMap String.utf8EncodeChar := by
  rw [← encode_ofList]
  intro hmem
  have hchar := (mem_encode_iff (c := '\n') (by decide)).mp hmem
  rw [String.toList_ofList] at hchar
  exact h hchar

/-- Where no line feed stands, a byte lies behind all bytes before it. -/
theorem getElem?_sinceFeed {bytes before after : List UInt8} {b : UInt8} (h : 10 ∉ bytes)
    (heq : bytes = before ++ b :: after) :
    before.count 10 = 0 ∧ bytes[sinceFeed before]? = some b := by
  have hbefore : 10 ∉ before := by
    intro hmem
    apply h
    rw [heq]
    exact List.mem_append_left _ hmem
  refine ⟨List.count_eq_zero.mpr hbefore, ?_⟩
  rw [sinceFeed_of_notMem hbefore, heq, List.getElem?_append_right (Nat.le_refl _), Nat.sub_self]
  rfl

/-- **A byte lies in the part** that as many line feeds precede, behind as many bytes as follow the
last of them. -/
theorem exists_part {part : List Char} {parts : List (List Char)}
    (hparts : ∀ p ∈ part :: parts, '\n' ∉ p) {before after : List UInt8} {b : UInt8} (hb : b ≠ 10)
    (heq : (part ++ parts.flatMap ('\n' :: ·)).flatMap String.utf8EncodeChar =
      before ++ b :: after) :
    ∃ p, (part :: parts)[before.count 10]? = some p ∧
      (p.flatMap String.utf8EncodeChar)[sinceFeed before]? = some b := by
  induction parts generalizing part before with
  | nil =>
    rw [List.flatMap_nil, List.append_nil] at heq
    obtain ⟨hcount, hbyte⟩ := getElem?_sinceFeed (feed_notMem (hparts part List.mem_cons_self)) heq
    refine ⟨part, ?_, hbyte⟩
    rw [hcount]
    rfl
  | cons next parts ih =>
    obtain ⟨hpart, hrest⟩ := List.forall_mem_cons.mp hparts
    have hfeed : String.utf8EncodeChar '\n' = [10] := utf8EncodeChar_of_ascii (by decide)
    rw [List.flatMap_append, List.flatMap_cons, List.cons_append, List.flatMap_cons, hfeed,
      List.singleton_append] at heq
    -- the byte lies behind the line feed that ends the first part, or in that part
    rcases List.append_eq_append_iff.mp heq with ⟨more, rfl, hmore⟩ | ⟨rest, hfirst, hafter⟩
    · cases more with
      | nil => exact absurd (List.cons.inj hmore).1.symm hb
      | cons c more =>
        obtain ⟨rfl, hnext⟩ := List.cons.inj hmore
        obtain ⟨p, hp, hbyte⟩ := ih hrest hnext
        refine ⟨p, ?_, ?_⟩
        · rw [List.count_append, List.count_eq_zero.mpr (feed_notMem hpart), List.count_cons_self,
            Nat.zero_add, List.getElem?_cons_succ]
          exact hp
        · rw [sinceFeed_append_feed]
          exact hbyte
    · cases rest with
      | nil => exact absurd (List.cons.inj hafter).1 hb
      | cons c rest =>
        obtain ⟨rfl, -⟩ := List.cons.inj hafter
        obtain ⟨hcount, hbyte⟩ := getElem?_sinceFeed (feed_notMem hpart) hfirst
        refine ⟨part, ?_, hbyte⟩
        rw [hcount]
        rfl

/-- A byte other than a carriage return stays where it is when one is dropped at the end. -/
theorem getElem?_dropLastIf {cs : List Char} {i : Nat} {b : UInt8} (hb : b ≠ 13)
    (h : (cs.flatMap String.utf8EncodeChar)[i]? = some b) :
    ((dropLastIf '\r' cs).flatMap String.utf8EncodeChar)[i]? = some b := by
  unfold dropLastIf
  by_cases hlast : cs.getLast? = some '\r'
  · rw [if_pos hlast]
    obtain ⟨front, rfl⟩ := List.getLast?_eq_some_iff.mp hlast
    have hreturn : String.utf8EncodeChar '\r' = [13] := utf8EncodeChar_of_ascii (by decide)
    rw [List.flatMap_append, List.flatMap_singleton, hreturn, List.getElem?_append] at h
    rw [List.dropLast_concat]
    split at h
    · exact h
    · rw [List.getElem?_singleton] at h
      split at h
      · exact absurd (Option.some.inj h).symm hb
      · cases h
  · rw [if_neg hlast]
    exact h

/-- **A byte of a text in its line.** A byte that ends no line lies in the line that as many line
feeds precede, behind as many bytes as follow the last of them. -/
theorem exists_line {text : String} {before after : List UInt8} {b : UInt8} (hfeed : b ≠ 10)
    (hreturn : b ≠ 13) (heq : encode text = before ++ b :: after) :
    ∃ line, (SourceLines.ofText text).line? (1 + before.count 10) = some line ∧
      (encode line)[sinceFeed before]? = some b := by
  obtain ⟨part, parts, hsplit, htext⟩ := exists_parts '\n' text.toList
  have hparts : ∀ p ∈ part :: parts, '\n' ∉ p := by
    intro p hp
    rw [← hsplit] at hp
    exact notMem_of_mem_splitOn hp
  rw [← String.ofList_toList (s := text), encode_ofList, htext] at heq
  obtain ⟨p, hp, hbyte⟩ := exists_part hparts hfeed heq
  refine ⟨String.ofList (dropLastIf '\r' p), ?_, ?_⟩
  · rw [Nat.add_comm, SourceLines.line?, SourceLines.ofText, hsplit, List.getElem?_toArray, hp]
    rfl
  · rw [encode_ofList]
    exact getElem?_dropLastIf hreturn hbyte

/-! ## The lines of a file -/

/-- A fold over the bytes of a file from a place on. -/
theorem foldlM_loop {α : Type} (f : α → UInt8 → α) (content : ByteArray) (i j : Nat) (a : α)
    (h : i + j = content.size) :
    Id.run (ByteArray.foldlM.loop (fun x y => pure (f x y)) content content.size (Nat.le_refl _)
      i j a) = (content.data.toList.drop j).foldl f a := by
  induction i generalizing j a with
  | zero =>
    have hend : content.data.toList.length ≤ j := Nat.le_of_eq (h.symm.trans (Nat.zero_add j))
    rw [ByteArray.foldlM.loop, dif_neg (by omega), List.drop_eq_nil_of_le hend]
    rfl
  | succ i ih =>
    have hj : j < content.data.toList.length := by
      show j < content.size
      omega
    rw [ByteArray.foldlM.loop, dif_pos (by omega), List.drop_eq_getElem_cons hj, List.foldl_cons]
    exact ih (j + 1) _ (by omega)

/-- A fold over the bytes of a file. -/
theorem foldl_eq {α : Type} (f : α → UInt8 → α) (a : α) (content : ByteArray) :
    content.foldl f a = content.data.toList.foldl f a := by
  have hloop := foldlM_loop f content content.size 0 a (Nat.add_zero _)
  rw [ByteArray.foldl, ByteArray.foldlM, dif_pos (Nat.le_refl _)]
  exact hloop

/-- Counting line feeds one by one. -/
theorem foldl_count (bytes : List UInt8) (n : Nat) :
    bytes.foldl (fun n b => if b = 10 then n + 1 else n) n = n + bytes.count 10 := by
  induction bytes generalizing n with
  | nil => rfl
  | cons b bytes ih =>
    rw [List.foldl_cons, ih, List.count_cons]
    by_cases hb : b = 10
    · simp [hb]
      omega
    · simp [hb]

/-- **The lines of a file by its line feeds**: one for each, and one for what stands behind the
last. -/
theorem countLines_eq (content : ByteArray) :
    SourceFile.countLines content = content.data.toList.count 10 +
      match content.data.toList.getLast? with
      | none => 0
      | some last => if last = 10 then 0 else 1 := by
  have hlast : content[content.size - 1]? = content.data.toList.getLast? := by
    rw [List.getLast?_eq_getElem?, Array.getElem?_toList, Array.length_toList]
    rfl
  rw [SourceFile.countLines, foldl_eq, foldl_count, Nat.zero_add, hlast]
  cases content.data.toList.getLast? with
  | none => rfl
  | some last =>
    simp only
    split <;> rfl

/-- The bytes of a text as those of a file. -/
theorem toList_toUTF8 (text : String) : text.toUTF8.data.toList = encode text := by
  rw [encode, toList_eq_data]

/-- A text ends in a line feed if its last byte is one. -/
theorem getLast?_encode (front : List Char) (c : Char) :
    ∃ b, (encode (String.ofList (front ++ [c]))).getLast? = some b ∧ (b = 10 ↔ c = '\n') := by
  have hne : String.utf8EncodeChar c ≠ [] := by
    intro hnil
    have hcharacter := character_utf8EncodeChar c
    rw [hnil] at hcharacter
    cases hcharacter
  refine ⟨(String.utf8EncodeChar c).getLast hne, ?_, ?_⟩
  · rw [encode_ofList, List.flatMap_append, List.flatMap_singleton, List.getLast?_append,
      List.getLast?_eq_some_getLast hne]
    rfl
  · constructor
    · intro hb
      by_contra hc
      have hother : '\n' ∉ [c] := by simpa using Ne.symm hc
      have hfeed := feed_notMem hother
      rw [List.flatMap_singleton, ← hb] at hfeed
      exact hfeed (List.getLast_mem hne)
    · rintro rfl
      rfl

/-- **The lines of a text as a file**: one for each line feed, and one for what stands behind the
last. -/
theorem countLines_toUTF8 (text : String) :
    SourceFile.countLines text.toUTF8 = (encode text).count 10 +
      if text ≠ "" ∧ text.toList.getLast? ≠ some '\n' then 1 else 0 := by
  rw [countLines_eq, toList_toUTF8]
  obtain ⟨cs, rfl⟩ : ∃ cs, text = String.ofList cs := ⟨text.toList, String.ofList_toList.symm⟩
  rw [String.toList_ofList]
  rcases cs.eq_nil_or_concat' with rfl | ⟨front, c, rfl⟩
  · rw [encode_ofList]
    rfl
  · obtain ⟨b, hlast, hb⟩ := getLast?_encode front c
    rw [hlast, List.getLast?_concat]
    by_cases hc : c = '\n'
    · simp [hc, hb.mpr hc]
    · simp [hc, mt hb.mp hc]

end Mgol.Text
