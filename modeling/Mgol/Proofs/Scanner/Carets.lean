import Mgol.Proofs.Scanner.Positions

/-! # Carets below a line

An error is shown with its line and a caret below. The blanks in front of the caret are as many as
the bytes in front of the error in its line, while the line is shown in characters. So the caret
stands below the first character of the error exactly if only ASCII characters come before it.

* **`Text.exists_front`, `Text.line?_of_front`** — a place in a text within its line.
* **`Text.advanceAll_front`** — the position of such a place.
* **`Scanner.exists_reported`** — where a scanner's diagnostics come from.
* **`ShownInLine`** — an error of a text with what is shown for it.
* **`Scanner.errors_shown_in_line`** — what is shown for every error that is found in a text. -/

namespace Mgol

namespace Text

/-! ## Parts one after the other -/

/-- The parts of two texts with a separator between them. -/
theorem splitOn_append_separator (sep : Char) (u v : List Char) :
    splitOn sep (u ++ sep :: v) = splitOn sep u ++ splitOn sep v := by
  induction u with
  | nil => exact splitOn_separator List.not_mem_nil v
  | cons c u ih =>
    obtain ⟨part, parts, hsplit, -⟩ := exists_parts sep u
    rw [List.cons_append, splitOn_cons, ih, splitOn_cons, hsplit, List.cons_append]
    unfold splitStep
    split_ifs <;> rfl

/-- There is one part more than there are separators. -/
theorem length_splitOn (sep : Char) (cs : List Char) :
    (splitOn sep cs).length = cs.count sep + 1 := by
  induction cs with
  | nil => rfl
  | cons c cs ih =>
    obtain ⟨part, parts, hsplit, -⟩ := exists_parts sep cs
    rw [hsplit] at ih
    rw [splitOn_cons, hsplit]
    unfold splitStep
    by_cases hc : c = sep
    · rw [if_pos hc, hc, List.count_cons_self, List.length_cons, ih]
    · rw [if_neg hc, List.count_cons_of_ne hc, ← ih, List.length_cons, List.length_cons]

/-! ## Places within a line -/

/-- **What a line can end with**: the end of the text or a line feed, each with or without a
carriage return before it. -/
def EndsLine (more : List Char) : Prop :=
  more = [] ∨ more = ['\r'] ∨ ['\n'] <+: more ∨ ['\r', '\n'] <+: more

variable {lead front : List Char}

/-- **What comes before a place in a text** are other lines and the front of its own line. -/
theorem exists_front (before : List Char) :
    ∃ lead front, before = lead ++ front ∧ (lead = [] ∨ lead.getLast? = some '\n') ∧
      '\n' ∉ front := by
  induction before using List.reverseRecOn with
  | nil => exact ⟨[], [], rfl, .inl rfl, List.not_mem_nil⟩
  | append_singleton before c ih =>
    obtain ⟨lead, front, rfl, hlead, hfront⟩ := ih
    by_cases hc : c = '\n'
    · exact ⟨lead ++ front ++ [c], [], (List.append_nil _).symm, .inr (by simp [hc]),
        List.not_mem_nil⟩
    · refine ⟨lead, front ++ [c], List.append_assoc .., hlead, ?_⟩
      rw [List.mem_append, List.mem_singleton, not_or]
      exact ⟨hfront, Ne.symm hc⟩

/-- The rest of a line, from a character on that ends no line. -/
theorem exists_tail {c : Char} (rest : List Char) (hfeed : c ≠ '\n') (hreturn : c ≠ '\r') :
    ∃ tail more part parts, c :: rest = tail ++ more ∧ tail ≠ [] ∧ '\n' ∉ tail ∧ EndsLine more ∧
      splitOn '\n' (c :: rest) = part :: parts ∧
      ∀ front, dropLastIf '\r' (front ++ part) = front ++ tail := by
  obtain ⟨part, parts, hsplit, htext⟩ := exists_parts '\n' (c :: rest)
  have hpart : '\n' ∉ part := notMem_of_mem_splitOn (by rw [hsplit]; exact List.mem_cons_self)
  have hne : part ≠ [] := by
    rintro rfl
    cases parts with
    | nil => cases htext
    | cons next parts => exact hfeed (List.cons.inj htext).1
  have hparts : parts.flatMap ('\n' :: ·) = [] ∨ ['\n'] <+: parts.flatMap ('\n' :: ·) := by
    cases parts with
    | nil => exact .inl rfl
    | cons next parts => exact .inr ⟨next ++ parts.flatMap ('\n' :: ·), rfl⟩
  by_cases hlast : part.getLast? = some '\r'
  · obtain ⟨tail, rfl⟩ := List.getLast?_eq_some_iff.mp hlast
    refine ⟨tail, '\r' :: parts.flatMap ('\n' :: ·), _, parts, ?_, ?_, ?_, ?_, hsplit, ?_⟩
    · rw [htext, List.append_assoc, List.singleton_append]
    · rintro rfl
      exact hreturn (List.cons.inj htext).1
    · exact fun hmem => hpart (List.mem_append_left _ hmem)
    · rcases hparts with hnil | hfirst
      · exact .inr (.inl (by rw [hnil]))
      · exact .inr (.inr (.inr ((List.prefix_cons_inj _).mpr hfirst)))
    · intro front
      rw [← List.append_assoc, dropLastIf, List.getLast?_concat, if_pos rfl, List.dropLast_concat]
  · refine ⟨part, parts.flatMap ('\n' :: ·), part, parts, htext, hne, hpart, ?_, hsplit, ?_⟩
    · exact hparts.imp_right fun hfirst => .inr (.inl hfirst)
    · intro front
      rw [dropLastIf, List.getLast?_append_of_ne_nil front hne, if_neg hlast]

/-- **The line of a place**, from the front on to where the line ends. -/
theorem line?_of_front {text : String} {c : Char} {rest : List Char}
    (htext : text.toList = lead ++ front ++ c :: rest)
    (hlead : lead = [] ∨ lead.getLast? = some '\n') (hfront : '\n' ∉ front) (hfeed : c ≠ '\n')
    (hreturn : c ≠ '\r') :
    ∃ tail more, c :: rest = tail ++ more ∧ tail ≠ [] ∧ '\n' ∉ tail ∧ EndsLine more ∧
      (SourceLines.ofText text).line? (1 + lead.count '\n') =
        some (String.ofList (front ++ tail)) := by
  obtain ⟨tail, more, part, parts, hrest, hne, htail, hends, hsplit, hdrop⟩ :=
    exists_tail rest hfeed hreturn
  refine ⟨tail, more, hrest, hne, htail, hends, ?_⟩
  have hline : (splitOn '\n' text.toList)[lead.count '\n']? = some (front ++ part) := by
    have hpart := splitOn_append hfront hsplit
    rw [htext, List.append_assoc]
    rcases hlead with rfl | hlead
    · rw [List.nil_append, hpart]
      rfl
    · obtain ⟨lines, rfl⟩ := List.getLast?_eq_some_iff.mp hlead
      rw [List.append_assoc, List.singleton_append, splitOn_append_separator, hpart,
        List.count_append, List.count_singleton_self, ← length_splitOn,
        List.getElem?_append_right (Nat.le_refl _), Nat.sub_self]
      rfl
  rw [Nat.add_comm, SourceLines.line?, SourceLines.ofText, List.getElem?_toArray, hline,
    Option.map_some, hdrop]

/-- Line feeds are the same in characters and in bytes. -/
theorem count_feed (cs : List Char) :
    (encode (String.ofList cs)).count 10 = cs.count '\n' := by
  rw [encode_ofList]
  induction cs with
  | nil => rfl
  | cons c cs ih =>
    rw [List.flatMap_cons, List.count_append, ih]
    by_cases hc : c = '\n'
    · rw [hc, List.count_cons_self, Nat.add_comm]
      rfl
    · have hother : (10 : UInt8) ∉ [c].flatMap String.utf8EncodeChar :=
        feed_notMem (by simpa using Ne.symm hc)
      rw [List.flatMap_singleton] at hother
      rw [List.count_eq_zero.mpr hother, Nat.zero_add, List.count_cons_of_ne hc]

/-- **The position of a place in its line**: its column counts the bytes of the front. -/
theorem advanceAll_front (hlead : lead = [] ∨ lead.getLast? = some '\n') (hfront : '\n' ∉ front) :
    Position.start.advanceAll (encode (String.ofList (lead ++ front))) =
      ⟨(encode (String.ofList (lead ++ front))).length, 1 + lead.count '\n',
        1 + (encode (String.ofList front)).length⟩ := by
  have hcolumn : sinceFeed (encode (String.ofList (lead ++ front))) =
      (encode (String.ofList front)).length := by
    have hbytes : (10 : UInt8) ∉ encode (String.ofList front) := by
      rw [encode_ofList]
      exact feed_notMem hfront
    rcases hlead with rfl | hlead
    · exact sinceFeed_of_notMem hbytes
    · obtain ⟨lines, rfl⟩ := List.getLast?_eq_some_iff.mp hlead
      have hfeed : encode (String.ofList ['\n']) = [10] := by
        rw [encode_ofList]
        rfl
      rw [String.ofList_append, String.ofList_append, encode_append, encode_append, hfeed,
        List.append_assoc, List.singleton_append, sinceFeed_append_feed,
        sinceFeed_of_notMem hbytes]
  rw [Position.advanceAll_start, count_feed, List.count_append, List.count_eq_zero.mpr hfront,
    Nat.add_zero, hcolumn]

/-! ## Characters of one byte -/

/-- **A text has as many bytes as characters exactly if all of it is in ASCII**, and otherwise
more. -/
theorem length_encode_eq_iff (cs : List Char) :
    cs.length ≤ (encode (String.ofList cs)).length ∧
      ((encode (String.ofList cs)).length = cs.length ↔ ∀ c ∈ cs, c.toNat < 0x80) := by
  rw [encode_ofList]
  induction cs with
  | nil => exact ⟨Nat.le_refl 0, by simp⟩
  | cons c cs ih =>
    obtain ⟨hpos, hone⟩ := length_utf8EncodeChar c
    obtain ⟨hle, heq⟩ := ih
    rw [List.flatMap_cons, List.length_append, List.length_cons, List.forall_mem_cons, ← hone,
      ← heq]
    exact ⟨by omega, by omega⟩

end Text

/-! ## Errors of a scan -/

/-- What is reported of a piece is reported where it starts, with its first bytes. -/
theorem Lexicon.Reads.reported {l : Lexicon} {r after : List UInt8} {sight : Sight}
    (h : l.Reads r after sight) {start : Position} {d : Diagnostic}
    (hd : d ∈ sight.reports start) :
    d.position = start ∧
      d.lexeme = some (Text.decodeLossy (r.take Limits.lexemeLength)) := by
  have hspells := h.spells
  cases sight with
  | fault f bytes =>
    rw [Sight.reports, List.mem_singleton] at hd
    obtain rfl : bytes = r.take Limits.lexemeLength := hspells
    rw [hd]
    exact ⟨rfl, rfl⟩
  | broken | ended | word => exact absurd hd List.not_mem_nil

namespace Scanner

/-- **Every diagnostic is of a piece** of the source. -/
theorem exists_reported {s : Scanner} {pieces : List Piece} (h : s.Faces pieces)
    (hnew : s.diagnostics = #[]) (n : Nat) {d : Diagnostic}
    (hd : d ∈ (s.outcomes n).2.diagnostics) :
    ∃ x ∈ pieces, d ∈ x.sight.reports x.start := by
  -- what was scanned so far are the first pieces, and the others are ahead
  obtain ⟨⟨first, more, rfl, -, htold⟩, -⟩ := outcomes_induction
    (fun s' => ∃ first more, pieces = first ++ more ∧ s'.Faces more ∧
      s'.diagnostics.toList = reportsOf first)
    (by
      rintro s' ⟨first, more, rfl, hfaces, htold⟩
      by_cases hlimit : Limits.tokenCount ≤ s'.metrics.tokens
      · rw [scan, if_pos hlimit]
        exact ⟨first, more, rfl, ⟨hfaces.readable, hfaces.cuts⟩, htold⟩
      · cases more with
        | nil =>
          obtain ⟨s'', hscan, hend, -, -, hsame, -⟩ := hfaces.scan_nil (Nat.not_le.mp hlimit)
          rw [hscan]
          exact ⟨first, [], rfl, hend, by rw [hsame, htold]⟩
        | cons x more =>
          obtain ⟨s'', hscan, hmore, hpasses⟩ := hfaces.scan (Nat.not_le.mp hlimit)
          rw [hscan]
          refine ⟨first ++ [x], more, List.append_cons .., hmore, ?_⟩
          rw [hpasses.diagnostics_eq, htold, reportsOf, reportsOf, reportsOf, List.flatMap_append])
    n ⟨[], pieces, rfl, h, by rw [hnew]; rfl⟩
  rw [← Array.mem_toList_iff, htold, reportsOf, List.mem_flatMap] at hd
  obtain ⟨x, hx, hreports⟩ := hd
  exact ⟨x, List.mem_append_left _ hx, hreports⟩

end Scanner

/-! ## What is shown -/

/-- **An error of a text as it is shown.** The text falls into the lines before the error (`lead`),
the front of the line in which it begins (`front`), the rest of that line (`tail`), and what ends
that line with all that follows (`more`). The error has its position and its lexeme there. It is
shown with its message and position, the line, and a caret behind as many blanks as the front has
bytes. -/
structure ShownInLine (text : String) (d : Diagnostic) (lead front tail more : List Char) :
    Prop where
  split : text.toList = lead ++ front ++ (tail ++ more)
  begins : lead = [] ∨ lead.getLast? = some '\n'
  line : '\n' ∉ front ++ tail
  ends : Text.EndsLine more
  position : d.position = ⟨(Text.encode (String.ofList (lead ++ front))).length,
    1 + lead.count '\n', 1 + (Text.encode (String.ofList front)).length⟩
  lexeme : ∃ bytes, bytes ≠ [] ∧ bytes <+: Text.encode (String.ofList (tail ++ more)) ∧
    d.lexeme = some (Text.decodeLossy bytes)
  offending : tail ≠ []
  shown : ∀ message,
    let number := toString (1 + lead.count '\n')
    let gutter := SourceLines.blanks number.length
    (SourceLines.ofText text).showError d.position message =
      "error: " ++ message ++ "\n  --> " ++ d.position.text ++ "\n" ++ gutter ++ " |\n" ++ number
        ++ " | " ++ String.ofList (front ++ tail) ++ "\n" ++ gutter ++ " | "
        ++ SourceLines.blanks (Text.encode (String.ofList front)).length ++ "^\n"

/-- A piece of a text that is reported is shown in its line. -/
theorem Lexicon.Cuts.exists_shownInLine {text : String} {pieces : List Piece} {x : Piece}
    (h : Lexicon.mgol.Cuts .start (Text.encode text) pieces) (hx : x ∈ pieces) {d : Diagnostic}
    (hd : d ∈ x.sight.reports x.start) :
    ∃ lead front tail more, ShownInLine text d lead front tail more := by
  obtain ⟨_, _, -, -, hunblank, hread⟩ := h.exists_split hx
  obtain ⟨u, v, hbytes, hstart, ⟨before, rfl⟩, ⟨middle, hmiddle⟩, ⟨after, rfl⟩⟩ :=
    h.isText ⟨text, rfl⟩ hx
  obtain ⟨hposition, hlexeme⟩ := hread.reported hd
  have hne : x.bytes ≠ [] := hread.ne_nil
  -- the piece begins with a character that ends no line
  obtain ⟨c, cs, hcs⟩ : ∃ c cs, middle.toList = c :: cs := by
    refine List.exists_cons_of_ne_nil fun hnil => hne ?_
    rw [hmiddle, ← String.ofList_toList (s := middle), hnil, Text.encode_ofList, List.flatMap_nil]
  have hfirst : ∀ e : Char, e.toNat < 0x80 → isSeparator e.toUInt8 = true → c ≠ e := by
    rintro e hlow hseparator rfl
    rw [← String.ofList_toList (s := middle), hcs, Text.encode_ofList, List.flatMap_cons,
      Text.utf8EncodeChar_of_ascii hlow] at hmiddle
    have hblank := hunblank c.toUInt8 (by rw [hmiddle]; rfl)
    rw [hseparator] at hblank
    cases hblank
  have htext : text = before ++ (middle ++ after) := by
    apply Text.encode_injective
    rw [hbytes, Text.encode_append, Text.encode_append, hmiddle]
  obtain ⟨lead, front, hbefore, hlead, hfront⟩ := Text.exists_front before.toList
  have hchars : text.toList = lead ++ front ++ c :: (cs ++ after.toList) := by
    rw [htext, String.toList_append, String.toList_append, hbefore, hcs, List.cons_append]
  obtain ⟨tail, more, hrest, htail, hline, hends, hshown⟩ := Text.line?_of_front hchars hlead
    hfront (hfirst '\n' (by decide) (by decide)) (hfirst '\r' (by decide) (by decide))
  have hplace : d.position = ⟨(Text.encode (String.ofList (lead ++ front))).length,
      1 + lead.count '\n', 1 + (Text.encode (String.ofList front)).length⟩ := by
    rw [hposition, hstart, ← Text.advanceAll_front hlead hfront, ← hbefore, String.ofList_toList]
  refine ⟨lead, front, tail, more, ?_⟩
  exact
    { split := by rw [hchars, hrest]
      begins := hlead
      line := by
        rw [List.mem_append, not_or]
        exact ⟨hfront, hline⟩
      ends := hends
      position := hplace
      lexeme := by
        refine ⟨x.bytes.take Limits.lexemeLength, ?_, ?_, hlexeme⟩
        · rw [Ne, List.take_eq_nil_iff, not_or]
          exact ⟨by decide, hne⟩
        · refine (List.take_prefix _ _).trans ⟨Text.encode after, ?_⟩
          rw [← hrest, ← List.cons_append, ← hcs, ← String.toList_append, String.ofList_toList,
            Text.encode_append, hmiddle]
      offending := htail
      shown := by
        intro message
        simp only [SourceLines.showError]
        rw [hplace]
        simp only [hshown, Nat.add_sub_cancel_left, String.append_assoc] }

/-- **What is shown for every error that scanning a text finds**: its line, and a caret behind as
many blanks as there are bytes before the error in that line. These are as many as the characters
before it if and only if all of them are in ASCII. -/
theorem Scanner.errors_shown_in_line (text : String) (session : Session) (options : ScanOptions)
    (n : Nat) :
    ∀ d ∈ ((ofInput ⟨Text.encode text, none⟩ .mgol session options).outcomes n).2.diagnostics,
      ∃ lead front tail more, ShownInLine text d lead front tail more ∧
        ((Text.encode (String.ofList front)).length = front.length ↔
          ∀ c ∈ front, c.toNat < 0x80) := by
  intro d hd
  obtain ⟨pieces, hcuts⟩ := Lexicon.mgol.exists_cuts .start (Text.encode text)
  have hfaces : (ofInput ⟨Text.encode text, none⟩ .mgol session options).Faces pieces :=
    ⟨rfl, hcuts⟩
  obtain ⟨x, hx, hreports⟩ := exists_reported hfaces rfl n hd
  obtain ⟨lead, front, tail, more, hshown⟩ := hcuts.exists_shownInLine hx hreports
  exact ⟨lead, front, tail, more, hshown, (Text.length_encode_eq_iff front).2⟩

/-- A character that is no word, behind a text in the second line: four ASCII characters come before
it there, so the caret stands below it. -/
theorem Scanner.errors_shown_in_line_second :
    ∃ d ∈ ((ofInput ⟨Text.encode "é\n\"b\" @", none⟩).outcomes 3).2.diagnostics,
      d.position = ⟨7, 2, 5⟩ ∧ d.lexeme = some "@" ∧
      ∃ lead front tail more, ShownInLine "é\n\"b\" @" d lead front tail more ∧
        (Text.encode (String.ofList front)).length = 4 := by
  have hfound : ∃ d ∈
      ((ofInput ⟨Text.encode "é\n\"b\" @", none⟩).outcomes 3).2.diagnostics.toList,
      d.position = ⟨7, 2, 5⟩ ∧ d.lexeme = some "@" := by
    decide +kernel
  obtain ⟨d, hd, hposition, hlexeme⟩ := hfound
  have hd := Array.mem_toList_iff.mp hd
  obtain ⟨lead, front, tail, more, hshown, -⟩ :=
    errors_shown_in_line "é\n\"b\" @" {} {} 3 d hd
  refine ⟨d, hd, hposition, hlexeme, lead, front, tail, more, hshown, ?_⟩
  have hplace := hshown.position
  rw [hposition, Position.mk.injEq] at hplace
  omega

/-- **A caret that misses its error**: behind a text with a character of two bytes, four characters
come before the one that is no word, and the caret stands behind five blanks. -/
theorem Scanner.error_shown_beside :
    ∃ d, ((ofInput ⟨Text.encode "\"é\" @", none⟩).outcomes 3).2.diagnostics.toList = [d] ∧
      d.lexeme = some "@" ∧ "\"é\" @".toList = ['"', 'é', '"', ' '] ++ ['@'] ∧
      (SourceLines.ofText "\"é\" @").showError d.position "m" =
        "error: m\n  --> 1:6\n  |\n1 | \"é\" @\n  | " ++ SourceLines.blanks 5 ++ "^\n" ∧
      (SourceLines.ofText "\"é\" @").showError d.position "m" ≠
        "error: m\n  --> 1:6\n  |\n1 | \"é\" @\n  | " ++ SourceLines.blanks 4 ++ "^\n" := by
  have hfound : (((ofInput ⟨Text.encode "\"é\" @", none⟩).outcomes 3).2.diagnostics.toList.map
      fun d => (d.position, d.lexeme)) = [(⟨5, 1, 6⟩, some "@")] := by
    decide +kernel
  obtain ⟨d, hd, hpair⟩ := List.map_eq_singleton_iff.mp hfound
  obtain ⟨hposition, hlexeme⟩ := Prod.mk.inj hpair
  refine ⟨d, hd, hlexeme, by decide +kernel, ?_, ?_⟩
  · rw [hposition]
    decide +kernel
  · rw [hposition]
    decide +kernel

end Mgol
