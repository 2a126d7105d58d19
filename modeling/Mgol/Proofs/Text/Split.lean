import Mgol.Text.Blank
import Mgol.Text.Split

/-! # Parts and lines read back

A text that was put together from parts falls into these parts again, if none of them holds the
separator.

* **`Text.splitOn_parts`** — parts with a separator before each but the first.
* **`Text.lines_of_ended`** — lines with a line feed after each.
* **`Text.notMem_of_mem_splitOn`, `Text.newline_notMem_of_mem_lines`** — what parts and lines do not
  hold.
* **`Text.trim_eq_self`, `Text.getLast?_of_trim`** — texts without blanks at their ends.
* **`Text.trim_trim`** — nothing is left to trim. -/

namespace Mgol.Text

/-! ## Parts -/

/-- What holds no separator goes to the first part. -/
theorem splitOn_append {sep : Char} {u v part : List Char} {parts : List (List Char)}
    (hu : sep ∉ u) (hv : splitOn sep v = part :: parts) :
    splitOn sep (u ++ v) = (u ++ part) :: parts := by
  induction u with
  | nil => exact hv
  | cons c u ih =>
    have hc : sep ≠ c := List.ne_of_not_mem_cons hu
    rw [List.cons_append, splitOn_cons, ih (List.not_mem_of_not_mem_cons hu)]
    unfold splitStep
    rw [if_neg (Ne.symm hc)]
    rfl

/-- A separator ends a part. -/
theorem splitOn_separator {sep : Char} {u : List Char} (hu : sep ∉ u) (v : List Char) :
    splitOn sep (u ++ sep :: v) = u :: splitOn sep v := by
  have hsep : splitOn sep (sep :: v) = [] :: splitOn sep v := by
    rw [splitOn_cons]
    unfold splitStep
    rw [if_pos rfl]
  rw [splitOn_append hu hsep, List.append_nil]

/-- **Parts with a separator before each but the first** are found again. -/
theorem splitOn_parts {sep : Char} {part : List Char} {parts : List (List Char)}
    (hpart : sep ∉ part) (hparts : ∀ p ∈ parts, sep ∉ p) :
    splitOn sep (part ++ parts.flatMap (sep :: ·)) = part :: parts := by
  induction parts generalizing part with
  | nil =>
    rw [List.flatMap_nil, splitOn_append hpart (splitOn_nil sep), List.append_nil]
  | cons p parts ih =>
    obtain ⟨hp, hparts⟩ := List.forall_mem_cons.mp hparts
    rw [List.flatMap_cons, List.cons_append, splitOn_separator hpart, ih hp hparts]

/-- **A part holds no separator.** -/
theorem notMem_of_mem_splitOn {sep : Char} {cs part : List Char} (h : part ∈ splitOn sep cs) :
    sep ∉ part := by
  induction cs generalizing part with
  | nil =>
    rw [splitOn_nil, List.mem_singleton] at h
    rw [h]
    exact List.not_mem_nil
  | cons c cs ih =>
    rw [splitOn_cons] at h
    unfold splitStep at h
    split at h
    · rcases List.mem_cons.mp h with rfl | h
      · exact List.not_mem_nil
      · exact ih h
    · next hc =>
      cases hparts : splitOn sep cs with
      | nil =>
        rw [hparts, List.mem_singleton] at h
        rw [h, List.mem_singleton]
        exact Ne.symm hc
      | cons first rest =>
        rw [hparts] at h ih
        rcases List.mem_cons.mp h with rfl | h
        · exact List.not_mem_cons_of_ne_of_not_mem (Ne.symm hc) (ih List.mem_cons_self)
        · exact ih (List.mem_cons_of_mem _ h)

/-- The characters of a part are characters of the text. -/
theorem mem_of_mem_splitOn {sep c : Char} {cs part : List Char} (h : part ∈ splitOn sep cs)
    (hc : c ∈ part) : c ∈ cs := by
  induction cs generalizing part with
  | nil =>
    rw [splitOn_nil, List.mem_singleton] at h
    rwa [h] at hc
  | cons d cs ih =>
    rw [splitOn_cons] at h
    unfold splitStep at h
    split at h
    · rcases List.mem_cons.mp h with rfl | h
      · cases hc
      · exact List.mem_cons_of_mem _ (ih h hc)
    · cases hparts : splitOn sep cs with
      | nil =>
        rw [hparts, List.mem_singleton] at h
        rw [h, List.mem_singleton] at hc
        exact hc ▸ List.mem_cons_self
      | cons first rest =>
        rw [hparts] at h ih
        rcases List.mem_cons.mp h with rfl | h
        · rcases List.mem_cons.mp hc with rfl | hc
          · exact List.mem_cons_self
          · exact List.mem_cons_of_mem _ (ih List.mem_cons_self hc)
        · exact List.mem_cons_of_mem _ (ih (List.mem_cons_of_mem _ h) hc)

/-! ## Lines -/

/-- **A line holds no line feed.** -/
theorem newline_notMem_of_mem_lines {cs line : List Char} (h : line ∈ lines cs) :
    '\n' ∉ line := by
  have hparts : ∀ parts : List (List Char), (∀ part ∈ parts, '\n' ∉ part) →
      ∀ line ∈ linesOfParts parts, '\n' ∉ line := by
    intro parts hclean line hline
    induction parts using linesOfParts.induct with
    | case1 => cases hline
    | case2 last hempty => simp [linesOfParts, hempty] at hline
    | case3 last hfull =>
      rw [linesOfParts, if_neg hfull] at hline
      exact hclean line hline
    | case4 part rest hrest ih =>
      obtain ⟨hpart, hclean⟩ := List.forall_mem_cons.mp hclean
      rw [linesOfParts] at hline
      · rcases List.mem_cons.mp hline with rfl | hline
        · unfold dropLastIf
          split
          · exact fun hmem => hpart (List.dropLast_subset _ hmem)
          · exact hpart
        · exact ih hclean hline
      · exact hrest
  exact hparts _ (fun _ => notMem_of_mem_splitOn) line h

/-- Lines with a line feed after each are parts, and nothing comes after the last one. -/
theorem splitOn_ended {lines : List (List Char)} (h : ∀ l ∈ lines, '\n' ∉ l) :
    splitOn '\n' (lines.flatMap (· ++ ['\n'])) = lines ++ [[]] := by
  induction lines with
  | nil => rfl
  | cons l lines ih =>
    obtain ⟨hl, hlines⟩ := List.forall_mem_cons.mp h
    rw [List.flatMap_cons, List.append_assoc, List.singleton_append, splitOn_separator hl,
      ih hlines, List.cons_append]

/-- **Lines with a line feed after each are found again**, if none ends in a carriage return. -/
theorem lines_of_ended {lines : List (List Char)} (h : ∀ l ∈ lines, '\n' ∉ l)
    (hlast : ∀ l ∈ lines, l.getLast? ≠ some '\r') :
    Text.lines (lines.flatMap (· ++ ['\n'])) = lines := by
  rw [Text.lines, splitOn_ended h]
  clear h
  induction lines with
  | nil => rfl
  | cons l lines ih =>
    obtain ⟨hl, hlast⟩ := List.forall_mem_cons.mp hlast
    have hmore : lines ++ [[]] ≠ [] := by simp
    obtain ⟨first, rest, hcons⟩ := List.exists_cons_of_ne_nil hmore
    have hlines := ih hlast
    rw [hcons] at hlines
    rw [List.cons_append, hcons, linesOfParts, hlines, dropLastIf, if_neg hl]
    exact List.cons_ne_nil _ _

/-! ## Blanks at the ends -/

/-- A text without a blank at either end stays as it is. -/
theorem trim_eq_self {cs : List Char} (hfirst : ∀ c ∈ cs.head?, isBlank c = false)
    (hlast : ∀ c ∈ cs.getLast?, isBlank c = false) : trim cs = cs := by
  have hfront : cs.dropWhile isBlank = cs := by
    cases cs with
    | nil => rfl
    | cons c cs => rw [List.dropWhile_cons_of_neg (by simpa using hfirst c rfl)]
  have hback : cs.reverse.dropWhile isBlank = cs.reverse := by
    cases hrev : cs.reverse with
    | nil => rfl
    | cons c rest =>
      have hc : c ∈ cs.getLast? := by
        rw [← List.head?_reverse, hrev]
        rfl
      rw [List.dropWhile_cons_of_neg (by simpa using hlast c hc)]
  rw [trim, trimRight, hfront, hback, List.reverse_reverse]

/-- A text of characters that are no blanks stays as it is. -/
theorem trim_of_forall {cs : List Char} (h : ∀ c ∈ cs, isBlank c = false) : trim cs = cs :=
  trim_eq_self (fun c hc => h c (List.mem_of_head? hc)) fun c hc => h c (List.mem_of_getLast? hc)

/-- What is left at the ends is no blank. -/
theorem trim_trim (cs : List Char) : trim (trim cs) = trim cs := by
  have hback : ∀ us : List Char, ∀ c ∈ (trimRight us).getLast?, isBlank c = false := by
    intro us c hc
    rw [trimRight, List.getLast?_reverse] at hc
    have hnot := List.head?_dropWhile_not isBlank us.reverse
    rw [Option.mem_def.mp hc] at hnot
    simpa using hnot
  refine trim_eq_self (fun c hc => ?_) (hback _)
  -- the last blanks are dropped after the first ones, and leave the first character alone
  have hstart : trim cs <+: cs.dropWhile isBlank := by
    rw [trim, trimRight, ← List.reverse_suffix, List.reverse_reverse]
    exact List.dropWhile_suffix isBlank
  have hfirst : (cs.dropWhile isBlank).head? = some c := by
    obtain ⟨rest, hrest⟩ := hstart
    rw [← hrest, List.head?_append, Option.mem_def.mp hc]
    rfl
  have hnot := List.head?_dropWhile_not isBlank cs
  rw [hfirst] at hnot
  simpa using hnot

/-- The characters of a trimmed text are characters of the text. -/
theorem mem_of_mem_trim {c : Char} {cs : List Char} (h : c ∈ trim cs) : c ∈ cs := by
  rw [trim, trimRight, List.mem_reverse] at h
  have hmem := (List.dropWhile_suffix isBlank).mem h
  exact (List.dropWhile_suffix isBlank).mem (List.mem_reverse.mp hmem)

/-- What was trimmed ends in no blank. -/
theorem getLast?_of_trim {cs : List Char} (h : trim cs = cs) :
    ∀ c ∈ cs.getLast?, isBlank c = false := by
  intro c hc
  rw [← h, trim, trimRight, List.getLast?_reverse] at hc
  have hnot := List.head?_dropWhile_not isBlank (cs.dropWhile isBlank).reverse
  rw [Option.mem_def.mp hc] at hnot
  simpa using hnot

end Mgol.Text
