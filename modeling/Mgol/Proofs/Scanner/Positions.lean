import Mgol.Proofs.Scanner.Coverage
import Mgol.Proofs.Scanner.Pushback
import Mgol.Proofs.Text.Lines

/-! # Places in a source

A place is kept up byte by byte: reads move it on, and giving a byte back sets it back. Every place
that a scanner tells of is the one that its offset has in the source, with the line feeds before it
and the bytes behind the last of them. In a text it is where the line is found that is shown to
people, and at the end it is the number of lines that is counted in a file.

* **`Position.ofOffset`, `Position.OfSource`** — the place of an offset.
* **`Scanner.Tracks`, `Scanner.Tracks.scan`** — a scanner that is at its place in a source, and
  stays so with every scan.
* **`Scanner.Tracks.line`, `Scanner.Tracks.ended`** — what stands at the place of a token.
* **`Position.OfSource.fits`, `Scanner.places_fit`** — places that can be kept in 32 bits.
* **`positions_coherent`** — the places of repeated scans. -/

namespace Mgol

namespace Position

/-- **The place of an offset**: one line more than there are line feeds before it, and one column
more than there are bytes behind the last of them. -/
def ofOffset (source : List UInt8) (n : Nat) : Position :=
  ⟨n, 1 + (source.take n).count 10, 1 + Text.sinceFeed (source.take n)⟩

/-- **A place of a source** is the place of its offset. -/
def OfSource (source : List UInt8) (p : Position) : Prop :=
  p.offset ≤ source.length ∧ p = ofOffset source p.offset

/-- The place behind some bytes. -/
theorem advanceAll_start (bytes : List UInt8) :
    start.advanceAll bytes = ⟨bytes.length, 1 + bytes.count 10, 1 + Text.sinceFeed bytes⟩ := by
  induction bytes using List.reverseRecOn with
  | nil => rfl
  | append_singleton bytes b ih =>
    rw [advanceAll_append, ih, advanceAll_cons, advanceAll_nil, Text.sinceFeed_concat, advance,
      List.length_append, List.length_singleton, List.count_append, List.count_singleton]
    by_cases hb : b = 10
    · rw [if_pos hb, if_pos hb, if_pos (by simpa using hb)]
      simp only [Nat.add_assoc, Nat.add_zero]
    · rw [if_neg hb, if_neg hb, if_neg (by simpa using hb)]
      simp only [Nat.add_assoc, Nat.add_zero]

/-- **What was read of a source leads to a place of it.** -/
theorem ofSource_advanceAll (read rest : List UInt8) :
    (start.advanceAll read).OfSource (read ++ rest) := by
  rw [advanceAll_start]
  refine ⟨?_, ?_⟩
  · rw [List.length_append]
    exact Nat.le_add_right _ _
  · rw [ofOffset, List.take_left]

/-- **Lines and columns fit into 32 bits**, if the bytes of the source and one more can be counted
in them. -/
theorem OfSource.fits {source : List UInt8} {p : Position} (h : p.OfSource source)
    (hsize : source.length + 1 < 2 ^ 32) : p.line < 2 ^ 32 ∧ p.column < 2 ^ 32 := by
  -- neither feeds nor the bytes behind the last of them are more than what was read
  have hread : (source.take p.offset).length ≤ source.length := List.length_take_le' _ _
  have hfeeds : (source.take p.offset).count 10 ≤ (source.take p.offset).length :=
    List.count_le_length
  have hbehind : Text.sinceFeed (source.take p.offset) ≤ (source.take p.offset).length := by
    rw [Text.sinceFeed]
    exact (List.takeWhile_sublist _).length_le.trans_eq List.length_reverse
  rw [h.2]
  constructor
  · show 1 + (source.take p.offset).count 10 < 2 ^ 32
    omega
  · show 1 + Text.sinceFeed (source.take p.offset) < 2 ^ 32
    omega

end Position

/-- A file that is read is not too large. -/
theorem SourceFile.size_le_of_ofPath {d : Disk} {p : FilePreferences} {path : String}
    {f : SourceFile} (h : ofPath d p path = .ok f) : f.size ≤ Limits.fileSize := by
  unfold ofPath at h
  split at h
  · cases h
  · next name content _ =>
    simp only at h
    split at h
    · cases h
    · next hshape =>
      split at h
      · cases h
      · obtain rfl := Except.ok.inj h
        unfold shapeError? at hshape
        split at hshape
        · cases hshape
        · next hsize => exact Nat.le_of_not_lt hsize

/-- A result whose places are places of a source, and whose span does not end before it starts. -/
def OutcomeOfSource (source : List UInt8) : Except LexicalError (Spanned Token) → Prop
  | .ok t => t.span.start.OfSource source ∧ t.span.stop.OfSource source ∧
      t.span.start.offset ≤ t.span.stop.offset
  | .error (.sourceRead _ p) => p.OfSource source
  | .error _ => True

/-- What is reported of a sight is reported where it starts. -/
theorem Sight.position_of_mem_reports {sight : Sight} {start : Position} {d : Diagnostic}
    (h : d ∈ sight.reports start) : d.position = start := by
  cases sight with
  | fault f bytes =>
    rw [reports, List.mem_singleton] at h
    rw [h]
  | broken | ended | word => exact absurd h List.not_mem_nil

namespace Scanner

/-- **A scanner is at its place in a source**: behind what was read of it, with what it has reported
at places of the source. -/
structure Tracks (source : List UInt8) (s : Scanner) : Prop where
  read : ∃ read, source = read ++ s.input.bytes ∧ s.position = Position.start.advanceAll read
  told : ∀ d ∈ s.diagnostics, d.position.OfSource source

variable {source : List UInt8} {s s' : Scanner} {t : Spanned Token}

/-- A scanner is at its place at the start of its source. -/
theorem tracks_ofInput (input : Input) (l : Lexicon) (session : Session) (options : ScanOptions) :
    (ofInput input l session options).Tracks input.bytes where
  read := ⟨[], rfl, rfl⟩
  told := fun d hd => absurd hd (Array.not_mem_empty d)

/-- **Where a scan stops that hands out nothing**: at the limit it does not move, and where the
source breaks off it stands at the place that it tells of. -/
theorem place_of_error {e : LexicalError} (h : s.scan = (.error e, s')) :
    s'.lexicon = s.lexicon ∧ s'.input.failure = s.input.failure ∧ s'.registry = s.registry ∧
      s'.diagnostics = s.diagnostics ∧ ∃ read,
        s.input.bytes = read ++ s'.input.bytes ∧ s'.position = s.position.advanceAll read ∧
        ∀ message p, e = .sourceRead message p → p = s'.position := by
  by_cases hlimit : Limits.tokenCount ≤ s.metrics.tokens
  · rw [scan, if_pos hlimit] at h
    cases h
    exact ⟨rfl, rfl, rfl, rfl, [], rfl, rfl, fun _ _ he => by cases he⟩
  · obtain ⟨sight, gap, r, after, hbytes, hview⟩ := exists_view s.lexicon s.input
    have hglance := hview s rfl rfl
    rw [scan_eq_count hlimit, scanToken_eq, hglance] at h
    cases sight with
    | broken message =>
      cases h
      refine ⟨rfl, rfl, rfl, rfl, gap ++ r, ?_, rfl, fun _ _ he => by cases he; rfl⟩
      rw [List.append_assoc]
      exact hbytes
    | ended => cases h
    | fault f bytes => cases h
    | word w =>
      simp only [tell] at h
      by_cases hkind : w.kind = .identifier
      · rw [acceptToken_of_identifier hkind] at h
        cases h
      · rw [acceptToken_of_other hkind] at h
        cases h

/-- **Every scan keeps a scanner at its place**, and what it finds lies at places of the source. -/
theorem Tracks.scan (h : s.Tracks source) :
    OutcomeOfSource source s.scan.1 ∧ s.scan.2.Tracks source := by
  obtain ⟨read, hsource, hposition⟩ := h.read
  rcases hscan : s.scan with ⟨⟨e⟩ | ⟨t⟩, s'⟩
  · obtain ⟨-, -, -, htold, more, hbytes, hplace, hbroken⟩ := place_of_error hscan
    rw [hposition, ← Position.advanceAll_append] at hplace
    have hread : source = (read ++ more) ++ s'.input.bytes := by
      rw [hsource, hbytes, List.append_assoc]
    refine ⟨?_, ⟨⟨_, hread, hplace⟩, by rw [htold]; exact h.told⟩⟩
    cases e with
    | sourceRead message p =>
      rw [hbroken message p rfl, hplace, hread]
      exact Position.ofSource_advanceAll _ _
    | tokenLimit | automaton => trivial
  · obtain ⟨gap, r, hinput, hspan, hplace⟩ := place_of_scan hscan
    have hbytes : s.input.bytes = gap ++ (r ++ s'.input.bytes) := by rw [hinput]
    rw [hposition, ← Position.advanceAll_append] at hplace hspan
    have hread : source = (read ++ (gap ++ r)) ++ s'.input.bytes := by
      rw [hsource, hbytes, List.append_assoc, List.append_assoc]
    have hstart : t.span.start.OfSource source := by
      rw [hspan, hsource, hbytes, ← List.append_assoc]
      exact Position.ofSource_advanceAll _ _
    have hstop : s'.position.OfSource source := by
      rw [hplace, hread]
      exact Position.ofSource_advanceAll _ _
    obtain ⟨hglance, htold⟩ := span_of_scan hscan
    refine ⟨⟨hstart, ?_, ?_⟩, ⟨_, hread, hplace⟩, ?_⟩
    · rw [hspan]
      exact hstop
    · rw [hspan, hplace]
      simp only [Position.offset_advanceAll, List.length_append]
      omega
    · intro d hd
      rw [← Array.mem_toList_iff, htold, List.mem_append] at hd
      rcases hd with hd | hd
      · exact h.told d (Array.mem_toList_iff.mp hd)
      · rw [Sight.position_of_mem_reports hd]
        rw [hglance] at hstart
        exact hstart

/-- **What every scan keeps holds after repeated scans**, and before each of their results. -/
theorem outcomes_induction (Inv : Scanner → Prop) (hscan : ∀ s, Inv s → Inv s.scan.2) (n : Nat)
    (h : Inv s) :
    Inv (s.outcomes n).2 ∧ ∀ x ∈ (s.outcomes n).1, ∃ s', Inv s' ∧ s'.scan.1 = x := by
  induction n generalizing s with
  | zero => exact ⟨h, fun x hx => absurd hx List.not_mem_nil⟩
  | succ n ih =>
    obtain ⟨hlast, hrest⟩ := ih (hscan s h)
    exact ⟨hlast, List.forall_mem_cons.mpr ⟨⟨s, h, rfl⟩, hrest⟩⟩

/-! ## What stands at the place of a token -/

/-- **What a token begins with**: a byte that is no separator, unless nothing is left and the token
is the end of the file. -/
theorem first_of_scan (h : s.scan = (.ok t, s')) :
    ∃ gap rest, s.input.bytes = gap ++ rest ∧ Unblank rest ∧
      t.span.start = s.position.advanceAll gap ∧
      (rest = [] → t.value = .endOfFile ∧ s'.registry = s.registry) ∧
      (t.value.isEndOfFile = false → t.span.start.offset < t.span.stop.offset) := by
  obtain ⟨gap, rest, hbytes, hgap, hrest⟩ := exists_gap s.input.bytes
  have hglance : s.glance =
      s.lexicon.glance s.input.failure (s.position.advanceAll gap) rest := by
    rw [glance, hbytes, skipSeparators_append s.position hgap hrest]
  have hs := scanned_of_scan h
  have hspan := (span_of_scan h).1
  have hhanded := hs.handed
  refine ⟨gap, rest, hbytes, hrest, ?_, ?_, ?_⟩
  · rw [hspan, hglance]
    exact (s.lexicon.glance_progress _ _ _).1
  · rintro rfl
    rw [hglance] at hhanded
    generalize t.value = value, s'.registry = entries at hhanded ⊢
    generalize s.registry = before at hhanded ⊢
    cases hfailure : s.input.failure with
    | none =>
      rw [hfailure] at hhanded
      cases hhanded
      exact ⟨rfl, rfl⟩
    | some message =>
      rw [hfailure] at hhanded
      cases hhanded
  · intro hmore
    have hprogress := s.glance_progress.2.2
    rw [hspan]
    generalize s.glance.sight = sight at hhanded hprogress
    generalize t.value = value, s'.registry = entries at hhanded hmore
    cases hhanded with
    | ended => cases hmore
    | fault | name | word => exact hprogress

/-- **The first byte of a token in its line**: it is found in the line of the text that the place
tells, at the column that it tells. -/
theorem Tracks.line {text : String} (h : s.Tracks (Text.encode text))
    (hscan : s.scan = (.ok t, s')) (hmore : t.value.isEndOfFile = false) :
    ∃ line b, (SourceLines.ofText text).line? t.span.start.line = some line ∧
      (Text.encode line)[t.span.start.column - 1]? = some b ∧
      (Text.encode text)[t.span.start.offset]? = some b ∧
      t.span.start.offset < t.span.stop.offset := by
  obtain ⟨read, hsource, hposition⟩ := h.read
  obtain ⟨gap, rest, hbytes, hunblank, hstart, hend, hlong⟩ := first_of_scan hscan
  cases rest with
  | nil =>
    rw [(hend rfl).1] at hmore
    cases hmore
  | cons b rest =>
    have hblank : isSeparator b = false := hunblank b rfl
    have hfeed : b ≠ 10 := by
      rintro rfl
      cases hblank
    have hreturn : b ≠ 13 := by
      rintro rfl
      cases hblank
    have htext : Text.encode text = (read ++ gap) ++ b :: rest := by
      rw [hsource, hbytes, List.append_assoc]
    obtain ⟨line, hline, hbyte⟩ := Text.exists_line hfeed hreturn htext
    have hplace := hlong hmore
    rw [hposition, ← Position.advanceAll_append, Position.advanceAll_start] at hstart
    rw [hstart] at hplace ⊢
    refine ⟨line, b, hline, ?_, ?_, hplace⟩
    · rw [Nat.add_sub_cancel_left]
      exact hbyte
    · rw [htext, List.getElem?_append_right (Nat.le_refl _), Nat.sub_self]
      rfl

/-- **The end of a text in its lines**: it is the last line that is counted in a file, or the one
behind it where no byte stands in that. -/
theorem Tracks.ended {text : String} (h : s.Tracks (Text.encode text))
    (hscan : s.scan = (.ok t, s')) (hplace : t.span.start.offset = text.utf8ByteSize) :
    t.value = .endOfFile ∧
      t.span.start.line =
        if text ≠ "" ∧ text.toList.getLast? ≠ some '\n' then SourceFile.countLines text.toUTF8
        else SourceFile.countLines text.toUTF8 + 1 := by
  obtain ⟨read, hsource, hposition⟩ := h.read
  obtain ⟨gap, rest, hbytes, -, hstart, hend, -⟩ := first_of_scan hscan
  rw [hposition, ← Position.advanceAll_append, Position.advanceAll_start] at hstart
  have htext : Text.encode text = (read ++ gap) ++ rest := by
    rw [hsource, hbytes, List.append_assoc]
  obtain rfl : rest = [] := by
    have hlength : (read ++ gap).length = (read ++ gap).length + rest.length := by
      rw [← List.length_append, ← htext, Text.length_encode, ← hplace, hstart]
    exact List.length_eq_zero_iff.mp (by omega)
  rw [List.append_nil] at htext
  refine ⟨(hend rfl).1, ?_⟩
  rw [hstart, ← htext, Text.countLines_toUTF8]
  split
  · exact Nat.add_comm _ _
  · exact Nat.add_comm _ _

/-- A scanner of a source that does not break off, with a lexicon and names that are not the end of
the file. -/
structure Endless (s : Scanner) : Prop where
  readable : s.input.failure = none
  lexicon : s.lexicon.Endless
  registry : s.registry.Endless

/-- **Only where nothing is left is the end of the file handed out.** -/
theorem Endless.scan (h : s.Endless) (hscan : s.scan = (.ok t, s')) :
    s'.Endless ∧ (t.value.isEndOfFile = true → s'.input.bytes = [] ∧
      t.span.start = s.position.advanceAll s.input.bytes) := by
  have hs := scanned_of_scan hscan
  obtain ⟨gap, rest, hbytes, hgap, hrest⟩ := exists_gap s.input.bytes
  have hglance : s.glance = s.lexicon.glance none (s.position.advanceAll gap) rest := by
    rw [glance, hbytes, skipSeparators_append s.position hgap hrest, h.readable]
  have hreadable : s'.input.failure = none := by
    rw [hs.input_eq]
    exact h.readable
  have hhanded := hs.handed.hand_eq
  have hlexicon : s'.lexicon.Endless := by
    rw [hs.lexicon_eq]
    exact h.lexicon
  by_cases hempty : rest = []
  · subst hempty
    rw [hglance] at hhanded
    obtain ⟨-, hregistry⟩ := Prod.mk.inj hhanded
    refine ⟨⟨hreadable, hlexicon, by rw [← hregistry]; exact h.registry⟩, fun _ => ⟨?_, ?_⟩⟩
    · rw [hs.input_eq, hglance]
      rfl
    · rw [hs.start_eq, hglance, hbytes, List.append_nil]
      rfl
  · obtain ⟨r, after, sight, rfl, hread⟩ := s.lexicon.exists_reads hempty
    have hhand : sight.hand s.registry = (t.value, s'.registry) := by
      rw [hglance, Lexicon.glance_of_reads hread] at hhanded
      exact hhanded
    obtain ⟨hkind, hentries⟩ := hread.endless h.lexicon h.registry
    rw [hhand] at hkind hentries
    refine ⟨⟨hreadable, hlexicon, hentries⟩, fun hend => absurd ?_ hkind⟩
    rw [of_decide_eq_true hend]
    rfl

/-- Every scan leaves such a scanner. -/
theorem Endless.next (h : s.Endless) : s.scan.2.Endless := by
  rcases hscan : s.scan with ⟨⟨e⟩ | ⟨t⟩, s'⟩
  · obtain ⟨hlexicon, hreadable, hregistry, -⟩ := place_of_error hscan
    exact
      { readable := hreadable.trans h.readable
        lexicon := by rw [hlexicon]; exact h.lexicon
        registry := by rw [hregistry]; exact h.registry }
  · exact (h.scan hscan).1

end Scanner

/-- **Every place that repeated scans tell of is a place of the source.** -/
theorem Scanner.outcomes_ofSource (input : Input) (l : Lexicon) (session : Session)
    (options : ScanOptions) (n : Nat) :
    (∀ x ∈ ((ofInput input l session options).outcomes n).1, OutcomeOfSource input.bytes x) ∧
    ∀ d ∈ ((ofInput input l session options).outcomes n).2.diagnostics,
      d.position.OfSource input.bytes := by
  obtain ⟨hlast, houtcomes⟩ := outcomes_induction (·.Tracks input.bytes) (fun s h => h.scan.2) n
    (tracks_ofInput input l session options)
  refine ⟨fun x hx => ?_, hlast.told⟩
  obtain ⟨s', htracks, rfl⟩ := houtcomes x hx
  exact htracks.scan.1

/-- **All places in a source file fit into 32 bits**, since files are small enough. -/
theorem Scanner.places_fit {d : Disk} {p : FilePreferences} {path : String} {f : SourceFile}
    (hfile : SourceFile.ofPath d p path = .ok f) (l : Lexicon) (session : Session)
    (options : ScanOptions) (n : Nat) :
    let s := ofInput ⟨f.content.toList, none⟩ l session options
    (∀ t, .ok t ∈ (s.outcomes n).1 →
      t.span.start.line < 2 ^ 32 ∧ t.span.start.column < 2 ^ 32 ∧
        t.span.stop.line < 2 ^ 32 ∧ t.span.stop.column < 2 ^ 32) ∧
    ∀ d ∈ (s.outcomes n).2.diagnostics, d.position.line < 2 ^ 32 ∧ d.position.column < 2 ^ 32 := by
  have hsize : f.content.toList.length + 1 < 2 ^ 32 := by
    have hle := SourceFile.size_le_of_ofPath hfile
    have hlimit : Limits.fileSize + 1 < 2 ^ 32 := by decide
    rw [Text.toList_eq_data]
    exact Nat.lt_of_le_of_lt (Nat.succ_le_succ hle) hlimit
  obtain ⟨houtcomes, htold⟩ := outcomes_ofSource ⟨f.content.toList, none⟩ l session options n
  refine ⟨fun t ht => ?_, fun d hd => (htold d hd).fits hsize⟩
  obtain ⟨hstart, hstop, -⟩ := houtcomes (.ok t) ht
  exact ⟨(hstart.fits hsize).1, (hstart.fits hsize).2, (hstop.fits hsize).1, (hstop.fits hsize).2⟩

/-- **Places are coherent everywhere.** Scanning byte by byte, with room for one byte to be given
back, never lacks that room and never gives a span that ends before it starts, and it finds what the
scanner finds. All places that repeated scans tell of, in spans, in diagnostics and where the source
breaks off, are those that their offsets have in the source. In a text, a token that is not the end
of the file has its first byte where line and column say; the end of the text lies in the last line
that is counted in a file, or in the one behind it if the text is empty or ends in a line feed. It
is there that the end of the file is handed out, and nowhere else if nothing else can be taken for
it. -/
theorem positions_coherent (input : Input) (l : Lexicon) (session : Session)
    (options : ScanOptions) (n : Nat) :
    let s := Scanner.ofInput input l session options
    s.outcomesByBytes n (.ofInput input) = some (s.outcomes n) ∧
    (∀ t, .ok t ∈ (s.outcomes n).1 → t.span.start.OfSource input.bytes ∧
      t.span.stop.OfSource input.bytes ∧ t.span.start.offset ≤ t.span.stop.offset) ∧
    (∀ message p, .error (.sourceRead message p) ∈ (s.outcomes n).1 → p.OfSource input.bytes) ∧
    (∀ d ∈ (s.outcomes n).2.diagnostics, d.position.OfSource input.bytes) ∧
    ∀ text, input = ⟨Text.encode text, none⟩ → ∀ t, .ok t ∈ (s.outcomes n).1 →
      (t.value.isEndOfFile = false →
        ∃ line b, (SourceLines.ofText text).line? t.span.start.line = some line ∧
          (Text.encode line)[t.span.start.column - 1]? = some b ∧
          (Text.encode text)[t.span.start.offset]? = some b ∧
          t.span.start.offset < t.span.stop.offset) ∧
      (t.span.start.offset = text.utf8ByteSize → t.value = .endOfFile ∧
        t.span.start.line =
          if text ≠ "" ∧ text.toList.getLast? ≠ some '\n' then SourceFile.countLines text.toUTF8
          else SourceFile.countLines text.toUTF8 + 1) ∧
      (l.Endless → session.registry.Endless → t.value.isEndOfFile = true →
        t.span.start.offset = text.utf8ByteSize) := by
  intro s
  obtain ⟨hplaces, htold⟩ := Scanner.outcomes_ofSource input l session options n
  refine ⟨Scanner.outcomesByBytes_eq (Scanner.besideReader_ofInput input l session options) n,
    fun t ht => hplaces _ ht, fun message p he => hplaces _ he, htold, ?_⟩
  rintro text rfl t ht
  obtain ⟨-, houtcomes⟩ := Scanner.outcomes_induction (·.Tracks (Text.encode text))
    (fun s h => h.scan.2) n (Scanner.tracks_ofInput ⟨Text.encode text, none⟩ l session options)
  refine ⟨?_, ?_, ?_⟩
  · intro hmore
    obtain ⟨s', htracks, hscan⟩ := houtcomes _ ht
    exact htracks.line (Prod.ext hscan rfl) hmore
  · intro hplace
    obtain ⟨s', htracks, hscan⟩ := houtcomes _ ht
    exact htracks.ended (Prod.ext hscan rfl) hplace
  · intro hl hr hend
    obtain ⟨-, hendless⟩ := Scanner.outcomes_induction
      (fun s => s.Tracks (Text.encode text) ∧ s.Endless) (fun s h => ⟨h.1.scan.2, h.2.next⟩) n
      ⟨Scanner.tracks_ofInput ⟨Text.encode text, none⟩ l session options, rfl, hl, hr⟩
    obtain ⟨s', ⟨htracks, hs'⟩, hscan⟩ := hendless _ ht
    obtain ⟨read, hsource, hposition⟩ := htracks.read
    obtain ⟨-, hplace⟩ := (hs'.scan (Prod.ext hscan rfl)).2 hend
    rw [hplace, hposition, ← Position.advanceAll_append, ← hsource, Position.advanceAll_start,
      Text.length_encode]

/-- Behind a carriage return and a line feed, a character that is no word: its first byte is found
at the beginning of the second line, in which the end of the file lies too. -/
theorem positions_coherent_returned :
    let s := Scanner.ofInput ⟨Text.encode "a\r\né", none⟩
    s.outcomesByBytes 3 (.ofInput ⟨Text.encode "a\r\né", none⟩) = some (s.outcomes 3) ∧
    ∃ t u e, (s.outcomes 3).1 = [.ok t, .ok u, .ok e] ∧
      t.span.start = ⟨0, 1, 1⟩ ∧ u.span.start = ⟨3, 2, 1⟩ ∧ e.span.start = ⟨5, 2, 3⟩ ∧
      (∃ line b, (SourceLines.ofText "a\r\né").line? 2 = some line ∧
        (Text.encode line)[0]? = some b ∧ (Text.encode "a\r\né")[3]? = some b) ∧
      SourceFile.countLines "a\r\né".toUTF8 = 2 := by
  intro s
  obtain ⟨hbytes, -, -, -, htext⟩ :=
    positions_coherent ⟨Text.encode "a\r\né", none⟩ .mgol {} {} 3
  refine ⟨hbytes, ?_⟩
  have hplaces : (s.outcomes 3).1.map (fun x => x.toOption.map fun t =>
      (t.value.isEndOfFile, t.span.start)) =
        [some (false, ⟨0, 1, 1⟩), some (false, ⟨3, 2, 1⟩), some (true, ⟨5, 2, 3⟩)] := by
    decide +kernel
  have htokens := htext "a\r\né" rfl
  change ∀ t, .ok t ∈ (s.outcomes 3).1 → _ at htokens
  generalize (s.outcomes 3).1 = found at hplaces htokens ⊢
  obtain ⟨x, y, z, rfl⟩ := List.length_eq_three.mp (by simpa using congrArg List.length hplaces)
  obtain ⟨hx, hplaces⟩ := List.cons.inj hplaces
  obtain ⟨hy, hplaces⟩ := List.cons.inj hplaces
  obtain ⟨hz, -⟩ := List.cons.inj hplaces
  rcases x with e | t
  · cases hx
  rcases y with e | u
  · cases hy
  rcases z with e | e
  · cases hz
  obtain ⟨-, ht⟩ := Prod.mk.inj (Option.some.inj hx)
  obtain ⟨hmore, hu⟩ := Prod.mk.inj (Option.some.inj hy)
  obtain ⟨-, he⟩ := Prod.mk.inj (Option.some.inj hz)
  refine ⟨t, u, e, rfl, ht, hu, he, ?_, ?_⟩
  · obtain ⟨line, b, hline, hbyte, hfirst, -⟩ := (htokens u (by simp)).1 hmore
    rw [hu] at hline hbyte hfirst
    exact ⟨line, b, hline, hbyte, hfirst⟩
  · have hsize : e.span.start.offset = "a\r\né".utf8ByteSize := by
      rw [he]
      decide +kernel
    obtain ⟨-, hline⟩ := (htokens e (by simp)).2.1 hsize
    rw [if_pos (by decide +kernel), he] at hline
    exact hline.symm

end Mgol
