import Mgol.Proofs.Scanner.Reference
import Mgol.Proofs.Semantics.Alike

/-! # Sources with the same visible words

Comments, errors and separators are passed over by the search for the next visible token. So two
scanners that have the same visible words ahead find the same tokens, in places that are ordered in
the same way.

* **`Scanner.Stream`, `seenOf`** — all tokens of a source, and those that the grammar can see.
* **`visiblePieces`, `Scanner.Faces.nextVisible`** — the next visible token is the first visible
  piece.
* **`Scanner.Twins`, `Scanner.Twins.nextVisible`** — scanners with the same visible words ahead.
* **`SameRank`, `Scanner.twins_of_streams`** — sources with the same visible tokens have twins for
  scanners. -/

namespace Mgol

/-! ## Streams -/

/-- The tokens that the grammar can see. -/
def seenOf (tokens : List (Spanned Token)) : List Token :=
  (tokens.map Spanned.value).filter fun t => !t.kind.isIgnorable

namespace Scanner

/-- **All tokens of a source**, up to the end of the file, whatever the limit. -/
inductive Stream : Scanner → List (Spanned Token) → Prop
  | last {s s' : Scanner} {t : Spanned Token} (scanned : s.scanToken = (.ok t, s'))
      (ended : t.value.isEndOfFile = true) : Stream s [t]
  | more {s s' : Scanner} {t : Spanned Token} {tokens : List (Spanned Token)}
      (scanned : s.scanToken = (.ok t, s')) (going : t.value.isEndOfFile = false)
      (rest : Stream s' tokens) : Stream s (t :: tokens)

variable {s s' : Scanner} {t : Spanned Token} {x : Piece} {pieces : List Piece}

/-- The next token is that of the first piece ahead. -/
theorem Faces.scanToken (h : s.Faces (x :: pieces)) :
    ∃ t s', s.scanToken = (.ok t, s') ∧ t.value = (x.sight.hand s.registry).1 ∧
      s'.registry = (x.sight.hand s.registry).2 ∧ s'.Faces pieces := by
  obtain ⟨after, hglance, hcuts, -⟩ := h.glance_eq
  rcases s.scanToken_cases with ⟨message, p, s', hsight, -⟩ | ⟨t, s', hscan, -, hlexicon, hinput,
    hposition, -, hhanded, -⟩
  · exact absurd hsight (h.unbroken message)
  · have hhand := hhanded.hand_eq
    rw [hglance] at hhand
    refine ⟨t, s', hscan, by rw [hhand], by rw [hhand], ?_, ?_⟩
    · rw [hinput]
      exact h.readable
    · rw [hlexicon, hposition, hinput, hglance]
      exact hcuts

/-- The next token is the end of the file if no piece is ahead. -/
theorem Faces.scanToken_nil (h : s.Faces []) :
    ∃ t s', s.scanToken = (.ok t, s') ∧ t.value = .endOfFile := by
  rw [scanToken_eq, h.glance_nil]
  exact ⟨_, _, rfl, rfl⟩

/-- **The tokens of a stream are those of the pieces ahead** and the end of the file, if none of
them looks like the end of the file. -/
theorem Stream.values_eq {tokens : List (Spanned Token)} (h : s.Stream tokens)
    (hfaces : s.Faces pieces)
    (hmore : ∀ t ∈ tokensOf s.registry pieces, t.value.isEndOfFile = false) :
    tokens.map Spanned.value =
      (tokensOf s.registry pieces).map Spanned.value ++ [.endOfFile] := by
  induction h generalizing pieces with
  | last scanned ended =>
    cases pieces with
    | nil =>
      obtain ⟨t', s'', hscan, hvalue⟩ := hfaces.scanToken_nil
      cases hscan.symm.trans scanned
      simp [hvalue, tokensOf]
    | cons x pieces =>
      obtain ⟨t', s'', hscan, hvalue, -, -⟩ := hfaces.scanToken
      cases hscan.symm.trans scanned
      have hgoing := hmore _ List.mem_cons_self
      simp only [Piece.token, ← hvalue, ended] at hgoing
      cases hgoing
  | more scanned going rest ih =>
    cases pieces with
    | nil =>
      obtain ⟨t', s'', hscan, hvalue⟩ := hfaces.scanToken_nil
      cases hscan.symm.trans scanned
      rw [hvalue] at going
      cases going
    | cons x pieces =>
      obtain ⟨t', s'', hscan, hvalue, hregistry, hrest⟩ := hfaces.scanToken
      cases hscan.symm.trans scanned
      rw [tokensOf] at hmore
      rw [← hregistry] at hmore
      rw [List.map_cons, ih hrest fun t ht => hmore t (List.mem_cons_of_mem _ ht), tokensOf,
        List.map_cons, List.cons_append, hvalue, hregistry]
      rfl

/-- **Every source that can be read has a stream**, if no piece looks like the end of the file. -/
theorem Faces.exists_stream (h : s.Faces pieces)
    (hmore : ∀ t ∈ tokensOf s.registry pieces, t.value.isEndOfFile = false) :
    ∃ tokens, s.Stream tokens := by
  induction pieces generalizing s with
  | nil =>
    obtain ⟨t, s', hscan, hvalue⟩ := h.scanToken_nil
    exact ⟨[t], .last hscan (by rw [hvalue]; rfl)⟩
  | cons x pieces ih =>
    obtain ⟨t, s', hscan, hvalue, hregistry, hrest⟩ := h.scanToken
    rw [tokensOf, ← hregistry] at hmore
    obtain ⟨hfirst, hmore⟩ := List.forall_mem_cons.mp hmore
    obtain ⟨tokens, htokens⟩ := ih hrest hmore
    refine ⟨t :: tokens, .more hscan ?_ htokens⟩
    rw [hvalue]
    exact hfirst

end Scanner

/-! ## Visible pieces -/

/-- Whether the grammar can see what is handed out for a sight. -/
def Sight.isVisible : Sight → Bool
  | .fault _ _ => false
  | .word w => !w.kind.isIgnorable
  | .broken _ | .ended => true

/-- The pieces that the grammar can see. -/
def visiblePieces (pieces : List Piece) : List Piece := pieces.filter fun x => x.sight.isVisible

/-- A piece that the grammar cannot see is left out. -/
theorem visiblePieces_cons_of_hidden {x : Piece} (h : x.sight.isVisible = false)
    (pieces : List Piece) : visiblePieces (x :: pieces) = visiblePieces pieces :=
  List.filter_cons_of_neg (by simpa using h)

/-- A piece that the grammar can see is kept. -/
theorem visiblePieces_cons_of_visible {x : Piece} (h : x.sight.isVisible = true)
    (pieces : List Piece) : visiblePieces (x :: pieces) = x :: visiblePieces pieces :=
  List.filter_cons_of_pos (by simpa using h)

/-- What the grammar cannot see is handed out as such, and changes no entry. -/
theorem Sight.hand_of_hidden {sight : Sight} (h : sight.isVisible = false) (r : Registry) :
    (sight.hand r).1.kind.isIgnorable = true ∧ (sight.hand r).2 = r := by
  cases sight with
  | fault => exact ⟨rfl, rfl⟩
  | word w =>
    have hhidden : w.kind.isIgnorable = true := by simpa [isVisible] using h
    have hkind : w.kind ≠ .identifier := by
      intro hkind
      rw [hkind] at hhidden
      cases hhidden
    rw [hand, if_neg hkind]
    exact ⟨hhidden, rfl⟩
  | broken | ended => cases h

/-- What the grammar can see is handed out as such, from a registry of names and reserved words that
stays so. -/
theorem Sight.hand_of_visible {sight : Sight} (h : sight.isVisible = true) {r : Registry}
    (hr : r.Plain) :
    (sight.hand r).1.kind.isIgnorable = false ∧ (sight.hand r).2.Plain := by
  cases sight with
  | fault => cases h
  | word w =>
    have hvisible : w.kind.isIgnorable = false := by simpa [isVisible] using h
    rw [hand]
    split_ifs with hkind
    · refine ⟨?_, hr.insert (.inl hkind)⟩
      rw [Registry.insert_fst]
      cases hold : r.get? w.lexeme with
      | none => exact hvisible
      | some old =>
        rcases hr _ _ hold with hold | ⟨word, hold, -⟩
        · exact (congrArg TokenClass.isIgnorable hold).trans rfl
        · exact (congrArg TokenClass.isIgnorable hold).trans rfl
    · exact ⟨hvisible, hr⟩
  | broken | ended => exact ⟨rfl, hr⟩

/-! ## The next visible token -/

namespace Scanner

variable {s s' : Scanner} {pieces : List Piece}

/-- **What the search for a visible token comes to**, by the visible pieces ahead. -/
inductive Sees (s : Scanner) : List Piece → Result → Prop
  | limit {visible : List Piece} {n : Nat} {s' : Scanner} :
      Sees s visible (.error (.tokenLimit n), s')
  | ended {s' : Scanner} (faces : s'.Faces []) (registry_eq : s'.registry = s.registry)
      (finish_eq : s'.finish = s.finish) : Sees s [] (.ok (endToken s.finish), s')
  | piece {x : Piece} {rest : List Piece} {s' : Scanner} (faces : s'.Faces rest)
      (registry_eq : s'.registry = (x.sight.hand s.registry).2)
      (finish_eq : s'.finish = s.finish) :
      Sees s (x :: visiblePieces rest) (.ok (x.token s.registry), s')

/-- What is passed over does not matter. -/
theorem Sees.of_hidden {visible : List Piece} {result : Result} (h : s'.Sees visible result)
    (hregistry : s'.registry = s.registry) (hfinish : s'.finish = s.finish) :
    s.Sees visible result := by
  cases h with
  | limit => exact .limit
  | ended faces registry_eq finish_eq =>
    rw [hfinish]
    exact .ended faces (registry_eq.trans hregistry) (finish_eq.trans hfinish)
  | piece faces registry_eq finish_eq =>
    rw [hregistry] at registry_eq ⊢
    exact .piece faces registry_eq (finish_eq.trans hfinish)

/-- At the limit nothing is found. -/
theorem sees_of_limit (hlimit : Limits.tokenCount ≤ s.metrics.tokens) (visible : List Piece) :
    s.Sees visible s.nextVisible := by
  have hnone : s.allowance = 0 := Nat.sub_eq_zero_of_le hlimit
  rw [nextVisible, hnone]
  exact .limit

/-- **The search for a visible token finds the first visible piece**, or the end of the file behind
the last one, unless it hits the limit. -/
theorem Faces.nextVisible (h : s.Faces pieces) (hplain : s.registry.Plain) :
    s.Sees (visiblePieces pieces) s.nextVisible := by
  induction pieces generalizing s with
  | nil =>
    by_cases hlimit : s.metrics.tokens < Limits.tokenCount
    · obtain ⟨s', hscan, hfaces, -, hregistry, -, -, hfinish⟩ := h.scan_nil hlimit
      rw [nextVisible_of_scan hscan, if_neg (by simp [endToken, Token.endOfFile,
        TokenClass.isIgnorable])]
      exact .ended hfaces hregistry hfinish
    · exact sees_of_limit (Nat.not_lt.mp hlimit) _
  | cons x pieces ih =>
    by_cases hlimit : s.metrics.tokens < Limits.tokenCount
    · obtain ⟨s', hscan, hfaces, hpasses⟩ := h.scan hlimit
      have hregistry : s'.registry = (x.sight.hand s.registry).2 := hpasses.registry_eq
      rw [nextVisible_of_scan hscan]
      cases hvisible : x.sight.isVisible with
      | false =>
        -- the piece is passed over
        obtain ⟨hkind, hsame⟩ := Sight.hand_of_hidden hvisible s.registry
        have hhidden : (x.token s.registry).value.kind.isIgnorable = true := hkind
        rw [hsame] at hregistry
        rw [visiblePieces_cons_of_hidden hvisible, if_pos hhidden]
        exact (ih hfaces (by rw [hregistry]; exact hplain)).of_hidden hregistry hpasses.finish_eq
      | true =>
        obtain ⟨hkind, -⟩ := Sight.hand_of_visible hvisible hplain
        have hseen : ¬(x.token s.registry).value.kind.isIgnorable = true :=
          Bool.eq_false_iff.mp hkind
        rw [visiblePieces_cons_of_visible hvisible, if_neg hseen]
        exact .piece hfaces hregistry hpasses.finish_eq
    · exact sees_of_limit (Nat.not_lt.mp hlimit) _

end Scanner

/-! ## Twins -/

variable {R : Position → Position → Prop}

/-- **The same piece in related places.** -/
def Piece.Alike (R : Position → Position → Prop) (x y : Piece) : Prop :=
  y.sight = x.sight ∧ R x.start y.start

/-- **Scanners with the same entries and the same visible pieces ahead**, in related places. -/
structure Scanner.Twins (R : Position → Position → Prop) (s s' : Scanner) : Prop where
  registry_eq : s'.registry = s.registry
  plain : s.registry.Plain
  ahead : ∃ pieces pieces', s.Faces pieces ∧ s'.Faces pieces' ∧
    List.Forall₂ (Piece.Alike R) (visiblePieces pieces) (visiblePieces pieces')
  finish : R s.finish s'.finish

namespace Scanner.Twins

variable {s s' : Scanner}

/-- Sessions may change as long as the entries stay the same. -/
theorem withSession (h : s.Twins R s') {session session' : Session}
    (hregistry : session'.registry = session.registry) (hplain : session.registry.Plain) :
    Twins R { s with session } { s' with session := session' } := by
  obtain ⟨pieces, pieces', hfaces, hfaces', hpieces⟩ := h.ahead
  exact ⟨hregistry, hplain, ⟨pieces, pieces', ⟨hfaces.readable, hfaces.cuts⟩,
    ⟨hfaces'.readable, hfaces'.cuts⟩, hpieces⟩, h.finish⟩

/-- **Twins find the same visible token** in related places, unless one of them hits the limit. -/
theorem nextVisible (h : s.Twins R s') :
    (∃ n u, s.nextVisible = (.error (.tokenLimit n), u)) ∨
      (∃ n u, s'.nextVisible = (.error (.tokenLimit n), u)) ∨
      ∃ t t' u u', s.nextVisible = (.ok t, u) ∧ s'.nextVisible = (.ok t', u') ∧ t.Alike R t' ∧
        u.Twins R u' := by
  obtain ⟨pieces, pieces', hfaces, hfaces', hpieces⟩ := h.ahead
  have hsees := hfaces.nextVisible h.plain
  have hsees' := hfaces'.nextVisible (by rw [h.registry_eq]; exact h.plain)
  have hvisible : ∀ x ∈ visiblePieces pieces, x.sight.isVisible = true := fun x hx =>
    (List.mem_filter.mp hx).2
  generalize s.nextVisible = result, s'.nextVisible = result' at hsees hsees' ⊢
  generalize visiblePieces pieces = visible, visiblePieces pieces' = visible' at *
  cases hsees with
  | limit => exact .inl ⟨_, _, rfl⟩
  | ended faces registry_eq finish_eq =>
    cases hpieces
    cases hsees' with
    | limit => exact .inr (.inl ⟨_, _, rfl⟩)
    | ended faces' registry_eq' finish_eq' =>
      refine .inr (.inr ⟨_, _, _, _, rfl, rfl, ⟨rfl, h.finish⟩, ?_⟩)
      exact
        { registry_eq := by rw [registry_eq', registry_eq, h.registry_eq]
          plain := by rw [registry_eq]; exact h.plain
          ahead := ⟨[], [], faces, faces', .nil⟩
          finish := by rw [finish_eq, finish_eq']; exact h.finish }
  | @piece x rest u faces registry_eq finish_eq =>
    obtain ⟨y, ys, hxy, hrest, rfl⟩ := List.forall₂_cons_left_iff.mp hpieces
    cases hsees' with
    | limit => exact .inr (.inl ⟨_, _, rfl⟩)
    | @piece _ rest' u' faces' registry_eq' finish_eq' =>
      -- the same sight and the same entries, so the same token
      have hhand : y.sight.hand s'.registry = x.sight.hand s.registry := by
        rw [hxy.1, h.registry_eq]
      refine .inr (.inr ⟨_, _, _, _, rfl, rfl, ⟨congrArg Prod.fst hhand, hxy.2⟩, ?_⟩)
      exact
        { registry_eq := by rw [registry_eq', registry_eq, hhand]
          plain := by
            rw [registry_eq]
            exact (Sight.hand_of_visible (hvisible x List.mem_cons_self) h.plain).2
          ahead := ⟨rest, rest', faces, faces', hrest⟩
          finish := by rw [finish_eq, finish_eq']; exact h.finish }

end Scanner.Twins

/-! ## Places in order -/

/-- **Places of the same rank** in two lists. -/
def SameRank (places places' : List Position) (p q : Position) : Prop :=
  ∃ i : Nat, places[i]? = some p ∧ places'[i]? = some q

/-- **Ranks are kept in order** where places are. -/
theorem keepsOrder_sameRank {places places' : List Position}
    (h : places.Pairwise fun p q => p.offset < q.offset)
    (h' : places'.Pairwise fun p q => p.offset < q.offset) :
    KeepsOrder (SameRank places places') := by
  -- the order of offsets is that of ranks, in both lists
  have hrank : ∀ {l : List Position}, (l.Pairwise fun p q => p.offset < q.offset) →
      ∀ {i j : Nat} {p q : Position}, l[i]? = some p → l[j]? = some q →
        (p.offset ≤ q.offset ↔ i ≤ j) := by
    intro l hl i j p q hp hq
    obtain ⟨hi, rfl⟩ := List.getElem?_eq_some_iff.mp hp
    obtain ⟨hj, rfl⟩ := List.getElem?_eq_some_iff.mp hq
    rw [List.pairwise_iff_getElem] at hl
    rcases Nat.lt_trichotomy i j with hij | rfl | hij
    · exact iff_of_true (Nat.le_of_lt (hl i j hi hj hij)) (Nat.le_of_lt hij)
    · exact iff_of_true (Nat.le_refl _) (Nat.le_refl _)
    · exact iff_of_false (Nat.not_le.mpr (hl j i hj hi hij)) (Nat.not_le.mpr hij)
  rintro p q p' q' ⟨i, hp, hq⟩ ⟨j, hp', hq'⟩
  rw [hrank h hp hp', hrank h' hq hq']

/-- Where the visible pieces start, and where the source ends. -/
def placesOf (pieces : List Piece) (finish : Position) : List Position :=
  (visiblePieces pieces).map Piece.start ++ [finish]

/-- **The places of a source are in order.** -/
theorem Scanner.Faces.ordered {s : Scanner} {pieces : List Piece} (h : s.Faces pieces) :
    (placesOf pieces s.finish).Pairwise fun p q => p.offset < q.offset := by
  have hbyte : ∀ x ∈ pieces, x.start.offset < x.stop.offset ∧
      x.stop.offset ≤ s.finish.offset := by
    intro x hx
    obtain ⟨u, v, hbytes, hstart, -, hread⟩ := h.cuts.exists_split hx
    have hlength := List.length_pos_iff.mpr hread.ne_nil
    rw [finish, Lexicon.offset_stop, hstart, hbytes]
    simp only [Position.offset_advanceAll, List.length_append]
    omega
  refine List.pairwise_append.mpr ⟨?_, List.pairwise_singleton _ _, ?_⟩
  · rw [List.pairwise_map]
    refine (h.cuts.ordered.imp_of_mem fun {x y} hx _ hxy => ?_).filter _
    exact (hbyte x hx).1.trans_le hxy
  · intro p hp q hq
    obtain ⟨x, hx, rfl⟩ := List.mem_map.mp hp
    obtain rfl := List.mem_singleton.mp hq
    obtain ⟨hstart, hstop⟩ := hbyte x (List.mem_of_mem_filter hx)
    exact hstart.trans_le hstop

/-! ## Words and their tokens -/

/-- A word and its token have the same lexeme. -/
theorem lexeme_token_word (w : Token) : (Sight.word w).token.lexeme = w.lexeme := by
  rw [Sight.token]
  split_ifs with hkind
  · rw [hkind, TokenClass.tokenOf, if_pos rfl]
    cases hword : Keyword.ofSpelling? w.lexeme with
    | some word => exact Keyword.spelling_of_ofSpelling? hword
    | none => rfl
  · rfl

/-- A word is a name if its token is a name or a reserved word. -/
theorem Lexicon.Reads.kind_eq_identifier_iff {bytes after : List UInt8} {w : Token}
    (h : Lexicon.mgol.Reads bytes after (.word w)) :
    w.kind = .identifier ↔ (Sight.word w).token.kind = .identifier ∨
      ∃ word, (Sight.word w).token.kind = .keyword word := by
  rw [Sight.token]
  split_ifs with hkind
  · rw [hkind, TokenClass.tokenOf, if_pos rfl]
    refine iff_of_true rfl ?_
    cases Keyword.ofSpelling? w.lexeme with
    | some word => exact .inr ⟨word, rfl⟩
    | none => exact .inl rfl
  · refine iff_of_false hkind ?_
    rintro (hname | ⟨word, hword⟩)
    · exact hkind hname
    · exact h.word_spec.1 word hword

/-- **A word that MGol reads is known by its token.** -/
theorem Lexicon.Reads.word_inj {bytes after bytes' after' : List UInt8} {w w' : Token}
    (h : Lexicon.mgol.Reads bytes after (.word w))
    (h' : Lexicon.mgol.Reads bytes' after' (.word w'))
    (htoken : (Sight.word w').token = (Sight.word w).token) : w' = w := by
  have hlexeme : w'.lexeme = w.lexeme := by
    rw [← lexeme_token_word, htoken, lexeme_token_word]
  have hkind : w'.kind = .identifier ↔ w.kind = .identifier := by
    rw [h'.kind_eq_identifier_iff, htoken, h.kind_eq_identifier_iff]
  by_cases hname : w.kind = .identifier
  · have hname' := hkind.mpr hname
    obtain ⟨kind, lexeme, type⟩ := w
    obtain ⟨kind', lexeme', type'⟩ := w'
    have htype : type = .untyped := h.word_spec.2 hname
    have htype' : type' = .untyped := h'.word_spec.2 hname'
    simp only at hname hname' hlexeme
    rw [hname, hname', hlexeme, htype, htype']
  · simpa [Sight.token, hname, mt hkind.mp hname] using htoken

/-! ## Sources with the same visible tokens -/

namespace Scanner

/-- **A scanner of MGol that knows the reserved words** and whose source can be read. -/
structure Fresh (s : Scanner) : Prop where
  lexicon_eq : s.lexicon = .mgol
  registry_eq : s.registry = .reserved
  readable : s.input.failure = none

/-- **A scanner of MGol at the start of some bytes**, with the reserved words. -/
def ofBytes (bytes : List UInt8) (journal : Journal := {}) (options : ScanOptions := {}) :
    Scanner :=
  .ofInput ⟨bytes, none⟩ .mgol ⟨.reserved, journal⟩ options

/-- Such a scanner is fresh. -/
theorem fresh_ofBytes (bytes : List UInt8) (journal : Journal) (options : ScanOptions) :
    (ofBytes bytes journal options).Fresh :=
  ⟨rfl, rfl, rfl⟩

variable {s s' : Scanner} {pieces : List Piece}

/-- A fresh scanner has pieces of MGol ahead. -/
theorem Fresh.exists_faces (h : s.Fresh) :
    ∃ pieces, s.Faces pieces ∧ Lexicon.mgol.Cuts s.position s.input.bytes pieces := by
  obtain ⟨pieces, hcuts⟩ := Lexicon.mgol.exists_cuts s.position s.input.bytes
  exact ⟨pieces, ⟨h.readable, by rw [h.lexicon_eq]; exact hcuts⟩, hcuts⟩

/-- None of them looks like the end of the file. -/
theorem Fresh.endless (h : s.Fresh) (hcuts : Lexicon.mgol.Cuts s.position s.input.bytes pieces) :
    ∀ t ∈ tokensOf s.registry pieces, t.value.isEndOfFile = false := by
  rw [h.registry_eq]
  exact hcuts.endless_tokens Lexicon.endless_mgol Registry.endless_reserved

/-- **Every source that can be read has a stream.** -/
theorem Fresh.exists_stream (h : s.Fresh) : ∃ tokens, s.Stream tokens := by
  obtain ⟨pieces, hfaces, hcuts⟩ := h.exists_faces
  exact hfaces.exists_stream (h.endless hcuts)

/-- **The stream of a short source is what is scanned of it**, in values. -/
theorem Fresh.scanAll_eq {tokens : List (Spanned Token)} (hs : s.Fresh) (h : s.Stream tokens)
    (hlimit : s.metrics.tokens + s.input.bytes.length < Limits.tokenCount) :
    ∃ found, s.scanAll.1 = .ok found ∧
      found.toList.map Spanned.value = tokens.map Spanned.value := by
  obtain ⟨pieces, hfaces, hcuts⟩ := hs.exists_faces
  have hlength : pieces.length ≤ s.input.bytes.length := by
    simpa using (lexes_of_cuts hcuts).length_le
  obtain ⟨s', hscan, -, -⟩ := hfaces.scanAll (by omega) (hs.endless hcuts)
  refine ⟨_, by rw [hscan], ?_⟩
  rw [h.values_eq hfaces (hs.endless hcuts), List.map_append]
  rfl

/-- The grammar can see the token of a sight if it can see the sight. -/
theorem isIgnorable_token {bytes after : List UInt8} {sight : Sight}
    (h : Lexicon.mgol.Reads bytes after sight) :
    sight.token.kind.isIgnorable = !sight.isVisible := by
  rw [← (h.hand_eq Registry.holds_reserved).1]
  cases hvisible : sight.isVisible with
  | false => exact (Sight.hand_of_hidden hvisible _).1
  | true => exact (Sight.hand_of_visible hvisible Registry.plain_reserved).1

/-- **What the grammar can see of a stream** are the tokens of the visible pieces and the end of the
file. -/
theorem Stream.seenOf_eq {tokens : List (Spanned Token)} (h : s.Stream tokens) (hs : s.Fresh)
    (hfaces : s.Faces pieces) (hcuts : Lexicon.mgol.Cuts s.position s.input.bytes pieces) :
    seenOf tokens = (visiblePieces pieces).map (fun x => x.sight.token) ++ [.endOfFile] := by
  have hvalues := h.values_eq hfaces (hs.endless hcuts)
  rw [hs.registry_eq, (tokensOf_eq hcuts Registry.holds_reserved).1, List.map_map,
    List.map_map] at hvalues
  have hvisible : ∀ x ∈ pieces,
      (!x.sight.token.kind.isIgnorable) = x.sight.isVisible := by
    intro x hx
    obtain ⟨_, _, _, _, _, hread⟩ := hcuts.exists_split hx
    rw [isIgnorable_token hread, Bool.not_not]
  rw [seenOf, hvalues, List.filter_append, List.filter_map]
  congr 2
  exact List.filter_congr hvisible

/-- The visible pieces of a source of MGol are words. -/
theorem exists_word_of_visible {p : Position} {bytes : List UInt8} {x : Piece}
    (hcuts : Lexicon.mgol.Cuts p bytes pieces) (hx : x ∈ visiblePieces pieces) :
    ∃ w after, x.sight = .word w ∧ Lexicon.mgol.Reads x.bytes after (.word w) := by
  obtain ⟨hmem, hvisible⟩ := List.mem_filter.mp hx
  obtain ⟨_, after, _, _, _, hread⟩ := hcuts.exists_split hmem
  rcases hread.cases with ⟨f, bytes, hf⟩ | ⟨w, hw⟩
  · rw [hf] at hvisible
    cases hvisible
  · exact ⟨w, after, hw, hw ▸ hread⟩

/-- **Sources with the same visible tokens have twins for scanners.** -/
theorem twins_of_streams {tokens tokens' : List (Spanned Token)} (hs : s.Fresh) (hs' : s'.Fresh)
    (h : s.Stream tokens) (h' : s'.Stream tokens') (hseen : seenOf tokens = seenOf tokens') :
    ∃ R, KeepsOrder R ∧ s.Twins R s' := by
  obtain ⟨pieces, hfaces, hcuts⟩ := hs.exists_faces
  obtain ⟨pieces', hfaces', hcuts'⟩ := hs'.exists_faces
  rw [h.seenOf_eq hs hfaces hcuts, h'.seenOf_eq hs' hfaces' hcuts'] at hseen
  have htokens := List.append_cancel_right hseen
  have hlength : (visiblePieces pieces).length = (visiblePieces pieces').length := by
    simpa using congrArg List.length htokens
  refine ⟨SameRank (placesOf pieces s.finish) (placesOf pieces' s'.finish),
    keepsOrder_sameRank hfaces.ordered hfaces'.ordered, ?_⟩
  refine
    { registry_eq := hs'.registry_eq.trans hs.registry_eq.symm
      plain := by rw [hs.registry_eq]; exact Registry.plain_reserved
      ahead := ⟨pieces, pieces', hfaces, hfaces', List.forall₂_iff_get.mpr ⟨hlength, ?_⟩⟩
      finish := ⟨(visiblePieces pieces).length, by simp [placesOf], by simp [placesOf, hlength]⟩ }
  intro i hi hi'
  simp only [List.get_eq_getElem]
  obtain ⟨w, _, hw, hread⟩ := exists_word_of_visible hcuts (List.getElem_mem hi)
  obtain ⟨w', _, hw', hread'⟩ := exists_word_of_visible hcuts' (List.getElem_mem hi')
  constructor
  · have htoken : (visiblePieces pieces')[i].sight.token =
        (visiblePieces pieces)[i].sight.token := by
      have hget := congrArg (fun l => l[i]?) htokens
      simpa [hi, hi'] using hget.symm
    rw [hw, hw'] at htoken ⊢
    rw [hread.word_inj hread' htoken]
  · refine ⟨i, ?_, ?_⟩
    · simp [placesOf, List.getElem?_append_left, hi]
    · simp [placesOf, List.getElem?_append_left, hi']

end Scanner

end Mgol
