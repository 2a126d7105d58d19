import Mgol.Proofs.Grammar.First

/-! # First and follow sets are exact

The sets that the loops come to rest at hold what derivations can do and nothing else.

* **`RuleSet.CanBegin`, `RuleSet.CanFollow`** — the terminals that what derives from symbols begins
  with, and those that can come after a nonterminal.
* **`FirstSets.Sound`, `RuleSet.OnlyFollowers`** — sets in the making hold nothing but such
  terminals.
* **`RuleSet.nullable_iff`, `RuleSet.mem_first_iff`** — the first set of every sequence is exact.
* **`RuleSet.mem_followSets_iff`** — so are the follow sets. -/

namespace Mgol

/-! ## First sets of two sequences -/

namespace FirstSets

variable {a : GrammarSymbol}

/-- Two sequences begin as the first one does, or if that can become nothing as the second one. -/
theorem mem_ofSequence_append (f : FirstSets) (u v : List GrammarSymbol) :
    a ∈ (f.ofSequence (u ++ v)).1 ↔
      a ∈ (f.ofSequence u).1 ∨ (f.ofSequence u).2 = true ∧ a ∈ (f.ofSequence v).1 := by
  induction u with
  | nil => simp [ofSequence]
  | cons b u ih =>
    rw [List.cons_append, ofSequence, ofSequence]
    cases f.first.get? b with
    | none => simp
    | some s =>
      by_cases hb : b ∈ f.nullable
      · simp only [if_pos hb, SymbolSet.mem_union, ih, or_assoc]
      · simp [hb]

end FirstSets

namespace RuleSet

variable {g : RuleSet} {a b : GrammarSymbol} {u v : List GrammarSymbol}

/-! ## What derivations begin with -/

/-- **A terminal that symbols can begin with**: it comes first in something that they derive. -/
def CanBegin (g : RuleSet) (u : List GrammarSymbol) (a : GrammarSymbol) : Prop :=
  g.isNonterminal a = false ∧ ∃ rest, g.Derives u (a :: rest)

/-- A rule is a derivation. -/
theorem derives_of_rule {r : Rule} (hr : r ∈ g.rules) : g.Derives [r.left] r.right :=
  .single ⟨r, hr, [], [], rfl, by simp⟩

/-- What symbols can begin with, they can begin with in front of others. -/
theorem CanBegin.append_right (h : g.CanBegin u a) (v : List GrammarSymbol) :
    g.CanBegin (u ++ v) a := by
  obtain ⟨ha, rest, hderives⟩ := h
  exact ⟨ha, rest ++ v, hderives.append_right v⟩

/-- What symbols can begin with, they can begin with behind others that become nothing. -/
theorem CanBegin.append_left (h : g.CanBegin v a) (hu : g.Derives u []) :
    g.CanBegin (u ++ v) a := by
  obtain ⟨ha, rest, hderives⟩ := h
  exact ⟨ha, rest, (hu.append_right v).trans hderives⟩

/-- What derives from symbols begins with nothing else. -/
theorem CanBegin.of_derives (h : g.CanBegin v a) (huv : g.Derives u v) : g.CanBegin u a := by
  obtain ⟨ha, rest, hderives⟩ := h
  exact ⟨ha, rest, huv.trans hderives⟩

end RuleSet

/-- **First sets in the making are sound**: what is nullable derives nothing, and what is in a set
can be begun with. -/
structure FirstSets.Sound (g : RuleSet) (f : FirstSets) : Prop where
  names_eq : f.first.map Prod.fst = g.distinctLefts
  nullable : ∀ a ∈ f.nullable, g.Derives [a] []
  first : ∀ a, ∀ b ∈ f.first.get a, g.CanBegin [a] b

namespace SymbolFamily

/-- What stands in an extended family stood there before, or it is what was added. -/
theorem of_mem_get_extend {f : SymbolFamily} {a b c : GrammarSymbol} {s : SymbolSet}
    (h : c ∈ (f.extend b s).get a) : c ∈ f.get a ∨ a = b ∧ c ∈ s := by
  induction f with
  | nil => exact .inl h
  | cons e f ih =>
    obtain ⟨d, t⟩ := e
    unfold extend at h
    by_cases hb : d = b
    · rw [if_pos hb] at h
      by_cases ha : d = a
      · simp only [get, get?, ha, if_true, Option.getD_some, SymbolSet.mem_union] at h ⊢
        exact h.imp id fun hc => ⟨ha.symm.trans hb, hc⟩
      · simp only [get, get?, ha, if_false] at h ⊢
        exact .inl h
    · rw [if_neg hb] at h
      by_cases ha : d = a
      · simp only [get, get?, ha, if_true] at h ⊢
        exact .inl h
      · simp only [get, get?, ha, if_false] at h ⊢
        exact ih h

/-- Extending a family keeps its names. -/
theorem names_extend (f : SymbolFamily) (a : GrammarSymbol) (s : SymbolSet) :
    (f.extend a s).map Prod.fst = f.map Prod.fst := by
  induction f with
  | nil => rfl
  | cons e f ih =>
    unfold extend
    split
    · rfl
    · rw [List.map_cons, ih, List.map_cons]

/-- In a family of empty sets there is nothing. -/
theorem get_empty (names : List GrammarSymbol) (a : GrammarSymbol) :
    (SymbolFamily.empty names).get a = [] := by
  induction names with
  | nil => rfl
  | cons b names ih =>
    unfold SymbolFamily.empty at ih ⊢
    by_cases hb : b = a
    · simp [get, get?, hb]
    · simpa only [List.map_cons, get, get?, hb, if_false] using ih

end SymbolFamily

namespace FirstSets.Sound

variable {g : RuleSet} {f : FirstSets} {u : List GrammarSymbol}

/-- Sound sets say rightly what becomes nothing. -/
theorem derives_nil (h : f.Sound g) (hu : (f.ofSequence u).2 = true) : g.Derives u [] := by
  induction u with
  | nil => exact .refl
  | cons b u ih =>
    rw [ofSequence] at hu
    cases hb : f.first.get? b with
    | none => simp [hb] at hu
    | some s =>
      by_cases hnullable : b ∈ f.nullable
      · simp only [hb, if_pos hnullable] at hu
        exact ((h.nullable b hnullable).append_right u).trans (ih hu)
      · simp [hb, hnullable] at hu

/-- Sound sets say rightly what can be begun with. -/
theorem canBegin (h : f.Sound g) {a : GrammarSymbol} (ha : a ∈ (f.ofSequence u).1) :
    g.CanBegin u a := by
  induction u with
  | nil => cases ha
  | cons b u ih =>
    rw [ofSequence] at ha
    cases hb : f.first.get? b with
    | none =>
      -- a symbol without a set is a terminal
      rw [hb] at ha
      obtain rfl := List.mem_singleton.mp ha
      refine ⟨Bool.eq_false_iff.mpr fun hnonterminal => ?_, u, .refl⟩
      obtain ⟨s, hs⟩ := SymbolFamily.exists_get?_of_mem
        (h.names_eq ▸ RuleSet.mem_distinctLefts.mpr hnonterminal)
      cases hb.symm.trans hs
    | some s =>
      have hfirst : ∀ c ∈ s, g.CanBegin (b :: u) c := fun c hc =>
        (h.first b c (by rw [SymbolFamily.get, hb]; exact hc)).append_right u
      by_cases hnullable : b ∈ f.nullable
      · simp only [hb, if_pos hnullable, SymbolSet.mem_union] at ha
        rcases ha with ha | ha
        · exact hfirst a ha
        · exact (ih ha).append_left (h.nullable b hnullable)
      · simp only [hb, if_neg hnullable] at ha
        exact hfirst a ha

/-- A rule of the grammar keeps sets sound. -/
theorem addRule (h : f.Sound g) {r : Rule} (hr : r ∈ g.rules) : (f.addRule r).Sound g where
  names_eq := (SymbolFamily.names_extend _ _ _).trans h.names_eq
  nullable a ha := by
    unfold FirstSets.addRule at ha
    simp only at ha
    split at ha
    · next hright =>
      rcases SymbolSet.mem_insert.mp ha with rfl | ha
      · exact (RuleSet.derives_of_rule hr).trans (h.derives_nil hright)
      · exact h.nullable a ha
    · exact h.nullable a ha
  first a b hb := by
    rcases SymbolFamily.of_mem_get_extend hb with hold | ⟨rfl, hnew⟩
    · exact h.first a b hold
    · exact (h.canBegin hnew).of_derives (RuleSet.derives_of_rule hr)

end FirstSets.Sound

namespace RuleSet

variable {g : RuleSet} {a b : GrammarSymbol} {u v : List GrammarSymbol}

/-- **First sets are sound.** -/
theorem sound_firstSets (g : RuleSet) : g.firstSets.Sound g := by
  apply settle_induction
  · intro f hf
    exact List.foldlRecOn g.rules FirstSets.addRule hf fun f hf r hr => hf.addRule hr
  · exact
      { names_eq := (SymbolFamily.over_empty _ []).names_eq
        nullable := by simp [noFirstSets]
        first := by simp [noFirstSets, SymbolFamily.get_empty] }

/-- **A sequence is found to be nullable exactly if it derives nothing.** -/
theorem nullable_iff : (g.firstSets.ofSequence u).2 = true ↔ g.Derives u [] :=
  ⟨(sound_firstSets g).derives_nil, fun h =>
    nullable_of_forest ((forest_iff_derives (by simp)).mpr h)⟩

/-- What a rewriting step leads to begins with nothing new. -/
theorem first_of_produces (h : g.Produces u v) (ha : a ∈ (g.firstSets.ofSequence v).1) :
    a ∈ (g.firstSets.ofSequence u).1 := by
  obtain ⟨r, hr, before, after, rfl, rfl⟩ := h
  obtain ⟨s, hs, hsub⟩ := exists_first hr
  -- the right side begins as the left side does, and is nullable only if that is
  have hleft : ∀ c, c ∈ (g.firstSets.ofSequence r.right).1 ∨
      (g.firstSets.ofSequence r.right).2 = true ∧ c ∈ (g.firstSets.ofSequence after).1 →
      c ∈ (g.firstSets.ofSequence (r.left :: after)).1 := by
    intro c hc
    simp only [FirstSets.ofSequence, hs]
    rcases hc with hc | ⟨hnullable, hc⟩
    · split
      · exact SymbolSet.mem_union.mpr (.inl (hsub hc))
      · exact hsub hc
    · rw [if_pos (mem_nullable hr hnullable)]
      exact SymbolSet.mem_union.mpr (.inr hc)
  rw [List.append_assoc, FirstSets.mem_ofSequence_append, FirstSets.mem_ofSequence_append] at ha
  rw [FirstSets.mem_ofSequence_append]
  exact ha.imp_right (And.imp_right (hleft a))

/-- **The first set of a sequence is exact**: it holds the terminals that something derived from it
begins with. -/
theorem mem_first_iff : a ∈ (g.firstSets.ofSequence u).1 ↔ g.CanBegin u a := by
  refine ⟨(sound_firstSets g).canBegin, ?_⟩
  rintro ⟨ha, rest, hderives⟩
  -- from what begins with the terminal backwards
  induction hderives using Relation.ReflTransGen.head_induction_on with
  | refl =>
    rw [FirstSets.ofSequence, first_get?_of_terminal ha]
    exact List.mem_singleton_self a
  | head hstep _ ih => exact first_of_produces hstep ih

/-! ## What can follow -/

/-- **A terminal that can come after a nonterminal**: the end of the input after the start; what
the rest of a right side can begin with; and where the rest becomes nothing, what can come after the
left side. -/
inductive CanFollow (g : RuleSet) : GrammarSymbol → GrammarSymbol → Prop
  | ended : CanFollow g g.start.left endMarker
  | begun {r : Rule} {before after : List GrammarSymbol} {a b : GrammarSymbol}
      (rule : r ∈ g.rules) (split : r.right = before ++ a :: after)
      (begins : g.CanBegin after b) : CanFollow g a b
  | inherited {r : Rule} {before after : List GrammarSymbol} {a b : GrammarSymbol}
      (rule : r ∈ g.rules) (split : r.right = before ++ a :: after)
      (nullable : g.Derives after []) (follows : CanFollow g r.left b) : CanFollow g a b

/-- **Follow sets in the making are sound**: they hold nothing but what can follow. -/
def OnlyFollowers (g : RuleSet) (follow : SymbolFamily) : Prop :=
  ∀ a, ∀ b ∈ follow.get a, g.CanFollow a b

/-- The rest of a right side adds to the follow sets only what can follow. -/
theorem OnlyFollowers.addFollowTail {r : Rule} (hr : r ∈ g.rules)
    {before tail : List GrammarSymbol} (hsplit : r.right = before ++ tail) {follow : SymbolFamily}
    (hfollow : g.OnlyFollowers follow) :
    g.OnlyFollowers (addFollowTail g.firstSets r.left tail follow) := by
  induction tail generalizing before follow with
  | nil => exact hfollow
  | cons c tail ih =>
    rw [RuleSet.addFollowTail]
    have hnext : r.right = before ++ [c] ++ tail := by simp [hsplit]
    refine ih hnext fun a b hb => ?_
    rcases SymbolFamily.of_mem_get_extend hb with hold | ⟨rfl, hnew⟩
    · exact hfollow a b hold
    · split at hnew
      · next hnullable =>
        rcases SymbolSet.mem_union.mp hnew with hfirst | hleft
        · exact .begun hr hsplit (mem_first_iff.mp hfirst)
        · exact .inherited hr hsplit (nullable_iff.mp hnullable) (hfollow _ _ hleft)
      · exact .begun hr hsplit (mem_first_iff.mp hnew)

/-- **Follow sets are sound.** -/
theorem onlyFollowers_followSets (g : RuleSet) : g.OnlyFollowers g.followSets := by
  apply settle_induction
  · intro follow hfollow
    exact List.foldlRecOn (motive := g.OnlyFollowers) g.rules _ hfollow fun follow hfollow r hr =>
      hfollow.addFollowTail hr (List.nil_append r.right).symm
  · intro a b hb
    rcases SymbolFamily.of_mem_get_extend hb with hold | ⟨rfl, hnew⟩
    · rw [SymbolFamily.get_empty] at hold
      cases hold
    · obtain rfl := List.mem_singleton.mp hnew
      exact .ended

/-- **The follow set of a nonterminal is exact**: it holds the terminals that can come after it. -/
theorem mem_followSets_iff (ha : g.isNonterminal a = true) :
    b ∈ g.followSets.get a ↔ g.CanFollow a b := by
  refine ⟨onlyFollowers_followSets g a b, fun h => ?_⟩
  induction h with
  | ended => exact endMarker_mem_follow
  | @begun r before after a b rule split begins =>
    apply followers_subset rule split ha
    unfold followers
    split
    · exact SymbolSet.mem_union.mpr (.inl (mem_first_iff.mpr begins))
    · exact mem_first_iff.mpr begins
  | @inherited r before after a b rule split nullable _ ih =>
    apply followers_subset rule split ha
    rw [followers, nullable_iff.mpr nullable, if_pos rfl]
    exact SymbolSet.mem_union.mpr (.inr (ih (isNonterminal_left rule)))

end RuleSet

end Mgol
