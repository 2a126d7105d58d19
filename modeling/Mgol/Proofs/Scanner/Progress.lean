import Mgol.Proofs.Scanner.Scan

/-! # How far a scanner comes

Every token but the last takes up bytes, and every identifier that is handed out is in the registry
and stays there.

* **`Scanner.Advanced`** — how far a scanner has come with a token.
* **`Scanner.Finds.advanced`** — the search for a visible token moves on. -/

namespace Mgol

/-- Only identifiers are parsed as such. -/
theorem Token.kind_of_terminalName_eq_id {t : Token} (h : t.terminalName = "id") :
    t.kind = .identifier := by
  revert h
  unfold terminalName
  generalize t.kind = kind
  cases kind with
  | keyword word => cases word <;> decide
  | _ => decide

namespace Registry

/-- **The registry has grown**: what was entered stays. -/
def Extends (r r' : Registry) : Prop :=
  ∀ lexeme t, r.get? lexeme = some t → r'.get? lexeme = some t

/-- Entering a token keeps the entries. -/
theorem extends_insert (r : Registry) (t : Token) : r.Extends (r.insert t).2 := by
  intro lexeme u hu
  rw [get?_insert]
  by_cases heq : t.lexeme = lexeme
  · rw [if_pos heq, insert_fst, heq, hu, Option.getD_some]
  · rw [if_neg heq]
    exact hu

/-- A name stays a name. -/
theorem Knows.of_extends {r r' : Registry} {lexeme : String} (h : r.Knows lexeme)
    (he : r.Extends r') : r'.Knows lexeme := by
  obtain ⟨entry, hget, hkind⟩ := h
  exact ⟨entry, he _ _ hget, hkind⟩

end Registry

/-- What is handed out for a sight keeps the registry sound, and an identifier is in it. -/
theorem Sight.Handed.sound {r r' : Registry} {sight : Sight} {value : Token} (h : sight.Handed r value r')
    (hr : r.Sound) :
    r'.Sound ∧ r.Extends r' ∧ (value.kind = .identifier → r'.Knows value.lexeme) := by
  cases h with
  | ended => exact ⟨hr, fun _ _ h => h, fun h => absurd h (by decide)⟩
  | fault => exact ⟨hr, fun _ _ h => h, fun h => absurd h (by simp [Token.ofError])⟩
  | @name w hkind =>
    refine ⟨hr.insert w, r.extends_insert w, fun hid => ⟨_, ?_, hid⟩⟩
    rw [Registry.get?_insert, if_pos (hr.lexeme_insert w).symm]
  | word hother => exact ⟨hr, fun _ _ h => h, fun h => absurd h hother⟩

namespace Scanner

/-- **How far a scanner has come** with a token. -/
structure Advanced (s : Scanner) (t : Spanned Token) (s' : Scanner) : Prop where
  sound : s'.registry.Sound
  failure_eq : s'.input.failure = s.input.failure
  counted : s.metrics.tokens < s'.metrics.tokens
  within : s'.metrics.tokens ≤ Limits.tokenCount
  start_ge : s.position.offset ≤ t.span.start.offset
  length_eq : s'.position.offset + s'.input.bytes.length =
    s.position.offset + s.input.bytes.length
  start_le : t.span.start.offset ≤ s'.position.offset
  start_lt : t.value.isEndOfFile = false → t.span.start.offset < s'.position.offset
  grown : s.registry.Extends s'.registry
  entered : t.value.kind = .identifier → s'.registry.Knows t.value.lexeme

/-- A scan moves on. -/
theorem Scanned.advanced {s s' : Scanner} {t : Spanned Token} (h : s.Scanned t s')
    (hs : s.registry.Sound) : s.Advanced t s' := by
  obtain ⟨hstart, hlength, hprogress⟩ := s.glance_progress
  have hwithin := h.within
  have hcounted := h.counted
  have hhanded := h.handed
  obtain ⟨hsound, hgrown, hentered⟩ := hhanded.sound hs
  -- every token but the end of the file has at least one byte
  have hstop : s.glance.start.offset ≤ s.glance.stop.offset ∧
      (t.value.isEndOfFile = false → s.glance.start.offset < s.glance.stop.offset) := by
    generalize s.glance.sight = sight at hhanded hprogress
    generalize t.value = value, s'.registry = entries at hhanded ⊢
    cases hhanded with
    | ended => exact ⟨Nat.le_of_eq (by rw [hprogress.1]), fun h => absurd h (by decide)⟩
    | fault => exact ⟨Nat.le_of_lt hprogress, fun _ => hprogress⟩
    | name => exact ⟨Nat.le_of_lt hprogress, fun _ => hprogress⟩
    | word => exact ⟨Nat.le_of_lt hprogress, fun _ => hprogress⟩
  exact
    { sound := hsound
      failure_eq := by rw [h.input_eq]
      counted := by omega
      within := by omega
      start_ge := by rw [h.start_eq]; exact hstart
      length_eq := by rw [h.position_eq, h.input_eq]; exact hlength
      start_le := by rw [h.start_eq, h.position_eq]; exact hstop.1
      start_lt := by rw [h.start_eq, h.position_eq]; exact hstop.2
      grown := hgrown
      entered := hentered }

/-- **The search for a visible token moves on.** -/
theorem Finds.advanced {s s' : Scanner} {t : Spanned Token} (h : s.Finds t s')
    (hs : s.registry.Sound) : s.Advanced t s' := by
  induction h with
  | here hscanned _ => exact hscanned.advanced hs
  | @later s s₁ s₂ t u hscanned _ _ ih =>
    have hfirst := hscanned.advanced hs
    have hrest := ih hfirst.sound
    -- what was passed over lies before the token that was found
    have hmoved : s.position.offset ≤ s₁.position.offset :=
      Nat.le_trans hfirst.start_ge hfirst.start_le
    exact
      { sound := hrest.sound
        failure_eq := hrest.failure_eq.trans hfirst.failure_eq
        counted := Nat.lt_trans hfirst.counted hrest.counted
        within := hrest.within
        start_ge := Nat.le_trans hmoved hrest.start_ge
        length_eq := hrest.length_eq.trans hfirst.length_eq
        start_le := hrest.start_le
        start_lt := hrest.start_lt
        grown := fun _ _ h => hrest.grown _ _ (hfirst.grown _ _ h)
        entered := hrest.entered }

end Scanner

end Mgol
