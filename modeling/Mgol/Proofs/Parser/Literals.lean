import Mgol.Proofs.Parser.Spans
import Mgol.Proofs.Semantics.Values
import Mgol.Proofs.Target.Literals
import Mgol.Proofs.Typing.Kinds

/-! # The texts that a program writes

A literal constant lies on the stack of values from its shift until it is written; reductions pass
it on as it is, and make up no other one. The line that writes it is the only one with a text of
the source. So each such line of a program can be traced back to a token.

* **`ActionContext.Gains`** — statements that an action adds write no text but one of its right
  side.
* **`ParseState.Cites`, `ParseState.Cites.step`** — every text that was written is one of a token.
* **`literals_survive`** — literals of the source and their lines in the program. -/

namespace Mgol

open Target

/-! ## Statements that actions add -/

namespace ActionContext

variable {r : Reduction} {c c' c'' : ActionContext}

/-- **An action adds statements** that write no text but those of literal constants on its right
side. -/
def Gains (r : Reduction) (c c' : ActionContext) : Prop :=
  ∀ s, c'.Holds s → c.Holds s ∨ r.Quotes s

/-- Nothing is added. -/
theorem Gains.refl (r : Reduction) (c : ActionContext) : Gains r c c := fun _ hs => .inl hs

/-- Statements are added twice. -/
theorem Gains.trans (h : Gains r c c') (h' : Gains r c' c'') : Gains r c c'' := fun s hs =>
  (h' s hs).elim (h s) .inr

/-- Nothing is added where the program and the comparisons stay. -/
theorem Gains.of_eq (hcode : c'.work.code = c.work.code)
    (hlast : c'.work.lastRelational = c.work.lastRelational)
    (hloops : c'.work.openLoops = c.work.openLoops) : Gains r c c' := by
  intro s hs
  rw [Holds, hcode, hlast, hloops] at hs
  exact .inl hs

/-- A statement is added as a line. -/
theorem gains_emit {s : Statement} (h : r.Quotes s) : Gains r c (c.emit s) := by
  rintro s' (hline | hkept)
  · rcases mem_bodies_addLine.mp hline with hline | heq
    · exact .inl (.inl hline)
    · obtain rfl := LineBody.statement.inj heq
      exact .inr h
  · exact .inl (.inr hkept)

/-- **A part of an action** adds no other text. -/
theorem Part.gains (h : Part r c c') : Gains r c c' := by
  cases h with
  | plain part =>
    cases part with
    | reported code message i lexeme =>
      obtain ⟨journal, heq⟩ := c.report_eq code message (r.positionOf i) lexeme
      rw [heq]
      exact .of_eq rfl rfl rfl
    | written s quotes => exact gains_emit quotes
    | reserved kind => exact fun s hs => .inl hs
    | kept comparison quotes =>
      rintro s (hline | hlast | hloop)
      · exact .inl (.inl hline)
      · exact .inr (quotes s hlast)
      · exact .inl (.inr (.inr hloop))
  | typed set =>
    obtain ⟨registry, -, rfl⟩ := setPendingType_eq_ok set
    exact .of_eq rfl rfl rfl
  | pending type names => exact .of_eq rfl rfl rfl

/-- **A reduction** adds no other text: blocks write no statement that was not held before. -/
theorem gains_of_outcome (h : r.Outcome c c') : Gains r c c' := by
  cases h with
  | done _ does => exact of_parts does (.refl r) Gains.trans Part.gains
  | closed => exact fun s hs => .inl (holds_of_closeBlock hs)
  | opened => exact fun s hs => .inl (holds_of_openBlock hs)
  | left => exact fun s hs => .inl (holds_of_leaveLoop (holds_of_closeBlock hs))
  | entered => exact fun s hs => .inl (holds_of_openBlock (holds_of_enterLoop hs))

end ActionContext

/-! ## Texts on the stack -/

namespace ParseState

/-- **A parse that cites**: of the literal constants on its stack, and of those that its statements
write, `Seen` holds. -/
structure Cites (Seen : Token → Prop) (p : ParseState) : Prop where
  actions_eq : p.executor.actions = mgolActions
  fluent : p.scanner.Fluent
  spelled : p.lookahead.value.Spelled
  values : ∀ v ∈ p.executor.values.items, v.value.kind = .literal → Seen v.value
  texts : ∀ literal, p.context.Holds (.writeText literal) →
    ∃ u, Seen u ∧ u.kind = .literal ∧ literal = cLiteral u.lexeme

namespace Cites

variable {Seen : Token → Prop} {t : DecisionTables} {p p' : ParseState}

/-- Values may be taken off, and notes taken. -/
theorem of_subset (h : p.Cites Seen) {j : Journal}
    (hscanner : p'.scanner = p.scanner.withJournal j) (hlookahead : p'.lookahead = p.lookahead)
    (hactions : p'.executor.actions = p.executor.actions)
    (hvalues : p'.executor.values.items ⊆ p.executor.values.items)
    (hwork : p'.executor.work = p.executor.work) : p'.Cites Seen where
  actions_eq := hactions.trans h.actions_eq
  fluent := by
    rw [hscanner]
    exact h.fluent.of_agrees (agrees_withJournal _ j)
  spelled := by rw [hlookahead]; exact h.spelled
  values v hv := h.values v (hvalues hv)
  texts literal hliteral := by
    refine h.texts literal ?_
    rwa [context, ActionContext.Holds, hwork] at hliteral

/-- The next lookahead of a parse is well spelled. -/
theorem next (h : p.Cites Seen) {j : Journal} {u : Spanned Token} {s : Scanner}
    (found : (p.scanner.withJournal j).nextVisible = (.ok u, s)) : s.Fluent ∧ u.value.Spelled := by
  have hfluent := h.fluent.of_agrees (agrees_withJournal _ j)
  obtain ⟨hs, hspelled, -⟩ := (Scanner.finds_of_nextVisible found).fluent hfluent
  exact ⟨hs, hspelled⟩

/-- An alarm touches no value. -/
theorem alarmed (h : p.Cites Seen) (q : Nat) (slot : Option Nat) :
    (p.alarmed t q slot).Cites Seen := by
  obtain ⟨j, _, _, _, _, heq⟩ := p.alarmed_eq t q slot
  rw [heq]
  exact h.of_subset rfl rfl rfl (List.Subset.refl _) rfl

/-- Lookaheads that are dropped come to no stack. -/
theorem dropped (h : p.Cites Seen) (hd : Relation.ReflTransGen Drops p p') : p'.Cites Seen := by
  induction hd with
  | refl => exact h
  | tail _ hdrop ih =>
    cases hdrop with
    | drop more found =>
      obtain ⟨hfluent, hspelled⟩ := ih.next found
      exact { ih with fluent := hfluent, spelled := hspelled }

/-- A recovery takes values off the top. -/
theorem resynchronized (h : p.Cites Seen) {n : Nat} (hsync : p.resynchronize? t n = some p') :
    p'.Cites Seen := by
  unfold resynchronize? at hsync
  split at hsync
  · cases hsync
  · obtain rfl := Option.some.inj hsync
    refine h.of_subset rfl rfl rfl ?_ rfl
    change (p.executor.truncate _).values.items ⊆ _
    rw [Executor.truncate, Stack.items_truncate]
    exact List.drop_subset _ _

/-- The lookahead becomes a value. -/
theorem shifted (h : p.Cites Seen) (hseen : Seen p.lookahead.value) {states : Stack Nat}
    {values : Stack (Spanned Token)} {j : Journal} {u : Spanned Token} {s : Scanner}
    {metrics : SyntaxMetrics} (found : (p.scanner.withJournal j).nextVisible = (.ok u, s))
    (kept : p.executor.values.push p.lookahead = .ok values) :
    Cites Seen
      { p with
        scanner := s, states, lookahead := u, trigger := none, metrics
        executor := { p.executor with values } } := by
  obtain ⟨_, hitems, _⟩ := (Stack.push_eq_ok_iff _ _ _).mp kept
  obtain ⟨hfluent, hspelled⟩ := h.next found
  refine ⟨h.actions_eq, hfluent, hspelled, ?_, h.texts⟩
  show ∀ v ∈ values.items, _
  rw [hitems, List.forall_mem_cons]
  exact ⟨fun _ => hseen, h.values⟩

/-- The values that a reduction takes off are cited. -/
theorem taken (h : p.Cites Seen) {r : Rule} {v : Spanned Token} (hv : v ∈ p.executor.taken r)
    (hkind : v.value.kind = .literal) : Seen v.value := by
  rw [Executor.taken, List.mem_reverse] at hv
  exact h.values v (List.mem_of_mem_take hv) hkind

/-- **A reduction** passes literal constants on or writes them. -/
theorem reduced (h : p.Cites Seen) {r : Rule} {states : Stack Nat} {j : Journal}
    {executor : Executor} {session : Session} {metrics : SyntaxMetrics}
    (run : p.executor.reduce r p.lookahead.span.start ⟨p.scanner.registry, j⟩ =
      (.ok (), executor, session)) :
    Cites Seen { p with scanner := { p.scanner with session }, states, executor, metrics } := by
  obtain ⟨-, v, c, hperform, hitems, hactions, hwork⟩ := Executor.reduce_ok run
  rw [h.actions_eq] at hperform
  -- the words of the registry stay, so the scanner goes on as before
  obtain ⟨-, c', hwords, -, hregistry⟩ := Executor.routine_reduce ActionContext.routine_sameWords
    h.actions_eq r p.lookahead.span.start ⟨p.scanner.registry, j⟩
  rw [run] at hregistry
  have hagrees : p.scanner.Agrees { p.scanner with session } := by
    refine ⟨rfl, rfl, rfl, rfl, ?_⟩
    have hsame : p.scanner.registry.SameWords c'.session.registry := hwords
    rwa [← hregistry] at hsame
  have hgives := gives_perform ⟨r, p.executor.taken r, p.lookahead.span.start⟩
    ⟨p.executor.work, ⟨p.scanner.registry, j⟩⟩
  rw [hperform] at hgives
  refine ⟨hactions.trans h.actions_eq, h.fluent.of_agrees hagrees, h.spelled, ?_, ?_⟩
  · show ∀ u ∈ executor.values.items, _
    rw [hitems, List.forall_mem_cons]
    refine ⟨fun hkind => ?_, fun u hu => h.values u (List.mem_of_mem_drop hu)⟩
    cases hgives with
    | made hmade => cases hmade.symm.trans hkind
    | @passed i u hpassed =>
      have hu : u ∈ p.executor.taken r := List.mem_of_getElem? hpassed
      have hliteral : u.value.kind = .literal := hkind
      show Seen u.value
      exact h.taken hu hliteral
  · intro literal hliteral
    have hholds : c.Holds (.writeText literal) := by
      rw [context, ActionContext.Holds] at hliteral
      rwa [ActionContext.Holds, ← hwork]
    rcases ActionContext.gains_of_outcome (outcome_of_perform hperform) _ hholds with
      hbefore | hquotes
    · exact h.texts literal hbefore
    · obtain ⟨u, hu, hkind, heq⟩ := hquotes literal rfl
      exact ⟨u.value, h.taken hu hkind, hkind, heq⟩

/-- **Every move cites**, if `Seen` holds of the lookahead. -/
theorem step (h : p.Cites Seen) (hseen : Seen p.lookahead.value) {o : SyntaxOptions}
    (hstep : p.step t o = .next p') : p'.Cites Seen := by
  have heffect := step_effect t o p
  rw [hstep] at heffect
  cases heffect with
  | shift items cell pushed found kept => exact h.shifted hseen found kept
  | reduce items cell rule reduced run => exact h.reduced run
  | @resumed q below slot _ items cell recovered =>
    have hrecover := (recover_effect t (p.alarmed t q slot) p.repeated).1
    rw [recovered] at hrecover
    cases hrecover with
    | resumed dropped synchronized =>
      exact ((h.alarmed q slot).dropped dropped).resynchronized synchronized

/-- A parse that gives up cites. -/
theorem abandoned (h : p.Cites Seen) {o : SyntaxOptions} (hstep : p.step t o = .abandoned p') :
    p'.Cites Seen := by
  have heffect := step_effect t o p
  rw [hstep] at heffect
  cases heffect with
  | @abandoned q below slot p'' items cell recovered =>
    have hrecover := (recover_effect t (p.alarmed t q slot) p.repeated).1
    rw [recovered] at hrecover
    cases hrecover with
    | exhausted dropped =>
      exact ((h.alarmed q slot).dropped dropped).of_subset rfl rfl rfl (List.Subset.refl _) rfl

end Cites

/-- A token that a parse has come to, and that is well spelled. -/
def Finds (t : DecisionTables) (o : SyntaxOptions) (p₀ : ParseState) (u : Token) : Prop :=
  u.Spelled ∧ ∃ v, Met t o p₀ v ∧ v.value = u

variable {t : DecisionTables} {o : SyntaxOptions} {p₀ p : ParseState}

/-- Moves cite the tokens that they come to. -/
theorem Cites.reached (h : p₀.Cites (Finds t o p₀))
    (moves : Relation.ReflTransGen (fun p p' => p.step t o = .next p') p₀ p) :
    p.Cites (Finds t o p₀) := by
  induction moves with
  | refl => exact h
  | tail before hstep ih => exact ih.step ⟨ih.spelled, _, ⟨_, .reached before, rfl⟩, rfl⟩ hstep

/-- **A parse cites the tokens that it comes to**, in every state. -/
theorem Cites.configuration (h : p₀.Cites (Finds t o p₀)) (hp : Configuration t o p₀ p) :
    p.Cites (Finds t o p₀) := by
  cases hp with
  | reached moves => exact h.reached moves
  | abandoned moves last => exact (h.reached moves).abandoned last

end ParseState

/-- A parse that begins has written nothing. -/
theorem cites_of_startState {Seen : Token → Prop} {input : Input} {journal : Journal}
    {options : ScanOptions} {o : SyntaxOptions} {p₀ : ParseState} {j : Journal}
    (hstart : startState (.ofInput input .mgol ⟨.reserved, journal⟩ options)
      (.mgol o.effectiveCapacity) o.effectiveCapacity = (.ok p₀, j)) : p₀.Cites Seen := by
  obtain ⟨t, s, states, hfound, -, -, rfl⟩ := eq_of_startState hstart
  obtain ⟨hfluent, hspelled, -⟩ := (Scanner.finds_of_nextVisible hfound).fluent
    (Scanner.fluent_ofInput input journal options)
  refine ⟨rfl, hfluent, hspelled, fun v hv => absurd hv List.not_mem_nil, ?_⟩
  rintro literal (hline | hlast | hloop)
  · exact absurd hline List.not_mem_nil
  · cases hlast
  · exact absurd hloop List.not_mem_nil

/-- A literal constant is written as a line that is seen as the call it is meant to be. -/
theorem SemanticAction.writeStatement_literal {r : Reduction} (c : ActionContext)
    {u : Spanned Token} {body : List Char} (hvalue : r.values[1]? = some u)
    (hkind : u.value.kind = .literal) (hlexeme : u.value.lexeme = quoted body) :
    ∃ line, (writeStatement r c).1 = .ok r.empty ∧
      (writeStatement r c).2.work.code.lines = c.work.code.lines.push line ∧
      glimpse? .code line.text.toList = some (.ofWrite line.depth body) := by
  have hwrite : writeStatement r c =
      (.ok r.empty, c.emit (.writeText (cLiteral (quoted body)))) := by
    unfold writeStatement Reduction.withToken Reduction.token
    rw [hvalue]
    simp only [hkind, hlexeme]
  rw [hwrite]
  exact ⟨⟨c.work.code.depth, .statement (.writeText (cLiteral (quoted body)))⟩, rfl, rfl,
    glimpse?_writeText _ _⟩

/-- **String literals survive into C.** The literal of any text in quotes begins and ends with a
quote and stays on its line; a reader of C sees one literal with that very text in it, and nothing
else. So different texts have different literals.

A literal constant is written as a call of two literals, the format and its text. With any tables,
in every state that a parse of MGol comes to, each line that writes a text writes that of a literal
constant which the scanner has handed out, and is seen as such a call: nothing breaks out of it. -/
theorem literals_survive :
    (∀ body : List Char,
      (∃ inner, (cLiteral (quoted body)).toList = '"' :: inner ++ ['"']) ∧
      (∀ c ∈ ['\n', '\t', '\r'], c ∉ (cLiteral (quoted body)).toList) ∧
      glimpse? .code (cLiteral (quoted body)).toList = some ⟨['"', '"'], [body]⟩) ∧
    (Function.Injective fun body : List Char => cLiteral (quoted body)) ∧
    (∀ (r : Reduction) (c : ActionContext) (u : Spanned Token) (body : List Char),
      r.values[1]? = some u → u.value.kind = .literal → u.value.lexeme = quoted body →
      ∃ line, (SemanticAction.writeStatement r c).1 = .ok r.empty ∧
        (SemanticAction.writeStatement r c).2.work.code.lines = c.work.code.lines.push line ∧
        glimpse? .code line.text.toList = some (.ofWrite line.depth body)) ∧
    ∀ (input : Input) (journal : Journal) (options : ScanOptions) (t : DecisionTables)
      (o : SyntaxOptions) (p₀ : ParseState) (j : Journal),
      startState (.ofInput input .mgol ⟨.reserved, journal⟩ options)
        (.mgol o.effectiveCapacity) o.effectiveCapacity = (.ok p₀, j) →
      ∀ p, ParseState.Configuration t o p₀ p → ∀ line ∈ p.executor.work.code.lines, ∀ literal,
        line.body = .statement (.writeText literal) →
        ∃ v body, ParseState.Met t o p₀ v ∧ v.value.kind = .literal ∧
          v.value.lexeme = quoted body ∧ literal = cLiteral v.value.lexeme ∧
          glimpse? .code line.text.toList = some (.ofWrite line.depth body) := by
  refine ⟨fun body => ⟨?_, ?_, glimpse?_cLiteral body⟩, cLiteral_quoted_injective,
    fun r c u body hvalue hkind hlexeme =>
      SemanticAction.writeStatement_literal c hvalue hkind hlexeme, ?_⟩
  · exact ⟨body.flatMap escapeChar, toList_cLiteral_quoted body⟩
  · intro c hc
    rw [toList_cLiteral_quoted]
    exact notMem_quoteBody hc body
  · intro input journal options t o p₀ j hstart p hp line hline literal hbody
    have hcites := ParseState.Cites.configuration (cites_of_startState hstart) hp
    have hmem : LineBody.statement (.writeText literal) ∈ p.context.work.code.bodies := by
      rw [← hbody]
      exact List.mem_map_of_mem hline.val
    obtain ⟨u, ⟨hspelled, v, hmet, rfl⟩, hkind, rfl⟩ := hcites.texts literal (.inl hmem)
    unfold Token.Spelled at hspelled
    rw [hkind] at hspelled
    obtain ⟨body, hlexeme⟩ := hspelled
    obtain ⟨depth, _⟩ := line
    subst hbody
    refine ⟨v, body, hmet, hkind, hlexeme, rfl, ?_⟩
    rw [hlexeme]
    exact glimpse?_writeText depth body

/-- The text of a literal constant with backslashes at its ends, and a break between them. -/
def backslashed : List Char := ['\\', 'a', '\n', '\\']

/-- The lines of a program that writes this text. -/
def backslashedLines : Option (List Line) :=
  match startState
    (.ofInput ⟨Text.encode ("inicio varinicio varfim; escreva " ++ quoted backslashed ++ "; fim"),
      none⟩)
    (.mgol (SyntaxOptions.effectiveCapacity {})) (SyntaxOptions.effectiveCapacity {}) with
  | (.ok p₀, _) =>
    match p₀.run .mgol {} Limits.parseMoves with
    | .accepted p => some p.executor.work.code.lines.toList
    | _ => none
  | _ => none

/-- The program has one line, in which the breaks are escaped, and that is seen as a call with the
text. -/
theorem literals_survive_backslashed :
    cLiteral (quoted backslashed) = "\"\\\\a\\n\\\\\"" ∧
      ∃ line, backslashedLines = some [line] ∧
        line.body = .statement (.writeText (cLiteral (quoted backslashed))) ∧
        glimpse? .code line.text.toList = some (.ofWrite 0 backslashed) := by
  let line : Line := ⟨0, .statement (.writeText (cLiteral (quoted backslashed)))⟩
  have hlines : backslashedLines = some [line] := by decide +kernel
  refine ⟨by decide +kernel, line, hlines, rfl, ?_⟩
  unfold backslashedLines at hlines
  split at hlines
  · next p₀ j hstart =>
    obtain ⟨q, hmoves, hended⟩ := ParseState.run_induction .mgol {}
      (Relation.ReflTransGen (fun p p' => p.step .mgol {} = .next p') p₀)
      (fun _ _ hmoves hstep => hmoves.tail hstep) Limits.parseMoves .refl
    split at hlines
    · next p hrun =>
      rw [hrun] at hended
      cases hended with
      | accepted last =>
        obtain rfl := ParseState.eq_of_accepted last
        have hline : line ∈ p.executor.work.code.lines := by
          rw [← Array.mem_toList_iff, Option.some.inj hlines]
          exact List.mem_singleton_self line
        obtain ⟨v, body, -, -, hlexeme, hliteral, hseen⟩ := literals_survive.2.2.2 _ _ _ .mgol {} p₀
          j hstart p (.reached hmoves) line hline _ rfl
        rw [hlexeme] at hliteral
        rwa [← literals_survive.2.1 hliteral] at hseen
    · cases hlines
  · cases hlines

end Mgol
