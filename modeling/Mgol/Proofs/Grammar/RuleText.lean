import Mgol.Grammar.RuleJson
import Mgol.Proofs.Format.Json

/-! # Rule sets read back

A rule set is written in JSON, rule by rule, and read again. Its rules are in order and without
faults already, so that the check of the rules changes nothing.

* **`Rule.reads_json`, `Rule.ofJson?_jsonValue`** — one rule.
* **`Rule.sortByNumber_eq_self`** — rules in order stay in order.
* **`RuleSet.ofRules_rules`** — the rules of a rule set are that rule set.
* **`RuleSet.ofJson_json`** — a rule set is read back. -/

namespace Mgol

/-- **An array over several lines is read back**, one item a line. -/
theorem Json.reads_lines {texts : List String} {items : List Value}
    (h : List.Forall₂ (fun text item => Reads text.toList item) texts items) (hne : texts ≠ [])
    (close : String) (hclose : ∀ c ∈ close.toList, isBlank c = true) :
    Reads ("[\n" ++ ",\n".intercalate texts ++ close ++ "]").toList (.array items) := by
  have hitems := readsItems_intercalate (List.forall₂_map_left_iff.mpr h)
    (by simpa using hne) hclose
  have hfeed : ∀ c ∈ ['\n'], isBlank c = true := List.all_eq_true.mp rfl
  have harray := reads_array (hitems.indent hfeed)
  simpa [String.toList_intercalate] using harray

/-- What is read back one by one is read back in a list. -/
theorem Json.mapM_map_eq_some {α β : Type} {write : α → β} {read : β → Option α} {xs : List α}
    (h : ∀ x ∈ xs, read (write x) = some x) : (xs.map write).mapM read = some xs := by
  induction xs with
  | nil => rfl
  | cons x xs ih =>
    obtain ⟨hx, hxs⟩ := List.forall_mem_cons.mp h
    rw [List.map_cons, List.mapM_cons, hx, ih hxs]
    rfl

/-! ## Rules -/

namespace Rule

/-- The value that a rule is written as. -/
def jsonValue (r : Rule) : Json.Value :=
  .object
    [(some "rule_number", .number (Nat.toDigits 10 r.number)), (some "left", .text (some r.left)),
     (some "right", .array (r.right.map fun a => .text (some a)))]

/-- The right side of a rule is read back. -/
theorem reads_rightJson (right : List GrammarSymbol) :
    Json.Reads (rightJson right).toList (.array (right.map fun a => .text (some a))) := by
  unfold rightJson
  split
  · next hnil =>
    rw [List.isEmpty_iff.mp hnil]
    exact Json.reads_array_nil
  · next hne =>
    have htexts : List.Forall₂ (fun text item => Json.Reads text.toList item)
        (right.map fun a => "      " ++ Json.quote a) (right.map fun a => .text (some a)) := by
      refine List.forall₂_map_left_iff.mpr (List.forall₂_map_right_iff.mpr ?_)
      refine List.forall₂_same.mpr fun a _ => ?_
      rw [String.toList_append]
      exact (Json.reads_quote a).indent (List.all_eq_true.mp rfl)
    have hlines := Json.reads_lines htexts (by simpa using hne) "\n    "
      (List.all_eq_true.mp rfl)
    simpa using hlines

/-- The characters of a rule, field by field. -/
theorem toList_json (r : Rule) :
    r.json.toList = "  ".toList ++ '\x7b' ::
      (Json.fieldChars "\n    ".toList "rule_number" (' ' :: Nat.toDigits 10 r.number) ++ ',' ::
        (Json.fieldChars "\n    ".toList "left" (' ' :: (Json.quote r.left).toList) ++ ',' ::
          (Json.fieldChars "\n    ".toList "right" (' ' :: (rightJson r.right).toList) ++
            "\n  ".toList ++ ['\x7d']))) := by
  have hnumber : (Json.quote "rule_number").toList = "\"rule_number\"".toList := by
    simp [Json.quote, Json.escapeChar]
  have hleft : (Json.quote "left").toList = "\"left\"".toList := by
    simp [Json.quote, Json.escapeChar]
  have hright : (Json.quote "right").toList = "\"right\"".toList := by
    simp [Json.quote, Json.escapeChar]
  unfold json
  simp [Json.fieldChars, hnumber, hleft, hright]

/-- **A rule is read back** as the value it was written as. -/
theorem reads_json (r : Rule) : Json.Reads r.json.toList r.jsonValue := by
  have hindent : ∀ c ∈ "\n    ".toList, Json.isBlank c = true := List.all_eq_true.mp rfl
  have hclose : ∀ c ∈ "\n  ".toList, Json.isBlank c = true := List.all_eq_true.mp rfl
  have hspace : ∀ c ∈ [' '], Json.isBlank c = true := List.all_eq_true.mp rfl
  have hnumber := (Json.reads_toDigits r.number).indent hspace
  have hleft := (Json.reads_quote r.left).indent hspace
  have hright := (reads_rightJson r.right).indent hspace
  have hfields := Json.ReadsFields.cons hindent "rule_number" hnumber
    (Json.ReadsFields.cons hindent "left" hleft
      (Json.ReadsFields.last hindent "right" hright hclose))
  rw [toList_json]
  exact (Json.reads_object hfields).indent (List.all_eq_true.mp rfl)

/-- **A rule is found in its value.** -/
theorem ofJson?_jsonValue {r : Rule} (h : r.number ≤ Text.wordMax) :
    ofJson? r.jsonValue = some r := by
  have hnumber : (Json.Value.number (Nat.toDigits 10 r.number)).natural? = some r.number := by
    simp [Json.Value.natural?, Text.readDigits?_toDigits, h]
  have hright : (Json.Value.array (r.right.map fun a => .text (some a))).texts? = some r.right := by
    exact Json.mapM_map_eq_some fun a _ => rfl
  simp [ofJson?, jsonValue, Partial.add, hnumber, hright, Json.Value.text?, Partial.rule?]

/-- A rule goes behind rules with no greater numbers. -/
theorem insertByNumber_of_le {r : Rule} {rules : List Rule}
    (h : ∀ s ∈ rules, s.number ≤ r.number) : insertByNumber r rules = rules ++ [r] := by
  induction rules with
  | nil => rfl
  | cons s rules ih =>
    obtain ⟨hs, hrules⟩ := List.forall_mem_cons.mp h
    rw [insertByNumber, if_neg (Nat.not_lt.mpr hs), ih hrules]
    rfl

/-- **Rules in the order of their numbers stay as they are.** -/
theorem sortByNumber_eq_self {rules : List Rule}
    (h : rules.Pairwise fun r s => r.number ≤ s.number) : sortByNumber rules = rules := by
  have hfold : ∀ (front back : List Rule),
      (front ++ back).Pairwise (fun r s => r.number ≤ s.number) →
      back.foldl (fun sorted r => insertByNumber r sorted) front = front ++ back := by
    intro front back
    induction back generalizing front with
    | nil => simp
    | cons r back ih =>
      intro hpair
      have hfront : ∀ s ∈ front, s.number ≤ r.number := fun s hs =>
        (List.pairwise_append.mp hpair).2.2 s hs r List.mem_cons_self
      rw [List.foldl_cons, insertByNumber_of_le hfront, ih (front ++ [r]) (by simpa using hpair)]
      simp
  exact hfold [] rules h

/-- What is inserted comes from the rule or from the others. -/
theorem mem_insertByNumber {r s : Rule} {rules : List Rule} (h : s ∈ insertByNumber r rules) :
    s = r ∨ s ∈ rules := by
  induction rules with
  | nil => simpa [insertByNumber] using h
  | cons t rules ih =>
    rw [insertByNumber] at h
    split at h
    · simpa using h
    · rcases List.mem_cons.mp h with rfl | h
      · exact .inr List.mem_cons_self
      · rcases ih h with rfl | h
        · exact .inl rfl
        · exact .inr (List.mem_cons_of_mem _ h)

/-- Inserting keeps the order. -/
theorem pairwise_insertByNumber (r : Rule) {rules : List Rule}
    (h : rules.Pairwise fun r s => r.number ≤ s.number) :
    (insertByNumber r rules).Pairwise fun r s => r.number ≤ s.number := by
  induction rules with
  | nil => exact List.pairwise_singleton _ r
  | cons t rules ih =>
    obtain ⟨ht, hrules⟩ := List.pairwise_cons.mp h
    rw [insertByNumber]
    split
    · next hlt =>
      refine List.pairwise_cons.mpr ⟨fun s hs => ?_, h⟩
      rcases List.mem_cons.mp hs with rfl | hs
      · exact Nat.le_of_lt hlt
      · exact (Nat.le_of_lt hlt).trans (ht s hs)
    · next hge =>
      refine List.pairwise_cons.mpr ⟨fun s hs => ?_, ih hrules⟩
      rcases mem_insertByNumber hs with rfl | hs
      · exact Nat.not_lt.mp hge
      · exact ht s hs

/-- **Sorted rules are in the order of their numbers.** -/
theorem pairwise_sortByNumber (rules : List Rule) :
    (sortByNumber rules).Pairwise fun r s => r.number ≤ s.number := by
  have hfold : ∀ (rules sorted : List Rule), sorted.Pairwise (fun r s => r.number ≤ s.number) →
      (rules.foldl (fun sorted r => insertByNumber r sorted) sorted).Pairwise
        fun r s => r.number ≤ s.number := by
    intro rules
    induction rules with
    | nil => intro sorted h; exact h
    | cons r rules ih => intro sorted h; exact ih _ (pairwise_insertByNumber r h)
  exact hfold rules [] List.Pairwise.nil

end Rule

namespace RuleSet

variable {g : RuleSet}

/-- **The rules of a rule set are that rule set.** -/
theorem ofRules_rules {rules : List Rule} {origin : String} (h : ofRules rules origin = .ok g)
    (origin' : String) : ofRules g.rules origin' = .ok g := by
  unfold ofRules at h
  split at h
  · cases h
  · next start others hsort =>
    split at h
    · cases h
    · next hfault =>
      obtain rfl := Except.ok.inj h
      have horder := Rule.pairwise_sortByNumber rules
      rw [hsort] at horder
      have hsame : Rule.sortByNumber (RuleSet.rules ⟨start, others⟩) = start :: others :=
        Rule.sortByNumber_eq_self horder
      simp only [ofRules, hsame, hfault]

/-- **A rule set is read back.** -/
theorem ofJson_json {rules : List Rule} {origin : String} (h : ofRules rules origin = .ok g)
    (hnumbers : ∀ r ∈ g.rules, r.number ≤ Text.wordMax) (origin' : String) :
    ofJson g.json origin' = .ok g := by
  have htexts : List.Forall₂ (fun text item => Json.Reads text.toList item)
      (g.rules.map Rule.json) (g.rules.map Rule.jsonValue) := by
    refine List.forall₂_map_left_iff.mpr (List.forall₂_map_right_iff.mpr ?_)
    exact List.forall₂_same.mpr fun r _ => r.reads_json
  have hlines := Json.reads_lines htexts (by simp [RuleSet.rules]) "\n" (List.all_eq_true.mp rfl)
  have hread : Json.read? g.json.toList = some (.array (g.rules.map Rule.jsonValue)) := by
    refine Json.read?_of_reads ?_
    unfold json
    simpa using hlines
  have hrules : rulesOfJson? (.array (g.rules.map Rule.jsonValue)) = some g.rules :=
    Json.mapM_map_eq_some fun r hr => Rule.ofJson?_jsonValue (hnumbers r hr)
  simp only [ofJson, hread, Option.bind_some, hrules, ofRules_rules h]

end RuleSet

end Mgol
