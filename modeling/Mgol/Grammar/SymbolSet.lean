/-! # Sets of grammar symbols

Symbols of a grammar are known by their names. A set of them is kept as a list of names in
ascending order, each once, so that going through a set has one order.

* **`SymbolSet.insert`, `SymbolSet.union`, `SymbolSet.ofList`** — with their membership lemmas. -/

namespace Mgol

/-- A terminal or nonterminal of a grammar, by name. -/
abbrev GrammarSymbol := String

/-- **A set of symbols**, in ascending order of their names. -/
abbrev SymbolSet := List GrammarSymbol

namespace SymbolSet

/-- Puts a symbol in its place, unless it is there. -/
def insert (a : GrammarSymbol) : SymbolSet → SymbolSet
  | [] => [a]
  | b :: rest =>
    if a = b then b :: rest else if a < b then a :: b :: rest else b :: insert a rest

/-- The symbols of two sets. -/
def union (s t : SymbolSet) : SymbolSet := t.foldl (fun s a => insert a s) s

/-- The set of the symbols in a list. -/
def ofList (symbols : List GrammarSymbol) : SymbolSet := union [] symbols

@[simp] theorem mem_insert {a b : GrammarSymbol} {s : SymbolSet} :
    b ∈ insert a s ↔ b = a ∨ b ∈ s := by
  induction s with
  | nil => simp [insert]
  | cons c rest ih =>
    unfold insert
    split
    · next h => simp [h]
    · split
      · simp
      · simp only [List.mem_cons, ih]
        exact or_left_comm

@[simp] theorem mem_union {b : GrammarSymbol} {s t : SymbolSet} :
    b ∈ union s t ↔ b ∈ s ∨ b ∈ t := by
  unfold union
  induction t generalizing s with
  | nil => simp
  | cons c rest ih =>
    simp only [List.foldl_cons, ih, mem_insert, List.mem_cons]
    constructor
    · rintro ((h | h) | h)
      · exact .inr (.inl h)
      · exact .inl h
      · exact .inr (.inr h)
    · rintro (h | h | h)
      · exact .inl (.inr h)
      · exact .inl (.inl h)
      · exact .inr h

@[simp] theorem mem_ofList {b : GrammarSymbol} {symbols : List GrammarSymbol} :
    b ∈ ofList symbols ↔ b ∈ symbols := by
  simp [ofList]

end SymbolSet

end Mgol
