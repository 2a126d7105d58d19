/-! # Reserved words

The fourteen words of the language that are no identifiers.

* **`Keyword`**, **`Keyword.spelling`** — the words and how they are written.
* **`Keyword.ofSpelling?`** — the word with a given spelling; case matters. -/

namespace Mgol

/-- **The reserved words.** -/
inductive Keyword where
  | inicio
  | varinicio
  | varfim
  | escreva
  | leia
  | se
  | entao
  | fimse
  | repita
  | fimrepita
  | fim
  | inteiro
  | literal
  | real
  deriving DecidableEq, Repr

namespace Keyword

/-- All reserved words. -/
def all : List Keyword :=
  [inicio, varinicio, varfim, escreva, leia, se, entao, fimse, repita, fimrepita, fim, inteiro,
   literal, real]

/-- How a word is written, which is also its name in the grammar. -/
def spelling : Keyword → String
  | inicio => "inicio"
  | varinicio => "varinicio"
  | varfim => "varfim"
  | escreva => "escreva"
  | leia => "leia"
  | se => "se"
  | entao => "entao"
  | fimse => "fimse"
  | repita => "repita"
  | fimrepita => "fimrepita"
  | fim => "fim"
  | inteiro => "inteiro"
  | literal => "literal"
  | real => "real"

/-- The word with a given spelling. -/
def ofSpelling? (s : String) : Option Keyword :=
  all.find? fun k => k.spelling = s

/-- Every reserved word is listed. -/
theorem mem_all (k : Keyword) : k ∈ all := by
  cases k <;> decide

end Keyword

end Mgol
