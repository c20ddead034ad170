import Mathlib.Tactic.Common

/-!
# Words of a text

A word is a longest run of letters, with `p` for what a letter is. `mapWords` replaces each word;
`mapWords_around` is about one word in its surroundings.
-/
namespace SrvBackup.Text

variable {α : Type} (p : α → Bool) (f : List α → List α)

/-- `f` of a word that has come to its end; between two other characters there is none. -/
def endWord (word : List α) : List α := if word = [] then [] else f word

/-- The rest of a text, when `word` has been read of a word. -/
def mapWordsFrom (word : List α) : List α → List α
  | [] => endWord f word
  | c :: cs =>
    if p c then mapWordsFrom (word ++ [c]) cs else endWord f word ++ c :: mapWordsFrom [] cs

/-- A text with `f` applied to its words. -/
def mapWords (text : List α) : List α := mapWordsFrom p f [] text

variable {p f} {word front back : List α}

end SrvBackup.Text
