import TaskCab.Source.Line

/-!
# Bracket trees

The tokens of a line, grouped by their brackets.
-/

namespace TaskCab.Source

inductive Bracket where
  | round
  | square
  | curly
deriving DecidableEq, Repr

inductive Tree where
  | leaf (token : Token)
  | group (bracket : Bracket) (opening : Token) (inner : List Tree) (closing : Token)
deriving Repr

namespace Bracket

def opened? (token : Token) : Option Bracket :=
  if token.isSymbol "(" then some round
  else if token.isSymbol "[" then some square
  else if token.isSymbol "\x7b" then some curly
  else none

def closed? (token : Token) : Option Bracket :=
  if token.isSymbol ")" then some round
  else if token.isSymbol "]" then some square
  else if token.isSymbol "\x7d" then some curly
  else none

end Bracket

namespace Tree

/-- A bracket that is still open: the trees before it and those inside so far, both from the end. -/
structure Open where
  bracket : Bracket
  opening : Token
  before : List Tree

/-- Groups tokens, given the open brackets and the trees inside the innermost one, from their end. -/
def groupFrom? : List Open → List Tree → List Token → Option (List Tree)
  | [], trees, [] => some trees.reverse
  | _ :: _, _, [] => none
  | stack, trees, token :: rest =>
      match Bracket.opened? token with
      | some bracket => groupFrom? (⟨bracket, token, trees⟩ :: stack) [] rest
      | none =>
          match Bracket.closed? token with
          | none => groupFrom? stack (.leaf token :: trees) rest
          | some bracket =>
              match stack with
              | [] => none
              | innermost :: outer =>
                  if innermost.bracket = bracket then
                    groupFrom? outer
                      (.group bracket innermost.opening trees.reverse token :: innermost.before) rest
                  else none

def ofTokens? (tokens : List Token) : Option (List Tree) := groupFrom? [] [] tokens

mutual

def tokens : Tree → List Token
  | leaf token => [token]
  | group _ opening inner closing => opening :: allTokens inner ++ [closing]

def allTokens : List Tree → List Token
  | [] => []
  | tree :: rest => tokens tree ++ allTokens rest

end

def tokensText : List Token → List Char
  | [] => []
  | token :: rest => token.gap ++ token.text ++ tokensText rest

def text (trees : List Tree) : List Char :=
  match allTokens trees with
  | [] => []
  | token :: rest => token.text ++ tokensText rest

def isSymbol (symbol : String) : Tree → Bool
  | leaf token => token.isSymbol symbol
  | group .. => false

def isWord (word : String) : Tree → Bool
  | leaf token => token.isWord word
  | group .. => false

def word? : Tree → Option (List Char)
  | leaf token => if token.kind = .word then some token.text else none
  | group .. => none

/-- Cuts at a symbol. Between `lambda` and its colon the symbol belongs to the parameters there, so that
no cut is made; the count is that of the colons still to come. -/
def cutFrom (symbol : String) : Nat → List Tree → List (List Tree)
  | _, [] => [[]]
  | lambdas, tree :: rest =>
      if lambdas = 0 && isSymbol symbol tree then [] :: cutFrom symbol 0 rest
      else
        let lambdas :=
          if isWord "lambda" tree then lambdas + 1
          else if isSymbol ":" tree then lambdas - 1
          else lambdas
        match cutFrom symbol lambdas rest with
        | [] => [[tree]]
        | piece :: pieces => (tree :: piece) :: pieces

/-- The pieces between the occurrences of a symbol; never empty. -/
def cut (symbol : String) (trees : List Tree) : List (List Tree) := cutFrom symbol 0 trees

def cutOnce? (symbol : String) : Nat → List Tree → Option (List Tree × List Tree)
  | _, [] => none
  | lambdas, tree :: rest =>
      if lambdas = 0 && isSymbol symbol tree then some ([], rest)
      else
        let lambdas :=
          if isWord "lambda" tree then lambdas + 1
          else if isSymbol ":" tree then lambdas - 1
          else lambdas
        (cutOnce? symbol lambdas rest).map fun (before, after) => (tree :: before, after)

end Tree

end TaskCab.Source
