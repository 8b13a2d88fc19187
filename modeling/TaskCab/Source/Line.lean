import TaskCab.Source.Lexeme

/-!
# Logical lines

A line of a task source is a run of tokens. Inside brackets, and after a backslash at the end of a
physical line, it goes on over several physical lines; blank and comment lines belong to none.
-/

namespace TaskCab.Source

/-- A token, with the text between it and the token before, and whether a joined line stands there. -/
structure Token where
  gap : List Char
  joined : Bool
  kind : LexemeKind
  text : List Char
deriving DecidableEq, Repr

namespace Token

def isSymbol (token : Token) (symbol : String) : Bool :=
  token.kind = .symbol && token.text = symbol.toList

def isWord (token : Token) (word : String) : Bool :=
  token.kind = .word && token.text = word.toList

def opens (token : Token) : Bool :=
  token.isSymbol "(" || token.isSymbol "[" || token.isSymbol "\x7b"

def closes (token : Token) : Bool :=
  token.isSymbol ")" || token.isSymbol "]" || token.isSymbol "\x7d"

/-- A place where a line cannot go on. -/
def stray (gap : List Char) : Token := ⟨gap, false, .stray, []⟩

end Token

structure Line where
  indent : Nat
  tokens : List Token
deriving DecidableEq, Repr

namespace Line

/-- What counts next towards the column of a line: blanks, the line end behind a backslash, the rest of a
comment, or nothing any more. -/
inductive Margin where
  | blanks
  | backslash
  | comment
  | over
deriving DecidableEq, Repr

/-- A tab counts eight. A line feed, return or form feed starts over, but not where lines are joined. -/
def marginStep : Margin × Nat → Char → Margin × Nat
  | (.blanks, column), character =>
      if character = ' ' then (.blanks, column + 1)
      else if character = '\t' then (.blanks, column + 8)
      else if character = '\n' || character = '\r' || character = '\x0c' then (.blanks, 0)
      else if character = '\\' then (.backslash, column)
      else if character = '#' then (.comment, column)
      else (.over, column)
  | (.backslash, column), character =>
      if character = '\n' then (.blanks, column) else (.backslash, column)
  | (.comment, column), character =>
      if character = '\n' then (.blanks, 0) else (.comment, column)
  | (.over, column), _ => (.over, column)

/-- The column that the text before the first token of a line reaches. -/
def indentOf (gap : List Char) : Nat := (gap.foldl marginStep (.blanks, 0)).2

def ofReversed (tokens : List Token) : List Line :=
  match tokens.reverse with
  | [] => []
  | token :: rest => [⟨indentOf token.gap, token :: rest⟩]

/-- Where the gathering of lines stands: the depth of brackets, the text since the last token, whether
that joins lines, whether it does so even in front of a string, whether it hides an unseen character, and
the tokens of the current line from its end. -/
structure Progress where
  depth : Nat
  gap : List Char
  joined : Bool
  parted : Bool
  hidden : Bool
  tokens : List Token

namespace Progress

def start : Progress := ⟨0, [], false, false, false, []⟩

def addToken (progress : Progress) (token : Token) : Progress :=
  let depth :=
    if token.opens then progress.depth + 1
    else if token.closes then progress.depth - 1
    else progress.depth
  ⟨depth, [], false, false, false, token :: progress.tokens⟩

def endLine (progress : Progress) : List Line :=
  ofReversed <|
    if progress.hidden && !progress.tokens.isEmpty then Token.stray progress.gap :: progress.tokens
    else progress.tokens

def skip (progress : Progress) (lexeme : Lexeme) : Progress :=
  { progress with gap := progress.gap ++ lexeme.text }

/-- A string takes the joined lines in front of it for blanks, back to a comment or an unseen character. -/
def addLexeme (progress : Progress) (lexeme : Lexeme) : Progress :=
  match lexeme.kind with
  | .blank | .newline => progress.skip lexeme
  | .comment => { progress.skip lexeme with hidden := false, parted := progress.joined }
  | .joinedLine =>
      { progress.skip lexeme with
        hidden := false, joined := true, parted := progress.parted || progress.hidden }
  | .unseen => { progress.skip lexeme with hidden := true, parted := progress.joined }
  | .string =>
      if progress.hidden then progress.addToken (Token.stray progress.gap)
      else progress.addToken ⟨progress.gap, progress.parted, .string, lexeme.text⟩
  | kind => progress.addToken ⟨progress.gap, progress.joined, kind, lexeme.text⟩

end Progress

def gather : Progress → List Lexeme → List Line
  | progress, [] => progress.endLine
  | progress, lexeme :: rest =>
      if lexeme.kind = .newline && progress.depth = 0 && !progress.tokens.isEmpty then
        progress.endLine ++ gather .start rest
      else gather (progress.addLexeme lexeme) rest

def ofText (text : List Char) : List Line := gather .start (Lexeme.scan text)

end Line

end TaskCab.Source
