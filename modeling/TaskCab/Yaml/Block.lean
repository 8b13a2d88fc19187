import TaskCab.Yaml.BlockText
import TaskCab.Yaml.Inline

/-!
# Blocks

The tree of a YAML text. Outside brackets, the entries of a mapping and the items of a sequence stand below
each other in one column, and what belongs to an entry or item stands further to the right. A text with
anchors and aliases, tags, directives or keys behind a question mark is not read; what a run does is stated
for any reader of its configuration.
-/

namespace TaskCab.Yaml

namespace Glyph

def inline? (indent : Nat) (glyphs : List Glyph) : Option (Node × List Glyph) :=
  if startsWith '[' glyphs || startsWith '\x7b' glyphs then node? (2 * glyphs.length + 2) glyphs
  else scalar? false indent glyphs

def skipBehind (glyphs : List Glyph) : List Glyph := skip false false true glyphs

/-- The colon that makes a key of the node before it, and what follows; the key began on `line`. -/
def keyColon? (line : Nat) (after : List Glyph) : Option (Glyph × List Glyph) :=
  match skipBehind after with
  | colon :: rest =>
      if colon.character = ':' && endsWord rest && colon.line = line then some (colon, rest) else none
  | [] => none

/-- A key at the next glyph, its colon and what follows that. A key may be left out. -/
def key? (indent : Nat) (glyphs : List Glyph) : Option (Node × Glyph × List Glyph) :=
  match glyphs with
  | [] => none
  | first :: rest =>
      if first.character = ':' && endsWord rest then some (.missing, first, rest)
      else do
        let (key, after) ← inline? indent glyphs
        let (colon, rest) ← keyColon? first.line after
        some (key, colon, rest)

/-- Whether the entries or items of a column go on with the next glyph; nothing may stand further to the
right, or behind a token. -/
def continues? (column : Nat) (glyphs : List Glyph) : Option Bool :=
  match glyphs with
  | [] => some false
  | first :: _ =>
      if !first.leads || column < first.column then none
      else some (first.column = column && !isDocumentMark glyphs)

mutual

/-- A node at the next glyph, and what follows it. Plain text on further lines is indented by at least
`indent`; a collection may start only where `collections` allows. Each nested node and each further entry
costs one unit of fuel. -/
def block? : Nat → Nat → Bool → List Glyph → Option (Node × List Glyph)
  | 0, _, _, _ => none
  | fuel + 1, indent, collections, glyphs =>
      match glyphs with
      | [] => none
      | first :: rest =>
          if isItemMark glyphs then
            if collections then
              (blockItems? fuel first.column glyphs).map fun (items, after) => (.sequence items, after)
            else none
          else if first.character = '|' || first.character = '>' then
            (blockText? (first.character = '>') indent rest).map fun (text, after) =>
              (.scalar text, after)
          else
            match key? indent glyphs with
            | some (key, colon, rest) =>
                if collections then
                  (blockEntries? fuel first.column key colon rest).map fun (entries, after) =>
                    (.mapping entries, after)
                else none
            | none => inline? indent glyphs

/-- The value of a key in a column, given its colon. A sequence may stand in the column of the key. -/
def blockValue? : Nat → Nat → Glyph → List Glyph → Option (Node × List Glyph)
  | 0, _, _, _ => none
  | fuel + 1, column, colon, glyphs =>
      let rest := skipBehind glyphs
      match rest with
      | [] => some (.missing, [])
      | first :: _ =>
          if first.line = colon.line then block? fuel (column + 1) false rest
          else if isDocumentMark rest then some (.missing, rest)
          else if column < first.column then block? fuel (column + 1) true rest
          else if first.column = column && isItemMark rest then
            (blockItems? fuel column rest).map fun (items, after) => (.sequence items, after)
          else some (.missing, rest)

def blockEntries? :
    Nat → Nat → Node → Glyph → List Glyph → Option (List (Node × Node) × List Glyph)
  | 0, _, _, _, _ => none
  | fuel + 1, column, key, colon, glyphs => do
      let (value, after) ← blockValue? fuel column colon glyphs
      let rest := skipBehind after
      if ← continues? column rest then
        let (nextKey, nextColon, rest) ← key? (column + 1) rest
        let (entries, after) ← blockEntries? fuel column nextKey nextColon rest
        some ((key, value) :: entries, after)
      else some ([(key, value)], rest)

def blockItems? : Nat → Nat → List Glyph → Option (List Node × List Glyph)
  | 0, _, _ => none
  | fuel + 1, column, glyphs => do
      let (item, after) ← blockItem? fuel column glyphs
      let rest := skipBehind after
      if (← continues? column rest) && isItemMark rest then
        let (items, after) ← blockItems? fuel column rest
        some (item :: items, after)
      else some ([item], rest)

def blockItem? : Nat → Nat → List Glyph → Option (Node × List Glyph)
  | 0, _, _ => none
  | fuel + 1, column, glyphs =>
      match glyphs with
      | [] => none
      | mark :: rest =>
          let rest := skip false false false rest
          match rest with
          | [] => some (.missing, [])
          | first :: _ =>
              if first.line ≠ mark.line && (first.column ≤ column || isDocumentMark rest) then
                some (.missing, rest)
              else block? fuel (column + 1) true rest

end

/-- What follows a root node that ends its document; nothing may come after it. -/
def endsDocument (glyphs : List Glyph) : Bool :=
  match skipBehind glyphs with
  | [] => true
  | rest => isMark '.' rest && (skip false false false (rest.drop 3)).isEmpty

def markedRoot? (fuel : Nat) (mark : Glyph) (glyphs : List Glyph) : Option (Node × List Glyph) :=
  let rest := skipBehind glyphs
  match rest with
  | [] => some (.missing, [])
  | first :: _ =>
      if isDocumentMark rest then some (.missing, rest)
      else block? fuel 0 (first.line ≠ mark.line) rest

def root? (glyphs : List Glyph) : Option (Node × List Glyph) :=
  let fuel := 4 * glyphs.length + 4
  let rest := skip false false false glyphs
  match rest with
  | [] => some (.missing, [])
  | first :: _ =>
      if isMark '-' rest then markedRoot? fuel first (rest.drop 3)
      else if isMark '.' rest || first.character = '%' then none
      else block? fuel 0 true rest

end Glyph

def Node.ofText? (text : List Char) : Option Node := do
  let (node, rest) ← Glyph.root? (← Glyph.ofText? text)
  if Glyph.endsDocument rest then some node else none

end TaskCab.Yaml
