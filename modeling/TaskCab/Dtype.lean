import TaskCab.Text.Lowercase
import TaskCab.Text.Search

/-!
# Types of inputs

The type of an input starts from its declared type tag. A description that speaks of a list makes a
scalar type a union; a name or description of a file, or before that of a measurement set, settles the
type by itself.
-/

namespace TaskCab

inductive DtypeRule where
  | declared
  | unionUpgrade
  | measurementSet
  | file
deriving DecidableEq, Repr

structure Dtype where
  name : String
  rule : DtypeRule
deriving DecidableEq, Repr

namespace Dtype

open TaskCab.Text

/-- Tags of declared types, and the type of each. -/
def tags : List (String × String) :=
  [("cFloat", "float"), ("cFloatVec", "List[float]"), ("cIntVec", "List[int]"),
    ("cStrList", "List[str]"), ("cStr", "str"), ("cStrVec", "List[str]"), ("cBool", "bool"),
    ("cBoolVec", "List[bool]"), ("cInt", "int"), ("cPathVec", "List[File]"), ("cReqPath", "File"),
    ("cVariant", "Any"), ("unknown", "Any")]

/-- Scalar types, phrases that speak of a list of such, and the union of the two. -/
def unions : List (String × List String × String) :=
  [("str", ["list of strings", "comma-separated"], "Union[str, List[str]]"),
    ("int", ["list of integers"], "Union[int, List[int]]"),
    ("float", ["list of floats"], "Union[float, List[float]]"),
    ("bool", ["list of booleans"], "Union[bool, List[bool]]")]

def measurementSetNames : List String := ["vis", "ms", "observation", "dataset", "measurementset"]

def measurementSetPhrases : List String := ["measurement set", "ms file"]

def fileNameParts : List String :=
  ["image", "imagename", "model", "mask", "file", "fits", "outfile", "output"]

def filePhrases : List String :=
  ["fits file", "image file", "file path", "mask image", "input file", "output file", "file name",
    "image name"]

/-- The type of a tag; a tag that is not known is its own type. -/
def ofTag (tag : String) : String := (tags.lookup tag).getD tag

def mentions (phrases : List String) (text : List Char) : Bool :=
  phrases.any fun phrase => occurs phrase.toList text

/-- The union for a type whose description, in lower case, speaks of a list. -/
def union? (mapped : String) (info : List Char) : Option String :=
  (unions.find? fun (scalar, phrases, _) => scalar == mapped && mentions phrases info).map
    fun (_, _, union) => union

def denotesMeasurementSet (name info : List Char) : Bool :=
  (measurementSetNames.map String.toList).contains name || mentions measurementSetPhrases info

def denotesFile (name info : List Char) : Bool :=
  mentions fileNameParts name || mentions filePhrases info

def infer (tag name info : String) : Dtype :=
  let name := lower name.toList
  let info := lower info.toList
  if denotesMeasurementSet name info then ⟨"MS", .measurementSet⟩
  else if denotesFile name info then ⟨"File", .file⟩
  else
    match union? (ofTag tag) info with
    | some union => ⟨union, .unionUpgrade⟩
    | none => ⟨ofTag tag, .declared⟩

end Dtype

end TaskCab
