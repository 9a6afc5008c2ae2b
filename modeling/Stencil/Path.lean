/-! # Paths

Paths are texts whose parts are separated by slashes. They are compared and looked up in their
lexical normal form, which no directory of the file system takes part in.
-/
namespace Stencil
namespace Path

/-- The pieces of a path between its slashes, empty ones included. -/
def pieces (cs : List Char) : List (List Char) :=
  cs.foldr (fun c acc =>
    if c = '/' then [] :: acc
    else match acc with
      | piece :: rest => (c :: piece) :: rest
      | [] => [[c]]) [[]]

/-- Pieces with slashes between them. -/
def joinPieces : List (List Char) → List Char
  | [] => []
  | [piece] => piece
  | piece :: rest => piece ++ '/' :: joinPieces rest

/-- A piece that leads nowhere: nothing, or a single point. -/
def isIdle (piece : List Char) : Bool := piece.isEmpty || piece == ['.']

/-- Walks one piece from the directory whose names are `names`, innermost first. Two points climb
to the parent, and stay where they are at the root. -/
def walk (names : List (List Char)) (piece : List Char) : List (List Char) :=
  if isIdle piece then names
  else if piece == ['.', '.'] then names.tail
  else piece :: names

/-- The names on the way from the root to a path, outermost first. -/
def names (path : String) : List (List Char) :=
  ((pieces path.toList).foldl walk []).reverse

/-- The absolute path of a list of names. -/
def ofNames (names : List (List Char)) : String :=
  String.ofList ('/' :: joinPieces names)

/-- The lexical normal form of an absolute path. -/
def normalize (path : String) : String := ofNames (names path)

/-- An absolute path without the pieces that lead nowhere. Two points are kept. -/
def tidy (path : String) : String :=
  ofNames ((pieces path.toList).filter fun piece => !isIdle piece)

/-- The directory part of a path, with its own pieces kept as they are written. A path that names
only the root, or nothing, has none. -/
def parent? (path : String) : Option String :=
  let (head, body) := match path.toList with
    | '/' :: rest => (['/'], rest)
    | ['.'] => (['.'], [])
    | '.' :: '/' :: rest => (['.'], '/' :: rest)
    | cs => ([], cs)
  match (pieces body).reverse.dropWhile isIdle with
  | [] => if head == ['.'] then some "" else none
  | _ :: outer => some (String.ofList (head ++ joinPieces (outer.dropWhile isIdle).reverse))

/-- A path seen from a directory. An absolute path stands for itself. -/
def join (directory path : String) : String :=
  if path.startsWith "/" || directory.isEmpty then path
  else if directory.endsWith "/" then directory ++ path
  else directory ++ "/" ++ path

/-- A request without a point and the extension at its end. -/
def stripExtension (request extension : String) : String :=
  if extension.isEmpty then request
  else
    let suffix := '.' :: extension.toList
    let cs := request.toList
    let stem := cs.length - suffix.length
    if suffix.length ≤ cs.length && cs.drop stem == suffix then String.ofList (cs.take stem)
    else request

/-- The file that a request made in the file `file` names: it lies relative to the directory of
that file and ends in the extension. -/
def resolve (extension request file : String) : String :=
  let name := if extension.isEmpty then request else request ++ "." ++ extension
  join ((parent? file).getD "") name

/-- A character that separates the segments of a request. -/
def isSeparator (c : Char) : Bool := c == '/' || c == '\\'

/-- One more segment behind a request. Separators meet in a single slash at the seam. -/
def appendSegment (request segment : List Char) : List Char :=
  if segment.isEmpty then request
  else if request.isEmpty then segment
  else
    (request.reverse.dropWhile isSeparator).reverse ++ '/' :: segment.dropWhile isSeparator

/-- Segments joined to one request. Empty segments do not count. -/
def joinSegments (segments : List String) : String :=
  String.ofList (segments.foldl (fun request s => appendSegment request s.toList) [])

end Path

end Stencil
