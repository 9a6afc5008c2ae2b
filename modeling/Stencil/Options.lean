import Stencil.Json.Reader
import Stencil.Template.Syntax

/-! # Options

What can be chosen for an engine, and how the choices are read from data. A record is read from an
object by the names of its fields, or from an array by their order; what is left out keeps its
default, and fields of other names count for nothing but their names.
-/
namespace Stencil

/-- How long compiled documents are kept. -/
inductive CacheMode
  /-- Until they are dropped by hand. -/
  | session
  /-- As long as the files they were made from are unchanged. -/
  | revalidate
  deriving DecidableEq, Repr, Inhabited

/-- What a rendering does about an include directive that has failed. -/
inductive IncludePolicy
  /-- It fails as well. -/
  | fail
  /-- It goes on around the directive, and reports it beside the output. -/
  | recover
  deriving DecidableEq, Repr, Inhabited

/-- The options of an engine. -/
structure Options where
  /-- The extension of template files, without the point. -/
  extension : String
  templateSyntax : Template.Syntax
  cacheMode : CacheMode
  includePolicy : IncludePolicy
  /-- How long the script of a rendering may run. -/
  timeoutMillis : Nat
  deriving DecidableEq, Repr, Inhabited

/-- The options of an engine for which none are chosen. -/
def Options.default : Options :=
  { extension := "exp"
    templateSyntax := .default
    cacheMode := .session
    includePolicy := .fail
    timeoutMillis := 30000 }

namespace Options

/-! ## Reading records -/

/-- The outlines of the fields of a record, in the order of `names`. A field that stands twice is
refused, and so is an array that is longer than the record. -/
def recordFields? (names : List String) : Json.Outline → Option (List (Option Json.Outline))
  | .object fields => do
    let named ← fields.mapM fun (written, value) => (Json.decode? written).map (·, value)
    names.mapM fun name =>
      match named.filter (·.1 == name) with
      | [] => some none
      | [field] => some (some field.2)
      | _ => none
  | .array items =>
    if items.length ≤ names.length then
      some (items.map some ++ List.replicate (names.length - items.length) none)
    else none
  | _ => none

/-- Reads a part that may be left out. -/
def readOr {α : Type} (read? : Json.Outline → Option α) (otherwise : α) :
    Option Json.Outline → Option α
  | some outline => read? outline
  | none => some otherwise

/-- Reads a text. -/
def text? : Json.Outline → Option String
  | .string written => Json.decode? written
  | _ => none

/-- Reads a list of texts. -/
def texts? : Json.Outline → Option (List String)
  | .array items => items.mapM text?
  | _ => none

/-- Reads a natural number below `2 ^ 64`. -/
def natural? : Json.Outline → Option Nat
  | .number numeral =>
    match numeral.value? with
    | some (.int n) => if 0 ≤ n && n < (Nat.pow 2 64 : Nat) then some n.toNat else none
    | _ => none
  | _ => none

/-- Reads one of several choices: its name, or an object that gives nothing for its name. -/
def choice? {α : Type} (choices : List (String × α)) : Json.Outline → Option α
  | .string written => (Json.decode? written).bind (List.lookup · choices)
  | .object [(written, .null)] => (Json.decode? written).bind (List.lookup · choices)
  | _ => none

/-! ## Reading options -/

/-- Reads the marks of templates. -/
def syntaxOf? (outline : Json.Outline) : Option Template.Syntax := do
  let standard := Template.Syntax.default
  match ← recordFields? ["blockOpeners", "inlineOpeners", "closer", "includeKeyword"] outline with
  | [block, inline, closer, keyword] =>
    return {
      blockOpeners := ← readOr texts? standard.blockOpeners block
      inlineOpeners := ← readOr texts? standard.inlineOpeners inline
      closer := ← readOr text? standard.closer closer
      includeKeyword := ← readOr text? standard.includeKeyword keyword }
  | _ => none

/-- Reads the marks of templates that a text spells. -/
def syntaxOfText? (text : String) : Option Template.Syntax :=
  (Json.Outline.ofText? text).bind syntaxOf?

/-- The names of cache modes. -/
def cacheModes : List (String × CacheMode) := [("session", .session), ("revalidate", .revalidate)]

/-- The names of include policies. -/
def includePolicies : List (String × IncludePolicy) := [("fail", .fail), ("recover", .recover)]

/-- Reads options. -/
def ofOutline? (outline : Json.Outline) : Option Options := do
  let standard := Options.default
  let names := ["extension", "syntax", "cacheMode", "includePolicy", "timeoutMs"]
  match ← recordFields? names outline with
  | [extension, marks, mode, policy, timeout] =>
    return {
      extension := ← readOr text? standard.extension extension
      templateSyntax := ← readOr syntaxOf? standard.templateSyntax marks
      cacheMode := ← readOr (choice? cacheModes) standard.cacheMode mode
      includePolicy := ← readOr (choice? includePolicies) standard.includePolicy policy
      timeoutMillis := ← readOr natural? standard.timeoutMillis timeout }
  | _ => none

/-- Reads the options that a text spells. -/
def ofText? (text : String) : Option Options := (Json.Outline.ofText? text).bind ofOutline?

/-! ## Writing options -/

/-- The marks of templates as data. -/
def syntaxJson (s : Template.Syntax) : Json :=
  .object [
    ("blockOpeners", .array (s.blockOpeners.map Json.string)),
    ("inlineOpeners", .array (s.inlineOpeners.map Json.string)),
    ("closer", .string s.closer),
    ("includeKeyword", .string s.includeKeyword)]

/-- The name of a cache mode. -/
def cacheModeName : CacheMode → String
  | .session => "session"
  | .revalidate => "revalidate"

/-- The name of an include policy. -/
def includePolicyName : IncludePolicy → String
  | .fail => "fail"
  | .recover => "recover"

/-- Options as data. -/
def json (o : Options) : Json :=
  .object [
    ("extension", .string o.extension),
    ("syntax", syntaxJson o.templateSyntax),
    ("cacheMode", .string (cacheModeName o.cacheMode)),
    ("includePolicy", .string (includePolicyName o.includePolicy)),
    ("timeoutMs", .int o.timeoutMillis)]

end Options

end Stencil
