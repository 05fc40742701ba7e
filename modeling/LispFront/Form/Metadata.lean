import LispFront.Form.Collection

/-!
# Metadata and source locations

Five keys of metadata say where a form was read, all others what it means. A location needs a line
that is a number; a column that is no number and a file that is no string are left out.
-/

namespace LispFront

def FormMap.withoutSource (m : FormMap) : FormMap :=
  ["line", "column", "end-line", "end-column", "file"].foldl (fun m k => m.erase (.key k)) m

namespace Form

def metadata : Form → FormMap
  | .symbol _ m | .list _ m | .vector _ m | .map _ m | .set _ m => m
  | _ => []

def withMetadata? (m : FormMap) : Form → Option Form
  | .symbol s _ => some (.symbol s m)
  | .list es _ => some (.list es m)
  | .vector es _ => some (.vector es m)
  | .map es _ => some (.map es m)
  | .set es _ => some (.set es m)
  | _ => none

def semanticMetadata (f : Form) : FormMap := FormMap.withoutSource f.metadata

def metadataValue? (f : Form) (name : String) : Option Form :=
  FormMap.find? f.metadata (.key name)

end Form

structure SourceLocation where
  file : Option String
  line : Int64
  column : Option Int64
deriving DecidableEq

namespace SourceLocation

def of? (f : Form) : Option SourceLocation :=
  match f.metadataValue? "line" with
  | some (.number line) =>
    some {
      file := match f.metadataValue? "file" with
        | some (.string file) => some file
        | _ => none
      line
      column := match f.metadataValue? "column" with
        | some (.number column) => some column
        | _ => none }
  | _ => none

def text (l : SourceLocation) : String :=
  (l.file.map (· ++ ":")).getD "" ++ toString l.line.toInt ++
    (l.column.map fun column => ":" ++ toString column.toInt).getD ""

end SourceLocation

end LispFront
