/-!
# AntResources.ScriptTags

HTML pages for script resources: one `<script>` element a source, in order, with nothing between
them. Inside the attribute the five characters that mean something in HTML are written as entities.
-/

namespace AntResources.ScriptTags

/-- One character of an attribute value. -/
def escapeChar : Char → List Char
  | '&' => "&amp;".toList
  | '<' => "&lt;".toList
  | '>' => "&gt;".toList
  | '"' => "&#34;".toList
  | '\'' => "&#39;".toList
  | c => [c]

/-- A text as an attribute value. -/
def escape (s : String) : String := String.ofList (s.toList.flatMap escapeChar)

/-- The element that loads the script at `source`. -/
def tag (source : String) : String :=
  "<script type=\"text/javascript\" src=\"" ++ escape source ++ "\"></script>"

/-- The elements for all `sources`, in order. -/
def render (sources : List String) : String := String.join (sources.map tag)

end AntResources.ScriptTags
