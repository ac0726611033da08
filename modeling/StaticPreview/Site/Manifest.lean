import StaticPreview.Conversion
import StaticPreview.Json.Value
import StaticPreview.Path

/-! # The manifest of a site

For each source the manifest tells where its page is and whether the source could be shown. The
index is a page that lists the manifest.
-/
namespace StaticPreview.Site

structure PageEntry where
  source : String
  output : String
  success : Bool
  error : Option String
  deriving DecidableEq, Repr

def pagePath (source : String) : RawText :=
  Path.withExtension source "html"

def withSlashes (path : String) : String :=
  .ofList (path.toList.map fun c => if c = '\\' then '/' else c)

def pageEntry (source : String) (c : Conversion) : PageEntry :=
  ⟨source, withSlashes (pagePath source).shown, c.success, c.error⟩

open Json.Value in
def PageEntry.json (e : PageEntry) : Json.Value (List Char) :=
  .object ([field "source" (ofString e.source), field "output" (ofString e.output),
    field "success" (.boolean e.success)] ++ field? "error" e.error)

def manifestText (entries : List PageEntry) : String :=
  .ofList (Json.Value.pretty 0 (.array (entries.map PageEntry.json)))

def PageEntry.notice (e : PageEntry) : List Char :=
  match e.error with
  | some error =>
    " <span class=\"sf-notice\">".toList ++ Html.escape error.toList ++ "</span>".toList
  | none => []

def PageEntry.item (e : PageEntry) : List Char :=
  "<li><a href=\"".toList ++ Html.escape e.output.toList ++ "\">".toList ++
    Html.escape e.source.toList ++ "</a>".toList ++ e.notice ++ "</li>\n".toList

def indexPage (entries : List PageEntry) (stylesheet : String) : String :=
  let body := "<h1>Previews</h1>\n<ul>\n".toList ++ entries.flatMap PageEntry.item ++
    "</ul>".toList
  .ofList (Page.preview body stylesheet.toList)

end StaticPreview.Site
