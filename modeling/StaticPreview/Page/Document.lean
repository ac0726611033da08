import StaticPreview.Html.Escape
import StaticPreview.Text.Cut

/-! # Preview documents

A document holds a title, a stylesheet and a body. The stylesheet cannot close the element that
holds it.
-/
namespace StaticPreview.Page

def defaultStylesheet : String :=
  "*, *::before, *::after \x7b box-sizing: border-box; \x7d
body \x7b
  margin: 0;
  font-family: system-ui, -apple-system, \"Segoe UI\", sans-serif;
  line-height: 1.5;
  color: #111827;
  background: #ffffff;
\x7d
#root \x7b padding: 1rem; \x7d
img \x7b max-width: 100%; \x7d
.sf-dynamic \x7b color: #9ca3af; font-style: italic; \x7d
.sf-notice \x7b
  max-width: 40rem;
  margin: 2rem auto;
  padding: 1.25rem 1.5rem;
  border: 1px solid #e5e7eb;
  border-radius: 0.5rem;
  background: #f9fafb;
\x7d
.sf-notice h1 \x7b margin: 0 0 0.5rem; font-size: 1.125rem; \x7d
.sf-notice p \x7b margin: 0.25rem 0; color: #4b5563; \x7d
.sf-notice code \x7b font-family: ui-monospace, monospace; font-size: 0.875em; \x7d
.sf-error \x7b border-color: #fecaca; background: #fef2f2; \x7d
.sf-error pre \x7b white-space: pre-wrap; color: #991b1b; \x7d
"

def styleEnd : List Char := "</style".toList

/-- Whether a text begins with `lead`, capitals and small letters being the same; `lead` has no
capitals. -/
def startsWith (lead s : List Char) : Bool :=
  match lead, s with
  | [], _ => true
  | _ :: _, [] => false
  | m :: lead, c :: r => m == c.toLower && startsWith lead r

/-- Puts a backslash into each end tag of a style element, and writes its name small. -/
def neutralize (s : List Char) : List Char :=
  match s with
  | [] => []
  | c :: r =>
    if startsWith styleEnd (c :: r) then "<\\/style".toList ++ neutralize (r.drop 6)
    else c :: neutralize r
termination_by s.length
decreasing_by all_goals simp only [List.length_cons, List.length_drop]; omega

def document (title body stylesheet : List Char) : List Char :=
  "<!DOCTYPE html>
<html lang=\"en\">
<head>
  <meta charset=\"utf-8\">
  <meta name=\"viewport\" content=\"width=device-width, initial-scale=1\">
  <title>".toList ++ Html.escape title ++ "</title>
  <style>".toList ++ neutralize stylesheet ++ "</style>
</head>
<body>
  <div id=\"root\">".toList ++ body ++ "</div>
</body>
</html>".toList

def preview (body stylesheet : List Char) : List Char :=
  document "Preview".toList body stylesheet

def unavailableNotice (label : List Char) : List Char :=
  "<div class=\"sf-notice\">
  <h1>Preview unavailable</h1>
  <p><code>".toList ++ Html.escape label ++ "</code> has no previewable markup.</p>
  <p>Write the component with a single JSX return at the end of its function, such as <code>return (&lt;div&gt;...&lt;/div&gt;);</code></p>
</div>".toList

def unavailable (label stylesheet : List Char) : List Char :=
  document "Preview unavailable".toList (unavailableNotice label) stylesheet

def failureNotice (label message : List Char) : List Char :=
  "<div class=\"sf-notice sf-error\">
  <h1>Preview failed</h1>
  <p>Could not convert <code>".toList ++ Html.escape label ++ "</code>.</p>
  <pre>".toList ++ Html.escape message ++ "</pre>
</div>".toList

def failure (label message stylesheet : List Char) : List Char :=
  document "Preview failed".toList (failureNotice label message) stylesheet

end StaticPreview.Page
