import StaticPreview.Server.Message

/-! # The shell page

The page frames a preview: the whole document stands in one attribute, so everything that could
end the attribute is written as a reference.
-/
namespace StaticPreview.Server.Shell

def escapeChar (c : Char) : List Char :=
  match c with
  | '<' => "&lt;".toList
  | '>' => "&gt;".toList
  | '&' => "&amp;".toList
  | '"' => "&quot;".toList
  | '\'' => "&#x27;".toList
  | '/' => "&#x2f;".toList
  | c => [c]

def escape (s : List Char) : List Char := s.flatMap escapeChar

def orElse (s : Option String) (other : String) : List Char :=
  match s with
  | some text => if text.toList = [] then other.toList else text.toList
  | none => other.toList

def styles : List Char :=
  "    html, body \x7b margin: 0; height: 100%; \x7d
    body \x7b display: flex; flex-direction: column; font-family: system-ui, sans-serif; background: #f3f4f6; \x7d
    .bar \x7b display: flex; align-items: center; justify-content: space-between; gap: 1rem; padding: 0.5rem 1rem; background: #111827; color: #f9fafb; font-size: 0.875rem; \x7d
    .badge \x7b padding: 0.125rem 0.5rem; border-radius: 9999px; max-width: 60%; overflow: hidden; text-overflow: ellipsis; white-space: nowrap; \x7d
    .badge.ok \x7b background: #065f46; \x7d
    .badge.err \x7b background: #991b1b; \x7d
    iframe \x7b flex: 1; width: 100%; border: 0; background: #fff; \x7d
".toList

def badgeClass (success : Bool) : List Char :=
  if success then "ok".toList else "err".toList

def badge (c : Conversion) : List Char :=
  if c.success then "Rendered".toList else escape (orElse c.error "Conversion failed")

def page (p : Preview) : List Char :=
  "<!DOCTYPE html>
<html lang=\"en\">
<head>
  <meta charset=\"utf-8\">
  <meta name=\"viewport\" content=\"width=device-width, initial-scale=1\">
  <title>".toList ++ escape (orElse p.file "No entry") ++ " - stillframe</title>
  <style>
".toList ++ styles ++ "  </style>
</head>
<body>
  <header class=\"bar\">
    <span id=\"file\">".toList ++ escape (orElse p.file "No entry file") ++ "</span>
    <span id=\"status\" class=\"badge ".toList ++ badgeClass p.conversion.success ++ "\">".toList ++
    badge p.conversion ++ "</span>
  </header>
  <iframe id=\"preview\" title=\"Preview\" sandbox=\"allow-same-origin\" srcdoc=\"".toList ++
    escape p.conversion.html.toList ++ "\"></iframe>
  <script src=\"/__hmr.js\"></script>
</body>
</html>".toList

end StaticPreview.Server.Shell
