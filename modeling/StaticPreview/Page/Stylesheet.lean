import StaticPreview.Disk.Basic
import StaticPreview.Page.Document

/-! # Stylesheets

A project has a stylesheet of its own or the built-in one. Of the built-in stylesheet there is a
short form; any other text has none and is kept as it is.
-/
namespace StaticPreview.Page

def shortDefaultStylesheet : String :=
  "*,:before,:after\x7bbox-sizing:border-box\x7dbody\x7bmargin:0;" ++
  "font-family:system-ui,-apple-system,Segoe UI,sans-serif;line-height:1.5;" ++
  "color:#111827;background:#fff\x7d#root\x7bpadding:1rem\x7dimg\x7bmax-width:100%\x7d" ++
  ".sf-dynamic\x7bcolor:#9ca3af;font-style:italic\x7d" ++
  ".sf-notice\x7bmax-width:40rem;margin:2rem auto;padding:1.25rem 1.5rem;" ++
  "border:1px solid #e5e7eb;border-radius:.5rem;background:#f9fafb\x7d" ++
  ".sf-notice h1\x7bmargin:0 0 .5rem;font-size:1.125rem\x7d" ++
  ".sf-notice p\x7bmargin:.25rem 0;color:#4b5563\x7d" ++
  ".sf-notice code\x7bfont-family:ui-monospace,monospace;font-size:.875em\x7d" ++
  ".sf-error\x7bborder-color:#fecaca;background:#fef2f2\x7d" ++
  ".sf-error pre\x7bwhite-space:pre-wrap;color:#991b1b\x7d"

def minify (stylesheet : String) : String :=
  if stylesheet = defaultStylesheet then shortDefaultStylesheet else stylesheet

structure StylesheetError where
  path : String
  cause : DiskError
  deriving DecidableEq, Repr

def StylesheetError.message (e : StylesheetError) : String :=
  "Failed to read stylesheet " ++ e.path ++ ": " ++ e.cause.message

def loadStylesheet (d : Disk) (path : Option String) (short : Bool) :
    Except StylesheetError String := do
  let stylesheet ←
    match path with
    | some p => (d.read p).mapError fun cause => ⟨p, cause⟩
    | none => pure defaultStylesheet
  return if short then minify stylesheet else stylesheet

end StaticPreview.Page
