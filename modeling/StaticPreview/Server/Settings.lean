import StaticPreview.Disk.Basic
import StaticPreview.Page.Document

/-! # Settings of a preview server -/
namespace StaticPreview.Server

structure Settings where
  root : RawText
  sourceFolder : RawText
  entry : Option String
  port : Nat
  host : String
  opensBrowser : Bool
  stylesheet : String
  deriving DecidableEq, Repr

namespace Settings

def default : Settings := ⟨".", "src", none, 7777, "127.0.0.1", true, Page.defaultStylesheet⟩

def publicFolder (s : Settings) : RawText := Path.join s.root "public"

def address (s : Settings) : String := s.host ++ ":" ++ toString s.port

/-- The settings with paths from the top folder, so that a path that is reported from there can be
compared with them. -/
def resolve (d : Disk) (s : Settings) : Settings :=
  { s with root := d.resolve s.root, sourceFolder := d.resolve s.sourceFolder }

end Settings
end StaticPreview.Server
