import KioExtras.Lib.Paths

/-!
What a URL of the worker names: a device, an app on it or none, and a path.
-/

namespace KioExtras.Afc

open KioExtras.Lib.Paths

abbrev Text := List Char

/-- What the worker reads off a `QUrl`. -/
structure QUrl where
  isValid : Bool
  scheme : Text
  host : Text
  path : Text

def QUrl.toDisplayString (url : QUrl) : Text := url.scheme ++ "://".toList ++ url.host ++ url.path

inductive BrowseMode
  | None
  | FileSystem
  | Apps
  deriving DecidableEq

def appsTag : Text := "@apps".toList

def appsPrefix : Text := '/' :: appsTag

structure AfcUrl where
  url : QUrl
  browseMode : BrowseMode
  device : Text
  appId : Text
  path : Text

def slashAfterAppIdx (path : Text) : ℕ :=
  match (path.drop 1).idxOf? '/' with
  | some i => i + 1
  | none => path.length

def AfcUrl.of (url : QUrl) : AfcUrl :=
  if url.isValid = false ∨ url.scheme ≠ "afc".toList then ⟨url, .None, [], [], []⟩
  else
    let device := url.host.map Char.toUpper
    let cleared (path : Text) : Text := if path = ['/'] then [] else path
    if url.path = appsPrefix ∨ appsPrefix ++ ['/'] <+: url.path then
      let path := url.path.drop appsPrefix.length
      ⟨url, .Apps, device, (path.drop 1).take (slashAfterAppIdx path - 1),
        cleared (path.drop (slashAfterAppIdx path))⟩
    else ⟨url, .FileSystem, device, [], cleared url.path⟩

abbrev Key := List (Name '/')

def Key.step (key : Key) (name : Name '/') : Key :=
  if name.text = ['.'] then key
  else if name.text = ['.', '.'] then key.dropLast
  else key ++ [name]

/-- Where a path leads, from the root that the device gives a client. -/
def placeOf (path : Text) : Key := (names path).foldl Key.step []

def AfcUrl.place (afcUrl : AfcUrl) : Key := placeOf afcUrl.path

end KioExtras.Afc
