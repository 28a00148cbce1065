import EscapeRoom.Files.Tree
import EscapeRoom.TileKit.Kit

/-!
# Loading specifications and pictures
-/

namespace EscapeRoom.TileKit

inductive LoadError where
  | file (error : FileTree.JsonError)
  | spec (error : SpecError)
  deriving Repr, DecidableEq

def loadSpec (tree : FileTree) (path : String) : Except LoadError (List Entry) := do
  let spec ← (tree.json path).mapError .file
  (expand spec).mapError .spec

inductive PictureError where
  | file (error : FileError)
  | size (bytes : Nat)
  deriving Repr, DecidableEq

def loadPicture (tree : FileTree) (path : String) : Except PictureError Raster := do
  let file ← (tree.bytes path).mapError .file
  let picture ← (Koala.ofBytes file).mapError .size
  return picture.raster

end EscapeRoom.TileKit
