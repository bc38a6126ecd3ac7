import ClassCoupling.FileTree.Basic

/-!
# Guards

Checks made before a path is used: symbolic links are not read or written through, and files have to
be regular and of a reasonable size.
-/

namespace ClassCoupling.FileTree

inductive GuardFault where
  | unknownBefore (operation path : String) (error : SystemError)
  | linkRefused (operation path : String)
  | unknownMetadata (description : String) (error : SystemError)
  | linkSkipped (description path : String)
  | notRegular (path : String)
  | tooLarge (path : String) (size limit : Nat)
  deriving DecidableEq, Repr

def GuardFault.message : GuardFault → String
  | unknownBefore operation path error =>
    "Failed to read metadata before " ++ operation ++ " of " ++ path ++ ": " ++ error.describe
  | linkRefused operation path =>
    "Security: " ++ path ++ " is a symbolic link; refusing to " ++ operation ++ " through it."
  | unknownMetadata description error =>
    "Failed to read " ++ description ++ " metadata: " ++ error.describe
  | linkSkipped description path =>
    "Security: " ++ description ++ " " ++ path ++
      " is a symbolic link; symbolic links are skipped."
  | notRegular path => path ++ " is not a regular file"
  | tooLarge path size limit =>
    "Security: " ++ path ++ " is too large (" ++ toString size ++ " bytes, limit " ++
      toString limit ++ " bytes)."

/-- Refuses a symbolic link. -/
def requireNoLink (t : FileTree) (operation path : String) : Except GuardFault Unit :=
  match t.find false path with
  | .error error => .error (.unknownBefore operation (Path.shown path) error)
  | .ok (.link _) => .error (.linkRefused operation (Path.shown path))
  | .ok _ => .ok ()

/-- Refuses everything but a file. -/
def requireFile (t : FileTree) (description path : String) : Except GuardFault Unit :=
  match t.find false path with
  | .error error => .error (.unknownMetadata description error)
  | .ok (.link _) => .error (.linkSkipped description (Path.shown path))
  | .ok .directory => .error (.notRegular (Path.shown path))
  | .ok (.file _) => .ok ()

def requireSize (path : String) (size limit : Nat) : Except GuardFault Unit :=
  if limit < size then .error (.tooLarge (Path.shown path) size limit) else .ok ()

end ClassCoupling.FileTree
