import HotReload.Path.Basic

/-! What the program sees of a file system.
All decisions are taken on a view, which answers the three questions that are ever asked of
a path. Reading can fail in the ways listed here. -/
namespace HotReload

inductive ReadFault where
  | notFound
  | isDirectory
  | notDirectory
  | accessDenied
  | nameTooLong
  | linkLoop
  | nulInPath
  | notText
  /-- The reader was stopped while it waited for content. -/
  | interrupted
deriving Repr, DecidableEq

def ReadFault.message : ReadFault → String
  | .notFound => "No such file or directory (os error 2)"
  | .isDirectory => "Is a directory (os error 21)"
  | .notDirectory => "Not a directory (os error 20)"
  | .accessDenied => "Permission denied (os error 13)"
  | .nameTooLong => "File name too long (os error 36)"
  | .linkLoop => "Too many levels of symbolic links (os error 40)"
  | .nulInPath => "file name contained an unexpected NUL byte"
  | .notText => "stream did not contain valid UTF-8"
  | .interrupted => "Interrupted system call (os error 4)"

structure FileView where
  workingDirectory : Path
  isPresent : Path → Bool
  /-- The absolute path without links that leads to the same place. -/
  canonical : Path → Option Path
  content : Path → Except ReadFault (List UInt8)

namespace FileView

def textOf : Except ReadFault (List UInt8) → Except ReadFault String
  | .error e => .error e
  | .ok bytes =>
    match Utf8.decode? bytes with
    | none => .error .notText
    | some text => .ok text

def readText (view : FileView) (p : Path) : Except ReadFault String := textOf (view.content p)

/-- The canonical form of a path. One that leads nowhere is only made absolute. -/
def normalize (view : FileView) (p : Path) : Path :=
  match view.canonical p with
  | some q => q
  | none => if p.isAbsolute then p else view.workingDirectory.join p

end FileView
end HotReload
