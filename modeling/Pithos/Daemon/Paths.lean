import Pithos.Daemon.Sessions
import Pithos.Format.Path
import Pithos.Library.HostFiles

/-!
# Authorised paths

A scope is a list of directories to read below and one to write below.  A client
path is authorised when its canonical form, as far as it exists, lies below one
of them.
-/

namespace Pithos.Daemon

open HostPath
open Fallible
open FileTree
open Utf8

/-! ## Checks -/

/-- The one answer to every path that is not allowed. -/
def pathDenied : JsonRpcError :=
  .domain .permissionDenied "path is outside the allowed scope"

/-- How many roots a scope may name. -/
def maxPathRoots : Nat := 64

/-- How long a path may be when it is read as text. -/
def maxLossyPathBytes : Nat := 32 * 1024

/-- The length of a path as text. -/
def lossyLength (path : Path) : Nat :=
  (toStringLossy path).length

/-- Not empty, not too long and without `..`. -/
def rejectUnsafeSyntax (path : Path) : RpcResult Unit := do
  ensure (path ≠ [] ∧ lossyLength path ≤ maxLossyPathBytes) pathDenied
  ensure (.parentDir ∉ components path) (.domain .unsafePath "unsafe path")

/-- An error of the file system is not told to the client. -/
def orDenied {α : Type} (result : Except IoErrorKind α) : RpcResult α :=
  result.mapError fun _ => pathDenied

/-- The canonical form of one root, which must be a directory and no link. -/
def canonicalRoot (files : HostFiles) (root : Path) : RpcResult Path := do
  rejectUnsafeSyntax root
  let metadata ← orDenied (files.symlinkMetadata root)
  ensure (metadata.isDirectory = true ∧ metadata.isSymlink = false) pathDenied
  orDenied (files.canonicalize root)

/-- All roots in canonical form, when there are not too many. -/
def canonicalRoots (files : HostFiles) (roots : List Path) :
    RpcResult (List Path) := do
  ensure (roots.length ≤ maxPathRoots) (.resourceLimit "too many path roots")
  roots.mapM (canonicalRoot files)

/-- The canonical form of a path whose last names may be missing.  The
components come last first, with the names already found missing. -/
def canonicalizeNearest (files : HostFiles) :
    List Component → List Name → RpcResult Path
  | current, missing =>
      match files.symlinkMetadata (pathText current.reverse) with
      | .ok metadata => do
          ensure (metadata.isDirectory = true ∧ metadata.isSymlink = false)
            pathDenied
          let canonical ← orDenied
            (files.canonicalize (pathText current.reverse))
          .ok (missing.foldl push canonical)
      | .error .notFound =>
          match current with
          | .normal name :: above =>
              canonicalizeNearest files above (name :: missing)
          | _ => .error pathDenied
      | .error _ => .error pathDenied

/-- The canonical form of the nearest ancestor that exists, with the names below
it. -/
def canonicalizeNearestParent (files : HostFiles) (path : Path) :
    RpcResult Path :=
  canonicalizeNearest files (components path).reverse []

/-- No link among the components of a path below a root, as far as they
exist. -/
def rejectSymlinksBelow (files : HostFiles) :
    List Component → List Component → RpcResult Unit
  | _, [] => .ok ()
  | current, component :: rest =>
      match files.symlinkMetadata (pathText (current ++ [component])) with
      | .ok metadata =>
          if metadata.isSymlink then .error pathDenied
          else rejectSymlinksBelow files (current ++ [component]) rest
      | .error .notFound => .ok ()
      | .error _ => .error pathDenied

/-- The last of the roots with the most components. -/
def longestRoot : List Path → Option Path
  | [] => none
  | root :: rest =>
      match longestRoot rest with
      | none => some root
      | some longest =>
          if (components longest).length < (components root).length then
            some root
          else some longest

/-- No component below the longest root above the path is a link. -/
def rejectSymlinkComponents
    (files : HostFiles)
    (path : Path)
    (roots : List Path) : RpcResult Unit := do
  let root ← okOr (longestRoot (roots.filter (startsWith path))) pathDenied
  rejectSymlinksBelow files (components root)
    ((components path).drop (components root).length)

/-! ## The authoriser -/

/-- The canonical roots below which a client may read and write. -/
structure PathAuthorizer where
  readRoots : List Path
  writeRoots : List Path

namespace PathAuthorizer

/-- An authorizer for a scope that names a root. -/
def new (files : HostFiles) (scope : PathScope) : RpcResult PathAuthorizer := do
  ensure (scope.readRoots ≠ [] ∨ scope.writeRoots ≠ []) pathDenied
  let readRoots ← canonicalRoots files scope.readRoots
  let writeRoots ← canonicalRoots files scope.writeRoots
  .ok ⟨readRoots, writeRoots⟩

/-- The canonical form of a path that may be read. -/
def authorizeRead
    (files : HostFiles)
    (authorizer : PathAuthorizer)
    (path : Path) : RpcResult Path := do
  rejectUnsafeSyntax path
  let canonical ← orDenied (files.canonicalize path)
  ensure (authorizer.readRoots.any (startsWith canonical)) pathDenied
  rejectSymlinkComponents files canonical authorizer.readRoots
  .ok canonical

/-- The path below the canonical parent, when it may be written. -/
def authorizeWrite
    (files : HostFiles)
    (authorizer : PathAuthorizer)
    (path : Path) : RpcResult Path := do
  rejectUnsafeSyntax path
  let parent ← okOr (HostPath.parent path) pathDenied
  let canonicalParent ← canonicalizeNearestParent files parent
  ensure (authorizer.writeRoots.any (startsWith canonicalParent)) pathDenied
  rejectSymlinkComponents files canonicalParent authorizer.writeRoots
  let name ← okOr (fileName path) pathDenied
  .ok (push canonicalParent name)

/-- The scope that an authorizer stands for. -/
def scope (authorizer : PathAuthorizer) : PathScope where
  readRoots := authorizer.readRoots
  writeRoots := authorizer.writeRoots

/-- The authoriser of a scope within that of this one. -/
def grant
    (files : HostFiles)
    (authorizer : PathAuthorizer)
    (scope : PathScope) : RpcResult PathAuthorizer := do
  let requested ← new files scope
  ensure ((requested.readRoots.all fun root =>
      authorizer.readRoots.any (startsWith root)) ∧
    requested.writeRoots.all fun root =>
      authorizer.writeRoots.any (startsWith root)) pathDenied
  .ok requested

/-- Before it is used, a path must still be its own canonical form and no link.
-/
def revalidateRead (files : HostFiles) (path : Path) : RpcResult Unit := do
  rejectUnsafeSyntax path
  let metadata ← orDenied (files.symlinkMetadata path)
  ensure (metadata.isSymlink = false) pathDenied
  let current ← orDenied (files.canonicalize path)
  ensure (components current = components path) pathDenied

/-- Before it is used, the parent must still be canonical and the output no
link. -/
def revalidateWrite (files : HostFiles) (path : Path) : RpcResult Unit := do
  rejectUnsafeSyntax path
  let parent ← okOr (HostPath.parent path) pathDenied
  let currentParent ← canonicalizeNearestParent files parent
  ensure (components currentParent = components parent) pathDenied
  match files.symlinkMetadata path with
  | .ok metadata => ensure (metadata.isSymlink = false) pathDenied
  | .error _ => .ok ()

end PathAuthorizer

/-- Authorise a path of a request, in the session and then in the request. -/
def authorizeRead
    (files : HostFiles)
    (session request : PathAuthorizer)
    (path : Path) : RpcResult Path := do
  let path ← session.authorizeRead files path
  request.authorizeRead files path

/-- An output must be allowed by the session and by the request. -/
def authorizeWrite
    (files : HostFiles)
    (session request : PathAuthorizer)
    (path : Path) : RpcResult Path := do
  let path ← session.authorizeWrite files path
  request.authorizeWrite files path

end Pithos.Daemon
