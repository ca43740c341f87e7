/-
Module: TextEditing.Options.ProjectLayout
Purpose: Where the folders of a project stand in the workspace.
Main exports: ProjectLayout, ProjectLayout.container, ProjectLayout.folderContainer
-/
import TextEditing.Text.Blank

namespace TextEditing

/-!
A container is named by its path from the root of the workspace.  The path ends in a slash, so that
the name of a file can be put behind it.
-/

/-- The layout of the project with a name. -/
structure ProjectLayout where
  name : String
deriving Repr, Inhabited, DecidableEq

namespace ProjectLayout

/-- A slash or a backslash. -/
def isSeparator (c : Char) : Bool := c == '/' || c == '\\'

/-- The container of the project. -/
def container (layout : ProjectLayout) : String :=
  "/" ++ String.ofList (stripped (· == '/') layout.name.toList) ++ "/"

/-- The container of a folder of the project, whatever separators the folder is given with; a
folder without a name is the project itself. -/
def folderContainer (layout : ProjectLayout) (folder : String) : String :=
  match stripped isSeparator folder.toList with
  | [] => layout.container
  | inner =>
      layout.container
        ++ String.ofList (inner.map fun c => if c = '\\' then '/' else c) ++ "/"

end ProjectLayout

end TextEditing
