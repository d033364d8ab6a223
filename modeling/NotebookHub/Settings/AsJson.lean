import NotebookHub.Json.Value
import NotebookHub.Settings.Basic

namespace NotebookHub.Settings

def toJson (s : Settings) : Json :=
  .obj [("cell_language", .str s.cellLanguage), ("notebook_type", .str s.notebookType),
    ("report_unmatched_cell_data", .bool s.reportUnmatched),
    ("rechain_on_open", .bool s.rechainOnOpen), ("default_workspace", .bool s.defaultWorkspace),
    ("log_level", .str s.logLevel)]

def selection (s : Settings) : Json :=
  .obj [("notebookSelector", .arr [
    .obj [("notebook", .str s.notebookType),
      ("cells", .arr [.obj [("language", .str s.cellLanguage)]])]])]

end NotebookHub.Settings
