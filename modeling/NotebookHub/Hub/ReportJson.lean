import NotebookHub.Hub.Replay

namespace NotebookHub

def CellReport.toJson (c : CellReport) : Json :=
  .obj [("document", .str c.document), ("kind", .str c.kind.text),
    ("chained_predecessor", Json.orNull .str c.predecessor),
    ("language_id", Json.orNull .str c.language), ("version", Json.orNull .int c.version),
    ("is_open", .bool c.isOpen)]

def NotebookReport.toJson (r : NotebookReport) : Json :=
  .obj [("notebook_uri", .str r.uri), ("notebook_type", .str r.type), ("version", .int r.version),
    ("metadata", r.metadata.toJson), ("cells", .arr (r.cells.map CellReport.toJson)),
    ("chainable", .bool r.chainable), ("errors", .arr (r.errors.map .str))]

def ReplayReport.toJson (r : ReplayReport) : Json :=
  .obj [("events", .int r.events), ("notebooks", .arr (r.notebooks.map NotebookReport.toJson)),
    ("errors", .arr (r.errors.map fun e => .str e.message))]

end NotebookHub
