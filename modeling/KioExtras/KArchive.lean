/-!
Archives, as the worker and the thumbnailers get them from KArchive.
-/

namespace KioExtras.KArchive

abbrev Text := List Char

/-- An entry of an archive. A directory has its entries under their names, each name once. -/
inductive KArchiveEntry
  | file (size : Int64) (data : List UInt8)
  | directory (entries : List Text) (nodup : entries.Nodup) (entry : Text → KArchiveEntry)

end KioExtras.KArchive
