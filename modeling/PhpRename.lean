import PhpRename.Main
import PhpRename.Proofs.Edit.Kept
import PhpRename.Proofs.Edit.Refusal
import PhpRename.Proofs.Edit.Splice
import PhpRename.Proofs.Ledger.Order
import PhpRename.Proofs.Mention.Apart
import PhpRename.Proofs.Mention.Method
import PhpRename.Proofs.Mention.Renamed
import PhpRename.Proofs.Path.Reduced
import PhpRename.Proofs.Php.Stream
import PhpRename.Proofs.Php.Target
import PhpRename.Proofs.Rename.ClassFile
import PhpRename.Proofs.Rename.ClassPlace
import PhpRename.Proofs.Rename.Declaration
import PhpRename.Proofs.Rename.Graded
import PhpRename.Proofs.Rename.Includes
import PhpRename.Proofs.Rename.Placement
import PhpRename.Proofs.Selection.Wanted
import PhpRename.Proofs.Session.Expansion
import PhpRename.Proofs.Session.Failure
import PhpRename.Proofs.Session.LoneClass
import PhpRename.Proofs.Session.Timid
import PhpRename.Proofs.Session.Told
import PhpRename.Proofs.Survey.Assignments
import PhpRename.Proofs.Survey.Bindings
import PhpRename.Proofs.Survey.Comments
import PhpRename.Proofs.Text.LineTable
