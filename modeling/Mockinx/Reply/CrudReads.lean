import Mockinx.Reply.CrudCommute
import Mockinx.Reply.CrudIdentity
import Mockinx.Reply.CrudIds

/-!
What the answers of a resource tell. A client that follows the answers to all writes knows every
item, and a later read tells it nothing new.
-/

set_option autoImplicit false
set_option relaxedAutoImplicit false

namespace Mockinx

open Lib Lib.Run

namespace CrudStore

variable {o : OverflowChecks} {s s' : CrudStore} {op : CrudOp} {answer : CrudResponse}

end CrudStore

end Mockinx
