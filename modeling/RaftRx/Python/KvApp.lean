import RaftRx.Python.Node

/-!
The key-value application of the Python library (`kv_app.py`).

* `KVApp`: the data and what the file holds;
* `KVApp.apply`, `KVApp.get`: the methods; `apply` may raise.
-/

namespace RaftRx.Python

/-- `KVApp`, with the object its file holds. -/
structure KVApp where
  data : Dict Str Str
  file : Option (Dict Str Str)
  deriving DecidableEq, Repr

namespace KVApp

/-- `KVApp.reload` -/
def reload (app : KVApp) : KVApp := { app with data := app.file.getD [] }

/-- `KVApp.__init__`, with what the file holds. -/
def init (file : Option (Dict Str Str)) : KVApp := reload { data := [], file := file }

/-- `KVApp.save` -/
def save (app : KVApp) : KVApp := { app with file := some app.data }

/-- `KVApp.apply` -/
def apply (app : KVApp) (command : Command) : Option KVApp :=
  if command.op = "set".toList then
    command.value.map fun value => save { app with data := app.data.set command.key value }
  else if command.op = "delete".toList then
    some (save { app with data := app.data.pop command.key })
  else none

/-- `KVApp.get` -/
def get (app : KVApp) (key : Str) : Option Str := Dict.get app.data key

/-- `KVApp.restore_snapshot`; what `KVApp.snapshot` returns are the data. -/
def restoreSnapshot (app : KVApp) (snapshot : Dict Str Str) : KVApp :=
  save { app with data := snapshot }

end KVApp

end RaftRx.Python
