import LiveQuery.Live.Error
import LiveQuery.Live.Options

/-!
# Live queries

A live query runs an engine on the batches of the collections that its query reads and
tells its subscribers about the changes of the output. It is idle until it has been
evaluated for the first time; output from before the first subscriber is kept for it.
Batches wait in a queue, so that each is worked off before the next one.
-/

namespace LiveQuery

/-- The name under which a caller knows a listener of its own. -/
abbrev Tag := Nat

inductive Status where
  | idle
  | ready
  | errored
  | disposed
deriving DecidableEq

def Status.name : Status → String
  | idle => "idle"
  | ready => "ready"
  | errored => "errored"
  | disposed => "disposed"

/-- A live query. `listening` holds its subscriptions to collections, `handles` counts the
owners it has. While it is busy, a batch that comes in waits for those before it. -/
structure Live where
  options : LiveOptions
  engine : Engine
  status : Status := .idle
  error : Option LiveError := none
  handles : Nat := 1
  listening : List (CollectionId × Nat) := []
  queue : List (CollectionId × List Change) := []
  busy : Bool := false
  listeners : OrdMap Nat Tag := OrdMap.empty
  nextListener : Nat := 0
  errorListeners : List Tag := []
  subscribed : Bool := false
  buffer : List Change := []

namespace Live

def id (live : Live) : String :=
  live.options.id

/-- The error of a live query that is not running. -/
def check (live : Live) : Except LiveError Unit :=
  match live.status with
  | .disposed => .error (.disposed live.id)
  | .errored => .error (live.error.getD (.disposed live.id))
  | .idle => .ok ()
  | .ready => .ok ()

/-- The current output as insertions. -/
def insertions (live : Live) : List Change :=
  live.engine.snapshot.map fun entry => ⟨.insert, entry.1, entry.2⟩

/-- Adds a listener under a new key. -/
def addListener (live : Live) (tag : Tag) : Live :=
  { live with
    listeners := live.listeners.insert live.nextListener tag
    nextListener := live.nextListener + 1
    subscribed := true }

def removeListener (live : Live) (key : Nat) : Live :=
  { live with listeners := live.listeners.erase key }

/-- Stops at an error of evaluation. -/
def halt (live : Live) (error : EvalError) : Live :=
  { live with status := .errored, error := some (.eval live.id error) }

/-- Stops and forgets everyone and everything that waits. -/
def dispose (live : Live) : Live :=
  { live with
    status := .disposed
    listening := []
    queue := []
    listeners := OrdMap.empty
    errorListeners := []
    buffer := [] }

/-- Puts a batch at the end of the queue. -/
def enqueue (live : Live) (collection : CollectionId) (batch : List Change) : Live :=
  { live with queue := live.queue ++ [(collection, batch)], busy := true }

/-- Ends being busy, with an empty queue. -/
def rest (live : Live) : Live :=
  { live with queue := [], busy := false }

/-- What a new subscriber is told at first when the query has been evaluated: the first
one what was kept for it, others the current output. -/
def welcome (live : Live) : List Change :=
  if !live.subscribed && live.options.bufferUntilSubscribed then live.buffer
  else live.insertions

end Live

end LiveQuery
