import LiveQuery.Live

/-!
# Sessions

A session holds collections with their listeners, and live queries. A committed write
is told to the listeners of its collection one after another. Listeners of the caller
may call the session again while they are told, and so deliveries nest: what is still
to be done is kept as a stack of tasks, the innermost first. `resume` works tasks off
until a listener of the caller is to be told something, or a call has returned.

Who is to be told is settled when a delivery begins; a subscriber that is gone by then
is left out, one that goes later is not. A live query that is disposed of tells
nobody any more. A live query is given up when it has no owner and no task works on it.
-/

namespace LiveQuery

/-- The number of a live query. -/
abbrev LiveId := Nat

/-- Who listens to a collection: the caller, or a live query. -/
inductive Listener where
  | caller (tag : Tag)
  | live (id : LiveId)
deriving DecidableEq

/-- A collection with its listeners. -/
structure Store where
  collection : Collection
  listeners : OrdMap Nat Listener := OrdMap.empty
  nextListener : Nat := 0

instance : Inhabited Store := ⟨{ collection := .new "" none }⟩

/-- A listener's place at a collection or at a live query. -/
inductive Subscription where
  | collection (id : CollectionId) (key : Nat)
  | live (id : LiveId) (key : Nat)
deriving DecidableEq

/-- What is still to be done. -/
inductive Task where
  /-- Tell a batch of a collection to the listeners that are left. -/
  | notify (collection : CollectionId) (batch : List Change) (listeners : List Listener)
  /-- Work off the queue of a live query. -/
  | workOff (live : LiveId)
  /-- Tell changes of the output to the subscribers that are left. -/
  | deliver (live : LiveId) (changes : List Change) (subscribers : List Tag)
  /-- Tell an error to the error listeners that are left. -/
  | alarm (error : LiveError) (listeners : List Tag)
  /-- Take back the subscription of a caller that the live query failed for. -/
  | retire (live : LiveId) (key : Nat)
  /-- Return from a call on a live query, or on a collection. -/
  | finish (live : Option LiveId)

/-- What the caller is told. -/
inductive Signal where
  | batch (listener : Tag) (changes : List Change)
  | alarm (listener : Tag) (error : LiveError)
  | returned

structure Session where
  plan : Plan
  stores : List Store
  lives : List Live := []
  tasks : List Task := []

namespace Task

/-- Whether a task works on a live query, which is kept until it is done. -/
def holds (id : LiveId) : Task → Bool
  | workOff live => live = id
  | finish live => live = some id
  | _ => false

/-- How many steps a task can take at most until the caller is told something, those of
the tasks that it makes included. -/
def weight : Task → Nat
  | notify _ _ listeners => 1 + 4 * listeners.length
  | _ => 1

end Task

namespace Session

instance : Inhabited Session := ⟨{ plan := {}, stores := [] }⟩

/-! ## Parts -/

def store (s : Session) (id : CollectionId) : Store :=
  s.stores.getD id default

def live? (s : Session) (id : LiveId) : Option Live :=
  s.lives[id]?

def modifyStore (s : Session) (id : CollectionId) (f : Store → Store) : Session :=
  { s with stores := s.stores.modify id f }

def modifyLive (s : Session) (id : LiveId) (f : Live → Live) : Session :=
  { s with lives := s.lives.modify id f }

def push (s : Session) (task : Task) : Session :=
  { s with tasks := task :: s.tasks }

/-- The current rows of a collection. -/
def contents (s : Session) (id : CollectionId) : Rows :=
  (s.store id).collection.rows

/-- Whether a live query has an owner or a task that works on it. -/
def keeps (s : Session) (id : LiveId) : Bool :=
  match s.live? id with
  | some live => live.handles ≠ 0 || s.tasks.any (Task.holds id)
  | none => false

/-! ## Subscriptions to collections -/

/-- Adds a listener to a collection, under a new key. -/
def listenAs (s : Session) (id : CollectionId) (listener : Listener) : Session × Nat :=
  let key := (s.store id).nextListener
  (s.modifyStore id fun store =>
    { store with
      listeners := store.listeners.insert key listener
      nextListener := key + 1 },
   key)

def unlisten (s : Session) (id : CollectionId) (key : Nat) : Session :=
  s.modifyStore id fun store => { store with listeners := store.listeners.erase key }

/-- Ends the subscriptions of a live query to collections. -/
def unlistenAll (s : Session) : List (CollectionId × Nat) → Session
  | [] => s
  | (id, key) :: rest => (s.unlisten id key).unlistenAll rest

/-- Subscribes a live query to collections, each once. -/
def listenAll (s : Session) (live : LiveId) :
    List CollectionRef → Session × List (CollectionId × Nat)
  | [] => (s, [])
  | ref :: rest =>
      let (s, key) := s.listenAs ref.id (.live live)
      let (s, listening) := s.listenAll live rest
      (s, (ref.id, key) :: listening)

/-- Gives a live query up, unless it is kept. -/
def giveUp (s : Session) (id : LiveId) : Session :=
  match s.live? id with
  | none => s
  | some live =>
      if s.keeps id then s
      else (s.unlistenAll live.listening).modifyLive id fun live => { live with listening := [] }

/-! ## Output of live queries -/

/-- Puts out changes: to the subscribers, or into the buffer before there are any. -/
def putOut (s : Session) (id : LiveId) (changes : List Change) : Session :=
  match s.live? id with
  | none => s
  | some live =>
      if changes.isEmpty || live.status = .disposed then s
      else if live.subscribed then s.push (.deliver id changes live.listeners.values)
      else if live.options.bufferUntilSubscribed then
        s.modifyLive id fun live => { live with buffer := live.buffer ++ changes }
      else s

/-- Stops a live query at an error, and tells its error listeners. -/
def halt (s : Session) (id : LiveId) (error : EvalError) : Session :=
  match s.live? id with
  | none => s
  | some live =>
      let s := s.modifyLive id fun live => live.halt error
      if live.errorListeners.isEmpty then s
      else s.push (.alarm (.eval live.id error) live.errorListeners)

/-- Evaluates an idle live query and puts out its first output. If this fails, given
tasks follow when the error listeners have been told. -/
def start (s : Session) (id : LiveId) (live : Live) (whenFailed : List Task) :
    Session × Except LiveError Unit :=
  match Engine.load s.contents live.engine with
  | .ok _ engine =>
      let ready := { live with engine, status := .ready }
      let s := s.modifyLive id fun _ => ready
      (s.putOut id ready.insertions, .ok ())
  | .error error engine =>
      let s := { s with tasks := whenFailed ++ s.tasks }
      let s := s.modifyLive id fun live => { live with engine }
      (s.halt id error, .error (.eval live.id error))

/-- Evaluates a live query, unless it is ready or has stopped. -/
def ensureReady (s : Session) (id : LiveId) (live : Live) : Session × Except LiveError Unit :=
  match live.check with
  | .error error => (s, .error error)
  | .ok () => if live.status = .ready then (s, .ok ()) else s.start id live []

/-- Hands a batch to a live query. One that is not ready lets it go by. -/
def accept (s : Session) (id : LiveId) (collection : CollectionId) (batch : List Change) :
    Session :=
  match s.live? id with
  | none => s
  | some live =>
      if !s.keeps id || live.status ≠ .ready then s
      else
        let queued := s.modifyLive id fun live => live.enqueue collection batch
        if live.busy then queued else queued.push (.workOff id)

/-- Applies a batch to a live query and puts out the changes of its output. -/
def process (s : Session) (id : LiveId) (live : Live) (collection : CollectionId)
    (batch : List Change) : Session :=
  match Engine.apply collection batch live.engine with
  | .ok changes engine => (s.modifyLive id fun live => { live with engine }).putOut id changes
  | .error error engine => (s.modifyLive id fun live => { live with engine }).halt id error

/-! ## Tasks -/

/-- Works off the next batch of a live query, below the other tasks. When none is left,
or the query has stopped, it is not busy any more. -/
def workOffNext (s : Session) (id : LiveId) (others : List Task) : Session :=
  match s.live? id with
  | none => { s with tasks := others }
  | some live =>
      match live.status, live.queue with
      | .ready, (collection, batch) :: queue =>
          let s := s.modifyLive id fun live => { live with queue }
          s.process id live collection batch
      | _, _ => ({ s with tasks := others }.modifyLive id Live.rest).giveUp id

/-- One step of the innermost task, with what the caller is told by it. -/
def step (s : Session) : Session × Option Signal :=
  match s.tasks with
  | [] => (s, some .returned)
  | .notify _ _ [] :: others => ({ s with tasks := others }, none)
  | .notify id batch (listener :: rest) :: others =>
      let s := { s with tasks := .notify id batch rest :: others }
      match listener with
      | .caller tag => (s, some (.batch tag batch))
      | .live live => (s.accept live id batch, none)
  | .workOff id :: others => (s.workOffNext id others, none)
  | .deliver _ _ [] :: others => ({ s with tasks := others }, none)
  | .deliver id changes (tag :: rest) :: others =>
      match (s.live? id).map Live.status with
      | some .disposed => ({ s with tasks := others }, none)
      | _ => ({ s with tasks := .deliver id changes rest :: others }, some (.batch tag changes))
  | .alarm _ [] :: others => ({ s with tasks := others }, none)
  | .alarm error (tag :: rest) :: others =>
      ({ s with tasks := .alarm error rest :: others }, some (.alarm tag error))
  | .retire id key :: others =>
      ({ s with tasks := others }.modifyLive id fun live => live.removeListener key, none)
  | .finish none :: others => ({ s with tasks := others }, some .returned)
  | .finish (some id) :: others => ({ s with tasks := others }.giveUp id, some .returned)

/-- How many steps there can be until the caller is told something. A batch in a queue
is taken out in one step and delivered in another one; to tell a batch to a live query
is a step that may queue it and make a task to work it off. -/
def weight (s : Session) : Nat :=
  let ofTasks := s.tasks.foldr (fun task n => task.weight + n) 0
  s.lives.foldr (fun live n => 2 * live.queue.length + n) ofTasks

/-- Takes steps, a given number at most, until the caller is told something. -/
def run : Nat → Session → Session × Signal
  | 0, s => (s, .returned)
  | n + 1, s =>
      match s.step with
      | (s, some signal) => (s, signal)
      | (s, none) => run n s

/-- Goes on until the caller is told something. -/
def resume (s : Session) : Session × Signal :=
  run (s.weight + 1) s

/-! ## Calls on collections -/

/-- Runs a transaction. The call returns when all listeners have been told. -/
def write (s : Session) (id : CollectionId) (writes : List Write) :
    Session × Except CollectionError Unit :=
  let called := s.push (.finish none)
  match (s.store id).collection.apply writes with
  | .error error => (called, .error error)
  | .ok (collection, changes) =>
      let written := called.modifyStore id fun store => { store with collection }
      if changes.isEmpty then (written, .ok ())
      else (written.push (.notify id changes (s.store id).listeners.values), .ok ())

/-- Inserts a row under the key it gives itself. -/
def insertRow (s : Session) (id : CollectionId) (row : Row) :
    Session × Except CollectionError Key :=
  match (s.store id).collection.keyOf row with
  | .error error => (s.push (.finish none), .error error)
  | .ok key =>
      let (s, outcome) := s.write id [.insert key row]
      (s, outcome.map fun () => key)

/-- Subscribes the caller to the batches of a collection. -/
def listen (s : Session) (id : CollectionId) (tag : Tag) : Session × Subscription :=
  let (s, key) := s.listenAs id (.caller tag)
  (s, .collection id key)

/-- Ends a subscription of the caller. -/
def unsubscribe (s : Session) : Subscription → Session
  | .collection id key => s.unlisten id key
  | .live id key => s.modifyLive id fun live => live.removeListener key

/-! ## Calls on live queries -/

/-- Makes a query live. One that is to be evaluated at once and fails is given up. -/
def materialize (s : Session) (query : BodyId) (options : LiveOptions) :
    Session × Except LiveError LiveId :=
  match Engine.ofQuery s.plan query options.policy with
  | .error error => (s, .error (.build error))
  | .ok engine =>
      let id := s.lives.length
      let (s, listening) := s.listenAll id engine.collections
      let live : Live := { options, engine, listening }
      let s := { s with lives := s.lives ++ [live] }
      if options.startPreloaded then
        match s.start id live [] with
        | (s, .ok ()) => (s, .ok id)
        | (s, .error error) =>
            ((s.modifyLive id fun live => { live with handles := 0 }).giveUp id, .error error)
      else (s, .ok id)

/-- Evaluates a live query. The call returns when its output has been delivered. -/
def preload (s : Session) (id : LiveId) : Session × Except LiveError Unit :=
  let called := s.push (.finish (some id))
  match s.live? id with
  | none => (called, .error (.disposed (toString id)))
  | some live => called.ensureReady id live

/-- Subscribes the caller to the output of a live query. The first subscriber is told
all output so far, later ones the current output. The call returns when they have
been. -/
def subscribe (s : Session) (id : LiveId) (tag : Tag) :
    Session × Except LiveError Subscription :=
  let called := s.push (.finish (some id))
  match s.live? id with
  | none => (called, .error (.disposed (toString id)))
  | some live =>
      match live.check with
      | .error error => (called, .error error)
      | .ok () =>
          let key := live.nextListener
          let joined := called.modifyLive id fun live => live.addListener tag
          if live.status = .idle then
            match joined.start id (live.addListener tag) [.retire id key] with
            | (s, .ok ()) => (s, .ok (.live id key))
            | (s, .error error) => (s, .error error)
          else
            let told :=
              if live.welcome.isEmpty then joined
              else joined.push (.deliver id live.welcome [tag])
            (told.modifyLive id fun after =>
              if live.subscribed then after else { after with buffer := [] },
             .ok (.live id key))

/-- Tells the caller when a live query fails. -/
def onError (s : Session) (id : LiveId) (tag : Tag) : Session :=
  s.modifyLive id fun live => { live with errorListeners := live.errorListeners ++ [tag] }

/-- Ends a live query for good. -/
def dispose (s : Session) (id : LiveId) : Session :=
  match s.live? id with
  | none => s
  | some live =>
      if live.status = .disposed then s
      else (s.unlistenAll live.listening).modifyLive id Live.dispose

/-- Gives a live query one more owner. -/
def retain (s : Session) (id : LiveId) : Session :=
  s.modifyLive id fun live => { live with handles := live.handles + 1 }

/-- Takes an owner from a live query. -/
def release (s : Session) (id : LiveId) : Session :=
  (s.modifyLive id fun live => { live with handles := live.handles - 1 }).giveUp id

end Session

end LiveQuery
