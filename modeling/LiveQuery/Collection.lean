import LiveQuery.Change

/-!
# Collections

A collection holds rows by key. It is written in transactions: the writes are checked
one after another, each against what the earlier ones left, and take effect together,
as one batch of changes, or not at all.
-/

namespace LiveQuery

/-- A base collection. Rows may name their own key in the key field, if there is one. -/
structure Collection where
  name : String
  keyField : Option String
  rows : Rows

/-- A single write. -/
inductive Write where
  | insert (key : Key) (row : Row)
  | update (key : Key) (row : Row)
  | delete (key : Key)

def Write.key : Write → Key
  | insert key _ => key
  | update key _ => key
  | delete key => key

/-- Why a collection refused a write. -/
inductive CollectionError where
  | duplicateKey (collection : String) (key : Key)
  | missingKey (collection : String) (key : Key)
  | noKeyField (collection : String)
  | missingKeyField (collection field : String)
deriving DecidableEq

def CollectionError.message : CollectionError → String
  | duplicateKey collection key => "key " ++ key.toText ++ " already present in " ++ collection
  | missingKey collection key => "key " ++ key.toText ++ " not present in " ++ collection
  | noKeyField collection => "collection " ++ collection ++ " has no key field"
  | missingKeyField collection field =>
      "row for " ++ collection ++ " has no value for key field " ++ field

namespace Collection

/-- A collection without rows. -/
def new (name : String) (keyField : Option String) : Collection :=
  ⟨name, keyField, .empty⟩

def get? (c : Collection) (key : Key) : Option Row :=
  c.rows.get? key

/-- Writes that were checked but are not yet in effect, by key; no row stands for a
deletion. -/
abbrev Staged := OrdMap Key (Option Row)

/-- The row at a key as the staged writes leave it. -/
def current (c : Collection) (staged : Staged) (key : Key) : Option Row :=
  match staged.get? key with
  | some row => row
  | none => c.rows.get? key

/-- Checks a write against the staged ones: the change it makes. -/
def check (c : Collection) (staged : Staged) : Write → Except CollectionError Change
  | .insert key row =>
      match c.current staged key with
      | some _ => .error (.duplicateKey c.name key)
      | none => .ok ⟨.insert, key, row⟩
  | .update key row =>
      match c.current staged key with
      | some _ => .ok ⟨.update, key, row⟩
      | none => .error (.missingKey c.name key)
  | .delete key =>
      match c.current staged key with
      | some row => .ok ⟨.delete, key, row⟩
      | none => .error (.missingKey c.name key)

/-- The row that a change leaves at its key. -/
def outcome (change : Change) : Option Row :=
  if change.isUpsert then some change.row else none

/-- Stages writes in order: the staged rows and the changes. -/
def stage (c : Collection) (staged : Staged) :
    List Write → Except CollectionError (Staged × List Change)
  | [] => .ok (staged, [])
  | write :: rest =>
      match c.check staged write with
      | .error e => .error e
      | .ok change =>
          match c.stage (staged.insert change.key (outcome change)) rest with
          | .error e => .error e
          | .ok (staged, changes) => .ok (staged, change :: changes)

/-- Puts the staged rows into effect. -/
def commit (rows : Rows) (staged : Staged) : Rows :=
  staged.entries.foldl (fun rows entry => rows.set entry.1 entry.2) rows

/-- Runs a transaction: the collection after it and its batch of changes. -/
def apply (c : Collection) (writes : List Write) :
    Except CollectionError (Collection × List Change) :=
  match c.stage .empty writes with
  | .error e => .error e
  | .ok (staged, changes) => .ok ({ c with rows := commit c.rows staged }, changes)

/-- The key a row gives itself in the key field. -/
def keyOf (c : Collection) (row : Row) : Except CollectionError Key :=
  match c.keyField with
  | none => .error (.noKeyField c.name)
  | some field =>
      match row.get? field with
      | some value =>
          if value.isNullish then .error (.missingKeyField c.name field)
          else .ok (.ofScalar value)
      | none => .error (.missingKeyField c.name field)

end Collection

end LiveQuery
