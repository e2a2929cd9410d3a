/-
Requests of the gateway and the errors it answers with.

Only the parts that the authentication and the transactions read are here: the
type of a request, and its session and transaction fields as `extract_common`
returns them.
-/
import DocumentDb.Bson.Value

namespace DocumentDb.Gateway

-- ==== errors

/-- The codes that are used here. -/
inductive ErrorCode where
  | internalError | badValue | unauthorized | authenticationFailed
  | conflictingOperationInProgress | transactionTooOld | noSuchTransaction
  | transactionCommitted | operationNotSupportedInTransaction
  deriving DecidableEq, Repr

/-- What PostgreSQL and the pool report is not looked into. -/
inductive DocumentDBError where
  | documentDB (code : ErrorCode) (message : String)
  | postgres
  | pool
  deriving DecidableEq, Repr

namespace DocumentDBError

variable (message : String)

def unauthorized : DocumentDBError := documentDB .unauthorized message

def badValue : DocumentDBError := documentDB .badValue message

def internalError : DocumentDBError := documentDB .internalError message

/-- Without the text of the parser. -/
def parseFailure : DocumentDBError := badValue "Failed to parse: "

def saslPayloadInvalid : DocumentDBError := unauthorized "Sasl payload invalid."

def pgResponseEmpty : DocumentDBError := internalError "PG returned no rows in response"

end DocumentDBError

def okOr {α : Type} (error : DocumentDBError) : Option α → Except DocumentDBError α
  | some a => .ok a
  | none => .error error

-- ==== requests

inductive RequestType where
  | abortTransaction | aggregate | buildInfo | collMod | collStats
  | commitTransaction | connectionStatus | count | create | createIndex
  | createIndexes | createUser | currentOp | dbStats | delete | distinct | drop
  | dropDatabase | dropIndexes | dropUser | endSessions | explain | find
  | findAndModify | getCmdLineOpts | getDefaultRWConcern | getLog | getMore
  | getParameter | hello | hostInfo | insert | isDBGrid | isMaster | killCursors
  | listCollections | listCommands | listDatabases | listIndexes | logout | ping
  | prepareTransaction | reIndex | renameCollection | reshardCollection
  | saslContinue | saslStart | shardCollection | unshardCollection | update
  | updateUser | usersInfo | validate | whatsMyUri
  deriving DecidableEq, Repr

namespace RequestType

/-- The name that `Display` writes. -/
def name : RequestType → String
  | abortTransaction => "AbortTransaction"
  | aggregate => "Aggregate"
  | buildInfo => "BuildInfo"
  | collMod => "CollMod"
  | collStats => "CollStats"
  | commitTransaction => "CommitTransaction"
  | connectionStatus => "ConnectionStatus"
  | count => "Count"
  | create => "Create"
  | createIndex => "CreateIndex"
  | createIndexes => "CreateIndexes"
  | createUser => "CreateUser"
  | currentOp => "CurrentOp"
  | dbStats => "DbStats"
  | delete => "Delete"
  | distinct => "Distinct"
  | drop => "Drop"
  | dropDatabase => "DropDatabase"
  | dropIndexes => "DropIndexes"
  | dropUser => "DropUser"
  | endSessions => "EndSessions"
  | explain => "Explain"
  | find => "Find"
  | findAndModify => "FindAndModify"
  | getCmdLineOpts => "GetCmdLineOpts"
  | getDefaultRWConcern => "GetDefaultRWConcern"
  | getLog => "GetLog"
  | getMore => "GetMore"
  | getParameter => "GetParameter"
  | hello => "Hello"
  | hostInfo => "HostInfo"
  | insert => "Insert"
  | isDBGrid => "IsDBGrid"
  | isMaster => "IsMaster"
  | killCursors => "KillCursors"
  | listCollections => "ListCollections"
  | listCommands => "ListCommands"
  | listDatabases => "ListDatabases"
  | listIndexes => "ListIndexes"
  | logout => "Logout"
  | ping => "Ping"
  | prepareTransaction => "PrepareTransaction"
  | reIndex => "ReIndex"
  | renameCollection => "RenameCollection"
  | reshardCollection => "ReshardCollection"
  | saslContinue => "SaslContinue"
  | saslStart => "SaslStart"
  | shardCollection => "ShardCollection"
  | unshardCollection => "UnshardCollection"
  | update => "Update"
  | updateUser => "UpdateUser"
  | usersInfo => "UsersInfo"
  | validate => "Validate"
  | whatsMyUri => "WhatsMyUri"

def handleWithAuth : RequestType → Bool
  | logout | saslContinue | saslStart => true
  | _ => false

def allowedUnauthorized : RequestType → Bool
  | isMaster | hello | ping | buildInfo => true
  | _ => false

end RequestType

end DocumentDb.Gateway
