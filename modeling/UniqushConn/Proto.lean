import UniqushConn.Go

/- The `proto` package's values as the server code sees them: messages, commands, and
   the frames handed to the writer. The package's code (framing, encryption, the key
   exchange) is not in this repository's files; a frame here is what the server asks
   to be written, `WriteMessage(msg, compress)` or `WriteCommand(cmd, compress)`. -/
namespace UniqushConn.Proto

/-- `proto.Message`. A nil header is the empty map. -/
structure Message where
  id : String := ""
  sender : String := ""
  senderService : String := ""
  header : StrMap := ∅
  body : List UInt8 := []
  deriving DecidableEq

/-- The command types. `other` is a type byte that names none of the commands the
server handles. -/
inductive CmdType where
  | cmdDigest
  | cmdSubscription
  | cmdSetVisibility
  | cmdFwdReq
  | cmdSetting
  | cmdMsgRetrieve
  | cmdReqAllCached
  | other (code : Nat)
  deriving DecidableEq, Repr

/-- `proto.Command`. -/
structure Command where
  type : CmdType
  params : List String := []
  message : Option Message := none
  deriving DecidableEq

/-- A frame handed to the writer, with its compression flag. -/
inductive Frame where
  /-- `WriteMessage(msg, compress)`. -/
  | message (msg : Message) (compress : Bool)
  /-- `WriteCommand(cmd, compress)`. -/
  | command (cmd : Command) (compress : Bool)
  deriving DecidableEq

namespace Frame

def compress : Frame → Bool
  | message _ b => b
  | command _ b => b

/-- Whether the frame is a `CMD_DIGEST` command. -/
def isDigest : Frame → Bool
  | message _ _ => false
  | command cmd _ => cmd.type == .cmdDigest

@[simp] theorem compress_message (m : Message) (b : Bool) : (message m b).compress = b := rfl
@[simp] theorem compress_command (c : Command) (b : Bool) : (command c b).compress = b := rfl
@[simp] theorem isDigest_message (m : Message) (b : Bool) : (message m b).isDigest = false := rfl

end Frame

end UniqushConn.Proto
