import OnlineChat.Database
import OnlineChat.MiniJson
import OnlineChat.Protocol
import OnlineChat.RoomRouter

/-!
# Frames of the server

The objects that the server sends, field by field in the order of the source.
-/

namespace OnlineChat

open MiniJson

/-- The name the server gives itself in `from`. -/
def serverName : Bytes := bytes "SERVER"

/-- `ver`, `type`, `from`, `to` and `room`, with which every frame starts. -/
def header (type sender receiver room : Bytes) : Object :=
  ((((({} : Object).setNum (bytes "ver") 1).setStr (bytes "type") type).setStr
    (bytes "from") sender).setStr (bytes "to") receiver).setStr (bytes "room") room

/-- A frame whose content is a text. -/
def textFrame (type receiver room content : Bytes) (ts : Int) : Object :=
  ((header type serverName receiver room).setStr (bytes "content") content).setNum (bytes "ts") ts

def errFrame (receiver : Bytes) (code : ErrorCode) (text : Bytes) (ts : Int) : Object :=
  (((header (bytes "ERR") serverName receiver []).setNum (bytes "code") code.value).setStr
    (bytes "content") text).setNum (bytes "ts") ts

/-- The notice of `notifyOverpressure`. -/
def overpressureFrame (receiver : Bytes) (ts : Int) : Object :=
  errFrame receiver .backpressure (bytes "发送积压超限（读取过慢）：连接将被关闭，请稍后慢速重连") ts

def pongFrame (receiver content : Bytes) (ts : Int) : Object :=
  textFrame (bytes "PONG") receiver [] content ts

def ackFrame (receiver : Bytes) (clientSeq ts : Int) : Object :=
  textFrame (bytes "ACK") receiver [] (toDecimal clientSeq) ts

/-- `code` is only on the wire when it is positive. -/
def nackFrame (receiver : Bytes) (clientSeq : Int) (reason : Bytes) (code : Option ErrorCode)
    (ts : Int) : Object :=
  let nack := ((header (bytes "NACK") serverName receiver []).setStr (bytes "content")
    (toDecimal clientSeq)).setStr (bytes "reason") reason
  (match code with
    | some code => nack.setNum (bytes "code") code.value
    | none => nack).setNum (bytes "ts") ts

def challengeFrame (receiver nonceHex saltHex : Bytes) (ts : Int) : Object :=
  (((header (bytes "CHALLENGE") serverName receiver []).setStr (bytes "content") nonceHex).setStr
    (bytes "salt") saltHex).setNum (bytes "ts") ts

def authOkFrame (receiver room token : Bytes) (exp ts : Int) : Object :=
  (((header (bytes "AUTH_OK") serverName receiver room).setStr (bytes "content") token).setNum
    (bytes "exp") exp).setNum (bytes "ts") ts

def registerOkFrame (receiver : Bytes) (ts : Int) : Object :=
  textFrame (bytes "REGISTER_OK") receiver [] (bytes "注册成功，请登录") ts

def systemFrame (receiver room content : Bytes) (ts : Int) : Object :=
  textFrame (bytes "SYSTEM") receiver room content ts

/-- A frame whose content is a list of names. -/
def listFrame (type receiver room : Bytes) (names : List Bytes) (ts : Int) : Object :=
  ((header type serverName receiver room).setList (bytes "content") names).setNum (bytes "ts") ts

def userlistFrame (room : Bytes) (names : List Bytes) (ts : Int) : Object :=
  listFrame (bytes "USERLIST") (bytes "ALL") room names ts

def joinOkFrame (receiver room : Bytes) (names : List Bytes) (ts : Int) : Object :=
  listFrame (bytes "JOIN_OK") receiver room names ts

def leaveOkFrame (receiver room : Bytes) (ts : Int) : Object :=
  textFrame (bytes "LEAVE_OK") receiver room (bytes "已离开房间 " ++ room) ts

def createOkFrame (receiver room : Bytes) (ts : Int) : Object :=
  textFrame (bytes "CREATE_OK") receiver room
    (bytes "房间 " ++ room ++ bytes " 创建成功，用 /join " ++ room ++ bytes " 加入") ts

def roomItem (r : RoomInfo) : Object :=
  (((({} : Object).setStr (bytes "name") r.name).setStr (bytes "owner") r.owner).setNum
    (bytes "members") r.members.size).setNum (bytes "created_at") r.createdAt

def roomsListFrame (receiver : Bytes) (rooms : List RoomInfo) (ts : Int) : Object :=
  ((header (bytes "ROOMS_LIST") serverName receiver []).setObjs (bytes "content")
    (rooms.map roomItem)).setNum (bytes "ts") ts

def historyItem {Call : Type} (row : Int × Message Call) : Object :=
  (((((({} : Object).setNum (bytes "id") row.1).setStr (bytes "from") row.2.sender).setStr
    (bytes "to") row.2.receiver).setStr (bytes "content") row.2.content).setNum
    (bytes "ts") row.2.ts).setStr (bytes "type") row.2.type

/-- A page of `HISTORY` or `INBOX`: the rows, newest first as they were read, are sent
oldest first with the cursor of the oldest. -/
def pageFrame {Call : Type} (kind receiver room : Bytes) (rows : List (Int × Message Call))
    (more : Bool) (ts : Int) : Object :=
  let cursor :=
    match rows.getLast? with
    | some row => formatCursor row.2.ts row.1
    | none => []
  ((((header kind serverName receiver room).setObjs (bytes "content")
    (rows.reverse.map historyItem)).setStr (bytes "cursor") cursor).setNum (bytes "more")
    (if more then 1 else 0)).setNum (bytes "ts") ts

/-- A chat message as it is relayed to a room or to its receiver. -/
def messageFrame (sender receiver room content : Bytes) (ts : Int) : Object :=
  ((header (bytes "MESSAGE") sender receiver room).setStr (bytes "content") content).setNum
    (bytes "ts") ts

/-- A stored message that is pushed at the next login. -/
def offlineFrame (receiver : Bytes) (row : OffRow) : Object :=
  (messageFrame row.sender receiver [] row.content row.ts).setNum (bytes "offline") 1

end OnlineChat
