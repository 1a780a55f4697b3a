import ShipBridge.Json.Basic
import ShipBridge.Retry

/-!
# Settings

Where the ship and its language server are found, how long to wait, and how often to try again,
with the values that hold unless others are given.
-/

namespace ShipBridge

structure ShipAddress where
  baseUrl : String := "http://localhost"
  port : Nat := 8080
  cookies : List String := []
  reconnect : Retry.Policy :=
    { maxAttempts := 10, baseDelay := .ofMillis 500, maxDelay := .ofSeconds 30 }
  requestTimeout : Duration := .ofSeconds 15

namespace ShipAddress

def defaultShip : String := "zod"

/-- The login code of a ship run for development. -/
def defaultCode : String := "lidlut-tabwed-pillex-ridrup"

def channelPath : String := "/~/channel/"

def loginPath : String := "/~/login"

def userAgent : String := "hoon-language-server"

def connectTimeout : Duration := .ofSeconds 10

end ShipAddress

structure Relay.Settings where
  ship : String
  app : String := "language-server"
  path : String := "/primary"
  /-- How long after a redelivered notification its second copy is sent. -/
  notificationDelay : Duration := .ofMillis 1000
  /-- The method whose notifications are sent twice. -/
  redelivered : String := "textDocument/didSave"
  requestTimeout : Duration := .ofSeconds 30
  resubscribe : Retry.Policy :=
    { maxAttempts := 8, baseDelay := .ofSeconds 1, maxDelay := .ofSeconds 60 }

namespace Relay

def requestMark : String := "language-server-rpc-request"

def notificationMark : String := "language-server-rpc-notification"

def handshakeMethod : String := "initialize"

def exitMethod : String := "exit"

def logFile : String := "/tmp/hoon-language-server.log"

def maxMessageSize : Nat := 64 * 1024 * 1024

def triggerCharacters : List String :=
  ["-", "+", "^", "!", "@", "$", "%", ".", "&", "*", "/", ",", ">", "<", "~", "|", "=", ";",
    ":", "_"]

/-- What the bridge tells an editor that it can do: the answer to the handshake. -/
def capabilities : Json := .object [
  ("capabilities", .object [
    ("completionProvider", .object [
      ("resolveProvider", .bool false),
      ("triggerCharacters", .array (triggerCharacters.map .string))]),
    ("definitionProvider", .bool true),
    ("hoverProvider", .bool true),
    ("textDocumentSync", .object [
      ("change", 2),
      ("openClose", .bool true),
      ("save", .bool true),
      ("willSave", .bool true)]),
    ("workspace", .object [
      ("workspaceFolders", .object [
        ("changeNotifications", .bool true),
        ("supported", .bool true)])])]),
  ("serverInfo", .object [
    ("name", .string "hoon-language-server"),
    ("version", .string "0.2.0")])]

end Relay

end ShipBridge
