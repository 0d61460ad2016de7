import Mathlib.Data.List.Nodup

/-!
# `ipcgen`

What `ipcgen.py` makes of the description of an interface: the messages in both directions, and the
two classes that send them and dispatch them.  The classes are declarations here and not text.  What
they do is by the rules of C++: an enumerator has its place as its value, and a name is declared
once.

A message as the classes see it is a number and a sequence of values with their types; how a value
is laid out is not the business of `ipcgen`.
-/

namespace BekOS.Ipcgen

/-! ## The description -/

/-- `ET.Element`, as far as it is looked at. -/
inductive Element where
  | mk (tag : String) (attributes : List (String × String)) (text : Option String)
      (children : List Element)

namespace Element

def tag : Element → String
  | mk tag _ _ _ => tag

def text : Element → Option String
  | mk _ _ text _ => text

def children : Element → List Element
  | mk _ _ _ children => children

/-- `get` -/
def get : Element → String → Option String
  | mk _ attributes _ _, name => attributes.lookup name

/-- `find`, in the children only. -/
def find (element : Element) (tag : String) : Option Element :=
  element.children.find? (·.tag = tag)

mutual

/-- `iter`, in document order. -/
def iter (wanted : String) : Element → List Element
  | mk tag attributes text children =>
      (if tag = wanted then [mk tag attributes text children] else []) ++ iterAll wanted children

/-- `iter`, of some elements. -/
def iterAll (wanted : String) : List Element → List Element
  | [] => []
  | element :: rest => iter wanted element ++ iterAll wanted rest

end

end Element

/-! ## `parse_file` -/

/-- The name of an argument and its type, which may be missing. -/
abbrev Argument := String × Option String

/-- `Message.kind` -/
inductive Kind where
  | async
  | sync
  | response
  deriving DecidableEq

/-- `Message`; nothing reads its `response`. -/
structure Message where
  name : String
  arguments : List Argument
  kind : Kind
  number : Option ℕ := none
  deriving DecidableEq

/-- `Interface` -/
structure Interface where
  name : String
  namespaceName : Option String
  includes : List (Option String)
  requests : List Message
  events : List Message
  types : List (String × String)
  deriving DecidableEq

/-- `requests`, `events`, `types` and `includes`.  What was put in `types` last is in front. -/
structure Parsed where
  requests : List Message
  events : List Message
  types : List (String × String)
  includes : List (Option String)

/-- `requests` or `events`, with `append`. -/
def Parsed.append (parsed : Parsed) (toRequests : Bool) (msg : Message) : Parsed :=
  if toRequests then { parsed with requests := parsed.requests ++ [msg] }
  else { parsed with events := parsed.events ++ [msg] }

def parseArgument (arg : Element) : Except String Argument :=
  match arg.get "name" with
  | none => .error "Argument must have name"
  | some name =>
      if name = "" then .error "Argument must have name" else .ok (name, arg.get "type")

/-- The loops over `iter("arg")`. -/
def parseArguments (element : Element) : Except String (List Argument) :=
  (element.iter "arg").mapM parseArgument

/-- The branch for `request` and `event`. -/
def parseMessage (parsed : Parsed) (child : Element) (name : String) : Except String Parsed := do
  let args ← parseArguments child
  let isAsync := (child.get "type").getD "async" = "async"
  let msg : Message := { name, arguments := args, kind := if isAsync then .async else .sync }
  match child.find "response" with
  | none => return parsed.append (child.tag = "request") msg
  | some resp =>
      if isAsync then throw "Asynchronous Message cannot have response!"
      let responseArgs ← parseArguments resp
      let responseMsg : Message :=
        { name := name ++ "_response", arguments := responseArgs, kind := .response }
      return (parsed.append (child.tag ≠ "request") responseMsg).append (child.tag = "request") msg

/-- One turn of the loop over the children. -/
def parseChild (parsed : Parsed) (child : Element) : Except String Parsed :=
  let name := (child.get "name").getD ""
  if name = "" ∧ child.tag ≠ "include" then .error "Element must have a name!"
  else if child.tag = "request" ∨ child.tag = "event" then parseMessage parsed child name
  else if child.tag = "type" then
    .ok { parsed with types := (name, (child.get "passing").getD "value") :: parsed.types }
  else if child.tag = "include" then
    .ok { parsed with includes := parsed.includes ++ [child.text] }
  else .error "Unrecognised Tag"

/-- The loops that number the messages. -/
def numberMessages (messages : List Message) : List Message :=
  messages.mapIdx fun i msg => { msg with number := some i }

/-- `parse_file` -/
def parseFile (root : Element) (baseName : String) : Except String Interface := do
  let parsed ← root.children.foldlM parseChild ⟨[], [], [], []⟩
  return {
    name := baseName
    namespaceName := root.get "namespace"
    includes :=
      if some "ipc/connection.h" ∈ parsed.includes then parsed.includes
      else parsed.includes ++ [some "ipc/connection.h"]
    requests := numberMessages parsed.requests
    events := numberMessages parsed.events
    types := parsed.types }

/-! ## The generators -/

/-- `interface.types.get(arg_type, "value")` -/
def passingOf (types : List (String × String)) (type : Option String) : String :=
  (type.bind fun type => types.lookup type).getD "value"

/-- A type in an f-string. -/
def typeText (type : Option String) : String := type.getD "None"

namespace Interface

/-- `cho(is_server, interface.events, interface.requests)` -/
def sentBy (interface : Interface) (isServer : Bool) : List Message :=
  if isServer then interface.events else interface.requests

/-- `cho(is_server, interface.requests, interface.events)` -/
def receivedBy (interface : Interface) (isServer : Bool) : List Message :=
  if isServer then interface.requests else interface.events

end Interface

/-- A parameter: `T name` or `const T& name`. -/
structure Parameter where
  type : String
  name : String
  isReference : Bool
  deriving DecidableEq

/-- `argument_list` -/
def argumentList (interface : Interface) (msg : Message) (sending : Bool) : List Parameter :=
  msg.arguments.map fun arg =>
    let typeKind := passingOf interface.types arg.2
    { type := typeText arg.2
      name := arg.1
      isReference := ¬ (typeKind = "value" ∨ (¬ sending ∧ typeKind = "move")) }

/-- An enumerator of `Messages` in the class of the server or of the client. -/
structure EnumValue where
  isServer : Bool
  member : String
  deriving DecidableEq

/-- A function that sends. -/
structure SendFunction where
  name : String
  parameters : List Parameter
  number : EnumValue
  encodes : List String
  deriving DecidableEq

/-- An argument of the call of a handler, with `bek::move` or without. -/
structure Passed where
  isMoved : Bool
  variableName : String
  deriving DecidableEq

/-- A case of the `switch`. -/
structure Case where
  label : EnumValue
  decodes : List (String × String)
  handler : String
  passed : List Passed
  deriving DecidableEq

/-- `dispatch_message`, with what bounds the numbers. -/
structure DispatchFunction where
  maximum : EnumValue
  cases : List Case
  deriving DecidableEq

section Generators

variable (upper : String → String)

/-- `generate_messages_enum` -/
def generateMessagesEnum (interface : Interface) (isServer : Bool) : List String :=
  (interface.sentBy isServer).map (fun msg => upper msg.name) ++ ["END_OF_MESSAGES"]

/-- `generate_message_enum_value` -/
def generateMessageEnumValue (msg : Message) (isServer : Bool) : EnumValue :=
  ⟨isServer, upper msg.name⟩

/-- `generate_enum_traits`: the bound of the numbers. -/
def generateEnumTraits (isServer : Bool) : EnumValue := ⟨isServer, "END_OF_MESSAGES"⟩

/-- `generate_send_implementation` -/
def generateSendImplementation (interface : Interface) (isServer : Bool) : List SendFunction :=
  (interface.sentBy isServer).map fun msg =>
    { name := msg.name
      parameters := argumentList interface msg true
      number := generateMessageEnumValue upper msg isServer
      encodes := msg.arguments.map Prod.fst }

/-- `pass_argument`; another word for the passing makes `join` fail. -/
def passArgument (interface : Interface) (arg : Argument) : Option Passed :=
  let passing := passingOf interface.types arg.2
  if passing = "value" ∨ passing = "reference" then some ⟨false, "arg_" ++ arg.1⟩
  else if passing = "move" then some ⟨true, "arg_" ++ arg.1⟩
  else none

/-- `generate_case` -/
def generateCase (interface : Interface) (isServer : Bool) (msg : Message) : Option Case :=
  (msg.arguments.mapM (passArgument interface)).map fun passed =>
    { label := generateMessageEnumValue upper msg (!isServer)
      decodes := msg.arguments.map fun arg => ("arg_" ++ arg.1, typeText arg.2)
      handler := "on_" ++ msg.name
      passed }

/-- `generate_dispatch_implementation` -/
def generateDispatchImplementation (interface : Interface) (isServer : Bool) :
    Option DispatchFunction :=
  ((interface.receivedBy isServer).mapM (generateCase upper interface isServer)).map fun cases =>
    ⟨generateEnumTraits (!isServer), cases⟩

end Generators

/-- The two classes. -/
structure Generated where
  messagesEnum : Bool → List String
  send : Bool → List SendFunction
  dispatch : Bool → DispatchFunction

/-- `render_header` and `render_implementation` -/
def render (upper : String → String) (interface : Interface) : Option Generated := do
  let server ← generateDispatchImplementation upper interface true
  let client ← generateDispatchImplementation upper interface false
  return {
    messagesEnum := generateMessagesEnum upper interface
    send := generateSendImplementation upper interface
    dispatch := fun isServer => if isServer then server else client }

/-! ## What the classes do -/

/-- What is sent. -/
structure Sent (α : Type) where
  number : ℕ
  items : List (String × α)

/-- The call of a handler, and the types that were decoded before it. -/
structure Handled (α : Type) where
  handler : String
  decoded : List String
  arguments : List α

namespace Generated

variable {α : Type}

/-- The number that an enumerator has. -/
def value (generated : Generated) (enumValue : EnumValue) : Option ℕ :=
  (generated.messagesEnum enumValue.isServer).idxOf? enumValue.member

/-- Encode the parameters of these names. -/
def encodeAll (parameters : List (Parameter × α)) (names : List String) :
    Option (List (String × α)) :=
  names.mapM fun name =>
    (parameters.find? (·.1.name = name)).map fun parameter => (parameter.1.type, parameter.2)

/-- The call of a function that sends. -/
def sendMessage (generated : Generated) (isServer : Bool) (name : String) (values : List α) :
    Option (Sent α) := do
  let function ← (generated.send isServer).find? (·.name = name)
  let number ← generated.value function.number
  let items ← encodeAll (function.parameters.zip values) function.encodes
  return ⟨number, items⟩

/-- Decode variables of these names and types; there is no value if the types are others. -/
def decodeAll : List (String × String) → List (String × α) → Option (List (String × α))
  | [], _ => some []
  | _ :: _, [] => none
  | (name, type) :: rest, (sentType, value) :: items =>
      if sentType = type then (decodeAll rest items).map ((name, value) :: ·) else none

/-- `dispatch_message`, up to the handler. -/
def dispatchMessage (generated : Generated) (isServer : Bool) (sent : Sent α) :
    Option (Handled α) := do
  let function := generated.dispatch isServer
  let maximum ← generated.value function.maximum
  if sent.number < maximum then
    let case ← function.cases.find? fun case => generated.value case.label = some sent.number
    let locals ← decodeAll case.decodes sent.items
    let arguments ← case.passed.mapM fun passed =>
      (locals.find? (·.1 = passed.variableName)).map Prod.snd
    return ⟨case.handler, case.decodes.map Prod.snd, arguments⟩
  else none

/-- What one class sends of a message, with its number, is what the other one decodes before it
calls the handler of the message. -/
def Agrees (generated : Generated) (isServer : Bool) (msg : Message) (values : List α) : Prop :=
  ∃ sent handled, generated.sendMessage isServer msg.name values = some sent ∧
    msg.number = some sent.number ∧
    sent.items = (msg.arguments.map fun arg => typeText arg.2).zip values ∧
    generated.dispatchMessage (!isServer) sent = some handled ∧
    handled.handler = "on_" ++ msg.name ∧ handled.decoded = sent.items.map Prod.fst ∧
    handled.arguments = values

end Generated

/-! ## What a description says -/

/-- The name of a message and its arguments. -/
def Message.shape (msg : Message) : String × List Argument := (msg.name, msg.arguments)

/-- The tag of what the server sends, or else the client. -/
def messageTag (isServer : Bool) : String := if isServer then "event" else "request"

section Described

variable (argumentsOf : Element → List Argument)

/-- The message of an element. -/
def ownMessage (child : Element) : String × List Argument :=
  ((child.get "name").getD "", argumentsOf child)

/-- The message that answers it. -/
def responseMessage (child : Element) : List (String × List Argument) :=
  (child.find "response").toList.map fun resp =>
    ((child.get "name").getD "" ++ "_response", argumentsOf resp)

/-- What the server sends, or else the client, by an element. -/
def messagesOf (isServer : Bool) (child : Element) : List (String × List Argument) :=
  if child.tag = messageTag isServer then [ownMessage argumentsOf child]
  else if child.tag = messageTag (!isServer) then responseMessage argumentsOf child
  else []

end Described

/-- `requests` or `events`: what the server sends, or else the client. -/
def Parsed.sentBy (parsed : Parsed) (isServer : Bool) : List Message :=
  if isServer then parsed.events else parsed.requests

section Parsing

variable {root child : Element} {parsed parsed' : Parsed} {interface : Interface}
  {baseName : String} {isServer toRequests : Bool} {msg : Message}

end Parsing

/-! ## Arguments below arguments -/

section Shallow

variable {root child : Element}

end Shallow

/-! ## Names that are apart -/

section Apart

variable {β γ κ : Type} [DecidableEq κ] {l : List γ} {key : γ → κ}

end Apart

/-! ## The classes of an interface -/

/-- All arguments can be passed. -/
def Passes (interface : Interface) : Prop :=
  ∀ isServer, ∀ msg ∈ interface.sentBy isServer, ∀ arg ∈ msg.arguments,
    passingOf interface.types arg.2 ∈ ["value", "reference", "move"]

section Classes

variable {upper : String → String} {interface : Interface} {isServer : Bool} {msg : Message}
  {arg : Argument}

section Agreement

variable {α : Type} {i : ℕ}
  (hnames : ((interface.sentBy isServer).map (fun msg => upper msg.name) ++
    ["END_OF_MESSAGES"]).Nodup)
  (hmsg : (interface.sentBy isServer)[i]? = some msg)

include hnames

include hmsg

end Agreement

end Classes

/-! ## Every description -/

section Main

variable {upper : String → String} {root : Element} {baseName : String} {interface : Interface}

end Main

end BekOS.Ipcgen
