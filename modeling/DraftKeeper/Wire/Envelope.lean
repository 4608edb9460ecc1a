import DraftKeeper.Json.Decode

namespace DraftKeeper

open Json

inductive CallId
  | number (n : Int)
  | string (s : String)
  | null
deriving DecidableEq, Repr

/-- A request without an id, or with a null one, is a notification and gets no response. -/
structure Request where
  jsonrpc : String
  method : String
  params : Option Json
  id : Option CallId

structure ErrorObject where
  code : Int
  message : String
  data : Option Json

structure Response where
  jsonrpc : String
  result : Option Json
  error : Option ErrorObject
  id : CallId

def protocolVersion : String := "2.0"

def optionalField (name : String) (v : Option Json) : List (String × Json) :=
  v.toList.map fun v => (name, v)

namespace CallId

def toJson : CallId → Json
  | .number n => .integer n
  | .string s => .string s
  | .null => .null

def ofJson : Decoder CallId
  | .integer n =>
    if Range.signed64.holds n then .ok (.number n) else .error (.noAlternative "RequestId")
  | .string s => .ok (.string s)
  | .null => .ok .null
  | _ => .error (.noAlternative "RequestId")

def kind : CallId → String
  | .number _ => "number"
  | .string _ => "string"
  | .null => "null"

end CallId

namespace Request

def new (method : String) (params : Option Json) (id : CallId) : Request :=
  ⟨protocolVersion, method, params, some id⟩

def notification (method : String) (params : Option Json) : Request :=
  ⟨protocolVersion, method, params, none⟩

def isNotification (r : Request) : Bool := r.id.isNone

def layout : Layout :=
  ⟨"struct Request", [required "jsonrpc" asText, required "method" asText,
    optional "params" (asOption asValue), optional "id" (asOption CallId.ofJson)]⟩

def toJson (r : Request) : Json :=
  .object ([("jsonrpc", .string r.jsonrpc), ("method", .string r.method)] ++
    optionalField "params" r.params ++ optionalField "id" (r.id.map CallId.toJson))

def ofJson : Decoder Request := fun v => do
  let fields ← layout.fields "Request" v
  return ⟨← need fields "jsonrpc" asText, ← need fields "method" asText,
    ← getOr fields "params" none (asOption asValue),
    ← getOr fields "id" none (asOption CallId.ofJson)⟩

def selection : Selection :=
  .members [("jsonrpc", .whole), ("method", .whole), ("params", .whole), ("id", .whole)]

def ofText (bs : Bytes) : Except TextError Request := decodeText selection ofJson bs

end Request

namespace ErrorObject

def layout : Layout :=
  ⟨"struct RpcError", [required "code" (asInteger .signed32), required "message" asText,
    optional "data" (asOption asValue)]⟩

def toJson (e : ErrorObject) : Json :=
  .object ([("code", .integer e.code), ("message", .string e.message)] ++
    optionalField "data" e.data)

def ofJson : Decoder ErrorObject := fun v => do
  let fields ← layout.fields "RpcError" v
  return ⟨← need fields "code" (asInteger .signed32), ← need fields "message" asText,
    ← getOr fields "data" none (asOption asValue)⟩

def selection : Selection := .members [("code", .whole), ("message", .whole), ("data", .whole)]

end ErrorObject

namespace Response

def success (id : CallId) (result : Json) : Response := ⟨protocolVersion, some result, none, id⟩

def failure (id : CallId) (error : ErrorObject) : Response :=
  ⟨protocolVersion, none, some error, id⟩

/-- In an array every field must stand, a missing result or error as null. -/
def layout : Layout :=
  ⟨"struct Response", [required "jsonrpc" asText, required "result" (asOption asValue),
    required "error" (asOption ErrorObject.ofJson), required "id" CallId.ofJson]⟩

def toJson (r : Response) : Json :=
  .object ([("jsonrpc", .string r.jsonrpc)] ++ optionalField "result" r.result ++
    optionalField "error" (r.error.map ErrorObject.toJson) ++ [("id", r.id.toJson)])

def ofJson : Decoder Response := fun v => do
  let fields ← layout.fields "Response" v
  return ⟨← need fields "jsonrpc" asText, ← getOr fields "result" none (asOption asValue),
    ← getOr fields "error" none (asOption ErrorObject.ofJson), ← need fields "id" CallId.ofJson⟩

def selection : Selection :=
  .members [("jsonrpc", .whole), ("result", .whole), ("error", ErrorObject.selection),
    ("id", .whole)]

end Response

end DraftKeeper
