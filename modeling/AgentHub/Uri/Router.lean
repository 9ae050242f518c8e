import AgentHub.Uri.Url

/-!
# Routes by path

A router of the kind of Hono's: the path of a URL is decoded but for its reserved characters and its
percent signs, compared with the patterns segment by segment, and what a parameter stands for is
decoded by itself.
-/

namespace AgentHub.Uri

/-- The decoders of a server.  What their counterparts of ECMAScript refuse they leave as it is, as far
as it cannot be decoded. -/
structure Server where
  /-- `tryDecodeURIComponent`. -/
  component : Decoder
  /-- `tryDecodeURI`. -/
  path : List Char → List Char
  decodesPath : ∀ text decoded, decodeURI text = some decoded → path text = decoded
  /-- The decoder of `URLSearchParams`. -/
  form : Decoder

/-- A decoder that leaves a text alone that it cannot decode. -/
def Decoder.lenient : Decoder where
  decode text := (decodeURIComponent text).getD text
  decodes text decoded h := by rw [h, Option.getD_some]

/-- A server that leaves such texts alone. -/
def Server.lenient : Server where
  component := Decoder.lenient
  path text := (decodeURI text).getD text
  decodesPath text decoded h := by rw [h, Option.getD_some]
  form := Decoder.lenient

/-- `replace(/%25/g, "%2525")`. -/
def doublePercent : List Char → List Char
  | '%' :: '2' :: '5' :: text => '%' :: '2' :: '5' :: '2' :: '5' :: doublePercent text
  | c :: text => c :: doublePercent text
  | [] => []

/-- A segment of a pattern. -/
inductive Part where
  | literal (text : List Char)
  | param (name : List Char)
  deriving DecidableEq

/-- The segments of a pattern; what begins with a colon is a parameter. -/
def parts (pattern : String) : List Part :=
  (pattern.toList.splitOn '/').map fun segment =>
    match segment with
    | ':' :: name => .param name
    | text => .literal text

/-- What the parameters stand for, where the path matches; a parameter is not empty. -/
def matchParts : List Part → List (List Char) → Option (List (List Char × List Char))
  | [], [] => some []
  | .literal text :: parts, segment :: segments =>
    if text = segment then matchParts parts segments else none
  | .param name :: parts, segment :: segments =>
    if segment = [] then none else (matchParts parts segments).map ((name, segment) :: ·)
  | _, _ => none

/-- A pattern with what handles it, for one method or for all. -/
structure Route (η : Type) where
  method : Option String
  pattern : List Part
  handler : η

/-- The first route that matches. -/
def find {η : Type} (routes : List (Route η)) (method : String) (path : List Char) :
    Option (η × List (List Char × List Char)) :=
  routes.findSome? fun route =>
    if route.method.all (· = method) then
      (matchParts route.pattern (path.splitOn '/')).map (route.handler, ·)
    else none

namespace Server

variable (server : Server)

/-- `getPath`. -/
def getPath (pathname : List Char) : List Char :=
  if '%' ∈ pathname then server.path (doublePercent pathname) else pathname

/-- `c.req.param`. -/
def param (params : List (List Char × List Char)) (name : String) : String :=
  let raw := (params.lookup name.toList).getD []
  String.ofList (if '%' ∈ raw then server.component.decode raw else raw)

/-- `c.req.query`: the first of the parameters with a name. -/
def query (url : Url) (name : String) : Option String :=
  (server.component.params (url.query.getD [])).lookup name

/-- `searchParams.getAll`. -/
def queryAll (url : Url) (name : String) : List String :=
  (server.form.params (url.query.getD [])).getAll name

end Server

end AgentHub.Uri
