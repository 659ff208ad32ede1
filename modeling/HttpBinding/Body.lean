import HttpBinding.StreamId

/-!
# HttpBinding.Body

What the server sends to a client: the four kinds of `<body/>` wrapper, and their text.

* A stanza is a fragment of XML that is passed on as it is.
* A `Body` says what is meant (`creation`, `delivery`, `empty`, `terminate`); `Body.render`
  writes it. `Body.literal` is a text given from outside, written unchanged.
* Attribute values are escaped with the five predefined entities, element content is not.
-/

namespace HttpBinding

/-- One fragment of XML, never looked into. -/
structure Stanza where
  xml : String
deriving DecidableEq, Repr, Inhabited

/-! ### Attribute values -/

/-- How a character is written inside an attribute value. -/
def Body.escapeChar : Char → List Char
  | '&' => ['&', 'a', 'm', 'p', ';']
  | '<' => ['&', 'l', 't', ';']
  | '>' => ['&', 'g', 't', ';']
  | '\'' => ['&', 'a', 'p', 'o', 's', ';']
  | '"' => ['&', 'q', 'u', 'o', 't', ';']
  | c => [c]

/-- A text as it is written inside an attribute value. -/
def Body.escape (text : String) : String :=
  String.ofList (text.toList.flatMap Body.escapeChar)

/-! ### Bodies -/

/-- What a client is told when its session begins. -/
structure Creation where
  id : StreamId
  /-- How many requests the client may have open at once. -/
  requests : Nat := 2
  /-- Seconds of silence after which the session ends. -/
  inactivity : Nat := 1800
  /-- Seconds to keep between two polls. -/
  polling : Nat := 5
  /-- Seconds a request may be held. -/
  wait : Nat := 60
  /-- The features that the messaging server offers, as XML. -/
  features : String := ""
deriving DecidableEq, Repr

/-- An answer to a client. -/
inductive Body where
  /-- The session has begun. -/
  | creation (c : Creation)
  /-- Stanzas for the client, in order. -/
  | delivery (stanzas : List Stanza)
  /-- Nothing to say. -/
  | empty
  /-- The session has ended, for the reason given if there is one. -/
  | terminate (condition : Option String)
  /-- A text chosen by the caller. -/
  | literal (text : String)
deriving DecidableEq, Repr

namespace Body

/-- Namespace of the wrapper element. -/
def wrapperNamespace : String := "http://jabber.org/protocol/httpbind"
/-- Namespace of the resource binding feature. -/
def bindNamespace : String := "urn:ietf:params:xml:ns:xmpp-bind"
/-- Namespace of the session establishment feature. -/
def sessionNamespace : String := "urn:ietf:params:xml:ns:xmpp-session"

/-- The condition named when the server goes away. -/
def systemShutdown : String := "system-shutdown"

/-- The texts of the stanzas, one after the other. -/
def content (stanzas : List Stanza) : String :=
  stanzas.foldr (fun stanza rest => stanza.xml ++ rest) ""

/-- The text of the answer that begins a session. -/
def renderCreation (c : Creation) : String :=
  let id := escape c.id.text
  "<body xmlns='" ++ wrapperNamespace ++ "' authid='" ++ id ++ "' sid='" ++ id ++
    "' secure='true' requests='" ++ toString c.requests ++ "' inactivity='" ++
    toString c.inactivity ++ "' polling='" ++ toString c.polling ++ "' wait='" ++
    toString c.wait ++ "'><stream:features>" ++ c.features ++ "<bind xmlns=\"" ++
    bindNamespace ++ "\"/><session xmlns=\"" ++ sessionNamespace ++
    "\"/></stream:features></body>"

/-- The text of an answer. -/
def render : Body → String
  | .creation c => renderCreation c
  | .delivery stanzas =>
    "<body xmlns='" ++ wrapperNamespace ++ "'>" ++ content stanzas ++ "</body>"
  | .empty => "<body xmlns='" ++ wrapperNamespace ++ "'/>"
  | .terminate (some condition) =>
    "<body type='terminate' condition='" ++ escape condition ++ "' xmlns='" ++
      wrapperNamespace ++ "'/>"
  | .terminate none => "<body type='terminate' xmlns='" ++ wrapperNamespace ++ "'/>"
  | .literal text => text

/-- The stanzas that an answer carries. -/
def stanzas : Body → List Stanza
  | .delivery stanzas => stanzas
  | _ => []

/-! ### Views -/

@[simp] theorem content_nil : content [] = "" := rfl

@[simp] theorem content_cons (stanza : Stanza) (rest : List Stanza) :
    content (stanza :: rest) = stanza.xml ++ content rest := rfl

theorem toList_escape (text : String) :
    (escape text).toList = text.toList.flatMap escapeChar := by
  simp [escape]

/-- No character of an attribute value is written as a quote. -/
theorem quote_not_mem_escape (text : String) : '\'' ∉ (escape text).toList := by
  rw [toList_escape, List.mem_flatMap]
  rintro ⟨c, _, hc⟩
  unfold escapeChar at hc
  split at hc
  case h_6 _ _ _ _ hquote _ => exact hquote (List.mem_singleton.1 hc).symm
  all_goals simp at hc

end Body

end HttpBinding
