import Mathlib.Data.List.Nodup
import HttpBinding.Body
import HttpBinding.Text.Numeral

/-!
# HttpBinding.Proofs.Body

What a client reads in the bodies that the server writes.

`Body.read?` reads the text of a body the way a client does: first the attributes of the wrapper
element, whatever their number and order, and then what stands behind them. It gives back what the
body says (`Reading`), for every body that the server can write (`bodies_read_back`). The proof has
three parts:

* An escaped value holds no quote, so it ends where it was meant to end; replacing the five entities
  then gives back the value (`unescape_escape`).
* The attributes of a written tag are read one after the other, and reading stops at the end of the
  tag (`attributes_written`).
* What stands inside an element is cut out by what stands around it, without being looked at, so it
  may hold anything.
-/

namespace HttpBinding.Body

/-! ### Attribute values -/

/-- The value that is written as these characters: the five entities are replaced by the characters
for which they stand. -/
def unescape : List Char → List Char
  | '&' :: 'a' :: 'm' :: 'p' :: ';' :: cs => '&' :: unescape cs
  | '&' :: 'l' :: 't' :: ';' :: cs => '<' :: unescape cs
  | '&' :: 'g' :: 't' :: ';' :: cs => '>' :: unescape cs
  | '&' :: 'a' :: 'p' :: 'o' :: 's' :: ';' :: cs => '\'' :: unescape cs
  | '&' :: 'q' :: 'u' :: 'o' :: 't' :: ';' :: cs => '"' :: unescape cs
  | c :: cs => c :: unescape cs
  | [] => []

/-- A character that begins no entity stands for itself. -/
theorem unescape_cons_of_ne {c : Char} (hc : c ≠ '&') (cs : List Char) :
    unescape (c :: cs) = c :: unescape cs := by
  rw [unescape] <;> rintro _ rfl <;> exact absurd rfl hc

/-- A value without an ampersand is read as it is. -/
theorem unescape_of_not_mem {cs : List Char} (h : '&' ∉ cs) : unescape cs = cs := by
  induction cs with
  | nil => rfl
  | cons c cs ih =>
      rw [List.mem_cons, not_or] at h
      rw [unescape_cons_of_ne (Ne.symm h.1), ih h.2]

/-- However a character is written, it is read back. -/
theorem unescape_escapeChar_append (c : Char) (cs : List Char) :
    unescape (escapeChar c ++ cs) = c :: unescape cs := by
  unfold escapeChar
  split
  case h_6 hamp _ _ _ _ => exact unescape_cons_of_ne hamp cs
  all_goals rfl

/-- Whatever a value holds, what was escaped is read back. -/
theorem unescape_escape (text : String) : unescape (escape text).toList = text.toList := by
  rw [toList_escape]
  induction text.toList with
  | nil => rfl
  | cons c cs ih => rw [List.flatMap_cons, unescape_escapeChar_append, ih]

/-! ### Tags -/

/-- What stands before the first `c` and what stands behind it. -/
def splitAt? (c : Char) : List Char → Option (List Char × List Char)
  | [] => none
  | d :: ds => if d = c then some ([], ds) else (splitAt? c ds).map fun e => (d :: e.1, e.2)

/-- The attribute with which a text begins, after one space, and what follows it. -/
def attribute? : List Char → Option ((String × String) × List Char)
  | ' ' :: cs =>
    match splitAt? '=' cs with
    | some (name, '\'' :: cs) =>
      (splitAt? '\'' cs).map fun e => ((String.ofList name, String.ofList (unescape e.1)), e.2)
    | _ => none
  | _ => none

/-- The attributes with which a text begins, and what follows them. -/
def attributes (cs : List Char) : List (String × String) × List Char :=
  match attribute? cs with
  | some (a, rest) =>
    if rest.length < cs.length then (a :: (attributes rest).1, (attributes rest).2) else ([], cs)
  | none => ([], cs)
termination_by cs.length

/-- An attribute as it is written, where the value is escaped already. -/
def writeAttribute (a : List Char × List Char) : List Char :=
  ' ' :: a.1 ++ '=' :: '\'' :: a.2 ++ ['\'']

/-- An attribute as a client reads it. -/
def readAttribute (a : List Char × List Char) : String × String :=
  (String.ofList a.1, String.ofList (unescape a.2))

/-- The name of an attribute ends before the equals sign, and its value before the quote. -/
def IsAttribute (a : List Char × List Char) : Prop := '=' ∉ a.1 ∧ '\'' ∉ a.2

theorem splitAt?_append {c : Char} {cs : List Char} (h : c ∉ cs) (rest : List Char) :
    splitAt? c (cs ++ c :: rest) = some (cs, rest) := by
  induction cs with
  | nil => simp [splitAt?]
  | cons d ds ih =>
      rw [List.mem_cons, not_or] at h
      simp [splitAt?, Ne.symm h.1, ih h.2]

theorem attribute?_written {a : List Char × List Char} (ha : IsAttribute a) (rest : List Char) :
    attribute? (writeAttribute a ++ rest) = some (readAttribute a, rest) := by
  have hwritten : writeAttribute a ++ rest =
      ' ' :: (a.1 ++ '=' :: '\'' :: (a.2 ++ '\'' :: rest)) := by
    simp [writeAttribute]
  rw [hwritten]
  simp only [attribute?, splitAt?_append ha.1, splitAt?_append ha.2, Option.map_some]
  rfl

/-- **A tag is read back.** The attributes are read in the order in which they are written, up to
the end of the tag, which no space precedes. -/
theorem attributes_written {as : List (List Char × List Char)} (has : ∀ a ∈ as, IsAttribute a)
    {rest : List Char} (hrest : attribute? rest = none) :
    attributes (as.flatMap writeAttribute ++ rest) = (as.map readAttribute, rest) := by
  induction as with
  | nil =>
      rw [List.flatMap_nil, List.nil_append, attributes, hrest]
      rfl
  | cons a as ih =>
      have hshorter : (as.flatMap writeAttribute ++ rest).length <
          (writeAttribute a ++ (as.flatMap writeAttribute ++ rest)).length := by
        simp [writeAttribute]
        omega
      have hlater := ih fun b hb => has b (by simp [hb])
      rw [List.flatMap_cons, List.append_assoc, attributes, attribute?_written (has a (by simp))]
      simp only [hshorter, if_true, hlater, List.map_cons]

/-! ### Bodies -/

/-- What a body says to a client. -/
inductive Reading where
  /-- The session has begun; both attributes that name it are given. -/
  | creation (authid sid : String) (requests inactivity polling wait : Nat) (features : String)
  /-- Stanzas, one behind the other. -/
  | delivery (content : String)
  | empty
  /-- The session has ended, for the reason given if there is one. -/
  | terminate (condition : Option String)
deriving DecidableEq, Repr

/-- What stands before the features in the answer that begins a session. -/
def featuresStart : String := "<stream:features>"

/-- What stands behind the features in the answer that begins a session. -/
def featuresEnd : String :=
  "<bind xmlns=\"" ++ bindNamespace ++ "\"/><session xmlns=\"" ++ sessionNamespace ++
    "\"/></stream:features>"

/-- A number given by an attribute. -/
def number? (attributes : List (String × String)) (name : String) : Option Nat :=
  (attributes.lookup name).bind fun value => Text.digits? value.toList

/-- What an element with content says. -/
def readContent? (attributes : List (String × String)) (content : List Char) : Option Reading :=
  match attributes.lookup "authid" with
  | none => some (.delivery (String.ofList content))
  | some authid => do
    let sid ← attributes.lookup "sid"
    let requests ← number? attributes "requests"
    let inactivity ← number? attributes "inactivity"
    let polling ← number? attributes "polling"
    let wait ← number? attributes "wait"
    let inner ← content.dropPrefix? featuresStart.toList
    let features ← inner.dropSuffix? featuresEnd.toList
    some (.creation authid sid requests inactivity polling wait (String.ofList features))

/-- What an element without content says. -/
def readBare (attributes : List (String × String)) : Reading :=
  if attributes.lookup "type" = some "terminate" then .terminate (attributes.lookup "condition")
  else .empty

/-- What the text of a body says, if it is one. -/
def read? (text : String) : Option Reading := do
  let tag ← text.toList.dropPrefix? "<body".toList
  let (attributes, rest) := attributes tag
  if attributes.lookup "xmlns" = some wrapperNamespace then
    if rest = "/>".toList then some (readBare attributes)
    else
      let inner ← rest.dropPrefix? ['>']
      let content ← inner.dropSuffix? "</body>".toList
      readContent? attributes content
  else none

/-! ### Reading what is written -/

/-- An attribute with a value that is written as it is. -/
def plain (name value : String) : List Char × List Char := (name.toList, value.toList)

/-- An attribute with a number. -/
def number (name : String) (n : Nat) : List Char × List Char := plain name (toString n)

/-- An attribute with a value that has to be escaped. -/
def escaped (name value : String) : List Char × List Char := plain name (escape value)

theorem readAttribute_plain {name value : String} (h : '&' ∉ value.toList) :
    readAttribute (plain name value) = (name, value) := by
  simp [readAttribute, plain, unescape_of_not_mem h]

theorem readAttribute_number (name : String) (n : Nat) :
    readAttribute (number name n) = (name, toString n) :=
  readAttribute_plain (by simpa using Text.not_mem_toDigits (by decide) n)

theorem readAttribute_escaped (name value : String) :
    readAttribute (escaped name value) = (name, value) := by
  simp [readAttribute, escaped, plain, unescape_escape]

theorem dropPrefix?_append_self (start cs : List Char) :
    (start ++ cs).dropPrefix? start = some cs :=
  List.dropPrefix?_append_of_beq cs (by simp)

theorem dropSuffix?_append_self (cs stop : List Char) :
    (cs ++ stop).dropSuffix? stop = some cs :=
  List.dropSuffix?_eq_some_iff.2 ⟨stop, rfl, by simp⟩

section
variable {text : String} {as : List (List Char × List Char)}

/-- An element without content is read by its attributes. -/
theorem read?_bare (has : ∀ a ∈ as, IsAttribute a)
    (hspace : (as.map readAttribute).lookup "xmlns" = some wrapperNamespace)
    (htext : text.toList = "<body".toList ++ (as.flatMap writeAttribute ++ "/>".toList)) :
    read? text = some (readBare (as.map readAttribute)) := by
  have htag : attributes (as.flatMap writeAttribute ++ "/>".toList) =
      (as.map readAttribute, "/>".toList) := attributes_written has (by simp [attribute?])
  simp only [read?, htext, dropPrefix?_append_self, htag, hspace, Option.bind_eq_bind,
    Option.bind_some, if_true]

/-- An element with content is read by its attributes and by what stands between the two tags,
whatever that is. -/
theorem read?_content (has : ∀ a ∈ as, IsAttribute a)
    (hspace : (as.map readAttribute).lookup "xmlns" = some wrapperNamespace) {inner : List Char}
    (htext : text.toList =
      "<body".toList ++ (as.flatMap writeAttribute ++ '>' :: (inner ++ "</body>".toList))) :
    read? text = readContent? (as.map readAttribute) inner := by
  have htag : attributes (as.flatMap writeAttribute ++ '>' :: (inner ++ "</body>".toList)) =
      (as.map readAttribute, '>' :: (inner ++ "</body>".toList)) :=
    attributes_written has (by simp [attribute?])
  have hopen : '>' :: (inner ++ "</body>".toList) ≠ "/>".toList := by simp
  have hinner : ('>' :: (inner ++ "</body>".toList)).dropPrefix? ['>'] =
      some (inner ++ "</body>".toList) := dropPrefix?_append_self ['>'] _
  simp only [read?, htext, dropPrefix?_append_self, htag, hspace, hopen, hinner,
    dropSuffix?_append_self, Option.bind_eq_bind, Option.bind_some, if_true, if_false]

end

/-! ### The four kinds -/

/-- The attribute that every body has. -/
def spaceAttribute : List Char × List Char := plain "xmlns" wrapperNamespace

theorem readAttribute_spaceAttribute : readAttribute spaceAttribute = ("xmlns", wrapperNamespace) :=
  readAttribute_plain (by simp [wrapperNamespace])

theorem map_readAttribute_space :
    [spaceAttribute].map readAttribute = [("xmlns", wrapperNamespace)] := by
  rw [List.map_singleton, readAttribute_spaceAttribute]

theorem isAttribute_space : ∀ a ∈ [spaceAttribute], IsAttribute a := by
  simp [IsAttribute, spaceAttribute, plain, wrapperNamespace]

/-- The attributes of the answer that begins a session. -/
def creationAttributes (c : Creation) : List (List Char × List Char) :=
  [spaceAttribute, escaped "authid" c.id.text, escaped "sid" c.id.text,
    plain "secure" "true", number "requests" c.requests, number "inactivity" c.inactivity,
    number "polling" c.polling, number "wait" c.wait]

theorem toList_renderCreation (c : Creation) :
    (render (.creation c)).toList =
      "<body".toList ++ ((creationAttributes c).flatMap writeAttribute ++
        '>' :: (featuresStart.toList ++ (c.features.toList ++ featuresEnd.toList) ++
          "</body>".toList)) := by
  unfold render renderCreation creationAttributes spaceAttribute number escaped plain
  unfold featuresStart featuresEnd
  simp [writeAttribute]

theorem read?_renderCreation (c : Creation) :
    read? (render (.creation c)) =
      some (.creation c.id.text c.id.text c.requests c.inactivity c.polling c.wait c.features) := by
  have hread : (creationAttributes c).map readAttribute =
      [("xmlns", wrapperNamespace), ("authid", c.id.text), ("sid", c.id.text), ("secure", "true"),
        ("requests", toString c.requests), ("inactivity", toString c.inactivity),
        ("polling", toString c.polling), ("wait", toString c.wait)] := by
    simp [creationAttributes, readAttribute_spaceAttribute, readAttribute_number,
      readAttribute_escaped, readAttribute_plain]
  have hnumeral (n : Nat) : '\'' ∉ Nat.toDigits 10 n := Text.not_mem_toDigits (by decide) n
  have hquote (value : String) : '\'' ∉ (escape value).toList := quote_not_mem_escape value
  have has : ∀ a ∈ creationAttributes c, IsAttribute a := by
    simp [creationAttributes, IsAttribute, number, escaped, spaceAttribute, plain, hnumeral,
      hquote, wrapperNamespace]
  rw [read?_content has (by rw [hread]; rfl) (toList_renderCreation c), hread]
  simp [readContent?, number?, List.lookup_cons, dropPrefix?_append_self, dropSuffix?_append_self,
    Text.digits?_toDigits]

theorem content_eq_join (stanzas : List Stanza) :
    content stanzas = String.join (stanzas.map Stanza.xml) := by
  induction stanzas with
  | nil => rfl
  | cons stanza stanzas ih => simp [ih]

theorem read?_renderDelivery (stanzas : List Stanza) :
    read? (render (.delivery stanzas)) =
      some (.delivery (String.join (stanzas.map Stanza.xml))) := by
  have htext : (render (.delivery stanzas)).toList =
      "<body".toList ++ ([spaceAttribute].flatMap writeAttribute ++
        '>' :: ((content stanzas).toList ++ "</body>".toList)) := by
    unfold render spaceAttribute plain
    simp [writeAttribute]
  rw [read?_content isAttribute_space (by rw [map_readAttribute_space]; rfl) htext,
    map_readAttribute_space, ← content_eq_join]
  simp [readContent?, List.lookup_cons]

theorem read?_renderEmpty : read? (render .empty) = some .empty := by
  have htext : (render .empty).toList =
      "<body".toList ++ ([spaceAttribute].flatMap writeAttribute ++
        "/>".toList) := by
    unfold render spaceAttribute plain
    simp [writeAttribute]
  rw [read?_bare isAttribute_space (by rw [map_readAttribute_space]; rfl) htext,
    map_readAttribute_space]
  simp [readBare, List.lookup_cons]

/-- The attributes of the answer that ends a session. -/
def terminateAttributes (condition : Option String) : List (List Char × List Char) :=
  plain "type" "terminate" :: (condition.map (escaped "condition")).toList ++
    [spaceAttribute]

theorem read?_renderTerminate (condition : Option String) :
    read? (render (.terminate condition)) = some (.terminate condition) := by
  have hread : (terminateAttributes condition).map readAttribute =
      ("type", "terminate") :: (condition.map fun text => ("condition", text)).toList ++
        [("xmlns", wrapperNamespace)] := by
    cases condition <;>
      simp [terminateAttributes, readAttribute_plain, readAttribute_spaceAttribute,
        readAttribute_escaped]
  have has : ∀ a ∈ terminateAttributes condition, IsAttribute a := by
    cases condition <;>
      simp [terminateAttributes, IsAttribute, escaped, spaceAttribute, plain,
        quote_not_mem_escape, wrapperNamespace]
  have htext : (render (.terminate condition)).toList =
      "<body".toList ++ ((terminateAttributes condition).flatMap writeAttribute ++
        "/>".toList) := by
    cases condition <;>
      · unfold render terminateAttributes escaped spaceAttribute plain
        simp [writeAttribute]
  have hspace : ((terminateAttributes condition).map readAttribute).lookup "xmlns" =
      some wrapperNamespace := by
    rw [hread]
    cases condition <;> simp [List.lookup_cons]
  rw [read?_bare has hspace htext, hread]
  cases condition <;> simp [readBare, List.lookup_cons]

/-- **No body can be taken for another.** There is one way to read what the server writes, and it
gives back all that was meant: the identifier, twice, the four numbers and the features of a
creation, the condition of an end, kept apart from none, and the stanzas of a delivery in order.
What the identifier, the features, the stanzas and the condition hold does not matter, so the four
kinds never have a text in common. -/
theorem bodies_read_back (c : Creation) (stanzas : List Stanza) (condition : Option String) :
    read? (render (.creation c)) =
        some (.creation c.id.text c.id.text c.requests c.inactivity c.polling c.wait c.features) ∧
      read? (render (.delivery stanzas)) =
        some (.delivery (String.join (stanzas.map Stanza.xml))) ∧
      read? (render .empty) = some .empty ∧
      read? (render (.terminate condition)) = some (.terminate condition) ∧
      [render (.creation c), render (.delivery stanzas), render .empty,
        render (.terminate condition)].Nodup := by
  have hcreation := read?_renderCreation c
  have hdelivery := read?_renderDelivery stanzas
  have hempty := read?_renderEmpty
  have hterminate := read?_renderTerminate condition
  refine ⟨hcreation, hdelivery, hempty, hterminate, ?_⟩
  -- equal texts would be read alike
  have hdistinct : ([render (.creation c), render (.delivery stanzas), render .empty,
      render (.terminate condition)].map read?).Nodup := by
    simp only [List.map_cons, List.map_nil, hcreation, hdelivery, hempty, hterminate]
    simp
  exact List.Nodup.of_map read? hdistinct

end HttpBinding.Body
