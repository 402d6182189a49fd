import Pathwise.Detector
import Pathwise.Matcher

namespace Pathwise.Detector.ExternalSchemas

open CustomDomain (first second)

def name : String := "xml-parser-loads-external-schemas"

def message : String := "Disable loading of external schemas in XML parsing."

def loadExternalDtdFeature : String :=
  "http://apache.org/xml/features/nonvalidating/load-external-dtd"

def documentBuilderFactory : String := "javax.xml.parsers.DocumentBuilderFactory"

def saxParserFactory : String := "javax.xml.parsers.SAXParserFactory"

def documentBuilder : String := "javax.xml.parsers.DocumentBuilder"

def saxParser : String := "javax.xml.parsers.SAXParser"

def xmlReader : String := "org.xml.sax.XMLReader"

def setFeature : Matchers :=
  [documentBuilderFactory, saxParserFactory, xmlReader].map fun owner =>
    (Matcher.ofMethod owner "setFeature").withParameters ["java.lang.String", "boolean"]

def setValidating : Matchers :=
  [documentBuilderFactory, saxParserFactory].map (Matcher.ofMethod · "setValidating")

def setEntityResolver : Matchers :=
  [documentBuilder, xmlReader].map (Matcher.ofMethod · "setEntityResolver")

def createParser : Matchers := [
  .ofMethod documentBuilderFactory "newDocumentBuilder",
  .ofMethod saxParserFactory "newSAXParser",
  .ofMethod saxParser "getXMLReader"]

def parseDocument : Matchers :=
  [documentBuilder, saxParser, xmlReader].map (Matcher.ofMethod · "parse")

def loadExternalDtd (id : Nat) : CustomDomain :=
  .ofPair id "load-external-dtd" "unsecured" "secured" [] true

def validating (id : Nat) : CustomDomain :=
  .ofPair (id + 1) "validating" "enable" "disable" [] true

def entityResolver (id : Nat) : CustomDomain where
  id := id + 2
  name := "entity-resolver"
  values := ["custom entity resolver"]
  rules := ([⟨.equal, 0, 0⟩] : List (CopyRule 1))
  disposable := true

def unsecured (id : Nat) : Constraint := .custom (loadExternalDtd id) first

def secured (id : Nat) : Constraint := .custom (loadExternalDtd id) second

def enabled (id : Nat) : Constraint := .custom (validating id) first

def disabled (id : Nat) : Constraint := .custom (validating id) second

def customResolver (id : Nat) : Constraint := .custom (entityResolver id) (0 : Fin 1)

def domains (id : Nat) : List Domain :=
  [(loadExternalDtd id).domain, (validating id).domain, (entityResolver id).domain]

def holds (s : State) (v : Value) (c : Constraint) : Bool := s.constraint? v c.domain == some c

def isUnsecured (id : Nat) (s : State) (v : Value) : Bool :=
  (holds s v (unsecured id) || holds s v (enabled id)) && !holds s v (customResolver id)

/-- Replaces what `v` held in domain `d`, or just forgets it. -/
def set (s : State) (v : Value) (d : Domain) (c? : Option Constraint) : State :=
  let s := s.release v d
  match c? with
  | some c => s.constrain v c
  | none => s

def copySettings (id : Nat) (s : State) (source target : Value) : State :=
  (domains id).foldl
    (fun s d =>
      match s.constraint? source d with
      | some c => s.constrain target c
      | none => s)
    s

/-- The truth value of a constant argument. -/
def truth? (argument? : Option Argument) : Option Bool :=
  match argument?.bind Argument.constant with
  | some (.bool b) => some b
  | _ => none

def isLoadExternalDtd (argument? : Option Argument) : Bool :=
  match argument?.bind Argument.constant with
  | some (.str feature) => feature == loadExternalDtdFeature
  | _ => false

/-- The call of a method on a receiver, with its arguments. -/
def call? : Element → Option (Method × List Argument)
  | .instruction (.invoke method true arguments _) => some (method, arguments)
  | _ => none

def before (id : Nat) (w : View) (element : Element) : Reaction :=
  let s := w.state
  match call? element with
  | none => .keep s
  | some (method, arguments) =>
    match s.peek arguments.length with
    | .error f => .complain (.engine f)
    | .ok receiver =>
      if setFeature.accepts method then
        if isLoadExternalDtd arguments[0]? then
          let c? := (truth? arguments[1]?).map fun on => if on then unsecured id else secured id
          .keep (set s receiver (loadExternalDtd id).domain c?)
        else .keep s
      else if setValidating.accepts method then
        let c? := (truth? arguments[0]?).map fun on => if on then enabled id else disabled id
        .keep (set s receiver (validating id).domain c?)
      else if setEntityResolver.accepts method then
        .keep (set s receiver (entityResolver id).domain (some (customResolver id)))
      else if parseDocument.accepts method && isUnsecured id s receiver then
        let flows := w.flows receiver [] (fun c => c == unsecured id || c == enabled id)
          [(loadExternalDtd id).domain, (validating id).domain] true
        { result := .ok s
          issues := [⟨element.pos, message, flows⟩]
          notes := [⟨.debug, "Parser loads external schemas", [("value", receiver.text)]⟩] }
      else .keep s

def after (id : Nat) (w : View) (element : Element) : Reaction :=
  match call? element with
  | none => .keep w.state
  | some (method, arguments) =>
    if createParser.accepts method then .ofExcept do
      let factory ← w.node.state.peek arguments.length
      let parser ← w.state.peek 0
      return copySettings id w.state factory parser
    else .keep w.state

/-- Reports XML parsers that load external schemas: the feature that loads external DTDs was
switched on, or validation was enabled, and no custom entity resolver was installed. The settings of
a factory travel to the builders and parsers it creates. Its domains have `id` and the two ids that
follow it. -/
def detector (id : Nat) : Detector := { name, before := before id, after := after id }

end Pathwise.Detector.ExternalSchemas
