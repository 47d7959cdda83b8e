import UtilityCss.Yaml.Token

/-!
The nodes of a YAML document, read from its tokens.  An entry without a value, and a document without
content, is an empty plain scalar.
-/

namespace UtilityCss.Yaml

inductive Node where
  | scalar (text : Text) (plain : Bool)
  | sequence (items : List Node)
  | mapping (entries : List (Node × Node))

namespace Node

/-- What stands where a node is left out. -/
def missing : Node := .scalar [] true

instance : Inhabited Node := ⟨missing⟩

/-- Whether the next token is one of some kinds, or the text ends. -/
def endsAt (kinds : List Token) : List Token → Bool
  | [] => true
  | token :: _ => kinds.contains token

/-- A node and the tokens behind it. -/
abbrev Found := Option (Node × List Token)

mutual

/-- A node, or a missing one in front of tokens of some kinds. -/
def optional (steps : Nat) (block indentless : Bool) (kinds : List Token) (tokens : List Token) :
    Found :=
  match steps with
  | 0 => none
  | steps + 1 =>
      if tokens.head?.any kinds.contains then some (missing, tokens)
      else node steps block indentless tokens

/-- A node.  Block collections begin only where `block` says so, and block entries at the indentation
of a surrounding mapping only where `indentless` does. -/
def node (steps : Nat) (block indentless : Bool) (tokens : List Token) : Found :=
  match steps with
  | 0 => none
  | steps + 1 =>
      match tokens with
      | .scalar text plain :: rest => some (.scalar text plain, rest)
      | .flowSequenceStart :: rest => flowSequence steps true [] rest
      | .flowMappingStart :: rest => flowMapping steps true [] rest
      | .blockEntry :: rest =>
          if indentless then indentlessSequence steps [] (.blockEntry :: rest) else none
      | .blockSequenceStart :: rest => if block then blockSequence steps [] rest else none
      | .blockMappingStart :: rest => if block then blockMapping steps [] rest else none
      | _ => none

/-- The entries of a block sequence up to its end. -/
def blockSequence (steps : Nat) (items : List Node) (tokens : List Token) : Found :=
  match steps with
  | 0 => none
  | steps + 1 =>
      match tokens with
      | .blockEntry :: rest =>
          match optional steps true false [.blockEntry, .blockEnd] rest with
          | some (item, rest) => blockSequence steps (items ++ [item]) rest
          | none => none
      | .blockEnd :: rest => some (.sequence items, rest)
      | _ => none

/-- The entries of a sequence that has no indentation of its own. -/
def indentlessSequence (steps : Nat) (items : List Node) (tokens : List Token) : Found :=
  match steps with
  | 0 => none
  | steps + 1 =>
      match tokens with
      | .blockEntry :: rest =>
          match optional steps true false [.blockEntry, .key, .value, .blockEnd] rest with
          | some (item, rest) => indentlessSequence steps (items ++ [item]) rest
          | none => none
      | _ => some (.sequence items, tokens)

/-- The entries of a block mapping up to its end. -/
def blockMapping (steps : Nat) (entries : List (Node × Node)) (tokens : List Token) : Found :=
  match steps with
  | 0 => none
  | steps + 1 =>
      match tokens with
      | .key :: rest =>
          match optional steps true true [.key, .value, .blockEnd] rest with
          | some (key, rest) => blockValue steps entries key rest
          | none => none
      | .value :: _ => none
      | .blockEnd :: rest => some (.mapping entries, rest)
      | _ => none

/-- The value of a key in a block mapping, and the entries behind it. -/
def blockValue (steps : Nat) (entries : List (Node × Node)) (key : Node) (tokens : List Token) :
    Found :=
  match steps with
  | 0 => none
  | steps + 1 =>
      match tokens with
      | .value :: rest =>
          match optional steps true true [.key, .value, .blockEnd] rest with
          | some (value, rest) => blockMapping steps (entries ++ [(key, value)]) rest
          | none => none
      | _ => blockMapping steps (entries ++ [(key, missing)]) tokens

/-- The entries of a sequence in brackets up to the closing one. -/
def flowSequence (steps : Nat) (first : Bool) (items : List Node) (tokens : List Token) : Found :=
  match steps with
  | 0 => none
  | steps + 1 =>
      match tokens with
      | .flowSequenceEnd :: rest => some (.sequence items, rest)
      | .flowEntry :: rest => if first then none else flowItem steps items rest
      | _ => if first then flowItem steps items tokens else none

/-- An entry of a sequence in brackets: a node, or a single pair.  There may be none behind the last
comma. -/
def flowItem (steps : Nat) (items : List Node) (tokens : List Token) : Found :=
  match steps with
  | 0 => none
  | steps + 1 =>
      match tokens with
      | .flowSequenceEnd :: rest => some (.sequence items, rest)
      | .key :: rest =>
          match flowPair steps rest with
          | some (pair, rest) => flowSequence steps false (items ++ [pair]) rest
          | none => none
      | _ =>
          match node steps false false tokens with
          | some (item, rest) => flowSequence steps false (items ++ [item]) rest
          | none => none

/-- A pair in a sequence in brackets, behind the start of its key. -/
def flowPair (steps : Nat) (tokens : List Token) : Found :=
  match steps with
  | 0 => none
  | steps + 1 =>
      let key :=
        if tokens.head?.any [.value, .flowEntry, .flowSequenceEnd].contains then
          some (missing, tokens.tail)
        else node steps false false tokens
      match key with
      | some (key, .value :: rest) =>
          (optional steps false false [.flowEntry, .flowSequenceEnd] rest).map
            fun (value, rest) => (.mapping [(key, value)], rest)
      | some (key, rest) => some (.mapping [(key, missing)], rest)
      | none => none

/-- The entries of a mapping in braces up to the closing one. -/
def flowMapping (steps : Nat) (first : Bool) (entries : List (Node × Node)) (tokens : List Token) :
    Found :=
  match steps with
  | 0 => none
  | steps + 1 =>
      match tokens with
      | .flowMappingEnd :: rest => some (.mapping entries, rest)
      | .flowEntry :: rest => if first then none else flowMember steps entries rest
      | _ => if first then flowMember steps entries tokens else none

/-- An entry of a mapping in braces.  There may be none behind the last comma. -/
def flowMember (steps : Nat) (entries : List (Node × Node)) (tokens : List Token) : Found :=
  match steps with
  | 0 => none
  | steps + 1 =>
      match tokens with
      | .flowMappingEnd :: rest => some (.mapping entries, rest)
      | .key :: rest =>
          match optional steps false false [.value, .flowEntry, .flowMappingEnd] rest with
          | some (key, .value :: rest) =>
              match optional steps false false [.flowEntry, .flowMappingEnd] rest with
              | some (value, rest) => flowMapping steps false (entries ++ [(key, value)]) rest
              | none => none
          | some (key, rest) => flowMapping steps false (entries ++ [(key, missing)]) rest
          | none => none
      | _ =>
          match node steps false false tokens with
          | some (key, rest) => flowMapping steps false (entries ++ [(key, missing)]) rest
          | none => none

end

/-- What tokens may follow a document: marks of its end only. -/
def isDocumentTail (tokens : List Token) : Bool :=
  tokens.all fun token => token = .documentEnd

/-- Whether a version of YAML is one that can be read. -/
def isReadableVersion (major minor : Nat) : Bool :=
  major = 1 && (minor = 1 || minor = 2)

/-- The only document among tokens; a text without tokens holds a missing node. -/
def ofTokens? (tokens : List Token) : Option Node :=
  let steps := 4 * tokens.length + 4
  let content (tokens : List Token) : Found :=
    if endsAt [.documentStart, .documentEnd] tokens then some (missing, tokens)
    else node steps true false tokens
  let found := match tokens with
    | [] => some (missing, [])
    | .version major minor :: .documentStart :: rest =>
        if isReadableVersion major minor then content rest else none
    | .documentStart :: rest => content rest
    | _ => node steps true false tokens
  match found with
  | some (root, rest) => if isDocumentTail rest then some root else none
  | none => none

/-- The document of a text. -/
def ofText? (text : Text) : Option Node :=
  (tokens? text).bind ofTokens?

end Node

end UtilityCss.Yaml
