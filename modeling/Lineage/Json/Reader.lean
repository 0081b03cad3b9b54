import Lineage.Json.Lexeme

set_option autoImplicit false

/-!
# Values from text

A reader of the standard grammar. Lists and objects nest at most 127 deep. Members that are not
wanted are passed over: numbers that are too large, surrogates without a partner and any depth of
nesting are allowed there.

## Main definitions

* `Lineage.Json.parseMembers?`: the value of a whole text, with repeated keys, but only the members
  with some keys.
* `Lineage.Json.parse?`: the value of a whole text, with each key once.
-/

namespace Lineage.Json

mutual

/-- Pass over one value; `fuel` bounds the characters that are passed. -/
def skipValue : Nat → List Char → Option (List Char)
  | 0, _ => none
  | fuel + 1, cs =>
    match skipBlank cs with
    | [] => none
    | c :: rest =>
      if c = '"' then skipString rest
      else if c = 'n' then skipWord "null".toList (c :: rest)
      else if c = 't' then skipWord "true".toList (c :: rest)
      else if c = 'f' then skipWord "false".toList (c :: rest)
      else if c = '[' then
        match skipBlank rest with
        | ']' :: after => some after
        | _ => skipItems fuel rest
      else if c = '{' then
        match skipBlank rest with
        | '}' :: after => some after
        | _ => skipMembers fuel rest
      else skipNumber (c :: rest)

/-- Pass over the items of a list, up to its closing bracket. -/
def skipItems : Nat → List Char → Option (List Char)
  | 0, _ => none
  | fuel + 1, cs => do
    let rest ← skipValue fuel cs
    match skipBlank rest with
    | ',' :: more => skipItems fuel more
    | ']' :: after => some after
    | _ => none

/-- Pass over the members of an object, up to its closing brace. -/
def skipMembers : Nat → List Char → Option (List Char)
  | 0, _ => none
  | fuel + 1, cs =>
    match skipBlank cs with
    | '"' :: rest => do
      let rest ← skipString rest
      match skipBlank rest with
      | ':' :: rest =>
        let rest ← skipValue fuel rest
        match skipBlank rest with
        | ',' :: more => skipMembers fuel more
        | '}' :: after => some after
        | _ => none
      | _ => none
    | _ => none

end

section

variable (wanted : String → Bool)

mutual

/-- One value; `fuel` bounds the characters that are read and `depth` the nesting. -/
def readValue : Nat → Nat → List Char → Option (Json × List Char)
  | 0, _, _ => none
  | fuel + 1, depth, cs =>
    match skipBlank cs with
    | [] => none
    | c :: rest =>
      if c = '"' then (readString rest).map fun r => (.string r.1, r.2)
      else if c = 'n' then readWord "null".toList .null (c :: rest)
      else if c = 't' then readWord "true".toList (.bool true) (c :: rest)
      else if c = 'f' then readWord "false".toList (.bool false) (c :: rest)
      else if c = '[' then
        if depth ≤ 1 then none
        else
          match skipBlank rest with
          | ']' :: after => some (.array [], after)
          | _ => (readItems fuel (depth - 1) rest).map fun r => (.array r.1, r.2)
      else if c = '{' then
        if depth ≤ 1 then none
        else
          match skipBlank rest with
          | '}' :: after => some (.object [], after)
          | _ => (readMembers fuel (depth - 1) rest).map fun r => (.object r.1, r.2)
      else readNumber (c :: rest)

/-- The items of a list, up to its closing bracket. -/
def readItems : Nat → Nat → List Char → Option (List Json × List Char)
  | 0, _, _ => none
  | fuel + 1, depth, cs => do
    let (item, rest) ← readValue fuel depth cs
    match skipBlank rest with
    | ',' :: more =>
      let (items, after) ← readItems fuel depth more
      some (item :: items, after)
    | ']' :: after => some ([item], after)
    | _ => none

/-- The members of an object, up to its closing brace. -/
def readMembers : Nat → Nat → List Char → Option (List (String × Json) × List Char)
  | 0, _, _ => none
  | fuel + 1, depth, cs =>
    match skipBlank cs with
    | '"' :: rest => do
      let (key, rest) ← readString rest
      match skipBlank rest with
      | ':' :: rest =>
        let (kept, rest) ←
          if wanted key then (readValue fuel depth rest).map fun r => ([(key, r.1)], r.2)
          else (skipValue fuel rest).map fun after => ([], after)
        match skipBlank rest with
        | ',' :: more =>
          let (members, after) ← readMembers fuel depth more
          some (kept ++ members, after)
        | '}' :: after => some (kept, after)
        | _ => none
      | _ => none
    | _ => none

end

/-- How deep lists and objects may nest, plus one. -/
def depthLimit : Nat := 128

/-- The value of a text with nothing else around it but blank space; of the members only those with
wanted keys, repeated ones included. -/
def parseMembers? (s : String) : Option Json :=
  let cs := s.toList
  match readValue wanted (2 * cs.length + 2) depthLimit cs with
  | some (value, rest) => if (skipBlank rest).isEmpty then some value else none
  | none => none

end

/-- The value of a text; of members with one key the last counts, in the place of the first. -/
def parse? (s : String) : Option Json := (parseMembers? (fun _ => true) s).map collapse

end Lineage.Json
