import RedfishProxy.Lib.Json
import RedfishProxy.Lib.Net

/-!
# JSON Patch

`apply_patch` of the `util` module and what it is made of. The source patches a
copy in place and throws the copy away when an operation fails, so a failure
here carries its text alone. `resolve_mut` and what is then done to the place it
finds are one function: it answers `none` where there is no such place.
-/

namespace RedfishProxy.ScriptUtil

open Lib

/-- How many operations one patch may carry. -/
def MAX_PATCH_OPS : Nat := 1024

/-- Largest subtree a copy will duplicate, counted in nodes. -/
def MAX_COPY_NODES : Nat := 64 * 1024

/-! ## Pointers -/

/-- `str::replace` of a pair of characters by one. -/
def replacePair (first second by' : Char) : Text → Text
  | a :: b :: rest =>
    if a = first ∧ b = second then by' :: replacePair first second by' rest
    else a :: replacePair first second by' (b :: rest)
  | rest => rest

/-- `~1` before `~0`, or a literal `~01` would come back out as a slash. -/
def unescape (token : Text) : Text :=
  replacePair '~' '0' '~' (replacePair '~' '1' '/' token)

/-- Splits a pointer into its unescaped tokens. -/
def pointerTokens (unprintable : Char → Bool) (pointer : Text) : Except Text (List Text) :=
  match pointer with
  | [] => .ok []
  | '/' :: rest => .ok ((rest.splitOn '/').map unescape)
  | _ =>
    .error (pointer.debug unprintable ++ " is not a pointer, which starts with a slash".toList)

/-- `str::parse::<usize>`. -/
def parseUsize (text : Text) : Option Nat :=
  let digits := if text.head? = some '+' then text.tail else text
  if digits.isEmpty || !digits.all Char.isDigit then none
  else
    let value := Nat.ofDigitChars 10 digits 0
    if value < 2 ^ 64 then some value else none

/-- An array token. `-` names one past the end, which only an `add` may use. -/
def arrayIndex (unprintable : Char → Bool) (token : Text) (len : Nat) (allowEnd : Bool) :
    Except Text Nat :=
  if token = ['-'] then
    if allowEnd then .ok len
    else .error "\"-\" names one past the end, which only add may use".toList
  else
    let digits := !token.isEmpty && token.all Char.isDigit
    let refused := token.debug unprintable ++ " is not an array index".toList
    if !digits || (token.byteLen > 1 && "0".toList.isPrefixOf token) then .error refused
    else
      match parseUsize token with
      | some index => .ok index
      | none => .error refused

section Places

variable {ν α : Type} (unprintable : Char → Bool)

/-- Walks tokens to the value they address. -/
def resolve : Json ν → List Text → Option (Json ν)
  | node, [] => some node
  | .array items, token :: tokens =>
    match arrayIndex unprintable token items.length false with
    | .ok index => items[index]?.bind fun node => resolve node tokens
    | .error _ => none
  | .object fields, token :: tokens =>
    (Json.Fields.get token fields).bind fun node => resolve node tokens
  | _, _ :: _ => none

/-- Does something at the place the tokens address, and gives back what came of
it and the whole value. -/
def resolveMut (act : Json ν → Except Text (α × Json ν)) :
    Json ν → List Text → Option (Except Text (α × Json ν))
  | node, [] => some (act node)
  | .array items, token :: tokens =>
    match arrayIndex unprintable token items.length false with
    | .ok index => items[index]?.bind fun node =>
      (resolveMut act node tokens).map (Except.map fun done =>
        (done.1, .array (items.set index done.2)))
    | .error _ => none
  | .object fields, token :: tokens =>
    (Json.Fields.get token fields).bind fun node =>
      (resolveMut act node tokens).map (Except.map fun done =>
        (done.1, .object (Json.Fields.set token done.2 fields)))
  | _, _ :: _ => none

def pastTheEnd (index len : Nat) : Text :=
  decimal index ++ " is past the end of an array of ".toList ++ decimal len

/-- The parent of an `add`. -/
def addTo (last : Text) (value : Json ν) : Json ν → Except Text (Unit × Json ν)
  | .array items => do
    let index ← arrayIndex unprintable last items.length true
    if index > items.length then .error (pastTheEnd index items.length)
    else return ((), .array (items.insertIdx index value))
  | .object fields => return ((), .object (Json.Fields.insert last value fields))
  | _ => .error "the parent is neither an object nor an array".toList

def patchAdd (root : Json ν) (tokens : List Text) (value : Json ν) : Except Text (Json ν) :=
  match tokens.getLast? with
  | none => .ok value
  | some last =>
    match resolveMut unprintable (addTo unprintable last value) root tokens.dropLast with
    | none => .error "the parent does not exist".toList
    | some added => added.map Prod.snd

/-- The parent of a `remove`. -/
def removeFrom (last : Text) : Json ν → Except Text (Json ν × Json ν)
  | .array items => do
    let index ← arrayIndex unprintable last items.length false
    match items[index]? with
    | none => .error (pastTheEnd index items.length)
    | some removed => return (removed, .array (items.eraseIdx index))
  | .object fields =>
    match Json.Fields.get last fields with
    | none => .error (last.debug unprintable ++ " is not there to remove".toList)
    | some removed => return (removed, .object (Json.Fields.remove last fields))
  | _ => .error "the parent is neither an object nor an array".toList

/-- What was removed, and the rest. -/
def patchRemove (root : Json ν) (tokens : List Text) : Except Text (Json ν × Json ν) :=
  match tokens.getLast? with
  | none => .error "the whole document cannot be removed".toList
  | some last =>
    match resolveMut unprintable (removeFrom unprintable last) root tokens.dropLast with
    | none => .error "the parent does not exist".toList
    | some removed => removed

def patchMove (root : Json ν) (source path : List Text) : Except Text (Json ν) :=
  if path.length > source.length ∧ path.take source.length = source then
    .error "a location cannot move into its own descendant".toList
  else do
    let (value, rest) ← patchRemove unprintable root source
    patchAdd unprintable rest path value

/-- The assignment of `replace` to its slot. -/
def patchReplace (root : Json ν) (tokens : List Text) (value : Json ν) : Except Text (Json ν) :=
  match resolveMut unprintable (fun _ => .ok ((), value)) root tokens with
  | none => .error "the location does not exist".toList
  | some replaced => replaced.map Prod.snd

end Places

/-! ## Operations -/

section Operations

variable {ν : Type} (unprintable : Char → Bool)

/-- The required string field of an operation, as tokens. -/
def pointerField (op : Json.Fields ν) (key : Text) : Except Text (List Text) :=
  match Json.Fields.get key op with
  | some (.string text) => pointerTokens unprintable text
  | some _ => .error (key ++ " is not a string".toList)
  | none => .error (key ++ " is missing".toList)

def valueField (op : Json.Fields ν) : Except Text (Json ν) :=
  match Json.Fields.get "value".toList op with
  | some value => .ok value
  | none => .error "value is missing".toList

/-- `op`, which must be a string. -/
def nameField (op : Json.Fields ν) : Except Text Text :=
  match Json.Fields.get "op".toList op with
  | some (.string name) => .ok name
  | some _ => .error "op is not a string".toList
  | none => .error "op is missing".toList

/-- `ok_or`. -/
def okOr {α : Type} (found : Option α) (error : Text) : Except Text α :=
  match found with
  | some a => .ok a
  | none => .error error

/-- The `match` on the name of the operation. -/
def applyNamed [BEq ν] (target : Json ν) (op : Json.Fields ν) (name : Text) (path : List Text) :
    Except Text (Json ν) :=
  if name = "add".toList then do
    let value ← valueField op
    patchAdd unprintable target path value
  else if name = "remove".toList then
    (patchRemove unprintable target path).map Prod.snd
  else if name = "replace".toList then do
    let value ← valueField op
    patchReplace unprintable target path value
  else if name = "move".toList then do
    let source ← pointerField unprintable op "from".toList
    patchMove unprintable target source path
  else if name = "copy".toList then do
    let source ← pointerField unprintable op "from".toList
    let value ← okOr (resolve unprintable target source) "the source does not exist".toList
    if value.nodes > MAX_COPY_NODES then
      .error ("the source is ".toList ++ decimal value.nodes ++ " nodes, over the ".toList ++
        decimal MAX_COPY_NODES ++ " node limit".toList)
    else patchAdd unprintable target path value
  else if name = "test".toList then do
    let value ← valueField op
    let found ← okOr (resolve unprintable target path) "the location does not exist".toList
    if found == value then .ok target
    else .error "the location does not hold the tested value".toList
  else .error (name.debug unprintable ++ " is not an operation".toList)

def applyOne [BEq ν] (target : Json ν) (op : Json ν) : Except Text (Json ν) :=
  match op with
  | .object op => do
    let name ← nameField op
    let path ← pointerField unprintable op "path".toList
    applyNamed unprintable target op name path
  | _ => .error "the operation is not an object".toList

/-- The loop over the operations, from the one at `index` on. -/
def applyFrom [BEq ν] : Nat → Json ν → List (Json ν) → Except Text (Json ν)
  | _, target, [] => .ok target
  | index, target, op :: ops =>
    match applyOne unprintable target op with
    | .error error => .error ("op ".toList ++ decimal index ++ ' ' :: error)
    | .ok target => applyFrom (index + 1) target ops

def applyPatch [BEq ν] (target ops : Json ν) : Except Text (Json ν) :=
  match ops with
  | .array ops =>
    if ops.length > MAX_PATCH_OPS then
      .error ("the patch has ".toList ++ decimal ops.length ++ " operations, over the ".toList ++
        decimal MAX_PATCH_OPS ++ " limit".toList)
    else applyFrom unprintable 0 target ops
  | _ => .error "the patch is not an array of operations".toList

end Operations

end RedfishProxy.ScriptUtil
