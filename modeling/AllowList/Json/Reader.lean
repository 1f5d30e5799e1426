import AllowList.Json.Token

/-!
# Reading JSON text

The tokens of a text are read one by one. Between two tokens a `Stage` says
what may come next and which containers are still open, the innermost first.
A token that may not come next refuses the text as malformed, unless it broke
where a token of its kind may come, in which case it says itself why. When the
tokens end, the value must be complete and no container open; otherwise the
text was cut short.

Containers may be open 127 deep at once. A key that an object has already gets
the new value.
-/

namespace AllowList.Json

/-- A container that is still open. -/
inductive Frame where
  /-- An array and its items so far, the latest first. -/
  | array (items : List Json)
  /-- An object, its members so far, and the key whose value comes next. -/
  | object (members : Members) (key : String)
  deriving Repr

/-- What may come next. -/
inductive Stage where
  /-- A value. -/
  | value (frames : List Frame)
  /-- The first item of an array, or its end. -/
  | firstItem (frames : List Frame)
  /-- The first key of an object, or its end. -/
  | firstKey (frames : List Frame)
  /-- A further key of an object. -/
  | nextKey (members : Members) (frames : List Frame)
  /-- The colon behind a key. -/
  | colon (members : Members) (key : String) (frames : List Frame)
  /-- Whatever may follow a complete value. -/
  | after (json : Json) (frames : List Frame)
  deriving Repr

/-- How many containers may be open at once. -/
def depthLimit : Nat := 127

namespace Stage

/-- The stage behind the first token of a value. -/
def beginValue (frames : List Frame) : Token → Except Fault Stage
  | .openArray =>
    if frames.length < depthLimit then .ok (firstItem frames) else .error .malformed
  | .openObject =>
    if frames.length < depthLimit then .ok (firstKey frames) else .error .malformed
  | .text content => .ok (after (.str content) frames)
  | .scalar json => .ok (after json frames)
  | .brokenText fault | .brokenScalar fault => .error fault
  | _ => .error .malformed

/-- The stage behind a key, given the members in front of it. -/
def takeKey (members : Members) (frames : List Frame) : Token → Except Fault Stage
  | .text key => .ok (colon members key frames)
  | .brokenText fault => .error fault
  | _ => .error .malformed

/-- The stage behind a token that follows a complete value. -/
def afterValue (json : Json) : List Frame → Token → Except Fault Stage
  | .array items :: frames, .comma => .ok (value (.array (json :: items) :: frames))
  | .array items :: frames, .closeArray => .ok (after (.arr (json :: items).reverse) frames)
  | .object members key :: frames, .comma => .ok (nextKey (put key json members) frames)
  | .object members key :: frames, .closeObject => .ok (after (.obj (put key json members)) frames)
  | _, _ => .error .malformed

/-- Reads one token. -/
def step : Stage → Token → Except Fault Stage
  | .value frames, token => beginValue frames token
  | .firstItem frames, .closeArray => .ok (after (.arr []) frames)
  | .firstItem frames, token => beginValue (.array [] :: frames) token
  | .firstKey frames, .closeObject => .ok (after (.obj []) frames)
  | .firstKey frames, token => takeKey [] frames token
  | .nextKey members frames, token => takeKey members frames token
  | .colon members key frames, .colon => .ok (.value (.object members key :: frames))
  | .colon .., _ => .error .malformed
  | .after json frames, token => afterValue json frames token

/-- Reads tokens to their end. -/
def run (stage : Stage) : List Token → Except Fault Json
  | [] =>
    match stage with
    | .after json [] => .ok json
    | _ => .error .cut
  | token :: tokens =>
    match stage.step token with
    | .error fault => .error fault
    | .ok stage => run stage tokens

end Stage

/-- Reads the characters of a JSON text. -/
def readChars (chars : List Char) : Except Fault Json :=
  Stage.run (.value []) (tokens chars)

/-- Reads a JSON text. -/
def read (text : String) : Except Fault Json :=
  readChars text.toList

end AllowList.Json
