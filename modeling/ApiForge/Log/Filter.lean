import ApiForge.Log.Pattern
import ApiForge.Log.Record
/-!
Which records are shown. A filter is a list of directives with commas between
them; a directive gives a level, a target, or a target with a level, and may name
fields that a record must have. Of the directives that speak of a record the most
specific decides: the one with the longest target, then the one with the most
fields. A directive can also ask for a surrounding span or for the value of a field;
there are no spans here, so such a directive shows nothing. Nor does a filter
without directives.
-/

namespace ApiForge.Log

/-- The least grave level that is shown; nothing when no record is. -/
abbrev Threshold : Type := Option Level

/-- Whether a level passes a threshold. -/
def Threshold.admits (t : Threshold) (l : Level) : Bool :=
  match t with
  | some least => l.rank ≤ least.rank
  | none => false

/-- One directive of a filter. -/
structure Directive where
  /-- Records whose target begins like this are meant. -/
  target : Option String := none
  threshold : Threshold := some .trace
  /-- The fields that a record must have. -/
  fields : List String := []
  /-- The directive asks for a surrounding span or for the value of a field. -/
  spanned : Bool := false
deriving DecidableEq, Repr

/-- Why a text is no filter. -/
inductive FilterError where
  | directive
  | level
  /-- The value of a field is no pattern. -/
  | field (fault : Pattern.Fault)
deriving DecidableEq, Repr

/-- The wording of a filter error. -/
def FilterError.message : FilterError → String
  | directive => "invalid filter directive"
  | level =>
    "error parsing level filter: expected one of \"off\", \"error\", \"warn\", \"info\", \"debug\", \"trace\", or a number 0-5"
  | field fault => "invalid field filter: " ++ fault.message

-- ============================================================== reading

namespace Threshold

/-- The thresholds in the order of their numbers. -/
def numbered : List Threshold := none :: Level.all.map some

/-- The value of decimal digits after an optional plus sign. -/
def number? (cs : List Char) : Option Nat :=
  let digits := match cs with
    | '+' :: rest => rest
    | cs => cs
  if !digits.isEmpty && digits.all Char.isDigit then
    some (digits.foldl (fun n c => n * 10 + (c.toNat - '0'.toNat)) 0)
  else none

/-- The threshold of a number or a word. -/
def read? (cs : List Char) : Option Threshold :=
  match number? cs with
  | some n => numbered[n]?
  | none =>
    let word := String.ofList (cs.map Char.toUpper)
    if word = "" then some (some .error)
    else if word = "OFF" then some none
    else (Level.all.find? fun l => l.name == word).map some

end Threshold

namespace Directive

/-- Whether a directive may begin with a character. -/
def mayBegin (c : Char) : Bool :=
  "-:_".toList.contains c || Text.isLetterOrDigit c

/-- Reads what follows an equals sign. -/
def readLevel (d : Directive) (level : List Char) : Except FilterError Directive :=
  if level.isEmpty then .ok { d with threshold := some .trace }
  else
    match Threshold.read? level with
    | some t => .ok { d with threshold := t }
    | none => .error .level

/-- Reads what follows the brackets. `level` is what follows the first
character. -/
def readEnd (d : Directive) (rest level : List Char) : Except FilterError Directive :=
  match rest with
  | [] => .ok d
  | '=' :: _ => readLevel d level
  | _ => .error .directive

/-- What is wrong with the value that a field is to have: it is a number or a
pattern. -/
def valueFault? (value : List Char) : Option Pattern.Fault :=
  match Numeric.readFloat .double (String.ofList value) with
  | .ok _ => none
  | .error _ => Pattern.fault? value

/-- Reads a field that is asked for, with its value if it is given: what stands
between its first equals sign and the next. -/
def withField (d : Directive) (field : List Char) : Except FilterError Directive :=
  let d := { d with fields := d.fields ++ [String.ofList (field.takeWhile (· != '='))] }
  match field.dropWhile (· != '=') with
  | [] => .ok d
  | _ :: value =>
    match valueFault? (value.takeWhile (· != '=')) with
    | some fault => .error (.field fault)
    | none => .ok { d with spanned := true }

/-- Reads what stands in brackets and after them. `rest` begins after the opening
bracket, `text` is the same with what the directive was trimmed of. -/
def readSpan (d : Directive) (rest text : List Char) : Except FilterError Directive :=
  let n := (rest.takeWhile fun c => c != ']' && c != '\x7b').length
  let name := text.take n
  match rest.drop n with
  | ']' :: tail =>
    readEnd { d with spanned := true } tail (text.drop (n + 2))
  | '\x7b' :: tail =>
    let d := { d with spanned := d.spanned || !name.isEmpty }
    let m := (tail.takeWhile (· != '\x7d')).length
    let field := (text.drop (n + 1)).take m
    match tail.drop m with
    | [] => .error .directive
    | _ :: tail =>
      if field.isEmpty then .error .directive
      else do
        let d ← withField d field
        match tail with
        | ']' :: tail => readEnd d tail (text.drop (n + 1 + m + 3))
        | _ => .error .directive
  | _ => .error .directive

/-- Reads a directive. Blanks around it do not count for its form, but its parts
are cut from the text as it stands. -/
def read (text : List Char) : Except FilterError Directive :=
  let trimmed := Text.trimEndChars (Text.trimStartChars text)
  match trimmed with
  | [] => .error .directive
  | '[' :: rest => readSpan {} rest (text.drop 1)
  | c :: _ =>
    if !mayBegin c then .error .directive
    else
      let n := (trimmed.takeWhile fun c => c != '=' && c != '[').length
      let target := some (String.ofList (text.take n))
      match trimmed.drop n with
      | '=' :: _ => readLevel { target } (text.drop (n + 1))
      | '[' :: rest => readSpan { target } rest (text.drop (n + 1))
      | _ =>
        match Threshold.read? text with
        | some t => .ok { threshold := t }
        | none => .ok { target := some (String.ofList text) }

-- ============================================================= deciding

/-- Whether a directive speaks of a record. -/
def concerns (d : Directive) (r : Record) : Bool :=
  !d.spanned
    && (match d.target with
      | some target => r.target.startsWith target
      | none => true)
    && d.fields.all r.fieldNames.contains

/-- Which of two directives is more specific: the one with the longer target, then
the one with more fields. Of equally specific ones it is the one whose target, then
whose fields come last in the order of their characters. -/
def compareSpecific (a b : Directive) : Ordering :=
  let length (d : Directive) : Nat := (d.target.map fun t => t.utf8ByteSize + 1).getD 0
  (compare (length a) (length b)).then <|
    (compare a.fields.length b.fields.length).then <|
      (compare (a.target.getD "") (b.target.getD "")).then <| compare a.fields b.fields

/-- The more specific of two directives, the second if they ask for the same. -/
def moreSpecific (a b : Directive) : Directive :=
  if (compareSpecific a b).isGT then a else b

end Directive

/-- The directives of a filter. -/
abbrev Filter : Type := List Directive

namespace Filter

/-- Reads a filter. Empty pieces between commas are passed over. -/
def parse (s : String) : Except FilterError Filter :=
  ((Text.splitBy (· == ',') s.toList).filter fun p => !p.isEmpty).mapM Directive.read

/-- Whether a record is shown. -/
def admits (f : Filter) (r : Record) : Bool :=
  match f.filter fun d => d.concerns r with
  | [] => false
  | d :: ds => (ds.foldl Directive.moreSpecific d).threshold.admits r.level

end Filter

end ApiForge.Log
